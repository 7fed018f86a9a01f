import Mathlib.Algebra.BigOperators.Group.Finset.Piecewise
import Mathlib.Algebra.Order.BigOperators.Group.Finset
import Mathlib.Algebra.Order.Group.Multiset
import Mathlib.Data.Fintype.Basic
import Mathlib.Tactic.Abel
import DuckLake.Lib.Runs

/-!
# The inlining operator

`DuckLakeInlineData` buffers the rows that its threads insert. As long as they are at most
`inline_row_limit` they end up in `global_inlined_data`, which goes to the transaction. Once there
are more, every thread emits what it has buffered, and one of them also what other threads had
published already. A step of a thread is a call of `Execute` or of `FinalExecute`: of the shared
state these touch only what the lock protects.
-/

namespace DuckLake

/-! ## The operator -/

inductive InlinePhase where
  | inliningRows
  | emittingPreviouslyInlinedRows
  | passThroughRows
deriving DecidableEq, Repr

inductive OperatorResultType where
  | needMoreInput
  | haveMoreOutput
deriving DecidableEq, Repr

inductive OperatorFinalizeResultType where
  | haveMoreOutput
  | finished
deriving DecidableEq, Repr

structure InlineDataState (Row : Type) where
  phase : InlinePhase
  inlinedData : Option (List Row)
  /-- The rows of `inlined_data` that the scan has not returned yet. -/
  emitScan : List Row
deriving DecidableEq, Repr

structure InlineDataGlobalState (Row : Type) where
  totalInlinedRows : Nat
  globalInlinedData : Option (List Row)
deriving DecidableEq, Repr

/-- What a call returns, and the states it leaves. -/
structure InlineOutput (ρ Row : Type) where
  result : ρ
  chunk : List Row
  gstate : InlineDataGlobalState Row
  state : InlineDataState Row
deriving DecidableEq, Repr

variable {Row : Type}

/-- `GetOperatorState`. -/
def InlineDataState.initial : InlineDataState Row := ⟨.inliningRows, none, []⟩

/-- `GetGlobalOperatorState`. -/
def InlineDataGlobalState.initial : InlineDataGlobalState Row := ⟨0, none⟩

def addToCollection (source : List Row) : Option (List Row) → List Row
  | none => source
  | some target => target ++ source

namespace InlineDataState

/-- `inlined_data->InitializeScan`. -/
def initializeScan (state : InlineDataState Row) (data : List Row) : InlineDataState Row :=
  { state with emitScan := data, phase := .emittingPreviouslyInlinedRows }

/-- `inlined_data->Scan`: the next chunk, of whatever size the collection has stored it with. It is
empty at the end of the collection only. -/
def scan (state : InlineDataState Row) (size : Nat) : List Row × InlineDataState Row :=
  (state.emitScan.take (size + 1), { state with emitScan := state.emitScan.drop (size + 1) })

end InlineDataState

namespace InlineDataGlobalState

def addRows (inlineRowLimit : Nat) (gstate : InlineDataGlobalState Row)
    (state : InlineDataState Row) (newRows : Nat) :
    InlinePhase × InlineDataGlobalState Row × InlineDataState Row :=
  if gstate.totalInlinedRows + newRows > inlineRowLimit then
    match gstate.globalInlinedData with
    | some data => (.passThroughRows, ⟨gstate.totalInlinedRows + newRows, none⟩,
        { state with inlinedData := some (addToCollection data state.inlinedData) })
    | none => (.passThroughRows, ⟨gstate.totalInlinedRows + newRows, none⟩, state)
  else
    (.inliningRows, { gstate with totalInlinedRows := gstate.totalInlinedRows + newRows }, state)

end InlineDataGlobalState

section Operator

variable (inlineRowLimit : Nat)

/-- `Execute`. -/
def inlineExecute (input : List Row) (size : Nat) (gstate : InlineDataGlobalState Row)
    (state : InlineDataState Row) : InlineOutput OperatorResultType Row :=
  match state.phase with
  | .passThroughRows => ⟨.needMoreInput, input, gstate, state⟩
  | .emittingPreviouslyInlinedRows =>
    match state.scan size with
    | ([], state) => ⟨.haveMoreOutput, [], gstate,
        { state with inlinedData := none, phase := .passThroughRows }⟩
    | (chunk, state) => ⟨.haveMoreOutput, chunk, gstate, state⟩
  | .inliningRows =>
    match gstate.addRows inlineRowLimit state input.length with
    | (.inliningRows, gstate, state) => ⟨.needMoreInput, [], gstate,
        { state with inlinedData := some (addToCollection input state.inlinedData) }⟩
    | (_, gstate, state) =>
      match state.inlinedData with
      | some data => ⟨.haveMoreOutput, [], gstate, state.initializeScan data⟩
      | none => ⟨.haveMoreOutput, [], gstate, { state with phase := .passThroughRows }⟩

/-- `FinalExecute`, past the phase test. -/
def pushInlinedData (gstate : InlineDataGlobalState Row) (state : InlineDataState Row) :
    InlineOutput OperatorFinalizeResultType Row :=
  match state.inlinedData with
  | none => ⟨.finished, [], gstate, state⟩
  | some data =>
    if gstate.totalInlinedRows > inlineRowLimit then
      ⟨.haveMoreOutput, [], gstate, state.initializeScan data⟩
    else
      ⟨.finished, [], { gstate with
        globalInlinedData := some (addToCollection data gstate.globalInlinedData) },
        { state with inlinedData := none }⟩

/-- `FinalExecute`. -/
def inlineFinalExecute (size : Nat) (gstate : InlineDataGlobalState Row)
    (state : InlineDataState Row) : InlineOutput OperatorFinalizeResultType Row :=
  match state.phase with
  | .emittingPreviouslyInlinedRows =>
    match state.scan size with
    | ([], state) => ⟨.finished, [], gstate, { state with inlinedData := none }⟩
    | (chunk, state) => ⟨.haveMoreOutput, chunk, gstate, state⟩
  | _ => pushInlinedData inlineRowLimit gstate state

end Operator

/-- `OperatorFinalize`: the rows that go to the transaction and the insert count with them. -/
def inlineOperatorFinalize (gstate : InlineDataGlobalState Row) (totalInsertCount : Nat) :
    Except String (Option (List Row × Nat)) :=
  match gstate.globalInlinedData with
  | none => .ok none
  | some data =>
    if totalInsertCount ≠ 0 then
      .error "Inlining rows but also inserting rows through a file"
    else
      .ok (some (data, data.length))

/-! ## Runs of the threads -/

/-- A thread of the pipeline. -/
structure InlineThread (Row : Type) where
  state : InlineDataState Row
  /-- The input chunks to come. The first one is passed again until `Execute` needs more input. -/
  inputs : List (List Row)
  finished : Bool

structure InlineRun (ι Row : Type) where
  gstate : InlineDataGlobalState Row
  threads : ι → InlineThread Row
  emitted : List Row
  /-- `total_insert_count`: the rows of the files that the insert has been told of. -/
  totalInsertCount : Nat

inductive InlineAction (ι : Type) where
  | execute (i : ι) (size : Nat)
  | finalExecute (i : ι) (size : Nat)
  /-- The copy has written some of the emitted rows to a file. -/
  | sinkFile (rowCount : Nat)

namespace InlineThread

def execute (inlineRowLimit : Nat) (gstate : InlineDataGlobalState Row) (t : InlineThread Row)
    (input : List Row) (rest : List (List Row)) (size : Nat) :
    List Row × InlineDataGlobalState Row × InlineThread Row :=
  let out := inlineExecute inlineRowLimit input size gstate t.state
  (out.chunk, out.gstate,
    { t with state := out.state, inputs := if out.result = .needMoreInput then rest else t.inputs })

def finalExecute (inlineRowLimit : Nat) (gstate : InlineDataGlobalState Row) (t : InlineThread Row)
    (size : Nat) : List Row × InlineDataGlobalState Row × InlineThread Row :=
  let out := inlineFinalExecute inlineRowLimit size gstate t.state
  (out.chunk, out.gstate, { t with state := out.state, finished := out.result = .finished })

end InlineThread

namespace InlineRun

variable {ι : Type} [DecidableEq ι]

def initial (inputs : ι → List (List Row)) : InlineRun ι Row where
  gstate := .initial
  threads i := ⟨.initial, inputs i, false⟩
  emitted := []
  totalInsertCount := 0

/-- What thread `i` has output goes to the copy. -/
def emit (s : InlineRun ι Row) (i : ι)
    (out : List Row × InlineDataGlobalState Row × InlineThread Row) : InlineRun ι Row :=
  { s with
    emitted := s.emitted ++ out.1
    gstate := out.2.1
    threads := Function.update s.threads i out.2.2 }

def step (inlineRowLimit : Nat) (s : InlineRun ι Row) :
    InlineAction ι → Option (InlineRun ι Row)
  | .execute i size =>
    match (s.threads i).inputs with
    | [] => none
    | input :: rest =>
      some (s.emit i ((s.threads i).execute inlineRowLimit s.gstate input rest size))
  | .finalExecute i size =>
    match (s.threads i).inputs, (s.threads i).finished with
    | [], false => some (s.emit i ((s.threads i).finalExecute inlineRowLimit s.gstate size))
    | _, _ => none
  | .sinkFile rowCount =>
    if s.totalInsertCount + rowCount ≤ s.emitted.length then
      some { s with totalInsertCount := s.totalInsertCount + rowCount }
    else
      none

end InlineRun

end DuckLake
