import Mathlib.Data.Fin.VecNotation
import DuckLake.Storage.InlineData

/-!
# The inlining operator keeps every row

Every row is in one place: in an input chunk that is still to come, in the buffer of a thread, in
`global_inlined_data`, or emitted. A thread keeps buffering as long as the total is within the
limit, and nobody publishes rows once it is not. So at the end either all rows are in
`global_inlined_data` or all are emitted.
-/

namespace DuckLake

variable {Row : Type}

/-! ## Where the rows are -/

def InlineDataGlobalState.rows (gstate : InlineDataGlobalState Row) : Multiset Row :=
  (gstate.globalInlinedData.getD [] : List Row)

/-- The rows that a thread has taken and neither published nor emitted. -/
def InlineDataState.held (state : InlineDataState Row) : List Row :=
  match state.phase with
  | .inliningRows => state.inlinedData.getD []
  | .emittingPreviouslyInlinedRows => state.emitScan
  | .passThroughRows => []

namespace InlineThread

def rows (t : InlineThread Row) : Multiset Row := (t.state.held : Multiset Row) + t.inputs.flatten

/-- The rows that the thread may still count. -/
def uncounted (t : InlineThread Row) : Nat :=
  if t.state.phase = .inliningRows then t.inputs.flatten.length else 0

structure WellFormed (t : InlineThread Row) : Prop where
  passThrough : t.state.phase = .passThroughRows → t.state.inlinedData = none
  finished : t.finished = true → t.inputs = [] ∧ t.state.held = []

/-- How many steps a thread takes at most that emit nothing. -/
def rank (t : InlineThread Row) : Nat :=
  t.inputs.length + (if t.finished then 0 else 1) +
    match t.state.phase with
    | .inliningRows => 2
    | .emittingPreviouslyInlinedRows => 1
    | .passThroughRows => 0

/-- What a step of a thread does, from `gstate` and `t` to the states in `out`. -/
structure Keeps (inlineRowLimit : Nat) (gstate : InlineDataGlobalState Row) (t : InlineThread Row)
    (out : List Row × InlineDataGlobalState Row × InlineThread Row) : Prop where
  conserved : (out.1 : Multiset Row) + out.2.1.rows + out.2.2.rows = gstate.rows + t.rows
  counted : out.2.1.totalInlinedRows + out.2.2.uncounted ≤ gstate.totalInlinedRows + t.uncounted
  grows : gstate.totalInlinedRows ≤ out.2.1.totalInlinedRows
  within : out.2.1.totalInlinedRows ≤ inlineRowLimit → t.state.phase = .inliningRows →
    out.1 = [] ∧ out.2.2.state.phase = .inliningRows ∧
      out.2.1.totalInlinedRows + out.2.2.uncounted = gstate.totalInlinedRows + t.uncounted
  exceeded : (inlineRowLimit < gstate.totalInlinedRows → gstate.globalInlinedData = none) →
    inlineRowLimit < out.2.1.totalInlinedRows → out.2.1.globalInlinedData = none
  wellFormed : out.2.2.WellFormed
  advances : out.2.2.rank < t.rank ∨ out.1 ≠ [] ∧ out.2.2.rank ≤ t.rank

end InlineThread

/-! ## Calls of the operator -/

theorem coe_addToCollection (source : List Row) (target : Option (List Row)) :
    (addToCollection source target : Multiset Row) = (target.getD [] : List Row) + source := by
  cases target <;> simp [addToCollection]

theorem scan_nil {state : InlineDataState Row} {size : Nat} (h : state.emitScan = []) :
    state.scan size = ([], state) := by
  cases state
  simp_all [InlineDataState.scan]

theorem scan_cons {state : InlineDataState Row} {size : Nat} {r : Row} {rs : List Row}
    (h : state.emitScan = r :: rs) :
    state.scan size = (r :: rs.take size, { state with emitScan := rs.drop size }) := by
  simp [InlineDataState.scan, h]

section Steps

variable {inlineRowLimit size : Nat} {gstate : InlineDataGlobalState Row} {t : InlineThread Row}
  {input : List Row} {rest : List (List Row)}

open InlineThread

/-- The next chunk of a scan. -/
theorem keeps_scan (hfinished : t.finished = false)
    (hphase : t.state.phase = .emittingPreviouslyInlinedRows) {r : Row} {rs : List Row}
    (hscan : t.state.emitScan = r :: rs) :
    InlineThread.Keeps inlineRowLimit gstate t (r :: rs.take size, gstate,
      { t with state := { t.state with emitScan := rs.drop size } }) := by
  constructor
  · have hsplit : ((rs.take size : List Row) : Multiset Row) + (rs.drop size : List Row) = rs := by
      rw [Multiset.coe_add, List.take_append_drop]
    simp only [rows, InlineDataState.held, hphase, hscan, ← Multiset.cons_coe, ← hsplit,
      ← Multiset.singleton_add]
    abel
  · simp [uncounted, hphase]
  · exact le_rfl
  · intro _ hinlining
    cases hphase.symm.trans hinlining
  · exact fun h => h
  · exact ⟨fun h => by simp [hphase] at h, fun h => by simp [hfinished] at h⟩
  · simp [rank, hphase]

/-- The rows that a thread has buffered, and those it has taken over, are to be emitted. -/
theorem keeps_initializeScan (hfinished : t.finished = false)
    (hphase : t.state.phase = .inliningRows) {gstate' : InlineDataGlobalState Row}
    {data : List Row} (hrows : gstate'.rows + data = gstate.rows + t.state.held)
    (hcounted : gstate'.totalInlinedRows ≤ gstate.totalInlinedRows + t.uncounted)
    (hgrows : gstate.totalInlinedRows ≤ gstate'.totalInlinedRows)
    (hlimit : inlineRowLimit < gstate'.totalInlinedRows)
    (hglobal : (inlineRowLimit < gstate.totalInlinedRows → gstate.globalInlinedData = none) →
      gstate'.globalInlinedData = none) (inlinedData : Option (List Row)) :
    InlineThread.Keeps inlineRowLimit gstate t ([], gstate',
      { t with state := ⟨.emittingPreviouslyInlinedRows, inlinedData, data⟩ }) := by
  constructor
  · have hnew : ({ t with state := ⟨.emittingPreviouslyInlinedRows, inlinedData, data⟩ } :
        InlineThread Row).rows = (data : Multiset Row) + t.inputs.flatten := rfl
    rw [hnew, rows, Multiset.coe_nil, zero_add, ← add_assoc, hrows, add_assoc]
  · simpa [uncounted] using hcounted
  · exact hgrows
  · intro h
    exact absurd hlimit (by simpa using h)
  · exact fun h _ => hglobal h
  · exact ⟨fun h => by simp at h, fun h => by simp [hfinished] at h⟩
  · simp [rank, hphase]

theorem execute_passThrough (hwf : t.WellFormed) (hfinished : t.finished = false)
    (hinputs : t.inputs = input :: rest) (hphase : t.state.phase = .passThroughRows) :
    InlineThread.Keeps inlineRowLimit gstate t (t.execute inlineRowLimit gstate input rest size) := by
  have hout : t.execute inlineRowLimit gstate input rest size =
      (input, gstate, { t with inputs := rest }) := by
    simp [InlineThread.execute, inlineExecute, hphase]
  rw [hout]
  constructor
  · simp only [rows, hinputs, List.flatten_cons, ← Multiset.coe_add]
    abel
  · simp [uncounted, hphase]
  · exact le_rfl
  · intro _ hinlining
    cases hphase.symm.trans hinlining
  · exact fun h => h
  · exact ⟨hwf.passThrough, fun h => by simp [hfinished] at h⟩
  · simp [rank, hinputs]

theorem execute_emitting (hfinished : t.finished = false)
    (hphase : t.state.phase = .emittingPreviouslyInlinedRows) :
    InlineThread.Keeps inlineRowLimit gstate t (t.execute inlineRowLimit gstate input rest size) := by
  cases hscan : t.state.emitScan with
  | nil =>
    have hout : t.execute inlineRowLimit gstate input rest size = ([], gstate,
        { t with state := { t.state with inlinedData := none, phase := .passThroughRows } }) := by
      simp [InlineThread.execute, inlineExecute, hphase, scan_nil hscan]
    rw [hout]
    constructor
    · simp [rows, InlineDataState.held, hphase, hscan]
    · simp [uncounted, hphase]
    · exact le_rfl
    · intro _ hinlining
      cases hphase.symm.trans hinlining
    · exact fun h => h
    · exact ⟨fun _ => rfl, fun h => by simp [hfinished] at h⟩
    · simp [rank, hphase]
  | cons r rs =>
    have hout : t.execute inlineRowLimit gstate input rest size = (r :: rs.take size, gstate,
        { t with state := { t.state with emitScan := rs.drop size } }) := by
      simp [InlineThread.execute, inlineExecute, hphase, scan_cons hscan]
    rw [hout]
    exact keeps_scan hfinished hphase hscan

theorem execute_inlining (hfinished : t.finished = false) (hinputs : t.inputs = input :: rest)
    (hphase : t.state.phase = .inliningRows) :
    InlineThread.Keeps inlineRowLimit gstate t (t.execute inlineRowLimit gstate input rest size) := by
  have huncounted : t.uncounted = input.length + rest.flatten.length := by
    simp [uncounted, hphase, hinputs]
  have hheld : t.state.held = t.state.inlinedData.getD [] := by
    simp only [InlineDataState.held, hphase]
  by_cases hlimit : gstate.totalInlinedRows + input.length > inlineRowLimit
  · cases hglobal : gstate.globalInlinedData with
    | some data =>
      -- this thread takes over what others have published
      have hout : t.execute inlineRowLimit gstate input rest size =
          ([], ⟨gstate.totalInlinedRows + input.length, none⟩,
            { t with state := ⟨.emittingPreviouslyInlinedRows,
              some (addToCollection data t.state.inlinedData),
              addToCollection data t.state.inlinedData⟩ }) := by
        simp [InlineThread.execute, inlineExecute, hphase, InlineDataGlobalState.addRows, hlimit,
          hglobal, InlineDataState.initializeScan]
      rw [hout]
      refine keeps_initializeScan hfinished hphase ?_ ?_ (Nat.le_add_right _ _) hlimit
        (fun _ => rfl) _
      · simp only [InlineDataGlobalState.rows, hglobal, Option.getD_none, Option.getD_some,
          coe_addToCollection, hheld, Multiset.coe_nil, zero_add, add_comm]
      · simp [huncounted]
    | none =>
      cases hlocal : t.state.inlinedData with
      | some data =>
        have hout : t.execute inlineRowLimit gstate input rest size =
            ([], ⟨gstate.totalInlinedRows + input.length, none⟩,
              { t with state := ⟨.emittingPreviouslyInlinedRows, some data, data⟩ }) := by
          simp [InlineThread.execute, inlineExecute, hphase, InlineDataGlobalState.addRows, hlimit,
            hglobal, hlocal, InlineDataState.initializeScan]
        rw [hout]
        refine keeps_initializeScan hfinished hphase ?_ ?_ (Nat.le_add_right _ _) hlimit
          (fun _ => rfl) _
        · simp [InlineDataGlobalState.rows, hglobal, hheld, hlocal]
        · simp [huncounted]
      | none =>
        have hout : t.execute inlineRowLimit gstate input rest size =
            ([], ⟨gstate.totalInlinedRows + input.length, none⟩,
              { t with state := { t.state with phase := .passThroughRows } }) := by
          simp [InlineThread.execute, inlineExecute, hphase, InlineDataGlobalState.addRows, hlimit,
            hglobal, hlocal]
        rw [hout]
        constructor
        · simp [rows, InlineDataGlobalState.rows, hglobal, hphase, hlocal, InlineDataState.held]
        · simp [uncounted, hphase, hinputs]
        · exact Nat.le_add_right _ _
        · intro h
          exact absurd hlimit (by simpa using h)
        · exact fun _ _ => rfl
        · exact ⟨fun _ => hlocal, fun h => by simp [hfinished] at h⟩
        · simp [rank, hphase]
  · have hout : t.execute inlineRowLimit gstate input rest size =
        ([], { gstate with totalInlinedRows := gstate.totalInlinedRows + input.length },
          { t with
            state := { t.state with inlinedData := some (addToCollection input t.state.inlinedData) }
            inputs := rest }) := by
      simp [InlineThread.execute, inlineExecute, hphase, InlineDataGlobalState.addRows, hlimit]
    rw [hout]
    constructor
    · simp only [rows, InlineDataGlobalState.rows, InlineDataState.held, hphase, hinputs,
        Option.getD_some, coe_addToCollection, List.flatten_cons, ← Multiset.coe_add,
        Multiset.coe_nil, zero_add, add_assoc]
    · simp only [uncounted, hphase, hinputs, if_true, List.flatten_cons, List.length_append]
      omega
    · exact Nat.le_add_right _ _
    · intro _ _
      refine ⟨rfl, hphase, ?_⟩
      simp only [uncounted, hphase, hinputs, if_true, List.flatten_cons, List.length_append]
      omega
    · intro _ h
      exact absurd h (by simpa using hlimit)
    · exact ⟨fun h => by simp [hphase] at h, fun h => by simp [hfinished] at h⟩
    · simp [rank, hinputs]

theorem keeps_execute (hwf : t.WellFormed) (hinputs : t.inputs = input :: rest) :
    InlineThread.Keeps inlineRowLimit gstate t (t.execute inlineRowLimit gstate input rest size) := by
  have hfinished : t.finished = false := by
    by_contra h
    simpa [hinputs] using (hwf.finished (by simpa using h)).1
  cases hphase : t.state.phase with
  | inliningRows => exact execute_inlining hfinished hinputs hphase
  | emittingPreviouslyInlinedRows => exact execute_emitting hfinished hphase
  | passThroughRows => exact execute_passThrough hwf hfinished hinputs hphase

/-- A thread that has nothing left. -/
theorem keeps_finished (hfinished : t.finished = false) (hinputs : t.inputs = [])
    (hheld : t.state.held = []) {state' : InlineDataState Row} (hphase : state'.phase = t.state.phase)
    (hnone : state'.inlinedData = none) (hscan : state'.emitScan = t.state.emitScan) :
    InlineThread.Keeps inlineRowLimit gstate t ([], gstate, { t with state := state', finished := true }) := by
  have hheld' : state'.held = [] := by
    simp only [InlineDataState.held, hphase, hnone, hscan] at hheld ⊢
    split at hheld <;> simp_all
  constructor
  · simp [rows, hheld, hheld', hinputs]
  · simp [uncounted, hinputs]
  · exact le_rfl
  · intro _ h
    exact ⟨rfl, hphase.trans h, by simp [uncounted, hinputs]⟩
  · exact fun h => h
  · exact ⟨fun _ => hnone, fun _ => ⟨hinputs, hheld'⟩⟩
  · simp [rank, hphase, hfinished]

theorem finalExecute_inlining (hfinished : t.finished = false) (hinputs : t.inputs = [])
    (hphase : t.state.phase = .inliningRows) :
    InlineThread.Keeps inlineRowLimit gstate t (t.finalExecute inlineRowLimit gstate size) := by
  have hheld : t.state.held = t.state.inlinedData.getD [] := by
    simp only [InlineDataState.held, hphase]
  cases hlocal : t.state.inlinedData with
  | none =>
    have hout : t.finalExecute inlineRowLimit gstate size =
        ([], gstate, { t with state := t.state, finished := true }) := by
      simp [InlineThread.finalExecute, inlineFinalExecute, hphase, pushInlinedData, hlocal]
    rw [hout]
    exact keeps_finished hfinished hinputs (by simp [hheld, hlocal]) rfl hlocal rfl
  | some data =>
    by_cases hlimit : gstate.totalInlinedRows > inlineRowLimit
    · have hout : t.finalExecute inlineRowLimit gstate size =
          ([], gstate, { t with
            state := ⟨.emittingPreviouslyInlinedRows, some data, data⟩ }) := by
        simp [InlineThread.finalExecute, inlineFinalExecute, hphase, pushInlinedData, hlocal, hlimit,
          hfinished, InlineDataState.initializeScan]
      rw [hout]
      refine keeps_initializeScan hfinished hphase ?_ (Nat.le_add_right _ _) le_rfl hlimit
        (fun h => h hlimit) _
      simp [hheld, hlocal]
    · have hout : t.finalExecute inlineRowLimit gstate size =
          ([], { gstate with
              globalInlinedData := some (addToCollection data gstate.globalInlinedData) },
            { t with state := { t.state with inlinedData := none }, finished := true }) := by
        simp [InlineThread.finalExecute, inlineFinalExecute, hphase, pushInlinedData, hlocal, hlimit]
      rw [hout]
      constructor
      · simp [rows, InlineDataGlobalState.rows, InlineDataState.held, hphase, hlocal, hinputs,
          coe_addToCollection]
      · simp [uncounted, hinputs]
      · exact le_rfl
      · intro _ _
        exact ⟨rfl, hphase, by simp [uncounted, hinputs]⟩
      · intro _ h
        exact absurd h hlimit
      · exact ⟨fun _ => rfl, fun _ => ⟨hinputs, by simp [InlineDataState.held, hphase]⟩⟩
      · simp [rank, hphase, hfinished]

theorem keeps_finalExecute (hwf : t.WellFormed) (hfinished : t.finished = false)
    (hinputs : t.inputs = []) :
    InlineThread.Keeps inlineRowLimit gstate t (t.finalExecute inlineRowLimit gstate size) := by
  cases hphase : t.state.phase with
  | inliningRows => exact finalExecute_inlining hfinished hinputs hphase
  | emittingPreviouslyInlinedRows =>
    cases hscan : t.state.emitScan with
    | nil =>
      have hout : t.finalExecute inlineRowLimit gstate size = ([], gstate,
          { t with state := { t.state with inlinedData := none }, finished := true }) := by
        simp [InlineThread.finalExecute, inlineFinalExecute, hphase, scan_nil hscan]
      rw [hout]
      exact keeps_finished hfinished hinputs (by simp [InlineDataState.held, hphase, hscan])
        rfl rfl rfl
    | cons r rs =>
      have hout : t.finalExecute inlineRowLimit gstate size = (r :: rs.take size, gstate,
          { t with state := { t.state with emitScan := rs.drop size } }) := by
        simp [InlineThread.finalExecute, inlineFinalExecute, hphase, scan_cons hscan, hfinished]
      rw [hout]
      exact keeps_scan hfinished hphase hscan
  | passThroughRows =>
    have hnone : t.state.inlinedData = none := hwf.passThrough hphase
    have hout : t.finalExecute inlineRowLimit gstate size =
        ([], gstate, { t with state := t.state, finished := true }) := by
      simp [InlineThread.finalExecute, inlineFinalExecute, hphase, pushInlinedData, hnone]
    rw [hout]
    exact keeps_finished hfinished hinputs (by simp [InlineDataState.held, hphase]) rfl hnone rfl

end Steps

/-! ## Runs -/

section Runs

variable {ι : Type} [Fintype ι] [DecidableEq ι]

/-- A sum over the threads when one of them has changed. -/
theorem sum_update_add {σ M : Type} [AddCommMonoid M] (f : σ → M) (g : ι → σ) (i : ι) (x : σ) :
    ∑ j, f (Function.update g i x j) + f (g i) = ∑ j, f (g j) + f x := by
  have hcomp : (fun j => f (Function.update g i x j)) =
      Function.update (fun j => f (g j)) i (f x) := by
    funext j
    exact Function.apply_update (fun _ => f) g i x j
  rw [hcomp, Finset.sum_update_of_mem (Finset.mem_univ i), add_right_comm, add_comm,
    ← Finset.add_sum_erase _ (fun j => f (g j)) (Finset.mem_univ i), Finset.sdiff_singleton_eq_erase]
  abel

namespace InlineRun

/-- All rows that the threads are given. -/
def allRows (inputs : ι → List (List Row)) : Multiset Row :=
  ∑ i, ((inputs i).flatten : Multiset Row)

/-- Every thread has finished, which is when `OperatorFinalize` is called. -/
def Finished (s : InlineRun ι Row) : Prop := ∀ i, (s.threads i).finished = true

structure Invariant (inlineRowLimit : Nat) (all : Multiset Row) (s : InlineRun ι Row) : Prop where
  conserved : (s.emitted : Multiset Row) + s.gstate.rows + ∑ i, (s.threads i).rows = all
  counted : s.gstate.totalInlinedRows + ∑ i, (s.threads i).uncounted ≤ all.card
  within : s.gstate.totalInlinedRows ≤ inlineRowLimit →
    s.emitted = [] ∧ (∀ i, (s.threads i).state.phase = .inliningRows) ∧
      s.gstate.totalInlinedRows + ∑ i, (s.threads i).uncounted = all.card
  exceeded : inlineRowLimit < s.gstate.totalInlinedRows → s.gstate.globalInlinedData = none
  wellFormed : ∀ i, (s.threads i).WellFormed
  written : s.totalInsertCount ≤ s.emitted.length

variable {inlineRowLimit : Nat} {s s' : InlineRun ι Row} {inputs : ι → List (List Row)}
  {all : Multiset Row}

omit [DecidableEq ι] in
theorem invariant_initial : Invariant inlineRowLimit (allRows inputs) (initial inputs) := by
  have hrows : ∀ i, ((initial inputs).threads i).rows = (inputs i).flatten := by
    intro i
    simp [initial, InlineThread.rows, InlineDataState.initial, InlineDataState.held]
  have huncounted : ∀ i, ((initial inputs).threads i).uncounted = (inputs i).flatten.length := by
    intro i
    simp [initial, InlineThread.uncounted, InlineDataState.initial]
  have hcard : (initial inputs).gstate.totalInlinedRows +
      ∑ i, ((initial inputs).threads i).uncounted = (allRows inputs).card := by
    simp only [huncounted]
    simp [allRows, initial, InlineDataGlobalState.initial]
  constructor
  · simp only [hrows, allRows]
    simp [initial, InlineDataGlobalState.initial, InlineDataGlobalState.rows]
  · exact hcard.le
  · exact fun _ => ⟨rfl, fun _ => rfl, hcard⟩
  · exact fun _ => rfl
  · intro i
    exact ⟨fun h => by simp [initial, InlineDataState.initial] at h, fun h => by simp [initial] at h⟩
  · exact Nat.zero_le _

/-- What a thread outputs keeps the invariant of the run. -/
theorem Invariant.emit (h : Invariant inlineRowLimit all s) {i : ι}
    {out : List Row × InlineDataGlobalState Row × InlineThread Row}
    (hkeeps : InlineThread.Keeps inlineRowLimit s.gstate (s.threads i) out) :
    Invariant inlineRowLimit all (s.emit i out) := by
  have hrows := sum_update_add InlineThread.rows s.threads i out.2.2
  have huncounted := sum_update_add InlineThread.uncounted s.threads i out.2.2
  have hconserved := hkeeps.conserved
  have hcounted := hkeeps.counted
  have hgrows := hkeeps.grows
  constructor
  · have hsum : ((s.emit i out).emitted : Multiset Row) + (s.emit i out).gstate.rows +
        ∑ j, ((s.emit i out).threads j).rows + (s.threads i).rows = all + (s.threads i).rows := by
      calc ((s.emit i out).emitted : Multiset Row) + (s.emit i out).gstate.rows +
            ∑ j, ((s.emit i out).threads j).rows + (s.threads i).rows
          = s.emitted + (out.1 + out.2.1.rows + (∑ j, (s.threads j).rows + out.2.2.rows)) := by
            rw [← hrows, InlineRun.emit]
            simp only [← Multiset.coe_add]
            abel
        _ = s.emitted + (out.1 + out.2.1.rows + out.2.2.rows) + ∑ j, (s.threads j).rows := by
            abel
        _ = s.emitted + s.gstate.rows + ∑ j, (s.threads j).rows + (s.threads i).rows := by
            rw [hconserved]
            abel
        _ = all + (s.threads i).rows := by rw [h.conserved]
    exact add_right_cancel hsum
  · have hold := h.counted
    show out.2.1.totalInlinedRows + ∑ j, (Function.update s.threads i out.2.2 j).uncounted ≤ _
    omega
  · intro hlimit
    obtain ⟨hemitted, hphases, htotal⟩ := h.within (hgrows.trans hlimit)
    obtain ⟨hchunk, hphase, hexact⟩ := hkeeps.within hlimit (hphases i)
    refine ⟨?_, ?_, ?_⟩
    · simp [InlineRun.emit, hemitted, hchunk]
    · intro j
      by_cases hj : j = i
      · subst hj
        simpa [InlineRun.emit] using hphase
      · simpa [InlineRun.emit, hj] using hphases j
    · show out.2.1.totalInlinedRows + ∑ j, (Function.update s.threads i out.2.2 j).uncounted = _
      omega
  · exact hkeeps.exceeded h.exceeded
  · intro j
    by_cases hj : j = i
    · subst hj
      simpa [InlineRun.emit] using hkeeps.wellFormed
    · simpa [InlineRun.emit, hj] using h.wellFormed j
  · have hwritten := h.written
    simp only [InlineRun.emit, List.length_append]
    omega

omit [Fintype ι] in
theorem step_cases {a : InlineAction ι} (hwf : ∀ i, (s.threads i).WellFormed)
    (h : s.step inlineRowLimit a = some s') :
    (∃ i out, InlineThread.Keeps inlineRowLimit s.gstate (s.threads i) out ∧ s' = s.emit i out) ∨
    (∃ rowCount, a = .sinkFile rowCount ∧ s.totalInsertCount + rowCount ≤ s.emitted.length ∧
      s' = { s with totalInsertCount := s.totalInsertCount + rowCount }) := by
  cases a with
  | execute i size =>
    simp only [step] at h
    cases hinputs : (s.threads i).inputs with
    | nil => simp [hinputs] at h
    | cons input rest =>
      simp only [hinputs, Option.some.injEq] at h
      exact .inl ⟨i, _, keeps_execute (hwf i) hinputs, h.symm⟩
  | finalExecute i size =>
    simp only [step] at h
    cases hinputs : (s.threads i).inputs with
    | cons input rest => simp [hinputs] at h
    | nil =>
      cases hfinished : (s.threads i).finished with
      | true => simp [hinputs, hfinished] at h
      | false =>
        simp only [hinputs, hfinished, Option.some.injEq] at h
        exact .inl ⟨i, _, keeps_finalExecute (hwf i) hfinished hinputs, h.symm⟩
  | sinkFile rowCount =>
    simp only [step] at h
    split at h
    next hle => exact .inr ⟨rowCount, rfl, hle, (Option.some.inj h).symm⟩
    next => cases h

theorem Invariant.step {a : InlineAction ι} (h : Invariant inlineRowLimit all s)
    (hstep : s.step inlineRowLimit a = some s') : Invariant inlineRowLimit all s' := by
  obtain ⟨i, out, hkeeps, rfl⟩ | ⟨rowCount, -, hle, rfl⟩ := step_cases h.wellFormed hstep
  · exact h.emit hkeeps
  · exact ⟨h.conserved, h.counted, h.within, h.exceeded, h.wellFormed, hle⟩

theorem invariant_of_reaches
    (h : Reaches (InlineRun.step inlineRowLimit) (fun _ _ => True) (initial inputs) s) :
    Invariant inlineRowLimit (allRows inputs) s :=
  h.invariant invariant_initial fun _ _ _ hinv _ hstep => hinv.step hstep

omit [DecidableEq ι] in
/-- A finished thread holds nothing. -/
theorem Invariant.of_finished (h : Invariant inlineRowLimit all s) (hfinished : s.Finished) :
    (s.emitted : Multiset Row) + s.gstate.rows = all ∧
      ∑ i, (s.threads i).uncounted = 0 := by
  have hrows : ∀ i, (s.threads i).rows = 0 := by
    intro i
    obtain ⟨hinputs, hheld⟩ := (h.wellFormed i).finished (hfinished i)
    simp [InlineThread.rows, hinputs, hheld]
  have huncounted : ∀ i, (s.threads i).uncounted = 0 := by
    intro i
    obtain ⟨hinputs, -⟩ := (h.wellFormed i).finished (hfinished i)
    simp [InlineThread.uncounted, hinputs]
  constructor
  · simpa [hrows] using h.conserved
  · simp [huncounted]

/-- However the threads interleave: within the limit all rows are inlined and none is emitted, past
it none is inlined and all are emitted. `OperatorFinalize` does not throw. -/
theorem inlined_or_emitted
    (h : Reaches (InlineRun.step inlineRowLimit) (fun _ _ => True) (initial inputs) s)
    (hfinished : s.Finished) :
    ((allRows inputs).card ≤ inlineRowLimit ∧ s.gstate.rows = allRows inputs ∧ s.emitted = [] ∨
      inlineRowLimit < (allRows inputs).card ∧ s.gstate.globalInlinedData = none ∧
        (s.emitted : Multiset Row) = allRows inputs) ∧
    inlineOperatorFinalize s.gstate s.totalInsertCount =
      .ok (s.gstate.globalInlinedData.map fun data => (data, data.length)) := by
  have hinv := invariant_of_reaches h
  obtain ⟨hrows, huncounted⟩ := hinv.of_finished hfinished
  by_cases hlimit : inlineRowLimit < s.gstate.totalInlinedRows
  · have hnone := hinv.exceeded hlimit
    have hglobal : s.gstate.rows = 0 := by simp [InlineDataGlobalState.rows, hnone]
    refine ⟨.inr ⟨?_, hnone, ?_⟩, ?_⟩
    · have hcounted := hinv.counted
      omega
    · simpa [hglobal] using hrows
    · simp [inlineOperatorFinalize, hnone]
  · obtain ⟨hemitted, -, htotal⟩ := hinv.within (not_lt.1 hlimit)
    have hcount : s.totalInsertCount = 0 := by
      have hwritten := hinv.written
      simpa [hemitted] using hwritten
    refine ⟨.inl ⟨by omega, ?_, hemitted⟩, ?_⟩
    · simpa [hemitted] using hrows
    · cases hdata : s.gstate.globalInlinedData <;> simp [inlineOperatorFinalize, hdata, hcount]

/-- The first thread publishes two rows, the second one takes them over with its third. -/
theorem inlined_or_emitted_two : ∃ s : InlineRun (Fin 2) Nat,
    Reaches (InlineRun.step 2) (fun _ _ => True) (initial ![[[1, 2]], [[3]]]) s ∧ s.Finished ∧
      2 < (allRows (ι := Fin 2) ![[[1, 2]], [[3]]]).card ∧ s.gstate.globalInlinedData = none ∧
        (s.emitted : Multiset Nat) = allRows (ι := Fin 2) ![[[1, 2]], [[3]]] := by
  obtain ⟨s, hs, hfinished⟩ : ∃ s : InlineRun (Fin 2) Nat,
      [InlineAction.execute 0 0, .finalExecute 0 0, .execute 1 0, .execute 1 5, .execute 1 0,
        .execute 1 0, .finalExecute 1 0, .sinkFile 3].foldlM (InlineRun.step 2)
        (initial ![[[1, 2]], [[3]]]) = some s ∧ s.Finished :=
    ⟨_, rfl, Fin.forall_fin_two.2 (by exact ⟨rfl, rfl⟩)⟩
  have hrun := Reaches.of_foldlM hs
  refine ⟨s, hrun, hfinished, ?_⟩
  rcases (inlined_or_emitted hrun hfinished).1 with ⟨hlimit, -⟩ | hexceeded
  · exact absurd hlimit (by decide)
  · exact hexceeded

/-! ### Every run ends -/

/-- A bound on the calls that are still to come. -/
def callsLeft (all : Multiset Row) (s : InlineRun ι Row) : Nat :=
  all.card - s.emitted.length + ∑ i, (s.threads i).rank

theorem callsLeft_emit (h : Invariant inlineRowLimit all s) {i : ι}
    {out : List Row × InlineDataGlobalState Row × InlineThread Row}
    (hkeeps : InlineThread.Keeps inlineRowLimit s.gstate (s.threads i) out) :
    callsLeft all (s.emit i out) < callsLeft all s := by
  have hrank := sum_update_add InlineThread.rank s.threads i out.2.2
  have hbound : (s.emit i out).emitted.length ≤ all.card := by
    rw [← (h.emit hkeeps).conserved]
    simp [add_assoc]
  have hemitted : (s.emit i out).emitted.length = s.emitted.length + out.1.length := by
    simp [InlineRun.emit]
  show all.card - (s.emit i out).emitted.length +
    ∑ j, (Function.update s.threads i out.2.2 j).rank < _
  unfold callsLeft
  rcases hkeeps.advances with hlt | ⟨hchunk, hle⟩
  · omega
  · have hpos := List.length_pos_iff.2 hchunk
    omega

/-- Whatever the threads have done, they can go on until they have finished. -/
theorem exists_finished (h : Invariant inlineRowLimit all s) :
    ∃ s', Reaches (InlineRun.step inlineRowLimit) (fun _ _ => True) s s' ∧ s'.Finished := by
  induction hcalls : callsLeft all s using Nat.strong_induction_on generalizing s with
  | _ n ih =>
    by_cases hfinished : s.Finished
    · exact ⟨s, .refl, hfinished⟩
    · obtain ⟨i, hi⟩ : ∃ i, (s.threads i).finished = false := by
        simpa [Finished] using hfinished
      have hstep : ∃ a out, s.step inlineRowLimit a = some (s.emit i out) ∧
          InlineThread.Keeps inlineRowLimit s.gstate (s.threads i) out := by
        cases hinputs : (s.threads i).inputs with
        | nil =>
          exact ⟨.finalExecute i 0, (s.threads i).finalExecute inlineRowLimit s.gstate 0,
            by simp only [InlineRun.step, hinputs, hi],
            keeps_finalExecute (h.wellFormed i) hi hinputs⟩
        | cons input rest =>
          exact ⟨.execute i 0, (s.threads i).execute inlineRowLimit s.gstate input rest 0,
            by simp only [InlineRun.step, hinputs],
            keeps_execute (h.wellFormed i) hinputs⟩
      obtain ⟨a, out, ha, hkeeps⟩ := hstep
      obtain ⟨s', hreaches, hs'⟩ :=
        ih _ (hcalls ▸ callsLeft_emit h hkeeps) (h.step ha) rfl
      exact ⟨s', .head ⟨a, trivial, ha⟩ hreaches, hs'⟩

end InlineRun

end Runs

end DuckLake
