import Mathlib.Order.Defs.LinearOrder
import Mathlib.Order.Lattice
import DuckLake.Common.Util

/-!
# Watermark replication

`Catchup` of one source table with a watermark column. A cycle deletes what the destination holds from
the last watermark on and copies the rows of the source from there up to the maximum, or it seeds the
destination anew. The rows are committed before the cursor is stored, so a cycle that is stopped in
between leaves a cursor that is older than the rows.
-/

namespace DuckLake

/-- What a cycle uses of the source and of the casts of its engine. Names of columns are up to
case. -/
structure WatermarkEngine (Row Column W : Type) where
  name : Column → Text
  value : Column → Row → Option W
  /-- The cast to `VARCHAR`, and back to the type of the column. -/
  toText : Column → W → Text
  cast : Column → Text → Except Exception W

/-- The text form of every watermark casts back to the same value. -/
def WatermarkEngine.Lawful {Row Column W : Type} (engine : WatermarkEngine Row Column W) : Prop :=
  ∀ c r w, engine.value c r = some w → engine.cast c (engine.toText c w) = .ok w

/-- `DuckLakeReplicationTableState`. The identity of a source table is the table with the epoch of
the instance that names it. -/
structure TableSyncState (Table Column : Type) where
  watermarkColumn : Option Column
  sourceTableUuid : Option (Table × ℕ)
  lastWatermark : Option Text
deriving DecidableEq

/-- How the columns of the source and of an existing destination compare. -/
inductive SchemaMatch where
  | same | extended | drifted
deriving DecidableEq

/-- Where a cycle ends: before the commit of the rows, before the cursor is stored, or after that. -/
inductive CycleEnd where
  | rolledBack | stopped | completed
deriving DecidableEq

structure SyncCycle where
  /-- `none` if the source has no identity -/
  epoch : Option ℕ
  schema : SchemaMatch
  ending : CycleEnd

variable {Row Table Column W : Type} [DecidableEq Table] [DecidableEq Column] [LinearOrder W]
  (engine : WatermarkEngine Row Column W)

/-! ## One table -/

/-- `SELECT MAX(column)` -/
def maxWatermark (column : Column) (rows : List Row) : Option W :=
  (rows.filterMap (engine.value column)).max?

def validateWatermarkRows (column : Column) (rows : List Row) : Except Exception Unit :=
  if rows.any fun r => (engine.value column r).isNone then
    invalidInputException ("watermark column " ++ engine.name column ++
      " contains NULL values; use full replication or remove NULL values")
  else .ok ()

def atLeast (column : Column) (low : W) (r : Row) : Bool :=
  (engine.value column r).any (low ≤ ·)

def atMost (column : Column) (high : W) (r : Row) : Bool :=
  (engine.value column r).any (· ≤ high)

/-- Replay the boundary value to capture rows arriving with the previous maximum watermark. -/
def applyWatermarkDelta (dst src : List Row) (column : Column) (low : Option Text) (high : Text) :
    Except Exception (List Row) :=
  match low with
  | none => do
    let high ← engine.cast column high
    return dst ++ src.filter (atMost engine column high)
  | some low => do
    let low ← engine.cast column low
    let high ← engine.cast column high
    return dst.filter (fun r => !atLeast engine column low r) ++
      src.filter fun r => atLeast engine column low r && atMost engine column high r

/-- The maximum went backwards, compared in the type of the column. -/
def wentBackwards (column : Column) : Option Text → Option Text → Except Exception Bool
  | some last, some high => do
    let last ← engine.cast column last
    let high ← engine.cast column high
    return decide (high < last)
  | _, _ => .ok false

/-- A missing or changed identity invalidates the cursor. -/
def identityChanged (source : Option (Table × ℕ)) (prior : Option (TableSyncState Table Column)) :
    Bool :=
  match source, prior with
  | some source, some prior => prior.sourceTableUuid ≠ some source
  | none, some _ => true
  | _, none => false

/-- Whether the stored state has no cursor for the column. -/
def lacksCursor (column : Column) : Option (TableSyncState Table Column) → Bool
  | none => true
  | some prior => prior.lastWatermark.isNone || prior.watermarkColumn ≠ some column

/-- The rows that the cycle writes: all of the source up to the maximum, or what has come since the
stored watermark. -/
def copyRows (column : Column) (reseed : Bool) (dest : Option (List Row)) (src : List Row)
    (last : Option Text) : Option Text → Except Exception (List Row)
  | none => .ok (if reseed then [] else dest.getD [])
  | some high =>
    if reseed then applyWatermarkDelta engine [] src column none high
    else applyWatermarkDelta engine (dest.getD []) src column last high

/-- The rows of the destination after the cycle, and the state to be stored. -/
def syncTable (column : Column) (source : Option (Table × ℕ)) (schema : SchemaMatch)
    (prior : Option (TableSyncState Table Column)) (dest : Option (List Row)) (src : List Row) :
    Except Exception (List Row × TableSyncState Table Column) :=
  if dest.isSome ∧ prior.isNone then
    invalidInputException
      "destination table already exists and is not managed by this replication job"
  else do
    let recreated := dest.isNone || schema = .drifted
    let extended := !recreated && schema = .extended
    let high := (maxWatermark engine column src).map (engine.toText column)
    validateWatermarkRows engine column src
    let last := prior.bind (·.lastWatermark)
    let backwards ← wentBackwards engine column last high
    let reseed := recreated || lacksCursor column prior || backwards ||
      identityChanged source prior || extended
    let rows ← copyRows engine column reseed dest src last high
    return (rows, ⟨some column, source, high⟩)

/-! ## Runs -/

/-- The tables of the source and the one that is replicated, the configured watermark column, the
destination, and the stored state. `copied` is the table whose rows the destination was last given; no
cycle reads it. -/
structure SyncState (Row Table Column : Type) where
  sources : Table → List Row
  current : Table
  column : Column
  dest : Option (List Row)
  prior : Option (TableSyncState Table Column)
  copied : Option Table

inductive SyncEvent (Row Table Column : Type) where
  | append (table : Table) (rows : List Row)
  /-- The source table is recreated, renamed or restored. -/
  | replace (table : Table)
  /-- The job is given another watermark column. -/
  | configure (column : Column)
  /-- The source table is not listed: the destination is dropped, and then its state. -/
  | delist (stopped : Bool)
  | cycle (cycle : SyncCycle)

namespace SyncState

variable (s : SyncState Row Table Column)

/-- The state that a cycle stores before it writes a new destination. -/
def claim : Option (TableSyncState Table Column) :=
  match s.prior with
  | some prior => some prior
  | none => if s.dest.isSome then none else some ⟨some s.column, none, none⟩

def sync (cycle : SyncCycle) : Except Exception (List Row × TableSyncState Table Column) :=
  syncTable engine s.column (cycle.epoch.map fun epoch => (s.current, epoch)) cycle.schema
    s.prior s.dest (s.sources s.current)

def runCycle (cycle : SyncCycle) : SyncState Row Table Column :=
  match s.sync engine cycle, cycle.ending with
  | .error _, _ | .ok _, .rolledBack => { s with prior := s.claim }
  | .ok (rows, _), .stopped =>
    { s with dest := some rows, prior := s.claim, copied := some s.current }
  | .ok (rows, outcome), .completed =>
    { s with dest := some rows, prior := some outcome, copied := some s.current }

def step : SyncEvent Row Table Column → Option (SyncState Row Table Column)
  | .append table rows => some { s with
      sources := Function.update s.sources table (s.sources table ++ rows) }
  | .replace table => some { s with current := table }
  | .configure column => some { s with column := column }
  | .delist stopped => some { s with
      dest := none, prior := if stopped then s.prior else none, copied := none }
  | .cycle cycle => some (s.runCycle engine cycle)

/-- Each new row has a watermark that is not smaller than those that are there. -/
def Appends : SyncEvent Row Table Column → Prop
  | .append table rows => ∀ r ∈ rows, ∃ w, engine.value s.column r = some w ∧
    ∀ r' ∈ s.sources table, ∀ w', engine.value s.column r' = some w' → w' ≤ w
  | _ => True

/-- A cycle that finds the identity of its source stored finds rows of that source too, and the
watermark column is not changed back to the one of the stored cursor. -/
def Trusts : SyncEvent Row Table Column → Prop
  | .cycle cycle => ∀ epoch prior, cycle.epoch = some epoch → s.prior = some prior →
    prior.sourceTableUuid = some (s.current, epoch) → s.dest.isSome → s.copied = some s.current
  | .configure column => ∀ prior, s.prior = some prior → prior.lastWatermark.isSome →
    prior.watermarkColumn = some column → s.column = column
  | _ => True

/-- Nothing has been replicated. -/
structure Initial : Prop where
  dest : s.dest = none
  prior : s.prior = none

/-- The destination holds the rows of the source up to its maximum, each as often as the source. -/
def CopiesExactly (column : Column) : Prop :=
  ∃ rows, s.dest = some rows ∧ rows.Perm ((s.sources s.current).filter fun r =>
    (maxWatermark engine column (s.sources s.current)).any fun high =>
      atMost engine column high r)

end SyncState

end DuckLake
