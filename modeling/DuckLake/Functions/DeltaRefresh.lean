import Mathlib.Algebra.Order.Field.Rat
import Mathlib.Order.WithBot
import DuckLake.Lib.GroupedView
import DuckLake.Functions.MaterializedView

/-!
# The refresh of materialized views from changes

The statements that refresh a materialized view, as what they compute: from the stored rows, the
inserted and the deleted rows of the table, and the table after the changes. Arithmetic is exact,
and casts to the types of the columns change nothing.
-/

namespace DuckLake

/-! ## Values and aggregates -/

/-- Values of the engine: ordered, and with exact numbers among them. -/
class ExactValue (V : Type) extends LinearOrder V where
  number : V → ℚ
  ofNumber : ℚ → V
  number_ofNumber (q : ℚ) : number (ofNumber q) = q

namespace Sql

section Extrema

variable {V : Type} [LinearOrder V]

/-- `LEAST`, which ignores `NULL`. -/
def least : Option V → Option V → Option V
  | none, b => b
  | a, none => a
  | some a, some b => some (Min.min a b)

/-- `MIN`; a `NULL` is above all values. -/
def min (s : Multiset (Option V)) : Option V := Multiset.inf (α := WithTop V) s

/-- `a <= b`, which does not hold of `NULL`. -/
def le : Option V → Option V → Bool
  | some a, some b => a ≤ b
  | _, _ => false

end Extrema

variable {V : Type} [ExactValue V]

/-- `GREATEST`. -/
def greatest (a b : Option V) : Option V := least (V := Vᵒᵈ) a b

/-- `MAX`. -/
def max (s : Multiset (Option V)) : Option V := min (V := Vᵒᵈ) s

/-- `a >= b`. -/
def ge (a b : Option V) : Bool := le (V := Vᵒᵈ) a b

def nonNull (s : Multiset (Option V)) : Multiset V := s.filterMap id

def ofNumber (q : ℚ) : Option V := some (ExactValue.ofNumber q)

/-- `SUM`, which is `NULL` when there is no value. -/
def sum (s : Multiset (Option V)) : Option V :=
  if nonNull s = 0 then none else ofNumber ((nonNull s).map ExactValue.number).sum

/-- `AVG`. -/
def avg (s : Multiset (Option V)) : Option V :=
  if nonNull s = 0 then none
  else ofNumber (((nonNull s).map ExactValue.number).sum / (nonNull s).card)

/-- An aggregate of the values of its argument in the rows of a group. -/
def aggregate (kind : MVAggKind) (s : Multiset (Option V)) : Option V :=
  match kind with
  | .sum => sum s
  | .countStar => ofNumber s.card
  | .countCol => ofNumber (nonNull s).card
  | .min => min s
  | .max => max s
  | .avg => avg s

/-- `coalesce(v, 0)`. -/
def number (v : Option V) : ℚ := (v.map ExactValue.number).getD 0

/-- `coalesce(old, 0) + d`. -/
def addDelta (old d : Option V) : Option V :=
  d.map fun d => ExactValue.ofNumber (number old + ExactValue.number d)

/-- `v > 0`. -/
def positive (v : Option V) : Bool := v.any fun v => 0 < ExactValue.number v

/-- `v <> 0`. -/
def nonzero (v : Option V) : Bool := v.any fun v => ExactValue.number v ≠ 0

def divide (a b : Option V) : Option V :=
  a.bind fun a => b.map fun b => ExactValue.ofNumber (ExactValue.number a / ExactValue.number b)

def negate (v : Option V) : Option V := v.map fun v => ExactValue.ofNumber (-ExactValue.number v)

end Sql

/-! ## Views -/

abbrev ViewRow (V : Type) := List (Option V)

/-- What expressions stand for: their values in a row of the table, whether the row satisfies the
filter, and the values of expressions outside of aggregates, which the group keys determine. -/
structure Interpretation (V Row : Type) where
  eval : Text → Row → Option V
  holds : Row → Bool
  plain : Text → List (Option V) → Option V
  /-- The value of an aggregate of several arguments in a group: `min(x, n)` is a list. -/
  several : ParsedExpression → Multiset Row → Option V
  /-- What the engine makes of delta statements that mix such a list with the values in it, from
  the stored rows, the inserted and the deleted rows, and the table. -/
  mixed : Multiset (ViewRow V) → Multiset Row → Multiset Row → Multiset Row →
    Except Exception (Multiset (ViewRow V))

namespace Interpretation

variable {V Row : Type} [ExactValue V] (I : Interpretation V Row)

def keysOfRow (keyExprSql : List Text) (row : Row) : List (Option V) :=
  keyExprSql.map fun sql => I.eval sql row

/-- The value of an item of the select list for a group. -/
def itemValue (k : List (Option V)) (group : Multiset Row) (item : ParsedExpression) : Option V :=
  match aggregateInfo? 0 item with
  | some info =>
      if 1 < item.arguments.length then I.several item group
      else Sql.aggregate info.kind (group.map (I.eval info.childSql))
  | none => I.plain item.sql k

def outputRow (selectList : List ParsedExpression) (k : List (Option V)) (group : Multiset Row) :
    ViewRow V :=
  selectList.map (I.itemValue k group)

/-- `SELECT .. FROM rows WHERE .. GROUP BY ..`. -/
def select (selectList : List ParsedExpression) (keyExprSql : List Text) (rows : Multiset Row) :
    Multiset (ViewRow V) :=
  GroupedView.rows (I.keysOfRow keyExprSql) (I.outputRow selectList)
    (rows.filter fun row => I.holds row)

end Interpretation

/-! ## The columns of the refreshed rows -/

/-- An aggregate and its number among the aggregates. -/
abbrev NumberedAggregate := MVAggregateInfo × Nat

/-- How a column of a changed row is computed. -/
inductive UpdatedColumn where
  | key (i : Nat)
  | count (agg : NumberedAggregate)
  | countStar (agg : NumberedAggregate)
  | sum (agg count : NumberedAggregate)
  | avg (agg sum count : NumberedAggregate)
  | min (agg : NumberedAggregate)
  | max (agg : NumberedAggregate)

def stateOf (kind : MVAggKind) (child : Text) (agg : NumberedAggregate) : Bool :=
  agg.1.kind = kind && agg.1.childSql = child

def planAggregate (aggregates : List NumberedAggregate) (agg : NumberedAggregate) :
    Except Exception UpdatedColumn :=
  match agg.1.kind with
  | .countStar => .ok (.countStar agg)
  | .countCol => .ok (.count agg)
  | .min => .ok (.min agg)
  | .max => .ok (.max agg)
  | .sum =>
      match aggregates.find? (stateOf .countCol agg.1.childSql) with
      | some count => .ok (.sum agg count)
      | none => internalException "Delta SUM is missing matching COUNT argument state"
  | .avg =>
      match aggregates.findRev? (stateOf .sum agg.1.childSql),
        aggregates.findRev? (stateOf .countCol agg.1.childSql) with
      | some sum, some count => .ok (.avg agg sum count)
      | _, _ => internalException "Delta AVG is missing matching SUM/COUNT argument state"

/-- The columns in order; a column that is no key takes the next of the remaining aggregates. -/
def planColumns (keyPositions : List Nat) (aggregates : List NumberedAggregate) :
    List Nat → List NumberedAggregate → Except Exception (List (Nat × UpdatedColumn))
  | [], _ => .ok []
  | col :: cols, remaining =>
      match keyPositions.findIdx? (· = col) with
      | some i => do
          let rest ← planColumns keyPositions aggregates cols remaining
          pure ((col, .key i) :: rest)
      | none =>
          match remaining with
          | [] => internalException "BuildDeltaRefreshSQL: more non-key columns than aggregates"
          | agg :: remaining => do
              let column ← planAggregate aggregates agg
              let rest ← planColumns keyPositions aggregates cols remaining
              pure ((col, column) :: rest)

/-! ## The statements -/

/-- What the statements are built from: the analysis, the select list, the output names of the
definition, and the names of the columns of the backing table. -/
structure RefreshInput where
  analysis : MaterializedViewAnalysis
  selectList : List ParsedExpression
  boundNames : List Text
  backingNames : List Text
  /-- Whether the type of an output column is floating. -/
  isFloating : Nat → Bool

namespace RefreshInput

variable (input : RefreshInput)

/-- The column of the backing table that the output name of a column finds. -/
def resolve (col : Nat) : Nat :=
  input.backingNames.findIdx fun name => name.ciEquals (input.boundNames.getD col [])

def columns : List Nat := List.range input.boundNames.length

def aggregates : List NumberedAggregate := input.analysis.aggregates.zipIdx

/-- Some aggregate has several arguments; the analysis records the first one only. -/
def severalArguments : Bool :=
  input.selectList.any fun item => item.isAggregateCall && 1 < item.arguments.length

variable {V Row : Type} [ExactValue V]

/-- `__mv.<name of the column>`. -/
def stored (row : ViewRow V) (col : Nat) : Option V := row.getD (input.resolve col) none

/-- The columns of a joined row of the view are `NULL` when there is none. -/
def storedJoined (row : Option (ViewRow V)) (col : Nat) : Option V :=
  row.bind fun row => input.stored row col

/-- Whether a row of the view has the key. -/
def keyMatches (k : List (Option V)) (row : ViewRow V) : Bool :=
  k == input.analysis.keyPositions.map (input.stored row)

def leftJoin (mv : Multiset (ViewRow V)) (k : List (Option V)) :
    Multiset (Option (ViewRow V)) :=
  let matched := mv.filter fun row => input.keyMatches k row
  if matched = 0 then {none} else matched.map some

end RefreshInput

/-- A row of `__cdc`. -/
structure CdcRow (V : Type) where
  key : List (Option V)
  measures : List (Option V)
  inserted : Bool

section Statements

variable {V Row : Type} [ExactValue V] (I : Interpretation V Row) (input : RefreshInput)

def insertedMeasure (agg : MVAggregateInfo) (row : Row) : Option V :=
  match agg.kind with
  | .sum | .min | .max => I.eval agg.childSql row
  | .countStar => Sql.ofNumber 1
  | .countCol => if (I.eval agg.childSql row).isNone then Sql.ofNumber 0 else Sql.ofNumber 1
  | .avg => Sql.ofNumber 0

def deletedMeasure (agg : MVAggregateInfo) (row : Row) : Option V :=
  match agg.kind with
  | .sum => Sql.negate (I.eval agg.childSql row)
  | .min | .max => I.eval agg.childSql row
  | .countStar => Sql.ofNumber (-1)
  | .countCol => if (I.eval agg.childSql row).isNone then Sql.ofNumber 0 else Sql.ofNumber (-1)
  | .avg => Sql.ofNumber 0

def insertedRow (row : Row) : CdcRow V where
  key := I.keysOfRow input.analysis.keyExprSql row
  measures := input.analysis.aggregates.map fun agg => insertedMeasure I agg row
  inserted := true

def deletedRow (row : Row) : CdcRow V where
  key := I.keysOfRow input.analysis.keyExprSql row
  measures := input.analysis.aggregates.map fun agg => deletedMeasure I agg row
  inserted := false

/-- `__cdc`. -/
def cdc (insertions deletions : Multiset Row) : Multiset (CdcRow V) :=
  (insertions.filter fun row => I.holds row).map (insertedRow I input) +
    (deletions.filter fun row => I.holds row).map (deletedRow I input)

/-- The changed keys: `__mv_changed`. -/
def changedKeys (insertions deletions : Multiset Row) : Finset (List (Option V)) :=
  GroupedView.keysOf (I.keysOfRow input.analysis.keyExprSql) insertions ∪
    GroupedView.keysOf (I.keysOfRow input.analysis.keyExprSql) deletions

variable {I}

def measure (a : Nat) (row : CdcRow V) : Option V := row.measures.getD a none

/-- `__d` of the rows of `__cdc` with one key. -/
def delta (agg : NumberedAggregate) (rows : Multiset (CdcRow V)) : Option V :=
  match agg.1.kind with
  | .sum => some ((Sql.sum (rows.map (measure agg.2))).getD (ExactValue.ofNumber 0))
  | .min => Sql.min ((rows.filter fun row => row.inserted).map (measure agg.2))
  | .max => Sql.max ((rows.filter fun row => row.inserted).map (measure agg.2))
  | _ => Sql.sum (rows.map (measure agg.2))

/-- The value of a column of an updated row, over the joined row of the view. -/
def updatedValue (k : List (Option V)) (rows : Multiset (CdcRow V)) (row : Option (ViewRow V))
    (column : Nat × UpdatedColumn) : Option V :=
  let old := input.storedJoined row
  let candidate (agg : NumberedAggregate) := Sql.addDelta (old agg.1.selectIndex) (delta agg rows)
  match column.2 with
  | .key i => (old column.1).orElse fun _ => k.getD i none
  | .count agg | .countStar agg => Sql.addDelta (old column.1) (delta agg rows)
  | .sum agg count =>
      if Sql.positive (candidate count) then Sql.addDelta (old column.1) (delta agg rows) else none
  | .avg _ sum count =>
      if Sql.positive (candidate count) then Sql.divide (candidate sum) (candidate count) else none
  | .min agg =>
      if (delta agg rows).isNone then old column.1
      else if (old column.1).isNone then delta agg rows
      else Sql.least (old column.1) (delta agg rows)
  | .max agg =>
      if (delta agg rows).isNone then old column.1
      else if (old column.1).isNone then delta agg rows
      else Sql.greatest (old column.1) (delta agg rows)

def UpdatedColumn.isCountStar : UpdatedColumn → Bool
  | .countStar _ => true
  | _ => false

/-- `(cnt_guard) <> 0`; the guard is the last `COUNT(*)`. -/
def groupIsLeft (k : List (Option V)) (plan : List (Nat × UpdatedColumn))
    (rows : Multiset (CdcRow V)) (row : Option (ViewRow V)) : Bool :=
  match plan.findRev? (·.2.isCountStar) with
  | some column => Sql.nonzero (updatedValue input k rows row column)
  | none => true

def groupOfCdc (k : List (Option V)) (changes : Multiset (CdcRow V)) : Multiset (CdcRow V) :=
  changes.filter fun row => row.key = k

/-- A deleted value may be the minimum that the view and the insertions have. -/
def extremumDeleted (rows : Multiset (CdcRow V)) (row : Option (ViewRow V)) (deleted : CdcRow V)
    (agg : NumberedAggregate) : Bool :=
  let old := input.storedJoined row agg.1.selectIndex
  let m := measure agg.2 deleted
  match agg.1.kind with
  | .min => m == old || Sql.le m (Sql.least old (delta agg rows))
  | .max => m == old || Sql.ge m (Sql.greatest old (delta agg rows))
  | _ => false

def nonfiniteDeleted (isFinite : V → Bool) (deleted : CdcRow V) (agg : NumberedAggregate) : Bool :=
  agg.1.kind = .sum && input.isFloating agg.1.selectIndex &&
    (measure agg.2 deleted).any fun v => !isFinite v

/-- Whether some floating sum is maintained. -/
def hasFloatingSum : Bool :=
  input.aggregates.any fun agg => agg.1.kind = .sum && input.isFloating agg.1.selectIndex

def needsInvalidCte : Bool := input.analysis.conditionalDeltaEligible || hasFloatingSum input

/-- With the row of the view, the deleted row makes the changes of its group unusable. -/
def deletedUnsafe (isFinite : V → Bool) (rows : Multiset (CdcRow V)) (deleted : CdcRow V)
    (row : Option (ViewRow V)) : Bool :=
  input.aggregates.any (extremumDeleted input rows row deleted) ||
    input.aggregates.any (nonfiniteDeleted input isFinite deleted)

/-- A row of `__invalid` comes from the row of `__cdc`. -/
def invalidates (isFinite : V → Bool) (mv : Multiset (ViewRow V)) (changes : Multiset (CdcRow V))
    (deleted : CdcRow V) : Bool :=
  !deleted.inserted && 0 < (input.leftJoin mv deleted.key).countP fun row =>
    deletedUnsafe input isFinite (groupOfCdc deleted.key changes) deleted row

/-- `__invalid`. -/
def invalidKeys (isFinite : V → Bool) (mv : Multiset (ViewRow V))
    (changes : Multiset (CdcRow V)) : Finset (List (Option V)) :=
  if needsInvalidCte input then
    ((changes.filter fun row => invalidates input isFinite mv changes row).map (·.key)).toFinset
  else ∅

/-- The rows of the view whose keys no changed row has. -/
def keptRows (mv : Multiset (ViewRow V)) (changed : Finset (List (Option V))) :
    Multiset (ViewRow V) :=
  mv.filter fun row => ∀ k ∈ changed, input.keyMatches k row = false

/-- The rows of the changed groups. -/
def updatedRows (isFinite : V → Bool) (plan : List (Nat × UpdatedColumn))
    (mv : Multiset (ViewRow V)) (changes : Multiset (CdcRow V)) : Multiset (ViewRow V) :=
  (((changes.map (·.key)).toFinset).filter fun k =>
      k ∉ invalidKeys input isFinite mv changes).val.bind fun k =>
    ((input.leftJoin mv k).filter fun row =>
      groupIsLeft input k plan (groupOfCdc k changes) row).map fun row =>
        plan.map (updatedValue input k (groupOfCdc k changes) row)

variable (I)

/-- The groups of the table that have one of the keys. -/
def rebuiltRows (base : Multiset Row) (keys : Finset (List (Option V))) : Multiset (ViewRow V) :=
  I.select input.selectList input.analysis.keyExprSql
    (base.filter fun row => I.keysOfRow input.analysis.keyExprSql row ∈ keys)

/-- `BuildDeltaRefreshSQL`. -/
def deltaRefresh (isFinite : V → Bool) (mv : Multiset (ViewRow V))
    (insertions deletions base : Multiset Row) : Except Exception (Multiset (ViewRow V)) := do
  let plan ← planColumns input.analysis.keyPositions input.aggregates input.columns input.aggregates
  if input.severalArguments then I.mixed mv insertions deletions base
  else
    let changes := cdc I input insertions deletions
    let changed := changedKeys I input (insertions.filter fun row => I.holds row)
      (deletions.filter fun row => I.holds row)
    let kept := (keptRows input mv changed).map fun row => input.columns.map (input.stored row)
    let updated := updatedRows input isFinite plan mv changes
    pure (kept + updated + rebuiltRows I input base (invalidKeys input isFinite mv changes))

/-- `BuildIncrementalRefreshSQL`, which does not filter the changes. -/
def incrementalRefresh (mv : Multiset (ViewRow V)) (insertions deletions base : Multiset Row) :
    Multiset (ViewRow V) :=
  let changed := changedKeys I input insertions deletions
  keptRows input mv changed + rebuiltRows I input base changed

/-- Whether the refresh is made from the changes alone; it is not when the transaction of the last
refresh wrote to the table as well. -/
def usesDelta (deltaSuppressed : Bool) : Bool :=
  (input.analysis.deltaEligible || input.analysis.conditionalDeltaEligible) && !deltaSuppressed &&
    input.analysis.aggregates.length + input.analysis.keyPositions.length =
      input.boundNames.length

/-- The refresh of a definition that is maintained from changes. -/
def refresh (deltaSuppressed : Bool) (isFinite : V → Bool) (mv : Multiset (ViewRow V))
    (insertions deletions base : Multiset Row) : Except Exception (Multiset (ViewRow V)) :=
  if usesDelta input deltaSuppressed then
    deltaRefresh I input isFinite mv insertions deletions base
  else .ok (incrementalRefresh I input mv insertions deletions base)

end Statements

end DuckLake
