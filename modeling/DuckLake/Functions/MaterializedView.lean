import DuckLake.Common.Util

/-!
# The analysis of materialized views

Which definitions can be maintained from the changes of their table, and the parts of a definition
that the statements for it are built from. Definitions that read from a join are analysed for
another path and are not modelled.
-/

namespace DuckLake

/-! ## Definitions -/

structure FunctionCall where
  name : Text
  distinct : Bool
  filter : Bool
  orderBy : Bool
  exportState : Bool

/-- Expressions as they are parsed, each with the text that it is printed as. -/
inductive ParsedExpression where
  | function (sql : Text) (call : FunctionCall) (arguments : List ParsedExpression)
  | constant (sql : Text) (int64 : Option Int)
  | star (sql : Text)
  | subquery (sql : Text)
  | window (sql : Text)
  | other (sql : Text) (children : List ParsedExpression)

namespace ParsedExpression

def sql : ParsedExpression → Text
  | function sql _ _ | constant sql _ | star sql | subquery sql | window sql | other sql _ => sql

def arguments : ParsedExpression → List ParsedExpression
  | function _ _ arguments => arguments
  | _ => []

def isStar : ParsedExpression → Bool
  | star _ => true
  | _ => false

mutual

def hasSubquery : ParsedExpression → Bool
  | subquery _ => true
  | function _ _ arguments => anyHasSubquery arguments
  | other _ children => anyHasSubquery children
  | _ => false

def anyHasSubquery : List ParsedExpression → Bool
  | [] => false
  | e :: es => e.hasSubquery || anyHasSubquery es

end

end ParsedExpression

/-- A single `SELECT` over one table. The grouping sets are given by their sizes. -/
structure SelectNode where
  selectList : List ParsedExpression
  fromBaseTable : Bool
  onlyOrderModifiers : Bool
  having : Bool
  qualify : Bool
  sample : Bool
  groups : List ParsedExpression
  groupingSets : List Nat
  whereClause : Option ParsedExpression

/-! ## The analysis -/

inductive MVAggKind where
  | sum | countStar | countCol | min | max | avg
deriving DecidableEq

structure MVAggregateInfo where
  kind : MVAggKind
  selectIndex : Nat
  childSql : Text
deriving DecidableEq

structure MaterializedViewAnalysis where
  /-- All aggregates are maintained from their changes alone. -/
  deltaEligible : Bool
  /-- So they are, but minima and maxima that are deleted are computed again. -/
  conditionalDeltaEligible : Bool
  /-- Positions of the group keys in the select list. -/
  keyPositions : List Nat
  keyExprSql : List Text
  aggregates : List MVAggregateInfo

def isSupportedAggregate (functionName : Text) : Bool :=
  functionName.fold ∈
    (["sum", "count", "count_star", "min", "max", "avg"].map String.toList : List Text)

def ParsedExpression.isAggregateCall : ParsedExpression → Bool
  | .function _ call _ => isSupportedAggregate call.name
  | _ => false

mutual

/-- `SelectItemIsSupported`: whether the item is an aggregate, unless it is not supported. -/
def selectItemIsSupported : ParsedExpression → Option Bool
  | .function _ call arguments =>
      if isSupportedAggregate call.name then
        if call.distinct || arguments.any fun child => child.isAggregateCall || child.hasSubquery
        then none else some true
      else if noneIsAggregate arguments then some false else none
  | .constant _ _ => some false
  | .star _ | .subquery _ | .window _ => none
  | .other _ children =>
      if ParsedExpression.anyHasSubquery children then none
      else if noneIsAggregate children then some false else none

/-- All children are supported, and none is an aggregate. -/
def noneIsAggregate : List ParsedExpression → Bool
  | [] => true
  | child :: children => selectItemIsSupported child == some false && noneIsAggregate children

end

/-- The text of the first argument. -/
def childSql (item : ParsedExpression) : Text := ((item.arguments.head?.map (·.sql)).getD [])

/-- The kind of an aggregate. -/
def aggKind (call : FunctionCall) (item : ParsedExpression) : MVAggKind :=
  let fname := call.name.fold
  if fname = "sum".toList then .sum
  else if fname = "count".toList ∨ fname = "count_star".toList then
    if fname = "count_star".toList ∨ item.arguments.isEmpty ∨ item.arguments.head?.any (·.isStar)
    then .countStar else .countCol
  else if fname = "min".toList then .min
  else if fname = "max".toList then .max
  else .avg

def MVAggKind.child (item : ParsedExpression) : MVAggKind → Text
  | .countStar => []
  | _ => childSql item

/-- What is recorded of an item of the select list that is an aggregate. -/
def aggregateInfo? (selectIdx : Nat) : ParsedExpression → Option MVAggregateInfo
  | .function sql call arguments =>
      if isSupportedAggregate call.name then
        let kind := aggKind call (.function sql call arguments)
        some ⟨kind, selectIdx, kind.child (.function sql call arguments)⟩
      else none
  | _ => none

/-- The aggregates in the order of the select list, whose items are counted from `selectIdx`. -/
def collectAggregates (selectIdx : Nat) : List ParsedExpression → List MVAggregateInfo
  | [] => []
  | item :: items => (aggregateInfo? selectIdx item).toList ++ collectAggregates (selectIdx + 1) items

/-- An aggregate with a filter, an order or an exported state is not maintained from changes. -/
def ParsedExpression.isPlainAggregate : ParsedExpression → Bool
  | .function _ call _ => !(isSupportedAggregate call.name &&
      (call.filter || call.orderBy || call.exportState))
  | _ => true

def ordinal? (selectList : List ParsedExpression) : ParsedExpression → Option Nat
  | .constant _ (some selectIndex) =>
      if 1 ≤ selectIndex ∧ selectIndex.toNat ≤ selectList.length then some (selectIndex.toNat - 1)
      else none
  | _ => none

/-- The item of the select list that a group key stands for, by its position or by its text. -/
def keyPosition? (selectList : List ParsedExpression) (group : ParsedExpression) : Option Nat :=
  match ordinal? selectList group with
  | some position => some position
  | none => selectList.findIdx? fun item => item.sql = group.sql

/-- The positions of all group keys, if each has one. -/
def keyPositions? (selectList : List ParsedExpression) : List ParsedExpression → Option (List Nat)
  | [] => some []
  | group :: groups => do
      let position ← keyPosition? selectList group
      let positions ← keyPositions? selectList groups
      pure (position :: positions)

/-- The count of the argument is there for every sum and every average, and the sum for every
average. -/
def hasDerivedState (aggregates : List MVAggregateInfo) : Bool :=
  aggregates.all fun aggregate =>
    !(aggregate.kind = .sum || aggregate.kind = .avg) ||
      (aggregates.any (fun candidate =>
          candidate.kind = .countCol && candidate.childSql = aggregate.childSql) &&
        (aggregate.kind = .sum || aggregates.any fun candidate =>
          candidate.kind = .sum && candidate.childSql = aggregate.childSql))

def buildAnalysis (node : SelectNode) (positions : List Nat) : MaterializedViewAnalysis :=
  let aggregates := collectAggregates 0 node.selectList
  let plain := node.selectList.all (·.isPlainAggregate)
  let hasMinMax := aggregates.any fun a => a.kind = .min || a.kind = .max
  let hasCountStar := aggregates.any fun a => a.kind = .countStar
  { deltaEligible := plain && !hasMinMax && hasCountStar && hasDerivedState aggregates
    conditionalDeltaEligible := hasMinMax && plain && hasCountStar && hasDerivedState aggregates
    keyPositions := positions
    keyExprSql := positions.map fun p => (node.selectList[p]?.map (·.sql)).getD []
    aggregates := aggregates }

/-- `AnalyzeMaterializedView`; the error is the reason why the definition is not eligible. -/
def analyzeMaterializedView (node : SelectNode) : Except Text MaterializedViewAnalysis :=
  if !node.fromBaseTable then
    .error "definition must read from a single base table or one INNER equijoin"
  else if !node.onlyOrderModifiers then
    .error "definition uses DISTINCT/LIMIT or similar modifiers"
  else if node.having then .error "definition uses HAVING"
  else if node.qualify then .error "definition uses QUALIFY"
  else if node.sample then .error "definition uses SAMPLE"
  else if node.groups.isEmpty then .error "definition has no GROUP BY"
  else if !node.groupingSets.isEmpty &&
      (1 < node.groupingSets.length || node.groupingSets.head? ≠ some node.groups.length) then
    .error "definition uses GROUPING SETS / ROLLUP / CUBE"
  else if node.whereClause.any (·.hasSubquery) then .error "WHERE clause contains a subquery"
  else if node.selectList.any fun item => (selectItemIsSupported item).isNone then
    .error "select list contains an unsupported expression"
  else if !(node.selectList.any fun item => selectItemIsSupported item = some true) then
    .error "select list contains no aggregate functions"
  else match keyPositions? node.selectList node.groups with
    | none => .error "every GROUP BY key must appear in the select list"
    | some positions => .ok (buildAnalysis node positions)

/-! ## The names of the columns -/

/-- `name` with the first number from `count` on that makes it new. -/
def numberedName (taken : List Text) (name : Text) : Nat → Nat → Text × Nat
  | 0, count => (name ++ "_" ++ Text.ofNat count, count)
  | fuel + 1, count =>
      if taken.any (·.ciEquals (name ++ "_" ++ Text.ofNat count)) then
        numberedName taken name fuel (count + 1)
      else (name ++ "_" ++ Text.ofNat count, count)

/-- The loop that makes the names of the columns of the backing table differ, over the counts of
the names so far. Among as many numbers as there are names and one more, one is new. -/
def dedupeNames : List (Text × Nat) → List Text → List Text
  | _, [] => []
  | counts, name :: names =>
      match counts.find? fun entry => entry.1.ciEquals name with
      | none => name :: dedupeNames (counts ++ [(name, 0)]) names
      | some entry =>
          let numbered := numberedName (counts.map (·.1)) name counts.length (entry.2 + 1)
          let counts := counts.map fun e => if e.1.ciEquals name then (e.1, numbered.2) else e
          numbered.1 :: dedupeNames (counts ++ [(numbered.1, 0)]) names

end DuckLake
