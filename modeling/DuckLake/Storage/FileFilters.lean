import Mathlib.Order.Lattice
import DuckLake.Lib.Condition
import DuckLake.Common.Stats

/-!
# Filters on column statistics

A scan asks the metadata catalog only for the data files that can hold a matching row. The filters
on the table are turned into a condition on the column statistics of a file,
`convertFilterPushdownToSQL`, which is evaluated on the statistics that are joined to the file.
-/

namespace DuckLake

/-! ## Values -/

/-- The values of the engine in the order in which it compares them. Not-a-number is one value and
the greatest one; `tryCast` reads a string as a value of a type, and `text` is a string as it
is. -/
class SQLValues (V : Type) extends LinearOrder V where
  isNan : V → Bool
  isFinite : V → Bool
  tryCast : LogicalTypeId → Text → Option V
  text : Text → V
  le_nan : ∀ {v w : V}, isNan v = true → w ≤ v

/-- Strings are the values of VARCHAR, and different strings are different values. -/
class SQLStrings (V : Type) extends SQLValues V where
  tryCast_varchar : ∀ t, tryCast .varchar t = some (text t)
  text_injective : Function.Injective text

/-! ## Statistics -/

inductive Stat where
  | minValue | maxValue | nullCount | valueCount | containsNan
deriving DecidableEq, Repr

/-- A row of `ducklake_file_column_stats`. -/
structure FileColumnStats where
  valueCount : Option Nat
  nullCount : Option Nat
  minValue : Option Text
  maxValue : Option Text
  containsNan : Option Bool

def FileColumnStats.present (stats : FileColumnStats) : Stat → Bool
  | .minValue => stats.minValue.isSome
  | .maxValue => stats.maxValue.isSome
  | .nullCount => stats.nullCount.isSome
  | .valueCount => stats.valueCount.isSome
  | .containsNan => stats.containsNan.isSome

/-! ## Filters -/

inductive ComparisonType where
  | equal | notEqual | lessThan | lessThanOrEqual | greaterThan | greaterThanOrEqual
  | distinctFrom | notDistinctFrom
deriving DecidableEq, Repr

/-- `FlipComparisonExpression`. -/
def ComparisonType.flip : ComparisonType → ComparisonType
  | lessThan => greaterThan
  | lessThanOrEqual => greaterThanOrEqual
  | greaterThan => lessThan
  | greaterThanOrEqual => lessThanOrEqual
  | type => type

/-- A constant of a filter, with the string that `Value::ToString` gives for it. -/
structure Constant (V : Type) where
  value : Option V
  string : Text

/-- A filter on one column. The sides of a comparison have one type, that of the column. Whatever
cannot be turned into a condition on statistics is kept as the function it computes. -/
inductive FilterExpression (V : Type) where
  | comparison (type : ComparisonType) (constant : Constant V)
  | flippedComparison (constant : Constant V) (type : ComparisonType)
  | isNull
  | isNotNull
  | inList (constants : List (Constant V))
  | conjunction (isOr : Bool) (children : List (FilterExpression V))
  | optionalFilter (child : FilterExpression V)
  | other (f : Option V → Option Bool)

structure ColumnFilterInfo (V : Type) where
  columnFieldIndex : FieldIndex
  tableFilter : FilterExpression V

inductive DuckLakeFilterNode (V : Type) where
  | columnFilter (filter : ColumnFilterInfo V)
  | conjunction (isOr : Bool) (children : List (DuckLakeFilterNode V))
  | matchNone

/-- Whether a node is a conjunction node of the given kind. -/
def DuckLakeFilterNode.isConjunction {V : Type} : DuckLakeFilterNode V → Bool → Bool
  | .conjunction isOr _, isOr' => isOr == isOr'
  | _, _ => false

structure FilterPushdownInfo (V : Type) where
  columnFilters : List (ColumnFilterInfo V)
  filterTrees : List (DuckLakeFilterNode V)

section Semantics

variable {V : Type} [SQLValues V]

def compareValues : ComparisonType → V → V → Bool
  | .equal, x, c => x = c
  | .notEqual, x, c => x ≠ c
  | .lessThan, x, c => x < c
  | .lessThanOrEqual, x, c => x ≤ c
  | .greaterThan, x, c => c < x
  | .greaterThanOrEqual, x, c => c ≤ x
  | .distinctFrom, x, c => x ≠ c
  | .notDistinctFrom, x, c => x = c

def compare : ComparisonType → Option V → Option V → Option Bool
  | .distinctFrom, x, c => some (x ≠ c)
  | .notDistinctFrom, x, c => some (x = c)
  | type, some x, some c => some (compareValues type x c)
  | _, _, _ => none

@[simp] theorem compare_some {type : ComparisonType} {x c : V} :
    compare type (some x) (some c) = some (compareValues type x c) := by
  cases type <;> simp [compare, compareValues]

mutual

/-- What a filter says of a value of its column. An optional filter may drop a row that does not
match its child, so it keeps a row only for the sake of the child. -/
def FilterExpression.holds (x : Option V) : FilterExpression V → Option Bool
  | .comparison type c => compare type x c.value
  | .flippedComparison c type => compare type c.value x
  | .isNull => some x.isNone
  | .isNotNull => some x.isSome
  | .inList cs => cs.foldr (fun c p => Truth.or (compare .equal x c.value) p) (some false)
  | .conjunction true children => holdsAny x children
  | .conjunction false children => holdsAll x children
  | .optionalFilter child => child.holds x
  | .other f => f x

def FilterExpression.holdsAny (x : Option V) : List (FilterExpression V) → Option Bool
  | [] => some false
  | e :: es => Truth.or (e.holds x) (holdsAny x es)

def FilterExpression.holdsAll (x : Option V) : List (FilterExpression V) → Option Bool
  | [] => some true
  | e :: es => Truth.and (e.holds x) (holdsAll x es)

end

mutual

def DuckLakeFilterNode.holds (row : FieldIndex → Option V) :
    DuckLakeFilterNode V → Option Bool
  | .columnFilter f => f.tableFilter.holds (row f.columnFieldIndex)
  | .conjunction true children => holdsAny row children
  | .conjunction false children => holdsAll row children
  | .matchNone => some false

def DuckLakeFilterNode.holdsAny (row : FieldIndex → Option V) :
    List (DuckLakeFilterNode V) → Option Bool
  | [] => some false
  | n :: ns => Truth.or (n.holds row) (holdsAny row ns)

def DuckLakeFilterNode.holdsAll (row : FieldIndex → Option V) :
    List (DuckLakeFilterNode V) → Option Bool
  | [] => some true
  | n :: ns => Truth.and (n.holds row) (holdsAll row ns)

end

end Semantics

/-! ## Conditions on statistics -/

/-- An operand of a comparison: a statistic of the joined row of a column, as it is or cast to the
type of the column, or a constant, as a value or as a string. -/
inductive Operand (V : Type) where
  | stats (cte : FieldIndex) (stat : Stat)
  | castStats (cte : FieldIndex) (stat : Stat) (type : LogicalTypeId)
  | constant (c : Constant V)
  | string (t : Text)

inductive SQLCondition (V : Type) where
  | comparison (left : Operand V) (type : ComparisonType) (right : Operand V)
  | between (operand low high : Operand V)
  -- `NOT (a = c AND b = c)`
  | notBothEqual (a b c : Operand V)
  | statsColumn (cte : FieldIndex) (stat : Stat)
  | positive (cte : FieldIndex) (stat : Stat)
  | statIsNull (cte : FieldIndex) (stat : Stat)
  | noStats (cte : FieldIndex)
  | never

section Generate

variable {V : Type} [SQLValues V] [SQLWriter]

abbrev StatsSQL (V : Type) := Condition (SQLCondition V)

/-- `unordered_set<string>`: the statistics that a condition refers to. -/
abbrev ReferencedStats := List Stat

def ReferencedStats.insert (referenced : ReferencedStats) (stat : Stat) : ReferencedStats :=
  if stat ∈ referenced then referenced else referenced ++ [stat]

open Stat

def valueIsFinite (c : Constant V) (type : LogicalTypeId) : Bool :=
  !type.isFloating || c.value.any SQLValues.isFinite

def castValueToTarget (c : Constant V) (type : LogicalTypeId) : Text :=
  if type.isNumeric && valueIsFinite c type then c.string else SQLWriter.sqlString c.string

def castStatsToTarget (cte : FieldIndex) (stat : Stat) (type : LogicalTypeId) : Operand V :=
  if type.requiresValueComparison then .castStats cte stat type else .stats cte stat

/-- The literal of a constant: it is read as a value when it is compared with a cast statistic, and
stays a string when it is compared with the statistic as it is. -/
def constantOperand (c : Constant V) (type : LogicalTypeId) : Operand V :=
  if type.requiresValueComparison then .constant c else .string c.string

/-- The constants that no condition is generated for. -/
def isInexpressible (c : Constant V) (type : LogicalTypeId) : Bool :=
  (castValueToTarget c type).isEmpty || (castValueToTarget c type).contains '\x00'

def generateConstantFilter (comparisonType : ComparisonType) (c : Constant V)
    (type : LogicalTypeId) (referenced : ReferencedStats) (cte : FieldIndex) :
    StatsSQL V × ReferencedStats :=
  let minValue := castStatsToTarget cte minValue type
  let maxValue := castStatsToTarget cte maxValue type
  let constant := constantOperand c type
  if isInexpressible c type then (none, referenced)
  else match comparisonType with
    | .equal => (some (.ofAtom (.between constant minValue maxValue)),
        (referenced.insert .minValue).insert .maxValue)
    | .notEqual => (some (.ofAtom (.notBothEqual minValue maxValue constant)),
        (referenced.insert .minValue).insert .maxValue)
    | .greaterThanOrEqual => (some (.ofAtom (.comparison maxValue .greaterThanOrEqual constant)),
        referenced.insert .maxValue)
    | .greaterThan => (some (.ofAtom (.comparison maxValue .greaterThan constant)),
        referenced.insert .maxValue)
    | .lessThanOrEqual => (some (.ofAtom (.comparison minValue .lessThanOrEqual constant)),
        referenced.insert .minValue)
    | .lessThan => (some (.ofAtom (.comparison minValue .lessThan constant)),
        referenced.insert .minValue)
    | .distinctFrom | .notDistinctFrom => (none, referenced)

/-- `Value::IsNan` of the constant as a double; a missing value reads as not-a-number. -/
def constantIsNan (c : Constant V) : Bool := c.value.all SQLValues.isNan

/-- The condition of `GenerateConstantFilter`, or a file that contains not-a-number. -/
def generateConstantFilterOrNan (comparisonType : ComparisonType) (c : Constant V)
    (type : LogicalTypeId) (referenced : ReferencedStats) (cte : FieldIndex) :
    StatsSQL V × ReferencedStats :=
  match generateConstantFilter comparisonType c type referenced cte with
  | (none, referenced) => (none, referenced)
  | (some filter, referenced) =>
    (some (filter.glueOr (.ofAtom (.statsColumn cte containsNan))),
      referenced.insert containsNan)

def generateConstantFilterDouble (comparisonType : ComparisonType) (c : Constant V)
    (type : LogicalTypeId) (referenced : ReferencedStats) (cte : FieldIndex) :
    StatsSQL V × ReferencedStats :=
  match comparisonType with
  | .equal =>
    if constantIsNan c then
      (some (.ofAtom (.statsColumn cte containsNan)), referenced.insert containsNan)
    else generateConstantFilter comparisonType c type referenced cte
  -- not-a-number is bigger than anything
  | .greaterThanOrEqual | .greaterThan =>
    if constantIsNan c then (none, referenced)
    else generateConstantFilterOrNan comparisonType c type referenced cte
  | .lessThanOrEqual | .lessThan =>
    if constantIsNan c then (none, referenced)
    else generateConstantFilter comparisonType c type referenced cte
  | .notEqual =>
    if constantIsNan c then (none, referenced)
    else generateConstantFilterOrNan comparisonType c type referenced cte
  | .distinctFrom | .notDistinctFrom => (none, referenced)

/-- A comparison of the column with a constant, by the type of the column. -/
def generateComparison (comparisonType : ComparisonType) (c : Constant V) (type : LogicalTypeId)
    (referenced : ReferencedStats) (cte : FieldIndex) : StatsSQL V × ReferencedStats :=
  if type = .blob then (none, referenced)
  else if type.isFloating then
    generateConstantFilterDouble comparisonType c type referenced cte
  else generateConstantFilter comparisonType c type referenced cte

def glueAlternative (result : StatsSQL V) (filter : Disjunction (SQLCondition V)) :
    Disjunction (SQLCondition V) :=
  match result with
  | none => filter
  | some result => result.glueOr filter

/-- The loop over the constants of an `IN` list. -/
def generateInList (type : LogicalTypeId) (cte : FieldIndex) :
    StatsSQL V → List (Constant V) → ReferencedStats → StatsSQL V × ReferencedStats
  | result, [], referenced => (result, referenced)
  | result, c :: cs, referenced =>
    if c.value.isNone then (none, referenced)
    else match generateComparison .equal c type referenced cte with
      | (none, referenced) => (none, referenced)
      | (some filter, referenced) =>
        generateInList type cte (some (glueAlternative result filter.paren)) cs referenced

/-- A conjunction of the same kind is spliced in rather than nested. -/
def FilterExpression.spliced : FilterExpression V → Bool → Bool
  | .conjunction isOr _, isOr' => isOr == isOr'
  | _, _ => false

def glueConjunct (isOr : Bool) (result : StatsSQL V) (filter : Disjunction (SQLCondition V)) :
    Disjunction (SQLCondition V) :=
  match result with
  | none => filter
  | some result => if isOr then result.glueOr filter else result.glueAnd filter

mutual

def generateFilterFromExpression (type : LogicalTypeId) (cte : FieldIndex) :
    FilterExpression V → ReferencedStats → StatsSQL V × ReferencedStats
  | .comparison comparisonType c, referenced =>
    generateComparison comparisonType c type referenced cte
  | .flippedComparison c comparisonType, referenced =>
    generateComparison comparisonType.flip c type referenced cte
  | .isNull, referenced =>
    (some (.ofAtom (.positive cte nullCount)), referenced.insert nullCount)
  | .isNotNull, referenced =>
    (some (.ofAtom (.positive cte valueCount)), referenced.insert valueCount)
  | .inList constants, referenced => generateInList type cte none constants referenced
  | .conjunction isOr children, referenced =>
    generateConjunction type cte isOr none children referenced
  | .optionalFilter child, referenced =>
    generateFilterFromExpression type cte child referenced
  | .other _, referenced => (none, referenced)

/-- The loop over the children of a conjunction. A child that cannot be expressed is left out of an
`AND`, and makes an `OR` inexpressible. -/
def generateConjunction (type : LogicalTypeId) (cte : FieldIndex) (isOr : Bool) :
    StatsSQL V → List (FilterExpression V) → ReferencedStats → StatsSQL V × ReferencedStats
  | result, [], referenced => (result, referenced)
  | result, child :: children, referenced =>
    match generateFilterFromExpression type cte child referenced with
    | (none, referenced) =>
      if isOr then (none, referenced)
      else generateConjunction type cte isOr result children referenced
    | (some filter, referenced) =>
      let filter := if child.spliced isOr then filter else filter.paren
      generateConjunction type cte isOr (some (glueConjunct isOr result filter)) children
        referenced

end

/-! ## The condition of a file list -/

structure FilterSQLResult (V : Type) where
  whereConditions : StatsSQL V := none
  -- the statistics that the joined row of each column has to provide
  requiredCtes : List (FieldIndex × ReferencedStats) := []

def addCTERequirement (required : List (FieldIndex × ReferencedStats)) (column : FieldIndex)
    (referenced : ReferencedStats) : List (FieldIndex × ReferencedStats) :=
  match required with
  | [] => [(column, referenced)]
  | (column', stats) :: required =>
    if column' = column then (column', referenced.foldl .insert stats) :: required
    else (column', stats) :: addCTERequirement required column referenced

/-- `null_checks`, followed by the filter in parentheses. -/
def withNullChecks (cte : FieldIndex) (referenced : ReferencedStats)
    (filter : Disjunction (SQLCondition V)) : Disjunction (SQLCondition V) :=
  referenced.foldr (fun stat d => (Disjunction.ofAtom (.statIsNull cte stat)).glueOr d)
    filter.paren

def generateColumnFilterCondition (types : FieldIndex → LogicalTypeId)
    (columnFilter : ColumnFilterInfo V) (required : List (FieldIndex × ReferencedStats)) :
    StatsSQL V × List (FieldIndex × ReferencedStats) :=
  let cte := columnFilter.columnFieldIndex
  match generateFilterFromExpression (types cte) cte columnFilter.tableFilter [] with
  | (none, _) => (none, required)
  | (some filterCondition, referenced) =>
    let checked := withNullChecks cte referenced filterCondition
    let noStats := Disjunction.ofAtom (SQLCondition.noStats cte)
    -- a filter that a NULL row can satisfy must not prune files that only hold NULLs
    let matchesNullRows := nullCount ∈ referenced
    if ¬ matchesNullRows ∧ (minValue ∈ referenced ∨ maxValue ∈ referenced) then
      let guard := (Disjunction.ofAtom (.statIsNull cte valueCount)).glueOr
        (.ofAtom (.positive cte valueCount))
      (some (noStats.glueOr (guard.paren.glueAnd checked.paren).paren).paren,
        addCTERequirement required cte (referenced.insert valueCount))
    else
      (some (noStats.glueOr checked.paren).paren, addCTERequirement required cte referenced)

mutual

def generateFilterTreeCondition (types : FieldIndex → LogicalTypeId) :
    DuckLakeFilterNode V → Bool → List (FieldIndex × ReferencedStats) →
      StatsSQL V × List (FieldIndex × ReferencedStats)
  | .matchNone, _, required => (some (.ofAtom .never), required)
  | .columnFilter f, _, required => generateColumnFilterCondition types f required
  | .conjunction isOr children, spliceIntoParent, required =>
    match generateTreeConjunction types isOr none children required with
    | (none, required) => (none, required)
    | (some condition, required) =>
      (some (if spliceIntoParent then condition else condition.paren), required)

/-- The loop over the children of a conjunction node. -/
def generateTreeConjunction (types : FieldIndex → LogicalTypeId) (isOr : Bool) :
    StatsSQL V → List (DuckLakeFilterNode V) → List (FieldIndex × ReferencedStats) →
      StatsSQL V × List (FieldIndex × ReferencedStats)
  | condition, [], required => (condition, required)
  | condition, child :: children, required =>
    match generateFilterTreeCondition types child (child.isConjunction isOr) required with
    | (none, required) =>
      if isOr then (none, required)
      else generateTreeConjunction types isOr condition children required
    | (some childCondition, required) =>
      generateTreeConjunction types isOr (some (glueConjunct isOr condition childCondition))
        children required

end

end Generate

/-! ## Evaluation on the joined statistics -/

section Evaluate

variable {V : Type} [SQLValues V]

def FileColumnStats.text (stats : FileColumnStats) : Stat → Option Text
  | .minValue => stats.minValue
  | .maxValue => stats.maxValue
  | _ => none

def FileColumnStats.count (stats : FileColumnStats) : Stat → Option Nat
  | .nullCount => stats.nullCount
  | .valueCount => stats.valueCount
  | _ => none

/-- The statistics joined to a file: a column without statistics joins to a row of NULLs. -/
abbrev JoinedStats := FieldIndex → Option FileColumnStats

def Operand.eval (joined : JoinedStats) : Operand V → Option V
  | .stats cte stat => ((joined cte).bind (·.text stat)).map SQLValues.text
  | .castStats cte stat type => ((joined cte).bind (·.text stat)).bind (SQLValues.tryCast type)
  | .constant c => c.value
  | .string t => some (SQLValues.text t)

def SQLCondition.eval (joined : JoinedStats) : SQLCondition V → Option Bool
  | .comparison left type right => compare type (left.eval joined) (right.eval joined)
  | .between operand low high =>
    Truth.and (compare .lessThanOrEqual (low.eval joined) (operand.eval joined))
      (compare .lessThanOrEqual (operand.eval joined) (high.eval joined))
  | .notBothEqual a b c =>
    Truth.not (Truth.and (compare .equal (a.eval joined) (c.eval joined))
      (compare .equal (b.eval joined) (c.eval joined)))
  | .statsColumn cte .containsNan => (joined cte).bind (·.containsNan)
  | .statsColumn _ _ => none
  | .positive cte stat => ((joined cte).bind (·.count stat)).map (0 < ·)
  | .statIsNull cte stat => some !((joined cte).any (·.present stat))
  | .noStats cte => some (joined cte).isNone
  | .never => some false

/-- A file is listed when there is no condition, or when the condition is true. -/
def FilterSQLResult.Lists (result : FilterSQLResult V) (joined : JoinedStats) : Prop :=
  ∀ d, result.whereConditions = some d → d.eval (SQLCondition.eval joined) = some true

/-! ## The comparisons of a filter -/

mutual

/-- The comparisons with constants that a filter on a column makes. -/
def FilterExpression.comparisons : FilterExpression V → List (ComparisonType × Constant V)
  | .comparison comparisonType c => [(comparisonType, c)]
  | .flippedComparison c comparisonType => [(comparisonType.flip, c)]
  | .inList cs => cs.map (.equal, ·)
  | .conjunction _ children => comparisonsOf children
  | .optionalFilter child => child.comparisons
  | .isNull | .isNotNull | .other _ => []

def FilterExpression.comparisonsOf :
    List (FilterExpression V) → List (ComparisonType × Constant V)
  | [] => []
  | e :: es => e.comparisons ++ comparisonsOf es

end

mutual

def DuckLakeFilterNode.columnFilters : DuckLakeFilterNode V → List (ColumnFilterInfo V)
  | .columnFilter f => [f]
  | .conjunction _ children => columnFiltersOf children
  | .matchNone => []

def DuckLakeFilterNode.columnFiltersOf :
    List (DuckLakeFilterNode V) → List (ColumnFilterInfo V)
  | [] => []
  | n :: ns => n.columnFilters ++ columnFiltersOf ns

end

/-- The filters on columns, those in the trees included. -/
def FilterPushdownInfo.allFilters (info : FilterPushdownInfo V) : List (ColumnFilterInfo V) :=
  info.columnFilters ++ DuckLakeFilterNode.columnFiltersOf info.filterTrees

/-- The string of the constant is read as its value again. -/
def Constant.Reads (type : LogicalTypeId) (c : Constant V) : Prop :=
  ∀ v, c.value = some v → SQLValues.tryCast type c.string = some v

/-- The comparisons are written for statistics that stay strings. -/
def comparesAsText [SQLWriter] (type : LogicalTypeId) (c : Constant V) : Bool :=
  !type.requiresValueComparison && type ≠ .blob && !isInexpressible c type

/-- The bounds compare with the constant as strings at least as well as they do as values: a
comparison that may hold of a value between the bounds also holds of their strings. -/
def AgreesAsText (type : LogicalTypeId) (stats : FileColumnStats) (comparisonType : ComparisonType)
    (c : Constant V) : Prop :=
  ∀ v, c.value = some v → match comparisonType with
    | .equal => ∀ s ∈ stats.minValue, ∀ t ∈ stats.maxValue,
      ∀ m, SQLValues.tryCast type s = some m → ∀ n, SQLValues.tryCast type t = some n →
        m ≤ v → v ≤ n → (SQLValues.text s : V) ≤ SQLValues.text c.string ∧
          (SQLValues.text c.string : V) ≤ SQLValues.text t
    | .lessThan => ∀ s ∈ stats.minValue, ∀ m, SQLValues.tryCast type s = some m →
      m < v → (SQLValues.text s : V) < SQLValues.text c.string
    | .lessThanOrEqual => ∀ s ∈ stats.minValue, ∀ m, SQLValues.tryCast type s = some m →
      m ≤ v → (SQLValues.text s : V) ≤ SQLValues.text c.string
    | .greaterThan => ∀ t ∈ stats.maxValue, ∀ n, SQLValues.tryCast type t = some n →
      v < n → (SQLValues.text c.string : V) < SQLValues.text t
    | .greaterThanOrEqual => ∀ t ∈ stats.maxValue, ∀ n, SQLValues.tryCast type t = some n →
      v ≤ n → (SQLValues.text c.string : V) ≤ SQLValues.text t
    | .notEqual | .distinctFrom | .notDistinctFrom => True

/-- The constants are those of a filter on columns of these types. -/
def FilterPushdownInfo.Reads (types : FieldIndex → LogicalTypeId) (info : FilterPushdownInfo V) :
    Prop :=
  ∀ f ∈ info.allFilters, ∀ e ∈ f.tableFilter.comparisons, e.2.Reads (types f.columnFieldIndex)

/-- The comparisons that are made on strings agree with those of the values. -/
def FilterPushdownInfo.AgreesAsText [SQLWriter] (types : FieldIndex → LogicalTypeId)
    (joined : JoinedStats) (info : FilterPushdownInfo V) : Prop :=
  ∀ f ∈ info.allFilters, ∀ stats, joined f.columnFieldIndex = some stats →
    ∀ e ∈ f.tableFilter.comparisons, comparesAsText (types f.columnFieldIndex) e.2 = true →
      DuckLake.AgreesAsText (types f.columnFieldIndex) stats e.1 e.2

/-! ## Sound statistics -/

def IsNan (type : LogicalTypeId) (v : V) : Prop := type.isFloating = true ∧ SQLValues.isNan v = true

/-- Statistics of a column with the given values are sound: the bounds, read as values, hold for
every value but NULL and not-a-number, and the counts are exact. Each statistic may be missing. -/
structure SoundStats (type : LogicalTypeId) (values : List (Option V)) (stats : FileColumnStats) :
    Prop where
  minValue : ∀ t, stats.minValue = some t → ∀ x, some x ∈ values → ¬ IsNan type x →
    ∃ m, SQLValues.tryCast type t = some m ∧ m ≤ x
  maxValue : ∀ t, stats.maxValue = some t → ∀ x, some x ∈ values → ¬ IsNan type x →
    ∃ m, SQLValues.tryCast type t = some m ∧ x ≤ m
  nullCount : ∀ n, stats.nullCount = some n → n = values.countP (·.isNone)
  valueCount : ∀ n, stats.valueCount = some n → n = values.countP (·.isSome)
  containsNan : ∀ b, stats.containsNan = some b → (b = true ↔ ∃ x, some x ∈ values ∧ IsNan type x)

/-- A data file: its rows, and the statistics that the catalog has for its columns. -/
structure StatsFile (V : Type) where
  rows : List (FieldIndex → Option V)
  stats : JoinedStats

def StatsFile.column (file : StatsFile V) (i : FieldIndex) : List (Option V) :=
  file.rows.map (· i)

def StatsFile.Sound (file : StatsFile V) (types : FieldIndex → LogicalTypeId) : Prop :=
  ∀ i stats, file.stats i = some stats → SoundStats (types i) (file.column i) stats

end Evaluate

end DuckLake
