import DuckLake.Common.Murmur3
import DuckLake.Lib.SqlLiteral
import DuckLake.Storage.FileFilters
import DuckLake.Storage.TableEntry

/-!
# Pruning bucket partitions

A file that is written under a partition spec with `bucket(N, column)` holds rows of one bucket,
and `ducklake_file_partition_value` says which. A scan with a filter `column = constant` asks only
for the files of the bucket of the constant. The bucket of a row is that of its value in the type
the column had when the file was written, the bucket of the constant that of its value in the type
the column has now. The members of an `IN` list that are no constants are passed over, and a row
that is equal to one of them is found by chance only.
-/

namespace DuckLake

/-! ## Values -/

/-- The values of the engine, of types `T`. The binder brings the sides of a comparison to one
type. -/
class EngineValues (T V : Type) where
  typeOf : V → T
  /-- `Value::DefaultTryCastAs`. -/
  defaultTryCastAs : T → V → Option V
  compare : ComparisonType → V → V → Bool
  physical : V → PhysicalValue
  typeOf_of_cast {t : T} {v w : V} : defaultTryCastAs t v = some w → typeOf w = t
  cast_typeOf (v : V) : defaultTryCastAs (typeOf v) v = some v
  typeOf_of_equal {v w : V} : compare .equal v w = true → typeOf v = typeOf w
  equal_comm (v w : V) : compare .equal v w = compare .equal w v

/-! ## The bucket of a value -/

section

variable (T : Type) {V : Type} [EngineValues T V]

/-- `ApplyBucketTransform`, on a value that is not null: `(murmur3_32(v) & 2147483647) % N`. -/
def applyBucketTransform (v : V) (bucketCount : Nat) : Nat :=
  ((EngineValues.physical T v).murmur3.toUInt32 &&& 2147483647).toNat % bucketCount

/-- The partition value that is stored for a bucket. -/
def bucketText (v : V) (bucketCount : Nat) : Text :=
  Text.ofNat (applyBucketTransform T v bucketCount)

variable {T}

theorem bucketText_inj {v w : V} {bucketCount : Nat} :
    bucketText T v bucketCount = bucketText T w bucketCount ↔
      applyBucketTransform T v bucketCount = applyBucketTransform T w bucketCount := by
  unfold bucketText
  exact Text.ofNat_injective.eq_iff

/-- `FoldBucketValue`. -/
def foldBucketValue (constant : Option V) (colType : T) (bucketCount : Nat) : Option Text :=
  constant.bind fun v =>
    (EngineValues.defaultTryCastAs colType v).map fun w => bucketText T w bucketCount

/-- Widening a boolean or a signed integer keeps its bucket. -/
theorem applyBucketTransform_of_signed? {v w : V} {n : Int64} {bucketCount : Nat}
    (hv : (EngineValues.physical T v).signed? = some n)
    (hw : (EngineValues.physical T w).signed? = some n) :
    applyBucketTransform T v bucketCount = applyBucketTransform T w bucketCount := by
  simp only [applyBucketTransform, PhysicalValue.murmur3_of_signed? hv,
    PhysicalValue.murmur3_of_signed? hw]

end

/-! ## Filters -/

/-- A side of a comparison, or a member of an `IN` list. -/
inductive BoundOperand (V : Type) where
  /-- The column itself, as a bound reference. -/
  | column
  | constant (value : Option V)
  | expression (f : Option V → Option V)

namespace BoundOperand

variable {V : Type}

def eval (x : Option V) : BoundOperand V → Option V
  | column => x
  | constant value => value
  | expression f => f x

/-- `IsSimpleFilterSubject`. -/
def isSimpleFilterSubject : BoundOperand V → Bool
  | column => true
  | _ => false

def constant? : BoundOperand V → Option (Option V)
  | constant value => some value
  | _ => none

theorem eq_constant_of_constant? {o : BoundOperand V} {value : Option V}
    (h : o.constant? = some value) : o = constant value := by
  cases o with
  | constant v => rw [Option.some.inj h]
  | column | expression => cases h

theorem eq_column_of_simple {o : BoundOperand V} (h : o.isSimpleFilterSubject = true) :
    o = column := by
  cases o with
  | column => rfl
  | constant | expression => cases h

end BoundOperand

/-- A bound filter on one column. -/
inductive BoundExpression (V : Type) where
  | comparison (type : ComparisonType) (left right : BoundOperand V)
  /-- `COMPARE_IN`, the first child apart from the others. -/
  | inList (subject : BoundOperand V) (children : List (BoundOperand V))
  | conjunction (isOr : Bool) (children : List (BoundExpression V))
  /-- An optional filter function, with the filter it is bound to. -/
  | optionalFilter (childFilter : Option (BoundExpression V))
  | other (f : Option V → Option Bool)

namespace BoundExpression

section Semantics

variable (T : Type) {V : Type} [EngineValues T V]

def compareOperands (type : ComparisonType) (left right : Option V) : Option Bool :=
  match type, left, right with
  | .distinctFrom, none, none => some false
  | .distinctFrom, none, some _ => some true
  | .distinctFrom, some _, none => some true
  | .notDistinctFrom, none, none => some true
  | .notDistinctFrom, none, some _ => some false
  | .notDistinctFrom, some _, none => some false
  | type, some v, some w => some (EngineValues.compare T type v w)
  | _, _, _ => none

mutual

/-- What a filter says of a value of its column. An optional filter keeps a row only for the sake
of the filter it is bound to. -/
def holds (x : Option V) : BoundExpression V → Option Bool
  | .comparison type left right => compareOperands T type (left.eval x) (right.eval x)
  | .inList subject children =>
      children.foldr
        (fun c p => Truth.or (compareOperands T .equal (subject.eval x) (c.eval x)) p) (some false)
  | .conjunction true children => holdsAny x children
  | .conjunction false children => holdsAll x children
  | .optionalFilter none => some true
  | .optionalFilter (some child) => child.holds x
  | .other f => f x

def holdsAny (x : Option V) : List (BoundExpression V) → Option Bool
  | [] => some false
  | e :: es => Truth.or (e.holds x) (holdsAny x es)

def holdsAll (x : Option V) : List (BoundExpression V) → Option Bool
  | [] => some true
  | e :: es => Truth.and (e.holds x) (holdsAll x es)

end

end Semantics

section

variable {V : Type}

mutual

/-- The `IN` lists that are looked at have no members but constants. -/
def ListsConstants : BoundExpression V → Prop
  | .inList _ children => ∀ c ∈ children, ∃ value, c = .constant value
  | .conjunction false children => AllListConstants children
  | .optionalFilter (some child) => child.ListsConstants
  | .conjunction true _ | .comparison .. | .optionalFilter none | .other _ => True

def AllListConstants : List (BoundExpression V) → Prop
  | [] => True
  | e :: es => e.ListsConstants ∧ AllListConstants es

end

end

end BoundExpression

/-! ## Collecting the buckets of a filter -/

section Collect

variable {T V : Type} [EngineValues T V] (colType : T) (bucketCount : Nat)

/-- The constant that a column is compared with, on either side. -/
def comparedConstant (left right : BoundOperand V) : Option (Option V) :=
  match left.isSimpleFilterSubject, right.constant? with
  | true, some constant => some constant
  | _, _ => if right.isSimpleFilterSubject then left.constant? else none

/-- The buckets of the members of an `IN` list; a member that is not a constant, or is null, is
skipped. -/
def collectInList (children : List (BoundOperand V)) : List Text :=
  children.filterMap fun c =>
    c.constant?.bind fun constant => foldBucketValue constant colType bucketCount

mutual

/-- `CollectBucketEqualityValues`, which appends to `out` and says whether the filter can be
used. -/
def collectBucketEqualityValues : BoundExpression V → List Text → Bool × List Text
  | .comparison .equal left right, out =>
      match (comparedConstant left right).bind (foldBucketValue · colType bucketCount) with
      | some partitionValue => (true, out ++ [partitionValue])
      | none => (false, out)
  | .comparison _ _ _, out => (false, out)
  | .inList subject children, out =>
      if children.isEmpty || !subject.isSimpleFilterSubject then (false, out)
      else
        let out := out ++ collectInList colType bucketCount children
        (!out.isEmpty, out)
  | .conjunction true _, out => (false, out)
  | .conjunction false children, out =>
      let out := collectAll children out
      (!out.isEmpty, out)
  | .optionalFilter none, out => (false, out)
  | .optionalFilter (some child), out => collectBucketEqualityValues child out
  | .other _, out => (false, out)

def collectAll : List (BoundExpression V) → List Text → List Text
  | [], out => out
  | e :: es, out => collectAll es (collectBucketEqualityValues e out).2

end

end Collect

/-! ## The pruning clause -/

/-- What `BuildBucketPartitionPruningClause` reads of a table. -/
structure PartitionedTable (T : Type) where
  partitionData : Option DuckLakePartition
  columnType : FieldIndex → T

/-- A data file as the metadata has it, with its rows. A row gives for a field the value that was
written, in the type the column had then. -/
structure PartitionedFile (V : Type) where
  partitionId : Option Idx
  /-- `partition_value`, by `partition_key_index`; none where no row is stored or it is null. -/
  partitionValue : Nat → Option Text
  rows : List (FieldIndex → Option V)

/-- The filters of a scan on the columns of the table. -/
abbrev ColumnFilters (V : Type) := FieldIndex → Option (BoundExpression V)

section Clause

variable {T V : Type} [EngineValues T V]

/-- The partition values that one field of the spec admits, or none when its filter does not
prune. -/
def bucketValues (table : PartitionedTable T) (filters : ColumnFilters V)
    (field : DuckLakePartitionField) : Option (List Text) :=
  match field.transform, filters field.fieldId with
  | .bucket bucketCount, some e =>
      let collected := collectBucketEqualityValues (table.columnType field.fieldId) bucketCount e []
      if collected.1 && !collected.2.isEmpty then some collected.2 else none
  | _, _ => none

/-- `data_file_id IN (SELECT data_file_id ... WHERE partition_key_index = .. AND partition_value
IN (..))`. -/
def inBuckets (file : PartitionedFile V) (field : DuckLakePartitionField) : Option (List Text) → Bool
  | some values => (file.partitionValue field.partitionKeyIndex).any (values.contains ·)
  | none => true

/-- `BuildBucketPartitionPruningClause`, evaluated on a file. -/
def bucketPartitionPruningClause (table : PartitionedTable T) (filters : ColumnFilters V)
    (file : PartitionedFile V) : Bool :=
  match table.partitionData with
  | some spec =>
      if isTransactionLocal spec.partitionId then true
      else
        file.partitionId ≠ some spec.partitionId ||
          spec.fields.all fun field => inBuckets file field (bucketValues table filters field)
  | none => true

/-! ## Files and rows -/

variable (T) in
/-- The file was written under the spec it names: for a bucket field, all its rows are in the
bucket that is stored. -/
def PartitionedFile.WrittenUnder (file : PartitionedFile V) (spec : DuckLakePartition) : Prop :=
  file.partitionId = some spec.partitionId →
    ∀ field ∈ spec.fields, ∀ bucketCount, field.transform = .bucket bucketCount →
      ∀ row ∈ file.rows, file.partitionValue field.partitionKeyIndex =
        (row field.fieldId).map fun v => bucketText T v bucketCount

/-- A stored value as a scan returns it, cast to the type the column has now. -/
def readAs (colType : T) : Option V → Option (Option V)
  | none => some none
  | some w => (EngineValues.defaultTryCastAs colType w).map some

/-- The scan returns the row and it satisfies all the filters. -/
def SatisfiesFilters (table : PartitionedTable T) (filters : ColumnFilters V)
    (row : FieldIndex → Option V) : Prop :=
  ∀ fieldId e, filters fieldId = some e →
    ∃ x, readAs (table.columnType fieldId) (row fieldId) = some x ∧ e.holds T x = some true

/-- The filters lose no row of the file. -/
def PrunesNoMatch (table : PartitionedTable T) (file : PartitionedFile V)
    (filters : ColumnFilters V) : Prop :=
  ∀ row ∈ file.rows, SatisfiesFilters table filters row →
    bucketPartitionPruningClause table filters file = true

mutual

/-- The constants that a filter compares its column with, for all rows that it holds of. -/
def BoundExpression.equalityConstants : BoundExpression V → List (Option V)
  | .comparison .equal left right => (comparedConstant left right).toList
  | .comparison _ _ _ => []
  | .inList subject children =>
      if subject.isSimpleFilterSubject then children.filterMap (·.constant?) else []
  | .conjunction true _ => []
  | .conjunction false children => BoundExpression.allEqualityConstants children
  | .optionalFilter none => []
  | .optionalFilter (some child) => child.equalityConstants
  | .other _ => []

def BoundExpression.allEqualityConstants : List (BoundExpression V) → List (Option V)
  | [] => []
  | e :: es => e.equalityConstants ++ BoundExpression.allEqualityConstants es

end

/-- If the filter has constants that can be read in the type of the column, one of them has the
bucket of a stored value. -/
def CoversBucket (colType : T) (bucketCount : Nat) (e : BoundExpression V) (w : V) : Prop :=
  (∃ c v, some c ∈ e.equalityConstants ∧ EngineValues.defaultTryCastAs colType c = some v) →
    ∃ c v, some c ∈ e.equalityConstants ∧ EngineValues.defaultTryCastAs colType c = some v ∧
      applyBucketTransform T v bucketCount = applyBucketTransform T w bucketCount

/-- If the file is one of the committed spec of the table, then the constants of the filters on
bucket columns cover the buckets of the rows that satisfy the filters. -/
def ConstantsCover (table : PartitionedTable T) (file : PartitionedFile V)
    (filters : ColumnFilters V) : Prop :=
  ∀ spec, table.partitionData = some spec → isTransactionLocal spec.partitionId = false →
    file.partitionId = some spec.partitionId →
    ∀ field ∈ spec.fields, ∀ bucketCount, field.transform = .bucket bucketCount →
      ∀ e, filters field.fieldId = some e →
        ∀ row ∈ file.rows, SatisfiesFilters table filters row → ∀ w, row field.fieldId = some w →
          CoversBucket (table.columnType field.fieldId) bucketCount e w

/-- If the file is one of the committed spec of the table, then every constant that is equal to a
value of a bucket column, as it is read now, has the bucket of the value as it was written. -/
def BucketsAgree (table : PartitionedTable T) (file : PartitionedFile V) : Prop :=
  ∀ spec, table.partitionData = some spec → isTransactionLocal spec.partitionId = false →
    file.partitionId = some spec.partitionId →
    ∀ field ∈ spec.fields, ∀ bucketCount, field.transform = .bucket bucketCount →
      ∀ row ∈ file.rows, ∀ w v c, row field.fieldId = some w →
        EngineValues.defaultTryCastAs (table.columnType field.fieldId) w = some v →
        EngineValues.compare T .equal v c = true →
        applyBucketTransform T c bucketCount = applyBucketTransform T w bucketCount

end Clause

/-! ## Collected buckets hold that of a matching row -/

section Collected

variable {T V : Type} [EngineValues T V] {colType : T} {bucketCount : Nat}

theorem BoundExpression.compareOperands_equal {left right : Option V}
    (h : compareOperands T .equal left right = some true) :
    ∃ v w, left = some v ∧ right = some w ∧ EngineValues.compare T .equal v w = true := by
  cases left with
  | none => cases right <;> cases h
  | some v =>
    cases right with
    | none => cases h
    | some w => exact ⟨v, w, rfl, rfl, Option.some.inj h⟩

theorem comparedConstant_eval {left right : BoundOperand V} {constant x : Option V}
    (h : comparedConstant left right = some constant) :
    left = .column ∧ right.eval x = constant ∨ right = .column ∧ left.eval x = constant := by
  unfold comparedConstant at h
  split at h
  next c hl hr =>
    obtain rfl := Option.some.inj h
    rw [BoundOperand.eq_constant_of_constant? hr]
    exact .inl ⟨BoundOperand.eq_column_of_simple hl, rfl⟩
  next =>
    split at h
    next hr =>
      rw [BoundOperand.eq_constant_of_constant? h]
      exact .inr ⟨BoundOperand.eq_column_of_simple hr, rfl⟩
    next => cases h

/-- The value of a row is equal to one of the constants. -/
def EqualsConstant (T : Type) {V : Type} [EngineValues T V] (x : Option V)
    (constants : List (Option V)) : Prop :=
  ∃ v c, x = some v ∧ some c ∈ constants ∧ EngineValues.compare T .equal v c = true

theorem equalsConstant_comparison {left right : BoundOperand V} {x constant : Option V}
    (hc : comparedConstant left right = some constant)
    (h : (BoundExpression.comparison .equal left right).holds T x = some true) :
    EqualsConstant T x [constant] := by
  obtain ⟨v, w, hv, hw, heq⟩ := BoundExpression.compareOperands_equal h
  rcases comparedConstant_eval (x := x) hc with ⟨rfl, hr⟩ | ⟨rfl, hl⟩
  · exact ⟨v, w, hv, by rw [← hr, hw]; exact List.mem_singleton_self _, heq⟩
  · exact ⟨w, v, hw, by rw [← hl, hv]; exact List.mem_singleton_self _,
      by rw [EngineValues.equal_comm, heq]⟩

theorem isSome_of_comparison {left right : BoundOperand V} {x constant : Option V}
    (hc : comparedConstant left right = some constant)
    (h : (BoundExpression.comparison .equal left right).holds T x = some true) :
    x.isSome = true := by
  obtain ⟨v, -, hv, -⟩ := equalsConstant_comparison hc h
  exact Option.isSome_iff_exists.2 ⟨v, hv⟩

theorem holds_inList {children : List (BoundOperand V)} {x : Option V}
    (h : (BoundExpression.inList .column children).holds T x = some true) :
    ∃ c ∈ children, BoundExpression.compareOperands T .equal x (c.eval x) = some true := by
  induction children with
  | nil => cases h
  | cons c cs ih =>
    rcases Truth.or_eq_true.1 h with h | h
    · exact ⟨c, List.mem_cons_self, h⟩
    · obtain ⟨c', hc', h⟩ := ih h
      exact ⟨c', List.mem_cons_of_mem _ hc', h⟩

variable (colType bucketCount) in
mutual

/-- What is collected is appended: the buckets of the constants. -/
theorem collectBucketEqualityValues_eq (e : BoundExpression V) (out : List Text) :
    (collectBucketEqualityValues colType bucketCount e out).2 =
      out ++ e.equalityConstants.filterMap (foldBucketValue · colType bucketCount) := by
  cases e with
  | comparison type left right =>
    cases type with
    | equal =>
      simp only [collectBucketEqualityValues, BoundExpression.equalityConstants]
      cases comparedConstant left right with
      | none => simp
      | some constant => cases h : foldBucketValue constant colType bucketCount <;> simp [h]
    | _ => exact (List.append_nil out).symm
  | inList subject children =>
    simp only [collectBucketEqualityValues, BoundExpression.equalityConstants]
    by_cases hsubject : subject.isSimpleFilterSubject = true
    · cases children with
      | nil => simp [hsubject]
      | cons c cs =>
        simp only [List.isEmpty_cons, hsubject, Bool.not_true, Bool.or_false, Bool.false_eq_true,
          if_false, if_true, collectInList, List.filterMap_filterMap]
    · simp [hsubject]
  | conjunction isOr children =>
    cases isOr with
    | true => exact (List.append_nil out).symm
    | false => exact collectAll_eq children out
  | optionalFilter childFilter =>
    cases childFilter with
    | none => exact (List.append_nil out).symm
    | some child => exact collectBucketEqualityValues_eq child out
  | other f => exact (List.append_nil out).symm

theorem collectAll_eq (es : List (BoundExpression V)) (out : List Text) :
    collectAll colType bucketCount es out = out ++
      (BoundExpression.allEqualityConstants es).filterMap
        (foldBucketValue · colType bucketCount) := by
  cases es with
  | nil => exact (List.append_nil out).symm
  | cons e es =>
    rw [collectAll, collectAll_eq es, collectBucketEqualityValues_eq e,
      BoundExpression.allEqualityConstants, List.filterMap_append, List.append_assoc]

end

variable (colType bucketCount) in
/-- A filter of which something is collected can be used. -/
theorem collectBucketEqualityValues_usable (e : BoundExpression V)
    (h : (collectBucketEqualityValues colType bucketCount e []).2.isEmpty = false) :
    (collectBucketEqualityValues colType bucketCount e []).1 = true := by
  match e with
  | .comparison .equal left right =>
    simp only [collectBucketEqualityValues] at h ⊢
    split
    next => rfl
    next hnone =>
      rw [hnone] at h
      cases h
  | .comparison .notEqual _ _ | .comparison .lessThan _ _ | .comparison .lessThanOrEqual _ _
  | .comparison .greaterThan _ _ | .comparison .greaterThanOrEqual _ _
  | .comparison .distinctFrom _ _ | .comparison .notDistinctFrom _ _ => cases h
  | .inList subject children =>
    simp only [collectBucketEqualityValues] at h ⊢
    split
    next hskip =>
      rw [if_pos hskip] at h
      cases h
    next hskip =>
      rw [if_neg hskip] at h
      rw [h, Bool.not_false]
  | .conjunction true _ | .optionalFilter none | .other _ => cases h
  | .conjunction false children =>
    simp only [collectBucketEqualityValues] at h ⊢
    rw [h, Bool.not_false]
  | .optionalFilter (some child) => exact collectBucketEqualityValues_usable child h

mutual

/-- A filter with constants holds of no NULL, and if its lists have only constants, then of none
that is not equal to one of them. -/
theorem holds_equalityConstants (e : BoundExpression V) {x : Option V}
    (h : e.holds T x = some true) (hconstants : e.equalityConstants ≠ []) :
    x.isSome = true ∧ (e.ListsConstants → EqualsConstant T x e.equalityConstants) := by
  match e with
  | .comparison .equal left right =>
    simp only [BoundExpression.equalityConstants] at hconstants ⊢
    cases hc : comparedConstant left right with
    | none => exact absurd (congrArg Option.toList hc) hconstants
    | some constant => exact ⟨isSome_of_comparison hc h, fun _ => equalsConstant_comparison hc h⟩
  | .comparison .notEqual _ _ | .comparison .lessThan _ _ | .comparison .lessThanOrEqual _ _
  | .comparison .greaterThan _ _ | .comparison .greaterThanOrEqual _ _
  | .comparison .distinctFrom _ _ | .comparison .notDistinctFrom _ _ => exact absurd rfl hconstants
  | .inList subject children =>
    simp only [BoundExpression.equalityConstants] at hconstants ⊢
    split at hconstants
    next hsubject =>
      obtain rfl := BoundOperand.eq_column_of_simple hsubject
      obtain ⟨c, hc, hequal⟩ := holds_inList h
      obtain ⟨v, w, hv, hw, heq⟩ := BoundExpression.compareOperands_equal hequal
      refine ⟨Option.isSome_iff_exists.2 ⟨v, hv⟩, fun hall => ?_⟩
      obtain ⟨value, rfl⟩ := hall c hc
      obtain rfl : value = some w := hw
      exact ⟨v, w, hv, List.mem_filterMap.2 ⟨_, hc, rfl⟩, heq⟩
    next => exact absurd rfl hconstants
  | .conjunction true _ | .optionalFilter none | .other _ => exact absurd rfl hconstants
  | .conjunction false children => exact holdsAll_equalityConstants children h hconstants
  | .optionalFilter (some child) => exact holds_equalityConstants child h hconstants

theorem holdsAll_equalityConstants (es : List (BoundExpression V)) {x : Option V}
    (h : BoundExpression.holdsAll T x es = some true)
    (hconstants : BoundExpression.allEqualityConstants es ≠ []) :
    x.isSome = true ∧ (BoundExpression.AllListConstants es →
      EqualsConstant T x (BoundExpression.allEqualityConstants es)) := by
  match es with
  | [] => exact absurd rfl hconstants
  | e :: es =>
    obtain ⟨he, hes⟩ := Truth.and_eq_true.1 h
    rw [BoundExpression.allEqualityConstants] at hconstants ⊢
    by_cases hempty : e.equalityConstants = []
    · rw [hempty, List.nil_append] at hconstants ⊢
      obtain ⟨hsome, hequals⟩ := holdsAll_equalityConstants es hes hconstants
      exact ⟨hsome, fun hlists => hequals hlists.2⟩
    · obtain ⟨hsome, hequals⟩ := holds_equalityConstants e he hempty
      refine ⟨hsome, fun hlists => ?_⟩
      obtain ⟨v, c, hv, hc, heq⟩ := hequals hlists.1
      exact ⟨v, c, hv, List.mem_append_left _ hc, heq⟩

end

end Collected

/-! ## Pruning keeps the matching files exactly when the buckets agree -/

section Pruning

variable {T V : Type} [EngineValues T V] {table : PartitionedTable T} {file : PartitionedFile V}
  {spec : DuckLakePartition} {field : DuckLakePartitionField} {row : FieldIndex → Option V}

theorem mem_foldedBuckets {colType : T} {bucketCount : Nat} {constants : List (Option V)}
    {text : Text} :
    text ∈ constants.filterMap (foldBucketValue · colType bucketCount) ↔
      ∃ c v, some c ∈ constants ∧ EngineValues.defaultTryCastAs colType c = some v ∧
        bucketText T v bucketCount = text := by
  rw [List.mem_filterMap]
  constructor
  · rintro ⟨constant, hmem, htext⟩
    obtain ⟨c, rfl, htext⟩ := Option.bind_eq_some_iff.1 htext
    obtain ⟨v, hv, rfl⟩ := Option.map_eq_some_iff.1 htext
    exact ⟨c, v, hmem, hv, rfl⟩
  · rintro ⟨c, v, hmem, hv, rfl⟩
    exact ⟨some c, hmem, by rw [foldBucketValue, Option.bind_some, hv, Option.map_some]⟩

/-- A field prunes by the buckets of the constants, unless there are none. -/
theorem bucketValues_eq {filters : ColumnFilters V} {bucketCount : Nat} {e : BoundExpression V}
    (hbucket : field.transform = .bucket bucketCount) (he : filters field.fieldId = some e) :
    bucketValues table filters field =
      let values := e.equalityConstants.filterMap
        (foldBucketValue · (table.columnType field.fieldId) bucketCount)
      if values.isEmpty then none else some values := by
  have hcollected := collectBucketEqualityValues_eq (table.columnType field.fieldId) bucketCount e []
  rw [List.nil_append] at hcollected
  have husable := collectBucketEqualityValues_usable (table.columnType field.fieldId) bucketCount e
  simp only [bucketValues, hbucket, he]
  rw [hcollected] at husable ⊢
  cases hempty : (e.equalityConstants.filterMap
      (foldBucketValue · (table.columnType field.fieldId) bucketCount)).isEmpty with
  | true => simp
  | false => simp [husable hempty]

/-- The file is in the buckets of a field exactly when the constants cover the row. -/
theorem inBuckets_iff {filters : ColumnFilters V} {bucketCount : Nat} {e : BoundExpression V}
    (hbucket : field.transform = .bucket bucketCount) (he : filters field.fieldId = some e) {w : V}
    (hvalue : file.partitionValue field.partitionKeyIndex = some (bucketText T w bucketCount)) :
    inBuckets file field (bucketValues table filters field) = true ↔
      CoversBucket (table.columnType field.fieldId) bucketCount e w := by
  rw [bucketValues_eq hbucket he, CoversBucket]
  dsimp only
  split
  next hempty =>
    refine iff_of_true rfl ?_
    rintro ⟨c, v, hc, hv⟩
    have hmem : bucketText T v bucketCount ∈ e.equalityConstants.filterMap
        (foldBucketValue · (table.columnType field.fieldId) bucketCount) :=
      mem_foldedBuckets.2 ⟨c, v, hc, hv, rfl⟩
    rw [List.isEmpty_iff.1 hempty] at hmem
    exact absurd hmem List.not_mem_nil
  next hempty =>
    obtain ⟨text, htext⟩ := List.exists_mem_of_ne_nil _ fun hnil =>
      hempty (List.isEmpty_iff.2 hnil)
    obtain ⟨c, v, hc, hv, -⟩ := mem_foldedBuckets.1 htext
    simp only [inBuckets, hvalue, Option.any_some, List.contains_iff_mem, mem_foldedBuckets,
      bucketText_inj]
    exact ⟨fun h _ => h, fun h => h ⟨c, v, hc, hv⟩⟩

/-- A filter with constants holds of no NULL. -/
theorem inBuckets_of_null {filters : ColumnFilters V} {bucketCount : Nat} {e : BoundExpression V}
    (hbucket : field.transform = .bucket bucketCount) (he : filters field.fieldId = some e)
    (hsat : SatisfiesFilters table filters row) (hnull : row field.fieldId = none) :
    inBuckets file field (bucketValues table filters field) = true := by
  obtain ⟨x, hread, hholds⟩ := hsat _ _ he
  rw [hnull] at hread
  obtain rfl : none = x := Option.some.inj hread
  have hconstants : e.equalityConstants = [] := by
    by_contra hconstants
    exact Bool.false_ne_true (holds_equalityConstants e hholds hconstants).1
  rw [bucketValues_eq hbucket he, hconstants]
  rfl

/-- Pruning by buckets loses no matching row exactly when the constants cover the buckets of the
rows. -/
theorem prunesNoMatch_iff_constantsCover {filters : ColumnFilters V}
    (hwritten : ∀ spec, table.partitionData = some spec → file.WrittenUnder T spec) :
    PrunesNoMatch table file filters ↔ ConstantsCover table file filters := by
  constructor
  · intro hprunes spec hspec hlocal hid field hfield bucketCount hbucket e he row hrow hsat w hw
    have hkept := hprunes row hrow hsat
    have hvalue := hwritten spec hspec hid field hfield bucketCount hbucket row hrow
    simp only [bucketPartitionPruningClause, hspec, hlocal, hid, ne_eq, not_true_eq_false,
      decide_false, Bool.false_or, List.all_eq_true, Bool.false_eq_true, if_false] at hkept
    rw [hw, Option.map_some] at hvalue
    exact (inBuckets_iff hbucket he hvalue).1 (hkept field hfield)
  · intro hcover row hrow hsat
    unfold bucketPartitionPruningClause
    split
    next spec hspec =>
      split
      next => rfl
      next hlocal =>
        simp only [Bool.not_eq_true] at hlocal
        by_cases hid : file.partitionId = some spec.partitionId
        · simp only [hid, ne_eq, not_true_eq_false, decide_false, Bool.false_or, List.all_eq_true]
          intro field hfield
          cases hbucket : field.transform with
          | bucket bucketCount =>
            cases he : filters field.fieldId with
            | none => simp [bucketValues, hbucket, he, inBuckets]
            | some e =>
              cases hw : row field.fieldId with
              | none => exact inBuckets_of_null hbucket he hsat hw
              | some w =>
                have hvalue := hwritten spec hspec hid field hfield bucketCount hbucket row hrow
                rw [hw, Option.map_some] at hvalue
                exact (inBuckets_iff hbucket he hvalue).2 (hcover spec hspec hlocal hid field hfield
                  bucketCount hbucket e he row hrow hsat w hw)
          | _ => simp [bucketValues, hbucket, inBuckets]
        · simp [hid]
    next => rfl

/-- When the buckets agree, the constants of lists without other members cover the rows. -/
theorem constantsCover_of_bucketsAgree {filters : ColumnFilters V}
    (hlists : ∀ fieldId e, filters fieldId = some e → e.ListsConstants)
    (hagree : BucketsAgree table file) : ConstantsCover table file filters := by
  rintro spec hspec hlocal hid field hfield bucketCount hbucket e he row hrow hsat w hw ⟨c, -, hc, -⟩
  obtain ⟨x, hread, hholds⟩ := hsat _ _ he
  obtain ⟨-, hequals⟩ := holds_equalityConstants e hholds (List.ne_nil_of_mem hc)
  obtain ⟨v, c', rfl, hc', heq⟩ := hequals (hlists _ _ he)
  have hcast : EngineValues.defaultTryCastAs (table.columnType field.fieldId) w = some v := by
    simpa [readAs, hw] using hread
  have htype : EngineValues.typeOf c' = table.columnType field.fieldId :=
    (EngineValues.typeOf_of_equal heq).symm.trans (EngineValues.typeOf_of_cast hcast)
  exact ⟨c', c', hc', htype ▸ EngineValues.cast_typeOf c',
    hagree spec hspec hlocal hid field hfield bucketCount hbucket row hrow w v c' hw hcast heq⟩

/-- The filter `column = c`. -/
def equalityFilter (fieldId : FieldIndex) (c : V) : ColumnFilters V := fun fieldId' =>
  if fieldId' = fieldId then some (.comparison .equal .column (.constant (some c))) else none

theorem eq_of_equalityFilter {fieldId fieldId' : FieldIndex} {c : V} {e : BoundExpression V}
    (h : equalityFilter fieldId c fieldId' = some e) :
    fieldId' = fieldId ∧ e = .comparison .equal .column (.constant (some c)) := by
  unfold equalityFilter at h
  split at h
  next hid => exact ⟨hid, (Option.some.inj h).symm⟩
  next => cases h

theorem satisfies_equalityFilter {fieldId : FieldIndex} {w v c : V} (hw : row fieldId = some w)
    (hcast : EngineValues.defaultTryCastAs (table.columnType fieldId) w = some v)
    (heq : EngineValues.compare T .equal v c = true) :
    SatisfiesFilters table (equalityFilter fieldId c) row := by
  intro fieldId' e he
  obtain ⟨rfl, rfl⟩ := eq_of_equalityFilter he
  exact ⟨some v, by simp [readAs, hw, hcast], congrArg some heq⟩

/-- Pruning by buckets loses no matching row exactly when the constants of the filters cover the
buckets of the rows. It loses none for all filters with nothing but constants in their lists exactly
when the buckets agree. -/
theorem prunesNoMatch_iff
    (hwritten : ∀ spec, table.partitionData = some spec → file.WrittenUnder T spec) :
    (∀ filters, PrunesNoMatch table file filters ↔ ConstantsCover table file filters) ∧
    ((∀ filters : ColumnFilters V,
        (∀ fieldId e, filters fieldId = some e → e.ListsConstants) →
          PrunesNoMatch table file filters) ↔
      BucketsAgree table file) := by
  refine ⟨fun filters => prunesNoMatch_iff_constantsCover hwritten, fun hprunes => ?_,
    fun hagree filters hlists => (prunesNoMatch_iff_constantsCover hwritten).2
      (constantsCover_of_bucketsAgree hlists hagree)⟩
  intro spec hspec hlocal hid field hfield bucketCount hbucket row hrow w v c hw hcast heq
  have htype : EngineValues.typeOf c = table.columnType field.fieldId :=
    (EngineValues.typeOf_of_equal heq).symm.trans (EngineValues.typeOf_of_cast hcast)
  have hread : EngineValues.defaultTryCastAs (table.columnType field.fieldId) c = some c :=
    htype ▸ EngineValues.cast_typeOf c
  have hcover := (prunesNoMatch_iff_constantsCover hwritten).1
    (hprunes (equalityFilter field.fieldId c) fun fieldId e he => by
      rw [(eq_of_equalityFilter he).2]
      trivial)
  obtain ⟨c', v', hc', hv', hsame⟩ := hcover spec hspec hlocal hid field hfield bucketCount hbucket
    _ (if_pos rfl) row hrow (satisfies_equalityFilter hw hcast heq) w hw
    ⟨c, c, List.mem_singleton_self _, hread⟩
  obtain rfl : c' = c := Option.some.inj (List.mem_singleton.1 hc')
  obtain rfl : v' = c' := Option.some.inj (hv'.symm.trans hread)
  exact hsame

end Pruning

/-! ## Columns of integers -/

/-- A value of an integer type. -/
structure IntegerValue where
  type : LogicalTypeId
  n : Int
deriving DecidableEq

namespace IntegerValue

/-- The range of an integer type; empty for any other type. -/
def inRange (n : Int) : LogicalTypeId → Bool
  | .tinyint => -128 ≤ n && n ≤ 127
  | .smallint => -32768 ≤ n && n ≤ 32767
  | .integer => -2147483648 ≤ n && n ≤ 2147483647
  | .bigint => -9223372036854775808 ≤ n && n ≤ 9223372036854775807
  | .utinyint => 0 ≤ n && n ≤ 255
  | .usmallint => 0 ≤ n && n ≤ 65535
  | .uinteger => 0 ≤ n && n ≤ 4294967295
  | .ubigint => 0 ≤ n && n ≤ 18446744073709551615
  | _ => false

def compareIntegers (type : ComparisonType) (v w : IntegerValue) : Bool :=
  match type with
  | .equal | .notDistinctFrom => v = w
  | .notEqual | .distinctFrom => v ≠ w
  | .lessThan => v.n < w.n
  | .lessThanOrEqual => v.n ≤ w.n
  | .greaterThan => w.n < v.n
  | .greaterThanOrEqual => w.n ≤ v.n

def castInteger (type : LogicalTypeId) (v : IntegerValue) : Option IntegerValue :=
  if type = v.type then some v else if inRange v.n type then some ⟨type, v.n⟩ else none

/-- The unsigned types have physical types of their own, which are hashed as strings. -/
def physicalValue (v : IntegerValue) : PhysicalValue :=
  match v.type with
  | .tinyint => .int8 (Int8.ofInt v.n)
  | .smallint => .int16 (Int16.ofInt v.n)
  | .integer => .int32 (Int32.ofInt v.n)
  | .bigint => .int64 (Int64.ofInt v.n)
  | _ => .other ((Text.ofInt v.n).map fun c => UInt8.ofNat c.toNat)

theorem type_of_castInteger {type : LogicalTypeId} {v w : IntegerValue}
    (h : castInteger type v = some w) : w.type = type := by
  unfold castInteger at h
  split at h
  next htype => rw [← Option.some.inj h, htype]
  next =>
    split at h
    next => rw [← Option.some.inj h]
    next => cases h

instance : EngineValues LogicalTypeId IntegerValue where
  typeOf := type
  defaultTryCastAs := castInteger
  compare := compareIntegers
  physical := physicalValue
  typeOf_of_cast := type_of_castInteger
  cast_typeOf _ := if_pos rfl
  typeOf_of_equal h := congrArg type (of_decide_eq_true h)
  equal_comm _ _ := decide_eq_decide.2 eq_comm

end IntegerValue

/-- The spec `bucket(16, column)` on the column with field id 1. -/
def bucketSpec : DuckLakePartition where
  partitionId := 1
  localPartitionId := none
  fields := [⟨0, 1, .bucket 16⟩]

def bucketTable (type : LogicalTypeId) : PartitionedTable LogicalTypeId where
  partitionData := some bucketSpec
  columnType _ := type

/-- The file of one row that the writer makes under the spec. -/
def bucketFile (v : IntegerValue) : PartitionedFile IntegerValue where
  partitionId := some 1
  partitionValue _ := some (bucketText LogicalTypeId v 16)
  rows := [fun _ => some v]

theorem bucketFile_writtenUnder (v : IntegerValue) (type : LogicalTypeId) :
    ∀ spec, (bucketTable type).partitionData = some spec →
      (bucketFile v).WrittenUnder LogicalTypeId spec := by
  rintro spec hspec - field hfield bucketCount hbucket row hrow
  obtain rfl : bucketSpec = spec := Option.some.inj hspec
  obtain rfl := List.mem_singleton.1 hfield
  obtain rfl := List.mem_singleton.1 hrow
  obtain rfl : 16 = bucketCount := DuckLakeTransform.bucket.inj hbucket
  rfl

/-- A column that is widened from SMALLINT to BIGINT is still pruned without a loss. -/
theorem prunesNoMatch_widened :
    PrunesNoMatch (bucketTable .bigint) (bucketFile ⟨.smallint, 5⟩)
      (equalityFilter 1 ⟨.bigint, 5⟩) := by
  refine (prunesNoMatch_iff (bucketFile_writtenUnder ⟨.smallint, 5⟩ .bigint)).2.2 ?_ _
    fun fieldId e he => by rw [(eq_of_equalityFilter he).2]; trivial
  rintro spec hspec - - field hfield bucketCount - row hrow w v c hw hcast heq
  obtain rfl := List.mem_singleton.1 hrow
  obtain rfl := Option.some.inj hw
  obtain rfl : (⟨.bigint, 5⟩ : IntegerValue) = v := Option.some.inj hcast
  obtain rfl : (⟨.bigint, 5⟩ : IntegerValue) = c := of_decide_eq_true heq
  exact applyBucketTransform_of_signed? (n := 5) rfl rfl

/-- `a IN (6, abs(a))`. -/
def sixOrAbsolute : ColumnFilters IntegerValue := fun fieldId =>
  if fieldId = 1 then some (.inList .column [.constant (some ⟨.integer, 6⟩),
    .expression fun v => v.map fun v => ⟨v.type, v.n.natAbs⟩]) else none

/-- The value 5 of a column of type UTINYINT is hashed as a string; when the type of the column is
promoted to INTEGER, the filter `column = 5` asks for another bucket. And a list asks for the
buckets of its constants only. -/
theorem not_prunesNoMatch_unsigned :
    (∀ spec, (bucketTable .integer).partitionData = some spec →
        (bucketFile ⟨.utinyint, 5⟩).WrittenUnder LogicalTypeId spec ∧
          (bucketFile ⟨.integer, 5⟩).WrittenUnder LogicalTypeId spec) ∧
      ¬ PrunesNoMatch (bucketTable .integer) (bucketFile ⟨.utinyint, 5⟩)
        (equalityFilter 1 ⟨.integer, 5⟩) ∧
      ¬ PrunesNoMatch (bucketTable .integer) (bucketFile ⟨.integer, 5⟩) sixOrAbsolute := by
  refine ⟨fun spec hspec => ⟨bucketFile_writtenUnder ⟨.utinyint, 5⟩ .integer spec hspec,
    bucketFile_writtenUnder ⟨.integer, 5⟩ .integer spec hspec⟩, fun h => ?_, fun h => ?_⟩
  · have hkept := h (fun _ => some ⟨.utinyint, 5⟩) List.mem_cons_self
      (satisfies_equalityFilter (v := ⟨.integer, 5⟩) rfl rfl rfl)
    exact absurd hkept (by decide +kernel)
  · have hkept := h (fun _ => some ⟨.integer, 5⟩) List.mem_cons_self fun fieldId e he => by
      unfold sixOrAbsolute at he
      split at he
      · obtain rfl := Option.some.inj he
        exact ⟨some ⟨.integer, 5⟩, rfl, rfl⟩
      · cases he
    exact absurd hkept (by decide +kernel)

end DuckLake
