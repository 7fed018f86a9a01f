import Mathlib.Algebra.Order.Monoid.Unbundled.WithTop
import Mathlib.Algebra.Order.Ring.Int
import DuckLake.Storage.FileFilters

/-!
# Dynamic filters of Top-N

While a Top-N runs, the bound that a row has to beat is a filter on the scan. Files are skipped by
their bounds before they are opened. The maximum of a file leaves out not-a-number, which is the
greatest value: `canSkipFileByTopNDynamicFilter_iff` says which files are skipped wrongly.
-/

namespace DuckLake

/-! ## The state of a filter -/

structure DynamicFilterData (C : Type) where
  initialized : Bool
  comparisonType : ComparisonType
  constant : C
deriving Repr

/-- The expression of a table filter, as far as a dynamic filter is looked for in it. -/
inductive RuntimeFilter (C : Type) where
  | optionalDynamicFilter (data : DynamicFilterData C)
  | conjunction (isOr : Bool) (children : List (RuntimeFilter C))
  | other

mutual

def getOptionalDynamicFilterData {C : Type} : RuntimeFilter C → Option (DynamicFilterData C)
  | .optionalDynamicFilter data => some data
  | .conjunction true _ => none
  | .conjunction false children => getFirstDynamicFilterData children
  | .other => none

def getFirstDynamicFilterData {C : Type} : List (RuntimeFilter C) → Option (DynamicFilterData C)
  | [] => none
  | child :: children =>
    match getOptionalDynamicFilterData child with
    | some data => some data
    | none => getFirstDynamicFilterData children

end

/-- The constants of dynamic filters: how they are cast to the type of a column, and how a value of
the column compares with them. -/
class DynamicConstants (V C : Type) where
  defaultTryCastAs : LogicalTypeId → C → Option V
  satisfies : LogicalTypeId → ComparisonType → V → C → Bool

/-! ## Skipping a file -/

structure DuckLakeFileColumnStats where
  min : Option Text
  max : Option Text
deriving DecidableEq, Repr

/-- `column_min_max`: the bounds of the statistics that are joined to a file. -/
def columnMinMax (stats : Option FileColumnStats) : DuckLakeFileColumnStats where
  min := stats.bind (·.minValue)
  max := stats.bind (·.maxValue)

section Skip

variable {V C : Type} [SQLValues V] [DynamicConstants V C]

/-- A bound that can be read and does not satisfy the comparison with the constant. -/
def boundFails (columnType : LogicalTypeId) (comparisonType : ComparisonType)
    (bound : Option Text) (constant : V) : Bool :=
  match bound.bind (SQLValues.tryCast columnType) with
  | none => false
  | some bound => !compareValues comparisonType bound constant

variable (V) in
def canSkipFileByTopNDynamicFilter (columnStats : DuckLakeFileColumnStats)
    (columnType : LogicalTypeId) (tableFilter : RuntimeFilter C) : Bool :=
  match getOptionalDynamicFilterData tableFilter with
  | none => false
  | some data =>
    if ¬ data.initialized then false
    else match (DynamicConstants.defaultTryCastAs columnType data.constant : Option V) with
      | none => false
      | some constant =>
        match data.comparisonType with
        | .greaterThan | .greaterThanOrEqual =>
          boundFails columnType data.comparisonType columnStats.max constant
        | .lessThan | .lessThanOrEqual =>
          boundFails columnType data.comparisonType columnStats.min constant
        | _ => false

/-! ## Which files are skipped wrongly -/

/-- The bounds of a file column hold for every value but NULL and not-a-number. Each may be
missing. -/
structure SoundBounds (columnType : LogicalTypeId) (values : List (Option V))
    (columnStats : DuckLakeFileColumnStats) : Prop where
  min : ∀ m, columnStats.min.bind (SQLValues.tryCast columnType) = some m →
    ∀ x, some x ∈ values → ¬ IsNan columnType x → m ≤ x
  max : ∀ m, columnStats.max.bind (SQLValues.tryCast columnType) = some m →
    ∀ x, some x ∈ values → ¬ IsNan columnType x → x ≤ m

variable (V) in
/-- The constant has the type of the column or is cast to it without loss. -/
def LosslessConstant (columnType : LogicalTypeId) (constant : C) : Prop :=
  ∀ v, (DynamicConstants.defaultTryCastAs columnType constant : Option V) = some v →
    ∀ comparisonType (x : V),
      DynamicConstants.satisfies columnType comparisonType x constant =
        compareValues comparisonType x v

/-- Skipping the file loses no value that satisfies the comparison of the filter. -/
def SkipsNoMatch (columnType : LogicalTypeId) (values : List (Option V))
    (columnStats : DuckLakeFileColumnStats) (tableFilter : RuntimeFilter C) : Prop :=
  canSkipFileByTopNDynamicFilter V columnStats columnType tableFilter = true →
    ∀ data, getOptionalDynamicFilterData tableFilter = some data →
      ∀ x, some x ∈ values →
        DynamicConstants.satisfies columnType data.comparisonType x data.constant = false

/-- The column has a not-a-number that a comparison with `>` or `>=` is looking for, while the
maximum of its numbers is below the constant (or for `>` at most the constant). -/
def MaxMissesNan (columnType : LogicalTypeId) (values : List (Option V))
    (columnStats : DuckLakeFileColumnStats) (data : DynamicFilterData C) : Prop :=
  data.initialized = true ∧
    ∃ x m v, some x ∈ values ∧ IsNan columnType x ∧
      columnStats.max.bind (SQLValues.tryCast columnType) = some m ∧
      DynamicConstants.defaultTryCastAs columnType data.constant = some v ∧
      (data.comparisonType = .greaterThan ∧ m ≤ v ∧ v < x ∨
        data.comparisonType = .greaterThanOrEqual ∧ m < v)

variable {columnType : LogicalTypeId} {values : List (Option V)}
  {columnStats : DuckLakeFileColumnStats} {tableFilter : RuntimeFilter C}

theorem boundFails_eq_true {comparisonType : ComparisonType} {bound : Option Text} {v : V} :
    boundFails columnType comparisonType bound v = true ↔
      ∃ m, bound.bind (SQLValues.tryCast columnType) = some m ∧
        compareValues comparisonType m v = false := by
  unfold boundFails
  split
  next h => simp [h]
  next m h => simp [h]

/-- When a file is skipped. -/
theorem canSkipFileByTopNDynamicFilter_eq_true :
    canSkipFileByTopNDynamicFilter V columnStats columnType tableFilter = true ↔
      ∃ data v, getOptionalDynamicFilterData tableFilter = some data ∧ data.initialized = true ∧
        DynamicConstants.defaultTryCastAs columnType data.constant = some (v : V) ∧
        ((data.comparisonType = .greaterThan ∨ data.comparisonType = .greaterThanOrEqual) ∧
            boundFails columnType data.comparisonType columnStats.max v = true ∨
          (data.comparisonType = .lessThan ∨ data.comparisonType = .lessThanOrEqual) ∧
            boundFails columnType data.comparisonType columnStats.min v = true) := by
  unfold canSkipFileByTopNDynamicFilter
  cases hdata : getOptionalDynamicFilterData tableFilter with
  | none => simp
  | some data =>
    cases hinit : data.initialized with
    | false => simp [hinit]
    | true =>
      cases hcast : (DynamicConstants.defaultTryCastAs columnType data.constant : Option V) with
      | none => simp [hinit, hcast]
      | some v => cases hcmp : data.comparisonType <;> simp [hinit, hcast, hcmp]

/-- A file that is skipped by its minimum has no value below the constant: not-a-number is not. -/
theorem compareValues_of_min (hsound : SoundBounds columnType values columnStats) {m v x : V}
    (hm : columnStats.min.bind (SQLValues.tryCast columnType) = some m) (hx : some x ∈ values)
    {comparisonType : ComparisonType}
    (hless : comparisonType = .lessThan ∨ comparisonType = .lessThanOrEqual)
    (hfails : compareValues comparisonType m v = false) :
    compareValues comparisonType x v = false := by
  have hle : m ≤ x := by
    by_cases hnan : IsNan columnType x
    · exact SQLValues.le_nan hnan.2
    · exact hsound.min m hm x hx hnan
  rcases hless with rfl | rfl
  · simp only [compareValues, decide_eq_false_iff_not, not_lt] at hfails ⊢
    exact hfails.trans hle
  · simp only [compareValues, decide_eq_false_iff_not, not_le] at hfails ⊢
    exact hfails.trans_le hle

/-- A file that is skipped by its maximum has no number that satisfies the comparison. -/
theorem compareValues_of_max (hsound : SoundBounds columnType values columnStats) {m v x : V}
    (hm : columnStats.max.bind (SQLValues.tryCast columnType) = some m) (hx : some x ∈ values)
    (hnan : ¬ IsNan columnType x) {comparisonType : ComparisonType}
    (hgreater : comparisonType = .greaterThan ∨ comparisonType = .greaterThanOrEqual)
    (hfails : compareValues comparisonType m v = false) :
    compareValues comparisonType x v = false := by
  have hle : x ≤ m := hsound.max m hm x hx hnan
  rcases hgreater with rfl | rfl
  · simp only [compareValues, decide_eq_false_iff_not, not_lt] at hfails ⊢
    exact hle.trans hfails
  · simp only [compareValues, decide_eq_false_iff_not, not_le] at hfails ⊢
    exact hle.trans_lt hfails

/-- Skipping loses a match exactly when it loses a not-a-number. -/
theorem skipsNoMatch_iff (hsound : SoundBounds columnType values columnStats)
    (hconstant : ∀ data, getOptionalDynamicFilterData tableFilter = some data →
      LosslessConstant V columnType data.constant) :
    SkipsNoMatch columnType values columnStats tableFilter ↔
      ∀ data, getOptionalDynamicFilterData tableFilter = some data →
        ¬ MaxMissesNan columnType values columnStats data := by
  constructor
  · rintro hskips data hdata ⟨hinit, x, m, v, hx, hnan, hm, hv, hcmp⟩
    have hfails : (data.comparisonType = .greaterThan ∨
        data.comparisonType = .greaterThanOrEqual) ∧
        compareValues data.comparisonType m v = false ∧
        compareValues data.comparisonType x v = true := by
      rcases hcmp with ⟨hgt, hle, hlt⟩ | ⟨hge, hlt⟩
      · rw [hgt]
        exact ⟨.inl rfl, by simpa [compareValues] using hle, by simpa [compareValues] using hlt⟩
      · rw [hge]
        have hmax : v ≤ x := SQLValues.le_nan hnan.2
        exact ⟨.inr rfl, by simpa [compareValues] using hlt, by simpa [compareValues] using hmax⟩
    obtain ⟨hgreater, hbound, hmatch⟩ := hfails
    have hskip : canSkipFileByTopNDynamicFilter V columnStats columnType tableFilter = true :=
      canSkipFileByTopNDynamicFilter_eq_true.2 ⟨data, v, hdata, hinit, hv,
        .inl ⟨hgreater, boundFails_eq_true.2 ⟨m, hm, hbound⟩⟩⟩
    have hlost := hskips hskip data hdata x hx
    rw [hconstant data hdata v hv, hmatch] at hlost
    cases hlost
  · intro hcondition hskip data hdata x hx
    obtain ⟨data', v, hdata', hinit, hv, hcases⟩ := canSkipFileByTopNDynamicFilter_eq_true.1 hskip
    obtain rfl : data' = data := Option.some.inj (hdata'.symm.trans hdata)
    rw [hconstant data' hdata v hv]
    rcases hcases with ⟨hgreater, hbound⟩ | ⟨hless, hbound⟩
    · obtain ⟨m, hm, hfails⟩ := boundFails_eq_true.1 hbound
      by_cases hnan : IsNan columnType x
      · by_contra hmatch
        refine hcondition data' hdata ⟨hinit, x, m, v, hx, hnan, hm, hv, ?_⟩
        rcases hgreater with hgt | hge
        · rw [hgt] at hfails hmatch
          exact .inl ⟨hgt, by simpa [compareValues] using hfails,
            by simpa [compareValues] using hmatch⟩
        · rw [hge] at hfails
          exact .inr ⟨hge, by simpa [compareValues] using hfails⟩
      · exact compareValues_of_max hsound hm hx hnan hgreater hfails
    · obtain ⟨m, hm, hfails⟩ := boundFails_eq_true.1 hbound
      exact compareValues_of_min hsound hm hx hless hfails

end Skip

section Example

/-- Integers and not-a-number, read from digits. -/
@[reducible] def integersAndNan : SQLValues (WithTop Int) where
  toLinearOrder := inferInstance
  isNan v := v = ⊤
  isFinite v := v ≠ ⊤
  tryCast _ t := if t.all Char.isDigit then some ((Nat.ofDigitChars 10 t 0 : Int) : WithTop Int)
    else none
  text _ := 0
  le_nan h := (of_decide_eq_true h) ▸ le_top

/-- Constants of the type of the column. -/
@[reducible] def columnConstants : DynamicConstants (WithTop Int) (WithTop Int) where
  defaultTryCastAs _ c := some c
  satisfies _ comparisonType x c :=
    @compareValues (WithTop Int) integersAndNan comparisonType x c

attribute [local instance] integersAndNan columnConstants

/-- `ORDER BY x DESC LIMIT 1` when 2 is the greatest value so far. -/
def greaterThanTwo : RuntimeFilter (WithTop Int) :=
  .optionalDynamicFilter ⟨true, .greaterThan, (2 : Int)⟩

/-- The bounds of 1 and not-a-number. -/
def boundsOfOne : DuckLakeFileColumnStats := ⟨some "1".toList, some "1".toList⟩

theorem losslessConstant_columnConstants (columnType : LogicalTypeId) (c : WithTop Int) :
    LosslessConstant (WithTop Int) columnType c := by
  rintro v ⟨⟩ comparisonType x
  rfl

theorem soundBounds_boundsOfOne :
    SoundBounds (V := WithTop Int) .double [some (1 : Int), some ⊤] boundsOfOne := by
  have hone : ∀ m : WithTop Int, SQLValues.tryCast .double "1".toList = some m →
      m = ((1 : Int) : WithTop Int) := by
    rintro m ⟨⟩
    rfl
  have hvalue : ∀ x : WithTop Int, some x ∈ [some ((1 : Int) : WithTop Int), some ⊤] →
      ¬ IsNan .double x → x = ((1 : Int) : WithTop Int) := by
    intro x hx hnan
    rcases List.mem_pair.1 hx with h | h
    · exact Option.some.inj h
    · exact absurd ⟨rfl, decide_eq_true (Option.some.inj h)⟩ hnan
  constructor
  · intro m hm x hx hnan
    rw [hone m hm, hvalue x hx hnan]
  · intro m hm x hx hnan
    rw [hone m hm, hvalue x hx hnan]

/-- A file with not-a-number is skipped, though nothing is greater. -/
theorem not_skipsNoMatch :
    ¬ SkipsNoMatch .double [some ((1 : Int) : WithTop Int), some ⊤] boundsOfOne
      greaterThanTwo := by
  intro h
  have hlost := h (by decide) _ rfl ⊤ (by simp)
  exact absurd hlost (by decide)

theorem skipsNoMatch_iff_boundsOfOne :
    SoundBounds (V := WithTop Int) .double [some (1 : Int), some ⊤] boundsOfOne ∧
      (SkipsNoMatch .double [some ((1 : Int) : WithTop Int), some ⊤] boundsOfOne greaterThanTwo ↔
        ∀ data, getOptionalDynamicFilterData greaterThanTwo = some data →
          ¬ MaxMissesNan .double [some ((1 : Int) : WithTop Int), some ⊤] boundsOfOne data) :=
  ⟨soundBounds_boundsOfOne, skipsNoMatch_iff soundBounds_boundsOfOne
    fun _ _ => losslessConstant_columnConstants _ _⟩

end Example

end DuckLake
