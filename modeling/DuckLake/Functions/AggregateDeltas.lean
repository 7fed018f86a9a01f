import Mathlib.Algebra.BigOperators.Group.Multiset.Basic
import Mathlib.Algebra.Order.Field.Rat
import Mathlib.Tactic.Ring
import DuckLake.Functions.DeltaRefresh

/-!
# Aggregates under changes

The aggregates of a group after a change, from those before it and from the inserted and the
deleted values: `before + inserted = deleted + after`.
-/

namespace DuckLake

namespace Sql

/-! ## Minima -/

section Extrema

variable {V : Type} [LinearOrder V]

theorem least_eq (a b : Option V) :
    least a b = (show WithTop V from a) ⊓ (show WithTop V from b) := by
  cases a with
  | none => exact (top_inf_eq (α := WithTop V) b).symm
  | some a =>
    cases b with
    | none => exact (inf_top_eq (α := WithTop V) (some a)).symm
    | some b => rfl

theorem le_iff {a b : Option V} (ha : a ≠ none) (hb : b ≠ none) :
    le a b = true ↔ (show WithTop V from a) ≤ (show WithTop V from b) := by
  obtain ⟨a, rfl⟩ := Option.ne_none_iff_exists'.1 ha
  obtain ⟨b, rfl⟩ := Option.ne_none_iff_exists'.1 hb
  exact decide_eq_true_iff.trans WithTop.coe_le_coe.symm

variable {before inserted deleted after : Multiset (Option V)}

/-- A value that is there is not less than the minimum. -/
theorem min_ne_none {s : Multiset (Option V)} {v : Option V} (hv : v ∈ s) (hne : v ≠ none) :
    min s ≠ none := fun hmin => by
  have hle : (show WithTop V from min s) ≤ v := Multiset.inf_le (α := WithTop V) hv
  rw [hmin] at hle
  exact hne (top_le_iff.1 hle)

theorem min_add (s t : Multiset (Option V)) : min (s + t) = least (min s) (min t) := by
  rw [least_eq]
  exact Multiset.inf_add (α := WithTop V) s t

/-- The minimum follows the changes when no deleted value can have been it. -/
theorem min_changed (h : before + inserted = deleted + after)
    (hdeleted : ∀ d ∈ deleted, le d (least (min before) (min inserted)) = false) :
    min after = least (min before) (min inserted) := by
  have hchanged : (show WithTop V from min after) =
      (show WithTop V from min before) ⊓ (show WithTop V from min inserted) := by
    refine GroupedView.inf_changed (W := WithTop V) h fun d hd hne hle => ?_
    have hmem : d ∈ before + inserted := h ▸ Multiset.mem_add.2 (.inl hd)
    have hnone : least (min before) (min inserted) ≠ none := min_add before inserted ▸
      min_ne_none hmem hne
    have hlt := hdeleted d hd
    rw [← Bool.not_eq_true, le_iff hne hnone, least_eq] at hlt
    exact hlt hle
  rw [least_eq]
  exact hchanged

/-- What the refreshed column is computed as, is the lesser value. -/
theorem least_by_cases (a b : Option V) :
    (if b.isNone then a else if a.isNone then b else least a b) = least a b := by
  cases a <;> cases b <;> rfl

end Extrema

/-! ## Sums and counts -/

variable {V Row : Type} [ExactValue V]

@[simp] theorem number_ofNumber (q : ℚ) : number (ofNumber (V := V) q) = q :=
  ExactValue.number_ofNumber q

@[simp] theorem number_none : number (none : Option V) = 0 := rfl

@[simp] theorem addDelta_ofNumber (old : Option V) (q : ℚ) :
    addDelta old (ofNumber q) = ofNumber (number old + q) := by
  rw [addDelta, ofNumber, Option.map_some, ExactValue.number_ofNumber, ofNumber]

@[simp] theorem positive_ofNumber (q : ℚ) : positive (ofNumber (V := V) q) = decide (0 < q) := by
  rw [positive, ofNumber, Option.any_some, ExactValue.number_ofNumber]

@[simp] theorem nonzero_ofNumber (q : ℚ) : nonzero (ofNumber (V := V) q) = decide (q ≠ 0) := by
  rw [nonzero, ofNumber, Option.any_some, ExactValue.number_ofNumber]

@[simp] theorem divide_ofNumber (p q : ℚ) :
    divide (ofNumber (V := V) p) (ofNumber q) = ofNumber (p / q) := by
  simp only [divide, ofNumber, Option.bind_some, Option.map_some, ExactValue.number_ofNumber]

@[simp] theorem number_negate (v : Option V) : number (negate v) = -number v := by
  cases v with
  | none => exact neg_zero.symm
  | some v => exact ExactValue.number_ofNumber _

/-- One for a value, and none for `NULL`. -/
def indicator (v : Option V) : ℚ := if v.isNone then 0 else 1

omit [ExactValue V] in
theorem nonNull_cons_none (s : Multiset (Option V)) : nonNull (none ::ₘ s) = nonNull s :=
  Multiset.filterMap_cons_none _ _ rfl

omit [ExactValue V] in
theorem nonNull_cons_some (v : V) (s : Multiset (Option V)) :
    nonNull (some v ::ₘ s) = v ::ₘ nonNull s :=
  Multiset.filterMap_cons_some _ _ _ rfl

theorem sum_nonNull (s : Multiset (Option V)) :
    ((nonNull s).map ExactValue.number).sum = (s.map number).sum := by
  induction s using Multiset.induction_on with
  | empty => rfl
  | cons v s ih =>
    cases v with
    | none => rw [nonNull_cons_none, ih, Multiset.map_cons, Multiset.sum_cons, number_none, zero_add]
    | some v =>
      rw [nonNull_cons_some, Multiset.map_cons, Multiset.sum_cons, ih, Multiset.map_cons,
        Multiset.sum_cons]
      rfl

omit [ExactValue V] in
theorem card_nonNull (s : Multiset (Option V)) :
    ((nonNull s).card : ℚ) = (s.map indicator).sum := by
  induction s using Multiset.induction_on with
  | empty => rfl
  | cons v s ih =>
    cases v with
    | none =>
      rw [nonNull_cons_none, ih, Multiset.map_cons, Multiset.sum_cons]
      exact (zero_add _).symm
    | some v =>
      rw [nonNull_cons_some, Multiset.card_cons, Nat.cast_add, Nat.cast_one, ih,
        Multiset.map_cons, Multiset.sum_cons, add_comm]
      rfl

omit [ExactValue V] in
theorem nonNull_eq_zero {s : Multiset (Option V)} : nonNull s = 0 ↔ (s.map indicator).sum = 0 := by
  rw [← Multiset.card_eq_zero, ← card_nonNull, Nat.cast_eq_zero]

omit [ExactValue V] in
theorem indicator_nonneg (s : Multiset (Option V)) : 0 ≤ (s.map indicator).sum := by
  rw [← card_nonNull]
  exact Nat.cast_nonneg _

/-- `COALESCE(SUM(..), 0)`. -/
theorem number_sum (s : Multiset (Option V)) : number (sum s) = (s.map number).sum := by
  rw [sum]
  split
  next h => rw [← sum_nonNull, h]; rfl
  next => rw [number_ofNumber, sum_nonNull]

theorem sum_eq (s : Multiset (Option V)) :
    sum s = if 0 < (s.map indicator).sum then ofNumber (s.map number).sum else none := by
  rw [sum, sum_nonNull]
  by_cases h : nonNull s = 0
  · rw [if_pos h, if_neg (by rw [nonNull_eq_zero.1 h]; exact lt_irrefl 0)]
  · rw [if_neg h, if_pos]
    exact lt_of_le_of_ne (indicator_nonneg s) fun heq => h (nonNull_eq_zero.2 heq.symm)

theorem avg_eq (s : Multiset (Option V)) :
    avg s = if 0 < (s.map indicator).sum
      then ofNumber ((s.map number).sum / (s.map indicator).sum) else none := by
  rw [avg, sum_nonNull, card_nonNull]
  by_cases h : nonNull s = 0
  · rw [if_pos h, if_neg (by rw [nonNull_eq_zero.1 h]; exact lt_irrefl 0)]
  · rw [if_neg h, if_pos]
    exact lt_of_le_of_ne (indicator_nonneg s) fun heq => h (nonNull_eq_zero.2 heq.symm)

theorem sum_of_mem {s : Multiset (Option V)} {v : V} (hv : some v ∈ s) :
    sum s = ofNumber (s.map number).sum := by
  rw [sum, if_neg, sum_nonNull]
  exact fun hzero => Multiset.notMem_zero v (hzero ▸ (Multiset.mem_filterMap _ _).2 ⟨_, hv, rfl⟩)

/-- `COALESCE(SUM(..), 0)` is a number. -/
theorem some_getD_sum (s : Multiset (Option V)) :
    some ((sum s).getD (ExactValue.ofNumber 0)) = ofNumber (s.map number).sum := by
  rw [sum]
  split
  next h =>
    rw [← sum_nonNull, h]
    rfl
  next =>
    rw [sum_nonNull]
    rfl

/-! ## Aggregates that are maintained as numbers -/

/-- What a value adds to an aggregate. -/
def contribution (kind : MVAggKind) (v : Option V) : ℚ :=
  match kind with
  | .sum => number v
  | .countCol => indicator v
  | _ => 1

def isNumeric (kind : MVAggKind) : Prop := kind = .sum ∨ kind = .countStar ∨ kind = .countCol

theorem number_aggregate {kind : MVAggKind} (hkind : isNumeric kind) (s : Multiset (Option V)) :
    number (aggregate kind s) = (s.map (contribution kind)).sum := by
  rcases hkind with rfl | rfl | rfl
  · exact number_sum s
  · rw [aggregate, number_ofNumber]
    change (s.card : ℚ) = (s.map fun _ => (1 : ℚ)).sum
    simp
  · rw [aggregate, number_ofNumber, card_nonNull]
    rfl

/-- The maximum follows the changes when no deleted value can have been it. -/
theorem max_changed {before inserted deleted after : Multiset (Option V)}
    (h : before + inserted = deleted + after)
    (hdeleted : ∀ d ∈ deleted, ge d (greatest (max before) (max inserted)) = false) :
    max after = greatest (max before) (max inserted) :=
  min_changed (V := Vᵒᵈ) h hdeleted

theorem greatest_by_cases (a b : Option V) :
    (if b.isNone then a else if a.isNone then b else greatest a b) = greatest a b :=
  least_by_cases (V := Vᵒᵈ) a b

end Sql

/-! ## The changes of a group -/

section Groups

variable {V Row : Type} [ExactValue V] {I : Interpretation V Row} {input : RefreshInput}
variable {agg : NumberedAggregate} {before inserted deleted after : Multiset Row}

/-- The rows of `__cdc` of a group. -/
def groupChanges (I : Interpretation V Row) (input : RefreshInput)
    (inserted deleted : Multiset Row) : Multiset (CdcRow V) :=
  inserted.map (insertedRow I input) + deleted.map (deletedRow I input)

theorem measure_insertedRow (hagg : agg ∈ input.aggregates) (row : Row) :
    measure agg.2 (insertedRow I input row) = insertedMeasure I agg.1 row := by
  have hget : input.analysis.aggregates[agg.2]? = some agg.1 :=
    (List.mem_zipIdx_iff_getElem?.1 hagg)
  simp [measure, insertedRow, List.getD_eq_getElem?_getD, hget]

theorem measure_deletedRow (hagg : agg ∈ input.aggregates) (row : Row) :
    measure agg.2 (deletedRow I input row) = deletedMeasure I agg.1 row := by
  have hget : input.analysis.aggregates[agg.2]? = some agg.1 :=
    (List.mem_zipIdx_iff_getElem?.1 hagg)
  simp [measure, deletedRow, List.getD_eq_getElem?_getD, hget]

theorem map_measure_groupChanges (hagg : agg ∈ input.aggregates) :
    (groupChanges I input inserted deleted).map (measure agg.2) =
      inserted.map (insertedMeasure I agg.1) + deleted.map (deletedMeasure I agg.1) := by
  rw [groupChanges, Multiset.map_add, Multiset.map_map, Multiset.map_map]
  congr 1
  · exact Multiset.map_congr rfl fun row _ => measure_insertedRow hagg row
  · exact Multiset.map_congr rfl fun row _ => measure_deletedRow hagg row

/-- The sum of the contributions of the changes. -/
def changeOf (I : Interpretation V Row) (info : MVAggregateInfo)
    (inserted deleted : Multiset Row) : ℚ :=
  (inserted.map fun row => Sql.contribution info.kind (I.eval info.childSql row)).sum +
    (deleted.map fun row => -Sql.contribution info.kind (I.eval info.childSql row)).sum

theorem insertedMeasure_count (hkind : agg.1.kind = .countStar ∨ agg.1.kind = .countCol) (row : Row) :
    insertedMeasure I agg.1 row =
      Sql.ofNumber (Sql.contribution agg.1.kind (I.eval agg.1.childSql row)) := by
  rcases hkind with hkind | hkind
  · rw [insertedMeasure, hkind]
    rfl
  · rw [insertedMeasure, hkind]
    cases h : I.eval agg.1.childSql row <;> rfl

theorem deletedMeasure_count (hkind : agg.1.kind = .countStar ∨ agg.1.kind = .countCol) (row : Row) :
    deletedMeasure I agg.1 row =
      Sql.ofNumber (-Sql.contribution agg.1.kind (I.eval agg.1.childSql row)) := by
  rcases hkind with hkind | hkind
  · rw [deletedMeasure, hkind]
    rfl
  · rw [deletedMeasure, hkind]
    cases h : I.eval agg.1.childSql row
    · simp [Sql.contribution, Sql.indicator]
    · simp [Sql.contribution, Sql.indicator]

theorem sum_measures_numeric (hagg : agg ∈ input.aggregates) (hkind : Sql.isNumeric agg.1.kind) :
    (((groupChanges I input inserted deleted).map (measure agg.2)).map Sql.number).sum =
      changeOf I agg.1 inserted deleted := by
  rw [map_measure_groupChanges hagg, Multiset.map_add, Multiset.sum_add, Multiset.map_map,
    Multiset.map_map, changeOf]
  congr 2
  · refine Multiset.map_congr rfl fun row _ => ?_
    rcases hkind with hsum | hcount
    · rw [Function.comp_apply, insertedMeasure, hsum]
      rfl
    · rw [Function.comp_apply, insertedMeasure_count hcount, Sql.number_ofNumber]
  · refine Multiset.map_congr rfl fun row _ => ?_
    rcases hkind with hsum | hcount
    · rw [Function.comp_apply, deletedMeasure, hsum]
      exact Sql.number_negate _
    · rw [Function.comp_apply, deletedMeasure_count hcount, Sql.number_ofNumber]

/-- The change of an aggregate that is maintained as a number. -/
theorem delta_numeric (hagg : agg ∈ input.aggregates) (hkind : Sql.isNumeric agg.1.kind)
    (hchanged : groupChanges I input inserted deleted ≠ 0) :
    delta agg (groupChanges I input inserted deleted) =
      Sql.ofNumber (changeOf I agg.1 inserted deleted) := by
  rw [← sum_measures_numeric hagg hkind]
  rcases hkind with hsum | hcount
  · rw [delta, hsum]
    exact Sql.some_getD_sum _
  · have hdelta : delta agg (groupChanges I input inserted deleted) =
        Sql.sum ((groupChanges I input inserted deleted).map (measure agg.2)) := by
      rw [delta]
      rcases hcount with hkind | hkind <;> rw [hkind]
    obtain ⟨row, hrow⟩ := Multiset.exists_mem_of_ne_zero hchanged
    obtain ⟨q, hq⟩ : ∃ q, measure agg.2 row = Sql.ofNumber q := by
      rcases Multiset.mem_add.1 hrow with hmem | hmem
      · obtain ⟨r, -, rfl⟩ := Multiset.mem_map.1 hmem
        exact ⟨_, (measure_insertedRow hagg r).trans (insertedMeasure_count hcount r)⟩
      · obtain ⟨r, -, rfl⟩ := Multiset.mem_map.1 hmem
        exact ⟨_, (measure_deletedRow hagg r).trans (deletedMeasure_count hcount r)⟩
    have hmem : Sql.ofNumber q ∈
        (groupChanges I input inserted deleted).map (measure agg.2) :=
      hq ▸ Multiset.mem_map_of_mem (measure agg.2) hrow
    rw [hdelta]
    exact Sql.sum_of_mem hmem

/-- The value that an aggregate had in a group, if there was the group. -/
def oldValue (I : Interpretation V Row) (info : MVAggregateInfo) (before : Multiset Row) :
    Option V :=
  if before.card = 0 then none else Sql.aggregate info.kind (before.map (I.eval info.childSql))

theorem number_oldValue (hkind : Sql.isNumeric agg.1.kind) :
    Sql.number (oldValue I agg.1 before) =
      (before.map fun row => Sql.contribution agg.1.kind (I.eval agg.1.childSql row)).sum := by
  rw [oldValue]
  split
  next h =>
    rw [Multiset.card_eq_zero.1 h]
    rfl
  next =>
    rw [Sql.number_aggregate hkind, Multiset.map_map]
    rfl

/-- What is stored, and what has changed, make the number after the changes. -/
theorem addDelta_numeric (hagg : agg ∈ input.aggregates) (hkind : Sql.isNumeric agg.1.kind)
    (hchanged : groupChanges I input inserted deleted ≠ 0)
    (h : before + inserted = deleted + after) :
    Sql.addDelta (oldValue I agg.1 before) (delta agg (groupChanges I input inserted deleted)) =
      Sql.ofNumber
        (after.map fun row => Sql.contribution agg.1.kind (I.eval agg.1.childSql row)).sum := by
  rw [delta_numeric hagg hkind hchanged, Sql.addDelta_ofNumber, number_oldValue hkind, changeOf,
    GroupedView.sum_changed _ h]

theorem filter_inserted_groupChanges :
    (groupChanges I input inserted deleted).filter (fun row => row.inserted) =
      inserted.map (insertedRow I input) := by
  have hinserted : (inserted.map (insertedRow I input)).filter (fun row => row.inserted) =
      inserted.map (insertedRow I input) := Multiset.filter_eq_self.2 fun row hrow => by
    obtain ⟨r, -, rfl⟩ := Multiset.mem_map.1 hrow
    rfl
  have hdeleted : (deleted.map (deletedRow I input)).filter (fun row => row.inserted) = 0 :=
    Multiset.filter_eq_nil.2 fun row hrow => by
      obtain ⟨r, -, rfl⟩ := Multiset.mem_map.1 hrow
      exact nofun
  rw [groupChanges, Multiset.filter_add, hinserted, hdeleted, add_zero]

theorem map_measure_inserted (hagg : agg ∈ input.aggregates)
    (hkind : agg.1.kind = .min ∨ agg.1.kind = .max) :
    ((groupChanges I input inserted deleted).filter fun row => row.inserted).map (measure agg.2) =
      inserted.map (I.eval agg.1.childSql) := by
  rw [filter_inserted_groupChanges, Multiset.map_map]
  refine Multiset.map_congr rfl fun row _ => ?_
  rw [Function.comp_apply, measure_insertedRow hagg]
  rcases hkind with hkind | hkind <;> rw [insertedMeasure, hkind]

theorem delta_min (hagg : agg ∈ input.aggregates) (hkind : agg.1.kind = .min) :
    delta agg (groupChanges I input inserted deleted) =
      Sql.min (inserted.map (I.eval agg.1.childSql)) := by
  rw [← map_measure_inserted hagg (.inl hkind), delta, hkind]

theorem delta_max (hagg : agg ∈ input.aggregates) (hkind : agg.1.kind = .max) :
    delta agg (groupChanges I input inserted deleted) =
      Sql.max (inserted.map (I.eval agg.1.childSql)) := by
  rw [← map_measure_inserted hagg (.inr hkind), delta, hkind]

theorem oldValue_min {info : MVAggregateInfo} (hkind : info.kind = .min) :
    oldValue I info before = Sql.min (before.map (I.eval info.childSql)) := by
  rw [oldValue, hkind]
  split
  next h =>
    rw [Multiset.card_eq_zero.1 h]
    rfl
  next => rfl

theorem oldValue_max {info : MVAggregateInfo} (hkind : info.kind = .max) :
    oldValue I info before = Sql.max (before.map (I.eval info.childSql)) := by
  rw [oldValue, hkind]
  split
  next h =>
    rw [Multiset.card_eq_zero.1 h]
    rfl
  next => rfl

end Groups

end DuckLake
