import Mathlib.Algebra.Order.Ring.Nat
import Mathlib.Data.Char
import Mathlib.Data.List.Lex
import DuckLake.Common.Stats
import DuckLake.Lib.PartialBound

/-!
# The order in which statistics are merged

The statistics of a table are merged from those of its files, which arrive in the order of the
inserts and are grouped by transactions. Minimum and maximum are each a partial bound of the values
of the files; the merge of statistics is the merge of their bounds.
-/

namespace DuckLake

namespace DuckLakeColumnStats

/-! ## What the statistics of a file say -/

section Sound

variable (s : DuckLakeColumnStats)

/-- Both counts are known. -/
def hasCounts : Bool := s.hasNumValues && s.hasNullCount

/-- Whether the file can hold a value that is not NULL. -/
def canHoldValue : Bool :=
  if s.hasCounts then s.nullCount < s.numValues else s.isAnyValid || s.boundsUnknown

/-- The statistics of one file are sound: the counts and the flags do not contradict each other, and
bounds are those of values. Invalidated bounds belong to statistics without counts. -/
structure Sound : Prop where
  nullCount_le : s.hasCounts → s.nullCount ≤ s.numValues
  not_isAnyValid : s.isAnyValid = false → s.anyValid = false
  anyValid_of_hasMin : s.hasMin → s.anyValid
  anyValid_of_hasMax : s.hasMax → s.anyValid
  not_hasCounts : s.boundsUnknown → s.hasCounts = false
  not_hasMin : s.boundsUnknown → s.hasMin = false
  not_hasMax : s.boundsUnknown → s.hasMax = false

end Sound

/-! ## The bounds of the statistics -/

section Side

variable {V : Type} {a b s : DuckLakeColumnStats} {bound : Option V}

def counts (s : DuckLakeColumnStats) : Option (Nat × Nat) :=
  if s.hasCounts then some (s.nullCount, s.numValues) else none

/-- What the statistics say of one of their two bounds. -/
def side (s : DuckLakeColumnStats) (bound : Option V) : PartialBound V where
  counts := s.counts
  valid := s.isAnyValid
  unknown := s.boundsUnknown
  bound := bound

def minValue (value : Text → V) (s : DuckLakeColumnStats) : Option V :=
  if s.hasMin then some (value s.min) else none

/-- The maximum is the least value in the reverse order. -/
def maxValue (value : Text → V) (s : DuckLakeColumnStats) : Option Vᵒᵈ :=
  if s.hasMax then some (OrderDual.toDual (value s.max)) else none

def minBound (value : Text → V) (s : DuckLakeColumnStats) : PartialBound V :=
  s.side (s.minValue value)

def maxBound (value : Text → V) (s : DuckLakeColumnStats) : PartialBound Vᵒᵈ :=
  s.side (s.maxValue value)

theorem minValue_isSome (value : Text → V) : (s.minValue value).isSome = s.hasMin := by
  cases h : s.hasMin <;> simp [minValue, h]

theorem maxValue_isSome (value : Text → V) : (s.maxValue value).isSome = s.hasMax := by
  cases h : s.hasMax <;> simp [maxValue, h]

theorem counts_eq_some (h : s.hasCounts) : s.counts = some (s.nullCount, s.numValues) := by
  rw [counts, if_pos h]

theorem counts_eq_none (h : s.hasCounts = false) : s.counts = none := by
  rw [counts, if_neg (by simp [h])]

theorem counts_isSome : s.counts.isSome = s.hasCounts := by
  cases h : s.hasCounts with
  | true => rw [counts_eq_some h]; rfl
  | false => rw [counts_eq_none h]; rfl

theorem anyValid_side : (s.side bound).anyValid = s.anyValid := by
  cases h : s.hasCounts with
  | true =>
    rw [hasCounts] at h
    simp [PartialBound.anyValid, side, counts, hasCounts, anyValid, h]
  | false =>
    rw [hasCounts] at h
    simp [PartialBound.anyValid, side, counts, hasCounts, anyValid, h]

theorem canHold_side : (s.side bound).canHold = s.canHoldValue := by
  cases h : s.hasCounts with
  | true => simp [PartialBound.canHold, side, counts, canHoldValue, h]
  | false => simp [PartialBound.canHold, side, counts, canHoldValue, h]

theorem Sound.side (h : s.Sound) (hb : bound.isSome → s.anyValid)
    (hu : s.boundsUnknown → bound = none) : (s.side bound).Sound where
  countsLe missing total heq := by
    cases hc : s.hasCounts with
    | true =>
      have := h.nullCount_le hc
      simp_all [DuckLakeColumnStats.side, counts]
    | false => simp [DuckLakeColumnStats.side, counts_eq_none hc] at heq
  not_valid hv := by rw [anyValid_side, h.not_isAnyValid hv]
  anyValid_of_bound hs := by rw [anyValid_side, hb hs]
  counts_of_unknown hunknown := counts_eq_none (h.not_hasCounts hunknown)
  bound_of_unknown := hu

theorem Sound.minBound (h : s.Sound) (value : Text → V) : (s.minBound value).Sound :=
  h.side (fun hs => h.anyValid_of_hasMin (minValue_isSome value ▸ hs))
    fun hu => by simp [minValue, h.not_hasMin hu]

theorem Sound.maxBound (h : s.Sound) (value : Text → V) : (s.maxBound value).Sound :=
  h.side (fun hs => h.anyValid_of_hasMax (maxValue_isSome value ▸ hs))
    fun hu => by simp [maxValue, h.not_hasMax hu]

theorem counts_mergeCounts (a b : DuckLakeColumnStats) :
    (a.mergeCounts b).counts = PartialBound.addCounts a.counts b.counts := by
  have hc : (a.mergeCounts b).hasCounts = (a.hasCounts && b.hasCounts) := by
    simp only [hasCounts, mergeCounts]
    cases a.hasNumValues <;> cases a.hasNullCount <;> cases b.hasNumValues <;> rfl
  cases ha : a.hasCounts with
  | false => rw [counts_eq_none (by rw [hc, ha]; rfl), counts_eq_none ha]; rfl
  | true =>
    cases hb : b.hasCounts with
    | false =>
      rw [counts_eq_none (by rw [hc, ha, hb]; rfl), counts_eq_none hb, counts_eq_some ha]
      rfl
    | true =>
      rw [counts_eq_some (by rw [hc, ha, hb]; rfl), counts_eq_some ha, counts_eq_some hb]
      simp only [hasCounts, Bool.and_eq_true] at ha hb
      simp [mergeCounts, ha, hb, PartialBound.addCounts]

theorem addTo_side {bound' : Option V} :
    (a.side bound).addTo (b.side bound') = (a.mergeCounts b).side bound := by
  simp only [PartialBound.addTo, side, counts_mergeCounts]
  rfl

end Side

/-! ## The merge of the bounds -/

section Merge

variable [StatsMerge] {V : Type} [LinearOrder V] {value : Text → V} {a b s : DuckLakeColumnStats}

/-- The engine compares the bounds of a type as values. -/
structure ComparesAs (type : LogicalTypeId) (value : Text → V) : Prop where
  lessThan : ∀ x y, StatsMerge.lessThan type x y ↔ value x < value y
  equals : ∀ x y, StatsMerge.equals type x y ↔ value x = value y

/-- The merge of statistics of one type. -/
theorem mergeStats_of_type_eq (h : a.type = b.type) : a.mergeStats b =
    if !b.anyValid then a.mergeCounts b
    else if !(a.mergeCounts b).anyValid then
      if a.boundsUnknown then a.mergeCounts b
      else
        { a.mergeCounts b with
          min := b.min, hasMin := b.hasMin, minIsExact := b.minIsExact
          max := b.max, hasMax := b.hasMax, maxIsExact := b.maxIsExact
          isAnyValid := true }
    else (((a.mergeCounts b).mergeMin b).mergeMax b).mergeExtraStats b := by
  simp [mergeStats, h]
  rfl

/-! ### What the parts of the merge leave alone -/

omit [LinearOrder V] in
theorem side_mergeMin (bound : Option V) : (a.mergeMin b).side bound = a.side bound := by
  unfold mergeMin
  repeat' (first | rfl | split)

omit [LinearOrder V] in
theorem side_mergeMax (bound : Option V) : (a.mergeMax b).side bound = a.side bound := by
  unfold mergeMax
  repeat' (first | rfl | split)

omit [LinearOrder V] in
theorem side_mergeExtraStats (bound : Option V) :
    (a.mergeExtraStats b).side bound = a.side bound := by
  unfold mergeExtraStats
  split <;> rfl

omit [LinearOrder V] in
theorem minValue_mergeExtraStats : (a.mergeExtraStats b).minValue value = a.minValue value := by
  unfold mergeExtraStats
  split <;> rfl

omit [LinearOrder V] in
theorem maxValue_mergeExtraStats : (a.mergeExtraStats b).maxValue value = a.maxValue value := by
  unfold mergeExtraStats
  split <;> rfl

omit [LinearOrder V] in
theorem minValue_mergeMax : (a.mergeMax b).minValue value = a.minValue value := by
  unfold mergeMax
  repeat' (first | rfl | split)

omit [LinearOrder V] in
theorem maxValue_mergeMin : (a.mergeMin b).maxValue value = a.maxValue value := by
  unfold mergeMin
  repeat' (first | rfl | split)

/-- The type, and what is counted. -/
def tally (s : DuckLakeColumnStats) : LogicalTypeId × (Bool × Nat) × Bool × Bool :=
  (s.type, (s.hasNullCount, s.nullCount), s.hasContainsNan, s.containsNan)

theorem tally_mergeMin : (a.mergeMin b).tally = a.tally := by
  unfold mergeMin
  repeat' (first | rfl | split)

theorem tally_mergeMax : (a.mergeMax b).tally = a.tally := by
  unfold mergeMax
  repeat' (first | rfl | split)

theorem tally_mergeExtraStats : (a.mergeExtraStats b).tally = a.tally := by
  unfold mergeExtraStats
  split <;> rfl

theorem type_mergeMin : (a.mergeMin b).type = a.type := congrArg Prod.fst tally_mergeMin

theorem tally_mergeStats (h : a.type = b.type) : (a.mergeStats b).tally = (a.mergeCounts b).tally := by
  rw [mergeStats_of_type_eq h]
  repeat' split
  · rfl
  · rfl
  · rfl
  · rw [tally_mergeExtraStats, tally_mergeMax, tally_mergeMin]

theorem type_mergeStats (h : a.type = b.type) : (a.mergeStats b).type = b.type :=
  congrArg Prod.fst (tally_mergeStats h)

/-! ### The bounds themselves -/

theorem minValue_mergeMin (hc : ComparesAs a.type value) : (a.mergeMin b).minValue value =
    PartialBound.lower (a.minValue value) (b.minValue value) := by
  cases hb : b.hasMin with
  | false => cases ha : a.hasMin <;> simp [mergeMin, minValue, hb, ha, PartialBound.lower]
  | true =>
    cases ha : a.hasMin with
    | false => simp [mergeMin, minValue, hb, ha, PartialBound.lower]
    | true =>
      by_cases hlt : StatsMerge.lessThan a.type b.min a.min
      · have hle := ((hc.lessThan _ _).1 hlt).le
        simp [mergeMin, minValue, hb, ha, hlt, min_eq_right hle, PartialBound.lower]
      · have hle : value a.min ≤ value b.min := not_lt.1 fun h => hlt ((hc.lessThan _ _).2 h)
        by_cases heq : StatsMerge.equals a.type b.min a.min
        · simp [mergeMin, minValue, hb, ha, hlt, heq, min_eq_left hle, PartialBound.lower]
        · simp [mergeMin, minValue, hb, ha, hlt, heq, min_eq_left hle, PartialBound.lower]

theorem maxValue_mergeMax (hc : ComparesAs a.type value) : (a.mergeMax b).maxValue value =
    PartialBound.lower (a.maxValue value) (b.maxValue value) := by
  cases hb : b.hasMax with
  | false => cases ha : a.hasMax <;> simp [mergeMax, maxValue, hb, ha, PartialBound.lower]
  | true =>
    cases ha : a.hasMax with
    | false => simp [mergeMax, maxValue, hb, ha, PartialBound.lower]
    | true =>
      by_cases hlt : StatsMerge.lessThan a.type a.max b.max
      · have hle := OrderDual.toDual_le_toDual.2 ((hc.lessThan _ _).1 hlt).le
        simp [mergeMax, maxValue, hb, ha, hlt, min_eq_right hle, PartialBound.lower]
      · have hle := OrderDual.toDual_le_toDual.2 (not_lt.1 fun h => hlt ((hc.lessThan _ _).2 h))
        by_cases heq : StatsMerge.equals a.type b.max a.max
        · simp [mergeMax, maxValue, hb, ha, hlt, heq, min_eq_left hle, PartialBound.lower]
        · simp [mergeMax, maxValue, hb, ha, hlt, heq, min_eq_left hle, PartialBound.lower]

theorem minBound_mergeStats (hc : ComparesAs b.type value) (h : a.type = b.type) :
    (a.mergeStats b).minBound value = (a.minBound value).merge (b.minBound value) := by
  have hadd : (a.minBound value).addTo (b.minBound value) =
      (a.mergeCounts b).side (a.minValue value) := addTo_side
  rw [mergeStats_of_type_eq h, PartialBound.merge, hadd, anyValid_side,
    show (b.minBound value).anyValid = b.anyValid from anyValid_side]
  cases b.anyValid with
  | false => rfl
  | true =>
    cases (a.mergeCounts b).anyValid with
    | false =>
      cases hu : a.boundsUnknown with
      | true =>
        simp [minBound, side, hu]
        rfl
      | false =>
        simp [minBound, side, hu]
        exact ⟨rfl, rfl⟩
    | true =>
      simp only [Bool.not_true, Bool.false_eq_true, if_false]
      rw [minBound, side_mergeExtraStats, side_mergeMax, side_mergeMin, minValue_mergeExtraStats,
        minValue_mergeMax, minValue_mergeMin (a := a.mergeCounts b) hc]
      rfl

theorem maxBound_mergeStats (hc : ComparesAs b.type value) (h : a.type = b.type) :
    (a.mergeStats b).maxBound value = (a.maxBound value).merge (b.maxBound value) := by
  have hadd : (a.maxBound value).addTo (b.maxBound value) =
      (a.mergeCounts b).side (a.maxValue value) := addTo_side
  rw [mergeStats_of_type_eq h, PartialBound.merge, hadd, anyValid_side,
    show (b.maxBound value).anyValid = b.anyValid from anyValid_side]
  cases b.anyValid with
  | false => rfl
  | true =>
    cases (a.mergeCounts b).anyValid with
    | false =>
      cases hu : a.boundsUnknown with
      | true =>
        simp [maxBound, side, hu]
        rfl
      | false =>
        simp [maxBound, side, hu]
        exact ⟨rfl, rfl⟩
    | true =>
      simp only [Bool.not_true, Bool.false_eq_true, if_false]
      rw [maxBound, side_mergeExtraStats, side_mergeMax, side_mergeMin, maxValue_mergeExtraStats,
        maxValue_mergeMax (by rw [type_mergeMin]; exact hc), maxValue_mergeMin]
      rfl

/-! ## Any order and any grouping -/

/-- What is counted in all of the files is counted. -/
structure Tallies (files : List DuckLakeColumnStats) (s : DuckLakeColumnStats) : Prop where
  hasNullCount : s.hasNullCount ↔ ∀ f ∈ files, f.hasNullCount
  nullCount : s.hasNullCount → s.nullCount = (files.map (·.nullCount)).sum
  hasContainsNan : s.hasContainsNan ↔ ∀ f ∈ files, f.hasContainsNan
  containsNan : s.hasContainsNan → s.containsNan = files.any (·.containsNan)

omit [StatsMerge] in
theorem Tallies.of_tally {files : List DuckLakeColumnStats} {s s' : DuckLakeColumnStats}
    (h : Tallies files s) (heq : s.tally = s'.tally) : Tallies files s' := by
  simp only [tally, Prod.mk.injEq] at heq
  obtain ⟨-, ⟨hn, hc⟩, hcn, hn'⟩ := heq
  exact ⟨hn ▸ h.hasNullCount, hn ▸ hc ▸ h.nullCount, hcn ▸ h.hasContainsNan,
    hcn ▸ hn' ▸ h.containsNan⟩

omit [StatsMerge] in
theorem Tallies.mergeCounts {l r : List DuckLakeColumnStats} (ha : Tallies l a)
    (hb : Tallies r b) : Tallies (l ++ r) (a.mergeCounts b) where
  hasNullCount := by
    rw [List.forall_mem_append, ← ha.hasNullCount, ← hb.hasNullCount, ← Bool.and_eq_true]
    rfl
  nullCount h := by
    have h' : a.hasNullCount ∧ b.hasNullCount := Bool.and_eq_true_iff.1 h
    simp [DuckLakeColumnStats.mergeCounts, h', ha.nullCount h'.1, hb.nullCount h'.2]
  hasContainsNan := by
    rw [List.forall_mem_append, ← ha.hasContainsNan, ← hb.hasContainsNan, ← Bool.and_eq_true]
    rfl
  containsNan h := by
    have h' : a.hasContainsNan ∧ b.hasContainsNan := Bool.and_eq_true_iff.1 h
    simp [DuckLakeColumnStats.mergeCounts, h', ha.containsNan h'.1, hb.containsNan h'.2]

theorem tallies_of_reduces {type : LogicalTypeId} {files : List DuckLakeColumnStats}
    (h : Reduces mergeStats files s) (hty : ∀ f ∈ files, f.type = type) :
    s.type = type ∧ Tallies files s := by
  induction h with
  | single f => exact ⟨hty f (List.mem_singleton_self f), by simp, by simp, by simp, by simp⟩
  | @merge l r a b _ _ ihl ihr =>
    obtain ⟨hta, ha⟩ := ihl fun f hf => hty f (List.mem_append_left r hf)
    obtain ⟨htb, hb⟩ := ihr fun f hf => hty f (List.mem_append_right l hf)
    have hab := hta.trans htb.symm
    exact ⟨(type_mergeStats hab).trans htb, (ha.mergeCounts hb).of_tally (tally_mergeStats hab).symm⟩
  | perm _ hp ih =>
    obtain ⟨hts, hs⟩ := ih fun f hf => hty f (hp.mem_iff.1 hf)
    refine ⟨hts, ?_, ?_, ?_, ?_⟩
    · rw [hs.hasNullCount]
      exact forall_congr' fun f => imp_congr_left hp.mem_iff
    · rw [← (hp.map _).sum_nat]
      exact hs.nullCount
    · rw [hs.hasContainsNan]
      exact forall_congr' fun f => imp_congr_left hp.mem_iff
    · rw [← hp.any_eq]
      exact hs.containsNan

/-- The flags agree, and what they say is there. -/
structure Agrees (value : Text → V) (s s' : DuckLakeColumnStats) : Prop where
  hasNullCount : s.hasNullCount = s'.hasNullCount
  nullCount : s.hasNullCount → s.nullCount = s'.nullCount
  hasContainsNan : s.hasContainsNan = s'.hasContainsNan
  containsNan : s.hasContainsNan → s.containsNan = s'.containsNan
  hasMin : s.hasMin = s'.hasMin
  min : s.hasMin → value s.min = value s'.min
  hasMax : s.hasMax = s'.hasMax
  max : s.hasMax → value s.max = value s'.max

/-- There are files that can hold a value, and each of them has the bound. -/
def Bounded (has : DuckLakeColumnStats → Bool) (files : List DuckLakeColumnStats) : Prop :=
  (∃ f ∈ files, f.canHoldValue) ∧ ∀ f ∈ files, f.canHoldValue → has f

/-- All orders and groupings of the files have the same statistics, with the bounds of all files. -/
def MergesInAnyOrder (value : Text → V) (files : List DuckLakeColumnStats) : Prop :=
  ∀ s, Reduces mergeStats files s →
    (s.hasMin ↔ Bounded (·.hasMin) files) ∧ (s.hasMax ↔ Bounded (·.hasMax) files) ∧
      ∀ s', Reduces mergeStats files s' → Agrees value s s'

/-- When a bound does not depend on the order. Either no file has it, or no file has invalidated
bounds and one of two things is the case. All files with values have the bound, and a file with
counts and only NULLs neither says that it has values nor occurs beside a file with counts and
values. Or a file with values lacks the bound, and no file with counts and only NULLs awaits one,
or all files have counts, or a file without counts lacks the bound. -/
def BoundKept (has : DuckLakeColumnStats → Bool) (files : List DuckLakeColumnStats) : Prop :=
  (∀ f ∈ files, has f = false) ∨
  (∀ f ∈ files, f.canHoldValue → f.anyValid) ∧
    (((∀ f ∈ files, f.anyValid → has f) ∧
        ∀ z ∈ files, z.hasCounts → z.anyValid = false →
          z.isAnyValid = false ∧ ∀ f ∈ files, f.hasCounts → f.anyValid = false) ∨
      (∃ f ∈ files, f.anyValid ∧ has f = false) ∧
        ((∀ z ∈ files, z.hasCounts → z.anyValid = false → z.isAnyValid) ∨
          (∀ f ∈ files, f.hasCounts) ∨
          ∃ f ∈ files, f.anyValid ∧ has f = false ∧ f.hasCounts = false))

section Sides

variable {W : Type} {side : DuckLakeColumnStats → PartialBound W}
  {has : DuckLakeColumnStats → Bool} {files : List DuckLakeColumnStats} {type : LogicalTypeId}

omit [StatsMerge] in
theorem boundKept_iff_regular
    (hany : ∀ f, (side f).anyValid = f.anyValid) (hcan : ∀ f, (side f).canHold = f.canHoldValue)
    (hcounts : ∀ f, (side f).counts.isSome = f.hasCounts)
    (hvalid : ∀ f, (side f).valid = f.isAnyValid) (hhas : ∀ f, (side f).bound.isSome = has f) :
    BoundKept has files ↔ PartialBound.Regular (files.map side) := by
  have hnone : ∀ f, (side f).bound = none ↔ has f = false := fun f => by
    rw [← hhas, Option.isSome_eq_false_iff, Option.isNone_iff_eq_none]
  have hnone' : ∀ f, (side f).counts = none ↔ f.hasCounts = false := fun f => by
    rw [← hcounts, Option.isSome_eq_false_iff, Option.isNone_iff_eq_none]
  simp only [BoundKept, PartialBound.Regular, PartialBound.SeedsAlike, PartialBound.StaysMissing,
    PartialBound.IsVoid, PartialBound.Lacks, List.mem_map, exists_exists_and_eq_and,
    forall_exists_index, forall_apply_eq_imp_iff₂, hany, hcan, hcounts, hvalid, hhas, hnone, hnone',
    and_imp, and_assoc]

omit [StatsMerge] in
theorem bounded_iff_covered (hcan : ∀ f, (side f).canHold = f.canHoldValue)
    (hhas : ∀ f, (side f).bound.isSome = has f) :
    Bounded has files ↔ PartialBound.Covered (files.map side) := by
  simp only [Bounded, PartialBound.Covered, List.mem_map, exists_exists_and_eq_and,
    forall_exists_index, forall_apply_eq_imp_iff₂, and_imp, hcan, hhas]

/-- The bounds of the merged statistics are the merges of the bounds. -/
theorem orderFree_side_iff [LinearOrder W] (hcan : ∀ f, (side f).canHold = f.canHoldValue)
    (hhas : ∀ f, (side f).bound.isSome = has f)
    (hmerge : ∀ a b, a.type = type → b.type = type →
      side (a.mergeStats b) = (side a).merge (side b))
    (hty : ∀ f ∈ files, f.type = type) :
    PartialBound.OrderFree (files.map side) ↔
      ∀ s, Reduces mergeStats files s → (has s ↔ Bounded has files) ∧
        ∀ s', Reduces mergeStats files s' → (side s).bound = (side s').bound := by
  have hP : ∀ a b : DuckLakeColumnStats, a.type = type → b.type = type →
      (a.mergeStats b).type = type := fun a b ha hb => (type_mergeStats (ha.trans hb.symm)).trans hb
  rw [bounded_iff_covered hcan hhas]
  constructor
  · intro h s hs
    obtain ⟨hb, hall⟩ := h _ (hs.map hP hmerge hty).2
    exact ⟨hhas s ▸ hb, fun s' hs' => hall _ (hs'.map hP hmerge hty).2⟩
  · intro h t ht
    obtain ⟨s, hs, -, rfl⟩ := ht.of_map hP hmerge hty
    obtain ⟨hb, hall⟩ := h s hs
    refine ⟨hhas s ▸ hb, fun t' ht' => ?_⟩
    obtain ⟨s', hs', -, rfl⟩ := ht'.of_map hP hmerge hty
    exact hall s' hs'

end Sides

section Order

variable {files : List DuckLakeColumnStats} {type : LogicalTypeId}

omit [StatsMerge] [LinearOrder V] in
theorem minValue_eq_iff {s s' : DuckLakeColumnStats} : s.minValue value = s'.minValue value ↔
    s.hasMin = s'.hasMin ∧ (s.hasMin → value s.min = value s'.min) := by
  cases h : s.hasMin <;> cases h' : s'.hasMin <;> simp [minValue, h, h']

omit [StatsMerge] [LinearOrder V] in
theorem maxValue_eq_iff {s s' : DuckLakeColumnStats} : s.maxValue value = s'.maxValue value ↔
    s.hasMax = s'.hasMax ∧ (s.hasMax → value s.max = value s'.max) := by
  cases h : s.hasMax <;> cases h' : s'.hasMax <;> simp [maxValue, h, h']

omit [StatsMerge] [LinearOrder V] in
/-- The counts and the NaN flags never depend on the order. -/
theorem agrees_iff {s s' : DuckLakeColumnStats} (hs : Tallies files s) (hs' : Tallies files s') :
    Agrees value s s' ↔ s.minValue value = s'.minValue value ∧
      s.maxValue value = s'.maxValue value := by
  rw [minValue_eq_iff, maxValue_eq_iff]
  constructor
  · intro h
    exact ⟨⟨h.hasMin, h.min⟩, h.hasMax, h.max⟩
  · rintro ⟨⟨hmin, hmin'⟩, hmax, hmax'⟩
    have hnull : s.hasNullCount = s'.hasNullCount :=
      Bool.eq_iff_iff.2 (hs.hasNullCount.trans hs'.hasNullCount.symm)
    have hnan : s.hasContainsNan = s'.hasContainsNan :=
      Bool.eq_iff_iff.2 (hs.hasContainsNan.trans hs'.hasContainsNan.symm)
    exact {
      hasNullCount := hnull
      nullCount := fun h => (hs.nullCount h).trans (hs'.nullCount (hnull ▸ h)).symm
      hasContainsNan := hnan
      containsNan := fun h => (hs.containsNan h).trans (hs'.containsNan (hnan ▸ h)).symm
      hasMin := hmin
      min := hmin'
      hasMax := hmax
      max := hmax' }

theorem boundKept_min_iff (hc : ComparesAs type value) (hty : ∀ f ∈ files, f.type = type)
    (hs : ∀ f ∈ files, f.Sound) : BoundKept (·.hasMin) files ↔
      ∀ s, Reduces mergeStats files s → (s.hasMin ↔ Bounded (·.hasMin) files) ∧
        ∀ s', Reduces mergeStats files s' → s.minValue value = s'.minValue value := by
  have hsound : ∀ x ∈ files.map (minBound value), x.Sound := by
    intro x hx
    obtain ⟨f, hf, rfl⟩ := List.mem_map.1 hx
    exact (hs f hf).minBound value
  have hregular : BoundKept (·.hasMin) files ↔
      PartialBound.Regular (files.map (minBound value)) :=
    boundKept_iff_regular (fun _ => anyValid_side) (fun _ => canHold_side)
      (fun _ => counts_isSome) (fun _ => rfl) (fun _ => minValue_isSome value)
  rw [hregular, ← PartialBound.orderFree_iff hsound]
  exact orderFree_side_iff (fun _ => canHold_side) (fun _ => minValue_isSome value)
    (fun a b ha hb => minBound_mergeStats (hb ▸ hc) (ha.trans hb.symm)) hty

theorem boundKept_max_iff (hc : ComparesAs type value) (hty : ∀ f ∈ files, f.type = type)
    (hs : ∀ f ∈ files, f.Sound) : BoundKept (·.hasMax) files ↔
      ∀ s, Reduces mergeStats files s → (s.hasMax ↔ Bounded (·.hasMax) files) ∧
        ∀ s', Reduces mergeStats files s' → s.maxValue value = s'.maxValue value := by
  have hsound : ∀ x ∈ files.map (maxBound value), x.Sound := by
    intro x hx
    obtain ⟨f, hf, rfl⟩ := List.mem_map.1 hx
    exact (hs f hf).maxBound value
  have hregular : BoundKept (·.hasMax) files ↔
      PartialBound.Regular (files.map (maxBound value)) :=
    boundKept_iff_regular (fun _ => anyValid_side) (fun _ => canHold_side)
      (fun _ => counts_isSome) (fun _ => rfl) (fun _ => maxValue_isSome value)
  rw [hregular, ← PartialBound.orderFree_iff hsound]
  exact orderFree_side_iff (fun _ => canHold_side) (fun _ => maxValue_isSome value)
    (fun a b ha hb => maxBound_mergeStats (hb ▸ hc) (ha.trans hb.symm)) hty

theorem mergesInAnyOrder_iff (value : Text → V) (hc : ComparesAs type value)
    (hty : ∀ f ∈ files, f.type = type) (hs : ∀ f ∈ files, f.Sound) :
    MergesInAnyOrder value files ↔ BoundKept (·.hasMin) files ∧ BoundKept (·.hasMax) files := by
  rw [boundKept_min_iff hc hty hs, boundKept_max_iff hc hty hs]
  have htally : ∀ {s}, Reduces mergeStats files s → Tallies files s :=
    fun h => (tallies_of_reduces h hty).2
  constructor
  · intro h
    refine ⟨fun s hr => ⟨(h s hr).1, fun s' hr' => ?_⟩, fun s hr => ⟨(h s hr).2.1, fun s' hr' => ?_⟩⟩
    · exact ((agrees_iff (htally hr) (htally hr')).1 ((h s hr).2.2 s' hr')).1
    · exact ((agrees_iff (htally hr) (htally hr')).1 ((h s hr).2.2 s' hr')).2
  · rintro ⟨hmin, hmax⟩ s hr
    refine ⟨(hmin s hr).1, (hmax s hr).1, fun s' hr' => ?_⟩
    exact (agrees_iff (htally hr) (htally hr')).2 ⟨(hmin s hr).2 s' hr', (hmax s hr).2 s' hr'⟩

end Order

end Merge

/-! ## Strings -/

section Example

/-- Strings compare as they are stored. -/
@[reducible] def storedStrings : StatsMerge where
  lessThan _ a b := decide (a < b)
  equals _ a b := decide (a = b)
  mergeExtra _ new := new

attribute [local instance] storedStrings

theorem comparesAs_storedStrings (type : LogicalTypeId) : ComparesAs type (id : Text → Text) where
  lessThan _ _ := decide_eq_true_iff
  equals _ _ := decide_eq_true_iff

/-- The statistics that are written for `count` strings of which `nulls` are NULL. -/
def writtenStrings (count nulls : Nat) (bounds : Option (Text × Text)) : DuckLakeColumnStats where
  type := .varchar
  min := (bounds.map (·.1)).getD []
  max := (bounds.map (·.2)).getD []
  hasMin := bounds.isSome
  hasMax := bounds.isSome
  nullCount := nulls
  hasNullCount := true
  numValues := count
  hasNumValues := true

theorem sound_writtenStrings {count nulls : Nat} {bounds : Option (Text × Text)}
    (hle : nulls ≤ count) (hb : bounds.isSome → nulls < count) :
    (writtenStrings count nulls bounds).Sound where
  nullCount_le _ := hle
  not_isAnyValid h := by cases h
  anyValid_of_hasMin h := decide_eq_true (hb h)
  anyValid_of_hasMax h := decide_eq_true (hb h)
  not_hasCounts h := by cases h
  not_hasMin h := by cases h
  not_hasMax h := by cases h

theorem mergesInAnyOrder_iff_twoStrings :
    MergesInAnyOrder id [writtenStrings 1 0 (some (['a'], ['a'])),
      writtenStrings 2 1 (some (['b'], ['b']))] ↔
    BoundKept (·.hasMin) [writtenStrings 1 0 (some (['a'], ['a'])),
      writtenStrings 2 1 (some (['b'], ['b']))] ∧
    BoundKept (·.hasMax) [writtenStrings 1 0 (some (['a'], ['a'])),
      writtenStrings 2 1 (some (['b'], ['b']))] := by
  apply mergesInAnyOrder_iff id (comparesAs_storedStrings .varchar)
  · simp [writtenStrings]
  · simp only [List.mem_cons, List.not_mem_nil, or_false, forall_eq_or_imp, forall_eq]
    exact ⟨sound_writtenStrings (by decide) (fun _ => by decide),
      sound_writtenStrings (by decide) (fun _ => by decide)⟩

/-- A file of NULLs before a file with a string: the bounds of the string are lost. -/
theorem not_mergesInAnyOrder :
    (∀ f ∈ [writtenStrings 1 1 none, writtenStrings 1 0 (some (['a'], ['a']))],
      f.type = .varchar ∧ f.Sound) ∧
    ¬MergesInAnyOrder id [writtenStrings 1 1 none, writtenStrings 1 0 (some (['a'], ['a']))] := by
  constructor
  · simp only [List.mem_cons, List.not_mem_nil, or_false, forall_eq_or_imp, forall_eq]
    exact ⟨⟨rfl, sound_writtenStrings (by decide) (fun h => by cases h)⟩, rfl,
      sound_writtenStrings (by decide) (fun _ => by decide)⟩
  · intro h
    have hmin := (h _ (.merge (.single (writtenStrings 1 1 none))
      (.single (writtenStrings 1 0 (some (['a'], ['a'])))))).1.2 (by
        refine ⟨⟨_, List.mem_cons_of_mem _ List.mem_cons_self, rfl⟩, ?_⟩
        simp [canHoldValue, hasCounts, writtenStrings])
    cases hmin

end Example

end DuckLakeColumnStats

end DuckLake
