import DuckLake.Storage.FileFilters

/-!
# File pruning

The condition on column statistics that a filter is turned into does not prune a file with a row that
the filter holds of, as long as the comparisons that are made on strings agree with those of the
values. For one column this is `Covers`, kept by every way the generator combines conditions;
`keeps_of_agreesAsText` puts the columns and the filter trees together.
-/

namespace DuckLake

/-! ## Conditions of one column -/

section Column

variable {V : Type} [SQLStrings V]

@[simp] theorem ReferencedStats.mem_insert {referenced : ReferencedStats} {s s' : Stat} :
    s' ∈ referenced.insert s ↔ s' ∈ referenced ∨ s' = s := by
  unfold ReferencedStats.insert
  split <;> simp
  rintro rfl
  assumption

variable {type : LogicalTypeId} {cte : FieldIndex} {joined : JoinedStats}
  {stats : FileColumnStats}

theorem eval_castStatsToTarget (hjoined : joined cte = some stats) {stat : Stat} {t : Text} {m : V}
    (ht : stats.text stat = some t) (hm : SQLValues.tryCast type t = some m) :
    (castStatsToTarget cte stat type : Operand V).eval joined =
      some (if type.requiresValueComparison then m else SQLValues.text t) := by
  unfold castStatsToTarget
  split <;> simp [Operand.eval, hjoined, ht, hm]

theorem eval_constantOperand {c : Constant V} {v : V} (hc : c.value = some v) :
    (constantOperand c type).eval joined =
      some (if type.requiresValueComparison then v else SQLValues.text c.string) := by
  unfold constantOperand
  split
  · exact hc
  · rfl

/-- The comparison is made on values, or comes out on the strings as it does on the values. -/
structure ComparesRight [SQLWriter] (type : LogicalTypeId) (stats : FileColumnStats)
    (comparisonType : ComparisonType) (c : Constant V) : Prop where
  reads : c.Reads type
  agrees : comparesAsText type c = true → AgreesAsText type stats comparisonType c

/-- What a condition generated for a filter on one column has to do: it is true for every value of
the file that the filter holds of when the statistics it refers to are known, and unless it refers
to the null count, the filter only holds of values. -/
structure Covers (joined : JoinedStats) (stats : FileColumnStats) (holds : Prop) (x : Option V)
    (referenced : ReferencedStats) (d : Disjunction (SQLCondition V)) : Prop where
  eval : holds → (∀ s ∈ referenced, stats.present s = true) →
    d.eval (SQLCondition.eval joined) = some true
  isSome : holds → Stat.nullCount ∉ referenced → x.isSome = true

theorem compare_flip {comparisonType : ComparisonType} {x y : Option V} :
    compare comparisonType x y = compare comparisonType.flip y x := by
  cases comparisonType <;> cases x <;> cases y <;>
    simp [compare, compareValues, ComparisonType.flip, eq_comm]

/-- The comparisons that can be expressed hold of values only. -/
theorem isSome_of_compare {comparisonType : ComparisonType} {x y : Option V}
    (h : compare comparisonType x y = some true) (hdistinct : comparisonType ≠ .distinctFrom)
    (hnot : comparisonType ≠ .notDistinctFrom) :
    ∃ v w, x = some v ∧ y = some w ∧ compareValues comparisonType v w = true := by
  cases x with
  | none => cases comparisonType <;> simp_all [compare]
  | some v =>
    cases y with
    | none => cases comparisonType <;> simp_all [compare]
    | some w =>
      refine ⟨v, w, rfl, rfl, ?_⟩
      cases comparisonType <;> simp_all [compare]

namespace Covers

variable {P Q : Prop} {x : Option V} {referenced referenced' : ReferencedStats}
  {d e : Disjunction (SQLCondition V)}

theorem imp (h : Covers joined stats P x referenced d) (hQP : Q → P) :
    Covers joined stats Q x referenced d :=
  ⟨fun hQ => h.eval (hQP hQ), fun hQ => h.isSome (hQP hQ)⟩

theorem mono (h : Covers joined stats P x referenced d) (hsubset : referenced ⊆ referenced') :
    Covers joined stats P x referenced' d where
  eval hP hpresent := h.eval hP fun s hs => hpresent s (hsubset hs)
  isSome hP hnull := h.isSome hP fun hs => hnull (hsubset hs)

theorem paren (h : Covers joined stats P x referenced d) :
    Covers joined stats P x referenced d.paren where
  eval hP hpresent := by rw [Disjunction.eval_paren, h.eval hP hpresent]
  isSome := h.isSome

theorem glueOr (hd : Covers joined stats P x referenced d)
    (he : Covers joined stats Q x referenced e) :
    Covers joined stats (P ∨ Q) x referenced (d.glueOr e) where
  eval hPQ hpresent := by
    rw [Disjunction.eval_glueOr]
    exact hPQ.imp (hd.eval · hpresent) (he.eval · hpresent)
  isSome hPQ hnull := hPQ.elim (hd.isSome · hnull) (he.isSome · hnull)

theorem glueAnd (hd : Covers joined stats P x referenced d)
    (he : Covers joined stats Q x referenced e) (hdc : d.IsConjunction) (hec : e.IsConjunction) :
    Covers joined stats (P ∧ Q) x referenced (d.glueAnd e) where
  eval hPQ hpresent := by
    rw [Disjunction.eval_glueAnd hdc hec]
    exact ⟨hd.eval hPQ.1 hpresent, he.eval hPQ.2 hpresent⟩
  isSome hPQ := hd.isSome hPQ.1

end Covers

theorem eval_withNullChecks {referenced : ReferencedStats} {filter : Disjunction (SQLCondition V)} :
    (withNullChecks cte referenced filter).eval (SQLCondition.eval joined) = some true ↔
      (∃ s ∈ referenced, (joined cte).any (·.present s) = false) ∨
        filter.eval (SQLCondition.eval joined) = some true := by
  induction referenced with
  | nil => simp [withNullChecks]
  | cons s referenced ih =>
    have hcons : withNullChecks cte (s :: referenced) filter =
        (Disjunction.ofAtom (.statIsNull cte s)).glueOr (withNullChecks cte referenced filter) :=
      rfl
    rw [hcons, Disjunction.eval_glueOr, ih]
    simp [SQLCondition.eval, or_assoc]

section Constant

variable {values : List (Option V)} (hjoined : joined cte = some stats)
  (hsound : SoundStats type values stats)

include hjoined hsound

theorem exists_minValue {x : V} (hx : some x ∈ values) (hnan : ¬ IsNan type x)
    (hpresent : stats.present .minValue = true) :
    ∃ t m, stats.minValue = some t ∧ SQLValues.tryCast type t = some m ∧ m ≤ x ∧
      (castStatsToTarget cte .minValue type : Operand V).eval joined =
        some (if type.requiresValueComparison then m else SQLValues.text t) := by
  obtain ⟨t, ht⟩ := Option.isSome_iff_exists.1 hpresent
  obtain ⟨m, hm, hle⟩ := hsound.minValue t ht x hx hnan
  exact ⟨t, m, ht, hm, hle, eval_castStatsToTarget hjoined ht hm⟩

theorem exists_maxValue {x : V} (hx : some x ∈ values) (hnan : ¬ IsNan type x)
    (hpresent : stats.present .maxValue = true) :
    ∃ t m, stats.maxValue = some t ∧ SQLValues.tryCast type t = some m ∧ x ≤ m ∧
      (castStatsToTarget cte .maxValue type : Operand V).eval joined =
        some (if type.requiresValueComparison then m else SQLValues.text t) := by
  obtain ⟨t, ht⟩ := Option.isSome_iff_exists.1 hpresent
  obtain ⟨m, hm, hle⟩ := hsound.maxValue t ht x hx hnan
  exact ⟨t, m, ht, hm, hle, eval_castStatsToTarget hjoined ht hm⟩

theorem eval_containsNan {x : V} (hx : some x ∈ values) (hnan : IsNan type x)
    (hpresent : stats.present .containsNan = true) :
    (SQLCondition.statsColumn cte .containsNan : SQLCondition V).eval joined = some true := by
  obtain ⟨b, hb⟩ := Option.isSome_iff_exists.1 hpresent
  have htrue := (hsound.containsNan b hb).2 ⟨x, hx, hnan⟩
  simp [SQLCondition.eval, hjoined, hb, htrue]

variable {x : Option V} (hx : x ∈ values) {referenced : ReferencedStats}

include hx

theorem covers_isNull :
    Covers joined stats (x.isNone = true) x (referenced.insert .nullCount)
      (.ofAtom (.positive cte .nullCount)) where
  eval hnone hpresent := by
    obtain ⟨n, hn⟩ := Option.isSome_iff_exists.1 (hpresent .nullCount (by simp))
    have hpos : 0 < n := by
      rw [hsound.nullCount n hn, List.countP_pos_iff]
      exact ⟨x, hx, hnone⟩
    simp [SQLCondition.eval, hjoined, FileColumnStats.count, hn, hpos]
  isSome _ hnull := absurd (by simp) hnull

theorem covers_isNotNull :
    Covers joined stats (x.isSome = true) x (referenced.insert .valueCount)
      (.ofAtom (.positive cte .valueCount)) where
  eval hsome hpresent := by
    obtain ⟨n, hn⟩ := Option.isSome_iff_exists.1 (hpresent .valueCount (by simp))
    have hpos : 0 < n := by
      rw [hsound.valueCount n hn, List.countP_pos_iff]
      exact ⟨x, hx, hsome⟩
    simp [SQLCondition.eval, hjoined, FileColumnStats.count, hn, hpos]
  isSome hsome _ := hsome

end Constant

variable [SQLWriter] {comparisonType : ComparisonType} {c : Constant V}
  {referenced referenced' : ReferencedStats} {d : Disjunction (SQLCondition V)}

theorem generateConstantFilter_supported
    (h : generateConstantFilter comparisonType c type referenced cte = (some d, referenced')) :
    comparisonType ≠ .distinctFrom ∧ comparisonType ≠ .notDistinctFrom := by
  simp only [generateConstantFilter] at h
  split at h
  · cases h
  · constructor <;> rintro rfl <;> cases h

theorem generateConstantFilterOrNan_eq_some
    (h : generateConstantFilterOrNan comparisonType c type referenced cte = (some d, referenced')) :
    ∃ filter refs, generateConstantFilter comparisonType c type referenced cte =
        (some filter, refs) ∧
      d = filter.glueOr (.ofAtom (.statsColumn cte .containsNan)) ∧
      referenced' = refs.insert .containsNan := by
  unfold generateConstantFilterOrNan at h
  split at h
  · cases h
  · rename_i filter refs heq
    cases h
    exact ⟨filter, refs, heq, rfl, rfl⟩

theorem generateComparison_supported
    (h : generateComparison comparisonType c type referenced cte = (some d, referenced')) :
    comparisonType ≠ .distinctFrom ∧ comparisonType ≠ .notDistinctFrom := by
  unfold generateComparison at h
  split at h
  · cases h
  · split at h
    · constructor <;> rintro rfl <;> cases h
    · exact generateConstantFilter_supported h

variable (comparisonType c) in
theorem subset_generateConstantFilter :
    referenced ⊆ (generateConstantFilter comparisonType c type referenced cte).2 := by
  intro s hs
  simp only [generateConstantFilter]
  split
  · exact hs
  · cases comparisonType <;> simp [hs]

variable (comparisonType c) in
theorem subset_generateConstantFilterOrNan :
    referenced ⊆ (generateConstantFilterOrNan comparisonType c type referenced cte).2 := by
  have h : referenced ⊆ (generateConstantFilter comparisonType c type referenced cte).2 :=
    subset_generateConstantFilter comparisonType c
  unfold generateConstantFilterOrNan
  split
  · rename_i heq
    rwa [heq] at h
  · rename_i heq
    rw [heq] at h
    exact fun s hs => by simp [h hs]

variable (comparisonType c) in
theorem subset_generateComparison :
    referenced ⊆ (generateComparison comparisonType c type referenced cte).2 := by
  unfold generateComparison
  split
  · exact List.Subset.refl _
  · split
    · unfold generateConstantFilterDouble
      cases comparisonType with
      | distinctFrom | notDistinctFrom => exact List.Subset.refl _
      | equal =>
        simp only
        split
        · exact fun s hs => by simp [hs]
        · exact subset_generateConstantFilter _ c
      | lessThan | lessThanOrEqual =>
        simp only
        split
        · exact List.Subset.refl _
        · exact subset_generateConstantFilter _ c
      | notEqual | greaterThan | greaterThanOrEqual =>
        simp only
        split
        · exact List.Subset.refl _
        · exact subset_generateConstantFilterOrNan _ c
    · exact subset_generateConstantFilter _ c

theorem subset_generateInList (cs : List (Constant V)) (result : StatsSQL V)
    (referenced : ReferencedStats) :
    referenced ⊆ (generateInList type cte result cs referenced).2 := by
  induction cs generalizing result referenced with
  | nil => exact List.Subset.refl _
  | cons c cs ih =>
    have h : referenced ⊆ (generateComparison .equal c type referenced cte).2 :=
      subset_generateComparison .equal c
    rw [generateInList]
    split
    · exact List.Subset.refl _
    · split
      · rename_i heq
        rwa [heq] at h
      · rename_i heq
        rw [heq] at h
        exact List.Subset.trans h (ih _ _)

section

variable {values : List (Option V)} (hjoined : joined cte = some stats)
  (hsound : SoundStats type values stats)

include hjoined hsound

/-- The condition on the bounds is true when the comparison holds of a value within the bounds. -/
theorem eval_generateConstantFilter
    (h : generateConstantFilter comparisonType c type referenced cte = (some d, referenced'))
    (hblob : type ≠ .blob) (hright : ComparesRight type stats comparisonType c)
    {x v : V} (hx : some x ∈ values) (hnan : ¬ IsNan type x) (hc : c.value = some v)
    (hholds : compareValues comparisonType x v = true)
    (hpresent : ∀ s ∈ referenced', stats.present s = true) :
    d.eval (SQLCondition.eval joined) = some true := by
  have hmin := exists_minValue hjoined hsound hx hnan
  have hmax := exists_maxValue hjoined hsound hx hnan
  have hconstant : (constantOperand c type).eval joined =
    some (if type.requiresValueComparison then v else SQLValues.text c.string) :=
    eval_constantOperand hc
  simp only [generateConstantFilter] at h
  split at h
  · cases h
  rename_i hexpressible
  have hagrees (hvalue : ¬ type.requiresValueComparison = true) :
      AgreesAsText type stats comparisonType c :=
    hright.agrees (by simp [comparesAsText, hvalue, hblob, hexpressible])
  cases comparisonType with
  | distinctFrom => cases h
  | notDistinctFrom => cases h
  | equal =>
    cases h
    obtain ⟨s, m, hs, hm, hmx, hlow⟩ := hmin (hpresent _ (by simp))
    obtain ⟨t, n, ht, hn, hxn, hhigh⟩ := hmax (hpresent _ (by simp))
    obtain rfl : x = v := by simpa [compareValues] using hholds
    simp only [Disjunction.eval_ofAtom, SQLCondition.eval, hlow, hhigh, hconstant, compare_some,
      compareValues, Truth.and_eq_true, Option.some.injEq, decide_eq_true_eq]
    split
    · exact ⟨hmx, hxn⟩
    · exact hagrees ‹_› x hc s hs t ht m hm n hn hmx hxn
  | notEqual =>
    cases h
    obtain ⟨s, m, hs, hm, hmx, hlow⟩ := hmin (hpresent _ (by simp))
    obtain ⟨t, n, ht, hn, hxn, hhigh⟩ := hmax (hpresent _ (by simp))
    have hne : x ≠ v := by simpa [compareValues] using hholds
    -- bounds that are both the constant leave no other value
    have hbounds : ¬ (m = v ∧ n = v) := by
      rintro ⟨rfl, rfl⟩
      exact hne (le_antisymm hxn hmx)
    simp only [Disjunction.eval_ofAtom, SQLCondition.eval, hlow, hhigh, hconstant, compare_some,
      compareValues, Truth.not_eq_true, Truth.and_eq_false, Option.some.injEq,
      decide_eq_false_iff_not]
    split
    · tauto
    · -- equal strings are read as equal values
      have hstring {t : Text} {w : V} (hw : SQLValues.tryCast type t = some w)
          (heq : (SQLValues.text t : V) = SQLValues.text c.string) : w = v := by
        rw [SQLStrings.text_injective heq, hright.reads v hc] at hw
        exact (Option.some.inj hw).symm
      rw [← not_and_or]
      exact fun heq => hbounds ⟨hstring hm heq.1, hstring hn heq.2⟩
  | lessThan =>
    cases h
    obtain ⟨s, m, hs, hm, hmx, hlow⟩ := hmin (hpresent _ (by simp))
    have hlt : x < v := by simpa [compareValues] using hholds
    simp only [Disjunction.eval_ofAtom, SQLCondition.eval, hlow, hconstant, compare_some,
      compareValues, Option.some.injEq, decide_eq_true_eq]
    split
    · exact hmx.trans_lt hlt
    · exact hagrees ‹_› v hc s hs m hm (hmx.trans_lt hlt)
  | lessThanOrEqual =>
    cases h
    obtain ⟨s, m, hs, hm, hmx, hlow⟩ := hmin (hpresent _ (by simp))
    have hle : x ≤ v := by simpa [compareValues] using hholds
    simp only [Disjunction.eval_ofAtom, SQLCondition.eval, hlow, hconstant, compare_some,
      compareValues, Option.some.injEq, decide_eq_true_eq]
    split
    · exact hmx.trans hle
    · exact hagrees ‹_› v hc s hs m hm (hmx.trans hle)
  | greaterThan =>
    cases h
    obtain ⟨t, n, ht, hn, hxn, hhigh⟩ := hmax (hpresent _ (by simp))
    have hlt : v < x := by simpa [compareValues] using hholds
    simp only [Disjunction.eval_ofAtom, SQLCondition.eval, hhigh, hconstant, compare_some,
      compareValues, Option.some.injEq, decide_eq_true_eq]
    split
    · exact hlt.trans_le hxn
    · exact hagrees ‹_› v hc t ht n hn (hlt.trans_le hxn)
  | greaterThanOrEqual =>
    cases h
    obtain ⟨t, n, ht, hn, hxn, hhigh⟩ := hmax (hpresent _ (by simp))
    have hle : v ≤ x := by simpa [compareValues] using hholds
    simp only [Disjunction.eval_ofAtom, SQLCondition.eval, hhigh, hconstant, compare_some,
      compareValues, Option.some.injEq, decide_eq_true_eq]
    split
    · exact hle.trans hxn
    · exact hagrees ‹_› v hc t ht n hn (hle.trans hxn)

theorem eval_generateConstantFilterOrNan
    (h : generateConstantFilterOrNan comparisonType c type referenced cte = (some d, referenced'))
    (hblob : type ≠ .blob) (hright : ComparesRight type stats comparisonType c)
    {x v : V} (hx : some x ∈ values) (hc : c.value = some v)
    (hholds : compareValues comparisonType x v = true)
    (hpresent : ∀ s ∈ referenced', stats.present s = true) :
    d.eval (SQLCondition.eval joined) = some true := by
  obtain ⟨filter, refs, hfilter, rfl, rfl⟩ := generateConstantFilterOrNan_eq_some h
  rw [Disjunction.eval_glueOr, Disjunction.eval_ofAtom]
  by_cases hnan : IsNan type x
  · exact .inr (eval_containsNan hjoined hsound hx hnan (hpresent _ (by simp)))
  · exact .inl (eval_generateConstantFilter hjoined hsound hfilter hblob hright hx hnan hc hholds
      fun s hs => hpresent s (by simp [hs]))

theorem eval_generateConstantFilterDouble
    (h : generateConstantFilterDouble comparisonType c type referenced cte = (some d, referenced'))
    (htype : type.isFloating = true) (hblob : type ≠ .blob)
    (hright : ComparesRight type stats comparisonType c) {x v : V} (hx : some x ∈ values)
    (hc : c.value = some v) (hholds : compareValues comparisonType x v = true)
    (hpresent : ∀ s ∈ referenced', stats.present s = true) :
    d.eval (SQLCondition.eval joined) = some true := by
  have hnanc : constantIsNan c = SQLValues.isNan v := by simp [constantIsNan, hc]
  -- a value that is at most the constant is a number when the constant is one
  have hnumber (hv : ¬ SQLValues.isNan v = true) (hle : x ≤ v) : ¬ IsNan type x := by
    rintro ⟨-, hnan⟩
    exact hv (le_antisymm hle (SQLValues.le_nan hnan) ▸ hnan)
  have hbounds (hv : ¬ SQLValues.isNan v = true) (hle : x ≤ v)
      (h : generateConstantFilter comparisonType c type referenced cte = (some d, referenced')) :=
    eval_generateConstantFilter hjoined hsound h hblob hright hx (hnumber hv hle) hc hholds hpresent
  cases comparisonType with
  | distinctFrom => cases h
  | notDistinctFrom => cases h
  | equal =>
    simp only [generateConstantFilterDouble, hnanc] at h
    obtain rfl : x = v := by simpa [compareValues] using hholds
    split at h
    · rename_i hnan
      cases h
      rw [Disjunction.eval_ofAtom]
      exact eval_containsNan hjoined hsound hx ⟨htype, hnan⟩ (hpresent _ (by simp))
    · rename_i hnan
      exact hbounds hnan le_rfl h
  | notEqual | greaterThan | greaterThanOrEqual =>
    simp only [generateConstantFilterDouble, hnanc] at h
    split at h
    · cases h
    · exact eval_generateConstantFilterOrNan hjoined hsound h hblob hright hx hc hholds hpresent
  | lessThan =>
    simp only [generateConstantFilterDouble, hnanc] at h
    split at h
    · cases h
    · rename_i hnan
      have hlt : x < v := by simpa [compareValues] using hholds
      exact hbounds hnan hlt.le h
  | lessThanOrEqual =>
    simp only [generateConstantFilterDouble, hnanc] at h
    split at h
    · cases h
    · rename_i hnan
      have hle : x ≤ v := by simpa [compareValues] using hholds
      exact hbounds hnan hle h

/-- The condition generated for a comparison covers the values it holds of. -/
theorem covers_generateComparison
    (h : generateComparison comparisonType c type referenced cte = (some d, referenced'))
    (hright : ComparesRight type stats comparisonType c) {x : Option V} (hx : x ∈ values) :
    Covers joined stats (compare comparisonType x c.value = some true) x referenced' d := by
  obtain ⟨hdistinct, hnot⟩ := generateComparison_supported h
  constructor
  · intro hholds hpresent
    obtain ⟨x, v, rfl, hc, hholds⟩ := isSome_of_compare hholds hdistinct hnot
    unfold generateComparison at h
    split at h
    · cases h
    · rename_i hblob
      split at h
      · exact eval_generateConstantFilterDouble hjoined hsound h ‹_› hblob hright hx hc hholds
          hpresent
      · rename_i hfloating
        exact eval_generateConstantFilter hjoined hsound h hblob hright hx
          (fun hnan => hfloating hnan.1) hc hholds hpresent
  · intro hholds _
    obtain ⟨x, v, rfl, -⟩ := isSome_of_compare hholds hdistinct hnot
    rfl

theorem covers_generateInList {x : Option V} (hx : x ∈ values) (cs : List (Constant V))
    (hright : ∀ c ∈ cs, ComparesRight type stats .equal c) {result : StatsSQL V}
    {referenced : ReferencedStats} {P : Prop} (hP : result = none → ¬ P)
    (hresult : ∀ r, result = some r → Covers joined stats P x referenced r)
    (h : generateInList type cte result cs referenced = (some d, referenced')) :
    Covers joined stats (P ∨ (FilterExpression.inList cs).holds x = some true) x referenced' d := by
  induction cs generalizing result referenced P with
  | nil =>
    cases h
    simpa [FilterExpression.holds] using hresult d rfl
  | cons c cs ih =>
    rw [generateInList] at h
    split at h
    · cases h
    · split at h
      · cases h
      · rename_i filter refs heq
        have hfilter := (covers_generateComparison hjoined hsound heq
          (hright c List.mem_cons_self) hx).paren
        have hsubset : referenced ⊆ (generateComparison .equal c type referenced cte).2 :=
          subset_generateComparison .equal c
        rw [heq] at hsubset
        have := ih (fun c hc => hright c (List.mem_cons_of_mem _ hc))
          (P := P ∨ compare .equal x c.value = some true) (by simp) (fun r hr => ?_) h
        · simpa [FilterExpression.holds, or_assoc] using this
        · cases hr
          cases result with
          | none =>
            exact hfilter.imp (by simp [hP rfl])
          | some r => exact ((hresult r rfl).mono hsubset).glueOr hfilter

end

/-! ## Filters on one column -/

mutual

theorem subset_generateFilterFromExpression (e : FilterExpression V)
    (referenced : ReferencedStats) :
    referenced ⊆ (generateFilterFromExpression type cte e referenced).2 := by
  match e with
  | .comparison t c => exact subset_generateComparison t c
  | .flippedComparison c t => exact subset_generateComparison t.flip c
  | .isNull | .isNotNull => exact fun s hs => by simp [generateFilterFromExpression, hs]
  | .inList cs => exact subset_generateInList cs none referenced
  | .conjunction isOr children => exact subset_generateConjunction isOr none children referenced
  | .optionalFilter child => exact subset_generateFilterFromExpression child referenced
  | .other _ => exact List.Subset.refl _

theorem subset_generateConjunction (isOr : Bool) (result : StatsSQL V)
    (children : List (FilterExpression V)) (referenced : ReferencedStats) :
    referenced ⊆ (generateConjunction type cte isOr result children referenced).2 := by
  match children with
  | [] => exact List.Subset.refl _
  | child :: children =>
    have hchild := subset_generateFilterFromExpression child referenced
    rw [generateConjunction]
    split
    · rename_i refs heq
      rw [heq] at hchild
      split
      · exact hchild
      · exact List.Subset.trans hchild (subset_generateConjunction isOr result children refs)
    · rename_i filter refs heq
      rw [heq] at hchild
      exact List.Subset.trans hchild (subset_generateConjunction isOr _ children refs)

end

section

variable {values : List (Option V)} (hjoined : joined cte = some stats)
  (hsound : SoundStats type values stats) {x : Option V} (hx : x ∈ values)

include hjoined hsound hx

omit hjoined hsound hx in
mutual

/-- The condition generated for a filter covers the values the filter holds of. The text of a
conjunction has no disjunction outside parentheses, so it can be spliced into another one. -/
theorem covers_generateFilterFromExpression (hjoined : joined cte = some stats)
    (hsound : SoundStats type values stats) (hx : x ∈ values) (e : FilterExpression V)
    (hright : ∀ p ∈ e.comparisons, ComparesRight type stats p.1 p.2)
    {referenced referenced' : ReferencedStats} {d : Disjunction (SQLCondition V)}
    (h : generateFilterFromExpression type cte e referenced = (some d, referenced')) :
    Covers joined stats (e.holds x = some true) x referenced' d ∧
      (e.spliced false = true → d.IsConjunction) := by
  match e with
  | .comparison t c =>
    exact ⟨covers_generateComparison hjoined hsound h (hright (t, c) List.mem_cons_self) hx,
      by simp [FilterExpression.spliced]⟩
  | .flippedComparison c t =>
    refine ⟨(covers_generateComparison hjoined hsound h (hright (t.flip, c) List.mem_cons_self)
      hx).imp fun hholds => ?_, by simp [FilterExpression.spliced]⟩
    rwa [FilterExpression.holds, compare_flip] at hholds
  | .isNull =>
    cases h
    exact ⟨(covers_isNull hjoined hsound hx).imp (by simp [FilterExpression.holds]),
      by simp [FilterExpression.spliced]⟩
  | .isNotNull =>
    cases h
    exact ⟨(covers_isNotNull hjoined hsound hx).imp (by simp [FilterExpression.holds]),
      by simp [FilterExpression.spliced]⟩
  | .inList cs =>
    have hall : ∀ c ∈ cs, ComparesRight type stats .equal c := fun c hc =>
      hright (.equal, c) (List.mem_map_of_mem hc)
    have hcovers := covers_generateInList hjoined hsound hx cs hall (P := False) (by simp) (by simp) h
    exact ⟨hcovers.imp .inr, by simp [FilterExpression.spliced]⟩
  | .conjunction true children =>
    have hcovers := covers_generateOr hjoined hsound hx children hright (P := False) (by simp)
      (by simp) h
    exact ⟨hcovers.imp .inr, by simp [FilterExpression.spliced]⟩
  | .conjunction false children =>
    obtain ⟨hcovers, hconj⟩ := covers_generateAnd hjoined hsound hx children hright (P := True)
      (by simp) h
    exact ⟨hcovers.imp fun hholds => ⟨trivial, hholds⟩, fun _ => hconj⟩
  | .optionalFilter child =>
    exact ⟨(covers_generateFilterFromExpression hjoined hsound hx child hright h).1,
      by simp [FilterExpression.spliced]⟩
  | .other f => cases h

theorem covers_generateOr (hjoined : joined cte = some stats)
    (hsound : SoundStats type values stats) (hx : x ∈ values) (children : List (FilterExpression V))
    (hright : ∀ p ∈ FilterExpression.comparisonsOf children, ComparesRight type stats p.1 p.2)
    {result : StatsSQL V}
    {referenced referenced' : ReferencedStats} {d : Disjunction (SQLCondition V)} {P : Prop}
    (hP : result = none → ¬ P)
    (hresult : ∀ r, result = some r → Covers joined stats P x referenced r)
    (h : generateConjunction type cte true result children referenced = (some d, referenced')) :
    Covers joined stats (P ∨ FilterExpression.holdsAny x children = some true) x referenced' d := by
  match children with
  | [] =>
    cases h
    exact (hresult d rfl).imp (by simp [FilterExpression.holdsAny])
  | child :: children =>
    obtain ⟨hfirst, hrest⟩ := List.forall_mem_append.1 hright
    have hsubset : referenced ⊆ (generateFilterFromExpression type cte child referenced).2 :=
      subset_generateFilterFromExpression child referenced
    rw [generateConjunction] at h
    split at h
    · cases h
    · rename_i filter refs heq
      rw [heq] at hsubset
      obtain ⟨hchild, -⟩ := covers_generateFilterFromExpression hjoined hsound hx child hfirst heq
      have hfilter : Covers joined stats (child.holds x = some true) x refs
          (if child.spliced true = true then filter else filter.paren) := by
        split
        · exact hchild
        · exact hchild.paren
      have hglued : Covers joined stats (P ∨ child.holds x = some true) x refs
          (glueConjunct true result
            (if child.spliced true = true then filter else filter.paren)) := by
        cases result with
        | none => exact hfilter.imp (by simp [hP rfl])
        | some r => exact ((hresult r rfl).mono hsubset).glueOr hfilter
      have hnext := covers_generateOr hjoined hsound hx children hrest (by simp)
        (by rintro r ⟨⟩; exact hglued) h
      exact hnext.imp (by simp [FilterExpression.holdsAny, or_assoc])

theorem covers_generateAnd (hjoined : joined cte = some stats)
    (hsound : SoundStats type values stats) (hx : x ∈ values) (children : List (FilterExpression V))
    (hright : ∀ p ∈ FilterExpression.comparisonsOf children, ComparesRight type stats p.1 p.2)
    {result : StatsSQL V}
    {referenced referenced' : ReferencedStats} {d : Disjunction (SQLCondition V)} {P : Prop}
    (hresult : ∀ r, result = some r → Covers joined stats P x referenced r ∧ r.IsConjunction)
    (h : generateConjunction type cte false result children referenced = (some d, referenced')) :
    Covers joined stats (P ∧ FilterExpression.holdsAll x children = some true) x referenced' d ∧
      d.IsConjunction := by
  match children with
  | [] =>
    cases h
    exact ⟨(hresult d rfl).1.imp (by simp [FilterExpression.holdsAll]), (hresult d rfl).2⟩
  | child :: children =>
    obtain ⟨hfirst, hrest⟩ := List.forall_mem_append.1 hright
    have hsubset : referenced ⊆ (generateFilterFromExpression type cte child referenced).2 :=
      subset_generateFilterFromExpression child referenced
    rw [generateConjunction] at h
    split at h
    · rename_i refs heq
      rw [heq] at hsubset
      obtain ⟨hnext, hconj⟩ := covers_generateAnd hjoined hsound hx children hrest (P := P)
        (fun r hr => ⟨(hresult r hr).1.mono hsubset, (hresult r hr).2⟩) h
      refine ⟨hnext.imp ?_, hconj⟩
      simp only [FilterExpression.holdsAll, Truth.and_eq_true]
      exact fun hholds => ⟨hholds.1, hholds.2.2⟩
    · rename_i filter refs heq
      rw [heq] at hsubset
      obtain ⟨hchild, hspliced⟩ :=
        covers_generateFilterFromExpression hjoined hsound hx child hfirst heq
      have hfilter : Covers joined stats (child.holds x = some true) x refs
          (if child.spliced false = true then filter else filter.paren) ∧
          (if child.spliced false = true then filter else filter.paren).IsConjunction := by
        split
        · exact ⟨hchild, hspliced ‹_›⟩
        · exact ⟨hchild.paren, filter.isConjunction_paren⟩
      have hglued : Covers joined stats (P ∧ child.holds x = some true) x refs
          (glueConjunct false result
            (if child.spliced false = true then filter else filter.paren)) ∧
          (glueConjunct false result
            (if child.spliced false = true then filter else filter.paren)).IsConjunction := by
        cases result with
        | none => exact ⟨hfilter.1.imp (·.2), hfilter.2⟩
        | some r =>
          obtain ⟨hr, hrconj⟩ := hresult r rfl
          exact ⟨(hr.mono hsubset).glueAnd hfilter.1 hrconj hfilter.2, hrconj.glueAnd hfilter.2⟩
      obtain ⟨hnext, hconj⟩ := covers_generateAnd hjoined hsound hx children hrest
        (by rintro r ⟨⟩; exact hglued) h
      exact ⟨hnext.imp (by simp [FilterExpression.holdsAll, and_assoc]), hconj⟩

end

end

end Column

/-! ## Files with a matching row -/

section Files

variable {V : Type} [SQLStrings V]

/-- A further conjunct is glued to the conjunction built so far. -/
theorem eval_glueConjunct {joined : JoinedStats} {result : StatsSQL V} {P Q : Prop}
    (hresult : ∀ r, result = some r →
      (P → r.eval (SQLCondition.eval joined) = some true) ∧ r.IsConjunction)
    {d : Disjunction (SQLCondition V)} (hd : Q → d.eval (SQLCondition.eval joined) = some true)
    (hconj : d.IsConjunction) :
    (P ∧ Q → (glueConjunct false result d).eval (SQLCondition.eval joined) = some true) ∧
      (glueConjunct false result d).IsConjunction := by
  cases result with
  | none => exact ⟨fun h => hd h.2, hconj⟩
  | some r =>
    obtain ⟨hr, hrconj⟩ := hresult r rfl
    refine ⟨fun h => ?_, hrconj.glueAnd hconj⟩
    exact (Disjunction.eval_glueAnd hrconj hconj).2 ⟨hr h.1, hd h.2⟩

/-- A conjunction of conditions that all hold of the file. -/
def FilterSQLResult.Holds (joined : JoinedStats) (result : FilterSQLResult V) : Prop :=
  ∀ d, result.whereConditions = some d →
    d.eval (SQLCondition.eval joined) = some true ∧ d.IsConjunction

variable [SQLWriter] {types : FieldIndex → LogicalTypeId}

theorem isConjunction_generateColumnFilterCondition {f : ColumnFilterInfo V}
    {required required' : List (FieldIndex × ReferencedStats)} {d : Disjunction (SQLCondition V)}
    (h : generateColumnFilterCondition types f required = (some d, required')) :
    d.IsConjunction := by
  simp only [generateColumnFilterCondition] at h
  split at h
  · cases h
  · split at h
    · cases h
      exact Disjunction.isConjunction_paren _
    · cases h
      exact Disjunction.isConjunction_paren _

/-- The comparisons of a filter on a column come out right on the statistics of a file. -/
def ComparesRightOn (types : FieldIndex → LogicalTypeId) (joined : JoinedStats)
    (f : ColumnFilterInfo V) : Prop :=
  ∀ stats, joined f.columnFieldIndex = some stats → ∀ p ∈ f.tableFilter.comparisons,
    ComparesRight (types f.columnFieldIndex) stats p.1 p.2

variable {file : StatsFile V} (hsound : file.Sound types) {row : FieldIndex → Option V}
  (hrow : row ∈ file.rows)

include hsound hrow

theorem eval_generateColumnFilterCondition {f : ColumnFilterInfo V}
    (hright : ComparesRightOn types file.stats f)
    (hholds : f.tableFilter.holds (row f.columnFieldIndex) = some true)
    {required required' : List (FieldIndex × ReferencedStats)} {d : Disjunction (SQLCondition V)}
    (h : generateColumnFilterCondition types f required = (some d, required')) :
    d.eval (SQLCondition.eval file.stats) = some true := by
  simp only [generateColumnFilterCondition] at h
  split at h
  · cases h
  · rename_i filter referenced heq
    have hx : row f.columnFieldIndex ∈ file.column f.columnFieldIndex :=
      List.mem_map_of_mem hrow
    cases hstats : file.stats f.columnFieldIndex with
    | none =>
      -- files without statistics for the column are never pruned
      split at h <;> cases h <;> simp [SQLCondition.eval, hstats]
    | some stats =>
      have hsound := hsound _ stats hstats
      have hcovers := (covers_generateFilterFromExpression hstats hsound hx _
        (hright stats hstats) heq).1
      have hchecked : (withNullChecks f.columnFieldIndex referenced filter).eval
          (SQLCondition.eval file.stats) = some true := by
        rw [eval_withNullChecks]
        by_cases hpresent : ∀ s ∈ referenced, stats.present s = true
        · exact .inr (hcovers.eval hholds hpresent)
        · simp only [not_forall, Bool.not_eq_true] at hpresent
          obtain ⟨s, hs, hmissing⟩ := hpresent
          exact .inl ⟨s, hs, by simp [hstats, hmissing]⟩
      split at h
      · rename_i hguard
        cases h
        have hvalue := hcovers.isSome hholds hguard.1
        have hcount : stats.present .valueCount = false ∨
            ∃ n, stats.valueCount = some n ∧ 0 < n := by
          cases hn : stats.valueCount with
          | none => exact .inl (by simp [FileColumnStats.present, hn])
          | some n =>
            refine .inr ⟨n, rfl, ?_⟩
            rw [hsound.valueCount n hn, List.countP_pos_iff]
            exact ⟨_, hx, hvalue⟩
        rw [Disjunction.eval_paren, Disjunction.eval_glueOr, Disjunction.eval_paren,
          Disjunction.eval_glueAnd (Disjunction.isConjunction_paren _)
            (Disjunction.isConjunction_paren _), Disjunction.eval_paren, Disjunction.eval_paren,
          Disjunction.eval_glueOr]
        refine .inr ⟨?_, hchecked⟩
        rcases hcount with hmissing | ⟨n, hn, hpos⟩
        · exact .inl (by simp [SQLCondition.eval, hstats, hmissing])
        · exact .inr (by simp [SQLCondition.eval, hstats, FileColumnStats.count, hn, hpos])
      · cases h
        rw [Disjunction.eval_paren, Disjunction.eval_glueOr, Disjunction.eval_paren]
        exact .inr hchecked

omit hsound hrow in
mutual

/-- The condition generated for a filter tree is true of a file with a row that the tree holds of.
Spliced into a parent of another kind it is in parentheses. -/
theorem eval_generateFilterTreeCondition (hsound : file.Sound types) (hrow : row ∈ file.rows)
    (node : DuckLakeFilterNode V)
    (hright : ∀ f ∈ node.columnFilters, ComparesRightOn types file.stats f) {splice : Bool}
    {required required' : List (FieldIndex × ReferencedStats)} {d : Disjunction (SQLCondition V)}
    (h : generateFilterTreeCondition types node splice required = (some d, required')) :
    (node.holds row = some true → d.eval (SQLCondition.eval file.stats) = some true) ∧
      ((splice = true → node.isConjunction false = true) → d.IsConjunction) := by
  match node with
  | .matchNone =>
    cases h
    simp [DuckLakeFilterNode.holds, Disjunction.isConjunction_ofAtom]
  | .columnFilter f =>
    have hf := hright f List.mem_cons_self
    exact ⟨fun hholds => eval_generateColumnFilterCondition hsound hrow hf hholds h,
      fun _ => isConjunction_generateColumnFilterCondition h⟩
  | .conjunction true children =>
    rw [generateFilterTreeCondition] at h
    split at h
    · cases h
    · rename_i condition required'' heq
      cases h
      have hcondition := eval_generateTreeOr hsound hrow children hright (P := False) (by simp)
        (by simp) heq
      constructor
      · intro hholds
        have := hcondition (.inr hholds)
        split <;> simpa using this
      · intro hsplice
        rw [if_neg fun h => absurd (hsplice h) (by simp [DuckLakeFilterNode.isConjunction])]
        exact Disjunction.isConjunction_paren _
  | .conjunction false children =>
    rw [generateFilterTreeCondition] at h
    split at h
    · cases h
    · rename_i condition required'' heq
      cases h
      obtain ⟨hcondition, hconj⟩ := eval_generateTreeAnd hsound hrow children hright (P := True)
        (by simp) heq
      constructor
      · intro hholds
        have := hcondition ⟨trivial, hholds⟩
        split <;> simpa using this
      · intro _
        split
        · exact hconj
        · exact Disjunction.isConjunction_paren _

theorem eval_generateTreeOr (hsound : file.Sound types) (hrow : row ∈ file.rows)
    (children : List (DuckLakeFilterNode V))
    (hright : ∀ f ∈ DuckLakeFilterNode.columnFiltersOf children,
      ComparesRightOn types file.stats f) {result : StatsSQL V}
    {required required' : List (FieldIndex × ReferencedStats)} {d : Disjunction (SQLCondition V)}
    {P : Prop} (hP : result = none → ¬ P)
    (hresult : ∀ r, result = some r → P → r.eval (SQLCondition.eval file.stats) = some true)
    (h : generateTreeConjunction types true result children required = (some d, required')) :
    P ∨ DuckLakeFilterNode.holdsAny row children = some true →
      d.eval (SQLCondition.eval file.stats) = some true := by
  match children with
  | [] =>
    cases h
    simpa [DuckLakeFilterNode.holdsAny] using hresult d rfl
  | child :: children =>
    obtain ⟨hfirst, hrest⟩ := List.forall_mem_append.1 hright
    rw [generateTreeConjunction] at h
    split at h
    · cases h
    · rename_i filter required'' heq
      have hchild := (eval_generateFilterTreeCondition hsound hrow child hfirst heq).1
      have hglued : P ∨ child.holds row = some true →
          (glueConjunct true result filter).eval (SQLCondition.eval file.stats) = some true := by
        cases result with
        | none => exact fun hholds => hchild (hholds.resolve_left (hP rfl))
        | some r =>
          intro hholds
          simp only [glueConjunct, if_true, Disjunction.eval_glueOr]
          exact hholds.imp (hresult r rfl) hchild
      have hnext := eval_generateTreeOr hsound hrow children hrest (by simp)
        (by rintro r ⟨⟩; exact hglued) h
      simpa [DuckLakeFilterNode.holdsAny, or_assoc] using hnext

theorem eval_generateTreeAnd (hsound : file.Sound types) (hrow : row ∈ file.rows)
    (children : List (DuckLakeFilterNode V))
    (hright : ∀ f ∈ DuckLakeFilterNode.columnFiltersOf children,
      ComparesRightOn types file.stats f) {result : StatsSQL V}
    {required required' : List (FieldIndex × ReferencedStats)} {d : Disjunction (SQLCondition V)}
    {P : Prop} (hresult : ∀ r, result = some r →
      (P → r.eval (SQLCondition.eval file.stats) = some true) ∧ r.IsConjunction)
    (h : generateTreeConjunction types false result children required = (some d, required')) :
    (P ∧ DuckLakeFilterNode.holdsAll row children = some true →
      d.eval (SQLCondition.eval file.stats) = some true) ∧ d.IsConjunction := by
  match children with
  | [] =>
    cases h
    simpa [DuckLakeFilterNode.holdsAll] using hresult d rfl
  | child :: children =>
    obtain ⟨hfirst, hrest⟩ := List.forall_mem_append.1 hright
    rw [generateTreeConjunction] at h
    split at h
    · obtain ⟨hnext, hconj⟩ := eval_generateTreeAnd hsound hrow children hrest hresult h
      refine ⟨?_, hconj⟩
      simp only [DuckLakeFilterNode.holdsAll, Truth.and_eq_true]
      exact fun hholds => hnext ⟨hholds.1, hholds.2.2⟩
    · rename_i filter required'' heq
      obtain ⟨hchild, hsplice⟩ := eval_generateFilterTreeCondition hsound hrow child hfirst heq
      have hglued := eval_glueConjunct hresult hchild (hsplice id)
      obtain ⟨hnext, hconj⟩ := eval_generateTreeAnd hsound hrow children hrest
        (by rintro r ⟨⟩; exact hglued) h
      refine ⟨?_, hconj⟩
      simpa [DuckLakeFilterNode.holdsAll, and_assoc] using hnext

end

end Files

end DuckLake
