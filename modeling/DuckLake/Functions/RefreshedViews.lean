import Mathlib.Data.Multiset.Bind
import DuckLake.Functions.RefreshPlan

/-!
# Refreshed views are the views of the changed tables

The refresh of a view that is maintained from changes gives the view of the changed table exactly
when the statements find the columns that they mean, and every expression outside of an aggregate
is a group key.
-/

namespace DuckLake

variable {V Row : Type} [ExactValue V] {I : Interpretation V Row} {input : RefreshInput}
variable {node : SelectNode}

/-! ## The rows of the view -/

/-- The rows of a table that a view reads. -/
abbrev Interpretation.rowsOf (I : Interpretation V Row) (rows : Multiset Row) : Multiset Row :=
  rows.filter fun row => I.holds row

/-- The rows of the group of a key. -/
abbrev groupRows (I : Interpretation V Row) (input : RefreshInput) (k : List (Option V))
    (rows : Multiset Row) : Multiset Row :=
  GroupedView.groupOf (I.keysOfRow input.analysis.keyExprSql) k (I.rowsOf rows)

/-- The keys that the view has. -/
abbrev viewKeys (I : Interpretation V Row) (input : RefreshInput) (rows : Multiset Row) :
    Finset (List (Option V)) :=
  GroupedView.keysOf (I.keysOfRow input.analysis.keyExprSql) (I.rowsOf rows)

/-- The row of a key. -/
abbrev viewRow (I : Interpretation V Row) (input : RefreshInput) (rows : Multiset Row)
    (k : List (Option V)) : ViewRow V :=
  I.outputRow input.selectList k (groupRows I input k rows)

/-- The stored rows of the view of a table. -/
abbrev viewOf (I : Interpretation V Row) (input : RefreshInput) (rows : Multiset Row) :
    Multiset (ViewRow V) :=
  I.select input.selectList input.analysis.keyExprSql rows

variable {rows : Multiset Row} {k : List (Option V)}

theorem isGroup_groupRows (hk : k ∈ viewKeys I input rows) :
    IsGroup I input k (groupRows I input k rows) where
  nonempty := fun hzero => GroupedView.groupOf_eq_zero.1 hzero hk
  holds _ hrow := (Multiset.mem_filter.1 (GroupedView.mem_groupOf.1 hrow).1).2
  key _ hrow := (GroupedView.mem_groupOf.1 hrow).2

/-- The view of one group. -/
theorem viewOf_group {group : Multiset Row} (h : IsGroup I input k group) :
    viewOf I input group = {I.outputRow input.selectList k group} := by
  have hrows : (group.filter fun row => I.holds row) = group := Multiset.filter_eq_self.2 h.holds
  have hkeys : GroupedView.keysOf (I.keysOfRow input.analysis.keyExprSql) group = {k} := by
    ext k'
    rw [GroupedView.mem_keysOf, Finset.mem_singleton]
    constructor
    · rintro ⟨row, hrow, rfl⟩
      exact h.key row hrow
    · rintro rfl
      obtain ⟨row, hrow⟩ := Multiset.exists_mem_of_ne_zero h.nonempty
      exact ⟨row, hrow, h.key row hrow⟩
  have hgroup : GroupedView.groupOf (I.keysOfRow input.analysis.keyExprSql) k group = group :=
    Multiset.filter_eq_self.2 h.key
  rw [viewOf, Interpretation.select, hrows, GroupedView.rows, hkeys, Finset.singleton_val,
    Multiset.map_singleton, hgroup]

/-- The value of a column that is an aggregate. -/
theorem getD_viewRow_aggregate (h : input.Of node) (hone : input.severalArguments = false)
    {agg : NumberedAggregate} (hagg : agg ∈ input.aggregates) :
    (viewRow I input rows k).getD agg.1.selectIndex none =
      Sql.aggregate agg.1.kind ((groupRows I input k rows).map (I.eval agg.1.childSql)) := by
  obtain ⟨item, hitem, hinfo⟩ := h.item_of_mem_aggregates hagg
  rw [getD_outputRow hitem, itemValue_of_aggregate hone hitem hinfo]

/-! ## The rows that are kept -/

section Kept

variable (h : input.Of node) (hbinds : Binds I input)
variable (hfinds : ∀ p ∈ input.analysis.keyPositions, FindsColumn I input p)

include h hbinds hfinds

/-- A row of the view has its own key only. -/
theorem keyMatches_viewRow {k' : List (Option V)} (hk : k ∈ viewKeys I input rows) :
    input.keyMatches k' (viewRow I input rows k) = true ↔ k' = k := by
  rw [RefreshInput.keyMatches, beq_iff_eq,
    map_keyPositions h hbinds hfinds (isGroup_groupRows hk)]

theorem keptRows_viewOf (changed : Finset (List (Option V))) :
    keptRows input (viewOf I input rows) changed =
      ((viewKeys I input rows).filter (· ∉ changed)).val.map (viewRow I input rows) := by
  rw [keptRows, viewOf, Interpretation.select, GroupedView.rows, Multiset.filter_map,
    Finset.filter_val]
  congr 1
  refine Multiset.filter_congr fun k hk => ?_
  rw [Function.comp_apply]
  constructor
  · intro hnot hmem
    have hmatch : input.keyMatches k (viewRow I input rows k) = true :=
      (keyMatches_viewRow h hbinds hfinds hk).2 rfl
    exact Bool.false_ne_true ((hnot k hmem).symm.trans hmatch)
  · intro hnot k' hk'
    refine Bool.eq_false_iff.2 fun hmatch => hnot ?_
    have hkey : k' = k := (keyMatches_viewRow h hbinds hfinds hk).1 hmatch
    exact hkey ▸ hk'

/-- A key is joined with its row, if there is one. -/
theorem leftJoin_viewOf :
    input.leftJoin (viewOf I input rows) k =
      {if k ∈ viewKeys I input rows then some (viewRow I input rows k) else none} := by
  have hmatched : (viewOf I input rows).filter (fun row => input.keyMatches k row) =
      ((viewKeys I input rows).filter (k = ·)).val.map (viewRow I input rows) := by
    rw [viewOf, Interpretation.select, GroupedView.rows, Multiset.filter_map, Finset.filter_val]
    congr 1
    exact Multiset.filter_congr fun k' hk' => keyMatches_viewRow h hbinds hfinds hk'
  rw [RefreshInput.leftJoin, hmatched, Finset.filter_eq]
  split
  next => exact if_neg (Multiset.singleton_ne_zero _)
  next => exact if_pos rfl

end Kept

/-! ## The changes of a group -/

variable {before inserted deleted after : Multiset Row}

theorem cdc_keys : ((cdc I input inserted deleted).map (·.key)).toFinset =
    changedKeys I input (I.rowsOf inserted) (I.rowsOf deleted) := by
  rw [cdc, Multiset.map_add, Multiset.map_map, Multiset.map_map, Multiset.toFinset_add]
  rfl

theorem groupOfCdc_cdc : groupOfCdc k (cdc I input inserted deleted) =
    groupChanges I input (groupRows I input k inserted) (groupRows I input k deleted) := by
  rw [groupOfCdc, cdc, Multiset.filter_add, Multiset.filter_map, Multiset.filter_map]
  rfl

theorem groupChanges_ne_zero
    (hk : k ∈ changedKeys I input (I.rowsOf inserted) (I.rowsOf deleted)) :
    groupChanges I input (groupRows I input k inserted) (groupRows I input k deleted) ≠ 0 := by
  intro hzero
  have hcard := congrArg Multiset.card hzero
  rw [groupChanges, Multiset.card_add, Multiset.card_zero] at hcard
  have hinserted := Multiset.card_eq_zero.1 (Nat.eq_zero_of_add_eq_zero_right hcard)
  have hdeleted := Multiset.card_eq_zero.1 (Nat.eq_zero_of_add_eq_zero_left hcard)
  rcases Finset.mem_union.1 hk with hmem | hmem
  · exact GroupedView.groupOf_eq_zero.1 (Multiset.map_eq_zero.1 hinserted) hmem
  · exact GroupedView.groupOf_eq_zero.1 (Multiset.map_eq_zero.1 hdeleted) hmem

theorem groupRows_changed (h : before + inserted = deleted + after) :
    groupRows I input k before + groupRows I input k inserted =
      groupRows I input k deleted + groupRows I input k after := by
  rw [← GroupedView.groupOf_add, ← GroupedView.groupOf_add, ← Multiset.filter_add,
    ← Multiset.filter_add, h]

theorem values_changed (I : Interpretation V Row) (input : RefreshInput) (k : List (Option V))
    (h : before + inserted = deleted + after)
    (f : Row → Option V) :
    (groupRows I input k before).map f + (groupRows I input k inserted).map f =
      (groupRows I input k deleted).map f + (groupRows I input k after).map f := by
  rw [← Multiset.map_add, ← Multiset.map_add, groupRows_changed h]

/-! ## The updated rows -/

/-- The row that a key is joined with. -/
def joinedRow (I : Interpretation V Row) (input : RefreshInput) (k : List (Option V))
    (rows : Multiset Row) : Option (ViewRow V) :=
  if k ∈ viewKeys I input rows then some (viewRow I input rows k) else none

section Updated

variable (h : input.Of node) (hbinds : Binds I input)
variable (hfinds : ∀ col < input.boundNames.length, FindsColumn I input col)

include h hfinds

theorem storedJoined_joinedRow {col : Nat} {item : ParsedExpression}
    (hitem : input.selectList[col]? = some item) :
    input.storedJoined (joinedRow I input k rows) col =
      if k ∈ viewKeys I input rows then I.itemValue k (groupRows I input k rows) item
      else none := by
  have hlt : col < input.boundNames.length := by
    rw [h.names, ← h.selectList]
    exact (List.getElem?_eq_some_iff.1 hitem).1
  rw [joinedRow]
  split
  next hk => exact (hfinds col hlt k _ (isGroup_groupRows hk)).trans (getD_outputRow hitem)
  next => rfl

variable (hone : input.severalArguments = false)

include hone

theorem storedJoined_aggregate {agg : NumberedAggregate} (hagg : agg ∈ input.aggregates) :
    input.storedJoined (joinedRow I input k rows) agg.1.selectIndex =
      oldValue I agg.1 (groupRows I input k rows) := by
  obtain ⟨item, hitem, hinfo⟩ := h.item_of_mem_aggregates hagg
  rw [storedJoined_joinedRow h hfinds hitem, itemValue_of_aggregate hone hitem hinfo, oldValue]
  by_cases hk : k ∈ viewKeys I input rows
  · rw [if_pos hk, if_neg]
    exact fun hzero => GroupedView.groupOf_eq_zero.1 (Multiset.card_eq_zero.1 hzero) hk
  · rw [if_neg hk, if_pos]
    exact Multiset.card_eq_zero.2 (GroupedView.groupOf_eq_zero.2 hk)

variable (hmaintained : before + inserted = deleted + after)
variable (hchanged : k ∈ changedKeys I input (I.rowsOf inserted) (I.rowsOf deleted))

include hmaintained hchanged

/-- The number that an aggregate has in the changed group. -/
theorem candidate_eq {agg : NumberedAggregate} (hagg : agg ∈ input.aggregates)
    (hkind : Sql.isNumeric agg.1.kind) :
    Sql.addDelta (input.storedJoined (joinedRow I input k before) agg.1.selectIndex)
        (delta agg (groupChanges I input (groupRows I input k inserted)
          (groupRows I input k deleted))) =
      Sql.ofNumber (((groupRows I input k after).map (I.eval agg.1.childSql)).map
        (Sql.contribution agg.1.kind)).sum := by
  rw [storedJoined_aggregate h hfinds hone hagg, addDelta_numeric hagg hkind
    (groupChanges_ne_zero hchanged) (groupRows_changed hmaintained), Multiset.map_map]
  rfl

/-- The number of values of the argument in the changed group. -/
theorem candidate_count {child : Text} {count : NumberedAggregate}
    (hcount : count ∈ input.aggregates) (hstate : stateOf .countCol child count = true) :
    Sql.addDelta (input.storedJoined (joinedRow I input k before) count.1.selectIndex)
        (delta count (groupChanges I input (groupRows I input k inserted)
          (groupRows I input k deleted))) =
      Sql.ofNumber (((groupRows I input k after).map (I.eval child)).map Sql.indicator).sum := by
  obtain ⟨hkind, rfl⟩ : count.1.kind = .countCol ∧ count.1.childSql = child := by
    simpa [stateOf] using hstate
  rw [candidate_eq h hfinds hone hmaintained hchanged hcount (.inr (.inr hkind)), hkind]
  rfl

/-- The sum of the argument in the changed group. -/
theorem candidate_sum {child : Text} {sum : NumberedAggregate}
    (hsum : sum ∈ input.aggregates) (hstate : stateOf .sum child sum = true) :
    Sql.addDelta (input.storedJoined (joinedRow I input k before) sum.1.selectIndex)
        (delta sum (groupChanges I input (groupRows I input k inserted)
          (groupRows I input k deleted))) =
      Sql.ofNumber (((groupRows I input k after).map (I.eval child)).map Sql.number).sum := by
  obtain ⟨hkind, rfl⟩ : sum.1.kind = .sum ∧ sum.1.childSql = child := by
    simpa [stateOf] using hstate
  rw [candidate_eq h hfinds hone hmaintained hchanged hsum (.inl hkind), hkind]
  rfl

/-- No deleted row of the group can have had an extremum that the group keeps. -/
def ExtremaSafe (I : Interpretation V Row) (input : RefreshInput) (k : List (Option V))
    (before inserted deleted : Multiset Row) : Prop :=
  ∀ row ∈ groupRows I input k deleted, ∀ agg ∈ input.aggregates,
    extremumDeleted input (groupChanges I input (groupRows I input k inserted)
      (groupRows I input k deleted)) (joinedRow I input k before) (deletedRow I input row) agg = false

omit hchanged in
theorem min_eq {agg : NumberedAggregate} (hagg : agg ∈ input.aggregates)
    (hkind : agg.1.kind = .min) (hsafe : ExtremaSafe I input k before inserted deleted) :
    Sql.least (input.storedJoined (joinedRow I input k before) agg.1.selectIndex)
        (delta agg (groupChanges I input (groupRows I input k inserted)
          (groupRows I input k deleted))) =
      Sql.min ((groupRows I input k after).map (I.eval agg.1.childSql)) := by
  have hold : input.storedJoined (joinedRow I input k before) agg.1.selectIndex =
      Sql.min ((groupRows I input k before).map (I.eval agg.1.childSql)) :=
    (storedJoined_aggregate h hfinds hone hagg).trans (oldValue_min hkind)
  have hgroup := values_changed I input k hmaintained (I.eval agg.1.childSql)
  rw [hold, delta_min hagg hkind]
  refine (Sql.min_changed hgroup fun d hd => ?_).symm
  obtain ⟨row, hrow, rfl⟩ := Multiset.mem_map.1 hd
  have hrowSafe := hsafe row hrow agg hagg
  simp only [extremumDeleted, hkind, hold, delta_min hagg hkind, Bool.or_eq_false_iff] at hrowSafe
  have hmeasure : measure agg.2 (deletedRow I input row) = I.eval agg.1.childSql row := by
    rw [measure_deletedRow hagg, deletedMeasure, hkind]
  rw [← hmeasure]
  exact hrowSafe.2

omit hchanged in
theorem max_eq {agg : NumberedAggregate} (hagg : agg ∈ input.aggregates)
    (hkind : agg.1.kind = .max) (hsafe : ExtremaSafe I input k before inserted deleted) :
    Sql.greatest (input.storedJoined (joinedRow I input k before) agg.1.selectIndex)
        (delta agg (groupChanges I input (groupRows I input k inserted)
          (groupRows I input k deleted))) =
      Sql.max ((groupRows I input k after).map (I.eval agg.1.childSql)) := by
  have hold : input.storedJoined (joinedRow I input k before) agg.1.selectIndex =
      Sql.max ((groupRows I input k before).map (I.eval agg.1.childSql)) :=
    (storedJoined_aggregate h hfinds hone hagg).trans (oldValue_max hkind)
  have hgroup := values_changed I input k hmaintained (I.eval agg.1.childSql)
  rw [hold, delta_max hagg hkind]
  refine (Sql.max_changed hgroup fun d hd => ?_).symm
  obtain ⟨row, hrow, rfl⟩ := Multiset.mem_map.1 hd
  have hrowSafe := hsafe row hrow agg hagg
  simp only [extremumDeleted, hkind, hold, delta_max hagg hkind, Bool.or_eq_false_iff] at hrowSafe
  have hmeasure : measure agg.2 (deletedRow I input row) = I.eval agg.1.childSql row := by
    rw [measure_deletedRow hagg, deletedMeasure, hkind]
  rw [← hmeasure]
  exact hrowSafe.2

include hbinds

/-- A changed column has the value of the changed group. -/
theorem updatedValue_eq (hsafe : ExtremaSafe I input k before inserted deleted)
    (hleft : k ∈ viewKeys I input after) {column : Nat × UpdatedColumn}
    (hplanned : Planned input column) :
    updatedValue input k (groupChanges I input (groupRows I input k inserted)
        (groupRows I input k deleted)) (joinedRow I input k before) column =
      (viewRow I input after k).getD column.1 none := by
  cases hplanned with
  | @key col i hkey =>
    have hlt := h.lt_of_mem_keyPositions (List.mem_of_getElem? hkey)
    have hitem := List.getElem?_eq_getElem hlt
    rw [getD_outputRow hitem, itemValue_key h hbinds hkey hitem (isGroup_groupRows hleft)]
    simp only [updatedValue, storedJoined_joinedRow h hfinds hitem]
    by_cases hk : k ∈ viewKeys I input before
    · rw [if_pos hk, itemValue_key h hbinds hkey hitem (isGroup_groupRows hk)]
      cases k.getD i none <;> rfl
    · rw [if_neg hk]
      rfl
  | @count agg hagg hkind =>
    have hcandidate := candidate_eq h hfinds hone hmaintained hchanged hagg (.inr (.inr hkind))
    rw [getD_viewRow_aggregate h hone hagg]
    simp only [updatedValue]
    rw [hcandidate, hkind, Sql.aggregate, Sql.card_nonNull]
    rfl
  | @countStar agg hagg hkind =>
    have hcandidate := candidate_eq h hfinds hone hmaintained hchanged hagg (.inr (.inl hkind))
    rw [getD_viewRow_aggregate h hone hagg]
    simp only [updatedValue]
    rw [hcandidate, ← Sql.number_aggregate (.inr (.inl hkind)), hkind, Sql.aggregate,
      Sql.number_ofNumber]
  | @sum agg count hagg hkind hcount hstate =>
    have hcandidate := candidate_eq h hfinds hone hmaintained hchanged hagg (.inl hkind)
    rw [getD_viewRow_aggregate h hone hagg]
    simp only [updatedValue]
    rw [candidate_count h hfinds hone hmaintained hchanged hcount hstate, hcandidate, hkind,
      Sql.aggregate, Sql.sum_eq, Sql.positive_ofNumber]
    simp only [decide_eq_true_eq]
    rfl
  | @avg agg sum count hagg hkind hsum hsumState hcount hcountState =>
    rw [getD_viewRow_aggregate h hone hagg]
    simp only [updatedValue]
    rw [candidate_count h hfinds hone hmaintained hchanged hcount hcountState,
      candidate_sum h hfinds hone hmaintained hchanged hsum hsumState, hkind, Sql.aggregate, Sql.avg_eq,
      Sql.positive_ofNumber, Sql.divide_ofNumber]
    simp only [decide_eq_true_eq]
  | @min agg hagg hkind =>
    rw [getD_viewRow_aggregate h hone hagg]
    simp only [updatedValue]
    rw [Sql.least_by_cases, min_eq h hfinds hone hmaintained hagg hkind hsafe, hkind, Sql.aggregate]
  | @max agg hagg hkind =>
    rw [getD_viewRow_aggregate h hone hagg]
    simp only [updatedValue]
    rw [Sql.greatest_by_cases, max_eq h hfinds hone hmaintained hagg hkind hsafe, hkind, Sql.aggregate]

end Updated

/-! ## The groups that are left -/

omit [ExactValue V] in
theorem map_getD_range (row : ViewRow V) :
    (List.range row.length).map (fun col => row.getD col none) = row := by
  refine List.ext_getElem (by rw [List.length_map, List.length_range]) fun i hi hi' => ?_
  rw [List.getElem_map, List.getElem_range, List.getD_eq_getElem?_getD,
    List.getElem?_eq_getElem hi', Option.getD_some]

theorem length_viewRow : (viewRow I input rows k).length = input.selectList.length :=
  List.length_map _

/-- The columns that a row is read at make the row. -/
theorem map_columns (h : input.Of node) :
    input.columns.map (fun col => (viewRow I input rows k).getD col none) =
      viewRow I input rows k := by
  have hlength : input.boundNames.length = (viewRow I input rows k).length := by
    rw [length_viewRow, h.names, h.selectList]
  rw [RefreshInput.columns, hlength, map_getD_range]

/-- A view that is maintained from changes counts its rows. -/
theorem exists_countStar (h : input.Of node) (heligible : input.analysis.deltaEligible = true ∨
    input.analysis.conditionalDeltaEligible = true) :
    ∃ agg ∈ input.aggregates, agg.1.kind = .countStar := by
  obtain ⟨positions, -, hanalysis, -⟩ := analyze_eq_ok h.analysis
  have hcount : input.analysis.aggregates.any (fun a => a.kind = .countStar) = true := by
    rw [hanalysis] at heligible ⊢
    simp only [buildAnalysis, Bool.and_eq_true] at heligible ⊢
    exact heligible.elim (·.1.2) (·.1.2)
  obtain ⟨info, hinfo, hkind⟩ := List.any_eq_true.1 hcount
  obtain ⟨i, hi, rfl⟩ := List.getElem_of_mem hinfo
  exact ⟨(_, i), List.mem_zipIdx_iff_getElem?.2 (List.getElem?_eq_getElem hi),
    of_decide_eq_true hkind⟩

/-- Minima and maxima are only maintained together with a check of the deleted values. -/
theorem conditional_of_extremum (h : input.Of node)
    (heligible : input.analysis.deltaEligible = true ∨
      input.analysis.conditionalDeltaEligible = true) {agg : NumberedAggregate}
    (hagg : agg ∈ input.aggregates) (hkind : agg.1.kind = .min ∨ agg.1.kind = .max) :
    input.analysis.conditionalDeltaEligible = true := by
  have hinfo : agg.1 ∈ input.analysis.aggregates :=
    (List.mem_zipIdx' hagg).2 ▸ List.getElem_mem _
  have hany : input.analysis.aggregates.any (fun a => a.kind = .min || a.kind = .max) = true :=
    List.any_eq_true.2 ⟨agg.1, hinfo, by simpa using hkind⟩
  refine heligible.resolve_left fun hdelta => ?_
  obtain ⟨positions, -, hanalysis, -⟩ := analyze_eq_ok h.analysis
  rw [hanalysis] at hdelta hany
  simp only [buildAnalysis, Bool.and_eq_true, Bool.not_eq_true'] at hdelta hany
  exact Bool.false_ne_true (hdelta.1.1.2.symm.trans hany)

/-- The plan has a column for the number of rows. -/
theorem any_isCountStar (h : input.Of node) (hplain : KeysPlain input)
    (heligible : input.analysis.deltaEligible = true ∨
      input.analysis.conditionalDeltaEligible = true) {plan : List (Nat × UpdatedColumn)}
    (hcolumns : plan.map (·.1) = input.columns) (hplanned : ∀ entry ∈ plan, Planned input entry) :
    plan.any (·.2.isCountStar) = true := by
  obtain ⟨agg, hagg, hkind⟩ := exists_countStar h heligible
  obtain ⟨item, hitem, hinfo⟩ := h.item_of_mem_aggregates hagg
  have hlt := (List.getElem?_eq_some_iff.1 hitem).1
  have hmem : agg.1.selectIndex ∈ plan.map (·.1) := by
    rw [hcolumns, RefreshInput.columns, List.mem_range, h.names, ← h.selectList]
    exact hlt
  obtain ⟨⟨col, column⟩, hentry, hcol⟩ := List.mem_map.1 hmem
  replace hcol : col = agg.1.selectIndex := hcol
  refine List.any_eq_true.2 ⟨(col, column), hentry, ?_⟩
  have hsame : ∀ other ∈ input.aggregates, other.1.selectIndex = agg.1.selectIndex →
      other.1.kind = .countStar := by
    intro other hother hindex
    obtain ⟨item', hitem', hinfo'⟩ := h.item_of_mem_aggregates hother
    rw [hindex, hitem] at hitem'
    obtain rfl := Option.some.inj hitem'
    rw [hindex, hinfo] at hinfo'
    exact Option.some.inj hinfo' ▸ hkind
  cases hplanned _ hentry with
  | key hkey =>
    have hnone := hplain _ (List.mem_of_getElem? hkey) item (hcol ▸ hitem)
    rw [aggregateInfo?_eq, hnone] at hinfo
    cases hinfo
  | countStar hother hother' => rfl
  | _ hother hother' => cases hother'.symm.trans (hsame _ hother hcol)

section Maintained

variable (h : input.Of node) (hbinds : Binds I input)
variable (hfinds : ∀ col < input.boundNames.length, FindsColumn I input col)

theorem findsKeys (h : input.Of node)
    (hfinds : ∀ col < input.boundNames.length, FindsColumn I input col) :
    ∀ p ∈ input.analysis.keyPositions, FindsColumn I input p := fun p hp =>
  hfinds p (by rw [h.names, ← h.selectList]; exact h.lt_of_mem_keyPositions hp)

variable (heligible : input.analysis.deltaEligible = true ∨
  input.analysis.conditionalDeltaEligible = true)

include h hbinds hfinds heligible

/-- Only the changes of a group whose key is valid are used. -/
theorem extremaSafe_of_notMem {isFinite : V → Bool}
    (hvalid : k ∉ invalidKeys input isFinite (viewOf I input before)
      (cdc I input inserted deleted)) : ExtremaSafe I input k before inserted deleted := by
  intro row hrow agg hagg
  by_cases hkind : agg.1.kind = .min ∨ agg.1.kind = .max
  · have hneeds : needsInvalidCte input = true := by
      rw [needsInvalidCte, conditional_of_extremum h heligible hagg hkind, Bool.true_or]
    rw [invalidKeys, if_pos hneeds, Multiset.mem_toFinset, Multiset.mem_map] at hvalid
    obtain ⟨hmem, hkey⟩ := GroupedView.mem_groupOf.1 hrow
    have hcdc : deletedRow I input row ∈ cdc I input inserted deleted :=
      Multiset.mem_add.2 (.inr (Multiset.mem_map_of_mem _ hmem))
    have hinvalid : invalidates input isFinite (viewOf I input before)
        (cdc I input inserted deleted) (deletedRow I input row) ≠ true := fun hinvalid =>
      hvalid ⟨_, Multiset.mem_filter.2 ⟨hcdc, hinvalid⟩, hkey⟩
    have hrowKey : (deletedRow I input row).key = k := hkey
    rw [invalidates, hrowKey, groupOfCdc_cdc,
      leftJoin_viewOf h hbinds (findsKeys h hfinds)] at hinvalid
    refine Bool.eq_false_iff.2 fun hextremum => hinvalid ?_
    have hunsafe : deletedUnsafe input isFinite (groupChanges I input (groupRows I input k inserted)
        (groupRows I input k deleted)) (deletedRow I input row) (joinedRow I input k before) = true :=
      Bool.or_eq_true_iff.2 (.inl (List.any_eq_true.2 ⟨agg, hagg, hextremum⟩))
    rw [Bool.and_eq_true, decide_eq_true_eq]
    exact ⟨rfl, Multiset.countP_pos.2 ⟨_, Multiset.mem_singleton_self _, hunsafe⟩⟩
  · rw [extremumDeleted]
    cases hagg' : agg.1.kind with
    | min => exact absurd (.inl hagg') hkind
    | max => exact absurd (.inr hagg') hkind
    | _ => rfl

variable (hone : input.severalArguments = false)
variable (hmaintained : before + inserted = deleted + after)
variable (hchanged : k ∈ changedKeys I input (I.rowsOf inserted) (I.rowsOf deleted))
variable {plan : List (Nat × UpdatedColumn)} (hcolumns : plan.map (·.1) = input.columns)
variable (hplanned : ∀ entry ∈ plan, Planned input entry)

include hone hmaintained hchanged hcolumns hplanned

/-- A changed group has a row exactly when it is left. -/
theorem groupIsLeft_iff : groupIsLeft input k plan (groupChanges I input
      (groupRows I input k inserted) (groupRows I input k deleted)) (joinedRow I input k before) =
    true ↔ k ∈ viewKeys I input after := by
  obtain ⟨entry, hentry, hcount, hfind⟩ := exists_findRev?_of_any
    (any_isCountStar h hbinds.keysPlain heligible hcolumns hplanned)
  rw [groupIsLeft, hfind]
  cases hplanned _ hentry with
  | @countStar agg hagg hkind =>
    have hcandidate := candidate_eq h hfinds hone hmaintained hchanged hagg (.inr (.inl hkind))
    simp only [updatedValue]
    rw [hcandidate, Sql.nonzero_ofNumber, ← Sql.number_aggregate (.inr (.inl hkind)), hkind,
      Sql.aggregate, Sql.number_ofNumber, decide_eq_true_eq, Multiset.card_map, Nat.cast_ne_zero,
      ne_eq, Multiset.card_eq_zero, GroupedView.groupOf_eq_zero, not_not]
  | _ => cases hcount

omit heligible in
/-- The row of a changed group that is left. -/
theorem map_updatedValue (hsafe : ExtremaSafe I input k before inserted deleted)
    (hleft : k ∈ viewKeys I input after) :
    plan.map (updatedValue input k (groupChanges I input (groupRows I input k inserted)
        (groupRows I input k deleted)) (joinedRow I input k before)) =
      viewRow I input after k := by
  have hcols : input.columns.map (fun col => (viewRow I input after k).getD col none) =
      viewRow I input after k := map_columns h
  rw [← hcols, ← hcolumns, List.map_map]
  exact List.map_congr_left fun entry hentry =>
    updatedValue_eq h hbinds hfinds hone hmaintained hchanged hsafe hleft (hplanned entry hentry)

omit hchanged

/-- The rows of the changed groups that are valid. -/
theorem updatedRows_viewOf {isFinite : V → Bool} :
    updatedRows input isFinite plan (viewOf I input before) (cdc I input inserted deleted) =
      (((changedKeys I input (I.rowsOf inserted) (I.rowsOf deleted)).filter fun k =>
          k ∉ invalidKeys input isFinite (viewOf I input before)
            (cdc I input inserted deleted)).filter
        (· ∈ viewKeys I input after)).val.map (viewRow I input after) := by
  have hrow : ∀ k ∈ ((changedKeys I input (I.rowsOf inserted) (I.rowsOf deleted)).filter fun k =>
        k ∉ invalidKeys input isFinite (viewOf I input before) (cdc I input inserted deleted)).val,
      ((input.leftJoin (viewOf I input before) k).filter fun row =>
          groupIsLeft input k plan (groupOfCdc k (cdc I input inserted deleted)) row).map
        (fun row => plan.map (updatedValue input k (groupOfCdc k (cdc I input inserted deleted)) row)) =
      if k ∈ viewKeys I input after then {viewRow I input after k} else 0 := by
    intro k hk
    obtain ⟨hchanged, hvalid⟩ := Finset.mem_filter.1 (Finset.mem_def.2 hk)
    have hsafe := extremaSafe_of_notMem h hbinds hfinds heligible hvalid
    have hiff := groupIsLeft_iff h hbinds hfinds heligible hone hmaintained hchanged hcolumns hplanned
    rw [groupOfCdc_cdc, leftJoin_viewOf h hbinds (findsKeys h hfinds), ← joinedRow,
      Multiset.filter_singleton]
    by_cases hleft : k ∈ viewKeys I input after
    · rw [if_pos (hiff.2 hleft), if_pos hleft, Multiset.map_singleton,
        map_updatedValue h hbinds hfinds hone hmaintained hchanged hcolumns hplanned hsafe hleft]
    · rw [if_neg fun hyes => hleft (hiff.1 hyes), if_neg hleft]
      rfl
  rw [updatedRows, cdc_keys, Multiset.bind_congr hrow, ← Multiset.bind_filter,
    Multiset.bind_singleton, Finset.filter_val (· ∈ viewKeys I input after)]

end Maintained

/-! ## The whole refresh -/

theorem rebuiltRows_eq (keys : Finset (List (Option V))) :
    rebuiltRows I input rows keys =
      ((viewKeys I input rows).filter (· ∈ keys)).val.map (viewRow I input rows) := by
  rw [rebuiltRows, Interpretation.select, Multiset.filter_comm, GroupedView.rows_filter]

theorem viewOf_maintained (I : Interpretation V Row) (input : RefreshInput)
    (changed : Finset (List (Option V))) (h : before + inserted = deleted + after)
    (hinserted : viewKeys I input inserted ⊆ changed)
    (hdeleted : viewKeys I input deleted ⊆ changed) :
    viewOf I input after =
      ((viewKeys I input before).filter (· ∉ changed)).val.map (viewRow I input before) +
        ((viewKeys I input after).filter (· ∈ changed)).val.map (viewRow I input after) :=
  GroupedView.rows_maintained
    (by rw [← Multiset.filter_add, ← Multiset.filter_add, h]) hinserted hdeleted

/-- The changed groups that are left are the valid ones and the others. -/
theorem map_valid_add_map_invalid {α : Type} {changed invalid keys : Finset (List (Option V))}
    (hsubset : invalid ⊆ changed) (f : List (Option V) → α) :
    ((changed.filter (· ∉ invalid)).filter (· ∈ keys)).val.map f +
        (keys.filter (· ∈ invalid)).val.map f =
      (keys.filter (· ∈ changed)).val.map f := by
  have hvalid : (changed.filter (· ∉ invalid)).filter (· ∈ keys) =
      (keys.filter (· ∈ changed)).filter (· ∉ invalid) := by
    ext k
    simp only [Finset.mem_filter]
    exact ⟨fun hk => ⟨⟨hk.2, hk.1.1⟩, hk.1.2⟩, fun hk => ⟨⟨hk.1.2, hk.2⟩, hk.1.1⟩⟩
  have hinvalid : keys.filter (· ∈ invalid) =
      (keys.filter (· ∈ changed)).filter (· ∈ invalid) := by
    ext k
    simp only [Finset.mem_filter]
    exact ⟨fun hk => ⟨⟨hk.1, hsubset hk.2⟩, hk.2⟩, fun hk => ⟨hk.1.1, hk.2⟩⟩
  rw [hvalid, hinvalid, ← Multiset.map_add, Finset.filter_val, Finset.filter_val (· ∈ invalid),
    add_comm, Multiset.filter_add_not]

theorem invalidKeys_subset {isFinite : V → Bool} {mv : Multiset (ViewRow V)} :
    invalidKeys input isFinite mv (cdc I input inserted deleted) ⊆
      changedKeys I input (I.rowsOf inserted) (I.rowsOf deleted) := by
  rw [invalidKeys]
  split
  next =>
    rw [← cdc_keys]
    exact Multiset.toFinset_subset.2 (Multiset.map_subset_map (Multiset.filter_subset _ _))
  next => exact Finset.empty_subset _

/-- The statements of the delta refresh compute the view of the changed table. -/
theorem deltaRefresh_viewOf (h : input.Of node) (hbinds : Binds I input)
    (heligible : input.analysis.deltaEligible = true ∨
      input.analysis.conditionalDeltaEligible = true)
    (hone : input.severalArguments = false) (hlisted : KeysListed input)
    (hfinds : ∀ col < input.boundNames.length, FindsColumn I input col)
    (hmaintained : before + inserted = deleted + after) (isFinite : V → Bool) :
    deltaRefresh I input isFinite (viewOf I input before) inserted deleted after =
      .ok (viewOf I input after) := by
  obtain ⟨plan, hplan, hcolumns, hplanned⟩ := planColumns_listed h
    (h.hasDerivedState_of_eligible heligible) hbinds.keysPlain hlisted
  have hkept : ∀ changed, (keptRows input (viewOf I input before) changed).map
      (fun row => input.columns.map (input.stored row)) =
        ((viewKeys I input before).filter (· ∉ changed)).val.map (viewRow I input before) := by
    intro changed
    rw [keptRows_viewOf h hbinds (findsKeys h hfinds), Multiset.map_map]
    refine Multiset.map_congr rfl fun k hk => ?_
    have hgroup := isGroup_groupRows (Finset.mem_filter.1 (Finset.mem_def.2 hk)).1
    have hstored : input.columns.map (input.stored (viewRow I input before k)) =
        input.columns.map fun col => (viewRow I input before k).getD col none :=
      List.map_congr_left fun col hcol => hfinds col (List.mem_range.1 hcol) k _ hgroup
    rw [Function.comp_apply, hstored, map_columns h]
  have hview := viewOf_maintained I input
    (changedKeys I input (I.rowsOf inserted) (I.rowsOf deleted)) hmaintained
    Finset.subset_union_left Finset.subset_union_right
  rw [deltaRefresh, hplan]
  simp only [bind, Except.bind, pure, Except.pure, hone, Bool.false_eq_true, if_false, hkept]
  rw [updatedRows_viewOf h hbinds hfinds heligible hone hmaintained hcolumns hplanned, rebuiltRows_eq,
    add_assoc, map_valid_add_map_invalid invalidKeys_subset, hview]

/-- Computing all changed groups again computes the view of the changed table. -/
theorem incrementalRefresh_viewOf (h : input.Of node) (hbinds : Binds I input)
    (hfinds : ∀ p ∈ input.analysis.keyPositions, FindsColumn I input p)
    (hmaintained : before + inserted = deleted + after) :
    incrementalRefresh I input (viewOf I input before) inserted deleted after =
      viewOf I input after := by
  have hsubset : ∀ rows : Multiset Row, viewKeys I input rows ⊆
      GroupedView.keysOf (I.keysOfRow input.analysis.keyExprSql) rows := fun rows =>
    Multiset.toFinset_subset.2 (Multiset.map_subset_map (Multiset.filter_subset _ _))
  rw [incrementalRefresh, keptRows_viewOf h hbinds hfinds, rebuiltRows_eq]
  exact (viewOf_maintained I input _ hmaintained ((hsubset inserted).trans Finset.subset_union_left)
    ((hsubset deleted).trans Finset.subset_union_right)).symm

end DuckLake
