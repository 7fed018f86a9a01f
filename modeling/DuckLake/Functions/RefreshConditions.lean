import DuckLake.Functions.RefreshedViews

/-!
# When a refresh computes the view

The names that the statements refer to the columns of the backing table by are the output names of
the definition. The backing table was given other names where these are equal, and a view keeps its
rows only when every name finds its column all the same.
-/

namespace DuckLake

variable {V Row : Type} [ExactValue V] {I : Interpretation V Row} {input : RefreshInput}
variable {node : SelectNode} {k : List (Option V)} {group : Multiset Row}

/-- What a refresh of all views of a definition needs. -/
def RefreshReadsColumns (I : Interpretation V Row) (input : RefreshInput)
    (deltaSuppressed : Bool) : Prop :=
  if usesDelta input deltaSuppressed then
    input.severalArguments = false ∧ KeysListed input ∧
      ∀ col < input.boundNames.length, FindsColumn I input col
  else ∀ p ∈ input.analysis.keyPositions, FindsColumn I input p

/-! ## Names that differ -/

theorem dedupeNames_of_distinct {counts : List (Text × Nat)} {names : List Text}
    (hdistinct : names.Pairwise fun a b => a.ciEquals b = false)
    (hnew : ∀ entry ∈ counts, ∀ name ∈ names, entry.1.ciEquals name = false) :
    dedupeNames counts names = names := by
  induction names generalizing counts with
  | nil => rfl
  | cons name names ih =>
    obtain ⟨hname, hdistinct⟩ := List.pairwise_cons.1 hdistinct
    have hfind : counts.find? (fun entry => entry.1.ciEquals name) = none :=
      List.find?_eq_none.2 fun entry hentry =>
        Bool.eq_false_iff.1 (hnew entry hentry name List.mem_cons_self)
    rw [dedupeNames.eq_def]
    simp only [hfind]
    rw [ih hdistinct]
    intro entry hentry other hother
    rcases List.mem_append.1 hentry with hmem | hmem
    · exact hnew entry hmem other (List.mem_cons_of_mem name hother)
    · obtain rfl := List.mem_singleton.1 hmem
      exact hname other hother

/-- When all output names differ, every one finds its column. -/
theorem findsColumn_of_distinct (h : input.Of node)
    (hdistinct : input.boundNames.Pairwise fun a b => a.ciEquals b = false) {col : Nat}
    (hcol : col < input.boundNames.length) : FindsColumn I input col := by
  intro k group _
  have hbacking : input.backingNames = input.boundNames :=
    h.backing.trans (dedupeNames_of_distinct hdistinct nofun)
  have hresolve : input.resolve col = col := by
    rw [RefreshInput.resolve, hbacking, List.getD_eq_getElem?_getD,
      List.getElem?_eq_getElem hcol, Option.getD_some, List.findIdx_eq hcol]
    refine ⟨Text.ciEquals_refl _, fun j hj => ?_⟩
    exact List.pairwise_iff_getElem.1 hdistinct j col (hj.trans hcol) hcol hj
  rw [RefreshInput.stored, hresolve]

/-! ## A plan needs all keys -/

theorem nodup_selectIndex {start : Nat} {items : List ParsedExpression} :
    ((collectAggregates start items).map (·.selectIndex)).Nodup := by
  induction items generalizing start with
  | nil => exact List.nodup_nil
  | cons item items ih =>
    rw [collectAggregates]
    cases hinfo : aggregateInfo? start item with
    | none => exact ih
    | some info =>
      have hindex : info.selectIndex = start := by
        rw [aggregateInfo?_eq] at hinfo
        obtain ⟨info', -, rfl⟩ := Option.map_eq_some_iff.1 hinfo
        rfl
      refine List.nodup_cons.2 ⟨fun hmem => ?_, ih⟩
      obtain ⟨other, hother, hsame⟩ := List.mem_map.1 hmem
      obtain ⟨j, item', -, hinfo'⟩ := mem_collectAggregates.1 hother
      rw [aggregateInfo?_eq] at hinfo'
      obtain ⟨info', -, rfl⟩ := Option.map_eq_some_iff.1 hinfo'
      have heq : start + 1 + j = start := hsame.trans hindex
      omega

/-- There are as many aggregates as columns that are no key, and these are all. -/
theorem keysListed_of_planColumns (h : input.Of node) (hplain : KeysPlain input)
    {plan : List (Nat × UpdatedColumn)}
    (hplan : planColumns input.analysis.keyPositions input.aggregates input.columns
      input.aggregates = .ok plan) : KeysListed input := by
  intro p item hitem hnone
  by_contra hp
  have hcolumn : ∀ {col item}, input.selectList[col]? = some item → col ∈ input.columns := by
    intro col item hitem
    rw [RefreshInput.columns, List.mem_range, h.names, ← h.selectList]
    exact (List.getElem?_eq_some_iff.1 hitem).1
  have hindices : input.aggregates.map (fun agg => agg.1.selectIndex) =
      (collectAggregates 0 input.selectList).map (·.selectIndex) := by
    rw [← h.aggregates_eq, ← List.zipIdx_map_fst 0 input.analysis.aggregates, List.map_map]
    rfl
  have hsubset : input.aggregates.map (fun agg => agg.1.selectIndex) ⊆
      input.columns.filter fun col => col ∉ input.analysis.keyPositions := by
    intro col hcol
    obtain ⟨agg, hagg, rfl⟩ := List.mem_map.1 hcol
    obtain ⟨aggItem, haggItem, hinfo⟩ := h.item_of_mem_aggregates hagg
    refine List.mem_filter.2 ⟨hcolumn haggItem, decide_eq_true fun hkey => ?_⟩
    rw [aggregateInfo?_eq, hplain _ hkey aggItem haggItem] at hinfo
    cases hinfo
  have hle := countP_le_of_planColumns hplan
  rw [List.countP_eq_length_filter] at hle
  have hperm := (List.subperm_of_subset (hindices ▸ nodup_selectIndex) hsubset).perm_of_length_le
    (hle.trans_eq (List.length_map _).symm)
  have hmem := hperm.symm.subset
    (List.mem_filter.2 ⟨hcolumn hitem, decide_eq_true hp⟩)
  obtain ⟨agg, hagg, rfl⟩ := List.mem_map.1 hmem
  obtain ⟨aggItem, haggItem, hinfo⟩ := h.item_of_mem_aggregates hagg
  rw [hitem] at haggItem
  obtain rfl := Option.some.inj haggItem
  rw [aggregateInfo?_eq, hnone] at hinfo
  cases hinfo

/-! ## Unchanged views -/

theorem changedKeys_zero : changedKeys I input (0 : Multiset Row) 0 = ∅ := rfl

theorem keptRows_empty (mv : Multiset (ViewRow V)) : keptRows input mv ∅ = mv :=
  Multiset.filter_eq_self.2 fun _ _ k hk => absurd hk (Finset.notMem_empty k)

theorem cdc_zero : cdc I input (0 : Multiset Row) 0 = 0 := rfl

theorem invalidKeys_zero {isFinite : V → Bool} {mv : Multiset (ViewRow V)} :
    invalidKeys input isFinite mv 0 = ∅ := by
  rw [invalidKeys]
  split <;> rfl

theorem rebuiltRows_empty {rows : Multiset Row} : rebuiltRows I input rows ∅ = 0 := by
  rw [rebuiltRows_eq, Finset.filter_false_of_mem fun k _ => Finset.notMem_empty k]
  rfl

/-- Without changes, a row of the view is written as it is read. -/
theorem deltaRefresh_unchanged (hone : input.severalArguments = false)
    (hgroup : IsGroup I input k group) {isFinite : V → Bool} {result : Multiset (ViewRow V)}
    (h : deltaRefresh I input isFinite (viewOf I input group) 0 0 group = .ok result) :
    result = {input.columns.map (input.stored (I.outputRow input.selectList k group))} := by
  rw [deltaRefresh] at h
  cases hplan : planColumns input.analysis.keyPositions input.aggregates input.columns
      input.aggregates with
  | error e =>
    rw [hplan] at h
    cases h
  | ok plan =>
    rw [hplan] at h
    simp only [bind, Except.bind, pure, Except.pure, hone, Bool.false_eq_true, if_false,
      Except.ok.injEq, Multiset.filter_zero,
      changedKeys_zero, keptRows_empty, cdc_zero, invalidKeys_zero, rebuiltRows_empty,
      viewOf_group hgroup, Multiset.map_singleton] at h
    exact h.symm

/-- A refresh that maintains one group reads its row as it is. -/
theorem findsColumn_of_deltaRefresh (hone : input.severalArguments = false) {isFinite : V → Bool}
    (hexact : ∀ k group, IsGroup I input k group →
      deltaRefresh I input isFinite (viewOf I input group) 0 0 group =
        .ok (viewOf I input group)) {col : Nat} (hcol : col < input.boundNames.length) :
    FindsColumn I input col := by
  intro k group hgroup
  have hrow := deltaRefresh_unchanged hone hgroup (hexact k group hgroup)
  rw [viewOf_group hgroup, Multiset.singleton_inj] at hrow
  have hget := congrArg (fun row => row.getD col none) hrow
  simp only [RefreshInput.columns, List.getD_eq_getElem?_getD, List.getElem?_map,
    List.getElem?_range hcol, Option.map_some, Option.getD_some] at hget
  rw [List.getD_eq_getElem?_getD]
  exact hget.symm

/-- Statements that mix lists with the values in them fail for some table. -/
theorem severalArguments_of_deltaRefresh (hbinds : Binds I input) {isFinite : V → Bool}
    (hexact : ∀ rows : Multiset Row, deltaRefresh I input isFinite (viewOf I input 0) rows 0 rows =
      .ok (viewOf I input rows)) : input.severalArguments = false := by
  have hempty : viewOf I input (0 : Multiset Row) = 0 := rfl
  by_contra hseveral
  obtain ⟨rows, hfails⟩ := hbinds.mixed (Bool.eq_true_of_not_eq_false hseveral)
  have hrefresh := hexact rows
  rw [deltaRefresh, hempty] at hrefresh
  cases hplan : planColumns input.analysis.keyPositions input.aggregates input.columns
      input.aggregates with
  | error e =>
    rw [hplan] at hrefresh
    cases hrefresh
  | ok plan =>
    simp only [hplan, bind, Except.bind, if_pos (Bool.eq_true_of_not_eq_false hseveral)] at hrefresh
    exact hfails _ hrefresh

/-! ## Groups that are computed again -/

omit [ExactValue V] in
theorem isGroup_add_row (hgroup : IsGroup I input k group) {row : Row} (hrow : row ∈ group) :
    IsGroup I input k (group + {row}) where
  nonempty hzero := Multiset.notMem_zero row (hzero ▸ Multiset.mem_add.2 (.inl hrow))
  holds r hr := by
    rcases Multiset.mem_add.1 hr with hr | hr
    · exact hgroup.holds r hr
    · exact Multiset.mem_singleton.1 hr ▸ hgroup.holds row hrow
  key r hr := by
    rcases Multiset.mem_add.1 hr with hr | hr
    · exact hgroup.key r hr
    · exact Multiset.mem_singleton.1 hr ▸ hgroup.key row hrow

/-- When a row of a group is inserted, the group replaces its row only if the row has the key. -/
theorem keyMatches_of_incrementalRefresh (hgroup : IsGroup I input k group) {row : Row}
    (hrow : row ∈ group)
    (h : incrementalRefresh I input (viewOf I input group) {row} 0 (group + {row}) =
      viewOf I input (group + {row})) :
    input.keyMatches k (I.outputRow input.selectList k group) = true := by
  have hchanged : changedKeys I input {row} 0 = {k} := by
    rw [← hgroup.key row hrow]
    rfl
  have hrebuilt : rebuiltRows I input (group + {row}) {k} = viewOf I input (group + {row}) := by
    have hgroup' := isGroup_add_row hgroup hrow
    rw [rebuiltRows, Multiset.filter_eq_self.2 fun r hr =>
      Finset.mem_singleton.2 (hgroup'.key r hr)]
  rw [incrementalRefresh, hchanged, hrebuilt] at h
  have hkept : keptRows input (viewOf I input group) {k} = 0 := by
    simpa using h
  rw [viewOf_group hgroup, keptRows, Multiset.filter_eq_nil] at hkept
  by_contra hmatch
  refine hkept _ (Multiset.mem_singleton_self _) fun k' hk' => ?_
  rw [Finset.mem_singleton.1 hk']
  exact Bool.eq_false_iff.2 hmatch

theorem findsColumn_of_keyMatches (h : input.Of node) (hbinds : Binds I input)
    (hmatches : ∀ k group, IsGroup I input k group →
      input.keyMatches k (I.outputRow input.selectList k group) = true) {p : Nat}
    (hp : p ∈ input.analysis.keyPositions) : FindsColumn I input p := by
  intro k group hgroup
  obtain ⟨i, hi, rfl⟩ := List.getElem_of_mem hp
  have hkey := List.getElem?_eq_getElem hi
  have hitem := List.getElem?_eq_getElem (h.lt_of_mem_keyPositions hp)
  have hmatch := beq_iff_eq.1 (hmatches k group hgroup)
  rw [getD_outputRow hitem, itemValue_key h hbinds hkey hitem hgroup, hmatch,
    List.getD_eq_getElem?_getD, List.getElem?_map, hkey]
  rw [← hmatch]
  rfl

/-! ## Refreshes of every table -/

/-- Every refresh of a view that is maintained from changes computes the view of the changed table,
for all tables and all changes of them, exactly when the names of the columns are found, the
definition lists its keys and no aggregate has several arguments. -/
theorem refresh_eq_select_iff [DecidableEq Row] (h : input.Of node) (hbinds : Binds I input)
    (heligible : input.analysis.deltaEligible = true ∨
      input.analysis.conditionalDeltaEligible = true)
    (deltaSuppressed : Bool) (isFinite : V → Bool) :
    (∀ before inserted deleted : Multiset Row, deleted ≤ before + inserted →
      refresh I input deltaSuppressed isFinite
          (I.select input.selectList input.analysis.keyExprSql before) inserted deleted
          (before + inserted - deleted) =
        .ok (I.select input.selectList input.analysis.keyExprSql (before + inserted - deleted))) ↔
      RefreshReadsColumns I input deltaSuppressed := by
  rw [RefreshReadsColumns]
  by_cases hdelta : usesDelta input deltaSuppressed = true
  · simp only [refresh, if_pos hdelta]
    constructor
    · intro hexact
      have hunchanged : ∀ group, deltaRefresh I input isFinite (viewOf I input group) 0 0 group =
          .ok (viewOf I input group) := fun group => by
        simpa using hexact group 0 0 (Multiset.zero_le _)
      have hone : input.severalArguments = false :=
        severalArguments_of_deltaRefresh hbinds fun rows => by
          simpa using hexact 0 rows 0 (Multiset.zero_le _)
      refine ⟨hone, ?_,
        fun col => findsColumn_of_deltaRefresh hone fun k group _ => hunchanged group⟩
      have hempty := hunchanged 0
      rw [deltaRefresh] at hempty
      cases hplan : planColumns input.analysis.keyPositions input.aggregates input.columns
          input.aggregates with
      | error e =>
        rw [hplan] at hempty
        cases hempty
      | ok plan => exact keysListed_of_planColumns h hbinds.keysPlain hplan
    · rintro ⟨hone, hlisted, hfinds⟩ before inserted deleted hle
      exact deltaRefresh_viewOf h hbinds heligible hone hlisted hfinds
        (add_tsub_cancel_of_le hle).symm isFinite
  · simp only [refresh, if_neg hdelta, Except.ok.injEq]
    constructor
    · intro hexact p
      refine findsColumn_of_keyMatches h hbinds fun k group hgroup => ?_
      obtain ⟨row, hrow⟩ := Multiset.exists_mem_of_ne_zero hgroup.nonempty
      refine keyMatches_of_incrementalRefresh hgroup hrow ?_
      simpa using hexact group {row} 0 (Multiset.zero_le _)
    · intro hfinds before inserted deleted hle
      exact incrementalRefresh_viewOf h hbinds hfinds (add_tsub_cancel_of_le hle).symm

/-! ## Views that count the rows of a group -/

section RowCounts

instance : ExactValue ℚ where
  number := id
  ofNumber := id
  number_ofNumber _ := rfl

/-- `SELECT g, count(*) FROM t GROUP BY g`. -/
def rowCountNode : SelectNode where
  selectList := [.other "g".toList [],
    .function "count_star()".toList ⟨"count_star".toList, false, false, false, false⟩ []]
  fromBaseTable := true
  onlyOrderModifiers := true
  having := false
  qualify := false
  sample := false
  groups := [.other "g".toList []]
  groupingSets := [1]
  whereClause := none

/-- The view with names for its two columns. -/
def rowCount (key count : Text) : RefreshInput where
  analysis := buildAnalysis rowCountNode [0]
  selectList := rowCountNode.selectList
  boundNames := [key, count]
  backingNames := dedupeNames [] [key, count]
  isFloating _ := false

/-- Rows of a table with the one column `g`. -/
def oneColumn : Interpretation ℚ ℚ where
  eval _ row := some row
  holds _ := true
  plain _ k := k.getD 0 none
  several _ _ := none
  mixed _ _ _ _ := .error ⟨.binder, "Cannot mix values of a list and its type".toList⟩

theorem rowCount_of (key count : Text) : (rowCount key count).Of rowCountNode where
  analysis := by rfl
  selectList := rfl
  names := rfl
  backing := rfl

theorem rowCount_keys {p : Nat} {item : ParsedExpression}
    (hitem : rowCountNode.selectList[p]? = some item) (hnone : aggregateInfo? 0 item = none) :
    p = 0 ∧ item = .other "g".toList [] := by
  match p, hitem with
  | 0, hitem => exact ⟨rfl, (Option.some.inj hitem).symm⟩
  | 1, hitem =>
    obtain rfl := Option.some.inj hitem
    exact absurd hnone (by decide)

theorem rowCount_binds (key count : Text) : Binds oneColumn (rowCount key count) where
  keysPlain p hp item hitem := by
    obtain rfl := List.mem_singleton.1 hp
    obtain rfl := Option.some.inj hitem
    rfl
  plain item hitem hnone row := by
    obtain ⟨p, hp⟩ := List.mem_iff_getElem?.1 hitem
    obtain ⟨-, rfl⟩ := rowCount_keys hp hnone
    rfl
  mixed _ := ⟨0, fun _ h => by cases h⟩

theorem refresh_rowCount :
    refresh oneColumn (rowCount "g".toList "n".toList) false (fun _ => true)
      (oneColumn.select rowCountNode.selectList (buildAnalysis rowCountNode [0]).keyExprSql {1, 1})
      {2} {1} ({1, 1} + {2} - {1}) =
    .ok (oneColumn.select rowCountNode.selectList (buildAnalysis rowCountNode [0]).keyExprSql
      ({1, 1} + {2} - {1})) := by
  refine (refresh_eq_select_iff (rowCount_of _ _) (rowCount_binds _ _) (.inl (by decide)) false
    fun _ => true).2 ?_ {1, 1} {2} {1} (by decide +kernel)
  rw [RefreshReadsColumns, if_pos (by decide)]
  refine ⟨rfl, fun p item hitem hnone => ?_, fun col =>
    findsColumn_of_distinct (rowCount_of _ _) (by decide)⟩
  obtain ⟨rfl, -⟩ := rowCount_keys hitem hnone
  exact List.mem_singleton_self 0

/-- With one name for both columns, the count of a group that has not changed is replaced by its
key. -/
theorem refresh_rowCount_ne :
    ((rowCount "x".toList "x".toList).Of rowCountNode ∧
      Binds oneColumn (rowCount "x".toList "x".toList) ∧
      (rowCount "x".toList "x".toList).analysis.deltaEligible = true) ∧
    refresh oneColumn (rowCount "x".toList "x".toList) false (fun _ => true)
      (oneColumn.select rowCountNode.selectList (buildAnalysis rowCountNode [0]).keyExprSql {1, 1})
      {2} 0 ({1, 1} + {2} - 0) = .ok {[some 1, some 1], [some 2, some 1]} ∧
    oneColumn.select rowCountNode.selectList (buildAnalysis rowCountNode [0]).keyExprSql
      ({1, 1} + {2} - 0) = {[some 1, some 2], [some 2, some 1]} ∧
    ({[some 1, some 1], [some 2, some 1]} : Multiset (ViewRow ℚ)) ≠
      {[some 1, some 2], [some 2, some 1]} :=
  ⟨⟨rowCount_of _ _, rowCount_binds _ _, by decide⟩, by decide +kernel, by decide +kernel,
    by decide +kernel⟩

end RowCounts

end DuckLake
