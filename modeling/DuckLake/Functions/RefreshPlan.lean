import DuckLake.Functions.AggregateDeltas

/-!
# The plan of a refresh

What the analysis of a definition says about its select list, how the columns of the changed rows
are planned, and what the stored rows of a view hold. The plan succeeds when every expression
outside of an aggregate is a group key, and fails otherwise for want of aggregates.
-/

namespace DuckLake

/-! ## Definitions and what is made of them -/

theorem aggregateInfo?_eq {n : Nat} {item : ParsedExpression} :
    aggregateInfo? n item = (aggregateInfo? 0 item).map fun info => { info with selectIndex := n } := by
  cases item with
  | function sql call arguments =>
    rw [aggregateInfo?, aggregateInfo?]
    split <;> rfl
  | _ => rfl

theorem mem_collectAggregates {start : Nat} {items : List ParsedExpression} {info : MVAggregateInfo} :
    info ∈ collectAggregates start items ↔
      ∃ j item, items[j]? = some item ∧ aggregateInfo? (start + j) item = some info := by
  induction items generalizing start with
  | nil => simp [collectAggregates]
  | cons item items ih =>
    rw [collectAggregates, List.mem_append, Option.mem_toList, ih]
    constructor
    · rintro (h | ⟨j, item', hitem, h⟩)
      · exact ⟨0, item, rfl, h⟩
      · exact ⟨j + 1, item', hitem, by rw [← h]; congr 1; omega⟩
    · rintro ⟨j, item', hitem, h⟩
      cases j with
      | zero =>
        obtain rfl := Option.some.inj hitem
        exact .inl h
      | succ j => exact .inr ⟨j, item', hitem, by rw [← h]; congr 1; omega⟩

/-- The statements are built from the analysis of a definition, the names of its columns, and the
names that the backing table was given for them. -/
structure RefreshInput.Of (input : RefreshInput) (node : SelectNode) : Prop where
  analysis : analyzeMaterializedView node = .ok input.analysis
  selectList : input.selectList = node.selectList
  names : input.boundNames.length = node.selectList.length
  backing : input.backingNames = dedupeNames [] input.boundNames

theorem keyPosition?_lt {selectList : List ParsedExpression} {group : ParsedExpression} {p : Nat}
    (h : keyPosition? selectList group = some p) : p < selectList.length := by
  rw [keyPosition?] at h
  cases hordinal : ordinal? selectList group with
  | some position =>
    rw [hordinal] at h
    obtain rfl := Option.some.inj h
    cases group with
    | constant sql int64 =>
      cases int64 with
      | none => cases hordinal
      | some selectIndex =>
        rw [ordinal?] at hordinal
        split at hordinal
        next hrange =>
          cases hordinal
          omega
        next => cases hordinal
    | _ => cases hordinal
  | none =>
    rw [hordinal] at h
    exact (List.findIdx?_eq_some_iff_findIdx_eq.1 h).1

theorem keyPositions?_spec {selectList groups : List ParsedExpression} {positions : List Nat}
    (h : keyPositions? selectList groups = some positions) :
    positions.length = groups.length ∧ ∀ p ∈ positions, p < selectList.length := by
  induction groups generalizing positions with
  | nil =>
    cases h
    exact ⟨rfl, nofun⟩
  | cons group groups ih =>
    rw [keyPositions?] at h
    obtain ⟨position, hposition, h⟩ := Option.bind_eq_some_iff.1 h
    obtain ⟨rest, hrest, h⟩ := Option.bind_eq_some_iff.1 h
    cases h
    obtain ⟨hlength, hlt⟩ := ih hrest
    exact ⟨congrArg (· + 1) hlength, List.forall_mem_cons.2 ⟨keyPosition?_lt hposition, hlt⟩⟩

/-- A chain of checks goes on when a check does not apply. -/
theorem ite_error_eq_ok {ε α : Type} {c : Prop} [Decidable c] {e : ε} {x : Except ε α} {a : α}
    (h : (if c then .error e else x) = .ok a) : ¬ c ∧ x = .ok a := by
  split at h
  next => cases h
  next hc => exact ⟨hc, h⟩

theorem analyze_eq_ok {node : SelectNode} {analysis : MaterializedViewAnalysis}
    (h : analyzeMaterializedView node = .ok analysis) :
    ∃ positions, keyPositions? node.selectList node.groups = some positions ∧
      analysis = buildAnalysis node positions ∧ node.groups ≠ [] := by
  rw [analyzeMaterializedView] at h
  obtain ⟨-, h⟩ := ite_error_eq_ok h
  obtain ⟨-, h⟩ := ite_error_eq_ok h
  obtain ⟨-, h⟩ := ite_error_eq_ok h
  obtain ⟨-, h⟩ := ite_error_eq_ok h
  obtain ⟨-, h⟩ := ite_error_eq_ok h
  obtain ⟨hgroups, h⟩ := ite_error_eq_ok h
  obtain ⟨-, h⟩ := ite_error_eq_ok h
  obtain ⟨-, h⟩ := ite_error_eq_ok h
  obtain ⟨-, h⟩ := ite_error_eq_ok h
  obtain ⟨-, h⟩ := ite_error_eq_ok h
  cases hpositions : keyPositions? node.selectList node.groups with
  | none =>
    rw [hpositions] at h
    cases h
  | some positions =>
    rw [hpositions] at h
    exact ⟨positions, rfl, (Except.ok.inj h).symm, fun hnil => hgroups (by rw [hnil]; rfl)⟩

namespace RefreshInput.Of

variable {input : RefreshInput} {node : SelectNode} (h : input.Of node)

include h

theorem aggregates_eq : input.analysis.aggregates = collectAggregates 0 input.selectList := by
  obtain ⟨positions, -, hanalysis, -⟩ := analyze_eq_ok h.analysis
  rw [hanalysis, h.selectList]
  rfl

theorem keyExprSql_eq : input.analysis.keyExprSql =
    input.analysis.keyPositions.map fun p => (input.selectList[p]?.map (·.sql)).getD [] := by
  obtain ⟨positions, -, hanalysis, -⟩ := analyze_eq_ok h.analysis
  rw [hanalysis, h.selectList]
  rfl

theorem lt_of_mem_keyPositions {p : Nat} (hp : p ∈ input.analysis.keyPositions) :
    p < input.selectList.length := by
  obtain ⟨positions, hpositions, hanalysis, -⟩ := analyze_eq_ok h.analysis
  rw [hanalysis] at hp
  rw [h.selectList]
  exact (keyPositions?_spec hpositions).2 p hp

/-- The item of the select list that an aggregate was found in. -/
theorem item_of_mem_aggregates {agg : NumberedAggregate} (hagg : agg ∈ input.aggregates) :
    ∃ item, input.selectList[agg.1.selectIndex]? = some item ∧
      aggregateInfo? agg.1.selectIndex item = some agg.1 := by
  have hmem : agg.1 ∈ collectAggregates 0 input.selectList :=
    h.aggregates_eq ▸ (List.mem_zipIdx' hagg).2 ▸ List.getElem_mem _
  obtain ⟨j, item, hitem, hinfo⟩ := mem_collectAggregates.1 hmem
  rw [Nat.zero_add] at hinfo
  have hindex : agg.1.selectIndex = j := by
    rw [aggregateInfo?_eq] at hinfo
    obtain ⟨info, -, hinfo⟩ := Option.map_eq_some_iff.1 hinfo
    exact hinfo ▸ rfl
  exact ⟨item, hindex ▸ hitem, hindex ▸ hinfo⟩

theorem hasDerivedState_of_eligible (heligible : input.analysis.deltaEligible = true ∨
    input.analysis.conditionalDeltaEligible = true) :
    hasDerivedState input.analysis.aggregates = true := by
  obtain ⟨positions, -, hanalysis, -⟩ := analyze_eq_ok h.analysis
  rw [hanalysis] at heligible ⊢
  simp only [buildAnalysis, Bool.and_eq_true] at heligible ⊢
  exact heligible.elim (·.2) (·.2)

end RefreshInput.Of

/-! ## The plan of the columns -/

/-- A column is computed as what it is in the select list. -/
inductive Planned (input : RefreshInput) : Nat × UpdatedColumn → Prop
  | key {col i : Nat} : input.analysis.keyPositions[i]? = some col → Planned input (col, .key i)
  | count {agg : NumberedAggregate} : agg ∈ input.aggregates → agg.1.kind = .countCol →
      Planned input (agg.1.selectIndex, .count agg)
  | countStar {agg : NumberedAggregate} : agg ∈ input.aggregates → agg.1.kind = .countStar →
      Planned input (agg.1.selectIndex, .countStar agg)
  | min {agg : NumberedAggregate} : agg ∈ input.aggregates → agg.1.kind = .min →
      Planned input (agg.1.selectIndex, .min agg)
  | max {agg : NumberedAggregate} : agg ∈ input.aggregates → agg.1.kind = .max →
      Planned input (agg.1.selectIndex, .max agg)
  | sum {agg count : NumberedAggregate} : agg ∈ input.aggregates → agg.1.kind = .sum →
      count ∈ input.aggregates → stateOf .countCol agg.1.childSql count = true →
        Planned input (agg.1.selectIndex, .sum agg count)
  | avg {agg sum count : NumberedAggregate} : agg ∈ input.aggregates → agg.1.kind = .avg →
      sum ∈ input.aggregates → stateOf .sum agg.1.childSql sum = true →
        count ∈ input.aggregates → stateOf .countCol agg.1.childSql count = true →
          Planned input (agg.1.selectIndex, .avg agg sum count)

theorem exists_find?_of_any {α : Type} {p : α → Bool} {l : List α} (h : l.any p = true) :
    ∃ a ∈ l, p a = true ∧ l.find? p = some a := by
  obtain ⟨a, ha, hp⟩ := List.any_eq_true.1 h
  obtain ⟨b, hb⟩ := Option.isSome_iff_exists.1 (List.find?_isSome.2 ⟨a, ha, hp⟩)
  exact ⟨b, List.mem_of_find?_eq_some hb, List.find?_some hb, hb⟩

theorem exists_findRev?_of_any {α : Type} {p : α → Bool} {l : List α} (h : l.any p = true) :
    ∃ a ∈ l, p a = true ∧ l.findRev? p = some a := by
  induction l with
  | nil => cases h
  | cons b l ih =>
    by_cases hl : l.any p = true
    · obtain ⟨a, ha, hp, hfind⟩ := ih hl
      exact ⟨a, List.mem_cons_of_mem b ha, hp, by rw [List.findRev?, hfind]⟩
    · rw [List.any_cons, Bool.or_eq_true] at h
      have hfind : l.findRev? p = none := by
        rw [List.findRev?_eq_findRev?TR, List.findRev?TR, List.find?_eq_none]
        intro a ha hp
        exact hl (List.any_eq_true.2 ⟨a, List.mem_reverse.1 ha, hp⟩)
      have hb := h.resolve_right hl
      exact ⟨b, List.mem_cons_self, hb, by simp only [List.findRev?, hfind, hb, if_true]⟩

/-- The state of a kind and an argument is among the numbered aggregates. -/
theorem any_stateOf {input : RefreshInput} {kind : MVAggKind} {child : Text}
    (h : input.analysis.aggregates.any (fun candidate =>
      candidate.kind = kind && candidate.childSql = child) = true) :
    input.aggregates.any (stateOf kind child) = true := by
  obtain ⟨info, hinfo, hstate⟩ := List.any_eq_true.1 h
  obtain ⟨i, hi, rfl⟩ := List.getElem_of_mem hinfo
  exact List.any_eq_true.2 ⟨(_, i), List.mem_zipIdx_iff_getElem?.2 (List.getElem?_eq_getElem hi),
    hstate⟩

/-- The state that a sum or an average needs is found. -/
theorem planAggregate_planned {input : RefreshInput}
    (hstate : hasDerivedState input.analysis.aggregates = true) {agg : NumberedAggregate}
    (hagg : agg ∈ input.aggregates) :
    ∃ column, planAggregate input.aggregates agg = .ok column ∧
      Planned input (agg.1.selectIndex, column) := by
  have hinfo : agg.1 ∈ input.analysis.aggregates :=
    (List.mem_zipIdx' hagg).2 ▸ List.getElem_mem _
  have hneeds := List.all_eq_true.1 hstate agg.1 hinfo
  rw [planAggregate]
  cases hkind : agg.1.kind with
  | countStar => exact ⟨_, rfl, .countStar hagg hkind⟩
  | countCol => exact ⟨_, rfl, .count hagg hkind⟩
  | min => exact ⟨_, rfl, .min hagg hkind⟩
  | max => exact ⟨_, rfl, .max hagg hkind⟩
  | sum =>
    simp only [hkind, decide_true, Bool.true_or, Bool.not_true, Bool.false_or, Bool.and_true]
      at hneeds
    obtain ⟨count, hmem, hcount, hfind⟩ := exists_find?_of_any (any_stateOf hneeds)
    simp only [hfind]
    exact ⟨_, rfl, .sum hagg hkind hmem hcount⟩
  | avg =>
    have hne : ¬ MVAggKind.avg = .sum := nofun
    simp only [hkind, decide_true, hne, decide_false, Bool.or_true, Bool.not_true, Bool.false_or,
      Bool.and_eq_true] at hneeds
    obtain ⟨count, hcountMem, hcount, hfindCount⟩ := exists_findRev?_of_any (any_stateOf hneeds.1)
    obtain ⟨sum, hsumMem, hsum, hfindSum⟩ := exists_findRev?_of_any (any_stateOf hneeds.2)
    simp only [hfindCount, hfindSum]
    exact ⟨_, rfl, .avg hagg hkind hsumMem hsum hcountMem hcount⟩

/-- Every item of the select list that is no aggregate is the item of a group key. -/
def KeysListed (input : RefreshInput) : Prop :=
  ∀ p item, input.selectList[p]? = some item → aggregateInfo? 0 item = none →
    p ∈ input.analysis.keyPositions

/-- Group keys are no aggregates. -/
def KeysPlain (input : RefreshInput) : Prop :=
  ∀ p ∈ input.analysis.keyPositions, ∀ item, input.selectList[p]? = some item →
    aggregateInfo? 0 item = none

/-- The columns of a suffix of the select list are planned, each as the item that it has there. -/
theorem planColumns_suffix {input : RefreshInput}
    (hstate : hasDerivedState input.analysis.aggregates = true) {items : List ParsedExpression}
    {start : Nat} {remaining : List NumberedAggregate}
    (hitems : ∀ j item, items[j]? = some item →
      (aggregateInfo? 0 item = none ↔ start + j ∈ input.analysis.keyPositions))
    (hremaining : remaining.map (·.1) = collectAggregates start items)
    (hmem : ∀ agg ∈ remaining, agg ∈ input.aggregates) :
    ∃ plan, planColumns input.analysis.keyPositions input.aggregates
        (List.range' start items.length) remaining = .ok plan ∧
      plan.map (·.1) = List.range' start items.length ∧ ∀ entry ∈ plan, Planned input entry := by
  induction items generalizing start remaining with
  | nil => exact ⟨[], rfl, rfl, nofun⟩
  | cons item items ih =>
    have hhead := hitems 0 item rfl
    rw [Nat.add_zero] at hhead
    have htail : ∀ j item', items[j]? = some item' →
        (aggregateInfo? 0 item' = none ↔ start + 1 + j ∈ input.analysis.keyPositions) :=
      fun j item' hitem => by
        rw [Nat.add_right_comm]
        exact hitems (j + 1) item' hitem
    rw [collectAggregates] at hremaining
    rw [List.length_cons, List.range'_succ, planColumns.eq_def]
    cases hfind : input.analysis.keyPositions.findIdx? (· = start) with
    | some i =>
      obtain ⟨hlt, hget, -⟩ := List.findIdx?_eq_some_iff_getElem.1 hfind
      have hkey : input.analysis.keyPositions[i]? = some start := by
        rw [List.getElem?_eq_getElem hlt, of_decide_eq_true hget]
      have hnone : aggregateInfo? start item = none := by
        rw [aggregateInfo?_eq, hhead.2 (List.mem_of_getElem? hkey)]
        rfl
      rw [hnone] at hremaining
      obtain ⟨plan, hplan, hcols, hplanned⟩ := ih htail hremaining hmem
      refine ⟨(start, .key i) :: plan, ?_, ?_, ?_⟩
      · simp only [hfind, hplan, bind, Except.bind]
        rfl
      · rw [List.map_cons, hcols]
      · exact List.forall_mem_cons.2 ⟨.key hkey, hplanned⟩
    | none =>
      have hnot : start ∉ input.analysis.keyPositions := fun hstart =>
        absurd (List.findIdx?_eq_none_iff.1 hfind start hstart) (by simp)
      obtain ⟨info, hinfo⟩ := Option.ne_none_iff_exists'.1 fun hnone => hnot (hhead.1 hnone)
      have hindex : aggregateInfo? start item = some { info with selectIndex := start } := by
        rw [aggregateInfo?_eq, hinfo]
        rfl
      rw [hindex] at hremaining
      cases remaining with
      | nil => cases hremaining
      | cons agg remaining =>
        obtain ⟨hagg, hremaining⟩ := List.cons_eq_cons.1 hremaining
        obtain ⟨hmemAgg, hmem⟩ := List.forall_mem_cons.1 hmem
        obtain ⟨column, hcolumn, hplannedColumn⟩ := planAggregate_planned hstate hmemAgg
        obtain ⟨plan, hplan, hcols, hplanned⟩ := ih htail hremaining hmem
        have hstart : agg.1.selectIndex = start := congrArg MVAggregateInfo.selectIndex hagg
        refine ⟨(start, column) :: plan, ?_, ?_, ?_⟩
        · simp only [hfind, hcolumn, hplan, bind, Except.bind]
          rfl
        · rw [List.map_cons, hcols]
        · exact List.forall_mem_cons.2 ⟨hstart ▸ hplannedColumn, hplanned⟩

/-- When the definition lists its keys, every column is planned as the item that it is. -/
theorem planColumns_listed {input : RefreshInput} {node : SelectNode} (h : input.Of node)
    (hstate : hasDerivedState input.analysis.aggregates = true) (hplain : KeysPlain input)
    (hlisted : KeysListed input) :
    ∃ plan, planColumns input.analysis.keyPositions input.aggregates input.columns
        input.aggregates = .ok plan ∧
      plan.map (·.1) = input.columns ∧ ∀ entry ∈ plan, Planned input entry := by
  have hcolumns : input.columns = List.range' 0 input.selectList.length := by
    rw [RefreshInput.columns, h.names, h.selectList, List.range_eq_range']
  rw [hcolumns]
  refine planColumns_suffix hstate (fun j item hitem => ?_) ?_ fun _ hagg => hagg
  · rw [Nat.zero_add]
    exact ⟨hlisted j item hitem, fun hj => hplain j hj item hitem⟩
  · rw [← h.aggregates_eq]
    exact List.zipIdx_map_fst 0 _

/-- Every column that is no key takes an aggregate. -/
theorem countP_le_of_planColumns {keyPositions cols : List Nat}
    {aggregates remaining : List NumberedAggregate} {plan : List (Nat × UpdatedColumn)}
    (h : planColumns keyPositions aggregates cols remaining = .ok plan) :
    cols.countP (fun col => col ∉ keyPositions) ≤ remaining.length := by
  induction cols generalizing remaining plan with
  | nil => exact Nat.zero_le _
  | cons col cols ih =>
    rw [planColumns.eq_def] at h
    cases hfind : keyPositions.findIdx? (· = col) with
    | some i =>
      obtain ⟨hlt, hget, -⟩ := List.findIdx?_eq_some_iff_getElem.1 hfind
      have hmem : col ∈ keyPositions := of_decide_eq_true hget ▸ List.getElem_mem hlt
      simp only [hfind] at h
      rw [List.countP_cons_of_neg (by simpa using hmem)]
      cases hrest : planColumns keyPositions aggregates cols remaining with
      | error e =>
        rw [hrest] at h
        cases h
      | ok rest => exact ih hrest
    | none =>
      simp only [hfind] at h
      cases remaining with
      | nil => cases h
      | cons agg remaining =>
        simp only [bind, Except.bind] at h
        cases hcolumn : planAggregate aggregates agg with
        | error e =>
          rw [hcolumn] at h
          cases h
        | ok column =>
          simp only [hcolumn] at h
          cases hrest : planColumns keyPositions aggregates cols remaining with
          | error e =>
            rw [hrest] at h
            cases h
          | ok rest =>
            rw [List.countP_cons, List.length_cons]
            have hle := ih hrest
            split <;> omega

/-! ## What a row of the view holds -/

section Rows

variable {V Row : Type} [ExactValue V] {I : Interpretation V Row} {input : RefreshInput}
variable {node : SelectNode}

/-- The binder of the engine accepts a definition when its group keys are no aggregates, and its
other expressions are determined by the keys. Statements that mix lists with the values in them are
rejected, or else a value is cast to a list in vain. -/
structure Binds (I : Interpretation V Row) (input : RefreshInput) : Prop where
  keysPlain : KeysPlain input
  plain : ∀ item ∈ input.selectList, aggregateInfo? 0 item = none → ∀ row,
    I.plain item.sql (I.keysOfRow input.analysis.keyExprSql row) = I.eval item.sql row
  mixed : input.severalArguments = true → ∃ rows : Multiset Row, ∀ result,
    I.mixed 0 rows 0 rows ≠ .ok result

/-- The rows of a group that the view has. -/
structure IsGroup (I : Interpretation V Row) (input : RefreshInput) (k : List (Option V))
    (group : Multiset Row) : Prop where
  nonempty : group ≠ 0
  holds : ∀ row ∈ group, I.holds row = true
  key : ∀ row ∈ group, I.keysOfRow input.analysis.keyExprSql row = k

/-- The output name of the column finds a column that holds the same in every row of the view. -/
def FindsColumn (I : Interpretation V Row) (input : RefreshInput) (col : Nat) : Prop :=
  ∀ k group, IsGroup I input k group →
    input.stored (I.outputRow input.selectList k group) col =
      (I.outputRow input.selectList k group).getD col none

theorem getD_outputRow {k : List (Option V)} {group : Multiset Row} {col : Nat}
    {item : ParsedExpression} (hitem : input.selectList[col]? = some item) :
    (I.outputRow input.selectList k group).getD col none = I.itemValue k group item := by
  rw [Interpretation.outputRow, List.getD_eq_getElem?_getD, List.getElem?_map, hitem]
  rfl

theorem isAggregateCall_of_aggregateInfo {n : Nat} {item : ParsedExpression}
    {info : MVAggregateInfo} (h : aggregateInfo? n item = some info) :
    item.isAggregateCall = true := by
  cases item with
  | function sql call arguments =>
    rw [aggregateInfo?] at h
    split at h
    · assumption
    · cases h
  | _ => cases h

theorem itemValue_of_aggregate (hone : input.severalArguments = false) {col : Nat}
    {item : ParsedExpression} (hitem : input.selectList[col]? = some item) {k : List (Option V)}
    {group : Multiset Row} {n : Nat} {info : MVAggregateInfo}
    (h : aggregateInfo? n item = some info) :
    I.itemValue k group item = Sql.aggregate info.kind (group.map (I.eval info.childSql)) := by
  have hcall := isAggregateCall_of_aggregateInfo h
  have hlength : ¬ 1 < item.arguments.length := by
    have hnot := List.any_eq_false.1 hone item (List.mem_of_getElem? hitem)
    simpa [hcall] using hnot
  rw [aggregateInfo?_eq] at h
  obtain ⟨info₀, hinfo, rfl⟩ := Option.map_eq_some_iff.1 h
  simp only [Interpretation.itemValue, hinfo, if_neg hlength]

/-- A group key is the value of its column. -/
theorem itemValue_key (h : input.Of node) (hbinds : Binds I input) {i col : Nat}
    (hkey : input.analysis.keyPositions[i]? = some col) {item : ParsedExpression}
    (hitem : input.selectList[col]? = some item) {k : List (Option V)} {group : Multiset Row}
    (hgroup : IsGroup I input k group) : I.itemValue k group item = k.getD i none := by
  have hnone : aggregateInfo? 0 item = none :=
    hbinds.keysPlain col (List.mem_of_getElem? hkey) item hitem
  obtain ⟨row, hrow⟩ := Multiset.exists_mem_of_ne_zero hgroup.nonempty
  rw [Interpretation.itemValue, hnone]
  simp only
  rw [← hgroup.key row hrow, hbinds.plain item (List.mem_of_getElem? hitem) hnone,
    Interpretation.keysOfRow, h.keyExprSql_eq, List.map_map, List.getD_eq_getElem?_getD,
    List.getElem?_map, hkey]
  simp [hitem]

/-- The columns of the keys hold the key. -/
theorem map_keyPositions (h : input.Of node) (hbinds : Binds I input)
    (hfinds : ∀ p ∈ input.analysis.keyPositions, FindsColumn I input p) {k : List (Option V)}
    {group : Multiset Row} (hgroup : IsGroup I input k group) :
    input.analysis.keyPositions.map (input.stored (I.outputRow input.selectList k group)) = k := by
  have hlength : k.length = input.analysis.keyPositions.length := by
    obtain ⟨row, hrow⟩ := Multiset.exists_mem_of_ne_zero hgroup.nonempty
    rw [← hgroup.key row hrow, Interpretation.keysOfRow, h.keyExprSql_eq, List.length_map,
      List.length_map]
  refine List.ext_getElem (by rw [List.length_map, hlength]) fun i hi hi' => ?_
  rw [List.length_map] at hi
  have hmem := List.getElem_mem hi
  have hlt := h.lt_of_mem_keyPositions hmem
  rw [List.getElem_map, hfinds _ hmem k group hgroup,
    getD_outputRow (List.getElem?_eq_getElem hlt),
    itemValue_key h hbinds (List.getElem?_eq_getElem hi) (List.getElem?_eq_getElem hlt) hgroup,
    List.getD_eq_getElem?_getD, List.getElem?_eq_getElem hi', Option.getD_some]

end Rows

end DuckLake
