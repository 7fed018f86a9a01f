import DuckLake.Storage.MetadataInfo

/-!
# Writing partition and sort specifications

A commit collects every partition and sort specification that was requested in the transaction.
`writeNewPartitionKeys` and `writeNewSortKeys` keep the last one of each table, leave out those
that change nothing, and end what was live before. Files may have been written under a partition
specification that was replaced in the same transaction, so these are written as well, already
ended. Both kinds have the same tables: the specifications with their validity, and their fields.
-/

namespace DuckLake

/-- A partition or sort specification; without fields it is a reset. -/
structure SpecInfo (F : Type) where
  id : Option Idx
  tableId : TableIndex
  fields : List F
deriving DecidableEq

def DuckLakePartitionInfo.spec (p : DuckLakePartitionInfo) : SpecInfo DuckLakePartitionFieldInfo :=
  ⟨p.id, p.tableId, p.fields⟩

def DuckLakeSortInfo.spec (s : DuckLakeSortInfo) : SpecInfo DuckLakeSortField :=
  ⟨s.id, s.tableId, s.fields⟩

/-! ## The fields -/

/-- The keys of a specification: their index, and `operator!=`, which does not look at it. -/
class SpecField (F : Type) where
  index : F → Nat
  differs : F → F → Bool
  eq_iff {f g : F} : f = g ↔ index f = index g ∧ differs f g = false

instance : SpecField DuckLakePartitionFieldInfo where
  index f := f.partitionKeyIndex
  differs f g := f.fieldId ≠ g.fieldId || f.transform ≠ g.transform
  eq_iff {f g} := by
    cases f
    cases g
    simp

instance : SpecField DuckLakeSortField where
  index f := f.sortKeyIndex
  differs f g := f.expression ≠ g.expression || f.dialect ≠ g.dialect ||
    f.ascending ≠ g.ascending || f.nullsFirst ≠ g.nullsFirst
  eq_iff {f g} := by
    cases f
    cases g
    simp [and_assoc]

section Fields

variable {F : Type} [SpecField F] {xs ys : List F}

/-- `BuildPartitionData` and `BuildSortData` number the keys. -/
def Numbered (fields : List F) : Prop := fields.map SpecField.index = List.range fields.length

instance (fields : List F) : Decidable (Numbered fields) := inferInstanceAs (Decidable (_ = _))

/-- The comparison of `operator==`. -/
def sameFields (xs ys : List F) : Bool :=
  xs.length = ys.length && (xs.zip ys).all fun f => !SpecField.differs f.1 f.2

theorem Numbered.index (h : Numbered xs) {i : Nat} {f : F} (hi : xs[i]? = some f) :
    SpecField.index f = i := by
  have hmap := congrArg (·[i]?) h
  simp only [List.getElem?_map, hi, Option.map_some] at hmap
  have hlt := (List.getElem?_eq_some_iff.1 hi).1
  rw [List.getElem?_range hlt] at hmap
  exact Option.some.inj hmap

theorem sameFields_iff (hx : Numbered xs) (hy : Numbered ys) :
    sameFields xs ys = true ↔ xs = ys := by
  rw [sameFields, Bool.and_eq_true, decide_eq_true_eq, List.all_eq_true]
  constructor
  · rintro ⟨hlength, hsame⟩
    refine List.ext_getElem hlength fun i hix hiy => ?_
    have hmem : (xs[i], ys[i]) ∈ xs.zip ys :=
      List.mem_of_getElem? (i := i) (List.getElem?_zip_eq_some.2 ⟨by simp, by simp⟩)
    have hindex := (hx.index (List.getElem?_eq_getElem hix)).trans
      (hy.index (List.getElem?_eq_getElem hiy)).symm
    exact SpecField.eq_iff.2 ⟨hindex, by simpa using hsame _ hmem⟩
  · rintro rfl
    refine ⟨rfl, fun f hf => ?_⟩
    obtain ⟨i, hi⟩ := List.getElem?_of_mem hf
    obtain ⟨hfst, hsnd⟩ := List.getElem?_zip_eq_some.1 hi
    simpa using (SpecField.eq_iff.1 (Option.some.inj (hfst.symm.trans hsnd))).2

end Fields

/-! ## The rows -/

/-- A row of `ducklake_partition_info` or `ducklake_sort_info`. -/
structure SpecRow where
  specId : Idx
  tableId : TableIndex
  beginSnapshot : SnapshotId
  endSnapshot : Option SnapshotId
deriving DecidableEq

/-- The specifications, and their fields in the order of their key index. -/
structure SpecTables (F : Type) where
  info : List SpecRow
  columns : List (Idx × F)

/-- What a batch does to these tables: the tables whose live specification is ended, and the
specifications that are inserted, ended or not. -/
structure SpecWrite (F : Type) where
  ended : List TableIndex
  rows : List (SpecInfo F × Bool)

section Tables

variable {F : Type}

def SpecRow.visible (r : SpecRow) (snapshot : SnapshotId) : Bool :=
  r.beginSnapshot ≤ snapshot && r.endSnapshot.all (snapshot < ·)

def SpecRow.endLive (r : SpecRow) (ended : List TableIndex) (snapshot : SnapshotId) : SpecRow :=
  if r.tableId ∈ ended ∧ r.endSnapshot = none then { r with endSnapshot := some snapshot } else r

def SpecInfo.row (spec : SpecInfo F) (superseded : Bool) (snapshot : SnapshotId) : Option SpecRow :=
  spec.id.map fun id => ⟨id, spec.tableId, snapshot, if superseded then some snapshot else none⟩

def SpecInfo.columns (spec : SpecInfo F) : List (Idx × F) :=
  match spec.id with
  | some id => spec.fields.map (id, ·)
  | none => []

namespace SpecTables

def apply (tables : SpecTables F) (snapshot : SnapshotId) (w : SpecWrite F) : SpecTables F where
  info := tables.info.map (·.endLive w.ended snapshot) ++
    w.rows.filterMap fun r => r.1.row r.2 snapshot
  columns := tables.columns ++ w.rows.flatMap fun r => r.1.columns

def fieldsOf (tables : SpecTables F) (id : Idx) : List F :=
  (tables.columns.filter (·.1 = id)).map (·.2)

/-- The specifications that are visible at a snapshot, joined with their fields. -/
def load (tables : SpecTables F) (snapshot : SnapshotId) : List (SpecInfo F) :=
  ((tables.info.filter (·.visible snapshot)).map fun r =>
    ⟨some r.specId, r.tableId, tables.fieldsOf r.specId⟩).filter (!·.fields.isEmpty)

/-- The fields of the specifications of one table. -/
def specsOf (tables : SpecTables F) (snapshot : SnapshotId) (t : TableIndex) : List (List F) :=
  ((tables.load snapshot).filter (·.tableId = t)).map (·.fields)

/-- There is a specification with this id and these fields, whether it is live or not. -/
def HasSpec (tables : SpecTables F) (t : TableIndex) (id : Idx) (fields : List F) : Prop :=
  (∃ r ∈ tables.info, r.specId = id ∧ r.tableId = t) ∧ tables.fieldsOf id = fields

end SpecTables

end Tables

/-! ## The batch -/

section Write

variable {F : Type} [SpecField F]

/-- The last specification of each table. -/
def lastSpecs : List (SpecInfo F) → List (SpecInfo F)
  | [] => []
  | spec :: rest =>
    if rest.any (·.tableId = spec.tableId) then lastSpecs rest else spec :: lastSpecs rest

/-- The specifications that are followed by another one of their table. -/
def supersededSpecs : List (SpecInfo F) → List (SpecInfo F)
  | [] => []
  | spec :: rest =>
    if rest.any (·.tableId = spec.tableId) then spec :: supersededSpecs rest
    else supersededSpecs rest

/-- A specification that the table already has is a nop. -/
def isUnchanged (old : List (SpecInfo F)) (spec : SpecInfo F) : Bool :=
  old.any fun o => o.tableId = spec.tableId && sameFields o.fields spec.fields

/-- A reset of a table that has no specification is a nop too. -/
def isEmptyReset (old new : List (SpecInfo F)) (t : TableIndex) : Bool :=
  old.all (·.tableId ≠ t) && new.any fun n => n.tableId = t && n.fields.isEmpty

def getNewSpecs (old new : List (SpecInfo F)) : List (SpecInfo F) :=
  (lastSpecs new).filter fun spec => !isUnchanged old spec && !isEmptyReset old new spec.tableId

/-- The old specification is ended for every table that gets a current one. -/
def SpecWrite.of (superseded current : List (SpecInfo F)) : SpecWrite F where
  ended := current.map (·.tableId)
  rows := superseded.map (·, true) ++ current.map (·, false)

end Write

def writeNewPartitionKeys (existing new : List (SpecInfo DuckLakePartitionFieldInfo)) :
    SpecWrite DuckLakePartitionFieldInfo :=
  -- files written before another partition change in the same transaction can still reference
  -- the specification before it
  .of ((supersededSpecs new).filter (!·.fields.isEmpty)) (getNewSpecs existing new)

def writeNewSortKeys (existing new : List (SpecInfo DuckLakeSortField)) :
    SpecWrite DuckLakeSortField :=
  .of [] (getNewSpecs existing new)

/-! ## One table -/

section OneTable

variable {F : Type} {t : TableIndex}

theorem lastSpecs_filter (new : List (SpecInfo F)) :
    (lastSpecs new).filter (·.tableId = t) =
      (new.filter (·.tableId = t)).getLast?.toList := by
  induction new with
  | nil => rfl
  | cons spec rest ih =>
    rw [lastSpecs]
    by_cases ht : spec.tableId = t
    · subst ht
      cases hrest : rest.any fun s => decide (s.tableId = spec.tableId) with
      | true =>
        have hne : rest.filter (·.tableId = spec.tableId) ≠ [] := by
          simpa [List.filter_eq_nil_iff] using hrest
        obtain ⟨last, hlast⟩ := Option.isSome_iff_exists.1 (List.getLast?_isSome.2 hne)
        rw [if_pos rfl, ih, List.filter_cons_of_pos (by simp), List.getLast?_cons, hlast]
        rfl
      | false =>
        have hnil : rest.filter (·.tableId = spec.tableId) = [] := by
          simpa [List.filter_eq_nil_iff] using hrest
        rw [if_neg (by simp), List.filter_cons_of_pos (by simp), ih, hnil,
          List.filter_cons_of_pos (by simp), hnil]
        rfl
    · have hskip : ∀ l : List (SpecInfo F), (spec :: l).filter (·.tableId = t) =
          l.filter (·.tableId = t) := fun l => List.filter_cons_of_neg (by simpa using ht)
      split
      · rw [ih, hskip]
      · rw [hskip, ih, hskip]

theorem supersededSpecs_filter (new : List (SpecInfo F)) :
    (supersededSpecs new).filter (·.tableId = t) = (new.filter (·.tableId = t)).dropLast := by
  induction new with
  | nil => rfl
  | cons spec rest ih =>
    rw [supersededSpecs]
    by_cases ht : spec.tableId = t
    · subst ht
      cases hrest : rest.any fun s => decide (s.tableId = spec.tableId) with
      | true =>
        have hne : rest.filter (·.tableId = spec.tableId) ≠ [] := by
          simpa [List.filter_eq_nil_iff] using hrest
        rw [if_pos rfl, List.filter_cons_of_pos (by simp), ih, List.filter_cons_of_pos (by simp),
          List.dropLast_cons_of_ne_nil hne]
      | false =>
        have hnil : rest.filter (·.tableId = spec.tableId) = [] := by
          simpa [List.filter_eq_nil_iff] using hrest
        rw [if_neg (by simp), ih, List.filter_cons_of_pos (by simp), hnil]
        rfl
    · have hskip : ∀ l : List (SpecInfo F), (spec :: l).filter (·.tableId = t) =
          l.filter (·.tableId = t) := fun l => List.filter_cons_of_neg (by simpa using ht)
      split
      · rw [hskip, ih, hskip]
      · rw [ih, hskip]

end OneTable

/-! ## What a write leaves -/

/-- The tables as they stand before the commit of a snapshot. -/
structure SpecTables.Committed {F : Type} (tables : SpecTables F) (snapshot : SnapshotId) : Prop where
  begun : ∀ r ∈ tables.info, r.beginSnapshot ≤ snapshot
  ended : ∀ r ∈ tables.info, ∀ e ∈ r.endSnapshot, e ≤ snapshot
  owned : ∀ c ∈ tables.columns, ∃ r ∈ tables.info, r.specId = c.1

/-- The ids of the written specifications are new, and differ from each other. -/
structure SpecWrite.Fresh {F : Type} (w : SpecWrite F) (tables : SpecTables F) : Prop where
  distinct : (w.rows.filterMap (·.1.id)).Nodup
  unused : ∀ id ∈ w.rows.filterMap (·.1.id), ∀ r ∈ tables.info, r.specId ≠ id

section Apply

variable {F : Type} {tables : SpecTables F} {snapshot : SnapshotId} {w : SpecWrite F}
  {t : TableIndex}

theorem SpecRow.visible_endLive {r : SpecRow} {ended : List TableIndex}
    (hend : ∀ e ∈ r.endSnapshot, e ≤ snapshot) :
    (r.endLive ended snapshot).visible snapshot =
      (r.visible snapshot && !decide (r.tableId ∈ ended)) := by
  unfold endLive visible
  by_cases ht : r.tableId ∈ ended
  · cases he : r.endSnapshot with
    | none => simp [ht]
    | some e =>
      have hle : e ≤ snapshot := hend e he
      simp [ht, he, hle]
  · simp [ht]

theorem SpecInfo.fst_of_mem_columns {spec : SpecInfo F} {c : Idx × F} (h : c ∈ spec.columns) :
    spec.id = some c.1 := by
  unfold columns at h
  split at h
  · rename_i id hid
    obtain ⟨f, -, rfl⟩ := List.mem_map.1 h
    exact hid
  · cases h

namespace SpecTables

theorem fieldsOf_apply_old {id : Idx} (hid : id ∉ w.rows.filterMap (·.1.id)) :
    (tables.apply snapshot w).fieldsOf id = tables.fieldsOf id := by
  have hnone : (w.rows.flatMap fun r => r.1.columns).filter (·.1 = id) = [] := by
    refine List.filter_eq_nil_iff.2 fun c hc heq => hid ?_
    obtain ⟨r, hr, hc⟩ := List.mem_flatMap.1 hc
    refine List.mem_filterMap.2 ⟨r, hr, ?_⟩
    rw [SpecInfo.fst_of_mem_columns hc, of_decide_eq_true heq]
  rw [fieldsOf, apply, List.filter_append, hnone, List.append_nil, fieldsOf]

theorem fieldsOf_rows {rows : List (SpecInfo F × Bool)}
    (hdistinct : (rows.filterMap (·.1.id)).Nodup) {r : SpecInfo F × Bool} (hr : r ∈ rows) {id : Idx}
    (hid : r.1.id = some id) :
    ((rows.flatMap fun r => r.1.columns).filter (·.1 = id)).map (·.2) = r.1.fields := by
  induction rows with
  | nil => cases hr
  | cons q rows ih =>
    rw [List.flatMap_cons, List.filter_append, List.map_append]
    rw [List.filterMap_cons] at hdistinct
    have hother : ∀ {q : SpecInfo F}, q.id ≠ some id → q.columns.filter (·.1 = id) = [] := by
      intro q hq
      refine List.filter_eq_nil_iff.2 fun c hc heq => hq ?_
      rw [SpecInfo.fst_of_mem_columns hc, of_decide_eq_true heq]
    by_cases hq : q.1.id = some id
    · rw [hq] at hdistinct
      obtain ⟨hnot, -⟩ := List.nodup_cons.1 hdistinct
      have hrest : (rows.flatMap fun r => r.1.columns).filter (·.1 = id) = [] := by
        refine List.filter_eq_nil_iff.2 fun c hc heq => hnot ?_
        obtain ⟨p, hp, hc⟩ := List.mem_flatMap.1 hc
        refine List.mem_filterMap.2 ⟨p, hp, ?_⟩
        rw [SpecInfo.fst_of_mem_columns hc, of_decide_eq_true heq]
      have hqr : r = q := by
        rcases List.mem_cons.1 hr with heq | hr
        · exact heq
        · exact absurd (List.mem_filterMap.2 ⟨r, hr, hid⟩) hnot
      subst hqr
      have hcolumns : r.1.columns = r.1.fields.map (id, ·) := by
        unfold SpecInfo.columns
        rw [hq]
      rw [hrest, hcolumns, List.filter_eq_self.2 (by simp)]
      simp
    · have hr' : r ∈ rows := by
        rcases List.mem_cons.1 hr with rfl | hr
        · exact absurd hid hq
        · exact hr
      rw [hother hq, List.map_nil, List.nil_append]
      refine ih ?_ hr'
      cases hqid : q.1.id with
      | none => simpa [hqid] using hdistinct
      | some i =>
        rw [hqid] at hdistinct
        exact (List.nodup_cons.1 hdistinct).2

theorem fieldsOf_apply_new (hc : tables.Committed snapshot) (hf : w.Fresh tables)
    {r : SpecInfo F × Bool} (hr : r ∈ w.rows) {id : Idx} (hid : r.1.id = some id) :
    (tables.apply snapshot w).fieldsOf id = r.1.fields := by
  have hold : tables.columns.filter (·.1 = id) = [] := by
    refine List.filter_eq_nil_iff.2 fun c hmem heq => ?_
    obtain ⟨row, hrow, hspec⟩ := hc.owned c hmem
    refine hf.unused id (List.mem_filterMap.2 ⟨r, hr, hid⟩) row hrow ?_
    rw [hspec, of_decide_eq_true heq]
  rw [fieldsOf, apply, List.filter_append, hold, List.nil_append]
  exact fieldsOf_rows hf.distinct hr hid

/-- A write takes away no specification. -/
theorem HasSpec.apply (hf : w.Fresh tables) {id : Idx} {fields : List F}
    (h : tables.HasSpec t id fields) : (tables.apply snapshot w).HasSpec t id fields := by
  obtain ⟨⟨r, hr, rfl, ht⟩, hfields⟩ := h
  refine ⟨⟨r.endLive w.ended snapshot, ?_, ?_, ?_⟩, ?_⟩
  · exact List.mem_append_left _ (List.mem_map_of_mem hr)
  · unfold SpecRow.endLive
    split <;> rfl
  · unfold SpecRow.endLive
    split <;> exact ht
  · rw [← hfields]
    exact fieldsOf_apply_old fun hmem => hf.unused r.specId hmem r hr rfl

theorem specsOf_eq : tables.specsOf snapshot t =
    ((tables.info.filter fun r => r.visible snapshot && decide (r.tableId = t)).map fun r =>
      tables.fieldsOf r.specId).filter (!·.isEmpty) := by
  simp only [specsOf, load, List.filter_map, List.map_map, List.filter_filter, Function.comp_def]
  rw [List.map_congr_left fun r _ => rfl]
  congr 1
  refine List.filter_congr fun r _ => ?_
  cases r.visible snapshot <;> cases decide (r.tableId = t) <;> simp

/-- The rows of a table that were there before. -/
theorem visible_old (hc : tables.Committed snapshot) (hf : w.Fresh tables) :
    (((tables.info.map (·.endLive w.ended snapshot)).filter fun r =>
        r.visible snapshot && decide (r.tableId = t)).map fun r =>
      (tables.apply snapshot w).fieldsOf r.specId) =
      if t ∈ w.ended then []
      else (tables.info.filter fun r => r.visible snapshot && decide (r.tableId = t)).map fun r =>
        tables.fieldsOf r.specId := by
  have hid : ∀ r : SpecRow, (r.endLive w.ended snapshot).specId = r.specId := by
    intro r
    unfold SpecRow.endLive
    split <;> rfl
  have htable : ∀ r : SpecRow, (r.endLive w.ended snapshot).tableId = r.tableId := by
    intro r
    unfold SpecRow.endLive
    split <;> rfl
  have hfields : ∀ r ∈ tables.info,
      (tables.apply snapshot w).fieldsOf r.specId = tables.fieldsOf r.specId :=
    fun r hr => fieldsOf_apply_old fun hmem => hf.unused _ hmem r hr rfl
  have hfilter : tables.info.filter (fun r => (r.endLive w.ended snapshot).visible snapshot &&
      decide ((r.endLive w.ended snapshot).tableId = t)) =
      if t ∈ w.ended then []
      else tables.info.filter fun r => r.visible snapshot && decide (r.tableId = t) := by
    split
    · rename_i ht
      refine List.filter_eq_nil_iff.2 fun r hr => ?_
      rw [SpecRow.visible_endLive (hc.ended r hr), htable]
      by_cases heq : r.tableId = t
      · simp [heq, ht]
      · simp [heq]
    · rename_i ht
      refine List.filter_congr fun r hr => ?_
      rw [SpecRow.visible_endLive (hc.ended r hr), htable]
      by_cases heq : r.tableId = t
      · simp [heq, ht]
      · simp [heq]
  rw [List.filter_map, List.map_map]
  simp only [Function.comp_def, hid, hfilter]
  split
  · rfl
  · exact List.map_congr_left fun r hr => hfields r (List.mem_of_mem_filter hr)

/-- The rows of a table that a write brings. -/
theorem visible_new (hc : tables.Committed snapshot) (hf : w.Fresh tables) :
    (((w.rows.filterMap fun r => r.1.row r.2 snapshot).filter fun r =>
        r.visible snapshot && decide (r.tableId = t)).map fun r =>
      (tables.apply snapshot w).fieldsOf r.specId) =
      (w.rows.filter fun r => !r.2 && r.1.id.isSome && decide (r.1.tableId = t)).map
        (·.1.fields) := by
  have hfields : ∀ r ∈ w.rows, ∀ id, r.1.id = some id →
      (tables.apply snapshot w).fieldsOf id = r.1.fields :=
    fun r hr id hid => fieldsOf_apply_new hc hf hr hid
  generalize (tables.apply snapshot w).fieldsOf = fields at hfields
  generalize w.rows = rows at hfields
  induction rows with
  | nil => rfl
  | cons q rows ih =>
    have ih := ih fun r hr => hfields r (List.mem_cons_of_mem _ hr)
    cases hid : q.1.id with
    | none =>
      rw [List.filterMap_cons_none (by simp [SpecInfo.row, hid]), ih,
        List.filter_cons_of_neg (by simp [hid])]
    | some id =>
      have hq := hfields q (by simp) id hid
      have hrow : q.1.row q.2 snapshot =
          some ⟨id, q.1.tableId, snapshot, if q.2 then some snapshot else none⟩ := by
        simp [SpecInfo.row, hid]
      simp only [List.filterMap_cons, hrow]
      by_cases hsel : (!q.2 && decide (q.1.tableId = t)) = true
      · obtain ⟨hlive, ht⟩ := Bool.and_eq_true_iff.1 hsel
        have hlive : q.2 = false := by simpa using hlive
        have ht : q.1.tableId = t := of_decide_eq_true ht
        rw [List.filter_cons_of_pos (by simp [SpecRow.visible, hlive, ht]), List.map_cons, ih,
          List.filter_cons_of_pos (by simp [hlive, hid, ht]), List.map_cons]
        exact congrArg (· :: _) hq
      · rw [List.filter_cons_of_neg, ih, List.filter_cons_of_neg]
        · simpa [hid] using hsel
        · cases hlive : q.2 with
          | true => simp [SpecRow.visible]
          | false => simpa [SpecRow.visible, hlive] using hsel

/-- The visible specifications after a write: those of the tables that were not ended, and the
written ones that are not ended already. -/
theorem specsOf_apply (hc : tables.Committed snapshot) (hf : w.Fresh tables) :
    (tables.apply snapshot w).specsOf snapshot t =
      (if t ∈ w.ended then [] else tables.specsOf snapshot t) ++
        ((w.rows.filter fun r => !r.2 && r.1.id.isSome && decide (r.1.tableId = t)).map
          (·.1.fields)).filter (!·.isEmpty) := by
  rw [specsOf_eq]
  change ((((tables.info.map (·.endLive w.ended snapshot)) ++
    w.rows.filterMap fun r => r.1.row r.2 snapshot).filter _).map _).filter _ = _
  rw [List.filter_append, List.map_append, List.filter_append, visible_old hc hf,
    visible_new hc hf, specsOf_eq]
  congr 1
  split <;> rfl

end SpecTables

end Apply

/-! ## The outcome for one table -/

theorem eq_of_nodup_filterMap {α β : Type} {f : α → Option β} {l : List α}
    (h : (l.filterMap f).Nodup) {a b : α} (ha : a ∈ l) (hb : b ∈ l) {i : β} (hfa : f a = some i)
    (hfb : f b = some i) : a = b := by
  induction l with
  | nil => cases ha
  | cons c l ih =>
    cases hc : f c with
    | none =>
      rw [List.filterMap_cons_none hc] at h
      rcases List.mem_cons.1 ha with rfl | ha
      · exact absurd (hfa.symm.trans hc) nofun
      rcases List.mem_cons.1 hb with rfl | hb
      · exact absurd (hfb.symm.trans hc) nofun
      exact ih h ha hb
    | some j =>
      rw [List.filterMap_cons_some hc] at h
      obtain ⟨hnot, h⟩ := List.nodup_cons.1 h
      have hmem : ∀ {d : α}, d ∈ l → f d = some i → j ≠ i := by
        rintro d hd hfd rfl
        exact hnot (List.mem_filterMap.2 ⟨d, hd, hfd⟩)
      rcases List.mem_cons.1 ha with rfl | ha'
      · rcases List.mem_cons.1 hb with rfl | hb'
        · rfl
        · exact absurd (Option.some.inj (hc.symm.trans hfa)) (hmem hb' hfb)
      · rcases List.mem_cons.1 hb with rfl | hb'
        · exact absurd (Option.some.inj (hc.symm.trans hfb)) (hmem ha' hfa)
        · exact ih h ha' hb'

/-- The specifications of a table that has this one; no fields stand for none. -/
def specList {F : Type} (fields : List F) : List (List F) := [fields].filter (!·.isEmpty)

section Outcome

variable {F : Type}

theorem mem_specList {fields fields' : List F} :
    fields ∈ specList fields' ↔ fields = fields' ∧ fields' ≠ [] := by
  simp only [specList, List.mem_filter, List.mem_singleton, Bool.not_eq_true',
    List.isEmpty_eq_false_iff]
  exact and_congr_right fun h => h ▸ Iff.rfl

theorem specList_injective {a b : List F} (h : specList a = specList b) : a = b := by
  by_cases ha : a = []
  · by_cases hb : b = []
    · rw [ha, hb]
    · have hmem : b ∈ specList a := h ▸ mem_specList.2 ⟨rfl, hb⟩
      exact (mem_specList.1 hmem).1.symm
  · have hmem : a ∈ specList b := h ▸ mem_specList.2 ⟨rfl, ha⟩
    exact (mem_specList.1 hmem).1

/-- What the requests of a transaction make of the committed specification of a table: the last
one wins, unless there was none and one of the requests is a reset. -/
def finalSpec [DecidableEq F] (committed : List F) (requested : List (List F)) : List F :=
  match requested.getLast? with
  | none => committed
  | some last => if committed = [] ∧ [] ∈ requested then [] else last

/-- The ids of the new specifications are not in use. -/
structure FreshSpecs {F : Type} (new : List (SpecInfo F)) (tables : SpecTables F) : Prop where
  distinct : (new.filterMap (·.id)).Nodup
  unused : ∀ id ∈ new.filterMap (·.id), ∀ r ∈ tables.info, r.specId ≠ id
  ids : ∀ spec ∈ new, spec.fields ≠ [] → spec.id.isSome = true

theorem perm_supersededSpecs (new : List (SpecInfo F)) :
    (supersededSpecs new ++ lastSpecs new).Perm new := by
  induction new with
  | nil => rfl
  | cons spec rest ih =>
    rw [supersededSpecs, lastSpecs]
    split
    · exact ih.cons spec
    · exact List.perm_middle.trans (ih.cons spec)

variable {tables : SpecTables F} {snapshot : SnapshotId} {new : List (SpecInfo F)}
  {superseded : List (SpecInfo F)} {t : TableIndex}

theorem FreshSpecs.write [SpecField F] {old : List (SpecInfo F)} (h : FreshSpecs new tables)
    (hsup : superseded.Sublist (supersededSpecs new)) :
    (SpecWrite.of superseded (getNewSpecs old new)).Fresh tables := by
  have hrows : (SpecWrite.of superseded (getNewSpecs old new)).rows.filterMap (·.1.id) =
      (superseded ++ getNewSpecs old new).filterMap (·.id) := by
    simp [SpecWrite.of, List.filterMap_append, List.filterMap_map]
  have hsub : (superseded ++ getNewSpecs old new).Sublist (supersededSpecs new ++ lastSpecs new) :=
    hsup.append List.filter_sublist
  have hperm := (perm_supersededSpecs new).filterMap (·.id)
  constructor
  · rw [hrows]
    exact (hperm.nodup_iff.2 h.distinct).sublist (hsub.filterMap _)
  · intro id hid
    rw [hrows] at hid
    exact h.unused id (hperm.subset ((hsub.filterMap _).subset hid))

theorem isUnchanged_load [SpecField F] (tables : SpecTables F) (snapshot : SnapshotId)
    {spec : SpecInfo F} (ht : spec.tableId = t) (hspec : Numbered spec.fields)
    (hold : ∀ fields ∈ tables.specsOf snapshot t, Numbered fields) :
    isUnchanged (tables.load snapshot) spec = true ↔ spec.fields ∈ tables.specsOf snapshot t := by
  simp only [isUnchanged, List.any_eq_true, Bool.and_eq_true, decide_eq_true_eq, ht]
  have hmem : ∀ o ∈ tables.load snapshot, o.tableId = t →
      o.fields ∈ tables.specsOf snapshot t := fun o ho htable =>
    List.mem_map_of_mem (List.mem_filter.2 ⟨ho, decide_eq_true htable⟩)
  constructor
  · rintro ⟨o, ho, htable, hsame⟩
    rw [← (sameFields_iff (hold _ (hmem o ho htable)) hspec).1 hsame]
    exact hmem o ho htable
  · intro h
    obtain ⟨o, ho, hfields⟩ := List.mem_map.1 h
    obtain ⟨ho, htable⟩ := List.mem_filter.1 ho
    refine ⟨o, ho, of_decide_eq_true htable, ?_⟩
    rw [hfields]
    exact (sameFields_iff hspec hspec).2 rfl

theorem isEmptyReset_load (tables : SpecTables F) (snapshot : SnapshotId)
    (new : List (SpecInfo F)) (t : TableIndex) :
    isEmptyReset (tables.load snapshot) new t = true ↔ tables.specsOf snapshot t = [] ∧
      [] ∈ (new.filter (·.tableId = t)).map (·.fields) := by
  simp only [isEmptyReset, Bool.and_eq_true, List.all_eq_true, List.any_eq_true,
    decide_eq_true_eq, SpecTables.specsOf, List.map_eq_nil_iff, List.filter_eq_nil_iff,
    List.mem_map, List.mem_filter, List.isEmpty_iff]
  refine and_congr Iff.rfl ?_
  constructor
  · rintro ⟨n, hn, ht, hfields⟩
    exact ⟨n, ⟨hn, ht⟩, hfields⟩
  · rintro ⟨n, ⟨hn, ht⟩, hfields⟩
    exact ⟨n, hn, ht, hfields⟩

/-- The specification that is written as current for a table. -/
theorem getNewSpecs_filter [DecidableEq F] [SpecField F] {new : List (SpecInfo F)} (committed : List F)
    (hcommitted : tables.specsOf snapshot t = specList committed) (hold : Numbered committed)
    (hnew : ∀ spec ∈ new.filter (·.tableId = t), Numbered spec.fields) :
    (getNewSpecs (tables.load snapshot) new).filter (·.tableId = t) =
      (new.filter (·.tableId = t)).getLast?.toList.filter fun spec =>
        !decide (spec.fields = committed ∧ committed ≠ []) && !decide (committed = [] ∧
          [] ∈ (new.filter (·.tableId = t)).map (·.fields)) := by
  have hempty : specList committed = [] ↔ committed = [] := by
    simp [specList, List.filter_eq_nil_iff]
  rw [getNewSpecs, List.filter_filter, ← lastSpecs_filter, List.filter_filter]
  refine List.filter_congr fun spec hspec => ?_
  by_cases ht : spec.tableId = t
  · have hmem := (perm_supersededSpecs new).subset (List.mem_append_right _ hspec)
    have hunchanged := isUnchanged_load tables snapshot ht
      (hnew spec (List.mem_filter.2 ⟨hmem, decide_eq_true ht⟩)) fun fields hfields => by
        rw [hcommitted, mem_specList] at hfields
        exact hfields.1 ▸ hold
    have hreset := isEmptyReset_load tables snapshot new t
    rw [hcommitted, mem_specList] at hunchanged
    rw [hcommitted, hempty] at hreset
    rw [ht, Bool.eq_iff_iff.2 (hunchanged.trans decide_eq_true_iff.symm),
      Bool.eq_iff_iff.2 (hreset.trans decide_eq_true_iff.symm)]
    simp [Bool.and_comm]
  · simp [ht]

/-- The current rows of one table in a write. -/
theorem current_rows (current : List (SpecInfo F)) :
    ((SpecWrite.of superseded current).rows.filter fun r =>
      !r.2 && r.1.id.isSome && decide (r.1.tableId = t)).map (·.1.fields) =
      ((current.filter (·.tableId = t)).filter (·.id.isSome)).map (·.fields) := by
  have hsuperseded : (superseded.map (·, true)).filter (fun r : SpecInfo F × Bool =>
      !r.2 && r.1.id.isSome && decide (r.1.tableId = t)) = [] := by
    refine List.filter_eq_nil_iff.2 fun r hr => ?_
    obtain ⟨spec, -, rfl⟩ := List.mem_map.1 hr
    simp
  rw [SpecWrite.of, List.filter_append, hsuperseded, List.nil_append, List.filter_map,
    List.map_map, List.filter_filter]
  rfl

theorem mem_ended {current : List (SpecInfo F)} :
    t ∈ (SpecWrite.of superseded current).ended ↔ current.filter (·.tableId = t) ≠ [] := by
  simp only [SpecWrite.of, List.mem_map, ne_eq, List.filter_eq_nil_iff, decide_eq_true_eq]
  push Not
  rfl

/-- What is visible of a table after its specifications have been written. -/
theorem specsOf_write [DecidableEq F] [SpecField F] (hc : tables.Committed snapshot)
    (hf : FreshSpecs new tables) (hsup : superseded.Sublist (supersededSpecs new)) {committed : List F}
    (hcommitted : tables.specsOf snapshot t = specList committed) (hold : Numbered committed)
    (hnew : ∀ spec ∈ new.filter (·.tableId = t), Numbered spec.fields) :
    (tables.apply snapshot (.of superseded (getNewSpecs (tables.load snapshot) new))).specsOf
        snapshot t =
      specList (finalSpec committed ((new.filter (·.tableId = t)).map (·.fields))) := by
  have hcurrent := getNewSpecs_filter committed hcommitted hold hnew
  rw [SpecTables.specsOf_apply hc (hf.write hsup), current_rows, hcommitted]
  simp only [mem_ended, hcurrent, finalSpec, List.getLast?_map]
  cases hlast : (new.filter (·.tableId = t)).getLast? with
  | none => simp
  | some last =>
    have hmem : last ∈ new := List.mem_of_mem_filter (List.mem_of_getLast? hlast)
    have hid := hf.ids last hmem
    by_cases hreset : committed = [] ∧ [] ∈ (new.filter (·.tableId = t)).map (·.fields)
    · simp [hreset, specList]
    · by_cases hsame : last.fields = committed ∧ committed ≠ []
      · simp [hsame]
      · have hkeep : (some last).toList.filter (fun spec =>
            !decide (spec.fields = committed ∧ committed ≠ []) && !decide (committed = [] ∧
              [] ∈ (new.filter (·.tableId = t)).map (·.fields))) = [last] := by
          simp only [Option.toList_some]
          refine List.filter_eq_self.2 fun spec hspec => ?_
          rw [List.mem_singleton.1 hspec, decide_eq_false hsame, decide_eq_false hreset]
          rfl
        simp only [hkeep, Option.map_some]
        rw [if_pos (by simp), if_neg hreset, List.nil_append]
        by_cases hempty : last.fields = []
        · cases hlastid : last.id <;> simp [hlastid, specList, hempty]
        · simp [specList, hid hempty]

theorem FreshSpecs.eq_of_id (h : FreshSpecs new tables) {a b : SpecInfo F} (ha : a ∈ new)
    (hb : b ∈ new) {id : Idx} (hida : a.id = some id) (hidb : b.id = some id) : a = b :=
  eq_of_nodup_filterMap h.distinct ha hb hida hidb

/-- A requested specification has its row exactly when it was written. -/
theorem hasSpec_write_iff [SpecField F] (hc : tables.Committed snapshot) (hf : FreshSpecs new tables)
    (hsup : superseded.Sublist (supersededSpecs new)) {old : List (SpecInfo F)} {spec : SpecInfo F}
    (hspec : spec ∈ new) {id : Idx} (hid : spec.id = some id) :
    (tables.apply snapshot (.of superseded (getNewSpecs old new))).HasSpec spec.tableId id
        spec.fields ↔
      spec ∈ superseded ∨ spec ∈ getNewSpecs old new := by
  have hperm := perm_supersededSpecs new
  have hrows : ∀ r, r ∈ (SpecWrite.of superseded (getNewSpecs old new)).rows →
      r.1 ∈ superseded ∨ r.1 ∈ getNewSpecs old new := by
    intro r hr
    rcases List.mem_append.1 hr with hr | hr
    · obtain ⟨s, hs, rfl⟩ := List.mem_map.1 hr
      exact .inl hs
    · obtain ⟨s, hs, rfl⟩ := List.mem_map.1 hr
      exact .inr hs
  constructor
  · rintro ⟨⟨r, hr, hrid, -⟩, -⟩
    rcases List.mem_append.1 hr with hr | hr
    · obtain ⟨r₀, hr₀, rfl⟩ := List.mem_map.1 hr
      have hsame : (r₀.endLive (SpecWrite.of superseded (getNewSpecs old new)).ended
          snapshot).specId = r₀.specId := by
        unfold SpecRow.endLive
        split <;> rfl
      exact absurd (hsame.symm.trans hrid)
        (hf.unused id (List.mem_filterMap.2 ⟨spec, hspec, hid⟩) r₀ hr₀)
    · obtain ⟨q, hq, hrow⟩ := List.mem_filterMap.1 hr
      obtain ⟨i, hi, rfl⟩ := Option.map_eq_some_iff.1 hrow
      have hqspec : q.1 = spec := by
        refine hf.eq_of_id ?_ hspec (hi.trans (congrArg some hrid)) hid
        rcases hrows q hq with hq | hq
        · exact hperm.subset (List.mem_append_left _ (hsup.subset hq))
        · exact hperm.subset (List.mem_append_right _ (List.mem_of_mem_filter hq))
      exact hqspec ▸ hrows q hq
  · intro h
    obtain ⟨r, hr, rfl⟩ : ∃ r ∈ (SpecWrite.of superseded (getNewSpecs old new)).rows, r.1 = spec := by
      rcases h with h | h
      · exact ⟨_, List.mem_append_left _ (List.mem_map_of_mem h), rfl⟩
      · exact ⟨_, List.mem_append_right _ (List.mem_map_of_mem h), rfl⟩
    refine ⟨⟨⟨id, r.1.tableId, snapshot, if r.2 then some snapshot else none⟩, ?_, rfl, rfl⟩,
      SpecTables.fieldsOf_apply_new hc (hf.write hsup) hr hid⟩
    refine List.mem_append_right _ (List.mem_filterMap.2 ⟨r, hr, ?_⟩)
    exact Option.map_eq_some_iff.2 ⟨id, hid, rfl⟩

end Outcome

end DuckLake
