import DuckLake.Lib.Grouping
import DuckLake.Lib.Guard
import DuckLake.Storage.NotNullWrites
import DuckLake.Storage.WrittenIds

/-!
# What the write statistics say about NULLs

A column without fields gets statistics with the exact number of its NULLs, a column with fields
gets none under its own field. This is shown for both write paths, and from it which batches each of
them accepts.
-/

namespace DuckLake

/-! ## Maps of statistics -/

section Maps

variable {κ β : Type} [LinearOrder κ] {key k : κ} {value : β} {l : List (κ × β)}

theorem lookup_insertSorted : (insertSorted key value l).lookup k =
    if k = key then some value else l.lookup k := by
  induction l with
  | nil => exact lookup_cons_ite
  | cons entry l ih =>
    rw [insertSorted]
    split
    · exact lookup_cons_ite
    · split
      · rename_i heq
        rw [lookup_cons_ite, lookup_cons_ite, ← heq]
        split <;> rfl
      · rename_i hne
        rw [lookup_cons_ite, lookup_cons_ite, ih]
        by_cases hk : k = key
        · simp [hk, hne]
        · simp [hk]

end Maps

variable {field key : FieldIndex} {new : DuckLakeColumnStats}
  {entries acc : List (FieldIndex × DuckLakeColumnStats)}

theorem lookup_emplaceStats : (emplaceStats field new entries).lookup key =
    if key = field then some ((entries.lookup field).getD new) else entries.lookup key := by
  unfold emplaceStats
  split
  · rename_i hsome
    obtain ⟨stats, hstats⟩ := Option.isSome_iff_exists.1 hsome
    by_cases hk : key = field <;> simp [hk, hstats]
  · rename_i hnone
    have hnone : entries.lookup field = none := Option.not_isSome_iff_eq_none.1 hnone
    rw [lookup_insertSorted, hnone]
    rfl

/-- Of several entries under one key, the first one stays. -/
theorem lookup_foldl_emplaceStats :
    (entries.foldl (fun result entry => emplaceStats entry.1 entry.2 result) acc).lookup key =
      (acc.lookup key).or (entries.lookup key) := by
  induction entries generalizing acc with
  | nil => simp
  | cons entry entries ih =>
    rw [List.foldl_cons, ih, lookup_emplaceStats, lookup_cons_ite]
    by_cases hk : key = entry.1
    · subst hk
      cases acc.lookup entry.1 <;> simp
    · simp [hk]

theorem mem_of_mem_emplaceStats {e : FieldIndex × DuckLakeColumnStats}
    (h : e ∈ emplaceStats field new entries) : e = (field, new) ∨ e ∈ entries := by
  unfold emplaceStats at h
  split at h
  · exact .inr h
  · exact mem_insertSorted h

theorem mem_of_mem_foldl_emplaceStats {e : FieldIndex × DuckLakeColumnStats}
    (h : e ∈ entries.foldl (fun result entry => emplaceStats entry.1 entry.2 result) acc) :
    e ∈ acc ∨ e ∈ entries := by
  induction entries generalizing acc with
  | nil => exact .inl h
  | cons entry entries ih =>
    rcases ih h with h | h
    · rcases mem_of_mem_emplaceStats h with rfl | h
      · exact .inr List.mem_cons_self
      · exact .inl h
    · exact .inr (List.mem_cons_of_mem _ h)

theorem lookup_isSome_iff : (entries.lookup key).isSome ↔ ∃ e ∈ entries, e.1 = key := by
  induction entries with
  | nil => simp
  | cons entry entries ih =>
    rw [lookup_cons_ite]
    by_cases hk : key = entry.1
    · simp [hk]
    · simp [hk, ih, Ne.symm hk]

/-! ## Exact NULL counts -/

/-- The statistics have an exact number of NULLs. -/
structure ExactNulls (stats : DuckLakeColumnStats) (n : Nat) : Prop where
  has : stats.hasNullCount = true
  count : stats.nullCount = n

/-- The statistics say that there is no NULL. -/
def ZeroNulls (stats : DuckLakeColumnStats) : Prop :=
  stats.hasNullCount = true ∧ stats.nullCount = 0

theorem ExactNulls.zeroNulls_iff {stats : DuckLakeColumnStats} {n : Nat} (h : ExactNulls stats n) :
    ZeroNulls stats ↔ n = 0 := by
  simp [ZeroNulls, h.has, h.count]

theorem ExactNulls.clearBounds {stats : DuckLakeColumnStats} {n : Nat} (h : ExactNulls stats n) :
    ExactNulls stats.clearBounds n := ⟨h.has, h.count⟩

theorem ExactNulls.clearIf {stats : DuckLakeColumnStats} {n : Nat} (h : ExactNulls stats n)
    (c : Prop) [Decidable c] : ExactNulls (if c then stats.clearBounds else stats) n := by
  split
  · exact h.clearBounds
  · exact h

section Merge

variable [StatsMerge] (stats new : DuckLakeColumnStats)

/-- The bounds are merged without a look at the counts. -/
theorem counts_mergeStats : (stats.mergeStats new).hasNullCount =
      (stats.mergeCounts new).hasNullCount ∧
    (stats.mergeStats new).nullCount = (stats.mergeCounts new).nullCount := by
  have hextra : ∀ a b : DuckLakeColumnStats, (a.mergeExtraStats b).hasNullCount = a.hasNullCount ∧
      (a.mergeExtraStats b).nullCount = a.nullCount := by
    intro a b
    unfold DuckLakeColumnStats.mergeExtraStats
    split <;> exact ⟨rfl, rfl⟩
  have hmin : ∀ a b : DuckLakeColumnStats, (a.mergeMin b).hasNullCount = a.hasNullCount ∧
      (a.mergeMin b).nullCount = a.nullCount := by
    intro a b
    unfold DuckLakeColumnStats.mergeMin
    (repeat' split) <;> exact ⟨rfl, rfl⟩
  have hmax : ∀ a b : DuckLakeColumnStats, (a.mergeMax b).hasNullCount = a.hasNullCount ∧
      (a.mergeMax b).nullCount = a.nullCount := by
    intro a b
    unfold DuckLakeColumnStats.mergeMax
    (repeat' split) <;> exact ⟨rfl, rfl⟩
  unfold DuckLakeColumnStats.mergeStats
  dsimp only
  split
  · split <;> exact ⟨rfl, rfl⟩
  · split
    · split <;> exact ⟨rfl, rfl⟩
    · rw [(hextra _ _).1, (hextra _ _).2]
      split
      · rw [(hmax _ _).1, (hmax _ _).2]
        exact hmin _ _
      · exact ⟨rfl, rfl⟩

theorem hasNullCount_mergeStats :
    (stats.mergeStats new).hasNullCount = (stats.hasNullCount && new.hasNullCount) :=
  (counts_mergeStats stats new).1

theorem nullCount_mergeStats : (stats.mergeStats new).nullCount =
    if stats.hasNullCount && new.hasNullCount then stats.nullCount + new.nullCount
    else stats.nullCount := (counts_mergeStats stats new).2

variable {stats new} {m n : Nat}

theorem ExactNulls.mergeStats (h : ExactNulls stats m) (hnew : ExactNulls new n) :
    ExactNulls (stats.mergeStats new) (m + n) := by
  constructor
  · rw [hasNullCount_mergeStats, h.has, hnew.has]
    rfl
  · rw [nullCount_mergeStats, h.has, hnew.has, h.count, hnew.count]
    rfl

theorem zeroNulls_mergeStats :
    ZeroNulls (stats.mergeStats new) ↔ ZeroNulls stats ∧ ZeroNulls new := by
  rw [ZeroNulls, hasNullCount_mergeStats, nullCount_mergeStats]
  cases hs : stats.hasNullCount <;> cases hn : new.hasNullCount <;> simp [ZeroNulls, hs, hn]

end Merge

/-! ## Field ids -/

theorem DuckLakeFieldId.childFieldIds_eq (fields : List DuckLakeFieldId) :
    childFieldIds fields = fields.flatMap fieldIds := by
  induction fields with
  | nil => rfl
  | cons field fields ih => rw [childFieldIds, ih, List.flatMap_cons]

theorem DuckLakeFieldId.id_mem_fieldIds (field : DuckLakeFieldId) :
    field.columnData.id ∈ field.fieldIds := by
  obtain ⟨data, name, type, children⟩ := field
  exact List.mem_cons_self

theorem DuckLakeFieldId.fieldIds_eq (field : DuckLakeFieldId) :
    field.fieldIds = field.columnData.id :: childFieldIds field.children := by
  obtain ⟨data, name, type, children⟩ := field
  rfl

namespace ValidFields

variable {fields : List DuckLakeFieldId} (h : ValidFields fields) {i j : Nat}
  {field root : DuckLakeFieldId}

include h

/-- The fields of different columns have different ids. -/
theorem eq_of_mem_fieldIds {k : FieldIndex} (hi : fields[i]? = some field)
    (hj : fields[j]? = some root) (hk : k ∈ field.fieldIds) (hk' : k ∈ root.fieldIds) : i = j := by
  have hids := h.ids
  rw [DuckLakeFieldId.childFieldIds_eq] at hids
  by_contra hne
  obtain ⟨hi', rfl⟩ := List.getElem?_eq_some_iff.1 hi
  obtain ⟨hj', rfl⟩ := List.getElem?_eq_some_iff.1 hj
  have hdisjoint := List.pairwise_iff_getElem.1 (List.nodup_flatMap.1 hids).2
  rcases Nat.lt_or_gt_of_ne hne with hlt | hlt
  · exact hdisjoint i j hi' hj' hlt hk hk'
  · exact hdisjoint j i hj' hi' hlt hk' hk

/-- The fields below a column do not have its id. -/
theorem id_notMem_children (hi : fields[i]? = some field) :
    field.columnData.id ∉ DuckLakeFieldId.childFieldIds field.children := by
  have hids := h.ids
  rw [DuckLakeFieldId.childFieldIds_eq] at hids
  have hnodup := (List.nodup_flatMap.1 hids).1 field (List.mem_of_getElem? hi)
  rw [field.fieldIds_eq] at hnodup
  exact (List.nodup_cons.1 hnodup).1

theorem eq_of_fold_name (hi : fields[i]? = some field) (hj : fields[j]? = some root)
    (hname : field.name.fold = root.name.fold) : i = j := by
  by_contra hne
  obtain ⟨hi', rfl⟩ := List.getElem?_eq_some_iff.1 hi
  obtain ⟨hj', rfl⟩ := List.getElem?_eq_some_iff.1 hj
  have hdistinct := List.pairwise_iff_getElem.1 h.names
  rcases Nat.lt_or_gt_of_ne hne with hlt | hlt
  · exact hdistinct i j hi' hj' hlt hname
  · exact hdistinct j i hj' hi' hlt hname.symm

end ValidFields

/-! ## The inlined path -/

namespace DuckLakeBaseColumnStats

mutual

/-- The fields for which statistics may be kept below a column. -/
def ids : DuckLakeBaseColumnStats → List FieldIndex
  | mk fieldId _ _ children => fieldId :: childIds children

def childIds : List DuckLakeBaseColumnStats → List FieldIndex
  | [] => []
  | stats :: rest => stats.ids ++ childIds rest

end

mutual

theorem finalStats_subset :
    (stats : DuckLakeBaseColumnStats) → (finalStats stats).map (·.1) ⊆ stats.ids
  | mk fieldId stats hasStats children => by
    have hchildren := finalChildStats_subset children
    rw [finalStats, List.map_append, ids]
    intro k hk
    rcases List.mem_append.1 hk with hk | hk
    · cases hasStats with
      | false => simp at hk
      | true =>
        obtain rfl : k = fieldId := by simpa using hk
        exact List.mem_cons_self
    · exact List.mem_cons_of_mem _ (hchildren hk)

theorem finalChildStats_subset :
    (stats : List DuckLakeBaseColumnStats) → (finalChildStats stats).map (·.1) ⊆ childIds stats
  | [] => List.nil_subset _
  | stats :: rest => by
    rw [finalChildStats, List.map_append, childIds]
    exact List.append_subset.2
      ⟨List.Subset.trans (finalStats_subset stats) (List.subset_append_left _ _),
        List.Subset.trans (finalChildStats_subset rest) (List.subset_append_right _ _)⟩

end

end DuckLakeBaseColumnStats

section Inlined

variable [WriteStatistics] {skipped : List FieldIndex}

theorem exactNulls_getVectorStats (type : LogicalTypeId) (vector : List Datum) :
    ExactNulls (getVectorStats type vector) (nullCount vector) := by
  unfold getVectorStats
  dsimp only
  split <;> exact ⟨rfl, rfl⟩

mutual

/-- Statistics are only kept for fields of the column. -/
theorem ids_updateStats {K : List FieldIndex} :
    (field : DuckLakeFieldId) → (vector : List Datum) → (stats : Option DuckLakeBaseColumnStats) →
      field.fieldIds ⊆ K → (∀ s ∈ stats, s.ids ⊆ K) → (updateStats skipped field vector stats).ids ⊆ K
  | ⟨data, name, type, children⟩, vector, stats, hfield, hstats => by
    have hid : data.id ∈ K := hfield List.mem_cons_self
    have hbase : ((stats.getD (.start ⟨data, name, type, children⟩))).ids ⊆ K := by
      cases stats with
      | none => simpa [DuckLakeBaseColumnStats.start, DuckLakeBaseColumnStats.ids,
          DuckLakeBaseColumnStats.childIds] using hid
      | some s => exact hstats s rfl
    generalize hb : stats.getD (.start ⟨data, name, type, children⟩) = base at hbase
    obtain ⟨fieldId, st, hasStats, kids⟩ := base
    rw [DuckLakeBaseColumnStats.ids, List.cons_subset] at hbase
    cases type with
    | primitive t =>
      rw [updateStats, hb]
      exact List.cons_subset.2 hbase
    | _ =>
      rw [updateStats, hb]
      · refine List.cons_subset.2 ⟨hbase.1, ?_⟩
        exact ids_updateChildStats _ _ _ children kids
          (fun k hk => hfield (List.mem_cons_of_mem _ hk)) hbase.2
      · nofun

theorem ids_updateChildStats {K : List FieldIndex} (type : FieldType) (vector : List Datum)
    (idx : Nat) : (fields : List DuckLakeFieldId) → (stats : List DuckLakeBaseColumnStats) →
      DuckLakeFieldId.childFieldIds fields ⊆ K → DuckLakeBaseColumnStats.childIds stats ⊆ K →
      DuckLakeBaseColumnStats.childIds
        (updateChildStats skipped type vector idx fields stats) ⊆ K
  | [], _, _, _ => by
    rw [updateChildStats]
    exact List.nil_subset _
  | field :: fields, stats, hfields, hstats => by
    rw [DuckLakeFieldId.childFieldIds, List.append_subset] at hfields
    rw [updateChildStats, DuckLakeBaseColumnStats.childIds, List.append_subset]
    cases stats with
    | nil =>
      exact ⟨ids_updateStats field _ _ hfields.1 nofun,
        ids_updateChildStats type vector _ fields _ hfields.2 (List.nil_subset _)⟩
    | cons s stats =>
      rw [DuckLakeBaseColumnStats.childIds, List.append_subset] at hstats
      exact ⟨ids_updateStats field _ _ hfields.1 fun s' hs' => by cases hs'; exact hstats.1,
        ids_updateChildStats type vector _ fields _ hfields.2 hstats.2⟩

end

/-- The statistics of a column once a vector has been added: exact for a column without fields, none
for a column with fields. -/
inductive Gathered (field : DuckLakeFieldId) (vector : List Datum) :
    DuckLakeBaseColumnStats → Prop where
  | base {stats : DuckLakeColumnStats} (hbase : field.type.isNested = false)
      (hstats : ExactNulls stats (nullCount vector)) :
      Gathered field vector (.mk field.columnData.id stats true [])
  | nested {stats : DuckLakeColumnStats} {children : List DuckLakeBaseColumnStats}
      (hnested : field.type.isNested = true) (hnone : stats.nullCount = 0)
      (hids : DuckLakeBaseColumnStats.childIds children ⊆
        DuckLakeFieldId.childFieldIds field.children) :
      Gathered field vector (.mk field.columnData.id stats false children)

theorem gathered_updateStats {field : DuckLakeFieldId} {vector : List Datum}
    {stats : Option DuckLakeBaseColumnStats} (hfirst : stats = none → vector = [])
    (h : ∀ s ∈ stats, Gathered field vector s) (new : List Datum) :
    Gathered field (vector ++ new) (updateStats skipped field new stats) := by
  obtain ⟨data, name, type, children⟩ := field
  cases type with
  | primitive t =>
    have hnew := (exactNulls_getVectorStats (FieldType.primitive t).typeId new).clearIf
      (data.id ∈ skipped)
    rw [updateStats]
    cases stats with
    | none =>
      rw [hfirst rfl]
      exact .base rfl hnew
    | some s =>
      cases h s rfl with
      | base _ hstats =>
        refine .base rfl ?_
        rw [nullCount_append]
        exact hstats.mergeStats hnew
      | nested hnested => cases hnested
  | _ =>
    rw [updateStats]
    · cases stats with
      | none =>
        refine .nested rfl rfl ?_
        exact ids_updateChildStats _ _ _ children _ (List.Subset.refl _) (List.nil_subset _)
      | some s =>
        cases h s rfl with
        | base hbase => cases hbase
        | nested _ hnone hids =>
          refine .nested rfl hnone ?_
          exact ids_updateChildStats _ _ _ children _ (List.Subset.refl _) hids
    · nofun

variable {fields : List DuckLakeFieldId}

theorem getElem?_updateChunkStats (stats : List DuckLakeBaseColumnStats) (chunk : List Row)
    (i : Nat) : (updateChunkStats skipped fields stats chunk)[i]? =
      fields[i]?.map fun field => updateStats skipped field (columnVector i chunk) stats[i]? := by
  simp [updateChunkStats, List.getElem?_zipIdx, Option.map_map, Function.comp_def]

theorem length_updateChunkStats (stats : List DuckLakeBaseColumnStats) (chunk : List Row) :
    (updateChunkStats skipped fields stats chunk).length = fields.length := by
  simp [updateChunkStats]

/-- By induction on the chunks: the statistics of every column describe all rows so far. -/
theorem gathered_chunks (chunks : List (List Row)) (hne : chunks ≠ []) :
    (chunks.foldl (updateChunkStats skipped fields) []).length = fields.length ∧
    ∀ i field, fields[i]? = some field →
      ∃ stats, (chunks.foldl (updateChunkStats skipped fields) [])[i]? = some stats ∧
        Gathered field (columnVector i chunks.flatten) stats := by
  induction chunks using List.reverseRecOn with
  | nil => exact absurd rfl hne
  | append_singleton chunks chunk ih =>
    rw [List.foldl_append, List.foldl_cons, List.foldl_nil]
    refine ⟨length_updateChunkStats _ _, fun i field hi => ?_⟩
    rw [getElem?_updateChunkStats, hi, Option.map_some]
    refine ⟨_, rfl, ?_⟩
    rw [List.flatten_append, columnVector_append, List.flatten_singleton]
    by_cases hchunks : chunks = []
    · subst hchunks
      rw [List.foldl_nil, List.getElem?_nil]
      exact gathered_updateStats (fun _ => rfl) (fun s hs => absurd hs (Option.not_mem_none s)) _
    · obtain ⟨stats, hstats, hgathered⟩ := (ih hchunks).2 i field hi
      have hseen : some stats = none → columnVector i chunks.flatten = [] := nofun
      rw [hstats]
      exact gathered_updateStats hseen (fun s hs => Option.some.inj hs ▸ hgathered) _

omit [WriteStatistics] in
/-- The field of an entry belongs to the column, and its own id only to one without fields. -/
theorem Gathered.mem_finalStats {field : DuckLakeFieldId} {vector : List Datum}
    {stats : DuckLakeBaseColumnStats} (h : Gathered field vector stats)
    {entry : FieldIndex × DuckLakeColumnStats} (he : entry ∈ finalStats stats) :
    (field.type.isNested = false ∧ entry.1 = field.columnData.id ∧
      ExactNulls entry.2 (nullCount vector)) ∨
    (field.type.isNested = true ∧ entry.1 ∈ DuckLakeFieldId.childFieldIds field.children) := by
  cases h with
  | base hbase hstats =>
    obtain rfl : entry = (field.columnData.id, _) := by
      simpa [finalStats, finalChildStats] using he
    exact .inl ⟨hbase, rfl, hstats⟩
  | nested hnested hnone hids =>
    refine .inr ⟨hnested, hids (DuckLakeBaseColumnStats.finalChildStats_subset _ ?_)⟩
    exact List.mem_map_of_mem (by simpa [finalStats] using he)

omit [WriteStatistics] in
theorem contains_getNotNullFields {table : DuckLakeTableEntry} {name : Text} :
    table.getNotNullFields.contains name = true ↔
      ∃ column ∈ table.columns, column.notNull = true ∧
        column.field.name.fold = name.fold := by
  have hfold : ∀ (columns : List TableColumn) (acc : CISet), CIMap.contains (columns.foldl
      (fun names column => if column.notNull then names.insert column.field.name () else names)
        acc) name = true ↔ acc.contains name = true ∨
      ∃ column ∈ columns, column.notNull = true ∧ column.field.name.fold = name.fold := by
    intro columns
    induction columns with
    | nil => simp
    | cons column columns ih =>
      intro acc
      rw [List.foldl_cons, ih]
      cases hnull : column.notNull with
      | false => simp [hnull]
      | true =>
        simp only [if_true, CIMap.contains_insert, List.mem_cons, exists_eq_or_imp, hnull,
          true_and]
        rw [or_assoc, or_left_comm]
  rw [DuckLakeTableEntry.getNotNullFields, hfold]
  exact or_iff_right (by simp [CIMap.contains])

omit [WriteStatistics] in
theorem DuckLakeTableEntry.getElem?_getFieldIds (table : DuckLakeTableEntry) (i : Nat) :
    table.getFieldIds[i]? = table.columns[i]?.map (·.field) := List.getElem?_map

omit [WriteStatistics] in
/-- A column is looked up by its name, which no other column has. -/
theorem notNull_of_contains {table : DuckLakeTableEntry} (hvalid : ValidFields table.getFieldIds)
    {i : Nat} {column : TableColumn} (hi : table.columns[i]? = some column) :
    table.getNotNullFields.contains column.field.name = true ↔ column.notNull = true := by
  rw [contains_getNotNullFields]
  constructor
  · rintro ⟨other, hother, hnull, hname⟩
    obtain ⟨j, hj⟩ := List.getElem?_of_mem hother
    have hfield : ∀ {k : Nat} {c : TableColumn}, table.columns[k]? = some c →
        table.getFieldIds[k]? = some c.field := fun hk => by rw [table.getElem?_getFieldIds, hk]; rfl
    obtain rfl := hvalid.eq_of_fold_name (hfield hj) (hfield hi) hname
    cases hj.symm.trans hi
    exact hnull
  · exact fun hnull => ⟨column, List.mem_of_getElem? hi, hnull, rfl⟩

/-- What the statistics of some rows say about the NULLs of a column. -/
structure DescribesNulls (Tracked : DuckLakeFieldId → Prop) (field : DuckLakeFieldId)
    (vector : List Datum) (stats : List (FieldIndex × DuckLakeColumnStats)) : Prop where
  exact : ∀ entry ∈ stats, entry.1 = field.columnData.id →
    Tracked field ∧ ExactNulls entry.2 (nullCount vector)
  present : Tracked field → vector ≠ [] → ∃ entry ∈ stats, entry.1 = field.columnData.id

/-- The columns for which the inlined path gathers statistics. -/
def TrackedInline (field : DuckLakeFieldId) : Prop := field.type.isNested = false

section Finalize

variable {table : DuckLakeTableEntry} {chunks : List (List Row)} {rowIds : List Int}

/-- The loop throws at a column with NULLs that is declared NOT NULL, and collects the statistics
otherwise. -/
theorem finalizeColumns_eq_ok {columns : List (DuckLakeFieldId × DuckLakeBaseColumnStats)}
    {result : List (FieldIndex × DuckLakeColumnStats)} :
    columns.foldlM (finalizeColumn table) [] = .ok result ↔
      (∀ column ∈ columns, ¬ (0 < column.2.stats.nullCount ∧
        table.getNotNullFields.contains column.1.name = true)) ∧
      (columns.flatMap fun column => finalStats column.2).foldl
        (fun result entry => emplaceStats entry.1 entry.2 result) [] = result := by
  let collect (result : List (FieldIndex × DuckLakeColumnStats))
      (column : DuckLakeFieldId × DuckLakeBaseColumnStats) : Except Exception _ :=
    .ok ((finalStats column.2).foldl (fun result entry => emplaceStats entry.1 entry.2 result)
      result)
  have hbad : ∀ s column, (0 < column.2.stats.nullCount ∧
      table.getNotNullFields.contains column.1.name = true) →
      ∀ s', finalizeColumn table s column ≠ .ok s' := by
    intro s column hbad s' h
    rw [finalizeColumn, if_pos hbad] at h
    cases h
  have hgood : ∀ s column, ¬ (0 < column.2.stats.nullCount ∧
      table.getNotNullFields.contains column.1.name = true) →
      finalizeColumn table s column = collect s column := by
    intro s column hgood
    rw [finalizeColumn, if_neg hgood]
  refine (foldlM_reject_eq_ok hbad hgood).trans (and_congr_right fun _ => ?_)
  rw [List.foldl_flatMap, show columns.foldlM collect [] = .ok _ from List.foldlM_pure]
  exact ⟨Except.ok.inj, congrArg _⟩

theorem operatorFinalize_eq_ok {data : DuckLakeInlinedData} :
    operatorFinalize table skipped chunks rowIds = .ok data ↔
      ∃ columnStats, (table.getFieldIds.zip (chunks.foldl (updateChunkStats skipped table.getFieldIds)
        [])).foldlM (finalizeColumn table) [] = .ok columnStats ∧
      data = ⟨chunks.flatten.map WriteStatistics.inlinedRow, columnStats, rowIds⟩ := by
  rw [operatorFinalize, bind_eq_ok]
  exact exists_congr fun _ => and_congr_right fun _ => ⟨fun h => (Except.ok.inj h).symm, fun h => h ▸ rfl⟩

/-- The columns with what was gathered for them. -/
theorem gathered_of_mem_zip {column : DuckLakeFieldId × DuckLakeBaseColumnStats}
    (h : column ∈ table.getFieldIds.zip (chunks.foldl (updateChunkStats skipped table.getFieldIds) [])) :
    ∃ i, table.getFieldIds[i]? = some column.1 ∧
      Gathered column.1 (columnVector i chunks.flatten) column.2 := by
  have hne : chunks ≠ [] := by
    rintro rfl
    simp at h
  obtain ⟨i, hi⟩ := List.getElem?_of_mem h
  obtain ⟨hfield, hstats⟩ := List.getElem?_zip_eq_some.1 hi
  obtain ⟨stats, hstats', hgathered⟩ := (gathered_chunks chunks hne).2 i column.1 hfield
  cases hstats'.symm.trans hstats
  exact ⟨i, hfield, hgathered⟩

theorem mem_zip_of_gathered (hne : chunks ≠ []) {i : Nat} {field : DuckLakeFieldId}
    (hi : table.getFieldIds[i]? = some field) :
    ∃ stats, (field, stats) ∈
        table.getFieldIds.zip (chunks.foldl (updateChunkStats skipped table.getFieldIds) []) ∧
      Gathered field (columnVector i chunks.flatten) stats := by
  obtain ⟨stats, hstats, hgathered⟩ := (@gathered_chunks _ skipped _ chunks hne).2 i field hi
  exact ⟨stats, List.mem_of_getElem? (List.getElem?_zip_eq_some.2 ⟨hi, hstats⟩), hgathered⟩

/-- The inlined path rejects NULLs in the NOT NULL columns that have no fields. -/
theorem operatorFinalize_ok_iff (hvalid : ValidFields table.getFieldIds) :
    (∃ data, operatorFinalize table skipped chunks rowIds = .ok data) ↔
      ∀ i column, table.columns[i]? = some column → column.notNull = true →
        TrackedInline column.field → nullCount (columnVector i chunks.flatten) = 0 := by
  have hfield : ∀ {i : Nat} {column : TableColumn}, table.columns[i]? = some column →
      table.getFieldIds[i]? = some column.field := fun hi => by rw [table.getElem?_getFieldIds, hi]; rfl
  constructor
  · rintro ⟨data, hdata⟩ i column hi hnotNull htracked
    obtain ⟨columnStats, hcolumns, -⟩ := operatorFinalize_eq_ok.1 hdata
    by_cases hne : chunks = []
    · simp [hne, columnVector, nullCount]
    · obtain ⟨stats, hmem, hgathered⟩ := mem_zip_of_gathered hne (hfield hi)
      have hgood := (finalizeColumns_eq_ok.1 hcolumns).1 _ hmem
      cases hgathered with
      | base _ hstats =>
        by_contra hcount
        have hpos : 0 < nullCount (columnVector i chunks.flatten) := Nat.pos_of_ne_zero hcount
        exact hgood ⟨hstats.count.symm ▸ hpos, (notNull_of_contains hvalid hi).2 hnotNull⟩
      | nested hnested => cases htracked.symm.trans hnested
  · intro h
    refine ⟨_, operatorFinalize_eq_ok.2 ⟨_, finalizeColumns_eq_ok.2 ⟨?_, rfl⟩, rfl⟩⟩
    rintro ⟨field, stats⟩ hmem ⟨hpos, hcontains⟩
    obtain ⟨i, hi, hgathered⟩ := gathered_of_mem_zip hmem
    rw [table.getElem?_getFieldIds] at hi
    obtain ⟨tableColumn, hcolumn, rfl⟩ := Option.map_eq_some_iff.1 hi
    have hgathered : Gathered tableColumn.field (columnVector i chunks.flatten) stats := hgathered
    have hnotNull := (notNull_of_contains hvalid hcolumn).1 hcontains
    cases hgathered with
    | base hbase hstats =>
      have hzero := h i tableColumn hcolumn hnotNull hbase
      exact absurd (hstats.count.trans hzero) (Nat.ne_of_gt hpos)
    | nested _ hnone => exact absurd hnone (Nat.ne_of_gt hpos)

theorem describesNulls_operatorFinalize (hvalid : ValidFields table.getFieldIds)
    {data : DuckLakeInlinedData}
    (h : operatorFinalize table skipped chunks rowIds = .ok data) {i : Nat}
    {field : DuckLakeFieldId} (hi : table.getFieldIds[i]? = some field) :
    DescribesNulls TrackedInline field (columnVector i chunks.flatten) data.columnStats := by
  obtain ⟨columnStats, hcolumns, rfl⟩ := operatorFinalize_eq_ok.1 h
  obtain ⟨-, rfl⟩ := finalizeColumns_eq_ok.1 hcolumns
  constructor
  · intro entry hentry hid
    rcases mem_of_mem_foldl_emplaceStats hentry with hentry | hentry
    · cases hentry
    obtain ⟨column, hcolumn, hentry⟩ := List.mem_flatMap.1 hentry
    obtain ⟨j, hj, hgathered⟩ := gathered_of_mem_zip hcolumn
    have hmem : entry.1 ∈ column.1.fieldIds := by
      rw [column.1.fieldIds_eq]
      rcases hgathered.mem_finalStats hentry with ⟨-, hself, -⟩ | ⟨-, hchild⟩
      · exact hself ▸ List.mem_cons_self
      · exact List.mem_cons_of_mem _ hchild
    obtain rfl := hvalid.eq_of_mem_fieldIds hj hi hmem (hid ▸ field.id_mem_fieldIds)
    cases hj.symm.trans hi
    rcases hgathered.mem_finalStats hentry with ⟨hbase, -, hexact⟩ | ⟨-, hchild⟩
    · exact ⟨hbase, hexact⟩
    · exact absurd (hid ▸ hchild) (hvalid.id_notMem_children hj)
  · intro htracked hrows
    have hne : chunks ≠ [] := by
      rintro rfl
      exact hrows rfl
    obtain ⟨stats, hmem, hgathered⟩ := mem_zip_of_gathered hne hi
    rw [← lookup_isSome_iff, lookup_foldl_emplaceStats, List.lookup_nil, Option.none_or,
      lookup_isSome_iff]
    cases hgathered with
    | base => exact ⟨_, List.mem_flatMap.2 ⟨_, hmem, List.mem_cons_self⟩, rfl⟩
    | nested hnested => exact absurd (htracked.symm.trans hnested) nofun

end Finalize

end Inlined

end DuckLake
