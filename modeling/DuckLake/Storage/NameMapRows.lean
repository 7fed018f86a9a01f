import DuckLake.Lib.PartialBound
import DuckLake.Storage.NameMaps

/-!
# Name maps in the metadata

A name map is written as rows that refer to their parents. It is built again from these rows in
whatever order the database returns them, as far as the order of the query leaves that open.
-/

namespace DuckLake

open RoseTree

/-! ## Rows -/

def DuckLakeNameMapColumnInfo.label (column : DuckLakeNameMapColumnInfo) : NameMapLabel :=
  ⟨column.sourceName, column.targetFieldId, column.hivePartition⟩

mutual

/-- The rows of an entry, each with the path of its entry. -/
def columnPaths (path : List NameMapLabel) (parent : Option ℕ) (columnIdx : ℕ) :
    DuckLakeNameMapEntry → List (DuckLakeNameMapColumnInfo × List NameMapLabel)
  | ⟨sourceName, targetFieldId, hivePartition, childEntries⟩ =>
    (⟨columnIdx, sourceName, targetFieldId, hivePartition, parent⟩,
        path ++ [⟨sourceName, targetFieldId, hivePartition⟩]) ::
      columnPathsAll (path ++ [⟨sourceName, targetFieldId, hivePartition⟩]) (some columnIdx)
        (columnIdx + 1) childEntries

def columnPathsAll (path : List NameMapLabel) (parent : Option ℕ) (columnIdx : ℕ) :
    List DuckLakeNameMapEntry → List (DuckLakeNameMapColumnInfo × List NameMapLabel)
  | [] => []
  | entry :: entries =>
    let rows := columnPaths path parent columnIdx entry
    rows ++ columnPathsAll path parent (columnIdx + rows.length) entries

end

mutual

theorem map_fst_columnPaths (path : List NameMapLabel) (parent : Option ℕ) (columnIdx : ℕ) :
    ∀ entry : DuckLakeNameMapEntry, (columnPaths path parent columnIdx entry).map (·.1) =
      convertNameMapColumn parent columnIdx entry
  | ⟨sourceName, targetFieldId, hivePartition, childEntries⟩ => by
    rw [columnPaths, convertNameMapColumn, List.map_cons, map_fst_columnPathsAll _ _ _ childEntries]

theorem map_fst_columnPathsAll (path : List NameMapLabel) (parent : Option ℕ) (columnIdx : ℕ) :
    ∀ entries : List DuckLakeNameMapEntry,
      (columnPathsAll path parent columnIdx entries).map (·.1) =
        convertNameMapColumns parent columnIdx entries
  | [] => rfl
  | entry :: entries => by
    have hentry := map_fst_columnPaths path parent columnIdx entry
    have hlength := congrArg List.length hentry
    rw [List.length_map] at hlength
    rw [columnPathsAll, convertNameMapColumns, List.map_append, hentry, hlength,
      map_fst_columnPathsAll _ _ _ entries]

end

mutual

theorem map_snd_columnPaths (path : List NameMapLabel) (parent : Option ℕ) (columnIdx : ℕ) :
    ∀ entry : DuckLakeNameMapEntry, (columnPaths path parent columnIdx entry).map (·.2) =
      (paths entry.toTree).map (path ++ ·)
  | ⟨sourceName, targetFieldId, hivePartition, childEntries⟩ => by
    rw [columnPaths, List.map_cons, map_snd_columnPathsAll _ _ _ childEntries,
      DuckLakeNameMapEntry.toTree, paths, List.map_cons, List.map_map]
    refine congrArg _ (List.map_congr_left fun rest _ => ?_)
    simp

/-- The rows stand for the paths of the name map. -/
theorem map_snd_columnPathsAll (path : List NameMapLabel) (parent : Option ℕ) (columnIdx : ℕ) :
    ∀ entries : List DuckLakeNameMapEntry,
      (columnPathsAll path parent columnIdx entries).map (·.2) =
        (nameMapPaths entries).map (path ++ ·)
  | [] => rfl
  | entry :: entries => by
    rw [columnPathsAll, List.map_append, map_snd_columnPaths path parent columnIdx entry,
      map_snd_columnPathsAll _ _ _ entries, nameMapPaths, nameMapPaths, nameMapTrees, pathsAll,
      List.map_append]

end

mutual

theorem columnIds_columnPaths (path : List NameMapLabel) (parent : Option ℕ) (columnIdx : ℕ) :
    ∀ entry : DuckLakeNameMapEntry, (columnPaths path parent columnIdx entry).map (·.1.columnId) =
      List.range' columnIdx (columnPaths path parent columnIdx entry).length
  | ⟨sourceName, targetFieldId, hivePartition, childEntries⟩ => by
    rw [columnPaths, List.map_cons, columnIds_columnPathsAll _ _ _ childEntries, List.length_cons,
      List.range'_succ]

/-- The rows are numbered in order. -/
theorem columnIds_columnPathsAll (path : List NameMapLabel) (parent : Option ℕ) (columnIdx : ℕ) :
    ∀ entries : List DuckLakeNameMapEntry,
      (columnPathsAll path parent columnIdx entries).map (·.1.columnId) =
        List.range' columnIdx (columnPathsAll path parent columnIdx entries).length
  | [] => rfl
  | entry :: entries => by
    rw [columnPathsAll, List.map_append, columnIds_columnPaths path parent columnIdx entry,
      columnIds_columnPathsAll _ _ _ entries, List.length_append, ← List.range'_append_1]

end

/-- A row is at the top of its rows, or refers to the row that it is below. -/
def IsLinked (path : List NameMapLabel) (parent : Option ℕ)
    (rows : List (DuckLakeNameMapColumnInfo × List NameMapLabel))
    (row : DuckLakeNameMapColumnInfo × List NameMapLabel) : Prop :=
  (row.1.parentColumn = parent ∧ row.2 = path ++ [row.1.label]) ∨
    ∃ above ∈ rows, row.1.parentColumn = some above.1.columnId ∧
      above.1.columnId < row.1.columnId ∧ row.2 = above.2 ++ [row.1.label]

theorem IsLinked.mono {path : List NameMapLabel} {parent : Option ℕ}
    {rows rows' : List (DuckLakeNameMapColumnInfo × List NameMapLabel)}
    {row : DuckLakeNameMapColumnInfo × List NameMapLabel} (h : IsLinked path parent rows row)
    (hsub : rows ⊆ rows') : IsLinked path parent rows' row :=
  h.imp_right fun ⟨above, habove, hrest⟩ => ⟨above, hsub habove, hrest⟩

mutual

theorem isLinked_columnPaths (path : List NameMapLabel) (parent : Option ℕ) (columnIdx : ℕ) :
    ∀ (entry : DuckLakeNameMapEntry), ∀ row ∈ columnPaths path parent columnIdx entry,
      IsLinked path parent (columnPaths path parent columnIdx entry) row
  | ⟨sourceName, targetFieldId, hivePartition, childEntries⟩, row, hrow => by
    rw [columnPaths] at hrow ⊢
    rcases List.mem_cons.1 hrow with rfl | hrow
    · exact .inl ⟨rfl, rfl⟩
    · have hid := List.mem_map_of_mem (f := fun row => row.1.columnId) hrow
      rw [columnIds_columnPathsAll] at hid
      obtain ⟨hle, -⟩ := List.mem_range'_1.1 hid
      rcases isLinked_columnPathsAll _ _ _ childEntries row hrow with ⟨hparent, hpath⟩ | hlinked
      · exact .inr ⟨_, List.mem_cons_self .., hparent, hle, hpath⟩
      · obtain ⟨above, habove, hrest⟩ := hlinked
        exact .inr ⟨above, List.mem_cons_of_mem _ habove, hrest⟩

theorem isLinked_columnPathsAll (path : List NameMapLabel) (parent : Option ℕ) (columnIdx : ℕ) :
    ∀ (entries : List DuckLakeNameMapEntry), ∀ row ∈ columnPathsAll path parent columnIdx entries,
      IsLinked path parent (columnPathsAll path parent columnIdx entries) row
  | [], row, hrow => nomatch hrow
  | entry :: entries, row, hrow => by
    rw [columnPathsAll] at hrow ⊢
    rcases List.mem_append.1 hrow with hrow | hrow
    · exact (isLinked_columnPaths path parent columnIdx entry row hrow).mono
        (List.subset_append_left _ _)
    · exact (isLinked_columnPathsAll path parent _ entries row hrow).mono
        (List.subset_append_right _ _)

end

/-! ## The metadata tables -/

/-- A row of `ducklake_column_mapping` joined with one of `ducklake_name_mapping`. -/
structure NameMappingRow where
  mappingId : MappingIndex
  tableId : TableIndex
  mapType : Text
  column : DuckLakeNameMapColumnInfo
deriving DecidableEq

/-- The two tables that name maps are written to. -/
structure ColumnMappingTables where
  columnMapping : List (MappingIndex × TableIndex × Text) := []
  nameMapping : List (MappingIndex × DuckLakeNameMapColumnInfo) := []

def writeNewColumnMappings (tables : ColumnMappingTables)
    (newColumnMappings : List DuckLakeColumnMappingInfo) : ColumnMappingTables where
  columnMapping := tables.columnMapping ++
    newColumnMappings.map fun m => (m.mappingId, m.tableId, m.mapType)
  nameMapping := tables.nameMapping ++
    newColumnMappings.flatMap fun m => m.mapColumns.map fun column => (m.mappingId, column)

/-- The rows that the query of `GetColumnMappings` selects, before it orders them. -/
def ColumnMappingTables.join (tables : ColumnMappingTables) (startFrom : Option ℕ) :
    List NameMappingRow :=
  (tables.columnMapping.filter fun m => startFrom.all fun start => start ≤ m.1).flatMap fun m =>
    (tables.nameMapping.filter fun e => e.1 = m.1).map fun e => ⟨m.1, m.2.1, m.2.2, e.2⟩

/-- `NULLS FIRST`. -/
def parentLe : Option ℕ → Option ℕ → Prop
  | none, _ => True
  | some p, some q => p ≤ q
  | some _, none => False

/-- `ORDER BY mapping_id, parent_column NULLS FIRST`. -/
def NameMappingRow.Before (row row' : NameMappingRow) : Prop :=
  row.mappingId < row'.mappingId ∨
    row.mappingId = row'.mappingId ∧ parentLe row.column.parentColumn row'.column.parentColumn

/-- The loop of `GetColumnMappings` over the rows of the query, the last mapping first. -/
def getColumnMappingsLoop : List DuckLakeColumnMappingInfo → List NameMappingRow →
    List DuckLakeColumnMappingInfo
  | columnMaps, [] => columnMaps
  | [], row :: rows =>
    getColumnMappingsLoop [⟨row.tableId, row.mappingId, row.mapType, [row.column]⟩] rows
  | last :: columnMaps, row :: rows =>
    if last.mappingId ≠ row.mappingId then
      getColumnMappingsLoop
        (⟨row.tableId, row.mappingId, row.mapType, [row.column]⟩ :: last :: columnMaps) rows
    else
      getColumnMappingsLoop
        ({ last with mapColumns := last.mapColumns ++ [row.column] } :: columnMaps) rows

def getColumnMappings (rows : List NameMappingRow) : List DuckLakeColumnMappingInfo :=
  (getColumnMappingsLoop [] rows).reverse

/-! ## Rebuilding from the metadata -/

/-- The entries built so far, and where the entry of each column id is. -/
structure NameMapBuild where
  columnMaps : List (RoseTree NameMapLabel) := []
  columnIdMap : List (ℕ × List ℕ) := []

/-- `emplace`: an id that is there keeps its entry. -/
def emplace (m : List (ℕ × List ℕ)) (id : ℕ) (place : List ℕ) : List (ℕ × List ℕ) :=
  if (m.lookup id).isSome then m else m ++ [(id, place)]

def NameMapBuild.add (s : NameMapBuild) (col : DuckLakeNameMapColumnInfo) (place : List ℕ) :
    NameMapBuild where
  columnMaps := attach s.columnMaps place (.node col.label [])
  columnIdMap := emplace s.columnIdMap col.columnId
    (place ++ [(childrenAt s.columnMaps place).length])

def convertNameMapStep (mappingId : MappingIndex) (s : NameMapBuild)
    (col : DuckLakeNameMapColumnInfo) : Except Exception NameMapBuild :=
  match col.parentColumn with
  -- root-entry, add to parent map directly
  | none => .ok (s.add col [])
  -- non-root entry: find parent entry
  | some parent =>
    match s.columnIdMap.lookup parent with
    | none => invalidInputException ("Parent column ".toList ++ Text.ofNat parent ++
        " not found when converting name map with id ".toList ++ Text.ofNat mappingId)
    | some place => .ok (s.add col place)

/-- `ConvertNameMap` of the catalog. -/
def convertNameMap (m : DuckLakeColumnMappingInfo) :
    Except Exception (MappingIndex × DuckLakeNameMap) :=
  if m.mapType ≠ "map_by_name".toList then
    invalidInputException ("Unsupported column mapping type \"".toList ++ m.mapType ++ ['"'])
  else do
    let s ← m.mapColumns.foldlM (convertNameMapStep m.mappingId) {}
    return (m.mappingId, ⟨m.tableId, nameMapEntries s.columnMaps⟩)

/-! ### Every parent comes first -/

theorem nodup_columnIds (entries : List DuckLakeNameMapEntry) :
    ((columnPathsAll [] none 0 entries).map (·.1.columnId)).Nodup := by
  rw [columnIds_columnPathsAll]
  exact List.nodup_range'

/-- Rows in an order that the query allows, with the paths of their entries. -/
structure OrderedRows (entries : List DuckLakeNameMapEntry)
    (rows : List (DuckLakeNameMapColumnInfo × List NameMapLabel)) : Prop where
  perm : rows.Perm (columnPathsAll [] none 0 entries)
  ordered : (rows.map (·.1)).Pairwise fun row row' => parentLe row.parentColumn row'.parentColumn

namespace OrderedRows

variable {entries : List DuckLakeNameMapEntry}
  {rows done todo : List (DuckLakeNameMapColumnInfo × List NameMapLabel)}
  {row : DuckLakeNameMapColumnInfo × List NameMapLabel}

theorem nodup (h : OrderedRows entries rows) : (rows.map (·.1.columnId)).Nodup :=
  (h.perm.map _).nodup_iff.2 (nodup_columnIds entries)

theorem isLinked (h : OrderedRows entries rows) (hrow : row ∈ rows) :
    IsLinked [] none rows row :=
  (isLinked_columnPathsAll [] none 0 entries row (h.perm.subset hrow)).mono h.perm.symm.subset

/-- The row that a row refers to has come before it: the rows are in the order of their parents, and
a parent has a smaller number than its child. -/
theorem above_mem (h : OrderedRows entries (done ++ row :: todo)) {parent : ℕ}
    (hparent : row.1.parentColumn = some parent) :
    ∃ above ∈ done, above.1.columnId = parent ∧ row.2 = above.2 ++ [row.1.label] := by
  have hrow : row ∈ done ++ row :: todo := by simp
  rcases h.isLinked hrow with ⟨hnone, -⟩ | ⟨above, habove, hid, hlt, hpath⟩
  · rw [hparent] at hnone
    cases hnone
  obtain rfl : parent = above.1.columnId := Option.some.inj (hparent.symm.trans hid)
  rcases List.mem_append.1 habove with hdone | hrest
  · exact ⟨above, hdone, rfl, hpath⟩
  exfalso
  rcases List.mem_cons.1 hrest with rfl | htodo
  · exact Nat.lt_irrefl _ hlt
  have hordered := h.ordered
  rw [List.map_append, List.map_cons, List.pairwise_append, List.pairwise_cons] at hordered
  have hle := hordered.2.1.1 above.1 (List.mem_map_of_mem htodo)
  rw [hparent] at hle
  -- The row above refers to a row of a smaller number, or to none.
  rcases h.isLinked habove with ⟨hnone, -⟩ | ⟨top, -, htop, hlt', -⟩
  · rw [hnone] at hle
    exact hle
  · rw [htop] at hle
    exact Nat.lt_irrefl _ (Nat.lt_of_lt_of_le hlt' hle)

end OrderedRows

/-- What has been built from the rows so far: entries with their paths, each at the place that its
id is mapped to. -/
structure NameMapBuild.Holds (s : NameMapBuild)
    (rows : List (DuckLakeNameMapColumnInfo × List NameMapLabel)) : Prop where
  paths : (pathsAll s.columnMaps).Perm (rows.map (·.2))
  placed : ∀ row ∈ rows, ∃ place, s.columnIdMap.lookup row.1.columnId = some place ∧
    labelsAt s.columnMaps place = some row.2
  ids : ∀ id place, s.columnIdMap.lookup id = some place → id ∈ rows.map (·.1.columnId)

theorem lookup_concat_of_none {m : List (ℕ × List ℕ)} {id id' : ℕ} {place : List ℕ}
    (h : m.lookup id = none) :
    (m ++ [(id, place)]).lookup id' = if id' = id then some place else m.lookup id' := by
  rw [List.lookup_append]
  by_cases heq : id' = id
  · subst heq
    simp [h]
  · have hne : (id' == id) = false := beq_eq_false_iff_ne.2 heq
    simp [List.lookup_cons, hne, heq]

theorem NameMapBuild.Holds.add {s : NameMapBuild}
    {rows : List (DuckLakeNameMapColumnInfo × List NameMapLabel)}
    {row : DuckLakeNameMapColumnInfo × List NameMapLabel} (h : s.Holds rows)
    (hnew : row.1.columnId ∉ rows.map (·.1.columnId)) {place : List ℕ} {path : List NameMapLabel}
    (hplace : labelsAt s.columnMaps place = some path) (hpath : row.2 = path ++ [row.1.label]) :
    (s.add row.1 place).Holds (rows ++ [row]) := by
  have hnone : s.columnIdMap.lookup row.1.columnId = none := by
    cases hlookup : s.columnIdMap.lookup row.1.columnId with
    | none => rfl
    | some other => exact absurd (h.ids _ _ hlookup) hnew
  have hlookup (id : ℕ) : (s.add row.1 place).columnIdMap.lookup id =
      if id = row.1.columnId then some (place ++ [(childrenAt s.columnMaps place).length])
      else s.columnIdMap.lookup id := by
    rw [NameMapBuild.add, emplace, hnone, Option.isSome_none, if_neg Bool.false_ne_true,
      lookup_concat_of_none hnone]
  constructor
  · rw [List.map_append, List.map_singleton, hpath]
    refine (pathsAll_attach hplace row.1.label).trans ?_
    exact (h.paths.cons _).trans (List.perm_append_singleton _ _).symm
  · intro row' hrow'
    rw [hlookup]
    rcases List.mem_append.1 hrow' with hrow' | hrow'
    · have hne : row'.1.columnId ≠ row.1.columnId := fun heq =>
        hnew (heq ▸ List.mem_map_of_mem (f := fun row => row.1.columnId) hrow')
      obtain ⟨place', hplace', hlabels⟩ := h.placed row' hrow'
      exact ⟨place', by rw [if_neg hne, hplace'], labelsAt_attach hlabels _ _⟩
    · rw [List.mem_singleton.1 hrow', if_pos rfl]
      exact ⟨_, rfl, hpath ▸ labelsAt_attach_last hplace _ _⟩
  · intro id place' hid
    rw [hlookup] at hid
    split at hid
    · rename_i heq
      rw [heq]
      simp
    · have := h.ids id place' hid
      rw [List.map_append]
      exact List.mem_append_left _ this

theorem foldlM_convertNameMapStep {mappingId : MappingIndex} {entries : List DuckLakeNameMapEntry}
    {done todo : List (DuckLakeNameMapColumnInfo × List NameMapLabel)} {s : NameMapBuild}
    (h : OrderedRows entries (done ++ todo)) (hs : s.Holds done) :
    ∃ s', (todo.map (·.1)).foldlM (convertNameMapStep mappingId) s = .ok s' ∧
      s'.Holds (done ++ todo) := by
  induction todo generalizing done s with
  | nil => exact ⟨s, rfl, by rwa [List.append_nil]⟩
  | cons row todo ih =>
    have hnew : row.1.columnId ∉ done.map (·.1.columnId) := by
      have hnodup := h.nodup
      rw [List.map_append, List.map_cons, List.nodup_append] at hnodup
      exact fun hmem => hnodup.2.2 _ hmem _ (by simp) rfl
    have hsplit : done ++ row :: todo = (done ++ [row]) ++ todo := by simp
    rw [List.map_cons, List.foldlM_cons]
    cases hparent : row.1.parentColumn with
    | none =>
      have hpath : row.2 = [] ++ [row.1.label] := by
        have hrow : row ∈ done ++ row :: todo := by simp
        rcases h.isLinked hrow with ⟨-, hpath⟩ | ⟨above, -, hid, -⟩
        · exact hpath
        · rw [hparent] at hid
          cases hid
      obtain ⟨s', hok, hs'⟩ := ih (hsplit ▸ h)
        (@NameMapBuild.Holds.add s done row hs hnew [] [] rfl hpath)
      rw [convertNameMapStep, hparent]
      exact ⟨s', hok, hsplit ▸ hs'⟩
    | some parent =>
      obtain ⟨above, habove, hid, hpath⟩ := h.above_mem hparent
      obtain ⟨place, hlookup, hlabels⟩ := hs.placed above habove
      obtain ⟨s', hok, hs'⟩ := ih (hsplit ▸ h) (hs.add hnew hlabels hpath)
      rw [hid] at hlookup
      simp only [convertNameMapStep, hparent, hlookup]
      exact ⟨s', hok, hsplit ▸ hs'⟩

/-- The rows of a name map, in an order that the query allows, are converted to entries with the
same paths. -/
theorem convertNameMap_of_perm {m : DuckLakeColumnMappingInfo}
    {entries : List DuckLakeNameMapEntry} (htype : m.mapType = "map_by_name".toList)
    (hperm : m.mapColumns.Perm (convertNameMapColumns none 0 entries))
    (hordered : m.mapColumns.Pairwise fun row row' =>
      parentLe row.parentColumn row'.parentColumn) :
    ∃ loaded, convertNameMap m = .ok (m.mappingId, ⟨m.tableId, loaded⟩) ∧
      (nameMapPaths entries).Perm (nameMapPaths loaded) := by
  rw [← map_fst_columnPathsAll [] none 0 entries] at hperm
  obtain ⟨rows, hrows, hcols⟩ := exists_perm_of_map hperm
  have hstart : ({} : NameMapBuild).Holds [] :=
    ⟨.refl _, fun row hrow => (nomatch hrow), fun id place h => (nomatch h)⟩
  obtain ⟨s, hok, hs⟩ := @foldlM_convertNameMapStep m.mappingId entries [] rows {}
    ⟨hrows, hcols ▸ hordered⟩ hstart
  rw [hcols] at hok
  refine ⟨nameMapEntries s.columnMaps, ?_, ?_⟩
  · rw [convertNameMap, if_neg (not_not.2 htype), hok]
    rfl
  · rw [nameMapPaths, nameMapPaths, nameMapTrees_nameMapEntries]
    have hpaths := map_snd_columnPathsAll [] none 0 entries
    simp only [List.nil_append, List.map_id'] at hpaths
    rw [← nameMapPaths, ← hpaths]
    exact (hrows.map _).symm.trans hs.paths.symm


/-! ### The groups of the rows -/

/-- The mappings that have been read from the rows so far, the last one first. -/
structure Grouped (rows : List NameMappingRow) (columnMaps : List DuckLakeColumnMappingInfo) :
    Prop where
  descending : columnMaps.Pairwise fun m m' => m'.mappingId < m.mappingId
  columns : ∀ m ∈ columnMaps,
    m.mapColumns = (rows.filter fun row => row.mappingId = m.mappingId).map (·.column)
  header : ∀ m ∈ columnMaps, ∃ row ∈ rows,
    row.mappingId = m.mappingId ∧ row.tableId = m.tableId ∧ row.mapType = m.mapType
  all : ∀ row ∈ rows, row.mappingId ∈ columnMaps.map (·.mappingId)

namespace Grouped

variable {done todo : List NameMappingRow} {columnMaps : List DuckLakeColumnMappingInfo}
  {last : DuckLakeColumnMappingInfo} {row : NameMappingRow}

theorem start (h : Grouped done columnMaps)
    (hnew : ∀ m ∈ columnMaps, m.mappingId < row.mappingId) :
    Grouped (done ++ [row])
      (⟨row.tableId, row.mappingId, row.mapType, [row.column]⟩ :: columnMaps) := by
  constructor
  · exact List.pairwise_cons.2 ⟨hnew, h.descending⟩
  · intro m hm
    rw [List.filter_append, List.map_append]
    rcases List.mem_cons.1 hm with rfl | hm
    · have hnone : done.filter (fun other => other.mappingId = row.mappingId) = [] := by
        rw [List.filter_eq_nil_iff]
        intro other hother heq
        obtain ⟨m, hm, hid⟩ := List.mem_map.1 (h.all other hother)
        exact Nat.ne_of_lt (hnew m hm) (hid.trans (of_decide_eq_true heq))
      simp [hnone]
    · have hne : row.mappingId ≠ m.mappingId := (Nat.ne_of_lt (hnew m hm)).symm
      rw [List.filter_singleton, decide_eq_false hne]
      simpa using h.columns m hm
  · intro m hm
    rcases List.mem_cons.1 hm with rfl | hm
    · exact ⟨row, by simp, rfl, rfl, rfl⟩
    · obtain ⟨other, hother, hrest⟩ := h.header m hm
      exact ⟨other, List.mem_append_left _ hother, hrest⟩
  · intro other hother
    rcases List.mem_append.1 hother with hother | hother
    · exact List.mem_cons_of_mem _ (h.all other hother)
    · rw [List.mem_singleton.1 hother]
      exact List.mem_cons_self ..

theorem extend (h : Grouped done (last :: columnMaps)) (hid : last.mappingId = row.mappingId) :
    Grouped (done ++ [row])
      ({ last with mapColumns := last.mapColumns ++ [row.column] } :: columnMaps) := by
  obtain ⟨hlast, hrest⟩ := List.pairwise_cons.1 h.descending
  constructor
  · exact List.pairwise_cons.2 ⟨hlast, hrest⟩
  · intro m hm
    rw [List.filter_append, List.map_append]
    rcases List.mem_cons.1 hm with rfl | hm
    · rw [List.filter_singleton, decide_eq_true hid.symm, h.columns last (by simp)]
      rfl
    · have hne : row.mappingId ≠ m.mappingId := hid ▸ (Nat.ne_of_lt (hlast m hm)).symm
      rw [List.filter_singleton, decide_eq_false hne]
      simpa using h.columns m (List.mem_cons_of_mem _ hm)
  · intro m hm
    have hsame : ∃ m' ∈ last :: columnMaps,
        m'.mappingId = m.mappingId ∧ m'.tableId = m.tableId ∧ m'.mapType = m.mapType := by
      rcases List.mem_cons.1 hm with rfl | hm
      · exact ⟨last, by simp, rfl, rfl, rfl⟩
      · exact ⟨m, by simp [hm], rfl, rfl, rfl⟩
    obtain ⟨m', hm', hid', htable, htype⟩ := hsame
    obtain ⟨other, hother, hoid, hotable, hotype⟩ := h.header m' hm'
    exact ⟨other, List.mem_append_left _ hother, hoid.trans hid', hotable.trans htable,
      hotype.trans htype⟩
  · intro other hother
    rw [List.map_cons]
    rcases List.mem_append.1 hother with hother | hother
    · exact h.all other hother
    · rw [List.mem_singleton.1 hother, ← hid]
      exact List.mem_cons_self ..

theorem loop (h : Grouped done columnMaps)
    (hordered : (done ++ todo).Pairwise NameMappingRow.Before) :
    Grouped (done ++ todo) (getColumnMappingsLoop columnMaps todo) := by
  induction todo generalizing done columnMaps with
  | nil =>
    rw [List.append_nil]
    cases columnMaps <;> exact h
  | cons row todo ih =>
    have hsplit : done ++ row :: todo = (done ++ [row]) ++ todo := by simp
    rw [hsplit] at hordered ⊢
    -- No row so far has a larger id.
    have hle : ∀ m ∈ columnMaps, m.mappingId ≤ row.mappingId := by
      intro m hm
      obtain ⟨other, hother, hid, -⟩ := h.header m hm
      have hbefore := (List.pairwise_append.1 (List.pairwise_append.1 hordered).1).2.2 other hother
        row (by simp)
      rcases hbefore with hlt | ⟨heq, -⟩
      · exact hid ▸ hlt.le
      · exact hid ▸ heq.le
    cases columnMaps with
    | nil => exact ih (h.start (nofun)) hordered
    | cons last columnMaps =>
      rw [getColumnMappingsLoop]
      split
      · rename_i hne
        have hlt := Nat.lt_of_le_of_ne (hle last (by simp)) hne
        refine ih (h.start fun m hm => ?_) hordered
        rcases List.mem_cons.1 hm with rfl | hm
        · exact hlt
        · exact ((List.pairwise_cons.1 h.descending).1 m hm).trans hlt
      · rename_i heq
        exact ih (h.extend (not_not.1 heq)) hordered

end Grouped

/-- What is read from rows in the order of the query: one mapping for each id, with the columns of
its rows in their order. -/
theorem grouped_getColumnMappings {rows : List NameMappingRow}
    (hordered : rows.Pairwise NameMappingRow.Before) :
    Grouped rows (getColumnMappings rows).reverse := by
  rw [getColumnMappings, List.reverse_reverse]
  exact @Grouped.loop [] rows [] ⟨.nil, nofun, nofun, nofun⟩ hordered

/-- Of the rows of all groups, those with the key of a group are the rows of that group. -/
theorem filter_flatMap_key {α β κ : Type} [DecidableEq κ] {l : List α} {key : α → κ}
    {rows : α → List β} {rowKey : β → κ} (hnodup : (l.map key).Nodup)
    (hkey : ∀ a ∈ l, ∀ b ∈ rows a, rowKey b = key a) {a : α} (ha : a ∈ l) :
    (l.flatMap rows).filter (fun b => rowKey b = key a) = rows a := by
  induction l with
  | nil => cases ha
  | cons x l ih =>
    rw [List.map_cons, List.nodup_cons] at hnodup
    have hx := hkey x (List.mem_cons_self ..)
    have hl := fun y (hy : y ∈ l) => hkey y (List.mem_cons_of_mem _ hy)
    rw [List.flatMap_cons, List.filter_append]
    rcases List.mem_cons.1 ha with rfl | ha
    · have hrest : (l.flatMap rows).filter (fun b => rowKey b = key a) = [] := by
        rw [List.filter_eq_nil_iff]
        intro b hb heq
        obtain ⟨y, hy, hb⟩ := List.mem_flatMap.1 hb
        have hsame := (hl y hy b hb).symm.trans (of_decide_eq_true heq)
        exact hnodup.1 (hsame ▸ List.mem_map_of_mem hy)
      rw [hrest, List.append_nil, List.filter_eq_self.2 fun b hb => decide_eq_true (hx b hb)]
    · have hne : key x ≠ key a := fun heq => hnodup.1 (heq ▸ List.mem_map_of_mem ha)
      have hnone : (rows x).filter (fun b => rowKey b = key a) = [] :=
        List.filter_eq_nil_iff.2 fun b hb h => hne ((hx b hb).symm.trans (of_decide_eq_true h))
      rw [hnone, List.nil_append]
      exact ih hnodup.2 hl ha

/-! ### What has been written is read -/

/-- A name map as a row of `ducklake_column_mapping` and rows of `ducklake_name_mapping`. -/
def columnMappingInfo (entry : MappingIndex × DuckLakeNameMap) : DuckLakeColumnMappingInfo :=
  ⟨entry.2.tableId, entry.1, "map_by_name".toList, convertNameMapColumns none 0 entry.2.columnMaps⟩

/-- The tables hold these name maps, each under an id of its own. -/
structure ColumnMappingTables.Holds (tables : ColumnMappingTables)
    (written : List (MappingIndex × DuckLakeNameMap)) : Prop where
  columnMapping : tables.columnMapping =
    written.map fun entry => (entry.1, entry.2.tableId, "map_by_name".toList)
  nameMapping : tables.nameMapping = written.flatMap fun entry =>
    (convertNameMapColumns none 0 entry.2.columnMaps).map fun column => (entry.1, column)
  nodup : (written.map (·.1)).Nodup

namespace ColumnMappingTables

variable {tables : ColumnMappingTables} {written new : List (MappingIndex × DuckLakeNameMap)}

theorem holds_empty : ({} : ColumnMappingTables).Holds [] := ⟨rfl, rfl, .nil⟩

theorem Holds.write (h : tables.Holds written) (hnodup : ((written ++ new).map (·.1)).Nodup) :
    (writeNewColumnMappings tables (new.map columnMappingInfo)).Holds (written ++ new) := by
  refine ⟨?_, ?_, hnodup⟩
  · rw [writeNewColumnMappings, h.columnMapping, List.map_append, List.map_map]
    rfl
  · rw [writeNewColumnMappings, h.nameMapping, List.flatMap_append, List.flatMap_map]
    rfl

/-- The rows of the query are those of the name maps from the given id on. -/
theorem Holds.join_eq (h : tables.Holds written) (startFrom : Option ℕ) :
    tables.join startFrom =
      (written.filter fun entry => startFrom.all fun start => start ≤ entry.1).flatMap fun entry =>
        (convertNameMapColumns none 0 entry.2.columnMaps).map fun column =>
          ⟨entry.1, entry.2.tableId, "map_by_name".toList, column⟩ := by
  rw [join, h.columnMapping, List.filter_map, List.flatMap_map]
  refine List.flatMap_congr fun entry hentry => ?_
  have hkey : ∀ e ∈ written, ∀ row ∈ (convertNameMapColumns none 0 e.2.columnMaps).map
      fun column => (e.1, column), row.1 = e.1 := by
    intro e _ row hrow
    obtain ⟨column, -, rfl⟩ := List.mem_map.1 hrow
    rfl
  rw [h.nameMapping, filter_flatMap_key h.nodup hkey (List.mem_of_mem_filter hentry), List.map_map]
  rfl

end ColumnMappingTables

/-- Rows as the query may return them. -/
structure ColumnMappingTables.Selects (tables : ColumnMappingTables) (startFrom : Option ℕ)
    (rows : List NameMappingRow) : Prop where
  perm : rows.Perm (tables.join startFrom)
  ordered : rows.Pairwise NameMappingRow.Before

section Reload

variable {tables : ColumnMappingTables} {written : List (MappingIndex × DuckLakeNameMap)}
  {startFrom : Option ℕ} {rows : List NameMappingRow}

/-- The query has the rows of a name map, unless it is one of the earlier ones. -/
theorem filter_selects (h : tables.Holds written) (hrows : tables.Selects startFrom rows)
    {entry : MappingIndex × DuckLakeNameMap} (hentry : entry ∈ written)
    (hstart : startFrom.all (· ≤ entry.1)) :
    (rows.filter fun row => row.mappingId = entry.1).Perm
      ((convertNameMapColumns none 0 entry.2.columnMaps).map fun column =>
        ⟨entry.1, entry.2.tableId, "map_by_name".toList, column⟩) := by
  refine (hrows.perm.filter _).trans (.of_eq ?_)
  rw [h.join_eq]
  have hnodup := h.nodup.sublist
    ((List.filter_sublist (p := fun e => startFrom.all (· ≤ e.1))).map Prod.fst)
  refine filter_flatMap_key hnodup ?_ (List.mem_filter.2 ⟨hentry, hstart⟩)
  intro e _ row hrow
  obtain ⟨column, -, rfl⟩ := List.mem_map.1 hrow
  rfl

theorem exists_of_mem_selects (h : tables.Holds written) (hrows : tables.Selects startFrom rows)
    {row : NameMappingRow} (hrow : row ∈ rows) :
    ∃ entry ∈ written, startFrom.all (· ≤ entry.1) ∧ row.mappingId = entry.1 ∧
      row.tableId = entry.2.tableId ∧ row.mapType = "map_by_name".toList ∧
      entry.2.columnMaps ≠ [] := by
  have hmem := hrows.perm.subset hrow
  rw [h.join_eq] at hmem
  obtain ⟨entry, hentry, hrow⟩ := List.mem_flatMap.1 hmem
  obtain ⟨column, hcolumn, rfl⟩ := List.mem_map.1 hrow
  obtain ⟨hentry, hstart⟩ := List.mem_filter.1 hentry
  refine ⟨entry, hentry, hstart, rfl, rfl, rfl, fun hnil => ?_⟩
  rw [hnil] at hcolumn
  cases hcolumn

theorem pairwise_parentLe (hordered : rows.Pairwise NameMappingRow.Before) (id : MappingIndex) :
    ((rows.filter fun row => row.mappingId = id).map (·.column)).Pairwise fun column column' =>
      parentLe column.parentColumn column'.parentColumn := by
  rw [List.pairwise_map]
  refine (hordered.filter _).imp_of_mem fun {row row'} hrow hrow' hbefore => ?_
  have hid := of_decide_eq_true (List.mem_filter.1 hrow).2
  have hid' := of_decide_eq_true (List.mem_filter.1 hrow').2
  rcases hbefore with hlt | ⟨-, hle⟩
  · exact absurd (hid.trans hid'.symm) (Nat.ne_of_lt hlt)
  · exact hle

/-- Each mapping that is read is one of the name maps. -/
theorem convertNameMap_getColumnMappings (h : tables.Holds written)
    (hrows : tables.Selects startFrom rows) {m : DuckLakeColumnMappingInfo}
    (hm : m ∈ getColumnMappings rows) :
    ∃ entry ∈ written, m.mappingId = entry.1 ∧ entry.2.columnMaps ≠ [] ∧
      ∃ loaded, convertNameMap m = .ok (entry.1, loaded) ∧ entry.2.SamePaths loaded := by
  have hgrouped := grouped_getColumnMappings hrows.ordered
  rw [← List.mem_reverse] at hm
  obtain ⟨row, hrow, hid, htable, htype⟩ := hgrouped.header m hm
  obtain ⟨entry, hentry, hstart, hid', htable', htype', hne⟩ := exists_of_mem_selects h hrows hrow
  have hcolumns := hgrouped.columns m hm
  have hmid : m.mappingId = entry.1 := hid.symm.trans hid'
  rw [hmid] at hcolumns
  have hperm := (filter_selects h hrows hentry hstart).map (·.column)
  rw [← hcolumns, List.map_map] at hperm
  have hordered := pairwise_parentLe hrows.ordered entry.1
  rw [← hcolumns] at hordered
  obtain ⟨loaded, hconvert, hpaths⟩ := convertNameMap_of_perm (htype.symm.trans htype')
    (by simpa [Function.comp_def] using hperm) hordered
  refine ⟨entry, hentry, hmid, hne, _, hmid ▸ hconvert, ?_, hpaths⟩
  exact (htable.symm.trans htable').symm

theorem convertNameMapColumns_ne_nil {entries : List DuckLakeNameMapEntry} (h : entries ≠ []) :
    convertNameMapColumns none 0 entries ≠ [] := by
  obtain ⟨entry, entries, rfl⟩ := List.exists_cons_of_ne_nil h
  cases entry
  rw [convertNameMapColumns, convertNameMapColumn]
  exact List.cons_ne_nil _ _

/-- Each name map with columns is read, unless it is one of the earlier ones. -/
theorem mem_getColumnMappings (h : tables.Holds written) (hrows : tables.Selects startFrom rows)
    {entry : MappingIndex × DuckLakeNameMap} (hentry : entry ∈ written)
    (hstart : startFrom.all (· ≤ entry.1)) (hne : entry.2.columnMaps ≠ []) :
    entry.1 ∈ (getColumnMappings rows).map (·.mappingId) := by
  have hperm := filter_selects h hrows hentry hstart
  have hrow : (rows.filter fun row => row.mappingId = entry.1) ≠ [] := fun heq => by
    rw [heq] at hperm
    exact convertNameMapColumns_ne_nil hne (List.map_eq_nil_iff.1 hperm.nil_eq.symm)
  obtain ⟨row, hrow⟩ := List.exists_mem_of_ne_nil _ hrow
  obtain ⟨hrow, hid⟩ := List.mem_filter.1 hrow
  obtain ⟨m, hm, hmid⟩ := List.mem_map.1
    ((grouped_getColumnMappings hrows.ordered).all row hrow)
  exact List.mem_map.2 ⟨m, List.mem_reverse.1 hm, hmid.trans (of_decide_eq_true hid)⟩

end Reload

end DuckLake
