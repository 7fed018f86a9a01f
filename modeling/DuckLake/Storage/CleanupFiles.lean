import DuckLake.Storage.ExpireSnapshots

/-!
# Cleaning up files

Files are deleted from the file system in two ways: those that were scheduled for deletion, and
those that lie in the data path although nothing in the metadata names them. Files are scheduled
when a merge of adjacent files, an overwritten delete file or an expired snapshot removes their
rows. Orphans are told by their paths, which `orphans_unused` shows to be safe.
-/

namespace DuckLake

/-! ## Places -/

/-- What a row of `ducklake_table` says about where the files of the table are. -/
structure TablePlace where
  tableId : TableIndex
  schemaId : SchemaIndex
  path : DuckLakePath
deriving DecidableEq

structure SchemaPlace where
  schemaId : SchemaIndex
  path : DuckLakePath
deriving DecidableEq

def TableRow.place (row : TableRow) : TablePlace := ⟨row.tableId, row.schemaId, row.path⟩

def SchemaRow.place (row : SchemaRow) : SchemaPlace := ⟨row.schemaId, row.path⟩

/-- The path of a file of a table in a schema. -/
def pathThrough (settings : CatalogSettings) (schema table path : DuckLakePath) : Text :=
  fromRelativePath settings path
    (fromRelativePath settings table (fromRelativePath settings schema settings.dataPath))

namespace Metadata

def schemaPlaces (md : Metadata) : List SchemaPlace := md.schemas.map (·.place)

def tablePlaces (md : Metadata) : List TablePlace := md.tables.map (·.place)

/-- The rows of a table, each with the schemas that it names. -/
def placesOf (md : Metadata) (tableId : TableIndex) : List (SchemaPlace × TablePlace) :=
  (md.tablePlaces.filter (·.tableId == tableId)).flatMap fun table =>
    (md.schemaPlaces.filter (·.schemaId == table.schemaId)).map fun schema => (schema, table)

/-- The paths to which the file of a row is resolved, through any row of its table. -/
def resolvedPaths (md : Metadata) (settings : CatalogSettings) (row : FileRow) : List Text :=
  (md.placesOf row.tableId).map fun place =>
    pathThrough settings place.1.path place.2.path row.path

/-- A path is in use when a row of a data file or a delete file has it or it is listed as an
external file. -/
def InUse (md : Metadata) (settings : CatalogSettings) (path : Text) : Prop :=
  (∃ row ∈ md.fileRows, path ∈ md.resolvedPaths settings row) ∨ md.isExternalFile path = true

instance (md : Metadata) (settings : CatalogSettings) (path : Text) :
    Decidable (md.InUse settings path) :=
  inferInstanceAs (Decidable (_ ∨ _))

/-- The path that is deleted for an entry of `ducklake_files_scheduled_for_deletion`. -/
def scheduledPath (settings : CatalogSettings) (path : DuckLakePath) : Text :=
  fromRelativePath settings path settings.dataPath

def pathsScheduled (md : Metadata) (settings : CatalogSettings) : List Text :=
  md.filesScheduledForDeletion.map fun row => scheduledPath settings row.path

section Places

variable {md md' : Metadata} {settings : CatalogSettings}

theorem mem_placesOf {tableId : TableIndex} {schema : SchemaPlace} {table : TablePlace} :
    (schema, table) ∈ md.placesOf tableId ↔ table ∈ md.tablePlaces ∧ table.tableId = tableId ∧
      schema ∈ md.schemaPlaces ∧ schema.schemaId = table.schemaId := by
  simp only [placesOf, List.mem_flatMap, List.mem_filter, List.mem_map, beq_iff_eq,
    Prod.mk.injEq]
  constructor
  · rintro ⟨t, ⟨ht, hid⟩, s, ⟨hs, hschema⟩, rfl, rfl⟩
    exact ⟨ht, hid, hs, hschema⟩
  · rintro ⟨ht, hid, hs, hschema⟩
    exact ⟨table, ⟨ht, hid⟩, schema, ⟨hs, hschema⟩, rfl, rfl⟩

/-- What the metadata manager resolves a file to is one of the paths of its row. -/
theorem resolved_mem {snapshot : SnapshotId} {row : FileRow} {p : Text}
    (h : md.resolved settings snapshot row = .ok p) : p ∈ md.resolvedPaths settings row := by
  have hmem : ∀ table ∈ md.tables, table.tableId = row.tableId → ∀ schema ∈ md.schemas,
      schema.schemaId = table.schemaId →
      pathThrough settings schema.path table.path row.path ∈ md.resolvedPaths settings row := by
    intro table ht hid schema hs hschema
    exact List.mem_map.mpr ⟨(schema.place, table.place), mem_placesOf.mpr
      ⟨List.mem_map_of_mem ht, hid, List.mem_map_of_mem hs, hschema⟩, rfl⟩
  unfold resolved filePath getPath at h
  split at h
  · rename_i table htable
    have ht := List.find?_some htable
    rw [Bool.and_eq_true, beq_iff_eq] at ht
    split at h
    · rename_i schema hschema
      have hs := List.find?_some hschema
      rw [Bool.and_eq_true, beq_iff_eq] at hs
      cases h
      exact hmem table (List.mem_of_find?_eq_some htable) ht.1 schema
        (List.mem_of_find?_eq_some hschema) hs.1
    · cases h
  · unfold getPathForTable at h
    split at h
    · rename_i schema table hjoin
      cases h
      obtain ⟨t, ht, heq⟩ := List.exists_of_findSome?_eq_some hjoin
      obtain ⟨s, hs, heq⟩ := Option.map_eq_some_iff.mp heq
      cases heq
      rw [List.mem_filter, beq_iff_eq] at ht
      exact hmem table ht.1 ht.2 schema (List.mem_of_find?_eq_some hs)
        (by simpa using List.find?_some hs)
    · cases h

theorem resolvedPaths_mono (htables : md'.tablePlaces ⊆ md.tablePlaces)
    (hschemas : md'.schemaPlaces ⊆ md.schemaPlaces) (row : FileRow) :
    md'.resolvedPaths settings row ⊆ md.resolvedPaths settings row := by
  apply List.map_subset
  rintro ⟨schema, table⟩ h
  obtain ⟨ht, hid, hs, hschema⟩ := mem_placesOf.mp h
  exact mem_placesOf.mpr ⟨htables ht, hid, hschemas hs, hschema⟩

end Places

end Metadata

/-! ## The files to clean up -/

/-- What `ducklake_delete_orphaned_files` asks the file system and its path parser for. -/
class PathSystem where
  isLocal : Text → Bool
  /-- The length of the scheme of a path, `s3:` in `s3://bucket/file`. -/
  schemeLength : Text → Nat
  canonicalizePath : Text → Text

/-- The separator of a file system is one of two. -/
structure CleanupSettings extends CatalogSettings where
  separator_eq : separator = '/' ∨ separator = '\\'

/-- Remote paths are compared by authority and path, so scheme and query string are cut off. -/
def canonicalPath [PathSystem] (path : Text) : Text :=
  let normalized := replaceChar '\\' '/' path
  if PathSystem.isLocal normalized then PathSystem.canonicalizePath normalized
  else (normalized.drop (PathSystem.schemeLength normalized)).takeWhile (· ≠ '?')

/-- The `CASE` that rebuilds the path of a file from its three parts. -/
def knownPath (settings : CatalogSettings) (schema table path : DuckLakePath) : Text :=
  replaceChar '\\' '/'
    (if !path.pathIsRelative then path.path
    else if !table.pathIsRelative then table.path ++ path.path
    else if !schema.pathIsRelative then schema.path ++ table.path ++ path.path
    else settings.dataPath ++ schema.path ++ table.path ++ path.path)

def dataFileSuffixes : List Text := [".parquet".toList, ".vortex".toList, ".puffin".toList]

namespace Metadata

def getOldFilesForCleanup (md : Metadata) (settings : CatalogSettings)
    (filter : ScheduledFileRow → Bool) : List DuckLakeFileForCleanup :=
  (md.filesScheduledForDeletion.filter filter).map fun row =>
    ⟨row.dataFileId, scheduledPath settings row.path⟩

/-- `GetKnownFilesForCleanupQuery`. -/
def knownFilesForCleanup (md : Metadata) (settings : CatalogSettings) : List Text :=
  (md.fileRows.flatMap fun row => (md.placesOf row.tableId).map fun place =>
    knownPath settings place.1.path place.2.path row.path) ++
  (md.filesScheduledForDeletion.map fun row => replaceChar '\\' '/'
    (if !row.path.pathIsRelative then row.path.path else settings.dataPath ++ row.path.path)) ++
  md.externalFiles.map (replaceChar '\\' '/')

/-- The paths that are deleted as orphans among the files that lie in the data path; an orphan has
no id. -/
def getOrphanFilesForCleanup [PathSystem] (md : Metadata) (settings : CatalogSettings)
    (listing : List Text) (filter : Text → Bool) : List Text :=
  let knownFiles := (md.knownFilesForCleanup settings).map canonicalPath
  (listing.filter fun path => dataFileSuffixes.any (·.isSuffixOf path) && filter path).filter
    fun path => !knownFiles.contains (canonicalPath path)

/-- No path that a clean-up deletes is in use. -/
def CleanupSparesUsedFiles (md : Metadata) (settings : CatalogSettings) : Prop :=
  (∀ filter, ∀ file ∈ md.getOldFilesForCleanup settings filter, ¬ md.InUse settings file.path) ∧
    ∀ (_ : PathSystem) listing filter, ∀ path ∈ md.getOrphanFilesForCleanup settings listing filter,
      ¬ md.InUse settings path

/-- No scheduled path is in use. -/
def ScheduledUnused (md : Metadata) (settings : CatalogSettings) : Prop :=
  ∀ p ∈ md.pathsScheduled settings, ¬ md.InUse settings p

theorem getOldFiles_unused_iff {md : Metadata} {settings : CatalogSettings} :
    (∀ filter, ∀ file ∈ md.getOldFilesForCleanup settings filter, ¬ md.InUse settings file.path) ↔
      md.ScheduledUnused settings := by
  constructor
  · intro h p hp
    obtain ⟨row, hrow, rfl⟩ := List.mem_map.mp hp
    exact h (fun _ => true) ⟨row.dataFileId, scheduledPath settings row.path⟩
      (List.mem_map_of_mem (List.mem_filter.mpr ⟨hrow, rfl⟩))
  · intro h filter file hfile
    obtain ⟨row, hrow, rfl⟩ := List.mem_map.mp hfile
    exact h _ (List.mem_map_of_mem (List.mem_filter.mp hrow).1)

end Metadata

/-! ### Orphans -/

theorem replaceChar_append (old new : Char) (s t : Text) :
    replaceChar old new (s ++ t) = replaceChar old new s ++ replaceChar old new t :=
  List.map_append

theorem replaceChar_idem {old new : Char} (h : old ≠ new) (t : Text) :
    replaceChar old new (replaceChar old new t) = replaceChar old new t := by
  apply replaceChar_of_not_mem
  simp only [replaceChar, List.mem_map, not_exists, not_and]
  intro c _
  split
  · exact h.symm
  · rename_i hc
    simpa using hc

/-- Loading a path only exchanges separators. -/
theorem normalized_loadPath (settings : CleanupSettings) (t : Text) :
    replaceChar '\\' '/' (loadPath settings.toCatalogSettings t) = replaceChar '\\' '/' t := by
  unfold loadPath
  rcases settings.separator_eq with h | h
  · rw [if_pos (by simp [h])]
  · rw [if_neg (by simp [h]), h]
    simp only [replaceChar, List.map_map]
    apply List.map_congr_left
    intro c _
    by_cases hc : c = '/' <;> simp [hc]

theorem normalized_fromRelativePath (settings : CleanupSettings) (path : DuckLakePath)
    (base : Text) :
    replaceChar '\\' '/' (fromRelativePath settings.toCatalogSettings path base) =
      (if !path.pathIsRelative then [] else replaceChar '\\' '/' base) ++
        replaceChar '\\' '/' path.path := by
  unfold fromRelativePath
  cases path.pathIsRelative with
  | false => simp [normalized_loadPath]
  | true => simp [normalized_loadPath, replaceChar_append]

/-- The path that the query rebuilds is the resolved one up to its separators. -/
theorem normalized_pathThrough (settings : CleanupSettings) (schema table path : DuckLakePath) :
    replaceChar '\\' '/' (pathThrough settings.toCatalogSettings schema table path) =
      knownPath settings.toCatalogSettings schema table path := by
  unfold pathThrough knownPath
  rw [normalized_fromRelativePath, normalized_fromRelativePath, normalized_fromRelativePath]
  cases path.pathIsRelative with
  | false => simp
  | true =>
    cases table.pathIsRelative with
    | false => simp [replaceChar_append]
    | true =>
      cases schema.pathIsRelative with
      | false => simp [replaceChar_append]
      | true => simp [replaceChar_append]

theorem canonicalPath_congr [PathSystem] {p q : Text}
    (h : replaceChar '\\' '/' p = replaceChar '\\' '/' q) : canonicalPath p = canonicalPath q := by
  unfold canonicalPath
  rw [h]

namespace Metadata

/-- Every path in use is known to the clean-up of orphans, whatever the state of the metadata. -/
theorem known_of_inUse [PathSystem] {md : Metadata} {settings : CleanupSettings} {p : Text}
    (h : md.InUse settings.toCatalogSettings p) :
    canonicalPath p ∈ (md.knownFilesForCleanup settings.toCatalogSettings).map canonicalPath := by
  have hslash : '\\' ≠ '/' := by decide
  rcases h with ⟨row, hrow, hp⟩ | hext
  · obtain ⟨⟨schema, table⟩, hplace, rfl⟩ := List.mem_map.mp hp
    have hknown : knownPath settings.toCatalogSettings schema.path table.path row.path ∈
        md.knownFilesForCleanup settings.toCatalogSettings :=
      List.mem_append_left _ (List.mem_append_left _ (List.mem_flatMap.mpr
        ⟨row, hrow, List.mem_map.mpr ⟨(schema, table), hplace, rfl⟩⟩))
    refine List.mem_map.mpr ⟨_, hknown, canonicalPath_congr ?_⟩
    rw [← normalized_pathThrough, replaceChar_idem hslash]
  · rw [isExternalFile, List.contains_iff_mem] at hext
    refine List.mem_map.mpr ⟨_, List.mem_append_right _ hext, canonicalPath_congr ?_⟩
    rw [replaceChar_idem hslash]

theorem orphans_unused [PathSystem] {md : Metadata} {settings : CleanupSettings}
    {listing : List Text} {filter : Text → Bool} {path : Text}
    (h : path ∈ md.getOrphanFilesForCleanup settings.toCatalogSettings listing filter) :
    ¬ md.InUse settings.toCatalogSettings path := by
  intro huse
  have hunknown := (List.mem_filter.mp h).2
  rw [Bool.not_eq_true', ← Bool.not_eq_true, List.contains_iff_mem] at hunknown
  exact hunknown (known_of_inUse huse)

end Metadata

/-! ## The statements that touch files -/

def Validity.endNow (life : Validity SnapshotId) (snapshot : SnapshotId) : Validity SnapshotId :=
  if life.endAt.isNone then { life with endAt := some snapshot } else life

def DuckLakeFileInfo.row (info : DuckLakeFileInfo) (path : DuckLakePath) (snapshot : SnapshotId) :
    DataFileRow where
  dataFileId := info.id
  tableId := info.tableId
  life := ⟨info.beginSnapshot.getD snapshot, none⟩
  path
  cells := [info.fileFormat, Text.ofNat info.rowCount, Text.ofNat info.fileSizeBytes]

def DuckLakeDeleteFileInfo.row (info : DuckLakeDeleteFileInfo) (path : DuckLakePath)
    (snapshot : SnapshotId) : DeleteFileRow where
  deleteFileId := info.id
  tableId := info.tableId
  life := ⟨info.beginSnapshot.getD snapshot, none⟩
  dataFileId := info.dataFileId
  path
  cells := [Text.ofNat info.deleteCount, Text.ofNat info.fileSizeBytes]

namespace Metadata

def newSchemas (md : Metadata) (snapshot : SnapshotId)
    (rows : List (DuckLakeSchemaInfo × DuckLakePath)) : Metadata :=
  { md with
    schemas := md.schemas ++ rows.map fun row =>
      ⟨row.1.id, ⟨snapshot, none⟩, row.2, [row.1.name]⟩ }

def newTables (md : Metadata) (snapshot : SnapshotId)
    (rows : List (DuckLakeTableInfo × DuckLakePath)) : Metadata :=
  { md with
    tables := md.tables ++ rows.map fun row =>
      ⟨row.1.id, ⟨snapshot, none⟩, row.1.schemaId, row.2, [row.1.name]⟩ }

def dropSchemas (md : Metadata) (snapshot : SnapshotId) (ids : List SchemaIndex) : Metadata :=
  { md with
    schemas := md.schemas.map fun row =>
      if ids.contains row.schemaId then { row with life := row.life.endNow snapshot } else row }

def setDataFileLife (md : Metadata) (life : DataFileRow → Validity SnapshotId) : Metadata :=
  { md with
    dataFiles := md.dataFiles.map fun row => { row with life := life row }
    dataFileId_nodup := by simpa [Function.comp_def] using md.dataFileId_nodup }

def setDeleteFileLife (md : Metadata) (life : DeleteFileRow → Validity SnapshotId) : Metadata :=
  { md with
    deleteFiles := md.deleteFiles.map fun row => { row with life := life row }
    deleteFileId_nodup := by simpa [Function.comp_def] using md.deleteFileId_nodup }

/-- `FlushDrop` on the rows of data files. -/
def endDataFiles (md : Metadata) (snapshot : SnapshotId) (ends : DataFileRow → Bool) : Metadata :=
  md.setDataFileLife fun row => if ends row then row.life.endNow snapshot else row.life

def endDeleteFiles (md : Metadata) (snapshot : SnapshotId) (ends : DeleteFileRow → Bool) :
    Metadata :=
  md.setDeleteFileLife fun row => if ends row then row.life.endNow snapshot else row.life

/-- A renamed table keeps its files. -/
def dropTables (md : Metadata) (snapshot : SnapshotId) (ids : List TableIndex) (renamed : Bool) :
    Metadata :=
  let md := { md with
    tables := md.tables.map fun row =>
      if ids.contains row.tableId then { row with life := row.life.endNow snapshot } else row }
  if renamed then md
  else (md.endDataFiles snapshot (ids.contains ·.tableId)).endDeleteFiles snapshot
    (ids.contains ·.tableId)

/-- The id of a data file is a primary key. -/
def newDataFiles (md : Metadata) (snapshot : SnapshotId)
    (rows : List (DuckLakeFileInfo × DuckLakePath)) : Option Metadata :=
  let files := md.dataFiles ++ rows.map fun row => row.1.row row.2 snapshot
  if h : (files.map (·.dataFileId)).Nodup then
    some { md with dataFiles := files, dataFileId_nodup := h }
  else none

def newDeleteFiles (md : Metadata) (snapshot : SnapshotId)
    (rows : List (DuckLakeDeleteFileInfo × DuckLakePath)) : Option Metadata :=
  let files := md.deleteFiles ++ rows.map fun row => row.1.row row.2 snapshot
  if h : (files.map (·.deleteFileId)).Nodup then
    some { md with deleteFiles := files, deleteFileId_nodup := h }
  else none

def addScheduled (md : Metadata) (rows : List ScheduledFileRow) : Metadata :=
  { md with filesScheduledForDeletion := md.filesScheduledForDeletion ++ rows }

def deleteOverwrittenDeleteFiles (md : Metadata)
    (rows : List (DuckLakeOverwrittenDeleteFile × DuckLakePath)) : Metadata :=
  (md.deleteDeleteFiles (rows.map (·.1.deleteFileId))).addScheduled
    (rows.map fun row => ⟨row.1.deleteFileId, row.2⟩)

/-- The delete files of removed data files go with them. -/
def deleteDeleteFilesOf (md : Metadata) (ids : List DataFileIndex) : Metadata :=
  { md with
    deleteFiles := md.deleteFiles.filter (!ids.contains ·.dataFileId)
    deleteFileId_nodup := md.deleteFileId_nodup.sublist (List.filter_sublist.map _) }

/-- The rows of the merged files are removed with all that belongs to them. -/
def writeMergeAdjacent (md : Metadata) (rows : List DuckLakeCompactedFileInfo)
    (paths : List DuckLakePath) : Option Metadata :=
  if rows.length = paths.length then
    let ids := rows.map (·.sourceId)
    some (((md.deleteDataFiles ids).deleteDeleteFilesOf ids).addScheduled
      ((ids.zip paths).map fun row => ⟨row.1, row.2⟩))
  else none

/-- The statements of a rewrite for one source file: its delete file and itself end, the file that
was written for it begins. -/
def writeDeleteRewrite (md : Metadata) (lastSnapshot : SnapshotId)
    (compaction : DuckLakeCompactedFileInfo) : Metadata :=
  let md := md.setDeleteFileLife fun row =>
    if compaction.deleteFileId = some row.deleteFileId ∧ compaction.deleteFileEndSnapshot = none
    then { row.life with endAt := some lastSnapshot } else row.life
  let md := md.setDataFileLife fun row =>
    if row.dataFileId = compaction.sourceId then { row.life with endAt := some lastSnapshot }
    else row.life
  md.setDataFileLife fun row =>
    if compaction.newId = some row.dataFileId then { row.life with beginAt := lastSnapshot }
    else row.life

/-- The rewrite snapshot of the last compaction of a table. -/
def lastRewriteSnapshot (rows : List DuckLakeCompactedFileInfo) (tableId : TableIndex) :
    SnapshotId :=
  ((rows.filter (·.tableIndex == tableId)).getLast?.map (·.rewriteSnapshot)).getD 0

def writeDeleteRewrites (md : Metadata) (rows : List DuckLakeCompactedFileInfo) : Metadata :=
  rows.foldl (fun md row => md.writeDeleteRewrite (lastRewriteSnapshot rows row.tableIndex) row) md

/-- What a statement of a batch does to the rows in which files are looked up. A statement that
violates a primary key fails. -/
def runStatement (md : Metadata) (snapshot : SnapshotId) : Statement → Option Metadata
  | .insertSnapshot => some { md with snapshots := md.snapshots ++ [snapshot] }
  | .newSchemas rows => some (md.newSchemas snapshot rows)
  | .dropSchemas ids => some (md.dropSchemas snapshot ids)
  | .newTables rows => some (md.newTables snapshot rows)
  | .dropTables ids renamed => some (md.dropTables snapshot ids.elems renamed)
  | .newDataFiles rows => md.newDataFiles snapshot rows
  | .dropDataFiles ids => some (md.endDataFiles snapshot (ids.contains ·.dataFileId))
  | .deleteOverwrittenDeleteFiles rows => some (md.deleteOverwrittenDeleteFiles rows)
  | .newDeleteFiles rows => md.newDeleteFiles snapshot rows
  | .compactions .mergeAdjacentTables rows paths => md.writeMergeAdjacent rows paths
  | .compactions .rewriteDeletes rows _ => some (md.writeDeleteRewrites rows)
  -- the other statements write to tables that say nothing about files
  | _ => some md

/-- `MarkExternalFiles` of the replication: a path is listed once. -/
def markExternalFiles (md : Metadata) (paths : List Text) : Metadata :=
  { md with
    externalFiles := md.externalFiles ++
      (paths.map (replaceChar '\\' '/')).filter (!md.externalFiles.contains ·) }

def removeFilesScheduledForCleanup (md : Metadata) (files : List DuckLakeFileForCleanup) :
    Metadata :=
  { md with
    filesScheduledForDeletion := md.filesScheduledForDeletion.filter
      fun row => !(files.map (·.id)).contains row.dataFileId }

end Metadata

/-- What happens to the rows of files: the statements of commits one by one, expirations,
replications that share files, and clean-ups. -/
inductive FileStep where
  | statement (snapshot : SnapshotId) (s : Statement)
  | deleteSnapshots (snapshot : SnapshotId) (ids : List SnapshotId)
  | markExternalFiles (paths : List Text)
  | removeFilesScheduledForCleanup (files : List DuckLakeFileForCleanup)

def FileStep.run (settings : CatalogSettings) (md : Metadata) : FileStep → Option Metadata
  | .statement snapshot s => md.runStatement snapshot s
  | .deleteSnapshots snapshot ids => (md.deleteSnapshots settings snapshot ids).toOption
  | .markExternalFiles paths => some (md.markExternalFiles paths)
  | .removeFilesScheduledForCleanup files => some (md.removeFilesScheduledForCleanup files)

end DuckLake
