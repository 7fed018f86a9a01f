import DuckLake.Storage.Metadata

/-!
# Expiring snapshots

`deleteSnapshots` forgets snapshots and removes the rows that no remaining snapshot needs: tables
with all that belongs to them, data files and delete files, and every other row by its validity.
The files behind removed rows are scheduled for physical deletion.
-/

namespace DuckLake

structure DuckLakeFileForCleanup where
  id : DataFileIndex
  path : Text
deriving DecidableEq

/-- What a row of either file table says about its file. -/
structure FileRow where
  id : DataFileIndex
  tableId : TableIndex
  path : DuckLakePath
deriving DecidableEq

def DataFileRow.fileRow (file : DataFileRow) : FileRow := ⟨file.dataFileId, file.tableId, file.path⟩

def DeleteFileRow.fileRow (file : DeleteFileRow) : FileRow :=
  ⟨file.deleteFileId, file.tableId, file.path⟩

namespace Metadata

/-! ## The statements -/

def deleteSnapshotRows (md : Metadata) (ids : List SnapshotId) : Metadata :=
  { md with
    snapshots := md.snapshots.filter (!ids.contains ·)
    snapshotProtections := md.snapshotProtections.filter (!ids.contains ·) }

/-- The tables that have a row that expired and no row that is still needed. -/
def cleanupTables (md : Metadata) : List TableIndex :=
  (md.tables.filter fun t => t.life.expired md.snapshots &&
    !md.tables.any fun t2 => t2.tableId == t.tableId && !t2.life.expired md.snapshots).map (·.tableId)

/-- A data or delete file that is cleaned up, under its resolved path. -/
def fileForCleanup (md : Metadata) (settings : CatalogSettings) (snapshot : SnapshotId)
    (id : DataFileIndex) (tableId : TableIndex) (path : DuckLakePath) :
    Except Exception DuckLakeFileForCleanup :=
  (md.filePath settings snapshot tableId path).map fun path => ⟨id, path⟩

def cleanupFiles (md : Metadata) (settings : CatalogSettings) (snapshot : SnapshotId)
    (deletedTables : List TableIndex) : Except Exception (List DuckLakeFileForCleanup) :=
  (md.dataFiles.filter fun file =>
    deletedTables.contains file.tableId || file.life.expired md.snapshots).mapM fun file =>
      md.fileForCleanup settings snapshot file.dataFileId file.tableId file.path

def cleanupDeletes (md : Metadata) (settings : CatalogSettings) (snapshot : SnapshotId)
    (deletedTables : List TableIndex) (deletedFiles : List DataFileIndex) :
    Except Exception (List DuckLakeFileForCleanup) :=
  (md.deleteFiles.filter fun file =>
    deletedTables.contains file.tableId || deletedFiles.contains file.dataFileId ||
      file.life.expired md.snapshots).mapM fun file =>
        md.fileForCleanup settings snapshot file.deleteFileId file.tableId file.path

/-- `GetExternalFilePaths`, asked for one path. -/
def isExternalFile (md : Metadata) (path : Text) : Bool :=
  (md.externalFiles.map (replaceChar '\\' '/')).contains (replaceChar '\\' '/' path)

/-- Files owned by another catalog are never scheduled for physical deletion. -/
def scheduleForDeletion (md : Metadata) (settings : CatalogSettings)
    (files : List DuckLakeFileForCleanup) : Metadata :=
  { md with
    filesScheduledForDeletion := md.filesScheduledForDeletion ++
      (files.filter fun file => !md.isExternalFile file.path).map fun file =>
        ⟨file.id, getRelativePath settings file.path⟩ }

def deleteDataFiles (md : Metadata) (ids : List DataFileIndex) : Metadata :=
  { md with
    dataFiles := md.dataFiles.filter (!ids.contains ·.dataFileId)
    fileColumnStats := md.fileColumnStats.filter (!ids.contains ·.key)
    fileVariantStats := md.fileVariantStats.filter (!ids.contains ·.key)
    filePartitionValues := md.filePartitionValues.filter (!ids.contains ·.key)
    dataFileId_nodup := md.dataFileId_nodup.sublist (List.filter_sublist.map _) }

def deleteDeleteFiles (md : Metadata) (ids : List DataFileIndex) : Metadata :=
  { md with
    deleteFiles := md.deleteFiles.filter (!ids.contains ·.deleteFileId)
    deleteFileId_nodup := md.deleteFileId_nodup.sublist (List.filter_sublist.map _) }

/-- The inlined tables of deleted tables: those that are registered, and the deletion table. -/
def inlinedTablesToDrop (md : Metadata) (deletedTables : List TableIndex) : List Text :=
  (md.inlinedDataTables.filter (deletedTables.contains ·.tableId)).map (·.tableName) ++
    deletedTables.map inlinedFileDeletionTableName

/-- Everything that is deleted by its table id. -/
def deleteTables (md : Metadata) (deletedTables : List TableIndex) : Metadata :=
  { md with
    tables := md.tables.filter (!deletedTables.contains ·.tableId)
    tableStats := md.tableStats.filter (!deletedTables.contains ·.key)
    tableColumnStats := md.tableColumnStats.filter (!deletedTables.contains ·.key)
    partitionInfo := md.partitionInfo.filter (!deletedTables.contains ·.key)
    partitionColumns := md.partitionColumns.filter (!deletedTables.contains ·.key)
    columns := md.columns.filter (!deletedTables.contains ·.key)
    columnTags := md.columnTags.filter (!deletedTables.contains ·.key)
    sortInfo := md.sortInfo.filter (!deletedTables.contains ·.key)
    sortExpressions := md.sortExpressions.filter (!deletedTables.contains ·.key)
    schemaVersions := md.schemaVersions.filter (!deletedTables.contains ·.key)
    inlinedDataTables := md.inlinedDataTables.filter (!deletedTables.contains ·.tableId)
    columnMappings := md.columnMappings.filter (!deletedTables.contains ·.tableId)
    inlinedData := md.inlinedData.filter
      (!(md.inlinedTablesToDrop deletedTables).contains ·.1)
    inlinedDeletions := md.inlinedDeletions.filter
      (!(md.inlinedTablesToDrop deletedTables).contains ·.1)
    tableName_eq := fun row h => md.tableName_eq row (List.mem_filter.mp h).1 }

def withoutExpired {κ : Type} (md : Metadata) (rows : List (VersionedRow κ)) :
    List (VersionedRow κ) :=
  rows.filter (!·.life.expired md.snapshots)

/-- The rows that are deleted by their validity. -/
def deleteExpired (md : Metadata) (settings : CatalogSettings) : Metadata :=
  { md with
    schemas := md.schemas.filter (!·.life.expired md.snapshots)
    views := md.withoutExpired md.views
    viewColumnTags := if settings.supportsV1_1Metadata then md.withoutExpired md.viewColumnTags
      else md.viewColumnTags
    tags := md.withoutExpired md.tags
    macros := md.withoutExpired md.macros
    procedures := md.withoutExpired md.procedures
    materializedViews := md.withoutExpired md.materializedViews
    materializedViewDependencies := md.withoutExpired md.materializedViewDependencies }

/-- The rows of the registered inlined data tables, by their validity. -/
def deleteExpiredInlinedRows (md : Metadata) : Metadata :=
  { md with
    inlinedData := md.inlinedData.map fun table =>
      if md.inlinedDataTables.any (·.tableName == table.1) then
        (table.1, table.2.filter (!·.life.expired md.snapshots))
      else table }

/-- The rows that belong to a procedure, macro or column mapping that is gone. -/
def deleteOrphans (md : Metadata) : Metadata :=
  { md with
    procedureParameters := md.procedureParameters.filter fun row =>
      md.procedures.any (·.key == row.key)
    macroImpls := md.macroImpls.filter fun row => md.macros.any (·.key == row.key)
    macroParameters := md.macroParameters.filter fun row => md.macros.any (·.key == row.key)
    nameMappings := md.nameMappings.filter fun row =>
      md.columnMappings.any (·.mappingId == row.key) }

/-- `DeleteSnapshots`, at the snapshot of its transaction. Where the source leaves a statement out
because its list is empty, the statement here changes nothing. -/
def deleteSnapshots (md : Metadata) (settings : CatalogSettings) (snapshot : SnapshotId)
    (snapshots : List SnapshotId) : Except Exception Metadata := do
  let md := md.deleteSnapshotRows snapshots
  let deletedTables := md.cleanupTables
  let files ← md.cleanupFiles settings snapshot deletedTables
  let md := (md.deleteDataFiles (files.map (·.id))).scheduleForDeletion settings files
  let deletes ← md.cleanupDeletes settings snapshot deletedTables (files.map (·.id))
  let md := (md.deleteDeleteFiles (deletes.map (·.id))).scheduleForDeletion settings deletes
  let md := (md.deleteTables deletedTables).deleteExpired settings
  return md.deleteExpiredInlinedRows.deleteOrphans

/-! ## What is no longer needed -/

def retained (md : Metadata) (ids : List SnapshotId) : List SnapshotId :=
  md.snapshots.filter (!ids.contains ·)

/-- All rows of the table have expired. -/
def tableExpired (md : Metadata) (retained : List SnapshotId) (tableId : TableIndex) : Bool :=
  (md.tables.any (·.tableId == tableId)) &&
    md.tables.all fun t => !(t.tableId == tableId) || t.life.expired retained

def dataFileExpired (md : Metadata) (retained : List SnapshotId) (file : DataFileRow) : Bool :=
  md.tableExpired retained file.tableId || file.life.expired retained

/-- The data file of this id has expired. -/
def dataFileIdExpired (md : Metadata) (retained : List SnapshotId) (id : DataFileIndex) : Bool :=
  md.dataFiles.any fun file => file.dataFileId == id && md.dataFileExpired retained file

def deleteFileExpired (md : Metadata) (retained : List SnapshotId) (file : DeleteFileRow) : Bool :=
  md.tableExpired retained file.tableId || md.dataFileIdExpired retained file.dataFileId ||
    file.life.expired retained

section Outcome

variable {md md' : Metadata} {settings : CatalogSettings} {snapshot s : SnapshotId}
  {ids : List SnapshotId}

theorem mem_cleanupTables {tableId : TableIndex} :
    tableId ∈ (md.deleteSnapshotRows ids).cleanupTables ↔
      md.tableExpired (md.retained ids) tableId = true := by
  simp only [cleanupTables, deleteSnapshotRows, tableExpired, retained, List.mem_map,
    List.mem_filter, Bool.and_eq_true, Bool.not_eq_true', List.any_eq_false, List.any_eq_true,
    List.all_eq_true, Bool.or_eq_true, beq_iff_eq, not_and, Bool.not_eq_false]
  constructor
  · rintro ⟨t, ⟨ht, _, hall⟩, rfl⟩
    refine ⟨⟨t, ht, rfl⟩, fun u hu => ?_⟩
    by_cases heq : u.tableId = t.tableId
    · exact .inr (by simpa using hall u hu heq)
    · exact .inl (by simpa using heq)
  · rintro ⟨⟨t, ht, rfl⟩, hall⟩
    have hexpired : ∀ u ∈ md.tables, u.tableId = t.tableId → u.life.expired
        (List.filter (fun s => !ids.contains s) md.snapshots) = true := by
      intro u hu heq
      simpa [heq] using hall u hu
    refine ⟨t, ⟨ht, hexpired t ht rfl, fun u hu heq => ?_⟩, rfl⟩
    simpa using hexpired u hu heq

/-- A table of which a retained snapshot sees a row stays. -/
theorem not_tableExpired {t : TableRow} (hs : s ∈ md.retained ids) (ht : t ∈ md.tables)
    (hvis : t.life.visibleAt s = true) : md.tableExpired (md.retained ids) t.tableId = false := by
  rw [← Bool.not_eq_true]
  intro h
  simp only [tableExpired, Bool.and_eq_true, List.all_eq_true, Bool.or_eq_true] at h
  have hexp := (h.2 t ht).resolve_left (by simp)
  rw [Validity.not_expired_of_visibleAt hs hvis] at hexp
  cases hexp

/-- An expiration that does not throw, with the files whose rows it removes. -/
theorem deleteSnapshots_ok (h : md.deleteSnapshots settings snapshot ids = .ok md') :
    ∃ files deletes,
      (md.deleteSnapshotRows ids).cleanupFiles settings snapshot
        (md.deleteSnapshotRows ids).cleanupTables = .ok files ∧
      (md.deleteSnapshotRows ids).cleanupDeletes settings snapshot
        (md.deleteSnapshotRows ids).cleanupTables (files.map (·.id)) = .ok deletes ∧
      md' = (((((((md.deleteSnapshotRows ids).deleteDataFiles (files.map (·.id))).scheduleForDeletion
        settings files).deleteDeleteFiles (deletes.map (·.id))).scheduleForDeletion settings
        deletes).deleteTables (md.deleteSnapshotRows ids).cleanupTables).deleteExpired
        settings).deleteExpiredInlinedRows.deleteOrphans := by
  unfold deleteSnapshots at h
  dsimp only at h
  cases hfiles : (md.deleteSnapshotRows ids).cleanupFiles settings snapshot
      (md.deleteSnapshotRows ids).cleanupTables with
  | error e =>
    rw [hfiles] at h
    cases h
  | ok files =>
    rw [hfiles] at h
    dsimp only [bind, Except.bind] at h
    cases hdeletes : (((md.deleteSnapshotRows ids).deleteDataFiles
        (files.map (·.id))).scheduleForDeletion settings files).cleanupDeletes settings snapshot
        (md.deleteSnapshotRows ids).cleanupTables (files.map (·.id)) with
    | error e =>
      rw [hdeletes] at h
      cases h
    | ok deletes =>
      rw [hdeletes] at h
      cases h
      exact ⟨files, deletes, rfl, hdeletes, rfl⟩

theorem contains_cleanupTables (tableId : TableIndex) :
    (md.deleteSnapshotRows ids).cleanupTables.contains tableId =
      md.tableExpired (md.retained ids) tableId := by
  rw [Bool.eq_iff_iff, List.contains_iff_mem, mem_cleanupTables]

theorem fileForCleanup_ok {id : DataFileIndex} {tableId : TableIndex} {path : DuckLakePath}
    {file : DuckLakeFileForCleanup} :
    md.fileForCleanup settings snapshot id tableId path = .ok file ↔
      md.filePath settings snapshot tableId path = .ok file.path ∧ file.id = id := by
  unfold fileForCleanup
  cases md.filePath settings snapshot tableId path with
  | error e => simp [Except.map]
  | ok p =>
    obtain ⟨id', p'⟩ := file
    simp only [Except.map, Except.ok.injEq, DuckLakeFileForCleanup.mk.injEq]
    tauto

/-- The files that are cleaned up are those whose rows are gone, under their resolved paths. -/
structure CleansUp (md : Metadata) (settings : CatalogSettings) (snapshot : SnapshotId)
    (gone : List FileRow) (files : List DuckLakeFileForCleanup) : Prop where
  cleaned : ∀ row ∈ gone, ∃ file ∈ files, file.id = row.id ∧
    md.filePath settings snapshot row.tableId row.path = .ok file.path
  gone : ∀ file ∈ files, ∃ row ∈ gone, file.id = row.id ∧
    md.filePath settings snapshot row.tableId row.path = .ok file.path

theorem CleansUp.of_mapM {ρ : Type} {rows : List ρ} {fileRow : ρ → FileRow}
    {files : List DuckLakeFileForCleanup}
    (h : (rows.mapM fun row => md.fileForCleanup settings snapshot (fileRow row).id
      (fileRow row).tableId (fileRow row).path) = .ok files) :
    CleansUp md settings snapshot (rows.map fileRow) files := by
  obtain ⟨hleft, hright⟩ := mapM_ok h
  constructor
  · intro row hrow
    obtain ⟨r, hr, rfl⟩ := List.mem_map.mp hrow
    obtain ⟨file, hfile, heq⟩ := hleft r hr
    obtain ⟨hpath, hid⟩ := fileForCleanup_ok.mp heq
    exact ⟨file, hfile, hid, hpath⟩
  · intro file hfile
    obtain ⟨r, hr, heq⟩ := hright file hfile
    obtain ⟨hpath, hid⟩ := fileForCleanup_ok.mp heq
    exact ⟨fileRow r, List.mem_map_of_mem hr, hid, hpath⟩

theorem CleansUp.mem_ids {gone : List FileRow} {files : List DuckLakeFileForCleanup}
    (h : CleansUp md settings snapshot gone files) {id : DataFileIndex} :
    id ∈ files.map (·.id) ↔ id ∈ gone.map (·.id) := by
  simp only [List.mem_map]
  constructor
  · rintro ⟨file, hfile, rfl⟩
    obtain ⟨row, hrow, hid, _⟩ := h.gone file hfile
    exact ⟨row, hrow, hid.symm⟩
  · rintro ⟨row, hrow, rfl⟩
    obtain ⟨file, hfile, hid, _⟩ := h.cleaned row hrow
    exact ⟨file, hfile, hid⟩

theorem CleansUp.append {gone gone' : List FileRow} {files files' : List DuckLakeFileForCleanup}
    (h : CleansUp md settings snapshot gone files)
    (h' : CleansUp md settings snapshot gone' files') :
    CleansUp md settings snapshot (gone ++ gone') (files ++ files') := by
  constructor
  · intro row hrow
    rcases List.mem_append.mp hrow with hrow | hrow
    · obtain ⟨file, hfile, hspec⟩ := h.cleaned row hrow
      exact ⟨file, List.mem_append_left _ hfile, hspec⟩
    · obtain ⟨file, hfile, hspec⟩ := h'.cleaned row hrow
      exact ⟨file, List.mem_append_right _ hfile, hspec⟩
  · intro file hfile
    rcases List.mem_append.mp hfile with hfile | hfile
    · obtain ⟨row, hrow, hspec⟩ := h.gone file hfile
      exact ⟨row, List.mem_append_left _ hrow, hspec⟩
    · obtain ⟨row, hrow, hspec⟩ := h'.gone file hfile
      exact ⟨row, List.mem_append_right _ hrow, hspec⟩

theorem cleansUp_dataFiles {files : List DuckLakeFileForCleanup}
    (h : (md.deleteSnapshotRows ids).cleanupFiles settings snapshot
      (md.deleteSnapshotRows ids).cleanupTables = .ok files) :
    CleansUp md settings snapshot
      ((md.dataFiles.filter (md.dataFileExpired (md.retained ids))).map (·.fileRow)) files := by
  unfold cleanupFiles at h
  simp only [contains_cleanupTables] at h
  exact .of_mapM h

theorem contains_cleanupFiles {files : List DuckLakeFileForCleanup}
    (h : (md.deleteSnapshotRows ids).cleanupFiles settings snapshot
      (md.deleteSnapshotRows ids).cleanupTables = .ok files) (id : DataFileIndex) :
    (files.map (·.id)).contains id = md.dataFileIdExpired (md.retained ids) id := by
  rw [Bool.eq_iff_iff, List.contains_iff_mem, (cleansUp_dataFiles h).mem_ids]
  simp only [List.map_map, List.mem_map, List.mem_filter, dataFileIdExpired, List.any_eq_true,
    Bool.and_eq_true, beq_iff_eq, Function.comp_apply, DataFileRow.fileRow]
  tauto

theorem cleansUp_deleteFiles {files deletes : List DuckLakeFileForCleanup}
    (hfiles : (md.deleteSnapshotRows ids).cleanupFiles settings snapshot
      (md.deleteSnapshotRows ids).cleanupTables = .ok files)
    (h : (md.deleteSnapshotRows ids).cleanupDeletes settings snapshot
      (md.deleteSnapshotRows ids).cleanupTables (files.map (·.id)) = .ok deletes) :
    CleansUp md settings snapshot
      ((md.deleteFiles.filter (md.deleteFileExpired (md.retained ids))).map (·.fileRow))
      deletes := by
  unfold cleanupDeletes at h
  simp only [contains_cleanupTables, contains_cleanupFiles hfiles] at h
  exact .of_mapM h

/-! ## The rows that are left -/

/-- With unique ids a row is deleted by its id only if it expired itself. -/
theorem any_id_eq {ρ : Type} {rows : List ρ} {id : ρ → DataFileIndex} {expired : ρ → Bool} {row : ρ}
    (hnodup : (rows.map id).Nodup) (hrow : row ∈ rows) :
    (rows.any fun r => id r == id row && expired r) = expired row := by
  rw [Bool.eq_iff_iff]
  simp only [List.any_eq_true, Bool.and_eq_true, beq_iff_eq]
  constructor
  · rintro ⟨r, hr, hid, hexp⟩
    rwa [List.inj_on_of_nodup_map hnodup hr hrow hid] at hexp
  · intro hexp
    exact ⟨row, hrow, rfl, hexp⟩

theorem deleteSnapshots_dataFiles (h : md.deleteSnapshots settings snapshot ids = .ok md') :
    md'.dataFiles = md.dataFiles.filter (!md.dataFileExpired (md.retained ids) ·) := by
  obtain ⟨files, deletes, hfiles, _, rfl⟩ := deleteSnapshots_ok h
  change md.dataFiles.filter (!(files.map (·.id)).contains ·.dataFileId) = _
  apply List.filter_congr
  intro row hrow
  rw [contains_cleanupFiles hfiles, dataFileIdExpired, any_id_eq md.dataFileId_nodup hrow]

theorem deleteSnapshots_deleteFiles (h : md.deleteSnapshots settings snapshot ids = .ok md') :
    md'.deleteFiles = md.deleteFiles.filter (!md.deleteFileExpired (md.retained ids) ·) := by
  obtain ⟨files, deletes, hfiles, hdeletes, rfl⟩ := deleteSnapshots_ok h
  change md.deleteFiles.filter (!(deletes.map (·.id)).contains ·.deleteFileId) = _
  apply List.filter_congr
  intro row hrow
  have hids : (deletes.map (·.id)).contains row.deleteFileId =
      md.deleteFiles.any fun r => r.deleteFileId == row.deleteFileId &&
        md.deleteFileExpired (md.retained ids) r := by
    rw [Bool.eq_iff_iff, List.contains_iff_mem, (cleansUp_deleteFiles hfiles hdeletes).mem_ids]
    simp only [List.map_map, List.mem_map, List.mem_filter, List.any_eq_true, Bool.and_eq_true,
      beq_iff_eq, Function.comp_apply, DeleteFileRow.fileRow]
    tauto
  rw [hids, any_id_eq md.deleteFileId_nodup hrow]

/-! ## Retained snapshots -/

theorem dataFilesAt_eq (h : md.deleteSnapshots settings snapshot ids = .ok md')
    (hs : s ∈ md.retained ids) {t : TableRow} (ht : t ∈ md.tables)
    (hvis : t.life.visibleAt s = true) :
    md'.dataFilesAt t.tableId s = md.dataFilesAt t.tableId s := by
  unfold dataFilesAt
  rw [deleteSnapshots_dataFiles h]
  apply filter_filter_of_seen
  intro file _ hseen
  simp only [Bool.and_eq_true, beq_iff_eq] at hseen
  simp [dataFileExpired, hseen.2, not_tableExpired hs ht hvis,
    Validity.not_expired_of_visibleAt hs hseen.1]

/-- A data file that is seen keeps its id, and with it what is stored by this id. -/
theorem not_dataFileIdExpired (hs : s ∈ md.retained ids) {t : TableRow} (ht : t ∈ md.tables)
    (hvis : t.life.visibleAt s = true) {file : DataFileRow} (hfile : file ∈ md.dataFilesAt t.tableId s) :
    md.dataFileIdExpired (md.retained ids) file.dataFileId = false := by
  obtain ⟨hmem, hseen⟩ := List.mem_filter.mp hfile
  simp only [Bool.and_eq_true, beq_iff_eq] at hseen
  rw [dataFileIdExpired, any_id_eq md.dataFileId_nodup hmem, dataFileExpired, hseen.2,
    not_tableExpired hs ht hvis, Validity.not_expired_of_visibleAt hs hseen.1]
  rfl

theorem dataFileContent_eq (h : md.deleteSnapshots settings snapshot ids = .ok md')
    (hs : s ∈ md.retained ids) {t : TableRow} (ht : t ∈ md.tables)
    (hvis : t.life.visibleAt s = true) {file : DataFileRow} (hfile : file ∈ md.dataFilesAt t.tableId s) :
    md'.dataFileContent file = md.dataFileContent file := by
  obtain ⟨files, deletes, hfiles, _, rfl⟩ := deleteSnapshots_ok h
  have hkept : ∀ rows : List (KeyedRow DataFileIndex),
      (rows.filter (!(files.map (·.id)).contains ·.key)).filter (·.key == file.dataFileId) =
        rows.filter (·.key == file.dataFileId) := by
    intro rows
    apply filter_filter_of_seen
    intro row _ hkey
    rw [eq_of_beq hkey, contains_cleanupFiles hfiles, not_dataFileIdExpired hs ht hvis hfile]
    rfl
  unfold dataFileContent
  congr 1
  · exact hkept md.fileColumnStats
  · exact hkept md.fileVariantStats
  · exact hkept md.filePartitionValues

theorem deleteFilesAt_eq (h : md.deleteSnapshots settings snapshot ids = .ok md')
    (hs : s ∈ md.retained ids) {t : TableRow} (ht : t ∈ md.tables)
    (hvis : t.life.visibleAt s = true) :
    md'.deleteFilesAt t.tableId s = md.deleteFilesAt t.tableId s := by
  unfold deleteFilesAt
  rw [deleteSnapshots_deleteFiles h, dataFilesAt_eq h hs ht hvis]
  apply filter_filter_of_seen
  intro file _ hseen
  simp only [Bool.and_eq_true, beq_iff_eq, List.any_eq_true] at hseen
  obtain ⟨⟨hfile, htable⟩, data, hdata, hid⟩ := hseen
  have hdata := not_dataFileIdExpired hs ht hvis hdata
  simp [deleteFileExpired, htable, not_tableExpired hs ht hvis, ← hid, hdata,
    Validity.not_expired_of_visibleAt hs hfile]

/-- The inlined tables of a table that stays are not among those that are dropped. -/
theorem inlinedTablesToDrop_not_mem {D : List TableIndex} {tableId : TableIndex} (hD : tableId ∉ D) :
    inlinedFileDeletionTableName tableId ∉ md.inlinedTablesToDrop D ∧
    ∀ row ∈ md.inlinedDataTables, row.tableId = tableId →
      row.tableName ∉ md.inlinedTablesToDrop D := by
  simp only [inlinedTablesToDrop, List.mem_append, List.mem_map, List.mem_filter,
    List.contains_iff_mem, not_or, not_exists, not_and]
  refine ⟨⟨?_, ?_⟩, fun row hrow heq => ⟨?_, ?_⟩⟩
  · intro row hrow heq
    rw [md.tableName_eq row hrow.1] at heq
    exact inlinedTableNameFor_ne_deletion _ _ _ heq
  · intro u hu heq
    exact hD (inlinedFileDeletionTableName_injective heq ▸ hu)
  · intro other hother hname
    rw [md.tableName_eq row hrow, md.tableName_eq other hother.1] at hname
    exact hD (heq ▸ inlinedTableNameFor_table hname ▸ hother.2)
  · intro u _ hname
    rw [md.tableName_eq row hrow] at hname
    exact inlinedTableNameFor_ne_deletion _ _ _ hname.symm

/-- Trimming an inlined table leaves its name and the rows that a retained snapshot sees. -/
theorem seenRows_trimmed {retained : List SnapshotId} (hs : s ∈ retained) (name : Text)
    (trim : Text × List InlinedDataRow → Bool) (tables : List (Text × List InlinedDataRow)) :
    ((tables.map fun table => if trim table then
        (table.1, table.2.filter (!·.life.expired retained)) else table).filter
        (·.1 == name)).flatMap (fun table => table.2.filter (·.life.visibleAt s)) =
      (tables.filter (·.1 == name)).flatMap fun table => table.2.filter (·.life.visibleAt s) := by
  have hrows : ∀ table : Text × List InlinedDataRow,
      (table.2.filter (!·.life.expired retained)).filter (·.life.visibleAt s) =
        table.2.filter (·.life.visibleAt s) := by
    intro table
    apply filter_filter_of_seen
    intro row _ hseen
    rw [Validity.not_expired_of_visibleAt hs hseen]
    rfl
  induction tables with
  | nil => rfl
  | cons table tables ih =>
    simp only [List.map_cons, List.filter_cons]
    by_cases htrim : trim table = true
    · by_cases hname : (table.1 == name) = true
      · simp only [htrim, if_true, hname, List.flatMap_cons, hrows, ih]
      · simp only [htrim, if_true, hname, ih, Bool.false_eq_true, if_false]
    · by_cases hname : (table.1 == name) = true
      · simp only [htrim, hname, List.flatMap_cons, ih, Bool.false_eq_true, if_false, if_true]
      · simp only [htrim, hname, ih, Bool.false_eq_true, if_false]

theorem not_mem_cleanupTables (hs : s ∈ md.retained ids) {t : TableRow} (ht : t ∈ md.tables)
    (hvis : t.life.visibleAt s = true) :
    t.tableId ∉ (md.deleteSnapshotRows ids).cleanupTables := by
  rw [mem_cleanupTables, not_tableExpired hs ht hvis]
  exact Bool.false_ne_true

theorem inlinedRowsAt_eq (h : md.deleteSnapshots settings snapshot ids = .ok md')
    (hs : s ∈ md.retained ids) {t : TableRow} (ht : t ∈ md.tables)
    (hvis : t.life.visibleAt s = true) {row : InlinedDataTableRow} (hrow : row ∈ md.inlinedDataTables)
    (htable : row.tableId = t.tableId) :
    md'.inlinedRowsAt row.tableName s = md.inlinedRowsAt row.tableName s := by
  obtain ⟨files, deletes, _, _, rfl⟩ := deleteSnapshots_ok h
  have hD := not_mem_cleanupTables hs ht hvis
  have hdrop : (!(md.inlinedTablesToDrop (md.deleteSnapshotRows ids).cleanupTables).contains
      row.tableName) = true := by
    simpa using (inlinedTablesToDrop_not_mem hD).2 row hrow htable
  refine (seenRows_trimmed hs _ _ _).trans ?_
  unfold inlinedRowsAt
  apply congrArg
  apply filter_filter_of_seen
  intro table _ hkey
  rw [eq_of_beq hkey]
  exact hdrop

theorem inlinedDeletionsAt_eq (h : md.deleteSnapshots settings snapshot ids = .ok md')
    (hs : s ∈ md.retained ids) {t : TableRow} (ht : t ∈ md.tables)
    (hvis : t.life.visibleAt s = true) :
    md'.inlinedDeletionsAt t.tableId s = md.inlinedDeletionsAt t.tableId s := by
  have hdata := dataFilesAt_eq h hs ht hvis
  unfold inlinedDeletionsAt
  rw [hdata]
  obtain ⟨files, deletes, _, _, rfl⟩ := deleteSnapshots_ok h
  have hD := not_mem_cleanupTables hs ht hvis
  have hdrop : (!(md.inlinedTablesToDrop (md.deleteSnapshotRows ids).cleanupTables).contains
      (inlinedFileDeletionTableName t.tableId)) = true := by
    simpa using (inlinedTablesToDrop_not_mem hD).1
  apply congrArg
  apply filter_filter_of_seen
  intro table _ hkey
  rw [eq_of_beq hkey]
  exact hdrop

theorem tableContent_eq (h : md.deleteSnapshots settings snapshot ids = .ok md')
    (hs : s ∈ md.retained ids) {t : TableRow} (ht : t ∈ md.tables)
    (hvis : t.life.visibleAt s = true) : md'.tableContent s t = md.tableContent s t := by
  have hdata := dataFilesAt_eq h hs ht hvis
  have hfiles : (md'.dataFilesAt t.tableId s).map md'.dataFileContent =
      (md.dataFilesAt t.tableId s).map md.dataFileContent := by
    rw [hdata]
    apply List.map_congr_left
    intro file hfile
    exact dataFileContent_eq h hs ht hvis hfile
  have hdeletes := deleteFilesAt_eq h hs ht hvis
  have hinlined := inlinedDeletionsAt_eq h hs ht hvis
  have hrows : ∀ row ∈ md.inlinedDataTables, row.tableId = t.tableId →
      md'.inlinedRowsAt row.tableName s = md.inlinedRowsAt row.tableName s :=
    fun row hrow heq => inlinedRowsAt_eq h hs ht hvis hrow heq
  unfold tableContent
  rw [hfiles, hdeletes, hinlined]
  obtain ⟨files, deletes, _, _, rfl⟩ := deleteSnapshots_ok h
  have hD : (!(md.deleteSnapshotRows ids).cleanupTables.contains t.tableId) = true := by
    rw [contains_cleanupTables, not_tableExpired hs ht hvis]
    rfl
  have hkept : ∀ rows : List (VersionedRow TableIndex),
      ofTableAt (rows.filter (!(md.deleteSnapshotRows ids).cleanupTables.contains ·.key))
        t.tableId s = ofTableAt rows t.tableId s := by
    intro rows
    apply filter_filter_of_seen
    intro row _ hseen
    rw [eq_of_beq (Bool.and_eq_true_iff.mp hseen).2]
    exact hD
  congr 1
  · exact hkept md.columns
  · exact hkept md.columnTags
  · exact hkept md.partitionInfo
  · exact hkept md.sortInfo
  · have hregistered : (md.inlinedDataTables.filter
        (!(md.deleteSnapshotRows ids).cleanupTables.contains ·.tableId)).filter
        (·.tableId == t.tableId) = md.inlinedDataTables.filter (·.tableId == t.tableId) := by
      apply filter_filter_of_seen
      intro row _ hkey
      rw [eq_of_beq hkey]
      exact hD
    refine (congrArg (List.map _) hregistered).trans ?_
    apply List.map_congr_left
    intro row hrow
    obtain ⟨hmem, hkey⟩ := List.mem_filter.mp hrow
    rw [hrows row hmem (eq_of_beq hkey)]
  · have hmappings : (md.columnMappings.filter
        (!(md.deleteSnapshotRows ids).cleanupTables.contains ·.tableId)).filter
        (·.tableId == t.tableId) = md.columnMappings.filter (·.tableId == t.tableId) := by
      apply filter_filter_of_seen
      intro row _ hkey
      rw [eq_of_beq hkey]
      exact hD
    refine (congrArg (List.map _) hmappings).trans ?_
    apply List.map_congr_left
    intro mapping hmapping
    apply congrArg (Prod.mk mapping)
    apply filter_filter_of_seen
    intro row _ hkey
    obtain ⟨hmem, hkey'⟩ := List.mem_filter.mp hmapping
    apply List.any_eq_true.mpr
    refine ⟨mapping, List.mem_filter.mpr ⟨hmem, ?_⟩, by rw [eq_of_beq hkey]; simp⟩
    rw [eq_of_beq hkey']
    exact hD

theorem visibleRows_withoutExpired {κ : Type} {rows : List (VersionedRow κ)}
    (hs : s ∈ md.snapshots) : visibleRows (md.withoutExpired rows) s = visibleRows rows s := by
  apply filter_filter_of_seen
  intro row _ hseen
  rw [Validity.not_expired_of_visibleAt hs hseen]
  rfl

/-- What belongs to a row that is seen is no orphan. -/
theorem ofSeen_not_orphan {κ : Type} [BEq κ] [LawfulBEq κ] {rows : List (VersionedRow κ)}
    {children : List (KeyedRow κ)} {row : VersionedRow κ} (hs : s ∈ md.snapshots)
    (hrow : row ∈ visibleRows rows s) :
    (children.filter fun child => (md.withoutExpired rows).any (·.key == child.key)).filter
      (·.key == row.key) = children.filter (·.key == row.key) := by
  rw [← visibleRows_withoutExpired hs] at hrow
  apply filter_filter_of_seen
  intro child _ hkey
  refine List.any_eq_true.mpr ⟨row, (List.mem_filter.mp hrow).1, ?_⟩
  rw [eq_of_beq hkey]
  exact beq_self_eq_true _

theorem contentAt_eq (h : md.deleteSnapshots settings snapshot ids = .ok md')
    (hs : s ∈ md.retained ids) : md'.contentAt s = md.contentAt s := by
  have htables : ∀ t ∈ md.tables, t.life.visibleAt s = true →
      md'.tableContent s t = md.tableContent s t :=
    fun t ht hvis => tableContent_eq h hs ht hvis
  have hseen : (md'.tables.filter (·.life.visibleAt s)).map (md'.tableContent s) =
      (md.tables.filter (·.life.visibleAt s)).map (md.tableContent s) := by
    have hkept : md'.tables.filter (·.life.visibleAt s) =
        md.tables.filter (·.life.visibleAt s) := by
      obtain ⟨files, deletes, _, _, rfl⟩ := deleteSnapshots_ok h
      apply filter_filter_of_seen
      intro t ht hvis
      rw [contains_cleanupTables, not_tableExpired hs ht hvis]
      rfl
    rw [hkept]
    apply List.map_congr_left
    intro t ht
    obtain ⟨hmem, hvis⟩ := List.mem_filter.mp ht
    exact htables t hmem hvis
  unfold contentAt
  rw [hseen]
  obtain ⟨files, deletes, _, _, rfl⟩ := deleteSnapshots_ok h
  have hs' : s ∈ (md.deleteSnapshotRows ids).snapshots := hs
  congr 1
  · apply filter_filter_of_seen
    intro row _ hvis
    exact congrArg (!·) (Validity.not_expired_of_visibleAt hs' hvis)
  · exact visibleRows_withoutExpired hs'
  · change visibleRows (if settings.supportsV1_1Metadata then
      (md.deleteSnapshotRows ids).withoutExpired md.viewColumnTags else md.viewColumnTags) s = _
    split
    · exact visibleRows_withoutExpired hs'
    · rfl
  · exact visibleRows_withoutExpired hs'
  · refine (congrArg (List.map _) (visibleRows_withoutExpired hs')).trans ?_
    apply List.map_congr_left
    intro row hrow
    congr 1
    · exact ofSeen_not_orphan hs' hrow
    · exact ofSeen_not_orphan hs' hrow
  · refine (congrArg (List.map _) (visibleRows_withoutExpired hs')).trans ?_
    apply List.map_congr_left
    intro row hrow
    congr 1
    exact ofSeen_not_orphan hs' hrow
  · exact visibleRows_withoutExpired hs'
  · exact visibleRows_withoutExpired hs'

/-! ## Scheduled files -/

/-- The rows of both file tables. -/
def fileRows (md : Metadata) : List FileRow :=
  md.dataFiles.map (·.fileRow) ++ md.deleteFiles.map (·.fileRow)

/-- The rows of both file tables that an expiration removes. -/
def expiredFileRows (md : Metadata) (retained : List SnapshotId) : List FileRow :=
  (md.dataFiles.filter (md.dataFileExpired retained)).map (·.fileRow) ++
    (md.deleteFiles.filter (md.deleteFileExpired retained)).map (·.fileRow)

/-- The rows of both file tables that an expiration leaves. -/
def keptFileRows (md : Metadata) (retained : List SnapshotId) : List FileRow :=
  (md.dataFiles.filter (!md.dataFileExpired retained ·)).map (·.fileRow) ++
    (md.deleteFiles.filter (!md.deleteFileExpired retained ·)).map (·.fileRow)

/-- What is resolved to a path is resolved in the transaction of the expiration, which has the
directory of every table from before it. -/
def resolved (md : Metadata) (settings : CatalogSettings) (snapshot : SnapshotId) (row : FileRow) :
    Except Exception Text :=
  md.filePath settings snapshot row.tableId row.path

/-- The entries that the expiration has added, with the paths that are deleted for them. -/
def scheduledPaths (md md' : Metadata) (settings : CatalogSettings) : List Text :=
  (md'.filesScheduledForDeletion.drop md.filesScheduledForDeletion.length).map fun entry =>
    fromRelativePath settings entry.path settings.dataPath

/-- Retained snapshots are seen as before, and no file of a row that is left is scheduled. -/
structure KeepsRetained (md : Metadata) (settings : CatalogSettings) (snapshot : SnapshotId)
    (ids : List SnapshotId) (md' : Metadata) : Prop where
  readable : ∀ s ∈ md.snapshots, s ∉ ids → md'.contentAt s = md.contentAt s
  unscheduled : ∀ p ∈ md.scheduledPaths md' settings, ∀ row ∈ md'.fileRows,
    md.resolved settings snapshot row ≠ .ok p

/-- A file that is shared by a row that expires and a row that does not is an external one. -/
def SharesNoOwnedFile (md : Metadata) (settings : CatalogSettings) (snapshot : SnapshotId)
    (ids : List SnapshotId) : Prop :=
  ∀ gone ∈ md.expiredFileRows (md.retained ids), ∀ kept ∈ md.keptFileRows (md.retained ids),
    ∀ p, md.resolved settings snapshot gone = .ok p → md.resolved settings snapshot kept = .ok p →
      md.isExternalFile p = true

theorem fileRows_eq (h : md.deleteSnapshots settings snapshot ids = .ok md') :
    md'.fileRows = md.keptFileRows (md.retained ids) := by
  unfold fileRows keptFileRows
  rw [deleteSnapshots_dataFiles h, deleteSnapshots_deleteFiles h]

/-- The scheduled paths are those of the rows that expire, less the external files. -/
theorem mem_scheduledPaths (h : md.deleteSnapshots settings snapshot ids = .ok md') {p : Text} :
    p ∈ md.scheduledPaths md' settings ↔
      (∃ row ∈ md.expiredFileRows (md.retained ids), md.resolved settings snapshot row = .ok p) ∧
        md.isExternalFile p = false := by
  obtain ⟨files, deletes, hfiles, hdeletes, rfl⟩ := deleteSnapshots_ok h
  have hall : CleansUp md settings snapshot (md.expiredFileRows (md.retained ids))
      (files ++ deletes) := (cleansUp_dataFiles hfiles).append (cleansUp_deleteFiles hfiles hdeletes)
  let place : DuckLakeFileForCleanup → ScheduledFileRow := fun file =>
    ⟨file.id, getRelativePath settings file.path⟩
  change p ∈ ((md.filesScheduledForDeletion ++
      (files.filter (!md.isExternalFile ·.path)).map place ++
      (deletes.filter (!md.isExternalFile ·.path)).map place).drop
    md.filesScheduledForDeletion.length).map _ ↔ _
  rw [List.append_assoc, List.drop_left, ← List.map_append, ← List.filter_append]
  simp only [List.map_map, List.mem_map, List.mem_filter, Function.comp_apply, Bool.not_eq_true']
  constructor
  · rintro ⟨file, ⟨hfile, hext⟩, rfl⟩
    obtain ⟨row, hrow, _, hpath⟩ := hall.gone file hfile
    obtain ⟨stored, hstored⟩ := filePath_loaded hpath
    rw [fromRelativePath_getRelativePath hstored]
    exact ⟨⟨row, hrow, hpath⟩, hext⟩
  · rintro ⟨⟨row, hrow, hpath⟩, hext⟩
    obtain ⟨file, hfile, _, hpath'⟩ := hall.cleaned row hrow
    have heq : file.path = p := Except.ok.inj (hpath'.symm.trans hpath)
    obtain ⟨stored, hstored⟩ := filePath_loaded hpath'
    refine ⟨file, ⟨hfile, heq ▸ hext⟩, ?_⟩
    rw [fromRelativePath_getRelativePath hstored, heq]

/-- An expiration keeps what is retained exactly if no row that expires shares a file, other than
an external one, with a row that does not. -/
theorem keepsRetained_iff (h : md.deleteSnapshots settings snapshot ids = .ok md') :
    md.KeepsRetained settings snapshot ids md' ↔ md.SharesNoOwnedFile settings snapshot ids := by
  constructor
  · intro hkeeps gone hgone kept hkept p hp hp'
    by_contra hext
    have hscheduled : p ∈ md.scheduledPaths md' settings :=
      (mem_scheduledPaths h).mpr ⟨⟨gone, hgone, hp⟩, Bool.eq_false_iff.mpr hext⟩
    exact hkeeps.unscheduled p hscheduled kept (fileRows_eq h ▸ hkept) hp'
  · intro hshare
    constructor
    · intro s hs hexpired
      apply contentAt_eq h
      exact List.mem_filter.mpr ⟨hs, by simpa using hexpired⟩
    · intro p hp row hrow hpath
      rw [fileRows_eq h] at hrow
      obtain ⟨⟨gone, hgone, hgonePath⟩, hext⟩ := (mem_scheduledPaths h).mp hp
      rw [hshare gone hgone row hrow p hgonePath hpath] at hext
      cases hext

/-- Only a file whose table has no path makes an expiration throw. -/
theorem deleteSnapshots_succeeds
    (h : ∀ row ∈ md.fileRows, ∃ p, md.resolved settings snapshot row = .ok p) :
    ∃ md', md.deleteSnapshots settings snapshot ids = .ok md' := by
  have hclean : ∀ row ∈ md.fileRows, ∃ file,
      md.fileForCleanup settings snapshot row.id row.tableId row.path = .ok file := by
    intro row hrow
    obtain ⟨p, hp⟩ := h row hrow
    exact ⟨⟨row.id, p⟩, fileForCleanup_ok.mpr ⟨hp, rfl⟩⟩
  have hfiles : ∃ files, (md.deleteSnapshotRows ids).cleanupFiles settings snapshot
      (md.deleteSnapshotRows ids).cleanupTables = .ok files := by
    apply mapM_succeeds
    intro row hrow
    exact hclean row.fileRow
      (List.mem_append_left _ (List.mem_map_of_mem (List.mem_filter.mp hrow).1))
  obtain ⟨files, hfiles⟩ := hfiles
  have hdeletes : ∃ deletes, (((md.deleteSnapshotRows ids).deleteDataFiles
      (files.map (·.id))).scheduleForDeletion settings files).cleanupDeletes settings snapshot
      (md.deleteSnapshotRows ids).cleanupTables (files.map (·.id)) = .ok deletes := by
    apply mapM_succeeds
    intro row hrow
    exact hclean row.fileRow
      (List.mem_append_right _ (List.mem_map_of_mem (List.mem_filter.mp hrow).1))
  obtain ⟨deletes, hdeletes⟩ := hdeletes
  unfold deleteSnapshots
  dsimp only
  rw [hfiles]
  dsimp only [bind, Except.bind]
  rw [hdeletes]
  exact ⟨_, rfl⟩

end Outcome

/-! ## One file in two tables -/

/-- Two tables to which the same parquet file was added at snapshots 3 and 4. The first table was
dropped at snapshot 5. -/
def sharedFile (external : List Text) : Metadata where
  snapshots := [0, 1, 2, 3, 4, 5]
  snapshotProtections := []
  schemas := [⟨0, ⟨0, none⟩, ⟨"main/".toList, true⟩, []⟩]
  tables := [⟨1, ⟨1, some 5⟩, 0, ⟨"a/".toList, true⟩, []⟩, ⟨2, ⟨2, none⟩, 0, ⟨"b/".toList, true⟩, []⟩]
  columns := [⟨1, ⟨1, some 5⟩, []⟩, ⟨2, ⟨2, none⟩, []⟩]
  columnTags := []
  partitionInfo := []
  partitionColumns := []
  sortInfo := []
  sortExpressions := []
  tableStats := []
  tableColumnStats := []
  schemaVersions := []
  columnMappings := []
  nameMappings := []
  dataFiles := [⟨0, 1, ⟨3, some 5⟩, ⟨"/x.parquet".toList, false⟩, []⟩,
    ⟨1, 2, ⟨4, none⟩, ⟨"/x.parquet".toList, false⟩, []⟩]
  fileColumnStats := []
  fileVariantStats := []
  filePartitionValues := []
  deleteFiles := []
  inlinedDataTables := []
  inlinedData := []
  inlinedDeletions := []
  views := []
  viewColumnTags := []
  tags := []
  macros := []
  macroImpls := []
  macroParameters := []
  procedures := []
  procedureParameters := []
  materializedViews := []
  materializedViewDependencies := []
  externalFiles := external
  filesScheduledForDeletion := []
  dataFileId_nodup := by decide
  deleteFileId_nodup := by decide
  tableName_eq := nofun

def localSettings : CatalogSettings := ⟨"/lake/".toList, '/', true⟩

/-- The file is scheduled for deletion although the second table still reads it. -/
theorem not_keepsRetained_sharedFile :
    ∃ md', (sharedFile []).deleteSnapshots localSettings 5 [0, 1, 2, 3, 4] = .ok md' ∧
      ¬ (sharedFile []).KeepsRetained localSettings 5 [0, 1, 2, 3, 4] md' := by
  refine ⟨_, rfl, fun h => ?_⟩
  exact h.unscheduled "/x.parquet".toList (by decide) ⟨1, 2, ⟨"/x.parquet".toList, false⟩⟩
    (by decide) rfl

/-- As an external file it is kept. -/
theorem keepsRetained_externalFile :
    ∃ md', (sharedFile ["/x.parquet".toList]).deleteSnapshots localSettings 5 [0, 1, 2, 3, 4] =
        .ok md' ∧
      (sharedFile ["/x.parquet".toList]).KeepsRetained localSettings 5 [0, 1, 2, 3, 4] md' := by
  refine ⟨_, rfl, (keepsRetained_iff rfl).mpr ?_⟩
  intro gone hgone kept hkept p hp _
  have hgone' : gone = ⟨0, 1, ⟨"/x.parquet".toList, false⟩⟩ :=
    List.mem_singleton.mp (show gone ∈ [_] from hgone)
  subst hgone'
  cases hp
  decide

end Metadata

end DuckLake
