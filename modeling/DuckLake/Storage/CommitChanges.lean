import Mathlib.Algebra.Order.Ring.Nat
import DuckLake.Storage.NewTableInfo

/-!
# The batch of a commit

`commitChanges` writes the staged objects of a transaction in the order in which they refer to
each other: schemas, tables and views, materialized views and their refreshes, macros and
procedures, name maps, data, deletes and compactions. `attempt` is one round of the commit loop.
-/

namespace DuckLake

section Commit

variable [SQLWriter]

open CommitM

/-! ## Schemas -/

def StagedSchema.depth (schema : StagedSchema) : Nat := schema.entry.parents.length

def newSchema (schema : StagedSchema) : CommitM DuckLakeSchemaInfo := do
  let id ← nextCatalogId
  let state ← getCommitState
  emplaceSchema schema.entry.schemaId id
  return {
    id := id
    parentId := schema.entry.parents.head?.map fun parent => state.getSchemaId parent.schemaId
    uuid := schema.uuid
    name := schema.entry.name
    path := schema.dataPath }

/-- Parents come before the schemas in them. -/
def getNewSchemas (T : StagedTransaction) : CommitM (List DuckLakeSchemaInfo) :=
  (T.newSchemas.mergeSort fun a b => a.depth ≤ b.depth).mapM newSchema

/-! ## Materialized views -/

def newMaterializedViewId (id : TableIndex) : CommitM TableIndex :=
  if h : isTransactionLocal id then do
    let new ← nextCatalogId
    emplaceTable id new (keepsCatalogId_of_local h)
    return new
  else getTableId id

def newMaterializedView (mv : DuckLakeMaterializedViewInfo) :
    CommitM DuckLakeMaterializedViewInfo := do
  let id ← newMaterializedViewId mv.id
  let state ← getCommitState
  return { mv with
    id := id
    schemaId := state.getSchemaId mv.schemaId
    backingTableId := state.getTableId mv.backingTableId
    dependencies := mv.dependencies.map state.getTableId }

def writeNewMaterializedViews (T : StagedTransaction) : CommitM Unit := do
  let views ← T.newMaterializedViews.mapM newMaterializedView
  emitIf (!views.isEmpty) (.newMaterializedViews views)

/-- The remapped ids are stored in the staged refreshes, and the statements are written from
these. -/
def writeMaterializedViewRefreshes (T : StagedTransaction) : CommitM Unit := do
  let state ← getCommitState
  let refreshes := T.refreshedMaterializedViews.map fun refresh =>
    { refresh with viewId := state.getTableId refresh.viewId }
  refreshes.zipIdx.forM fun refresh => store (.refreshViewId refresh.2 refresh.1.viewId)
  emitIf (!refreshes.isEmpty) (.materializedViewRefreshes refreshes)
  emitIf (!refreshes.isEmpty) (.materializedViewRefreshHistory refreshes)

/-! ## Macros, procedures and name maps -/

def newMacro (entry : MacroEntry) : CommitM DuckLakeMacroInfo := do
  let id ← nextCatalogId
  let schemaId ← getSchemaId entry.schema.schemaId
  return ⟨schemaId, id, entry.name, entry.implementations⟩

def writeNewMacros (T : StagedTransaction) : CommitM Unit := do
  let macros ← ((T.newScalarMacros ++ T.newTableMacros).flatMap (·.2)).mapM newMacro
  emitIf (!(T.newScalarMacros.isEmpty && T.newTableMacros.isEmpty)) (.newMacros macros)

def newProcedure (entry : DuckLakeProcedureEntry) : CommitM DuckLakeProcedureInfo := do
  let id ← nextCatalogId
  let schemaId ← getSchemaId entry.schema.schemaId
  return {
    schemaId := schemaId
    procedureId := id
    procedureName := entry.name
    language := entry.language
    body := entry.body
    returnType := entry.returnType
    parameters := entry.parameters
    definitionVersion := entry.definitionVersion
    securityDefiner := entry.securityDefiner }

def writeNewProcedures (T : StagedTransaction) : CommitM Unit := do
  let procedures ← (T.newProcedures.flatMap (·.2)).mapM newProcedure
  emitIf (!T.newProcedures.isEmpty) (.newProcedures procedures)

mutual

/-- The rows of a name map entry and of the entries below it, numbered from `columnIdx` on. -/
def convertNameMapColumn (parent : Option Nat) (columnIdx : Nat) :
    DuckLakeNameMapEntry → List DuckLakeNameMapColumnInfo
  | ⟨sourceName, targetFieldId, hivePartition, childEntries⟩ =>
    ⟨columnIdx, sourceName, targetFieldId, hivePartition, parent⟩ ::
      convertNameMapColumns (some columnIdx) (columnIdx + 1) childEntries

def convertNameMapColumns (parent : Option Nat) (columnIdx : Nat) :
    List DuckLakeNameMapEntry → List DuckLakeNameMapColumnInfo
  | [] => []
  | entry :: entries =>
    let rows := convertNameMapColumn parent columnIdx entry
    rows ++ convertNameMapColumns parent (columnIdx + rows.length) entries

end

def newNameMap (entry : MappingIndex × DuckLakeNameMap) : CommitM DuckLakeColumnMappingInfo := do
  let newMapId ← nextFileId
  let tableId ← getTableId entry.2.tableId
  ensure (!isTransactionLocal tableId)
    "table_id should be rewritten to non-transaction local before"
  setMappingIndex entry.1 newMapId
  return ⟨tableId, newMapId, "map_by_name", convertNameMapColumns none 0 entry.2.columnMaps⟩

def writeNewNameMaps (T : StagedTransaction) : CommitM Unit := do
  let maps ← T.newNameMaps.mapM newNameMap
  emitIf (!maps.isEmpty) (.newColumnMappings maps)

/-! ## Statistics -/

section Stats

variable [StatsMerge]

namespace DuckLakeTableStats

def mergeColumn (field : FieldIndex) (new : DuckLakeColumnStats) :
    List (FieldIndex × DuckLakeColumnStats) → List (FieldIndex × DuckLakeColumnStats)
  | [] => [(field, new)]
  | entry :: entries =>
    if entry.1 = field then (field, entry.2.mergeStats new) :: entries
    else if field < entry.1 then (field, new) :: entry :: entries
    else entry :: mergeColumn field new entries

def mergeStats (stats : DuckLakeTableStats) (new : List (FieldIndex × DuckLakeColumnStats)) :
    DuckLakeTableStats :=
  { stats with
    columnStats := new.foldl (fun columns entry => mergeColumn entry.1 entry.2 columns)
      stats.columnStats }

/-- Files with a partial snapshot hold rows that were counted before. -/
def mergeFileStats (stats : DuckLakeTableStats) (file : DuckLakeDataFile) : DuckLakeTableStats :=
  let counted :=
    if file.maxPartialFileSnapshot.isSome then stats
    else
      let next := stats.nextRowId + file.rowCount
      { stats with
        recordCount := stats.recordCount + file.rowCount
        nextRowId := match file.flushRowIdStart with
          | some start => max next (start + file.rowCount)
          | none => next }
  mergeStats { counted with tableSizeBytes := counted.tableSizeBytes + file.fileSizeBytes }
    file.columnStats

/-- Rows of an update keep their row ids, the others take new ones. -/
def mergeInlinedData (stats : DuckLakeTableStats) (data : DuckLakeInlinedData) :
    DuckLakeTableStats :=
  let stats := stats.mergeStats data.columnStats
  { stats with
    recordCount := stats.recordCount + data.rows.length
    nextRowId := stats.nextRowId +
      if data.rowIds.isEmpty then data.rows.length
      else data.rowIds.countP isTransactionLocalRowId }

end DuckLakeTableStats

def subtractDroppedFileStat (value decrement : Nat) : Except Exception Nat :=
  if value < decrement then
    internalException "Dropped DuckLake file stats exceed current table stats"
  else .ok (value - decrement)

/-- The statistics once the dropped files are taken off, and whether live rows remain. -/
def dropFileStats (stats : DuckLakeTableStats) (dropped : DroppedDataFileStats) :
    Except Exception (Bool × DuckLakeTableStats) := do
  let recordCount ← subtractDroppedFileStat stats.recordCount dropped.rowCount
  if 0 < recordCount then
    let size ← subtractDroppedFileStat stats.tableSizeBytes dropped.fileSizeBytes
    return (true, { stats with recordCount := recordCount, tableSizeBytes := size })
  else
    -- let same-commit inserts seed min/max after the table was emptied
    return (false, { stats with
      recordCount := recordCount
      tableSizeBytes := 0
      columnStats := stats.columnStats.map fun entry =>
        (entry.1, { type := entry.2.type, isAnyValid := false }) })

def applyDroppedFileStats (tableId : TableIndex) (stats : DuckLakeTableStats) :
    CommitM (Bool × DuckLakeTableStats) := do
  match (← get).droppedFileStats.lookup tableId with
  | none => return (false, stats)
  | some dropped =>
    let applied ← ofExcept (dropFileStats stats dropped)
    modify fun s => { s with droppedFileStats := s.droppedFileStats.filter (·.1 ≠ tableId) }
    return applied

def writeTableStats (tableId : TableIndex) (stats : DuckLakeTableStats) (initialized : Bool)
    (clearColumnStats : Bool) : CommitM Unit := do
  -- the rows are deleted below - drop them from the update
  let stats := if clearColumnStats then { stats with columnStats := [] } else stats
  emit (.globalTableStats tableId stats initialized)
  emitIf clearColumnStats (.deleteTableColumnStats tableId)

def updateDroppedTableStats (env : CommitEnvironment) (tableId : TableIndex) : CommitM Unit := do
  let current ← ofExcept (env.tableStats tableId)
  match current with
  | none =>
    ofExcept (internalException "Missing DuckLake table stats for table with dropped data files")
  | some stats =>
    let applied ← applyDroppedFileStats tableId stats
    writeTableStats tableId applied.2 true applied.1

def updateStatsForDroppedFiles (env : CommitEnvironment) : CommitM Unit := do
  let remaining := (← get).droppedFileStats
  (remaining.map (·.1)).forM (updateDroppedTableStats env)

/-! ## Data files -/

def buildDataFileInfo (file : DuckLakeDataFile) (id : DataFileIndex) (tableId : TableIndex)
    (rowIdStart : Option Nat) : DuckLakeFileInfo where
  id := id
  tableId := tableId
  fileName := file.fileName
  fileFormat := file.fileFormat
  rowCount := file.rowCount
  fileSizeBytes := file.fileSizeBytes
  footerSize := file.footerSize
  rowGroupCount := file.rowGroupCount
  rowIdStart := rowIdStart
  partitionId := file.partitionId
  beginSnapshot := file.beginSnapshot
  maxPartialFileSnapshot := file.maxPartialFileSnapshot
  encryptionKey := file.encryptionKey
  mappingId := file.mappingId
  columnStats := file.columnStats
  partitionValues := file.partitionValues

def getNewDataFile (file : DuckLakeDataFile) (tableId : TableIndex) (rowIdStart : Option Nat) :
    CommitM DuckLakeFileInfo := do
  let id ← nextFileId
  let state ← getCommitState
  let partitionId := state.remapPartitionId file.partitionId
  ensure (!partitionId.any isTransactionLocal)
    "Cannot commit data file with transaction-local partition id"
  return { buildDataFileInfo file id tableId rowIdStart with
    partitionId := partitionId
    mappingId := state.remapMappingIndex file.mappingId }

structure NewDataInfo where
  newFiles : List DuckLakeFileInfo := []
  newInlinedData : List DuckLakeInlinedDataInfo := []

/-- The files of one table so far: the statistics, the rows of the files, and the deletes on top
of them. -/
structure TableFiles where
  stats : DuckLakeTableStats
  files : List DuckLakeFileInfo := []
  deleteFiles : List DuckLakeDeleteFile := []

def newDataFileStep (tableId : TableIndex) (acc : TableFiles) (file : DuckLakeDataFile) :
    CommitM TableFiles := do
  -- flushed files have embedded row ids and keep the row id they start from
  let rowIdStart := file.flushRowIdStart.getD acc.stats.nextRowId
  let dataFile ← getNewDataFile file tableId (some rowIdStart)
  return {
    stats := acc.stats.mergeFileStats file
    files := acc.files ++ [dataFile]
    deleteFiles := acc.deleteFiles ++ file.deleteFiles.map ({ · with dataFileId := dataFile.id }) }

/-- The inlined rows of a table. A file id is used up to signal the change when there is no new
file. -/
def newInlinedRows (tableId : TableIndex) (changes : LocalTableDataChanges)
    (stats : DuckLakeTableStats) : CommitM (DuckLakeTableStats × List DuckLakeInlinedDataInfo) :=
  match changes.newInlinedData with
  | none => pure (stats, [])
  | some data => do
    runIf changes.newDataFiles.isEmpty skipFileId
    return (stats.mergeInlinedData data, [⟨tableId, stats.nextRowId, data⟩])

def newTableData (env : CommitEnvironment) (acc : NewDataInfo)
    (entry : TableIndex × LocalTableDataChanges) : CommitM NewDataInfo := do
  let tableId ← getTableId entry.1
  ensure (!isTransactionLocal tableId)
    "Cannot commit transaction local files - these should have been cleaned up before"
  if entry.2.newDataFiles.isEmpty && entry.2.newInlinedData.isNone then return acc
  else
    let current ← ofExcept (env.tableStats tableId)
    let applied ← applyDroppedFileStats tableId (current.getD {})
    let files ← entry.2.newDataFiles.foldlM (newDataFileStep tableId) { stats := applied.2 }
    setLocalDeleteFiles tableId files.deleteFiles
    let inlined ← newInlinedRows tableId entry.2 files.stats
    writeTableStats tableId inlined.1 current.isSome applied.1
    return {
      newFiles := acc.newFiles ++ files.files
      newInlinedData := acc.newInlinedData ++ inlined.2 }

def getNewDataFiles (env : CommitEnvironment) (T : StagedTransaction) : CommitM NewDataInfo :=
  T.localChanges.changes.foldlM (newTableData env) {}

/-- The rows that a commit has written so far for tables and schemas; paths are relative to
them. -/
structure WrittenEntries where
  schemas : List DuckLakeSchemaInfo := []
  tables : List DuckLakeTableInfo := []
  inlinedDataTables : List DuckLakeTableInfo := []

def writeDataFiles (env : CommitEnvironment) (written : WrittenEntries)
    (files : List DuckLakeFileInfo) : CommitM Unit := do
  let rows ← files.mapM fun file => do
    let path ← ofExcept (env.filePath file.tableId file.fileName written.tables written.schemas)
    return (file, path)
  emitIf (!files.isEmpty) (.newDataFiles rows)

def writeNewData (env : CommitEnvironment) (T : StagedTransaction) (written : WrittenEntries) :
    CommitM Unit := do
  let data ← getNewDataFiles env T
  writeDataFiles env written data.newFiles
  let snapshot ← getCommitSnapshot
  let inlined ← ofExcept
    (env.writeInlinedData snapshot data.newInlinedData written.tables written.inlinedDataTables)
  newSchemaVersions inlined.2
  emit (.newInlinedData inlined.1)

def writeDroppedFiles (env : CommitEnvironment) (T : StagedTransaction) : CommitM Unit :=
  runIf (!T.droppedFiles.isEmpty) do
    emit (.dropDataFiles (OrdSet.ofList (T.droppedFiles.map (·.2))).elems)
    updateStatsForDroppedFiles env

/-! ## Deletes -/

def getNewDeleteFile (tableId : TableIndex) (file : DuckLakeDeleteFile) :
    CommitM DuckLakeDeleteFileInfo := do
  let id ← nextFileId
  return {
    id := id
    tableId := tableId
    dataFileId := file.dataFileId
    path := file.fileName
    format := file.format
    deleteCount := file.deleteCount
    fileSizeBytes := file.fileSizeBytes
    footerSize := file.footerSize
    rowGroupCount := file.rowGroupCount
    encryptionKey := file.encryptionKey
    beginSnapshot := file.beginSnapshot
    maxSnapshot := file.maxSnapshot }

def newTableDeletes (entry : TableIndex × LocalTableDataChanges) :
    CommitM (List DuckLakeDeleteFileInfo) := do
  let tableId ← getTableId entry.1
  (entry.2.newDeleteFiles.flatMap (·.2)).mapM (getNewDeleteFile tableId)

/-- Deletes on data files that are added by the same transaction. -/
def newLocalDeletes (entry : TableIndex × List DuckLakeDeleteFile) :
    CommitM (List DuckLakeDeleteFileInfo) := do
  let tableId ← getTableId entry.1
  ensure (entry.2.all (·.overwrittenDeleteFile.isNone))
    "Local delete files should not overwrite files"
  entry.2.mapM (getNewDeleteFile tableId)

def overwrittenDeleteFiles (T : StagedTransaction) : List DuckLakeOverwrittenDeleteFile :=
  T.localChanges.changes.flatMap fun entry =>
    (entry.2.newDeleteFiles.flatMap (·.2)).filterMap (·.overwrittenDeleteFile)

def getNewDeleteFiles (T : StagedTransaction) : CommitM (List DuckLakeDeleteFileInfo) := do
  let files ← T.localChanges.changes.mapM newTableDeletes
  let state ← getCommitState
  let localFiles ← state.localDeleteFiles.mapM newLocalDeletes
  return files.flatten ++ localFiles.flatten

def writeNewDeleteFiles (env : CommitEnvironment) (T : StagedTransaction)
    (written : WrittenEntries) : CommitM Unit := do
  let files ← getNewDeleteFiles T
  let overwritten := overwrittenDeleteFiles T
  emitIf (!overwritten.isEmpty) (.deleteOverwrittenDeleteFiles
    (overwritten.map fun file => (file, env.getRelativePath file.path)))
  let rows ← files.mapM fun file => do
    let path ← ofExcept (env.filePath file.tableId file.path written.tables written.schemas)
    return (file, path)
  emitIf (!files.isEmpty) (.newDeleteFiles rows)

def newInlinedDeletes (entry : TableIndex × LocalTableDataChanges) :
    CommitM (List DuckLakeDeletedInlinedDataInfo) := do
  let tableId ← getTableId entry.1
  return entry.2.newInlinedDataDeletes.map fun deletes => ⟨tableId, deletes.1, deletes.2.elems⟩

def newInlinedFileDeletes (entry : TableIndex × LocalTableDataChanges) :
    CommitM (List DuckLakeInlinedFileDeletionInfo) := do
  let tableId ← getTableId entry.1
  return match entry.2.newInlinedFileDeletes with
    | some (deletes :: rest) => [⟨tableId, deletes :: rest⟩]
    | _ => []

def writeInlinedDeletes (env : CommitEnvironment) (T : StagedTransaction) : CommitM Unit := do
  let deletes ← T.localChanges.changes.mapM newInlinedDeletes
  emitIf (!deletes.flatten.isEmpty) (.newInlinedDeletes deletes.flatten)
  let fileDeletes ← T.localChanges.changes.mapM newInlinedFileDeletes
  let rows ← ofExcept (env.writeInlinedFileDeletes fileDeletes.flatten)
  emit (.newInlinedFileDeletes rows)

/-! ## Compactions -/

/-- The snapshots that the output of a compaction covers. -/
def compactionBounds (compaction : DuckLakeCompactionEntry) (commitSnapshot : SnapshotId) :
    SnapshotId × Option SnapshotId :=
  match compaction.type with
  | .rewriteDeletes => (commitSnapshot, none)
  | .mergeAdjacentTables =>
    -- the first source file's begin snapshot gives proper time travel support
    let begins := compaction.sourceFiles.map (·.beginSnapshot)
    let maxSnapshots := compaction.sourceFiles.map fun file =>
      file.maxPartialFileSnapshot.getD file.beginSnapshot
    (begins.head?.getD 0,
      if 1 < compaction.sourceFiles.length then maxSnapshots.max? else none)

def newCompactionFile (tableId : TableIndex) (compaction : DuckLakeCompactionEntry)
    (bounds : SnapshotId × Option SnapshotId) (acc : List DuckLakeFileInfo)
    (file : DuckLakeDataFile) : CommitM (List DuckLakeFileInfo) := do
  let rowCount := (acc.map (·.rowCount)).sum
  let newFile ← getNewDataFile file tableId (compaction.rowIdStart.map (· + rowCount))
  return acc ++ [{ newFile with
    beginSnapshot := some bounds.1
    maxPartialFileSnapshot := bounds.2.or newFile.maxPartialFileSnapshot }]

def compactedFile (tableId : TableIndex) (commitSnapshot : SnapshotId)
    (newId : Option DataFileIndex) (source : DuckLakeCompactionFileEntry) :
    DuckLakeCompactedFileInfo :=
  let info : DuckLakeCompactedFileInfo :=
    { path := source.path, sourceId := source.id, newId := newId, tableIndex := tableId,
      rewriteSnapshot := commitSnapshot }
  match source.deleteFiles.getLast? with
  | none => info
  | some deleteFile =>
    { info with
      deleteFilePath := deleteFile.path
      deleteFileId := some deleteFile.deleteFileId
      startSnapshot := some source.beginSnapshot
      deleteFileStartSnapshot := some commitSnapshot
      deleteFileEndSnapshot := deleteFile.endSnapshot }

/-- The live rows of the source files, computed in `idx_t`. -/
def liveSourceRows (compaction : DuckLakeCompactionEntry) : Idx :=
  compaction.sourceFiles.foldl
    (fun rows source =>
      rows + .ofNat source.rowCount - .ofNat ((source.deleteFiles.getLast?.map (·.rowCount)).getD 0)
        - .ofNat source.inlinedFileDeletions.elems.length)
    0

def newCompaction (tableId : TableIndex) (result : CompactionInformation)
    (compaction : DuckLakeCompactionEntry) : CommitM CompactionInformation := do
  let snapshot ← getCommitSnapshot
  let bounds := compactionBounds compaction snapshot.snapshotId
  let files ← compaction.writtenFiles.foldlM (newCompactionFile tableId compaction bounds) []
  let outputRows : Idx := .ofNat (files.map (·.rowCount)).sum
  let compacted := compaction.sourceFiles.map
    (compactedFile tableId snapshot.snapshotId (files.head?.map (·.id)))
  let limit := liveSourceRows compaction
  ensure (files.isEmpty || limit ≤ outputRows)
    ("Compaction error - live source rows (" ++ limit.toText ++ ") exceed output rows (" ++
      outputRows.toText ++ ")")
  ensure (!files.isEmpty || limit == 0)
    ("Compaction error - compaction without output file must have zero live source rows (got " ++
      limit.toText ++ ")")
  return {
    compactedFiles := result.compactedFiles ++ compacted
    newFiles := result.newFiles ++ files }

def getCompactionChanges (T : StagedTransaction) (type : CompactionType) :
    CommitM CompactionInformation :=
  T.localChanges.changes.foldlM
    (fun result entry =>
      (entry.2.compactions.filter (·.type = type)).foldlM (newCompaction entry.1) result)
    {}

def writeCompactions (env : CommitEnvironment) (T : StagedTransaction) (written : WrittenEntries) :
    CommitM Unit := do
  let merges ← getCompactionChanges T .mergeAdjacentTables
  emitIf (!merges.compactedFiles.isEmpty) (.compactions .mergeAdjacentTables merges.compactedFiles
    (merges.compactedFiles.map fun file => env.getRelativePath file.path))
  writeDataFiles env written merges.newFiles
  let rewrites ← getCompactionChanges T .rewriteDeletes
  writeDataFiles env written rewrites.newFiles
  emitIf (!rewrites.compactedFiles.isEmpty)
    (.compactions .rewriteDeletes rewrites.compactedFiles [])
  -- a table that has become free of deletes gets exact global statistics again
  (OrdSet.ofList (rewrites.compactedFiles.map (·.tableIndex))).elems.forM fun tableId => do
    let removed := rewrites.compactedFiles.filter (·.tableIndex = tableId)
    let rows ← ofExcept (env.recomputeGlobalStats env.rewriteReads tableId rewrites
      (removed.map (·.sourceId)))
    emit (.recomputedTableStats tableId rows)

/-! ## The batch -/

def commitInfoMessage : Text :=
  "Commit Information for the snapshot is required but has not been provided. \n * Provide the " ++
  "information with \"CALL ducklake.set_commit_message('author_name', 'commit_message'); \n * " ++
  "Set the required commit message to false with " ++
  "\"CALL ducklake.set_option('require_commit_message', False)\" '\""

def ensureCommitInfoProvided (T : StagedTransaction) : CommitM Unit :=
  if !T.requireCommitMessage || T.commitInfo.isCommitInfoSet then pure ()
  else throw ⟨.invalidConfiguration, commitInfoMessage⟩

def writeDrops (T : StagedTransaction) : CommitM Unit := do
  emitIf (!T.droppedTables.isEmpty) (.dropTables T.droppedTables false)
  emitIf (!T.renamedTables.isEmpty) (.dropTables T.renamedTables true)
  emitIf (!T.droppedViews.isEmpty) (.dropViews T.droppedViews false)
  emitIf (!T.renamedViews.isEmpty) (.dropViews T.renamedViews true)
  emitIf (!T.droppedMaterializedViews.isEmpty) (.dropMaterializedViews T.droppedMaterializedViews)
  emitIf (!T.droppedScalarMacros.isEmpty) (.dropMacros T.droppedScalarMacros)
  emitIf (!T.droppedTableMacros.isEmpty) (.dropMacros T.droppedTableMacros)
  emitIf (!T.droppedProcedures.isEmpty) (.dropProcedures T.droppedProcedures)
  emitIf (!T.droppedSchemas.isEmpty) (.dropSchemas T.droppedSchemas)

def writeNewSchemas (env : CommitEnvironment) (T : StagedTransaction) :
    CommitM (List DuckLakeSchemaInfo) := do
  let schemas ← getNewSchemas T
  emitIf (!schemas.isEmpty)
    (.newSchemas (schemas.map fun schema => (schema, env.getRelativePath schema.path)))
  return schemas

/-- Dropped columns that are not added again under the same field id. -/
def NewTableInfo.expiredColumnTags (info : NewTableInfo) : List DuckLakeDroppedColumn :=
  info.droppedColumns.filter fun dropped => info.newColumns.all fun new =>
    !(new.tableId = dropped.tableId && new.columnInfo.id = dropped.fieldId)

def writeTableRows (env : CommitEnvironment) (schemas : List DuckLakeSchemaInfo)
    (result : NewTableInfo) : CommitM Unit := do
  let tables ← result.newTables.mapM fun table => do
    let path ← ofExcept (env.tablePath table.schemaId table.path schemas)
    return (table, path)
  emit (.newTables tables)
  emit (.newTableOptions result.newTableOptions)
  store (.tableOptions result.newTableOptions)
  let snapshot ← getCommitSnapshot
  let partitions ← ofExcept (env.existingPartitions snapshot)
  let sorts ← ofExcept (env.existingSorts snapshot)
  emit (.newPartitionKeys partitions result.newPartitionKeys)
  emit (.newViews result.newViews)
  emit (.newTags result.newTags)
  emit (.newColumnTags result.newColumnTags)
  emit (.newViewColumnTags result.newViewColumnTags)
  emit (.droppedColumns result.droppedColumns)
  emit (.expiredColumnTags result.expiredColumnTags)
  emit (.newColumns result.newColumns)
  let inlinedTables ← ofExcept (env.writeInlinedTables snapshot result.newInlinedDataTables)
  emit (.newInlinedTables inlinedTables)
  emit (.newSortKeys sorts result.newSortKeys)
  emit (.constraintReplacements result.replacementConstraints)

def writeNewTables (env : CommitEnvironment) (T : StagedTransaction)
    (schemas : List DuckLakeSchemaInfo) : CommitM WrittenEntries :=
  if T.newTables.isEmpty then return { schemas := schemas }
  else do
    let result ← getNewTables T
    writeTableRows env schemas result
    return {
      schemas := schemas
      tables := result.newTables
      inlinedDataTables := result.newInlinedDataTables }

def writeTableChanges (env : CommitEnvironment) (T : StagedTransaction) (written : WrittenEntries) :
    CommitM Unit := do
  let hasTableDataChanges := !T.localChanges.changes.isEmpty
  runIf hasTableDataChanges (writeNewData env T written)
  emit (.deleteFlushedInlinedData T.flushedInlinedTables T.flushedInlinedFileDeletions)
  writeDroppedFiles env T
  runIf hasTableDataChanges do
    writeNewDeleteFiles env T written
    writeInlinedDeletes env T
    writeCompactions env T written

/-- The tables whose schema version changes. -/
def tablesWithSchemaChanges (changes : TransactionChangeInformation) (written : WrittenEntries) :
    OrdSet TableIndex :=
  let altered := changes.alteredTables.elems.filter fun id =>
    !isTransactionLocal id && decide (id ∈ changes.alteredTablesWithSchemaVersionChanges)
  let new := (written.tables.map (·.id)).filter fun id => !isTransactionLocal id
  .ofList (altered ++ new)

def insertNewSchema (written : WrittenEntries) : CommitM Unit := do
  let s ← get
  let tables := tablesWithSchemaChanges s.changes written
  emitIf (!tables.isEmpty)
    (.insertNewSchema s.commitSnapshot.snapshotId s.commitSnapshot.schemaVersion tables)

def commitChanges (env : CommitEnvironment) (T : StagedTransaction) : CommitM Unit := do
  store (.tableOptions [])
  ensureCommitInfoProvided T
  writeDrops T
  let schemas ← writeNewSchemas env T
  let written ← writeNewTables env T schemas
  writeNewMaterializedViews T
  writeMaterializedViewRefreshes T
  writeNewMacros T
  writeNewProcedures T
  writeNewNameMaps T
  writeTableChanges env T written
  insertNewSchema written

/-! ## One round of the commit loop -/

def commitBatch (env : CommitEnvironment) (T : StagedTransaction) : CommitM Unit := do
  emit .insertSnapshot
  commitChanges env T
  let s ← get
  let changesMade ← ofExcept
    (writeSnapshotChanges T.toDuckLakeTransactionState s.commitState s.changes)
  emit (.snapshotChanges (changesMadeColumn changesMade) T.commitInfo)

/-- The variables with which every attempt starts. -/
def startAttempt (env : CommitEnvironment) (changes : TransactionChangeInformation)
    (T : StagedTransaction) : CommitAttempt where
  commitSnapshot := { env.snapshot with
    snapshotId := env.snapshot.snapshotId + 1
    schemaVersion := env.snapshot.schemaVersion + if T.schemaChangesMade then 1 else 0 }
  changes := changes
  droppedFileStats := T.droppedFileStats

/-- The batch that an attempt sends to the catalog, and the snapshot it is to become. -/
def emitted (env : CommitEnvironment) (changes : TransactionChangeInformation)
    (T : StagedTransaction) : Except Exception (List Statement × DuckLakeSnapshot) :=
  let (result, s) := Attempt.run (commitBatch env T) (startAttempt env changes T)
  result.map fun _ => (s.batchQueries, s.commitSnapshot)

/-- The transaction after an attempt, whether it got to its end or not. -/
def afterAttempt (env : CommitEnvironment) (changes : TransactionChangeInformation)
    (T : StagedTransaction) : StagedTransaction :=
  (Attempt.run (commitBatch env T) (startAttempt env changes T)).2.stores.foldl .store T

end Stats

end Commit

end DuckLake
