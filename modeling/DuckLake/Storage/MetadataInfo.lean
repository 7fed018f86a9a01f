import DuckLake.Storage.SnapshotChanges
import DuckLake.Storage.TableEntry

/-!
# The rows that a commit writes

The records that pass the rows of a commit to the metadata manager, and the statements of its
batch. A statement is represented by the rows it writes and not by its text.
-/

namespace DuckLake

/-- Assignment in a map that is ordered by its keys. -/
def insertSorted {κ β : Type} [LinearOrder κ] (key : κ) (value : β) : List (κ × β) → List (κ × β)
  | [] => [(key, value)]
  | entry :: entries =>
    if key < entry.1 then (key, value) :: entry :: entries
    else if key = entry.1 then (key, value) :: entries
    else entry :: insertSorted key value entries

/-! ## Catalog entries -/

structure DuckLakeSchemaInfo where
  id : SchemaIndex
  parentId : Option SchemaIndex
  uuid : Text
  name : Text
  path : Text
deriving DecidableEq

structure DuckLakeConstraintInfo where
  tableId : TableIndex
  constraintType : Text
  columnNames : List Text
deriving DecidableEq

structure DuckLakeTableInfo where
  id : TableIndex
  schemaId : SchemaIndex
  uuid : Text
  name : Text := []
  path : Text := []
  columns : List DuckLakeColumnInfo := []
  constraints : List DuckLakeConstraintInfo := []

structure DuckLakeViewInfo where
  id : TableIndex
  schemaId : SchemaIndex
  uuid : Text
  name : Text
  dialect : Text
  columnAliases : List Text
  sql : Text
deriving DecidableEq

structure DuckLakePartitionFieldInfo where
  partitionKeyIndex : Nat
  fieldId : FieldIndex
  transform : Text
deriving DecidableEq

structure DuckLakePartitionInfo where
  id : Option Idx := none
  tableId : TableIndex
  fields : List DuckLakePartitionFieldInfo := []
deriving DecidableEq

structure DuckLakeSortInfo where
  id : Option Idx := none
  tableId : TableIndex
  fields : List DuckLakeSortField := []
deriving DecidableEq

structure DuckLakeTagInfo where
  id : Idx
  key : Text
  value : Value
deriving DecidableEq

structure DuckLakeColumnTagInfo where
  tableId : TableIndex
  fieldIndex : FieldIndex
  key : Text
  value : Value
deriving DecidableEq

structure DuckLakeViewColumnTagInfo where
  viewId : TableIndex
  columnName : Text
  key : Text
  value : Value
deriving DecidableEq

structure DuckLakeConfigOption where
  key : Text
  value : Text
  tableId : TableIndex
deriving DecidableEq

structure NewTableInfo where
  newTables : List DuckLakeTableInfo := []
  newViews : List DuckLakeViewInfo := []
  newPartitionKeys : List DuckLakePartitionInfo := []
  newTags : List DuckLakeTagInfo := []
  newColumnTags : List DuckLakeColumnTagInfo := []
  newViewColumnTags : List DuckLakeViewColumnTagInfo := []
  droppedColumns : List DuckLakeDroppedColumn := []
  newColumns : List DuckLakeNewColumn := []
  newInlinedDataTables : List DuckLakeTableInfo := []
  newSortKeys : List DuckLakeSortInfo := []
  /-- Complete final PK/UNIQUE sets for altered committed tables. -/
  replacementConstraints : List (TableIndex × List DuckLakeConstraintInfo) := []
  newTableOptions : List DuckLakeConfigOption := []

/-! ## Materialized views, macros, procedures and name maps -/

structure DuckLakeMaterializedViewInfo where
  id : TableIndex
  schemaId : SchemaIndex
  uuid : Text
  name : Text
  dialect : Text
  sql : Text
  backingTableId : TableIndex
  lastRefreshedSnapshot : Option SnapshotId := none
  dependencies : List TableIndex
  hasExternalDependencies : Bool := false
  lastRefreshTxnWroteDependencies : Bool := false
  /-- Write the commit snapshot as the snapshot of the last refresh. -/
  pendingRefreshStamp : Bool := false
  definitionVersion : Nat := 1
deriving DecidableEq

structure DuckLakeMaterializedViewRefreshInfo where
  viewId : TableIndex
  txnWroteDependencies : Bool := false
  refreshMode : Text
  rowsRefreshed : Nat := 0
  refreshDurationMs : Nat := 0
  rowsAdded : Option Nat := none
  rowsRemoved : Option Nat := none
  rowsChanged : Option Nat := none
  sourceSnapshot : Option SnapshotId := none
  sourceSnapshotTime : Option Text := none
  lagMs : Option Nat := none
deriving DecidableEq

structure DuckLakeMacroParameters where
  parameterName : Text
  parameterType : Text
  defaultValue : Value
  defaultValueType : Text
deriving DecidableEq

structure DuckLakeMacroImplementation where
  dialect : Text
  sql : Text
  type : Text
  parameters : List DuckLakeMacroParameters
deriving DecidableEq

structure DuckLakeMacroInfo where
  schemaId : SchemaIndex
  macroId : MacroIndex
  macroName : Text
  implementations : List DuckLakeMacroImplementation
deriving DecidableEq

structure DuckLakeProcedureInfo where
  schemaId : SchemaIndex
  procedureId : ProcedureIndex
  procedureName : Text
  language : Text
  body : Text
  returnType : Text
  parameters : List (Text × Text)
  definitionVersion : Nat
  securityDefiner : Bool
deriving DecidableEq

structure DuckLakeNameMapColumnInfo where
  columnId : Nat
  sourceName : Text
  targetFieldId : FieldIndex
  hivePartition : Bool
  parentColumn : Option Nat
deriving DecidableEq

structure DuckLakeColumnMappingInfo where
  tableId : TableIndex
  mappingId : MappingIndex
  mapType : Text
  mapColumns : List DuckLakeNameMapColumnInfo
deriving DecidableEq

/-! ## Data -/

structure DuckLakeFileInfo where
  id : DataFileIndex
  tableId : TableIndex
  fileName : Text
  fileFormat : Text
  rowCount : Nat
  fileSizeBytes : Nat
  footerSize : Option Nat
  rowGroupCount : Option Nat
  rowIdStart : Option Nat
  partitionId : Option Idx
  beginSnapshot : Option SnapshotId
  maxPartialFileSnapshot : Option SnapshotId
  encryptionKey : Text
  mappingId : Option MappingIndex
  columnStats : List (FieldIndex × DuckLakeColumnStats)
  partitionValues : List DuckLakeFilePartition
deriving DecidableEq

structure DuckLakeInlinedDataInfo where
  tableId : TableIndex
  rowIdStart : Nat
  data : DuckLakeInlinedData
deriving DecidableEq

structure DuckLakeDeleteFileInfo where
  id : DataFileIndex
  tableId : TableIndex
  dataFileId : DataFileIndex
  path : Text
  format : DeleteFileFormat
  deleteCount : Nat
  fileSizeBytes : Nat
  footerSize : Nat
  rowGroupCount : Option Nat
  encryptionKey : Text
  beginSnapshot : Option SnapshotId
  maxSnapshot : Option SnapshotId
deriving DecidableEq

structure DuckLakeDeletedInlinedDataInfo where
  tableId : TableIndex
  tableName : Text
  deletedRowIds : List Nat
deriving DecidableEq

structure DuckLakeInlinedFileDeletionInfo where
  tableId : TableIndex
  fileDeletions : List (DataFileIndex × OrdSet Nat)
deriving DecidableEq

structure DuckLakeCompactedFileInfo where
  path : Text
  sourceId : DataFileIndex
  newId : Option DataFileIndex := none
  tableIndex : TableIndex
  rewriteSnapshot : SnapshotId
  deleteFilePath : Text := []
  deleteFileId : Option DataFileIndex := none
  startSnapshot : Option SnapshotId := none
  deleteFileStartSnapshot : Option SnapshotId := none
  deleteFileEndSnapshot : Option SnapshotId := none
deriving DecidableEq

structure CompactionInformation where
  compactedFiles : List DuckLakeCompactedFileInfo := []
  newFiles : List DuckLakeFileInfo := []
deriving DecidableEq

structure DuckLakeTableStats where
  recordCount : Nat := 0
  tableSizeBytes : Nat := 0
  nextRowId : Nat := 0
  columnStats : List (FieldIndex × DuckLakeColumnStats) := []
deriving DecidableEq

structure DroppedDataFileStats where
  rowCount : Nat := 0
  fileSizeBytes : Nat := 0
deriving DecidableEq

/-- A path as it is stored, relative to the path of the entry it belongs to when it lies in it. -/
structure DuckLakePath where
  path : Text
  pathIsRelative : Bool
deriving DecidableEq

structure FlushedInlinedTableInfo where
  tableName : Text
  schemaVersion : Nat
  flushSnapshotId : SnapshotId
deriving DecidableEq

/-! ## Statements -/

/-- The statements of a batch, with the rows they write. -/
inductive Statement where
  | insertSnapshot
  | dropTables (ids : OrdSet TableIndex) (renamed : Bool)
  | dropViews (ids : OrdSet TableIndex) (renamed : Bool)
  | dropMaterializedViews (ids : OrdSet TableIndex)
  | dropMacros (ids : OrdSet MacroIndex)
  | dropProcedures (ids : OrdSet ProcedureIndex)
  | dropSchemas (ids : List SchemaIndex)
  | newSchemas (rows : List (DuckLakeSchemaInfo × DuckLakePath))
  | newTables (rows : List (DuckLakeTableInfo × DuckLakePath))
  | newTableOptions (rows : List DuckLakeConfigOption)
  | newPartitionKeys (existing new : List DuckLakePartitionInfo)
  | newViews (rows : List DuckLakeViewInfo)
  | newTags (rows : List DuckLakeTagInfo)
  | newColumnTags (rows : List DuckLakeColumnTagInfo)
  | newViewColumnTags (rows : List DuckLakeViewColumnTagInfo)
  | droppedColumns (rows : List DuckLakeDroppedColumn)
  | expiredColumnTags (rows : List DuckLakeDroppedColumn)
  | newColumns (rows : List DuckLakeNewColumn)
  | newInlinedTables (rows : List Text)
  | newSortKeys (existing new : List DuckLakeSortInfo)
  | constraintReplacements (rows : List (TableIndex × List DuckLakeConstraintInfo))
  | newMaterializedViews (rows : List DuckLakeMaterializedViewInfo)
  | materializedViewRefreshes (rows : List DuckLakeMaterializedViewRefreshInfo)
  | materializedViewRefreshHistory (rows : List DuckLakeMaterializedViewRefreshInfo)
  | newMacros (rows : List DuckLakeMacroInfo)
  | newProcedures (rows : List DuckLakeProcedureInfo)
  | newColumnMappings (rows : List DuckLakeColumnMappingInfo)
  | globalTableStats (tableId : TableIndex) (stats : DuckLakeTableStats) (initialized : Bool)
  | deleteTableColumnStats (tableId : TableIndex)
  | newDataFiles (rows : List (DuckLakeFileInfo × DuckLakePath))
  | newInlinedData (rows : List Text)
  | deleteFlushedInlinedData (tables : List FlushedInlinedTableInfo)
      (fileDeletions : List (TableIndex × SnapshotId))
  | dropDataFiles (ids : List DataFileIndex)
  | deleteOverwrittenDeleteFiles (rows : List (DuckLakeOverwrittenDeleteFile × DuckLakePath))
  | newDeleteFiles (rows : List (DuckLakeDeleteFileInfo × DuckLakePath))
  | newInlinedDeletes (rows : List DuckLakeDeletedInlinedDataInfo)
  | newInlinedFileDeletes (rows : List Text)
  | compactions (type : CompactionType) (rows : List DuckLakeCompactedFileInfo)
      (paths : List DuckLakePath)
  | recomputedTableStats (tableId : TableIndex) (rows : List Text)
  | insertNewSchema (snapshotId : SnapshotId) (schemaVersion : Nat) (tables : OrdSet TableIndex)
  | snapshotChanges (changesMade : Option Text) (commitInfo : DuckLakeSnapshotCommit)

end DuckLake
