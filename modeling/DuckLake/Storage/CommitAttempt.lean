import DuckLake.Lib.Attempt
import DuckLake.Storage.MetadataInfo

/-!
# One attempt to commit a transaction

A commit attempt walks over everything that a transaction has staged, gives ids to what is new and
collects the statements that are then executed as one batch. It also stores some of the ids it
gives out in the staged objects themselves. A failed attempt is rolled back in the database, but
these stores stay, and the next attempt walks over the same objects again.
-/

namespace DuckLake

/-! ## The staged transaction -/

structure StagedSchema where
  entry : DuckLakeSchemaEntry
  uuid : Text
  dataPath : Text

/-- An entry of a catalog set, as the chain of its versions: the latest first. -/
inductive StagedEntry where
  | table (chain : List DuckLakeTableEntry)
  | view (chain : List DuckLakeViewEntry)

structure MacroEntry where
  name : Text
  schema : DuckLakeSchemaEntry
  implementations : List DuckLakeMacroImplementation

structure DuckLakeProcedureEntry where
  name : Text
  schema : DuckLakeSchemaEntry
  language : Text
  body : Text
  returnType : Text
  parameters : List (Text × Text)
  definitionVersion : Nat := 1
  securityDefiner : Bool := false

structure DuckLakeNameMapEntry where
  sourceName : Text
  targetFieldId : FieldIndex
  hivePartition : Bool := false
  childEntries : List DuckLakeNameMapEntry := []

structure DuckLakeNameMap where
  tableId : TableIndex
  columnMaps : List DuckLakeNameMapEntry

/-- The whole state of a transaction that is about to commit. -/
structure StagedTransaction extends DuckLakeTransactionState where
  requireCommitMessage : Bool := false
  commitInfo : DuckLakeSnapshotCommit
  newSchemas : List StagedSchema := []
  newTables : List (SchemaIndex × List StagedEntry) := []
  droppedTables : OrdSet TableIndex := ∅
  droppedViews : OrdSet TableIndex := ∅
  /-- Materialized views created in this transaction. -/
  newMaterializedViews : List DuckLakeMaterializedViewInfo := []
  /-- Refreshes whose snapshot and history row are written at commit. -/
  refreshedMaterializedViews : List DuckLakeMaterializedViewRefreshInfo := []
  droppedMaterializedViews : OrdSet TableIndex := ∅
  newScalarMacros : List (SchemaIndex × List MacroEntry) := []
  newTableMacros : List (SchemaIndex × List MacroEntry) := []
  droppedScalarMacros : OrdSet MacroIndex := ∅
  droppedTableMacros : OrdSet MacroIndex := ∅
  newProcedures : List (SchemaIndex × List DuckLakeProcedureEntry) := []
  droppedProcedures : OrdSet ProcedureIndex := ∅
  droppedSchemas : List SchemaIndex := []
  newNameMaps : List (MappingIndex × DuckLakeNameMap) := []
  droppedFileStats : List (TableIndex × DroppedDataFileStats) := []
  flushedInlinedTables : List FlushedInlinedTableInfo := []
  /-- The tables whose inlined file deletions were flushed, with the snapshot of the flush. -/
  flushedInlinedFileDeletions : List (TableIndex × SnapshotId) := []
  committedTableOptions : List DuckLakeConfigOption := []

def StagedTransaction.schemaChangesMade (T : StagedTransaction) : Bool :=
  !T.newTables.isEmpty || !T.droppedTables.isEmpty || !T.newSchemas.isEmpty ||
    !T.droppedSchemas.isEmpty || !T.droppedViews.isEmpty || !T.renamedViews.isEmpty ||
    !T.newScalarMacros.isEmpty || !T.newTableMacros.isEmpty || !T.droppedScalarMacros.isEmpty ||
    !T.droppedTableMacros.isEmpty || !T.newProcedures.isEmpty || !T.droppedProcedures.isEmpty

/-! ## Stores into the staged objects -/

/-- Where a version of a table entry is found in the staged tables. -/
structure EntryAddress where
  schema : Nat
  entry : Nat
  version : Nat

/-- What a commit attempt stores in the transaction itself. -/
inductive Store where
  | partitionId (address : EntryAddress) (id : Idx)
  | sortId (address : EntryAddress) (id : Idx)
  | refreshViewId (index : Nat) (id : TableIndex)
  | tableOptions (options : List DuckLakeConfigOption)

def DuckLakeTableEntry.setPartitionId (table : DuckLakeTableEntry) (id : Idx) :
    DuckLakeTableEntry :=
  { table with
    partitionData := table.partitionData.map fun data => { data with partitionId := id }
    localPartition := by simpa using table.localPartition }

def DuckLakeTableEntry.setSortId (table : DuckLakeTableEntry) (id : Idx) : DuckLakeTableEntry :=
  { table with sortData := table.sortData.map fun data => { data with sortId := id } }

def StagedEntry.modifyVersion (f : DuckLakeTableEntry → DuckLakeTableEntry) (version : Nat) :
    StagedEntry → StagedEntry
  | table chain => table (chain.modify version f)
  | view chain => view chain

def StagedTransaction.modifyTable (T : StagedTransaction) (address : EntryAddress)
    (f : DuckLakeTableEntry → DuckLakeTableEntry) : StagedTransaction :=
  { T with
    newTables := T.newTables.modify address.schema fun schema =>
      (schema.1, schema.2.modify address.entry (StagedEntry.modifyVersion f address.version)) }

def StagedTransaction.store (T : StagedTransaction) : Store → StagedTransaction
  | .partitionId address id => T.modifyTable address (·.setPartitionId id)
  | .sortId address id => T.modifyTable address (·.setSortId id)
  | .refreshViewId index id =>
    { T with
      refreshedMaterializedViews :=
        T.refreshedMaterializedViews.modify index fun refresh => { refresh with viewId := id } }
  | .tableOptions options => { T with committedTableOptions := options }

/-! ## The environment of an attempt -/

/-- Who runs the commit loop. -/
inductive CommitSide where
  | client
  /-- The server of the metadata, on what it reads back from the staged rows. -/
  | server
deriving DecidableEq

/-- What `get_snapshot` and `get_table_stats` answer when the statistics of a rewritten table are
recomputed. -/
structure RewriteReads where
  snapshot : DuckLakeSnapshot
  tableStats : TableIndex → Except Exception (Option DuckLakeTableStats)

/-- What the catalog answers during one attempt: the latest snapshot, the global statistics, and
the parts of the batch that are written from the content of the metadata tables. Any of them may
fail. -/
structure CommitEnvironment where
  snapshot : DuckLakeSnapshot
  tableStats : TableIndex → Except Exception (Option DuckLakeTableStats)
  existingPartitions : DuckLakeSnapshot → Except Exception (List DuckLakePartitionInfo)
  existingSorts : DuckLakeSnapshot → Except Exception (List DuckLakeSortInfo)
  getRelativePath : Text → DuckLakePath
  tablePath : SchemaIndex → Text → List DuckLakeSchemaInfo → Except Exception DuckLakePath
  filePath : TableIndex → Text → List DuckLakeTableInfo → List DuckLakeSchemaInfo →
    Except Exception DuckLakePath
  writeInlinedTables : DuckLakeSnapshot → List DuckLakeTableInfo → Except Exception (List Text)
  /-- The rows, and how many inlined data tables had to be created for them. -/
  writeInlinedData : DuckLakeSnapshot → List DuckLakeInlinedDataInfo → List DuckLakeTableInfo →
    List DuckLakeTableInfo → Except Exception (List Text × Nat)
  writeInlinedFileDeletes : List DuckLakeInlinedFileDeletionInfo → Except Exception (List Text)
  rewriteReads : RewriteReads := ⟨snapshot, tableStats⟩
  recomputeGlobalStats : RewriteReads → TableIndex → CompactionInformation →
    List DataFileIndex → Except Exception (List Text)

/-- The answers that an attempt gets, if `first` is the environment of the first attempt and this
is another one. A server reads the snapshot and the global statistics before the first attempt,
and only the conflict check reads them again. -/
def CommitEnvironment.sees (side : CommitSide) (first : Option CommitEnvironment)
    (env : CommitEnvironment) : CommitEnvironment :=
  let read := match side, first with
    | .server, some first => first
    | _, _ => env
  { env with rewriteReads := ⟨read.snapshot, read.tableStats⟩ }

/-! ## The attempt -/

section Attempt

variable [SQLWriter]

/-- The variables of an attempt. -/
structure CommitAttempt where
  commitSnapshot : DuckLakeSnapshot
  commitState : DuckLakeCommitState := {}
  changes : TransactionChangeInformation
  droppedFileStats : List (TableIndex × DroppedDataFileStats)
  batchQueries : List Statement := []
  stores : List Store := []

abbrev CommitM (α : Type) : Type := Attempt CommitAttempt Exception α

namespace CommitM

def emit (statement : Statement) : CommitM Unit :=
  modify fun s => { s with batchQueries := s.batchQueries ++ [statement] }

def runIf (cond : Bool) (m : CommitM Unit) : CommitM Unit := if cond then m else pure ()

def emitIf (cond : Bool) (statement : Statement) : CommitM Unit := runIf cond (emit statement)

def store (w : Store) : CommitM Unit :=
  modify fun s => { s with stores := s.stores ++ [w] }

/-- `next_catalog_id++`. -/
def nextCatalogId : CommitM Idx :=
  modifyGet fun s => (s.commitSnapshot.nextCatalogId,
    { s with commitSnapshot.nextCatalogId := s.commitSnapshot.nextCatalogId + 1 })

/-- `next_file_id++`. -/
def nextFileId : CommitM DataFileIndex :=
  modifyGet fun s => (s.commitSnapshot.nextFileId,
    { s with commitSnapshot.nextFileId := s.commitSnapshot.nextFileId + 1 })

/-- Uses up a file id. -/
def skipFileId : CommitM Unit :=
  modify fun s => { s with commitSnapshot.nextFileId := s.commitSnapshot.nextFileId + 1 }

/-- `schema_version++`, for every inlined data table that is created on the way. -/
def newSchemaVersions (count : Nat) : CommitM Unit :=
  modify fun s => { s with commitSnapshot.schemaVersion := s.commitSnapshot.schemaVersion + count }

def getCommitState : CommitM DuckLakeCommitState := do return (← get).commitState

def getCommitSnapshot : CommitM DuckLakeSnapshot := do return (← get).commitSnapshot

/-- `committed_tables.emplace`: an id that has been mapped before keeps its mapping. -/
def emplaceTable (old new : TableIndex) (h : isTransactionLocal old = false → new = old) :
    CommitM Unit :=
  modify fun s => { s with commitState :=
    { s.commitState with
      committedTables := s.commitState.committedTables ++ [(old, new)]
      committed := by
        intro e he
        rcases List.mem_append.1 he with he | he
        · exact s.commitState.committed e he
        · cases List.mem_singleton.1 he
          exact h } }

def emplaceSchema (old new : SchemaIndex) : CommitM Unit :=
  modify fun s => { s with
    commitState.committedSchemas := s.commitState.committedSchemas ++ [(old, new)] }

def setPartitionId (old new : Idx) : CommitM Unit :=
  modify fun s => { s with
    commitState.committedPartitionIds := (old, new) :: s.commitState.committedPartitionIds }

def setMappingIndex (old new : MappingIndex) : CommitM Unit :=
  modify fun s => { s with
    commitState.committedMappingIndexes := (old, new) :: s.commitState.committedMappingIndexes }

def setLocalDeleteFiles (table : TableIndex) (files : List DuckLakeDeleteFile) : CommitM Unit :=
  modify fun s => { s with
    commitState.localDeleteFiles := insertSorted table files s.commitState.localDeleteFiles }

def alterTable (table : TableIndex) : CommitM Unit :=
  modify fun s => { s with changes.alteredTables := s.changes.alteredTables.insert table }

def alterSchemaVersion (table : TableIndex) : CommitM Unit :=
  modify fun s => { s with
    changes.alteredTablesWithSchemaVersionChanges :=
      s.changes.alteredTablesWithSchemaVersionChanges.insert table }

def alterView (view : TableIndex) : CommitM Unit :=
  modify fun s => { s with changes.alteredViews := s.changes.alteredViews.insert view }

end CommitM

end Attempt

end DuckLake
