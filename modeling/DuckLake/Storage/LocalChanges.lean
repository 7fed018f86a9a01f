import DuckLake.Common.Stats
import DuckLake.Storage.TransactionChanges

/-!
# Transaction-local data changes

What a transaction has written to a table so far, and how `addTableChanges` summarises it in the
change information that is logged and checked for conflicts. File ids and snapshot ids are
counters that only grow, so they are natural numbers here.
-/

namespace DuckLake

abbrev DataFileIndex := Nat
abbrev SnapshotId := Nat

/-- Name mappings are numbered with the file ids once they are committed. -/
abbrev MappingIndex := Nat

/-- `TRANSACTION_LOCAL_ID_START`: catalog ids from here on belong to entries that are not yet
committed. -/
def transactionLocalIdStart : Idx := 9223372036854775808

def isTransactionLocal (id : Idx) : Bool := transactionLocalIdStart ≤ id

inductive DeleteFileSource where
  /-- Created during a DELETE. -/
  | regular
  /-- Created while flushing inlined data. -/
  | flush
deriving DecidableEq, Repr

inductive DeleteFileFormat where
  | parquet | puffin | vortex
deriving DecidableEq, Repr

structure DuckLakeOverwrittenDeleteFile where
  deleteFileId : DataFileIndex
  path : Text
deriving DecidableEq

structure DuckLakeDeleteFile where
  dataFileId : DataFileIndex
  dataFilePath : Text
  fileName : Text
  format : DeleteFileFormat := .parquet
  deleteCount : Nat
  fileSizeBytes : Nat := 0
  footerSize : Nat := 0
  rowGroupCount : Option Nat := none
  encryptionKey : Text := []
  overwritesExistingDelete : Bool := false
  /-- The old delete file being overwritten. -/
  overwrittenDeleteFile : Option DuckLakeOverwrittenDeleteFile := none
  beginSnapshot : Option SnapshotId := none
  maxSnapshot : Option SnapshotId := none
  source : DeleteFileSource := .regular
  createdByDucklake : Bool := true
deriving DecidableEq

structure DuckLakeFilePartition where
  partitionColumnIdx : Nat
  partitionValue : Value
deriving DecidableEq

structure DuckLakeDataFile where
  fileName : Text
  fileFormat : Text := "parquet"
  rowCount : Nat
  fileSizeBytes : Nat := 0
  footerSize : Option Nat := none
  rowGroupCount : Option Nat := none
  partitionId : Option Idx := none
  deleteFiles : List DuckLakeDeleteFile := []
  columnStats : List (FieldIndex × DuckLakeColumnStats) := []
  partitionValues : List DuckLakeFilePartition := []
  encryptionKey : Text := []
  mappingId : Option MappingIndex := none
  beginSnapshot : Option SnapshotId := none
  maxPartialFileSnapshot : Option SnapshotId := none
  /-- The first row id in the file, for flushed files that have embedded row ids. -/
  flushRowIdStart : Option Nat := none
  /-- Files that were added from elsewhere are never removed. -/
  createdByDucklake : Bool := true
deriving DecidableEq

/-- Rows written inline: one text per row, and for updates the row ids that they preserve. -/
structure DuckLakeInlinedData where
  rows : List Text
  columnStats : List (FieldIndex × DuckLakeColumnStats) := []
  rowIds : List Int := []
deriving DecidableEq

def transactionLocalRowIdStart : Int := 1000000000000000000

def isTransactionLocalRowId (rid : Int) : Bool := transactionLocalRowIdStart ≤ rid

inductive CompactionType where
  | mergeAdjacentTables | rewriteDeletes
deriving DecidableEq, Repr

structure DuckLakeCompactionDeleteFileData where
  deleteFileId : DataFileIndex
  path : Text
  rowCount : Nat
  endSnapshot : Option SnapshotId := none
deriving DecidableEq

/-- A source file of a compaction, with the deletions that the compaction has applied. -/
structure DuckLakeCompactionFileEntry where
  id : DataFileIndex
  path : Text
  rowCount : Nat
  beginSnapshot : SnapshotId
  maxPartialFileSnapshot : Option SnapshotId := none
  deleteFiles : List DuckLakeCompactionDeleteFileData := []
  inlinedFileDeletions : OrdSet Nat := ∅
deriving DecidableEq

structure DuckLakeCompactionEntry where
  sourceFiles : List DuckLakeCompactionFileEntry
  writtenFiles : List DuckLakeDataFile
  rowIdStart : Option Nat := none
  type : CompactionType
deriving DecidableEq

structure LocalTableDataChanges where
  newDataFiles : List DuckLakeDataFile := []
  newInlinedData : Option DuckLakeInlinedData := none
  newDeleteFiles : List (Text × List DuckLakeDeleteFile) := []
  newInlinedDataDeletes : List (Text × OrdSet Nat) := []
  newInlinedFileDeletes : Option (List (DataFileIndex × OrdSet Nat)) := none
  compactions : List DuckLakeCompactionEntry := []
deriving DecidableEq

/-- The changed tables of a transaction, in the order of their ids. -/
structure LocalTableChanges where
  changes : List (TableIndex × LocalTableDataChanges)
  sorted : changes.Pairwise (·.1 < ·.1)

instance : EmptyCollection LocalTableChanges := ⟨⟨[], .nil⟩⟩

/-! ## Summary of the changes to one table -/

namespace LocalTableDataChanges

def insertedData (c : LocalTableDataChanges) : Bool :=
  c.newDataFiles.any (·.beginSnapshot.isNone)

def flushedInlineData (c : LocalTableDataChanges) : Bool :=
  c.newDataFiles.any (·.beginSnapshot.isSome)

def deletedInlined (c : LocalTableDataChanges) : Bool :=
  !c.newInlinedDataDeletes.isEmpty || c.newInlinedFileDeletes.isSome

def compacted (c : LocalTableDataChanges) (type : CompactionType) : Bool :=
  c.compactions.any (·.type = type)

end LocalTableDataChanges

/-- Insertion into a set under a condition, one step of `addTableChanges`. -/
def OrdSet.insertIf {α : Type} [LinearOrder α] (s : OrdSet α) (cond : Bool) (a : α) : OrdSet α :=
  if cond then s.insert a else s

@[simp] theorem OrdSet.mem_insertIf {α : Type} [LinearOrder α] {s : OrdSet α} {cond : Bool}
    {a b : α} : b ∈ s.insertIf cond a ↔ (cond = true ∧ b = a) ∨ b ∈ s := by
  cases cond <;> simp [OrdSet.insertIf]

def addTableChanges [SQLWriter] (tableId : TableIndex) (c : LocalTableDataChanges)
    (changes : TransactionChangeInformation) : TransactionChangeInformation :=
  { changes with
    tablesInsertedInto := changes.tablesInsertedInto.insertIf c.insertedData tableId
    tablesFlushedInlined := changes.tablesFlushedInlined.insertIf c.flushedInlineData tableId
    tablesInsertedInlined := changes.tablesInsertedInlined.insertIf c.newInlinedData.isSome tableId
    tablesDeletedFrom := changes.tablesDeletedFrom.insertIf (!c.newDeleteFiles.isEmpty) tableId
    tablesDeletedInlined := changes.tablesDeletedInlined.insertIf c.deletedInlined tableId
    tablesMergeAdjacent :=
      changes.tablesMergeAdjacent.insertIf (c.compacted .mergeAdjacentTables) tableId
    tablesRewriteDelete :=
      changes.tablesRewriteDelete.insertIf (c.compacted .rewriteDeletes) tableId }

/-! ## The transaction state -/

/-- The data changes of a transaction, and what else the conflict check reads of its state. -/
structure DuckLakeTransactionState where
  localChanges : LocalTableChanges := ∅
  /-- Dropped data files by path. -/
  droppedFiles : List (Text × DataFileIndex) := []
  tablesDeletedFrom : OrdSet TableIndex := ∅
  tablesDeleteAttempted : OrdSet TableIndex := ∅
  renamedTables : OrdSet TableIndex := ∅
  renamedViews : OrdSet TableIndex := ∅

/-- `GetTransactionChanges`: the catalog changes, completed by the data changes of committed
tables. -/
def getTransactionChanges [SQLWriter] (catalog : CatalogChanges)
    (state : DuckLakeTransactionState) : TransactionChangeInformation :=
  state.localChanges.changes.foldl
    (fun changes entry =>
      -- transaction-local tables are added when the change log is written
      if isTransactionLocal entry.1 then changes else addTableChanges entry.1 entry.2 changes)
    { catalog with
      tablesDeletedFrom := state.tablesDeletedFrom
      tablesDeleteAttempted := state.tablesDeleteAttempted }

end DuckLake
