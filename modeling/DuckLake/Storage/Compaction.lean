import Mathlib.Algebra.Order.Ring.Nat
import Mathlib.Data.Prod.Lex
import DuckLake.Lib.Grouping
import DuckLake.Storage.CommitChanges
import DuckLake.Storage.StoredFiles

/-!
# Compaction

`DuckLakeCompactor` takes the live files of a table, splits them into groups that may be written
together, and writes each run of files of a group that comes close to the target size as one
compaction. Merging replaces the sources in the history of the table; rewriting deletes ends them
with the snapshot of the commit. What the engine does with the rows on the way (sorting, and writing
files in parallel) and its floating point estimates are parameters.
-/

namespace DuckLake

/-! ## Fields that are preserved -/

namespace DuckLakeFieldId

mutual

/-- The field with all the fields below it. -/
def flat : DuckLakeFieldId → List DuckLakeFieldId
  | ⟨data, name, type, children⟩ => ⟨data, name, type, children⟩ :: flatFields children

def flatFields : List DuckLakeFieldId → List DuckLakeFieldId
  | [] => []
  | field :: fields => field.flat ++ flatFields fields

end

mutual

def sameType : DuckLakeFieldId → DuckLakeFieldId → Bool
  | ⟨_, _, type, children⟩, ⟨_, _, type', children'⟩ =>
    decide (type = type') && sameTypes children children'

def sameTypes : List DuckLakeFieldId → List DuckLakeFieldId → Bool
  | [], [] => true
  | field :: fields, field' :: fields' =>
    decide (field.name = field'.name) && field.sameType field' && sameTypes fields fields'
  | _, _ => false

end

end DuckLakeFieldId

open DuckLakeFieldId

def fieldIds (fields : List DuckLakeFieldId) : List FieldIndex :=
  (flatFields fields).map (·.columnData.id)

def getByFieldIndex (fields : List DuckLakeFieldId) (id : FieldIndex) : Option DuckLakeFieldId :=
  (flatFields fields).find? (·.columnData.id = id)

mutual

def fieldPreservedInLatest (latest : List DuckLakeFieldId) : DuckLakeFieldId → Bool
  | ⟨data, name, type, children⟩ =>
    (match getByFieldIndex latest data.id with
      | none => false
      | some field =>
        decide (name = field.name) && sameType ⟨data, name, type, children⟩ field) &&
      fieldsPreservedInLatest latest children

/-- Every field still exists with its name and type. Fields may have been added. -/
def fieldsPreservedInLatest (latest : List DuckLakeFieldId) : List DuckLakeFieldId → Bool
  | [] => true
  | field :: fields =>
    fieldPreservedInLatest latest field && fieldsPreservedInLatest latest fields

end

/-! ## Environment -/

/-- A file that a compaction has written, in the order of its rows. -/
structure CompactedFile where
  fileName : Text
  fileSizeBytes : Nat
  rows : List StoredRow
deriving DecidableEq

/-- What a compaction is called with, what the catalog knows of the table, and the engine. -/
structure CompactionEnvironment where
  targetFileSize : Nat
  minFileSize : Option Nat := none
  maxFileSize : Option Nat := none
  /-- The first snapshot that is new enough. -/
  newerThan : Option SnapshotId := none
  maxFiles : Nat
  /-- The ratio of deleted rows to all rows reaches the threshold. -/
  reachesThreshold : Nat → Nat → Bool
  /-- The size of a file less the share of its deleted rows. -/
  remainingSize : Nat → Nat → Nat → Nat
  /-- The fields of the table at the first snapshot of a schema version. -/
  fieldsOf : Nat → Option (List DuckLakeFieldId)
  /-- The entry that the compaction was bound with. -/
  tableFields : List DuckLakeFieldId
  /-- The schema version of the snapshot of the transaction. -/
  schemaVersion : Nat
  supportsV11Metadata : Bool := true
  initialDefault : FieldIndex → Value
  sortData : Option DuckLakeSort := none
  orderBy : List DuckLakeSortField → List ReadRow → List ReadRow
  orderBy_perm : ∀ fields rows, (orderBy fields rows).Perm rows
  /-- The order in which a hash map goes through its entries. -/
  groupOrder {κ : Type} : List κ → List κ
  groupOrder_perm : ∀ {κ : Type} (groups : List κ), (groupOrder groups).Perm groups
  /-- `COPY`, either to any number of files in any order or to a single file in order. -/
  copyToFiles : List StoredRow → List CompactedFile
  copyToFile : List StoredRow → CompactedFile
  copyToFiles_perm : ∀ rows, ((copyToFiles rows).flatMap (·.rows)).Perm rows
  copyToFile_rows : ∀ rows, (copyToFile rows).rows = rows

/-! ## Candidates -/

structure CompactionCandidate where
  file : StoredDataFile
  schemaVersion : Nat
  deleteFiles : List StoredDeleteFile
  inlinedFileDeletions : OrdSet Nat := ∅
  hasInlinedDeletions : Bool := false

namespace CompactionCandidate

def activeDeleteCount (candidate : CompactionCandidate) : Nat :=
  match candidate.deleteFiles.getLast? with
  | some deletes => if deletes.life.endAt.isNone then deletes.data.deletedRows.length else 0
  | none => 0

def totalDeleteCount (candidate : CompactionCandidate) : Nat :=
  candidate.activeDeleteCount + candidate.inlinedFileDeletions.elems.length

end CompactionCandidate

def StoredDataFile.sortKey (file : StoredDataFile) : SnapshotId ×ₗ Bool ×ₗ Nat ×ₗ DataFileIndex :=
  toLex (file.life.beginAt, toLex (file.rowIdStart.isNone,
    toLex (file.rowIdStart.getD 0, file.id)))

/-- `ORDER BY data.begin_snapshot, data.row_id_start, data.data_file_id`. -/
def compactionOrder (files : List StoredDataFile) : List StoredDataFile :=
  files.insertionSort fun file file' => file.sortKey ≤ file'.sortKey

def beginOrder (files : List StoredDeleteFile) : List StoredDeleteFile :=
  files.insertionSort fun file file' => file.life.beginAt ≤ file'.life.beginAt

/-- `ReadInlinedFileDeletions`. -/
def readInlinedFileDeletions (table : StoredTable) (fileId : DataFileIndex) : OrdSet Nat :=
  .ofList ((table.inlinedDeletions.filter fun deletion =>
    deletion.fileId = fileId && deletion.beginSnapshot ≤ table.snapshot).map (·.rowId))

/-- The files that the query selects. -/
def compactionFileFilter (env : CompactionEnvironment) (table : StoredTable) (file : StoredDataFile) :
    CompactionType → Bool
  | .mergeAdjacentTables =>
    file.life.endAt.isNone && env.minFileSize.all (· ≤ file.fileSizeBytes) &&
      decide (file.fileSizeBytes < env.maxFileSize.getD env.targetFileSize) &&
      env.newerThan.all (· ≤ file.life.beginAt)
  | .rewriteDeletes =>
    file.life.endAt.isNone &&
      (table.deleteFiles.any (fun deletes =>
          deletes.dataFileId = file.id && deletes.life.endAt.isNone) ||
        table.inlinedDeletions.any fun deletion =>
          deletion.fileId = file.id && deletion.beginSnapshot ≤ table.snapshot)

def compactionCandidate (table : StoredTable) (type : CompactionType) (file : StoredDataFile) :
    Except Exception CompactionCandidate :=
  match table.schemaVersionAt (file.partialMax.getD file.life.beginAt) with
  | none => internalException "Calling GetValueInternal on a value that is NULL".toList
  | some version =>
    let deleteFiles := beginOrder (table.deleteFiles.filter (·.dataFileId = file.id))
    .ok (match type with
      | .mergeAdjacentTables => ⟨file, version, deleteFiles, ∅, table.inlinedDeletions.any
          fun deletion => deletion.fileId = file.id && deletion.beginSnapshot ≤ table.snapshot⟩
      | .rewriteDeletes =>
        let inlined := readInlinedFileDeletions table file.id
        ⟨file, version, deleteFiles.filter (·.life.endAt.isNone), inlined, !inlined.elems.isEmpty⟩)

def getFilesForCompaction (env : CompactionEnvironment) (table : StoredTable)
    (type : CompactionType) : Except Exception (List CompactionCandidate) := do
  let files := table.dataFiles.filter (compactionFileFilter env table · type)
  let candidates ← (compactionOrder files).mapM (compactionCandidate table type)
  return match type with
    | .mergeAdjacentTables => candidates
    | .rewriteDeletes => candidates.filter fun candidate =>
      decide (0 < candidate.totalDeleteCount) &&
        env.reachesThreshold candidate.totalDeleteCount candidate.file.rowCount

/-! ## Groups and runs -/

structure CompactionGroup where
  /-- Unset when the file can be rewritten under the latest schema. -/
  schemaVersion : Option Nat
  partitionId : Option Idx
  partitionValues : List Value
deriving DecidableEq

def canMergeIntoLatest (env : CompactionEnvironment) (type : CompactionType) (version : Nat) : Bool :=
  match type with
  -- rewriting deletes assumes that the schemas match
  | .rewriteDeletes => false
  | .mergeAdjacentTables =>
    if version = env.schemaVersion then true
    else if !env.supportsV11Metadata then false
    else
      match env.fieldsOf version with
      | none => false
      | some fields =>
        fieldsPreservedInLatest ((env.fieldsOf env.schemaVersion).getD env.tableFields) fields

def compactionGroup (env : CompactionEnvironment) (type : CompactionType)
    (candidate : CompactionCandidate) : CompactionGroup where
  schemaVersion :=
    if canMergeIntoLatest env type candidate.schemaVersion then none
    else some candidate.schemaVersion
  partitionId := candidate.file.partitionId
  partitionValues := candidate.file.partitionValues

def isCompactable (env : CompactionEnvironment) (type : CompactionType)
    (candidate : CompactionCandidate) : Bool :=
  !(decide (env.targetFileSize ≤ candidate.file.fileSizeBytes) && type ≠ .rewriteDeletes) &&
    !(((!candidate.deleteFiles.isEmpty || candidate.hasInlinedDeletions) &&
        type = .mergeAdjacentTables) || candidate.file.life.endAt.isSome)

def compactionSize (env : CompactionEnvironment) (type : CompactionType)
    (candidate : CompactionCandidate) : Nat :=
  match type with
  | .mergeAdjacentTables => candidate.file.fileSizeBytes
  | .rewriteDeletes => env.remainingSize candidate.file.fileSizeBytes candidate.totalDeleteCount
      candidate.file.rowCount

/-- Adding the file would move away from the target size. -/
def movesAway (targetFileSize currentFileSize fileSize : Nat) : Bool :=
  decide (0 < currentFileSize) &&
    decide (((currentFileSize : Int) - targetFileSize).natAbs ≤
      ((currentFileSize + fileSize : Nat) - (targetFileSize : Int)).natAbs)

/-- The files of a group, cut into the runs that the loop over `start_idx` goes through. -/
def compactionRuns (size : CompactionCandidate → Nat) (targetFileSize : Nat) :
    List CompactionCandidate → Nat → List CompactionCandidate → List (List CompactionCandidate)
  | current, _, [] => if current.isEmpty then [] else [current]
  | current, currentFileSize, file :: files =>
    if movesAway targetFileSize currentFileSize (size file) then
      current :: compactionRuns size targetFileSize [file] (size file) files
    else
      compactionRuns size targetFileSize (current ++ [file]) (currentFileSize + size file) files

/-- The source files of each compaction, with the group that they are from. Every run counts as a
compacted file, and the number is checked only after the run. -/
def compactedRuns (env : CompactionEnvironment) (type : CompactionType)
    (candidates : List CompactionCandidate) :
    List (CompactionGroup × List CompactionCandidate) :=
  let groups := env.groupOrder
    (groupByKey (compactionGroup env type) (candidates.filter (isCompactable env type)))
  let groups := groups.filter fun group =>
    !(decide (type = .mergeAdjacentTables) && decide (group.2.length ≤ 1))
  let runs := groups.flatMap fun group =>
    (compactionRuns (compactionSize env type) env.targetFileSize [] 0 group.2).map (group.1, ·)
  -- a single file is nothing to merge
  (runs.take (max 1 env.maxFiles)).filter fun run =>
    !(decide (type = .mergeAdjacentTables) && decide (run.2.length = 1))

/-! ## Commands -/

/-- `files_are_adjacent`: the row ids of each file start where those of the one before end. -/
def filesAreAdjacent : Option Nat → List CompactionCandidate → Bool
  | _, [] => true
  | prevRowId, source :: sources =>
    match source.file.rowIdStart with
    | none => false
    | some start =>
      prevRowId.all (· = start) && filesAreAdjacent (some (start + source.file.rowCount)) sources

structure Compaction where
  type : CompactionType
  sourceFiles : List CompactionCandidate
  /-- The fields of the entry that the sources are read and written with. -/
  fields : List DuckLakeFieldId
  writeRowId : Bool
  writeSnapshotId : Bool
  rowIdStart : Option Nat
  partitionId : Option Idx
  partitionValues : List Value

/-- Merging takes no files with deletes, and rewriting leaves out a file whose deletes have ended. -/
def actionableFile (type : CompactionType) (source : CompactionCandidate) :
    Except Exception (Option CompactionCandidate) :=
  match type with
  | .rewriteDeletes =>
    if (source.deleteFiles.getLast?.bind (·.life.endAt)).isSome then .ok none else .ok (some source)
  | .mergeAdjacentTables =>
    if source.deleteFiles.isEmpty then .ok (some source)
    else internalException
      "merge_adjacent_files should not be used to rewrite files with deletes".toList

/-- The fields of the entry that a group is bound to. -/
def boundFields (env : CompactionEnvironment) (group : CompactionGroup) :
    Except Exception (List DuckLakeFieldId) :=
  match env.fieldsOf (group.schemaVersion.getD env.schemaVersion) with
  | none => internalException
      "DuckLakeCompactor: failed to find table entry for given snapshot id".toList
  | some fields => .ok fields

def writesRowId (type : CompactionType) (sources : List CompactionCandidate) : Bool :=
  match type with
  | .mergeAdjacentTables => !filesAreAdjacent none sources
  -- deleted rows create gaps
  | .rewriteDeletes => true

def generateCompactionCommand (env : CompactionEnvironment) (type : CompactionType)
    (run : CompactionGroup × List CompactionCandidate) : Except Exception (Option Compaction) := do
  let fields ← boundFields env run.1
  let files ← run.2.mapM (actionableFile type)
  let sources := files.reduceOption
  let writeRowId := writesRowId type sources
  return if sources.isEmpty then none else some {
    type := type
    sourceFiles := sources
    fields := fields
    writeRowId := writeRowId
    writeSnapshotId := type = .mergeAdjacentTables
    rowIdStart := if writeRowId then none else run.2.head?.bind (·.file.rowIdStart)
    partitionId := run.1.partitionId
    partitionValues := run.1.partitionValues }

def generateCompactions (env : CompactionEnvironment) (table : StoredTable)
    (type : CompactionType) : Except Exception (List Compaction) := do
  let candidates ← getFilesForCompaction env table type
  let compactions ← (compactedRuns env type candidates).mapM (generateCompactionCommand env type)
  return compactions.reduceOption

/-! ## Rows -/

namespace CompactionCandidate

/-- The rows of a source file: for a rewrite without those that its last delete file and the
inlined deletions name. -/
def scan (snapshot : SnapshotId) (type : CompactionType) (source : CompactionCandidate) :
    List ReadRow :=
  source.file.readRows fun place =>
    !((decide (type = .rewriteDeletes) &&
        source.deleteFiles.getLast?.any (·.data.filters snapshot place)) ||
      decide (place ∈ source.inlinedFileDeletions))

end CompactionCandidate

/-- `ParseSortOrders`: the sort expressions in the dialect of the engine. -/
def parseSortOrders (sortData : DuckLakeSort) : List DuckLakeSortField :=
  sortData.fields.filter (·.dialect = "duckdb".toList)

/-- The latest sort setting of the table. -/
def sortOrders (env : CompactionEnvironment) : List DuckLakeSortField :=
  match env.sortData with
  | none => []
  | some sortData => parseSortOrders sortData

/-- `InsertSort`, which returns the plan as it is when there is nothing to order by. -/
def insertSort (env : CompactionEnvironment) (rows : List ReadRow) : List ReadRow :=
  match sortOrders env with
  | [] => rows
  | order :: orders => env.orderBy (order :: orders) rows

/-- The rows of the sources in the order in which they are written. -/
def writtenOrder (env : CompactionEnvironment) (snapshot : SnapshotId) (type : CompactionType)
    (sources : List CompactionCandidate) : List ReadRow :=
  insertSort env (sources.flatMap (·.scan snapshot type))

namespace Compaction

def storedRow (compaction : Compaction) (env : CompactionEnvironment) (row : ReadRow) :
    StoredRow where
  values := (fieldIds compaction.fields).map fun field =>
    (field, (row.values.lookup field).getD (env.initialDefault field))
  rowId := if compaction.writeRowId then row.rowId else none
  snapshotId := if compaction.writeSnapshotId then some row.snapshotId else none

/-- The files of a compaction; a file without rows is not written. -/
def writtenFiles (compaction : Compaction) (env : CompactionEnvironment) (snapshot : SnapshotId) :
    List CompactedFile :=
  let rows := (writtenOrder env snapshot compaction.type compaction.sourceFiles).map
    (compaction.storedRow env)
  if compaction.writeRowId then env.copyToFiles rows
  else if rows.isEmpty then [] else [env.copyToFile rows]

end Compaction

/-! ## Commit -/

def CompactionCandidate.entry (source : CompactionCandidate) : DuckLakeCompactionFileEntry where
  id := source.file.id
  path := source.file.path
  rowCount := source.file.rowCount
  beginSnapshot := source.file.life.beginAt
  maxPartialFileSnapshot := source.file.partialMax
  deleteFiles := source.deleteFiles.map fun deletes =>
    ⟨deletes.deleteFileId, deletes.path, deletes.data.deletedRows.length, deletes.life.endAt⟩
  inlinedFileDeletions := source.inlinedFileDeletions

def Compaction.entry (compaction : Compaction) (files : List CompactedFile) :
    DuckLakeCompactionEntry where
  sourceFiles := compaction.sourceFiles.map (·.entry)
  writtenFiles := files.map fun file =>
    { fileName := file.fileName, rowCount := file.rows.length, fileSizeBytes := file.fileSizeBytes }
  rowIdStart := compaction.rowIdStart
  type := compaction.type

/-- The rows of `ducklake_data_file` for the files, where the row ids go on from file to file. -/
def outputFiles (compaction : Compaction) (bounds : SnapshotId × Option SnapshotId) :
    DataFileIndex → Nat → List CompactedFile → List StoredDataFile
  | _, _, [] => []
  | id, rowCount, file :: files =>
    { id := id
      path := file.fileName
      life := ⟨bounds.1, none⟩
      rowIdStart := compaction.rowIdStart.map (· + rowCount)
      partialMax := bounds.2
      fileSizeBytes := file.fileSizeBytes
      partitionId := compaction.partitionId
      partitionValues := compaction.partitionValues
      rows := file.rows } ::
    outputFiles compaction bounds (id + 1) (rowCount + file.rows.length) files

/-- The files of one compaction as the commit registers them. -/
def compactionOutput (env : CompactionEnvironment) (table : StoredTable) (id : DataFileIndex)
    (compaction : Compaction) : Except Exception (List StoredDataFile) :=
  let files := compaction.writtenFiles env table.snapshot
  let entry := compaction.entry files
  let limit := liveSourceRows entry
  let outputRows : Idx := .ofNat (files.map (·.rows.length)).sum
  if files.isEmpty && limit != 0 then
    internalException
      ("DuckLakeCompaction - expected output files for ".toList ++ limit.toText ++ " rows".toList)
  else if !files.isEmpty && outputRows < limit then
    internalException ("Compaction error - live source rows (".toList ++ limit.toText ++
      ") exceed output rows (".toList ++ outputRows.toText ++ ")".toList)
  else .ok (outputFiles compaction (compactionBounds entry (table.snapshot + 1)) id 0 files)

def compactionOutputs (env : CompactionEnvironment) (table : StoredTable) :
    DataFileIndex → List Compaction → Except Exception (List StoredDataFile)
  | _, [] => .ok []
  | id, compaction :: compactions => do
    let files ← compactionOutput env table id compaction
    let rest ← compactionOutputs env table (id + files.length) compactions
    return files ++ rest

/-- `WriteMergeAdjacent`: the sources are removed with all that belongs to them. -/
def writeMergeAdjacent (table : StoredTable) (sources : List CompactionCandidate) : StoredTable :=
  let ids := sources.map (·.file.id)
  { table with
    dataFiles := table.dataFiles.filter (·.id ∉ ids)
    deleteFiles := table.deleteFiles.filter (·.dataFileId ∉ ids) }

/-- `WriteDeleteRewrites`: the sources and their last delete files end with the commit. -/
def writeDeleteRewrites (table : StoredTable) (sources : List CompactionCandidate) : StoredTable :=
  let ids := sources.map (·.file.id)
  let deleteIds := sources.filterMap fun source => source.deleteFiles.getLast?.bind fun deletes =>
    if deletes.life.endAt.isNone then some deletes.deleteFileId else none
  { table with
    dataFiles := table.dataFiles.map fun file =>
      if file.id ∈ ids then { file with life := ⟨file.life.beginAt, some (table.snapshot + 1)⟩ }
      else file
    deleteFiles := table.deleteFiles.map fun deletes =>
      if deletes.deleteFileId ∈ deleteIds then
        { deletes with life := ⟨deletes.life.beginAt, some (table.snapshot + 1)⟩ }
      else deletes }

def commitCompactions (env : CompactionEnvironment) (table : StoredTable) (type : CompactionType)
    (compactions : List Compaction) : Except Exception StoredTable := do
  let files ← compactionOutputs env table table.nextFileId compactions
  let sources := compactions.flatMap (·.sourceFiles)
  let written := match type with
    | .mergeAdjacentTables => writeMergeAdjacent table sources
    | .rewriteDeletes => writeDeleteRewrites table sources
  return { written with
    snapshot := table.snapshot + 1
    nextFileId := table.nextFileId + files.length
    dataFiles := written.dataFiles ++ files }

end DuckLake
