import DuckLake.Storage.MetadataInfo

/-!
# The delete operator

A `DELETE` or `UPDATE` collects the selected rows of each file that it scans. For each of these files
the rows are then dropped with the file, kept inline or written to a delete file. The scan knows a
file by its place in the scan, the metadata by its id; in between the operator goes by the path.
-/

namespace DuckLake

/-! ## The files of a table -/

/-- The content of a delete file. -/
structure DuckLakeDeleteData where
  deletedRows : List Nat
  /-- The snapshots from which on the rows are deleted, when they are embedded. -/
  snapshotIds : List SnapshotId := []
deriving DecidableEq

namespace DuckLakeDeleteData

def hasEmbeddedSnapshots (data : DuckLakeDeleteData) : Bool := !data.snapshotIds.isEmpty

/-- Whether a reader at the snapshot leaves the row out. -/
def filters (data : DuckLakeDeleteData) (snapshot : SnapshotId) (row : Nat) : Bool :=
  if data.hasEmbeddedSnapshots then
    (data.deletedRows.zip data.snapshotIds).any fun entry =>
      decide (entry.1 = row) && decide (entry.2 ≤ snapshot)
  else decide (row ∈ data.deletedRows)

/-- Every row has its snapshot, if any, and it is not later than the given one. -/
structure Dated (data : DuckLakeDeleteData) (snapshot : SnapshotId) : Prop where
  paired : data.snapshotIds = [] ∨ data.snapshotIds.length = data.deletedRows.length
  snapshot_le : ∀ id ∈ data.snapshotIds, id ≤ snapshot

/-- What a delete file of a data file with `rowCount` rows holds at a snapshot. -/
structure WellFormed (data : DuckLakeDeleteData) (rowCount : Nat) (snapshot : SnapshotId) : Prop
    extends data.Dated snapshot where
  row_lt : ∀ row ∈ data.deletedRows, row < rowCount

end DuckLakeDeleteData

structure LiveDeleteFile where
  deleteFileId : DataFileIndex
  path : Text
  beginSnapshot : SnapshotId
  data : DuckLakeDeleteData
deriving DecidableEq

/-- A live row of `ducklake_data_file` with the deletes on it. -/
structure LiveDataFile where
  fileId : DataFileIndex
  path : Text
  rowCount : Nat
  fileSizeBytes : Nat := 0
  deleteFiles : List LiveDeleteFile := []
  inlinedFileDeletions : OrdSet Nat := ∅
deriving DecidableEq

namespace LiveDataFile

def deletedAt (file : LiveDataFile) (snapshot : SnapshotId) (row : Nat) : Bool :=
  file.deleteFiles.any (·.data.filters snapshot row) || decide (row ∈ file.inlinedFileDeletions)

def deleteFile (file : LiveDataFile) : Option LiveDeleteFile := file.deleteFiles.head?

end LiveDataFile

/-- The live files of a table at a snapshot: the ids are primary keys, and at most one delete file
is live for a data file. Nothing keeps two data files from having the same path. -/
structure LiveFiles where
  snapshot : SnapshotId
  files : List LiveDataFile
  fileId_nodup : (files.map (·.fileId)).Nodup
  deleteFileId_nodup : ((files.flatMap (·.deleteFiles)).map (·.deleteFileId)).Nodup
  deleteFiles_length : ∀ file ∈ files, file.deleteFiles.length ≤ 1
  beginSnapshot_le : ∀ file ∈ files, ∀ deleteFile ∈ file.deleteFiles,
    deleteFile.beginSnapshot ≤ snapshot
  wellFormed : ∀ file ∈ files, ∀ deleteFile ∈ file.deleteFiles,
    deleteFile.data.WellFormed file.rowCount snapshot

/-! ## The scan -/

/-- The scan below a delete. Each list may be pruned by filters and is in an order of its own. -/
structure DeleteScan (table : LiveFiles) where
  /-- The files in the order in which the scan numbers them. -/
  files : List LiveDataFile
  files_nodup : files.Nodup
  files_subset : files ⊆ table.files
  /-- `GetFilesExtended`, from which the delete map is filled. -/
  extended : List LiveDataFile
  extended_subset : extended ⊆ table.files
  /-- `GetExtendedFilesForTable`, for files that the delete map does not have. -/
  refreshed : List LiveDataFile
  refreshed_perm : refreshed.Perm table.files
  /-- The files of the readers, in the order in which these were initialized. -/
  opened : List LiveDataFile
  opened_subset : opened ⊆ files

variable {table : LiveFiles}

/-- A selected row: its file has been opened, and it is visible. -/
structure SelectedRow (scan : DeleteScan table) where
  fileIndex : Fin scan.files.length
  rowNumber : Nat
  opened : scan.files[fileIndex] ∈ scan.opened
  row_lt : rowNumber < scan.files[fileIndex].rowCount
  visible : scan.files[fileIndex].deletedAt table.snapshot rowNumber = false

namespace SelectedRow

variable {scan : DeleteScan table}

def file (row : SelectedRow scan) : LiveDataFile := scan.files[row.fileIndex]

def fileName (row : SelectedRow scan) : Text := row.file.path

theorem file_inj {row row' : SelectedRow scan} :
    row.file = row'.file ↔ row.fileIndex.val = row'.fileIndex.val :=
  scan.files_nodup.getElem_inj_iff

theorem file_mem (row : SelectedRow scan) : row.file ∈ table.files :=
  scan.files_subset (List.getElem_mem row.fileIndex.isLt)

end SelectedRow

/-! ## Collecting the rows -/

structure DuckLakeDeleteGlobalState where
  /-- The row numbers by file index. -/
  deletedRows : List (Nat × List Nat) := []
  filenames : List (Nat × Text) := []

def appendRow (index row : Nat) : List (Nat × List Nat) → List (Nat × List Nat)
  | [] => [(index, [row])]
  | entry :: entries =>
    if entry.1 = index then (index, entry.2 ++ [row]) :: entries
    else entry :: appendRow index row entries

/-- Threads collect the rows of one file at a time before they hand them over. -/
def DuckLakeDeleteGlobalState.sink {scan : DeleteScan table} (state : DuckLakeDeleteGlobalState)
    (row : SelectedRow scan) : DuckLakeDeleteGlobalState where
  deletedRows := appendRow row.fileIndex row.rowNumber state.deletedRows
  filenames := state.filenames ++ [(row.fileIndex.val, row.fileName)]

def sinkRows {scan : DeleteScan table} (rows : List (SelectedRow scan)) :
    DuckLakeDeleteGlobalState :=
  rows.foldl .sink {}

/-! ## Flushing the rows of one file -/

/-- A deletion position with the snapshot from which it is valid. -/
structure PositionWithSnapshot where
  position : Nat
  snapshotId : SnapshotId

/-- Insertion into a set that is ordered by the positions: what is there already stays. -/
def insertPosition (new : PositionWithSnapshot) :
    List PositionWithSnapshot → List PositionWithSnapshot
  | [] => [new]
  | entry :: entries =>
    if new.position < entry.position then new :: entry :: entries
    else if entry.position < new.position then entry :: insertPosition new entries
    else entry :: entries

def positionsWithSnapshots (data : DuckLakeDeleteData) (fallbackSnapshot : SnapshotId) :
    List PositionWithSnapshot :=
  if data.hasEmbeddedSnapshots then
    (data.deletedRows.zip data.snapshotIds).map fun entry => ⟨entry.1, entry.2⟩
  else data.deletedRows.map (⟨·, fallbackSnapshot⟩)

def mergeDeletesWithSnapshots (entries result : List PositionWithSnapshot) :
    List PositionWithSnapshot :=
  entries.foldl (fun result entry => insertPosition entry result) result

/-- A written delete file, with its content. -/
structure WrittenDeleteFile where
  dataFileId : DataFileIndex
  dataFilePath : Text
  data : DuckLakeDeleteData
  overwritesExistingDelete : Bool
  /-- The old delete file, which the commit removes from the metadata. -/
  overwrittenDeleteFile : Option DuckLakeOverwrittenDeleteFile := none
  beginSnapshot : Option SnapshotId := none
  maxSnapshot : Option SnapshotId := none

/-- The settings of the operator. -/
structure DuckLakeDelete where
  /-- An `UPDATE` may not match a row twice. -/
  allowDuplicates : Bool
  dataInliningRowLimit : Nat

/-- What becomes of the deleted rows of a file. -/
inductive DeleteEffect where
  | dropFile
  | inlinedFileDeletes (rows : OrdSet Nat)
  | deleteFile (file : WrittenDeleteFile)

namespace DuckLakeDelete

variable (op : DuckLakeDelete)

/-- The deletes are kept inline instead of being written to a delete file. -/
def inlines (rows : OrdSet Nat) : Bool :=
  decide (0 < op.dataInliningRowLimit) && decide (rows.elems.length ≤ op.dataInliningRowLimit)

/-- When all rows of the file are deleted, the file is dropped. -/
def tryDropFullyDeletedFile (file : LiveDataFile) (deleteCount : Nat)
    (otherwise : WrittenDeleteFile) : DeleteEffect :=
  if deleteCount = file.rowCount then .dropFile else .deleteFile otherwise

def flushDeleteWithSnapshots (snapshot : SnapshotId) (filename : Text) (file : LiveDataFile)
    (existing : DuckLakeDeleteData) (sortedDeletes : OrdSet Nat) : DeleteEffect :=
  let fallbackSnapshot := (file.deleteFile.map (·.beginSnapshot)).getD 0
  let merged := mergeDeletesWithSnapshots (positionsWithSnapshots existing fallbackSnapshot) []
  -- the commit snapshot for new deletes
  let deletes := mergeDeletesWithSnapshots (sortedDeletes.elems.map (⟨·, snapshot + 1⟩)) merged
  tryDropFullyDeletedFile file deletes.length {
    dataFileId := file.fileId
    dataFilePath := filename
    data := ⟨deletes.map (·.position), deletes.map (·.snapshotId)⟩
    overwritesExistingDelete := true
    overwrittenDeleteFile := file.deleteFile.map fun old => ⟨old.deleteFileId, old.path⟩
    beginSnapshot := (deletes.map (·.snapshotId)).min?
    maxSnapshot := (deletes.map (·.snapshotId)).max? }

/-- `FlushDelete` for a data file, given the delete data that is known for its name. -/
def flushDataFile (snapshot : SnapshotId) (filename : Text) (file : LiveDataFile)
    (existing : Option DuckLakeDeleteData) (sortedDeletes : OrdSet Nat) : DeleteEffect :=
  if existing.isNone && decide (sortedDeletes.elems.length = file.rowCount) then .dropFile
  else if op.inlines sortedDeletes then .inlinedFileDeletes sortedDeletes
  else match existing with
    | none =>
      tryDropFullyDeletedFile file sortedDeletes.elems.length
        ⟨file.fileId, filename, ⟨sortedDeletes.elems, []⟩, false, none, none, none⟩
    | some data =>
      -- the file has embedded snapshots, or it was committed by another transaction
      if data.hasEmbeddedSnapshots || file.deleteFile.isSome then
        flushDeleteWithSnapshots snapshot filename file data sortedDeletes
      else
        let deletes := data.deletedRows.foldl OrdSet.insert sortedDeletes
        tryDropFullyDeletedFile file deletes.elems.length
          ⟨file.fileId, filename, ⟨deletes.elems, []⟩, true, none, none, none⟩

end DuckLakeDelete

/-! ## The transaction -/

/-- The delete map, and what the operator has staged in the transaction for the table. Entries are
added to a map at its end, and the first one for a key counts. -/
structure DeleteState where
  fileMap : List (Text × LiveDataFile)
  deleteDataMap : List (Text × DuckLakeDeleteData)
  droppedFiles : List (Text × DataFileIndex) := []
  droppedFileStats : DroppedDataFileStats := {}
  newInlinedFileDeletes : List (DataFileIndex × OrdSet Nat) := []
  writtenFiles : List (Text × WrittenDeleteFile) := []

namespace DeleteState

variable (state : DeleteState)

/-- `DropFile`: a path that has been dropped already is not dropped again. -/
def dropFile (path : Text) (file : LiveDataFile) : DeleteState :=
  match state.droppedFiles.lookup path with
  | some _ => state
  | none =>
    { state with
      droppedFiles := state.droppedFiles ++ [(path, file.fileId)]
      droppedFileStats.rowCount := state.droppedFileStats.rowCount + file.rowCount
      droppedFileStats.fileSizeBytes :=
        state.droppedFileStats.fileSizeBytes + file.fileSizeBytes }

def emplaceWrittenFile (filename : Text) (file : WrittenDeleteFile) : DeleteState :=
  match state.writtenFiles.lookup filename with
  | some _ => state
  | none => { state with writtenFiles := state.writtenFiles ++ [(filename, file)] }

def clearDeletes (filename : Text) : DeleteState :=
  { state with deleteDataMap := state.deleteDataMap.filter (·.1 ≠ filename) }

def stage (filename : Text) (file : LiveDataFile) : DeleteEffect → DeleteState
  | .dropFile => (state.clearDeletes filename).dropFile file.path file
  | .inlinedFileDeletes rows =>
    { state with newInlinedFileDeletes := state.newInlinedFileDeletes ++ [(file.fileId, rows)] }
  | .deleteFile written => (state.clearDeletes filename).emplaceWrittenFile filename written

end DeleteState

section Frames

variable {state : DeleteState} {path : Text} {file : LiveDataFile} {written : WrittenDeleteFile}

@[simp] theorem DeleteState.dropFile_fileMap : (state.dropFile path file).fileMap = state.fileMap := by
  unfold dropFile
  split <;> rfl

@[simp] theorem DeleteState.dropFile_deleteDataMap :
    (state.dropFile path file).deleteDataMap = state.deleteDataMap := by
  unfold dropFile
  split <;> rfl

@[simp] theorem DeleteState.dropFile_writtenFiles :
    (state.dropFile path file).writtenFiles = state.writtenFiles := by
  unfold dropFile
  split <;> rfl

@[simp] theorem DeleteState.emplaceWrittenFile_fileMap :
    (state.emplaceWrittenFile path written).fileMap = state.fileMap := by
  unfold emplaceWrittenFile
  split <;> rfl

@[simp] theorem DeleteState.emplaceWrittenFile_deleteDataMap :
    (state.emplaceWrittenFile path written).deleteDataMap = state.deleteDataMap := by
  unfold emplaceWrittenFile
  split <;> rfl

@[simp] theorem DeleteState.emplaceWrittenFile_droppedFiles :
    (state.emplaceWrittenFile path written).droppedFiles = state.droppedFiles := by
  unfold emplaceWrittenFile
  split <;> rfl

theorem DeleteState.stage_fileMap {effect : DeleteEffect} :
    (state.stage path file effect).fileMap = state.fileMap := by
  cases effect <;> simp [stage, clearDeletes]

end Frames

/-- The delete map after the readers have been initialized: it has the extended list, and the
delete data of each opened file that has a delete file. -/
def DeleteScan.initialState (scan : DeleteScan table) : DeleteState where
  fileMap := scan.extended.map fun file => (file.path, file)
  deleteDataMap := scan.opened.filterMap fun file =>
    file.deleteFile.map fun deleteFile => (file.path, deleteFile.data)

namespace DuckLakeDelete

variable (op : DuckLakeDelete) (scan : DeleteScan table)

/-- The file with the name, in the delete map or else in the refreshed list, which it is then added
from. -/
def findFile (state : DeleteState) (filename : Text) :
    Except Exception (LiveDataFile × DeleteState) :=
  match state.fileMap.lookup filename with
  | some file => .ok (file, state)
  | none =>
    match scan.refreshed.find? fun file => decide (file.path = filename) with
    | some file => .ok (file, { state with fileMap := state.fileMap ++ [(file.path, file)] })
    | none => internalException "Could not find matching file for written delete file"

def flushDelete (state : DeleteState) (filename : Text) (deletedRows : List Nat) :
    Except Exception DeleteState := do
  let found ← findFile scan state filename
  -- sort and duplicate eliminate the deletes
  let sortedDeletes := OrdSet.ofList deletedRows
  if sortedDeletes.elems.length ≠ deletedRows.length ∧ op.allowDuplicates = false then
    .error ⟨.notImplemented,
      "The same row was updated multiple times - this is not (yet) supported in DuckLake. " ++
        "Eliminate duplicate matches prior to running the UPDATE"⟩
  else
    let existing := found.2.deleteDataMap.lookup filename
    return found.2.stage filename found.1
      (op.flushDataFile table.snapshot filename found.1 existing sortedDeletes)

/-- One round of the loop in `Finalize`. -/
def flushEntry (filenames : List (Nat × Text)) (state : DeleteState) (entry : Nat × List Nat) :
    Except Exception DeleteState :=
  match filenames.lookup entry.1 with
  | none => internalException "Filename not found for file index"
  | some filename => op.flushDelete scan state filename entry.2

/-- `Finalize`, with the files in the order in which the map of their rows is iterated. -/
def finalize (filenames : List (Nat × Text)) (entries : List (Nat × List Nat)) :
    Except Exception DeleteState :=
  entries.foldlM (op.flushEntry scan filenames) scan.initialState

end DuckLakeDelete

/-! ## The commit -/

/-- The delete files of a commit, numbered from `nextFileId` on. -/
def DeleteState.newDeleteFiles (state : DeleteState) (nextFileId : DataFileIndex)
    (commitSnapshot : SnapshotId) (fileId : DataFileIndex) : List LiveDeleteFile :=
  (state.writtenFiles.zipIdx.filter fun entry => decide (entry.1.2.dataFileId = fileId)).map
    fun entry => ⟨nextFileId + entry.2, entry.1.2.dataFilePath,
      entry.1.2.beginSnapshot.getD commitSnapshot, entry.1.2.data⟩

def DeleteState.overwrittenDeleteFileIds (state : DeleteState) : List DataFileIndex :=
  state.writtenFiles.filterMap fun entry => entry.2.overwrittenDeleteFile.map (·.deleteFileId)

/-- The data file after the commit, unless its row was ended. -/
def DeleteState.commitFile (state : DeleteState) (nextFileId : DataFileIndex)
    (commitSnapshot : SnapshotId) (file : LiveDataFile) : Option LiveDataFile :=
  if file.fileId ∈ state.droppedFiles.map (·.2) then none
  else some { file with
    deleteFiles :=
      (file.deleteFiles.filter (·.deleteFileId ∉ state.overwrittenDeleteFileIds)) ++
        state.newDeleteFiles nextFileId commitSnapshot file.fileId
    inlinedFileDeletions :=
      (state.newInlinedFileDeletes.filter (·.1 = file.fileId)).foldl
        (fun rows entry => entry.2.elems.foldl OrdSet.insert rows) file.inlinedFileDeletions }

/-- Whether nobody sees the row after the commit. -/
def DeleteState.hidden (state : DeleteState) (nextFileId : DataFileIndex)
    (commitSnapshot : SnapshotId) (file : LiveDataFile) (row : Nat) : Bool :=
  match state.commitFile nextFileId commitSnapshot file with
  | none => true
  | some file => file.deletedAt commitSnapshot row

/-! ## Sets of rows -/

theorem lookup_cons_of_ne {κ β : Type} [DecidableEq κ] {key other : κ} {value : β}
    {entries : List (κ × β)} (h : key ≠ other) :
    ((other, value) :: entries).lookup key = entries.lookup key := by
  rw [List.lookup_cons, beq_eq_false_iff_ne.2 h]

theorem OrdSet.mem_of_length {s : OrdSet Nat} {n a : Nat} (hlt : ∀ b ∈ s, b < n)
    (hlen : s.elems.length = n) (ha : a < n) : a ∈ s := by
  have hnodup : s.elems.Nodup := s.sorted.imp fun h => Nat.ne_of_lt h
  have hsub : s.elems ⊆ List.range n := fun b hb => List.mem_range.2 (hlt b hb)
  have hperm : s.elems.Perm (List.range n) :=
    (List.subperm_of_subset hnodup hsub).perm_of_length_le (by simp [hlen])
  exact hperm.mem_iff.2 (List.mem_range.2 ha)

theorem insertPosition_positions (new : PositionWithSnapshot) (entries : List PositionWithSnapshot) :
    (insertPosition new entries).map (·.position) =
      OrdSet.insertList new.position (entries.map (·.position)) := by
  induction entries with
  | nil => rfl
  | cons entry entries ih =>
    simp only [insertPosition, List.map_cons, OrdSet.insertList]
    split
    · rfl
    · split
      · rw [List.map_cons, ih]
      · rfl

/-- Merging keeps the positions as a set of row numbers does. -/
theorem mergeDeletesWithSnapshots_positions (entries result : List PositionWithSnapshot)
    (rows : OrdSet Nat) (h : result.map (·.position) = rows.elems) :
    (mergeDeletesWithSnapshots entries result).map (·.position) =
      ((entries.map (·.position)).foldl OrdSet.insert rows).elems := by
  induction entries generalizing result rows with
  | nil => exact h
  | cons entry entries ih =>
    apply ih (insertPosition entry result) (rows.insert entry.position)
    rw [insertPosition_positions, h]
    rfl

theorem mem_insertPosition {new entry : PositionWithSnapshot} {entries : List PositionWithSnapshot}
    (h : entry ∈ insertPosition new entries) : entry = new ∨ entry ∈ entries := by
  induction entries with
  | nil => exact .inl (List.mem_singleton.1 h)
  | cons first entries ih =>
    simp only [insertPosition] at h
    split at h
    · exact List.mem_cons.1 h
    · split at h
      · cases h with
        | head => exact .inr (.head _)
        | tail _ h => exact (ih h).imp_right (.tail _)
      · exact .inr h

theorem mem_mergeDeletesWithSnapshots {entry : PositionWithSnapshot}
    {entries result : List PositionWithSnapshot}
    (h : entry ∈ mergeDeletesWithSnapshots entries result) : entry ∈ result ∨ entry ∈ entries := by
  induction entries generalizing result with
  | nil => exact .inl h
  | cons first entries ih =>
    cases ih h with
    | inl h =>
      cases mem_insertPosition h with
      | inl h => exact .inr (h ▸ .head _)
      | inr h => exact .inl h
    | inr h => exact .inr (.tail _ h)

/-! ## The rows of one file -/

namespace DuckLakeDeleteData.Dated

variable {data : DuckLakeDeleteData} {snapshot snapshot' : SnapshotId} {row : Nat}

theorem length_le (h : data.Dated snapshot)
    (hembedded : data.hasEmbeddedSnapshots = true) :
    data.deletedRows.length ≤ data.snapshotIds.length := by
  cases h.paired with
  | inl hnil => simp [hasEmbeddedSnapshots, hnil] at hembedded
  | inr hlen => exact hlen.ge

/-- At the snapshot of the table every deletion of the file counts. -/
theorem filters_iff (h : data.Dated snapshot) (hle : snapshot ≤ snapshot') :
    data.filters snapshot' row = true ↔ row ∈ data.deletedRows := by
  unfold filters
  cases hembedded : data.hasEmbeddedSnapshots with
  | false => simp
  | true =>
    have hlen := h.length_le hembedded
    simp only [if_true, List.any_eq_true, Bool.and_eq_true, decide_eq_true_eq]
    constructor
    · rintro ⟨entry, hentry, rfl, -⟩
      exact (List.of_mem_zip hentry).1
    · intro hrow
      obtain ⟨i, hi, rfl⟩ := List.getElem_of_mem hrow
      have hi' : i < data.snapshotIds.length := hi.trans_le hlen
      refine ⟨(data.deletedRows[i], data.snapshotIds[i]), ?_, rfl, ?_⟩
      · exact List.mem_iff_getElem.2 ⟨i, by simp [hi, hi'], by simp⟩
      · exact (h.snapshot_le _ (List.getElem_mem hi')).trans hle

theorem positionsWithSnapshots_positions (h : data.Dated snapshot)
    (fallback : SnapshotId) :
    (positionsWithSnapshots data fallback).map (·.position) = data.deletedRows := by
  unfold positionsWithSnapshots
  split
  · rename_i hembedded
    rw [List.map_map]
    exact List.map_fst_zip (h.length_le hembedded)
  · rw [List.map_map]
    exact List.map_id _

theorem positionsWithSnapshots_le (h : data.Dated snapshot) {fallback : SnapshotId}
    (hfallback : fallback ≤ snapshot) :
    ∀ entry ∈ positionsWithSnapshots data fallback, entry.snapshotId ≤ snapshot := by
  intro entry hentry
  unfold positionsWithSnapshots at hentry
  split at hentry
  · obtain ⟨pair, hpair, rfl⟩ := List.mem_map.1 hentry
    exact h.snapshot_le _ (List.of_mem_zip hpair).2
  · obtain ⟨_, _, rfl⟩ := List.mem_map.1 hentry
    exact hfallback

end DuckLakeDeleteData.Dated

namespace LiveDataFile

/-- The rows in the delete file of a data file. -/
def deletedRows (file : LiveDataFile) : List Nat :=
  (file.deleteFile.map (·.data.deletedRows)).getD []

/-- The rows that are gone once a set of rows is deleted besides the inlined deletions: all of them
when the set has as many as the file. -/
def goneWith (file : LiveDataFile) (rows : OrdSet Nat) (row : Nat) : Prop :=
  rows.elems.length = file.rowCount ∨ row ∈ rows ∨ row ∈ file.inlinedFileDeletions

end LiveDataFile

/-- Whether nobody sees the row of the file once this has become of its deleted rows. -/
def DeleteEffect.hides (commitSnapshot : SnapshotId) (file : LiveDataFile) (row : Nat) :
    DeleteEffect → Bool
  | dropFile => true
  | inlinedFileDeletes rows => file.deletedAt commitSnapshot row || decide (row ∈ rows)
  | deleteFile written =>
    ((file.deleteFiles.filter fun old =>
        decide (old.deleteFileId ∉ written.overwrittenDeleteFile.map (·.deleteFileId))).any
          (·.data.filters commitSnapshot row)) ||
      written.data.filters commitSnapshot row || decide (row ∈ file.inlinedFileDeletions)

namespace LiveFiles

variable {file : LiveDataFile} {snapshot : SnapshotId} {row : Nat}

theorem deleteFiles_eq (hfile : file ∈ table.files) : file.deleteFiles = file.deleteFile.toList := by
  have hlen := table.deleteFiles_length file hfile
  unfold LiveDataFile.deleteFile
  match h : file.deleteFiles with
  | [] => rfl
  | [_] => rfl
  | _ :: _ :: _ => simp [h] at hlen

theorem deletedAt_iff (hfile : file ∈ table.files) (hle : table.snapshot ≤ snapshot) :
    file.deletedAt snapshot row = true ↔
      row ∈ file.deletedRows ∨ row ∈ file.inlinedFileDeletions := by
  unfold LiveDataFile.deletedAt LiveDataFile.deletedRows
  rw [Bool.or_eq_true, decide_eq_true_eq, deleteFiles_eq hfile]
  cases hdelete : file.deleteFile with
  | none => simp
  | some old =>
    have hold : old ∈ file.deleteFiles := by simp [deleteFiles_eq hfile, hdelete]
    simp [(table.wellFormed file hfile old hold).toDated.filters_iff hle]

theorem deletedRows_lt (hfile : file ∈ table.files) : ∀ row ∈ file.deletedRows,
    row < file.rowCount := by
  intro row hrow
  unfold LiveDataFile.deletedRows at hrow
  cases hdelete : file.deleteFile with
  | none => simp [hdelete] at hrow
  | some old =>
    have hold : old ∈ file.deleteFiles := by simp [deleteFiles_eq hfile, hdelete]
    exact (table.wellFormed file hfile old hold).row_lt row (by simpa [hdelete] using hrow)

/-- With its own deletes, a file loses the selected rows and no others. -/
theorem goneWith_deletedRows (hfile : file ∈ table.files) {rows : OrdSet Nat}
    (hrows : ∀ row ∈ rows, row < file.rowCount) (hrow : row < file.rowCount) :
    file.goneWith (file.deletedRows.foldl OrdSet.insert rows) row ↔
      file.deletedAt table.snapshot row = true ∨ row ∈ rows := by
  rw [deletedAt_iff hfile le_rfl]
  unfold LiveDataFile.goneWith
  rw [OrdSet.mem_foldl_insert]
  constructor
  · rintro (hlen | h)
    · have hall := OrdSet.mem_of_length (fun b hb => ?_) hlen hrow
      · rw [OrdSet.mem_foldl_insert] at hall
        tauto
      · cases OrdSet.mem_foldl_insert.1 hb with
        | inl hb => exact hrows b hb
        | inr hb => exact deletedRows_lt hfile b hb
    · tauto
  · tauto

end LiveFiles

namespace DuckLakeDelete

variable {op : DuckLakeDelete} {file : LiveDataFile} {existing : Option DuckLakeDeleteData}
  {rows : OrdSet Nat} {commitSnapshot : SnapshotId} {filename : Text} {row : Nat}

/-- Rows that are deleted inline, or with the whole file, are the selected ones. -/
theorem flushDataFile_inlines (hfile : file ∈ table.files) (hcommit : table.snapshot < commitSnapshot)
    (hrows : ∀ row ∈ rows, row < file.rowCount) (hrow : row < file.rowCount)
    (hinline : op.inlines rows = true) :
    (op.flushDataFile table.snapshot filename file existing rows).hides commitSnapshot file row =
        true ↔ file.deletedAt table.snapshot row = true ∨ row ∈ rows := by
  unfold flushDataFile
  split
  · rename_i hdrop
    rw [Bool.and_eq_true, decide_eq_true_eq] at hdrop
    simp [DeleteEffect.hides, OrdSet.mem_of_length hrows hdrop.2 hrow]
  · simp only [DeleteEffect.hides, Bool.or_eq_true, decide_eq_true_eq]
    rw [LiveFiles.deletedAt_iff hfile hcommit.le, LiveFiles.deletedAt_iff hfile le_rfl]

/-- The delete file that is written with snapshots holds the rows of the known delete data and the
selected ones. -/
theorem flushDeleteWithSnapshots_hides (hfile : file ∈ table.files)
    (hcommit : table.snapshot < commitSnapshot) {data : DuckLakeDeleteData}
    (hdata : data.Dated table.snapshot) :
    (flushDeleteWithSnapshots table.snapshot filename file data rows).hides commitSnapshot file row =
      true ↔ file.goneWith (data.deletedRows.foldl OrdSet.insert rows) row := by
  unfold flushDeleteWithSnapshots
  let fallback := (file.deleteFile.map (·.beginSnapshot)).getD 0
  let merged := mergeDeletesWithSnapshots (positionsWithSnapshots data fallback) []
  let deletes := mergeDeletesWithSnapshots (rows.elems.map (⟨·, table.snapshot + 1⟩)) merged
  have hfallback : fallback ≤ table.snapshot := by
    cases hdelete : file.deleteFile with
    | none => simp [fallback, hdelete]
    | some old =>
      have hold : old ∈ file.deleteFiles := by simp [LiveFiles.deleteFiles_eq hfile, hdelete]
      simpa [fallback, hdelete] using table.beginSnapshot_le file hfile old hold
  have hrows : deletes.map (·.position) = (data.deletedRows.foldl OrdSet.insert rows).elems := by
    have hmerged := mergeDeletesWithSnapshots_positions (positionsWithSnapshots data fallback) [] ∅ rfl
    rw [hdata.positionsWithSnapshots_positions] at hmerged
    have hdeletes := mergeDeletesWithSnapshots_positions
      (rows.elems.map (PositionWithSnapshot.mk · (table.snapshot + 1))) merged _ hmerged
    refine hdeletes.trans (congrArg OrdSet.elems (OrdSet.ext_mem fun a => ?_))
    rw [List.map_map]
    have hid : rows.elems.map ((·.position) ∘ (PositionWithSnapshot.mk · (table.snapshot + 1))) =
        rows.elems := List.map_id _
    rw [hid]
    simp only [OrdSet.mem_foldl_insert, OrdSet.not_mem_empty, false_or]
    exact or_comm
  have hdated : DuckLakeDeleteData.Dated ⟨deletes.map (·.position), deletes.map (·.snapshotId)⟩
      commitSnapshot := by
    constructor
    · exact .inr (by simp)
    · intro id hid
      obtain ⟨entry, hentry, rfl⟩ := List.mem_map.1 hid
      cases mem_mergeDeletesWithSnapshots hentry with
      | inl hentry =>
        have hentry := (mem_mergeDeletesWithSnapshots hentry).resolve_left List.not_mem_nil
        exact (hdata.positionsWithSnapshots_le hfallback entry hentry).trans hcommit.le
      | inr hentry =>
        obtain ⟨_, _, rfl⟩ := List.mem_map.1 hentry
        exact hcommit
  have hlen : deletes.length = (data.deletedRows.foldl OrdSet.insert rows).elems.length := by
    rw [← hrows, List.length_map]
  show (tryDropFullyDeletedFile file deletes.length _).hides commitSnapshot file row = true ↔ _
  unfold tryDropFullyDeletedFile LiveDataFile.goneWith
  rw [hlen]
  split
  · rename_i hall
    simp [DeleteEffect.hides, hall]
  · rename_i hnot
    have hold : file.deleteFiles.filter (fun old => decide (old.deleteFileId ∉
        (file.deleteFile.map fun old => DuckLakeOverwrittenDeleteFile.mk old.deleteFileId
          old.path).map (·.deleteFileId))) = [] := by
      rw [LiveFiles.deleteFiles_eq hfile]
      cases file.deleteFile <;> simp
    have hfilters : DuckLakeDeleteData.filters ⟨deletes.map (·.position),
        deletes.map (·.snapshotId)⟩ commitSnapshot row = true ↔
          row ∈ data.deletedRows.foldl OrdSet.insert rows := by
      rw [hdated.filters_iff le_rfl, OrdSet.mem_def, ← hrows]
    simp only [DeleteEffect.hides]
    rw [hold, Bool.or_eq_true, Bool.or_eq_true, hfilters, decide_eq_true_eq]
    simp [hnot]

/-- Written or dropped, the file loses the rows of the known delete data and the selected ones. -/
theorem flushDataFile_writes (hfile : file ∈ table.files)
    (hcommit : table.snapshot < commitSnapshot) (hnone : existing = none → file.deleteFile = none)
    (hdata : ∀ data ∈ existing, data.Dated table.snapshot) (hinline : op.inlines rows = false) :
    (op.flushDataFile table.snapshot filename file existing rows).hides commitSnapshot file row =
      true ↔ file.goneWith
        (((existing.map (·.deletedRows)).getD []).foldl OrdSet.insert rows) row := by
  unfold flushDataFile
  cases existing with
  | none =>
    have hold : file.deleteFiles = [] := by rw [LiveFiles.deleteFiles_eq hfile, hnone rfl]; rfl
    simp only [hinline, tryDropFullyDeletedFile]
    by_cases hall : rows.elems.length = file.rowCount
    · simp [hall, DeleteEffect.hides, LiveDataFile.goneWith]
    · simp [hall, DeleteEffect.hides, LiveDataFile.goneWith, hold, OrdSet.mem_def,
        DuckLakeDeleteData.filters, DuckLakeDeleteData.hasEmbeddedSnapshots]
  | some data =>
    simp only [Option.isNone_some, Bool.false_and, hinline, Bool.false_eq_true, if_false]
    split
    · exact flushDeleteWithSnapshots_hides hfile hcommit (hdata data rfl)
    · rename_i hplain
      have hold : file.deleteFiles = [] := by
        rw [LiveFiles.deleteFiles_eq hfile]
        cases hdelete : file.deleteFile <;> simp_all
      simp only [tryDropFullyDeletedFile]
      by_cases hall : (data.deletedRows.foldl OrdSet.insert rows).elems.length = file.rowCount
      · simp [hall, DeleteEffect.hides, LiveDataFile.goneWith]
      · simp [hall, DeleteEffect.hides, LiveDataFile.goneWith, hold, OrdSet.mem_def,
          DuckLakeDeleteData.filters, DuckLakeDeleteData.hasEmbeddedSnapshots]

end DuckLakeDelete

end DuckLake
