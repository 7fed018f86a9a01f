import DuckLake.Lib.Grouping
import DuckLake.Storage.SnapshotPositions

/-!
# Flushing inlined file deletions

The deletions of rows of data files that are kept in the metadata are written to delete files, each
with the snapshot from which on it counts. A delete file that a data file has already is read, and
replaced by one that holds its deletions as well.
-/

namespace DuckLake

/-! ## What is deleted at a snapshot -/

/-- A delete file that was committed: its rows are in order, and it begins with its first
snapshot. -/
structure ExistingDeleteFile extends LiveDeleteFile where
  paired : data.snapshotIds = [] ∨ data.snapshotIds.length = data.deletedRows.length
  increasing : data.deletedRows.Pairwise (· < ·)
  beginSnapshot_le : ∀ id ∈ data.snapshotIds, beginSnapshot ≤ id

/-- The file is live at the snapshot, and a reader leaves the row out. -/
def LiveDeleteFile.hides (file : LiveDeleteFile) (snapshot : SnapshotId) (row : Nat) : Bool :=
  decide (file.beginSnapshot ≤ snapshot) && file.data.filters snapshot row

/-- The same of a file that is written, once it is committed. -/
def WrittenDeleteFile.hidesAt (file : WrittenDeleteFile) (snapshot : SnapshotId) (row : Nat) :
    Bool :=
  file.beginSnapshot.any (· ≤ snapshot) && file.data.filters snapshot row

/-! ## The flush -/

/-- A row of the table of inlined deletions. -/
structure InlinedFileDeletion where
  fileId : DataFileIndex
  rowId : Nat
  beginSnapshot : SnapshotId
deriving DecidableEq

/-- The result of the query: the inlined deletions, in the order of the rows, and what is joined to
them of their data files. -/
structure InlinedFileDeletions where
  rows : List InlinedFileDeletion
  path : DataFileIndex → Text
  path_ne_nil (id : DataFileIndex) : path id ≠ []
  existingDelete : DataFileIndex → Option ExistingDeleteFile

structure FileDeleteInfo where
  filePath : Text := []
  deletions : List PositionWithSnapshot := []
  maxSnapshot : SnapshotId := 0
  existingDelete : Option ExistingDeleteFile := none

namespace FileDeleteInfo

/-- The path, which no data file lacks, tells whether the entry is new. -/
def start (query : InlinedFileDeletions) (info : FileDeleteInfo) (row : InlinedFileDeletion) :
    FileDeleteInfo :=
  if info.filePath = [] then
    { info with
      filePath := query.path row.fileId
      maxSnapshot := row.beginSnapshot
      existingDelete := (query.existingDelete row.fileId).or info.existingDelete }
  else { info with maxSnapshot := max info.maxSnapshot row.beginSnapshot }

/-- The body of the loop over the rows. -/
def addDeletion (query : InlinedFileDeletions) (info : FileDeleteInfo) (row : InlinedFileDeletion) :
    FileDeleteInfo :=
  let started := info.start query row
  { started with
    deletions := insertPosition ⟨row.rowId, row.beginSnapshot⟩ started.deletions }

/-- The deletions with those of the existing delete file. -/
def mergedDeletions (info : FileDeleteInfo) : List PositionWithSnapshot :=
  match info.existingDelete with
  | some existing => mergeDeletesWithSnapshots
      (positionsWithSnapshots existing.data existing.beginSnapshot) info.deletions
  | none => []

def deletionsToWrite (info : FileDeleteInfo) : List PositionWithSnapshot :=
  if info.mergedDeletions = [] then info.deletions else info.mergedDeletions

/-- The delete file of a data file. -/
def flush (fileId : DataFileIndex) (info : FileDeleteInfo) : WrittenDeleteFile where
  dataFileId := fileId
  dataFilePath := info.filePath
  data := ⟨info.deletionsToWrite.map (·.position), info.deletionsToWrite.map (·.snapshotId)⟩
  overwritesExistingDelete := info.existingDelete.isSome
  overwrittenDeleteFile := info.existingDelete.map fun old => ⟨old.deleteFileId, old.path⟩
  beginSnapshot := (info.deletionsToWrite.map (·.snapshotId)).min?
  maxSnapshot := some ((info.mergedDeletions.map (·.snapshotId)).foldl max info.maxSnapshot)

end FileDeleteInfo

namespace InlinedFileDeletions

variable (query : InlinedFileDeletions)

/-- A row goes to the entry of its file, in the order of the rows. -/
def filesToFlush : List (DataFileIndex × FileDeleteInfo) :=
  (groupByKey (·.fileId) query.rows).map fun group =>
    (group.1, group.2.foldl (FileDeleteInfo.addDeletion query) {})

/-- `FlushInlinedFileDeletions`. -/
def flushInlinedFileDeletions : List WrittenDeleteFile :=
  query.filesToFlush.map fun file => FileDeleteInfo.flush file.1 file.2

/-- A row of a data file is hidden, by an inlined deletion or by the delete file. -/
def hidesAt (fileId : DataFileIndex) (snapshot : SnapshotId) (row : Nat) : Bool :=
  (query.rows.any fun deletion => decide (deletion.fileId = fileId) &&
    decide (deletion.rowId = row) && decide (deletion.beginSnapshot ≤ snapshot)) ||
  (query.existingDelete fileId).any fun file => file.hides snapshot row

/-- The entries for a data file in the order in which they are inserted: the inlined deletions come
before those of the delete file. -/
def entries (fileId : DataFileIndex) : List PositionWithSnapshot :=
  ((query.rows.filter fun row => row.fileId = fileId).map fun row =>
    ⟨row.rowId, row.beginSnapshot⟩) ++
  ((query.existingDelete fileId).toList.flatMap fun file =>
    positionsWithSnapshots file.data file.beginSnapshot)

end InlinedFileDeletions

/-! ## Merged entries -/

/-- Of the entries for a position the first one, which a set keeps, is the earliest. -/
def EarliestFirst (entries : List PositionWithSnapshot) : Prop :=
  ∀ entry ∈ entries, ∀ snapshotId ∈ snapshotOf entries entry.position,
    snapshotId ≤ entry.snapshotId

instance (entries : List PositionWithSnapshot) : Decidable (EarliestFirst entries) :=
  inferInstanceAs (Decidable (∀ entry ∈ entries, ∀ snapshotId ∈ snapshotOf entries entry.position,
    snapshotId ≤ entry.snapshotId))

/-- An entry deletes the row at the snapshot. -/
def DeletedBy (entries : List PositionWithSnapshot) (snapshot : SnapshotId) (row : Nat) : Prop :=
  ∃ entry ∈ entries, entry.position = row ∧ entry.snapshotId ≤ snapshot

section Merged

variable {entries : List PositionWithSnapshot} {snapshot : SnapshotId} {row : Nat}

theorem deletedBy_append {entries' : List PositionWithSnapshot} :
    DeletedBy (entries ++ entries') snapshot row ↔
      DeletedBy entries snapshot row ∨ DeletedBy entries' snapshot row := by
  simp only [DeletedBy, List.mem_append, or_and_right, exists_or]

theorem sorted_merged : SortedPositions (mergeDeletesWithSnapshots entries []) :=
  SortedPositions.mergeDeletesWithSnapshots List.Pairwise.nil

theorem snapshotOf_merged : snapshotOf (mergeDeletesWithSnapshots entries []) row =
    snapshotOf entries row := by
  have hnil : SortedPositions [] := List.Pairwise.nil
  rw [hnil.snapshotOf_mergeDeletesWithSnapshots]
  rfl

theorem mem_merged {entry : PositionWithSnapshot} :
    entry ∈ mergeDeletesWithSnapshots entries [] ↔
      snapshotOf entries entry.position = some entry.snapshotId := by
  rw [sorted_merged.mem_iff, snapshotOf_merged]

theorem deletedBy_merged : DeletedBy (mergeDeletesWithSnapshots entries []) snapshot row ↔
    ∃ snapshotId ∈ snapshotOf entries row, snapshotId ≤ snapshot := by
  constructor
  · rintro ⟨entry, hentry, rfl, hle⟩
    exact ⟨entry.snapshotId, mem_merged.1 hentry, hle⟩
  · rintro ⟨snapshotId, hsnapshot, hle⟩
    exact ⟨⟨row, snapshotId⟩, mem_merged.2 hsnapshot, rfl, hle⟩

/-- The merged entries delete the same rows at every snapshot exactly when of each position the
earliest entry comes first. -/
theorem deletedBy_merged_iff :
    (∀ snapshot row, DeletedBy (mergeDeletesWithSnapshots entries []) snapshot row ↔
      DeletedBy entries snapshot row) ↔ EarliestFirst entries := by
  constructor
  · intro h entry hentry snapshotId hsnapshot
    obtain ⟨first, hfirst, hle⟩ :=
      deletedBy_merged.1 ((h entry.snapshotId entry.position).2 ⟨entry, hentry, rfl, le_rfl⟩)
    obtain rfl : first = snapshotId := Option.some.inj (hfirst.symm.trans hsnapshot)
    exact hle
  · intro h snapshot row
    rw [deletedBy_merged]
    constructor
    · rintro ⟨snapshotId, hsnapshot, hle⟩
      exact ⟨⟨row, snapshotId⟩, exists_mem_of_snapshotOf hsnapshot, rfl, hle⟩
    · rintro ⟨entry, hentry, rfl, hle⟩
      cases hsnapshot : snapshotOf entries entry.position with
      | none => exact absurd rfl (snapshotOf_eq_none.1 hsnapshot entry hentry)
      | some snapshotId => exact ⟨snapshotId, rfl, (h entry hentry snapshotId hsnapshot).trans hle⟩

theorem filters_entries :
    DuckLakeDeleteData.filters ⟨entries.map (·.position), entries.map (·.snapshotId)⟩ snapshot row =
      true ↔ DeletedBy entries snapshot row := by
  cases entries with
  | nil => simp [DuckLakeDeleteData.filters, DuckLakeDeleteData.hasEmbeddedSnapshots, DeletedBy]
  | cons entry entries =>
    have hembedded : DuckLakeDeleteData.hasEmbeddedSnapshots
        ⟨(entry :: entries).map (·.position), (entry :: entries).map (·.snapshotId)⟩ = true := rfl
    rw [DuckLakeDeleteData.filters, if_pos hembedded, List.zip_map', List.any_map, List.any_eq_true]
    simp [DeletedBy]

/-- A file that begins with the first snapshot of its entries hides what these delete. -/
theorem hidesAt_entries {file : WrittenDeleteFile}
    (hdata : file.data = ⟨entries.map (·.position), entries.map (·.snapshotId)⟩)
    (hbegin : file.beginSnapshot = (entries.map (·.snapshotId)).min?) :
    file.hidesAt snapshot row = true ↔ DeletedBy entries snapshot row := by
  rw [WrittenDeleteFile.hidesAt, Bool.and_eq_true, hdata, filters_entries, hbegin]
  refine and_iff_right_of_imp fun ⟨entry, hentry, _, hle⟩ => ?_
  have hmem : entry.snapshotId ∈ entries.map (·.snapshotId) := List.mem_map_of_mem hentry
  cases hmin : (entries.map (·.snapshotId)).min? with
  | none => exact absurd hmem (List.min?_eq_none_iff.1 hmin ▸ List.not_mem_nil)
  | some first =>
    have hfirst : first ≤ entry.snapshotId := (List.min?_eq_some_iff.1 hmin).2 _ hmem
    exact decide_eq_true (hfirst.trans hle)

/-- So does a file that holds the positions alone, when all of them have the snapshot that it
begins with: that is how a single deletion vector is loaded. -/
theorem hidesAt_positions {file : WrittenDeleteFile} {snapshotId : SnapshotId}
    (hall : ∀ entry ∈ entries, entry.snapshotId = snapshotId)
    (hdata : file.data = ⟨entries.map (·.position), []⟩)
    (hbegin : file.beginSnapshot = some snapshotId) :
    file.hidesAt snapshot row = true ↔ DeletedBy entries snapshot row := by
  rw [WrittenDeleteFile.hidesAt, Bool.and_eq_true, hdata, hbegin]
  simp only [DuckLakeDeleteData.filters, DuckLakeDeleteData.hasEmbeddedSnapshots, List.isEmpty_nil,
    Bool.not_true, Bool.false_eq_true, if_false, Option.any_some, decide_eq_true_eq, List.mem_map]
  constructor
  · rintro ⟨hle, entry, hentry, hrow⟩
    exact ⟨entry, hentry, hrow, (hall entry hentry).trans_le hle⟩
  · rintro ⟨entry, hentry, hrow, hle⟩
    exact ⟨(hall entry hentry).ge.trans hle, entry, hentry, hrow⟩

end Merged

/-- What a stored file hides is what its positions delete, with their snapshots or the one that the
file begins with. -/
theorem ExistingDeleteFile.hides_iff {file : ExistingDeleteFile} {snapshot : SnapshotId} {row : Nat} :
    file.hides snapshot row = true ↔
      DeletedBy (positionsWithSnapshots file.data file.beginSnapshot) snapshot row := by
  rw [LiveDeleteFile.hides, Bool.and_eq_true, decide_eq_true_eq, DuckLakeDeleteData.filters,
    positionsWithSnapshots]
  split
  next hembedded =>
    rw [List.any_eq_true]
    constructor
    · rintro ⟨-, entry, hentry, hrow⟩
      rw [Bool.and_eq_true, decide_eq_true_eq, decide_eq_true_eq] at hrow
      exact ⟨⟨entry.1, entry.2⟩, List.mem_map_of_mem hentry, hrow⟩
    · rintro ⟨entry, hentry, hrow, hle⟩
      obtain ⟨pair, hpair, rfl⟩ := List.mem_map.1 hentry
      have hbegin : file.beginSnapshot ≤ pair.2 :=
        file.beginSnapshot_le _ (List.of_mem_zip hpair).2
      refine ⟨hbegin.trans hle, pair, hpair, ?_⟩
      rw [Bool.and_eq_true, decide_eq_true_eq, decide_eq_true_eq]
      exact ⟨hrow, hle⟩
  next =>
    rw [decide_eq_true_eq]
    constructor
    · rintro ⟨hbegin, hrow⟩
      exact ⟨⟨row, file.beginSnapshot⟩, List.mem_map_of_mem hrow, rfl, hbegin⟩
    · rintro ⟨entry, hentry, rfl, hle⟩
      obtain ⟨row, hrow, rfl⟩ := List.mem_map.1 hentry
      exact ⟨hle, hrow⟩

/-! ## The entry of a file -/

theorem foldl_max_spec {snapshotIds : List SnapshotId} {first : SnapshotId} :
    first ≤ snapshotIds.foldl max first ∧ (∀ id ∈ snapshotIds, id ≤ snapshotIds.foldl max first) ∧
      (snapshotIds.foldl max first = first ∨ snapshotIds.foldl max first ∈ snapshotIds) := by
  induction snapshotIds generalizing first with
  | nil => exact ⟨le_rfl, nofun, .inl rfl⟩
  | cons id ids ih =>
    obtain ⟨hfirst, hrest, hmem⟩ := @ih (max first id)
    rw [List.foldl_cons]
    refine ⟨(le_max_left first id).trans hfirst,
      List.forall_mem_cons.2 ⟨(le_max_right first id).trans hfirst, hrest⟩, ?_⟩
    rcases hmem with heq | hmem
    · rw [heq]
      rcases le_total id first with h | h
      · exact .inl (max_eq_left h)
      · rw [max_eq_right h]
        exact .inr List.mem_cons_self
    · exact .inr (List.mem_cons_of_mem _ hmem)

namespace InlinedFileDeletions

variable {query : InlinedFileDeletions} {fileId : DataFileIndex}

theorem foldl_addDeletion_started {rows : List InlinedFileDeletion} {info : FileDeleteInfo}
    (h : info.filePath ≠ []) :
    rows.foldl (FileDeleteInfo.addDeletion query) info =
      { info with
        deletions := mergeDeletesWithSnapshots (rows.map fun row => ⟨row.rowId, row.beginSnapshot⟩)
          info.deletions
        maxSnapshot := (rows.map (·.beginSnapshot)).foldl max info.maxSnapshot } := by
  induction rows generalizing info with
  | nil => rfl
  | cons row rows ih =>
    have hstart : info.start query row =
        { info with maxSnapshot := max info.maxSnapshot row.beginSnapshot } := if_neg h
    have hadd : (info.addDeletion query row).filePath ≠ [] := by
      rw [FileDeleteInfo.addDeletion, hstart]
      exact h
    rw [List.foldl_cons, ih hadd, FileDeleteInfo.addDeletion, hstart]
    rfl

/-- The entry of a file once all of its rows are in it. -/
theorem foldl_addDeletion {row : InlinedFileDeletion} {rows : List InlinedFileDeletion} :
    (row :: rows).foldl (FileDeleteInfo.addDeletion query) {} =
      { filePath := query.path row.fileId
        deletions := mergeDeletesWithSnapshots
          ((row :: rows).map fun row => ⟨row.rowId, row.beginSnapshot⟩) []
        maxSnapshot := (rows.map (·.beginSnapshot)).foldl max row.beginSnapshot
        existingDelete := query.existingDelete row.fileId } := by
  have hstart : FileDeleteInfo.start query {} row =
      { filePath := query.path row.fileId
        maxSnapshot := row.beginSnapshot
        existingDelete := query.existingDelete row.fileId } := by
    rw [FileDeleteInfo.start, if_pos rfl, Option.or_none]
  have hadd : (FileDeleteInfo.addDeletion query {} row).filePath ≠ [] := by
    rw [FileDeleteInfo.addDeletion, hstart]
    exact query.path_ne_nil _
  rw [List.foldl_cons, foldl_addDeletion_started hadd, FileDeleteInfo.addDeletion, hstart]
  rfl

/-- The entry of a file holds its rows and its delete file. -/
structure IsEntry (query : InlinedFileDeletions) (fileId : DataFileIndex) (info : FileDeleteInfo) :
    Prop where
  deletions : info.deletions = mergeDeletesWithSnapshots
    ((query.rows.filter fun row => row.fileId = fileId).map fun row =>
      ⟨row.rowId, row.beginSnapshot⟩) []
  maxSnapshot_mem : ∃ row ∈ query.rows, row.fileId = fileId ∧ row.beginSnapshot = info.maxSnapshot
  le_maxSnapshot : ∀ row ∈ query.rows, row.fileId = fileId → row.beginSnapshot ≤ info.maxSnapshot
  existingDelete : info.existingDelete = query.existingDelete fileId

theorem isEntry_of_mem {info : FileDeleteInfo} (h : (fileId, info) ∈ query.filesToFlush) :
    query.IsEntry fileId info := by
  obtain ⟨⟨fileId, rows⟩, hgroup, heq⟩ := List.mem_map.1 h
  cases heq
  obtain ⟨hrows, hne⟩ := mem_groupByKey.1 hgroup
  obtain ⟨row, rest, rfl⟩ := List.exists_cons_of_ne_nil hne
  have hmem : ∀ row' ∈ row :: rest, row' ∈ query.rows ∧ row'.fileId = fileId := fun row' hrow' => by
    rw [hrows, List.mem_filter, decide_eq_true_eq] at hrow'
    exact hrow'
  have hrowId : row.fileId = fileId := (hmem row List.mem_cons_self).2
  obtain ⟨hfirst, hrest, hmax⟩ := @foldl_max_spec (rest.map (·.beginSnapshot)) row.beginSnapshot
  rw [foldl_addDeletion]
  refine ⟨by rw [hrows], ?_, fun row' hrow' hid => ?_, by rw [hrowId]⟩
  · rcases hmax with hmax | hmax
    · exact ⟨row, (hmem row List.mem_cons_self).1, hrowId, hmax.symm⟩
    · obtain ⟨row', hrow', heq⟩ := List.mem_map.1 hmax
      obtain ⟨hquery, hid⟩ := hmem row' (List.mem_cons_of_mem _ hrow')
      exact ⟨row', hquery, hid, heq⟩
  · have hgroup : row' ∈ row :: rest := by
      rw [hrows, List.mem_filter, decide_eq_true_eq]
      exact ⟨hrow', hid⟩
    rcases List.mem_cons.1 hgroup with rfl | hgroup
    · exact hfirst
    · exact hrest _ (List.mem_map_of_mem hgroup)

/-- Each file with an inlined deletion is flushed. -/
theorem exists_mem_filesToFlush :
    (∃ info, (fileId, info) ∈ query.filesToFlush) ↔ ∃ row ∈ query.rows, row.fileId = fileId := by
  constructor
  · rintro ⟨info, hinfo⟩
    obtain ⟨row, hrow, hid, -⟩ := (isEntry_of_mem hinfo).maxSnapshot_mem
    exact ⟨row, hrow, hid⟩
  · rintro ⟨row, hrow, hid⟩
    refine ⟨_, List.mem_map.2 ⟨_, mem_groupByKey.2 ⟨rfl, ?_⟩, rfl⟩⟩
    exact List.ne_nil_of_mem (List.mem_filter.2 ⟨hrow, decide_eq_true hid⟩)

/-- What is written are the entries, the inlined ones first. -/
theorem IsEntry.deletionsToWrite {info : FileDeleteInfo} (h : query.IsEntry fileId info) :
    info.deletionsToWrite = mergeDeletesWithSnapshots (query.entries fileId) [] := by
  have happend : ∀ l l' : List PositionWithSnapshot, mergeDeletesWithSnapshots (l ++ l') [] =
      mergeDeletesWithSnapshots l' (mergeDeletesWithSnapshots l []) := fun _ _ => List.foldl_append
  rw [FileDeleteInfo.deletionsToWrite, FileDeleteInfo.mergedDeletions, h.existingDelete, h.deletions,
    entries]
  cases query.existingDelete fileId with
  | none => simp
  | some existing =>
    rw [Option.toList_some, List.flatMap_singleton, happend]
    refine if_neg fun hnil => ?_
    -- there is an inlined deletion, which is in the set
    obtain ⟨row, hrow, hid, -⟩ := h.maxSnapshot_mem
    simp only at hnil
    rw [← happend] at hnil
    have hnone : snapshotOf ([] : List PositionWithSnapshot) row.rowId = none := rfl
    rw [← hnil, snapshotOf_merged] at hnone
    refine snapshotOf_eq_none.1 hnone ⟨row.rowId, row.beginSnapshot⟩
      (List.mem_append_left _ (List.mem_map.2 ⟨row, ?_, rfl⟩)) rfl
    exact List.mem_filter.2 ⟨hrow, decide_eq_true hid⟩

theorem hidesAt_iff {snapshot : SnapshotId} {row : Nat} :
    query.hidesAt fileId snapshot row = true ↔ DeletedBy (query.entries fileId) snapshot row := by
  rw [hidesAt, Bool.or_eq_true, entries, deletedBy_append]
  refine or_congr ?_ ?_
  · simp [DeletedBy, List.any_eq_true, and_assoc]
  · cases query.existingDelete fileId with
    | none => simp [DeletedBy]
    | some existing =>
      rw [Option.toList_some, List.flatMap_singleton]
      exact existing.hides_iff

/-! ## The history of the deletions -/

/-- The property: the flushed file hides at each snapshot what was hidden there before, and its
greatest snapshot is the largest one that it holds. -/
def KeepsHistory (query : InlinedFileDeletions) (fileId : DataFileIndex) : Prop :=
  ∃ file ∈ query.flushInlinedFileDeletions, file.dataFileId = fileId ∧
    (∀ snapshot row, file.hidesAt snapshot row = query.hidesAt fileId snapshot row) ∧
    file.maxSnapshot = file.data.snapshotIds.max?

/-- No inlined deletion is later than all of the deletions that come first for their positions. -/
def LatestKept (query : InlinedFileDeletions) (fileId : DataFileIndex) : Prop :=
  ∀ row ∈ query.rows, row.fileId = fileId → ∃ entry ∈ query.entries fileId,
    snapshotOf (query.entries fileId) entry.position = some entry.snapshotId ∧
      row.beginSnapshot ≤ entry.snapshotId

instance (query : InlinedFileDeletions) (fileId : DataFileIndex) :
    Decidable (query.LatestKept fileId) :=
  inferInstanceAs (Decidable (∀ row ∈ query.rows, row.fileId = fileId →
    ∃ entry ∈ query.entries fileId,
      snapshotOf (query.entries fileId) entry.position = some entry.snapshotId ∧
        row.beginSnapshot ≤ entry.snapshotId))

/-- The greatest snapshot is the largest one that is kept, or that of an inlined deletion. -/
theorem IsEntry.maxSnapshot_iff {info : FileDeleteInfo} (h : query.IsEntry fileId info) :
    (info.flush fileId).maxSnapshot = (info.flush fileId).data.snapshotIds.max? ↔
      query.LatestKept fileId := by
  have hkept : ∀ entry, entry ∈ info.deletionsToWrite ↔
      snapshotOf (query.entries fileId) entry.position = some entry.snapshotId := fun entry => by
    rw [h.deletionsToWrite, mem_merged]
  obtain ⟨hfirst, hmerged, hmax⟩ :=
    @foldl_max_spec (info.mergedDeletions.map (·.snapshotId)) info.maxSnapshot
  have hupper : ∀ id ∈ info.deletionsToWrite.map (·.snapshotId),
      id ≤ (info.mergedDeletions.map (·.snapshotId)).foldl max info.maxSnapshot := by
    rw [FileDeleteInfo.deletionsToWrite]
    split
    next =>
      intro id hid
      obtain ⟨entry, hentry, rfl⟩ := List.mem_map.1 hid
      rw [h.deletions] at hentry
      obtain ⟨row, hrow, rfl⟩ :=
        List.mem_map.1 ((mem_mergeDeletesWithSnapshots hentry).resolve_left nofun)
      obtain ⟨hquery, hfile⟩ := List.mem_filter.1 hrow
      exact (h.le_maxSnapshot row hquery (of_decide_eq_true hfile)).trans hfirst
    next => exact hmerged
  have hdef : (info.flush fileId).maxSnapshot = (info.flush fileId).data.snapshotIds.max? ↔
      (info.mergedDeletions.map (·.snapshotId)).foldl max info.maxSnapshot ∈
        info.deletionsToWrite.map (·.snapshotId) := by
    refine eq_comm.trans (List.max?_eq_some_iff.trans ?_)
    exact and_iff_left hupper
  rw [hdef, List.mem_map]
  constructor
  · rintro ⟨entry, hentry, heq⟩ row hrow hid
    have hfirstOf := (hkept entry).1 hentry
    refine ⟨entry, exists_mem_of_snapshotOf hfirstOf, hfirstOf, ?_⟩
    rw [heq]
    exact (h.le_maxSnapshot row hrow hid).trans hfirst
  · intro hlatest
    rcases hmax with hmax | hmax
    · obtain ⟨row, hrow, hid, heq⟩ := h.maxSnapshot_mem
      obtain ⟨entry, -, hfirstOf, hle⟩ := hlatest row hrow hid
      have hentry : entry ∈ info.deletionsToWrite := (hkept entry).2 hfirstOf
      refine ⟨entry, hentry, le_antisymm (hupper _ (List.mem_map_of_mem hentry)) ?_⟩
      rw [hmax, ← heq]
      exact hle
    · obtain ⟨entry, hentry, heq⟩ := List.mem_map.1 hmax
      refine ⟨entry, ?_, heq⟩
      rwa [FileDeleteInfo.deletionsToWrite, if_neg (List.ne_nil_of_mem hentry)]

theorem IsEntry.hidesAt_iff {info : FileDeleteInfo} (h : query.IsEntry fileId info) :
    (∀ snapshot row, (info.flush fileId).hidesAt snapshot row =
      query.hidesAt fileId snapshot row) ↔ EarliestFirst (query.entries fileId) := by
  rw [← deletedBy_merged_iff]
  refine forall_congr' fun snapshot => forall_congr' fun row => ?_
  rw [Bool.eq_iff_iff, InlinedFileDeletions.hidesAt_iff, hidesAt_entries rfl rfl,
    h.deletionsToWrite]

/-- The history of a data file is kept exactly when of each position the earliest deletion comes
first, and no inlined deletion is later than all of these. -/
theorem keepsHistory_of_row {row : InlinedFileDeletion} (hrow : row ∈ query.rows) :
    query.KeepsHistory row.fileId ↔
      EarliestFirst (query.entries row.fileId) ∧ query.LatestKept row.fileId := by
  obtain ⟨info, hinfo⟩ := exists_mem_filesToFlush.2 ⟨row, hrow, rfl⟩
  have hentry := isEntry_of_mem hinfo
  constructor
  · rintro ⟨file, hfile, hid, hhides, hmax⟩
    obtain ⟨⟨fileId, info'⟩, hinfo', rfl⟩ := List.mem_map.1 hfile
    obtain rfl : fileId = row.fileId := hid
    have hentry' := isEntry_of_mem hinfo'
    exact ⟨hentry'.hidesAt_iff.1 hhides, hentry'.maxSnapshot_iff.1 hmax⟩
  · rintro ⟨hearliest, hlatest⟩
    exact ⟨_, List.mem_map_of_mem hinfo, rfl, hentry.hidesAt_iff.2 hearliest,
      hentry.maxSnapshot_iff.2 hlatest⟩

end InlinedFileDeletions

/-! ## The cumulative file of a delete -/

/-- Entries of a later snapshot may come after those of a delete file. -/
theorem earliestFirst_append {entries entries' : List PositionWithSnapshot}
    (hsorted : SortedPositions entries) (hearliest : EarliestFirst entries')
    (hle : ∀ entry ∈ entries, ∀ entry' ∈ entries', entry.snapshotId ≤ entry'.snapshotId) :
    EarliestFirst (entries ++ entries') := by
  intro entry hentry snapshotId hsnapshot
  rw [snapshotOf_append, Option.mem_def] at hsnapshot
  rcases List.mem_append.1 hentry with hentry | hentry
  · rw [hsorted.mem_iff.1 hentry, Option.some_or] at hsnapshot
    exact (Option.some.inj hsnapshot).ge
  · cases hfirst : snapshotOf entries entry.position with
    | none =>
      rw [hfirst, Option.none_or] at hsnapshot
      exact hearliest entry hentry snapshotId hsnapshot
    | some first =>
      rw [hfirst, Option.some_or] at hsnapshot
      obtain rfl := Option.some.inj hsnapshot
      exact hle _ (exists_mem_of_snapshotOf hfirst) entry hentry

/-- The new deletes come after those of the delete file, which are not later. -/
theorem flushDeleteWithSnapshots_keepsHistory {table : LiveFiles} {file : LiveDataFile}
    {existing : ExistingDeleteFile} {filename : Text} {rows : OrdSet Nat}
    {written : WrittenDeleteFile} (hfile : file ∈ table.files)
    (hexisting : file.deleteFile = some existing.toLiveDeleteFile)
    (hwritten : DuckLakeDelete.flushDeleteWithSnapshots table.snapshot filename file existing.data
      rows = .deleteFile written) :
    (∀ snapshot row, written.hidesAt snapshot row = true ↔ existing.hides snapshot row = true ∨
      (row ∈ rows ∧ table.snapshot + 1 ≤ snapshot)) ∧
    written.maxSnapshot = written.data.snapshotIds.max? := by
  have hlive : existing.toLiveDeleteFile ∈ file.deleteFiles := by
    rw [LiveFiles.deleteFiles_eq hfile, hexisting]
    exact List.mem_singleton_self _
  have hdated : existing.data.Dated table.snapshot :=
    (table.wellFormed file hfile _ hlive).toDated
  let old := positionsWithSnapshots existing.data existing.beginSnapshot
  let new : List PositionWithSnapshot := rows.elems.map (⟨·, table.snapshot + 1⟩)
  have hnew : ∀ entry ∈ new, entry.snapshotId = table.snapshot + 1 := fun entry hentry => by
    obtain ⟨_, _, rfl⟩ := List.mem_map.1 hentry
    rfl
  have hsorted : SortedPositions old := by
    have hpositions : (old.map (·.position)).Pairwise (· < ·) := by
      rw [hdated.positionsWithSnapshots_positions]
      exact existing.increasing
    exact List.pairwise_map.1 hpositions
  have hearliest : EarliestFirst (old ++ new) := by
    refine earliestFirst_append hsorted (fun entry hentry snapshotId hsnapshot => ?_)
      fun entry hentry entry' hentry' => ?_
    · have hfirst := hnew _ (exists_mem_of_snapshotOf hsnapshot)
      exact (hfirst.trans (hnew entry hentry).symm).le
    · have hle : entry.snapshotId ≤ table.snapshot := hdated.positionsWithSnapshots_le
        (table.beginSnapshot_le file hfile _ hlive) entry hentry
      rw [hnew entry' hentry']
      exact hle.trans (Nat.le_succ _)
  have happend : mergeDeletesWithSnapshots new (mergeDeletesWithSnapshots old []) =
      mergeDeletesWithSnapshots (old ++ new) [] := List.foldl_append.symm
  have hdeletes : written.data = ⟨(mergeDeletesWithSnapshots (old ++ new) []).map (·.position),
        (mergeDeletesWithSnapshots (old ++ new) []).map (·.snapshotId)⟩ ∧
      written.beginSnapshot = ((mergeDeletesWithSnapshots (old ++ new) []).map (·.snapshotId)).min? ∧
      written.maxSnapshot =
        ((mergeDeletesWithSnapshots (old ++ new) []).map (·.snapshotId)).max? := by
    rw [DuckLakeDelete.flushDeleteWithSnapshots, DuckLakeDelete.tryDropFullyDeletedFile,
      hexisting] at hwritten
    rw [← happend]
    split at hwritten
    next => cases hwritten
    next =>
      cases hwritten
      exact ⟨rfl, rfl, rfl⟩
  obtain ⟨hdata, hbegin, hmax⟩ := hdeletes
  refine ⟨fun snapshot row => ?_, by rw [hmax, hdata]⟩
  rw [hidesAt_entries hdata hbegin, deletedBy_merged_iff.2 hearliest, deletedBy_append,
    existing.hides_iff]
  refine or_congr_right ?_
  simp [DeletedBy, new, OrdSet.mem_def]

/-- A flush keeps the history of a data file exactly when of each position the earliest deletion
comes first, the inlined ones being before those of the delete file, and no inlined deletion is
later than all of these. A delete with snapshots always does, since it merges the delete file
first. -/
theorem keepsHistory_iff (query : InlinedFileDeletions) (fileId : DataFileIndex) :
    ((∃ row ∈ query.rows, row.fileId = fileId) →
      (query.KeepsHistory fileId ↔
        EarliestFirst (query.entries fileId) ∧ query.LatestKept fileId)) ∧
    ∀ (table : LiveFiles) (file : LiveDataFile) (existing : ExistingDeleteFile) (filename : Text)
      (rows : OrdSet Nat) (written : WrittenDeleteFile), file ∈ table.files →
      file.deleteFile = some existing.toLiveDeleteFile →
      DuckLakeDelete.flushDeleteWithSnapshots table.snapshot filename file existing.data rows =
        .deleteFile written →
      (∀ snapshot row, written.hidesAt snapshot row = true ↔ existing.hides snapshot row = true ∨
        (row ∈ rows ∧ table.snapshot + 1 ≤ snapshot)) ∧
      written.maxSnapshot = written.data.snapshotIds.max? := by
  refine ⟨?_, fun _ _ _ _ _ _ hfile hexisting hwritten => ?_⟩
  · rintro ⟨row, hrow, rfl⟩
    exact InlinedFileDeletions.keepsHistory_of_row hrow
  · exact flushDeleteWithSnapshots_keepsHistory hfile hexisting hwritten

/-- The fifth and the seventh row, deleted at the tenth snapshot. -/
def deletedAtTen : ExistingDeleteFile where
  deleteFileId := 2
  path := "delete.parquet"
  beginSnapshot := 10
  data := ⟨[5, 7], []⟩
  paired := .inl rfl
  increasing := by decide
  beginSnapshot_le := nofun

/-- Inlined deletions of the data file with that delete file. -/
def inlinedDeletions (rows : List InlinedFileDeletion) : InlinedFileDeletions where
  rows := rows
  path _ := "data.parquet"
  path_ne_nil _ := by decide
  existingDelete _ := some deletedAtTen

/-- The third row is deleted later; the fifth was deleted earlier or at the tenth snapshot as well. -/
theorem keepsHistory_iff_inlinedDeletions :
    (inlinedDeletions [⟨1, 3, 11⟩, ⟨1, 5, 9⟩]).KeepsHistory 1 ∧
      (inlinedDeletions [⟨1, 3, 11⟩, ⟨1, 5, 10⟩]).KeepsHistory 1 :=
  ⟨((keepsHistory_iff _ 1).1 ⟨⟨1, 5, 9⟩, by decide, rfl⟩).2 (by decide),
    ((keepsHistory_iff _ 1).1 ⟨⟨1, 5, 10⟩, by decide, rfl⟩).2 (by decide)⟩

/-- The fifth row is deleted by both, inline at the eleventh snapshot: it comes back at the tenth. -/
theorem not_keepsHistory : ¬ (inlinedDeletions [⟨1, 5, 11⟩]).KeepsHistory 1 := by
  have hrow : (⟨1, 5, 11⟩ : InlinedFileDeletion) ∈ (inlinedDeletions [⟨1, 5, 11⟩]).rows :=
    List.mem_singleton_self _
  rw [show (1 : DataFileIndex) = (⟨1, 5, 11⟩ : InlinedFileDeletion).fileId from rfl,
    InlinedFileDeletions.keepsHistory_of_row hrow]
  decide

end DuckLake
