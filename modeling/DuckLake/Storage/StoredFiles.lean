import DuckLake.Storage.Delete
import DuckLake.Storage.Metadata

/-!
# The rows of stored files

A data file of a table as a scan reads it. A row of a file has the row id and the snapshot id that
are stored with it; a file without these columns leaves them to the reader, who takes the place of
the row in the file and the snapshot of the file. Delete files and inlined deletions name the rows
of a file by their places.
-/

namespace DuckLake

/-- A row in a data file: the values of the fields that the file has, and what the columns for row
ids and snapshot ids hold when the file has them. -/
structure StoredRow where
  values : List (FieldIndex × Value)
  rowId : Option Nat := none
  snapshotId : Option SnapshotId := none
deriving DecidableEq

/-- A row as a scan reads it. -/
structure ReadRow where
  rowId : Option Nat
  snapshotId : SnapshotId
  values : List (FieldIndex × Value)
deriving DecidableEq

/-- The values of a row under a schema: a field that is not stored has its initial default. -/
def readValues (initialDefault : FieldIndex → Value) (fields : List FieldIndex)
    (values : List (FieldIndex × Value)) : List Value :=
  fields.map fun field => (values.lookup field).getD (initialDefault field)

/-- A row of `ducklake_data_file` with the rows of the file. -/
structure StoredDataFile where
  id : DataFileIndex
  path : Text
  life : Validity SnapshotId
  rowIdStart : Option Nat := none
  partialMax : Option SnapshotId := none
  fileSizeBytes : Nat
  partitionId : Option Idx := none
  partitionValues : List Value := []
  rows : List StoredRow
deriving DecidableEq

namespace StoredDataFile

def rowCount (file : StoredDataFile) : Nat := file.rows.length

/-- `GetVirtualColumnExpression`: row ids and snapshot ids are read from the file, or made up from
the place of the row and the snapshot of the file. -/
def readRow (file : StoredDataFile) (place : Nat) (row : StoredRow) : ReadRow where
  rowId := row.rowId.or (file.rowIdStart.map (· + place))
  snapshotId := row.snapshotId.getD file.life.beginAt
  values := row.values

/-- The rows of the file at the places that are kept. -/
def readRows (file : StoredDataFile) (keep : Nat → Bool) : List ReadRow :=
  (file.rows.zipIdx.filter fun entry => keep entry.2).map fun entry => file.readRow entry.2 entry.1

def allRows (file : StoredDataFile) : List ReadRow := file.readRows fun _ => true

/-- The snapshots of the rows are those of the file, and the rows of a file without a partial
maximum are all from its first snapshot. -/
structure Dated (file : StoredDataFile) : Prop where
  beginAt_le : file.life.beginAt ≤ file.partialMax.getD file.life.beginAt
  le_snapshotId : ∀ row ∈ file.rows, ∀ id ∈ row.snapshotId, file.life.beginAt ≤ id
  snapshotId_le : ∀ row ∈ file.rows, ∀ id ∈ row.snapshotId,
    id ≤ file.partialMax.getD file.life.beginAt

theorem dated_of_unversioned {file : StoredDataFile} (hmax : file.partialMax = none)
    (hrows : ∀ row ∈ file.rows, row.snapshotId = none) : file.Dated where
  beginAt_le := by rw [hmax, Option.getD_none]
  le_snapshotId row hrow id hid := by simp [hrows row hrow] at hid
  snapshotId_le row hrow id hid := by simp [hrows row hrow] at hid

/-- A row id that is stored is the one that its place gives anyway. -/
def RowIdsByPlace (file : StoredDataFile) : Prop :=
  ∀ entry ∈ file.rows.zipIdx, ∀ id ∈ entry.1.rowId, some id = file.rowIdStart.map (· + entry.2)

instance {file : StoredDataFile} : Decidable file.RowIdsByPlace :=
  inferInstanceAs (Decidable (∀ entry ∈ file.rows.zipIdx, ∀ id ∈ entry.1.rowId, _))

theorem allRows_eq (file : StoredDataFile) :
    file.allRows = file.rows.zipIdx.map fun entry => file.readRow entry.2 entry.1 := by
  simp [allRows, readRows]

/-- Without a first row id the places of the rows do not matter. -/
theorem allRows_of_rowIdStart_eq_none {file : StoredDataFile} (h : file.rowIdStart = none) :
    file.allRows = file.rows.map (file.readRow 0) := by
  have hread : ∀ entry : StoredRow × Nat, file.readRow entry.2 entry.1 = file.readRow 0 entry.1 :=
    fun entry => by simp [readRow, h]
  calc file.allRows = file.rows.zipIdx.map (file.readRow 0 ∘ Prod.fst) := by
        simp only [allRows_eq, hread]
        rfl
    _ = file.rows.map (file.readRow 0) := by rw [← List.map_map, List.zipIdx_map_fst]

theorem Dated.mem_range {file : StoredDataFile} (h : file.Dated) (keep : Nat → Bool) :
    ∀ row ∈ file.readRows keep, file.life.beginAt ≤ row.snapshotId ∧
      row.snapshotId ≤ file.partialMax.getD file.life.beginAt := by
  intro row hrow
  obtain ⟨entry, hentry, rfl⟩ := List.mem_map.1 hrow
  have hmem := List.fst_mem_of_mem_zipIdx (List.mem_of_mem_filter hentry)
  cases hid : entry.1.snapshotId with
  | none => simpa [readRow, hid] using h.beginAt_le
  | some id =>
    simp only [readRow, hid, Option.getD_some]
    exact ⟨h.le_snapshotId _ hmem id hid, h.snapshotId_le _ hmem id hid⟩

end StoredDataFile

/-- From a place on the rows have the row ids that count on from the first one. -/
def RowIdsFrom (rowIdStart : Option Nat) (place : Nat) (rows : List ReadRow) : Prop :=
  ∀ entry ∈ rows.zipIdx place, entry.1.rowId = rowIdStart.map (· + entry.2)

instance {rowIdStart : Option Nat} {place : Nat} {rows : List ReadRow} :
    Decidable (RowIdsFrom rowIdStart place rows) :=
  inferInstanceAs (Decidable (∀ entry ∈ rows.zipIdx place, _))

theorem rowIdsFrom_append {rowIdStart : Option Nat} {place : Nat} {rows rows' : List ReadRow} :
    RowIdsFrom rowIdStart place (rows ++ rows') ↔
      RowIdsFrom rowIdStart place rows ∧ RowIdsFrom rowIdStart (place + rows.length) rows' := by
  simp only [RowIdsFrom, List.zipIdx_append, List.forall_mem_append]

namespace StoredDataFile

theorem length_allRows (file : StoredDataFile) : file.allRows.length = file.rowCount := by
  simp [allRows_eq, rowCount]

/-- The rows of a file have the row ids of their places when no other id is stored. -/
theorem rowIdsFrom_allRows {file : StoredDataFile} {start place : Nat}
    (h : file.rowIdStart = some (start + place)) :
    RowIdsFrom (some start) place file.allRows ↔ file.RowIdsByPlace := by
  have hrows : ∀ (rows : List StoredRow) (k : Nat),
      RowIdsFrom (some start) (place + k)
          ((rows.zipIdx k).map fun entry => file.readRow entry.2 entry.1) ↔
        ∀ entry ∈ rows.zipIdx k, ∀ id ∈ entry.1.rowId,
          some id = file.rowIdStart.map (· + entry.2) := by
    intro rows
    induction rows with
    | nil => simp [RowIdsFrom]
    | cons row rows ih =>
      intro k
      have ih := ih (k + 1)
      unfold RowIdsFrom at ih ⊢
      rw [List.zipIdx_cons, List.map_cons, List.zipIdx_cons, List.forall_mem_cons,
        List.forall_mem_cons, ← Nat.add_assoc] at *
      refine and_congr ?_ ih
      cases hid : row.rowId with
      | none => simp [readRow, hid, h, Nat.add_assoc]
      | some id => simp [readRow, hid, h, Nat.add_assoc]
  rw [allRows_eq]
  exact hrows file.rows 0

end StoredDataFile

/-- A row of `ducklake_delete_file` with the content of the file. -/
structure StoredDeleteFile where
  deleteFileId : DataFileIndex
  dataFileId : DataFileIndex
  path : Text
  life : Validity SnapshotId
  data : DuckLakeDeleteData
deriving DecidableEq

/-- The files of a table and what is deleted from them, as they are after a snapshot. -/
structure StoredTable where
  snapshot : SnapshotId
  nextFileId : DataFileIndex
  /-- The rows of `ducklake_schema_versions` for the table, in the order of their snapshots. -/
  schemaVersions : List (SnapshotId × Nat)
  dataFiles : List StoredDataFile
  deleteFiles : List StoredDeleteFile := []
  inlinedDeletions : List InlinedDeletionRow := []
deriving DecidableEq

namespace StoredTable

/-- Whether a reader at the snapshot leaves the row out. -/
def deletedAt (table : StoredTable) (snapshot : SnapshotId) (fileId : DataFileIndex) (place : Nat) :
    Bool :=
  (table.deleteFiles.any fun deletes =>
    deletes.dataFileId = fileId && deletes.life.visibleAt snapshot &&
      deletes.data.filters snapshot place) ||
    table.inlinedDeletions.any fun deletion =>
      deletion.fileId = fileId && deletion.rowId = place && deletion.beginSnapshot ≤ snapshot

/-- What a scan of the table reads from a file. Only a file with rows of later snapshots is
filtered by the snapshot ids of its rows. -/
def rowsAt (table : StoredTable) (snapshot : SnapshotId) (file : StoredDataFile) : List ReadRow :=
  if file.life.visibleAt snapshot then
    (file.readRows fun place => !table.deletedAt snapshot file.id place).filter fun row =>
      file.partialMax.all (· ≤ snapshot) || row.snapshotId ≤ snapshot
  else []

/-- The row ids and values that are visible at a snapshot. -/
def visibleRows (table : StoredTable) (initialDefault : FieldIndex → Value) (snapshot : SnapshotId)
    (fields : List FieldIndex) : List (Option Nat × List Value) :=
  (table.dataFiles.flatMap (table.rowsAt snapshot)).map fun row =>
    (row.rowId, readValues initialDefault fields row.values)

/-- A live file without deletes shows its rows from their snapshots on. -/
theorem rowsAt_of_kept {table : StoredTable} {file : StoredDataFile} {snapshot : SnapshotId}
    (hdated : file.Dated) (hend : file.life.endAt = none)
    (hkept : ∀ place, table.deletedAt snapshot file.id place = false) :
    table.rowsAt snapshot file = file.allRows.filter (·.snapshotId ≤ snapshot) := by
  have hrange := hdated.mem_range fun _ => true
  simp only [rowsAt, hkept, Bool.not_false, Validity.visibleAt, hend, Option.all_none,
    Bool.and_true, decide_eq_true_eq]
  split
  next hbegin =>
    refine List.filter_congr fun row hrow => ?_
    obtain ⟨_, hle⟩ := hrange row hrow
    cases hmax : file.partialMax with
    | none =>
      rw [hmax, Option.getD_none] at hle
      simp [hle.trans hbegin]
    | some max =>
      rw [hmax, Option.getD_some] at hle
      by_cases hs : max ≤ snapshot
      · simp [hle.trans hs]
      · simp [hs]
  next hbegin =>
    refine (List.filter_eq_nil_iff.2 fun row hrow => ?_).symm
    simpa using (Nat.lt_of_not_le hbegin).trans_le (hrange row hrow).1

/-- `snapshot_ranges`: the schema version at a snapshot. -/
def schemaVersionAt (table : StoredTable) (snapshot : SnapshotId) : Option Nat :=
  (table.schemaVersions.findRev? (·.1 ≤ snapshot)).map (·.2)

/-- What the metadata of a table keeps: the ids of the files are unique and given out in turn,
nothing is later than the last snapshot, and at most one delete file is live for a data file. -/
structure WellFormed (table : StoredTable) : Prop where
  id_nodup : (table.dataFiles.map (·.id)).Nodup
  id_lt : ∀ file ∈ table.dataFiles, file.id < table.nextFileId
  dated : ∀ file ∈ table.dataFiles, file.Dated
  partialMax_le : ∀ file ∈ table.dataFiles,
    file.partialMax.getD file.life.beginAt ≤ table.snapshot
  endAt_le : ∀ file ∈ table.dataFiles, ∀ e ∈ file.life.endAt, e ≤ table.snapshot
  deleteFileId_nodup : (table.deleteFiles.map (·.deleteFileId)).Nodup
  deletes_id_lt : ∀ deletes ∈ table.deleteFiles, deletes.dataFileId < table.nextFileId
  deletes_beginAt_le : ∀ deletes ∈ table.deleteFiles, deletes.life.beginAt ≤ table.snapshot
  deletes_endAt_le : ∀ deletes ∈ table.deleteFiles, ∀ e ∈ deletes.life.endAt, e ≤ table.snapshot
  deletes_dated : ∀ deletes ∈ table.deleteFiles, deletes.data.Dated table.snapshot
  deletes_unique : ∀ deletes ∈ table.deleteFiles, ∀ deletes' ∈ table.deleteFiles,
    deletes.dataFileId = deletes'.dataFileId → deletes.life.endAt = none →
    deletes'.life.endAt = none → deletes = deletes'
  inlined_id_lt : ∀ deletion ∈ table.inlinedDeletions, deletion.fileId < table.nextFileId
  inlined_beginSnapshot_le : ∀ deletion ∈ table.inlinedDeletions,
    deletion.beginSnapshot ≤ table.snapshot

end StoredTable

end DuckLake
