import Mathlib.Data.Finset.Sort
import DuckLake.Storage.PuffinRoundTrip
import DuckLake.Storage.SnapshotPositions

/-!
# Delete files with snapshots in two formats

The deletions of a data file, each with its snapshot, are written as the rows of a Parquet file or as
the deletion vectors of a Puffin file, one for each snapshot, that hold all positions deleted by
then. A file with a single deletion vector holds no snapshot: it is the one the file begins with.
-/

namespace DuckLake

/-- A set of positions with snapshots, which are the non-negative values of an `int64_t`. -/
structure SnapshotDeletes where
  entries : List PositionWithSnapshot
  sorted : SortedPositions entries
  position_lt : ∀ entry ∈ entries, entry.position < 2 ^ 63
  snapshotId_lt : ∀ entry ∈ entries, entry.snapshotId < 2 ^ 63

structure DeleteFileScanResult where
  deletedRows : List Nat
  snapshotIds : List SnapshotId
  hasEmbeddedSnapshots : Bool
deriving DecidableEq, Repr

namespace DeleteFileScanResult

/-- The result for positions with their snapshots. -/
def ofEntries (entries : List PositionWithSnapshot) : DeleteFileScanResult :=
  ⟨entries.map (·.position), entries.map (·.snapshotId), true⟩

end DeleteFileScanResult

/-- `optional_idx snapshot_filter_min` and `snapshot_filter_max`. -/
structure SnapshotRange where
  min : Option SnapshotId := none
  max : Option SnapshotId := none
deriving DecidableEq, Repr

def SnapshotRange.admits (range : SnapshotRange) (snapshotId : SnapshotId) : Bool :=
  range.min.all (· ≤ snapshotId) && range.max.all (snapshotId ≤ ·)

/-! ## Parquet -/

/-- A delete file with three columns: its rows, as the engine writes and reads them. -/
abbrev PositionDeleteRows := List (Nat × SnapshotId)

/-- `WriteDeleteFileInternal`: the rows, and the begin snapshot of the file. -/
def writePositionDeletes (deletes : SnapshotDeletes) : PositionDeleteRows × Option SnapshotId :=
  (deletes.entries.map fun entry => (entry.position, entry.snapshotId),
    (deletes.entries.map (·.snapshotId)).min?)

/-- `NumericCast<int64_t>` on a filter. -/
def castFilter (filter : Option SnapshotId) : Except Exception Unit :=
  match filter.filter (2 ^ 63 ≤ ·) with
  | some snapshotId =>
    .error ⟨.internal, "Information loss on integer cast: value " ++ Text.ofNat snapshotId ++
      " outside of target range [-9223372036854775808, 9223372036854775807]"⟩
  | none => .ok ()

/-- The loop over the rows that the filters on the snapshot column let through. -/
def scanPositions (lastDelete : Int) :
    PositionDeleteRows → Except Exception (List PositionWithSnapshot)
  | [] => .ok []
  | (row, snapshotId) :: rows =>
    if (row : Int) ≤ lastDelete then
      .error ⟨.invalidInput, "Invalid delete data - row ids must be sorted and strictly increasing"
        ++ " - but found " ++ Text.ofNat row ++ " after " ++ Text.ofNat lastDelete.toNat⟩
    else do
      let rest ← scanPositions row rows
      pure (⟨row, snapshotId⟩ :: rest)

/-- `ScanDeleteFile` on a Parquet file with a snapshot column. -/
def scanPositionDeletes (rows : PositionDeleteRows) (range : SnapshotRange) :
    Except Exception DeleteFileScanResult := do
  castFilter range.min
  castFilter range.max
  let entries ← scanPositions (-1) (rows.filter fun row => range.admits row.2)
  pure (.ofEntries entries)

/-- The filters are snapshots of the catalog, which an `int64_t` holds. -/
def SnapshotRange.InRange (range : SnapshotRange) : Prop :=
  (∀ snapshotId ∈ range.min, snapshotId < 2 ^ 63) ∧ ∀ snapshotId ∈ range.max, snapshotId < 2 ^ 63

theorem castFilter_eq_ok {filter : Option SnapshotId} (h : ∀ snapshotId ∈ filter, snapshotId < 2 ^ 63) :
    castFilter filter = .ok () := by
  have hnone : filter.filter (2 ^ 63 ≤ ·) = none := by
    rw [Option.filter_eq_none_iff]
    intro snapshotId hmem
    simpa using h snapshotId hmem
  rw [castFilter, hnone]

theorem scanPositions_eq_ok {entries : List PositionWithSnapshot} {lastDelete : Int}
    (h : SortedPositions entries) (hlast : ∀ entry ∈ entries, lastDelete < entry.position) :
    scanPositions lastDelete (entries.map fun entry => (entry.position, entry.snapshotId)) =
      .ok entries := by
  induction entries generalizing lastDelete with
  | nil => rfl
  | cons entry entries ih =>
    obtain ⟨hfirst, hrest⟩ := List.pairwise_cons.1 h
    have hentry : ¬ (entry.position : Int) ≤ lastDelete := Int.not_le.2 (hlast entry List.mem_cons_self)
    rw [List.map_cons, scanPositions, if_neg hentry,
      ih hrest fun other hother => Int.ofNat_lt.2 (hfirst other hother)]
    rfl

/-- A Parquet file keeps the snapshot of each position, and the filters apply to it. -/
theorem scanPositionDeletes_write {deletes : SnapshotDeletes} {range : SnapshotRange}
    (h : range.InRange) : scanPositionDeletes (writePositionDeletes deletes).1 range =
      .ok (.ofEntries (deletes.entries.filter fun entry => range.admits entry.snapshotId)) := by
  have hrows : (writePositionDeletes deletes).1.filter (fun row => range.admits row.2) =
      (deletes.entries.filter fun entry => range.admits entry.snapshotId).map
        fun entry => (entry.position, entry.snapshotId) := List.filter_map
  have hscan := @scanPositions_eq_ok
    (deletes.entries.filter fun entry => range.admits entry.snapshotId) (-1)
    (deletes.sorted.filter _) fun entry _ => by omega
  rw [scanPositionDeletes, castFilter_eq_ok h.1, castFilter_eq_ok h.2, hrows, hscan]
  rfl

/-! ## Puffin -/

namespace DuckLakePuffin

open Reading DuckLakeDeletionVectorData

/-- `deltas[snapshot_id].insert(position)`. -/
def insertDelta (entry : PositionWithSnapshot) :
    List (SnapshotId × Finset UInt64) → List (SnapshotId × Finset UInt64)
  | [] => [(entry.snapshotId, {UInt64.ofNat entry.position})]
  | (snapshotId, positions) :: deltas =>
    if entry.snapshotId < snapshotId then
      (entry.snapshotId, {UInt64.ofNat entry.position}) :: (snapshotId, positions) :: deltas
    else if snapshotId < entry.snapshotId then
      (snapshotId, positions) :: insertDelta entry deltas
    else (snapshotId, insert (UInt64.ofNat entry.position) positions) :: deltas

/-- The positions grouped by snapshot. -/
def groupDeltas (entries : List PositionWithSnapshot) : List (SnapshotId × Finset UInt64) :=
  entries.foldl (fun deltas entry => insertDelta entry deltas) []

/-- The snapshot of a blob; an `int64_t` always fits. -/
def snapshotIndex (snapshotId : SnapshotId) : Option SnapshotIndex :=
  if h : snapshotId < 2 ^ 64 - 1 then some ⟨snapshotId, h⟩ else none

/-- One deletion vector for each snapshot, with all positions up to it. -/
def cumulativeBlobs (running : Finset UInt64) : List (SnapshotId × Finset UInt64) → List BlobInput
  | [] => []
  | (snapshotId, positions) :: deltas =>
    ⟨snapshotIndex snapshotId, running ∪ positions⟩ :: cumulativeBlobs (running ∪ positions) deltas

section Write

variable [RoaringLibrary] [JsonLibrary]

/-- `WriteDeletionVectorFileWithSnapshots`: the file, and its begin snapshot. -/
def writeWithSnapshots (dataFilePath : Text) (deletes : SnapshotDeletes) :
    Except Exception (List UInt8 × Option SnapshotId) := do
  let deltas := groupDeltas deletes.entries
  let result ← write dataFilePath (cumulativeBlobs ∅ deltas)
  pure (result.fileData, deltas.head?.map (·.1))

end Write

/-- `blob.snapshot_id.GetIndex()`. -/
def PuffinBlob.snapshot (blob : PuffinBlob) : SnapshotId := (blob.snapshotId.map (·.val)).getD 0

/-- The rows of a deletion vector in ascending order. -/
def sortedRows (positions : Finset UInt64) : List Nat := (positions.image UInt64.toNat).sort

section Scan

variable [RoaringLibrary]

/-- Blobs without snapshots: the union of their rows. -/
def scanPlainBlobs (file : List UInt8) (blobs : List PuffinBlob) :
    BlobReading DeleteFileScanResult := do
  let sets ← decodeBlobs file blobs
  pure ⟨sortedRows (sets.foldl (· ∪ ·) ∅), [], false⟩

/-- The loop over the blobs in the order of their snapshots: a position keeps the first one. -/
def collectSnapshots (file : List UInt8) (max : Option SnapshotId) :
    List PuffinBlob → List PositionWithSnapshot → BlobReading (List PositionWithSnapshot)
  | [], positionToSnapshot => pure positionToSnapshot
  | blob :: blobs, positionToSnapshot =>
    if max.any (· < blob.snapshot) then pure positionToSnapshot
    else do
      let bitmaps ← decodeBlob file blob
      collectSnapshots file max blobs (mergeDeletesWithSnapshots
        ((sortedRows (toSet bitmaps)).map (⟨·, blob.snapshot⟩)) positionToSnapshot)

def scanSnapshotBlobs (file : List UInt8) (blobs : List PuffinBlob) (range : SnapshotRange) :
    BlobReading DeleteFileScanResult := do
  let sortedBlobs := blobs.mergeSort fun a b => decide (a.snapshot ≤ b.snapshot)
  let positionToSnapshot ← collectSnapshots file range.max sortedBlobs []
  pure (.ofEntries (positionToSnapshot.filter fun entry => range.min.all (· ≤ entry.snapshotId)))

variable [JsonLibrary]

/-- `ScanDeletionVectorFile`. -/
def scanDeletionVectorFile (file : List UInt8) (path : Text) (range : SnapshotRange) :
    BlobReading DeleteFileScanResult := do
  let blobs ← parseFooter file path
  reject blobs.isEmpty (invalidInput
    ("Deletion vector file \"" ++ path ++ "\" does not contain any deletion vectors"))
  let snapshotBlobCount := blobs.countP (·.snapshotId.isSome)
  if snapshotBlobCount = 0 then scanPlainBlobs file blobs
  else do
    reject (snapshotBlobCount ≠ blobs.length) (invalidInput ("Deletion vector file \"" ++ path ++
      "\" is corrupt - it mixes deletion vectors with and without a snapshot"))
    scanSnapshotBlobs file blobs range

end Scan

end DuckLakePuffin

end DuckLake
