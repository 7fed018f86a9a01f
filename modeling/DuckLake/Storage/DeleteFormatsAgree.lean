import DuckLake.Lib.OrdSet
import DuckLake.Storage.DeleteFileFormats
import DuckLake.Storage.PlainJson
import DuckLake.Storage.PlainRoaring

/-!
# Both formats of delete files mean the same

The deletion vectors of a Puffin file grow with the snapshots. Read in the order of the snapshots,
the first one that has a position is the one of the snapshot that deleted it.
-/

namespace DuckLake

namespace DuckLakePuffin

open Reading DuckLakeDeletionVectorData

abbrev Deltas := List (SnapshotId × Finset UInt64)

/-! ## The positions of each snapshot -/

/-- The snapshots of the deltas are in order. -/
def SortedDeltas (deltas : Deltas) : Prop := (deltas.map (·.1)).Pairwise (· < ·)

/-- A snapshot deletes a position. -/
def Deletes (deltas : Deltas) (snapshotId : SnapshotId) (position : UInt64) : Prop :=
  ∃ delta ∈ deltas, delta.1 = snapshotId ∧ position ∈ delta.2

section Deltas

variable {deltas : Deltas} {entry : PositionWithSnapshot} {entries : List PositionWithSnapshot}
  {snapshotId : SnapshotId} {position : UInt64}

theorem deletes_nil : ¬ Deletes [] snapshotId position := nofun

theorem deletes_cons {delta : SnapshotId × Finset UInt64} :
    Deletes (delta :: deltas) snapshotId position ↔
      (delta.1 = snapshotId ∧ position ∈ delta.2) ∨ Deletes deltas snapshotId position := by
  simp [Deletes]

theorem keys_insertDelta : (insertDelta entry deltas).map (·.1) =
    OrdSet.insertList entry.snapshotId (deltas.map (·.1)) := by
  induction deltas with
  | nil => rfl
  | cons delta deltas ih =>
    simp only [insertDelta, List.map_cons, OrdSet.insertList]
    split
    · rfl
    · split
      · rw [List.map_cons, ih]
      · rfl

theorem deletes_insertDelta : Deletes (insertDelta entry deltas) snapshotId position ↔
    (entry.snapshotId = snapshotId ∧ position = UInt64.ofNat entry.position) ∨
      Deletes deltas snapshotId position := by
  induction deltas with
  | nil => simp [insertDelta, deletes_cons, deletes_nil]
  | cons delta deltas ih =>
    obtain ⟨first, positions⟩ := delta
    simp only [insertDelta]
    split
    next => simp [deletes_cons]
    next hge =>
      split
      next =>
        rw [deletes_cons, ih, deletes_cons]
        exact or_left_comm
      next hle =>
        have heq : entry.snapshotId = first := le_antisymm (not_lt.1 hle) (not_lt.1 hge)
        rw [deletes_cons, deletes_cons, Finset.mem_insert, heq, and_or_left, or_assoc]

theorem sorted_insertDelta (h : SortedDeltas deltas) : SortedDeltas (insertDelta entry deltas) := by
  rw [SortedDeltas, keys_insertDelta]
  exact OrdSet.sorted_insertList h

theorem sorted_foldl_insertDelta (h : SortedDeltas deltas) :
    SortedDeltas (entries.foldl (fun deltas entry => insertDelta entry deltas) deltas) := by
  induction entries generalizing deltas with
  | nil => exact h
  | cons entry entries ih => exact ih (sorted_insertDelta h)

theorem sorted_groupDeltas : SortedDeltas (groupDeltas entries) :=
  sorted_foldl_insertDelta List.Pairwise.nil

theorem mem_keys_foldl_insertDelta :
    snapshotId ∈ (entries.foldl (fun deltas entry => insertDelta entry deltas) deltas).map (·.1) ↔
      snapshotId ∈ entries.map (·.snapshotId) ∨ snapshotId ∈ deltas.map (·.1) := by
  induction entries generalizing deltas with
  | nil => simp
  | cons entry entries ih =>
    rw [List.foldl_cons, ih, keys_insertDelta, OrdSet.mem_insertList, List.map_cons, List.mem_cons]
    tauto

/-- The groups are those of the snapshots that occur. -/
theorem mem_keys_groupDeltas :
    snapshotId ∈ (groupDeltas entries).map (·.1) ↔ snapshotId ∈ entries.map (·.snapshotId) := by
  rw [groupDeltas, mem_keys_foldl_insertDelta]
  simp

theorem deletes_foldl_insertDelta :
    Deletes (entries.foldl (fun deltas entry => insertDelta entry deltas) deltas) snapshotId
        position ↔
      (∃ entry ∈ entries, entry.snapshotId = snapshotId ∧
        position = UInt64.ofNat entry.position) ∨ Deletes deltas snapshotId position := by
  induction entries generalizing deltas with
  | nil => simp
  | cons entry entries ih =>
    rw [List.foldl_cons, ih, deletes_insertDelta, List.exists_mem_cons_iff, or_assoc]
    exact or_left_comm

theorem deletes_groupDeltas : Deletes (groupDeltas entries) snapshotId position ↔
    ∃ entry ∈ entries, entry.snapshotId = snapshotId ∧ position = UInt64.ofNat entry.position := by
  rw [groupDeltas, deletes_foldl_insertDelta]
  simp [deletes_nil]

end Deltas

/-! ## The rows of a deletion vector -/

section Rows

variable {positions positions' : Finset UInt64} {row : Nat} {snapshotId : SnapshotId}

theorem mem_sortedRows : row ∈ sortedRows positions ↔ ∃ position ∈ positions, position.toNat = row := by
  simp [sortedRows]

theorem mem_sortedRows_union : row ∈ sortedRows (positions ∪ positions') ↔
    row ∈ sortedRows positions ∨ row ∈ sortedRows positions' := by
  simp only [mem_sortedRows, Finset.mem_union, or_and_right, exists_or]

theorem snapshotOf_sortedRows :
    snapshotOf ((sortedRows positions).map (⟨·, snapshotId⟩)) row =
      if row ∈ sortedRows positions then some snapshotId else none := by
  induction sortedRows positions with
  | nil => rfl
  | cons first rows ih =>
    rw [List.map_cons, snapshotOf_cons, ih]
    by_cases h : first = row
    · simp [h]
    · simp [h, Ne.symm h]

/-- The snapshot of the first delta that has a row. -/
def deltaOf (deltas : Deltas) (row : Nat) : Option SnapshotId :=
  (deltas.find? fun delta => row ∈ sortedRows delta.2).map (·.1)

theorem deltaOf_cons {delta : SnapshotId × Finset UInt64} {deltas : Deltas} :
    deltaOf (delta :: deltas) row =
      if row ∈ sortedRows delta.2 then some delta.1 else deltaOf deltas row := by
  unfold deltaOf
  rw [List.find?_cons]
  by_cases h : row ∈ sortedRows delta.2 <;> simp [h]

theorem exists_mem_of_deltaOf {deltas : Deltas} (h : deltaOf deltas row = some snapshotId) :
    ∃ delta ∈ deltas, delta.1 = snapshotId ∧ row ∈ sortedRows delta.2 := by
  obtain ⟨delta, hfind, rfl⟩ := Option.map_eq_some_iff.1 h
  exact ⟨delta, List.mem_of_find?_eq_some hfind, rfl, by simpa using List.find?_some hfind⟩

end Rows

theorem deltaOf_groupDeltas (deletes : SnapshotDeletes) (row : Nat) :
    deltaOf (groupDeltas deletes.entries) row = snapshotOf deletes.entries row := by
  have hcast : ∀ entry ∈ deletes.entries, (UInt64.ofNat entry.position).toNat = entry.position :=
    fun entry hentry => UInt64.toNat_ofNat_of_lt'
      ((deletes.position_lt entry hentry).trans (by decide))
  cases hdelta : deltaOf (groupDeltas deletes.entries) row with
  | some snapshotId =>
    obtain ⟨delta, hmem, rfl, hrow⟩ := exists_mem_of_deltaOf hdelta
    obtain ⟨position, hposition, rfl⟩ := mem_sortedRows.1 hrow
    obtain ⟨entry, hentry, heq, rfl⟩ := deletes_groupDeltas.1 ⟨delta, hmem, rfl, hposition⟩
    rw [hcast entry hentry, ← heq]
    exact (deletes.sorted.mem_iff.1 hentry).symm
  | none =>
    refine (snapshotOf_eq_none.2 fun entry hentry hrow => ?_).symm
    obtain ⟨delta, hmem, -, hposition⟩ :=
      deletes_groupDeltas.2 ⟨entry, hentry, rfl, rfl⟩
    rw [deltaOf, Option.map_eq_none_iff, List.find?_eq_none] at hdelta
    refine hdelta delta hmem (decide_eq_true (mem_sortedRows.2 ⟨_, hposition, ?_⟩))
    rw [hcast entry hentry, hrow]

theorem lt_of_mem_groupDeltas {deletes : SnapshotDeletes} :
    ∀ delta ∈ groupDeltas deletes.entries, delta.1 < 2 ^ 63 := by
  intro delta hdelta
  obtain ⟨entry, hentry, heq⟩ := List.mem_map.1 (mem_keys_groupDeltas.1 (List.mem_map_of_mem hdelta))
  exact heq ▸ deletes.snapshotId_lt entry hentry

/-! ## Reading the vectors of a container -/

section Scan

variable [RoaringLibrary] {file : List UInt8} {max : Option SnapshotId}

theorem decodeBlob_write {input : BlobInput} {info : PuffinBlob} (h : WrittenAt file input info)
    (hfits : (vector input.positions).length < 2 ^ 32) :
    ∃ bitmaps, decodeBlob file info = .ok bitmaps ∧ toSet bitmaps = input.positions := by
  obtain ⟨after, hafter⟩ := h.data
  rw [decodeBlob, hafter, h.length]
  exact roundTrip_iff.2 hfits

omit [RoaringLibrary] in
theorem snapshotIndex_eq_some {snapshotId : SnapshotId} (h : snapshotId < 2 ^ 63) :
    snapshotIndex snapshotId = some ⟨snapshotId, h.trans (by decide)⟩ :=
  dif_pos (h.trans (by decide))

theorem snapshot_of_writtenAt {input : BlobInput} {info : PuffinBlob}
    (h : WrittenAt file input info) {snapshotId : SnapshotId} (hlt : snapshotId < 2 ^ 63)
    (hinput : input.snapshotId = snapshotIndex snapshotId) : info.snapshot = snapshotId := by
  rw [PuffinBlob.snapshot, h.snapshotId, hinput, snapshotIndex_eq_some hlt]
  rfl

/-- The vectors are read up to the greatest snapshot that is asked for. What was read before holds
`running`, the positions of the vector before, so a new position is one of the next delta. -/
theorem collectSnapshots_write {deltas : Deltas} {running : Finset UInt64}
    {infos : List PuffinBlob} {acc : List PositionWithSnapshot}
    (hwritten : List.Forall₂ (WrittenAt file) (cumulativeBlobs running deltas) infos)
    (hfits : ∀ blob ∈ cumulativeBlobs running deltas, (vector blob.positions).length < 2 ^ 32)
    (hkeys : SortedDeltas deltas) (hlt : ∀ delta ∈ deltas, delta.1 < 2 ^ 63)
    (hacc : SortedPositions acc) (hrunning : ∀ row ∈ sortedRows running, snapshotOf acc row ≠ none) :
    ∃ result, collectSnapshots file max infos acc = .ok result ∧ SortedPositions result ∧
      ∀ row, snapshotOf result row =
        (snapshotOf acc row).or ((deltaOf deltas row).filter fun id => max.all (id ≤ ·)) := by
  induction deltas generalizing running infos acc with
  | nil =>
    cases hwritten
    exact ⟨acc, rfl, hacc, fun row => by simp [deltaOf]⟩
  | cons delta deltas ih =>
    obtain ⟨snapshotId, positions⟩ := delta
    obtain ⟨hfirst, hsorted⟩ := List.pairwise_cons.1 hkeys
    rw [cumulativeBlobs] at hwritten hfits
    obtain _ | @⟨_, info, _, infos, hinfo, hinfos⟩ := hwritten
    have hsnapshot : info.snapshot = snapshotId :=
      snapshot_of_writtenAt hinfo (hlt _ List.mem_cons_self) rfl
    by_cases hstop : max.any (· < snapshotId) = true
    · -- no later snapshot is asked for either
      have hlate : ∀ row, (deltaOf ((snapshotId, positions) :: deltas) row).filter
          (fun id => max.all (id ≤ ·)) = none := by
        intro row
        rw [Option.filter_eq_none_iff]
        intro id hid hle
        obtain ⟨delta, hdelta, rfl, -⟩ := exists_mem_of_deltaOf hid
        have hge : snapshotId ≤ delta.1 := by
          rcases List.mem_cons.1 hdelta with rfl | hdelta
          · exact le_rfl
          · exact (hfirst _ (List.mem_map_of_mem hdelta)).le
        obtain ⟨n, rfl, hn⟩ := Option.any_eq_true _ _ |>.1 hstop
        rw [decide_eq_true_eq] at hn
        exact absurd (hn.trans_le hge) (not_lt.2 (of_decide_eq_true hle))
      refine ⟨acc, ?_, hacc, fun row => by rw [hlate, Option.or_none]⟩
      rw [collectSnapshots, hsnapshot, if_pos hstop]
      rfl
    · obtain ⟨bitmaps, hdecode, hset⟩ := decodeBlob_write hinfo (hfits _ List.mem_cons_self)
      have hmerged : ∀ row, snapshotOf (mergeDeletesWithSnapshots
          ((sortedRows (running ∪ positions)).map (⟨·, snapshotId⟩)) acc) row =
          (snapshotOf acc row).or (if row ∈ sortedRows (running ∪ positions) then some snapshotId
            else none) := fun row => by
        rw [hacc.snapshotOf_mergeDeletesWithSnapshots, snapshotOf_sortedRows]
      have hacc' : SortedPositions (mergeDeletesWithSnapshots
          ((sortedRows (running ∪ positions)).map (⟨·, snapshotId⟩)) acc) :=
        hacc.mergeDeletesWithSnapshots
      obtain ⟨result, hcollect, hresult, hrows⟩ := ih hinfos
        (fun blob hblob => hfits blob (List.mem_cons_of_mem _ hblob)) hsorted
        (fun delta hdelta => hlt delta (List.mem_cons_of_mem _ hdelta)) hacc'
        fun row hrow => by
          rw [hmerged, if_pos hrow]
          cases snapshotOf acc row <;> simp
      refine ⟨result, ?_, hresult, fun row => ?_⟩
      · rw [collectSnapshots, hsnapshot, if_neg hstop, hdecode]
        simp only [bind, Except.bind, hset]
        exact hcollect
      · rw [hrows, hmerged, deltaOf_cons]
        by_cases hpositions : row ∈ sortedRows positions
        · have hmax : max.all (snapshotId ≤ ·) = true := by
            cases max with
            | none => rfl
            | some n => simpa using hstop
          rw [if_pos hpositions, if_pos (mem_sortedRows_union.2 (Or.inr hpositions)),
            Option.filter_some, if_pos hmax]
          cases snapshotOf acc row <;> simp
        · rw [if_neg hpositions]
          by_cases hrow : row ∈ sortedRows running
          · obtain ⟨id, hid⟩ := Option.ne_none_iff_exists'.1 (hrunning row hrow)
            simp [hid]
          · have hnew : row ∉ sortedRows (running ∪ positions) := fun h =>
              (mem_sortedRows_union.1 h).elim hrow hpositions
            rw [if_neg hnew, Option.or_none]

/-- The vectors that are read give the deletions up to the greatest snapshot. -/
theorem collectSnapshots_groupDeltas {deletes : SnapshotDeletes} {infos : List PuffinBlob}
    (hwritten : List.Forall₂ (WrittenAt file) (cumulativeBlobs ∅ (groupDeltas deletes.entries))
      infos)
    (hfits : ∀ blob ∈ cumulativeBlobs ∅ (groupDeltas deletes.entries),
      (vector blob.positions).length < 2 ^ 32) :
    collectSnapshots file max infos [] =
      .ok (deletes.entries.filter fun entry => max.all (entry.snapshotId ≤ ·)) := by
  have hnil : SortedPositions [] := List.Pairwise.nil
  obtain ⟨result, hcollect, hresult, hrows⟩ := @collectSnapshots_write _ file max _ _ _ _ hwritten
    hfits sorted_groupDeltas lt_of_mem_groupDeltas hnil fun row hrow => by
      simp [mem_sortedRows] at hrow
  rw [hcollect]
  refine congrArg Except.ok (hresult.ext (deletes.sorted.filter _) fun row => ?_)
  rw [hrows, deltaOf_groupDeltas, deletes.sorted.snapshotOf_filter fun id => max.all (id ≤ ·)]
  rfl

theorem map_snapshot_of_written {running : Finset UInt64} {deltas : Deltas}
    {infos : List PuffinBlob}
    (hwritten : List.Forall₂ (WrittenAt file) (cumulativeBlobs running deltas) infos)
    (hlt : ∀ delta ∈ deltas, delta.1 < 2 ^ 63) :
    infos.map (·.snapshot) = deltas.map (·.1) ∧ ∀ info ∈ infos, info.snapshotId.isSome = true := by
  induction deltas generalizing running infos with
  | nil =>
    cases hwritten
    exact ⟨rfl, nofun⟩
  | cons delta deltas ih =>
    obtain ⟨snapshotId, positions⟩ := delta
    rw [cumulativeBlobs] at hwritten
    obtain _ | @⟨_, info, _, infos, hinfo, hinfos⟩ := hwritten
    obtain ⟨hmap, hsome⟩ := ih hinfos fun delta hdelta => hlt delta (List.mem_cons_of_mem _ hdelta)
    have hid : snapshotId < 2 ^ 63 := hlt _ List.mem_cons_self
    have hfirst : info.snapshotId.isSome = true := by
      rw [hinfo.snapshotId, snapshotIndex_eq_some hid]
      rfl
    refine ⟨?_, List.forall_mem_cons.2 ⟨hfirst, hsome⟩⟩
    rw [List.map_cons, List.map_cons, hmap, snapshot_of_writtenAt hinfo hid rfl]

variable [JsonLibrary] {deletes : SnapshotDeletes} {dataFilePath path : Text}

omit [RoaringLibrary] [JsonLibrary] in
/-- The file begins with its first snapshot. -/
theorem head?_groupDeltas {entries : List PositionWithSnapshot} :
    (groupDeltas entries).head?.map (·.1) = (entries.map (·.snapshotId)).min? := by
  have hmem : ∀ id, id ∈ (groupDeltas entries).map (·.1) ↔ id ∈ entries.map (·.snapshotId) :=
    fun _ => mem_keys_groupDeltas
  have hsorted : ((groupDeltas entries).map (·.1)).Pairwise (· < ·) := sorted_groupDeltas
  rw [← List.head?_map]
  cases hkeys : (groupDeltas entries).map (·.1) with
  | nil =>
    rw [hkeys] at hmem
    have hnil : entries.map (·.snapshotId) = [] :=
      List.eq_nil_iff_forall_not_mem.2 fun id hid => List.not_mem_nil ((hmem id).2 hid)
    rw [hnil]
    rfl
  | cons first keys =>
    rw [hkeys] at hmem hsorted
    refine (List.min?_eq_some_iff.2 ⟨(hmem first).1 List.mem_cons_self, fun id hid => ?_⟩).symm
    rcases List.mem_cons.1 ((hmem id).2 hid) with rfl | hid
    · exact le_rfl
    · exact ((List.pairwise_cons.1 hsorted).1 id hid).le

/-- A container gives the deletions back with their snapshots, as a Parquet file does. -/
theorem scanDeletionVectorFile_container {range : SnapshotRange}
    (hne : (groupDeltas deletes.entries) ≠ [])
    (hfits : ContainerFits dataFilePath (cumulativeBlobs ∅ (groupDeltas deletes.entries))) :
    scanDeletionVectorFile (containerFile dataFilePath
        (cumulativeBlobs ∅ (groupDeltas deletes.entries))) path range =
      .ok (.ofEntries (deletes.entries.filter fun entry => range.admits entry.snapshotId)) := by
  have hmagic : 4 ≤ puffinMagic.length := le_rfl
  have hwritten : List.Forall₂ (WrittenAt (containerFile dataFilePath
      (cumulativeBlobs ∅ (groupDeltas deletes.entries))))
      (cumulativeBlobs ∅ (groupDeltas deletes.entries))
      (appendBlobs puffinMagic (cumulativeBlobs ∅ (groupDeltas deletes.entries))).2 :=
    (appendBlobs_writtenAt hmagic).imp fun _ _ h => h.append
  obtain ⟨hmap, hsome⟩ := map_snapshot_of_written hwritten lt_of_mem_groupDeltas
  rw [scanDeletionVectorFile, parseFooter_write hfits.payload hfits.file]
  generalize (appendBlobs puffinMagic (cumulativeBlobs ∅ (groupDeltas deletes.entries))).2 = infos
    at hwritten hmap hsome ⊢
  have hinfos : infos ≠ [] := by
    rintro rfl
    exact hne (List.map_eq_nil_iff.1 hmap.symm)
  have hcount : infos.countP (·.snapshotId.isSome) = infos.length := List.countP_eq_length.2 hsome
  have hlength : infos.length ≠ 0 := fun h => hinfos (List.length_eq_zero_iff.1 h)
  have horder : infos.Pairwise fun a b => decide (a.snapshot ≤ b.snapshot) = true := by
    have hkeys : (infos.map (·.snapshot)).Pairwise (· < ·) := hmap ▸ sorted_groupDeltas
    exact (List.pairwise_map.1 hkeys).imp fun h => decide_eq_true h.le
  simp only [bind, Except.bind, List.isEmpty_eq_false_iff.2 hinfos, reject_false, hcount, hlength,
    if_false, ne_eq, not_true_eq_false, decide_false]
  rw [scanSnapshotBlobs, List.mergeSort_of_pairwise horder,
    collectSnapshots_groupDeltas hwritten hfits.vectors]
  simp only [bind, Except.bind, pure, Except.pure, List.filter_filter]
  rfl

/-! ## Both formats -/

/-- Written in both formats, the file begins with the same snapshot and is loaded as `result`, whose
rows are in order. -/
def LoadsAs (dataFilePath path : Text) (deletes : SnapshotDeletes) (range : SnapshotRange)
    (result : DeleteFileScanResult) : Prop :=
  (∃ file, writeWithSnapshots dataFilePath deletes = .ok (file, (writePositionDeletes deletes).2) ∧
    scanDeletionVectorFile file path range = .ok result) ∧
  scanPositionDeletes (writePositionDeletes deletes).1 range = .ok result ∧
  result.deletedRows.Pairwise (· < ·)

theorem writeWithSnapshots_eq_ok {result : PuffinWriteResult}
    (h : write dataFilePath (cumulativeBlobs ∅ (groupDeltas deletes.entries)) = .ok result) :
    writeWithSnapshots dataFilePath deletes =
      .ok (result.fileData, (writePositionDeletes deletes).2) := by
  rw [writeWithSnapshots, h, writePositionDeletes, head?_groupDeltas]
  rfl

omit [RoaringLibrary] [JsonLibrary] in
theorem length_cumulativeBlobs {running : Finset UInt64} {deltas : Deltas} :
    (cumulativeBlobs running deltas).length = deltas.length := by
  induction deltas generalizing running with
  | nil => rfl
  | cons delta deltas ih =>
    obtain ⟨snapshotId, positions⟩ := delta
    rw [cumulativeBlobs, List.length_cons, ih, List.length_cons]

/-- Deletions of more than one snapshot load as the same from both formats. -/
theorem loadsAs_of_ne {range : SnapshotRange} (hrange : range.InRange)
    {entry entry' : PositionWithSnapshot} (hentry : entry ∈ deletes.entries)
    (hentry' : entry' ∈ deletes.entries) (hne : entry.snapshotId ≠ entry'.snapshotId)
    (hfits : ContainerFits dataFilePath (cumulativeBlobs ∅ (groupDeltas deletes.entries))) :
    LoadsAs dataFilePath path deletes range
      (.ofEntries (deletes.entries.filter fun entry => range.admits entry.snapshotId)) := by
  have hkey : ∀ entry ∈ deletes.entries,
      entry.snapshotId ∈ (groupDeltas deletes.entries).map (·.1) := fun entry hentry =>
    mem_keys_groupDeltas.2 (List.mem_map_of_mem hentry)
  have hlength : (cumulativeBlobs ∅ (groupDeltas deletes.entries)).length ≠ 1 := by
    rw [length_cumulativeBlobs, ← List.length_map (·.1)]
    intro hone
    obtain ⟨id, hid⟩ := List.length_eq_one_iff.1 hone
    have heq : ∀ entry ∈ deletes.entries, entry.snapshotId = id := fun entry hentry =>
      List.mem_singleton.1 (hid ▸ hkey entry hentry)
    exact hne ((heq entry hentry).trans (heq entry' hentry').symm)
  have hdeltas : groupDeltas deletes.entries ≠ [] := fun hnil =>
    List.not_mem_nil (hnil ▸ hkey entry hentry : entry.snapshotId ∈ ([] : Deltas).map (·.1))
  obtain ⟨result, hwrite, hfile⟩ := (exists_write_container (p := fun file =>
    file = containerFile dataFilePath (cumulativeBlobs ∅ (groupDeltas deletes.entries)))
    hlength).2 ⟨hfits.payload, hfits.file, rfl⟩
  refine ⟨⟨_, writeWithSnapshots_eq_ok hwrite, ?_⟩, scanPositionDeletes_write hrange, ?_⟩
  · rw [hfile]
    exact scanDeletionVectorFile_container hdeltas hfits
  · exact List.pairwise_map.2 (deletes.sorted.filter _)

/-- The deletion vector of a set whose deletions are of one snapshot. -/
def singleVector (entries : List PositionWithSnapshot) : Finset UInt64 :=
  (entries.map fun entry => UInt64.ofNat entry.position).toFinset

omit [RoaringLibrary] [JsonLibrary] in
theorem cumulativeBlobs_single {entries : List PositionWithSnapshot} {snapshotId : SnapshotId}
    (hne : entries ≠ []) (hall : ∀ entry ∈ entries, entry.snapshotId = snapshotId) :
    cumulativeBlobs ∅ (groupDeltas entries) = [⟨snapshotIndex snapshotId, singleVector entries⟩] := by
  have hkeys : ∀ id, id ∈ (groupDeltas entries).map (·.1) ↔ id = snapshotId := by
    intro id
    rw [mem_keys_groupDeltas, List.mem_map]
    constructor
    · rintro ⟨entry, hentry, rfl⟩
      exact hall entry hentry
    · rintro rfl
      obtain ⟨entry, hentry⟩ := List.exists_mem_of_ne_nil _ hne
      exact ⟨entry, hentry, hall entry hentry⟩
  have hsorted : ((groupDeltas entries).map (·.1)).Pairwise (· < ·) := sorted_groupDeltas
  have hsingle : (groupDeltas entries).map (·.1) = [snapshotId] := by
    have hanti : ∀ a b : SnapshotId, a ∈ (groupDeltas entries).map (·.1) → b ∈ [snapshotId] →
        a < b → b < a → a = b := fun a _ _ _ hab hba => absurd (hab.trans hba) (lt_irrefl a)
    refine List.Perm.eq_of_pairwise hanti hsorted (List.pairwise_singleton _ _) ?_
    refine (List.perm_ext_iff_of_nodup (hsorted.imp fun h => h.ne)
      (List.nodup_singleton _)).2 fun id => ?_
    rw [hkeys, List.mem_singleton]
  obtain ⟨⟨id, positions⟩, hdeltas, rfl⟩ := List.map_eq_singleton_iff.1 hsingle
  have hpositions : positions = singleVector entries := by
    ext position
    have hdeletes := @deletes_groupDeltas entries id position
    rw [hdeltas, deletes_cons] at hdeletes
    simp only [true_and, deletes_nil, or_false] at hdeletes
    rw [hdeletes, singleVector, List.mem_toFinset, List.mem_map]
    exact exists_congr fun entry => and_congr_right fun hentry =>
      (and_iff_right (hall entry hentry)).trans eq_comm
  rw [hdeltas, cumulativeBlobs, cumulativeBlobs, Finset.empty_union, hpositions]

omit [RoaringLibrary] [JsonLibrary] in
theorem sortedRows_singleVector :
    sortedRows (singleVector deletes.entries) = deletes.entries.map (·.position) := by
  have himage : (singleVector deletes.entries).image UInt64.toNat =
      (deletes.entries.map (·.position)).toFinset := by
    ext row
    simp only [singleVector, Finset.mem_image, List.mem_toFinset, List.mem_map,
      exists_exists_and_eq_and]
    refine exists_congr fun entry => and_congr_right fun hentry => ?_
    rw [UInt64.toNat_ofNat_of_lt' ((deletes.position_lt entry hentry).trans (by decide))]
  have hsorted : (deletes.entries.map (·.position)).Pairwise (· < ·) :=
    List.pairwise_map.2 deletes.sorted
  rw [sortedRows, himage]
  exact (List.toFinset_sort _ (hsorted.imp fun h => h.ne)).2 (hsorted.imp fun h => h.le)

/-- A bare vector is loaded whole, whatever the filters are. -/
theorem scanDeletionVectorFile_toBlob {positions : Finset UInt64} {range : SnapshotRange}
    (hmagic : (toBlob positions).take 4 ≠ puffinMagic)
    (hlength : (vector positions).length < 2 ^ 32) :
    scanDeletionVectorFile (toBlob positions) path range =
      .ok ⟨sortedRows positions, [], false⟩ := by
  have hread : readFile (toBlob positions) path = .ok [positions] := (readFile_toBlob hmagic).2 hlength
  have hparse : parseFooter (toBlob positions) path =
      .ok [⟨none, 0, (toBlob positions).length⟩] := by
    rw [parseFooter, isContainer_toBlob, decide_eq_false hmagic]
    exact parseBare_toBlob
  rw [readFile, hparse] at hread
  rw [scanDeletionVectorFile, hparse]
  simp only [bind, Except.bind] at hread ⊢
  rw [List.isEmpty_cons, reject_false]
  simp only [List.countP_cons, List.countP_nil, Option.isSome_none, Bool.false_eq_true, if_false,
    if_true, add_zero]
  rw [scanPlainBlobs, hread]
  simp only [bind, Except.bind, List.foldl_cons, List.foldl_nil, Finset.empty_union]
  rfl

/-- Deletions of one snapshot are a bare vector in the one format, and rows with that snapshot in the
other. -/
theorem loads_of_eq {range : SnapshotRange} (hrange : range.InRange) {snapshotId : SnapshotId}
    (hne : deletes.entries ≠ []) (hall : ∀ entry ∈ deletes.entries, entry.snapshotId = snapshotId)
    (hmagic : (toBlob (singleVector deletes.entries)).take 4 ≠ puffinMagic)
    (hlength : (vector (singleVector deletes.entries)).length < 2 ^ 32) :
    writeWithSnapshots dataFilePath deletes =
        .ok (toBlob (singleVector deletes.entries), some snapshotId) ∧
      (writePositionDeletes deletes).2 = some snapshotId ∧
      scanDeletionVectorFile (toBlob (singleVector deletes.entries)) path range =
        .ok ⟨deletes.entries.map (·.position), [], false⟩ ∧
      scanPositionDeletes (writePositionDeletes deletes).1 range =
        .ok (.ofEntries (if range.admits snapshotId then deletes.entries else [])) := by
  have hblobs : cumulativeBlobs ∅ (groupDeltas deletes.entries) =
      [⟨snapshotIndex snapshotId, singleVector deletes.entries⟩] := cumulativeBlobs_single hne hall
  have hbegin : (writePositionDeletes deletes).2 = some snapshotId := by
    refine List.min?_eq_some_iff.2 ⟨?_, fun id hid => ?_⟩
    · obtain ⟨entry, hentry⟩ := List.exists_mem_of_ne_nil _ hne
      exact List.mem_map.2 ⟨entry, hentry, hall entry hentry⟩
    · obtain ⟨entry, hentry, rfl⟩ := List.mem_map.1 hid
      exact (hall entry hentry).ge
  have hlt : (toBlob (singleVector deletes.entries)).length < 2 ^ 63 := by
    rw [length_toBlob]
    omega
  obtain ⟨result, hwrite, hfile⟩ : ∃ result,
      write dataFilePath [⟨snapshotIndex snapshotId, singleVector deletes.entries⟩] = .ok result ∧
        result.fileData = toBlob (singleVector deletes.entries) :=
    (exists_write_single (p := fun file => file = toBlob (singleVector deletes.entries))).2
      ⟨hlt, rfl⟩
  refine ⟨?_, hbegin, ?_, ?_⟩
  · rw [← hblobs] at hwrite
    rw [writeWithSnapshots_eq_ok hwrite, hfile, hbegin]
  · rw [scanDeletionVectorFile_toBlob hmagic hlength, sortedRows_singleVector]
  · rw [scanPositionDeletes_write hrange]
    split
    next hadmits =>
      rw [List.filter_eq_self.2 fun entry hentry => by rwa [hall entry hentry]]
    next hadmits =>
      rw [List.filter_eq_nil_iff.2 fun entry hentry => by rwa [hall entry hentry]]

/-- Deletions of several snapshots load as the same from both formats. Those of a single snapshot
are written as a bare vector: the file begins with their snapshot, as the Parquet file does, and is
loaded whole, while the filters apply to the rows of the Parquet file. -/
theorem loadsAs_or_bare {range : SnapshotRange} (hrange : range.InRange) :
    (∀ entry ∈ deletes.entries, ∀ entry' ∈ deletes.entries, entry.snapshotId ≠ entry'.snapshotId →
      ContainerFits dataFilePath (cumulativeBlobs ∅ (groupDeltas deletes.entries)) →
        LoadsAs dataFilePath path deletes range
          (.ofEntries (deletes.entries.filter fun entry => range.admits entry.snapshotId))) ∧
    ∀ snapshotId, deletes.entries ≠ [] →
      (∀ entry ∈ deletes.entries, entry.snapshotId = snapshotId) →
      (toBlob (singleVector deletes.entries)).take 4 ≠ puffinMagic →
      (vector (singleVector deletes.entries)).length < 2 ^ 32 →
        writeWithSnapshots dataFilePath deletes =
          .ok (toBlob (singleVector deletes.entries), some snapshotId) ∧
        (writePositionDeletes deletes).2 = some snapshotId ∧
        scanDeletionVectorFile (toBlob (singleVector deletes.entries)) path range =
          .ok ⟨deletes.entries.map (·.position), [], false⟩ ∧
        scanPositionDeletes (writePositionDeletes deletes).1 range =
          .ok (.ofEntries (if range.admits snapshotId then deletes.entries else [])) := by
  refine ⟨fun entry hentry entry' hentry' hne hfits => ?_,
    fun snapshotId hne hall hmagic hlength => ?_⟩
  · exact loadsAs_of_ne hrange hentry hentry' hne hfits
  · exact loads_of_eq hrange hne hall hmagic hlength

end Scan

/-! ## Two deletions in the plain formats -/

/-- The fifth row, deleted at the third snapshot. -/
def oneDeletion : SnapshotDeletes where
  entries := [⟨5, 3⟩]
  sorted := List.pairwise_singleton _ _
  position_lt := by simp
  snapshotId_lt := by simp

/-- The seventh row is deleted by the snapshot after that. -/
def twoDeletions : SnapshotDeletes where
  entries := [⟨5, 3⟩, ⟨7, 4⟩]
  sorted := List.pairwise_pair.2 (by decide)
  position_lt := by simp
  snapshotId_lt := by simp

theorem length_vector_small {positions : Finset UInt64} (h : positions.card ≤ 2) :
    (@vector PlainRoaring.library positions).length ≤ 52 :=
  (PlainRoaring.length_vector_le positions).trans (by
    have := Nat.mul_le_mul h (Nat.add_le_add_left (Nat.mul_le_mul_left 4 h) 12)
    omega)

theorem take_toBlob_ne {positions : Finset UInt64} (h : positions.card ≤ 2) :
    (@toBlob PlainRoaring.library positions).take 4 ≠ puffinMagic := by
  intro hmagic
  have hsize := length_vector_small h
  unfold toBlob at hmagic
  rw [List.take_left' (Bytes.length_toBigEndian 4 _)] at hmagic
  have hvalue := congrArg Bytes.ofBigEndian hmagic
  rw [Bytes.ofBigEndian_toBigEndian, Nat.mod_eq_of_lt (by omega)] at hvalue
  have hlarge : Bytes.ofBigEndian puffinMagic = 0x50464131 := by decide
  omega

/-- Up to the second snapshot nothing is deleted; a bare vector is loaded nevertheless. -/
theorem not_loadsAs_oneDeletion : ¬ ∃ result, @LoadsAs PlainRoaring.library PlainJson.library
    "data.parquet" "delete.puffin" oneDeletion ⟨none, some 2⟩ result := by
  rintro ⟨result, ⟨file, hwrite, hpuffin⟩, hparquet, -⟩
  have hrange : SnapshotRange.InRange ⟨none, some 2⟩ := ⟨by simp, by simp⟩
  have hcard : (singleVector oneDeletion.entries).card ≤ 2 := by decide
  obtain ⟨hfile, hbegin, hscan, hrows⟩ := @loads_of_eq PlainRoaring.library PlainJson.library
    oneDeletion "data.parquet" "delete.puffin" _ hrange 3 (by simp [oneDeletion])
    (by simp [oneDeletion]) (take_toBlob_ne hcard) ((length_vector_small hcard).trans_lt (by decide))
  rw [hfile] at hwrite
  cases hwrite
  rw [hscan] at hpuffin
  rw [hrows, ← Except.ok.inj hpuffin] at hparquet
  cases hparquet

theorem fits_twoDeletions : @ContainerFits PlainRoaring.library PlainJson.library "data.parquet"
    (cumulativeBlobs ∅ (groupDeltas twoDeletions.entries)) := by
  have hblobs : cumulativeBlobs ∅ (groupDeltas twoDeletions.entries) =
      [⟨snapshotIndex 3, {5}⟩, ⟨snapshotIndex 4, {5, 7}⟩] := rfl
  have hfirst := @length_vector_small {5} (by decide)
  have hsecond := @length_vector_small {5, 7} (by decide)
  have hpayload : (@footerPayload PlainJson.library "data.parquet"
      (cumulativeBlobs ∅ (groupDeltas twoDeletions.entries))
      (@appendBlobs PlainRoaring.library puffinMagic
        (cumulativeBlobs ∅ (groupDeltas twoDeletions.entries))).2).length ≤ 5000 := by
    have hthree : snapshotIndex 3 = some ⟨3, by decide⟩ := rfl
    have hfour : snapshotIndex 4 = some ⟨4, by decide⟩ := rfl
    have hcard : ({5, 7} : Finset UInt64).card = 2 := rfl
    unfold footerPayload
    rw [hblobs, hthree, hfour, PlainJson.library_write]
    have htype : deletionVectorBlobType.length = 18 := rfl
    have hproperty : ducklakeSnapshotProperty.length = 20 := rfl
    have hdigit : ∀ n < 10, (Text.ofNat n).length = 1 := by decide
    simp [appendBlobs, blobMetadata, blobProperties, snapshotProperty, hcard, PlainJson.write,
      PlainJson.writeFields, PlainJson.writeValues, cString, htype, hproperty, hdigit]
  refine @ContainerFits.mk PlainRoaring.library PlainJson.library _ _
    (hpayload.trans_lt (by decide)) ?_ ?_
  · have hbody : (@appendBlobs PlainRoaring.library puffinMagic
        (cumulativeBlobs ∅ (groupDeltas twoDeletions.entries))).1.length ≤ 124 := by
      rw [hblobs, @appendBlobs_fst PlainRoaring.library]
      simp only [List.flatMap_cons, List.flatMap_nil, List.length_append, List.length_nil,
        @length_toBlob PlainRoaring.library, show puffinMagic.length = 4 from rfl]
      omega
    unfold containerFile
    rw [length_withFooter]
    omega
  · rw [hblobs]
    intro blob hblob
    rcases List.mem_pair.1 hblob with rfl | rfl
    · exact hfirst.trans_lt (by decide)
    · exact hsecond.trans_lt (by decide)

theorem loadsAs_or_bare_twoDeletions : @LoadsAs PlainRoaring.library PlainJson.library
    "data.parquet" "delete.puffin" twoDeletions ⟨none, some 3⟩ ⟨[5], [3], true⟩ :=
  (@loadsAs_or_bare PlainRoaring.library PlainJson.library twoDeletions "data.parquet"
    "delete.puffin" ⟨none, some 3⟩ ⟨by simp, by simp⟩).1 ⟨5, 3⟩ (by simp [twoDeletions]) ⟨7, 4⟩
      (by simp [twoDeletions]) (by decide) fits_twoDeletions

end DuckLakePuffin

end DuckLake
