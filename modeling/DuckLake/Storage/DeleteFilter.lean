import Mathlib.Algebra.Order.Ring.Nat
import DuckLake.Lib.Cursor
import DuckLake.Storage.Delete

/-!
# The delete filter

A scan of a data file hides the rows that its delete file names and those that are deleted inline.
Both are merged into one sorted list, which a cursor walks along with each chunk. A row that is in
both stays in the list twice, and the cursor does not get past the second entry.
-/

namespace DuckLake

/-! ## Filtering a chunk -/

/-- What `Filter` returns. The selection vector is only set up when rows of the chunk may be
deleted, and stands for the first rows of the chunk otherwise. -/
structure FilteredChunk where
  resultSel : Option (List Nat)
  count : Nat
deriving DecidableEq

def FilteredChunk.rows (chunk : FilteredChunk) : List Nat :=
  (chunk.resultSel.getD (List.range chunk.count)).take chunk.count

namespace DuckLakeDeleteData

/-- The deleted rows with their snapshots, when these are embedded. -/
def entries (data : DuckLakeDeleteData) : List (Nat × Option SnapshotId) :=
  if data.hasEmbeddedSnapshots then data.deletedRows.zip (data.snapshotIds.map some)
  else data.deletedRows.map (·, none)

/-- Only deletions up to the snapshot of the filter are considered. -/
def isDeleted (snapshotFilter : Option SnapshotId) (entry : Nat × Option SnapshotId) : Bool :=
  match snapshotFilter, entry.2 with
  | some snapshot, some id => decide (id ≤ snapshot)
  | _, _ => true

def filter (data : DuckLakeDeleteData) (startRowIndex count : Nat)
    (snapshotFilter : Option SnapshotId) : FilteredChunk :=
  -- `std::lower_bound`
  match data.entries.dropWhile (·.1 < startRowIndex) with
  | [] => ⟨none, count⟩
  | entry :: rest =>
    if startRowIndex + count < entry.1 then ⟨none, count⟩
    else
      let rows := cursorKeeps Prod.fst (isDeleted snapshotFilter) count startRowIndex 0
        (entry :: rest)
      ⟨some rows, rows.length⟩

end DuckLakeDeleteData

structure DuckLakeDeleteFilter where
  deleteData : DuckLakeDeleteData := ⟨[], []⟩
  maxRowCount : Option Nat := none
  snapshotFilter : Option SnapshotId := none
deriving DecidableEq

namespace DuckLakeDeleteFilter

def filter (f : DuckLakeDeleteFilter) (startRowIndex count : Nat) : FilteredChunk :=
  match f.maxRowCount with
  | none => f.deleteData.filter startRowIndex count f.snapshotFilter
  | some maxCount =>
    if maxCount ≤ startRowIndex then ⟨none, 0⟩
    else f.deleteData.filter startRowIndex (min (maxCount - startRowIndex) count) f.snapshotFilter

/-! ## Setting up the filter -/

/-- `std::inplace_merge`, which is defined when both ranges are sorted. -/
def inplaceMerge (rows : List Nat) (midIdx : Int) : Option (List Nat) :=
  if 0 ≤ midIdx ∧ midIdx ≤ rows.length ∧ (rows.take midIdx.toNat).Pairwise (· ≤ ·) ∧
      (rows.drop midIdx.toNat).Pairwise (· ≤ ·) then
    some ((rows.take midIdx.toNat).merge (rows.drop midIdx.toNat) (fun a b => decide (a ≤ b)))
  else none

/-- The number of rows as an `int`. -/
def midIdx (rows : List Nat) : Int := (rows.length : Int).bmod (2 ^ 32)

/-- `Initialize` with the content of a delete file. -/
def initializeFile (f : DuckLakeDeleteFilter) (deleteFile : DuckLakeDeleteData) :
    DuckLakeDeleteFilter :=
  { f with deleteData := deleteFile }

/-- `Initialize` with inlined deletes, which are deleted at every snapshot. -/
def initializeInlined (f : DuckLakeDeleteFilter) (inlinedDeletes : OrdSet Nat) :
    Option DuckLakeDeleteFilter :=
  let data := f.deleteData
  if data.snapshotIds.isEmpty then
    (inplaceMerge (data.deletedRows ++ inlinedDeletes.elems) (midIdx data.deletedRows)).map
      fun rows => { f with deleteData := ⟨rows, []⟩ }
  else
    let merged := (data.deletedRows.zip data.snapshotIds).merge (inlinedDeletes.elems.map (·, 0))
      fun lhs rhs => decide (lhs.1 < rhs.1)
    some { f with deleteData := ⟨merged.map (·.1), merged.map (·.2)⟩ }

def initializeInlinedIfAny (f : DuckLakeDeleteFilter) (inlinedDeletes : OrdSet Nat) :
    Option DuckLakeDeleteFilter :=
  if inlinedDeletes.elems.isEmpty then some f else f.initializeInlined inlinedDeletes

/-- `InitializeReader` for a data file in a regular scan. -/
def initializeReader (deleteFile : DuckLakeDeleteData) (inlinedDeletes : OrdSet Nat)
    (maxRowCount : Option Nat) (snapshotFilter : Option SnapshotId) :
    Option DuckLakeDeleteFilter :=
  let f : DuckLakeDeleteFilter := {}
  ((f.initializeFile deleteFile).initializeInlinedIfAny inlinedDeletes).map
    fun f => { f with maxRowCount := maxRowCount, snapshotFilter := snapshotFilter }

end DuckLakeDeleteFilter

/-! ## What a filter hides -/

namespace DuckLakeDeleteData

/-- The content of a delete file as `ScanDeleteFile` returns it. -/
structure Increasing (data : DuckLakeDeleteData) : Prop where
  sorted : data.deletedRows.Pairwise (· < ·)
  paired : data.snapshotIds = [] ∨ data.snapshotIds.length = data.deletedRows.length

/-- The delete file names the row, with a snapshot that the filter lets through. -/
def hides (data : DuckLakeDeleteData) (snapshotFilter : Option SnapshotId) (row : Nat) : Bool :=
  match snapshotFilter with
  | none => decide (row ∈ data.deletedRows)
  | some snapshot => data.filters snapshot row

/-- The rows of a chunk that the cursor keeps, given by the entries before a repeated row. -/
theorem rows_filter (data : DuckLakeDeleteData) (start count : Nat)
    (snapshotFilter : Option SnapshotId) :
    (data.filter start count snapshotFilter).rows = (List.range count).filter fun i =>
      !(beforeRepeat Prod.fst (data.entries.dropWhile (·.1 < start))).any fun entry =>
        entry.1 = start + i && isDeleted snapshotFilter entry := by
  unfold filter
  cases hrest : data.entries.dropWhile (·.1 < start) with
  | nil => simp [FilteredChunk.rows, beforeRepeat]
  | cons entry rest =>
    have hhead := List.head?_dropWhile_not (·.1 < start) data.entries
    simp only [hrest, List.head?_cons, decide_eq_false_iff_not, Nat.not_lt] at hhead
    dsimp only
    split
    next hlt =>
      have hall : ∀ i ∈ List.range count, (!(beforeRepeat Prod.fst (entry :: rest)).any
          fun entry => entry.1 = start + i && isDeleted snapshotFilter entry) = true := by
        intro i hi
        have hi := List.mem_range.1 hi
        rw [any_beforeRepeat_of_lt Prod.fst _ (show start + i < entry.1 by omega), Bool.not_false]
      rw [List.filter_eq_self.2 hall]
      simp [FilteredChunk.rows]
    next hle =>
      simp only [FilteredChunk.rows, Option.getD_some, List.take_length]
      rw [cursorKeeps_eq Prod.fst _ (by simpa using hhead)]
      simp

theorem entries_of_embedded {data : DuckLakeDeleteData} (h : data.hasEmbeddedSnapshots = true) :
    data.entries = (data.deletedRows.zip data.snapshotIds).map fun e => (e.1, some e.2) := by
  rw [entries, if_pos h, List.zip_map_right]
  rfl

theorem map_fst_entries {data : DuckLakeDeleteData}
    (h : data.snapshotIds = [] ∨ data.snapshotIds.length = data.deletedRows.length) :
    data.entries.map Prod.fst = data.deletedRows := by
  cases hemb : data.hasEmbeddedSnapshots with
  | false => simp [entries, hemb, Function.comp_def]
  | true =>
    have hne : data.snapshotIds ≠ [] := by simpa [hasEmbeddedSnapshots] using hemb
    have hlength := h.resolve_left hne
    rw [entries_of_embedded hemb, List.map_map]
    exact List.map_fst_zip hlength.ge

theorem any_entries {data : DuckLakeDeleteData}
    (h : data.snapshotIds = [] ∨ data.snapshotIds.length = data.deletedRows.length)
    (snapshotFilter : Option SnapshotId) (row : Nat) :
    (data.entries.any fun entry => entry.1 = row && isDeleted snapshotFilter entry) =
      data.hides snapshotFilter row := by
  have hmem : (data.entries.any fun entry => decide (entry.1 = row)) =
      decide (row ∈ data.deletedRows) := by
    rw [← map_fst_entries h, Bool.eq_iff_iff]
    simp
  cases snapshotFilter with
  | none => simpa [isDeleted, hides] using hmem
  | some snapshot =>
    cases hemb : data.hasEmbeddedSnapshots with
    | false =>
      have hentries : data.entries = data.deletedRows.map (·, none) := by simp [entries, hemb]
      rw [hentries] at hmem ⊢
      simpa [isDeleted, hides, filters, hemb, Function.comp_def] using hmem
    | true =>
      rw [entries_of_embedded hemb]
      simp [isDeleted, hides, filters, hemb, Function.comp_def]

/-- In a file the first entry for a row is the only one. -/
theorem find?_entries {data : DuckLakeDeleteData} (h : data.Increasing)
    (snapshotFilter : Option SnapshotId) (row : Nat) :
    (data.entries.find? (·.1 = row)).any (isDeleted snapshotFilter) =
      data.hides snapshotFilter row := by
  have hnodup : (data.entries.map Prod.fst).Nodup := by
    rw [map_fst_entries h.paired]
    exact h.sorted.imp Nat.ne_of_lt
  rw [any_find? Prod.fst _ fun a ha b hb hab =>
      congrArg _ (List.inj_on_of_nodup_map hnodup ha hb hab), any_entries h.paired]

/-- The deletes are sorted, and the first entry for a row decides whether it is hidden. -/
structure Merged (merged data : DuckLakeDeleteData) (inlinedDeletes : OrdSet Nat) : Prop where
  sorted : merged.entries.Pairwise fun a b => a.1 ≤ b.1
  count : ∀ row, (merged.entries.map Prod.fst).count row =
    data.deletedRows.count row + inlinedDeletes.elems.count row
  hides : ∀ snapshotFilter row,
    (merged.entries.find? (·.1 = row)).any (isDeleted snapshotFilter) = true ↔
      row ∈ inlinedDeletes ∨ data.hides snapshotFilter row = true

end DuckLakeDeleteData

namespace DuckLakeDeleteFilter

open DuckLakeDeleteData

variable {data : DuckLakeDeleteData} {inlinedDeletes : OrdSet Nat}

theorem merged_self (hdata : data.Increasing) : data.Merged data ∅ where
  sorted := by
    have hsorted := hdata.sorted.imp Nat.le_of_lt
    rw [← map_fst_entries hdata.paired, List.pairwise_map] at hsorted
    exact hsorted
  count row := by simp [map_fst_entries hdata.paired]
  hides snapshotFilter row := by
    rw [find?_entries hdata]
    simp

/-- Without embedded snapshots. -/
theorem merged_inplace (hsnapshots : data.snapshotIds = []) {rows : List Nat}
    (hsorted : rows.Pairwise (· ≤ ·))
    (hperm : rows.Perm (data.deletedRows ++ inlinedDeletes.elems)) :
    Merged ⟨rows, []⟩ data inlinedDeletes := by
  have hfst : (DuckLakeDeleteData.mk rows []).entries.map Prod.fst = rows :=
    map_fst_entries (.inl rfl)
  constructor
  · rw [← hfst, List.pairwise_map] at hsorted
    exact hsorted
  · intro row
    rw [hfst, hperm.count_eq, List.count_append]
  · intro snapshotFilter row
    have hsame : ∀ a ∈ (DuckLakeDeleteData.mk rows []).entries,
        ∀ b ∈ (DuckLakeDeleteData.mk rows []).entries, a.1 = b.1 →
        isDeleted snapshotFilter a = isDeleted snapshotFilter b := by
      intro a ha b hb hab
      obtain ⟨r, -, rfl⟩ := List.mem_map.1 ha
      obtain ⟨r', -, rfl⟩ := List.mem_map.1 hb
      cases snapshotFilter <;> rfl
    have hhides : ∀ d : DuckLakeDeleteData, d.snapshotIds = [] →
        d.hides snapshotFilter row = decide (row ∈ d.deletedRows) := by
      intro d hd
      cases snapshotFilter <;> simp [hides, filters, hasEmbeddedSnapshots, hd]
    rw [any_find? Prod.fst _ hsame, any_entries (.inl rfl), hhides _ rfl, hhides _ hsnapshots,
      decide_eq_true_eq, decide_eq_true_eq, hperm.mem_iff, List.mem_append, or_comm]
    rfl

/-- With embedded snapshots, where inlined deletes come before others of the same row. -/
theorem merged_embedded (hdata : data.Increasing) (hsnapshots : data.snapshotIds ≠ [])
    {merged : List (Nat × SnapshotId)}
    (hmerged : merged = (data.deletedRows.zip data.snapshotIds).merge
      (inlinedDeletes.elems.map (·, 0)) fun lhs rhs => decide (lhs.1 < rhs.1)) :
    Merged ⟨merged.map (·.1), merged.map (·.2)⟩ data inlinedDeletes := by
  have hlength := hdata.paired.resolve_left hsnapshots
  have hemb : data.hasEmbeddedSnapshots = true := by simpa [hasEmbeddedSnapshots] using hsnapshots
  have hperm : merged.Perm ((data.deletedRows.zip data.snapshotIds) ++
      inlinedDeletes.elems.map (·, 0)) := hmerged ▸ List.merge_perm_append _
  have hfst : (data.deletedRows.zip data.snapshotIds).map Prod.fst = data.deletedRows :=
    List.map_fst_zip hlength.ge
  have hinlined : (inlinedDeletes.elems.map (·, 0)).Pairwise
      fun a b : Nat × SnapshotId => a.1 ≤ b.1 :=
    List.pairwise_map.2 (inlinedDeletes.sorted.imp Nat.le_of_lt)
  have hentries : (DuckLakeDeleteData.mk (merged.map (·.1)) (merged.map (·.2))).entries =
      merged.map fun e => (e.1, some e.2) := by
    have hmergedEmb : (DuckLakeDeleteData.mk (merged.map (·.1))
        (merged.map (·.2))).hasEmbeddedSnapshots = true := by
      have hpos : 0 < data.snapshotIds.length := List.length_pos_iff.2 hsnapshots
      have hlen := hperm.length_eq
      rw [List.length_append, List.length_zip, hlength, Nat.min_self] at hlen
      have hne : merged ≠ [] := List.length_pos_iff.1 (by omega)
      simpa [hasEmbeddedSnapshots] using hne
    rw [entries_of_embedded hmergedEmb, List.zip_map', List.map_map]
    rfl
  constructor
  · rw [hentries, List.pairwise_map, hmerged]
    refine pairwise_merge (r := fun a b : Nat × SnapshotId => a.1 ≤ b.1) (fun _ _ _ => Nat.le_trans)
      (fun _ _ h => Nat.le_of_lt (by simpa using h)) (fun _ _ h => by simpa using h) ?_ hinlined
    have hsorted := hdata.sorted.imp Nat.le_of_lt
    rw [← hfst, List.pairwise_map] at hsorted
    exact hsorted
  · intro row
    rw [hentries, List.map_map, ← List.count_append]
    refine List.Perm.count_eq ((hperm.map Prod.fst).trans (.of_eq ?_)) row
    rw [List.map_append, hfst, List.map_map]
    exact congrArg _ (List.map_id _)
  · intro snapshotFilter row
    have hdeletedInlined : isDeleted snapshotFilter (row, some 0) = true := by
      cases snapshotFilter <;> simp [isDeleted]
    have hfile := find?_entries hdata snapshotFilter row
    rw [entries_of_embedded hemb, List.find?_map, Option.any_map] at hfile
    rw [hentries, List.find?_map, Option.any_map, hmerged]
    simp only [Function.comp_def] at hfile ⊢
    rw [find?_merge Prod.fst hinlined]
    by_cases hrow : row ∈ inlinedDeletes
    · have hfind : (inlinedDeletes.elems.map fun r => (r, 0)).find?
          (fun e : Nat × SnapshotId => e.1 = row) = some (row, 0) := by
        cases hsome : (inlinedDeletes.elems.map fun r => (r, 0)).find?
            (fun e : Nat × SnapshotId => e.1 = row) with
        | none =>
          have hmem : (row, 0) ∈ inlinedDeletes.elems.map fun r => (r, (0 : SnapshotId)) :=
            List.mem_map_of_mem (OrdSet.mem_def.1 hrow)
          simpa using List.find?_eq_none.1 hsome _ hmem
        | some e =>
          obtain ⟨r, -, rfl⟩ := List.mem_map.1 (List.mem_of_find?_eq_some hsome)
          have hr : r = row := by simpa using List.find?_some hsome
          rw [hr]
      simp [hfind, hdeletedInlined, hrow]
    · have hfind : (inlinedDeletes.elems.map fun r => (r, 0)).find?
          (fun e : Nat × SnapshotId => e.1 = row) = none :=
        List.find?_eq_none.2 fun e he => by
          obtain ⟨r, hr, rfl⟩ := List.mem_map.1 he
          have hne : r ≠ row := fun h => hrow (h ▸ hr)
          simpa using hne
      simp [hfind, hrow, ← hfile]

/-- The two halves that `Initialize` merges are what was there and what is added. The place where
they meet is kept in an `int`, which is right for fewer than 2^31 rows. -/
def MergesSorted (data : DuckLakeDeleteData) (inlinedDeletes : OrdSet Nat) : Prop :=
  inlinedDeletes = ∅ ∨ data.snapshotIds ≠ [] ∨
    (0 ≤ midIdx data.deletedRows ∧ ((data.deletedRows ++ inlinedDeletes.elems).drop
      (midIdx data.deletedRows).toNat).Pairwise (· ≤ ·))

theorem midIdx_le (rows : List Nat) : midIdx rows ≤ rows.length := by
  have hle : ∀ m : Nat, (rows.length : Int).bmod m ≤ rows.length := fun m => by
    have hmod : ((rows.length % m : Nat) : Int) ≤ rows.length :=
      Int.ofNat_le.2 (Nat.mod_le _ _)
    rw [Int.bmod_def]
    push_cast at hmod
    split_ifs <;> omega
  exact hle _

theorem mergesSorted_of_length_lt (h : data.deletedRows.length < 2 ^ 31) :
    MergesSorted data inlinedDeletes := by
  have hmid : midIdx data.deletedRows = data.deletedRows.length :=
    Int.bmod_eq_of_le_mul_two (by omega) (by omega)
  refine .inr (.inr ⟨by omega, ?_⟩)
  rw [hmid, Int.toNat_natCast, List.drop_left]
  exact inlinedDeletes.sorted.imp Nat.le_of_lt

theorem inplaceMerge_sorted {rows : List Nat} {mid : Int} (hmid : 0 ≤ mid)
    (hle : mid ≤ rows.length) (htake : (rows.take mid.toNat).Pairwise (· ≤ ·))
    (hdrop : (rows.drop mid.toNat).Pairwise (· ≤ ·)) :
    ∃ merged, inplaceMerge rows mid = some merged ∧ merged.Pairwise (· ≤ ·) ∧
      merged.Perm rows := by
  refine ⟨_, if_pos ⟨hmid, hle, htake, hdrop⟩, ?_, ?_⟩
  · exact pairwise_merge (r := (· ≤ ·)) (fun _ _ _ => Nat.le_trans) (fun _ _ h => by simpa using h)
      (fun _ _ h => Nat.le_of_lt (by simpa using h)) htake hdrop
  · exact (List.merge_perm_append _).trans (.of_eq (List.take_append_drop _ _))

/-- When the halves are sorted the filter is set up with all deletes. -/
theorem initializeInlinedIfAny_merged {f : DuckLakeDeleteFilter} (hdata : f.deleteData.Increasing)
    (h : MergesSorted f.deleteData inlinedDeletes) :
    ∃ merged, f.initializeInlinedIfAny inlinedDeletes = some { f with deleteData := merged } ∧
      merged.Merged f.deleteData inlinedDeletes := by
  unfold initializeInlinedIfAny
  split
  next hempty =>
    have hempty : inlinedDeletes = ∅ :=
      OrdSet.eq_empty_iff.2 fun a ha => by simp_all [OrdSet.mem_def]
    exact ⟨f.deleteData, rfl, hempty ▸ merged_self hdata⟩
  next hne =>
    have hne : inlinedDeletes ≠ ∅ := fun h => hne (by simp [h])
    unfold initializeInlined
    dsimp only
    split
    next hsnapshots =>
      have hsnapshots : f.deleteData.snapshotIds = [] := by simpa using hsnapshots
      obtain ⟨hmid, hdrop⟩ := (h.resolve_left hne).resolve_left (not_not.2 hsnapshots)
      have hle := midIdx_le f.deleteData.deletedRows
      have htake : ((f.deleteData.deletedRows ++ inlinedDeletes.elems).take
          (midIdx f.deleteData.deletedRows).toNat).Pairwise (· ≤ ·) := by
        rw [List.take_append_of_le_length (by omega)]
        exact (hdata.sorted.imp Nat.le_of_lt).sublist (List.take_sublist _ _)
      obtain ⟨rows, hrows, hsorted, hperm⟩ := inplaceMerge_sorted hmid
        (by rw [List.length_append]; omega) htake hdrop
      exact ⟨⟨rows, []⟩, by rw [hrows]; rfl, merged_inplace hsnapshots hsorted hperm⟩
    next hsnapshots =>
      have hsnapshots : f.deleteData.snapshotIds ≠ [] := by simpa using hsnapshots
      exact ⟨_, rfl, merged_embedded hdata hsnapshots rfl⟩

theorem initializeInlinedIfAny_eq_none {f : DuckLakeDeleteFilter}
    (h : ¬ MergesSorted f.deleteData inlinedDeletes) :
    f.initializeInlinedIfAny inlinedDeletes = none := by
  obtain ⟨hne, hsnapshots, hhalves⟩ : inlinedDeletes ≠ ∅ ∧ f.deleteData.snapshotIds = [] ∧ _ := by
    simpa only [MergesSorted, not_or, not_not] using h
  have hsome : inlinedDeletes.elems.isEmpty = false := by
    cases hempty : inlinedDeletes.elems.isEmpty with
    | false => rfl
    | true =>
      exact absurd (OrdSet.eq_empty_iff.2 fun a ha => by simp_all [OrdSet.mem_def]) hne
  simp only [initializeInlinedIfAny, hsome, initializeInlined, hsnapshots, List.isEmpty_nil]
  have hmerge : inplaceMerge (f.deleteData.deletedRows ++ inlinedDeletes.elems)
      (midIdx f.deleteData.deletedRows) = none :=
    if_neg fun hall => hhalves ⟨hall.1, hall.2.2.2⟩
  simp [hmerge]

/-! ## Chunks -/

/-- The rows of a chunk below `max_row_count`. -/
def chunkCount (maxRowCount : Option Nat) (start count : Nat) : Nat :=
  match maxRowCount with
  | none => count
  | some maxCount => min (maxCount - start) count

theorem rows_filter (f : DuckLakeDeleteFilter) (start count : Nat) :
    (f.filter start count).rows =
      (List.range (chunkCount f.maxRowCount start count)).filter fun i =>
        !(beforeRepeat Prod.fst (f.deleteData.entries.dropWhile (·.1 < start))).any fun entry =>
          entry.1 = start + i && isDeleted f.snapshotFilter entry := by
  unfold filter
  cases hmax : f.maxRowCount with
  | none => exact DuckLakeDeleteData.rows_filter ..
  | some maxCount =>
    dsimp only
    split
    next hle => simp [FilteredChunk.rows, chunkCount, Nat.sub_eq_zero_of_le hle]
    next hlt => exact DuckLakeDeleteData.rows_filter ..

theorem filter_range_chunkCount (maxRowCount : Option Nat) (start count : Nat) (keep : Nat → Bool) :
    ((List.range count).filter fun i => maxRowCount.all (start + i < ·) && keep i) =
      (List.range (chunkCount maxRowCount start count)).filter keep := by
  cases maxRowCount with
  | none => simp [chunkCount]
  | some maxCount =>
    have hbelow : (List.range count).filter (fun i => decide (start + i < maxCount)) =
        List.range (min (maxCount - start) count) := by
      induction count with
      | zero => simp
      | succ n ih =>
        rw [List.range_succ, List.filter_append, ih]
        by_cases hn : start + n < maxCount
        · have hmin : min (maxCount - start) (n + 1) = n + 1 := by omega
          have hmin' : min (maxCount - start) n = n := by omega
          simp [hn, hmin, hmin', List.range_succ]
        · have hmin : min (maxCount - start) (n + 1) = min (maxCount - start) n := by omega
          simp [hn, hmin]
    have hsplit := List.filter_filter (p := keep)
      (q := fun i => decide (start + i < maxCount)) (l := List.range count)
    rw [hbelow] at hsplit
    rw [chunkCount, hsplit]
    simp [Bool.and_comm]

theorem filter_eq_filter_iff {α : Type} {l : List α} {p q : α → Bool} :
    l.filter p = l.filter q ↔ ∀ a ∈ l, p a = q a := by
  refine ⟨fun h a ha => ?_, List.filter_congr⟩
  have hmem : a ∈ l.filter p ↔ a ∈ l.filter q := by rw [h]
  simpa only [List.mem_filter, ha, true_and, ← Bool.eq_iff_iff] using hmem

/-- The rows that the chunk should give: those below the maximum that no delete names. -/
def HidesExactly (deleteFile : DuckLakeDeleteData) (inlinedDeletes : OrdSet Nat)
    (maxRowCount : Option Nat) (snapshotFilter : Option SnapshotId) (start count : Nat) : Prop :=
  ∃ f, initializeReader deleteFile inlinedDeletes maxRowCount snapshotFilter = some f ∧
    (f.filter start count).rows = (List.range count).filter fun i =>
      maxRowCount.all (start + i < ·) &&
        !(decide (start + i ∈ inlinedDeletes) || deleteFile.hides snapshotFilter (start + i))

/-- No row of the chunk is deleted after one that both the delete file and the inlined deletes
name. -/
def NoDeleteAfterRepeat (deleteFile : DuckLakeDeleteData) (inlinedDeletes : OrdSet Nat)
    (maxRowCount : Option Nat) (snapshotFilter : Option SnapshotId) (start count : Nat) : Prop :=
  ∀ p ∈ deleteFile.deletedRows, p ∈ inlinedDeletes → start ≤ p →
    ∀ row, p < row → row < start + count → maxRowCount.all (row < ·) = true →
      row ∉ inlinedDeletes ∧ deleteFile.hides snapshotFilter row = false

theorem lt_chunkCount {maxRowCount : Option Nat} {start count i : Nat} :
    i < chunkCount maxRowCount start count ↔
      i < count ∧ maxRowCount.all (start + i < ·) = true := by
  cases maxRowCount with
  | none => simp [chunkCount]
  | some maxCount =>
    simp only [chunkCount, Option.all_some, decide_eq_true_eq]
    omega

theorem count_le_one_iff {merged : DuckLakeDeleteData} (hdata : data.Increasing)
    (h : merged.Merged data inlinedDeletes) (p : Nat) :
    (merged.entries.map Prod.fst).count p ≤ 1 ↔ ¬ (p ∈ data.deletedRows ∧ p ∈ inlinedDeletes) := by
  have hfile : data.deletedRows.count p = if p ∈ data.deletedRows then 1 else 0 :=
    List.Nodup.count (hdata.sorted.imp Nat.ne_of_lt)
  have hinlined : inlinedDeletes.elems.count p = if p ∈ inlinedDeletes.elems then 1 else 0 :=
    List.Nodup.count (inlinedDeletes.sorted.imp Nat.ne_of_lt)
  rw [h.count, hfile, hinlined, OrdSet.mem_def]
  split <;> split <;> simp [*]

/-- The delete filter hides exactly the deleted rows of a chunk if and only if both sources can be
merged and no delete follows on one that both have. -/
theorem hidesExactly_iff {deleteFile : DuckLakeDeleteData} (hfile : deleteFile.Increasing)
    (inlinedDeletes : OrdSet Nat) (maxRowCount : Option Nat) (snapshotFilter : Option SnapshotId)
    (start count : Nat) :
    HidesExactly deleteFile inlinedDeletes maxRowCount snapshotFilter start count ↔
      MergesSorted deleteFile inlinedDeletes ∧
        NoDeleteAfterRepeat deleteFile inlinedDeletes maxRowCount snapshotFilter start count := by
  by_cases hmerges : MergesSorted deleteFile inlinedDeletes
  · obtain ⟨merged, hinit, hmerged⟩ :=
      initializeInlinedIfAny_merged (f := { deleteData := deleteFile }) hfile hmerges
    have hreader : initializeReader deleteFile inlinedDeletes maxRowCount snapshotFilter =
        some ⟨merged, maxRowCount, snapshotFilter⟩ := by
      simp only [initializeReader, initializeFile, hinit, Option.map_some]
    have hrow : ∀ i, (beforeRepeat Prod.fst
          (merged.entries.dropWhile (·.1 < start))).any (fun entry =>
          entry.1 = start + i && isDeleted snapshotFilter entry) = true ↔
        (∀ p < start + i, start ≤ p → ¬ (p ∈ deleteFile.deletedRows ∧ p ∈ inlinedDeletes)) ∧
          (start + i ∈ inlinedDeletes ∨ deleteFile.hides snapshotFilter (start + i) = true) := by
      intro i
      rw [any_beforeRepeat_dropWhile Prod.fst _ hmerged.sorted (Nat.le_add_right start i),
        hmerged.hides]
      simp only [count_le_one_iff hfile hmerged]
    simp only [HidesExactly, hreader, Option.some.injEq, exists_eq_left', hmerges, true_and,
      rows_filter, filter_range_chunkCount, filter_eq_filter_iff, List.mem_range, lt_chunkCount]
    constructor
    · intro h p hp hpi hstart row hlt hend hmax
      obtain ⟨i, rfl⟩ := Nat.exists_eq_add_of_le (hstart.trans hlt.le)
      have hkept := Bool.not_inj_iff.1 (h i ⟨by omega, hmax⟩)
      -- the cursor is stuck at `p`, so the row is kept
      rw [Bool.eq_false_iff.2 fun hany => ((hrow i).1 hany).1 p hlt hstart ⟨hp, hpi⟩] at hkept
      simpa using hkept.symm
    · intro h i hi
      have hhidden : start + i ∈ inlinedDeletes ∨ deleteFile.hides snapshotFilter (start + i) = true →
          ∀ p < start + i, start ≤ p → ¬ (p ∈ deleteFile.deletedRows ∧ p ∈ inlinedDeletes) := by
        rintro hhides p hlt hstart ⟨hp, hpi⟩
        have hkept := h p hp hpi hstart (start + i) hlt (by omega) hi.2
        rcases hhides with hinlined | hhides
        · exact hkept.1 hinlined
        · rw [hkept.2] at hhides
          cases hhides
      rw [Bool.not_inj_iff, Bool.eq_iff_iff, hrow, Bool.or_eq_true, decide_eq_true_eq]
      exact ⟨And.right, fun hhides => ⟨hhidden hhides, hhides⟩⟩
  · have hnone := initializeInlinedIfAny_eq_none (f := { deleteData := deleteFile }) hmerges
    simp only [HidesExactly, initializeReader, initializeFile, hnone, hmerges, false_and]
    simp

/-- A delete file with two snapshots, and an inlined delete between its rows. -/
theorem hidesExactly_interleaved :
    HidesExactly ⟨[3, 8], [2, 6]⟩ ⟨[5], by simp⟩ (some 9) (some 4) 0 20 :=
  (hidesExactly_iff ⟨by simp, .inr rfl⟩ ⟨[5], by simp⟩ (some 9) (some 4) 0 20).2
    ⟨mergesSorted_of_length_lt (by decide), fun p hp hpi => absurd hpi <| by
      revert p
      decide⟩

/-- Row 5 is deleted twice, and the delete of row 7 is not applied. -/
theorem not_hidesExactly_overlap :
    ¬ HidesExactly ⟨[5, 7], []⟩ ⟨[5], by simp⟩ none none 0 10 := by
  have hreader : initializeReader ⟨[5, 7], []⟩ ⟨[5], by simp⟩ none none =
      some ⟨⟨[5, 5, 7], []⟩, none, none⟩ := by
    have hmid : midIdx [5, 7] = 2 := Int.bmod_eq_of_le_mul_two (by decide) (by decide)
    simp [initializeReader, initializeFile, initializeInlinedIfAny, initializeInlined, inplaceMerge,
      hmid]
  rintro ⟨f, hf, hrows⟩
  rw [hreader] at hf
  cases hf
  exact absurd hrows (by decide)

end DuckLakeDeleteFilter

end DuckLake
