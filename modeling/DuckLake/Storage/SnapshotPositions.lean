import DuckLake.Storage.Delete

/-!
# Positions with snapshots

A set of deletion positions is ordered by the positions alone: a position that is inserted a second
time keeps the snapshot it has. What such a set says of a position is `snapshotOf`, and merging is
described by it.
-/

namespace DuckLake

/-- The order of the set, which holds each position once. -/
def SortedPositions (entries : List PositionWithSnapshot) : Prop :=
  entries.Pairwise fun a b => a.position < b.position

/-- The snapshot of the first entry for a position. -/
def snapshotOf (entries : List PositionWithSnapshot) (position : Nat) : Option SnapshotId :=
  (entries.find? (·.position = position)).map (·.snapshotId)

@[simp] theorem snapshotOf_nil {position : Nat} : snapshotOf [] position = none := rfl

theorem snapshotOf_cons {entry : PositionWithSnapshot} {entries : List PositionWithSnapshot}
    {position : Nat} : snapshotOf (entry :: entries) position =
      if entry.position = position then some entry.snapshotId else snapshotOf entries position := by
  unfold snapshotOf
  rw [List.find?_cons]
  by_cases h : entry.position = position <;> simp [h]

theorem snapshotOf_append {entries entries' : List PositionWithSnapshot} {position : Nat} :
    snapshotOf (entries ++ entries') position =
      (snapshotOf entries position).or (snapshotOf entries' position) := by
  induction entries with
  | nil => rfl
  | cons entry entries ih =>
    rw [List.cons_append, snapshotOf_cons, snapshotOf_cons]
    split
    · rfl
    · exact ih

theorem exists_mem_of_snapshotOf {entries : List PositionWithSnapshot} {position : Nat}
    {snapshotId : SnapshotId} (h : snapshotOf entries position = some snapshotId) :
    ⟨position, snapshotId⟩ ∈ entries := by
  obtain ⟨entry, hfind, rfl⟩ := Option.map_eq_some_iff.1 h
  obtain rfl : entry.position = position := by simpa using List.find?_some hfind
  exact List.mem_of_find?_eq_some hfind

theorem snapshotOf_eq_none {entries : List PositionWithSnapshot} {position : Nat} :
    snapshotOf entries position = none ↔ ∀ entry ∈ entries, entry.position ≠ position := by
  simp [snapshotOf]

namespace SortedPositions

variable {entries result : List PositionWithSnapshot} {new : PositionWithSnapshot} {position : Nat}

theorem mem_iff (h : SortedPositions entries) {entry : PositionWithSnapshot} :
    entry ∈ entries ↔ snapshotOf entries entry.position = some entry.snapshotId := by
  refine ⟨fun hmem => ?_, exists_mem_of_snapshotOf⟩
  induction entries with
  | nil => cases hmem
  | cons first entries ih =>
    obtain ⟨hfirst, hrest⟩ := List.pairwise_cons.1 h
    rw [snapshotOf_cons]
    rcases List.mem_cons.1 hmem with rfl | hmem
    · exact if_pos rfl
    · rw [if_neg (Nat.ne_of_lt (hfirst _ hmem))]
      exact ih hrest hmem

/-- A set is given by what it says of each position. -/
theorem ext (h : SortedPositions entries) (h' : SortedPositions result)
    (heq : ∀ position, snapshotOf entries position = snapshotOf result position) :
    entries = result := by
  have hmem : ∀ entry, entry ∈ entries ↔ entry ∈ result := by
    intro entry
    rw [h.mem_iff, h'.mem_iff, heq]
  have hne : ∀ {l : List PositionWithSnapshot}, SortedPositions l → l.Nodup := fun hl =>
    hl.imp fun hlt heq => absurd (congrArg (·.position) heq) (Nat.ne_of_lt hlt)
  have hanti : ∀ a b : PositionWithSnapshot, a ∈ entries → b ∈ result →
      a.position < b.position → b.position < a.position → a = b :=
    fun _ _ _ _ hab hba => absurd (hab.trans hba) (lt_irrefl _)
  exact List.Perm.eq_of_pairwise hanti h h' ((List.perm_ext_iff_of_nodup (hne h) (hne h')).2 hmem)

theorem filter (h : SortedPositions entries) (p : PositionWithSnapshot → Bool) :
    SortedPositions (entries.filter p) :=
  List.Pairwise.filter p h

theorem snapshotOf_filter (h : SortedPositions entries) (p : SnapshotId → Bool) :
    snapshotOf (entries.filter fun entry => p entry.snapshotId) position =
      (snapshotOf entries position).filter p := by
  ext snapshotId
  have hfilter : ⟨position, snapshotId⟩ ∈ entries.filter (fun entry => p entry.snapshotId) ↔
      snapshotOf (entries.filter fun entry => p entry.snapshotId) position = some snapshotId :=
    (h.filter _).mem_iff
  rw [← hfilter, List.mem_filter, h.mem_iff, Option.filter_eq_some_iff]

theorem insertPosition (h : SortedPositions entries) :
    SortedPositions (insertPosition new entries) := by
  induction entries with
  | nil => exact List.pairwise_singleton _ _
  | cons first entries ih =>
    obtain ⟨hfirst, hrest⟩ := List.pairwise_cons.1 h
    simp only [DuckLake.insertPosition]
    split
    next hlt =>
      refine List.pairwise_cons.2 ⟨fun entry hentry => ?_, h⟩
      rcases List.mem_cons.1 hentry with rfl | hentry
      · exact hlt
      · exact hlt.trans (hfirst _ hentry)
    next =>
      split
      next hlt =>
        refine List.pairwise_cons.2 ⟨fun entry hentry => ?_, ih hrest⟩
        rcases mem_insertPosition hentry with rfl | hentry
        · exact hlt
        · exact hfirst _ hentry
      next => exact h

theorem snapshotOf_insertPosition (h : SortedPositions entries) :
    snapshotOf (DuckLake.insertPosition new entries) position =
      (snapshotOf entries position).or (snapshotOf [new] position) := by
  induction entries with
  | nil => rfl
  | cons first entries ih =>
    obtain ⟨hfirst, hrest⟩ := List.pairwise_cons.1 h
    simp only [DuckLake.insertPosition]
    split
    next hlt =>
      -- nothing in the set has the new position
      have hnone : new.position = position → snapshotOf (first :: entries) position = none := by
        rintro rfl
        refine snapshotOf_eq_none.2 fun entry hentry => ?_
        rcases List.mem_cons.1 hentry with rfl | hentry
        · exact Nat.ne_of_gt hlt
        · exact Nat.ne_of_gt (hlt.trans (hfirst _ hentry))
      rw [snapshotOf_cons, @snapshotOf_cons new]
      split
      next heq => rw [hnone heq]; rfl
      next => simp
    next =>
      split
      next hlt =>
        rw [snapshotOf_cons, @snapshotOf_cons first]
        split
        · rfl
        · exact ih hrest
      next hle hge =>
        have heq : new.position = first.position := by omega
        rw [snapshotOf_cons, @snapshotOf_cons new, heq]
        split
        · rfl
        · simp

theorem mergeDeletesWithSnapshots (h : SortedPositions result) :
    SortedPositions (mergeDeletesWithSnapshots entries result) := by
  induction entries generalizing result with
  | nil => exact h
  | cons entry entries ih => exact ih h.insertPosition

/-- What is in the set already stays, and of what is merged the first entry for a position counts. -/
theorem snapshotOf_mergeDeletesWithSnapshots (h : SortedPositions result) :
    snapshotOf (DuckLake.mergeDeletesWithSnapshots entries result) position =
      (snapshotOf result position).or (snapshotOf entries position) := by
  induction entries generalizing result with
  | nil => simp [DuckLake.mergeDeletesWithSnapshots]
  | cons entry entries ih =>
    have hstep : DuckLake.mergeDeletesWithSnapshots (entry :: entries) result =
        DuckLake.mergeDeletesWithSnapshots entries (DuckLake.insertPosition entry result) := rfl
    have happend : snapshotOf (entry :: entries) position =
        (snapshotOf [entry] position).or (snapshotOf entries position) :=
      @snapshotOf_append [entry] entries position
    rw [hstep, ih h.insertPosition, h.snapshotOf_insertPosition, happend, Option.or_assoc]

end SortedPositions

end DuckLake
