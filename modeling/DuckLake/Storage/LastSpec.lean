import Mathlib.Algebra.Order.Ring.Nat
import DuckLake.Storage.NewTableInfo
import DuckLake.Storage.SpecKeys

/-!
# The last specification of a transaction

A transaction may set, reset and set again the partitioning and the sort order of a table, rename
columns in between and write files under each of the specifications. The walk over the versions of
the table publishes a specification for some of them. This module says which ones, and when what
is live after the commit is the last one that was requested.
-/

namespace DuckLake

/-! ## What a version requests -/

def DuckLakePartition.keyFields (data : DuckLakePartition) : List DuckLakePartitionFieldInfo :=
  data.fields.map fun field => ⟨field.partitionKeyIndex, field.fieldId, field.transform.toText⟩

/-- The id that data files carry which are written under this partitioning. -/
def DuckLakePartition.fileId (data : DuckLakePartition) : Idx :=
  data.localPartitionId.getD data.partitionId

namespace DuckLakeTableEntry

/-- The partitioning that a version asks for: an ALTER also asks for none, a CREATE does not. -/
def partitionRequests (table : DuckLakeTableEntry) : List (Option DuckLakePartition) :=
  match table.localChange with
  | .setPartitionKey => [table.partitionData]
  | .created => table.partitionData.toList.map some
  | _ => []

/-- The sort order that a version publishes. The definition of a renamed column is only written if
no later version alters the column again, and the sort order is only written together with it. -/
def sortRequests (table : DuckLakeTableEntry) (later : List DuckLakeTableEntry) :
    List (Option DuckLakeSort) :=
  match table.localChange with
  | .setSortKey => [table.sortData]
  | .created => table.sortData.toList.map some
  | .renameColumn field =>
    if later.all (·.localChange.alteredField? ≠ some field) then table.sortData.toList.map some
    else []
  | _ => []

end DuckLakeTableEntry

/-- The requests of the versions of a table, the first one written first. -/
def partitionRequests (versions : List DuckLakeTableEntry) : List (Option DuckLakePartition) :=
  versions.flatMap (·.partitionRequests)

/-- The sort orders that versions publish, given the versions that come after them. -/
def sortRequests (later : List DuckLakeTableEntry) :
    List DuckLakeTableEntry → List (Option DuckLakeSort)
  | [] => []
  | table :: rest => table.sortRequests (rest ++ later) ++ sortRequests later rest

theorem sortRequests_concat (done : List DuckLakeTableEntry) (table : DuckLakeTableEntry)
    (later : List DuckLakeTableEntry) :
    sortRequests later (done ++ [table]) =
      sortRequests (table :: later) done ++ table.sortRequests later := by
  induction done with
  | nil => simp [sortRequests]
  | cons first done ih => simp [sortRequests, ih]

/-! ## The keys of the walk -/

/-- The ids that a walk has given out: different ones, between the counter at its start and the
counter now. -/
structure NewIds (first next : Idx) (ids : List Idx) : Prop where
  distinct : ids.Nodup
  range : ∀ id ∈ ids, first.toNat ≤ id.toNat ∧ id.toNat < next.toNat

/-- The counter has not gone over, and has given out at most `n` ids. -/
structure Counted (first next : Idx) (n : Nat) : Prop where
  le : first.toNat ≤ next.toNat
  bound : next.toNat ≤ first.toNat + n

theorem Counted.mono {first next : Idx} {n m : Nat} (h : Counted first next n) (hle : n ≤ m) :
    Counted first next m :=
  ⟨h.le, h.bound.trans (Nat.add_le_add_left hle _)⟩

theorem Counted.toNat_succ {first next : Idx} {n : Nat} (h : Counted first next n)
    (hroom : first.toNat + n + 1 < 2 ^ 64) : (next + 1).toNat = next.toNat + 1 := by
  have hbound := h.bound
  rw [UInt64.toNat_add]
  exact Nat.mod_eq_of_lt (by simp; omega)

theorem Counted.succ {first next : Idx} {n : Nat} (h : Counted first next n)
    (hroom : first.toNat + n + 1 < 2 ^ 64) : Counted first (next + 1) (n + 1) := by
  have hnext := h.toNat_succ hroom
  have hle := h.le
  have hbound := h.bound
  exact ⟨by omega, by omega⟩

namespace NewIds

variable {first next : Idx} {ids : List Idx} {n : Nat}

theorem succ (h : NewIds first next ids) (hcount : Counted first next n)
    (hroom : first.toNat + n + 1 < 2 ^ 64) : NewIds first (next + 1) ids := by
  refine ⟨h.distinct, fun id hid => ?_⟩
  have hrange := h.range id hid
  have hnext := hcount.toNat_succ hroom
  omega

theorem push (h : NewIds first next ids) (hcount : Counted first next n)
    (hroom : first.toNat + n + 1 < 2 ^ 64) : NewIds first (next + 1) (ids ++ [next]) := by
  have hnext := hcount.toNat_succ hroom
  have hle := hcount.le
  constructor
  · refine List.nodup_append.2 ⟨h.distinct, List.nodup_singleton _, ?_⟩
    intro a ha b hb
    rw [List.mem_singleton.1 hb]
    rintro rfl
    exact absurd (h.range a ha).2 (lt_irrefl _)
  · intro id hid
    rcases List.mem_append.1 hid with hid | hid
    · have hrange := h.range id hid
      omega
    · rw [List.mem_singleton.1 hid]
      omega

end NewIds

/-- The specifications that a walk has published, with the ids they were given. -/
structure Published where
  partitions : List (Option (DuckLakePartition × Idx)) := []
  sorts : List (Option (DuckLakeSort × Idx)) := []

def partitionKey (t : TableIndex) : Option (DuckLakePartition × Idx) → DuckLakePartitionInfo
  | none => { tableId := t }
  | some (data, id) => { id := some id, tableId := t, fields := data.keyFields }

def sortKey (t : TableIndex) : Option (DuckLakeSort × Idx) → DuckLakeSortInfo
  | none => { tableId := t }
  | some (data, id) => { id := some id, tableId := t, fields := data.fields }

namespace Published

def partitionIds (p : Published) : List Idx := p.partitions.filterMap (·.map (·.2))

def sortIds (p : Published) : List Idx := p.sorts.filterMap (·.map (·.2))

/-- The ids under which data files know the partitionings, with the ids that replace them. -/
def remaps (p : Published) : List (Idx × Idx) :=
  (p.partitions.filterMap (·.map fun q => (q.1.fileId, q.2))).reverse

def pushPartition (p : Published) (r : Option (DuckLakePartition × Idx)) : Published :=
  { p with partitions := p.partitions ++ [r] }

def pushSort (p : Published) (r : Option (DuckLakeSort × Idx)) : Published :=
  { p with sorts := p.sorts ++ [r] }

/-- These are the requests that have been published. -/
structure Answers (p : Published) (partitions : List (Option DuckLakePartition))
    (sorts : List (Option DuckLakeSort)) : Prop where
  partitions : p.partitions.map (·.map (·.1)) = partitions
  sorts : p.sorts.map (·.map (·.1)) = sorts

end Published

section Walk

variable [SQLWriter]

open CommitM Attempt

/-- What a walk over the versions of the table `x` knows: where it started, and how many ids it
may give out. -/
structure WalkStart where
  x : TableIndex
  first : Idx
  remaps : List (Idx × Idx)
  partitionKeys : List DuckLakePartitionInfo
  sortKeys : List DuckLakeSortInfo
  room : Nat
  fits : first.toNat + room < 2 ^ 64

/-- What has been published so far, in the keys and in the commit state. -/
structure WalkKeys (start : WalkStart) (n : Nat) (p : Published)
    (partitionKeys : List DuckLakePartitionInfo) (sortKeys : List DuckLakeSortInfo)
    (state : DuckLakeCommitState) (next : Idx) : Prop where
  partitions : partitionKeys = start.partitionKeys ++
    p.partitions.map (partitionKey (state.getTableId start.x))
  sorts : sortKeys = start.sortKeys ++ p.sorts.map (sortKey (state.getTableId start.x))
  remaps : state.committedPartitionIds = p.remaps ++ start.remaps
  committed : p.partitions ≠ [] ∨ p.sorts ≠ [] →
    isTransactionLocal (state.getTableId start.x) = false
  counted : Counted start.first next n
  partitionIds : NewIds start.first next p.partitionIds
  sortIds : NewIds start.first next p.sortIds

/-- The same at a point of the attempt. -/
def WalkKeys.At (start : WalkStart) (n : Nat) (p : Published)
    (partitionKeys : List DuckLakePartitionInfo) (sortKeys : List DuckLakeSortInfo)
    (s : CommitAttempt) : Prop :=
  WalkKeys start n p partitionKeys sortKeys s.commitState s.commitSnapshot.nextCatalogId

variable {start : WalkStart} {n : Nat} {p : Published}
  {pk : List DuckLakePartitionInfo} {sk : List DuckLakeSortInfo}

omit [SQLWriter] in
theorem WalkKeys.mono {state : DuckLakeCommitState} {next : Idx} {m : Nat}
    (h : WalkKeys start n p pk sk state next) (hle : n ≤ m) :
    WalkKeys start m p pk sk state next :=
  { h with counted := h.counted.mono hle }

theorem ensure_yields {P : CommitAttempt → Prop} {cond : Bool} {message : Text} :
    Yields P (ensure cond message) fun _ s => P s ∧ cond = true := by
  refine Yields.ofExcept fun s a hs hr => ?_
  cases cond with
  | true => exact ⟨hs, rfl⟩
  | false => cases hr

theorem getTableId_yields {P : CommitAttempt → Prop} (id : TableIndex) :
    Yields P (getTableId id) fun t s => P s ∧ t = s.commitState.getTableId id := by
  intro s hs t s' hrun
  cases hrun
  exact ⟨hs, rfl⟩

theorem getNewPartitionKey_yields {table : DuckLakeTableEntry} (hx : table.tableId = start.x)
    (hroom : n < start.room) (address : EntryAddress) :
    Yields (WalkKeys.At start n p pk sk) (getNewPartitionKey address table) fun key s =>
      ∃ r, r.map (·.1) = table.partitionData ∧
        WalkKeys.At start (n + 1) (p.pushPartition r) (pk ++ [key]) sk s := by
  have hfits := start.fits
  unfold getNewPartitionKey
  refine (getTableId_yields _).bind fun t => ?_
  refine ensure_yields.bind fun _ => ?_
  cases hdata : table.partitionData with
  | none =>
    refine .pure fun s hs => ⟨none, rfl, ?_⟩
    obtain ⟨⟨h, rfl⟩, hlocal⟩ := hs
    rw [hx] at hlocal ⊢
    exact {
      partitions := by
        simp [Published.pushPartition, h.partitions, partitionKey]
      sorts := h.sorts
      remaps := by simpa [Published.pushPartition, Published.remaps] using h.remaps
      committed := fun _ => by simpa using hlocal
      counted := h.counted.mono (Nat.le_succ n)
      partitionIds := by
        simpa [Published.pushPartition, Published.partitionIds] using h.partitionIds
      sortIds := h.sortIds }
  | some data =>
    intro s hs key s' hrun
    cases hrun
    obtain ⟨⟨h, rfl⟩, hlocal⟩ := hs
    rw [hx] at hlocal ⊢
    have hcount := h.counted
    refine ⟨some (data, s.commitSnapshot.nextCatalogId), rfl, ?_⟩
    exact {
      partitions := by
        simp [Published.pushPartition, h.partitions, partitionKey, DuckLakePartition.keyFields,
          DuckLakeCommitState.getTableId]
      sorts := h.sorts
      remaps := by
        simp [Published.pushPartition, Published.remaps, h.remaps, DuckLakePartition.fileId]
      committed := fun _ => by simpa [DuckLakeCommitState.getTableId] using hlocal
      counted := hcount.succ (by omega)
      partitionIds := by
        simpa [Published.pushPartition, Published.partitionIds] using
          h.partitionIds.push hcount (by omega)
      sortIds := h.sortIds.succ hcount (by omega) }

theorem getNewSortKey_yields {table : DuckLakeTableEntry} (hx : table.tableId = start.x)
    (hroom : n < start.room) (address : EntryAddress) :
    Yields (WalkKeys.At start n p pk sk) (getNewSortKey address table) fun key s =>
      ∃ r, r.map (·.1) = table.sortData ∧
        WalkKeys.At start (n + 1) (p.pushSort r) pk (sk ++ [key]) s := by
  have hfits := start.fits
  unfold getNewSortKey
  refine (getTableId_yields _).bind fun t => ?_
  refine ensure_yields.bind fun _ => ?_
  cases hdata : table.sortData with
  | none =>
    refine .pure fun s hs => ⟨none, rfl, ?_⟩
    obtain ⟨⟨h, rfl⟩, hlocal⟩ := hs
    rw [hx] at hlocal ⊢
    exact {
      partitions := h.partitions
      sorts := by simp [Published.pushSort, h.sorts, sortKey]
      remaps := h.remaps
      committed := fun _ => by simpa using hlocal
      counted := h.counted.mono (Nat.le_succ n)
      partitionIds := h.partitionIds
      sortIds := by simpa [Published.pushSort, Published.sortIds] using h.sortIds }
  | some data =>
    intro s hs key s' hrun
    cases hrun
    obtain ⟨⟨h, rfl⟩, hlocal⟩ := hs
    rw [hx] at hlocal ⊢
    have hcount := h.counted
    refine ⟨some (data, s.commitSnapshot.nextCatalogId), rfl, ?_⟩
    exact {
      partitions := h.partitions
      sorts := by simp [Published.pushSort, h.sorts, sortKey]
      remaps := h.remaps
      committed := fun _ => by simpa using hlocal
      counted := hcount.succ (by omega)
      partitionIds := h.partitionIds.succ hcount (by omega)
      sortIds := by
        simpa [Published.pushSort, Published.sortIds] using h.sortIds.push hcount (by omega) }

/-- The state of a walk that has published these requests, with at most `n` ids. -/
def Walked (start : WalkStart) (n : Nat) (partitions : List (Option DuckLakePartition))
    (sorts : List (Option DuckLakeSort)) (pk : List DuckLakePartitionInfo)
    (sk : List DuckLakeSortInfo) (s : CommitAttempt) : Prop :=
  ∃ p : Published, p.Answers partitions sorts ∧ WalkKeys.At start n p pk sk s

variable {ps : List (Option DuckLakePartition)} {ss : List (Option DuckLakeSort)}
  {table latest : DuckLakeTableEntry}

theorem Walked.mono {s : CommitAttempt} {m : Nat} (h : Walked start n ps ss pk sk s)
    (hle : n ≤ m) : Walked start m ps ss pk sk s := by
  obtain ⟨p, hp, h⟩ := h
  exact ⟨p, hp, h.mono hle⟩

theorem getNewPartitionKey_walked (hx : table.tableId = start.x) (hroom : n < start.room)
    (address : EntryAddress) :
    Yields (Walked start n ps ss pk sk) (getNewPartitionKey address table) fun key =>
      Walked start (n + 1) (ps ++ [table.partitionData]) ss (pk ++ [key]) sk := by
  rintro s ⟨p, hp, h⟩ key t hrun
  obtain ⟨r, hr, ht⟩ := getNewPartitionKey_yields hx hroom address s h key t hrun
  refine ⟨p.pushPartition r, ⟨?_, hp.sorts⟩, ht⟩
  simp only [Published.pushPartition, List.map_append, hp.partitions, List.map_cons, hr,
    List.map_nil]

theorem getNewSortKey_walked (hx : table.tableId = start.x) (hroom : n < start.room)
    (address : EntryAddress) :
    Yields (Walked start n ps ss pk sk) (getNewSortKey address table) fun key =>
      Walked start (n + 1) ps (ss ++ [table.sortData]) pk (sk ++ [key]) := by
  rintro s ⟨p, hp, h⟩ key t hrun
  obtain ⟨r, hr, ht⟩ := getNewSortKey_yields hx hroom address s h key t hrun
  refine ⟨p.pushSort r, ⟨hp.partitions, ?_⟩, ht⟩
  simp only [Published.pushSort, List.map_append, hp.sorts, List.map_cons, hr, List.map_nil]

theorem partitionKeys_walked (hx : table.tableId = start.x) (hroom : n < start.room)
    (address : EntryAddress) :
    Yields (Walked start n ps ss pk sk) (partitionKeys address table) fun keys =>
      Walked start (n + 1) (ps ++ table.partitionData.toList.map some) ss (pk ++ keys) sk := by
  unfold partitionKeys
  cases hdata : table.partitionData with
  | none => exact .pure fun s hs => by simpa using hs.mono (Nat.le_succ n)
  | some data =>
    refine (getNewPartitionKey_walked hx hroom address).bind fun key => .pure fun s hs => ?_
    simpa [hdata] using hs

theorem sortKeys_walked (hx : table.tableId = start.x) (hroom : n < start.room)
    (address : EntryAddress) :
    Yields (Walked start n ps ss pk sk) (sortKeys address table) fun keys =>
      Walked start (n + 1) ps (ss ++ table.sortData.toList.map some) pk (sk ++ keys) := by
  unfold sortKeys
  cases hdata : table.sortData with
  | none => exact .pure fun s hs => by simpa using hs.mono (Nat.le_succ n)
  | some data =>
    refine (getNewSortKey_walked hx hroom address).bind fun key => .pure fun s hs => ?_
    simpa [hdata] using hs

theorem nextCatalogId_walked (hroom : n < start.room) :
    Yields (Walked start n ps ss pk sk) nextCatalogId fun _ =>
      Walked start (n + 1) ps ss pk sk := by
  have hfits := start.fits
  refine .modifyGet fun s hs => ?_
  obtain ⟨p, hp, h⟩ := hs
  have hcount := h.counted
  exact ⟨p, hp, { h with
    counted := hcount.succ (by omega)
    partitionIds := h.partitionIds.succ hcount (by omega)
    sortIds := h.sortIds.succ hcount (by omega) }⟩

theorem allocateTableId_walked (hroom : n < start.room) (old : TableIndex) :
    Yields (Walked start n ps ss pk sk) (allocateTableId old) fun _ =>
      Walked start (n + 1) ps ss pk sk := by
  unfold allocateTableId
  split
  · exact (nextCatalogId_walked hroom).bind fun new => .pure fun s hs => hs
  · exact .pure fun s hs => hs.mono (Nat.le_succ n)

/-- A new row of the table does not change the id under which keys were published. -/
theorem emplaceTable_walked {new : TableIndex}
    (hnew : isTransactionLocal start.x = false → new = start.x) :
    Yields (Walked start n ps ss pk sk) (emplaceTable start.x new hnew) fun _ =>
      Walked start n ps ss pk sk := by
  refine .modify fun s hs => ?_
  obtain ⟨p, hp, h⟩ := hs
  have hlookup : ∀ l : List (TableIndex × TableIndex),
      ((l ++ [(start.x, new)]).lookup start.x).getD start.x =
        if l.lookup start.x = none then new else (l.lookup start.x).getD start.x := by
    intro l
    rw [List.lookup_append]
    cases l.lookup start.x with
    | none => simp
    | some id => simp
  -- either the table has its row already, or it was committed before, or there is no key yet
  by_cases hsame : ((s.commitState.committedTables ++ [(start.x, new)]).lookup start.x).getD
      start.x = s.commitState.getTableId start.x
  · refine ⟨p, hp, ?_⟩
    exact {
      partitions := by
        rw [h.partitions]
        simp only [DuckLakeCommitState.getTableId] at hsame ⊢
        rw [hsame]
      sorts := by
        rw [h.sorts]
        simp only [DuckLakeCommitState.getTableId] at hsame ⊢
        rw [hsame]
      remaps := h.remaps
      committed := fun hne => by
        have hlocal := h.committed hne
        simp only [DuckLakeCommitState.getTableId] at hsame hlocal ⊢
        rwa [hsame]
      counted := h.counted
      partitionIds := h.partitionIds
      sortIds := h.sortIds }
  · have hnone : s.commitState.committedTables.lookup start.x = none := by
      by_contra hsome
      exact hsame ((hlookup _).trans (if_neg hsome))
    have hlocal : isTransactionLocal start.x = true := by
      by_contra hcommitted
      refine hsame ((hlookup _).trans ?_)
      rw [if_pos hnone, DuckLakeCommitState.getTableId, hnone, Option.getD_none]
      exact hnew (by simpa using hcommitted)
    have hempty : p.partitions = [] ∧ p.sorts = [] := by
      by_contra hne
      have hne : p.partitions ≠ [] ∨ p.sorts ≠ [] := by tauto
      have hcommitted := h.committed hne
      rw [DuckLakeCommitState.getTableId, hnone, Option.getD_none, hlocal] at hcommitted
      cases hcommitted
    obtain ⟨hpart, hsort⟩ := hempty
    refine ⟨p, hp, ?_⟩
    exact {
      partitions := by rw [h.partitions, hpart]; rfl
      sorts := by rw [h.sorts, hsort]; rfl
      remaps := h.remaps
      committed := fun hne => absurd hne (by simp [hpart, hsort])
      counted := h.counted
      partitionIds := h.partitionIds
      sortIds := h.sortIds }

/-- The keys in the rows that a walk has collected. -/
def WalkedRows (start : WalkStart) (n : Nat) (ps : List (Option DuckLakePartition))
    (ss : List (Option DuckLakeSort)) (result : NewTableInfo) : CommitAttempt → Prop :=
  Walked start n ps ss result.newPartitionKeys result.newSortKeys

theorem createdTableKeys_walked {result : NewTableInfo} (hpk : result.newPartitionKeys = pk)
    (hsk : result.newSortKeys = sk) (hx : table.tableId = start.x)
    (hroom : n + 1 < start.room) (address : EntryAddress) (id : TableIndex) (created : Bool) :
    Yields (Walked start n ps ss pk sk)
      (createdTableKeys address latest table id created result) fun result =>
      WalkedRows start (n + 2)
        (ps ++ if created then table.partitionData.toList.map some else [])
        (ss ++ if created then table.sortData.toList.map some else []) result := by
  subst hpk hsk
  unfold createdTableKeys
  cases created with
  | false => exact .pure fun s hs => by simpa [WalkedRows] using hs.mono (Nat.le_add_right n 2)
  | true =>
    refine (partitionKeys_walked hx (by omega) address).bind fun pkeys => ?_
    exact (sortKeys_walked hx hroom address).bind fun skeys => .pure fun s hs => hs

theorem getNewTable_walked (id : TableIndex) :
    Yields (Walked start n ps ss pk sk) (getNewTable table id) fun _ =>
      Walked start n ps ss pk sk := by
  intro s hs info t hrun
  cases hrun
  exact hs

theorem emitNewTable_walked {walk : TableWalk} (hx : table.tableId = start.x)
    (hroom : n + 2 < start.room) (address : EntryAddress) :
    Yields (WalkedRows start n ps ss walk.result) (emitNewTable address latest table walk)
      fun walk' s => walk'.fieldAlterRemaining = walk.fieldAlterRemaining ∧
        WalkedRows start (n + 3)
          (ps ++ if table.localChange = .created then table.partitionData.toList.map some else [])
          (ss ++ if table.localChange = .created then table.sortData.toList.map some else [])
          walk'.result s := by
  unfold emitNewTable
  refine (allocateTableId_walked (by omega) _).bind fun newId => ?_
  refine (getNewTable_walked newId.1).bind fun info => ?_
  have hemplace : Yields (Walked start (n + 1) ps ss walk.result.newPartitionKeys
      walk.result.newSortKeys) (emplaceTable table.tableId newId.1 newId.2) fun _ =>
        Walked start (n + 1) ps ss walk.result.newPartitionKeys walk.result.newSortKeys := by
    obtain ⟨new, hnew⟩ := newId
    revert hnew
    rw [hx]
    exact fun hnew => emplaceTable_walked hnew
  refine hemplace.bind fun _ => ?_
  dsimp only
  refine .bind (createdTableKeys_walked ?_ ?_ hx (by omega) address newId.1 _) fun result => ?_
  · rfl
  · rfl
  · exact .pure fun s hs => ⟨rfl, by simpa using hs⟩

/-! ### Steps without keys -/

omit [SQLWriter] in
theorem cancelOrDropField_keys (t : TableIndex) (field : FieldIndex) (result : NewTableInfo)
    (added : TxnAddedFields) :
    (cancelOrDropField t field result added).1.newPartitionKeys = result.newPartitionKeys ∧
      (cancelOrDropField t field result added).1.newSortKeys = result.newSortKeys := by
  unfold cancelOrDropField
  split <;> exact ⟨rfl, rfl⟩

omit [SQLWriter] in
/-- A fold keeps what each of its steps keeps. -/
theorem foldl_keeps {α β γ : Type} (f : α → β) (l : List γ) (step : α → γ → α)
    (hstep : ∀ a c, f (step a c) = f a) (a : α) : f (l.foldl step a) = f a := by
  induction l generalizing a with
  | nil => rfl
  | cons c l ih => exact (ih (step a c)).trans (hstep a c)

omit [SQLWriter] in
theorem handleChangedFields_keys (t : TableIndex) (change : ColumnChangeInfo)
    (result : NewTableInfo) (added : TxnAddedFields) :
    (handleChangedFields t change result added).1.newPartitionKeys = result.newPartitionKeys ∧
      (handleChangedFields t change result added).1.newSortKeys = result.newSortKeys := by
  let keys (acc : NewTableInfo × TxnAddedFields) := (acc.1.newPartitionKeys, acc.1.newSortKeys)
  have hdropped := foldl_keeps keys change.droppedFields
    (fun acc field => cancelOrDropField t field acc.1 acc.2)
    (fun acc field => Prod.ext_iff.2 (cancelOrDropField_keys t field acc.1 acc.2)) (result, added)
  have hextended := foldl_keeps keys change.newFields
    (fun acc new => pushNewColumn ⟨t, new.1, new.2⟩ acc.1 acc.2) (fun _ _ => rfl)
    (change.droppedFields.foldl (fun acc field => cancelOrDropField t field acc.1 acc.2)
      (result, added))
  exact Prod.ext_iff.1 (hextended.trans hdropped)

/-- The step publishes nothing and alters no field. -/
def Silent (walk : TableWalk) (m : CommitM TableWalk) : Prop :=
  ∀ start n ps ss, Yields (WalkedRows start n ps ss walk.result) m fun walk' s =>
    walk'.fieldAlterRemaining = walk.fieldAlterRemaining ∧
      WalkedRows start n ps ss walk'.result s

theorem setTableComment_silent (walk : TableWalk) : Silent walk (setTableComment table walk) := by
  intro start n ps ss
  unfold setTableComment
  dsimp only
  split
  · exact .pure fun s hs => ⟨rfl, hs⟩
  · intro s hs walk' t hrun
    cases hrun
    exact ⟨rfl, hs⟩

theorem setColumnComment_silent (field : FieldIndex) (walk : TableWalk) :
    Silent walk (setColumnComment table field walk) := by
  intro start n ps ss
  unfold setColumnComment
  dsimp only
  split
  · exact .pure fun s hs => ⟨rfl, hs⟩
  · refine (getTableId_yields _).bind fun id => ?_
    refine .bind (.ofExcept fun s a hs _ => hs) fun column => ?_
    intro s hs walk' t hrun
    cases hrun
    exact ⟨rfl, hs.1⟩

theorem changeFields_silent (walk : TableWalk) : Silent walk (changeFields table walk) := by
  intro start n ps ss s hs walk' t hrun
  cases hrun
  have hkeys := handleChangedFields_keys (s.commitState.getTableId table.tableId)
    table.changedFields walk.result walk.txnAddedFields
  refine ⟨rfl, ?_⟩
  rw [WalkedRows, hkeys.1, hkeys.2]
  exact hs

theorem addColumn_silent (walk : TableWalk) : Silent walk (addColumn table walk) := by
  intro start n ps ss
  unfold addColumn
  refine (getTableId_yields _).bind fun id => ?_
  refine .bind (.ofExcept fun s a hs _ => hs) fun info => ?_
  intro s hs walk' t hrun
  cases hrun
  exact ⟨rfl, hs.1⟩

/-! ### One version -/

/-- Before the versions `later` are walked, their alters are still counted. -/
def Remaining (walk : TableWalk) (later : List DuckLakeTableEntry) : Prop :=
  ∀ field, walk.fieldAlterRemaining field =
    later.countP (·.localChange.alteredField? = some field)

variable {walk : TableWalk} {later : List DuckLakeTableEntry}

omit [SQLWriter] in
theorem Remaining.tail (h : Remaining walk (table :: later)) {walk' : TableWalk}
    (hsame : walk'.fieldAlterRemaining = walk.fieldAlterRemaining)
    (hnone : table.localChange.alteredField? = none) : Remaining walk' later := by
  intro field
  rw [hsame, h field, List.countP_cons, hnone]
  simp

omit [SQLWriter] in
theorem Remaining.count (h : Remaining walk (table :: later)) {field : FieldIndex}
    (hfield : table.localChange.alteredField? = some field) :
    walk.fieldAlterRemaining field - 1 =
      later.countP (·.localChange.alteredField? = some field) := by
  rw [h field, List.countP_cons, hfield]
  simp

omit [SQLWriter] in
/-- One of the alters of the field is walked. -/
theorem Remaining.altered (h : Remaining walk (table :: later)) {field : FieldIndex}
    (hfield : table.localChange.alteredField? = some field) {walk' : TableWalk}
    (hwalk : walk'.fieldAlterRemaining =
      Function.update walk.fieldAlterRemaining field (walk.fieldAlterRemaining field - 1)) :
    Remaining walk' later := by
  intro f
  rw [hwalk]
  by_cases hf : f = field
  · subst hf
    rw [Function.update_self, h.count hfield]
  · rw [Function.update_of_ne hf, h f, List.countP_cons, hfield]
    simp [Ne.symm hf]

theorem newTableRow_walked (hx : table.tableId = start.x) (hroom : n + 2 < start.room)
    (hrow : table.localChange = .none ∨ table.localChange = .created ∨
      table.localChange = .renamed) (address : EntryAddress) :
    Yields (WalkedRows start n ps ss walk.result) (newTableRow address latest table walk)
      fun walk' s => walk'.fieldAlterRemaining = walk.fieldAlterRemaining ∧
        WalkedRows start (n + 3) (ps ++ table.partitionRequests)
          (ss ++ table.sortRequests later) walk'.result s := by
  have hps : table.partitionRequests =
      if table.localChange = .created then table.partitionData.toList.map some else [] := by
    unfold DuckLakeTableEntry.partitionRequests
    rcases hrow with h | h | h <;> simp [h]
  have hss : table.sortRequests later =
      if table.localChange = .created then table.sortData.toList.map some else [] := by
    unfold DuckLakeTableEntry.sortRequests
    rcases hrow with h | h | h <;> simp [h]
  rw [hps, hss]
  unfold newTableRow
  refine .bind (Q := fun _ => WalkedRows start n ps ss walk.result) ?_ fun state => ?_
  · intro s hs state t hrun
    cases hrun
    exact hs
  dsimp only
  split
  · rename_i hrenamed hexisting
    refine .pure fun s hs => ⟨rfl, ?_⟩
    rw [hrenamed]
    simpa [WalkedRows] using Walked.mono hs (Nat.le_add_right n 3)
  · exact emitNewTable_walked hx hroom address

theorem renamedSortKeys_walked (hx : table.tableId = start.x) (hroom : n < start.room)
    (address : EntryAddress) (renamed : Bool) :
    Yields (Walked start n ps ss pk sk) (renamedSortKeys address table renamed) fun keys =>
      Walked start (n + 1) ps (ss ++ if renamed then table.sortData.toList.map some else []) pk
        (sk ++ keys) := by
  unfold renamedSortKeys
  cases renamed with
  | false => exact .pure fun s hs => by simpa using hs.mono (Nat.le_succ n)
  | true => exact sortKeys_walked hx hroom address

omit [SQLWriter] in
/-- What an altered field publishes: the sort order, if it is renamed for the last time. -/
theorem sortRequests_altered {field : FieldIndex}
    (hfield : table.localChange.alteredField? = some field) :
    table.sortRequests later =
      if later.countP (·.localChange.alteredField? = some field) = 0 ∧
        table.localChange = .renameColumn field then table.sortData.toList.map some else [] := by
  have hcount : (later.all fun t => decide (t.localChange.alteredField? ≠ some field)) = true ↔
      later.countP (·.localChange.alteredField? = some field) = 0 := by
    simp [List.countP_eq_zero]
  unfold DuckLakeTableEntry.sortRequests
  cases hchange : table.localChange with
  | renameColumn f =>
    rw [hchange] at hfield
    cases hfield
    simp only [hcount, and_true]
  | setNull _ => simp
  | dropNull _ => simp
  | setDefault _ => simp
  | _ =>
    rw [hchange] at hfield
    cases hfield

theorem alterField_walked (hx : table.tableId = start.x) (hroom : n < start.room)
    {field : FieldIndex} (hfield : table.localChange.alteredField? = some field)
    (hremaining : Remaining walk (table :: later)) (address : EntryAddress) :
    Yields (WalkedRows start n ps ss walk.result) (alterField address table field walk)
      fun walk' s => Remaining walk' later ∧
        WalkedRows start (n + 1) ps (ss ++ table.sortRequests later) walk'.result s := by
  have hcount := hremaining.count hfield
  have hupdate : ∀ walk' : TableWalk, walk'.fieldAlterRemaining =
      Function.update walk.fieldAlterRemaining field (walk.fieldAlterRemaining field - 1) →
      Remaining walk' later := fun _ hwalk => hremaining.altered hfield hwalk
  rw [sortRequests_altered hfield]
  unfold alterField
  dsimp only
  split
  · rename_i hlater
    rw [hcount] at hlater
    refine .pure fun s hs => ⟨hupdate _ rfl, ?_⟩
    rw [if_neg (by omega), List.append_nil]
    exact Walked.mono hs (Nat.le_succ n)
  · rename_i hlast
    rw [hcount] at hlast
    refine (getTableId_yields _).bind fun t => ?_
    refine .bind (.ofExcept fun s a hs _ => hs.1) fun info => ?_
    have hkeys := cancelOrDropField_keys t field walk.result walk.txnAddedFields
    refine .bind (Q := fun _ => WalkedRows start n ps ss walk.result) (.modify fun s hs => hs)
      fun _ => ?_
    refine .bind (Q := fun _ => WalkedRows start n ps ss walk.result) (.modify fun s hs => hs)
      fun _ => ?_
    refine (renamedSortKeys_walked hx hroom address _).bind fun keys => ?_
    refine .pure fun s hs => ⟨hupdate _ rfl, ?_⟩
    rw [WalkedRows]
    simp only [pushNewColumn, hkeys.1, hkeys.2]
    simpa [show later.countP (fun t => decide (t.localChange.alteredField? = some field)) = 0 by
      omega] using hs

/-- One version publishes what it requests. -/
theorem newTableStep_walked {version : DuckLakeTableEntry × EntryAddress}
    (hx : version.1.tableId = start.x) (hroom : n + 2 < start.room)
    (hremaining : Remaining walk (version.1 :: later)) :
    Yields (WalkedRows start n ps ss walk.result) (newTableStep latest walk version)
      fun walk' s => Remaining walk' later ∧
        WalkedRows start (n + 3) (ps ++ version.1.partitionRequests)
          (ss ++ version.1.sortRequests later) walk'.result s := by
  obtain ⟨table, address⟩ := version
  -- a version that publishes nothing
  have hsilent : ∀ m : CommitM TableWalk, Silent walk m →
      table.localChange.alteredField? = none → table.partitionRequests = [] →
      table.sortRequests later = [] →
      Yields (WalkedRows start n ps ss walk.result) m fun walk' s => Remaining walk' later ∧
        WalkedRows start (n + 3) (ps ++ table.partitionRequests)
          (ss ++ table.sortRequests later) walk'.result s := by
    intro m hm hnone hps hss
    refine (hm start n ps ss).mono (fun s hs => hs) fun walk' s hs => ⟨hremaining.tail hs.1 hnone, ?_⟩
    rw [hps, hss, List.append_nil, List.append_nil]
    exact Walked.mono hs.2 (Nat.le_add_right n 3)
  have haltered : ∀ field, table.localChange.alteredField? = some field →
      table.partitionRequests = [] →
      Yields (WalkedRows start n ps ss walk.result) (alterField address table field walk)
        fun walk' s => Remaining walk' later ∧
          WalkedRows start (n + 3) (ps ++ table.partitionRequests)
            (ss ++ table.sortRequests later) walk'.result s := by
    intro field hfield hps
    refine (alterField_walked hx (by omega) hfield hremaining address).mono (fun s hs => hs)
      fun walk' s hs => ⟨hs.1, ?_⟩
    rw [hps, List.append_nil]
    exact Walked.mono hs.2 (by omega)
  have hrow : table.localChange = .none ∨ table.localChange = .created ∨
      table.localChange = .renamed →
      Yields (WalkedRows start n ps ss walk.result) (newTableRow address latest table walk)
        fun walk' s => Remaining walk' later ∧
          WalkedRows start (n + 3) (ps ++ table.partitionRequests)
            (ss ++ table.sortRequests later) walk'.result s := by
    intro h
    refine (newTableRow_walked hx hroom h address).mono (fun s hs => hs)
      fun walk' s hs => ⟨hremaining.tail hs.1 ?_, hs.2⟩
    rcases h with h | h | h <;> rw [h] <;> rfl
  unfold newTableStep
  dsimp only
  cases hchange : table.localChange with
  | none => exact hrow (.inl hchange)
  | created => exact hrow (.inr (.inl hchange))
  | renamed => exact hrow (.inr (.inr hchange))
  | setPartitionKey =>
    refine (getNewPartitionKey_walked hx (by omega) address).bind fun key => ?_
    intro s hs walk' t hrun
    cases hrun
    refine ⟨hremaining.tail rfl (by rw [hchange]; rfl), ?_⟩
    have hps : table.partitionRequests = [table.partitionData] := by
      simp [DuckLakeTableEntry.partitionRequests, hchange]
    have hss : table.sortRequests later = [] := by
      simp [DuckLakeTableEntry.sortRequests, hchange]
    rw [hps, hss, List.append_nil]
    exact Walked.mono hs (by omega)
  | setSortKey =>
    refine (getNewSortKey_walked hx (by omega) address).bind fun key => ?_
    intro s hs walk' t hrun
    cases hrun
    refine ⟨hremaining.tail rfl (by rw [hchange]; rfl), ?_⟩
    have hps : table.partitionRequests = [] := by
      simp [DuckLakeTableEntry.partitionRequests, hchange]
    have hss : table.sortRequests later = [table.sortData] := by
      simp [DuckLakeTableEntry.sortRequests, hchange]
    rw [hps, hss, List.append_nil]
    exact Walked.mono hs (by omega)
  | setNull field =>
    exact haltered field (by rw [hchange]; rfl)
      (by simp [DuckLakeTableEntry.partitionRequests, hchange])
  | dropNull field =>
    exact haltered field (by rw [hchange]; rfl)
      (by simp [DuckLakeTableEntry.partitionRequests, hchange])
  | setDefault field =>
    exact haltered field (by rw [hchange]; rfl)
      (by simp [DuckLakeTableEntry.partitionRequests, hchange])
  | renameColumn field =>
    exact haltered field (by rw [hchange]; rfl)
      (by simp [DuckLakeTableEntry.partitionRequests, hchange])
  | setViewColumnComment name => exact .throw
  | addConstraint =>
    dsimp only
    refine hsilent _ ?_ (by rw [hchange]; rfl)
      (by simp [DuckLakeTableEntry.partitionRequests, hchange])
      (by simp [DuckLakeTableEntry.sortRequests, hchange])
    intro start n ps ss
    split
    · intro s hs walk' t hrun
      cases hrun
      exact ⟨rfl, hs⟩
    · exact .pure fun s hs => ⟨rfl, hs⟩
  | setComment =>
    exact hsilent _ (setTableComment_silent walk) (by rw [hchange]; rfl)
      (by simp [DuckLakeTableEntry.partitionRequests, hchange])
      (by simp [DuckLakeTableEntry.sortRequests, hchange])
  | setColumnComment field =>
    exact hsilent _ (setColumnComment_silent field walk) (by rw [hchange]; rfl)
      (by simp [DuckLakeTableEntry.partitionRequests, hchange])
      (by simp [DuckLakeTableEntry.sortRequests, hchange])
  | addColumn =>
    exact hsilent _ (addColumn_silent walk) (by rw [hchange]; rfl)
      (by simp [DuckLakeTableEntry.partitionRequests, hchange])
      (by simp [DuckLakeTableEntry.sortRequests, hchange])
  | removeColumn field =>
    exact hsilent _ (changeFields_silent walk) (by rw [hchange]; rfl)
      (by simp [DuckLakeTableEntry.partitionRequests, hchange])
      (by simp [DuckLakeTableEntry.sortRequests, hchange])
  | changeColumnType =>
    exact hsilent _ (changeFields_silent walk) (by rw [hchange]; rfl)
      (by simp [DuckLakeTableEntry.partitionRequests, hchange])
      (by simp [DuckLakeTableEntry.sortRequests, hchange])

/-! ### The whole walk -/

omit [SQLWriter] in
theorem partitionRequests_concat (done : List DuckLakeTableEntry) (table : DuckLakeTableEntry) :
    partitionRequests (done ++ [table]) = partitionRequests done ++ table.partitionRequests := by
  simp [partitionRequests]

omit [SQLWriter] in
theorem chainVersions_fst (schema entry : Nat) (tables : List DuckLakeTableEntry) :
    (chainVersions schema entry tables).map (·.1) = tables.reverse := by
  simp [chainVersions, List.map_reverse, Function.comp_def]

/-- The walk over a chain publishes what its versions request. -/
theorem getNewTableInfo_walked {older : List DuckLakeTableEntry} {result : NewTableInfo}
    (hx : ∀ table ∈ latest :: older, table.tableId = start.x)
    (hroom : start.room = 3 * (older.length + 1)) (schema entry : Nat) :
    Yields (WalkedRows start 0 [] [] result) (getNewTableInfo schema entry (latest :: older) result)
      fun result s => WalkedRows start start.room (partitionRequests (latest :: older).reverse)
        (sortRequests [] (latest :: older).reverse) result s := by
  unfold getNewTableInfo
  dsimp only
  have hfst := chainVersions_fst schema entry (latest :: older)
  generalize chainVersions schema entry (latest :: older) = versions at hfst
  have hlength : versions.length = older.length + 1 := by
    simpa using congrArg List.length hfst
  have hmem : ∀ version ∈ versions, version.1.tableId = start.x := by
    intro version hversion
    refine hx version.1 (List.mem_reverse.1 ?_)
    rw [← hfst]
    exact List.mem_map_of_mem hversion
  have hloop : Yields (WalkedRows start 0 [] [] result)
      (versions.foldlM (newTableStep latest) (TableWalk.start (latest :: older) result))
      fun walk s => WalkedRows start start.room (partitionRequests (latest :: older).reverse)
        (sortRequests [] (latest :: older).reverse) walk.result s := by
    -- the versions that are done have published their requests, the others are still counted
    refine (Yields.foldlM (fun done walk s => ∃ rest, versions = done ++ rest ∧
      Remaining walk (rest.map (·.1)) ∧
      WalkedRows start (3 * done.length) (partitionRequests (done.map (·.1)))
        (sortRequests (rest.map (·.1)) (done.map (·.1))) walk.result s) ?_).mono ?_ ?_
    · intro done version rest walk hversions s hs
      obtain ⟨rest', hrest, hremaining, hwalked⟩ := hs
      have hsame : rest' = version :: rest := List.append_cancel_left (hrest.symm.trans hversions)
      subst hsame
      have hversion : version ∈ versions := by simp [hversions]
      have hdone : done.length + 1 + rest.length = versions.length := by
        rw [hversions]
        simp
        omega
      intro walk' t hrun
      obtain ⟨hremaining', hwalked'⟩ := newTableStep_walked (hmem version hversion) (by omega)
        hremaining s hwalked walk' t hrun
      refine ⟨rest, by simp [hversions], hremaining', ?_⟩
      rw [List.map_append, List.map_singleton, partitionRequests_concat, sortRequests_concat,
        List.length_append, List.length_singleton, Nat.mul_add]
      exact hwalked'
    · intro s hs
      refine ⟨versions, rfl, ?_, hs⟩
      intro field
      rw [hfst]
      exact ((List.reverse_perm _).countP_eq _).symm
    · intro walk s hs
      obtain ⟨rest, hrest, -, hwalked⟩ := hs
      have hnil : rest = [] := List.append_cancel_left (hrest.symm.trans (by simp))
      subst hnil
      rw [hfst, hlength, ← hroom] at hwalked
      exact hwalked
  refine hloop.bind fun walk => ?_
  intro s hs result' t hrun
  cases hrun
  dsimp only
  split <;> split <;> exact hs

end Walk

/-! ## The commit of a table -/

section OtherKeys

variable {F : Type}

/-- The keys that the other tables of a commit have published before and after a table `t`. Their
ids are not in use, and lie outside of the ids that the walk over `t` gives out. -/
structure OtherKeys (t : TableIndex) (first next : Idx) (tables : SpecTables F)
    (before after : List (SpecInfo F)) : Prop where
  others : ∀ spec ∈ before ++ after, spec.tableId ≠ t
  distinct : ((before ++ after).filterMap (·.id)).Nodup
  outside : ∀ id ∈ (before ++ after).filterMap (·.id), id.toNat < first.toNat ∨ next.toNat ≤ id.toNat
  unused : ∀ id ∈ (before ++ after).filterMap (·.id), ∀ r ∈ tables.info, r.specId ≠ id
  ids : ∀ spec ∈ before ++ after, spec.fields ≠ [] → spec.id.isSome = true
  old : ∀ r ∈ tables.info, r.specId.toNat < first.toNat

namespace OtherKeys

variable {t : TableIndex} {first next : Idx} {tables : SpecTables F}
  {before after own : List (SpecInfo F)}

theorem fresh (h : OtherKeys t first next tables before after)
    (hown : NewIds first next (own.filterMap (·.id)))
    (hids : ∀ spec ∈ own, spec.fields ≠ [] → spec.id.isSome = true) :
    FreshSpecs (before ++ own ++ after) tables := by
  have hperm : (before ++ own ++ after).Perm (own ++ (before ++ after)) := by
    rw [List.append_assoc, ← List.append_assoc own]
    exact (List.perm_append_comm_assoc before own after).trans (by simp)
  have hfilter : ((before ++ own ++ after).filterMap (·.id)).Perm
      (own.filterMap (·.id) ++ (before ++ after).filterMap (·.id)) := by
    rw [← List.filterMap_append]
    exact hperm.filterMap _
  refine ⟨?_, ?_, ?_⟩
  · rw [hfilter.nodup_iff]
    refine List.nodup_append.2 ⟨hown.distinct, h.distinct, ?_⟩
    rintro a ha b hb rfl
    have hrange := hown.range a ha
    have houtside := h.outside a hb
    omega
  · intro id hid r hr heq
    rcases List.mem_append.1 (hfilter.subset hid) with hid | hid
    · have hrange := hown.range id hid
      have hold := h.old r hr
      rw [heq] at hold
      omega
    · exact h.unused id hid r hr heq
  · intro spec hspec
    rcases List.mem_append.1 (hperm.subset hspec) with hspec | hspec
    · exact hids spec hspec
    · exact h.ids spec hspec

/-- Of all the keys, those of the table are its own. -/
theorem filter_own (h : OtherKeys t first next tables before after)
    (hown : ∀ spec ∈ own, spec.tableId = t) :
    (before ++ own ++ after).filter (·.tableId = t) = own := by
  have hnone : ∀ l : List (SpecInfo F), (∀ spec ∈ l, spec.tableId ≠ t) →
      l.filter (·.tableId = t) = [] := by
    intro l hl
    exact List.filter_eq_nil_iff.2 fun spec hspec heq => hl spec hspec (of_decide_eq_true heq)
  rw [List.filter_append, List.filter_append, hnone before, hnone after, List.nil_append,
    List.append_nil]
  · exact List.filter_eq_self.2 fun spec hspec => decide_eq_true (hown spec hspec)
  · exact fun spec hspec => h.others spec (List.mem_append_right _ hspec)
  · exact fun spec hspec => h.others spec (List.mem_append_left _ hspec)

end OtherKeys

end OtherKeys

def DuckLakeTableEntry.sortFields (table : DuckLakeTableEntry) : List DuckLakeSortField :=
  (table.sortData.map (·.fields)).getD []

/-- The fields of a request; no fields stand for a reset. -/
def requestedFields (request : Option DuckLakePartition) : List DuckLakePartitionFieldInfo :=
  (request.map (·.keyFields)).getD []

def requestedSort (request : Option DuckLakeSort) : List DuckLakeSortField :=
  (request.map (·.fields)).getD []

/-- A commit, seen from one table: the versions of the table, the walk over them, the keys that
the walks over other tables publish, and the data files that were written to the table. -/
structure SpecCommit [SQLWriter] where
  latest : DuckLakeTableEntry
  older : List DuckLakeTableEntry
  sameTable : ∀ table ∈ older, table.tableId = latest.tableId
  /-- Every partitioning got a transaction-local id of its own when it was requested. -/
  localIds : ((partitionRequests (latest :: older).reverse).filterMap
    (·.map (·.fileId))).Nodup
  schema : Nat
  entry : Nat
  before : NewTableInfo
  start : CommitAttempt
  result : NewTableInfo
  finish : CommitAttempt
  walked : Attempt.run (getNewTableInfo schema entry (latest :: older) before) start =
    (.ok result, finish)
  room : start.commitSnapshot.nextCatalogId.toNat + 3 * (older.length + 1) < 2 ^ 64
  snapshot : SnapshotId
  partitions : SpecTables DuckLakePartitionFieldInfo
  partitionsBefore : partitions.Committed snapshot
  committedPartition : List DuckLakePartitionFieldInfo
  livePartition : partitions.specsOf snapshot (finish.commitState.getTableId latest.tableId) =
    specList committedPartition
  sorts : SpecTables DuckLakeSortField
  sortsBefore : sorts.Committed snapshot
  committedSort : List DuckLakeSortField
  liveSort : sorts.specsOf snapshot (finish.commitState.getTableId latest.tableId) =
    specList committedSort
  partitionsAfter : List DuckLakePartitionInfo
  otherPartitions : OtherKeys (finish.commitState.getTableId latest.tableId)
    start.commitSnapshot.nextCatalogId finish.commitSnapshot.nextCatalogId partitions
    (before.newPartitionKeys.map (·.spec)) (partitionsAfter.map (·.spec))
  sortsAfter : List DuckLakeSortInfo
  otherSorts : OtherKeys (finish.commitState.getTableId latest.tableId)
    start.commitSnapshot.nextCatalogId finish.commitSnapshot.nextCatalogId sorts
    (before.newSortKeys.map (·.spec)) (sortsAfter.map (·.spec))
  numberedPartitions : Numbered committedPartition ∧
    ∀ request ∈ partitionRequests (latest :: older).reverse, Numbered (requestedFields request)
  numberedSorts : Numbered committedSort ∧
    ∀ request ∈ sortRequests [] (latest :: older).reverse, Numbered (requestedSort request)
  files : List DuckLakeDataFile
  /-- The commit state with which the data files are written. -/
  state : DuckLakeCommitState
  sameRemap : ∀ data, some data ∈ partitionRequests (latest :: older).reverse →
    state.committedPartitionIds.lookup data.fileId =
      finish.commitState.committedPartitionIds.lookup data.fileId
  localRemap : ∀ r ∈ partitions.info, state.committedPartitionIds.lookup r.specId = none

namespace SpecCommit

variable [SQLWriter] (c : SpecCommit)

def tableId : TableIndex := c.finish.commitState.getTableId c.latest.tableId

/-- The versions in the order in which they were written. -/
def versions : List DuckLakeTableEntry := (c.latest :: c.older).reverse

def partitionsWritten : SpecTables DuckLakePartitionFieldInfo :=
  c.partitions.apply c.snapshot (writeNewPartitionKeys (c.partitions.load c.snapshot)
    ((c.result.newPartitionKeys ++ c.partitionsAfter).map (·.spec)))

def sortsWritten : SpecTables DuckLakeSortField :=
  c.sorts.apply c.snapshot (writeNewSortKeys (c.sorts.load c.snapshot)
    ((c.result.newSortKeys ++ c.sortsAfter).map (·.spec)))

def requestedPartitions : List (List DuckLakePartitionFieldInfo) :=
  (partitionRequests c.versions).map requestedFields

def requestedSorts : List (List DuckLakeSortField) :=
  (sortRequests [] c.versions).map requestedSort

/-- The fields that a data file with this partition id was written with. -/
def WrittenWith (id : Idx) (fields : List DuckLakePartitionFieldInfo) : Prop :=
  (∃ data, some data ∈ partitionRequests c.versions ∧ data.fileId = id ∧ data.keyFields = fields) ∨
    c.partitions.HasSpec c.tableId id fields

/-- The last specification wins: what is live after the commit is what was requested last, and the
specification of every data file can be found. -/
structure LastWins : Prop where
  partition : c.partitionsWritten.specsOf c.snapshot c.tableId =
    specList (c.requestedPartitions.getLastD c.committedPartition)
  sort : c.sortsWritten.specsOf c.snapshot c.tableId = specList c.latest.sortFields
  files : ∀ file ∈ c.files, ∀ id fields, file.partitionId = some id → c.WrittenWith id fields →
    ∃ new, c.state.remapPartitionId file.partitionId = some new ∧
      c.partitionsWritten.HasSpec c.tableId new fields

/-- A table without a specification whose partitioning is reset in the transaction. -/
def ResetUnpartitioned : Prop := c.committedPartition = [] ∧ [] ∈ c.requestedPartitions

def ResetUnsorted : Prop := c.committedSort = [] ∧ [] ∈ c.requestedSorts

/-- When the last specification wins. -/
structure Undisturbed : Prop where
  partition : c.ResetUnpartitioned → c.requestedPartitions.getLast? = some []
  sort : c.ResetUnsorted → c.latest.sortFields = []
  /-- Nothing changes the sort order after it was published for the last time. -/
  published : ¬c.ResetUnsorted → c.requestedSorts.getLastD c.committedSort = c.latest.sortFields
  /-- A file is written under a partitioning that is replaced and is not a reset, or under the last
  one and this one is new. -/
  files : ∀ file ∈ c.files, ∀ data, some data ∈ partitionRequests c.versions →
    file.partitionId = some data.fileId →
      if (partitionRequests c.versions).getLast? = some (some data) then
        data.keyFields ≠ c.committedPartition ∧ ¬c.ResetUnpartitioned
      else data.keyFields ≠ []

/-! ### The keys of the table -/

theorem walkedRows : ∃ p : Published,
    p.Answers (partitionRequests c.versions) (sortRequests [] c.versions) ∧
    c.result.newPartitionKeys = c.before.newPartitionKeys ++
      p.partitions.map (partitionKey c.tableId) ∧
    c.result.newSortKeys = c.before.newSortKeys ++ p.sorts.map (sortKey c.tableId) ∧
    c.finish.commitState.committedPartitionIds =
      p.remaps ++ c.start.commitState.committedPartitionIds ∧
    NewIds c.start.commitSnapshot.nextCatalogId c.finish.commitSnapshot.nextCatalogId
      p.partitionIds ∧
    NewIds c.start.commitSnapshot.nextCatalogId c.finish.commitSnapshot.nextCatalogId
      p.sortIds := by
  let start : WalkStart :=
    { x := c.latest.tableId
      first := c.start.commitSnapshot.nextCatalogId
      remaps := c.start.commitState.committedPartitionIds
      partitionKeys := c.before.newPartitionKeys
      sortKeys := c.before.newSortKeys
      room := 3 * (c.older.length + 1)
      fits := c.room }
  have hx : ∀ table ∈ c.latest :: c.older, table.tableId = start.x := by
    intro table htable
    rcases List.mem_cons.1 htable with rfl | htable
    · rfl
    · exact c.sameTable table htable
  have hstart : WalkedRows start 0 [] [] c.before c.start := by
    refine ⟨{}, ⟨rfl, rfl⟩, ?_⟩
    exact {
      partitions := by simp [start]
      sorts := by simp [start]
      remaps := by simp [Published.remaps, start]
      committed := by simp
      counted := ⟨le_refl _, le_refl _⟩
      partitionIds := ⟨List.nodup_nil, by simp [Published.partitionIds]⟩
      sortIds := ⟨List.nodup_nil, by simp [Published.sortIds]⟩ }
  obtain ⟨p, hp, h⟩ := getNewTableInfo_walked hx rfl c.schema c.entry c.start hstart c.result
    c.finish c.walked
  exact ⟨p, hp, h.partitions, h.sorts, h.remaps, h.partitionIds, h.sortIds⟩

omit [SQLWriter] in
theorem partitionKey_fields (t : TableIndex) (r : Option (DuckLakePartition × Idx)) :
    (partitionKey t r).spec.fields = requestedFields (r.map (·.1)) := by
  cases r <;> rfl

omit [SQLWriter] in
theorem sortKey_fields (t : TableIndex) (r : Option (DuckLakeSort × Idx)) :
    (sortKey t r).spec.fields = requestedSort (r.map (·.1)) := by
  cases r <;> rfl

/-- The partition keys of the commit, with the ones of the table in their middle. -/
theorem partitionSpecs : ∃ p : Published,
    p.partitions.map (·.map (·.1)) = partitionRequests c.versions ∧
    (c.result.newPartitionKeys ++ c.partitionsAfter).map (·.spec) =
      c.before.newPartitionKeys.map (·.spec) ++
        p.partitions.map (fun r => (partitionKey c.tableId r).spec) ++
        c.partitionsAfter.map (·.spec) ∧
    c.finish.commitState.committedPartitionIds =
      p.remaps ++ c.start.commitState.committedPartitionIds ∧
    FreshSpecs ((c.result.newPartitionKeys ++ c.partitionsAfter).map (·.spec)) c.partitions ∧
    ((c.result.newPartitionKeys ++ c.partitionsAfter).map (·.spec)).filter
      (·.tableId = c.tableId) = p.partitions.map (fun r => (partitionKey c.tableId r).spec) := by
  obtain ⟨p, hp, hkeys, -, hremaps, hids, -⟩ := c.walkedRows
  have heq : (c.result.newPartitionKeys ++ c.partitionsAfter).map (·.spec) =
      c.before.newPartitionKeys.map (·.spec) ++
        p.partitions.map (fun r => (partitionKey c.tableId r).spec) ++
        c.partitionsAfter.map (·.spec) := by
    simp [hkeys]
  have hown : (p.partitions.map fun r => (partitionKey c.tableId r).spec).filterMap (·.id) =
      p.partitionIds := by
    rw [List.filterMap_map, Published.partitionIds]
    refine List.filterMap_congr fun r _ => ?_
    cases r <;> rfl
  refine ⟨p, hp.partitions, heq, hremaps, ?_, ?_⟩
  · rw [heq]
    refine c.otherPartitions.fresh (hown ▸ hids) fun spec hspec hfields => ?_
    obtain ⟨r, -, rfl⟩ := List.mem_map.1 hspec
    cases r with
    | none => exact absurd rfl hfields
    | some q => rfl
  · rw [heq]
    refine c.otherPartitions.filter_own fun spec hspec => ?_
    obtain ⟨r, -, rfl⟩ := List.mem_map.1 hspec
    cases r <;> rfl

theorem numbered_requestedPartitions : ∀ fields ∈ c.requestedPartitions, Numbered fields := by
  intro fields hfields
  obtain ⟨request, hrequest, rfl⟩ := List.mem_map.1 hfields
  exact c.numberedPartitions.2 request hrequest

theorem numbered_requestedSorts : ∀ fields ∈ c.requestedSorts, Numbered fields := by
  intro fields hfields
  obtain ⟨request, hrequest, rfl⟩ := List.mem_map.1 hfields
  exact c.numberedSorts.2 request hrequest

theorem partitionsWritten_specsOf : c.partitionsWritten.specsOf c.snapshot c.tableId =
    specList (finalSpec c.committedPartition c.requestedPartitions) := by
  obtain ⟨p, hp, -, -, hfresh, hfilter⟩ := c.partitionSpecs
  have hlive : c.partitions.specsOf c.snapshot c.tableId = specList c.committedPartition :=
    c.livePartition
  have hwrite := specsOf_write c.partitionsBefore hfresh
    (List.filter_sublist (p := fun spec => !spec.fields.isEmpty)) hlive c.numberedPartitions.1
  have hfields : (p.partitions.map fun r => (partitionKey c.tableId r).spec).map (·.fields) =
      c.requestedPartitions := by
    simp [requestedPartitions, ← hp, Function.comp_def, partitionKey_fields]
  rw [hfilter, hfields] at hwrite
  refine hwrite fun spec hspec => c.numbered_requestedPartitions _ ?_
  rw [← hfields]
  exact List.mem_map_of_mem hspec

theorem sortsWritten_specsOf : c.sortsWritten.specsOf c.snapshot c.tableId =
    specList (finalSpec c.committedSort c.requestedSorts) := by
  obtain ⟨p, hp, -, hkeys, -, -, hids⟩ := c.walkedRows
  have heq : (c.result.newSortKeys ++ c.sortsAfter).map (·.spec) =
      c.before.newSortKeys.map (·.spec) ++
        p.sorts.map (fun r => (sortKey c.tableId r).spec) ++ c.sortsAfter.map (·.spec) := by
    simp [hkeys]
  have hown : (p.sorts.map fun r => (sortKey c.tableId r).spec).filterMap (·.id) = p.sortIds := by
    rw [List.filterMap_map, Published.sortIds]
    refine List.filterMap_congr fun r _ => ?_
    cases r <;> rfl
  have hfresh : FreshSpecs ((c.result.newSortKeys ++ c.sortsAfter).map (·.spec)) c.sorts := by
    rw [heq]
    refine c.otherSorts.fresh (hown ▸ hids) fun spec hspec hfields => ?_
    obtain ⟨r, -, rfl⟩ := List.mem_map.1 hspec
    cases r with
    | none => exact absurd rfl hfields
    | some q => rfl
  have hfilter : ((c.result.newSortKeys ++ c.sortsAfter).map (·.spec)).filter
      (·.tableId = c.tableId) = p.sorts.map fun r => (sortKey c.tableId r).spec := by
    rw [heq]
    refine c.otherSorts.filter_own fun spec hspec => ?_
    obtain ⟨r, -, rfl⟩ := List.mem_map.1 hspec
    cases r <;> rfl
  have hfields : (p.sorts.map fun r => (sortKey c.tableId r).spec).map (·.fields) =
      c.requestedSorts := by
    simp [requestedSorts, ← hp.sorts, Function.comp_def, sortKey_fields]
  have hlive : c.sorts.specsOf c.snapshot c.tableId = specList c.committedSort := c.liveSort
  have hwrite := specsOf_write c.sortsBefore hfresh (List.nil_sublist _) hlive c.numberedSorts.1
  rw [hfilter, hfields] at hwrite
  refine hwrite fun spec hspec => c.numbered_requestedSorts _ ?_
  rw [← hfields]
  exact List.mem_map_of_mem hspec

/-! ### When the last one is live -/

theorem partition_iff : c.partitionsWritten.specsOf c.snapshot c.tableId =
      specList (c.requestedPartitions.getLastD c.committedPartition) ↔
    (c.ResetUnpartitioned → c.requestedPartitions.getLast? = some []) := by
  rw [c.partitionsWritten_specsOf, List.getLastD_eq_getLast?]
  unfold finalSpec ResetUnpartitioned
  cases hlast : c.requestedPartitions.getLast? with
  | none =>
    rw [List.getLast?_eq_none_iff.1 hlast]
    simp
  | some last =>
    by_cases hreset : c.committedPartition = [] ∧ [] ∈ c.requestedPartitions
    · simp only [hreset, and_self, if_true, Option.getD_some, forall_const, Option.some.injEq]
      exact ⟨fun h => (specList_injective h).symm, fun h => by rw [h]⟩
    · simp [hreset]

theorem sort_iff : c.sortsWritten.specsOf c.snapshot c.tableId = specList c.latest.sortFields ↔
    (c.ResetUnsorted → c.latest.sortFields = []) ∧
      (¬c.ResetUnsorted → c.requestedSorts.getLastD c.committedSort = c.latest.sortFields) := by
  rw [c.sortsWritten_specsOf, List.getLastD_eq_getLast?]
  unfold finalSpec ResetUnsorted
  cases hlast : c.requestedSorts.getLast? with
  | none =>
    rw [List.getLast?_eq_none_iff.1 hlast]
    simp only [List.not_mem_nil, and_false, false_implies, not_false_eq_true, true_and,
      Option.getD_none, forall_const]
    exact ⟨specList_injective, fun h => by rw [h]⟩
  | some last =>
    by_cases hreset : c.committedSort = [] ∧ [] ∈ c.requestedSorts
    · simp only [hreset, and_self, if_true, forall_const, not_true_eq_false, false_implies,
        and_true]
      exact ⟨fun h => (specList_injective h).symm, fun h => by rw [h]⟩
    · simp only [hreset, if_false, false_implies, not_false_eq_true, true_and, Option.getD_some,
        forall_const]
      exact ⟨specList_injective, fun h => by rw [h]⟩

/-! ### The specifications of the data files -/

omit [SQLWriter] in
/-- A key with an id is either the last one or one of those before. -/
theorem mem_dropLast_iff {F : Type} {own : List (SpecInfo F)} {spec : SpecInfo F}
    (hdistinct : (own.filterMap (·.id)).Nodup) (hspec : spec ∈ own) (hid : spec.id.isSome = true) :
    spec ∈ own.dropLast ↔ own.getLast? ≠ some spec := by
  obtain ⟨last, hlast⟩ := Option.isSome_iff_exists.1
    (List.getLast?_isSome.2 (List.ne_nil_of_mem hspec))
  have hsplit : own = own.dropLast ++ [last] := by
    exact (List.dropLast_append_getLast? last hlast).symm
  obtain ⟨id, hid⟩ := Option.isSome_iff_exists.1 hid
  rw [hlast]
  constructor
  · rintro hmem heq
    cases heq
    rw [hsplit, List.filterMap_append] at hdistinct
    refine (List.nodup_append.1 hdistinct).2.2 id (List.mem_filterMap.2 ⟨spec, hmem, hid⟩) id ?_ rfl
    simp [hid]
  · intro hne
    rw [hsplit] at hspec
    rcases List.mem_append.1 hspec with h | h
    · exact h
    · exact absurd (congrArg some (List.mem_singleton.1 h).symm) hne

omit [SQLWriter] in
/-- The remap of a data file finds the id that its partitioning was given. -/
theorem lookup_remaps {p : Published} {data : DuckLakePartition} {id : Idx}
    (hdistinct : (p.partitions.filterMap (·.map (·.1.fileId))).Nodup)
    (hmem : some (data, id) ∈ p.partitions) (rest : List (Idx × Idx)) :
    (p.remaps ++ rest).lookup data.fileId = some id := by
  have hkeys : (p.remaps.map (·.1)).Nodup := by
    have heq : p.remaps.map (·.1) = (p.partitions.filterMap (·.map (·.1.fileId))).reverse := by
      simp only [Published.remaps, List.map_reverse, List.map_filterMap]
      congr 1
      refine List.filterMap_congr fun r _ => ?_
      cases r <;> rfl
    rw [heq]
    exact List.nodup_reverse.2 hdistinct
  have hfound : (data.fileId, id) ∈ p.remaps :=
    List.mem_reverse.2 (List.mem_filterMap.2 ⟨some (data, id), hmem, rfl⟩)
  rw [List.lookup_append]
  generalize p.remaps = remaps at hkeys hfound
  induction remaps with
  | nil => cases hfound
  | cons r remaps ih =>
    rw [List.map_cons, List.nodup_cons] at hkeys
    rcases List.mem_cons.1 hfound with rfl | hfound
    · simp
    · have hne : data.fileId ≠ r.1 := by
        intro heq
        exact hkeys.1 (heq ▸ List.mem_map_of_mem hfound)
      rw [List.lookup_cons, beq_false_of_ne hne]
      exact ih hkeys.2 hfound

omit [SQLWriter] in
/-- The key of a partitioning is the last one exactly if it was requested last. -/
theorem getLast?_partitionKey_iff {p : Published} {data : DuckLakePartition} {id : Idx}
    {t : TableIndex} (hlocal : (p.partitions.filterMap (·.map (·.1.fileId))).Nodup)
    (hdistinct : ((p.partitions.map fun r => (partitionKey t r).spec).filterMap (·.id)).Nodup)
    (hr : some (data, id) ∈ p.partitions) :
    (p.partitions.map fun r => (partitionKey t r).spec).getLast? =
        some (partitionKey t (some (data, id))).spec ↔
      (p.partitions.map (·.map (·.1))).getLast? = some (some data) := by
  rw [List.getLast?_map, List.getLast?_map]
  cases hlast : p.partitions.getLast? with
  | none => simp
  | some r =>
    have hmem : r ∈ p.partitions := List.mem_of_getLast? hlast
    simp only [Option.map_some, Option.some.injEq]
    constructor
    · intro heq
      have hids : (p.partitions.filterMap (·.map (·.2))).Nodup := by
        rw [List.filterMap_map] at hdistinct
        rw [List.filterMap_congr fun r _ => ?_]
        · exact hdistinct
        · cases r <;> rfl
      have hid : r.map (·.2) = some id := by
        have hid := congrArg SpecInfo.id heq
        cases r with
        | none => cases hid
        | some q => exact hid
      rw [eq_of_nodup_filterMap hids hmem hr hid rfl]
      rfl
    · intro heq
      obtain ⟨q, rfl, hq⟩ := Option.map_eq_some_iff.1 heq
      have hfile : (some q).map (·.1.fileId) = some data.fileId := by simp [hq]
      rw [eq_of_nodup_filterMap hlocal hmem hr hfile rfl]

/-- The key that is current after the commit is the last one, unless it is as before or a reset is
taken for nothing to do. -/
theorem mem_newPartitions_iff {p : Published}
    (hp : p.partitions.map (·.map (·.1)) = partitionRequests c.versions)
    (hfilter : ((c.result.newPartitionKeys ++ c.partitionsAfter).map (·.spec)).filter
      (·.tableId = c.tableId) = p.partitions.map (fun r => (partitionKey c.tableId r).spec))
    {spec : SpecInfo DuckLakePartitionFieldInfo} (hspec : spec.tableId = c.tableId) :
    spec ∈ getNewSpecs (c.partitions.load c.snapshot)
        ((c.result.newPartitionKeys ++ c.partitionsAfter).map (·.spec)) ↔
      (p.partitions.map fun r => (partitionKey c.tableId r).spec).getLast? = some spec ∧
        ¬(spec.fields = c.committedPartition ∧ c.committedPartition ≠ []) ∧
        ¬c.ResetUnpartitioned := by
  have hlive : c.partitions.specsOf c.snapshot c.tableId = specList c.committedPartition :=
    c.livePartition
  have hmine : spec ∈ getNewSpecs (c.partitions.load c.snapshot)
      ((c.result.newPartitionKeys ++ c.partitionsAfter).map (·.spec)) ↔
      spec ∈ (getNewSpecs (c.partitions.load c.snapshot)
        ((c.result.newPartitionKeys ++ c.partitionsAfter).map (·.spec))).filter
          (·.tableId = c.tableId) := by
    rw [List.mem_filter]
    exact ⟨fun h => ⟨h, decide_eq_true hspec⟩, fun h => h.1⟩
  have hfields : (p.partitions.map fun r => (partitionKey c.tableId r).spec).map (·.fields) =
      c.requestedPartitions := by
    simp [requestedPartitions, ← hp, Function.comp_def, partitionKey_fields]
  have hnumbered : ∀ spec ∈ ((c.result.newPartitionKeys ++ c.partitionsAfter).map
      (·.spec)).filter (·.tableId = c.tableId), Numbered spec.fields := by
    intro spec hspec
    rw [hfilter] at hspec
    refine c.numbered_requestedPartitions _ ?_
    rw [← hfields]
    exact List.mem_map_of_mem hspec
  rw [hmine, getNewSpecs_filter _ hlive c.numberedPartitions.1 hnumbered, hfilter, hfields,
    List.mem_filter, Option.mem_toList, Bool.and_eq_true, Bool.not_eq_true', Bool.not_eq_true',
    decide_eq_false_iff_not, decide_eq_false_iff_not]
  rfl

/-- A data file that was written under a requested partitioning finds its specification exactly
when this one was written. -/
theorem file_iff {data : DuckLakePartition} (hdata : some data ∈ partitionRequests c.versions) :
    (∃ new, c.state.remapPartitionId (some data.fileId) = some new ∧
      c.partitionsWritten.HasSpec c.tableId new data.keyFields) ↔
    if (partitionRequests c.versions).getLast? = some (some data) then
      data.keyFields ≠ c.committedPartition ∧ ¬c.ResetUnpartitioned
    else data.keyFields ≠ [] := by
  obtain ⟨p, hp, -, hremaps, hfresh, hfilter⟩ := c.partitionSpecs
  have hlocal : (p.partitions.filterMap (·.map (·.1.fileId))).Nodup := by
    have hids := c.localIds
    change ((partitionRequests c.versions).filterMap _).Nodup at hids
    rw [← hp, List.filterMap_map] at hids
    rw [List.filterMap_congr fun r _ => ?_]
    · exact hids
    · cases r <;> rfl
  -- the key of this partitioning, and the id that the file is given
  rw [← hp] at hdata
  obtain ⟨r, hr, hrdata⟩ := List.mem_map.1 hdata
  obtain ⟨⟨data', id⟩, rfl, rfl⟩ := Option.map_eq_some_iff.1 hrdata
  have hremap : c.state.remapPartitionId (some data'.fileId) = some id := by
    have hlookup := c.sameRemap data' (by
      change some data' ∈ partitionRequests c.versions
      rw [← hp]
      exact hdata)
    rw [hremaps, lookup_remaps hlocal hr] at hlookup
    simp [DuckLakeCommitState.remapPartitionId, hlookup]
  let spec := (partitionKey c.tableId (some (data', id))).spec
  have hspec : spec ∈ p.partitions.map fun r => (partitionKey c.tableId r).spec :=
    List.mem_map_of_mem (f := fun r => (partitionKey c.tableId r).spec) hr
  have hdistinct : ((p.partitions.map fun r => (partitionKey c.tableId r).spec).filterMap
      (·.id)).Nodup := by
    rw [← hfilter]
    exact hfresh.distinct.sublist (List.filter_sublist.filterMap _)
  -- it is the last key exactly if it was requested last
  have hlast : (p.partitions.map fun r => (partitionKey c.tableId r).spec).getLast? = some spec ↔
      (partitionRequests c.versions).getLast? = some (some data') := by
    rw [← hp]
    exact getLast?_partitionKey_iff hlocal hdistinct hr
  have hall : spec ∈ (c.result.newPartitionKeys ++ c.partitionsAfter).map (·.spec) :=
    List.mem_of_mem_filter (hfilter ▸ hspec)
  have hwritten : c.partitionsWritten.HasSpec c.tableId id data'.keyFields ↔
      spec ∈ (supersededSpecs ((c.result.newPartitionKeys ++ c.partitionsAfter).map
        (·.spec))).filter (!·.fields.isEmpty) ∨
      spec ∈ getNewSpecs (c.partitions.load c.snapshot)
        ((c.result.newPartitionKeys ++ c.partitionsAfter).map (·.spec)) :=
    hasSpec_write_iff c.partitionsBefore hfresh List.filter_sublist hall rfl
  have hsuperseded : spec ∈ (supersededSpecs ((c.result.newPartitionKeys ++
      c.partitionsAfter).map (·.spec))).filter (!·.fields.isEmpty) ↔
      (partitionRequests c.versions).getLast? ≠ some (some data') ∧ data'.keyFields ≠ [] := by
    rw [ne_eq, ← hlast, ← ne_eq, ← mem_dropLast_iff hdistinct hspec rfl, ← hfilter,
      ← supersededSpecs_filter, List.mem_filter, List.mem_filter]
    simp [spec, partitionKey, DuckLakePartitionInfo.spec]
  have hcurrent : spec ∈ getNewSpecs (c.partitions.load c.snapshot)
        ((c.result.newPartitionKeys ++ c.partitionsAfter).map (·.spec)) ↔
      (partitionRequests c.versions).getLast? = some (some data') ∧
        ¬(data'.keyFields = c.committedPartition ∧ c.committedPartition ≠ []) ∧
        ¬c.ResetUnpartitioned := by
    rw [← hlast]
    exact c.mem_newPartitions_iff hp hfilter rfl
  have hfound : (∃ new, c.state.remapPartitionId (some data'.fileId) = some new ∧
      c.partitionsWritten.HasSpec c.tableId new data'.keyFields) ↔
      c.partitionsWritten.HasSpec c.tableId id data'.keyFields := by
    rw [hremap]
    simp
  have hrequested : data'.keyFields ∈ c.requestedPartitions := by
    rw [requestedPartitions, ← hp]
    exact List.mem_map.2 ⟨some data', hdata, rfl⟩
  rw [hfound, hwritten, hsuperseded, hcurrent]
  split
  · rename_i hislast
    simp only [hislast, ne_eq, not_true_eq_false, false_and, false_or, true_and]
    refine and_congr_left fun hreset => ?_
    by_cases hnone : c.committedPartition = []
    · have hne : data'.keyFields ≠ c.committedPartition :=
        fun heq => hreset ⟨hnone, hnone ▸ heq ▸ hrequested⟩
      simp [hne]
    · simp [hnone]
  · rename_i hislast
    simp [hislast]

/-- What was there before can still be found. -/
theorem hasSpec_old {id : Idx} {fields : List DuckLakePartitionFieldInfo}
    (h : c.partitions.HasSpec c.tableId id fields) :
    c.state.remapPartitionId (some id) = some id ∧
      c.partitionsWritten.HasSpec c.tableId id fields := by
  obtain ⟨p, -, -, -, hfresh, -⟩ := c.partitionSpecs
  refine ⟨?_, h.apply (hfresh.write List.filter_sublist)⟩
  obtain ⟨⟨r, hr, rfl, -⟩, -⟩ := h
  simp [DuckLakeCommitState.remapPartitionId, c.localRemap r hr]

/-- The last specification of a transaction wins exactly when nothing disturbs it. -/
theorem lastWins_iff : c.LastWins ↔ c.Undisturbed := by
  constructor
  · intro h
    obtain ⟨hsort, hpublished⟩ := c.sort_iff.1 h.sort
    refine ⟨c.partition_iff.1 h.partition, hsort, hpublished, ?_⟩
    intro file hfile data hdata hid
    refine (c.file_iff hdata).1 ?_
    rw [← hid]
    exact h.files file hfile data.fileId data.keyFields hid (.inl ⟨data, hdata, rfl, rfl⟩)
  · intro h
    refine ⟨c.partition_iff.2 h.partition, c.sort_iff.2 ⟨h.sort, h.published⟩, ?_⟩
    intro file hfile id fields hid hwritten
    rw [hid]
    rcases hwritten with ⟨data, hdata, rfl, rfl⟩ | hold
    · exact (c.file_iff hdata).2 (h.files file hfile data hdata hid)
    · exact ⟨id, c.hasSpec_old hold⟩

end SpecCommit

section Example

attribute [local instance] SQLWriter.reference

/-- A version of a committed table that asks for a partitioning by these columns. -/
def partitionedBy (localId : Idx) (columns : List Nat) : DuckLakeTableEntry where
  tableId := 1
  uuid := "table"
  schema := .root 0 "main"
  name := "events"
  dataPath := "data/main/events/"
  columns := []
  localChange := .setPartitionKey
  partitionData := some {
    partitionId := localId
    localPartitionId := some localId
    fields := columns.zipIdx.map fun column =>
      ⟨column.2, column.1, .identity⟩ }

/-- The versions of `events` after partitioning by column 1, a reset, and partitioning by
column 2. -/
def resetBetween : List DuckLakeTableEntry :=
  [partitionedBy (transactionLocalIdStart + 2) [2], partitionedBy (transactionLocalIdStart + 1) [],
    partitionedBy transactionLocalIdStart [1]]

def resetStart : CommitAttempt where
  commitSnapshot := ⟨4, 1, 10, 0⟩
  changes := {}
  droppedFileStats := []

def resetRows : NewTableInfo where
  newPartitionKeys := [⟨some 10, 1, [⟨0, 1, "identity"⟩]⟩, ⟨some 11, 1, []⟩,
    ⟨some 12, 1, [⟨0, 2, "identity"⟩]⟩]
  newInlinedDataTables := [inlinedTableEntry (partitionedBy (transactionLocalIdStart + 2) [2]) 1]

def resetFinish : CommitAttempt :=
  (Attempt.run (getNewTableInfo 0 0 resetBetween {}) resetStart).2

/-- Their commit, when the table was not partitioned before. -/
def resetCommit : SpecCommit where
  latest := partitionedBy (transactionLocalIdStart + 2) [2]
  older := [partitionedBy (transactionLocalIdStart + 1) [], partitionedBy transactionLocalIdStart [1]]
  sameTable := by simp [partitionedBy]
  localIds := by decide
  schema := 0
  entry := 0
  before := {}
  start := resetStart
  result := resetRows
  finish := resetFinish
  walked := rfl
  room := by decide
  snapshot := 4
  partitions := ⟨[], []⟩
  partitionsBefore := ⟨by simp, by simp, by simp⟩
  committedPartition := []
  livePartition := rfl
  sorts := ⟨[], []⟩
  sortsBefore := ⟨by simp, by simp, by simp⟩
  committedSort := []
  liveSort := rfl
  partitionsAfter := []
  otherPartitions := ⟨by simp, by simp, by simp, by simp, by simp, by simp⟩
  sortsAfter := []
  otherSorts := ⟨by simp, by simp, by simp, by simp, by simp, by simp⟩
  numberedPartitions := by decide
  numberedSorts := by decide
  files := []
  state := resetFinish.commitState
  sameRemap := fun _ _ => rfl
  localRemap := by simp

/-- The reset makes the partitioning that follows it look like a nop: the table stays without
one. -/
theorem not_lastWins_resetBetween : ¬ ∀ c : SpecCommit, c.LastWins := by
  intro h
  have hlast := resetCommit.partition_iff.1 (h resetCommit).partition ⟨rfl, by decide⟩
  exact absurd hlast (by decide)

end Example

end DuckLake
