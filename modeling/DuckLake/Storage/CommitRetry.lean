import DuckLake.Storage.CommitInvariant

/-!
# Retrying a commit

A failed attempt leaves its stores behind in the staged objects. The ids of partitions and sort
keys are overwritten by every attempt before anything is read from them, so the batch of a later
attempt does not see them. The view id of a staged refresh is different: it is replaced by the
committed id in place, and it is also the key under which that id is looked up. A refresh of a
materialized view that was created by the same transaction keeps the id of the first attempt.
Where a server retries, the statistics of a rewritten table are those of the first attempt too.
-/

namespace DuckLake

/-! ## What an attempt reads -/

/-- The entry without the ids that an attempt stores in it. -/
def DuckLakeTableEntry.forget (table : DuckLakeTableEntry) : DuckLakeTableEntry :=
  (table.setPartitionId 0).setSortId 0

def StagedEntry.forget : StagedEntry → StagedEntry
  | table chain => table (chain.map (·.forget))
  | view chain => view chain

namespace StagedTransaction

/-- What an attempt reads of a transaction. -/
def forget (T : StagedTransaction) : StagedTransaction :=
  { T with
    newTables := T.newTables.map fun schema => (schema.1, schema.2.map (·.forget))
    committedTableOptions := [] }

/-- The store does not change what the next attempt reads. -/
def Harmless (T : StagedTransaction) : Store → Prop
  | .refreshViewId index id =>
    ∀ refresh, T.refreshedMaterializedViews[index]? = some refresh → refresh.viewId = id
  | _ => True

end StagedTransaction

section Commit

variable [SQLWriter]

open CommitM

/-! ## The batch is a function of what is read -/

/-- No staged refresh is one of a materialized view that the same transaction creates. -/
def StagedTransaction.RefreshesCommitted (T : StagedTransaction) : Prop :=
  ∀ refresh ∈ T.refreshedMaterializedViews,
    isTransactionLocal refresh.viewId = true → refresh.viewId ∉ T.stagedIds

structure Tracks (T : StagedTransaction) (s : CommitAttempt) : Prop where
  keys : ∀ e ∈ s.commitState.committedTables, e.1 ∈ T.stagedIds
  stores : ∀ w ∈ s.stores, T.Harmless w

namespace Tracks

variable {T : StagedTransaction}

theorem store {w : Store} (hw : T.Harmless w) : Attempt.Keeps (Tracks T) (store w) := by
  refine .modify fun s h => ⟨h.keys, ?_⟩
  intro w' hw'
  rcases List.mem_append.1 hw' with hw' | hw'
  · exact h.stores w' hw'
  · exact List.mem_singleton.1 hw' ▸ hw

theorem emplaceTable {old new : TableIndex} {h : isTransactionLocal old = false → new = old}
    (hold : old ∈ T.stagedIds) : Attempt.Keeps (Tracks T) (emplaceTable old new h) := by
  refine .modify fun s hs => ⟨?_, hs.stores⟩
  intro e he
  rcases List.mem_append.1 he with he | he
  · exact hs.keys e he
  · exact List.mem_singleton.1 he ▸ hold

/-- A refresh of a committed view is not remapped. -/
theorem getTableId_refresh (h : T.RefreshesCommitted) {s : CommitAttempt} (hs : Tracks T s)
    {refresh : DuckLakeMaterializedViewRefreshInfo}
    (hr : refresh ∈ T.refreshedMaterializedViews) :
    s.commitState.getTableId refresh.viewId = refresh.viewId := by
  cases hlocal : isTransactionLocal refresh.viewId with
  | false => exact s.commitState.getTableId_of_committed hlocal
  | true =>
    have hnone : s.commitState.committedTables.lookup refresh.viewId = none := by
      refine List.lookup_eq_none_iff.2 fun e he => ?_
      have hne : refresh.viewId ≠ e.1 := fun heq => h refresh hr hlocal (heq ▸ hs.keys e he)
      simpa using hne
    unfold DuckLakeCommitState.getTableId
    rw [hnone]
    rfl

theorem emitIf {cond : Bool} {statement : Statement} :
    Attempt.Keeps (Tracks T) (emitIf cond statement) :=
  .ite (fun _ => .modify fun _ h => ⟨h.keys, h.stores⟩) fun _ => .pure

theorem writeMaterializedViewRefreshes (h : T.RefreshesCommitted) :
    Attempt.Keeps (Tracks T) (writeMaterializedViewRefreshes T) := by
  refine CommitInvariant.getCommitState.bindPost (P := fun state =>
    ∀ refresh ∈ T.refreshedMaterializedViews,
      state.getTableId refresh.viewId = refresh.viewId) ?_ ?_
  · intro s state hs hstate
    cases hstate
    intro refresh hr
    exact getTableId_refresh h hs hr
  · intro state hstate
    refine .bind (.forM fun refresh hr => store ?_) fun _ => emitIf.bind fun _ => emitIf
    intro old hold
    have hget := List.mk_mem_zipIdx_iff_getElem?.1 hr
    rw [List.getElem?_map, hold] at hget
    rw [← Option.some.inj hget]
    exact (hstate old (List.mem_of_getElem? hold)).symm

theorem writeNewNameMaps : Attempt.Keeps (Tracks T) (writeNewNameMaps T) := by
  refine .bind (.mapM fun _ _ => ?_) fun _ => emitIf
  exact .bind (.modifyGet fun _ h => ⟨h.keys, h.stores⟩) fun _ =>
    CommitInvariant.getTableId.bind fun _ => CommitInvariant.ensure.bind fun _ =>
      .bind (.modify fun _ h => ⟨h.keys, h.stores⟩) fun _ => .pure

end Tracks

/-! ## Retries -/

variable [StatsMerge]

omit [StatsMerge] in
theorem foldlM_pure {α β : Type} (step : β → α → CommitM β) {l : List α}
    (h : ∀ b, ∀ a ∈ l, step b a = pure b) (b : β) : l.foldlM step b = pure b := by
  induction l with
  | nil => rfl
  | cons a l ih =>
    rw [List.foldlM_cons, h b a (.head _), pure_bind]
    exact ih fun b a' ha => h b a' (.tail _ ha)

end Commit

section Example

attribute [local instance] SQLWriter.reference

/-- Bounds compared as strings. -/
@[reducible] def textualStats : StatsMerge where
  lessThan _ a b := decide (a.map Char.toNat < b.map Char.toNat)
  equals _ a b := a == b
  mergeExtra _ new := new

attribute [local instance] textualStats

/-- A catalog without statistics, in which the next catalog id is `nextCatalogId`. -/
def emptyCatalog (snapshotId : SnapshotId) (nextCatalogId : Idx) : CommitEnvironment where
  snapshot := ⟨snapshotId, 1, nextCatalogId, 0⟩
  tableStats _ := .ok none
  existingPartitions _ := .ok []
  existingSorts _ := .ok []
  getRelativePath path := ⟨path, true⟩
  tablePath _ path _ := .ok ⟨path, true⟩
  filePath _ path _ _ := .ok ⟨path, true⟩
  writeInlinedTables _ _ := .ok []
  writeInlinedData _ _ _ _ := .ok ([], 0)
  writeInlinedFileDeletes _ := .ok []
  recomputeGlobalStats _ _ _ _ := .ok []

/-- The table in which a new materialized view is stored. -/
def backingTable : DuckLakeTableEntry where
  tableId := transactionLocalIdStart
  uuid := "table"
  schema := .root 0 "main"
  name := "recent_orders"
  dataPath := "data/main/recent_orders/"
  columns := [{ field := { columnData := { id := 1 }, name := "i", type := .primitive "int32" } }]
  localChange := .created

/-- A materialized view over table 1. -/
def recentOrders : DuckLakeMaterializedViewInfo where
  id := transactionLocalIdStart + 1
  schemaId := 0
  uuid := "view"
  name := "recent_orders"
  dialect := "duckdb"
  sql := "SELECT * FROM orders"
  backingTableId := backingTable.tableId
  dependencies := [1]
  pendingRefreshStamp := true

/-- A transaction that creates the view and makes one refresh. -/
def createAndRefresh (viewId : TableIndex) : StagedTransaction where
  commitInfo := ⟨none, none, none, false⟩
  newTables := [(0, [.table [backingTable]])]
  newMaterializedViews := [recentOrders]
  refreshedMaterializedViews := [{ viewId := viewId, refreshMode := "full", rowsRefreshed := 1 }]

/-- The views whose refresh a batch records. -/
def refreshedViews (batch : Except Exception (List Statement × DuckLakeSnapshot)) :
    List TableIndex :=
  match batch with
  | .ok (statements, _) => statements.flatMap fun
    | .materializedViewRefreshes rows => rows.map (·.viewId)
    | _ => []
  | .error _ => []

end Example

end DuckLake
