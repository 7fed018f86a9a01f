import Mathlib.Algebra.Order.Ring.Nat
import DuckLake.Storage.CommitRetry
import DuckLake.Storage.WrittenIds

/-!
# No transaction-local id is committed

What a transaction has to be like so that the commit writes committed ids only, and the proof that
it does, from stage to stage of the commit and then over whole runs of commits.
-/

namespace DuckLake

/-! ## What a transaction may refer to -/

/-- A version of a table or view that is written as a row of its own. -/
def LocalChange.writesRow : LocalChange → Bool
  | .none | .created | .renamed => true
  | _ => false

def StagedEntry.size : StagedEntry → Nat
  | .table chain => 3 * chain.length
  | .view chain => chain.length

namespace StagedTransaction

def stagedSchemas (T : StagedTransaction) : List SchemaIndex :=
  T.newSchemas.map (·.entry.schemaId)

def stagedEntries (T : StagedTransaction) : List StagedEntry := T.newTables.flatMap (·.2)

def stagedTables (T : StagedTransaction) : List TableIndex := T.stagedEntries.flatMap (·.ids)

/-- The table and view ids that the commit replaces. -/
def writtenTables (T : StagedTransaction) : List TableIndex :=
  T.stagedTables ++ T.newMaterializedViews.map (·.id)

def stagedMacros (T : StagedTransaction) : List MacroEntry :=
  (T.newScalarMacros ++ T.newTableMacros).flatMap (·.2)

def stagedProcedures (T : StagedTransaction) : List DuckLakeProcedureEntry :=
  T.newProcedures.flatMap (·.2)

/-- How many catalog ids a commit of the transaction gives out at most. -/
def catalogSize (T : StagedTransaction) : Nat :=
  T.newSchemas.length + (T.stagedEntries.map (·.size)).sum + T.newMaterializedViews.length +
    T.stagedMacros.length + T.stagedProcedures.length

end StagedTransaction

/-- The versions of one table or view: they lie in schemas that are there when they are written, a
committed one was known before the commit, and a transaction-local one starts with a row. -/
structure WritableChain {ρ : Type} (id : ρ → TableIndex) (schema : ρ → SchemaIndex)
    (change : ρ → LocalChange) (first : Idx) (schemas : List SchemaIndex) (chain : List ρ) :
    Prop where
  sameId : ∀ v ∈ chain, ∀ w ∈ chain, id v = id w
  inSchema : ∀ v ∈ chain, IsCommitted (schema v) ∨ schema v ∈ schemas
  known : ∀ v ∈ chain, IsCommitted (id v) → id v < first
  startsWithRow : ∀ v ∈ chain.getLast?, ¬ IsCommitted (id v) → (change v).writesRow = true

def StagedEntry.Writable (first : Idx) (schemas : List SchemaIndex) : StagedEntry → Prop
  | .table chain => WritableChain (·.tableId) (·.schema.schemaId) (·.localChange) first schemas chain
  | .view chain => WritableChain (·.viewId) (·.schema.schemaId) (·.localChange) first schemas chain

/-- The references of the data changes of a table. -/
structure DataReferences (first : DuckLakeSnapshot) (nameMaps : List MappingIndex)
    (tableId : TableIndex) (c : LocalTableDataChanges) : Prop where
  known : IsCommitted tableId → tableId < first.nextCatalogId
  mappings : ∀ file ∈ c.newDataFiles ++ c.compactions.flatMap (·.writtenFiles),
    ∀ id ∈ file.mappingId, id < first.nextFileId ∨ id ∈ nameMaps
  deletes : ∀ file ∈ c.newDeleteFiles.flatMap (·.2), file.dataFileId < first.nextFileId ∧
    ∀ overwritten ∈ file.overwrittenDeleteFile, overwritten.deleteFileId < first.nextFileId
  inlined : ∀ deletes ∈ c.newInlinedFileDeletes, ∀ file ∈ deletes, file.1 < first.nextFileId
  compacted : ∀ compaction ∈ c.compactions, IsCommitted tableId ∧
    ∀ source ∈ compaction.sourceFiles, source.id < first.nextFileId ∧
      ∀ file ∈ source.deleteFiles, file.deleteFileId < first.nextFileId

/-- Every transaction-local id that a transaction mentions is the id of something that its commit
writes before, every other id was given out before, and the counter has room for what is new. -/
structure RefersToWritten [SQLWriter] (first : DuckLakeSnapshot)
    (changes : TransactionChangeInformation) (T : StagedTransaction) : Prop where
  room : first.nextCatalogId.toNat + T.catalogSize ≤ transactionLocalIdStart.toNat
  parents : ∀ schema ∈ T.newSchemas, ∀ parent ∈ schema.entry.parents.head?,
    IsCommitted parent.schemaId ∨
      ∃ other ∈ T.newSchemas, other.entry.schemaId = parent.schemaId ∧ other.depth < schema.depth
  entries : ∀ entry ∈ T.stagedEntries, entry.Writable first.nextCatalogId T.stagedSchemas
  materializedViews : ∀ before mv after, T.newMaterializedViews = before ++ mv :: after →
    (IsCommitted mv.schemaId ∨ mv.schemaId ∈ T.stagedSchemas) ∧
    (IsCommitted mv.id → mv.id < first.nextCatalogId) ∧
    ∀ id ∈ mv.backingTableId :: mv.dependencies, IsCommitted id ∨ id ∈ T.stagedTables ∨
      id ∈ (before ++ [mv]).map (·.id)
  refreshes : ∀ refresh ∈ T.refreshedMaterializedViews,
    IsCommitted refresh.viewId ∨ refresh.viewId ∈ T.writtenTables
  macros : ∀ entry ∈ T.stagedMacros,
    IsCommitted entry.schema.schemaId ∨ entry.schema.schemaId ∈ T.stagedSchemas
  procedures : ∀ entry ∈ T.stagedProcedures,
    IsCommitted entry.schema.schemaId ∨ entry.schema.schemaId ∈ T.stagedSchemas
  drops : (∀ id ∈ T.droppedTables, IsCommitted id) ∧ (∀ id ∈ T.renamedTables, IsCommitted id) ∧
    (∀ id ∈ T.droppedViews, IsCommitted id) ∧ (∀ id ∈ T.renamedViews, IsCommitted id) ∧
    (∀ id ∈ T.droppedMaterializedViews, IsCommitted id) ∧
    (∀ id ∈ T.droppedScalarMacros, IsCommitted id) ∧
    (∀ id ∈ T.droppedTableMacros, IsCommitted id) ∧
    (∀ id ∈ T.droppedProcedures, IsCommitted id) ∧ ∀ id ∈ T.droppedSchemas, IsCommitted id
  data : ∀ entry ∈ T.localChanges.changes,
    DataReferences first (T.newNameMaps.map (·.1)) entry.1 entry.2
  droppedFiles : ∀ file ∈ T.droppedFiles, file.2 < first.nextFileId
  droppedStats : ∀ stats ∈ T.droppedFileStats, IsCommitted stats.1
  flushes : ∀ flush ∈ T.flushedInlinedFileDeletions, IsCommitted flush.1
  logged : ∀ type, ∀ id ∈ changes.ids type,
    if type.isRaw then IsCommitted id else IsCommitted id ∨ id ∈ T.writtenTables
  deletedFrom : ∀ id ∈ T.tablesDeletedFrom, IsCommitted id ∨ id ∈ T.writtenTables

/-! ## The stages of a commit -/

section Stages

variable [SQLWriter]

open CommitM Attempt

variable {scope : IdScope} {L : Ledger}

/-! ### Schemas -/

theorem newSchema_accounted {schema : StagedSchema} (hroom : L.spent < scope.limit)
    (hparent : ∀ parent ∈ schema.entry.parents.head?,
      IsCommitted parent.schemaId ∨ parent.schemaId ∈ L.schemas) :
    Yields (Accounted.At scope L) (newSchema schema) fun info s =>
      Accounted.At scope { L with
        spent := L.spent + 1
        newIds := L.newIds ++ [info.id]
        schemas := schema.entry.schemaId :: L.schemas } s ∧
      (IsCommitted info.id ∧ ∀ id ∈ info.parentId, IsCommitted id) := by
  unfold newSchema
  refine (nextCatalogId_unused hroom).bind fun id => .pull fun hid => ?_
  refine .bind (.mono (.frame (getCommitState_accounted
    (p := fun state => ∀ parent ∈ schema.entry.parents.head?,
      IsCommitted (state.getSchemaId parent.schemaId))
    (by exact fun s hs parent hp => hs.getSchemaId (hparent parent hp))) fun s state t hrun => by
      cases hrun; rfl) (fun s hs => hs) fun _ _ hs => and_right_comm.1 hs) fun state =>
    .pull fun hstate => ?_
  refine .bind (emplaceSchema_accounted hid.1 (by simp)) fun _ => .pure fun s hs => ⟨hs, hid.1, ?_⟩
  intro id' hid'
  obtain ⟨parent, hp, rfl⟩ := Option.map_eq_some_iff.1 hid'
  exact hstate parent hp

theorem getNewSchemas_accounted {T : StagedTransaction}
    (hparents : ∀ schema ∈ T.newSchemas, ∀ parent ∈ schema.entry.parents.head?,
      IsCommitted parent.schemaId ∨ ∃ other ∈ T.newSchemas,
        other.entry.schemaId = parent.schemaId ∧ other.depth < schema.depth)
    (hroom : T.newSchemas.length ≤ scope.limit) :
    Yields (Accounted.At scope {}) (getNewSchemas T) fun infos s =>
      Accounted.At scope
        { spent := T.newSchemas.length, newIds := infos.map (·.id), schemas := T.stagedSchemas } s ∧
      (∀ info ∈ infos, IsCommitted info.id ∧ ∀ id ∈ info.parentId, IsCommitted id) := by
  unfold getNewSchemas
  have hperm := T.newSchemas.mergeSort_perm fun a b => a.depth ≤ b.depth
  have hsorted : (T.newSchemas.mergeSort fun a b => a.depth ≤ b.depth).Pairwise
      fun a b => a.depth ≤ b.depth := by
    have hsort := @List.pairwise_mergeSort _ (fun a b : StagedSchema => decide (a.depth ≤ b.depth))
      (by simp; omega) (by simp; omega) T.newSchemas
    simpa using hsort
  generalize hl : (T.newSchemas.mergeSort fun a b => a.depth ≤ b.depth) = l at hperm hsorted
  refine (Yields.mapM (fun done infos s => Accounted.At scope
      { spent := done.length, newIds := infos.map (·.id),
        schemas := (done.map (·.entry.schemaId)).reverse } s ∧
      ∀ info ∈ infos, IsCommitted info.id ∧ ∀ id ∈ info.parentId, IsCommitted id) ?_).mono ?_ ?_
  · intro done schema rest infos hsplit
    refine .pull fun hinfos => ?_
    have hlength : done.length < T.newSchemas.length := by
      rw [← hperm.length_eq, hsplit]
      simp
    refine (newSchema_accounted (by simpa using hlength.trans_le hroom) ?_).mono (fun s hs => hs) ?_
    · intro parent hp
      have hschema : schema ∈ T.newSchemas := hperm.mem_iff.1 (by simp [hsplit])
      rcases hparents schema hschema parent hp with h | ⟨other, hother, hid, hdepth⟩
      · exact .inl h
      · refine .inr ?_
        -- the parent is not so deep, so it comes before
        rw [← hperm.mem_iff, hsplit] at hother
        rw [hsplit, List.pairwise_append] at hsorted
        rcases List.mem_append.1 hother with hbefore | hafter
        · simp only [List.mem_reverse, List.mem_map]
          exact ⟨other, hbefore, hid⟩
        · rcases List.mem_cons.1 hafter with rfl | hafter
          · exact absurd hdepth (lt_irrefl _)
          · have := (List.pairwise_cons.1 hsorted.2.1).1 other hafter
            omega
    · intro info s hs
      refine ⟨?_, ?_⟩
      · simpa using hs.1
      · intro info' hinfo'
        rcases List.mem_append.1 hinfo' with h | h
        · exact hinfos info' h
        · rw [List.mem_singleton.1 h]
          exact hs.2
  · intro s hs
    exact ⟨hs, by simp⟩
  · intro infos s hs
    refine ⟨hs.1.narrow ?_ (.refl _) (.refl _) (List.Subset.refl _) (List.Subset.refl _) ?_
      (List.Subset.refl _), hs.2⟩
    · exact hperm.length_eq.le
    · intro id hid
      simp only [List.mem_reverse]
      exact (hperm.map _).mem_iff.2 hid

/-! ### Tables and views -/

/-- The ids that the collected rows give to new objects. -/
def NewTableInfo.newIds (first : Idx) (r : NewTableInfo) : List Idx :=
  (r.newTables.map (·.id)).filter (first ≤ ·) ++ (r.newViews.map (·.id)).filter (first ≤ ·) ++
    r.newPartitionKeys.filterMap (·.id) ++ r.newSortKeys.filterMap (·.id)

/-- The collected rows refer to committed ids. -/
structure NewTableInfo.Refers (r : NewTableInfo) : Prop where
  tables : ∀ row ∈ r.newTables, IsCommitted row.id ∧ IsCommitted row.schemaId ∧
    ∀ key ∈ row.constraints, IsCommitted key.tableId
  views : ∀ row ∈ r.newViews, IsCommitted row.id ∧ IsCommitted row.schemaId
  partitionKeys : ∀ row ∈ r.newPartitionKeys, IsCommitted row.tableId ∧
    ∀ id ∈ row.id, IsCommitted id
  tags : ∀ row ∈ r.newTags, IsCommitted row.id
  columnTags : ∀ row ∈ r.newColumnTags, IsCommitted row.tableId
  viewColumnTags : ∀ row ∈ r.newViewColumnTags, IsCommitted row.viewId
  droppedColumns : ∀ row ∈ r.droppedColumns, IsCommitted row.tableId
  newColumns : ∀ row ∈ r.newColumns, IsCommitted row.tableId
  inlinedTables : ∀ row ∈ r.newInlinedDataTables, IsCommitted row.id
  sortKeys : ∀ row ∈ r.newSortKeys, IsCommitted row.tableId ∧ ∀ id ∈ row.id, IsCommitted id
  constraints : ∀ row ∈ r.replacementConstraints, IsCommitted row.1 ∧
    ∀ key ∈ row.2, IsCommitted key.tableId
  options : ∀ row ∈ r.newTableOptions, IsCommitted row.tableId

/-- The rows that a walk has collected, with their new ids in hand. -/
def Collected (scope : IdScope) (L : Ledger) (r : NewTableInfo) (s : CommitAttempt) : Prop :=
  Accounted.At scope { L with newIds := r.newIds scope.env.snapshot.nextCatalogId } s ∧ r.Refers

omit [SQLWriter] in
theorem forall_mem_concat {α : Type} {P : α → Prop} {l : List α} {a : α} (hl : ∀ x ∈ l, P x)
    (ha : P a) : ∀ x ∈ l ++ [a], P x := by
  intro x hx
  rcases List.mem_append.1 hx with hx | hx
  · exact hl x hx
  · rw [List.mem_singleton.1 hx]
    exact ha

theorem Collected.more {L' : Ledger} {r : NewTableInfo} {s : CommitAttempt}
    (h : Collected scope L r s) (hspent : L.spent ≤ L'.spent) (hfiles : L'.newFiles = L.newFiles)
    (hheld : L'.held = L.held) (htables : L'.tables ⊆ L.tables) (hschemas : L'.schemas = L.schemas)
    (hmappings : L'.mappings = L.mappings) : Collected scope L' r s :=
  ⟨h.1.narrow hspent (.refl _) (.of_eq hfiles.symm) (by rw [hheld]; exact List.Subset.refl _)
    htables (by rw [hschemas]; exact List.Subset.refl _)
    (by rw [hmappings]; exact List.Subset.refl _), h.2⟩

theorem getNewPartitionKey_accounted {table : DuckLakeTableEntry} (hroom : L.spent < scope.limit)
    (address : EntryAddress) :
    Yields (Accounted.At scope L) (getNewPartitionKey address table) fun key s =>
      Accounted.At scope
        { L with spent := L.spent + 1, newIds := L.newIds ++ key.id.toList } s ∧
      (IsCommitted key.tableId ∧ ∀ id ∈ key.id, IsCommitted id) := by
  unfold getNewPartitionKey
  refine getTableId_ensured fun t ht => ?_
  cases table.partitionData with
  | none =>
    refine .pure fun s hs => ⟨?_, ht, nofun⟩
    exact hs.narrow (Nat.le_succ _) (by simp) (.refl _) (List.Subset.refl _)
      (List.subset_cons_self _ _) (List.Subset.refl _) (List.Subset.refl _)
  | some data =>
    dsimp only
    refine .bind (nextCatalogId_accounted (by exact hroom)) fun id => .pull fun hid => ?_
    refine store_accounted.bind fun _ => ?_
    refine setPartitionId_accounted.bind fun _ => .pure fun s hs => ⟨?_, ht, ?_⟩
    · exact hs.narrow (Nat.le_refl _) (.refl _) (.refl _) (List.Subset.refl _)
        (List.subset_cons_self _ _) (List.Subset.refl _) (List.Subset.refl _)
    · intro id' hid'
      cases hid'
      exact hid.1

theorem getNewSortKey_accounted {table : DuckLakeTableEntry} (hroom : L.spent < scope.limit)
    (address : EntryAddress) :
    Yields (Accounted.At scope L) (getNewSortKey address table) fun key s =>
      Accounted.At scope
        { L with spent := L.spent + 1, newIds := L.newIds ++ key.id.toList } s ∧
      (IsCommitted key.tableId ∧ ∀ id ∈ key.id, IsCommitted id) := by
  unfold getNewSortKey
  refine getTableId_ensured fun t ht => ?_
  cases table.sortData with
  | none =>
    refine .pure fun s hs => ⟨?_, ht, nofun⟩
    exact hs.narrow (Nat.le_succ _) (by simp) (.refl _) (List.Subset.refl _)
      (List.subset_cons_self _ _) (List.Subset.refl _) (List.Subset.refl _)
  | some data =>
    dsimp only
    refine .bind (nextCatalogId_accounted (by exact hroom)) fun id => .pull fun hid => ?_
    refine store_accounted.bind fun _ => .pure fun s hs => ⟨?_, ht, ?_⟩
    · exact hs.narrow (Nat.le_refl _) (.refl _) (.refl _) (List.Subset.refl _)
        (List.subset_cons_self _ _) (List.Subset.refl _) (List.Subset.refl _)
    · intro id' hid'
      cases hid'
      exact hid.1

theorem partitionKeys_accounted {table : DuckLakeTableEntry} (hroom : L.spent < scope.limit)
    (address : EntryAddress) :
    Yields (Accounted.At scope L) (partitionKeys address table) fun keys s =>
      Accounted.At scope
        { L with spent := L.spent + 1, newIds := L.newIds ++ keys.filterMap (·.id) } s ∧
      ∀ key ∈ keys, IsCommitted key.tableId ∧ ∀ id ∈ key.id, IsCommitted id := by
  unfold partitionKeys
  split
  · refine (getNewPartitionKey_accounted hroom address).bind fun key => .pull fun hkey => ?_
    refine .pure fun s hs => ⟨?_, by simpa using hkey⟩
    cases hid : key.id with
    | none => simpa [hid] using hs
    | some id => simpa [hid] using hs
  · refine .pure fun s hs => ⟨?_, by simp⟩
    exact hs.narrow (Nat.le_succ _) (by simp) (.refl _) (List.Subset.refl _) (List.Subset.refl _)
      (List.Subset.refl _) (List.Subset.refl _)

theorem sortKeys_accounted {table : DuckLakeTableEntry} (hroom : L.spent < scope.limit)
    (address : EntryAddress) :
    Yields (Accounted.At scope L) (sortKeys address table) fun keys s =>
      Accounted.At scope
        { L with spent := L.spent + 1, newIds := L.newIds ++ keys.filterMap (·.id) } s ∧
      ∀ key ∈ keys, IsCommitted key.tableId ∧ ∀ id ∈ key.id, IsCommitted id := by
  unfold sortKeys
  split
  · refine (getNewSortKey_accounted hroom address).bind fun key => .pull fun hkey => ?_
    refine .pure fun s hs => ⟨?_, by simpa using hkey⟩
    cases hid : key.id with
    | none => simpa [hid] using hs
    | some id => simpa [hid] using hs
  · refine .pure fun s hs => ⟨?_, by simp⟩
    exact hs.narrow (Nat.le_succ _) (by simp) (.refl _) (List.Subset.refl _) (List.Subset.refl _)
      (List.Subset.refl _) (List.Subset.refl _)

theorem renamedSortKeys_accounted {table : DuckLakeTableEntry} (hroom : L.spent < scope.limit)
    (address : EntryAddress) (renamed : Bool) :
    Yields (Accounted.At scope L) (renamedSortKeys address table renamed) fun keys s =>
      Accounted.At scope
        { L with spent := L.spent + 1, newIds := L.newIds ++ keys.filterMap (·.id) } s ∧
      ∀ key ∈ keys, IsCommitted key.tableId ∧ ∀ id ∈ key.id, IsCommitted id := by
  unfold renamedSortKeys
  split
  · exact sortKeys_accounted hroom address
  · refine .pure fun s hs => ⟨?_, by simp⟩
    exact hs.narrow (Nat.le_succ _) (by simp) (.refl _) (List.Subset.refl _) (List.Subset.refl _)
      (List.Subset.refl _) (List.Subset.refl _)

theorem allocateTableId_accounted {old : TableIndex} (hroom : L.spent < scope.limit)
    (hold : IsCommitted old → old < scope.env.snapshot.nextCatalogId) :
    Yields (Accounted.At scope L) (allocateTableId old) fun new s =>
      (Accounted.At scope { L with
        spent := L.spent + 1
        newIds := L.newIds ++ [new.1].filter (scope.env.snapshot.nextCatalogId ≤ ·) } s ∧
      (isTransactionLocal old = true →
        new.1 ∈ L.newIds ++ [new.1].filter (scope.env.snapshot.nextCatalogId ≤ ·) ∧
        s.commitState.Unused new.1)) ∧ IsCommitted new.1 := by
  unfold allocateTableId
  split
  · refine (nextCatalogId_unused hroom).bind fun id => .pull fun hid => ?_
    refine .pure fun s hs => ⟨⟨?_, fun _ => ⟨?_, hs.2⟩⟩, hid.1⟩
    · simpa [hid.2] using hs.1
    · simp [hid.2]
  · rename_i hlocal
    have hcommitted : IsCommitted old := by simpa [IsCommitted] using hlocal
    refine .pure fun s hs => ⟨⟨?_, fun hlocal' => absurd hlocal' hlocal⟩, hcommitted⟩
    have hlt : ¬ scope.env.snapshot.nextCatalogId ≤ old := not_le.2 (hold hcommitted)
    refine hs.narrow (Nat.le_succ _) ?_ (.refl _) (List.Subset.refl _) (List.Subset.refl _)
      (List.Subset.refl _) (List.Subset.refl _)
    simp [hlt]

omit [SQLWriter] in
theorem effectiveConstraints_tableId {table : DuckLakeTableEntry} {id : TableIndex}
    {key : DuckLakeConstraintInfo} (h : key ∈ effectiveConstraints table id) : key.tableId = id := by
  obtain ⟨unique, -, rfl⟩ := List.mem_map.1 h
  rfl

theorem getNewTable_accounted {table : DuckLakeTableEntry}
    (hschema : IsCommitted table.schema.schemaId ∨ table.schema.schemaId ∈ L.schemas)
    (id : TableIndex) :
    Yields (Accounted.At scope L) (getNewTable table id) fun info s =>
      Accounted.At scope L s ∧ (info.id = id ∧ IsCommitted info.schemaId ∧
        ∀ key ∈ info.constraints, key.tableId = id) := by
  unfold getNewTable
  refine (getSchemaId_accounted hschema).bind fun schemaId => .pull fun hid => ?_
  refine .pure fun s hs => ⟨hs, rfl, hid, ?_⟩
  intro key hkey
  dsimp only at hkey
  split at hkey
  · exact effectiveConstraints_tableId hkey
  · cases hkey

/-- New keys, whose ids were in hand already. -/
theorem Collected.keys {r : NewTableInfo} {s : CommitAttempt}
    {pk : List DuckLakePartitionInfo} {sk : List DuckLakeSortInfo}
    (h : Accounted.At scope { L with
      newIds := r.newIds scope.env.snapshot.nextCatalogId ++ pk.filterMap (·.id) ++
        sk.filterMap (·.id) } s)
    (hr : r.Refers) (hpk : ∀ key ∈ pk, IsCommitted key.tableId ∧ ∀ id ∈ key.id, IsCommitted id)
    (hsk : ∀ key ∈ sk, IsCommitted key.tableId ∧ ∀ id ∈ key.id, IsCommitted id) :
    Collected scope L { r with
      newPartitionKeys := r.newPartitionKeys ++ pk
      newSortKeys := r.newSortKeys ++ sk } s := by
  constructor
  · refine h.narrow (Nat.le_refl _) ?_ (.refl _) (List.Subset.refl _) (List.Subset.refl _)
      (List.Subset.refl _) (List.Subset.refl _)
    refine List.perm_iff_count.2 fun a => ?_
    simp only [NewTableInfo.newIds, List.filterMap_append, List.count_append]
    omega
  · exact { hr with
      partitionKeys := List.forall_mem_append.2 ⟨hr.partitionKeys, hpk⟩
      sortKeys := List.forall_mem_append.2 ⟨hr.sortKeys, hsk⟩ }

theorem createdTableKeys_collected {latest table : DuckLakeTableEntry} {r : NewTableInfo}
    {id : TableIndex} (hid : IsCommitted id) (hroom : L.spent + 1 < scope.limit)
    (address : EntryAddress) (created : Bool) :
    Yields (Collected scope L r) (createdTableKeys address latest table id created r) fun r' =>
      Collected scope { L with spent := L.spent + 2 } r' := by
  unfold createdTableKeys
  split
  · refine .pull fun hr => ?_
    refine .bind (partitionKeys_accounted (by dsimp only; omega) address) fun pk => .pull fun hpk => ?_
    refine .bind (sortKeys_accounted (by dsimp only; omega) address) fun sk => .pull fun hsk => ?_
    refine .pure fun s hs => ?_
    have hkeys := Collected.keys (L := { L with spent := L.spent + 2 }) hs hr hpk hsk
    refine ⟨hkeys.1, { hkeys.2 with options := List.forall_mem_append.2 ⟨hr.options, ?_⟩ }⟩
    intro row hrow
    obtain ⟨option, -, rfl⟩ := List.mem_map.1 hrow
    exact hid
  · exact .pure fun s hs => hs.more (Nat.le_add_right _ 2) rfl rfl (List.Subset.refl _) rfl rfl

theorem emitNewTable_collected {latest table : DuckLakeTableEntry} {walk : TableWalk}
    (hroom : L.spent + 2 < scope.limit)
    (hold : IsCommitted table.tableId → table.tableId < scope.env.snapshot.nextCatalogId)
    (hschema : IsCommitted table.schema.schemaId ∨ table.schema.schemaId ∈ L.schemas)
    (address : EntryAddress) :
    Yields (Collected scope L walk.result) (emitNewTable address latest table walk) fun walk' =>
      Collected scope { L with spent := L.spent + 3, tables := table.tableId :: L.tables }
        walk'.result := by
  unfold emitNewTable
  refine .pull fun hr => ?_
  refine .bind (allocateTableId_accounted (by dsimp only; omega) hold) fun new => .pull fun hnew => ?_
  refine .bind (.mono (.frame (getNewTable_accounted (by exact hschema) new.1)
    fun s info t hrun => by cases hrun; rfl) (fun s hs => hs) fun _ _ hs => and_right_comm.1 hs)
    fun info => .pull fun hinfo => ?_
  dsimp only
  refine (emplaceTable_accounted new.2 hnew).bind fun _ => ?_
  obtain ⟨hid, hschemaId, hkeys⟩ := hinfo
  -- the row of the table, with the constraints of the latest version if it is created here
  generalize hrow : (if decide (table.localChange = .created) = true then
      { info with constraints := effectiveConstraints latest new.1 } else info) = row
  have hrowId : row.id = new.1 := by
    rw [← hrow]
    split
    · exact hid
    · exact hid
  have hrowSchema : IsCommitted row.schemaId := by
    rw [← hrow]
    split
    · exact hschemaId
    · exact hschemaId
  have hrowKeys : ∀ key ∈ row.constraints, IsCommitted key.tableId := by
    rw [← hrow]
    intro key hkey
    split at hkey
    · rw [effectiveConstraints_tableId hkey]
      exact hnew
    · rw [hkeys key hkey]
      exact hnew
  let r : NewTableInfo := { walk.result with
    newTables := walk.result.newTables ++ [row]
    newInlinedDataTables := walk.result.newInlinedDataTables ++ [inlinedTableEntry latest new.1] }
  have hrefers : r.Refers := { hr with
    tables := forall_mem_concat hr.tables ⟨hrowId ▸ hnew, hrowSchema, hrowKeys⟩
    inlinedTables := forall_mem_concat hr.inlinedTables hnew }
  have hcreated : Yields (Collected scope
      { L with spent := L.spent + 1, tables := table.tableId :: L.tables } r)
      (createdTableKeys address latest table new.1 (decide (table.localChange = .created)) r)
      fun r' => Collected scope
        { L with spent := L.spent + 3, tables := table.tableId :: L.tables } r' :=
    createdTableKeys_collected hnew (by dsimp only; omega) address _
  refine (hcreated.mono (fun s hs => ⟨?_, hrefers⟩) fun _ _ hs => hs).bind fun r' =>
    .pure fun s hs => hs
  refine hs.narrow (Nat.le_refl _) ?_ (.refl _) (List.Subset.refl _) (List.Subset.refl _)
    (List.Subset.refl _) (List.Subset.refl _)
  refine List.perm_iff_count.2 fun a => ?_
  simp only [NewTableInfo.newIds, r, List.map_append, List.map_cons, List.map_nil, hrowId,
    List.filter_append, List.count_append]
  omega

/-- The id of a committed table may be used, and so may one that is replaced. -/
theorem Collected.add {r : NewTableInfo} {s : CommitAttempt} {id : TableIndex}
    (h : Collected scope L r s) (hid : IsCommitted id ∨ id ∈ L.tables) :
    Collected scope { L with tables := id :: L.tables } r s := by
  refine ⟨{ h.1 with tables := fun id' hid' => ?_ }, h.2⟩
  rcases List.mem_cons.1 hid' with rfl | hid'
  · exact h.1.getTableId hid
  · exact h.1.tables id' hid'

theorem ofExcept_collected {α : Type} {r : NewTableInfo} {e : Except Exception α} :
    Yields (Collected scope L r) (MonadExcept.ofExcept e : CommitM α) fun _ =>
      Collected scope L r :=
  .ofExcept fun _ _ hs _ => hs

/-! ### Versions without a row of their own -/

variable {table latest : DuckLakeTableEntry} {walk : TableWalk}

theorem setTableComment_collected (hx : IsCommitted table.tableId ∨ table.tableId ∈ L.tables)
    (hknown : scope.Known table.tableId) :
    Yields (Collected scope L walk.result) (setTableComment table walk) fun walk' =>
      Collected scope L walk'.result := by
  unfold setTableComment
  dsimp only
  split
  · exact .pure fun s hs => hs
  · refine .pull fun hr => ?_
    refine .bind (getTableId_accounted (by exact hx)) fun id => .pull fun hid => ?_
    refine (alterTable_accounted hknown).bind fun _ => .pure fun s hs => ⟨hs, ?_⟩
    exact { hr with tags := forall_mem_concat hr.tags hid }

theorem setColumnComment_collected (hx : IsCommitted table.tableId ∨ table.tableId ∈ L.tables)
    (hknown : scope.Known table.tableId) (field : FieldIndex) :
    Yields (Collected scope L walk.result) (setColumnComment table field walk) fun walk' =>
      Collected scope L walk'.result := by
  unfold setColumnComment
  dsimp only
  split
  · exact .pure fun s hs => hs
  · refine .pull fun hr => ?_
    refine .bind (getTableId_accounted (by exact hx)) fun id => .pull fun hid => ?_
    refine ofExcept_accounted.bind fun column => .pull fun _ => ?_
    refine (alterTable_accounted hknown).bind fun _ => .pure fun s hs => ⟨hs, ?_⟩
    exact { hr with columnTags := forall_mem_concat hr.columnTags hid }

omit [SQLWriter] in
/-- Rows of columns of a committed table, which give out no ids. -/
structure ColumnRows (r r' : NewTableInfo) : Prop where
  refers : r'.Refers
  newIds : ∀ first, r'.newIds first = r.newIds first

omit [SQLWriter] in
theorem ColumnRows.trans {r r' r'' : NewTableInfo} (h : ColumnRows r r') (h' : ColumnRows r' r'') :
    ColumnRows r r'' :=
  ⟨h'.refers, fun first => (h'.newIds first).trans (h.newIds first)⟩

omit [SQLWriter] in
theorem cancelOrDropField_rows {r : NewTableInfo} (hr : r.Refers) {id : TableIndex}
    (hid : IsCommitted id) (field : FieldIndex) (added : TxnAddedFields) :
    ColumnRows r (cancelOrDropField id field r added).1 := by
  unfold cancelOrDropField
  split
  · refine ⟨{ hr with newColumns := fun row hrow => ?_ }, fun _ => rfl⟩
    exact hr.newColumns row (List.mem_of_mem_eraseIdx hrow)
  · exact ⟨{ hr with droppedColumns := forall_mem_concat hr.droppedColumns hid }, fun _ => rfl⟩

omit [SQLWriter] in
theorem pushNewColumn_rows {r : NewTableInfo} (hr : r.Refers) {column : DuckLakeNewColumn}
    (hid : IsCommitted column.tableId) (added : TxnAddedFields) :
    ColumnRows r (pushNewColumn column r added).1 :=
  ⟨{ hr with newColumns := forall_mem_concat hr.newColumns hid }, fun _ => rfl⟩

omit [SQLWriter] in
theorem foldl_rows {γ : Type} (l : List γ)
    (step : NewTableInfo × TxnAddedFields → γ → NewTableInfo × TxnAddedFields)
    (hstep : ∀ acc c, acc.1.Refers → ColumnRows acc.1 (step acc c).1)
    {acc : NewTableInfo × TxnAddedFields} (hacc : acc.1.Refers) :
    ColumnRows acc.1 (l.foldl step acc).1 := by
  induction l generalizing acc with
  | nil => exact ⟨hacc, fun _ => rfl⟩
  | cons c l ih =>
    have hfirst := hstep acc c hacc
    exact hfirst.trans (ih hfirst.refers)

omit [SQLWriter] in
theorem handleChangedFields_rows {r : NewTableInfo} (hr : r.Refers) {id : TableIndex}
    (hid : IsCommitted id) (change : ColumnChangeInfo) (added : TxnAddedFields) :
    ColumnRows r (handleChangedFields id change r added).1 := by
  have hdropped := foldl_rows change.droppedFields
    (fun acc field => cancelOrDropField id field acc.1 acc.2)
    (fun acc field h => cancelOrDropField_rows h hid field acc.2)
    (show (r, added).1.Refers from hr)
  have hextended := foldl_rows change.newFields
    (fun acc new => pushNewColumn ⟨id, new.1, new.2⟩ acc.1 acc.2)
    (fun acc new h => pushNewColumn_rows h hid acc.2) hdropped.refers
  have hrows := hdropped.trans hextended
  refine ⟨{ hrows.refers with columnTags := fun row hrow => ?_ }, hrows.newIds⟩
  exact hrows.refers.columnTags row (List.mem_filter.1 hrow).1

theorem Collected.columns {r r' : NewTableInfo} {s : CommitAttempt} (h : Collected scope L r s)
    (hrows : ColumnRows r r') : Collected scope L r' s := by
  refine ⟨?_, hrows.refers⟩
  rw [hrows.newIds]
  exact h.1

theorem changeFields_collected (hx : IsCommitted table.tableId ∨ table.tableId ∈ L.tables) :
    Yields (Collected scope L walk.result) (changeFields table walk) fun walk' =>
      Collected scope L walk'.result := by
  unfold changeFields
  refine .pull fun hr => ?_
  refine .bind (getTableId_accounted (by exact hx)) fun id => .pull fun hid => ?_
  dsimp only
  refine alterSchemaVersion_accounted.bind fun _ => .pure fun s hs => ?_
  exact Collected.columns ⟨hs, hr⟩ (handleChangedFields_rows hr hid _ _)

theorem addColumn_collected (hx : IsCommitted table.tableId ∨ table.tableId ∈ L.tables)
    (hknown : scope.Known table.tableId) :
    Yields (Collected scope L walk.result) (addColumn table walk) fun walk' =>
      Collected scope L walk'.result := by
  unfold addColumn
  refine .pull fun hr => ?_
  refine .bind (getTableId_accounted (by exact hx)) fun id => .pull fun hid => ?_
  refine ofExcept_accounted.bind fun info => .pull fun _ => ?_
  dsimp only
  refine (alterTable_accounted hknown).bind fun _ => ?_
  refine alterSchemaVersion_accounted.bind fun _ => .pure fun s hs => ?_
  exact Collected.columns ⟨hs, hr⟩ (pushNewColumn_rows hr hid walk.txnAddedFields)

theorem alterField_collected (hx : IsCommitted table.tableId ∨ table.tableId ∈ L.tables)
    (hknown : scope.Known table.tableId) (hroom : L.spent < scope.limit) (address : EntryAddress)
    (field : FieldIndex) :
    Yields (Collected scope L walk.result) (alterField address table field walk) fun walk' =>
      Collected scope { L with spent := L.spent + 1 } walk'.result := by
  unfold alterField
  dsimp only
  split
  · exact .pure fun s hs => hs.more (Nat.le_succ _) rfl rfl (List.Subset.refl _) rfl rfl
  · refine .pull fun hr => ?_
    refine .bind (getTableId_accounted (by exact hx)) fun id => .pull fun hid => ?_
    refine ofExcept_accounted.bind fun info => .pull fun _ => ?_
    refine (alterTable_accounted hknown).bind fun _ => ?_
    refine alterSchemaVersion_accounted.bind fun _ => ?_
    have hcanceled := cancelOrDropField_rows hr hid field walk.txnAddedFields
    have hpushed : ColumnRows _ (pushNewColumn ⟨id, info, none⟩ _ _).1 :=
      pushNewColumn_rows hcanceled.refers hid
        (cancelOrDropField id field walk.result walk.txnAddedFields).2
    have hrows := hcanceled.trans hpushed
    refine .bind (renamedSortKeys_accounted (by exact hroom) address _) fun keys =>
      .pull fun hkeys => .pure fun s hs => ?_
    have hcollected := @Collected.keys _ scope { L with spent := L.spent + 1 } _ s [] keys
      (by simpa [hrows.newIds] using hs) hrows.refers (by simp) hkeys
    simpa using hcollected

/-! ### Chains of versions -/

/-- An id that has been replaced before may be used. -/
theorem getCommitState_lookup (id : TableIndex) :
    Yields (Accounted.At scope L) getCommitState fun state s =>
      Accounted.At scope
        (if (state.committedTables.lookup id).isSome then { L with tables := id :: L.tables }
          else L) s := by
  intro s h state s' hrun
  cases hrun
  split
  · rename_i hsome
    obtain ⟨value, hvalue⟩ := Option.isSome_iff_exists.1 hsome
    have hcommitted : IsCommitted (s.commitState.getTableId id) := by
      rw [DuckLakeCommitState.getTableId, hvalue]
      have hfound : IsCommitted ((s.commitState.committedTables.lookup id).getD 0) :=
        getD_lookup h.tableValues (by decide)
      rwa [hvalue] at hfound
    refine { h with tables := fun id' hid' => ?_ }
    rcases List.mem_cons.1 hid' with rfl | hid'
    · exact hcommitted
    · exact h.tables id' hid'
  · exact h

omit [SQLWriter] in
theorem renameEmittedTable_rows {id : TableIndex} {name : Text} {l : List DuckLakeTableInfo} :
    (renameEmittedTable id name l).map (·.id) = l.map (·.id) ∧
      ∀ row ∈ renameEmittedTable id name l, ∃ old ∈ l, row.id = old.id ∧
        row.schemaId = old.schemaId ∧ row.constraints = old.constraints := by
  induction l with
  | nil => exact ⟨rfl, by simp [renameEmittedTable]⟩
  | cons entry l ih =>
    unfold renameEmittedTable
    split
    · refine ⟨rfl, fun row hrow => ?_⟩
      rcases List.mem_cons.1 hrow with rfl | hrow
      · exact ⟨entry, .head _, rfl, rfl, rfl⟩
      · exact ⟨row, .tail _ hrow, rfl, rfl, rfl⟩
    · refine ⟨by rw [List.map_cons, List.map_cons, ih.1], fun row hrow => ?_⟩
      rcases List.mem_cons.1 hrow with rfl | hrow
      · exact ⟨row, .head _, rfl, rfl, rfl⟩
      · obtain ⟨old, hold, hsame⟩ := ih.2 row hrow
        exact ⟨old, .tail _ hold, hsame⟩

omit [SQLWriter] in
theorem renameEmittedView_rows {id : TableIndex} {name : Text} {l : List DuckLakeViewInfo} :
    (renameEmittedView id name l).map (·.id) = l.map (·.id) ∧
      ∀ row ∈ renameEmittedView id name l, ∃ old ∈ l, row.id = old.id ∧
        row.schemaId = old.schemaId := by
  induction l with
  | nil => exact ⟨rfl, by simp [renameEmittedView]⟩
  | cons entry l ih =>
    unfold renameEmittedView
    split
    · refine ⟨rfl, fun row hrow => ?_⟩
      rcases List.mem_cons.1 hrow with rfl | hrow
      · exact ⟨entry, .head _, rfl, rfl⟩
      · exact ⟨row, .tail _ hrow, rfl, rfl⟩
    · refine ⟨by rw [List.map_cons, List.map_cons, ih.1], fun row hrow => ?_⟩
      rcases List.mem_cons.1 hrow with rfl | hrow
      · exact ⟨row, .head _, rfl, rfl⟩
      · obtain ⟨old, hold, hsame⟩ := ih.2 row hrow
        exact ⟨old, .tail _ hold, hsame⟩

theorem newTableRow_collected (hroom : L.spent + 2 < scope.limit)
    (hold : IsCommitted table.tableId → table.tableId < scope.env.snapshot.nextCatalogId)
    (hschema : IsCommitted table.schema.schemaId ∨ table.schema.schemaId ∈ L.schemas)
    (address : EntryAddress) :
    Yields (Collected scope L walk.result) (newTableRow address latest table walk) fun walk' =>
      Collected scope { L with spent := L.spent + 3, tables := table.tableId :: L.tables }
        walk'.result := by
  unfold newTableRow
  refine .pull fun hr => ?_
  refine .bind (getCommitState_lookup table.tableId) fun state => ?_
  dsimp only
  have hemit : Yields (Collected scope L walk.result) (emitNewTable address latest table walk)
      fun walk' => Collected scope
        { L with spent := L.spent + 3, tables := table.tableId :: L.tables } walk'.result :=
    emitNewTable_collected hroom hold hschema address
  cases state.committedTables.lookup table.tableId with
  | none =>
    simp only [Option.isSome_none, Bool.false_eq_true, if_false]
    split
    · contradiction
    · exact hemit.mono (fun s hs => ⟨hs, hr⟩) fun _ _ hs => hs
  | some id =>
    simp only [Option.isSome_some, if_true]
    split
    · refine .pure fun s hs => ⟨?_, ?_⟩
      · refine hs.narrow (Nat.le_add_right _ 3) ?_ (.refl _) (List.Subset.refl _)
          (List.Subset.refl _) (List.Subset.refl _) (List.Subset.refl _)
        simp only [NewTableInfo.newIds, renameEmittedTable_rows.1]
        exact .refl _
      · refine { hr with tables := fun row hrow => ?_ }
        obtain ⟨old, hold', hid, hschema', hkeys⟩ := renameEmittedTable_rows.2 row hrow
        obtain ⟨hcommitted, hcommitted', hconstraints⟩ := hr.tables old hold'
        exact ⟨hid ▸ hcommitted, hschema' ▸ hcommitted', hkeys ▸ hconstraints⟩
    · refine hemit.mono (fun s hs => ⟨?_, hr⟩) fun _ _ hs => hs
      exact hs.narrow (Nat.le_refl _) (.refl _) (.refl _) (List.Subset.refl _)
        (List.subset_cons_self _ _) (List.Subset.refl _) (List.Subset.refl _)

/-- One version of a table. -/
theorem newTableStep_collected {version : DuckLakeTableEntry × EntryAddress}
    (hroom : L.spent + 2 < scope.limit)
    (hold : IsCommitted version.1.tableId → version.1.tableId < scope.env.snapshot.nextCatalogId)
    (hschema : IsCommitted version.1.schema.schemaId ∨ version.1.schema.schemaId ∈ L.schemas)
    (hx : IsCommitted version.1.tableId ∨ version.1.tableId ∈ L.tables ∨
      version.1.localChange.writesRow = true)
    (hknown : scope.Known version.1.tableId) :
    Yields (Collected scope L walk.result) (newTableStep latest walk version) fun walk' =>
      Collected scope { L with spent := L.spent + 3, tables := version.1.tableId :: L.tables }
        walk'.result := by
  obtain ⟨table, address⟩ := version
  dsimp only at hold hschema hx hknown ⊢
  have hrow : Yields (Collected scope L walk.result) (newTableRow address latest table walk)
      fun walk' => Collected scope
        { L with spent := L.spent + 3, tables := table.tableId :: L.tables } walk'.result :=
    newTableRow_collected hroom hold hschema address
  -- the other versions need the table to be there
  have hother : ∀ {m : CommitM TableWalk} {n : Nat}, n ≤ L.spent + 3 →
      table.localChange.writesRow = false →
      (IsCommitted table.tableId ∨ table.tableId ∈ L.tables →
        Yields (Collected scope L walk.result) m fun walk' =>
          Collected scope { L with spent := n } walk'.result) →
      Yields (Collected scope L walk.result) m fun walk' => Collected scope
        { L with spent := L.spent + 3, tables := table.tableId :: L.tables } walk'.result := by
    intro m n hn hno hm
    have hthere : IsCommitted table.tableId ∨ table.tableId ∈ L.tables := by
      rcases hx with h | h | h
      · exact .inl h
      · exact .inr h
      · rw [hno] at h
        cases h
    refine (hm hthere).mono (fun s hs => hs) fun walk' s hs => ?_
    exact (hs.add hthere).more hn rfl rfl (List.Subset.refl _) rfl rfl
  unfold newTableStep
  dsimp only
  cases hchange : table.localChange with
  | none => exact hrow
  | created => exact hrow
  | renamed => exact hrow
  | setPartitionKey =>
    refine hother (n := L.spent + 1) (by omega) (by rw [hchange]; rfl) fun hthere => ?_
    refine .pull fun hr => ?_
    refine .bind (getNewPartitionKey_accounted (by dsimp only; omega) address) fun key =>
      .pull fun hkey => ?_
    refine (alterTable_accounted hknown).bind fun _ => ?_
    refine alterSchemaVersion_accounted.bind fun _ => .pure fun s hs => ?_
    have hcollected := @Collected.keys _ scope { L with spent := L.spent + 1 } walk.result s [key] []
      (by cases hid : key.id <;> simpa [hid] using hs) hr (by simpa using hkey) (by simp)
    simpa using hcollected
  | setSortKey =>
    refine hother (n := L.spent + 1) (by omega) (by rw [hchange]; rfl) fun hthere => ?_
    refine .pull fun hr => ?_
    refine .bind (getNewSortKey_accounted (by dsimp only; omega) address) fun key =>
      .pull fun hkey => ?_
    refine (alterTable_accounted hknown).bind fun _ => .pure fun s hs => ?_
    have hcollected := @Collected.keys _ scope { L with spent := L.spent + 1 } walk.result s [] [key]
      (by cases hid : key.id <;> simpa [hid] using hs) hr (by simp) (by simpa using hkey)
    simpa using hcollected
  | addConstraint =>
    refine hother (n := L.spent) (by omega) (by rw [hchange]; rfl) fun hthere => ?_
    dsimp only
    split
    · refine .pull fun hr => ?_
      refine (alterTable_accounted hknown).bind fun _ => ?_
      exact alterSchemaVersion_accounted.bind fun _ => .pure fun s hs => ⟨hs, hr⟩
    · exact .pure fun s hs => hs
  | setComment =>
    exact hother (n := L.spent) (by omega) (by rw [hchange]; rfl)
      fun hthere => setTableComment_collected hthere hknown
  | setColumnComment field =>
    exact hother (n := L.spent) (by omega) (by rw [hchange]; rfl)
      fun hthere => setColumnComment_collected hthere hknown field
  | setNull field =>
    exact hother (n := L.spent + 1) (by omega) (by rw [hchange]; rfl)
      fun hthere => alterField_collected hthere hknown (by omega) address field
  | dropNull field =>
    exact hother (n := L.spent + 1) (by omega) (by rw [hchange]; rfl)
      fun hthere => alterField_collected hthere hknown (by omega) address field
  | setDefault field =>
    exact hother (n := L.spent + 1) (by omega) (by rw [hchange]; rfl)
      fun hthere => alterField_collected hthere hknown (by omega) address field
  | renameColumn field =>
    exact hother (n := L.spent + 1) (by omega) (by rw [hchange]; rfl)
      fun hthere => alterField_collected hthere hknown (by omega) address field
  | removeColumn field =>
    exact hother (n := L.spent) (by omega) (by rw [hchange]; rfl)
      fun hthere => changeFields_collected hthere
  | changeColumnType =>
    exact hother (n := L.spent) (by omega) (by rw [hchange]; rfl)
      fun hthere => changeFields_collected hthere
  | addColumn =>
    exact hother (n := L.spent) (by omega) (by rw [hchange]; rfl)
      fun hthere => addColumn_collected hthere hknown
  | setViewColumnComment name => exact .throw

theorem finishTable_collected (hx : latest.tableId ∈ L.tables) :
    Yields (Collected scope L walk.result) (finishTable latest walk) fun r =>
      Collected scope L r := by
  unfold finishTable
  refine .pull fun hr => ?_
  refine .bind (getTableId_accounted (.inr hx)) fun id => .pull fun hid => ?_
  dsimp only
  refine .pure fun s hs => ?_
  -- the final keys, then the inlined data table
  generalize hwalk : (if (walk.constraintsTouched && !walk.tableCreatedInTxn) = true then
      { walk.result with
        replacementConstraints :=
          insertSorted id (effectiveConstraints latest id) walk.result.replacementConstraints }
    else walk.result) = r
  have hcollected : Collected scope L r s := by
    rw [← hwalk]
    split
    · refine ⟨hs, { hr with constraints := fun row hrow => ?_ }⟩
      rcases mem_insertSorted hrow with rfl | hrow
      · exact ⟨hid, fun key hkey => effectiveConstraints_tableId hkey ▸ hid⟩
      · exact hr.constraints row hrow
    · exact ⟨hs, hr⟩
  split
  · refine ⟨hcollected.1, { hcollected.2 with inlinedTables := ?_ }⟩
    exact forall_mem_concat hcollected.2.inlinedTables hid
  · exact hcollected

/-- All versions of a table. -/
theorem getNewTableInfo_collected {chain : List DuckLakeTableEntry} {r : NewTableInfo}
    (hchain : (StagedEntry.table chain).Writable scope.env.snapshot.nextCatalogId L.schemas)
    (hknown : ∀ table ∈ chain, scope.Known table.tableId)
    (hroom : L.spent + 3 * chain.length ≤ scope.limit) (schema entry : Nat) :
    Yields (Collected scope L r) (getNewTableInfo schema entry chain r) fun r' =>
      Collected scope { L with
        spent := L.spent + 3 * chain.length
        tables := chain.map (·.tableId) ++ L.tables } r' := by
  cases chain with
  | nil => exact .pure fun s hs => hs
  | cons latest older =>
    unfold getNewTableInfo
    dsimp only
    have hfst := chainVersions_fst schema entry (latest :: older)
    generalize chainVersions schema entry (latest :: older) = versions at hfst
    have hlength : versions.length = older.length + 1 := by simpa using congrArg List.length hfst
    have hmem : ∀ version ∈ versions, version.1 ∈ latest :: older := by
      intro version hversion
      rw [← List.mem_reverse, ← hfst]
      exact List.mem_map_of_mem hversion
    have hloop : Yields (Collected scope L r)
        (versions.foldlM (newTableStep latest) (TableWalk.start (latest :: older) r)) fun walk =>
        Collected scope { L with
          spent := L.spent + 3 * (older.length + 1)
          tables := (versions.map (·.1.tableId)).reverse ++ L.tables } walk.result := by
      refine (Yields.foldlM (fun (done : List (DuckLakeTableEntry × EntryAddress))
        (walk : TableWalk) => Collected scope { L with
          spent := L.spent + 3 * done.length
          tables := (done.map (·.1.tableId)).reverse ++ L.tables } walk.result) ?_).mono
        (fun s hs => hs) (fun walk s hs => hlength ▸ hs)
      intro done version rest walk hsplit
      have hversion := hmem version (by simp [hsplit])
      have hdone : done.length < older.length + 1 := by
        rw [← hlength, hsplit]
        simp
      have hx : IsCommitted version.1.tableId ∨
          version.1.tableId ∈ (done.map (·.1.tableId)).reverse ++ L.tables ∨
          version.1.localChange.writesRow = true := by
        cases done with
        | nil =>
          by_cases hcommitted : IsCommitted version.1.tableId
          · exact .inl hcommitted
          · refine .inr (.inr (hchain.startsWithRow version.1 ?_ hcommitted))
            -- the first version that is walked over is the last one of the chain
            rw [← List.head?_reverse, ← hfst, hsplit]
            rfl
        | cons first done =>
          refine .inr (.inl (List.mem_append_left _ ?_))
          rw [List.mem_reverse]
          refine List.mem_map.2 ⟨first, List.mem_cons_self, ?_⟩
          exact hchain.sameId first.1 (hmem first (by simp [hsplit])) version.1 hversion
      rw [List.length_cons] at hroom
      refine (newTableStep_collected
        (L := { L with
          spent := L.spent + 3 * done.length
          tables := (done.map (·.1.tableId)).reverse ++ L.tables })
        (by dsimp only; omega) (hchain.known version.1 hversion)
        (hchain.inSchema version.1 hversion) hx
        (hknown version.1 hversion)).mono (fun s hs => hs) fun walk' s hs => ?_
      simpa [Nat.mul_add, ← Nat.add_assoc] using hs
    refine hloop.bind fun walk => ?_
    have hids : (versions.map (·.1.tableId)).reverse = (latest :: older).map (·.tableId) := by
      have hmap := congrArg (List.map (·.tableId)) hfst
      rw [List.map_map, List.map_reverse] at hmap
      rw [show (fun version : DuckLakeTableEntry × EntryAddress => version.1.tableId) =
        (·.tableId) ∘ (·.1) from rfl, hmap, List.reverse_reverse]
    rw [hids]
    exact finishTable_collected (by simp)

/-! ### Views -/

variable {view : DuckLakeViewEntry} {views : ViewWalk}

theorem setViewComment_collected (hx : IsCommitted view.viewId ∨ view.viewId ∈ L.tables)
    (hknown : scope.Known view.viewId) :
    Yields (Collected scope L views.result) (setViewComment view views) fun views' =>
      Collected scope L views'.result := by
  unfold setViewComment
  dsimp only
  split
  · exact .pure fun s hs => hs
  · refine .pull fun hr => ?_
    refine .bind (getTableId_accounted (by exact hx)) fun id => .pull fun hid => ?_
    refine (alterView_accounted hknown).bind fun _ => .pure fun s hs => ⟨hs, ?_⟩
    exact { hr with tags := forall_mem_concat hr.tags hid }

theorem setViewColumnComment_collected (hx : IsCommitted view.viewId ∨ view.viewId ∈ L.tables)
    (hknown : scope.Known view.viewId) (name : Text) :
    Yields (Collected scope L views.result) (setViewColumnComment view name views) fun views' =>
      Collected scope L views'.result := by
  unfold setViewColumnComment
  dsimp only
  refine .bind ofExcept_collected fun _ => ?_
  split
  · exact .pure fun s hs => hs
  · refine .pull fun hr => ?_
    refine .bind (getTableId_accounted (by exact hx)) fun id => .pull fun hid => ?_
    refine (alterView_accounted hknown).bind fun _ => .pure fun s hs => ⟨hs, ?_⟩
    exact { hr with viewColumnTags := forall_mem_concat hr.viewColumnTags hid }

theorem emitNewView_collected (hroom : L.spent < scope.limit)
    (hold : IsCommitted view.viewId → view.viewId < scope.env.snapshot.nextCatalogId)
    (hschema : IsCommitted view.schema.schemaId ∨ view.schema.schemaId ∈ L.schemas) :
    Yields (Collected scope L views.result) (emitNewView view views) fun views' =>
      Collected scope { L with spent := L.spent + 1, tables := view.viewId :: L.tables }
        views'.result := by
  unfold emitNewView
  refine .pull fun hr => ?_
  refine .bind (allocateTableId_accounted (by exact hroom) hold) fun new => .pull fun hnew => ?_
  refine .bind (.mono (.frame (getSchemaId_accounted (by exact hschema))
    fun s id t hrun => by cases hrun; rfl) (fun s hs => hs) fun _ _ hs => and_right_comm.1 hs)
    fun schemaId => .pull fun hid => ?_
  dsimp only
  refine (emplaceTable_accounted new.2 hnew).bind fun _ => .pure fun s hs => ⟨?_, ?_⟩
  · refine hs.narrow (Nat.le_refl _) ?_ (.refl _) (List.Subset.refl _) (List.Subset.refl _)
      (List.Subset.refl _) (List.Subset.refl _)
    refine List.perm_iff_count.2 fun a => ?_
    simp only [NewTableInfo.newIds, List.map_append, List.map_cons, List.map_nil,
      List.filter_append, List.count_append]
    omega
  · refine { hr with
      views := forall_mem_concat hr.views ⟨hnew, hid⟩
      viewColumnTags := List.forall_mem_append.2 ⟨hr.viewColumnTags, fun row hrow => ?_⟩ }
    obtain ⟨tag, -, rfl⟩ := List.mem_map.1 hrow
    exact hnew

theorem newViewRow_collected (hroom : L.spent < scope.limit)
    (hold : IsCommitted view.viewId → view.viewId < scope.env.snapshot.nextCatalogId)
    (hschema : IsCommitted view.schema.schemaId ∨ view.schema.schemaId ∈ L.schemas) :
    Yields (Collected scope L views.result) (newViewRow view views) fun views' =>
      Collected scope { L with spent := L.spent + 1, tables := view.viewId :: L.tables }
        views'.result := by
  unfold newViewRow
  refine .pull fun hr => ?_
  refine .bind (getCommitState_lookup view.viewId) fun state => ?_
  dsimp only
  have hemit : Yields (Collected scope L views.result) (emitNewView view views) fun views' =>
      Collected scope { L with spent := L.spent + 1, tables := view.viewId :: L.tables }
        views'.result :=
    emitNewView_collected hroom hold hschema
  cases state.committedTables.lookup view.viewId with
  | none =>
    simp only [Option.isSome_none, Bool.false_eq_true, if_false]
    split
    · contradiction
    · exact hemit.mono (fun s hs => ⟨hs, hr⟩) fun _ _ hs => hs
  | some id =>
    simp only [Option.isSome_some, if_true]
    split
    · refine .pure fun s hs => ⟨?_, ?_⟩
      · refine hs.narrow (Nat.le_add_right _ 1) ?_ (.refl _) (List.Subset.refl _)
          (List.Subset.refl _) (List.Subset.refl _) (List.Subset.refl _)
        simp only [NewTableInfo.newIds, renameEmittedView_rows.1]
        exact .refl _
      · refine { hr with views := fun row hrow => ?_ }
        obtain ⟨old, hold', hid, hschema'⟩ := renameEmittedView_rows.2 row hrow
        obtain ⟨hcommitted, hcommitted'⟩ := hr.views old hold'
        exact ⟨hid ▸ hcommitted, hschema' ▸ hcommitted'⟩
    · refine hemit.mono (fun s hs => ⟨?_, hr⟩) fun _ _ hs => hs
      exact hs.narrow (Nat.le_refl _) (.refl _) (.refl _) (List.Subset.refl _)
        (List.subset_cons_self _ _) (List.Subset.refl _) (List.Subset.refl _)

/-- One version of a view. -/
theorem newViewStep_collected (hroom : L.spent < scope.limit)
    (hold : IsCommitted view.viewId → view.viewId < scope.env.snapshot.nextCatalogId)
    (hschema : IsCommitted view.schema.schemaId ∨ view.schema.schemaId ∈ L.schemas)
    (hx : IsCommitted view.viewId ∨ view.viewId ∈ L.tables ∨ view.localChange.writesRow = true)
    (hknown : scope.Known view.viewId) :
    Yields (Collected scope L views.result) (newViewStep views view) fun views' =>
      Collected scope { L with spent := L.spent + 1, tables := view.viewId :: L.tables }
        views'.result := by
  have hrow : Yields (Collected scope L views.result) (newViewRow view views) fun views' =>
      Collected scope { L with spent := L.spent + 1, tables := view.viewId :: L.tables }
        views'.result :=
    newViewRow_collected hroom hold hschema
  have hother : ∀ {m : CommitM ViewWalk}, view.localChange.writesRow = false →
      (IsCommitted view.viewId ∨ view.viewId ∈ L.tables →
        Yields (Collected scope L views.result) m fun views' => Collected scope L views'.result) →
      Yields (Collected scope L views.result) m fun views' => Collected scope
        { L with spent := L.spent + 1, tables := view.viewId :: L.tables } views'.result := by
    intro m hno hm
    have hthere : IsCommitted view.viewId ∨ view.viewId ∈ L.tables := by
      rcases hx with h | h | h
      · exact .inl h
      · exact .inr h
      · rw [hno] at h
        cases h
    refine (hm hthere).mono (fun s hs => hs) fun views' s hs => ?_
    exact (hs.add hthere).more (Nat.le_succ _) rfl rfl (List.Subset.refl _) rfl rfl
  unfold newViewStep
  cases hchange : view.localChange with
  | none => exact hrow
  | created => exact hrow
  | renamed => exact hrow
  | setComment =>
    exact hother (by rw [hchange]; rfl) fun hthere => setViewComment_collected hthere hknown
  | setViewColumnComment name =>
    exact hother (by rw [hchange]; rfl)
      fun hthere => setViewColumnComment_collected hthere hknown name
  | _ => exact .throw

/-- All versions of a view. -/
theorem getNewViewInfo_collected {chain : List DuckLakeViewEntry} {r : NewTableInfo}
    (hchain : (StagedEntry.view chain).Writable scope.env.snapshot.nextCatalogId L.schemas)
    (hknown : ∀ view ∈ chain, scope.Known view.viewId)
    (hroom : L.spent + chain.length ≤ scope.limit) :
    Yields (Collected scope L r) (getNewViewInfo chain r) fun r' =>
      Collected scope { L with
        spent := L.spent + chain.length
        tables := chain.map (·.viewId) ++ L.tables } r' := by
  unfold getNewViewInfo
  have hloop : Yields (Collected scope L r)
      (chain.reverse.foldlM newViewStep (ViewWalk.start chain r)) fun views =>
      Collected scope { L with
        spent := L.spent + chain.length
        tables := chain.map (·.viewId) ++ L.tables } views.result := by
    refine (Yields.foldlM (fun (done : List DuckLakeViewEntry) (views : ViewWalk) =>
      Collected scope { L with
        spent := L.spent + done.length
        tables := (done.map (·.viewId)).reverse ++ L.tables } views.result) ?_).mono
      (fun s hs => hs) (fun views s hs => by simpa using hs)
    intro done view rest views hsplit
    have hmem : ∀ v ∈ done ++ view :: rest, v ∈ chain := by
      intro v hv
      rwa [← hsplit, List.mem_reverse] at hv
    have hview := hmem view (by simp)
    have hdone : done.length < chain.length := by
      rw [← chain.length_reverse, hsplit]
      simp
    have hx : IsCommitted view.viewId ∨ view.viewId ∈ (done.map (·.viewId)).reverse ++ L.tables ∨
        view.localChange.writesRow = true := by
      cases done with
      | nil =>
        by_cases hcommitted : IsCommitted view.viewId
        · exact .inl hcommitted
        · refine .inr (.inr (hchain.startsWithRow view ?_ hcommitted))
          rw [← List.head?_reverse, hsplit]
          rfl
      | cons first done =>
        refine .inr (.inl (List.mem_append_left _ ?_))
        rw [List.mem_reverse]
        refine List.mem_map.2 ⟨first, List.mem_cons_self, ?_⟩
        exact hchain.sameId first (hmem first (by simp)) view hview
    refine (newViewStep_collected
      (L := { L with
        spent := L.spent + done.length
        tables := (done.map (·.viewId)).reverse ++ L.tables })
      (by dsimp only; omega) (hchain.known view hview) (hchain.inSchema view hview) hx
      (hknown view hview)).mono (fun s hs => hs) fun views' s hs => ?_
    simpa [← Nat.add_assoc] using hs
  exact hloop.bind fun views => .pure fun s hs => hs

/-! ### All entries -/

theorem getNewEntry_collected {entry : StagedEntry} {r : NewTableInfo}
    (hentry : entry.Writable scope.env.snapshot.nextCatalogId L.schemas)
    (hknown : ∀ id ∈ entry.ids, scope.Known id) (hroom : L.spent + entry.size ≤ scope.limit)
    (schema index : Nat) :
    Yields (Collected scope L r) (getNewEntry schema r (entry, index)) fun r' =>
      Collected scope { L with
        spent := L.spent + entry.size
        tables := entry.ids ++ L.tables } r' := by
  cases entry with
  | table chain =>
    refine getNewTableInfo_collected hentry (fun table htable => hknown _ ?_) hroom schema index
    exact List.mem_map_of_mem htable
  | view chain =>
    refine getNewViewInfo_collected hentry (fun view hview => hknown _ ?_) hroom
    exact List.mem_map_of_mem hview

/-- The entries of one schema. -/
theorem getNewEntries_collected {entries : List StagedEntry} {r : NewTableInfo}
    (hentries : ∀ entry ∈ entries, entry.Writable scope.env.snapshot.nextCatalogId L.schemas)
    (hknown : ∀ id ∈ entries.flatMap (·.ids), scope.Known id)
    (hroom : L.spent + (entries.map (·.size)).sum ≤ scope.limit) (schema : Nat) :
    Yields (Collected scope L r) (entries.zipIdx.foldlM (getNewEntry schema) r) fun r' =>
      Collected scope { L with
        spent := L.spent + (entries.map (·.size)).sum
        tables := entries.flatMap (·.ids) ++ L.tables } r' := by
  have hfst : entries.zipIdx.map (·.1) = entries := List.zipIdx_map_fst 0 entries
  refine (Yields.foldlM (fun (done : List (StagedEntry × Nat)) (r : NewTableInfo) =>
    Collected scope { L with
      spent := L.spent + (done.map (·.1.size)).sum
      tables := done.flatMap (·.1.ids) ++ L.tables } r) ?_).mono (fun s hs => hs) ?_
  · intro done entry rest r hsplit
    have hparts : entries = done.map (·.1) ++ entry.1 :: rest.map (·.1) := by
      rw [← hfst, hsplit, List.map_append, List.map_cons]
    have hmem : entry.1 ∈ entries := by simp [hparts]
    rw [hparts, List.map_append, List.map_map, List.map_cons, List.sum_append,
      List.sum_cons] at hroom
    refine (getNewEntry_collected
      (L := { L with
        spent := L.spent + (done.map (·.1.size)).sum
        tables := done.flatMap (·.1.ids) ++ L.tables })
      (hentries entry.1 hmem) (fun id hid => hknown id (List.mem_flatMap.2 ⟨entry.1, hmem, hid⟩))
      ?_ schema entry.2).mono (fun s hs => hs) fun r' s hs => ?_
    · dsimp only [Function.comp_def] at hroom ⊢
      omega
    · refine hs.more ?_ rfl rfl ?_ rfl rfl
      · simp [← Nat.add_assoc]
      · intro id hid
        simp only [List.mem_append, List.flatMap_append, List.flatMap_cons, List.flatMap_nil] at hid ⊢
        tauto
  · intro r' s hs
    have hsizes : entries.zipIdx.map (·.1.size) = entries.map (·.size) := by
      nth_rewrite 2 [← hfst]
      rw [List.map_map]
      rfl
    have hids : entries.zipIdx.flatMap (·.1.ids) = entries.flatMap (·.ids) := by
      nth_rewrite 2 [← hfst]
      rw [List.flatMap_map]
    rwa [hsizes, hids] at hs

theorem getNewTables_collected {T : StagedTransaction} (hL : L.newIds = [])
    (hentries : ∀ entry ∈ T.stagedEntries,
      entry.Writable scope.env.snapshot.nextCatalogId L.schemas)
    (hknown : ∀ id ∈ T.stagedTables, scope.Known id)
    (hroom : L.spent + (T.stagedEntries.map (·.size)).sum ≤ scope.limit) :
    Yields (Accounted.At scope L) (getNewTables T) fun r =>
      Collected scope { L with
        spent := L.spent + (T.stagedEntries.map (·.size)).sum
        tables := T.stagedTables ++ L.tables } r := by
  unfold getNewTables
  have hfst : T.newTables.zipIdx.map (·.1) = T.newTables := List.zipIdx_map_fst 0 T.newTables
  refine (Yields.foldlM (fun (done : List ((SchemaIndex × List StagedEntry) × Nat))
    (r : NewTableInfo) => Collected scope { L with
      spent := L.spent + ((done.flatMap (·.1.2)).map (·.size)).sum
      tables := (done.flatMap (·.1.2)).flatMap (·.ids) ++ L.tables } r) ?_).mono ?_ ?_
  · intro done schema rest r hsplit
    have hparts : T.stagedEntries = done.flatMap (·.1.2) ++ (schema.1.2 ++ rest.flatMap (·.1.2)) := by
      rw [StagedTransaction.stagedEntries, ← hfst, hsplit, List.map_append, List.map_cons,
        List.flatMap_append, List.flatMap_cons, List.flatMap_map, List.flatMap_map]
    have hmem : ∀ entry ∈ schema.1.2, entry ∈ T.stagedEntries := by
      intro entry hentry
      simp [hparts, hentry]
    rw [hparts, List.map_append, List.map_append, List.sum_append, List.sum_append] at hroom
    refine (getNewEntries_collected
      (L := { L with
        spent := L.spent + ((done.flatMap (·.1.2)).map (·.size)).sum
        tables := (done.flatMap (·.1.2)).flatMap (·.ids) ++ L.tables })
      (fun entry hentry => hentries entry (hmem entry hentry)) (fun id hid => hknown id ?_)
      (by dsimp only; omega) schema.2).mono (fun s hs => hs) fun r' s hs => ?_
    · obtain ⟨entry, hentry, hid⟩ := List.mem_flatMap.1 hid
      exact List.mem_flatMap.2 ⟨entry, hmem entry hentry, hid⟩
    · refine hs.more ?_ rfl rfl ?_ rfl rfl
      · simp [← Nat.add_assoc]
      · intro id hid
        simp only [List.mem_append, List.flatMap_append, List.flatMap_cons, List.flatMap_nil] at hid ⊢
        tauto
  · intro s hs
    refine ⟨?_, ?_⟩
    · exact hs.narrow (Nat.le_refl _) (.of_eq hL) (.refl _) (List.Subset.refl _)
        (List.Subset.refl _) (List.Subset.refl _) (List.Subset.refl _)
    · constructor <;> simp
  · intro r s hs
    have hall : T.newTables.zipIdx.flatMap (·.1.2) = T.stagedEntries := by
      rw [StagedTransaction.stagedEntries]
      nth_rewrite 2 [← hfst]
      rw [List.flatMap_map]
    rwa [hall] at hs
end Stages

end DuckLake
