import DuckLake.Storage.CommitChanges
import DuckLake.Storage.LastSpec
import DuckLake.Storage.SnapshotChangesRoundTrip

/-!
# The ids that a commit writes

A commit gives ids to what the transaction has created and replaces the transaction-local ids that
staged objects use for each other. This module says which ids a batch gives out, which ids it
refers to, and what a transaction may refer to so that no transaction-local id is written.
-/

namespace DuckLake

/-! ## The ids of a batch -/

/-- The catalog ids that a statement gives to new objects. A row of a table or view with an id from
before the commit is a new version of an old object. -/
def Statement.newCatalogIds (first : Idx) : Statement → List Idx
  | .newSchemas rows => rows.map (·.1.id)
  | .newTables rows => (rows.map (·.1.id)).filter (first ≤ ·)
  | .newViews rows => (rows.map (·.id)).filter (first ≤ ·)
  | .newPartitionKeys _ new => new.filterMap (·.id)
  | .newSortKeys _ new => new.filterMap (·.id)
  | .newMaterializedViews rows => (rows.map (·.id)).filter (first ≤ ·)
  | .newMacros rows => rows.map (·.macroId)
  | .newProcedures rows => rows.map (·.procedureId)
  | _ => []

/-- The file ids that a statement gives to new name maps, data files and delete files. -/
def Statement.newFileIds : Statement → List DataFileIndex
  | .newColumnMappings rows => rows.map (·.mappingId)
  | .newDataFiles rows => rows.map (·.1.id)
  | .newDeleteFiles rows => rows.map (·.1.id)
  | _ => []

/-- The id belongs to a committed entry. -/
def IsCommitted (id : Idx) : Prop := isTransactionLocal id = false

instance (id : Idx) : Decidable (IsCommitted id) :=
  inferInstanceAs (Decidable (isTransactionLocal id = false))

section Refers

variable [SQLWriter]

/-- All ids in the rows of a statement are committed; file ids and ids of name maps are below
`nextFile`. Rows that the environment has rendered are judged by what it rendered. -/
def Statement.Refers (env : CommitEnvironment) (nextFile : DataFileIndex) : Statement → Prop
  | .insertSnapshot => True
  | .dropTables ids _ | .dropViews ids _ => ∀ id ∈ ids, IsCommitted id
  | .dropMaterializedViews ids => ∀ id ∈ ids, IsCommitted id
  | .dropMacros ids => ∀ id ∈ ids, IsCommitted id
  | .dropProcedures ids => ∀ id ∈ ids, IsCommitted id
  | .dropSchemas ids => ∀ id ∈ ids, IsCommitted id
  | .newSchemas rows => ∀ row ∈ rows, IsCommitted row.1.id ∧ ∀ id ∈ row.1.parentId, IsCommitted id
  | .newTables rows => ∀ row ∈ rows, IsCommitted row.1.id ∧ IsCommitted row.1.schemaId ∧
      ∀ key ∈ row.1.constraints, IsCommitted key.tableId
  | .newTableOptions rows => ∀ row ∈ rows, IsCommitted row.tableId
  | .newPartitionKeys _ new => ∀ row ∈ new, IsCommitted row.tableId ∧ ∀ id ∈ row.id, IsCommitted id
  | .newViews rows => ∀ row ∈ rows, IsCommitted row.id ∧ IsCommitted row.schemaId
  | .newTags rows => ∀ row ∈ rows, IsCommitted row.id
  | .newColumnTags rows => ∀ row ∈ rows, IsCommitted row.tableId
  | .newViewColumnTags rows => ∀ row ∈ rows, IsCommitted row.viewId
  | .droppedColumns rows | .expiredColumnTags rows => ∀ row ∈ rows, IsCommitted row.tableId
  | .newColumns rows => ∀ row ∈ rows, IsCommitted row.tableId
  | .newInlinedTables rows => ∃ snapshot tables, env.writeInlinedTables snapshot tables = .ok rows ∧
      ∀ table ∈ tables, IsCommitted table.id
  | .newSortKeys _ new => ∀ row ∈ new, IsCommitted row.tableId ∧ ∀ id ∈ row.id, IsCommitted id
  | .constraintReplacements rows => ∀ row ∈ rows, IsCommitted row.1 ∧
      ∀ key ∈ row.2, IsCommitted key.tableId
  | .newMaterializedViews rows => ∀ row ∈ rows, IsCommitted row.id ∧ IsCommitted row.schemaId ∧
      IsCommitted row.backingTableId ∧ ∀ id ∈ row.dependencies, IsCommitted id
  | .materializedViewRefreshes rows | .materializedViewRefreshHistory rows =>
      ∀ row ∈ rows, IsCommitted row.viewId
  | .newMacros rows => ∀ row ∈ rows, IsCommitted row.macroId ∧ IsCommitted row.schemaId
  | .newProcedures rows => ∀ row ∈ rows, IsCommitted row.procedureId ∧ IsCommitted row.schemaId
  | .newColumnMappings rows => ∀ row ∈ rows, IsCommitted row.tableId ∧ row.mappingId < nextFile
  | .globalTableStats tableId _ _ => IsCommitted tableId
  | .deleteTableColumnStats tableId => IsCommitted tableId
  | .newDataFiles rows => ∀ row ∈ rows, IsCommitted row.1.tableId ∧
      (∀ id ∈ row.1.partitionId, IsCommitted id) ∧ row.1.id < nextFile ∧
      ∀ id ∈ row.1.mappingId, id < nextFile
  | .newInlinedData rows => ∃ snapshot data tables inlined created,
      env.writeInlinedData snapshot data tables inlined = .ok (rows, created) ∧
      ∀ row ∈ data, IsCommitted row.tableId
  | .deleteFlushedInlinedData _ fileDeletions => ∀ row ∈ fileDeletions, IsCommitted row.1
  | .dropDataFiles ids => ∀ id ∈ ids, id < nextFile
  | .deleteOverwrittenDeleteFiles rows => ∀ row ∈ rows, row.1.deleteFileId < nextFile
  | .newDeleteFiles rows => ∀ row ∈ rows, IsCommitted row.1.tableId ∧ row.1.id < nextFile ∧
      row.1.dataFileId < nextFile
  | .newInlinedDeletes rows => ∀ row ∈ rows, IsCommitted row.tableId
  | .newInlinedFileDeletes rows => ∃ deletes, env.writeInlinedFileDeletes deletes = .ok rows ∧
      ∀ row ∈ deletes, IsCommitted row.tableId ∧ ∀ file ∈ row.fileDeletions, file.1 < nextFile
  | .compactions _ rows _ => ∀ row ∈ rows, IsCommitted row.tableIndex ∧ row.sourceId < nextFile ∧
      (∀ id ∈ row.newId, id < nextFile) ∧ ∀ id ∈ row.deleteFileId, id < nextFile
  | .recomputedTableStats tableId _ => IsCommitted tableId
  | .insertNewSchema _ _ tables => ∀ id ∈ tables, IsCommitted id
  | .snapshotChanges changesMade _ => ∀ text ∈ changesMade,
      ∃ log, parseChangesMade text = .ok log ∧ ∀ type, ∀ id ∈ log.ids type, IsCommitted id

/-- A file id that was given out stays given out. -/
theorem Statement.Refers.mono {env : CommitEnvironment} {next next' : DataFileIndex}
    {statement : Statement} (h : statement.Refers env next) (hle : next ≤ next') :
    statement.Refers env next' := by
  cases statement with
  | newColumnMappings rows => exact fun row hrow => ⟨(h row hrow).1, (h row hrow).2.trans_le hle⟩
  | newDataFiles rows =>
    intro row hrow
    obtain ⟨htable, hpartition, hid, hmapping⟩ := h row hrow
    exact ⟨htable, hpartition, hid.trans_le hle, fun id hm => (hmapping id hm).trans_le hle⟩
  | dropDataFiles ids => exact fun id hid => (h id hid).trans_le hle
  | deleteOverwrittenDeleteFiles rows => exact fun row hrow => (h row hrow).trans_le hle
  | newDeleteFiles rows =>
    intro row hrow
    obtain ⟨htable, hid, hdata⟩ := h row hrow
    exact ⟨htable, hid.trans_le hle, hdata.trans_le hle⟩
  | newInlinedFileDeletes rows =>
    obtain ⟨deletes, hrows, hdeletes⟩ := h
    refine ⟨deletes, hrows, fun row hrow => ⟨(hdeletes row hrow).1, fun file hfile => ?_⟩⟩
    exact ((hdeletes row hrow).2 file hfile).trans_le hle
  | compactions type rows paths =>
    intro row hrow
    obtain ⟨htable, hsource, hnew, hdelete⟩ := h row hrow
    exact ⟨htable, hsource.trans_le hle, fun id hm => (hnew id hm).trans_le hle,
      fun id hm => (hdelete id hm).trans_le hle⟩
  | _ => exact h

end Refers

/-- The file ids that were given out: different ones, between the two counters. -/
structure NewFileIds (first next : DataFileIndex) (ids : List DataFileIndex) : Prop where
  le : first ≤ next
  distinct : ids.Nodup
  range : ∀ id ∈ ids, first ≤ id ∧ id < next

/-- What a commit from the snapshot `first` to the snapshot `next` has done with its ids. -/
structure WritesIds [SQLWriter] (env : CommitEnvironment) (first next : DuckLakeSnapshot)
    (batch : List Statement) : Prop where
  le : first.nextCatalogId.toNat ≤ next.nextCatalogId.toNat
  catalogIds : NewIds first.nextCatalogId next.nextCatalogId
    (batch.flatMap (·.newCatalogIds first.nextCatalogId))
  fileIds : NewFileIds first.nextFileId next.nextFileId (batch.flatMap (·.newFileIds))
  refers : ∀ statement ∈ batch, statement.Refers env next.nextFileId

/-! ## Bookkeeping -/

/-- What a sorted map holds after an assignment. -/
theorem mem_insertSorted {κ β : Type} [LinearOrder κ] {key : κ} {value : β} {l : List (κ × β)}
    {e : κ × β} (h : e ∈ insertSorted key value l) : e = (key, value) ∨ e ∈ l := by
  induction l with
  | nil => exact .inl (List.mem_singleton.1 h)
  | cons entry l ih =>
    unfold insertSorted at h
    split at h
    · rcases List.mem_cons.1 h with h | h
      · exact .inl h
      · exact .inr h
    · split at h
      · rcases List.mem_cons.1 h with h | h
        · exact .inl h
        · exact .inr (.tail _ h)
      · rcases List.mem_cons.1 h with rfl | h
        · exact .inr (.head _)
        · rcases ih h with h | h
          · exact .inl h
          · exact .inr (.tail _ h)

section Ledger

variable [SQLWriter]

open CommitM Attempt

/-- What is fixed for an attempt: its environment, the transaction-local tables and views that it
writes, and how many catalog ids it may give out. -/
structure IdScope where
  env : CommitEnvironment
  written : List TableIndex
  limit : Nat
  fits : env.snapshot.nextCatalogId.toNat + limit ≤ transactionLocalIdStart.toNat

/-- A table or view id that is or becomes committed. -/
def IdScope.Known (scope : IdScope) (id : TableIndex) : Prop := IsCommitted id ∨ id ∈ scope.written

/-- The ids in hand between two statements: those that are given out but not yet written, and those
that are known to be replaced by committed ones. -/
structure Ledger where
  spent : Nat := 0
  newIds : List Idx := []
  newFiles : List DataFileIndex := []
  /-- File ids that may be referred to. -/
  held : List DataFileIndex := []
  tables : List TableIndex := []
  schemas : List SchemaIndex := []
  mappings : List MappingIndex := []

/-- Replacements of ids: each takes an id of its own. -/
structure Replacements (ids : List Idx) (l : List (Idx × Idx)) : Prop where
  distinct : (l.map (·.2)).Nodup
  given : ∀ e ∈ l, e.2 ∈ ids

omit [SQLWriter] in
theorem Replacements.mono {ids ids' : List Idx} {l : List (Idx × Idx)}
    (h : Replacements ids l) (hsub : ids ⊆ ids') : Replacements ids' l :=
  ⟨h.distinct, fun e he => hsub (h.given e he)⟩

omit [SQLWriter] in
theorem Replacements.push {ids : List Idx} {l : List (Idx × Idx)} {old new : Idx}
    (h : Replacements ids l) (hnew : new ∈ ids) (hunused : ∀ e ∈ l, e.2 ≠ new) :
    Replacements ids (l ++ [(old, new)]) := by
  constructor
  · rw [List.map_append, List.map_singleton, List.nodup_append]
    refine ⟨h.distinct, List.nodup_singleton _, fun id hid id' hid' => ?_⟩
    obtain ⟨e, he, rfl⟩ := List.mem_map.1 hid
    rw [List.mem_singleton.1 hid']
    exact hunused e he
  · intro e he
    rcases List.mem_append.1 he with he | he
    · exact h.given e he
    · rw [List.mem_singleton.1 he]
      exact hnew

/-- The transaction-local tables and views that are replaced. -/
def DuckLakeCommitState.replacedTables (state : DuckLakeCommitState) :
    List (TableIndex × TableIndex) :=
  state.committedTables.filter fun e => isTransactionLocal e.1

/-- The id has not replaced anything yet. -/
def DuckLakeCommitState.Unused (state : DuckLakeCommitState) (id : Idx) : Prop :=
  (∀ e ∈ state.replacedTables, e.2 ≠ id) ∧ ∀ e ∈ state.committedSchemas, e.2 ≠ id

/-- The ids that the change log holds without replacing them. -/
def ChangeType.isRaw : ChangeType → Bool
  | .droppedSchema | .droppedScalarMacro | .droppedTableMacro | .droppedProcedure => true
  | _ => false

/-- The books of an attempt are right. -/
structure Accounted (scope : IdScope) (L : Ledger) (snapshot : DuckLakeSnapshot)
    (state : DuckLakeCommitState) (changes : TransactionChangeInformation)
    (dropped : List (TableIndex × DroppedDataFileStats)) (batch : List Statement) : Prop where
  counted : Counted scope.env.snapshot.nextCatalogId snapshot.nextCatalogId L.spent
  newIds : NewIds scope.env.snapshot.nextCatalogId snapshot.nextCatalogId
    (L.newIds ++ batch.flatMap (·.newCatalogIds scope.env.snapshot.nextCatalogId))
  newFiles : NewFileIds scope.env.snapshot.nextFileId snapshot.nextFileId
    (L.newFiles ++ batch.flatMap (·.newFileIds))
  held : ∀ id ∈ L.held, id < snapshot.nextFileId
  tables : ∀ id ∈ L.tables, IsCommitted (state.getTableId id)
  schemas : ∀ id ∈ L.schemas, IsCommitted (state.getSchemaId id)
  mappings : ∀ id ∈ L.mappings, (state.committedMappingIndexes.lookup id).getD id <
    snapshot.nextFileId
  tableValues : ∀ e ∈ state.committedTables, IsCommitted e.2
  schemaValues : ∀ e ∈ state.committedSchemas, IsCommitted e.2
  mappingValues : ∀ e ∈ state.committedMappingIndexes, e.2 < snapshot.nextFileId
  localDeletes : ∀ e ∈ state.localDeleteFiles, IsCommitted e.1 ∧
    ∀ file ∈ e.2, file.dataFileId < snapshot.nextFileId
  changes : ∀ type, ∀ id ∈ changes.ids type,
    if type.isRaw then IsCommitted id else scope.Known id
  dropped : ∀ e ∈ dropped, IsCommitted e.1
  givenTables : Replacements
    (L.newIds ++ batch.flatMap (·.newCatalogIds scope.env.snapshot.nextCatalogId))
    state.replacedTables
  givenSchemas : Replacements
    (L.newIds ++ batch.flatMap (·.newCatalogIds scope.env.snapshot.nextCatalogId))
    state.committedSchemas
  refers : ∀ statement ∈ batch, statement.Refers scope.env snapshot.nextFileId

/-- The same at a point of the attempt. -/
def Accounted.At (scope : IdScope) (L : Ledger) (s : CommitAttempt) : Prop :=
  Accounted scope L s.commitSnapshot s.commitState s.changes s.droppedFileStats s.batchQueries

variable {scope : IdScope} {L : Ledger}

omit [SQLWriter] in
theorem isCommitted_of_lt {id : Idx} (h : id.toNat < transactionLocalIdStart.toNat) :
    IsCommitted id := by
  simpa [IsCommitted, isTransactionLocal, UInt64.le_iff_toNat_le] using h

/-! ### Ids -/

/-- A new catalog id has not replaced anything yet. -/
theorem nextCatalogId_unused (hroom : L.spent < scope.limit) :
    Yields (Accounted.At scope L) nextCatalogId fun id s =>
      (Accounted.At scope { L with spent := L.spent + 1, newIds := L.newIds ++ [id] } s ∧
        s.commitState.Unused id) ∧ (IsCommitted id ∧ scope.env.snapshot.nextCatalogId ≤ id) := by
  refine .modifyGet fun s h => ?_
  have hfits := scope.fits
  have hstart : transactionLocalIdStart.toNat = 2 ^ 63 := rfl
  have hcount := h.counted
  have hbound := hcount.bound
  have hle := hcount.le
  have hpush := h.newIds.push hcount (by omega)
  have hsub : L.newIds ++ s.batchQueries.flatMap
      (·.newCatalogIds scope.env.snapshot.nextCatalogId) ⊆
      (L.newIds ++ [s.commitSnapshot.nextCatalogId]) ++ s.batchQueries.flatMap
        (·.newCatalogIds scope.env.snapshot.nextCatalogId) := by
    intro id hid
    simp only [List.mem_append] at hid ⊢
    tauto
  refine ⟨⟨{ h with
    counted := hcount.succ (by omega)
    newIds := ?_
    givenTables := h.givenTables.mono hsub
    givenSchemas := h.givenSchemas.mono hsub }, fun e he heq => ?_, fun e he heq => ?_⟩, ?_, ?_⟩
  · refine ⟨(List.Perm.nodup_iff ?_).1 hpush.distinct, fun id hid => hpush.range id ?_⟩
    · rw [List.append_assoc, List.append_assoc]
      exact List.perm_append_comm.append_left _
    · simp only [List.mem_append] at hid ⊢
      tauto
  · have hrange := (h.newIds.range e.2 (h.givenTables.given e he)).2
    rw [heq] at hrange
    exact lt_irrefl _ hrange
  · have hrange := (h.newIds.range e.2 (h.givenSchemas.given e he)).2
    rw [heq] at hrange
    exact lt_irrefl _ hrange
  · have hlt : s.commitSnapshot.nextCatalogId.toNat < transactionLocalIdStart.toNat := by omega
    exact isCommitted_of_lt hlt
  · exact UInt64.le_iff_toNat_le.2 hle

theorem nextCatalogId_accounted (hroom : L.spent < scope.limit) :
    Yields (Accounted.At scope L) nextCatalogId fun id s =>
      Accounted.At scope { L with spent := L.spent + 1, newIds := L.newIds ++ [id] } s ∧
        (IsCommitted id ∧ scope.env.snapshot.nextCatalogId ≤ id) :=
  (nextCatalogId_unused hroom).mono (fun _ hs => hs) fun _ _ hs => ⟨hs.1.1, hs.2⟩

theorem Accounted.giveFile {snapshot : DuckLakeSnapshot} {state : DuckLakeCommitState}
    {changes : TransactionChangeInformation}
    {dropped : List (TableIndex × DroppedDataFileStats)} {batch : List Statement}
    {newFiles held : List DataFileIndex}
    (h : Accounted scope L snapshot state changes dropped batch)
    (hnew : NewFileIds scope.env.snapshot.nextFileId (snapshot.nextFileId + 1)
      (newFiles ++ batch.flatMap (·.newFileIds)))
    (hheld : ∀ id ∈ held, id < snapshot.nextFileId + 1) :
    Accounted scope { L with newFiles := newFiles, held := held }
      { snapshot with nextFileId := snapshot.nextFileId + 1 } state changes dropped batch :=
  { h with
    newFiles := hnew
    held := hheld
    mappings := fun id hid => (h.mappings id hid).trans (Nat.lt_succ_self _)
    mappingValues := fun e he => (h.mappingValues e he).trans (Nat.lt_succ_self _)
    localDeletes := fun e he => ⟨(h.localDeletes e he).1,
      fun file hfile => ((h.localDeletes e he).2 file hfile).trans (Nat.lt_succ_self _)⟩
    refers := fun statement hs => (h.refers statement hs).mono (Nat.le_succ _) }

theorem nextFileId_accounted :
    Yields (Accounted.At scope L) nextFileId fun id => Accounted.At scope
      { L with newFiles := L.newFiles ++ [id], held := L.held ++ [id] } := by
  refine .modifyGet fun s h => ?_
  have hnew := h.newFiles
  refine h.giveFile ⟨hnew.le.trans (Nat.le_succ _), ?_, ?_⟩ ?_
  · have hfresh : (s.commitSnapshot.nextFileId ::
        (L.newFiles ++ s.batchQueries.flatMap (·.newFileIds))).Nodup := by
      refine List.nodup_cons.2 ⟨fun hmem => ?_, hnew.distinct⟩
      exact absurd (hnew.range _ hmem).2 (lt_irrefl _)
    refine (List.Perm.nodup_iff ?_).1 hfresh
    rw [List.append_assoc, List.singleton_append]
    exact List.perm_middle.symm
  · intro id hid
    have hor : id = s.commitSnapshot.nextFileId ∨
        id ∈ L.newFiles ++ s.batchQueries.flatMap (·.newFileIds) := by
      simp only [List.mem_append, List.mem_singleton] at hid ⊢
      tauto
    rcases hor with rfl | hmem
    · exact ⟨hnew.le, Nat.lt_succ_self _⟩
    · have hrange := hnew.range id hmem
      exact ⟨hrange.1, hrange.2.trans (Nat.lt_succ_self _)⟩
  · intro id hid
    rcases List.mem_append.1 hid with hid | hid
    · exact (h.held id hid).trans (Nat.lt_succ_self _)
    · rw [List.mem_singleton.1 hid]
      exact Nat.lt_succ_self _

theorem skipFileId_accounted :
    Yields (Accounted.At scope L) skipFileId fun _ => Accounted.At scope L := by
  refine .modify fun s h => ?_
  have hnew := h.newFiles
  refine h.giveFile ⟨hnew.le.trans (Nat.le_succ _), hnew.distinct, fun id hid => ?_⟩ ?_
  · exact ⟨(hnew.range id hid).1, (hnew.range id hid).2.trans (Nat.lt_succ_self _)⟩
  · exact fun id hid => (h.held id hid).trans (Nat.lt_succ_self _)

theorem newSchemaVersions_accounted (count : Nat) :
    Yields (Accounted.At scope L) (newSchemaVersions count) fun _ => Accounted.At scope L :=
  .modify fun _ h => { h with }

/-! ### Statements -/

/-- A statement that refers to committed ids only may be written; the ids that it gives to new
objects are no longer in hand. -/
theorem emit_accounted {statement : Statement} (newIds : List Idx) (newFiles : List DataFileIndex)
    (hrefers : ∀ next, scope.env.snapshot.nextFileId ≤ next → (∀ id ∈ L.held, id < next) →
      statement.Refers scope.env next)
    (hids : L.newIds.Perm
      (newIds ++ statement.newCatalogIds scope.env.snapshot.nextCatalogId))
    (hfiles : L.newFiles.Perm (newFiles ++ statement.newFileIds)) :
    Yields (Accounted.At scope L) (emit statement) fun _ =>
      Accounted.At scope { L with newIds := newIds, newFiles := newFiles } := by
  refine .modify fun s h => ?_
  have hidsAll : (L.newIds ++ s.batchQueries.flatMap
      (·.newCatalogIds scope.env.snapshot.nextCatalogId)).Perm
      (newIds ++ (s.batchQueries ++ [statement]).flatMap
        (·.newCatalogIds scope.env.snapshot.nextCatalogId)) := by
    rw [List.flatMap_append, List.flatMap_singleton]
    refine (hids.append_right _).trans ?_
    rw [List.append_assoc]
    exact List.perm_append_comm.append_left _
  have hfilesAll : (L.newFiles ++ s.batchQueries.flatMap (·.newFileIds)).Perm
      (newFiles ++ (s.batchQueries ++ [statement]).flatMap (·.newFileIds)) := by
    rw [List.flatMap_append, List.flatMap_singleton]
    refine (hfiles.append_right _).trans ?_
    rw [List.append_assoc]
    exact List.perm_append_comm.append_left _
  exact { h with
    newIds := ⟨hidsAll.nodup_iff.1 h.newIds.distinct,
      fun id hid => h.newIds.range id (hidsAll.mem_iff.2 hid)⟩
    newFiles := ⟨h.newFiles.le, hfilesAll.nodup_iff.1 h.newFiles.distinct,
      fun id hid => h.newFiles.range id (hfilesAll.mem_iff.2 hid)⟩
    givenTables := h.givenTables.mono hidsAll.subset
    givenSchemas := h.givenSchemas.mono hidsAll.subset
    refers := fun st hst => by
      rcases List.mem_append.1 hst with hst | hst
      · exact h.refers st hst
      · rw [List.mem_singleton.1 hst]
        exact hrefers _ h.newFiles.le h.held }

/-- A statement that gives out no ids. -/
theorem emit_plain {statement : Statement}
    (hrefers : ∀ next, scope.env.snapshot.nextFileId ≤ next → (∀ id ∈ L.held, id < next) →
      statement.Refers scope.env next)
    (hids : ∀ first, statement.newCatalogIds first = []) (hfiles : statement.newFileIds = []) :
    Yields (Accounted.At scope L) (emit statement) fun _ => Accounted.At scope L := by
  refine emit_accounted _ _ hrefers ?_ ?_
  · rw [hids, List.append_nil]
  · rw [hfiles, List.append_nil]

theorem runIf_accounted {cond : Bool} {m : CommitM Unit}
    (h : Yields (Accounted.At scope L) m fun _ => Accounted.At scope L) :
    Yields (Accounted.At scope L) (runIf cond m) fun _ => Accounted.At scope L := by
  unfold runIf
  split
  · exact h
  · exact .pure fun s hs => hs

theorem emitIf_plain {cond : Bool} {statement : Statement}
    (hrefers : ∀ next, scope.env.snapshot.nextFileId ≤ next → (∀ id ∈ L.held, id < next) →
      statement.Refers scope.env next)
    (hids : ∀ first, statement.newCatalogIds first = []) (hfiles : statement.newFileIds = []) :
    Yields (Accounted.At scope L) (emitIf cond statement) fun _ => Accounted.At scope L :=
  runIf_accounted (emit_plain hrefers hids hfiles)

/-- A statement that is left out when it has no rows. -/
theorem emitIf_accounted {cond : Bool} {statement : Statement} (newIds : List Idx)
    (newFiles : List DataFileIndex)
    (hrefers : ∀ next, scope.env.snapshot.nextFileId ≤ next → (∀ id ∈ L.held, id < next) →
      statement.Refers scope.env next)
    (hids : L.newIds.Perm (newIds ++ statement.newCatalogIds scope.env.snapshot.nextCatalogId))
    (hfiles : L.newFiles.Perm (newFiles ++ statement.newFileIds))
    (hempty : cond = false → statement.newCatalogIds scope.env.snapshot.nextCatalogId = [] ∧
      statement.newFileIds = []) :
    Yields (Accounted.At scope L) (emitIf cond statement) fun _ =>
      Accounted.At scope { L with newIds := newIds, newFiles := newFiles } := by
  unfold emitIf runIf
  split
  · exact emit_accounted _ _ hrefers hids hfiles
  · rename_i hcond
    obtain ⟨hnone, hnoFiles⟩ := hempty (by simpa using hcond)
    rw [hnone, List.append_nil] at hids
    rw [hnoFiles, List.append_nil] at hfiles
    refine .pure fun s h => ?_
    have hidsAll := hids.append_right (s.batchQueries.flatMap
      (·.newCatalogIds scope.env.snapshot.nextCatalogId))
    have hfilesAll := hfiles.append_right (s.batchQueries.flatMap (·.newFileIds))
    exact { h with
      newIds := ⟨hidsAll.nodup_iff.1 h.newIds.distinct,
        fun id hid => h.newIds.range id (hidsAll.mem_iff.2 hid)⟩
      newFiles := ⟨h.newFiles.le, hfilesAll.nodup_iff.1 h.newFiles.distinct,
        fun id hid => h.newFiles.range id (hfilesAll.mem_iff.2 hid)⟩
      givenTables := h.givenTables.mono hidsAll.subset
      givenSchemas := h.givenSchemas.mono hidsAll.subset }

/-! ### The commit state -/

omit [SQLWriter] in
/-- A value that a lookup finds is in the list. -/
theorem getD_lookup {κ β : Type} [BEq κ] {l : List (κ × β)} {key : κ} {value : β}
    {P : β → Prop} (hl : ∀ e ∈ l, P e.2) (hvalue : P value) :
    P ((l.lookup key).getD value) := by
  induction l with
  | nil => exact hvalue
  | cons e l ih =>
    rw [List.lookup_cons]
    split
    · exact hl e (.head _)
    · exact ih fun e he => hl e (.tail _ he)

omit [SQLWriter] in
/-- A further entry in a map replaces its key, and leaves what was replaced before. -/
theorem getD_lookup_append {κ : Type} [BEq κ] [LawfulBEq κ] {l : List (κ × κ)} {old new id : κ}
    {P : κ → Prop} (hl : ∀ e ∈ l, P e.2) (hnew : P new)
    (hid : id = old ∨ P ((l.lookup id).getD id)) :
    P (((l ++ [(old, new)]).lookup id).getD id) := by
  have hvalues : ∀ e ∈ l ++ [(old, new)], P e.2 := by
    intro e he
    rcases List.mem_append.1 he with he | he
    · exact hl e he
    · rw [List.mem_singleton.1 he]
      exact hnew
  rcases hid with rfl | hid
  · have hfound : ((l ++ [(id, new)]).lookup id).getD id =
        ((l ++ [(id, new)]).lookup id).getD new := by
      rw [List.lookup_append]
      cases l.lookup id with
      | none => simp
      | some value => simp
    rw [hfound]
    exact getD_lookup hvalues hnew
  · cases hlookup : l.lookup id with
    | none =>
      rw [hlookup, Option.getD_none] at hid
      exact getD_lookup hvalues hid
    | some value =>
      rw [hlookup] at hid
      rw [List.lookup_append, hlookup]
      exact hid

theorem Accounted.getTableId {snapshot : DuckLakeSnapshot} {state : DuckLakeCommitState}
    {changes : TransactionChangeInformation}
    {dropped : List (TableIndex × DroppedDataFileStats)} {batch : List Statement}
    (h : Accounted scope L snapshot state changes dropped batch) {id : TableIndex}
    (hid : IsCommitted id ∨ id ∈ L.tables) : IsCommitted (state.getTableId id) := by
  rcases hid with hid | hid
  · exact getD_lookup h.tableValues hid
  · exact h.tables id hid

theorem Accounted.getSchemaId {snapshot : DuckLakeSnapshot} {state : DuckLakeCommitState}
    {changes : TransactionChangeInformation}
    {dropped : List (TableIndex × DroppedDataFileStats)} {batch : List Statement}
    (h : Accounted scope L snapshot state changes dropped batch) {id : SchemaIndex}
    (hid : IsCommitted id ∨ id ∈ L.schemas) : IsCommitted (state.getSchemaId id) := by
  rcases hid with hid | hid
  · exact getD_lookup h.schemaValues hid
  · exact h.schemas id hid

theorem getTableId_accounted {id : TableIndex} (hid : IsCommitted id ∨ id ∈ L.tables) :
    Yields (Accounted.At scope L) (CommitM.getTableId id) fun t s =>
      Accounted.At scope L s ∧ IsCommitted t := by
  intro s h t s' hrun
  cases hrun
  exact ⟨h, h.getTableId hid⟩

theorem getSchemaId_accounted {id : SchemaIndex} (hid : IsCommitted id ∨ id ∈ L.schemas) :
    Yields (Accounted.At scope L) (CommitM.getSchemaId id) fun t s =>
      Accounted.At scope L s ∧ IsCommitted t := by
  intro s h t s' hrun
  cases hrun
  exact ⟨h, h.getSchemaId hid⟩

/-- After a check that the id was replaced, the id may be used. -/
theorem getTableId_ensured {α : Type} {id : TableIndex} {message : Text}
    {f : TableIndex → CommitM α} {Q : α → CommitAttempt → Prop}
    (hf : ∀ t, IsCommitted t →
      Yields (Accounted.At scope { L with tables := id :: L.tables }) (f t) Q) :
    Yields (Accounted.At scope L)
      (do
        let t ← CommitM.getTableId id
        ensure (!isTransactionLocal t) message
        f t) Q := by
  refine (getTableId_yields id).bind fun t => ?_
  refine ensure_yields.bind fun _ => ?_
  intro s hs
  obtain ⟨⟨h, rfl⟩, hlocal⟩ := hs
  have hcommitted : IsCommitted (s.commitState.getTableId id) := by
    simpa [IsCommitted] using hlocal
  refine hf _ hcommitted s { h with tables := fun id' hid' => ?_ }
  rcases List.mem_cons.1 hid' with rfl | hid'
  · exact hcommitted
  · exact h.tables id' hid'

theorem emplaceTable_accounted {old new : TableIndex}
    (h : isTransactionLocal old = false → new = old) (hnew : IsCommitted new) :
    Yields (fun s => Accounted.At scope L s ∧
        (isTransactionLocal old = true → new ∈ L.newIds ∧ s.commitState.Unused new))
      (emplaceTable old new h) fun _ =>
      Accounted.At scope { L with tables := old :: L.tables } := by
  refine .modify fun s hs => ?_
  obtain ⟨hs, hunused⟩ := hs
  refine { hs with
    tables := fun id hid => ?_, tableValues := fun e he => ?_, givenTables := ?_ }
  · refine getD_lookup_append hs.tableValues hnew ?_
    rcases List.mem_cons.1 hid with rfl | hid
    · exact .inl rfl
    · exact .inr (hs.tables id hid)
  · rcases List.mem_append.1 he with he | he
    · exact hs.tableValues e he
    · rw [List.mem_singleton.1 he]
      exact hnew
  · rw [DuckLakeCommitState.replacedTables, List.filter_append]
    cases hlocal : isTransactionLocal old with
    | true =>
      rw [List.filter_cons_of_pos (by exact hlocal)]
      obtain ⟨hmem, hunused⟩ := hunused hlocal
      exact hs.givenTables.push (List.mem_append_left _ hmem) hunused.1
    | false =>
      rw [List.filter_cons_of_neg (by simp [hlocal]), List.filter_nil, List.append_nil]
      exact hs.givenTables

theorem emplaceSchema_accounted {old new : SchemaIndex} (hnew : IsCommitted new)
    (hmem : new ∈ L.newIds) :
    Yields (fun s => Accounted.At scope L s ∧ s.commitState.Unused new) (emplaceSchema old new)
      fun _ => Accounted.At scope { L with schemas := old :: L.schemas } := by
  refine .modify fun s hs => ?_
  obtain ⟨hs, hunused⟩ := hs
  refine { hs with
    schemas := fun id hid => ?_, schemaValues := fun e he => ?_, givenSchemas := ?_ }
  · refine getD_lookup_append hs.schemaValues hnew ?_
    rcases List.mem_cons.1 hid with rfl | hid
    · exact .inl rfl
    · exact .inr (hs.schemas id hid)
  · rcases List.mem_append.1 he with he | he
    · exact hs.schemaValues e he
    · rw [List.mem_singleton.1 he]
      exact hnew
  · exact hs.givenSchemas.push (List.mem_append_left _ hmem) hunused.2

/-- The remap of a partition id does not go into the books: a data file that would be written with
a transaction-local partition id makes the commit throw. -/
theorem setPartitionId_accounted {old new : Idx} :
    Yields (Accounted.At scope L) (CommitM.setPartitionId old new) fun _ =>
      Accounted.At scope L :=
  .modify fun _ hs => { hs with }

theorem setMappingIndex_accounted {old new : MappingIndex} (hnew : new ∈ L.held) :
    Yields (Accounted.At scope L) (setMappingIndex old new) fun _ =>
      Accounted.At scope { L with mappings := old :: L.mappings } := by
  refine .modify fun s hs => { hs with mappings := fun id hid => ?_, mappingValues := fun e he => ?_ }
  · simp only [List.lookup_cons]
    split
    · exact hs.held new hnew
    · rename_i hne
      rcases List.mem_cons.1 hid with rfl | hid
      · simp at hne
      · exact hs.mappings id hid
  · rcases List.mem_cons.1 he with rfl | he
    · exact hs.held new hnew
    · exact hs.mappingValues e he

theorem setLocalDeleteFiles_accounted {table : TableIndex} {files : List DuckLakeDeleteFile}
    (htable : IsCommitted table) (hfiles : ∀ file ∈ files, file.dataFileId ∈ L.held) :
    Yields (Accounted.At scope L) (setLocalDeleteFiles table files) fun _ =>
      Accounted.At scope L := by
  refine .modify fun s hs => { hs with localDeletes := fun e he => ?_ }
  rcases mem_insertSorted he with rfl | he
  · exact ⟨htable, fun file hfile => hs.held _ (hfiles file hfile)⟩
  · exact hs.localDeletes e he

/-! ### The change information -/

theorem alterTable_accounted {id : TableIndex} (hid : scope.Known id) :
    Yields (Accounted.At scope L) (alterTable id) fun _ => Accounted.At scope L := by
  refine .modify fun s hs => { hs with changes := fun type i hi => ?_ }
  by_cases htype : type = .alteredTable
  · subst htype
    rcases OrdSet.mem_insert.1 hi with rfl | hi
    · exact hid
    · exact hs.changes .alteredTable i hi
  · refine hs.changes type i ?_
    cases type <;> first | exact hi | exact absurd rfl htype

theorem alterSchemaVersion_accounted {id : TableIndex} :
    Yields (Accounted.At scope L) (alterSchemaVersion id) fun _ => Accounted.At scope L := by
  refine .modify fun s hs => { hs with changes := fun type i hi => hs.changes type i ?_ }
  cases type <;> exact hi

theorem alterView_accounted {id : TableIndex} (hid : scope.Known id) :
    Yields (Accounted.At scope L) (alterView id) fun _ => Accounted.At scope L := by
  refine .modify fun s hs => { hs with changes := fun type i hi => ?_ }
  by_cases htype : type = .alteredView
  · subst htype
    rcases OrdSet.mem_insert.1 hi with rfl | hi
    · exact hid
    · exact hs.changes .alteredView i hi
  · refine hs.changes type i ?_
    cases type <;> first | exact hi | exact absurd rfl htype

/-! ### Rules -/

theorem Accounted.narrow {snapshot : DuckLakeSnapshot} {state : DuckLakeCommitState}
    {changes : TransactionChangeInformation}
    {dropped : List (TableIndex × DroppedDataFileStats)} {batch : List Statement} {L' : Ledger}
    (h : Accounted scope L snapshot state changes dropped batch) (hspent : L.spent ≤ L'.spent)
    (hids : L.newIds.Perm L'.newIds) (hfiles : L.newFiles.Perm L'.newFiles)
    (hheld : L'.held ⊆ L.held) (htables : L'.tables ⊆ L.tables)
    (hschemas : L'.schemas ⊆ L.schemas) (hmappings : L'.mappings ⊆ L.mappings) :
    Accounted scope L' snapshot state changes dropped batch :=
  { h with
    counted := h.counted.mono hspent
    newIds := ⟨(hids.append_right _).nodup_iff.1 h.newIds.distinct,
      fun id hid => h.newIds.range id ((hids.append_right _).mem_iff.2 hid)⟩
    newFiles := ⟨h.newFiles.le, (hfiles.append_right _).nodup_iff.1 h.newFiles.distinct,
      fun id hid => h.newFiles.range id ((hfiles.append_right _).mem_iff.2 hid)⟩
    givenTables := h.givenTables.mono (hids.append_right _).subset
    givenSchemas := h.givenSchemas.mono (hids.append_right _).subset
    held := fun id hid => h.held id (hheld hid)
    tables := fun id hid => h.tables id (htables hid)
    schemas := fun id hid => h.schemas id (hschemas hid)
    mappings := fun id hid => h.mappings id (hmappings hid) }

theorem Accounted.permute {snapshot : DuckLakeSnapshot} {state : DuckLakeCommitState}
    {changes : TransactionChangeInformation}
    {dropped : List (TableIndex × DroppedDataFileStats)} {batch : List Statement} {ids : List Idx}
    (h : Accounted scope L snapshot state changes dropped batch) (hids : L.newIds.Perm ids) :
    Accounted scope { L with newIds := ids } snapshot state changes dropped batch :=
  h.narrow (Nat.le_refl _) hids (.refl _) (List.Subset.refl _) (List.Subset.refl _)
    (List.Subset.refl _) (List.Subset.refl _)

theorem getCommitState_accounted {p : DuckLakeCommitState → Prop}
    (h : ∀ s, Accounted.At scope L s → p s.commitState) :
    Yields (Accounted.At scope L) getCommitState fun state s =>
      Accounted.At scope L s ∧ p state := by
  intro s hs state s' hrun
  cases hrun
  exact ⟨hs, h s hs⟩

theorem ofExcept_accounted {α : Type} {r : Except Exception α} :
    Yields (Accounted.At scope L) (MonadExcept.ofExcept r : CommitM α) fun a s =>
      Accounted.At scope L s ∧ r = .ok a :=
  .ofExcept fun _ _ hs hr => ⟨hs, hr⟩

theorem store_accounted {w : Store} :
    Yields (Accounted.At scope L) (store w) fun _ => Accounted.At scope L :=
  .modify fun _ hs => hs

end Ledger

end DuckLake
