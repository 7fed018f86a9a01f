import DuckLake.Storage.CommitChanges

/-!
# Invariants of a commit attempt

An attempt writes statements, uses up ids and fills in maps, and does nothing else. An invariant
of these steps is one of the whole attempt. What a statement says about the transaction that
staged it is known at the place where it is written, so the invariant may rely on it.
-/

namespace DuckLake

theorem isEmpty_of_length {α β : Type} {l : List α} {m : List β} (hlength : m.length = l.length)
    (h : (!m.isEmpty) = true) : l.isEmpty = false := by
  rw [Bool.not_eq_true', List.isEmpty_eq_false_iff_exists_mem] at h
  obtain ⟨a, ha⟩ := h
  rw [List.isEmpty_eq_false_iff, ← List.length_pos_iff, ← hlength]
  exact List.length_pos_of_mem ha

/-! ## What is staged for a statement -/

/-- The tables and views that the transaction writes a row for. -/
def StagedEntry.ids : StagedEntry → List TableIndex
  | table chain => chain.map (·.tableId)
  | view chain => chain.map (·.viewId)

namespace StagedTransaction

/-- The ids of the tables, views and materialized views that are staged. -/
def stagedIds (T : StagedTransaction) : List TableIndex :=
  (T.newTables.flatMap fun schema => schema.2.flatMap (·.ids)) ++
    (T.newMaterializedViews.filter fun mv => isTransactionLocal mv.id).map (·.id)

/-- New rows are staged for a table. -/
def WritesData (T : StagedTransaction) : Prop :=
  ∃ entry ∈ T.localChanges.changes,
    (entry.2.newDataFiles.isEmpty && entry.2.newInlinedData.isNone) = false

/-- A compaction of the kind is staged. -/
def Compacts (T : StagedTransaction) (type : CompactionType) : Prop :=
  ∃ entry ∈ T.localChanges.changes, ∃ compaction ∈ entry.2.compactions,
    compaction.type = type ∧ compaction.sourceFiles ≠ []

end StagedTransaction

/-- What the transaction has staged when the statement is in its batch. -/
def Statement.StagedBy (T : StagedTransaction) : Statement → Prop
  | .dropTables ids renamed => ids.isEmpty = false ∧
      ids = if renamed then T.renamedTables else T.droppedTables
  | .dropViews ids renamed => ids.isEmpty = false ∧
      ids = if renamed then T.renamedViews else T.droppedViews
  | .dropMaterializedViews ids => ids = T.droppedMaterializedViews
  | .dropMacros ids => ids.isEmpty = false ∧
      (ids = T.droppedScalarMacros ∨ ids = T.droppedTableMacros)
  | .dropProcedures ids => ids.isEmpty = false ∧ ids = T.droppedProcedures
  | .dropSchemas ids => ids.isEmpty = false ∧ ids = T.droppedSchemas
  | .newSchemas _ => T.newSchemas.isEmpty = false
  | .newTables _ | .newTableOptions _ | .newPartitionKeys _ _ | .newViews _ | .newTags _
  | .newColumnTags _ | .newViewColumnTags _ | .droppedColumns _ | .expiredColumnTags _
  | .newColumns _ | .newInlinedTables _ | .newSortKeys _ _ | .constraintReplacements _ =>
    T.newTables.isEmpty = false
  | .newMaterializedViews _ => T.newMaterializedViews.isEmpty = false
  | .newMacros _ => (T.newScalarMacros.isEmpty && T.newTableMacros.isEmpty) = false
  | .newProcedures _ => T.newProcedures.isEmpty = false
  | .globalTableStats _ _ _ | .deleteTableColumnStats _ =>
    T.WritesData ∨ T.droppedFiles.isEmpty = false
  | .recomputedTableStats _ _ => T.Compacts .rewriteDeletes
  | _ => True

section Commit

variable [SQLWriter]

open CommitM

/-- A property of the variables of an attempt that its single steps keep. Name maps and refreshes
are written with what the attempt has found out before and are left to the invariant. -/
structure CommitInvariant (T : StagedTransaction) (I : CommitAttempt → Prop) : Prop where
  emit : ∀ {statement}, statement.StagedBy T → Attempt.Keeps I (emit statement)
  partitionId : ∀ {address id}, Attempt.Keeps I (store (.partitionId address id))
  sortId : ∀ {address id}, Attempt.Keeps I (store (.sortId address id))
  tableOptions : ∀ {options}, Attempt.Keeps I (store (.tableOptions options))
  nextCatalogId : Attempt.Keeps I nextCatalogId
  nextFileId : Attempt.Keeps I nextFileId
  skipFileId : Attempt.Keeps I skipFileId
  newSchemaVersions : ∀ {count}, Attempt.Keeps I (newSchemaVersions count)
  emplaceTable : ∀ {old new h}, old ∈ T.stagedIds → Attempt.Keeps I (emplaceTable old new h)
  nameMaps : Attempt.Keeps I (writeNewNameMaps T)
  refreshes : Attempt.Keeps I (writeMaterializedViewRefreshes T)
  /-- The other variables do not matter. -/
  frame : ∀ {s s' : CommitAttempt}, s'.commitSnapshot = s.commitSnapshot →
    s'.batchQueries = s.batchQueries → s'.stores = s.stores →
    s'.commitState.committedTables = s.commitState.committedTables → I s → I s'

namespace CommitInvariant

variable {T : StagedTransaction} {I : CommitAttempt → Prop}

theorem runIf {cond : Bool} {m : CommitM Unit} (h : cond = true → Attempt.Keeps I m) :
    Attempt.Keeps I (runIf cond m) :=
  .ite h fun _ => .pure

theorem getCommitState : Attempt.Keeps I getCommitState := .bind .get fun _ => .pure

theorem getCommitSnapshot : Attempt.Keeps I getCommitSnapshot := .bind .get fun _ => .pure

theorem getTableId {id : TableIndex} : Attempt.Keeps I (CommitM.getTableId id) :=
  getCommitState.bind fun _ => .pure

theorem getSchemaId {id : SchemaIndex} : Attempt.Keeps I (CommitM.getSchemaId id) :=
  getCommitState.bind fun _ => .pure

theorem ensure {cond : Bool} {message : Text} : Attempt.Keeps I (CommitM.ensure cond message) :=
  .ofExcept

variable (hI : CommitInvariant T I)

include hI

theorem emitIf {cond : Bool} {statement : Statement} (h : cond = true → statement.StagedBy T) :
    Attempt.Keeps I (emitIf cond statement) := runIf fun hcond => hI.emit (h hcond)

theorem emplaceSchema {old new : SchemaIndex} : Attempt.Keeps I (emplaceSchema old new) :=
  .modify fun _ => hI.frame rfl rfl rfl rfl

theorem setPartitionId {old new : Idx} : Attempt.Keeps I (CommitM.setPartitionId old new) :=
  .modify fun _ => hI.frame rfl rfl rfl rfl

theorem setLocalDeleteFiles {table : TableIndex} {files : List DuckLakeDeleteFile} :
    Attempt.Keeps I (setLocalDeleteFiles table files) :=
  .modify fun _ => hI.frame rfl rfl rfl rfl

theorem alterTable {table : TableIndex} : Attempt.Keeps I (alterTable table) :=
  .modify fun _ => hI.frame rfl rfl rfl rfl

theorem alterSchemaVersion {table : TableIndex} : Attempt.Keeps I (alterSchemaVersion table) :=
  .modify fun _ => hI.frame rfl rfl rfl rfl

theorem alterView {view : TableIndex} : Attempt.Keeps I (alterView view) :=
  .modify fun _ => hI.frame rfl rfl rfl rfl

theorem allocateTableId {old : TableIndex} : Attempt.Keeps I (allocateTableId old) := by
  unfold CommitM.allocateTableId
  split
  · exact hI.nextCatalogId.bind fun _ => .pure
  · exact .pure

/-! ### Tables and views -/

theorem getNewPartitionKey {address : EntryAddress} {table : DuckLakeTableEntry} :
    Attempt.Keeps I (getNewPartitionKey address table) := by
  refine getTableId.bind fun tableId => ensure.bind fun _ => ?_
  cases table.partitionData with
  | none => exact .pure
  | some data =>
    exact hI.nextCatalogId.bind fun _ => hI.partitionId.bind fun _ => hI.setPartitionId.bind fun _ =>
      .pure

theorem getNewSortKey {address : EntryAddress} {table : DuckLakeTableEntry} :
    Attempt.Keeps I (getNewSortKey address table) := by
  refine getTableId.bind fun tableId => ensure.bind fun _ => ?_
  cases table.sortData with
  | none => exact .pure
  | some data => exact hI.nextCatalogId.bind fun _ => hI.sortId.bind fun _ => .pure

theorem partitionKeys {address : EntryAddress} {table : DuckLakeTableEntry} :
    Attempt.Keeps I (partitionKeys address table) :=
  .ite (fun _ => hI.getNewPartitionKey.bind fun _ => .pure) fun _ => .pure

theorem sortKeys {address : EntryAddress} {table : DuckLakeTableEntry} :
    Attempt.Keeps I (sortKeys address table) :=
  .ite (fun _ => hI.getNewSortKey.bind fun _ => .pure) fun _ => .pure

theorem emitNewTable {address : EntryAddress} {latest table : DuckLakeTableEntry}
    {walk : TableWalk} (h : table.tableId ∈ T.stagedIds) :
    Attempt.Keeps I (emitNewTable address latest table walk) := by
  refine hI.allocateTableId.bind fun newId => ?_
  refine (getSchemaId.bind fun _ => .pure).bind fun newTable =>
    (hI.emplaceTable h).bind fun _ => ?_
  refine .bind ?_ fun _ => .pure
  exact .ite (fun _ => hI.partitionKeys.bind fun _ => hI.sortKeys.bind fun _ => .pure)
    fun _ => .pure

theorem newTableRow {address : EntryAddress} {latest table : DuckLakeTableEntry}
    {walk : TableWalk} (h : table.tableId ∈ T.stagedIds) :
    Attempt.Keeps I (newTableRow address latest table walk) := by
  refine getCommitState.bind fun state => ?_
  dsimp only
  split
  · exact .pure
  · exact hI.emitNewTable h

theorem alterField {address : EntryAddress} {table : DuckLakeTableEntry} {field : FieldIndex}
    {walk : TableWalk} : Attempt.Keeps I (alterField address table field walk) := by
  refine .ite (fun _ => .pure) fun _ => getTableId.bind fun _ => .bind .ofExcept fun _ => ?_
  refine hI.alterTable.bind fun _ => hI.alterSchemaVersion.bind fun _ => .bind ?_ fun _ => .pure
  exact .ite (fun _ => hI.sortKeys) fun _ => .pure

theorem newTableStep {latest : DuckLakeTableEntry} {walk : TableWalk}
    {version : DuckLakeTableEntry × EntryAddress} (h : version.1.tableId ∈ T.stagedIds) :
    Attempt.Keeps I (newTableStep latest walk version) := by
  unfold DuckLake.newTableStep
  dsimp only
  split
  · exact hI.getNewPartitionKey.bind fun _ => hI.alterTable.bind fun _ =>
      hI.alterSchemaVersion.bind fun _ => .pure
  · exact .ite (fun _ => hI.alterTable.bind fun _ => hI.alterSchemaVersion.bind fun _ => .pure)
      fun _ => .pure
  · exact hI.getNewSortKey.bind fun _ => hI.alterTable.bind fun _ => .pure
  · exact .ite (fun _ => .pure) fun _ => getTableId.bind fun _ => hI.alterTable.bind fun _ => .pure
  · exact .ite (fun _ => .pure) fun _ => getTableId.bind fun _ => .bind .ofExcept fun _ =>
      hI.alterTable.bind fun _ => .pure
  iterate 4 exact hI.alterField
  iterate 2 exact getTableId.bind fun _ => hI.alterSchemaVersion.bind fun _ => .pure
  · exact getTableId.bind fun _ => .bind .ofExcept fun _ => hI.alterTable.bind fun _ =>
      hI.alterSchemaVersion.bind fun _ => .pure
  iterate 3 exact hI.newTableRow h
  · exact .throw

theorem getNewTableInfo {schema entry : Nat} {tables : List DuckLakeTableEntry}
    {result : NewTableInfo} (h : ∀ table ∈ tables, table.tableId ∈ T.stagedIds) :
    Attempt.Keeps I (getNewTableInfo schema entry tables result) := by
  cases tables with
  | nil => exact .pure
  | cons latest tables =>
    refine .bind (.foldlM ?_) fun walk => getTableId.bind fun _ => .pure
    intro walk version hversion
    obtain ⟨⟨table, i⟩, hi, rfl⟩ := List.mem_map.1 (List.mem_reverse.1 hversion)
    exact hI.newTableStep (h table (List.fst_mem_of_mem_zipIdx hi))

theorem newViewStep {walk : ViewWalk} {view : DuckLakeViewEntry} (h : view.viewId ∈ T.stagedIds) :
    Attempt.Keeps I (newViewStep walk view) := by
  have hrow : Attempt.Keeps I (newViewRow view walk) := by
    refine getCommitState.bind fun state => ?_
    dsimp only
    split
    · exact .pure
    · exact hI.allocateTableId.bind fun _ => getSchemaId.bind fun _ =>
        (hI.emplaceTable h).bind fun _ => .pure
  unfold DuckLake.newViewStep
  split
  · exact .ite (fun _ => .pure) fun _ => getTableId.bind fun _ => hI.alterView.bind fun _ => .pure
  · exact ensure.bind fun _ => .ite (fun _ => .pure) fun _ => getTableId.bind fun _ =>
      hI.alterView.bind fun _ => .pure
  iterate 3 exact hrow
  · exact .throw

theorem getNewTables : Attempt.Keeps I (getNewTables T) := by
  refine .foldlM fun result schema hschema => .foldlM fun result entry hentry => ?_
  have hmem (id : TableIndex) (hid : id ∈ entry.1.ids) : id ∈ T.stagedIds := by
    refine List.mem_append_left _ (List.mem_flatMap.2 ⟨schema.1, ?_, ?_⟩)
    · exact List.fst_mem_of_mem_zipIdx hschema
    · exact List.mem_flatMap.2 ⟨entry.1, List.fst_mem_of_mem_zipIdx hentry, hid⟩
  unfold getNewEntry
  split
  · rename_i chain heq
    refine hI.getNewTableInfo fun table htable => hmem _ ?_
    rw [heq]
    exact List.mem_map_of_mem htable
  · rename_i chain heq
    refine .bind (.foldlM fun walk view hview => hI.newViewStep (hmem _ ?_)) fun _ => .pure
    rw [heq]
    exact List.mem_map_of_mem (List.mem_reverse.1 hview)

/-! ### Schemas, materialized views, macros and procedures -/

theorem writeDrops : Attempt.Keeps I (writeDrops T) := by
  unfold DuckLake.writeDrops
  refine .bind (hI.emitIf fun h => ⟨by simpa using h, rfl⟩) fun _ => ?_
  refine .bind (hI.emitIf fun h => ⟨by simpa using h, rfl⟩) fun _ => ?_
  refine .bind (hI.emitIf fun h => ⟨by simpa using h, rfl⟩) fun _ => ?_
  refine .bind (hI.emitIf fun h => ⟨by simpa using h, rfl⟩) fun _ => ?_
  refine .bind (hI.emitIf fun _ => rfl) fun _ => ?_
  refine .bind (hI.emitIf fun h => ⟨by simpa using h, .inl rfl⟩) fun _ => ?_
  refine .bind (hI.emitIf fun h => ⟨by simpa using h, .inr rfl⟩) fun _ => ?_
  refine .bind (hI.emitIf fun h => ⟨by simpa using h, rfl⟩) fun _ => ?_
  exact hI.emitIf fun h => ⟨by simpa using h, rfl⟩

theorem writeNewSchemas {env : CommitEnvironment} : Attempt.Keeps I (writeNewSchemas env T) := by
  refine .mapMBind (fun schema _ => hI.nextCatalogId.bind fun _ => getCommitState.bind fun _ =>
    hI.emplaceSchema.bind fun _ => .pure) fun schemas hlength => ?_
  refine .bind (hI.emitIf fun h => ?_) fun _ => .pure
  rw [List.length_mergeSort] at hlength
  exact isEmpty_of_length hlength h

theorem writeTableRows {env : CommitEnvironment} {schemas : List DuckLakeSchemaInfo}
    {result : NewTableInfo} (h : T.newTables.isEmpty = false) :
    Attempt.Keeps I (writeTableRows env schemas result) := by
  refine .bind (.mapM fun _ _ => .bind .ofExcept fun _ => .pure) fun _ => ?_
  refine .bind (hI.emit h) fun _ => .bind (hI.emit h) fun _ => hI.tableOptions.bind fun _ => ?_
  refine getCommitSnapshot.bind fun _ => .bind .ofExcept fun _ => .bind .ofExcept fun _ => ?_
  refine .bind (hI.emit h) fun _ => .bind (hI.emit h) fun _ => .bind (hI.emit h) fun _ => ?_
  refine .bind (hI.emit h) fun _ => .bind (hI.emit h) fun _ => .bind (hI.emit h) fun _ => ?_
  refine .bind (hI.emit h) fun _ => .bind (hI.emit h) fun _ => .bind .ofExcept fun _ => ?_
  exact .bind (hI.emit h) fun _ => .bind (hI.emit h) fun _ => hI.emit h

theorem writeNewTables {env : CommitEnvironment} {schemas : List DuckLakeSchemaInfo} :
    Attempt.Keeps I (writeNewTables env T schemas) :=
  .ite (fun _ => .pure) fun h => hI.getNewTables.bind fun _ =>
    (hI.writeTableRows (by simpa using h)).bind fun _ => .pure

theorem writeNewMaterializedViews : Attempt.Keeps I (writeNewMaterializedViews T) := by
  refine .mapMBind (fun mv hmv => ?_) fun views hlength =>
    hI.emitIf fun h => isEmpty_of_length hlength h
  refine .bind ?_ fun _ => getCommitState.bind fun _ => .pure
  unfold newMaterializedViewId
  split
  · rename_i hlocal
    have hid : mv.id ∈ T.stagedIds :=
      List.mem_append_right _ (List.mem_map_of_mem (List.mem_filter.2 ⟨hmv, hlocal⟩))
    exact hI.nextCatalogId.bind fun _ => (hI.emplaceTable hid).bind fun _ => .pure
  · exact getTableId

theorem writeNewMacros : Attempt.Keeps I (writeNewMacros T) :=
  .bind (.mapM fun _ _ => hI.nextCatalogId.bind fun _ => getSchemaId.bind fun _ => .pure)
    fun _ => hI.emitIf fun h => (Bool.not_eq_true' _).mp h

theorem writeNewProcedures : Attempt.Keeps I (writeNewProcedures T) :=
  .bind (.mapM fun _ _ => hI.nextCatalogId.bind fun _ => getSchemaId.bind fun _ => .pure)
    fun _ => hI.emitIf fun h => (Bool.not_eq_true' _).mp h

/-! ### Data, deletes and compactions -/

theorem applyDroppedFileStats {tableId : TableIndex} {stats : DuckLakeTableStats} :
    Attempt.Keeps I (applyDroppedFileStats tableId stats) := by
  refine .bind .get fun s => ?_
  split
  · exact .pure
  · exact .bind .ofExcept fun _ => .bind (.modify fun _ => hI.frame rfl rfl rfl rfl) fun _ => .pure

theorem writeTableStats {tableId : TableIndex} {stats : DuckLakeTableStats}
    {initialized clearColumnStats : Bool} (h : T.WritesData ∨ T.droppedFiles.isEmpty = false) :
    Attempt.Keeps I (writeTableStats tableId stats initialized clearColumnStats) :=
  .bind (hI.emit h) fun _ => hI.emitIf fun _ => h

theorem getNewDataFile {file : DuckLakeDataFile} {tableId : TableIndex}
    {rowIdStart : Option Nat} : Attempt.Keeps I (getNewDataFile file tableId rowIdStart) :=
  hI.nextFileId.bind fun _ => getCommitState.bind fun _ => ensure.bind fun _ => .pure

theorem writeDataFiles {env : CommitEnvironment} {written : WrittenEntries}
    {files : List DuckLakeFileInfo} : Attempt.Keeps I (writeDataFiles env written files) :=
  .bind (.mapM fun _ _ => .bind .ofExcept fun _ => .pure) fun _ => hI.emitIf fun _ => trivial

theorem writeDroppedFiles {env : CommitEnvironment} :
    Attempt.Keeps I (writeDroppedFiles env T) := by
  refine runIf fun h => .bind (hI.emit trivial) fun _ => .bind .get fun s => .forM fun _ _ => ?_
  refine .bind .ofExcept fun current => ?_
  split
  · exact .ofExcept
  · exact hI.applyDroppedFileStats.bind fun _ => hI.writeTableStats (.inr (by simpa using h))

theorem getNewDeleteFile {tableId : TableIndex} {file : DuckLakeDeleteFile} :
    Attempt.Keeps I (getNewDeleteFile tableId file) :=
  hI.nextFileId.bind fun _ => .pure

theorem writeNewDeleteFiles {env : CommitEnvironment} {written : WrittenEntries} :
    Attempt.Keeps I (writeNewDeleteFiles env T written) := by
  have hfiles : Attempt.Keeps I (getNewDeleteFiles T) := by
    refine .bind (.mapM fun _ _ => getTableId.bind fun _ => .mapM fun _ _ => hI.getNewDeleteFile)
      fun _ => getCommitState.bind fun _ => .bind (.mapM fun _ _ => ?_) fun _ => .pure
    exact getTableId.bind fun _ => ensure.bind fun _ => .mapM fun _ _ => hI.getNewDeleteFile
  refine hfiles.bind fun _ => .bind (hI.emitIf fun _ => trivial) fun _ => ?_
  exact .bind (.mapM fun _ _ => .bind .ofExcept fun _ => .pure) fun _ => hI.emitIf fun _ => trivial

theorem writeInlinedDeletes {env : CommitEnvironment} :
    Attempt.Keeps I (writeInlinedDeletes env T) := by
  refine .bind (.mapM fun _ _ => getTableId.bind fun _ => .pure) fun _ =>
    .bind (hI.emitIf fun _ => trivial) fun _ => ?_
  refine .bind (.mapM fun _ _ => getTableId.bind fun _ => .pure) fun _ => ?_
  exact .bind .ofExcept fun _ => hI.emit trivial

theorem getCompactionChanges {type : CompactionType} :
    Attempt.Keeps I (getCompactionChanges T type) := by
  refine .foldlM fun _ _ _ => .foldlM fun _ _ _ => getCommitSnapshot.bind fun _ => ?_
  refine .bind (.foldlM fun _ _ _ => hI.getNewDataFile.bind fun _ => .pure) fun _ => ?_
  exact ensure.bind fun _ => ensure.bind fun _ => .pure

end CommitInvariant

omit [SQLWriter] in
theorem StagedTransaction.Compacts.of_mem {T : StagedTransaction} {type : CompactionType}
    {entry : TableIndex × LocalTableDataChanges} {compaction : DuckLakeCompactionEntry}
    (hentry : entry ∈ T.localChanges.changes)
    (hcompaction : compaction ∈ entry.2.compactions.filter (·.type = type))
    (h : compaction.sourceFiles ≠ []) : T.Compacts type := by
  obtain ⟨hmem, htype⟩ := List.mem_filter.1 hcompaction
  exact ⟨entry, hentry, compaction, hmem, by simpa using htype, h⟩

theorem newCompaction_compactedFiles (tableId : TableIndex) (result : CompactionInformation)
    (compaction : DuckLakeCompactionEntry) :
    Attempt.Yields (fun _ => True) (newCompaction tableId result compaction) fun result' _ =>
      compaction.sourceFiles = [] → result'.compactedFiles = result.compactedFiles := by
  unfold newCompaction
  refine .bind (.trivial _) fun snapshot => .bind (.trivial _) fun files => ?_
  refine .bind (.trivial _) fun _ => .bind (.trivial _) fun _ => .pure fun s _ hsources => ?_
  simp [hsources]

/-- The compacted files of one kind are source files of a staged compaction. -/
theorem getCompactionChanges_compacts (T : StagedTransaction) (type : CompactionType) :
    Attempt.Yields (fun _ => True) (getCompactionChanges T type) fun result _ =>
      result.compactedFiles ≠ [] → T.Compacts type := by
  let Q : CompactionInformation → CommitAttempt → Prop := fun result _ =>
    result.compactedFiles ≠ [] → T.Compacts type
  refine .mono (.foldlM (fun _ => Q) fun done entry rest result hl => ?_)
    (fun _ _ h => absurd rfl h) fun _ _ h => h
  refine .mono (.foldlM (fun _ => Q) fun done' compaction rest' result hl' => ?_) (fun _ h => h)
    fun _ _ h => h
  have hentry : entry ∈ T.localChanges.changes := hl ▸ List.mem_append_right _ (.head _)
  have hcompaction : compaction ∈ entry.2.compactions.filter (·.type = type) :=
    hl' ▸ List.mem_append_right _ (.head _)
  intro s hQ result' t hrun hne
  by_cases hsources : compaction.sourceFiles = []
  · rw [newCompaction_compactedFiles _ _ _ s trivial _ _ hrun hsources] at hne
    exact hQ hne
  · exact .of_mem hentry hcompaction hsources

namespace CommitInvariant

variable {T : StagedTransaction} {I : CommitAttempt → Prop} (hI : CommitInvariant T I)

include hI

theorem writeCompactions {env : CommitEnvironment} {written : WrittenEntries} :
    Attempt.Keeps I (writeCompactions env T written) := by
  refine hI.getCompactionChanges.bind fun _ => .bind (hI.emitIf fun _ => trivial) fun _ => ?_
  refine hI.writeDataFiles.bind fun _ => ?_
  refine hI.getCompactionChanges.bindPost (P := fun rewrites =>
    rewrites.compactedFiles ≠ [] → T.Compacts .rewriteDeletes) ?_ fun rewrites hrewrites => ?_
  · intro s rewrites _ hrun
    exact getCompactionChanges_compacts T .rewriteDeletes s trivial rewrites _ (Prod.ext hrun rfl)
  · refine hI.writeDataFiles.bind fun _ => .bind (hI.emitIf fun _ => trivial) fun _ => ?_
    refine .forM fun tableId htable => .bind .ofExcept fun _ => hI.emit (hrewrites fun hnone => ?_)
    rw [hnone] at htable
    cases htable

variable [StatsMerge]

theorem newInlinedRows {tableId : TableIndex} {changes : LocalTableDataChanges}
    {stats : DuckLakeTableStats} : Attempt.Keeps I (newInlinedRows tableId changes stats) := by
  unfold DuckLake.newInlinedRows
  split
  · exact .pure
  · exact (runIf fun _ => hI.skipFileId).bind fun _ => .pure

theorem newTableData {env : CommitEnvironment} {acc : NewDataInfo}
    {entry : TableIndex × LocalTableDataChanges} (hentry : entry ∈ T.localChanges.changes) :
    Attempt.Keeps I (newTableData env acc entry) := by
  refine getTableId.bind fun _ => ensure.bind fun _ => .ite (fun _ => .pure) fun hdata => ?_
  refine .bind .ofExcept fun _ => hI.applyDroppedFileStats.bind fun _ => ?_
  refine .bind (.foldlM fun _ _ _ => hI.getNewDataFile.bind fun _ => .pure) fun _ => ?_
  refine hI.setLocalDeleteFiles.bind fun _ => hI.newInlinedRows.bind fun _ => ?_
  exact (hI.writeTableStats (.inl ⟨entry, hentry, (Bool.not_eq_true _).mp hdata⟩)).bind fun _ =>
    .pure

theorem writeNewData {env : CommitEnvironment} {written : WrittenEntries} :
    Attempt.Keeps I (writeNewData env T written) := by
  refine .bind (.foldlM fun _ _ hentry => hI.newTableData hentry) fun _ =>
    hI.writeDataFiles.bind fun _ => ?_
  exact getCommitSnapshot.bind fun _ => .bind .ofExcept fun _ => hI.newSchemaVersions.bind fun _ =>
    hI.emit trivial

theorem writeTableChanges {env : CommitEnvironment} {written : WrittenEntries} :
    Attempt.Keeps I (writeTableChanges env T written) := by
  refine (runIf fun _ => hI.writeNewData).bind fun _ => .bind (hI.emit trivial) fun _ => ?_
  refine hI.writeDroppedFiles.bind fun _ => runIf fun _ => ?_
  exact hI.writeNewDeleteFiles.bind fun _ => hI.writeInlinedDeletes.bind fun _ =>
    hI.writeCompactions

theorem commitChanges (env : CommitEnvironment) : Attempt.Keeps I (commitChanges env T) := by
  refine hI.tableOptions.bind fun _ => .bind (.ite (fun _ => .pure) fun _ => .throw) fun _ => ?_
  refine hI.writeDrops.bind fun _ => hI.writeNewSchemas.bind fun _ => ?_
  refine hI.writeNewTables.bind fun _ => hI.writeNewMaterializedViews.bind fun _ => ?_
  refine hI.refreshes.bind fun _ => hI.writeNewMacros.bind fun _ => ?_
  refine hI.writeNewProcedures.bind fun _ => hI.nameMaps.bind fun _ => ?_
  exact hI.writeTableChanges.bind fun _ => .bind .get fun _ => hI.emitIf fun _ => trivial

theorem commitBatch (env : CommitEnvironment) : Attempt.Keeps I (commitBatch env T) :=
  .bind (hI.emit trivial) fun _ => (hI.commitChanges env).bind fun _ => .bind .get fun _ =>
    .bind .ofExcept fun _ => hI.emit trivial

end CommitInvariant

end Commit

end DuckLake
