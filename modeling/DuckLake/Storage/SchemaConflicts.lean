import DuckLake.Storage.CommitAttempt
import DuckLake.Storage.CompactionConflicts

/-!
# Concurrent changes of one definition

Two transactions that both change the definition of a table or view must not both commit. The
change log records alters and drops by id, but a rename only as the entry that it creates under
the new name, and a drop is only compared with other drops. This module collects the catalog
changes of a transaction from its staged entries and says which pairs of changes are missed.
-/

namespace DuckLake

/-! ## Collecting the catalog changes -/

section Collect

variable [SQLWriter]

/-- `created[schema.PathKey()].insert(entry)`. -/
def CreatedEntries.insert (created : CreatedEntries) (entry : CatalogEntry) : CreatedEntries where
  map := created.map.update entry.schema.pathKey (· ++ [entry]) []
  keys e he := by
    rcases CIMap.mem_updateList he with ⟨e', he', hkey, -⟩ | rfl
    · exact hkey ▸ created.keys e' he'
    · exact ⟨entry.schema, rfl⟩

def CreatedSchemas.insert (created : CreatedSchemas) (schema : DuckLakeSchemaEntry) :
    CreatedSchemas where
  map := created.map.insert schema.pathKey schema
  keys e he := by
    rcases CIMap.mem_updateList he with ⟨e', he', hkey, hvalue⟩ | rfl
    · rw [← hkey, created.keys e' he', show e'.2 = e.2 from hvalue.elim id id]
    · rfl

namespace CatalogChanges

-- ids of transaction-local entries are not reported yet, these get added later on
def addAlteredTable (changes : CatalogChanges) (id : TableIndex) : CatalogChanges :=
  { changes with alteredTables := changes.alteredTables.insertIf (!isTransactionLocal id) id }

def addSchemaVersionChange (changes : CatalogChanges) (id : TableIndex) : CatalogChanges :=
  { changes with
    alteredTablesWithSchemaVersionChanges :=
      changes.alteredTablesWithSchemaVersionChanges.insertIf (!isTransactionLocal id) id }

def addSetNotNull (changes : CatalogChanges) (id : TableIndex) : CatalogChanges :=
  { changes with tablesSetNotNull := changes.tablesSetNotNull.insertIf (!isTransactionLocal id) id }

def addAlteredView (changes : CatalogChanges) (id : TableIndex) : CatalogChanges :=
  { changes with alteredViews := changes.alteredViews.insertIf (!isTransactionLocal id) id }

def addCreated (changes : CatalogChanges) (entry : CatalogEntry) : CatalogChanges :=
  { changes with createdTables := changes.createdTables.insert entry }

end CatalogChanges

/-- One round of the loop of `getTransactionTableChanges`. -/
def addTableVersion (changes : CatalogChanges) (table : DuckLakeTableEntry) :
    Except Exception CatalogChanges :=
  match table.localChange with
  | .setPartitionKey | .dropNull _ | .renameColumn _ | .addColumn | .removeColumn _
  | .changeColumnType | .setDefault _ =>
    -- this table was altered in a way that modifies the schema versions
    .ok ((changes.addAlteredTable table.tableId).addSchemaVersionChange table.tableId)
  | .setNull _ =>
    .ok (((changes.addAlteredTable table.tableId).addSchemaVersionChange table.tableId).addSetNotNull
      table.tableId)
  | .addConstraint | .setComment | .setColumnComment _ | .setViewColumnComment _ | .setSortKey =>
    .ok (changes.addAlteredTable table.tableId)
  | .none | .created | .renamed =>
    .ok (changes.addCreated ⟨.tableEntry, table.name, table.schema⟩)

/-- One round of the loop of `getTransactionViewChanges`. -/
def addViewVersion (changes : CatalogChanges) (view : DuckLakeViewEntry) :
    Except Exception CatalogChanges :=
  match view.localChange with
  | .setComment | .setColumnComment _ | .setViewColumnComment _ =>
    .ok (changes.addAlteredView view.viewId)
  | .none | .created | .renamed =>
    .ok (changes.addCreated ⟨.viewEntry, view.name, view.schema⟩)
  | _ => .error ⟨.notImplemented,
      "Unsupported transaction local change in GetTransactionTableChanges"⟩

def getTransactionTableChanges (chain : List DuckLakeTableEntry) (changes : CatalogChanges) :
    Except Exception CatalogChanges :=
  chain.foldlM addTableVersion changes

def getTransactionViewChanges (chain : List DuckLakeViewEntry) (changes : CatalogChanges) :
    Except Exception CatalogChanges :=
  chain.foldlM addViewVersion changes

def addStagedEntry (changes : CatalogChanges) : StagedEntry → Except Exception CatalogChanges
  | .table chain => getTransactionTableChanges chain changes
  | .view chain => getTransactionViewChanges chain changes

/-- The part of `GetTransactionChanges` before the data changes. `droppedSchemas` are the entries
of the dropped schemas. -/
def StagedTransaction.catalogChanges (T : StagedTransaction) (droppedSchemas : DroppedSchemas) :
    Except Exception CatalogChanges :=
  let collect (entries : List CatalogEntry) : CreatedEntries :=
    entries.foldl CreatedEntries.insert ∅
  (T.newTables.flatMap (·.2)).foldlM addStagedEntry
    { droppedTables := T.droppedTables
      droppedViews := T.droppedViews
      droppedScalarMacros := T.droppedScalarMacros
      droppedTableMacros := T.droppedTableMacros
      droppedProcedures := T.droppedProcedures
      droppedSchemas := droppedSchemas
      createdSchemas := T.newSchemas.foldl (fun created s => created.insert s.entry) ∅
      createdScalarMacros := collect
        (T.newScalarMacros.flatMap fun s => s.2.map fun m => ⟨.macroEntry, m.name, m.schema⟩)
      createdTableMacros := collect
        (T.newTableMacros.flatMap fun s => s.2.map fun m => ⟨.tableMacroEntry, m.name, m.schema⟩)
      createdProcedures := collect
        (T.newProcedures.flatMap fun s => s.2.map fun p => ⟨.procedureEntry, p.name, p.schema⟩) }

end Collect

/-! ## What the collected sets hold -/

/-- A version that was made by an ALTER other than a rename. -/
def LocalChange.alters : LocalChange → Bool
  | .none | .created | .renamed => false
  | _ => true

/-- Tables and views are staged in one map, and recorded in separate sets. -/
inductive DefinitionKind where
  | table | view
deriving DecidableEq, Repr

namespace DefinitionKind

def altered : DefinitionKind → ChangeType
  | table => .alteredTable
  | view => .alteredView

def dropped : DefinitionKind → ChangeType
  | table => .droppedTable
  | view => .droppedView

end DefinitionKind

def StagedEntry.Alters : StagedEntry → DefinitionKind → TableIndex → Prop
  | table chain, .table, x => ∃ v ∈ chain, v.tableId = x ∧ v.localChange.alters = true
  | view chain, .view, x => ∃ v ∈ chain, v.viewId = x ∧ v.localChange.alters = true
  | _, _, _ => False

namespace StagedTransaction

variable (T : StagedTransaction)

def Alters (k : DefinitionKind) (x : TableIndex) : Prop :=
  ∃ entry ∈ T.newTables.flatMap (·.2), entry.Alters k x

def Renames : DefinitionKind → TableIndex → Prop
  | .table, x => x ∈ T.renamedTables
  | .view, x => x ∈ T.renamedViews

def Drops : DefinitionKind → TableIndex → Prop
  | .table, x => x ∈ T.droppedTables
  | .view, x => x ∈ T.droppedViews

/-- The transaction changes the definition of `x`. -/
def Changes (k : DefinitionKind) (x : TableIndex) : Prop :=
  T.Alters k x ∨ T.Renames k x ∨ T.Drops k x

end StagedTransaction

section Collected

variable [SQLWriter]

def CatalogChanges.altered (c : CatalogChanges) : DefinitionKind → OrdSet TableIndex
  | .table => c.alteredTables
  | .view => c.alteredViews

def CatalogChanges.dropped (c : CatalogChanges) : DefinitionKind → OrdSet TableIndex
  | .table => c.droppedTables
  | .view => c.droppedViews

variable {c c' : CatalogChanges} {k : DefinitionKind} {x id : TableIndex}

namespace CatalogChanges

@[simp] theorem mem_altered_addAlteredTable : x ∈ (c.addAlteredTable id).altered k ↔
    x ∈ c.altered k ∨ (k = .table ∧ isTransactionLocal id = false ∧ id = x) := by
  cases k with
  | table =>
    refine OrdSet.mem_insertIf.trans (or_comm.trans (or_congr_right ?_))
    simp only [Bool.not_eq_true', true_and]
    exact and_congr_right fun _ => eq_comm
  | view => exact (or_iff_left fun h => nomatch h.1).symm

@[simp] theorem mem_altered_addAlteredView : x ∈ (c.addAlteredView id).altered k ↔
    x ∈ c.altered k ∨ (k = .view ∧ isTransactionLocal id = false ∧ id = x) := by
  cases k with
  | table => exact (or_iff_left fun h => nomatch h.1).symm
  | view =>
    refine OrdSet.mem_insertIf.trans (or_comm.trans (or_congr_right ?_))
    simp only [Bool.not_eq_true', true_and]
    exact and_congr_right fun _ => eq_comm

@[simp] theorem altered_addSchemaVersionChange :
    (c.addSchemaVersionChange id).altered k = c.altered k := by cases k <;> rfl

@[simp] theorem altered_addSetNotNull : (c.addSetNotNull id).altered k = c.altered k := by
  cases k <;> rfl

@[simp] theorem altered_addCreated {entry : CatalogEntry} :
    (c.addCreated entry).altered k = c.altered k := by cases k <;> rfl

end CatalogChanges

theorem altered_addTableVersion {table : DuckLakeTableEntry}
    (h : addTableVersion c table = .ok c') :
    x ∈ c'.altered k ↔ x ∈ c.altered k ∨
      (k = .table ∧ isTransactionLocal table.tableId = false ∧ table.tableId = x ∧
        table.localChange.alters = true) := by
  unfold addTableVersion at h
  split at h <;> cases h <;> simp [*, LocalChange.alters]

theorem altered_addViewVersion {view : DuckLakeViewEntry} (h : addViewVersion c view = .ok c') :
    x ∈ c'.altered k ↔ x ∈ c.altered k ∨
      (k = .view ∧ isTransactionLocal view.viewId = false ∧ view.viewId = x ∧
        view.localChange.alters = true) := by
  unfold addViewVersion at h
  split at h <;> cases h <;> simp [*, LocalChange.alters]

theorem dropped_addTableVersion {table : DuckLakeTableEntry}
    (h : addTableVersion c table = .ok c') : c'.dropped k = c.dropped k := by
  unfold addTableVersion at h
  split at h <;> cases h <;> cases k <;> rfl

theorem dropped_addViewVersion {view : DuckLakeViewEntry} (h : addViewVersion c view = .ok c') :
    c'.dropped k = c.dropped k := by
  unfold addViewVersion at h
  split at h <;> cases h <;> cases k <;> rfl

theorem altered_addStagedEntry {entry : StagedEntry} (h : addStagedEntry c entry = .ok c') :
    x ∈ c'.altered k ↔ x ∈ c.altered k ∨ (isTransactionLocal x = false ∧ entry.Alters k x) := by
  cases entry with
  | table chain =>
    refine (collects_foldlM addTableVersion (fun _ _ _ => altered_addTableVersion) h).trans (or_congr_right ?_)
    cases k with
    | table =>
      constructor
      · rintro ⟨v, hv, -, hlocal, rfl, halters⟩
        exact ⟨hlocal, v, hv, rfl, halters⟩
      · rintro ⟨hlocal, v, hv, rfl, halters⟩
        exact ⟨v, hv, rfl, hlocal, rfl, halters⟩
    | view => simp [StagedEntry.Alters]
  | view chain =>
    refine (collects_foldlM addViewVersion (fun _ _ _ => altered_addViewVersion) h).trans (or_congr_right ?_)
    cases k with
    | table => simp [StagedEntry.Alters]
    | view =>
      constructor
      · rintro ⟨v, hv, -, hlocal, rfl, halters⟩
        exact ⟨hlocal, v, hv, rfl, halters⟩
      · rintro ⟨hlocal, v, hv, rfl, halters⟩
        exact ⟨v, hv, rfl, hlocal, rfl, halters⟩

theorem dropped_addStagedEntry {entry : StagedEntry} (h : addStagedEntry c entry = .ok c') :
    c'.dropped k = c.dropped k := by
  cases entry with
  | table chain => exact foldlM_unchanged addTableVersion (fun _ _ _ => dropped_addTableVersion) h
  | view chain => exact foldlM_unchanged addViewVersion (fun _ _ _ => dropped_addViewVersion) h

variable {T : StagedTransaction} {droppedSchemas : DroppedSchemas}

/-- The collected ids are those of the committed entries that have an altered version. -/
theorem StagedTransaction.mem_altered_catalogChanges
    (h : T.catalogChanges droppedSchemas = .ok c) :
    x ∈ c.altered k ↔ isTransactionLocal x = false ∧ T.Alters k x := by
  refine (collects_foldlM addStagedEntry (fun _ _ _ => altered_addStagedEntry) h).trans ?_
  have hstart : ∀ s : OrdSet TableIndex, s = ∅ → x ∉ s := fun s hs => hs ▸ OrdSet.not_mem_empty
  rw [or_iff_right (hstart _ (by cases k <;> rfl))]
  constructor
  · rintro ⟨entry, he, hlocal, halters⟩
    exact ⟨hlocal, entry, he, halters⟩
  · rintro ⟨hlocal, entry, he, halters⟩
    exact ⟨entry, he, hlocal, halters⟩

theorem StagedTransaction.mem_dropped_catalogChanges
    (h : T.catalogChanges droppedSchemas = .ok c) : x ∈ c.dropped k ↔ T.Drops k x := by
  rw [foldlM_unchanged addStagedEntry (fun _ _ _ => dropped_addStagedEntry) h]
  cases k <;> rfl

end Collected

/-! ## Recorded conflicts -/

section Recorded

variable [SQLWriter]

/-- The path keys of the schemas that a transaction drops. -/
def TransactionChangeInformation.droppedKeys (changes : TransactionChangeInformation) : CISet :=
  changes.droppedSchemas.entries.foldl (fun keys e => keys.insert e.2.pathKey ()) ∅

/-- The keys of the schemas that a log creates, or creates something in. -/
def SnapshotChangeInformation.createdKeys (other : SnapshotChangeInformation) : List Text :=
  other.createdSchemas.entries.map (·.1) ++ other.createdTables.map.entries.map (·.1) ++
    other.createdScalarMacros.map.entries.map (·.1) ++
    other.createdTableMacros.map.entries.map (·.1) ++ other.createdProcedures.map.entries.map (·.1)

/-- Two recorded changes that exclude each other: one of a transaction that retries, and one that
the log holds. -/
inductive RecordedConflict (state : DuckLakeTransactionState)
    (changes : TransactionChangeInformation) (other : SnapshotChangeInformation)
    (deletedFiles : OrdSet DataFileIndex) : Prop where
  | ids {t t' : ChangeType} {i : Idx} (hi : i ∈ changes.ids t) (ht : t' ∈ t.conflictsWith)
      (ho : i ∈ other.ids t')
  | attempted {i : TableIndex} (hi : i ∈ changes.tablesDeleteAttempted)
      (ho : i ∈ other.insertedTables ∨ i ∈ other.tablesInsertedInlined)
  | file {i : TableIndex} {f : DataFileIndex} (hi : i ∈ changes.tablesDeletedFrom)
      (ho : i ∈ other.tablesDeletedFrom) (hf : f ∈ state.deletedFiles) (hd : f ∈ deletedFiles)
  | renamedTable {i : TableIndex} (hi : i ∈ state.renamedTables)
      (ho : i ∈ other.droppedTables ∨ i ∈ other.alteredTables)
  | renamedView {i : TableIndex} (hi : i ∈ state.renamedViews)
      (ho : i ∈ other.droppedViews ∨ i ∈ other.alteredViews)
  | schemaTwice {e : Text × DuckLakeSchemaEntry} (he : e ∈ changes.createdSchemas.map.entries)
      (ho : other.createdSchemas.contains e.1 = true)
  | schemaInDropped {e : Text × DuckLakeSchemaEntry} {parent : DuckLakeSchemaEntry}
      (he : e ∈ changes.createdSchemas.map.entries) (hp : parent ∈ e.2.parents)
      (ho : parent.schemaId ∈ other.droppedSchemas)
  | entryTwice {k : CreatedKind} {e : Text × List CatalogEntry} {c : CatalogEntry}
      (he : e ∈ (changes.createdEntries k).map.entries) (hc : c ∈ e.2)
      (ho : CreatedIn (other.createdMap k) e.1 c.name)
  | entryInDropped {k : CreatedKind} {e : Text × List CatalogEntry} {c : CatalogEntry}
      (he : e ∈ (changes.createdEntries k).map.entries) (hc : c ∈ e.2)
      (ho : c.schema.schemaId ∈ other.droppedSchemas)
  | droppedContents {key : Text} (hdropped : changes.droppedKeys.entries ≠ [])
      (hkey : key ∈ other.createdKeys)
      (ho : findDroppedAncestor changes.droppedKeys key ≠ .ok none)

variable {state : DuckLakeTransactionState} {changes : TransactionChangeInformation}
  {other : SnapshotChangeInformation} {deletedFiles : OrdSet DataFileIndex}

omit [SQLWriter] in
theorem passes_schemaSubtreeConflictCheck {droppedKeys : CISet} {key action : Text} :
    Passes (schemaSubtreeConflictCheck droppedKeys key action) ↔
      findDroppedAncestor droppedKeys key = .ok none := by
  unfold schemaSubtreeConflictCheck
  cases h : findDroppedAncestor droppedKeys key with
  | error e => exact ⟨nofun, nofun⟩
  | ok found =>
    cases found with
    | none => exact ⟨fun _ => rfl, fun _ => rfl⟩
    | some key => exact ⟨nofun, nofun⟩

theorem passes_checkDroppedSchemaContents :
    Passes (checkDroppedSchemaContents changes other) ↔ (changes.droppedKeys.entries ≠ [] →
      ∀ key ∈ other.createdKeys, findDroppedAncestor changes.droppedKeys key = .ok none) := by
  change Passes (if (!changes.droppedKeys.entries.isEmpty) = true then _ else _) ↔ _
  simp only [passes_ite, passes_bind, schemaSubtreeConflictChecks, passes_forM,
    passes_schemaSubtreeConflictCheck, Bool.not_eq_true', List.isEmpty_eq_false_iff,
    passes_ok, implies_true, and_true, SnapshotChangeInformation.createdKeys, List.forall_mem_append,
    List.forall_mem_map, and_assoc]
  rfl

theorem passes_createdConflictCheck_iff {entryType : CatalogEntry → Text}
    {created : CreatedEntries} {dropped : OrdSet SchemaIndex} {otherCreated : CreatedNames} :
    Passes (createdConflictCheck entryType created dropped otherCreated.map) ↔
      ∀ e ∈ created.map.entries, ∀ c ∈ e.2,
        c.schema.schemaId ∉ dropped ∧ ¬ CreatedIn otherCreated e.1 c.name := by
  simp only [createdConflictCheck, passes_forM, passes_bind, passes_conflictCheck]
  refine forall₂_congr fun e _ => forall₂_congr fun c _ => and_congr_right fun _ => ?_
  unfold CreatedIn
  cases hnames : otherCreated.map.find? e.1 with
  | none => simp
  | some names =>
    cases hname : names.find? c.name with
    | none => simp [hname, CIMap.contains]
    | some kind => simp [hname, CIMap.contains, transactionException]

theorem passes_checkCreatedConflicts :
    Passes (checkCreatedConflicts changes other) ↔
      (∀ e ∈ changes.createdSchemas.map.entries, other.createdSchemas.contains e.1 = false ∧
        ∀ parent ∈ e.2.parents, parent.schemaId ∉ other.droppedSchemas) ∧
      ∀ k, ∀ e ∈ (changes.createdEntries k).map.entries, ∀ c ∈ e.2,
        c.schema.schemaId ∉ other.droppedSchemas ∧ ¬ CreatedIn (other.createdMap k) e.1 c.name := by
  simp only [checkCreatedConflicts, passes_bind, passes_forM, passes_createdConflictCheck_iff]
  refine and_congr ?_ ?_
  · refine forall₂_congr fun e _ => and_congr ?_ (forall₂_congr fun parent _ => ?_)
    · simp [schemaKeyConflictCheck, transactionException]
    · simp [transactionException]
  · constructor
    · rintro ⟨htm, hsm, hp, ht, -⟩ k
      cases k with
      | tableOrView => exact ht
      | scalarMacro => exact hsm
      | tableMacro => exact htm
      | procedure => exact hp
    · intro h
      exact ⟨h .tableMacro, h .scalarMacro, h .procedure, h .tableOrView, h .tableOrView⟩

/-- The check passes exactly when no two recorded changes exclude each other. -/
theorem noConflict_iff : NoConflict state changes other deletedFiles ↔
    ¬ RecordedConflict state changes other deletedFiles := by
  constructor
  · intro h hconflict
    obtain ⟨hschemas, hentries⟩ := passes_checkCreatedConflicts.1 h.created
    cases hconflict with
    | ids hi ht ho => exact h.ids _ _ hi _ ht ho
    | attempted hi ho =>
      obtain ⟨hins, hinl⟩ := h.deleteAttempted _ hi
      exact ho.elim hins hinl
    | file hi ho hf hd => exact h.files ⟨_, hi, ho⟩ _ hf hd
    | renamedTable hi ho =>
      obtain ⟨hdrop, halter⟩ := h.renamedTables _ hi
      exact ho.elim hdrop halter
    | renamedView hi ho =>
      obtain ⟨hdrop, halter⟩ := h.renamedViews _ hi
      exact ho.elim hdrop halter
    | schemaTwice he ho => exact absurd ho (by simp [(hschemas _ he).1])
    | schemaInDropped he hp ho => exact (hschemas _ he).2 _ hp ho
    | entryTwice he hc ho => exact (hentries _ _ he _ hc).2 ho
    | entryInDropped he hc ho => exact (hentries _ _ he _ hc).1 ho
    | droppedContents hdropped hkey ho =>
      exact ho (passes_checkDroppedSchemaContents.1 h.schemaContents hdropped _ hkey)
  · intro h
    refine ⟨fun t i hi t' ht ho => h (.ids hi ht ho), ?_, ?_,
      fun i hi => ⟨fun ho => h (.attempted hi (.inl ho)), fun ho => h (.attempted hi (.inr ho))⟩,
      fun ⟨i, hi, ho⟩ f hf hd => h (.file hi ho hf hd),
      fun i hi => ⟨fun ho => h (.renamedTable hi (.inl ho)),
        fun ho => h (.renamedTable hi (.inr ho))⟩,
      fun i hi => ⟨fun ho => h (.renamedView hi (.inl ho)),
        fun ho => h (.renamedView hi (.inr ho))⟩⟩
    · refine passes_checkDroppedSchemaContents.2 fun hdropped key hkey => ?_
      by_contra ho
      exact h (.droppedContents hdropped hkey ho)
    · refine passes_checkCreatedConflicts.2 ⟨fun e he => ⟨?_, ?_⟩, fun k e he c hc => ⟨?_, ?_⟩⟩
      · exact Bool.eq_false_iff.2 fun ho => h (.schemaTwice he ho)
      · exact fun parent hp ho => h (.schemaInDropped he hp ho)
      · exact fun ho => h (.entryInDropped he hc ho)
      · exact fun ho => h (.entryTwice he hc ho)

end Recorded

/-! ## Changes of one definition -/

/-- A transaction whose changes have been collected from its staged entries and logged. -/
structure SchemaTransaction [SQLWriter] where
  staged : StagedTransaction
  droppedSchemas : DroppedSchemas
  droppedSchemas_ids : droppedSchemas.entries.map (·.1) = staged.droppedSchemas
  catalog : CatalogChanges
  collected : staged.catalogChanges droppedSchemas = .ok catalog
  commitState : DuckLakeCommitState
  changesMade : Text
  written :
    writeSnapshotChanges staged.toDuckLakeTransactionState commitState
      (getTransactionChanges catalog staged.toDuckLakeTransactionState) = .ok changesMade

namespace SchemaTransaction

variable [SQLWriter]

def prepared (T : SchemaTransaction) : PreparedTransaction where
  catalog := T.catalog
  state := T.staged.toDuckLakeTransactionState
  commitState := T.commitState
  changesMade := T.changesMade
  written := T.written

/-- What a retry of another transaction reads from the log of this one. -/
def parsedLog (T : SchemaTransaction) : SnapshotChangeInformation :=
  match parseChangesMade T.changesMade with
  | .ok other => other
  | .error _ => {}

/-- The conflict check of `T₂` when it retries after `T₁` has committed. -/
def retryCheck (T₁ T₂ : SchemaTransaction) (deletedFiles : OrdSet DataFileIndex) : Check :=
  T₁.prepared.retryCheck T₂.prepared deletedFiles

def Conflicting (T₁ T₂ : SchemaTransaction) (deletedFiles : OrdSet DataFileIndex) : Prop :=
  RecordedConflict T₂.prepared.state T₂.prepared.changes T₁.parsedLog deletedFiles

/-- Both change the definition of the same committed table or view. -/
def ChangeSameDefinition (T₁ T₂ : SchemaTransaction) (k : DefinitionKind) (x : TableIndex) :
    Prop :=
  isTransactionLocal x = false ∧ T₁.staged.Changes k x ∧ T₂.staged.Changes k x

/-- The pairs that are not compared: the first has only renamed it, or it has altered it and the
second only drops it. -/
def Missed (T₁ T₂ : SchemaTransaction) (k : DefinitionKind) (x : TableIndex) : Prop :=
  T₁.ChangeSameDefinition T₂ k x ∧ ¬ T₁.staged.Drops k x ∧
    (T₁.staged.Alters k x → ¬ T₂.staged.Alters k x ∧ ¬ T₂.staged.Renames k x)

/-- No lost schema change: the second transaction is refused. -/
def NoLostSchemaChange (T₁ T₂ : SchemaTransaction) (deletedFiles : OrdSet DataFileIndex) : Prop :=
  ∀ k x, T₁.ChangeSameDefinition T₂ k x → ∃ e, T₁.retryCheck T₂ deletedFiles = .error e

variable {T T₁ T₂ : SchemaTransaction} {deletedFiles : OrdSet DataFileIndex} {k : DefinitionKind}
  {x : TableIndex}

theorem mem_ids_altered (hlocal : isTransactionLocal x = false) (h : T.staged.Alters k x) :
    x ∈ T.prepared.changes.ids k.altered := by
  refine mem_ids_getTransactionChanges.2 (.inr ?_)
  have hmem := (StagedTransaction.mem_altered_catalogChanges T.collected).2 ⟨hlocal, h⟩
  cases k <;> exact hmem

theorem mem_ids_dropped (h : T.staged.Drops k x) : x ∈ T.prepared.changes.ids k.dropped := by
  refine mem_ids_getTransactionChanges.2 (.inr ?_)
  have hmem := (StagedTransaction.mem_dropped_catalogChanges T.collected).2 h
  cases k <;> exact hmem

theorem parseChangesMade_eq (T : SchemaTransaction) :
    parseChangesMade T.changesMade = .ok T.parsedLog ∧ T.parsedLog.sets = T.prepared.logged.sets := by
  obtain ⟨other, hparse, hother, -⟩ := T.prepared.logged.parse_changesMade
  have hparse : parseChangesMade T.changesMade = .ok other := hparse
  have hlog : T.parsedLog = other := by simp only [parsedLog, hparse]
  rw [hlog]
  exact ⟨hparse, hother⟩

theorem mem_parsedLog (hlocal : isTransactionLocal x = false) {t : ChangeType}
    (h : x ∈ T.prepared.changes.ids t) : x ∈ T.parsedLog.ids t := by
  have hlogs : T.prepared.Logs t x := PreparedTransaction.logs_of_mem_readd hlocal
    (PreparedTransaction.ids_changes_subset h)
  have hmem : x ∈ T.parsedLog.sets.ids t := by
    rw [T.parseChangesMade_eq.2]
    exact hlogs
  exact hmem

theorem retryCheck_error_iff :
    (∃ e, T₁.retryCheck T₂ deletedFiles = .error e) ↔ T₁.Conflicting T₂ deletedFiles := by
  have hcheck : T₁.retryCheck T₂ deletedFiles =
      checkForConflicts T₂.prepared.state T₂.prepared.changes T₁.parsedLog deletedFiles := by
    unfold retryCheck PreparedTransaction.retryCheck
    rw [show parseChangesMade T₁.prepared.changesMade = .ok T₁.parsedLog from
      T₁.parseChangesMade_eq.1]
    rfl
  rw [hcheck, ← not_passes_iff, passes_checkForConflicts, noConflict_iff, not_not]
  rfl

theorem conflicting_of_renames (h : T₂.staged.Renames k x)
    (ho : x ∈ T₁.parsedLog.ids k.dropped ∨ x ∈ T₁.parsedLog.ids k.altered) :
    T₁.Conflicting T₂ deletedFiles := by
  cases k with
  | table => exact .renamedTable h ho
  | view => exact .renamedView h ho

/-- A pair that is not missed is compared. -/
theorem ChangeSameDefinition.conflicting_or_missed (h : T₁.ChangeSameDefinition T₂ k x) :
    T₁.Conflicting T₂ deletedFiles ∨ T₁.Missed T₂ k x := by
  obtain ⟨hlocal, hchange₁, hchange₂⟩ := id h
  by_cases hdrop : T₁.staged.Drops k x
  · -- a drop is compared with every change
    have ho : x ∈ T₁.parsedLog.ids k.dropped := mem_parsedLog hlocal (mem_ids_dropped hdrop)
    refine .inl ?_
    rcases hchange₂ with halter | hrename | hdrop₂
    · exact .ids (mem_ids_altered hlocal halter) (by cases k <;> decide) ho
    · exact conflicting_of_renames hrename (.inl ho)
    · exact .ids (mem_ids_dropped hdrop₂) (by cases k <;> decide) ho
  by_cases halter : T₁.staged.Alters k x
  · have ho : x ∈ T₁.parsedLog.ids k.altered := mem_parsedLog hlocal (mem_ids_altered hlocal halter)
    by_cases halter₂ : T₂.staged.Alters k x
    · exact .inl (.ids (mem_ids_altered hlocal halter₂) (by cases k <;> decide) ho)
    by_cases hrename₂ : T₂.staged.Renames k x
    · exact .inl (conflicting_of_renames hrename₂ (.inr ho))
    exact .inr ⟨h, hdrop, fun _ => ⟨halter₂, hrename₂⟩⟩
  · exact .inr ⟨h, hdrop, fun ha => absurd ha halter⟩

end SchemaTransaction

/-- A change of a definition is lost exactly when the pair of changes is one that is not compared,
and nothing else that the two transactions have recorded excludes each other. -/
theorem noLostSchemaChange_iff [SQLWriter] (T₁ T₂ : SchemaTransaction)
    (deletedFiles : OrdSet DataFileIndex) :
    T₁.NoLostSchemaChange T₂ deletedFiles ↔
      ((∃ k x, T₁.Missed T₂ k x) → T₁.Conflicting T₂ deletedFiles) := by
  constructor
  · rintro h ⟨k, x, hmissed⟩
    exact SchemaTransaction.retryCheck_error_iff.1 (h k x hmissed.1)
  · intro h k x hsame
    refine SchemaTransaction.retryCheck_error_iff.2 ?_
    rcases hsame.conflicting_or_missed with hconflict | hmissed
    · exact hconflict
    · exact h ⟨k, x, hmissed⟩

section Example

attribute [local instance] SQLWriter.reference

/-- The transaction that renames table 1 of the schema `main`, which the log calls `key`. -/
def renameTable (name key : Text) (hkey : key = "\"main\"." ++ SQLWriter.quotedIdentifier name) :
    SchemaTransaction where
  staged := {
    commitInfo := ⟨none, none, none, false⟩
    newTables := [(0, [.table [{
      tableId := 1, uuid := "uuid", schema := .root 0 "main", name := name, dataPath := "t/"
      columns := [
        { field := { columnData := { id := 1 }, name := "a", type := .primitive "int32" } }]
      localChange := .renamed }]])]
    renamedTables := .ofList [1] }
  droppedSchemas := ∅
  droppedSchemas_ids := rfl
  catalog := { createdTables := .insert ∅ ⟨.tableEntry, name, .root 0 "main"⟩ }
  collected := rfl
  commitState := { committedTables := [(1, 1)] }
  changesMade := "created_table:" ++ key
  written := by
    subst hkey
    rfl

/-- From `t` to `u`. -/
def renameToU : SchemaTransaction := renameTable "u" "\"main\".\"u\"" rfl

/-- From `t` to `v`. -/
def renameToV : SchemaTransaction := renameTable "v" "\"main\".\"v\"" rfl

theorem changeSameDefinition_renameTable : renameToU.ChangeSameDefinition renameToV .table 1 := by
  have hmem : (1 : TableIndex) ∈ OrdSet.ofList [(1 : TableIndex)] := by decide
  exact ⟨by decide, .inr (.inl hmem), .inr (.inl hmem)⟩

/-- The second of two concurrent renames of one table silently takes over. -/
theorem not_noLostSchemaChange_renameTable :
    ¬ ∀ (T₁ T₂ : SchemaTransaction) (deletedFiles : OrdSet DataFileIndex),
      T₁.NoLostSchemaChange T₂ deletedFiles := by
  intro h
  obtain ⟨e, he⟩ := h renameToU renameToV ∅ .table 1 changeSameDefinition_renameTable
  have hpass : Passes (renameToU.retryCheck renameToV ∅) := by decide +kernel
  exact absurd (hpass.symm.trans he) nofun

end Example

end DuckLake
