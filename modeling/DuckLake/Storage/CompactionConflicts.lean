import DuckLake.Storage.SnapshotChangesRoundTrip
import DuckLake.Storage.Conflicts

/-!
# Compaction against concurrent deletes

A compaction replaces data files, so a delete that refers to one of them must not commit next to
it. The change log knows a DELETE under two kinds: delete files and dropped files are
`deleted_from_table`, rows deleted through the metadata tables are `inlined_delete`. Compactions
are only compared with the first kind, and this module says exactly what follows from that.
-/

namespace DuckLake

/-! ## What a transaction records -/

/-- Whether the changes to a table are recorded under a kind. -/
def LocalTableDataChanges.makes (c : LocalTableDataChanges) : ChangeType → Bool
  | .insertedIntoTable => c.insertedData
  | .flushedInlineDataForTable => c.flushedInlineData
  | .insertedIntoTableInlined => c.newInlinedData.isSome
  | .deletedFromTable => !c.newDeleteFiles.isEmpty
  | .deletedFromTableInlined => c.deletedInlined
  | .mergeAdjacent => c.compacted .mergeAdjacentTables
  | .rewriteDelete => c.compacted .rewriteDeletes
  | _ => false

section Records

variable [SQLWriter]

theorem mem_ids_addTableChanges {i j : TableIndex} {c : LocalTableDataChanges}
    {changes : TransactionChangeInformation} {t : ChangeType} :
    j ∈ (addTableChanges i c changes).ids t ↔ (c.makes t = true ∧ j = i) ∨ j ∈ changes.ids t := by
  cases t with
  | insertedIntoTable | flushedInlineDataForTable | insertedIntoTableInlined | deletedFromTable
  | deletedFromTableInlined | mergeAdjacent | rewriteDelete => exact OrdSet.mem_insertIf
  | _ =>
    simp only [LocalTableDataChanges.makes, Bool.false_eq_true, false_and, false_or]
    rfl

theorem mem_ids_foldl_addTableChanges (f : TableIndex → TableIndex)
    {l : List (TableIndex × LocalTableDataChanges)} {changes : TransactionChangeInformation}
    {t : ChangeType} {j : TableIndex} :
    j ∈ (l.foldl (fun c e => addTableChanges (f e.1) e.2 c) changes).ids t ↔
      (∃ e ∈ l, e.2.makes t = true ∧ j = f e.1) ∨ j ∈ changes.ids t := by
  induction l generalizing changes with
  | nil => simp
  | cons e l ih =>
    rw [List.foldl_cons, ih, mem_ids_addTableChanges]
    simp only [List.mem_cons, exists_eq_or_imp, or_assoc]
    exact or_left_comm

theorem mem_ids_readdTableChanges {state : DuckLakeTransactionState} {cs : DuckLakeCommitState}
    {changes : TransactionChangeInformation} {t : ChangeType} {j : TableIndex} :
    j ∈ (readdTableChanges state cs changes).ids t ↔
      (∃ e ∈ state.localChanges.changes, e.2.makes t = true ∧ j = cs.getTableId e.1) ∨
      j ∈ ({ changes with tablesDeletedFrom := state.tablesDeletedFrom } :
        TransactionChangeInformation).ids t :=
  mem_ids_foldl_addTableChanges cs.getTableId

/-- The change information before the data changes are added. -/
def DuckLakeTransactionState.baseChanges (state : DuckLakeTransactionState)
    (catalog : CatalogChanges) : TransactionChangeInformation :=
  { catalog with
    tablesDeletedFrom := state.tablesDeletedFrom
    tablesDeleteAttempted := state.tablesDeleteAttempted }

theorem getTransactionChanges_eq (catalog : CatalogChanges) (state : DuckLakeTransactionState) :
    getTransactionChanges catalog state =
      (state.localChanges.changes.filter fun e => !isTransactionLocal e.1).foldl
        (fun c e => addTableChanges e.1 e.2 c) (state.baseChanges catalog) := by
  rw [List.foldl_filter, getTransactionChanges]
  refine List.foldl_ext _ _ _ fun c e _ => ?_
  cases isTransactionLocal e.1 <;> rfl

theorem mem_ids_getTransactionChanges {catalog : CatalogChanges}
    {state : DuckLakeTransactionState} {t : ChangeType} {j : TableIndex} :
    j ∈ (getTransactionChanges catalog state).ids t ↔
      (∃ e ∈ state.localChanges.changes, isTransactionLocal e.1 = false ∧
        e.2.makes t = true ∧ j = e.1) ∨
      j ∈ (state.baseChanges catalog).ids t := by
  rw [getTransactionChanges_eq]
  refine (mem_ids_foldl_addTableChanges id).trans ?_
  simp only [List.mem_filter, Bool.not_eq_true', and_assoc, id_eq]

end Records

/-- A transaction that has come to the point of writing its change log in a commit attempt. -/
structure PreparedTransaction [SQLWriter] where
  catalog : CatalogChanges
  state : DuckLakeTransactionState
  commitState : DuckLakeCommitState
  changesMade : Text
  written :
    writeSnapshotChanges state commitState (getTransactionChanges catalog state) = .ok changesMade

namespace PreparedTransaction

variable [SQLWriter] (T : PreparedTransaction)

def changes : TransactionChangeInformation := getTransactionChanges T.catalog T.state

def logged : LoggedTransaction := ⟨T.state, T.commitState, T.changes, T.changesMade, T.written⟩

/-- The ids under a kind in the change log of the transaction. -/
def Logs (t : ChangeType) (i : Idx) : Prop := i ∈ T.logged.sets.ids t

def Compacts (table : TableIndex) : Prop :=
  table ∈ T.changes.tablesMergeAdjacent ∨ table ∈ T.changes.tablesRewriteDelete

/-- Rows of the table's data files are deleted through the metadata tables. -/
def DeletesInlined (table : TableIndex) : Prop :=
  ∃ e ∈ T.state.localChanges.changes, e.1 = table ∧ e.2.newInlinedFileDeletes.isSome = true

/-- Rows of the table's data files are deleted, in any of the recorded ways. -/
def DeletesRows (table : TableIndex) : Prop :=
  (∃ e ∈ T.state.localChanges.changes, e.1 = table ∧ e.2.newDeleteFiles ≠ []) ∨
  table ∈ T.state.tablesDeletedFrom ∨ T.DeletesInlined table

variable {T}

/-- Every change known at the start of the commit is part of what is logged. -/
theorem ids_changes_subset {t : ChangeType} {i : Idx} (h : i ∈ T.changes.ids t) :
    i ∈ (readdTableChanges T.state T.commitState T.changes).ids t := by
  rw [mem_ids_readdTableChanges]
  have hmem := h
  rw [changes, mem_ids_getTransactionChanges] at h
  rcases h with ⟨e, he, hlocal, hmakes, rfl⟩ | h
  · exact .inl ⟨e, he, hmakes, (T.commitState.getTableId_of_committed hlocal).symm⟩
  · refine .inr ?_
    cases t with
    | deletedFromTable => exact h
    | _ => exact hmem

theorem logs_of_mem_readd {t : ChangeType} {i : Idx} (hlocal : isTransactionLocal i = false)
    (h : i ∈ (readdTableChanges T.state T.commitState T.changes).ids t) : T.Logs t i := by
  refine ⟨i, h, ?_⟩
  have hid := T.commitState.getTableId_of_committed hlocal
  change T.commitState.loggedId t i = i
  cases t <;> first | rfl | exact hid

theorem Compacts.committed {table : TableIndex} (h : T.Compacts table) :
    isTransactionLocal table = false := by
  have hids : table ∈ T.changes.ids .mergeAdjacent ∨ table ∈ T.changes.ids .rewriteDelete := h
  simp only [changes, mem_ids_getTransactionChanges] at hids
  rcases hids with (⟨e, -, he, -, rfl⟩ | h) | (⟨e, -, he, -, rfl⟩ | h)
  · exact he
  · exact absurd h OrdSet.not_mem_empty
  · exact he
  · exact absurd h OrdSet.not_mem_empty

theorem Compacts.logs {table : TableIndex} (h : T.Compacts table) :
    T.Logs .mergeAdjacent table ∨ T.Logs .rewriteDelete table := by
  rcases h with hm | hr
  · exact .inl (logs_of_mem_readd (Compacts.committed (.inl hm))
      (ids_changes_subset (t := .mergeAdjacent) hm))
  · exact .inr (logs_of_mem_readd (Compacts.committed (.inr hr))
      (ids_changes_subset (t := .rewriteDelete) hr))

end PreparedTransaction

/-! ## Compactions stand alone -/

section CompactionOnly

variable [SQLWriter]

/-- A log in which only compactions are recorded. -/
structure ChangeSets.CompactionOnly (s : ChangeSets) : Prop where
  ids : ∀ t, t ≠ .mergeAdjacent → t ≠ .rewriteDelete → s.ids t = ∅
  schemas : s.schemas = ∅
  created : ∀ k, s.created k = ∅

theorem schemaAndDataSets_eq_empty {cs : DuckLakeCommitState} {c : TransactionChangeInformation}
    (h : addSchemaAndDataChanges cs c [] = []) : c.schemaAndDataSets cs = ∅ := by
  obtain ⟨l, -, htext, hsets, -⟩ := writes_addSchemaAndDataChanges cs c
  rw [htext, foldl_appendLogged] at h
  have hl : l = [] := by
    by_contra hne
    refine Text.join_ne_nil (by simpa using hne) ?_ h
    intro t ht
    obtain ⟨c, -, rfl⟩ := List.mem_map.1 ht
    exact c.parsed.render_ne_nil
  rw [← hsets, hl]
  rfl

/-- A change log with a compaction holds nothing else, or it would not have been written. -/
theorem compactionOnly_of_written {cs : DuckLakeCommitState} {c : TransactionChangeInformation}
    {changesMade : Text} (hw : snapshotChangesText cs c = .ok changesMade) {i : Idx}
    (h : i ∈ c.tablesMergeAdjacent ∨ i ∈ c.tablesRewriteDelete) :
    (c.sets cs).CompactionOnly := by
  have hcompaction : (!c.tablesMergeAdjacent.isEmpty || !c.tablesRewriteDelete.isEmpty) = true := by
    rcases h with h | h
    · rw [OrdSet.isEmpty_eq_false_iff.2 ⟨i, h⟩]
      rfl
    · rw [OrdSet.isEmpty_eq_false_iff.2 ⟨i, h⟩, Bool.not_false, Bool.or_true]
  simp only [snapshotChangesText, hcompaction, Bool.true_and] at hw
  split at hw
  · cases hw
  rename_i hempty
  have hsets := schemaAndDataSets_eq_empty (by simpa using hempty)
  refine ⟨fun k hm hr => ?_, congrArg ChangeSets.schemas hsets,
    fun k => congrFun (congrArg ChangeSets.created hsets) k⟩
  have hk := congrFun (congrArg ChangeSets.ids hsets) k
  simpa only [TransactionChangeInformation.schemaAndDataSets, hm, hr, or_self, if_false,
    ChangeSets.ids_empty] using hk

theorem LoggedTransaction.compactionOnly {t : LoggedTransaction} {i : Idx}
    (h : i ∈ t.sets.ids .mergeAdjacent ∨ i ∈ t.sets.ids .rewriteDelete) :
    t.sets.CompactionOnly := by
  rcases h with ⟨j, hj, -⟩ | ⟨j, hj, -⟩
  · exact compactionOnly_of_written t.written (.inl hj)
  · exact compactionOnly_of_written t.written (.inr hj)

variable {changes : TransactionChangeInformation} {other : SnapshotChangeInformation}

omit [SQLWriter] in
theorem CreatedNames.entries_eq_nil {m : CreatedNames} (h : ∀ key name, ¬ CreatedIn m key name) :
    m.map.entries = [] := by
  refine List.eq_nil_iff_forall_not_mem.2 fun e he => ?_
  obtain ⟨name, hname⟩ := List.exists_mem_of_ne_nil _ (m.nonempty e he)
  exact h e.1 name.1 ⟨e.2, CIMap.find?_eq_some_iff.2 ⟨e, he, rfl, rfl⟩,
    CIMap.contains_iff.2 ⟨name, hname, rfl⟩⟩

omit [SQLWriter] in
theorem ChangeSets.CompactionOnly.createdMap_eq_nil (h : other.sets.CompactionOnly)
    (k : CreatedKind) : (other.createdMap k).map.entries = [] := by
  refine CreatedNames.entries_eq_nil fun key name hc => ?_
  have hmem : (key, name) ∈ other.sets.created k := hc
  rw [h.created k] at hmem
  exact hmem

omit [SQLWriter] in
theorem ChangeSets.CompactionOnly.createdSchemas_eq_nil (h : other.sets.CompactionOnly) :
    other.createdSchemas.entries = [] := by
  refine List.eq_nil_iff_forall_not_mem.2 fun e he => ?_
  have hmem : e.1 ∈ other.sets.schemas := CIMap.contains_iff.2 ⟨e, he, rfl⟩
  rw [h.schemas] at hmem
  exact hmem

omit [SQLWriter] in
theorem ChangeSets.CompactionOnly.not_mem_ids (h : other.sets.CompactionOnly) {t : ChangeType}
    (hm : t ≠ .mergeAdjacent) (hr : t ≠ .rewriteDelete) (i : Idx) : i ∉ other.ids t := by
  intro hi
  have hmem : i ∈ other.sets.ids t := hi
  rw [h.ids t hm hr] at hmem
  exact hmem

theorem passes_schemaContents_of_log (h : other.sets.CompactionOnly) :
    Passes (checkDroppedSchemaContents changes other) := by
  have hc := h.createdMap_eq_nil
  simp only [checkDroppedSchemaContents, schemaSubtreeConflictChecks, passes_ite, passes_bind,
    passes_forM, h.createdSchemas_eq_nil, show other.createdTables.map.entries = [] from
    hc .tableOrView, show other.createdScalarMacros.map.entries = [] from hc .scalarMacro,
    show other.createdTableMacros.map.entries = [] from hc .tableMacro,
    show other.createdProcedures.map.entries = [] from hc .procedure]
  simp

omit [SQLWriter] in
theorem CIMap.find?_of_entries_eq_nil {V : Type} {m : CIMap V} (h : m.entries = []) (key : Text) :
    m.find? key = none := by
  simp [CIMap.find?, h]

theorem passes_createdConflictCheck {entryType : CatalogEntry → Text} {created : CreatedEntries}
    {dropped : OrdSet SchemaIndex} {otherCreated : CIMap (CIMap Text)}
    (hdropped : ∀ i, i ∉ dropped) (hother : otherCreated.entries = []) :
    Passes (createdConflictCheck entryType created dropped otherCreated) := by
  simp only [createdConflictCheck, passes_forM, passes_bind, passes_conflictCheck,
    CIMap.find?_of_entries_eq_nil hother, Option.bind_none]
  exact fun entry _ e _ => ⟨hdropped e.schema.schemaId, rfl⟩

theorem passes_created_of_log (h : other.sets.CompactionOnly) :
    Passes (checkCreatedConflicts changes other) := by
  have hdropped : ∀ i, i ∉ other.droppedSchemas :=
    h.not_mem_ids (t := .droppedSchema) (by decide) (by decide)
  have hc := h.createdMap_eq_nil
  have hschema : ∀ key, other.createdSchemas.contains key = false := by
    intro key
    simp [CIMap.contains, CIMap.find?_of_entries_eq_nil h.createdSchemas_eq_nil]
  simp only [checkCreatedConflicts, passes_bind, passes_forM, schemaKeyConflictCheck, hschema]
  refine ⟨fun e _ => ⟨rfl, fun parent _ => ?_⟩,
    passes_createdConflictCheck hdropped (hc .tableMacro),
    passes_createdConflictCheck hdropped (hc .scalarMacro),
    passes_createdConflictCheck hdropped (hc .procedure),
    passes_createdConflictCheck hdropped (hc .tableOrView),
    passes_createdConflictCheck hdropped (hc .tableOrView)⟩
  rw [if_neg (hdropped parent.schemaId)]
  rfl

/-- A transaction whose own log holds only compactions changes nothing in the catalog. -/
theorem passes_catalog_of_changes (other : SnapshotChangeInformation) {cs : DuckLakeCommitState}
    (h : (changes.sets cs).CompactionOnly) :
    Passes (checkDroppedSchemaContents changes other) ∧
      Passes (checkCreatedConflicts changes other) := by
  have hdropped : changes.droppedSchemas.entries = [] := by
    refine List.eq_nil_iff_forall_not_mem.2 fun e he => ?_
    have hmem : e.1 ∈ (changes.sets cs).ids .droppedSchema :=
      ⟨e.1, OrdSet.mem_ofList.2 (List.mem_map.2 ⟨e, he, rfl⟩), rfl⟩
    rw [h.ids _ (by decide) (by decide)] at hmem
    exact hmem
  have hschemas : changes.createdSchemas.map.entries = [] := by
    refine List.eq_nil_iff_forall_not_mem.2 fun e he => ?_
    have hmem : e.1 ∈ (changes.sets cs).schemas := CIMap.contains_iff.2 ⟨e, he, rfl⟩
    rw [h.schemas] at hmem
    exact hmem
  have hcreated : ∀ k, ∀ e ∈ (changes.createdEntries k).map.entries, e.2 = [] := by
    intro k e he
    refine List.eq_nil_iff_forall_not_mem.2 fun c hc => ?_
    have hmem : (e.1, c.name) ∈ (changes.sets cs).created k :=
      ⟨e.2, CIMap.find?_eq_some_iff.2 ⟨e, he, rfl, rfl⟩, c, hc, rfl⟩
    rw [h.created k] at hmem
    exact hmem
  have hcheck : ∀ k entryType dropped otherCreated,
      Passes (createdConflictCheck entryType (changes.createdEntries k) dropped otherCreated) := by
    intro k entryType dropped otherCreated
    rw [createdConflictCheck, passes_forM]
    intro e he
    rw [hcreated k e he]
    rfl
  constructor
  · rw [checkDroppedSchemaContents, hdropped]
    rfl
  · simp only [checkCreatedConflicts, hschemas, passes_bind]
    exact ⟨rfl, hcheck .tableMacro _ _ _, hcheck .scalarMacro _ _ _, hcheck .procedure _ _ _,
      hcheck .tableOrView _ _ _, hcheck .tableOrView _ _ _⟩

end CompactionOnly

/-! ## The retry of a transaction -/

namespace PreparedTransaction

variable [SQLWriter]

/-- The conflict check of `T₂` when it retries after `T₁` has committed. -/
def retryCheck (T₁ T₂ : PreparedTransaction) (deletedFiles : OrdSet DataFileIndex) : Check := do
  let other ← parseChangesMade T₁.changesMade
  checkForConflicts T₂.state T₂.changes other deletedFiles

/-- The pairs of recorded changes that a compaction and a concurrent transaction are checked
for. -/
inductive Clash (T₁ T₂ : PreparedTransaction) : Prop where
  | compacted {i : Idx} (h₁ : T₁.Logs .mergeAdjacent i ∨ T₁.Logs .rewriteDelete i)
      (h₂ : i ∈ T₂.changes.tablesDeletedFrom ∨ T₂.Compacts i)
  | compacts {i : Idx} (h₁ : T₁.Logs .droppedTable i ∨ T₁.Logs .deletedFromTable i)
      (h₂ : T₂.Compacts i)
  | attempted {i : Idx} (h₁ : T₁.Logs .insertedIntoTable i ∨ T₁.Logs .insertedIntoTableInlined i)
      (h₂ : i ∈ T₂.changes.tablesDeleteAttempted)
  | renamedTable {i : Idx} (h₁ : T₁.Logs .droppedTable i ∨ T₁.Logs .alteredTable i)
      (h₂ : i ∈ T₂.state.renamedTables)
  | renamedView {i : Idx} (h₁ : T₁.Logs .droppedView i ∨ T₁.Logs .alteredView i)
      (h₂ : i ∈ T₂.state.renamedViews)

variable {T₁ T₂ : PreparedTransaction} {other : SnapshotChangeInformation}
  {deletedFiles : OrdSet DataFileIndex}

theorem Clash.not_noConflict (h : Clash T₁ T₂) (hlogs : ∀ {t i}, T₁.Logs t i → i ∈ other.ids t) :
    ¬ NoConflict T₂.state T₂.changes other deletedFiles := by
  intro hno
  have hclash : ∀ {t t' i}, i ∈ T₂.changes.ids t → t' ∈ t.conflictsWith → ¬ T₁.Logs t' i :=
    fun hi ht' hl => hno.ids _ _ hi _ ht' (hlogs hl)
  cases h with
  | compacted h₁ h₂ =>
    have hpair : ∀ t, t = .deletedFromTable ∨ t = .mergeAdjacent ∨ t = .rewriteDelete →
        ∀ {i}, i ∈ T₂.changes.ids t → ¬ (T₁.Logs .mergeAdjacent i ∨ T₁.Logs .rewriteDelete i) := by
      rintro t ht i hi (hl | hl)
      · exact hclash hi (by rcases ht with rfl | rfl | rfl <;> decide) hl
      · exact hclash hi (by rcases ht with rfl | rfl | rfl <;> decide) hl
    rcases h₂ with h₂ | h₂ | h₂
    · exact hpair .deletedFromTable (by simp) h₂ h₁
    · exact hpair .mergeAdjacent (by simp) h₂ h₁
    · exact hpair .rewriteDelete (by simp) h₂ h₁
  | compacts h₁ h₂ =>
    rcases h₁ with h₁ | h₁ <;> rcases h₂ with h₂ | h₂
    · exact hclash (t := .mergeAdjacent) h₂ (by decide) h₁
    · exact hclash (t := .rewriteDelete) h₂ (by decide) h₁
    · exact hclash (t := .mergeAdjacent) h₂ (by decide) h₁
    · exact hclash (t := .rewriteDelete) h₂ (by decide) h₁
  | attempted h₁ h₂ =>
    obtain ⟨hins, hinl⟩ := hno.deleteAttempted _ h₂
    rcases h₁ with h₁ | h₁
    · exact hins (hlogs h₁)
    · exact hinl (hlogs h₁)
  | renamedTable h₁ h₂ =>
    obtain ⟨hdrop, halter⟩ := hno.renamedTables _ h₂
    rcases h₁ with h₁ | h₁
    · exact hdrop (hlogs h₁)
    · exact halter (hlogs h₁)
  | renamedView h₁ h₂ =>
    obtain ⟨hdrop, halter⟩ := hno.renamedViews _ h₂
    rcases h₁ with h₁ | h₁
    · exact hdrop (hlogs h₁)
    · exact halter (hlogs h₁)

/-- The log of a compaction only stands against deletes that are logged as such, and against other
compactions. -/
theorem noConflict_of_compacted {table : TableIndex} (h : T₁.Compacts table)
    (hother : other.sets = T₁.logged.sets) (hclash : ¬ Clash T₁ T₂) :
    NoConflict T₂.state T₂.changes other deletedFiles := by
  have honly : other.sets.CompactionOnly := by
    rw [hother]
    exact LoggedTransaction.compactionOnly h.logs
  have hlogs : ∀ {t i}, i ∈ other.ids t → T₁.Logs t i := by
    intro t i hi
    rw [Logs, ← hother]
    exact hi
  have hempty : ∀ t, t ≠ .mergeAdjacent → t ≠ .rewriteDelete → ∀ i, i ∉ other.ids t :=
    fun t hm hr i => honly.not_mem_ids hm hr i
  refine ⟨fun t i hi t' ht' hmem => hclash ?_, passes_schemaContents_of_log honly,
    passes_created_of_log honly, fun i _ => ⟨?_, ?_⟩, ?_, fun i _ => ⟨?_, ?_⟩, fun i _ => ⟨?_, ?_⟩⟩
  · have hkind : t' = .mergeAdjacent ∨ t' = .rewriteDelete := by
      by_contra hne
      push Not at hne
      exact hempty t' hne.1 hne.2 i hmem
    have h₁ : T₁.Logs .mergeAdjacent i ∨ T₁.Logs .rewriteDelete i := by
      rcases hkind with rfl | rfl
      · exact .inl (hlogs hmem)
      · exact .inr (hlogs hmem)
    cases t with
    | deletedFromTable => exact .compacted h₁ (.inl hi)
    | mergeAdjacent => exact .compacted h₁ (.inr (.inl hi))
    | rewriteDelete => exact .compacted h₁ (.inr (.inr hi))
    | _ => rcases hkind with rfl | rfl <;> exact absurd ht' (by decide)
  · exact hempty .insertedIntoTable (by decide) (by decide) i
  · exact hempty .insertedIntoTableInlined (by decide) (by decide) i
  · rintro ⟨i, -, hi⟩
    exact absurd hi (hempty .deletedFromTable (by decide) (by decide) i)
  · exact hempty .droppedTable (by decide) (by decide) i
  · exact hempty .alteredTable (by decide) (by decide) i
  · exact hempty .droppedView (by decide) (by decide) i
  · exact hempty .alteredView (by decide) (by decide) i

theorem toCatalogChanges_readd {state : DuckLakeTransactionState} {cs : DuckLakeCommitState}
    {c : TransactionChangeInformation} :
    (readdTableChanges state cs c).toCatalogChanges = c.toCatalogChanges := by
  have hfold : ∀ (l : List (TableIndex × LocalTableDataChanges)) (c : TransactionChangeInformation),
      (l.foldl (fun c e => addTableChanges (cs.getTableId e.1) e.2 c) c).toCatalogChanges =
        c.toCatalogChanges := by
    intro l
    induction l with
    | nil => exact fun _ => rfl
    | cons e l ih => exact fun c => (ih _).trans rfl
  exact hfold _ _

/-- A transaction that compacts records nothing else, neither in its log nor before. -/
theorem Compacts.changes_compactionOnly {table : TableIndex} (h : T₂.Compacts table) :
    (T₂.changes.sets T₂.commitState).CompactionOnly := by
  have honly : T₂.logged.sets.CompactionOnly := LoggedTransaction.compactionOnly h.logs
  have hcatalog : (readdTableChanges T₂.state T₂.commitState T₂.changes).toCatalogChanges =
    T₂.changes.toCatalogChanges := toCatalogChanges_readd
  refine ⟨fun t hm hr => ?_, ?_, fun k => ?_⟩
  · refine Set.eq_empty_of_forall_notMem fun i hi => ?_
    obtain ⟨j, hj, rfl⟩ := hi
    have hmem : T₂.commitState.loggedId t j ∈ T₂.logged.sets.ids t :=
      ⟨j, ids_changes_subset hj, rfl⟩
    rw [honly.ids t hm hr] at hmem
    exact hmem
  · have hs := honly.schemas
    simp only [LoggedTransaction.sets, LoggedTransaction.logged,
      TransactionChangeInformation.sets, logged, hcatalog] at hs
    exact hs
  · have hk := honly.created k
    simp only [LoggedTransaction.sets, LoggedTransaction.logged,
      TransactionChangeInformation.sets, logged] at hk
    cases k with
    | tableOrView | scalarMacro | tableMacro | procedure =>
      simp only [TransactionChangeInformation.createdEntries, hcatalog] at hk
      exact hk

theorem noConflict_of_compacts {table : TableIndex} (h : T₂.Compacts table)
    (hother : other.sets = T₁.logged.sets) (hclash : ¬ Clash T₁ T₂) :
    NoConflict T₂.state T₂.changes other deletedFiles := by
  have honly := h.changes_compactionOnly
  have hlogs : ∀ {t i}, i ∈ other.ids t → T₁.Logs t i := by
    intro t i hi
    rw [Logs, ← hother]
    exact hi
  have hempty : ∀ t, t ≠ .mergeAdjacent → t ≠ .rewriteDelete → ∀ i, i ∉ T₂.changes.ids t := by
    intro t hm hr i hi
    have hmem : T₂.commitState.loggedId t i ∈ (T₂.changes.sets T₂.commitState).ids t := ⟨i, hi, rfl⟩
    rw [honly.ids t hm hr] at hmem
    exact hmem
  obtain ⟨hcontents, hcreated⟩ := passes_catalog_of_changes other honly
  have hcompacts : ∀ {i t'}, T₂.Compacts i →
      t' ∈ ChangeType.conflictsWith .mergeAdjacent → i ∈ other.ids t' → Clash T₁ T₂ := by
    intro i t' hi ht' hmem
    have hl := hlogs hmem
    simp only [ChangeType.conflictsWith, List.mem_cons, List.not_mem_nil, or_false] at ht'
    rcases ht' with rfl | rfl | rfl | rfl
    · exact .compacts (.inl hl) hi
    · exact .compacts (.inr hl) hi
    · exact .compacted (.inl hl) (.inr hi)
    · exact .compacted (.inr hl) (.inr hi)
  refine ⟨fun t i hi t' ht' hmem => hclash ?_, hcontents, hcreated, fun i hi => ⟨?_, ?_⟩, ?_,
    fun i hi => ⟨?_, ?_⟩, fun i hi => ⟨?_, ?_⟩⟩
  · cases t with
    | mergeAdjacent => exact hcompacts (.inl hi) ht' hmem
    | rewriteDelete => exact hcompacts (.inr hi) ht' hmem
    | _ => exact absurd hi (hempty _ (by decide) (by decide) i)
  · exact fun hmem => hclash (.attempted (.inl (hlogs (t := .insertedIntoTable) hmem)) hi)
  · exact fun hmem => hclash (.attempted (.inr (hlogs (t := .insertedIntoTableInlined) hmem)) hi)
  · rintro ⟨i, hi, -⟩
    exact absurd hi (hempty .deletedFromTable (by decide) (by decide) i)
  · exact fun hmem => hclash (.renamedTable (.inl (hlogs (t := .droppedTable) hmem)) hi)
  · exact fun hmem => hclash (.renamedTable (.inr (hlogs (t := .alteredTable) hmem)) hi)
  · exact fun hmem => hclash (.renamedView (.inl (hlogs (t := .droppedView) hmem)) hi)
  · exact fun hmem => hclash (.renamedView (.inr (hlogs (t := .alteredView) hmem)) hi)

/-- A concurrent compaction is refused exactly when there is one of the clashes. -/
theorem retryCheck_error_iff {table : TableIndex} (h : T₁.Compacts table ∨ T₂.Compacts table) :
    (∃ e, retryCheck T₁ T₂ deletedFiles = .error e) ↔ Clash T₁ T₂ := by
  obtain ⟨other, hparse, hother, -⟩ := T₁.logged.parse_changesMade
  have hcheck : retryCheck T₁ T₂ deletedFiles =
      checkForConflicts T₂.state T₂.changes other deletedFiles := by
    unfold retryCheck
    rw [show parseChangesMade T₁.changesMade = .ok other from hparse]
    rfl
  rw [hcheck, ← not_passes_iff, passes_checkForConflicts]
  constructor
  · intro hconflict
    by_contra hclash
    rcases h with h | h
    · exact hconflict (noConflict_of_compacted h hother hclash)
    · exact hconflict (noConflict_of_compacts h hother hclash)
  · intro hclash
    refine hclash.not_noConflict fun hl => ?_
    rw [Logs, ← hother] at hl
    exact hl

/-! ## Lost deletes -/

/-- One of the two compacts the table and the other deletes rows of its data files. -/
def DeleteAgainstCompaction (T₁ T₂ : PreparedTransaction) (table : TableIndex) : Prop :=
  (T₁.Compacts table ∧ T₂.DeletesRows table) ∨ (T₂.Compacts table ∧ T₁.DeletesRows table)

/-- One of the two compacts the table and the other deletes rows of its data files through the
metadata tables. -/
def InlinedAgainstCompaction (T₁ T₂ : PreparedTransaction) (table : TableIndex) : Prop :=
  (T₁.Compacts table ∧ T₂.DeletesInlined table) ∨ (T₂.Compacts table ∧ T₁.DeletesInlined table)

/-- No lost delete: a delete and a compaction of one table never both commit. -/
def NoLostDelete (T₁ T₂ : PreparedTransaction) (deletedFiles : OrdSet DataFileIndex) : Prop :=
  ∀ table, DeleteAgainstCompaction T₁ T₂ table →
    ∃ e, retryCheck T₁ T₂ deletedFiles = .error e

theorem DeletesRows.logs_or_inlined {T : PreparedTransaction} {table : TableIndex}
    (hlocal : isTransactionLocal table = false) (h : T.DeletesRows table) :
    (table ∈ T.changes.tablesDeletedFrom ∧ T.Logs .deletedFromTable table) ∨
      T.DeletesInlined table := by
  have hlogs (hmem : table ∈ T.changes.ids .deletedFromTable) :
      table ∈ T.changes.tablesDeletedFrom ∧ T.Logs .deletedFromTable table :=
    ⟨hmem, logs_of_mem_readd hlocal (ids_changes_subset hmem)⟩
  rcases h with ⟨e, he, rfl, hfiles⟩ | h | h
  · refine .inl (hlogs (mem_ids_getTransactionChanges.2 (.inl ⟨e, he, hlocal, ?_, rfl⟩)))
    simpa [LocalTableDataChanges.makes] using hfiles
  · exact .inl (hlogs (mem_ids_getTransactionChanges.2 (.inr h)))
  · exact .inr h

/-- A delete that is logged as one clashes with the compaction. -/
theorem DeleteAgainstCompaction.clash_or_inlined {table : TableIndex}
    (h : DeleteAgainstCompaction T₁ T₂ table) :
    Clash T₁ T₂ ∨ InlinedAgainstCompaction T₁ T₂ table := by
  rcases h with ⟨hc, hd⟩ | ⟨hc, hd⟩
  · rcases hd.logs_or_inlined hc.committed with ⟨hmem, -⟩ | hd
    · exact .inl (.compacted hc.logs (.inl hmem))
    · exact .inr (.inl ⟨hc, hd⟩)
  · rcases hd.logs_or_inlined hc.committed with ⟨-, hl⟩ | hd
    · exact .inl (.compacts (.inr hl) hc)
    · exact .inr (.inr ⟨hc, hd⟩)

theorem InlinedAgainstCompaction.delete {table : TableIndex}
    (h : InlinedAgainstCompaction T₁ T₂ table) : DeleteAgainstCompaction T₁ T₂ table := by
  rcases h with ⟨hc, hd⟩ | ⟨hc, hd⟩
  · exact .inl ⟨hc, .inr (.inr hd)⟩
  · exact .inr ⟨hc, .inr (.inr hd)⟩

theorem DeleteAgainstCompaction.compacts {table : TableIndex}
    (h : DeleteAgainstCompaction T₁ T₂ table) : T₁.Compacts table ∨ T₂.Compacts table := by
  rcases h with ⟨hc, -⟩ | ⟨hc, -⟩
  · exact .inl hc
  · exact .inr hc

theorem noLostDelete_iff_clash : NoLostDelete T₁ T₂ deletedFiles ↔
    ((∃ table, InlinedAgainstCompaction T₁ T₂ table) → Clash T₁ T₂) := by
  constructor
  · rintro h ⟨table, htable⟩
    exact (retryCheck_error_iff htable.delete.compacts).1 (h table htable.delete)
  · intro h table htable
    refine (retryCheck_error_iff htable.compacts).2 ?_
    rcases htable.clash_or_inlined with hclash | hinl
    · exact hclash
    · exact h ⟨table, hinl⟩

end PreparedTransaction

/-! ## Runs of commits -/

/-- A transaction in a run, with the number of commits it had seen when it started. -/
structure CommittedTransaction [SQLWriter] where
  transaction : PreparedTransaction
  start : Nat

section Runs

variable [SQLWriter]

/-- The conflict check of a transaction that retries after `since` have committed. -/
def commitCheck (since : List CommittedTransaction) (T : PreparedTransaction)
    (deletedFiles : OrdSet DataFileIndex) : Check := do
  let other ← parseChangesMade
    (stringAgg (since.map fun c => changesMadeColumn c.transaction.changesMade))
  checkForConflicts T.state T.changes other deletedFiles

/-- Any interleaving of transactions: each starts at some snapshot and commits at a later one,
through the conflict check when others have committed in between. -/
inductive CommitRun : List CommittedTransaction → Prop where
  | empty : CommitRun []
  | commit {history : List CommittedTransaction} (run : CommitRun history)
      (c : CommittedTransaction) (hstart : c.start ≤ history.length)
      (deletedFiles : OrdSet DataFileIndex)
      (check : c.start = history.length ∨
        Passes (commitCheck (history.drop c.start) c.transaction deletedFiles)) :
      CommitRun (history ++ [c])

/-- The transaction at position `i` committed while the one at position `j` was running. -/
def Concurrent (history : List CommittedTransaction) (i j : Nat)
    (T₁ T₂ : PreparedTransaction) : Prop :=
  ∃ c₁ c₂, history[i]? = some c₁ ∧ history[j]? = some c₂ ∧ c₁.transaction = T₁ ∧
    c₂.transaction = T₂ ∧ i < j ∧ c₂.start ≤ i

theorem not_clash_of_passes {since : List CommittedTransaction} {T : PreparedTransaction}
    {deletedFiles : OrdSet DataFileIndex} (h : Passes (commitCheck since T deletedFiles))
    {c : CommittedTransaction} (hc : c ∈ since) : ¬ PreparedTransaction.Clash c.transaction T := by
  obtain ⟨other, hparse, hother, -⟩ :=
    LoggedTransaction.parse_stringAgg (since.map fun c => c.transaction.logged)
  rw [List.map_map] at hparse hother
  have hcheck : commitCheck since T deletedFiles =
      checkForConflicts T.state T.changes other deletedFiles := by
    unfold commitCheck
    rw [show parseChangesMade (stringAgg (since.map fun c =>
      changesMadeColumn c.transaction.changesMade)) = .ok other from hparse]
    rfl
  rw [hcheck, passes_checkForConflicts] at h
  intro hclash
  refine hclash.not_noConflict (fun {t i} hl => ?_) h
  have hmem : i ∈ other.sets.ids t := by
    rw [hother, ChangeSets.mem_ids_unions]
    exact ⟨_, List.mem_map.2 ⟨c, hc, rfl⟩, hl⟩
  exact hmem

/-- Along a run, a commit never clashes with one that happened while it was running. -/
theorem CommitRun.not_clash {history : List CommittedTransaction} (run : CommitRun history)
    {i j : Nat} {T₁ T₂ : PreparedTransaction} (h : Concurrent history i j T₁ T₂) :
    ¬ PreparedTransaction.Clash T₁ T₂ := by
  induction run with
  | empty =>
    obtain ⟨c₁, c₂, hi, -⟩ := h
    cases hi
  | @commit history run c hstart deletedFiles check ih =>
    obtain ⟨c₁, c₂, hi, hj, rfl, rfl, hij, hs⟩ := h
    have hlen : j < (history ++ [c]).length := (List.getElem?_eq_some_iff.1 hj).1
    rw [List.length_append, List.length_singleton] at hlen
    rw [List.getElem?_append_left (by omega)] at hi
    rcases Nat.lt_or_ge j history.length with hlt | hge
    · rw [List.getElem?_append_left hlt] at hj
      exact ih ⟨c₁, c₂, hi, hj, rfl, rfl, hij, hs⟩
    · have hjeq : j = history.length := by omega
      subst hjeq
      rw [List.getElem?_concat_length] at hj
      cases hj
      rcases check with heq | hpass
      · omega
      · refine not_clash_of_passes hpass (List.mem_of_getElem? (i := i - c.start) ?_)
        rw [List.getElem?_drop, show c.start + (i - c.start) = i by omega]
        exact hi

end Runs

/-- A delete is lost next to a compaction of the same table exactly when it was only recorded as
an inlined deletion and the two clash nowhere else; and in a run without such concurrent pairs, no
committed delete concerns a table that was compacted concurrently. -/
theorem noLostDelete_iff [SQLWriter] :
    (∀ (T₁ T₂ : PreparedTransaction) (deletedFiles : OrdSet DataFileIndex),
      T₁.NoLostDelete T₂ deletedFiles ↔
        ((∃ table, T₁.InlinedAgainstCompaction T₂ table) → T₁.Clash T₂)) ∧
    (∀ history : List CommittedTransaction, CommitRun history →
      (∀ i j T₁ T₂ table, Concurrent history i j T₁ T₂ → ¬ T₁.InlinedAgainstCompaction T₂ table) →
      ∀ i j T₁ T₂ table, Concurrent history i j T₁ T₂ → ¬ T₁.DeleteAgainstCompaction T₂ table) := by
  refine ⟨fun T₁ T₂ deletedFiles => PreparedTransaction.noLostDelete_iff_clash, ?_⟩
  intro history run hcond i j T₁ T₂ table hconc hdelete
  rcases hdelete.clash_or_inlined with hclash | hinl
  · exact run.not_clash hconc hclash
  · exact hcond i j T₁ T₂ table hconc hinl

section Example

attribute [local instance] SQLWriter.reference

/-- A transaction that merges the data files 3 and 4 of table 1. -/
def mergeFiles : PreparedTransaction where
  catalog := {}
  state := { localChanges := ⟨[(1, { compactions := [
    { sourceFiles := [{ id := 3, path := "a.parquet", rowCount := 1, beginSnapshot := 1 },
        { id := 4, path := "b.parquet", rowCount := 1, beginSnapshot := 2 }]
      writtenFiles := [{ fileName := "c.parquet", rowCount := 2 }]
      type := .mergeAdjacentTables }] })], by decide⟩ }
  commitState := {}
  changesMade := "merge_adjacent:1"
  written := rfl

/-- A transaction that deletes row 0 of data file 3 of table 1 through the metadata tables. -/
def deleteRowInlined : PreparedTransaction where
  catalog := {}
  state := { localChanges := ⟨[(1, { newInlinedFileDeletes := some [(3, .ofList [0])] })],
    by decide⟩, tablesDeleteAttempted := .ofList [1] }
  commitState := {}
  changesMade := "inlined_delete:1"
  written := rfl

theorem deleteAgainstCompaction_mergeFiles :
    mergeFiles.DeleteAgainstCompaction deleteRowInlined 1 :=
  .inl ⟨.inl (by decide), .inr (.inr ⟨_, List.mem_singleton.2 rfl, rfl, rfl⟩)⟩

/-- The delete of a row in a file that has been merged away passes the conflict check. -/
theorem not_noLostDelete_mergeFiles :
    ¬ ∀ (T₁ T₂ : PreparedTransaction) (deletedFiles : OrdSet DataFileIndex),
      T₁.NoLostDelete T₂ deletedFiles := by
  intro h
  obtain ⟨e, he⟩ := h mergeFiles deleteRowInlined ∅ 1 deleteAgainstCompaction_mergeFiles
  have hpass : Passes (mergeFiles.retryCheck deleteRowInlined ∅) := by decide +kernel
  exact absurd (hpass.symm.trans he) nofun

end Example

end DuckLake
