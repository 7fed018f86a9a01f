import DuckLake.Lib.Guard
import DuckLake.Storage.SnapshotChanges

/-!
# Conflict detection

`checkForConflicts` compares the changes of a transaction that has to retry its commit with what
the change log says other transactions have committed since it started. Every comparison of ids is
one check `conflictCheck`; `conflictMatrix` lists the pairs of kinds that are compared.
-/

namespace DuckLake

/-! ## Single checks -/

/-- A comparison that throws when it finds a conflict. -/
abbrev Check := Except Exception Unit

class ToText (α : Type) where
  toText : α → Text

instance : ToText Idx := ⟨Idx.toText⟩
instance : ToText Nat := ⟨Text.ofNat⟩

def conflictCheck {α : Type} [LinearOrder α] [ToText α] (index : α) (conflictMap : OrdSet α)
    (action conflictAction : Text) : Check :=
  if index ∈ conflictMap then
    transactionException ("Transaction conflict - attempting to " ++ action ++ " with index \"" ++
      ToText.toText index ++ "\" - but another transaction has " ++ conflictAction)
  else .ok ()

def schemaKeyConflictCheck (schemaKey : Text) (conflictSet : CISet)
    (action conflictAction : Text) : Check :=
  if conflictSet.contains schemaKey then
    transactionException ("Transaction conflict - attempting to " ++ action ++ " with name " ++
      schemaKey ++ " - but another transaction has " ++ conflictAction)
  else .ok ()

def findDroppedAncestorLoop (droppedKeys : CISet) (done rest : Text) :
    Except Exception (Option Text) :=
  if rest.isEmpty then .ok none
  else match _h : parseQuotedValue rest with
  | .error e => .error e
  | .ok (_, rest') =>
    let key := done ++ rest.take (rest.length - rest'.length)
    match droppedKeys.entries.find? fun e => e.1.ciEquals key with
    | some e => .ok (some e.1)
    | none => match rest', _h with
      | [], _ => .ok none
      | c :: rest', _h => findDroppedAncestorLoop droppedKeys (key ++ [c]) rest'
termination_by rest.length
decreasing_by
  have := parseQuotedValue_length _h
  simp only [List.length_cons] at this
  omega

def findDroppedAncestor (droppedKeys : CISet) (schemaKey : Text) :
    Except Exception (Option Text) :=
  findDroppedAncestorLoop droppedKeys [] schemaKey

def schemaSubtreeConflictCheck (droppedKeys : CISet) (schemaKey conflictAction : Text) :
    Check := do
  match ← findDroppedAncestor droppedKeys schemaKey with
  | some droppedKey =>
    transactionException ("Transaction conflict - attempting to drop schema with name " ++
      droppedKey ++ " - but another transaction has " ++ conflictAction)
  | none => .ok ()

def schemaSubtreeConflictChecks {V : Type} (droppedKeys : CISet) (conflictMap : CIMap V)
    (conflictAction : Text) : Check :=
  conflictMap.entries.forM fun e => schemaSubtreeConflictCheck droppedKeys e.1 conflictAction

def getCatalogType : CatalogType → Text
  | .tableEntry => "table"
  | .viewEntry => "view"
  | .macroEntry => "scalar"
  | .tableMacroEntry => "table"
  | .procedureEntry => "procedure"

/-- Entries created in a schema that is gone, or that already has an entry of this name.
`entryType` is the wording of the messages. -/
def createdConflictCheck [SQLWriter] (entryType : CatalogEntry → Text)
    (createdChanges : CreatedEntries) (droppedSchemas : OrdSet SchemaIndex)
    (otherCreatedChanges : CIMap (CIMap Text)) : Check :=
  createdChanges.map.entries.forM fun entry => do
    let schemaName := entry.1
    entry.2.forM fun e => do
      let action : Text := "create " ++ entryType e ++ " \"" ++ e.name ++ "\" in schema " ++
        schemaName
      conflictCheck e.schema.schemaId droppedSchemas action "dropped this schema"
      match (otherCreatedChanges.find? schemaName).bind (·.find? e.name) with
      | some kind =>
        transactionException ("Transaction conflict - attempting to create " ++ entryType e ++
          " \"" ++ e.name ++ "\" in schema " ++ schemaName ++ " - but this " ++ kind ++
          " has been created by another transaction already")
      | none => .ok ()

/-! ## The whole check -/

/-- The data files that the transaction deletes from with a delete file, or drops. -/
def DuckLakeTransactionState.deletedFiles (state : DuckLakeTransactionState) : List DataFileIndex :=
  (state.localChanges.changes.flatMap fun entry => entry.2.newDeleteFiles.flatMap fun files =>
    files.2.map (·.dataFileId)) ++ state.droppedFiles.map (·.2)

section Check

variable [SQLWriter] (state : DuckLakeTransactionState) (changes : TransactionChangeInformation)
  (other : SnapshotChangeInformation)

def checkDroppedConflicts : Check := do
  -- check if we are dropping the same table as another transaction
  changes.droppedTables.elems.forM fun i =>
    conflictCheck i other.droppedTables "drop table" "dropped it already"
  changes.droppedViews.elems.forM fun i =>
    conflictCheck i other.droppedViews "drop view" "dropped it already"
  changes.droppedScalarMacros.elems.forM fun i =>
    conflictCheck i other.droppedScalarMacros "drop macro" "dropped it already"
  changes.droppedTableMacros.elems.forM fun i =>
    conflictCheck i other.droppedTableMacros "drop macro" "dropped it already"
  changes.droppedProcedures.elems.forM fun i =>
    conflictCheck i other.droppedProcedures "drop procedure" "dropped it already"
  changes.droppedSchemas.entries.forM fun e =>
    conflictCheck e.1 other.droppedSchemas "drop schema" "dropped it already"

/-- Check if another transaction created something inside a schema that we drop. -/
def checkDroppedSchemaContents : Check := do
  let droppedKeys : CISet :=
    changes.droppedSchemas.entries.foldl (fun keys e => keys.insert e.2.pathKey ()) ∅
  if !droppedKeys.entries.isEmpty then do
    schemaSubtreeConflictChecks droppedKeys other.createdSchemas
      "created a schema inside this schema"
    schemaSubtreeConflictChecks droppedKeys other.createdTables.map "created an entry in this schema"
    schemaSubtreeConflictChecks droppedKeys other.createdScalarMacros.map
      "created an entry in this schema"
    schemaSubtreeConflictChecks droppedKeys other.createdTableMacros.map
      "created an entry in this schema"
    schemaSubtreeConflictChecks droppedKeys other.createdProcedures.map
      "created an entry in this schema"
  else .ok ()

def checkCreatedConflicts : Check := do
  -- check if we are creating the same schema as another transaction
  changes.createdSchemas.map.entries.forM fun e => do
    schemaKeyConflictCheck e.1 other.createdSchemas "create schema"
      "created a schema with this name already"
    e.2.parents.forM fun parent =>
      if parent.schemaId ∈ other.droppedSchemas then
        transactionException ("Transaction conflict - attempting to create schema with name " ++
          e.1 ++ " - but another transaction has dropped one of its parent schemas " ++
          parent.pathKey)
      else .ok ()
  -- check if we are creating the same macro as another transaction
  createdConflictCheck (fun e => getCatalogType e.type) changes.createdTableMacros
    other.droppedSchemas other.createdTableMacros.map
  createdConflictCheck (fun e => getCatalogType e.type) changes.createdScalarMacros
    other.droppedSchemas other.createdScalarMacros.map
  createdConflictCheck (fun e => getCatalogType e.type) changes.createdProcedures
    other.droppedSchemas other.createdProcedures.map
  createdConflictCheck (fun e => getCatalogType e.type) changes.createdTables
    other.droppedSchemas other.createdTables.map
  -- check if we are creating the same table as another transaction
  createdConflictCheck (fun e => if e.type = .tableEntry then "table" else "view")
    changes.createdTables other.droppedSchemas other.createdTables.map

def checkInsertConflicts (tables : OrdSet TableIndex) : Check :=
  tables.elems.forM fun i => do
    conflictCheck i other.droppedTables "insert into table" "dropped it"
    conflictCheck i other.alteredTables "insert into table" "altered it"
    conflictCheck i other.tablesDeletedFrom "insert into table" "deleted from it"
    conflictCheck i other.tablesDeletedInlined "insert into table" "deleted inlined data from it"
    conflictCheck i other.tablesSetNotNull "insert into table" "added a NOT NULL constraint to it"

/-- If both sides deleted from the same table, check the files one by one. `deletedFiles` is the
result of `GetFilesDeletedOrDroppedAfterSnapshot`. -/
def checkDeletedFiles (deletedFiles : OrdSet DataFileIndex) : Check :=
  if changes.tablesDeletedFrom.elems.any (· ∈ other.tablesDeletedFrom) then
    state.deletedFiles.forM fun file =>
      conflictCheck file deletedFiles "delete from file" "deleted from it"
  else .ok ()

def checkDeleteConflicts (deletedFiles : OrdSet DataFileIndex) : Check := do
  changes.tablesSetNotNull.elems.forM fun i => do
    -- rows that another transaction inserted were never checked against the new constraint
    conflictCheck i other.insertedTables "SET NOT NULL on table" "inserted into it"
    conflictCheck i other.tablesInsertedInlined "SET NOT NULL on table" "inserted into it"
  changes.tablesDeletedFrom.elems.forM fun i => do
    conflictCheck i other.droppedTables "delete from table" "dropped it"
    conflictCheck i other.alteredTables "delete from table" "altered it"
    conflictCheck i other.tablesMergeAdjacent "delete from table" "compacted it"
    conflictCheck i other.tablesRewriteDelete "delete from table" "compacted it"
    conflictCheck i other.insertedTables "delete from table" "inserted into it"
    conflictCheck i other.tablesInsertedInlined "delete from table" "inserted into it"
  -- a delete that matched no rows must still conflict with concurrent inserts to the same table
  changes.tablesDeleteAttempted.elems.forM fun i => do
    conflictCheck i other.insertedTables "delete from table" "inserted into it"
    conflictCheck i other.tablesInsertedInlined "delete from table" "inserted into it"
  checkDeletedFiles state changes other deletedFiles
  changes.tablesDeletedInlined.elems.forM fun i => do
    conflictCheck i other.droppedTables "delete from table" "dropped it"
    conflictCheck i other.alteredTables "delete from table" "altered it"
    conflictCheck i other.tablesDeletedInlined "delete from table" "deleted from it"
    conflictCheck i other.tablesFlushedInlined "delete from table" "flushed the inlined data"
    conflictCheck i other.insertedTables "delete from table" "inserted into it"
    conflictCheck i other.tablesInsertedInlined "delete from table" "inserted into it"
  changes.tablesFlushedInlined.elems.forM fun i => do
    conflictCheck i other.droppedTables "flush inline data" "dropped it"
    conflictCheck i other.tablesDeletedInlined "flush inline data" "deleted from it"
    conflictCheck i other.tablesFlushedInlined "flush inline data" "flushed it"

def checkCompactionConflicts (tables : OrdSet TableIndex) : Check :=
  tables.elems.forM fun i => do
    conflictCheck i other.droppedTables "compact table" "dropped it"
    conflictCheck i other.tablesDeletedFrom "compact table" "deleted from it"
    conflictCheck i other.tablesMergeAdjacent "compact table" "compacted it"
    conflictCheck i other.tablesRewriteDelete "compact table" "compacted it"

def checkAlterConflicts (entries dropped altered : OrdSet TableIndex) (action : Text) :
    Check :=
  entries.elems.forM fun i => do
    conflictCheck i dropped action "dropped it"
    conflictCheck i altered action "altered it"

def checkForConflicts (deletedFiles : OrdSet DataFileIndex) : Check := do
  checkDroppedConflicts changes other
  checkDroppedSchemaContents changes other
  checkCreatedConflicts changes other
  checkInsertConflicts other changes.tablesInsertedInto
  checkInsertConflicts other changes.tablesInsertedInlined
  checkDeleteConflicts state changes other deletedFiles
  checkCompactionConflicts other changes.tablesMergeAdjacent
  checkCompactionConflicts other changes.tablesRewriteDelete
  checkAlterConflicts changes.alteredTables other.droppedTables other.alteredTables "alter table"
  checkAlterConflicts changes.alteredViews other.droppedViews other.alteredViews "alter view"
  checkAlterConflicts state.renamedTables other.droppedTables other.alteredTables "rename table"
  checkAlterConflicts state.renamedViews other.droppedViews other.alteredViews "rename view"

end Check

/-! ## When the check passes -/

/-- The kinds of the change log that an id of the given kind must not be logged under. -/
def ChangeType.conflictsWith : ChangeType → List ChangeType
  | .droppedTable => [.droppedTable]
  | .droppedView => [.droppedView]
  | .droppedScalarMacro => [.droppedScalarMacro]
  | .droppedTableMacro => [.droppedTableMacro]
  | .droppedProcedure => [.droppedProcedure]
  | .droppedSchema => [.droppedSchema]
  | .insertedIntoTable | .insertedIntoTableInlined =>
    [.droppedTable, .alteredTable, .deletedFromTable, .deletedFromTableInlined, .setNotNull]
  | .setNotNull => [.insertedIntoTable, .insertedIntoTableInlined]
  | .deletedFromTable =>
    [.droppedTable, .alteredTable, .mergeAdjacent, .rewriteDelete, .insertedIntoTable,
      .insertedIntoTableInlined]
  | .deletedFromTableInlined =>
    [.droppedTable, .alteredTable, .deletedFromTableInlined, .flushedInlineDataForTable,
      .insertedIntoTable, .insertedIntoTableInlined]
  | .flushedInlineDataForTable =>
    [.droppedTable, .deletedFromTableInlined, .flushedInlineDataForTable]
  | .mergeAdjacent | .rewriteDelete =>
    [.droppedTable, .deletedFromTable, .mergeAdjacent, .rewriteDelete]
  | .alteredTable => [.droppedTable, .alteredTable]
  | .alteredView => [.droppedView, .alteredView]
  | .createdTable | .createdView | .createdSchema => []
  | .createdScalarMacro | .createdTableMacro | .createdProcedure | .compactedTable => []

@[simp] theorem passes_conflictCheck {α : Type} [LinearOrder α] [ToText α] {i : α} {s : OrdSet α}
    {action conflictAction : Text} :
    Passes (conflictCheck i s action conflictAction) ↔ i ∉ s := by
  unfold conflictCheck
  split
  · simp [transactionException, *]
  · simp [*]

section Passes

variable [SQLWriter] {state : DuckLakeTransactionState} {changes : TransactionChangeInformation}
  {other : SnapshotChangeInformation} {deletedFiles : OrdSet DataFileIndex}

/-- No id of the set is logged under a kind that conflicts with `t`. -/
def NoClash (other : SnapshotChangeInformation) (t : ChangeType) (ids : OrdSet Idx) : Prop :=
  ∀ i ∈ ids, ∀ t' ∈ t.conflictsWith, i ∉ other.ids t'

/-- The conditions of a conflict check that passes. -/
structure NoConflict (state : DuckLakeTransactionState) (changes : TransactionChangeInformation)
    (other : SnapshotChangeInformation) (deletedFiles : OrdSet DataFileIndex) : Prop where
  ids : ∀ t, NoClash other t (changes.ids t)
  schemaContents : Passes (checkDroppedSchemaContents changes other)
  created : Passes (checkCreatedConflicts changes other)
  deleteAttempted : ∀ i ∈ changes.tablesDeleteAttempted,
    i ∉ other.insertedTables ∧ i ∉ other.tablesInsertedInlined
  files : (∃ i ∈ changes.tablesDeletedFrom, i ∈ other.tablesDeletedFrom) →
    ∀ f ∈ state.deletedFiles, f ∉ deletedFiles
  renamedTables : ∀ i ∈ state.renamedTables, i ∉ other.droppedTables ∧ i ∉ other.alteredTables
  renamedViews : ∀ i ∈ state.renamedViews, i ∉ other.droppedViews ∧ i ∉ other.alteredViews

theorem passes_checkDroppedConflicts :
    Passes (checkDroppedConflicts changes other) ↔
      NoClash other .droppedTable changes.droppedTables ∧
      NoClash other .droppedView changes.droppedViews ∧
      NoClash other .droppedScalarMacro changes.droppedScalarMacros ∧
      NoClash other .droppedTableMacro changes.droppedTableMacros ∧
      NoClash other .droppedProcedure changes.droppedProcedures ∧
      NoClash other .droppedSchema (changes.ids .droppedSchema) := by
  simp only [checkDroppedConflicts, passes_bind, passes_forM, passes_conflictCheck, NoClash,
    ChangeType.conflictsWith, List.forall_mem_singleton]
  have hschema : (∀ e ∈ changes.droppedSchemas.entries, e.1 ∉ other.droppedSchemas) ↔
      ∀ i ∈ changes.ids .droppedSchema, i ∉ other.ids .droppedSchema := by
    simp only [TransactionChangeInformation.ids, OrdSet.mem_ofList, List.forall_mem_map]
    rfl
  rw [hschema]
  rfl

omit [SQLWriter] in
theorem passes_checkInsertConflicts {tables : OrdSet TableIndex} :
    Passes (checkInsertConflicts other tables) ↔ NoClash other .insertedIntoTable tables := by
  simp only [checkInsertConflicts, passes_bind, passes_forM, passes_conflictCheck, NoClash,
    ChangeType.conflictsWith, List.forall_mem_cons, List.not_mem_nil, false_imp_iff,
    implies_true, and_true]
  rfl

omit [SQLWriter] in
theorem passes_checkCompactionConflicts {tables : OrdSet TableIndex} :
    Passes (checkCompactionConflicts other tables) ↔ NoClash other .mergeAdjacent tables := by
  simp only [checkCompactionConflicts, passes_bind, passes_forM, passes_conflictCheck, NoClash,
    ChangeType.conflictsWith, List.forall_mem_cons, List.not_mem_nil, false_imp_iff,
    implies_true, and_true]
  rfl

omit [SQLWriter] in
theorem passes_checkAlterConflicts {entries dropped altered : OrdSet TableIndex} {action : Text} :
    Passes (checkAlterConflicts entries dropped altered action) ↔
      ∀ i ∈ entries, i ∉ dropped ∧ i ∉ altered := by
  simp only [checkAlterConflicts, passes_bind, passes_forM, passes_conflictCheck]
  rfl

theorem passes_checkDeletedFiles :
    Passes (checkDeletedFiles state changes other deletedFiles) ↔
      ((∃ i ∈ changes.tablesDeletedFrom, i ∈ other.tablesDeletedFrom) →
        ∀ f ∈ state.deletedFiles, f ∉ deletedFiles) := by
  simp only [checkDeletedFiles, passes_ite, passes_forM, passes_conflictCheck, passes_ok,
    implies_true, and_true, List.any_eq_true, decide_eq_true_eq]
  rfl

theorem passes_checkDeleteConflicts :
    Passes (checkDeleteConflicts state changes other deletedFiles) ↔
      NoClash other .setNotNull changes.tablesSetNotNull ∧
      NoClash other .deletedFromTable changes.tablesDeletedFrom ∧
      (∀ i ∈ changes.tablesDeleteAttempted,
        i ∉ other.insertedTables ∧ i ∉ other.tablesInsertedInlined) ∧
      ((∃ i ∈ changes.tablesDeletedFrom, i ∈ other.tablesDeletedFrom) →
        ∀ f ∈ state.deletedFiles, f ∉ deletedFiles) ∧
      NoClash other .deletedFromTableInlined changes.tablesDeletedInlined ∧
      NoClash other .flushedInlineDataForTable changes.tablesFlushedInlined := by
  simp only [checkDeleteConflicts, passes_bind, passes_forM, passes_conflictCheck, NoClash,
    ChangeType.conflictsWith, List.forall_mem_cons, List.not_mem_nil, false_imp_iff,
    implies_true, and_true,
    passes_checkDeletedFiles]
  rfl

omit [SQLWriter] in
theorem noClash_pair (t₁ t₂ : ChangeType) {t : ChangeType} {ids : OrdSet Idx}
    (h : t.conflictsWith = [t₁, t₂]) :
    NoClash other t ids ↔ ∀ i ∈ ids, i ∉ other.ids t₁ ∧ i ∉ other.ids t₂ := by
  simp only [NoClash, h, List.forall_mem_cons, List.not_mem_nil, false_imp_iff, implies_true,
    and_true]

theorem passes_checkForConflicts :
    Passes (checkForConflicts state changes other deletedFiles) ↔
      NoConflict state changes other deletedFiles := by
  simp only [checkForConflicts, passes_bind, passes_checkDroppedConflicts,
    passes_checkInsertConflicts, passes_checkDeleteConflicts, passes_checkCompactionConflicts,
    passes_checkAlterConflicts]
  constructor
  · rintro ⟨⟨hdt, hdv, hds, hdm, hdp, hdsch⟩, hcontents, hcreated, hins, hinl,
      ⟨hnn, hdel, hatt, hfiles, hdinl, hflush⟩, hmerge, hrewrite, halt, haltv, hren, hrenv⟩
    refine ⟨fun t => ?_, hcontents, hcreated, hatt, hfiles, hren, hrenv⟩
    cases t with
    | droppedTable => exact hdt
    | droppedView => exact hdv
    | droppedScalarMacro => exact hds
    | droppedTableMacro => exact hdm
    | droppedProcedure => exact hdp
    | droppedSchema => exact hdsch
    | insertedIntoTable => exact hins
    | insertedIntoTableInlined => exact hinl
    | setNotNull => exact hnn
    | deletedFromTable => exact hdel
    | deletedFromTableInlined => exact hdinl
    | flushedInlineDataForTable => exact hflush
    | mergeAdjacent => exact hmerge
    | rewriteDelete => exact hrewrite
    | alteredTable => exact (noClash_pair .droppedTable .alteredTable rfl).2 halt
    | alteredView => exact (noClash_pair .droppedView .alteredView rfl).2 haltv
    | _ => exact fun _ hi => absurd hi OrdSet.not_mem_empty
  · intro h
    exact ⟨⟨h.ids .droppedTable, h.ids .droppedView, h.ids .droppedScalarMacro,
        h.ids .droppedTableMacro, h.ids .droppedProcedure, h.ids .droppedSchema⟩,
      h.schemaContents, h.created, h.ids .insertedIntoTable, h.ids .insertedIntoTableInlined,
      ⟨h.ids .setNotNull, h.ids .deletedFromTable, h.deleteAttempted, h.files,
        h.ids .deletedFromTableInlined, h.ids .flushedInlineDataForTable⟩,
      h.ids .mergeAdjacent, h.ids .rewriteDelete,
      (noClash_pair .droppedTable .alteredTable rfl).1 (h.ids .alteredTable),
      (noClash_pair .droppedView .alteredView rfl).1 (h.ids .alteredView),
      h.renamedTables, h.renamedViews⟩

end Passes

end DuckLake
