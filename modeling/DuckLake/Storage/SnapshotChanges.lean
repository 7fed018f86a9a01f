import DuckLake.Storage.LocalChanges

/-!
# The snapshot change log

`writeSnapshotChanges` renders the changes of a transaction as one line of text, and
`parseChangesMade` reads the lines of all later snapshots back when another transaction has to
check for conflicts. Both sides are compared through `ChangeSets`: which ids were logged under
which kind, which schemas were created, and which names were created in which schema.
-/

namespace DuckLake

/-! ## Commit state -/

structure DuckLakeSnapshot where
  snapshotId : SnapshotId
  schemaVersion : Nat
  nextCatalogId : Idx
  nextFileId : DataFileIndex
deriving DecidableEq

structure DuckLakeSnapshotCommit where
  author : Value
  commitMessage : Value
  commitExtraInfo : Value
  isCommitInfoSet : Bool := false
deriving DecidableEq

theorem keepsCatalogIds_nil :
    ∀ e ∈ ([] : List (TableIndex × TableIndex)), isTransactionLocal e.1 = false → e.2 = e.1 := by simp

/-- The ids that the running commit attempt has given to what it has written; a table or view
that is already committed keeps its id. -/
structure DuckLakeCommitState where
  committedSchemas : List (SchemaIndex × SchemaIndex) := []
  committedTables : List (TableIndex × TableIndex) := []
  committedPartitionIds : List (Idx × Idx) := []
  committedMappingIndexes : List (MappingIndex × MappingIndex) := []
  localDeleteFiles : List (TableIndex × List DuckLakeDeleteFile) := []
  committed : ∀ e ∈ committedTables, isTransactionLocal e.1 = false → e.2 = e.1 := by
    first | exact keepsCatalogIds_nil | simp

namespace DuckLakeCommitState

def getSchemaId (s : DuckLakeCommitState) (id : SchemaIndex) : SchemaIndex :=
  (s.committedSchemas.lookup id).getD id

def getTableId (s : DuckLakeCommitState) (id : TableIndex) : TableIndex :=
  (s.committedTables.lookup id).getD id

def remapPartitionId (s : DuckLakeCommitState) (id : Option Idx) : Option Idx :=
  id.map fun id => (s.committedPartitionIds.lookup id).getD id

def remapMappingIndex (s : DuckLakeCommitState) (id : Option MappingIndex) : Option MappingIndex :=
  id.map fun id => (s.committedMappingIndexes.lookup id).getD id

end DuckLakeCommitState

theorem DuckLakeCommitState.getTableId_of_committed (s : DuckLakeCommitState) {id : TableIndex}
    (h : isTransactionLocal id = false) : s.getTableId id = id := by
  unfold getTableId
  cases hl : s.committedTables.lookup id with
  | none => rfl
  | some i =>
    obtain ⟨e, he, hid, hi⟩ : ∃ e ∈ s.committedTables, e.1 = id ∧ e.2 = i := by
      obtain ⟨l₁, l₂, hl, -⟩ := List.lookup_eq_some_iff.1 hl
      exact ⟨(id, i), by simp [hl], rfl, rfl⟩
    exact hi.symm.trans ((s.committed e he (hid ▸ h)).trans hid)

/-! ## Writing the change log -/

section Write

variable [SQLWriter]

/-- Re-add all changed tables: by now transaction-local table ids can be converted. -/
def readdTableChanges (state : DuckLakeTransactionState) (commitState : DuckLakeCommitState)
    (changes : TransactionChangeInformation) : TransactionChangeInformation :=
  state.localChanges.changes.foldl
    (fun changes entry => addTableChanges (commitState.getTableId entry.1) entry.2 changes)
    { changes with tablesDeletedFrom := state.tablesDeletedFrom }

def appendChange (changesMade changeType changeValue : Text) : Text :=
  (if changesMade.isEmpty then changesMade else changesMade ++ ",") ++
    changeType ++ ":" ++ changeValue

def addChangeInfo (commitState : DuckLakeCommitState) (changeType : Text)
    (changes : OrdSet TableIndex) (changesMade : Text) : Text :=
  changes.elems.foldl
    (fun acc entry => appendChange acc changeType (commitState.getTableId entry).toText)
    changesMade

/-- The ids that are logged as they are, without remapping. -/
def addRawChangeInfo (changeType : Text) (ids : List Idx) (changesMade : Text) : Text :=
  ids.foldl (fun acc entry => appendChange acc changeType entry.toText) changesMade

def addCreatedInfo (changeType : CatalogEntry → Text) (created : CreatedEntries)
    (changesMade : Text) : Text :=
  created.map.entries.foldl
    (fun acc entry =>
      let schemaPrefix : Text := entry.1 ++ "."
      entry.2.foldl
        (fun acc e => appendChange acc (changeType e)
          (schemaPrefix ++ SQLWriter.quotedIdentifier e.name))
        acc)
    changesMade

def addCreatedSchemas (created : CreatedSchemas) (changesMade : Text) : Text :=
  created.map.entries.foldl (fun acc entry => appendChange acc "created_schema" entry.1) changesMade

def createdTableChangeType (e : CatalogEntry) : Text :=
  if e.type = .viewEntry then "created_view" else "created_table"

def addSchemaAndDataChanges (commitState : DuckLakeCommitState)
    (changes : TransactionChangeInformation) (made : Text) : Text :=
  let made := addRawChangeInfo "dropped_schema" (changes.droppedSchemas.entries.map (·.1)) made
  let made := addChangeInfo commitState "dropped_table" changes.droppedTables made
  let made := addChangeInfo commitState "dropped_view" changes.droppedViews made
  let made := addCreatedSchemas changes.createdSchemas made
  let made := addCreatedInfo createdTableChangeType changes.createdTables made
  let made := addCreatedInfo (fun _ => "created_scalar_macro") changes.createdScalarMacros made
  let made := addCreatedInfo (fun _ => "created_table_macro") changes.createdTableMacros made
  let made := addCreatedInfo (fun _ => "created_procedure") changes.createdProcedures made
  let made := addRawChangeInfo "dropped_scalar_macro" changes.droppedScalarMacros.elems made
  let made := addRawChangeInfo "dropped_table_macro" changes.droppedTableMacros.elems made
  let made := addRawChangeInfo "dropped_procedure" changes.droppedProcedures.elems made
  let made := addChangeInfo commitState "inserted_into_table" changes.tablesInsertedInto made
  let made := addChangeInfo commitState "set_not_null" changes.tablesSetNotNull made
  let made := addChangeInfo commitState "deleted_from_table" changes.tablesDeletedFrom made
  let made := addChangeInfo commitState "altered_table" changes.alteredTables made
  let made := addChangeInfo commitState "altered_view" changes.alteredViews made
  let made := addChangeInfo commitState "inlined_insert" changes.tablesInsertedInlined made
  let made := addChangeInfo commitState "inlined_delete" changes.tablesDeletedInlined made
  addChangeInfo commitState "inline_flush" changes.tablesFlushedInlined made

def addCompactionChanges (commitState : DuckLakeCommitState)
    (changes : TransactionChangeInformation) (made : Text) : Text :=
  let made := addChangeInfo commitState "merge_adjacent" changes.tablesMergeAdjacent made
  addChangeInfo commitState "rewrite_delete" changes.tablesRewriteDelete made

/-- The `changes_made` text of a commit, once the changed tables have been re-added. -/
def snapshotChangesText (commitState : DuckLakeCommitState)
    (changes : TransactionChangeInformation) : Except Exception Text :=
  let made := addSchemaAndDataChanges commitState changes []
  let hasCompaction := !changes.tablesMergeAdjacent.isEmpty || !changes.tablesRewriteDelete.isEmpty
  if hasCompaction && !made.isEmpty then
    invalidInputException "Transactions can either make changes OR perform compaction - not both"
  else
    .ok (addCompactionChanges commitState changes made)

def writeSnapshotChanges (state : DuckLakeTransactionState) (commitState : DuckLakeCommitState)
    (changes : TransactionChangeInformation) : Except Exception Text :=
  snapshotChangesText commitState (readdTableChanges state commitState changes)

end Write

/-- `SQLStringOrNull`: an empty change text is stored as NULL. -/
def changesMadeColumn (changesMade : Text) : Option Text :=
  if changesMade.isEmpty then none else some changesMade

/-- `COALESCE(STRING_AGG(changes_made, ','), '')` over the rows of later snapshots. -/
def stringAgg (rows : List (Option Text)) : Text := Text.join "," (rows.filterMap id)

/-! ## What a change log records -/

/-- The four maps of created entries; tables and views share one. -/
inductive CreatedKind where
  | tableOrView | scalarMacro | tableMacro | procedure
deriving DecidableEq, Repr

def ChangeType.createdKind? : ChangeType → Option CreatedKind
  | .createdTable | .createdView => some .tableOrView
  | .createdScalarMacro => some .scalarMacro
  | .createdTableMacro => some .tableMacro
  | .createdProcedure => some .procedure
  | _ => none

/-- The content of a change log: the ids recorded under each kind, the path keys of created
schemas, and the names created under each schema key. Keys and names count up to case. -/
@[ext] structure ChangeSets where
  ids : ChangeType → Set Idx
  schemas : Set Text
  created : CreatedKind → Set (Text × Text)

namespace ChangeSets

instance : EmptyCollection ChangeSets := ⟨⟨fun _ => ∅, ∅, fun _ => ∅⟩⟩

instance : Union ChangeSets where
  union a b := ⟨fun t => a.ids t ∪ b.ids t, a.schemas ∪ b.schemas, fun k => a.created k ∪ b.created k⟩

@[simp] theorem ids_empty {t : ChangeType} : (∅ : ChangeSets).ids t = ∅ := rfl
@[simp] theorem schemas_empty : (∅ : ChangeSets).schemas = ∅ := rfl
@[simp] theorem created_empty {k : CreatedKind} : (∅ : ChangeSets).created k = ∅ := rfl

@[simp] theorem ids_union {a b : ChangeSets} {t : ChangeType} :
    (a ∪ b).ids t = a.ids t ∪ b.ids t := rfl

@[simp] theorem schemas_union {a b : ChangeSets} : (a ∪ b).schemas = a.schemas ∪ b.schemas := rfl

@[simp] theorem created_union {a b : ChangeSets} {k : CreatedKind} :
    (a ∪ b).created k = a.created k ∪ b.created k := rfl

theorem union_assoc (a b c : ChangeSets) : a ∪ b ∪ c = a ∪ (b ∪ c) := by
  ext <;> simp only [ids_union, schemas_union, created_union, Set.union_assoc]

@[simp] theorem empty_union (a : ChangeSets) : ∅ ∪ a = a := by
  ext <;> simp

/-- The union of a list of logs. -/
def unions : List ChangeSets → ChangeSets
  | [] => ∅
  | a :: l => a ∪ unions l

theorem unions_append {l m : List ChangeSets} : unions (l ++ m) = unions l ∪ unions m := by
  induction l with
  | nil => simp [unions]
  | cons a l ih => rw [List.cons_append, unions, unions, ih, union_assoc]

theorem unions_flatMap {α : Type} {l : List α} {f : α → List ChangeSets} :
    unions (l.flatMap f) = unions (l.map fun a => unions (f a)) := by
  induction l with
  | nil => rfl
  | cons a l ih => rw [List.flatMap_cons, unions_append, ih, List.map_cons, unions]

theorem mem_ids_unions {l : List ChangeSets} {t : ChangeType} {i : Idx} :
    i ∈ (unions l).ids t ↔ ∃ a ∈ l, i ∈ a.ids t := by
  induction l with
  | nil => simp [unions]
  | cons a l ih => simp [unions, ih]

theorem mem_schemas_unions {l : List ChangeSets} {key : Text} :
    key ∈ (unions l).schemas ↔ ∃ a ∈ l, key ∈ a.schemas := by
  induction l with
  | nil => simp [unions]
  | cons a l ih => simp [unions, ih]

theorem mem_created_unions {l : List ChangeSets} {k : CreatedKind} {p : Text × Text} :
    p ∈ (unions l).created k ↔ ∃ a ∈ l, p ∈ a.created k := by
  induction l with
  | nil => simp [unions]
  | cons a l ih => simp [unions, ih]

end ChangeSets

/-- The ids a parsed change log holds under a kind. -/
def SnapshotChangeInformation.ids (r : SnapshotChangeInformation) : ChangeType → OrdSet Idx
  | .createdTable | .createdView | .createdSchema => ∅
  | .createdScalarMacro | .createdTableMacro | .createdProcedure => ∅
  | .droppedSchema => r.droppedSchemas
  | .droppedTable => r.droppedTables
  | .droppedView => r.droppedViews
  | .droppedScalarMacro => r.droppedScalarMacros
  | .droppedTableMacro => r.droppedTableMacros
  | .droppedProcedure => r.droppedProcedures
  | .insertedIntoTable => r.insertedTables
  | .setNotNull => r.tablesSetNotNull
  | .deletedFromTable => r.tablesDeletedFrom
  | .alteredTable => r.alteredTables
  | .alteredView => r.alteredViews
  | .compactedTable => r.tablesCompacted
  | .mergeAdjacent => r.tablesMergeAdjacent
  | .rewriteDelete => r.tablesRewriteDelete
  | .insertedIntoTableInlined => r.tablesInsertedInlined
  | .deletedFromTableInlined => r.tablesDeletedInlined
  | .flushedInlineDataForTable => r.tablesFlushedInlined

def SnapshotChangeInformation.createdMap (r : SnapshotChangeInformation) :
    CreatedKind → CreatedNames
  | .tableOrView => r.createdTables
  | .scalarMacro => r.createdScalarMacros
  | .tableMacro => r.createdTableMacros
  | .procedure => r.createdProcedures

/-- `map[key]` holds `name`. -/
def CreatedIn (m : CreatedNames) (key name : Text) : Prop :=
  ∃ names, m.map.find? key = some names ∧ names.contains name = true

def SnapshotChangeInformation.sets (r : SnapshotChangeInformation) : ChangeSets where
  ids t := {i | i ∈ r.ids t}
  schemas := {key | r.createdSchemas.contains key = true}
  created k := {p | CreatedIn (r.createdMap k) p.1 p.2}

section TransactionSets

variable [SQLWriter]

/-- The ids a transaction logs under a kind, before remapping. -/
def TransactionChangeInformation.ids (c : TransactionChangeInformation) : ChangeType → OrdSet Idx
  | .createdTable | .createdView | .createdSchema => ∅
  | .createdScalarMacro | .createdTableMacro | .createdProcedure => ∅
  | .compactedTable => ∅
  | .droppedSchema => .ofList (c.droppedSchemas.entries.map (·.1))
  | .droppedTable => c.droppedTables
  | .droppedView => c.droppedViews
  | .droppedScalarMacro => c.droppedScalarMacros
  | .droppedTableMacro => c.droppedTableMacros
  | .droppedProcedure => c.droppedProcedures
  | .insertedIntoTable => c.tablesInsertedInto
  | .setNotNull => c.tablesSetNotNull
  | .deletedFromTable => c.tablesDeletedFrom
  | .alteredTable => c.alteredTables
  | .alteredView => c.alteredViews
  | .mergeAdjacent => c.tablesMergeAdjacent
  | .rewriteDelete => c.tablesRewriteDelete
  | .insertedIntoTableInlined => c.tablesInsertedInlined
  | .deletedFromTableInlined => c.tablesDeletedInlined
  | .flushedInlineDataForTable => c.tablesFlushedInlined

def TransactionChangeInformation.createdEntries (c : TransactionChangeInformation) :
    CreatedKind → CreatedEntries
  | .tableOrView => c.createdTables
  | .scalarMacro => c.createdScalarMacros
  | .tableMacro => c.createdTableMacros
  | .procedure => c.createdProcedures

/-- Schema, macro and procedure ids are logged as they are; table and view ids are remapped. -/
def DuckLakeCommitState.loggedId (s : DuckLakeCommitState) : ChangeType → Idx → Idx
  | .droppedSchema | .droppedScalarMacro | .droppedTableMacro | .droppedProcedure => id
  | _ => s.getTableId

/-- What a transaction changed, with the ids as the commit attempt has remapped them. -/
def TransactionChangeInformation.sets (s : DuckLakeCommitState)
    (c : TransactionChangeInformation) : ChangeSets where
  ids t := s.loggedId t '' {i | i ∈ c.ids t}
  schemas := {key | c.createdSchemas.map.contains key = true}
  created k := {p | ∃ entries, (c.createdEntries k).map.find? p.1 = some entries ∧
    ∃ e ∈ entries, e.name.fold = p.2.fold}

end TransactionSets

/-! ## The names themselves

A change log is read into maps that do not tell names apart by case, and created tables and views
share one. What is in there under a kind, letter for letter, depends on what was read first. -/

/-- A name that a change log says was created under a schema key. -/
structure LoggedName where
  type : ChangeType
  key : Text
  name : Text
deriving DecidableEq

/-- The names get in each other's way. -/
def LoggedName.SameEntry (a b : LoggedName) : Prop :=
  a.type.createdKind? = b.type.createdKind? ∧ a.key.fold = b.key.fold ∧ a.name.fold = b.name.fold

/-- The element comes first of those that are the same. -/
def FirstAmong {α : Type} (same : α → α → Prop) (l : List α) (a : α) : Prop :=
  ∃ before after, l = before ++ a :: after ∧ ∀ b ∈ before, ¬ same a b

/-- The text that is kept beside a created name. -/
def ChangeType.kindText : ChangeType → Text
  | .createdTable => "table"
  | .createdView => "view"
  | .createdScalarMacro => "scalar_macro"
  | .createdTableMacro => "table_macro"
  | .createdProcedure => "procedure"
  | _ => []

/-- `map[key]` holds `name`, letter for letter, as a name of the kind. -/
def CreatedAs (m : CreatedNames) (type : ChangeType) (key name : Text) : Prop :=
  ∃ names, m.map.find? key = some names ∧ (name, type.kindText) ∈ names.entries

def SnapshotChangeInformation.HasName (r : SnapshotChangeInformation) (type : ChangeType)
    (key name : Text) : Prop :=
  ∃ k, type.createdKind? = some k ∧ CreatedAs (r.createdMap k) type key name

/-- The change log holds the created names and schema keys that come first in the lists. -/
structure SnapshotChangeInformation.Collects (r : SnapshotChangeInformation)
    (names : List LoggedName) (schemas : List Text) : Prop where
  names : ∀ type key name, r.HasName type key name ↔
    ∃ e, FirstAmong LoggedName.SameEntry names e ∧ e.type = type ∧ e.key.fold = key.fold ∧
      e.name = name
  schemas : ∀ key, key ∈ r.createdSchemas.entries.map (·.1) ↔
    FirstAmong (fun a b => a.fold = b.fold) schemas key

section TransactionNames

variable [SQLWriter]

def CatalogEntry.tableType (e : CatalogEntry) : ChangeType :=
  if e.type = .viewEntry then .createdView else .createdTable

def CreatedEntries.names (created : CreatedEntries) (type : CatalogEntry → ChangeType) :
    List LoggedName :=
  created.map.entries.flatMap fun entry => entry.2.map fun e => ⟨type e, entry.1, e.name⟩

/-- The names that a transaction has created, in the order in which it logs them. -/
def TransactionChangeInformation.createdNames (c : TransactionChangeInformation) :
    List LoggedName :=
  c.createdTables.names (·.tableType) ++
    c.createdScalarMacros.names (fun _ => .createdScalarMacro) ++
    c.createdTableMacros.names (fun _ => .createdTableMacro) ++
    c.createdProcedures.names (fun _ => .createdProcedure)

def TransactionChangeInformation.createdSchemaKeys (c : TransactionChangeInformation) :
    List Text := c.createdSchemas.map.entries.map (·.1)

/-- The transaction has created the name under the schema key. -/
def TransactionChangeInformation.HasName (c : TransactionChangeInformation) (type : ChangeType)
    (key name : Text) : Prop :=
  ∃ e ∈ c.createdNames, e.type = type ∧ e.key.fold = key.fold ∧ e.name = name

/-- No two of the names are told apart by their case or their kind only. -/
def TransactionChangeInformation.DistinctNames (c : TransactionChangeInformation) : Prop :=
  c.createdNames.Pairwise fun a b => ¬ a.SameEntry b

end TransactionNames

end DuckLake
