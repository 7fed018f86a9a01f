import DuckLake.Lib.OrdSet
import DuckLake.Lib.CIMap
import DuckLake.Common.Util
import Mathlib.Data.Set.Lattice

/-!
# Change information

The two records of `storage/ducklake_transaction_changes.hpp`: what a running transaction has
changed, and what the change log of committed snapshots says was changed. The second one is read
back from text by `parseChangesMade`.
-/

namespace DuckLake

instance : LinearOrder Idx where
  le_refl _ := UInt64.le_refl _
  le_trans _ _ _ := UInt64.le_trans
  le_antisymm _ _ := UInt64.le_antisymm
  le_total := UInt64.le_total
  lt_iff_le_not_ge a b := by
    simp only [UInt64.le_iff_toNat_le, UInt64.lt_iff_toNat_lt]
    omega
  toDecidableLE := inferInstance
  toDecidableEq := inferInstance
  toDecidableLT := inferInstance
  min_def _ _ := rfl
  max_def _ _ := rfl
  compare_eq_compareOfLessAndEq _ _ := rfl

abbrev SchemaIndex := Idx
abbrev TableIndex := Idx
abbrev MacroIndex := Idx
abbrev ProcedureIndex := Idx

/-! ## Catalog entries of a transaction -/

/-- A schema with the chain of schemas it is nested in. -/
inductive DuckLakeSchemaEntry where
  | root (schemaId : SchemaIndex) (name : Text)
  | child (parent : DuckLakeSchemaEntry) (schemaId : SchemaIndex) (name : Text)
deriving DecidableEq

namespace DuckLakeSchemaEntry

def schemaId : DuckLakeSchemaEntry → SchemaIndex
  | .root id _ => id
  | .child _ id _ => id

def name : DuckLakeSchemaEntry → Text
  | .root _ name => name
  | .child _ _ name => name

/-- The parent schemas, the innermost first. -/
def parents : DuckLakeSchemaEntry → List DuckLakeSchemaEntry
  | .root _ _ => []
  | .child parent _ _ => parent :: parent.parents

def pathKey [SQLWriter] : DuckLakeSchemaEntry → Text
  | .root _ name => SQLWriter.quotedIdentifier name
  | .child parent _ name => parent.pathKey ++ "." ++ SQLWriter.quotedIdentifier name

def path : DuckLakeSchemaEntry → List Text
  | .root _ name => [name]
  | .child parent _ name => parent.path ++ [name]

theorem path_ne_nil (s : DuckLakeSchemaEntry) : s.path ≠ [] := by
  cases s <;> simp [path]

theorem pathKey_eq [SQLWriter] (s : DuckLakeSchemaEntry) : s.pathKey = toQuotedList s.path '.' := by
  induction s with
  | root id name => rfl
  | child parent id name ih =>
    rw [pathKey, ih, path, ← toQuotedList_append_singleton parent.path_ne_nil]
    rfl

end DuckLakeSchemaEntry

inductive CatalogType where
  | tableEntry | viewEntry | macroEntry | tableMacroEntry | procedureEntry
deriving DecidableEq, Repr

structure CatalogEntry where
  type : CatalogType
  name : Text
  schema : DuckLakeSchemaEntry
deriving DecidableEq

/-- Entries created by a transaction, grouped by the path key of their schema. -/
structure CreatedEntries [SQLWriter] where
  map : CIMap (List CatalogEntry)
  keys : ∀ e ∈ map.entries, ∃ schema : DuckLakeSchemaEntry, e.1 = schema.pathKey

/-- Schemas created by a transaction, by path key. -/
structure CreatedSchemas [SQLWriter] where
  map : CIMap DuckLakeSchemaEntry
  keys : ∀ e ∈ map.entries, e.1 = e.2.pathKey

/-- Schemas dropped by a transaction, by id. -/
structure DroppedSchemas where
  entries : List (SchemaIndex × DuckLakeSchemaEntry)
  sorted : entries.Pairwise (·.1 < ·.1)

instance [SQLWriter] : EmptyCollection CreatedEntries := ⟨⟨∅, by simp⟩⟩

instance [SQLWriter] : EmptyCollection CreatedSchemas := ⟨⟨∅, by simp⟩⟩

instance : EmptyCollection DroppedSchemas := ⟨⟨[], .nil⟩⟩

/-- The part of the change information that comes from the catalog entries of a transaction. -/
structure CatalogChanges [SQLWriter] where
  createdSchemas : CreatedSchemas := ∅
  droppedSchemas : DroppedSchemas := ∅
  createdTables : CreatedEntries := ∅
  createdScalarMacros : CreatedEntries := ∅
  createdTableMacros : CreatedEntries := ∅
  createdProcedures : CreatedEntries := ∅
  alteredTables : OrdSet TableIndex := ∅
  alteredTablesWithSchemaVersionChanges : OrdSet TableIndex := ∅
  alteredViews : OrdSet TableIndex := ∅
  droppedTables : OrdSet TableIndex := ∅
  droppedViews : OrdSet TableIndex := ∅
  droppedScalarMacros : OrdSet MacroIndex := ∅
  droppedTableMacros : OrdSet MacroIndex := ∅
  droppedProcedures : OrdSet ProcedureIndex := ∅
  /-- Tables on which a NOT NULL constraint was added in this transaction. -/
  tablesSetNotNull : OrdSet TableIndex := ∅

structure TransactionChangeInformation [SQLWriter] extends CatalogChanges where
  tablesInsertedInto : OrdSet TableIndex := ∅
  tablesDeletedFrom : OrdSet TableIndex := ∅
  /-- Tables a delete predicate was evaluated against, whether or not any row matched. -/
  tablesDeleteAttempted : OrdSet TableIndex := ∅
  tablesInsertedInlined : OrdSet TableIndex := ∅
  tablesDeletedInlined : OrdSet TableIndex := ∅
  tablesFlushedInlined : OrdSet TableIndex := ∅
  tablesMergeAdjacent : OrdSet TableIndex := ∅
  tablesRewriteDelete : OrdSet TableIndex := ∅

/-- The names created under each schema key, with their kind; a key is only there for a name. -/
structure CreatedNames where
  map : CIMap (CIMap Text)
  nonempty : ∀ e ∈ map.entries, e.2.entries ≠ []

instance : EmptyCollection CreatedNames := ⟨⟨∅, by simp⟩⟩

structure SnapshotChangeInformation where
  createdSchemas : CISet := ∅
  droppedSchemas : OrdSet SchemaIndex := ∅
  createdTables : CreatedNames := ∅
  createdScalarMacros : CreatedNames := ∅
  createdTableMacros : CreatedNames := ∅
  createdProcedures : CreatedNames := ∅
  alteredTables : OrdSet TableIndex := ∅
  alteredTablesWithSchemaVersionChanges : OrdSet TableIndex := ∅
  alteredViews : OrdSet TableIndex := ∅
  droppedTables : OrdSet TableIndex := ∅
  droppedViews : OrdSet TableIndex := ∅
  droppedScalarMacros : OrdSet MacroIndex := ∅
  droppedTableMacros : OrdSet MacroIndex := ∅
  droppedProcedures : OrdSet ProcedureIndex := ∅
  insertedTables : OrdSet TableIndex := ∅
  tablesSetNotNull : OrdSet TableIndex := ∅
  tablesDeletedFrom : OrdSet TableIndex := ∅
  tablesCompacted : OrdSet TableIndex := ∅
  tablesMergeAdjacent : OrdSet TableIndex := ∅
  tablesRewriteDelete : OrdSet TableIndex := ∅
  tablesInsertedInlined : OrdSet TableIndex := ∅
  tablesDeletedInlined : OrdSet TableIndex := ∅
  tablesFlushedInlined : OrdSet TableIndex := ∅

/-! ## Reading the change log -/

inductive ChangeType where
  | createdTable | createdView | createdSchema | droppedSchema | droppedTable | droppedView
  | insertedIntoTable | deletedFromTable | insertedIntoTableInlined | deletedFromTableInlined
  | flushedInlineDataForTable | alteredTable | alteredView | compactedTable | mergeAdjacent
  | rewriteDelete | createdScalarMacro | createdTableMacro | setNotNull | createdProcedure
  | droppedScalarMacro | droppedTableMacro | droppedProcedure
deriving DecidableEq, Repr

structure ParsedChange where
  changeType : ChangeType
  changeValue : Text
deriving DecidableEq

/-- The keywords `parseChangeType` compares with, in the order of its comparisons. -/
def changeTypeKeywords : List (Text × ChangeType) := [
  ("created_table", .createdTable),
  ("created_view", .createdView),
  ("created_scalar_macro", .createdScalarMacro),
  ("created_table_macro", .createdTableMacro),
  ("created_procedure", .createdProcedure),
  ("created_schema", .createdSchema),
  ("dropped_schema", .droppedSchema),
  ("dropped_table", .droppedTable),
  ("dropped_view", .droppedView),
  ("inserted_into_table", .insertedIntoTable),
  ("dropped_scalar_macro", .droppedScalarMacro),
  ("dropped_table_macro", .droppedTableMacro),
  ("dropped_procedure", .droppedProcedure),
  ("altered_table", .alteredTable),
  ("altered_view", .alteredView),
  ("deleted_from_table", .deletedFromTable),
  ("compacted_table", .compactedTable),
  ("merge_adjacent", .mergeAdjacent),
  ("rewrite_delete", .rewriteDelete),
  ("set_not_null", .setNotNull),
  ("inlined_insert", .insertedIntoTableInlined),
  ("inlined_delete", .deletedFromTableInlined),
  ("flushed_inlined", .flushedInlineDataForTable),
  ("inline_flush", .flushedInlineDataForTable)]

def parseChangeType (changesMade : Text) : Except Exception (ChangeType × Text) :=
  let changeTypeStr := changesMade.takeWhile (· ≠ ':')
  match changeTypeKeywords.find? fun e => Text.ciEquals changeTypeStr e.1 with
  | some (_, changeType) => .ok (changeType, changesMade.dropWhile (· ≠ ':'))
  | none => invalidInputException ("Unsupported change type " ++ changeTypeStr)

def parseChangeValueLoop : Bool → Text → Text × Text
  | _, [] => ([], [])
  | inQuotes, c :: t =>
    -- found an unquoted comma
    if !inQuotes && c = ',' then ([], c :: t)
    else
      let (value, rest) := parseChangeValueLoop (if c = '"' then !inQuotes else inQuotes) t
      (c :: value, rest)

/-- Parse until an unquoted comma is found. -/
def parseChangeValue (changesMade : Text) : Text × Text := parseChangeValueLoop false changesMade

def parseChangeEntry (changesMade : Text) : Except Exception (ParsedChange × Text) := do
  let (changeType, rest) ← parseChangeType changesMade
  match rest with
  | ':' :: rest =>
    let (changeValue, rest) := parseChangeValue rest
    return (⟨changeType, changeValue⟩, rest)
  | _ => invalidInputException "Expected a colon after the change type"

theorem length_parseChangeValueLoop {b : Bool} {t : Text} :
    (parseChangeValueLoop b t).2.length ≤ t.length := by
  induction t generalizing b with
  | nil => simp [parseChangeValueLoop]
  | cons c t ih =>
    rw [parseChangeValueLoop]
    split
    · rfl
    · exact Nat.le_succ_of_le ih

theorem length_parseChangeEntry {t : Text} {v : ParsedChange × Text}
    (h : parseChangeEntry t = .ok v) : v.2.length ≤ t.length := by
  simp only [parseChangeEntry, parseChangeType, bind, Except.bind] at h
  split at h
  · cases h
  · rename_i heq
    split at heq
    · cases heq
      dsimp only at h
      split at h
      · rename_i hrest
        cases h
        have hdrop := (List.dropWhile_sublist (fun c => decide (c ≠ ':')) (l := t)).length_le
        have := length_parseChangeValueLoop (b := false) (t := ‹Text›)
        rw [hrest, List.length_cons] at hdrop
        simp only [parseChangeValue]
        omega
      · cases h
    · cases heq

def parseChangesList (changesMade : Text) : Except Exception (List ParsedChange) :=
  if changesMade.isEmpty then .ok []
  else match _h : parseChangeEntry changesMade with
  | .error e => .error e
  | .ok (entry, []) => .ok [entry]
  | .ok (entry, c :: rest) =>
    if c ≠ ',' then invalidInputException "Expected a comma separating the change entry"
    else do
      let entries ← parseChangesList rest
      return entry :: entries
termination_by changesMade.length
decreasing_by
  have := length_parseChangeEntry _h
  simp only [List.length_cons] at this
  omega

/-- `created[schemaKey].insert(name, kind)`. -/
def CreatedNames.insert [SQLWriter] (created : CreatedNames) (entry : ParsedCatalogEntry)
    (kind : Text) : CreatedNames where
  map := created.map.update entry.schemaKey (·.insert entry.name kind) ∅
  nonempty e he := by
    rcases CIMap.mem_updateList he with ⟨e', he', -, heq | heq⟩ | rfl
    · exact heq ▸ created.nonempty e' he'
    · exact heq ▸ CIMap.updateList_ne_nil
    · exact CIMap.updateList_ne_nil

/-- The set that a change with an id goes into. -/
def SnapshotChangeInformation.insertId (result : SnapshotChangeInformation) (id : Idx) :
    ChangeType → SnapshotChangeInformation
  | .createdTable | .createdView | .createdSchema => result
  | .createdScalarMacro | .createdTableMacro | .createdProcedure => result
  | .droppedSchema => { result with droppedSchemas := result.droppedSchemas.insert id }
  | .droppedTable => { result with droppedTables := result.droppedTables.insert id }
  | .droppedScalarMacro =>
    { result with droppedScalarMacros := result.droppedScalarMacros.insert id }
  | .droppedTableMacro => { result with droppedTableMacros := result.droppedTableMacros.insert id }
  | .droppedProcedure => { result with droppedProcedures := result.droppedProcedures.insert id }
  | .droppedView => { result with droppedViews := result.droppedViews.insert id }
  | .insertedIntoTable => { result with insertedTables := result.insertedTables.insert id }
  | .setNotNull => { result with tablesSetNotNull := result.tablesSetNotNull.insert id }
  | .deletedFromTable => { result with tablesDeletedFrom := result.tablesDeletedFrom.insert id }
  | .alteredTable => { result with alteredTables := result.alteredTables.insert id }
  | .alteredView => { result with alteredViews := result.alteredViews.insert id }
  | .compactedTable => { result with tablesCompacted := result.tablesCompacted.insert id }
  | .mergeAdjacent => { result with tablesMergeAdjacent := result.tablesMergeAdjacent.insert id }
  | .rewriteDelete => { result with tablesRewriteDelete := result.tablesRewriteDelete.insert id }
  | .insertedIntoTableInlined =>
    { result with tablesInsertedInlined := result.tablesInsertedInlined.insert id }
  | .deletedFromTableInlined =>
    { result with tablesDeletedInlined := result.tablesDeletedInlined.insert id }
  | .flushedInlineDataForTable =>
    { result with tablesFlushedInlined := result.tablesFlushedInlined.insert id }

/-- One round of the loop of `parseChangesMade`. -/
def SnapshotChangeInformation.applyChange [SQLWriter] (result : SnapshotChangeInformation)
    (entry : ParsedChange) : Except Exception SnapshotChangeInformation :=
  match entry.changeType with
  | .createdTable => do
    let e ← parseCatalogEntry entry.changeValue
    return { result with createdTables := result.createdTables.insert e "table" }
  | .createdScalarMacro => do
    let e ← parseCatalogEntry entry.changeValue
    return { result with
      createdScalarMacros := result.createdScalarMacros.insert e "scalar_macro" }
  | .createdTableMacro => do
    let e ← parseCatalogEntry entry.changeValue
    return { result with
      createdTableMacros := result.createdTableMacros.insert e "table_macro" }
  | .createdProcedure => do
    let e ← parseCatalogEntry entry.changeValue
    return { result with createdProcedures := result.createdProcedures.insert e "procedure" }
  | .createdView => do
    let e ← parseCatalogEntry entry.changeValue
    return { result with createdTables := result.createdTables.insert e "view" }
  | .createdSchema => do
    let path ← parseQuotedList entry.changeValue '.'
    return { result with createdSchemas := result.createdSchemas.insert (toQuotedList path '.') () }
  | changeType => do
    let id ← toUnsigned entry.changeValue
    return result.insertId id changeType

def parseChangesMade [SQLWriter] (changesMade : Text) :
    Except Exception SnapshotChangeInformation := do
  let changeList ← parseChangesList changesMade
  changeList.foldlM SnapshotChangeInformation.applyChange {}

end DuckLake
