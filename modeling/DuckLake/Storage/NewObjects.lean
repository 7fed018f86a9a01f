import Mathlib.Data.List.Perm.Basic
import DuckLake.Storage.CommittedReferences

/-!
# What a commit gives ids to

A batch gives ids to new objects, and each of them is one that the transaction has staged: the
objects of a batch, in the order in which they are written, are the staged ones. So a commit does
not forget an object, and it writes none twice.
-/

namespace DuckLake

/-! ## New objects -/

/-- What a transaction stages to be created, without its ids. Tables, views and materialized views
have transaction-local ids that stand for them. -/
inductive NewObject where
  | schema (name : Text)
  | partitionKey (fields : List DuckLakePartitionFieldInfo)
  | sortKey (fields : List DuckLakeSortField)
  | macroEntry (name : Text) (implementations : List DuckLakeMacroImplementation)
  | procedure (name body : Text)
  | nameMap (columns : List DuckLakeNameMapColumnInfo)
  | dataFile (fileName : Text)
  | deleteFile (fileName : Text)

/-- An id from one of the two counters of a snapshot. -/
inductive GivenId where
  | catalog (id : Idx)
  | file (id : DataFileIndex)

def DuckLakePartitionInfo.gives (row : DuckLakePartitionInfo) : List (NewObject × GivenId) :=
  row.id.toList.map fun id => (.partitionKey row.fields, .catalog id)

def DuckLakeSortInfo.gives (row : DuckLakeSortInfo) : List (NewObject × GivenId) :=
  row.id.toList.map fun id => (.sortKey row.fields, .catalog id)

/-- The new objects in the rows of a statement, with the ids that they have there. -/
def Statement.gives : Statement → List (NewObject × GivenId)
  | .newSchemas rows => rows.map fun row => (.schema row.1.name, .catalog row.1.id)
  | .newPartitionKeys _ new => new.flatMap (·.gives)
  | .newSortKeys _ new => new.flatMap (·.gives)
  | .newMacros rows =>
    rows.map fun row => (.macroEntry row.macroName row.implementations, .catalog row.macroId)
  | .newProcedures rows =>
    rows.map fun row => (.procedure row.procedureName row.body, .catalog row.procedureId)
  | .newColumnMappings rows => rows.map fun row => (.nameMap row.mapColumns, .file row.mappingId)
  | .newDataFiles rows => rows.map fun row => (.dataFile row.1.fileName, .file row.1.id)
  | .newDeleteFiles rows => rows.map fun row => (.deleteFile row.1.path, .file row.1.id)
  | _ => []

def Statement.newObjects (statement : Statement) : List NewObject := statement.gives.map (·.1)

/-! ## Staged objects -/

def StagedSchema.newObject (schema : StagedSchema) : NewObject := .schema schema.entry.name

def MacroEntry.newObject (entry : MacroEntry) : NewObject :=
  .macroEntry entry.name entry.implementations

def DuckLakeProcedureEntry.newObject (entry : DuckLakeProcedureEntry) : NewObject :=
  .procedure entry.name entry.body

def DuckLakeNameMap.newObject (map : DuckLakeNameMap) : NewObject :=
  .nameMap (convertNameMapColumns none 0 map.columnMaps)

def DuckLakeDataFile.newObject (file : DuckLakeDataFile) : NewObject := .dataFile file.fileName

def DuckLakeDeleteFile.newObject (file : DuckLakeDeleteFile) : NewObject :=
  .deleteFile file.fileName

namespace DuckLakeTableEntry

def partitionObjects (table : DuckLakeTableEntry) : List NewObject :=
  table.partitionData.toList.map fun data => .partitionKey <| data.fields.map fun field =>
    ⟨field.partitionKeyIndex, field.fieldId, field.transform.toText⟩

def sortObjects (table : DuckLakeTableEntry) : List NewObject :=
  table.sortData.toList.map fun data => .sortKey data.fields

/-- The partition key that a version of a table brings in. -/
def newPartitionObjects (table : DuckLakeTableEntry) : List NewObject :=
  match table.localChange with
  | .setPartitionKey | .created => table.partitionObjects
  | _ => []

/-- The sort key that a version of a table brings in. The last renaming of a column brings the key
in again under the new name. -/
def newSortObjects (table : DuckLakeTableEntry) (altersLeft : FieldIndex → Nat) : List NewObject :=
  match table.localChange with
  | .setSortKey | .created => table.sortObjects
  | .renameColumn field => if 0 < altersLeft field then [] else table.sortObjects
  | _ => []

/-- How often the versions change the definition of a field. -/
def alters (versions : List DuckLakeTableEntry) (field : FieldIndex) : Nat :=
  versions.countP (·.localChange.alteredField? = some field)

/-- The sort keys of the versions of a table, from the first version on. -/
def chainSortObjects : List DuckLakeTableEntry → List NewObject
  | [] => []
  | table :: later => table.newSortObjects (alters later) ++ chainSortObjects later

end DuckLakeTableEntry

namespace StagedEntry

def partitionObjects : StagedEntry → List NewObject
  | table chain => chain.reverse.flatMap (·.newPartitionObjects)
  | view _ => []

def sortObjects : StagedEntry → List NewObject
  | table chain => DuckLakeTableEntry.chainSortObjects chain.reverse
  | view _ => []

end StagedEntry

namespace LocalTableDataChanges

def deleteFiles (changes : LocalTableDataChanges) : List DuckLakeDeleteFile :=
  changes.newDeleteFiles.flatMap (·.2)

/-- The files that compactions of a kind have written. -/
def filesCompactedBy (changes : LocalTableDataChanges) (type : CompactionType) :
    List DuckLakeDataFile :=
  (changes.compactions.filter (·.type = type)).flatMap (·.writtenFiles)

end LocalTableDataChanges

namespace StagedTransaction

/-- The data files that are staged: new ones, and the output of compactions. -/
def stagedDataFiles (T : StagedTransaction) : List DuckLakeDataFile :=
  T.localChanges.changes.flatMap (·.2.newDataFiles) ++
    T.localChanges.changes.flatMap (·.2.compactions.flatMap (·.writtenFiles))

/-- The delete files that are staged, on committed data files and on new ones. -/
def stagedDeleteFiles (T : StagedTransaction) : List DuckLakeDeleteFile :=
  T.localChanges.changes.flatMap (·.2.deleteFiles) ++
    T.localChanges.changes.flatMap (·.2.newDataFiles.flatMap (·.deleteFiles))

/-- Everything that a commit of the transaction has to create, apart from tables and views. -/
def newObjects (T : StagedTransaction) : List NewObject :=
  T.newSchemas.map (·.newObject) ++ T.stagedEntries.flatMap (·.partitionObjects) ++
    T.stagedEntries.flatMap (·.sortObjects) ++ T.stagedMacros.map (·.newObject) ++
    T.stagedProcedures.map (·.newObject) ++ T.newNameMaps.map (·.2.newObject) ++
    T.stagedDataFiles.map (·.newObject) ++ T.stagedDeleteFiles.map (·.newObject)

end StagedTransaction

/-! ## The ids -/

def GivenId.catalog? : GivenId → Option Idx
  | .catalog id => some id
  | .file _ => none

def GivenId.file? : GivenId → Option DataFileIndex
  | .catalog _ => none
  | .file id => some id

@[simp] theorem GivenId.catalog?_catalog {id : Idx} : (catalog id).catalog? = some id := rfl

@[simp] theorem GivenId.catalog?_file {id : DataFileIndex} : (file id).catalog? = none := rfl

@[simp] theorem GivenId.file?_catalog {id : Idx} : (catalog id).file? = none := rfl

@[simp] theorem GivenId.file?_file {id : DataFileIndex} : (file id).file? = some id := rfl

theorem flatMap_toList {α β : Type} {l : List α} (f : α → Option β) :
    l.flatMap (fun a => (f a).toList) = l.filterMap f := by
  induction l with
  | nil => rfl
  | cons a l ih =>
    rw [List.flatMap_cons, ih, List.filterMap_cons]
    cases f a <;> rfl

/-- The objects of a statement have ids that the statement gives out, each one of its own. -/
theorem Statement.gives_catalog (first : Idx) (statement : Statement) :
    (statement.gives.filterMap (·.2.catalog?)).Sublist (statement.newCatalogIds first) := by
  cases statement with
  | newPartitionKeys existing new =>
    simp [gives, newCatalogIds, DuckLakePartitionInfo.gives, List.filterMap_flatMap,
      flatMap_toList, Function.comp_def]
  | newSortKeys existing new =>
    simp [gives, newCatalogIds, DuckLakeSortInfo.gives, List.filterMap_flatMap, flatMap_toList,
      Function.comp_def]
  | _ => simp [gives, newCatalogIds, Function.comp_def]

theorem Statement.gives_file (statement : Statement) :
    (statement.gives.filterMap (·.2.file?)).Sublist statement.newFileIds := by
  cases statement with
  | newPartitionKeys existing new =>
    simp [gives, newFileIds, DuckLakePartitionInfo.gives, List.filterMap_flatMap,
      Function.comp_def]
  | newSortKeys existing new =>
    simp [gives, newFileIds, DuckLakeSortInfo.gives, List.filterMap_flatMap, Function.comp_def]
  | _ => simp [gives, newFileIds, Function.comp_def]

theorem sublist_flatMap {α β : Type} {f g : α → List β} (h : ∀ a, (f a).Sublist (g a))
    (l : List α) : (l.flatMap f).Sublist (l.flatMap g) := by
  induction l with
  | nil => exact .slnil
  | cons a l ih => exact (h a).append ih

/-- No id of a batch belongs to two objects. -/
theorem nodup_gives {first : Idx} {batch : List Statement}
    (hcatalog : (batch.flatMap (·.newCatalogIds first)).Nodup)
    (hfile : (batch.flatMap (·.newFileIds)).Nodup) :
    ((batch.flatMap (·.gives)).map (·.2)).Nodup := by
  have hcatalogs : ((batch.flatMap (·.gives)).filterMap (·.2.catalog?)).Nodup := by
    rw [List.filterMap_flatMap]
    exact hcatalog.sublist (sublist_flatMap (Statement.gives_catalog first) batch)
  have hfiles : ((batch.flatMap (·.gives)).filterMap (·.2.file?)).Nodup := by
    rw [List.filterMap_flatMap]
    exact hfile.sublist (sublist_flatMap Statement.gives_file batch)
  generalize batch.flatMap (·.gives) = l at hcatalogs hfiles
  induction l with
  | nil => exact List.nodup_nil
  | cons e l ih =>
    obtain ⟨object, id⟩ := e
    cases id with
    | catalog id =>
      simp only [List.filterMap_cons, GivenId.catalog?_catalog, List.nodup_cons] at hcatalogs
      simp only [List.filterMap_cons, GivenId.file?_catalog] at hfiles
      refine List.nodup_cons.2 ⟨fun h => hcatalogs.1 ?_, ih hcatalogs.2 hfiles⟩
      obtain ⟨e, he, heq⟩ := List.mem_map.1 h
      exact List.mem_filterMap.2 ⟨e, he, by rw [heq]; rfl⟩
    | file id =>
      simp only [List.filterMap_cons, GivenId.catalog?_file] at hcatalogs
      simp only [List.filterMap_cons, GivenId.file?_file, List.nodup_cons] at hfiles
      refine List.nodup_cons.2 ⟨fun h => hfiles.1 ?_, ih hcatalogs hfiles.2⟩
      obtain ⟨e, he, heq⟩ := List.mem_map.1 h
      exact List.mem_filterMap.2 ⟨e, he, by rw [heq]; rfl⟩

/-! ## Writing -/

section Stages

variable [SQLWriter]

open CommitM Attempt

/-- The objects that are written so far, and what is known of the commit state. -/
structure Written (F : DuckLakeCommitState → Prop) (X : List NewObject) (s : CommitAttempt) :
    Prop where
  objects : s.batchQueries.flatMap (·.newObjects) = X
  state : F s.commitState

variable {F : DuckLakeCommitState → Prop} {X : List NewObject}

theorem emit_written (statement : Statement) :
    Yields (Written F X) (emit statement) fun _ => Written F (X ++ statement.newObjects) := by
  refine .modify fun s hs => ⟨?_, hs.state⟩
  rw [List.flatMap_append, List.flatMap_singleton, hs.objects]

theorem emit_nothing {statement : Statement} (h : statement.newObjects = []) :
    Yields (Written F X) (emit statement) fun _ => Written F X := by
  refine (emit_written statement).mono (fun _ hs => hs) fun _ s hs => ?_
  rwa [h, List.append_nil] at hs

/-- A statement that is left out when it has no rows. -/
theorem emitIf_written {cond : Bool} {statement : Statement}
    (h : cond = false → statement.newObjects = []) :
    Yields (Written F X) (emitIf cond statement) fun _ => Written F (X ++ statement.newObjects) := by
  unfold emitIf runIf
  split
  · exact emit_written statement
  · rename_i hcond
    rw [h (by simpa using hcond), List.append_nil]
    exact .pure fun s hs => hs

theorem emitIf_nothing {cond : Bool} {statement : Statement} (h : statement.newObjects = []) :
    Yields (Written F X) (emitIf cond statement) fun _ => Written F X := by
  refine (emitIf_written fun _ => h).mono (fun _ hs => hs) fun _ s hs => ?_
  rwa [h, List.append_nil] at hs

theorem nextFileId_written : Keeps (Written F X) nextFileId :=
  .modifyGet fun _ hs => ⟨hs.objects, hs.state⟩

theorem newSchemaVersions_written {count : Nat} : Keeps (Written F X) (newSchemaVersions count) :=
  .modify fun _ hs => ⟨hs.objects, hs.state⟩

/-- A loop that makes a row for each element. -/
theorem mapM_written {α β : Type} {f : α → CommitM β} {l : List α} (object : α → NewObject)
    (row : β → NewObject)
    (h : ∀ a ∈ l, Yields (Written F X) (f a) fun b s => Written F X s ∧ row b = object a) :
    Yields (Written F X) (l.mapM f) fun rows s => Written F X s ∧ rows.map row = l.map object := by
  refine (Yields.mapM (fun (done : List α) (rows : List β) s =>
    Written F X s ∧ rows.map row = done.map object) ?_).mono (fun s hs => ⟨hs, rfl⟩) fun _ _ hs => hs
  intro done a rest rows hsplit
  refine .pull fun hrows => ?_
  refine (h a (by simp [hsplit])).mono (fun _ hs => hs) fun b s hs => ⟨hs.1, ?_⟩
  simp [hrows, hs.2]

theorem mapM_path_written {α : Type} {rows : List α} {path : α → Except Exception DuckLakePath} :
    Yields (Written F X) (rows.mapM fun row => do
        let p ← (MonadExcept.ofExcept (path row) : CommitM DuckLakePath)
        return (row, p)) fun rows' s => Written F X s ∧ rows'.map (·.1) = rows := by
  refine (Yields.mapM (fun done rows' s => Written F X s ∧ rows'.map (·.1) = done) ?_).mono
    (fun s hs => ⟨hs, rfl⟩) fun rows' s hs => hs
  intro done row rest rows' _
  refine .pull fun hrows => Keeps.ofExcept.yields.bind fun p => .pure fun s hs => ⟨hs, ?_⟩
  rw [List.map_append, hrows]
  rfl

/-- Rows for all objects of a kind are written, and no statement is when there are none. -/
theorem emitRows_written {β : Type} (rows : List β) (row : β → NewObject) {Y : List NewObject}
    {cond : Bool} {statement : Statement} (hrows : rows.map row = Y)
    (hstatement : statement.newObjects = rows.map row) (hcond : cond = false → Y = []) :
    Yields (Written F X) (emitIf cond statement) fun _ => Written F (X ++ Y) := by
  rw [← hrows, ← hstatement]
  refine emitIf_written fun h => ?_
  rw [hstatement, hrows, hcond h]

/-- No delete file on a new data file is left to write. -/
abbrev Wrote (X : List NewObject) : CommitAttempt → Prop := Written (·.localDeleteFiles = []) X

theorem nextCatalogId_wrote : Keeps (Wrote X) nextCatalogId :=
  .modifyGet fun _ hs => ⟨hs.objects, hs.state⟩

theorem store_wrote {w : Store} : Keeps (Wrote X) (store w) :=
  .modify fun _ hs => ⟨hs.objects, hs.state⟩

theorem alterTable_wrote {id : TableIndex} : Keeps (Wrote X) (alterTable id) :=
  .modify fun _ hs => ⟨hs.objects, hs.state⟩

theorem alterSchemaVersion_wrote {id : TableIndex} : Keeps (Wrote X) (alterSchemaVersion id) :=
  .modify fun _ hs => ⟨hs.objects, hs.state⟩

theorem alterView_wrote {id : TableIndex} : Keeps (Wrote X) (alterView id) :=
  .modify fun _ hs => ⟨hs.objects, hs.state⟩

theorem emplaceTable_wrote {old new : TableIndex} {h : isTransactionLocal old = false → new = old} :
    Keeps (Wrote X) (emplaceTable old new h) :=
  .modify fun _ hs => ⟨hs.objects, hs.state⟩

theorem emplaceSchema_wrote {old new : SchemaIndex} : Keeps (Wrote X) (emplaceSchema old new) :=
  .modify fun _ hs => ⟨hs.objects, hs.state⟩

theorem setPartitionId_wrote {old new : Idx} : Keeps (Wrote X) (CommitM.setPartitionId old new) :=
  .modify fun _ hs => ⟨hs.objects, hs.state⟩

theorem setMappingIndex_wrote {old new : MappingIndex} :
    Keeps (Wrote X) (setMappingIndex old new) :=
  .modify fun _ hs => ⟨hs.objects, hs.state⟩

theorem allocateTableId_wrote {old : TableIndex} : Keeps (Wrote X) (allocateTableId old) := by
  unfold allocateTableId
  split
  · exact nextCatalogId_wrote.bind fun _ => .pure
  · exact .pure

/-! ### Schemas -/

theorem newSchema_wrote (schema : StagedSchema) :
    Yields (Wrote X) (newSchema schema) fun info s => Wrote X s ∧ info.name = schema.entry.name :=
  nextCatalogId_wrote.yields.bind fun _ => CommitInvariant.getCommitState.yields.bind fun _ =>
    emplaceSchema_wrote.yields.bind fun _ => .pure fun _ hs => ⟨hs, rfl⟩

/-! ### Tables and views -/

omit [SQLWriter] in
/-- The objects in the rows of a partition or sort key. -/
def DuckLakePartitionInfo.newObjects (row : DuckLakePartitionInfo) : List NewObject :=
  row.gives.map (·.1)

omit [SQLWriter] in
def DuckLakeSortInfo.newObjects (row : DuckLakeSortInfo) : List NewObject := row.gives.map (·.1)

omit [SQLWriter] in
/-- The keys that are collected for a list of staged keys. -/
structure NewTableInfo.Keys (P S : List NewObject) (r : NewTableInfo) : Prop where
  partitions : r.newPartitionKeys.flatMap (·.newObjects) = P
  sorts : r.newSortKeys.flatMap (·.newObjects) = S

omit [SQLWriter] in
/-- The other rows do not matter. -/
theorem NewTableInfo.Keys.of_eq {P S : List NewObject} {r r' : NewTableInfo} (h : r.Keys P S)
    (hpartitions : r'.newPartitionKeys = r.newPartitionKeys)
    (hsorts : r'.newSortKeys = r.newSortKeys) : r'.Keys P S :=
  ⟨hpartitions ▸ h.partitions, hsorts ▸ h.sorts⟩

theorem getNewPartitionKey_wrote (address : EntryAddress) (table : DuckLakeTableEntry) :
    Yields (Wrote X) (getNewPartitionKey address table) fun key s =>
      Wrote X s ∧ key.newObjects = table.partitionObjects := by
  unfold getNewPartitionKey DuckLakeTableEntry.partitionObjects
  refine CommitInvariant.getTableId.yields.bind fun _ => CommitInvariant.ensure.yields.bind fun _ => ?_
  cases table.partitionData with
  | none => exact .pure fun s hs => ⟨hs, rfl⟩
  | some data =>
    exact nextCatalogId_wrote.yields.bind fun _ => store_wrote.yields.bind fun _ =>
      setPartitionId_wrote.yields.bind fun _ => .pure fun s hs => ⟨hs, rfl⟩

theorem getNewSortKey_wrote (address : EntryAddress) (table : DuckLakeTableEntry) :
    Yields (Wrote X) (getNewSortKey address table) fun key s =>
      Wrote X s ∧ key.newObjects = table.sortObjects := by
  unfold getNewSortKey DuckLakeTableEntry.sortObjects
  refine CommitInvariant.getTableId.yields.bind fun _ => CommitInvariant.ensure.yields.bind fun _ => ?_
  cases table.sortData with
  | none => exact .pure fun s hs => ⟨hs, rfl⟩
  | some data =>
    exact nextCatalogId_wrote.yields.bind fun _ => store_wrote.yields.bind fun _ =>
      .pure fun s hs => ⟨hs, rfl⟩

theorem partitionKeys_wrote (address : EntryAddress) (table : DuckLakeTableEntry) :
    Yields (Wrote X) (partitionKeys address table) fun keys s =>
      Wrote X s ∧ keys.flatMap (·.newObjects) = table.partitionObjects := by
  unfold partitionKeys
  split
  · refine (getNewPartitionKey_wrote address table).bind fun key => .pure fun s hs => ⟨hs.1, ?_⟩
    rw [List.flatMap_singleton, hs.2]
  · rename_i hnone
    refine .pure fun s hs => ⟨hs, ?_⟩
    rw [DuckLakeTableEntry.partitionObjects, Option.not_isSome_iff_eq_none.1 hnone]
    rfl

theorem sortKeys_wrote (address : EntryAddress) (table : DuckLakeTableEntry) :
    Yields (Wrote X) (sortKeys address table) fun keys s =>
      Wrote X s ∧ keys.flatMap (·.newObjects) = table.sortObjects := by
  unfold sortKeys
  split
  · refine (getNewSortKey_wrote address table).bind fun key => .pure fun s hs => ⟨hs.1, ?_⟩
    rw [List.flatMap_singleton, hs.2]
  · rename_i hnone
    refine .pure fun s hs => ⟨hs, ?_⟩
    rw [DuckLakeTableEntry.sortObjects, Option.not_isSome_iff_eq_none.1 hnone]
    rfl

/-- What a step of the walk over the versions of a table leaves behind: the keys of the version are
collected, and its change of a field is counted. -/
structure TableWalk.Stepped (table : DuckLakeTableEntry) (walk walk' : TableWalk) : Prop where
  alters : walk'.fieldAlterRemaining =
    match table.localChange.alteredField? with
    | some field =>
      Function.update walk.fieldAlterRemaining field (walk.fieldAlterRemaining field - 1)
    | none => walk.fieldAlterRemaining
  keys : ∀ {P S : List NewObject}, walk.result.Keys P S → walk'.result.Keys
    (P ++ table.newPartitionObjects)
    (S ++ table.newSortObjects walk'.fieldAlterRemaining)

omit [SQLWriter] in
/-- The change brings in no keys and defines no field again. -/
def LocalChange.leavesKeys : LocalChange → Bool
  | .setPartitionKey | .setSortKey | .created => false
  | .setNull _ | .dropNull _ | .renameColumn _ | .setDefault _ => false
  | _ => true

omit [SQLWriter] in
theorem TableWalk.Stepped.of_leavesKeys {table : DuckLakeTableEntry} {walk walk' : TableWalk}
    (hchange : table.localChange.leavesKeys = true)
    (halters : walk'.fieldAlterRemaining = walk.fieldAlterRemaining)
    (hpartitions : walk'.result.newPartitionKeys = walk.result.newPartitionKeys)
    (hsorts : walk'.result.newSortKeys = walk.result.newSortKeys) : Stepped table walk walk' := by
  have hnone : table.localChange.alteredField? = none ∧ table.newPartitionObjects = [] ∧
      table.newSortObjects walk'.fieldAlterRemaining = [] := by
    unfold DuckLakeTableEntry.newPartitionObjects DuckLakeTableEntry.newSortObjects
    cases h : table.localChange <;> simp_all [LocalChange.leavesKeys, LocalChange.alteredField?]
  obtain ⟨hfield, hpartition, hsort⟩ := hnone
  constructor
  · rw [halters, hfield]
  · intro P S h
    rw [hpartition, hsort, List.append_nil, List.append_nil]
    exact h.of_eq hpartitions hsorts

section Versions

variable {latest table : DuckLakeTableEntry}

theorem setTableComment_wrote (hchange : table.localChange = .setComment) (walk : TableWalk) :
    Yields (Wrote X) (setTableComment table walk) fun walk' s =>
      Wrote X s ∧ walk.Stepped table walk' := by
  have hleaves : table.localChange.leavesKeys = true := by rw [hchange]; rfl
  refine .ite (fun _ => .pure fun s hs => ⟨hs, .of_leavesKeys hleaves rfl rfl rfl⟩) fun _ => ?_
  exact CommitInvariant.getTableId.yields.bind fun _ => alterTable_wrote.yields.bind fun _ =>
    .pure fun s hs => ⟨hs, .of_leavesKeys hleaves rfl rfl rfl⟩

theorem setColumnComment_wrote {field : FieldIndex}
    (hchange : table.localChange = .setColumnComment field) (walk : TableWalk) :
    Yields (Wrote X) (setColumnComment table field walk) fun walk' s =>
      Wrote X s ∧ walk.Stepped table walk' := by
  have hleaves : table.localChange.leavesKeys = true := by rw [hchange]; rfl
  refine .ite (fun _ => .pure fun s hs => ⟨hs, .of_leavesKeys hleaves rfl rfl rfl⟩) fun _ => ?_
  exact CommitInvariant.getTableId.yields.bind fun _ => Keeps.ofExcept.yields.bind fun _ =>
    alterTable_wrote.yields.bind fun _ => .pure fun s hs => ⟨hs, .of_leavesKeys hleaves rfl rfl rfl⟩

omit [SQLWriter] in
/-- Columns are added and dropped apart from the keys. -/
def NewTableInfo.SameKeys (r r' : NewTableInfo) : Prop :=
  r'.newPartitionKeys = r.newPartitionKeys ∧ r'.newSortKeys = r.newSortKeys

omit [SQLWriter] in
theorem cancelOrDropField_sameKeys (tableId : TableIndex) (field : FieldIndex) (r : NewTableInfo)
    (added : TxnAddedFields) : r.SameKeys (cancelOrDropField tableId field r added).1 := by
  unfold cancelOrDropField
  split <;> exact ⟨rfl, rfl⟩

omit [SQLWriter] in
theorem foldl_sameKeys {α : Type}
    {f : NewTableInfo × TxnAddedFields → α → NewTableInfo × TxnAddedFields}
    (h : ∀ (acc : NewTableInfo × TxnAddedFields) (a : α), acc.1.SameKeys (f acc a).1) (l : List α)
    (acc : NewTableInfo × TxnAddedFields) : acc.1.SameKeys (l.foldl f acc).1 := by
  induction l generalizing acc with
  | nil => exact ⟨rfl, rfl⟩
  | cons a l ih =>
    rw [List.foldl_cons]
    exact ⟨(ih _).1.trans (h acc a).1, (ih _).2.trans (h acc a).2⟩

omit [SQLWriter] in
theorem handleChangedFields_sameKeys (tableId : TableIndex) (change : ColumnChangeInfo)
    (r : NewTableInfo) (added : TxnAddedFields) :
    r.SameKeys (handleChangedFields tableId change r added).1 := by
  have hdropped := foldl_sameKeys (fun acc field =>
    cancelOrDropField_sameKeys tableId field acc.1 acc.2) change.droppedFields (r, added)
  have hextended := foldl_sameKeys (f := fun acc new =>
    pushNewColumn ⟨tableId, new.1, new.2⟩ acc.1 acc.2) (fun _ _ => ⟨rfl, rfl⟩) change.newFields
    (change.droppedFields.foldl (fun acc field => cancelOrDropField tableId field acc.1 acc.2)
      (r, added))
  exact ⟨hextended.1.trans hdropped.1, hextended.2.trans hdropped.2⟩

theorem changeFields_wrote (hchange : table.localChange.leavesKeys = true) (walk : TableWalk) :
    Yields (Wrote X) (changeFields table walk) fun walk' s =>
      Wrote X s ∧ walk.Stepped table walk' := by
  refine CommitInvariant.getTableId.yields.bind fun id => alterSchemaVersion_wrote.yields.bind fun _ =>
    .pure fun s hs => ⟨hs, ?_⟩
  have hkeys := handleChangedFields_sameKeys id table.changedFields walk.result walk.txnAddedFields
  exact .of_leavesKeys hchange rfl hkeys.1 hkeys.2

theorem addColumn_wrote (hchange : table.localChange = .addColumn) (walk : TableWalk) :
    Yields (Wrote X) (addColumn table walk) fun walk' s =>
      Wrote X s ∧ walk.Stepped table walk' := by
  have hleaves : table.localChange.leavesKeys = true := by rw [hchange]; rfl
  exact CommitInvariant.getTableId.yields.bind fun _ => Keeps.ofExcept.yields.bind fun _ =>
    alterTable_wrote.yields.bind fun _ => alterSchemaVersion_wrote.yields.bind fun _ =>
    .pure fun s hs => ⟨hs, .of_leavesKeys hleaves rfl rfl rfl⟩

/-- A new definition of a field brings in the sort key when it is the last one and a new name. -/
theorem alterField_wrote {field : FieldIndex} (hchange : table.localChange.alteredField? = some field)
    (address : EntryAddress) (walk : TableWalk) :
    Yields (Wrote X) (alterField address table field walk) fun walk' s =>
      Wrote X s ∧ walk.Stepped table walk' := by
  have hpartition : table.newPartitionObjects = [] := by
    unfold DuckLakeTableEntry.newPartitionObjects
    cases h : table.localChange <;> simp_all [LocalChange.alteredField?]
  have hsort : ∀ left, table.newSortObjects left =
      if 0 < left field ∨ table.localChange ≠ .renameColumn field then []
      else table.sortObjects := by
    intro left
    unfold DuckLakeTableEntry.newSortObjects
    cases h : table.localChange <;> simp_all [LocalChange.alteredField?]
  unfold alterField
  dsimp only
  refine .ite (fun hlater => .pure fun s hs => ⟨hs, ?_⟩) fun hlast => ?_
  · refine ⟨by rw [hchange], fun h => ?_⟩
    rw [hpartition, hsort, if_pos (.inl (by simpa using hlater)), List.append_nil, List.append_nil]
    exact h.of_eq rfl rfl
  · refine CommitInvariant.getTableId.yields.bind fun id => Keeps.ofExcept.yields.bind fun info =>
      alterTable_wrote.yields.bind fun _ => alterSchemaVersion_wrote.yields.bind fun _ => ?_
    have hkeys : Yields (Wrote X) (renamedSortKeys address table
        (decide (table.localChange = .renameColumn field))) fun keys s => Wrote X s ∧
          keys.flatMap (·.newObjects) = if table.localChange = .renameColumn field then
            table.sortObjects else [] := by
      unfold renamedSortKeys
      split
      · rename_i hrenamed
        rw [if_pos (by simpa using hrenamed)]
        exact sortKeys_wrote address table
      · rename_i hrenamed
        rw [if_neg (by simpa using hrenamed)]
        exact .pure fun s hs => ⟨hs, rfl⟩
    refine hkeys.bind fun keys => .pull fun hkeys => .pure fun s hs => ⟨hs, ?_⟩
    have hsame := cancelOrDropField_sameKeys id field walk.result walk.txnAddedFields
    refine ⟨by rw [hchange], fun h => ⟨?_, ?_⟩⟩
    · rw [hpartition, List.append_nil, ← h.partitions]
      exact congrArg _ hsame.1
    · rw [hsort, List.flatMap_append, hkeys, ← h.sorts]
      have hleft : ¬ 0 < Function.update walk.fieldAlterRemaining field
          (walk.fieldAlterRemaining field - 1) field := by simpa using hlast
      simp only [hleft, false_or, ite_not, ne_eq]
      exact congrArg (· ++ _) (congrArg _ hsame.2)

theorem createdTableKeys_wrote (address : EntryAddress) (id : TableIndex) (created : Bool)
    (r : NewTableInfo) :
    Yields (Wrote X) (createdTableKeys address latest table id created r) fun r' s =>
      Wrote X s ∧ ∀ P S, r.Keys P S → r'.Keys
        (P ++ if created then table.partitionObjects else [])
        (S ++ if created then table.sortObjects else []) := by
  unfold createdTableKeys
  split
  · refine (partitionKeys_wrote address table).bind fun partitions => .pull fun hpartitions => ?_
    refine (sortKeys_wrote address table).bind fun sorts => .pull fun hsorts =>
      .pure fun s hs => ⟨hs, fun P S h => ⟨?_, ?_⟩⟩
    · rw [List.flatMap_append, h.partitions, hpartitions]
    · rw [List.flatMap_append, h.sorts, hsorts]
  · refine .pure fun s hs => ⟨hs, fun P S h => ?_⟩
    rw [List.append_nil, List.append_nil]
    exact h

/-- A row of its own is written for the version. -/
theorem emitNewTable_wrote (hchange : table.localChange.writesRow = true) (address : EntryAddress)
    (walk : TableWalk) :
    Yields (Wrote X) (emitNewTable address latest table walk) fun walk' s =>
      Wrote X s ∧ walk.Stepped table walk' := by
  have hkeys : table.localChange.alteredField? = none ∧
      table.newPartitionObjects =
        (if decide (table.localChange = .created) then table.partitionObjects else []) ∧
      ∀ left, table.newSortObjects left =
        if decide (table.localChange = .created) then table.sortObjects else [] := by
    unfold DuckLakeTableEntry.newPartitionObjects DuckLakeTableEntry.newSortObjects
    cases h : table.localChange <;> simp_all [LocalChange.writesRow, LocalChange.alteredField?]
  obtain ⟨hfield, hpartition, hsort⟩ := hkeys
  unfold emitNewTable
  refine allocateTableId_wrote.yields.bind fun newId => ?_
  refine .bind (CommitInvariant.getSchemaId.bind fun _ => .pure).yields fun newTable =>
    emplaceTable_wrote.yields.bind fun _ => ?_
  refine (createdTableKeys_wrote address newId.1 _ _).bind fun r => .pull fun hr =>
    .pure fun s hs => ⟨hs, ⟨by rw [hfield], fun h => ?_⟩⟩
  rw [hpartition, hsort]
  exact hr _ _ (h.of_eq rfl rfl)

theorem newTableRow_wrote (hchange : table.localChange.writesRow = true) (address : EntryAddress)
    (walk : TableWalk) :
    Yields (Wrote X) (newTableRow address latest table walk) fun walk' s =>
      Wrote X s ∧ walk.Stepped table walk' := by
  unfold newTableRow
  refine CommitInvariant.getCommitState.yields.bind fun state => ?_
  dsimp only
  split
  · rename_i hrenamed _
    refine .pure fun s hs => ⟨hs, .of_leavesKeys ?_ rfl rfl rfl⟩
    rw [hrenamed]
    rfl
  · exact emitNewTable_wrote hchange address walk

theorem newTableStep_wrote (walk : TableWalk) (version : DuckLakeTableEntry × EntryAddress) :
    Yields (Wrote X) (newTableStep latest walk version) fun walk' s =>
      Wrote X s ∧ walk.Stepped version.1 walk' := by
  obtain ⟨table, address⟩ := version
  unfold newTableStep
  dsimp only
  split <;> rename_i hchange
  · refine (getNewPartitionKey_wrote address table).bind fun key => .pull fun hkey => ?_
    refine alterTable_wrote.yields.bind fun _ => alterSchemaVersion_wrote.yields.bind fun _ =>
      .pure fun s hs => ⟨hs, ⟨by rw [hchange]; rfl, fun h => ⟨?_, ?_⟩⟩⟩
    · simp [h.partitions, hkey, DuckLakeTableEntry.newPartitionObjects, hchange]
    · simp [h.sorts, DuckLakeTableEntry.newSortObjects, hchange]
  · have hleaves : table.localChange.leavesKeys = true := by rw [hchange]; rfl
    refine .ite (fun _ => ?_) fun _ => .pure fun s hs => ⟨hs, .of_leavesKeys hleaves rfl rfl rfl⟩
    exact alterTable_wrote.yields.bind fun _ => alterSchemaVersion_wrote.yields.bind fun _ =>
      .pure fun s hs => ⟨hs, .of_leavesKeys hleaves rfl rfl rfl⟩
  · refine (getNewSortKey_wrote address table).bind fun key => .pull fun hkey => ?_
    refine alterTable_wrote.yields.bind fun _ =>
      .pure fun s hs => ⟨hs, ⟨by rw [hchange]; rfl, fun h => ⟨?_, ?_⟩⟩⟩
    · simp [h.partitions, DuckLakeTableEntry.newPartitionObjects, hchange]
    · simp [h.sorts, hkey, DuckLakeTableEntry.newSortObjects, hchange]
  · exact setTableComment_wrote hchange walk
  · exact setColumnComment_wrote hchange walk
  · exact alterField_wrote (by rw [hchange]; rfl) address walk
  · exact alterField_wrote (by rw [hchange]; rfl) address walk
  · exact alterField_wrote (by rw [hchange]; rfl) address walk
  · exact alterField_wrote (by rw [hchange]; rfl) address walk
  · exact changeFields_wrote (by rw [hchange]; rfl) walk
  · exact changeFields_wrote (by rw [hchange]; rfl) walk
  · exact addColumn_wrote hchange walk
  · exact newTableRow_wrote (by rw [hchange]; rfl) address walk
  · exact newTableRow_wrote (by rw [hchange]; rfl) address walk
  · exact newTableRow_wrote (by rw [hchange]; rfl) address walk
  · exact .throw

end Versions

omit [SQLWriter] in
/-- A version that is walked over is no longer counted. -/
theorem TableWalk.Stepped.alters_eq {table : DuckLakeTableEntry} {later : List DuckLakeTableEntry}
    {walk walk' : TableWalk} (h : Stepped table walk walk')
    (halters : walk.fieldAlterRemaining = DuckLakeTableEntry.alters (table :: later)) :
    walk'.fieldAlterRemaining = DuckLakeTableEntry.alters later := by
  rw [h.alters, halters]
  funext field
  cases hfield : table.localChange.alteredField? with
  | none => simp [DuckLakeTableEntry.alters, hfield]
  | some field' =>
    by_cases hsame : field = field'
    · subst hsame
      simp [DuckLakeTableEntry.alters, hfield]
    · simp [DuckLakeTableEntry.alters, hfield, hsame, Ne.symm hsame]

/-- The walk over the versions of a table collects the keys that they bring in. -/
theorem walk_wrote (latest : DuckLakeTableEntry)
    (versions : List (DuckLakeTableEntry × EntryAddress)) (walk : TableWalk)
    (halters : walk.fieldAlterRemaining = DuckLakeTableEntry.alters (versions.map (·.1))) :
    Yields (Wrote X) (versions.foldlM (newTableStep latest) walk) fun walk' s =>
      Wrote X s ∧ ∀ P S, walk.result.Keys P S → walk'.result.Keys
        (P ++ (versions.map (·.1)).flatMap (·.newPartitionObjects))
        (S ++ DuckLakeTableEntry.chainSortObjects (versions.map (·.1))) := by
  induction versions generalizing walk with
  | nil =>
    refine .pure fun s hs => ⟨hs, fun P S h => ?_⟩
    simpa [DuckLakeTableEntry.chainSortObjects] using h
  | cons version rest ih =>
    rw [List.foldlM_cons]
    refine (newTableStep_wrote walk version).bind fun walk' => .pull fun hstep => ?_
    have hleft := hstep.alters_eq halters
    refine (ih walk' hleft).mono (fun _ hs => hs) fun _ s hs => ⟨hs.1, fun P S h => ?_⟩
    have hkeys := hs.2 _ _ (hstep.keys h)
    rw [hleft] at hkeys
    simpa [DuckLakeTableEntry.chainSortObjects] using hkeys

theorem getNewTableInfo_wrote (schema entry : Nat) (tables : List DuckLakeTableEntry)
    (r : NewTableInfo) :
    Yields (Wrote X) (getNewTableInfo schema entry tables r) fun r' s =>
      Wrote X s ∧ ∀ P S, r.Keys P S → r'.Keys (P ++ (StagedEntry.table tables).partitionObjects)
        (S ++ (StagedEntry.table tables).sortObjects) := by
  cases tables with
  | nil =>
    refine .pure fun s hs => ⟨hs, fun P S h => ?_⟩
    simpa [StagedEntry.partitionObjects, StagedEntry.sortObjects,
      DuckLakeTableEntry.chainSortObjects] using h
  | cons latest older =>
    have hversions := map_fst_chainVersions schema entry (latest :: older)
    refine .bind (walk_wrote latest _ _ ?_) fun walk => .pull fun hwalk => ?_
    · rw [hversions]
      funext field
      exact (List.countP_reverse ..).symm
    rw [hversions] at hwalk
    unfold finishTable
    refine CommitInvariant.getTableId.yields.bind fun id => .pure fun s hs => ⟨hs, fun P S h => ?_⟩
    refine (hwalk P S h).of_eq ?_ ?_
    · split <;> split <;> rfl
    · split <;> split <;> rfl

/-! Views have no keys. -/

theorem setViewComment_wrote (view : DuckLakeViewEntry) (walk : ViewWalk) :
    Yields (Wrote X) (setViewComment view walk) fun walk' s =>
      Wrote X s ∧ walk.result.SameKeys walk'.result := by
  refine .ite (fun _ => .pure fun s hs => ⟨hs, rfl, rfl⟩) fun _ => ?_
  exact CommitInvariant.getTableId.yields.bind fun _ => alterView_wrote.yields.bind fun _ =>
    .pure fun s hs => ⟨hs, rfl, rfl⟩

theorem setViewColumnComment_wrote (view : DuckLakeViewEntry) (name : Text) (walk : ViewWalk) :
    Yields (Wrote X) (setViewColumnComment view name walk) fun walk' s =>
      Wrote X s ∧ walk.result.SameKeys walk'.result := by
  refine CommitInvariant.ensure.yields.bind fun _ => ?_
  refine .ite (fun _ => .pure fun s hs => ⟨hs, rfl, rfl⟩) fun _ => ?_
  exact CommitInvariant.getTableId.yields.bind fun _ => alterView_wrote.yields.bind fun _ =>
    .pure fun s hs => ⟨hs, rfl, rfl⟩

theorem newViewRow_wrote (view : DuckLakeViewEntry) (walk : ViewWalk) :
    Yields (Wrote X) (newViewRow view walk) fun walk' s =>
      Wrote X s ∧ walk.result.SameKeys walk'.result := by
  unfold newViewRow
  refine CommitInvariant.getCommitState.yields.bind fun state => ?_
  dsimp only
  split
  · exact .pure fun s hs => ⟨hs, rfl, rfl⟩
  · unfold emitNewView
    exact allocateTableId_wrote.yields.bind fun _ => CommitInvariant.getSchemaId.yields.bind fun _ =>
      emplaceTable_wrote.yields.bind fun _ => .pure fun s hs => ⟨hs, rfl, rfl⟩

theorem newViewStep_wrote (walk : ViewWalk) (view : DuckLakeViewEntry) :
    Yields (Wrote X) (newViewStep walk view) fun walk' s =>
      Wrote X s ∧ walk.result.SameKeys walk'.result := by
  unfold newViewStep
  split
  · exact setViewComment_wrote view walk
  · exact setViewColumnComment_wrote view _ walk
  · exact newViewRow_wrote view walk
  · exact newViewRow_wrote view walk
  · exact newViewRow_wrote view walk
  · exact .throw

theorem getNewViewInfo_wrote (views : List DuckLakeViewEntry) (r : NewTableInfo) :
    Yields (Wrote X) (getNewViewInfo views r) fun r' s => Wrote X s ∧ r.SameKeys r' := by
  unfold getNewViewInfo
  refine .bind (.mono (.foldlM (fun _ walk s => Wrote X s ∧ r.SameKeys walk.result) ?_)
    (fun s hs => ⟨hs, rfl, rfl⟩) fun _ _ hs => hs) fun walk => .pure fun s hs => hs
  intro done view rest walk _
  refine .pull fun hwalk => (newViewStep_wrote walk view).mono (fun _ hs => hs) fun _ s hs => ?_
  exact ⟨hs.1, hs.2.1.trans hwalk.1, hs.2.2.trans hwalk.2⟩

theorem getNewEntry_wrote (schema : Nat) (r : NewTableInfo) (entry : StagedEntry × Nat) :
    Yields (Wrote X) (getNewEntry schema r entry) fun r' s =>
      Wrote X s ∧ ∀ P S, r.Keys P S → r'.Keys (P ++ entry.1.partitionObjects)
        (S ++ entry.1.sortObjects) := by
  obtain ⟨chain | chain, index⟩ := entry
  · exact getNewTableInfo_wrote schema index chain r
  · refine (getNewViewInfo_wrote chain r).mono (fun _ hs => hs) fun r' s hs => ⟨hs.1, fun P S h => ?_⟩
    simpa [StagedEntry.partitionObjects, StagedEntry.sortObjects] using h.of_eq hs.2.1 hs.2.2

variable {T : StagedTransaction}

/-- All keys that the transaction has staged are collected. -/
theorem getNewTables_wrote :
    Yields (Wrote X) (getNewTables T) fun r s => Wrote X s ∧
      r.Keys (T.stagedEntries.flatMap (·.partitionObjects))
        (T.stagedEntries.flatMap (·.sortObjects)) := by
  have hentries : ∀ (schema : Nat) (entries : List StagedEntry) (r : NewTableInfo) {P S},
      r.Keys P S → Yields (Wrote X) (entries.zipIdx.foldlM (getNewEntry schema) r) fun r' s =>
        Wrote X s ∧ r'.Keys (P ++ entries.flatMap (·.partitionObjects))
          (S ++ entries.flatMap (·.sortObjects)) := by
    intro schema entries r P S h
    have hfst : entries = entries.zipIdx.map (·.1) := (List.zipIdx_map_fst 0 entries).symm
    refine (Yields.foldlM (fun (done : List (StagedEntry × Nat)) r' s => Wrote X s ∧
      r'.Keys (P ++ (done.map (·.1)).flatMap (·.partitionObjects))
        (S ++ (done.map (·.1)).flatMap (·.sortObjects))) ?_).mono
      (fun s hs => ⟨hs, by simpa using h⟩) fun r' s hs => by rwa [← hfst] at hs
    intro done entry rest r' _
    refine .pull fun hr => (getNewEntry_wrote schema r' entry).mono (fun _ hs => hs) fun r'' s hs => ?_
    refine ⟨hs.1, ?_⟩
    simpa using hs.2 _ _ hr
  have hfst : T.newTables = T.newTables.zipIdx.map (·.1) := (List.zipIdx_map_fst 0 _).symm
  unfold getNewTables
  refine (Yields.foldlM (fun (done : List ((SchemaIndex × List StagedEntry) × Nat)) r s =>
    Wrote X s ∧ r.Keys ((done.flatMap (·.1.2)).flatMap (·.partitionObjects))
      ((done.flatMap (·.1.2)).flatMap (·.sortObjects))) ?_).mono
    (fun s hs => ⟨hs, rfl, rfl⟩) fun r s hs => ?_
  · intro done schema rest r _
    refine .pull fun hr => (hentries schema.2 schema.1.2 r hr).mono (fun _ hs => hs) fun r' s hs => ?_
    simpa using hs
  · rw [StagedTransaction.stagedEntries, hfst, List.flatMap_map]
    exact hs

/-! ### The catalog -/

theorem writeDrops_wrote : Yields (Wrote X) (writeDrops T) fun _ => Wrote X := by
  unfold writeDrops
  refine (emitIf_nothing rfl).bind fun _ => (emitIf_nothing rfl).bind fun _ => ?_
  refine (emitIf_nothing rfl).bind fun _ => (emitIf_nothing rfl).bind fun _ => ?_
  refine (emitIf_nothing rfl).bind fun _ => (emitIf_nothing rfl).bind fun _ => ?_
  exact (emitIf_nothing rfl).bind fun _ => (emitIf_nothing rfl).bind fun _ => emitIf_nothing rfl

theorem writeNewSchemas_wrote (env : CommitEnvironment) :
    Yields (Wrote X) (writeNewSchemas env T) fun _ => Wrote
      (X ++ (T.newSchemas.mergeSort fun a b => a.depth ≤ b.depth).map (·.newObject)) := by
  unfold writeNewSchemas getNewSchemas
  refine (mapM_written (·.newObject) (.schema ·.name) fun schema _ =>
    (newSchema_wrote schema).mono (fun _ hs => hs) fun info s hs =>
      ⟨hs.1, congrArg NewObject.schema hs.2⟩).bind fun infos => .pull fun hinfos => ?_
  refine (emitRows_written infos _ hinfos ?_ fun hempty => ?_).bind fun _ => .pure fun s hs => hs
  · simp [Statement.newObjects, Statement.gives]
  · have hnone : infos = [] := by simpa using hempty
    rw [← hinfos, hnone]
    rfl

theorem writeTableRows_wrote (env : CommitEnvironment) (schemas : List DuckLakeSchemaInfo)
    {P S : List NewObject} {r : NewTableInfo} (h : r.Keys P S) :
    Yields (Wrote X) (writeTableRows env schemas r) fun _ => Wrote (X ++ P ++ S) := by
  have hpartitions : ∀ existing,
      (Statement.newPartitionKeys existing r.newPartitionKeys).newObjects = P := by
    intro existing
    rw [← h.partitions, Statement.newObjects, Statement.gives, List.map_flatMap]
    rfl
  have hsorts : ∀ existing, (Statement.newSortKeys existing r.newSortKeys).newObjects = S := by
    intro existing
    rw [← h.sorts, Statement.newObjects, Statement.gives, List.map_flatMap]
    rfl
  unfold writeTableRows
  refine mapM_path_written.bind fun rows => .pull fun _ => ?_
  refine (emit_nothing rfl).bind fun _ => (emit_nothing rfl).bind fun _ =>
    store_wrote.yields.bind fun _ => ?_
  refine CommitInvariant.getCommitSnapshot.yields.bind fun snapshot =>
    Keeps.ofExcept.yields.bind fun partitions => Keeps.ofExcept.yields.bind fun sorts => ?_
  refine ((emit_written (.newPartitionKeys partitions r.newPartitionKeys)).bind fun _ => ?_)
  rw [hpartitions]
  refine (emit_nothing rfl).bind fun _ => (emit_nothing rfl).bind fun _ => ?_
  refine (emit_nothing rfl).bind fun _ => (emit_nothing rfl).bind fun _ => ?_
  refine (emit_nothing rfl).bind fun _ => (emit_nothing rfl).bind fun _ => ?_
  refine (emit_nothing rfl).bind fun _ => Keeps.ofExcept.yields.bind fun inlined => ?_
  refine (emit_nothing rfl).bind fun _ =>
    ((emit_written (.newSortKeys sorts r.newSortKeys)).bind fun _ => ?_)
  rw [hsorts]
  exact emit_nothing rfl

theorem writeNewTables_wrote (env : CommitEnvironment) (schemas : List DuckLakeSchemaInfo) :
    Yields (Wrote X) (writeNewTables env T schemas) fun _ => Wrote
      (X ++ T.stagedEntries.flatMap (·.partitionObjects) ++
        T.stagedEntries.flatMap (·.sortObjects)) := by
  unfold writeNewTables
  split
  · rename_i hempty
    have hnone : T.stagedEntries = [] := by
      rw [StagedTransaction.stagedEntries, List.isEmpty_iff.1 hempty]
      rfl
    refine .pure fun s hs => ?_
    simpa [hnone] using hs
  · exact getNewTables_wrote.bind fun r => .pull fun hr =>
      (writeTableRows_wrote env schemas hr).bind fun _ => .pure fun s hs => hs

theorem writeNewMaterializedViews_wrote :
    Yields (Wrote X) (writeNewMaterializedViews T) fun _ => Wrote X := by
  unfold writeNewMaterializedViews
  refine .bind (Keeps.mapM (I := Wrote X) fun mv _ => ?_).yields fun _ => emitIf_nothing rfl
  refine .bind ?_ fun id => CommitInvariant.getCommitState.bind fun _ => .pure
  unfold newMaterializedViewId
  split
  · exact nextCatalogId_wrote.bind fun _ => emplaceTable_wrote.bind fun _ => .pure
  · exact CommitInvariant.getTableId

theorem writeMaterializedViewRefreshes_wrote :
    Yields (Wrote X) (writeMaterializedViewRefreshes T) fun _ => Wrote X := by
  unfold writeMaterializedViewRefreshes
  refine CommitInvariant.getCommitState.yields.bind fun state => ?_
  refine .bind (Keeps.forM (I := Wrote X) fun _ _ => store_wrote).yields fun _ => ?_
  exact (emitIf_nothing rfl).bind fun _ => emitIf_nothing rfl

theorem writeNewMacros_wrote :
    Yields (Wrote X) (writeNewMacros T) fun _ =>
      Wrote (X ++ T.stagedMacros.map (·.newObject)) := by
  unfold writeNewMacros
  refine (mapM_written (·.newObject)
    (fun info => .macroEntry info.macroName info.implementations) fun entry _ => ?_).bind
    fun infos => .pull fun hinfos => ?_
  · exact nextCatalogId_wrote.yields.bind fun _ => CommitInvariant.getSchemaId.yields.bind fun _ =>
      .pure fun s hs => ⟨hs, rfl⟩
  refine emitRows_written infos _ hinfos ?_ fun hempty => ?_
  · simp [Statement.newObjects, Statement.gives]
  · simp only [Bool.not_eq_false', Bool.and_eq_true, List.isEmpty_iff] at hempty
    simp [StagedTransaction.stagedMacros, hempty.1, hempty.2]

theorem writeNewProcedures_wrote :
    Yields (Wrote X) (writeNewProcedures T) fun _ =>
      Wrote (X ++ T.stagedProcedures.map (·.newObject)) := by
  unfold writeNewProcedures
  refine (mapM_written (·.newObject) (fun info => .procedure info.procedureName info.body)
    fun entry _ => ?_).bind fun infos => .pull fun hinfos => ?_
  · exact nextCatalogId_wrote.yields.bind fun _ => CommitInvariant.getSchemaId.yields.bind fun _ =>
      .pure fun s hs => ⟨hs, rfl⟩
  refine emitRows_written infos _ hinfos ?_ fun hempty => ?_
  · simp [Statement.newObjects, Statement.gives]
  · simp only [Bool.not_eq_false', List.isEmpty_iff] at hempty
    simp [StagedTransaction.stagedProcedures, hempty]

theorem writeNewNameMaps_wrote :
    Yields (Wrote X) (writeNewNameMaps T) fun _ =>
      Wrote (X ++ T.newNameMaps.map (·.2.newObject)) := by
  unfold writeNewNameMaps
  refine (mapM_written (·.2.newObject) (.nameMap ·.mapColumns) fun entry _ => ?_).bind
    fun infos => .pull fun hinfos => ?_
  · exact nextFileId_written.yields.bind fun _ => CommitInvariant.getTableId.yields.bind fun _ =>
      CommitInvariant.ensure.yields.bind fun _ => setMappingIndex_wrote.yields.bind fun _ =>
      .pure fun s hs => ⟨hs, rfl⟩
  refine emitRows_written infos _ hinfos ?_ fun hempty => ?_
  · simp [Statement.newObjects, Statement.gives]
  · have hnone : infos = [] := by simpa using hempty
    rw [← hinfos, hnone]
    rfl

/-! ### Files -/

omit [SQLWriter] in
/-- The tables have their ids, and `D` are the delete files on new data files. -/
def Deletes (table : TableIndex → TableIndex) (D : List (TableIndex × List DuckLakeDeleteFile))
    (state : DuckLakeCommitState) : Prop :=
  state.getTableId = table ∧ state.localDeleteFiles = D

variable {table : TableIndex → TableIndex} {D : List (TableIndex × List DuckLakeDeleteFile)}

theorem getTableId_written {id : TableIndex} :
    Yields (Written (Deletes table D) X) (getTableId id) fun t s =>
      Written (Deletes table D) X s ∧ t = table id := by
  intro s hs t s' hrun
  cases hrun
  exact ⟨hs, congrFun hs.state.1 id⟩

theorem getNewDataFile_written (file : DuckLakeDataFile) (tableId : TableIndex)
    (rowIdStart : Option Nat) :
    Yields (Written F X) (getNewDataFile file tableId rowIdStart) fun row s =>
      Written F X s ∧ row.fileName = file.fileName :=
  nextFileId_written.yields.bind fun _ => CommitInvariant.getCommitState.yields.bind fun _ =>
    CommitInvariant.ensure.yields.bind fun _ => .pure fun _ hs => ⟨hs, rfl⟩

theorem writeDataFiles_written (env : CommitEnvironment) (written : WrittenEntries)
    {rows : List DuckLakeFileInfo} {Y : List NewObject}
    (hrows : rows.map (.dataFile ·.fileName) = Y) :
    Yields (Written F X) (writeDataFiles env written rows) fun _ => Written F (X ++ Y) := by
  refine mapM_path_written.bind fun rows' => .pull fun hsame => ?_
  refine emitRows_written rows' (.dataFile ·.1.fileName) ?_ ?_ ?_
  · rw [← hrows, ← hsame, List.map_map]
    rfl
  · simp [Statement.newObjects, Statement.gives]
  · intro hempty
    have hnone : rows = [] := by simpa using hempty
    rw [← hrows, hnone]
    rfl

variable [StatsMerge]

omit [StatsMerge] in
theorem applyDroppedFileStats_written (tableId : TableIndex) (stats : DuckLakeTableStats) :
    Keeps (Written F X) (applyDroppedFileStats tableId stats) := by
  refine .bind .get fun s₀ => ?_
  cases s₀.droppedFileStats.lookup tableId with
  | none => exact .pure
  | some dropped =>
    exact .bind .ofExcept fun _ => .bind (.modify fun _ hs => ⟨hs.objects, hs.state⟩) fun _ => .pure

omit [StatsMerge] in
theorem writeTableStats_written (tableId : TableIndex) (stats : DuckLakeTableStats)
    (initialized clear : Bool) :
    Yields (Written F X) (writeTableStats tableId stats initialized clear) fun _ => Written F X :=
  (emit_nothing rfl).bind fun _ => emitIf_nothing rfl

/-- The files of a table, with their delete files. -/
theorem newDataFiles_written (tableId : TableIndex) (files : List DuckLakeDataFile)
    (stats : DuckLakeTableStats) :
    Yields (Written F X) (files.foldlM (newDataFileStep tableId) { stats := stats }) fun acc s =>
      Written F X s ∧ acc.files.map (.dataFile ·.fileName) = files.map (·.newObject) ∧
        acc.deleteFiles.map (·.newObject) = (files.flatMap (·.deleteFiles)).map (·.newObject) := by
  refine (Yields.foldlM (fun (done : List DuckLakeDataFile) acc s => Written F X s ∧
    acc.files.map (.dataFile ·.fileName) = done.map (·.newObject) ∧
    acc.deleteFiles.map (·.newObject) = (done.flatMap (·.deleteFiles)).map (·.newObject)) ?_).mono
    (fun s hs => ⟨hs, rfl, rfl⟩) fun _ _ hs => hs
  intro done file rest acc _
  refine .pull fun hacc => ?_
  refine (getNewDataFile_written file tableId _).bind fun row => .pure fun s hs => ⟨hs.1, ?_, ?_⟩
  · simp [hacc.1, hs.2, DuckLakeDataFile.newObject]
  · simp only [List.map_append, hacc.2, List.flatMap_append, List.flatMap_singleton, List.map_map]
    rfl

/-- What the data of one table adds. -/
theorem newTableData_written (env : CommitEnvironment) (acc : NewDataInfo)
    (entry : TableIndex × LocalTableDataChanges) :
    Yields (Written (Deletes table D) X) (newTableData env acc entry) fun acc' s =>
      IsCommitted (table entry.1) ∧
      acc'.newFiles.map (.dataFile ·.fileName) =
        acc.newFiles.map (.dataFile ·.fileName) ++ entry.2.newDataFiles.map (·.newObject) ∧
      ∃ D', Written (Deletes table D') X s ∧
        (D' = D ∧ entry.2.newDataFiles = [] ∨ ∃ files, D' = insertSorted (table entry.1) files D ∧
          files.map (·.newObject) =
            (entry.2.newDataFiles.flatMap (·.deleteFiles)).map (·.newObject)) := by
  unfold newTableData
  refine getTableId_written.bind fun t => .pull fun ht => ?_
  subst ht
  refine ensure_yields.bind fun _ => .pull fun hlocal => ?_
  have hcommitted : IsCommitted (table entry.1) := by simpa [IsCommitted] using hlocal
  refine .ite (fun hnone => ?_) fun _ => ?_
  · simp only [Bool.and_eq_true, List.isEmpty_iff] at hnone
    refine .pure fun _ hs => ⟨hcommitted, ?_, D, hs, .inl ⟨rfl, hnone.1⟩⟩
    simp [hnone.1]
  · refine Keeps.ofExcept.yields.bind fun current =>
      (applyDroppedFileStats_written _ _).yields.bind fun applied => ?_
    refine (newDataFiles_written (table entry.1) entry.2.newDataFiles applied.2).bind fun files =>
      .pull fun hfiles => ?_
    have hset : Yields (Written (Deletes table D) X)
        (setLocalDeleteFiles (table entry.1) files.deleteFiles) fun _ =>
        Written (Deletes table (insertSorted (table entry.1) files.deleteFiles D)) X :=
      .modify fun s hs => ⟨hs.objects, hs.state.1, congrArg _ hs.state.2⟩
    refine hset.bind fun _ => ?_
    have hinlined : ∀ stats, Keeps (Written (Deletes table
        (insertSorted (table entry.1) files.deleteFiles D)) X)
        (newInlinedRows (table entry.1) entry.2 stats) := by
      intro stats
      unfold newInlinedRows
      split
      · exact .pure
      · exact .bind (.ite (fun _ => .modify fun _ hs => ⟨hs.objects, hs.state⟩) fun _ => .pure)
          fun _ => .pure
    refine (hinlined _).yields.bind fun inlined => (writeTableStats_written _ _ _ _).bind fun _ =>
      .pure fun s hs => ⟨hcommitted, ?_, _, hs, .inr ⟨_, rfl, hfiles.2⟩⟩
    rw [List.map_append, hfiles.1]

omit [SQLWriter] [StatsMerge] in
/-- A new key of a sorted map is one more entry. -/
theorem insertSorted_perm {κ β : Type} [LinearOrder κ] {key : κ} (value : β) {l : List (κ × β)}
    (h : ∀ e ∈ l, e.1 ≠ key) : (insertSorted key value l).Perm ((key, value) :: l) := by
  induction l with
  | nil => exact .refl _
  | cons entry l ih =>
    unfold insertSorted
    split
    · exact .refl _
    · rw [if_neg (Ne.symm (h entry (.head _)))]
      exact ((ih fun e he => h e (.tail _ he)).cons entry).trans (.swap ..)

/-- Different tables of the transaction are written as different tables. -/
def DistinctTables (T : StagedTransaction) (table : TableIndex → TableIndex) : Prop :=
  ∀ a ∈ T.localChanges.changes, ∀ b ∈ T.localChanges.changes, IsCommitted (table a.1) →
    IsCommitted (table b.1) → table a.1 = table b.1 → a.1 = b.1

/-- All new data files are collected, and their delete files are kept for later. -/
theorem getNewDataFiles_written (env : CommitEnvironment) :
    Yields (Written (Deletes table []) X) (getNewDataFiles env T) fun data s =>
      data.newFiles.map (.dataFile ·.fileName) =
        (T.localChanges.changes.flatMap (·.2.newDataFiles)).map (·.newObject) ∧
      ∃ D, Written (Deletes table D) X s ∧ (DistinctTables T table →
        ((D.flatMap (·.2)).map (·.newObject)).Perm ((T.localChanges.changes.flatMap
          (·.2.newDataFiles.flatMap (·.deleteFiles))).map (·.newObject))) := by
  refine (Yields.foldlM (fun (done : List (TableIndex × LocalTableDataChanges)) data s =>
    data.newFiles.map (.dataFile ·.fileName) =
      (done.flatMap (·.2.newDataFiles)).map (·.newObject) ∧
    ∃ D, Written (Deletes table D) X s ∧
      (∀ e ∈ D, ∃ entry ∈ done, table entry.1 = e.1 ∧ IsCommitted e.1) ∧ (DistinctTables T table →
      ((D.flatMap (·.2)).map (·.newObject)).Perm
        ((done.flatMap (·.2.newDataFiles.flatMap (·.deleteFiles))).map (·.newObject)))) ?_).mono
    (fun s hs => ⟨rfl, [], hs, by simp, fun _ => .refl _⟩) fun data s hs => ?_
  · intro done entry rest data hsplit
    rintro s ⟨hfiles, D, hs, hkeys, hdeletes⟩ data' s' hrun
    obtain ⟨hcommitted, hfiles', D', hs', hD⟩ := newTableData_written env data entry s hs data' s' hrun
    refine ⟨by simp [hfiles', hfiles], D', hs', ?_⟩
    have hbefore : ∀ e ∈ D, ∃ other ∈ done ++ [entry], table other.1 = e.1 ∧ IsCommitted e.1 := by
      intro e he
      obtain ⟨other, hother, h⟩ := hkeys e he
      exact ⟨other, List.mem_append_left _ hother, h⟩
    rcases hD with ⟨rfl, hnone⟩ | ⟨files, rfl, hnew⟩
    · exact ⟨hbefore, by simpa [hnone] using hdeletes⟩
    · refine ⟨fun e he => ?_, fun hdistinct => ?_⟩
      · rcases mem_insertSorted he with rfl | he
        · exact ⟨entry, by simp, rfl, hcommitted⟩
        · exact hbefore e he
      -- the tables before this one have other ids
      have hfresh : ∀ e ∈ D, e.1 ≠ table entry.1 := by
        intro e he heq
        obtain ⟨other, hother, hid, hlocal⟩ := hkeys e he
        have hmem : other ∈ T.localChanges.changes := by
          rw [hsplit]
          exact List.mem_append_left _ hother
        have hsame := hdistinct other hmem entry (by simp [hsplit]) (hid ▸ hlocal) hcommitted
          (hid.trans heq)
        have hsorted := T.localChanges.sorted
        rw [hsplit, List.pairwise_append] at hsorted
        exact absurd hsame (ne_of_lt (hsorted.2.2 other hother entry (.head _)))
      refine (((insertSorted_perm files hfresh).flatMap_right (·.2)).map _).trans ?_
      rw [List.flatMap_cons, List.map_append, hnew, List.flatMap_append, List.flatMap_singleton,
        List.map_append]
      exact List.perm_append_comm.trans ((hdeletes hdistinct).append_right _)
  · obtain ⟨hfiles, D, hs, -, hdeletes⟩ := hs
    exact ⟨hfiles, D, hs, hdeletes⟩

theorem writeNewData_written (env : CommitEnvironment) (written : WrittenEntries) :
    Yields (Written (Deletes table []) X) (writeNewData env T written) fun _ s => ∃ D,
      Written (Deletes table D)
        (X ++ (T.localChanges.changes.flatMap (·.2.newDataFiles)).map (·.newObject)) s ∧
      (DistinctTables T table → ((D.flatMap (·.2)).map (·.newObject)).Perm
        ((T.localChanges.changes.flatMap (·.2.newDataFiles.flatMap (·.deleteFiles))).map
          (·.newObject))) := by
  unfold writeNewData
  refine (getNewDataFiles_written env).bind fun data => ?_
  rintro s ⟨hfiles, D, hs, hdeletes⟩
  refine Yields.bind (P := Written (Deletes table D) X) (writeDataFiles_written env written hfiles)
    (fun _ => ?_) s hs
  refine CommitInvariant.getCommitSnapshot.yields.bind fun _ => Keeps.ofExcept.yields.bind fun _ => ?_
  refine newSchemaVersions_written.yields.bind fun _ => ?_
  exact (emit_nothing rfl).mono (fun _ hs => hs) fun _ s hs => ⟨D, hs, hdeletes⟩

omit [StatsMerge] in
theorem writeDroppedFiles_written (env : CommitEnvironment) :
    Yields (Written F X) (writeDroppedFiles env T) fun _ => Written F X := by
  refine .ite (fun _ => ?_) fun _ => .pure fun _ hs => hs
  refine (emit_nothing rfl).bind fun _ =>
    .bind (.get (Q := fun _ => Written F X) fun s hs => hs) fun s₀ => ?_
  refine Yields.forM _ fun tableId _ => Keeps.ofExcept.yields.bind fun current => ?_
  cases current with
  | none => exact Keeps.ofExcept.yields
  | some stats =>
    exact (applyDroppedFileStats_written _ _).yields.bind fun _ => writeTableStats_written _ _ _ _

/-! ### Deletes -/

omit [StatsMerge] in
theorem getNewDeleteFile_written (tableId : TableIndex) (file : DuckLakeDeleteFile) :
    Yields (Written F X) (getNewDeleteFile tableId file) fun row s =>
      Written F X s ∧ row.path = file.fileName :=
  nextFileId_written.yields.bind fun _ => .pure fun _ hs => ⟨hs, rfl⟩

omit [StatsMerge] in
theorem mapM_getNewDeleteFile_written (tableId : TableIndex) (files : List DuckLakeDeleteFile) :
    Yields (Written F X) (files.mapM (getNewDeleteFile tableId)) fun rows s =>
      Written F X s ∧ rows.map (NewObject.deleteFile ·.path) = files.map (·.newObject) :=
  mapM_written (·.newObject) (.deleteFile ·.path) fun file _ =>
    (getNewDeleteFile_written tableId file).mono (fun _ hs => hs) fun _ _ hs =>
      ⟨hs.1, congrArg NewObject.deleteFile hs.2⟩

omit [StatsMerge] in
/-- A loop that collects the delete files of several tables. -/
theorem mapM_deletes_written {α : Type} {l : List α} {f : α → CommitM (List DuckLakeDeleteFileInfo)}
    (files : α → List DuckLakeDeleteFile)
    (h : ∀ a, Yields (Written F X) (f a) fun rows s =>
      Written F X s ∧ rows.map (NewObject.deleteFile ·.path) = (files a).map (·.newObject)) :
    Yields (Written F X) (l.mapM f) fun rows s => Written F X s ∧
      rows.flatten.map (NewObject.deleteFile ·.path) = (l.flatMap files).map (·.newObject) := by
  refine (Yields.mapM (fun (done : List α) rows s => Written F X s ∧
    rows.flatten.map (NewObject.deleteFile ·.path) = (done.flatMap files).map (·.newObject))
    ?_).mono (fun s hs => ⟨hs, rfl⟩) fun _ _ hs => hs
  intro done a rest rows _
  refine .pull fun hrows => (h a).mono (fun _ hs => hs) fun new s hs => ⟨hs.1, ?_⟩
  simp [hrows, hs.2]

omit [StatsMerge] in
theorem writeNewDeleteFiles_written (env : CommitEnvironment) (written : WrittenEntries) :
    Yields (Written (Deletes table D) X) (writeNewDeleteFiles env T written) fun _ =>
      Written (Deletes table D) (X ++ ((T.localChanges.changes.flatMap (·.2.deleteFiles)).map
        (·.newObject) ++ (D.flatMap (·.2)).map (·.newObject))) := by
  have hfiles : Yields (Written (Deletes table D) X) (getNewDeleteFiles T) fun rows s =>
      Written (Deletes table D) X s ∧ rows.map (NewObject.deleteFile ·.path) =
        (T.localChanges.changes.flatMap (·.2.deleteFiles)).map (·.newObject) ++
          (D.flatMap (·.2)).map (·.newObject) := by
    refine (mapM_deletes_written (fun entry : TableIndex × LocalTableDataChanges =>
      entry.2.deleteFiles) fun entry => CommitInvariant.getTableId.yields.bind fun t =>
        mapM_getNewDeleteFile_written t _).bind fun files => .pull fun hfiles => ?_
    refine .bind (Q := fun state s => Written (Deletes table D) X s ∧ state.localDeleteFiles = D)
      (fun s hs state s' hrun => ?_) fun state => .pull fun hstate => ?_
    · cases hrun
      exact ⟨hs, hs.state.2⟩
    · refine (mapM_deletes_written (fun entry : TableIndex × List DuckLakeDeleteFile => entry.2)
        fun entry => CommitInvariant.getTableId.yields.bind fun t =>
          CommitInvariant.ensure.yields.bind fun _ => mapM_getNewDeleteFile_written t _).bind
        fun localFiles => .pull fun hlocal => .pure fun s hs => ⟨hs, ?_⟩
      rw [List.map_append, hfiles, hlocal, hstate]
  unfold writeNewDeleteFiles
  refine hfiles.bind fun files => .pull fun hfiles => ?_
  dsimp only
  refine (emitIf_nothing rfl).bind fun _ => mapM_path_written.bind fun rows => .pull fun hrows => ?_
  refine emitRows_written rows (.deleteFile ·.1.path) ?_ ?_ fun hempty => ?_
  · rw [← hfiles, ← hrows, List.map_map]
    rfl
  · simp [Statement.newObjects, Statement.gives]
  · have hnone : files = [] := by simpa using hempty
    rw [← hfiles, hnone]
    rfl

omit [StatsMerge] in
theorem writeInlinedDeletes_written (env : CommitEnvironment) :
    Yields (Written F X) (writeInlinedDeletes env T) fun _ => Written F X := by
  refine .bind (Keeps.mapM (I := Written F X) fun _ _ => ?_).yields fun _ => ?_
  · exact CommitInvariant.getTableId.bind fun _ => .pure
  refine (emitIf_nothing rfl).bind fun _ =>
    .bind (Keeps.mapM (I := Written F X) fun _ _ => ?_).yields fun _ => ?_
  · exact CommitInvariant.getTableId.bind fun _ => .pure
  exact Keeps.ofExcept.yields.bind fun _ => emit_nothing rfl

/-! ### Compactions -/

omit [StatsMerge] in
theorem newCompaction_written (tableId : TableIndex) (result : CompactionInformation)
    (compaction : DuckLakeCompactionEntry) :
    Yields (Written F X) (newCompaction tableId result compaction) fun result' s => Written F X s ∧
      result'.newFiles.map (NewObject.dataFile ·.fileName) =
        result.newFiles.map (.dataFile ·.fileName) ++ compaction.writtenFiles.map (·.newObject) := by
  unfold newCompaction
  refine CommitInvariant.getCommitSnapshot.yields.bind fun snapshot => ?_
  have hfiles : ∀ bounds, Yields (Written F X)
      (compaction.writtenFiles.foldlM (newCompactionFile tableId compaction bounds) []) fun files s =>
      Written F X s ∧ files.map (NewObject.dataFile ·.fileName) =
        compaction.writtenFiles.map (·.newObject) := by
    intro bounds
    refine (Yields.foldlM (fun (done : List DuckLakeDataFile) files s => Written F X s ∧
      files.map (NewObject.dataFile ·.fileName) = done.map (·.newObject)) ?_).mono
      (fun s hs => ⟨hs, rfl⟩) fun _ _ hs => hs
    intro done file rest files _
    refine .pull fun hfiles => (getNewDataFile_written file tableId _).bind fun row =>
      .pure fun s hs => ⟨hs.1, ?_⟩
    simp [hfiles, hs.2, DuckLakeDataFile.newObject]
  refine (hfiles _).bind fun files => .pull fun hfiles => ?_
  refine CommitInvariant.ensure.yields.bind fun _ => CommitInvariant.ensure.yields.bind fun _ =>
    .pure fun s hs => ⟨hs, ?_⟩
  rw [List.map_append, hfiles]

omit [StatsMerge] in
theorem getCompactionChanges_written (type : CompactionType) :
    Yields (Written F X) (getCompactionChanges T type) fun result s => Written F X s ∧
      result.newFiles.map (NewObject.dataFile ·.fileName) =
        (T.localChanges.changes.flatMap (·.2.filesCompactedBy type)).map (·.newObject) := by
  unfold getCompactionChanges
  refine (Yields.foldlM (fun (done : List (TableIndex × LocalTableDataChanges)) result s =>
    Written F X s ∧ result.newFiles.map (NewObject.dataFile ·.fileName) =
      (done.flatMap (·.2.filesCompactedBy type)).map (·.newObject)) ?_).mono
    (fun s hs => ⟨hs, rfl⟩) fun _ _ hs => hs
  intro done entry rest result _
  refine .pull fun hresult => ?_
  refine (Yields.foldlM (fun (compactions : List DuckLakeCompactionEntry) result s =>
    Written F X s ∧ result.newFiles.map (NewObject.dataFile ·.fileName) =
      (done.flatMap (·.2.filesCompactedBy type)).map (·.newObject) ++
        (compactions.flatMap (·.writtenFiles)).map (·.newObject)) ?_).mono
    (fun s hs => ⟨hs, by simpa using hresult⟩) fun _ _ hs => ?_
  · intro compactions compaction rest result' _
    refine .pull fun hresult' => (newCompaction_written entry.1 result' compaction).mono
      (fun _ hs => hs) fun _ s hs => ⟨hs.1, ?_⟩
    simp [hs.2, hresult']
  · simpa [LocalTableDataChanges.filesCompactedBy] using hs

omit [StatsMerge] in
theorem writeCompactions_written (env : CommitEnvironment) (written : WrittenEntries) :
    Yields (Written F X) (writeCompactions env T written) fun _ => Written F
      (X ++ (T.localChanges.changes.flatMap (·.2.filesCompactedBy .mergeAdjacentTables)).map
          (·.newObject) ++
        (T.localChanges.changes.flatMap (·.2.filesCompactedBy .rewriteDeletes)).map (·.newObject)) := by
  unfold writeCompactions
  refine (getCompactionChanges_written .mergeAdjacentTables).bind fun merges => .pull fun hmerges => ?_
  refine (emitIf_nothing rfl).bind fun _ =>
    (writeDataFiles_written env written hmerges).bind fun _ => ?_
  refine (getCompactionChanges_written .rewriteDeletes).bind fun rewrites => .pull fun hrewrites => ?_
  refine (writeDataFiles_written env written hrewrites).bind fun _ =>
    (emitIf_nothing rfl).bind fun _ => ?_
  exact Yields.forM _ fun _ _ => Keeps.ofExcept.yields.bind fun _ => emit_nothing rfl

omit [SQLWriter] [StatsMerge] in
/-- Every compaction is of one of the two kinds. -/
theorem filesCompactedBy_perm (T : StagedTransaction) :
    (T.localChanges.changes.flatMap (·.2.filesCompactedBy .mergeAdjacentTables) ++
      T.localChanges.changes.flatMap (·.2.filesCompactedBy .rewriteDeletes)).Perm
      (T.localChanges.changes.flatMap (·.2.compactions.flatMap (·.writtenFiles))) := by
  refine (List.flatMap_append_perm T.localChanges.changes _ _).trans ?_
  refine List.Perm.flatMap_left _ fun entry _ => ?_
  have hkinds : (fun compaction : DuckLakeCompactionEntry =>
      decide (compaction.type = .rewriteDeletes)) =
      fun compaction => !decide (compaction.type = .mergeAdjacentTables) := by
    funext compaction
    cases compaction.type <;> rfl
  rw [LocalTableDataChanges.filesCompactedBy, LocalTableDataChanges.filesCompactedBy, hkinds,
    ← List.flatMap_append]
  exact (List.filter_append_perm _ _).flatMap_right _

/-! ### The batch -/

theorem writeTableChanges_written (env : CommitEnvironment) (written : WrittenEntries) :
    Yields (Written (Deletes table []) X) (writeTableChanges env T written) fun _ s =>
      ∃ D Y, Written (Deletes table D) (X ++ Y) s ∧ (DistinctTables T table →
        Y.Perm (T.stagedDataFiles.map (·.newObject) ++ T.stagedDeleteFiles.map (·.newObject))) := by
  unfold writeTableChanges
  dsimp only
  cases hnone : T.localChanges.changes.isEmpty with
  | true =>
    rw [List.isEmpty_iff] at hnone
    refine .bind (.pure fun s hs => hs) fun _ => (emit_nothing rfl).bind fun _ =>
      (writeDroppedFiles_written env).bind fun _ => .pure fun s hs => ⟨[], [], ?_, fun _ => ?_⟩
    · rwa [List.append_nil]
    · simp [StagedTransaction.stagedDataFiles, StagedTransaction.stagedDeleteFiles, hnone]
  | false =>
    refine .bind (writeNewData_written env written) fun _ => ?_
    rintro s ⟨D, hs, hdeletes⟩
    refine Yields.bind (P := Written (Deletes table D) _) (emit_nothing rfl) (fun _ => ?_) s hs
    refine (writeDroppedFiles_written env).bind fun _ => ?_
    refine (writeNewDeleteFiles_written env written).bind fun _ =>
      (writeInlinedDeletes_written env).bind fun _ => ?_
    refine (writeCompactions_written env written).mono (fun _ hs => hs) fun _ s hs => ?_
    simp only [List.append_assoc] at hs
    refine ⟨D, _, hs, fun hdistinct => ?_⟩
    have hcompacted := (filesCompactedBy_perm T).map (·.newObject)
    rw [List.map_append] at hcompacted
    simp only [StagedTransaction.stagedDataFiles, StagedTransaction.stagedDeleteFiles,
      List.map_append, List.append_assoc]
    refine List.Perm.append_left _ ?_
    rw [← List.append_assoc]
    refine List.perm_append_comm.trans (hcompacted.append ?_)
    exact (hdeletes hdistinct).append_left _

omit [StatsMerge] in
theorem insertNewSchema_written (written : WrittenEntries) :
    Yields (Written F X) (insertNewSchema written) fun _ => Written F X :=
  .bind (Keeps.get (I := Written F X)).yields fun _ => emitIf_nothing rfl

/-- The objects that a commit writes are those that the transaction has staged. -/
theorem commitBatch_written (env : CommitEnvironment) :
    Yields (Wrote []) (commitBatch env T) fun _ s => DistinctTables T s.commitState.getTableId →
      (s.batchQueries.flatMap (·.newObjects)).Perm T.newObjects := by
  have hinfo : Keeps (Wrote []) (ensureCommitInfoProvided T) := by
    unfold ensureCommitInfoProvided
    exact .ite (fun _ => .pure) fun _ => .throw
  have hchanges : Yields (Wrote []) (commitChanges env T) fun _ s => ∃ D Y,
      Written (Deletes s.commitState.getTableId D) Y s ∧
        (DistinctTables T s.commitState.getTableId → Y.Perm T.newObjects) := by
    unfold commitChanges
    refine store_wrote.yields.bind fun _ => hinfo.yields.bind fun _ => writeDrops_wrote.bind fun _ => ?_
    refine (writeNewSchemas_wrote env).bind fun schemas => (writeNewTables_wrote env schemas).bind
      fun written => ?_
    refine writeNewMaterializedViews_wrote.bind fun _ =>
      writeMaterializedViewRefreshes_wrote.bind fun _ => ?_
    refine writeNewMacros_wrote.bind fun _ => writeNewProcedures_wrote.bind fun _ => ?_
    refine writeNewNameMaps_wrote.bind fun _ => ?_
    intro s hs
    refine Yields.bind (P := Written (Deletes s.commitState.getTableId []) _)
      (writeTableChanges_written env written) (fun _ => ?_) s ⟨hs.objects, rfl, hs.state⟩
    rintro s' ⟨D, Y, hs', hperm⟩ a t hrun
    have ht := insertNewSchema_written written s' hs' a t hrun
    refine ⟨D, _, ⟨ht.objects, rfl, ht.state.2⟩, fun hdistinct => ?_⟩
    rw [ht.state.1] at hdistinct
    have hsorted := (T.newSchemas.mergeSort_perm fun a b => a.depth ≤ b.depth).map (·.newObject)
    rw [StagedTransaction.newObjects, List.append_assoc _ (T.stagedDataFiles.map _)]
    refine List.Perm.append ?_ (hperm hdistinct)
    exact ((((hsorted.append_right _).append_right _).append_right _).append_right _).append_right _
  unfold commitBatch
  refine (emit_nothing rfl).bind fun _ => hchanges.bind fun _ => ?_
  rintro s ⟨D, Y, hs, hperm⟩
  refine Yields.bind (P := Written (Deletes s.commitState.getTableId D) Y)
    (Keeps.get (I := Written (Deletes s.commitState.getTableId D) Y)).yields (fun s₀ => ?_) s hs
  refine Keeps.ofExcept.yields.bind fun made => (emit_nothing rfl).mono (fun _ hs => hs)
    fun _ t ht hdistinct => ?_
  rw [ht.state.1] at hdistinct
  rw [ht.objects]
  exact hperm hdistinct

end Stages

end DuckLake
