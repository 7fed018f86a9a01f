import Mathlib.Data.List.Dedup
import DuckLake.Lib.Attempt
import DuckLake.Storage.NameMapSets

/-!
# The name maps that a catalog holds

A catalog keeps the name maps that it has loaded. It asks the metadata only for those from a certain
id on, so that what it holds depends on the snapshots of the transactions that came before, also on
those that read an old one. A transaction that registers a file uses a name map again if a compatible
one is known, and the files are read through the name map that their id stands for.
-/

namespace DuckLake

open RoseTree Attempt DuckLakeNameMap

/-- The name maps that a catalog has loaded, and those that a transaction on it has added. -/
structure NameMapSession where
  nameMaps : DuckLakeNameMapSet := {}
  loadedNameMapIndex : Option ℕ := none
  newNameMaps : DuckLakeNameMapSet := {}
  localCatalogId : ℕ := transactionLocalIdStart.toNat

section

variable [NameMapHash]

def addConverted (columnMapping : DuckLakeColumnMappingInfo) :
    Attempt NameMapSession Exception Unit := do
  let nameMap ← MonadExcept.ofExcept (convertNameMap columnMapping)
  modify fun s => { s with nameMaps := s.nameMaps.add nameMap }

variable (nextFileId : ℕ) (query : Option ℕ → List NameMappingRow)

/-- `LoadNameMaps` for a snapshot with its next file id. The query of `GetColumnMappings` has an
answer for every id that it may start from. -/
def loadNameMaps : Attempt NameMapSession Exception Unit := do
  let s ← get
  -- all name maps that could be relevant for this snapshot have been loaded
  if s.loadedNameMapIndex.any fun loaded => nextFileId ≤ loaded then pure ()
  else do
    (getColumnMappings (query s.loadedNameMapIndex)).forM addConverted
    modify fun s => { s with loadedNameMapIndex := some nextFileId }

def tryGetMappingById (mappingId : MappingIndex) :
    Attempt NameMapSession Exception (Option DuckLakeNameMap) := do
  let s ← get
  match s.nameMaps.nameMaps.lookup mappingId with
  | some map => return some map
  | none => do
    loadNameMaps nextFileId query
    let s ← get
    return s.nameMaps.nameMaps.lookup mappingId

/-- `TryGetCompatibleNameMap` of the catalog. -/
def tryGetCompatibleNameMap (nameMap : DuckLakeNameMap) :
    Attempt NameMapSession Exception (Option MappingIndex) := do
  loadNameMaps nextFileId query
  let s ← get
  return s.nameMaps.tryGetCompatibleNameMap nameMap

/-- The name map of the transaction that is used again, or a new one. -/
def addLocalNameMap (nameMap : DuckLakeNameMap) : Attempt NameMapSession Exception MappingIndex :=
  modifyGet fun s =>
    match s.newNameMaps.tryGetCompatibleNameMap nameMap with
    | some mappingId => (mappingId, s)
    | none => (s.localCatalogId, { s with
        localCatalogId := s.localCatalogId + 1
        newNameMaps := s.newNameMaps.add (s.localCatalogId, nameMap) })

/-- `AddNameMap` of a transaction. -/
def addNameMap (nameMap : DuckLakeNameMap) : Attempt NameMapSession Exception MappingIndex := do
  match ← tryGetCompatibleNameMap nextFileId query nameMap with
  | some mappingId => return mappingId
  | none => addLocalNameMap nameMap

/-- `GetMappingById` of a transaction. -/
def getMappingById (mappingId : MappingIndex) :
    Attempt NameMapSession Exception DuckLakeNameMap := do
  let s ← get
  match s.newNameMaps.nameMaps.lookup mappingId with
  | some map => return map
  | none => do
    match ← tryGetMappingById nextFileId query mappingId with
    | some map => return map
    | none => throw ⟨.invalidInput, "Unknown name map id ".toList ++ Text.ofNat mappingId ++
        " when trying to map file".toList⟩

end

/-! ## The metadata and a session -/

/-- The name maps in the metadata and in a session. All name maps that were ever written are
remembered, those whose rows are still there, and the tables that were deleted. The files that the
transaction has registered, and those that are committed, stand here as the id of their name map and
the map that they were registered with. -/
structure NameMapLake where
  tables : ColumnMappingTables := {}
  nextFileId : ℕ := 0
  session : NameMapSession := {}
  history : List (MappingIndex × DuckLakeNameMap) := []
  written : List (MappingIndex × DuckLakeNameMap) := []
  deletedTables : List TableIndex := []
  newFiles : List (MappingIndex × DuckLakeNameMap) := []
  files : List (MappingIndex × DuckLakeNameMap) := []

/-- The table is not one of the deleted ones. -/
def keepsTable (deleted : List TableIndex) (tableId : TableIndex) : Bool :=
  !deleted.contains tableId

theorem keepsTable_iff {deleted : List TableIndex} {tableId : TableIndex} :
    keepsTable deleted tableId = true ↔ tableId ∉ deleted := by
  rw [keepsTable, Bool.not_eq_true', ← Bool.not_eq_true, List.contains_iff_mem]

/-- The rows of deleted tables go, and then the rows of name maps that are gone. -/
def ColumnMappingTables.deleteTables (tables : ColumnMappingTables) (deleted : List TableIndex) :
    ColumnMappingTables :=
  let columnMapping := tables.columnMapping.filter fun m => keepsTable deleted m.2.1
  { columnMapping := columnMapping
    nameMapping := tables.nameMapping.filter fun e => e.1 ∈ columnMapping.map (·.1) }

/-- The ids of the rows that lose their name map. -/
def ColumnMappingTables.deletedMappings (tables : ColumnMappingTables)
    (deleted : List TableIndex) : List MappingIndex :=
  let columnMapping := tables.columnMapping.filter fun m => keepsTable deleted m.2.1
  ((tables.nameMapping.map (·.1)).filter fun id => id ∉ columnMapping.map (·.1)).dedup

/-- The answers of the metadata, each in some order that the query allows. -/
def ColumnMappingTables.Answers (tables : ColumnMappingTables)
    (query : Option ℕ → List NameMappingRow) : Prop :=
  ∀ startFrom, tables.Selects startFrom (query startFrom)

/-- The ids and tables that a commit gives to what is local to the transaction. -/
structure NameMapIds where
  mappingId : MappingIndex → MappingIndex
  tableId : TableIndex → TableIndex

def NameMapIds.map (ids : NameMapIds) (map : DuckLakeNameMap) : DuckLakeNameMap :=
  { map with tableId := ids.tableId map.tableId }

/-- Adds name maps to the metadata. -/
def NameMapLake.write (σ : NameMapLake) (new : List (MappingIndex × DuckLakeNameMap)) (next : ℕ) :
    NameMapLake :=
  { σ with
    tables := writeNewColumnMappings σ.tables (new.map columnMappingInfo)
    nextFileId := next
    history := σ.history ++ new
    written := σ.written ++ new }

/-- The name maps that a commit writes have ids of their own, and their tables are committed. -/
structure NameMapLake.MayWrite (σ : NameMapLake) (new : List (MappingIndex × DuckLakeNameMap))
    (next : ℕ) : Prop where
  le : σ.nextFileId ≤ next
  room : next ≤ transactionLocalIdStart.toNat
  ids : ∀ e ∈ new, σ.nextFileId ≤ e.1 ∧ e.1 < next
  nodup : (new.map (·.1)).Nodup
  distinct : ∀ e ∈ new, DistinctColumns e.2.columnMaps
  tables : ∀ e ∈ new, isTransactionLocal e.2.tableId = false
  -- an `INSERT` without rows fails
  rows : new = [] ∨ ∃ e ∈ new, e.2.columnMaps ≠ []

namespace NameMapLake

/-- The transaction ends. -/
def reset (σ : NameMapLake) : NameMapLake :=
  { σ with session.newNameMaps := {}, newFiles := [] }

/-- The name maps that the transaction writes, under their new ids. -/
def newNameMaps (σ : NameMapLake) (ids : NameMapIds) : List (MappingIndex × DuckLakeNameMap) :=
  σ.session.newNameMaps.nameMaps.map fun e => (ids.mappingId e.1, ids.map e.2)

/-- The files of the transaction, with the ids of name maps that were local replaced. -/
def committedFiles (σ : NameMapLake) (ids : NameMapIds) : List (MappingIndex × DuckLakeNameMap) :=
  σ.newFiles.map fun f =>
    (if f.1 ∈ σ.session.newNameMaps.nameMaps.map (·.1) then ids.mappingId f.1 else f.1, ids.map f.2)

/-- Commits the transaction. -/
def commit (σ : NameMapLake) (ids : NameMapIds) (next : ℕ) : NameMapLake :=
  { (σ.write (σ.newNameMaps ids) next).reset with files := σ.files ++ σ.committedFiles ids }

variable [NameMapHash]

/-- Registers a file with its name map. -/
def register (σ : NameMapLake) (nextFileId : ℕ) (query : Option ℕ → List NameMappingRow)
    (nameMap : DuckLakeNameMap) : NameMapLake :=
  let (mappingId, session) := run (addNameMap nextFileId query nameMap) σ.session
  { σ with
    session := session
    newFiles := σ.newFiles ++ mappingId.toOption.toList.map fun id => (id, nameMap) }

/-- Tables that no snapshot has any more are deleted by another catalog. -/
def expireElsewhere (σ : NameMapLake) (deleted : List TableIndex) : NameMapLake :=
  { σ with
    tables := σ.tables.deleteTables deleted
    written := σ.written.filter fun e => keepsTable deleted e.2.tableId
    deletedTables := σ.deletedTables ++ deleted }

/-- They are deleted by this catalog, which forgets their name maps. -/
def expire (σ : NameMapLake) (deleted : List TableIndex) : NameMapLake :=
  { σ.expireElsewhere deleted with
    session.nameMaps := (σ.tables.deletedMappings deleted).foldl (·.remove) σ.session.nameMaps }

/-- The steps of the metadata and of one session. Other processes commit and delete as well, and
other transactions of the same catalog load. -/
inductive Step : NameMapLake → NameMapLake → Prop
  /-- Another transaction commits its name maps. -/
  | commitElsewhere {σ : NameMapLake} {new : List (MappingIndex × DuckLakeNameMap)} {next : ℕ}
      (h : σ.MayWrite new next) : Step σ (σ.write new next)
  /-- The transaction commits; the tables of its files have not been dropped. -/
  | commit {σ : NameMapLake} {ids : NameMapIds} {next : ℕ}
      (htableId : ∀ id, isTransactionLocal id = false → ids.tableId id = id)
      (hexists : ∀ f ∈ σ.newFiles, f.2.tableId ∉ σ.deletedTables)
      (h : σ.MayWrite (σ.newNameMaps ids) next) :
      Step σ (σ.commit ids next)
  | rollback {σ : NameMapLake} : Step σ σ.reset
  /-- The transaction registers a file; its snapshot may be an old one. -/
  | register {σ : NameMapLake} {nextFileId : ℕ} {query : Option ℕ → List NameMappingRow}
      {nameMap : DuckLakeNameMap} (hle : nextFileId ≤ σ.nextFileId)
      (hquery : σ.tables.Answers query) (hdistinct : DistinctColumns nameMap.columnMaps) :
      Step σ (σ.register nextFileId query nameMap)
  /-- A transaction looks for a name map. -/
  | load {σ : NameMapLake} {nextFileId : ℕ} {query : Option ℕ → List NameMappingRow}
      (hle : nextFileId ≤ σ.nextFileId) (hquery : σ.tables.Answers query) :
      Step σ { σ with session := (run (loadNameMaps nextFileId query) σ.session).2 }
  | expire {σ : NameMapLake} (deleted : List TableIndex) : Step σ (σ.expire deleted)
  | expireElsewhere {σ : NameMapLake} (deleted : List TableIndex) : Step σ (σ.expireElsewhere deleted)

inductive Reachable : NameMapLake → Prop
  | start : Reachable {}
  | step {σ σ' : NameMapLake} : Reachable σ → Step σ σ' → Reachable σ'

end NameMapLake

/-! ## Deleting tables -/

namespace ColumnMappingTables

variable {tables : ColumnMappingTables} {written : List (MappingIndex × DuckLakeNameMap)}

theorem Holds.filter_columnMapping (h : tables.Holds written) (deleted : List TableIndex) :
    tables.columnMapping.filter (fun m => keepsTable deleted m.2.1) =
      (written.filter fun e => keepsTable deleted e.2.tableId).map fun e =>
        (e.1, e.2.tableId, "map_by_name".toList) := by
  rw [h.columnMapping, List.filter_map]
  rfl

theorem Holds.mem_remaining (h : tables.Holds written) (deleted : List TableIndex)
    {e : MappingIndex × DuckLakeNameMap} (he : e ∈ written) :
    e.1 ∈ (tables.columnMapping.filter fun m => keepsTable deleted m.2.1).map (·.1) ↔
      e.2.tableId ∉ deleted := by
  rw [h.filter_columnMapping, List.map_map]
  constructor
  · intro hmem
    obtain ⟨e', he', hid⟩ := List.mem_map.1 hmem
    obtain ⟨he', hkept⟩ := List.mem_filter.1 he'
    obtain rfl := List.inj_on_of_nodup_map h.nodup he' he hid
    exact keepsTable_iff.1 hkept
  · intro hkept
    exact List.mem_map.2 ⟨e, List.mem_filter.2 ⟨he, keepsTable_iff.2 hkept⟩, rfl⟩

/-- The rows of some groups, where a row shows whether its group is one of them. -/
theorem filter_flatMap_of_forall {α β : Type} {l : List α} {f : α → List β} {p : α → Bool}
    {q : β → Bool} (h : ∀ a ∈ l, ∀ b ∈ f a, q b = p a) :
    (l.flatMap f).filter q = (l.filter p).flatMap f := by
  induction l with
  | nil => rfl
  | cons a l ih =>
    have ha := h a (List.mem_cons_self ..)
    rw [List.flatMap_cons, List.filter_append, ih fun b hb => h b (List.mem_cons_of_mem _ hb),
      List.filter_cons]
    cases hp : p a with
    | true =>
      rw [List.filter_eq_self.2 fun b hb => (ha b hb).trans hp, if_pos rfl, List.flatMap_cons]
    | false =>
      rw [List.filter_eq_nil_iff.2 fun b hb => by rw [ha b hb, hp]; exact Bool.false_ne_true,
        if_neg Bool.false_ne_true, List.nil_append]

theorem Holds.deleteTables (h : tables.Holds written) (deleted : List TableIndex) :
    (tables.deleteTables deleted).Holds (written.filter fun e => keepsTable deleted e.2.tableId) := by
  refine ⟨h.filter_columnMapping deleted, ?_, h.nodup.sublist (List.filter_sublist.map _)⟩
  rw [ColumnMappingTables.deleteTables]
  dsimp only
  rw [h.nameMapping]
  refine filter_flatMap_of_forall fun e he row hrow => ?_
  obtain ⟨column, -, rfl⟩ := List.mem_map.1 hrow
  exact Bool.eq_iff_iff.2
    ((decide_eq_true_iff.trans (h.mem_remaining deleted he)).trans keepsTable_iff.symm)

/-- The ids whose rows lose their name map are those of the deleted tables. -/
theorem Holds.mem_deletedMappings (h : tables.Holds written) {deleted : List TableIndex}
    {id : MappingIndex} :
    id ∈ tables.deletedMappings deleted ↔
      ∃ e ∈ written, e.1 = id ∧ e.2.tableId ∈ deleted ∧ e.2.columnMaps ≠ [] := by
  rw [deletedMappings, List.mem_dedup, List.mem_filter, h.nameMapping, List.map_flatMap,
    List.mem_flatMap]
  constructor
  · rintro ⟨⟨e, he, hid⟩, hgone⟩
    rw [List.map_map] at hid
    obtain ⟨column, hcolumn, rfl⟩ := List.mem_map.1 hid
    refine ⟨e, he, rfl, ?_, ?_⟩
    · by_contra hkept
      exact of_decide_eq_true hgone ((h.mem_remaining deleted he).2 hkept)
    · intro hnil
      rw [hnil] at hcolumn
      cases hcolumn
  · rintro ⟨e, he, rfl, hdeleted, hne⟩
    obtain ⟨column, hcolumn⟩ := List.exists_mem_of_ne_nil _ (convertNameMapColumns_ne_nil hne)
    refine ⟨⟨e, he, ?_⟩, decide_eq_true fun hmem => (h.mem_remaining deleted he).1 hmem hdeleted⟩
    rw [List.map_map]
    exact List.mem_map.2 ⟨column, hcolumn, rfl⟩

end ColumnMappingTables

namespace DuckLakeNameMapSet

variable [NameMapHash] {s : DuckLakeNameMapSet}
  {history written : List (MappingIndex × DuckLakeNameMap)}

/-- The maps of the deleted tables go, all those that are compatible at once. -/
theorem Represents.expire (h : s.Represents history written) {tables : ColumnMappingTables}
    (htables : tables.Holds written) (hids : (history.map (·.1)).Nodup) (hsub : written ⊆ history)
    (deleted : List TableIndex) :
    ((tables.deletedMappings deleted).foldl (·.remove) s).Represents history
      (written.filter fun e => keepsTable deleted e.2.tableId) := by
  have helsewhere := h.expireElsewhere hids hsub (keepsTable deleted)
  rw [h.toWellFormed.foldl_remove_eq]
  refine ⟨h.toWellFormed.filter fun id => id ∉ tables.deletedMappings deleted,
    fun e he => h.known e (List.mem_of_mem_filter he), fun e he => ?_⟩
  obtain ⟨he, hkept⟩ := List.mem_filter.1 he
  obtain ⟨c, hc, hsame, hlive⟩ := h.represented e he
  obtain ⟨c', hc', hsame', hlive'⟩ := helsewhere.represented e he
  obtain rfl : c = c' := h.toWellFormed.eq_of_same hc hc' (sameElement_iff.2
    ⟨h.distinct c (h.owned hc),
      (sameElement_iff.1 hsame).2.symm.trans (sameElement_iff.1 hsame').2⟩)
  refine ⟨c, List.mem_filter.2 ⟨hc, decide_eq_true ?_⟩, hsame, hlive'⟩
  -- the map that stands for this one is not deleted either
  intro hgone
  obtain ⟨w, hw, hwc, hdeleted, hne⟩ := htables.mem_deletedMappings.1 hgone
  obtain ⟨w', hw', hwe⟩ := List.mem_map.1 (hlive (List.mem_map.2 ⟨w, hw, hwc⟩))
  obtain ⟨e', he', hid, hpaths, -⟩ := h.known e he
  obtain ⟨c', hc', hid', hpaths', -⟩ := h.known c (h.owned hc)
  obtain rfl := List.inj_on_of_nodup_map hids he' (hsub hw') (hid.trans hwe.symm)
  obtain rfl := List.inj_on_of_nodup_map hids hc' (hsub hw) (hid'.trans hwc.symm)
  have hboth := hpaths.trans ((sameElement_iff.1 hsame).2.trans hpaths'.symm)
  refine of_decide_eq_true hkept (htables.mem_deletedMappings.2 ⟨e', hw', hwe, ?_, ?_⟩)
  · rwa [hboth.tableId]
  · exact hboth.symm.ne_nil hne

end DuckLakeNameMapSet

/-! ## Loading -/

section Load

variable [NameMapHash] {tables : ColumnMappingTables}
  {history written : List (MappingIndex × DuckLakeNameMap)} {session : NameMapSession}

/-- The mappings that are read are added one by one. -/
theorem forM_addConverted (hids : (history.map (·.1)).Nodup) (hsub : written ⊆ history)
    (hdistinct : ∀ e ∈ history, DistinctColumns e.2.columnMaps)
    {columnMappings : List DuckLakeColumnMappingInfo}
    (hread : ∀ m ∈ columnMappings, ∃ entry ∈ written, m.mappingId = entry.1 ∧
      entry.2.columnMaps ≠ [] ∧
      ∃ loaded, convertNameMap m = .ok (entry.1, loaded) ∧ entry.2.SamePaths loaded)
    (h : session.nameMaps.Represents history written) :
    ∃ s : DuckLakeNameMapSet,
      run (columnMappings.forM addConverted) session = (.ok (), { session with nameMaps := s }) ∧
      s.Represents history written ∧ session.nameMaps.nameMaps ⊆ s.nameMaps ∧
      ∀ m ∈ columnMappings, m.mappingId ∈ s.nameMaps.map (·.1) := by
  induction columnMappings generalizing session with
  | nil => exact ⟨session.nameMaps, rfl, h, fun _ he => he, nofun⟩
  | cons m columnMappings ih =>
    obtain ⟨entry, hentry, hid, hne, loaded, hconvert, hpaths⟩ := hread m (List.mem_cons_self ..)
    obtain ⟨hadd, hmem, hkeeps⟩ := h.add hids (hsub hentry) (List.mem_map.2 ⟨entry, hentry, rfl⟩)
      (hdistinct entry (hsub hentry)) hne hpaths
    obtain ⟨s, hrun, hs, hsubset, hall⟩ := @ih
      { session with nameMaps := session.nameMaps.add (entry.1, loaded) }
      (fun m' hm' => hread m' (List.mem_cons_of_mem _ hm')) hadd
    refine ⟨s, ?_, hs, fun e he => hsubset (hkeeps he), ?_⟩
    · change run (addConverted m >>= fun _ => columnMappings.forM addConverted) session = _
      rw [run_bind, addConverted, run_bind, hconvert, run_ofExcept]
      exact hrun
    · intro m' hm'
      rcases List.mem_cons.1 hm' with rfl | hm'
      · rw [hid]
        exact List.map_subset _ hsubset hmem
      · exact hall m' hm'

end Load

/-! ## Runs -/

namespace NameMapLake

variable [NameMapHash]

/-- What holds of the name maps after every run. -/
structure Invariant (σ : NameMapLake) : Prop where
  tables : σ.tables.Holds σ.written
  written : σ.written ⊆ σ.history
  nodup : (σ.history.map (·.1)).Nodup
  ids_lt : ∀ e ∈ σ.history, e.1 < σ.nextFileId
  room : σ.nextFileId ≤ transactionLocalIdStart.toNat
  distinct : ∀ e ∈ σ.history, DistinctColumns e.2.columnMaps
  tables_committed : ∀ e ∈ σ.history, isTransactionLocal e.2.tableId = false
  kept : ∀ e ∈ σ.history, e.2.tableId ∉ σ.deletedTables → e ∈ σ.written
  nameMaps : σ.session.nameMaps.Represents σ.history σ.written
  index_le : ∀ loaded ∈ σ.session.loadedNameMapIndex, loaded ≤ σ.nextFileId
  loaded : ∀ e ∈ σ.written, e.2.columnMaps ≠ [] →
    (∃ loaded ∈ σ.session.loadedNameMapIndex, e.1 < loaded) →
      e.1 ∈ σ.session.nameMaps.nameMaps.map (·.1)

/-- A file is read through a map with the same paths as its own: one of the transaction, or one that
was written. -/
def Mapped (σ : NameMapLake) (f : MappingIndex × DuckLakeNameMap) : Prop :=
  (∃ e ∈ σ.session.newNameMaps.nameMaps, e.1 = f.1 ∧ f.2.SamePaths e.2) ∨
    ∃ e ∈ σ.history, e.1 = f.1 ∧ f.2.SamePaths e.2

/-- What holds of the transaction and of the files. -/
structure FilesInvariant (σ : NameMapLake) : Prop where
  newNameMaps : σ.session.newNameMaps.WellFormed
  local_le : ∀ e ∈ σ.session.newNameMaps.nameMaps,
    transactionLocalIdStart.toNat ≤ e.1 ∧ e.1 < σ.session.localCatalogId
  start_le : transactionLocalIdStart.toNat ≤ σ.session.localCatalogId
  newFiles : ∀ f ∈ σ.newFiles, σ.Mapped f
  files : ∀ f ∈ σ.files, ∃ e ∈ σ.history, e.1 = f.1 ∧ f.2.SamePaths e.2

namespace Invariant

variable {σ : NameMapLake} {nextFileId : ℕ} {query : Option ℕ → List NameMappingRow}

/-- Loading never fails, and then the session has the name maps of the snapshot. -/
theorem run_loadNameMaps (h : σ.Invariant) (hle : nextFileId ≤ σ.nextFileId)
    (hquery : σ.tables.Answers query) :
    ∃ nameMaps index, run (loadNameMaps nextFileId query) σ.session =
        (.ok (), { σ.session with nameMaps := nameMaps, loadedNameMapIndex := index }) ∧
      Invariant { σ with session.nameMaps := nameMaps, session.loadedNameMapIndex := index } ∧
      σ.session.nameMaps.nameMaps ⊆ nameMaps.nameMaps ∧ ∃ loaded ∈ index, nextFileId ≤ loaded := by
  rw [loadNameMaps, run_bind, run_get]
  dsimp only
  split
  · rename_i hany
    cases hindex : σ.session.loadedNameMapIndex with
    | none => simp [hindex] at hany
    | some loaded =>
      rw [hindex, Option.any_some, decide_eq_true_eq] at hany
      refine ⟨σ.session.nameMaps, some loaded, ?_, ?_, fun _ he => he, loaded, rfl, hany⟩
      · rw [← hindex]
        rfl
      · rw [← hindex]
        exact h
  · rename_i hany
    have hrows := hquery σ.session.loadedNameMapIndex
    obtain ⟨s, hrun, hs, hsubset, hall⟩ := forM_addConverted h.nodup h.written h.distinct
      (fun m hm => convertNameMap_getColumnMappings h.tables hrows hm) h.nameMaps
    refine ⟨s, some nextFileId, ?_, ?_, hsubset, nextFileId, rfl, le_rfl⟩
    · rw [run_bind, hrun]
      rfl
    · refine { h with
        nameMaps := hs
        index_le := ?_
        loaded := ?_ }
      · intro loaded hloaded
        cases hloaded
        exact hle
      · intro e he hne ⟨loaded, hloaded, hlt⟩
        cases hloaded
        by_cases hearlier : ∃ loaded ∈ σ.session.loadedNameMapIndex, e.1 < loaded
        · exact List.map_subset _ hsubset (h.loaded e he hne hearlier)
        · have hstart : σ.session.loadedNameMapIndex.all (· ≤ e.1) := by
            cases hindex : σ.session.loadedNameMapIndex with
            | none => rfl
            | some loaded =>
              rw [Option.all_some, decide_eq_true_eq]
              exact Nat.le_of_not_lt fun hlt => hearlier ⟨loaded, hindex, hlt⟩
          obtain ⟨m, hm, hid⟩ := List.mem_map.1 (mem_getColumnMappings h.tables hrows he hstart hne)
          exact hid ▸ hall m hm

theorem start : Invariant {} where
  tables := ColumnMappingTables.holds_empty
  written := List.nil_subset _
  nodup := .nil
  ids_lt := nofun
  room := Nat.zero_le _
  distinct := nofun
  tables_committed := nofun
  kept := nofun
  nameMaps := .empty
  index_le := nofun
  loaded := nofun

theorem write (h : σ.Invariant) {new : List (MappingIndex × DuckLakeNameMap)} {next : ℕ}
    (hnew : σ.MayWrite new next) : (σ.write new next).Invariant := by
  have hfresh : ∀ e ∈ σ.history, e.1 ∉ new.map (·.1) := fun e he hmem => by
    obtain ⟨e', he', hid⟩ := List.mem_map.1 hmem
    exact absurd (h.ids_lt e he) (Nat.not_lt.2 (hid ▸ (hnew.ids e' he').1))
  have hall : ((σ.history ++ new).map (·.1)).Nodup := by
    rw [List.map_append, List.nodup_append]
    refine ⟨h.nodup, hnew.nodup, fun id hid id' hid' heq => ?_⟩
    obtain ⟨e, he, rfl⟩ := List.mem_map.1 hid
    exact hfresh e he (heq ▸ hid')
  have hwritten : ((σ.written ++ new).map (·.1)).Nodup := by
    rw [List.map_append, List.nodup_append] at hall ⊢
    exact ⟨h.tables.nodup, hnew.nodup, fun id hid => hall.2.2 id (List.map_subset _ h.written hid)⟩
  constructor
  · exact h.tables.write hwritten
  · exact List.append_subset.2 ⟨fun e he => List.mem_append_left _ (h.written he),
      List.subset_append_right _ _⟩
  · exact hall
  · intro e he
    rcases List.mem_append.1 he with he | he
    · exact (h.ids_lt e he).trans_le hnew.le
    · exact (hnew.ids e he).2
  · exact hnew.room
  · intro e he
    rcases List.mem_append.1 he with he | he
    · exact h.distinct e he
    · exact hnew.distinct e he
  · intro e he
    rcases List.mem_append.1 he with he | he
    · exact h.tables_committed e he
    · exact hnew.tables e he
  · intro e he hexists
    rcases List.mem_append.1 he with he | he
    · exact List.mem_append_left _ (h.kept e he hexists)
    · exact List.mem_append_right _ he
  · exact h.nameMaps.write hfresh
  · exact fun loaded hloaded => (h.index_le loaded hloaded).trans hnew.le
  · intro e he hne hearlier
    rcases List.mem_append.1 he with he | he
    · exact h.loaded e he hne hearlier
    · obtain ⟨loaded, hloaded, hlt⟩ := hearlier
      exact absurd (hlt.trans_le (h.index_le loaded hloaded)) (Nat.not_lt.2 (hnew.ids e he).1)

theorem expireElsewhere (h : σ.Invariant) (deleted : List TableIndex) :
    (σ.expireElsewhere deleted).Invariant where
  tables := h.tables.deleteTables deleted
  written e he := h.written (List.mem_of_mem_filter he)
  nodup := h.nodup
  ids_lt := h.ids_lt
  room := h.room
  distinct := h.distinct
  tables_committed := h.tables_committed
  kept e he hexists := by
    rw [NameMapLake.expireElsewhere, List.mem_append, not_or] at hexists
    exact List.mem_filter.2 ⟨h.kept e he hexists.1, keepsTable_iff.2 hexists.2⟩
  nameMaps := h.nameMaps.expireElsewhere h.nodup h.written (keepsTable deleted)
  index_le := h.index_le
  loaded e he := h.loaded e (List.mem_of_mem_filter he)

theorem expire (h : σ.Invariant) (deleted : List TableIndex) : (σ.expire deleted).Invariant :=
  { h.expireElsewhere deleted with
    nameMaps := h.nameMaps.expire h.tables h.nodup h.written deleted
    loaded := by
      intro e he hne hearlier
      obtain ⟨he, hkept⟩ := List.mem_filter.1 he
      obtain ⟨c, hc, hid⟩ := List.mem_map.1 (h.loaded e he hne hearlier)
      rw [NameMapLake.expire, h.nameMaps.toWellFormed.foldl_remove_eq]
      refine List.mem_map.2 ⟨c, List.mem_filter.2 ⟨hc, decide_eq_true fun hgone => ?_⟩, hid⟩
      obtain ⟨w, hw, hwc, hdeleted, -⟩ := h.tables.mem_deletedMappings.1 hgone
      obtain rfl := List.inj_on_of_nodup_map h.tables.nodup hw he (hwc.trans hid)
      exact keepsTable_iff.1 hkept hdeleted }

/-- The name maps of the transaction play no part. -/
theorem withSession (h : σ.Invariant) (newNameMaps : DuckLakeNameMapSet) (localCatalogId : ℕ)
    (newFiles files : List (MappingIndex × DuckLakeNameMap)) :
    Invariant { σ with
      session.newNameMaps := newNameMaps, session.localCatalogId := localCatalogId
      newFiles := newFiles, files := files } := { h with }

end Invariant

/-! ### The transaction -/

/-- Registering a file gives it the id of a name map with the same paths. -/
theorem run_addNameMap {σ : NameMapLake} {nextFileId : ℕ} {query : Option ℕ → List NameMappingRow}
    {nameMap : DuckLakeNameMap} (h : σ.Invariant) (hf : σ.FilesInvariant)
    (hle : nextFileId ≤ σ.nextFileId) (hquery : σ.tables.Answers query)
    (hdistinct : DistinctColumns nameMap.columnMaps) :
    ∃ id session, run (addNameMap nextFileId query nameMap) σ.session = (.ok id, session) ∧
      Invariant { σ with session := session } ∧ FilesInvariant { σ with session := session } ∧
      Mapped { σ with session := session } (id, nameMap) := by
  obtain ⟨nameMaps, index, hrun, hinvariant, -⟩ := h.run_loadNameMaps hle hquery
  rw [addNameMap, run_bind, tryGetCompatibleNameMap, run_bind, hrun]
  dsimp only
  rw [run_bind, run_get]
  dsimp only [run_pure]
  cases hcatalog : nameMaps.tryGetCompatibleNameMap nameMap with
  | some id =>
    -- a map of the catalog
    obtain ⟨e, he, rfl, hpaths⟩ := hinvariant.nameMaps.toWellFormed.exists_of_tryGet hcatalog
    obtain ⟨w, hw, hid, hwpaths, -⟩ := hinvariant.nameMaps.known e he
    exact ⟨e.1, _, rfl, hinvariant, { hf with },
      .inr ⟨w, hw, hid, hpaths.trans hwpaths.symm⟩⟩
  | none =>
    dsimp only
    rw [addLocalNameMap, run_modifyGet]
    dsimp only
    cases hlocal : σ.session.newNameMaps.tryGetCompatibleNameMap nameMap with
    | some id =>
      -- a map that the transaction has added
      obtain ⟨e, he, rfl, hpaths⟩ := hf.newNameMaps.exists_of_tryGet hlocal
      exact ⟨e.1, _, rfl, hinvariant, { hf with }, .inl ⟨e, he, rfl, hpaths⟩⟩
    | none =>
      obtain ⟨hadd, hnameMaps⟩ := hf.newNameMaps.add_new
        (fun e he => Nat.ne_of_lt (hf.local_le e he).2) hlocal hdistinct
      refine ⟨σ.session.localCatalogId, _, rfl, hinvariant.withSession _ _ _ _, ⟨hadd, ?_, ?_, ?_,
        hf.files⟩, .inl ⟨(σ.session.localCatalogId, nameMap), ?_, rfl, .refl _⟩⟩
      · intro e he
        rw [hnameMaps] at he
        rcases List.mem_append.1 he with he | he
        · exact (hf.local_le e he).imp_right Nat.lt_succ_of_lt
        · rw [List.mem_singleton.1 he]
          exact ⟨hf.start_le, Nat.lt_succ_self _⟩
      · exact hf.start_le.trans (Nat.le_succ _)
      · intro f hmem
        refine (hf.newFiles f hmem).imp_left fun ⟨e, he, hrest⟩ => ⟨e, ?_, hrest⟩
        rw [hnameMaps]
        exact List.mem_append_left _ he
      · rw [hnameMaps]
        exact List.mem_append_right _ (List.mem_singleton_self _)

namespace FilesInvariant

variable {σ : NameMapLake}

theorem start : FilesInvariant {} :=
  ⟨DuckLakeNameMapSet.wellFormed_empty, nofun, le_rfl, nofun, nofun⟩

theorem write (hf : σ.FilesInvariant) (new : List (MappingIndex × DuckLakeNameMap)) (next : ℕ) :
    (σ.write new next).FilesInvariant where
  newNameMaps := hf.newNameMaps
  local_le := hf.local_le
  start_le := hf.start_le
  newFiles f hmem := (hf.newFiles f hmem).imp_right fun ⟨e, he, hrest⟩ =>
    ⟨e, List.mem_append_left _ he, hrest⟩
  files f hmem :=
    let ⟨e, he, hrest⟩ := hf.files f hmem
    ⟨e, List.mem_append_left _ he, hrest⟩

theorem reset (hf : σ.FilesInvariant) : σ.reset.FilesInvariant where
  newNameMaps := DuckLakeNameMapSet.wellFormed_empty
  local_le := nofun
  start_le := hf.start_le
  newFiles := nofun
  files := hf.files

/-- The files of a transaction get the ids that its name maps are written under. -/
theorem committedFiles (h : σ.Invariant) (hf : σ.FilesInvariant) {ids : NameMapIds}
    (htableId : ∀ id, isTransactionLocal id = false → ids.tableId id = id)
    {f : MappingIndex × DuckLakeNameMap} (hmem : f ∈ σ.committedFiles ids) :
    ∃ e ∈ σ.history ++ σ.newNameMaps ids, e.1 = f.1 ∧ f.2.SamePaths e.2 := by
  obtain ⟨f, hf', rfl⟩ := List.mem_map.1 hmem
  rcases hf.newFiles f hf' with ⟨e, he, hid, hpaths⟩ | ⟨e, he, hid, hpaths⟩
  · refine ⟨(ids.mappingId e.1, ids.map e.2),
      List.mem_append_right _ (List.mem_map.2 ⟨e, he, rfl⟩), ?_, ?_, hpaths.paths⟩
    · rw [if_pos (List.mem_map.2 ⟨e, he, hid⟩), hid]
    · exact congrArg ids.tableId hpaths.tableId
  · have hcatalog : f.1 ∉ σ.session.newNameMaps.nameMaps.map (·.1) := fun hlocal => by
      obtain ⟨e', he', hid'⟩ := List.mem_map.1 hlocal
      have hlt := (h.ids_lt e he).trans_le h.room
      exact absurd (hf.local_le e' he').1 (Nat.not_le.2 (by rwa [hid', ← hid]))
    refine ⟨e, List.mem_append_left _ he, ?_, ?_, hpaths.paths⟩
    · rw [if_neg hcatalog, hid]
    · have hcommitted := h.tables_committed e he
      rw [← hpaths.tableId] at hcommitted ⊢
      exact htableId _ hcommitted

end FilesInvariant

theorem Step.invariant {σ σ' : NameMapLake} (hstep : σ.Step σ') (h : σ.Invariant)
    (hf : σ.FilesInvariant) : σ'.Invariant ∧ σ'.FilesInvariant := by
  cases hstep with
  | commitElsewhere hnew => exact ⟨h.write hnew, hf.write _ _⟩
  | @commit ids next htableId _ hnew =>
    refine ⟨(h.write hnew).withSession _ _ _ _, { (hf.write (σ.newNameMaps ids) next).reset with
      files := fun f hmem => ?_ }⟩
    rcases List.mem_append.1 hmem with hmem | hmem
    · exact (hf.write (σ.newNameMaps ids) next).files f hmem
    · exact hf.committedFiles h htableId hmem
  | rollback => exact ⟨h.withSession _ _ _ _, hf.reset⟩
  | @register nextFileId query nameMap hle hquery hdistinct =>
    obtain ⟨id, session, hrun, h', hf', hmapped⟩ := run_addNameMap h hf hle hquery hdistinct
    rw [NameMapLake.register, hrun]
    refine ⟨h'.withSession _ _ _ _, { hf' with newFiles := fun f hmem => ?_ }⟩
    rcases List.mem_append.1 hmem with hmem | hmem
    · exact hf'.newFiles f hmem
    · obtain rfl := List.mem_singleton.1 hmem
      exact hmapped
  | load hle hquery =>
    obtain ⟨nameMaps, index, hrun, h', -⟩ := h.run_loadNameMaps hle hquery
    rw [hrun]
    exact ⟨h', { hf with }⟩
  | expire deleted => exact ⟨h.expire deleted, { hf with }⟩
  | expireElsewhere deleted => exact ⟨h.expireElsewhere deleted, { hf with }⟩

theorem Reachable.invariant {σ : NameMapLake} (h : σ.Reachable) :
    σ.Invariant ∧ σ.FilesInvariant := by
  induction h with
  | start => exact ⟨.start, .start⟩
  | step _ hstep ih => exact hstep.invariant ih.1 ih.2

/-! ### What is found -/

section Found

variable {σ : NameMapLake} {nextFileId : ℕ} {query : Option ℕ → List NameMappingRow}

/-- A name map that was written is found by its id exactly if it has columns, and then with the same
paths. -/
theorem Invariant.tryGetMappingById_eq (h : σ.Invariant) (hle : nextFileId ≤ σ.nextFileId)
    (hquery : σ.tables.Answers query) {entry : MappingIndex × DuckLakeNameMap}
    (hentry : entry ∈ σ.written) (hid : entry.1 < nextFileId) :
    ∃ found session,
      run (tryGetMappingById nextFileId query entry.1) σ.session = (.ok found, session) ∧
      (found.isSome ↔ entry.2.columnMaps ≠ []) ∧ ∀ map ∈ found, entry.2.SamePaths map := by
  -- what a set finds under the id
  have hfound {s : DuckLakeNameMapSet} (hs : s.Represents σ.history σ.written)
      {map : DuckLakeNameMap} (hlookup : s.nameMaps.lookup entry.1 = some map) :
      entry.2.SamePaths map ∧ entry.2.columnMaps ≠ [] := by
    obtain ⟨w, hw, hwid, hpaths, hne⟩ :=
      hs.known _ (DuckLakeNameMapSet.WellFormed.mem_of_lookup hlookup)
    obtain rfl := List.inj_on_of_nodup_map h.nodup hw (h.written hentry) hwid
    exact ⟨hpaths, hne⟩
  rw [tryGetMappingById, run_bind, run_get]
  dsimp only
  cases hlookup : σ.session.nameMaps.nameMaps.lookup entry.1 with
  | some map =>
    obtain ⟨hpaths, hne⟩ := hfound h.nameMaps hlookup
    exact ⟨some map, _, rfl, ⟨fun _ => hne, fun _ => rfl⟩, fun m hm => by cases hm; exact hpaths⟩
  | none =>
    obtain ⟨nameMaps, index, hrun, h', -, loaded, hindex, hloaded⟩ := h.run_loadNameMaps hle hquery
    dsimp only
    rw [run_bind, hrun]
    refine ⟨nameMaps.nameMaps.lookup entry.1, _, rfl, ⟨fun hsome => ?_, fun hne => ?_⟩,
      fun map hmap => (hfound h'.nameMaps hmap).1⟩
    · obtain ⟨map, hmap⟩ := Option.isSome_iff_exists.1 hsome
      exact (hfound h'.nameMaps hmap).2
    · obtain ⟨e, he, heq⟩ := List.mem_map.1
        (h'.loaded entry hentry hne ⟨loaded, hindex, hid.trans_le hloaded⟩)
      rw [← heq, h'.nameMaps.toWellFormed.lookup_of_mem he]
      rfl

end Found

end NameMapLake

/-- After every run a file is read through a name map that maps the same columns as the one that it
was registered with, unless it was registered without columns: then its name map is never found. -/
theorem getMappingById_iff [NameMapHash] {σ : NameMapLake} (hσ : σ.Reachable) {nextFileId : ℕ}
    {query : Option ℕ → List NameMappingRow} (hle : nextFileId ≤ σ.nextFileId)
    (hquery : σ.tables.Answers query) {file : MappingIndex × DuckLakeNameMap}
    (hfile : file ∈ σ.files) (hid : file.1 < nextFileId)
    (hexists : file.2.tableId ∉ σ.deletedTables) :
    (∃ map, (run (getMappingById nextFileId query file.1) σ.session).1 = .ok map ∧
      file.2.SamePaths map) ↔ file.2.columnMaps ≠ [] := by
  obtain ⟨h, hf⟩ := hσ.invariant
  obtain ⟨entry, hentry, heq, hpaths⟩ := hf.files file hfile
  have hwritten : entry ∈ σ.written := by
    refine h.kept entry hentry ?_
    rwa [← hpaths.tableId]
  have hlocal : σ.session.newNameMaps.nameMaps.lookup file.1 = none := by
    rw [List.lookup_eq_none_iff]
    intro e he
    have hroom := hid.trans_le (hle.trans h.room)
    exact bne_iff_ne.2 (Nat.ne_of_lt (hroom.trans_le (hf.local_le e he).1))
  obtain ⟨found, session, hrun, hsome, hall⟩ :=
    h.tryGetMappingById_eq hle hquery hwritten (heq ▸ hid)
  have hne : entry.2.columnMaps ≠ [] ↔ file.2.columnMaps ≠ [] :=
    ⟨hpaths.symm.ne_nil, hpaths.ne_nil⟩
  rw [getMappingById, run_bind, run_get]
  dsimp only
  rw [hlocal]
  dsimp only
  rw [run_bind, ← heq, hrun, ← hne, ← hsome]
  cases found with
  | none => simp
  | some map => simpa using hpaths.trans (hall map rfl)

section Example

/-- Hashes that are all the same. -/
@[reducible] def constantHash : NameMapHash := ⟨fun _ => 0, fun _ => 0⟩

attribute [local instance] constantHash

/-- Column `a` of a file is field 1 of table 1. -/
def oneColumnMap : DuckLakeNameMap := ⟨1, [{ sourceName := "a".toList, targetFieldId := 1 }]⟩

def oneColumnLake : NameMapLake :=
  NameMapLake.commit (NameMapLake.register {} 0 (fun _ => []) oneColumnMap) ⟨fun _ => 0, id⟩ 1

theorem distinctColumns_oneColumn : DistinctColumns oneColumnMap.columnMaps := by
  simp [DistinctColumns, DistinctPaths, oneColumnMap, nameMapTrees, DuckLakeNameMapEntry.toTree,
    pathsAll, paths]

theorem reachable_oneColumnLake : oneColumnLake.Reachable := by
  have hregister : (NameMapLake.register {} 0 (fun _ => []) oneColumnMap).Reachable :=
    .step .start (.register le_rfl (fun _ => ⟨.refl _, .nil⟩) distinctColumns_oneColumn)
  refine .step hregister (.commit (fun _ _ => rfl) (by decide) ?_)
  have hnew : (NameMapLake.register {} 0 (fun _ => []) oneColumnMap).newNameMaps
      ⟨fun _ => 0, id⟩ = [(0, oneColumnMap)] := rfl
  rw [hnew]
  constructor
  · exact Nat.zero_le _
  · decide
  · exact List.forall_mem_singleton.2 ⟨le_rfl, Nat.zero_lt_one⟩
  · exact List.nodup_singleton _
  · exact List.forall_mem_singleton.2 distinctColumns_oneColumn
  · exact List.forall_mem_singleton.2 (by decide)
  · exact .inr ⟨_, List.mem_singleton_self _, List.cons_ne_nil _ _⟩

theorem answers_oneColumnLake : oneColumnLake.tables.Answers oneColumnLake.tables.join := by
  intro startFrom
  refine ⟨.refl _, ?_⟩
  have htables : oneColumnLake.tables = ⟨[(0, 1, "map_by_name".toList)],
    [(0, ⟨0, "a".toList, 1, false, none⟩)]⟩ := rfl
  rw [htables, ColumnMappingTables.join, List.filter_singleton]
  generalize Option.all _ startFrom = selected
  cases selected <;> simp

theorem getMappingById_oneColumn :
    ∃ map, (run (getMappingById 1 oneColumnLake.tables.join 0) oneColumnLake.session).1 = .ok map ∧
      oneColumnMap.SamePaths map :=
  (@getMappingById_iff _ _ reachable_oneColumnLake 1 _ le_rfl answers_oneColumnLake
    (0, oneColumnMap) (List.mem_singleton_self _) Nat.zero_lt_one List.not_mem_nil).2
    (List.cons_ne_nil _ _)

end Example

end DuckLake
