import DuckLake.Storage.NameMapRows

/-!
# Name maps in a staged commit

A commit that runs on the server gets its name maps as rows of two staged tables. The server builds
each map from its root entries down, looking up the children of every entry, in whatever order the
rows are scanned.
-/

namespace DuckLake

open RoseTree

/-- A row of the staged entries. -/
structure EntryShell where
  entryId : ℕ
  parentEntryId : Option ℕ
  sourceName : Text
  targetFieldId : FieldIndex
  hivePartition : Bool
deriving DecidableEq

/-! ## Staging -/

mutual

/-- `FlattenNameMapEntry`. Its parent id is the largest number if the entry has no parent. -/
def flattenNameMapEntry (parentId : Option ℕ) (nextEntryId : ℕ) :
    DuckLakeNameMapEntry → List EntryShell
  | ⟨sourceName, targetFieldId, hivePartition, childEntries⟩ =>
    ⟨nextEntryId, parentId, sourceName, targetFieldId, hivePartition⟩ ::
      flattenNameMapEntries (some nextEntryId) (nextEntryId + 1) childEntries

def flattenNameMapEntries (parentId : Option ℕ) (nextEntryId : ℕ) :
    List DuckLakeNameMapEntry → List EntryShell
  | [] => []
  | entry :: entries =>
    let rows := flattenNameMapEntry parentId nextEntryId entry
    rows ++ flattenNameMapEntries parentId (nextEntryId + rows.length) entries

end

/-- The staged tables of name maps. -/
structure StagedNameMaps where
  nameMap : List (MappingIndex × TableIndex)
  nameMapEntry : List (MappingIndex × EntryShell)

def emitNameMaps (nameMaps : List (MappingIndex × DuckLakeNameMap)) : StagedNameMaps where
  nameMap := nameMaps.map fun entry => (entry.1, entry.2.tableId)
  nameMapEntry := nameMaps.flatMap fun entry =>
    (flattenNameMapEntries none 0 entry.2.columnMaps).map fun shell => (entry.1, shell)

/-! ## Reading -/

/-- `shell_by_id`: the last row with an id counts. -/
def shellById (shells : List EntryShell) (id : ℕ) : Option EntryShell :=
  shells.reverse.find? fun shell => shell.entryId = id

/-- `children_of`. -/
def childrenOf (shells : List EntryShell) (id : ℕ) : List ℕ :=
  (shells.filter fun shell => shell.parentEntryId = some id).map (·.entryId)

/-- `BuildNameMapEntry`, which fails on an id without a row. The number bounds its recursion. -/
def buildNameMapEntry (shells : List EntryShell) : ℕ → ℕ → Option DuckLakeNameMapEntry
  | 0, _ => none
  | fuel + 1, id => do
    let shell ← shellById shells id
    let childEntries ← (childrenOf shells id).mapM (buildNameMapEntry shells fuel)
    return ⟨shell.sourceName, shell.targetFieldId, shell.hivePartition, childEntries⟩

/-- The name map of a header row. -/
def readStagedNameMap (shells : List EntryShell) (tableId : TableIndex) : Option DuckLakeNameMap := do
  let rootIds := (shells.filter fun shell => shell.parentEntryId = none).map (·.entryId)
  let columnMaps ← rootIds.mapM (buildNameMapEntry shells shells.length)
  return ⟨tableId, columnMaps⟩

/-- The name map of a row of the staged headers. -/
def StagedNameMaps.read (staged : StagedNameMaps) (header : MappingIndex × TableIndex) :
    Option (MappingIndex × DuckLakeNameMap) :=
  let entries := staged.nameMapEntry.filter fun row => row.1 = header.1
  (readStagedNameMap (entries.map (·.2)) header.2).map fun nameMap => (header.1, nameMap)

def readStagedNameMaps (staged : StagedNameMaps) :
    Option (List (MappingIndex × DuckLakeNameMap)) :=
  staged.nameMap.mapM staged.read

/-! ## The rows of a block of entries -/

def EntryShell.label (shell : EntryShell) : NameMapLabel :=
  ⟨shell.sourceName, shell.targetFieldId, shell.hivePartition⟩

mutual

theorem flattenNameMapEntry_ids (parentId : Option ℕ) (start : ℕ) :
    ∀ entry : DuckLakeNameMapEntry, (flattenNameMapEntry parentId start entry).map (·.entryId) =
      List.range' start (flattenNameMapEntry parentId start entry).length
  | ⟨sourceName, targetFieldId, hivePartition, childEntries⟩ => by
    rw [flattenNameMapEntry, List.map_cons, flattenNameMapEntries_ids _ _ childEntries,
      List.length_cons, List.range'_succ]

/-- The entries are numberedEntries in order. -/
theorem flattenNameMapEntries_ids (parentId : Option ℕ) (start : ℕ) :
    ∀ entries : List DuckLakeNameMapEntry,
      (flattenNameMapEntries parentId start entries).map (·.entryId) =
        List.range' start (flattenNameMapEntries parentId start entries).length
  | [] => rfl
  | entry :: entries => by
    rw [flattenNameMapEntries, List.map_append, flattenNameMapEntry_ids parentId start entry,
      flattenNameMapEntries_ids _ _ entries, List.length_append, ← List.range'_append_1]

end

/-- A row of a block refers to the parent of the block, or to a row of the block. -/
def InBlock (parentId : Option ℕ) (start length : ℕ) (shell : EntryShell) : Prop :=
  shell.parentEntryId = parentId ∨
    ∃ i, shell.parentEntryId = some i ∧ start ≤ i ∧ i < start + length

mutual

theorem flattenNameMapEntry_parents (parentId : Option ℕ) (start : ℕ) :
    ∀ entry : DuckLakeNameMapEntry, ∀ shell ∈ flattenNameMapEntry parentId start entry,
      InBlock parentId start (flattenNameMapEntry parentId start entry).length shell
  | ⟨sourceName, targetFieldId, hivePartition, childEntries⟩, shell, hshell => by
    rw [flattenNameMapEntry] at hshell ⊢
    rw [List.length_cons]
    rcases List.mem_cons.1 hshell with rfl | hshell
    · exact .inl rfl
    · right
      rcases flattenNameMapEntries_parents _ _ childEntries shell hshell with hparent | hparent
      · exact ⟨start, hparent, le_rfl, by omega⟩
      · obtain ⟨i, hi, hle, hlt⟩ := hparent
        exact ⟨i, hi, by omega, by omega⟩

theorem flattenNameMapEntries_parents (parentId : Option ℕ) (start : ℕ) :
    ∀ entries : List DuckLakeNameMapEntry, ∀ shell ∈ flattenNameMapEntries parentId start entries,
      InBlock parentId start (flattenNameMapEntries parentId start entries).length shell
  | [], shell, hshell => nomatch hshell
  | entry :: entries, shell, hshell => by
    rw [flattenNameMapEntries] at hshell ⊢
    rw [List.length_append]
    rcases List.mem_append.1 hshell with hshell | hshell
    · refine (flattenNameMapEntry_parents parentId start entry shell hshell).imp_right ?_
      rintro ⟨i, hi, hle, hlt⟩
      exact ⟨i, hi, hle, by omega⟩
    · refine (flattenNameMapEntries_parents parentId _ entries shell hshell).imp_right ?_
      rintro ⟨i, hi, hle, hlt⟩
      exact ⟨i, hi, by omega, by omega⟩

end

theorem mem_block {rows : List EntryShell} {start : ℕ}
    (hids : rows.map (·.entryId) = List.range' start rows.length) {shell : EntryShell}
    (hshell : shell ∈ rows) : start ≤ shell.entryId ∧ shell.entryId < start + rows.length := by
  have hmem := List.mem_map_of_mem (f := fun shell : EntryShell => shell.entryId) hshell
  rw [hids] at hmem
  exact List.mem_range'_1.1 hmem

/-! ## What is found for the entries of a block -/

/-- The rows have those of a block, and a child of an entry of the block is in the block. -/
structure Owns (shells rows : List EntryShell) : Prop where
  found : ∀ shell ∈ rows, shellById shells shell.entryId = some shell
  children : ∀ shell ∈ rows,
    (childrenOf shells shell.entryId).Perm (childrenOf rows shell.entryId)

theorem childrenOf_append (rows rows' : List EntryShell) (id : ℕ) :
    childrenOf (rows ++ rows') id = childrenOf rows id ++ childrenOf rows' id := by
  rw [childrenOf, List.filter_append, List.map_append]
  rfl

theorem childrenOf_eq_nil {rows : List EntryShell} {id : ℕ}
    (h : ∀ shell ∈ rows, shell.parentEntryId ≠ some id) : childrenOf rows id = [] := by
  rw [childrenOf, List.map_eq_nil_iff, List.filter_eq_nil_iff]
  exact fun shell hshell heq => h shell hshell (of_decide_eq_true heq)

theorem Owns.left {shells rows rows' : List EntryShell} (h : Owns shells (rows ++ rows'))
    (hapart : ∀ shell ∈ rows, ∀ shell' ∈ rows', shell'.parentEntryId ≠ some shell.entryId) :
    Owns shells rows where
  found shell hshell := h.found shell (List.mem_append_left _ hshell)
  children shell hshell := by
    have hchildren := h.children shell (List.mem_append_left _ hshell)
    rwa [childrenOf_append, childrenOf_eq_nil (hapart shell hshell), List.append_nil] at hchildren

theorem Owns.right {shells rows rows' : List EntryShell} (h : Owns shells (rows ++ rows'))
    (hapart : ∀ shell ∈ rows', ∀ shell' ∈ rows, shell'.parentEntryId ≠ some shell.entryId) :
    Owns shells rows' where
  found shell hshell := h.found shell (List.mem_append_right _ hshell)
  children shell hshell := by
    have hchildren := h.children shell (List.mem_append_right _ hshell)
    rwa [childrenOf_append, childrenOf_eq_nil (hapart shell hshell), List.nil_append] at hchildren

/-- The entries of a list, each with its number. -/
def numberedEntries (parentId : Option ℕ) (start : ℕ) :
    List DuckLakeNameMapEntry → List (ℕ × DuckLakeNameMapEntry)
  | [] => []
  | entry :: entries => (start, entry) ::
      numberedEntries parentId (start + (flattenNameMapEntry parentId start entry).length) entries

/-- The rows that refer to the parent of a block are those of its top entries. -/
theorem filter_parent (parentId : Option ℕ) (start : ℕ) (hparent : ∀ i ∈ parentId, i < start)
    (entries : List DuckLakeNameMapEntry) :
    ((flattenNameMapEntries parentId start entries).filter fun shell =>
      shell.parentEntryId = parentId).map (·.entryId) =
        (numberedEntries parentId start entries).map (·.1) := by
  induction entries generalizing start with
  | nil => rfl
  | cons entry entries ih =>
    obtain ⟨sourceName, targetFieldId, hivePartition, childEntries⟩ := entry
    have hnone : (flattenNameMapEntries (some start) (start + 1) childEntries).filter
        (fun shell => shell.parentEntryId = parentId) = [] := by
      rw [List.filter_eq_nil_iff]
      intro shell hshell heq
      have heq := of_decide_eq_true heq
      rcases flattenNameMapEntries_parents _ _ childEntries shell hshell with h | ⟨i, h, hle, -⟩
      · exact Nat.lt_irrefl _ (hparent start (heq ▸ h))
      · exact Nat.lt_irrefl _ ((hparent i (heq ▸ h)).trans hle)
    rw [flattenNameMapEntries, List.filter_append, List.map_append,
      ih _ fun i hi => (hparent i hi).trans_le (Nat.le_add_right _ _), numberedEntries, List.map_cons]
    rw [flattenNameMapEntry, List.filter_cons, if_pos (decide_eq_true rfl), hnone]
    rfl

/-! ## Building -/

theorem exists_mapM {α β γ : Type} {f : α → Option β} {g : γ → α} {R : γ → β → Prop} {l : List γ}
    (h : ∀ c ∈ l, ∃ b, f (g c) = some b ∧ R c b) :
    ∃ bs, (l.map g).mapM f = some bs ∧ List.Forall₂ R l bs := by
  induction l with
  | nil => exact ⟨[], rfl, .nil⟩
  | cons c l ih =>
    obtain ⟨b, hb, hcb⟩ := h c (List.mem_cons_self ..)
    obtain ⟨bs, hbs, hrest⟩ := ih fun c hc => h c (List.mem_cons_of_mem _ hc)
    exact ⟨b :: bs, by rw [List.map_cons, List.mapM_cons, hb, hbs]; rfl, .cons hcb hrest⟩

theorem map_snd_numbered (parentId : Option ℕ) (start : ℕ) (entries : List DuckLakeNameMapEntry) :
    (numberedEntries parentId start entries).map (·.2) = entries := by
  induction entries generalizing start with
  | nil => rfl
  | cons entry entries ih => rw [numberedEntries, List.map_cons, ih]

/-- The entries with these numbers, in any order, give the paths of the list. -/
theorem mapM_numbered {build : ℕ → Option DuckLakeNameMapEntry} {parentId : Option ℕ} {start : ℕ}
    {entries : List DuckLakeNameMapEntry} {ids : List ℕ}
    (hids : ids.Perm ((numberedEntries parentId start entries).map (·.1)))
    (h : ∀ pair ∈ numberedEntries parentId start entries, ∃ entry, build pair.1 = some entry ∧
      (paths pair.2.toTree).Perm (paths entry.toTree)) :
    ∃ built, ids.mapM build = some built ∧ (nameMapPaths entries).Perm (nameMapPaths built) := by
  obtain ⟨pairs, hpairs, rfl⟩ := exists_perm_of_map hids
  obtain ⟨built, hbuilt, hpaths⟩ := exists_mapM fun pair hpair => h pair (hpairs.subset hpair)
  refine ⟨built, hbuilt, ?_⟩
  have hentries := (hpairs.map (·.2)).symm
  rw [map_snd_numbered] at hentries
  rw [nameMapPaths_eq_flatMap, nameMapPaths_eq_flatMap]
  refine (hentries.flatMap_right _).trans ?_
  rw [List.flatMap_map]
  exact flatMap_perm_of_forall₂ hpaths

section Build

variable {shells : List EntryShell}

mutual

theorem buildNameMapEntry_of_owns {parentId : Option ℕ} {start fuel : ℕ}
    (hparent : ∀ i ∈ parentId, i < start) : ∀ {entry : DuckLakeNameMapEntry},
    Owns shells (flattenNameMapEntry parentId start entry) →
    (flattenNameMapEntry parentId start entry).length ≤ fuel →
    ∃ built, buildNameMapEntry shells fuel start = some built ∧
      (paths entry.toTree).Perm (paths built.toTree)
  | ⟨sourceName, targetFieldId, hivePartition, childEntries⟩, howns, hfuel => by
    rw [flattenNameMapEntry] at howns hfuel
    have hself := howns.found _ (List.mem_cons_self ..)
    have hchildren := howns.children _ (List.mem_cons_self ..)
    have hroot : childrenOf [⟨start, parentId, sourceName, targetFieldId, hivePartition⟩] start =
        [] := by
      apply childrenOf_eq_nil
      intro shell hshell heq
      rw [List.mem_singleton.1 hshell] at heq
      exact Nat.lt_irrefl _ (hparent start heq)
    rw [← List.singleton_append, childrenOf_append, hroot, List.nil_append, childrenOf,
      childrenOf, filter_parent (some start) (start + 1)
        (fun i hi => by cases hi; exact Nat.lt_succ_self _)] at hchildren
    have hrest : Owns shells (flattenNameMapEntries (some start) (start + 1) childEntries) := by
      rw [← List.singleton_append] at howns
      refine howns.right fun shell hshell shell' hshell' heq => ?_
      rw [List.mem_singleton.1 hshell'] at heq
      have hlt := hparent _ heq
      have hle := (mem_block (flattenNameMapEntries_ids _ _ _) hshell).1
      omega
    rw [List.length_cons] at hfuel
    cases fuel with
    | zero => cases hfuel
    | succ fuel =>
      obtain ⟨built, hbuilt, hpaths⟩ := mapM_numbered hchildren
        (buildNameMapEntries_of_owns (fun i hi => by cases hi; exact Nat.lt_succ_self _) hrest
          (Nat.le_of_succ_le_succ hfuel))
      refine ⟨⟨sourceName, targetFieldId, hivePartition, built⟩, ?_, ?_⟩
      · rw [buildNameMapEntry, hself, childrenOf, hbuilt]
        rfl
      · rw [DuckLakeNameMapEntry.toTree, DuckLakeNameMapEntry.toTree, paths, paths]
        exact (hpaths.map _).cons _

/-- Each entry of a block is built from the rows, whatever else the rows have. -/
theorem buildNameMapEntries_of_owns {parentId : Option ℕ} {start fuel : ℕ}
    (hparent : ∀ i ∈ parentId, i < start) : ∀ {entries : List DuckLakeNameMapEntry},
    Owns shells (flattenNameMapEntries parentId start entries) →
    (flattenNameMapEntries parentId start entries).length ≤ fuel →
    ∀ pair ∈ numberedEntries parentId start entries,
      ∃ built, buildNameMapEntry shells fuel pair.1 = some built ∧
        (paths pair.2.toTree).Perm (paths built.toTree)
  | [], _, _, pair, hpair => nomatch hpair
  | entry :: entries, howns, hfuel, pair, hpair => by
    rw [flattenNameMapEntries] at howns hfuel
    rw [List.length_append] at hfuel
    rcases List.mem_cons.1 hpair with rfl | hpair
    · refine buildNameMapEntry_of_owns hparent (howns.left ?_) (Nat.le_of_add_right_le hfuel)
      intro shell hshell shell' hshell' heq
      have hlt := mem_block (flattenNameMapEntry_ids _ _ _) hshell
      rcases flattenNameMapEntries_parents _ _ _ shell' hshell' with h | ⟨i, h, hle, -⟩
      · have := hparent _ (h.symm.trans heq)
        omega
      · cases h.symm.trans heq
        omega
    · refine buildNameMapEntries_of_owns
        (fun i hi => (hparent i hi).trans_le (Nat.le_add_right _ _)) (howns.right ?_) (by omega)
        pair hpair
      intro shell hshell shell' hshell' heq
      have hlt := mem_block (flattenNameMapEntries_ids _ _ _) hshell
      rcases flattenNameMapEntry_parents _ _ _ shell' hshell' with h | ⟨i, h, -, hle⟩
      · have := hparent _ (h.symm.trans heq)
        omega
      · cases h.symm.trans heq
        omega

end

end Build

/-- All rows of a name map, in any order, have what is looked up for each of its entries. -/
theorem owns_of_perm {shells : List EntryShell} {entries : List DuckLakeNameMapEntry}
    (h : shells.Perm (flattenNameMapEntries none 0 entries)) :
    Owns shells (flattenNameMapEntries none 0 entries) where
  found shell hshell := by
    have hnodup : (shells.map (·.entryId)).Nodup := by
      rw [(h.map _).nodup_iff, flattenNameMapEntries_ids]
      exact List.nodup_range'
    rw [shellById]
    cases hfind : shells.reverse.find? fun other => other.entryId = shell.entryId with
    | none =>
      have := List.find?_eq_none.1 hfind shell (List.mem_reverse.2 (h.symm.subset hshell))
      exact absurd (decide_eq_true rfl) this
    | some other =>
      have hother := List.mem_reverse.1 (List.mem_of_find?_eq_some hfind)
      have hid : other.entryId = shell.entryId :=
        of_decide_eq_true (List.find?_eq_some_iff_append.1 hfind).1
      exact congrArg some (List.inj_on_of_nodup_map hnodup hother (h.symm.subset hshell) hid)
  children shell _ := (h.filter _).map _

/-- The rows of a name map are read in any order as a map with the same paths. -/
theorem readStagedNameMap_of_perm {shells : List EntryShell} {nameMap : DuckLakeNameMap}
    (h : shells.Perm (flattenNameMapEntries none 0 nameMap.columnMaps)) :
    ∃ read, readStagedNameMap shells nameMap.tableId = some read ∧ nameMap.SamePaths read := by
  have hroots := (h.filter fun shell => shell.parentEntryId = none).map (·.entryId)
  have hparent : ∀ i ∈ (none : Option ℕ), i < 0 := fun i hi => nomatch hi
  rw [filter_parent none 0 hparent] at hroots
  obtain ⟨built, hbuilt, hpaths⟩ := mapM_numbered hroots
    (buildNameMapEntries_of_owns hparent (owns_of_perm h) h.length_eq.ge)
  refine ⟨⟨nameMap.tableId, built⟩, ?_, rfl, hpaths⟩
  rw [readStagedNameMap, hbuilt]
  rfl

/-- The name maps of a staged commit, whose rows the server may scan in any order, are read as maps
with the same ids, tables and paths. -/
theorem readStagedNameMaps_of_perm {nameMaps : List (MappingIndex × DuckLakeNameMap)}
    (hids : (nameMaps.map (·.1)).Nodup) {staged : StagedNameMaps}
    (hnameMap : staged.nameMap.Perm (emitNameMaps nameMaps).nameMap)
    (hentries : staged.nameMapEntry.Perm (emitNameMaps nameMaps).nameMapEntry) :
    ∃ read, readStagedNameMaps staged = some read ∧
      ∃ order, order.Perm nameMaps ∧
        List.Forall₂ (fun entry r => r.1 = entry.1 ∧ entry.2.SamePaths r.2) order read := by
  obtain ⟨order, horder, hheaders⟩ := exists_perm_of_map hnameMap
  have hread : ∀ entry ∈ order, ∃ r, staged.read (entry.1, entry.2.tableId) = some r ∧
      r.1 = entry.1 ∧ entry.2.SamePaths r.2 := by
    intro entry hentry
    have hkey : ∀ e ∈ nameMaps, ∀ row ∈ (flattenNameMapEntries none 0 e.2.columnMaps).map
        fun shell => (e.1, shell), row.1 = e.1 := by
      intro e _ row hrow
      obtain ⟨shell, -, rfl⟩ := List.mem_map.1 hrow
      rfl
    have hperm := (hentries.filter fun row => row.1 = entry.1).map (·.2)
    rw [emitNameMaps, filter_flatMap_key hids hkey (horder.subset hentry), List.map_map] at hperm
    have hrows : List.map ((fun row : MappingIndex × EntryShell => row.2) ∘
        fun shell => (entry.1, shell)) (flattenNameMapEntries none 0 entry.2.columnMaps) =
          flattenNameMapEntries none 0 entry.2.columnMaps := List.map_id _
    obtain ⟨r, hr, hpaths⟩ := readStagedNameMap_of_perm (hrows ▸ hperm)
    exact ⟨(entry.1, r), by rw [StagedNameMaps.read, hr]; rfl, rfl, hpaths⟩
  obtain ⟨read, hmap, hall⟩ := exists_mapM hread
  exact ⟨read, by rw [readStagedNameMaps, ← hheaders, hmap], order, horder, hall⟩

/-- A column with two fields. -/
def structMap : DuckLakeNameMap := ⟨1, [{
  sourceName := "s".toList
  targetFieldId := 1
  childEntries := [{ sourceName := "a".toList, targetFieldId := 2 },
    { sourceName := "b".toList, targetFieldId := 3 }] }]⟩

/-- Its rows, scanned from the last one. -/
def reversedRows : StagedNameMaps :=
  { emitNameMaps [(7, structMap)] with
    nameMapEntry := (emitNameMaps [(7, structMap)]).nameMapEntry.reverse }

theorem readStagedNameMaps_reversedRows :
    ∃ read, readStagedNameMaps reversedRows = some read ∧
      ∃ order, order.Perm [(7, structMap)] ∧
        List.Forall₂ (fun entry r => r.1 = entry.1 ∧ entry.2.SamePaths r.2) order read :=
  @readStagedNameMaps_of_perm [(7, structMap)] (List.nodup_singleton _) reversedRows (.refl _)
    (List.reverse_perm _)

end DuckLake
