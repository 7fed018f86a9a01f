import DuckLake.Lib.TreePaths
import DuckLake.Storage.CommitChanges

/-!
# Name maps

A name map says which field each column of a file belongs to. Two of them are compatible if one may
be used for the other; the compatible ones are found by a hash. Neither depends on the order of the
entries.
-/

namespace DuckLake

open RoseTree

/-! ## Name maps as trees -/

/-- An entry without its children. -/
structure NameMapLabel where
  sourceName : Text
  targetFieldId : FieldIndex
  hivePartition : Bool
deriving DecidableEq

mutual

def DuckLakeNameMapEntry.toTree : DuckLakeNameMapEntry → RoseTree NameMapLabel
  | ⟨sourceName, targetFieldId, hivePartition, childEntries⟩ =>
    .node ⟨sourceName, targetFieldId, hivePartition⟩ (nameMapTrees childEntries)

def nameMapTrees : List DuckLakeNameMapEntry → List (RoseTree NameMapLabel)
  | [] => []
  | entry :: entries => entry.toTree :: nameMapTrees entries

end

mutual

def nameMapEntry : RoseTree NameMapLabel → DuckLakeNameMapEntry
  | .node a children => ⟨a.sourceName, a.targetFieldId, a.hivePartition, nameMapEntries children⟩

def nameMapEntries : List (RoseTree NameMapLabel) → List DuckLakeNameMapEntry
  | [] => []
  | t :: ts => nameMapEntry t :: nameMapEntries ts

end

mutual

theorem toTree_nameMapEntry : ∀ t : RoseTree NameMapLabel, (nameMapEntry t).toTree = t
  | .node a children => by
    rw [nameMapEntry, DuckLakeNameMapEntry.toTree, nameMapTrees_nameMapEntries children]

theorem nameMapTrees_nameMapEntries :
    ∀ ts : List (RoseTree NameMapLabel), nameMapTrees (nameMapEntries ts) = ts
  | [] => rfl
  | t :: ts => by
    rw [nameMapEntries, nameMapTrees, toTree_nameMapEntry t, nameMapTrees_nameMapEntries ts]

end

def DuckLakeNameMapEntry.label (entry : DuckLakeNameMapEntry) : NameMapLabel :=
  ⟨entry.sourceName, entry.targetFieldId, entry.hivePartition⟩

@[simp] theorem label_toTree (entry : DuckLakeNameMapEntry) : entry.toTree.label = entry.label := by
  cases entry
  rw [DuckLakeNameMapEntry.toTree]
  rfl

@[simp] theorem children_toTree (entry : DuckLakeNameMapEntry) :
    entry.toTree.children = nameMapTrees entry.childEntries := by
  cases entry
  rw [DuckLakeNameMapEntry.toTree]
  rfl

theorem nameMapTrees_eq_map (entries : List DuckLakeNameMapEntry) :
    nameMapTrees entries = entries.map (·.toTree) := by
  induction entries with
  | nil => rfl
  | cons entry entries ih => rw [nameMapTrees, ih, List.map_cons]

/-- The paths of the entries of a name map, from the top level down. -/
def nameMapPaths (entries : List DuckLakeNameMapEntry) : List (List NameMapLabel) :=
  pathsAll (nameMapTrees entries)

/-- No two entries stand for the same column of the source. -/
def DistinctColumns (entries : List DuckLakeNameMapEntry) : Prop :=
  DistinctPaths (·.sourceName) (nameMapTrees entries)

/-! ## Compatibility and hashes -/

/-- `right_map`: the first entry of a name counts. -/
def nameMapIndex (entries : List DuckLakeNameMapEntry) : List (Text × DuckLakeNameMapEntry) :=
  entries.foldl (fun index entry =>
    if (index.lookup entry.sourceName).isSome then index
    else index ++ [(entry.sourceName, entry)]) []

mutual

def DuckLakeNameMapEntry.isCompatibleWith : DuckLakeNameMapEntry → DuckLakeNameMapEntry → Bool
  | ⟨sourceName, targetFieldId, hivePartition, childEntries⟩, other =>
    if sourceName ≠ other.sourceName then false
    else if targetFieldId ≠ other.targetFieldId then false
    else if hivePartition ≠ other.hivePartition then false
    else childEntries.length == other.childEntries.length &&
      listIsCompatibleLoop childEntries (nameMapIndex other.childEntries)

def listIsCompatibleLoop :
    List DuckLakeNameMapEntry → List (Text × DuckLakeNameMapEntry) → Bool
  | [], rightMap => rightMap.isEmpty
  | leftEntry :: left, rightMap =>
    match rightMap.lookup leftEntry.sourceName with
    | none => false
    | some rightEntry =>
      if leftEntry.isCompatibleWith rightEntry then
        listIsCompatibleLoop left (rightMap.filter fun e => e.1 ≠ leftEntry.sourceName)
      else false

end

/-- `ListIsCompatible`. -/
def listIsCompatible (left right : List DuckLakeNameMapEntry) : Bool :=
  left.length == right.length && listIsCompatibleLoop left (nameMapIndex right)

def DuckLakeNameMap.isCompatibleWith (map other : DuckLakeNameMap) : Bool :=
  if map.tableId ≠ other.tableId then false
  else listIsCompatible map.columnMaps other.columnMaps

/-- The hash functions of the engine. -/
class NameMapHash where
  hashName : Text → UInt64
  hashTable : TableIndex → UInt64

mutual

def DuckLakeNameMapEntry.getHash [NameMapHash] : DuckLakeNameMapEntry → UInt64
  | ⟨sourceName, _, _, childEntries⟩ => getHashAll (NameMapHash.hashName sourceName) childEntries

def getHashAll [NameMapHash] : UInt64 → List DuckLakeNameMapEntry → UInt64
  | result, [] => result
  | result, entry :: entries => getHashAll (result ^^^ entry.getHash) entries

end

def DuckLakeNameMap.getHash [NameMapHash] (map : DuckLakeNameMap) : UInt64 :=
  getHashAll (NameMapHash.hashTable map.tableId) map.columnMaps

theorem foldl_nameMapIndex {entries : List DuckLakeNameMapEntry}
    {index : List (Text × DuckLakeNameMapEntry)}
    (h : (index.map (·.1) ++ entries.map (·.sourceName)).Nodup) :
    entries.foldl (fun index entry =>
      if (index.lookup entry.sourceName).isSome then index
      else index ++ [(entry.sourceName, entry)]) index =
    index ++ entries.map fun entry => (entry.sourceName, entry) := by
  induction entries generalizing index with
  | nil => simp
  | cons entry entries ih =>
    have hnew : entry.sourceName ∉ index.map (·.1) := fun hmem =>
      (List.nodup_append.1 h).2.2 _ hmem _ (by simp) rfl
    have hlookup : index.lookup entry.sourceName = none := by
      rw [List.lookup_eq_none_iff]
      intro e he
      exact bne_iff_ne.2 fun (heq : entry.sourceName = e.1) =>
        hnew (heq ▸ List.mem_map_of_mem he)
    rw [List.foldl_cons, hlookup, Option.isSome_none, if_neg Bool.false_ne_true, ih]
    · simp
    · simpa using h

theorem nameMapIndex_eq {entries : List DuckLakeNameMapEntry}
    (h : (entries.map (·.sourceName)).Nodup) :
    nameMapIndex entries = entries.map fun entry => (entry.sourceName, entry) :=
  (foldl_nameMapIndex (by simpa using h)).trans (List.nil_append _)

theorem listIsCompatibleLoop_of_forall {left : List DuckLakeNameMapEntry}
    {rightMap : List (Text × DuckLakeNameMapEntry)} (hnodup : (rightMap.map (·.1)).Nodup)
    (hnames : (rightMap.map (·.1)).Perm (left.map (·.sourceName)))
    (h : ∀ entry ∈ left, ∀ other, (entry.sourceName, other) ∈ rightMap →
      entry.isCompatibleWith other = true) :
    listIsCompatibleLoop left rightMap = true := by
  induction left generalizing rightMap with
  | nil =>
    rw [listIsCompatibleLoop, List.isEmpty_iff]
    exact List.map_eq_nil_iff.1 (List.perm_nil.1 hnames)
  | cons entry left ih =>
    obtain ⟨e, he, hname⟩ := List.mem_map.1 (hnames.symm.subset (List.mem_cons_self ..))
    cases hlookup : rightMap.lookup entry.sourceName with
    | none =>
      exact absurd (List.lookup_eq_none_iff.1 hlookup e he) (by simp [hname])
    | some other =>
      have hother : (entry.sourceName, other) ∈ rightMap := by
        obtain ⟨before, after, rfl, -⟩ := List.lookup_eq_some_iff.1 hlookup
        simp
      rw [listIsCompatibleLoop, hlookup]
      dsimp only
      rw [if_pos (h entry (by simp) other hother)]
      have hkeys : (rightMap.filter fun e => e.1 ≠ entry.sourceName).map (·.1) =
          (rightMap.map (·.1)).filter fun name => name ≠ entry.sourceName := by
        rw [List.filter_map]
        rfl
      have hnodup' : (entry.sourceName :: left.map (·.sourceName)).Nodup := hnames.nodup hnodup
      refine ih ?_ ?_ fun entry' hentry' other' hother' =>
        h entry' (List.mem_cons_of_mem _ hentry') other' (List.mem_filter.1 hother').1
      · rw [hkeys]
        exact hnodup.filter _
      · rw [hkeys]
        refine (hnames.filter _).trans ?_
        rw [List.map_cons, List.filter_cons_of_neg (by simp),
          List.filter_eq_self.2 fun name hname => ?_]
        simpa using fun heq : name = entry.sourceName =>
          (List.nodup_cons.1 hnodup').1 (heq ▸ hname)

theorem nodup_sourceNames {entries : List DuckLakeNameMapEntry} (h : DistinctColumns entries) :
    (entries.map (·.sourceName)).Nodup := by
  have hroots := h.roots
  rw [nameMapTrees_eq_map, List.map_map] at hroots
  refine (congrArg List.Nodup (List.map_congr_left fun entry _ => ?_)).mp hroots
  rw [Function.comp_apply, label_toTree]
  rfl

theorem labels_perm {left right : List DuckLakeNameMapEntry}
    (h : (nameMapPaths left).Perm (nameMapPaths right)) :
    (left.map (·.label)).Perm (right.map (·.label)) := by
  have hroots := h.filterMap rootLabel
  rw [nameMapPaths, nameMapPaths, filterMap_rootLabel, filterMap_rootLabel, nameMapTrees_eq_map,
    nameMapTrees_eq_map, List.map_map, List.map_map] at hroots
  simpa only [Function.comp_def, label_toTree] using hroots

mutual

theorem isCompatibleWith_of_perm : ∀ {left right : DuckLakeNameMapEntry},
    left.label = right.label → DistinctColumns left.childEntries →
    (nameMapPaths left.childEntries).Perm (nameMapPaths right.childEntries) →
      left.isCompatibleWith right = true
  | ⟨sourceName, targetFieldId, hivePartition, childEntries⟩, right, hlabel, hdistinct, hperm => by
    have hlist := listIsCompatible_of_perm hdistinct hperm
    rw [DuckLakeNameMapEntry.isCompatibleWith]
    obtain ⟨rfl, rfl, rfl⟩ := NameMapLabel.mk.inj hlabel
    simpa [listIsCompatible] using hlist

/-- Name maps with the same paths are compatible. -/
theorem listIsCompatible_of_perm : ∀ {left right : List DuckLakeNameMapEntry},
    DistinctColumns left → (nameMapPaths left).Perm (nameMapPaths right) →
      listIsCompatible left right = true
  | left, right, hdistinct, hperm => by
    have hlabels := labels_perm hperm
    have hnames := hlabels.map (·.sourceName)
    rw [List.map_map, List.map_map] at hnames
    have hright : DistinctColumns right := hdistinct.perm hperm
    have hindex := nameMapIndex_eq (nodup_sourceNames hright)
    have hkeys : (nameMapIndex right).map (·.1) = right.map (·.sourceName) := by
      rw [hindex, List.map_map]
      rfl
    have hlength : left.length = right.length := by simpa using hlabels.length_eq
    rw [listIsCompatible, Bool.and_eq_true, beq_iff_eq]
    refine ⟨hlength, listIsCompatibleLoop_of_forall ?_ ?_ fun entry hentry other hother => ?_⟩
    · rw [hkeys]
      exact nodup_sourceNames hright
    · rw [hkeys]
      exact hnames.symm
    · have hmem : entry.toTree ∈ nameMapTrees left := by
        rw [nameMapTrees_eq_map]
        exact List.mem_map_of_mem hentry
      obtain ⟨u, hu, hlabel, hchildren⟩ := hdistinct.exists_perm_children hperm hmem
      have hdistinctChildren := hdistinct.children hmem
      rw [nameMapTrees_eq_map] at hu
      obtain ⟨other', hother', rfl⟩ := List.mem_map.1 hu
      rw [hindex] at hother
      obtain ⟨right', hright', heq⟩ := List.mem_map.1 hother
      obtain ⟨hname, rfl⟩ := Prod.mk.inj heq
      rw [label_toTree, label_toTree] at hlabel
      have hsame : right' = other' := List.inj_on_of_nodup_map (nodup_sourceNames hright) hright'
        hother' (hname.trans (congrArg NameMapLabel.sourceName hlabel.symm))
      rw [children_toTree] at hdistinctChildren
      rw [children_toTree, children_toTree] at hchildren
      have hlt : sizeOf entry < sizeOf left := List.sizeOf_lt_of_mem hentry
      exact isCompatibleWith_of_perm (hsame ▸ hlabel.symm) hdistinctChildren (hsame ▸ hchildren)

end

/-! ### Which name maps are compatible -/

theorem foldl_nameMapIndex_kept {entries : List DuckLakeNameMapEntry}
    {index : List (Text × DuckLakeNameMapEntry)} (h : (index.map (·.1)).Nodup) :
    ∃ kept : List DuckLakeNameMapEntry, kept.Sublist entries ∧
      entries.foldl (fun index entry =>
        if (index.lookup entry.sourceName).isSome then index
        else index ++ [(entry.sourceName, entry)]) index =
        (index ++ kept.map fun entry => (entry.sourceName, entry)) ∧
      ((index ++ kept.map fun entry => (entry.sourceName, entry)).map (·.1)).Nodup := by
  induction entries generalizing index with
  | nil => exact ⟨[], .slnil, by simp, by simpa using h⟩
  | cons entry entries ih =>
    rw [List.foldl_cons]
    split
    · obtain ⟨kept, hsub, heq, hnodup⟩ := ih h
      exact ⟨kept, hsub.cons _, heq, hnodup⟩
    · rename_i hnone
      have hnew : entry.sourceName ∉ index.map (·.1) := fun hmem => hnone (by
        obtain ⟨e, he, hname⟩ := List.mem_map.1 hmem
        by_contra hlookup
        rw [Option.not_isSome_iff_eq_none, List.lookup_eq_none_iff] at hlookup
        exact absurd (hlookup e he) (by simp [hname]))
      have hnodup : ((index ++ [(entry.sourceName, entry)]).map (·.1)).Nodup := by
        rw [List.map_append, List.nodup_append]
        refine ⟨h, by simp, fun name hname name' hname' heq => hnew ?_⟩
        rw [List.map_singleton, List.mem_singleton] at hname'
        rwa [heq, hname'] at hname
      obtain ⟨kept, hsub, heq, hnodup'⟩ := ih hnodup
      refine ⟨entry :: kept, hsub.cons_cons _, ?_, ?_⟩
      · simpa using heq
      · simpa using hnodup'

/-- The entries of an index: the first ones of their names. -/
theorem nameMapIndex_kept (entries : List DuckLakeNameMapEntry) :
    ∃ kept : List DuckLakeNameMapEntry, kept.Sublist entries ∧
      nameMapIndex entries = (kept.map fun entry => (entry.sourceName, entry)) ∧
      (kept.map (·.sourceName)).Nodup := by
  obtain ⟨kept, hsub, heq, hnodup⟩ := @foldl_nameMapIndex_kept entries [] .nil
  refine ⟨kept, hsub, heq, ?_⟩
  rw [List.nil_append, List.map_map] at hnodup
  exact hnodup

/-- The loop pairs each entry with the one of its name. -/
theorem forall₂_of_listIsCompatibleLoop {left : List DuckLakeNameMapEntry}
    {rightMap : List (Text × DuckLakeNameMapEntry)} (hnodup : (rightMap.map (·.1)).Nodup)
    (h : listIsCompatibleLoop left rightMap = true) :
    ∃ right, (right.Perm rightMap) ∧ List.Forall₂ (fun entry (other : Text × DuckLakeNameMapEntry) =>
      entry.sourceName = other.1 ∧ entry.isCompatibleWith other.2 = true) left right := by
  induction left generalizing rightMap with
  | nil =>
    rw [listIsCompatibleLoop, List.isEmpty_iff] at h
    exact ⟨[], .of_eq h.symm, .nil⟩
  | cons entry left ih =>
    rw [listIsCompatibleLoop] at h
    cases hlookup : rightMap.lookup entry.sourceName with
    | none => simp [hlookup] at h
    | some other =>
      rw [hlookup] at h
      dsimp only at h
      split at h
      · rename_i hcompatible
        obtain ⟨before, after, rfl, -⟩ := List.lookup_eq_some_iff.1 hlookup
        rw [List.map_append, List.map_cons, List.nodup_append, List.nodup_cons] at hnodup
        have hbefore : ∀ e ∈ before, e.1 ≠ entry.sourceName := fun e he heq =>
          hnodup.2.2 _ (List.mem_map_of_mem he) _ (List.mem_cons_self ..) heq
        have hafter : ∀ e ∈ after, e.1 ≠ entry.sourceName := by
          intro e he heq
          have hname := List.mem_map_of_mem (f := fun e : Text × DuckLakeNameMapEntry => e.1) he
          exact hnodup.2.1.1 (heq ▸ hname)
        have hfilter : (before ++ (entry.sourceName, other) :: after).filter
            (fun e => e.1 ≠ entry.sourceName) = before ++ after := by
          rw [List.filter_append, List.filter_cons_of_neg (by simp),
            List.filter_eq_self.2 fun e he => decide_eq_true (hbefore e he),
            List.filter_eq_self.2 fun e he => decide_eq_true (hafter e he)]
        rw [hfilter] at h
        have hnodup' : ((before ++ after).map (·.1)).Nodup := by
          rw [List.map_append, List.nodup_append]
          exact ⟨hnodup.1, hnodup.2.1.2, fun name hname name' hname' =>
            hnodup.2.2 name hname name' (List.mem_cons_of_mem _ hname')⟩
        obtain ⟨right, hperm, hpairs⟩ := ih hnodup' h
        exact ⟨(entry.sourceName, other) :: right, (hperm.cons _).trans List.perm_middle.symm,
          .cons ⟨rfl, hcompatible⟩ hpairs⟩
      · cases h

/-- Compatible lists are pairs of compatible entries, and no name stands twice in them. -/
theorem forall₂_of_listIsCompatible {left right : List DuckLakeNameMapEntry}
    (h : listIsCompatible left right = true) :
    (left.map (·.sourceName)).Nodup ∧ ∃ right', right'.Perm right ∧
      List.Forall₂ (fun entry other => entry.isCompatibleWith other = true) left right' := by
  rw [listIsCompatible, Bool.and_eq_true, beq_iff_eq] at h
  obtain ⟨hlength, hloop⟩ := h
  obtain ⟨kept, hsub, hindex, hnodup⟩ := nameMapIndex_kept right
  have hkeys : (nameMapIndex right).map (·.1) = kept.map (·.sourceName) := by
    rw [hindex, List.map_map]
    rfl
  obtain ⟨pairs, hperm, hpairs⟩ := forall₂_of_listIsCompatibleLoop (hkeys ▸ hnodup) hloop
  have hkept : kept = right := by
    apply hsub.eq_of_length
    rw [← hlength, hpairs.length_eq, hperm.length_eq, hindex, List.length_map]
  have hnames : List.Forall₂ Eq (left.map (·.sourceName)) (pairs.map (·.1)) :=
    List.forall₂_map_left_iff.2 (List.forall₂_map_right_iff.2 (hpairs.imp fun _ _ h => h.1))
  rw [List.forall₂_eq_eq_eq] at hnames
  constructor
  · rw [hnames]
    exact (hperm.map _).nodup_iff.2 (hkeys ▸ hnodup)
  · refine ⟨pairs.map (·.2), ?_, List.forall₂_map_right_iff.2 (hpairs.imp fun _ _ h => h.2)⟩
    have hright : (nameMapIndex right).map (·.2) = right := by
      rw [hindex, List.map_map, hkept]
      exact List.map_id _
    exact (hperm.map _).trans (.of_eq hright)

theorem nameMapPaths_eq_flatMap (entries : List DuckLakeNameMapEntry) :
    nameMapPaths entries = entries.flatMap fun entry => paths entry.toTree := by
  induction entries with
  | nil => rfl
  | cons entry entries ih =>
    rw [List.flatMap_cons, ← ih]
    rfl

theorem forall₂_mem {α β : Type} {R : α → β → Prop} {l : List α} {m : List β}
    (h : List.Forall₂ R l m) : List.Forall₂ (fun a b => a ∈ l ∧ R a b) l m := by
  rw [List.forall₂_iff_zip] at h ⊢
  exact ⟨h.1, fun hmem => ⟨(List.of_mem_zip hmem).1, h.2 hmem⟩⟩

theorem flatMap_perm_of_forall₂ {α β γ : Type} {f : α → List γ} {g : β → List γ} {l : List α}
    {m : List β} (h : List.Forall₂ (fun a b => (f a).Perm (g b)) l m) :
    (l.flatMap f).Perm (m.flatMap g) := by
  induction h with
  | nil => exact .refl _
  | cons hab _ ih =>
    rw [List.flatMap_cons, List.flatMap_cons]
    exact hab.append ih

mutual

theorem perm_of_isCompatibleWith : ∀ {left right : DuckLakeNameMapEntry},
    left.isCompatibleWith right = true → DistinctColumns left.childEntries ∧
      (paths left.toTree).Perm (paths right.toTree)
  | ⟨sourceName, targetFieldId, hivePartition, childEntries⟩,
      ⟨sourceName', targetFieldId', hivePartition', childEntries'⟩, h => by
    rw [DuckLakeNameMapEntry.isCompatibleWith] at h
    split at h
    · cases h
    rename_i hname
    split at h
    · cases h
    rename_i htarget
    split at h
    · cases h
    rename_i hhive
    obtain ⟨hdistinct, hperm⟩ : DistinctColumns childEntries ∧
        (nameMapPaths childEntries).Perm (nameMapPaths childEntries') := perm_of_listIsCompatible h
    refine ⟨hdistinct, ?_⟩
    have hlabel := And.intro (not_not.1 hname) (And.intro (not_not.1 htarget) (not_not.1 hhive))
    obtain ⟨rfl, rfl, rfl⟩ := hlabel
    rw [paths_eq, paths_eq, label_toTree, label_toTree, children_toTree, children_toTree]
    exact (hperm.map _).cons _

theorem perm_of_listIsCompatible : ∀ {left right : List DuckLakeNameMapEntry},
    listIsCompatible left right = true →
      DistinctColumns left ∧ (nameMapPaths left).Perm (nameMapPaths right)
  | left, right, h => by
    obtain ⟨hnames, right', hperm, hpairs⟩ := forall₂_of_listIsCompatible h
    have hentries : List.Forall₂ (fun entry other => DistinctColumns entry.childEntries ∧
        (paths entry.toTree).Perm (paths other.toTree)) left right' :=
      (forall₂_mem hpairs).imp fun entry other hmem => by
        have hlt : sizeOf entry < sizeOf left := List.sizeOf_lt_of_mem hmem.1
        exact perm_of_isCompatibleWith hmem.2
    constructor
    · apply DistinctPaths.of_roots
      · rw [nameMapTrees_eq_map, List.map_map]
        refine (congrArg List.Nodup (List.map_congr_left fun entry _ => ?_)).mp hnames
        rw [Function.comp_apply, label_toTree]
        rfl
      · intro t ht
        rw [nameMapTrees_eq_map] at ht
        obtain ⟨entry, hentry, rfl⟩ := List.mem_map.1 ht
        rw [children_toTree]
        obtain ⟨i, hi, rfl⟩ := List.getElem_of_mem hentry
        have hi' : i < right'.length := hentries.length_eq ▸ hi
        exact ((List.forall₂_iff_get.1 hentries).2 i hi hi').1
    · rw [nameMapPaths_eq_flatMap, nameMapPaths_eq_flatMap]
      exact (flatMap_perm_of_forall₂ (hentries.imp fun _ _ h => h.2)).trans
        (hperm.flatMap_right _)

end

/-- Compatible name maps are those that map the same columns, each of them once. -/
theorem listIsCompatible_iff {left right : List DuckLakeNameMapEntry} :
    listIsCompatible left right = true ↔
      DistinctColumns left ∧ (nameMapPaths left).Perm (nameMapPaths right) :=
  ⟨perm_of_listIsCompatible, fun h => listIsCompatible_of_perm h.1 h.2⟩

/-- A name map that maps the same columns of the same table. -/
structure DuckLakeNameMap.SamePaths (map other : DuckLakeNameMap) : Prop where
  tableId : map.tableId = other.tableId
  paths : (nameMapPaths map.columnMaps).Perm (nameMapPaths other.columnMaps)

theorem isCompatibleWith_iff {map other : DuckLakeNameMap} :
    map.isCompatibleWith other = true ↔ DistinctColumns map.columnMaps ∧ map.SamePaths other := by
  rw [DuckLakeNameMap.isCompatibleWith]
  split
  · rename_i hne
    simp only [Bool.false_eq_true, false_iff]
    exact fun h => hne h.2.tableId
  · rename_i heq
    rw [listIsCompatible_iff]
    exact and_congr_right fun _ => ⟨fun h => ⟨not_not.1 heq, h⟩, fun h => h.paths⟩

/-! ### Hashes -/

section Hash

variable [NameMapHash]

/-- What the entry at the end of a path adds to the hash of its name map. -/
def pathHash (path : List NameMapLabel) : UInt64 :=
  (path.getLast?.map fun a => NameMapHash.hashName a.sourceName).getD 0

theorem map_pathHash_cons (a : NameMapLabel) (ts : List (RoseTree NameMapLabel)) :
    ((pathsAll ts).map (a :: ·)).map pathHash = (pathsAll ts).map pathHash := by
  rw [List.map_map]
  refine List.map_congr_left fun path hpath => ?_
  obtain ⟨b, bs, rfl⟩ := List.exists_cons_of_ne_nil (ne_nil_of_mem_pathsAll hpath)
  rw [Function.comp_apply, pathHash, List.getLast?_cons_cons, pathHash]

omit [NameMapHash] in
theorem foldl_xor (h : UInt64) (l : List UInt64) :
    l.foldl (· ^^^ ·) h = h ^^^ l.foldl (· ^^^ ·) 0 := by
  induction l generalizing h with
  | nil => simp
  | cons a l ih => rw [List.foldl_cons, List.foldl_cons, ih, ih (0 ^^^ a), UInt64.zero_xor,
      UInt64.xor_assoc]

mutual

theorem getHash_eq : ∀ entry : DuckLakeNameMapEntry,
    entry.getHash = ((paths entry.toTree).map pathHash).foldl (· ^^^ ·) 0
  | ⟨sourceName, targetFieldId, hivePartition, childEntries⟩ => by
    rw [DuckLakeNameMapEntry.getHash, getHashAll_eq childEntries, DuckLakeNameMapEntry.toTree, paths,
      List.map_cons, map_pathHash_cons, List.foldl_cons, UInt64.zero_xor]
    rfl

/-- A hash is put together from the names of all entries, in any order. -/
theorem getHashAll_eq : ∀ (entries : List DuckLakeNameMapEntry) (h : UInt64),
    getHashAll h entries = ((nameMapPaths entries).map pathHash).foldl (· ^^^ ·) h
  | [], h => by simp [getHashAll, nameMapPaths, nameMapTrees, pathsAll]
  | entry :: entries, h => by
    rw [getHashAll, getHashAll_eq entries, getHash_eq entry, ← foldl_xor, nameMapPaths, nameMapPaths,
      nameMapTrees, pathsAll, List.map_append, List.foldl_append]

end

theorem getHashAll_perm {left right : List DuckLakeNameMapEntry}
    (hperm : (nameMapPaths left).Perm (nameMapPaths right)) (h : UInt64) :
    getHashAll h left = getHashAll h right := by
  have : RightCommutative (fun a b : UInt64 => a ^^^ b) :=
    ⟨fun a b c => by rw [UInt64.xor_assoc, UInt64.xor_comm b, ← UInt64.xor_assoc]⟩
  rw [getHashAll_eq, getHashAll_eq]
  exact (hperm.map pathHash).foldl_eq h

end Hash

/-- Two name maps are compatible exactly if each column stands once in them and they map the same
columns of one table to the same fields, and then they have the same hash. -/
theorem isCompatibleWith_iff_samePaths [NameMapHash] (map other : DuckLakeNameMap) :
    (map.isCompatibleWith other = true ↔
      DistinctColumns map.columnMaps ∧ map.SamePaths other) ∧
    (map.isCompatibleWith other = true → map.getHash = other.getHash) := by
  refine ⟨isCompatibleWith_iff, fun h => ?_⟩
  have hsame := (isCompatibleWith_iff.1 h).2
  rw [DuckLakeNameMap.getHash, DuckLakeNameMap.getHash, hsame.tableId]
  exact getHashAll_perm hsame.paths _

end DuckLake
