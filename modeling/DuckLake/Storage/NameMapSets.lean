import Mathlib.Data.List.Pairwise
import DuckLake.Storage.NameMapRows

/-!
# Sets of name maps

A set of name maps finds a map by its id and, so that it may be used again, by any map that is
compatible with it. For the latter it has a hash set that refers to the maps of the set.
-/

namespace DuckLake

open RoseTree

/-- `DuckLakeNameMapSet`. The compatibility set refers to name maps; here it holds them, with their
ids. -/
structure DuckLakeNameMapSet where
  nameMaps : List (MappingIndex × DuckLakeNameMap) := []
  compatibilitySet : List (MappingIndex × DuckLakeNameMap) := []

section

variable [NameMapHash]

/-- How the compatibility set compares its elements. -/
def DuckLakeNameMap.sameElement (map other : DuckLakeNameMap) : Bool :=
  map.getHash == other.getHash && map.isCompatibleWith other

namespace DuckLakeNameMapSet

def tryGetCompatibleNameMap (s : DuckLakeNameMapSet) (map : DuckLakeNameMap) :
    Option MappingIndex :=
  (s.compatibilitySet.find? fun e => map.sameElement e.2).map (·.1)

/-- `Add`: `emplace` keeps a map that is there, and so does `insert`. -/
def add (s : DuckLakeNameMapSet) (e : MappingIndex × DuckLakeNameMap) : DuckLakeNameMapSet where
  nameMaps := if (s.nameMaps.lookup e.1).isSome then s.nameMaps else s.nameMaps ++ [e]
  compatibilitySet :=
    if s.compatibilitySet.any fun c => e.2.sameElement c.2 then s.compatibilitySet
    else s.compatibilitySet ++ [e]

def remove (s : DuckLakeNameMapSet) (mappingId : MappingIndex) : DuckLakeNameMapSet :=
  match s.nameMaps.lookup mappingId with
  | none => s
  | some map => {
      nameMaps := s.nameMaps.filter fun e => e.1 ≠ mappingId
      compatibilitySet :=
        match s.compatibilitySet.find? fun c => map.sameElement c.2 with
        | some c =>
          if c.1 = mappingId then s.compatibilitySet.eraseP fun c => map.sameElement c.2
          else s.compatibilitySet
        | none => s.compatibilitySet }

end DuckLakeNameMapSet

end

/-! ## Equal elements -/

namespace DuckLakeNameMap

variable {map other third : DuckLakeNameMap}

theorem SamePaths.refl (map : DuckLakeNameMap) : map.SamePaths map := ⟨rfl, .refl _⟩

theorem SamePaths.symm (h : map.SamePaths other) : other.SamePaths map :=
  ⟨h.tableId.symm, h.paths.symm⟩

theorem SamePaths.trans (h : map.SamePaths other) (h' : other.SamePaths third) :
    map.SamePaths third := ⟨h.tableId.trans h'.tableId, h.paths.trans h'.paths⟩

theorem SamePaths.distinct (h : map.SamePaths other) (hdistinct : DistinctColumns map.columnMaps) :
    DistinctColumns other.columnMaps := DistinctPaths.perm hdistinct h.paths

theorem nameMapPaths_eq_nil {entries : List DuckLakeNameMapEntry} :
    nameMapPaths entries = [] ↔ entries = [] := by
  constructor
  · intro h
    cases entries with
    | nil => rfl
    | cons entry entries =>
      rw [nameMapPaths, nameMapTrees, pathsAll, paths_eq] at h
      cases h
  · rintro rfl
    rfl

theorem SamePaths.ne_nil (h : map.SamePaths other) (hne : map.columnMaps ≠ []) :
    other.columnMaps ≠ [] := fun heq => by
  have hpaths := h.paths
  rw [heq, nameMapPaths_eq_nil.2 rfl] at hpaths
  exact hne (nameMapPaths_eq_nil.1 hpaths.eq_nil)

variable [NameMapHash]

theorem SamePaths.getHash_eq (h : map.SamePaths other) : map.getHash = other.getHash := by
  rw [getHash, getHash, h.tableId]
  exact getHashAll_perm h.paths _

/-- Compatible name maps have the same hash. -/
theorem sameElement_iff :
    map.sameElement other = true ↔ DistinctColumns map.columnMaps ∧ map.SamePaths other := by
  rw [sameElement, Bool.and_eq_true, beq_iff_eq, isCompatibleWith_iff]
  exact ⟨fun h => h.2, fun h => ⟨h.2.getHash_eq, h⟩⟩

theorem sameElement_symm (h : map.sameElement other = true) : other.sameElement map = true := by
  rw [sameElement_iff] at h ⊢
  exact ⟨h.2.distinct h.1, h.2.symm⟩

end DuckLakeNameMap

/-! ## The invariant of a set -/

open DuckLakeNameMap

namespace DuckLakeNameMapSet

variable [NameMapHash]

/-- Each map of a set has an id of its own, and the compatibility set refers only to maps of the
set, no two of them compatible. -/
structure WellFormed (s : DuckLakeNameMapSet) : Prop where
  nodup : (s.nameMaps.map (·.1)).Nodup
  distinct : ∀ e ∈ s.nameMaps, DistinctColumns e.2.columnMaps
  owned : s.compatibilitySet ⊆ s.nameMaps
  apart : s.compatibilitySet.Pairwise fun c c' => c.2.sameElement c'.2 = false

theorem wellFormed_empty : ({} : DuckLakeNameMapSet).WellFormed :=
  ⟨.nil, nofun, List.nil_subset _, .nil⟩

namespace WellFormed

variable {s : DuckLakeNameMapSet} {id : MappingIndex} {map : DuckLakeNameMap}

omit [NameMapHash] in
theorem mem_of_lookup (h : s.nameMaps.lookup id = some map) : (id, map) ∈ s.nameMaps := by
  obtain ⟨before, after, heq, -⟩ := List.lookup_eq_some_iff.1 h
  simp [heq]

theorem lookup_of_mem (h : s.WellFormed) {e : MappingIndex × DuckLakeNameMap}
    (he : e ∈ s.nameMaps) : s.nameMaps.lookup e.1 = some e.2 := by
  cases hlookup : s.nameMaps.lookup e.1 with
  | none => exact absurd (List.lookup_eq_none_iff.1 hlookup e he) (by simp)
  | some map =>
    have hsame := List.inj_on_of_nodup_map h.nodup (mem_of_lookup hlookup) he rfl
    exact congrArg (fun e => some e.2) hsame

theorem eq_of_same (h : s.WellFormed) {c c' : MappingIndex × DuckLakeNameMap}
    (hc : c ∈ s.compatibilitySet) (hc' : c' ∈ s.compatibilitySet)
    (hsame : c.2.sameElement c'.2 = true) : c = c' := by
  have hsymm : Std.Symm fun c c' : MappingIndex × DuckLakeNameMap =>
      c.2.sameElement c'.2 = false :=
    ⟨fun c c' hne => Bool.eq_false_iff.2 fun heq =>
      Bool.eq_false_iff.1 hne (sameElement_symm heq)⟩
  by_contra hne
  exact absurd hsame (Bool.eq_false_iff.1 (h.apart.forall hc hc' hne))

theorem filter (h : s.WellFormed) (p : MappingIndex → Bool) :
    WellFormed ⟨s.nameMaps.filter fun e => p e.1, s.compatibilitySet.filter fun e => p e.1⟩ where
  nodup := h.nodup.sublist (List.filter_sublist.map _)
  distinct _ he := h.distinct _ (List.mem_of_mem_filter he)
  owned _ he := List.mem_filter.2 ⟨h.owned (List.mem_of_mem_filter he), (List.mem_filter.1 he).2⟩
  apart := h.apart.filter _

/-- Removing a map takes it out of both. -/
theorem remove_eq (h : s.WellFormed) (id : MappingIndex) :
    s.remove id = ⟨s.nameMaps.filter fun e => e.1 ≠ id,
      s.compatibilitySet.filter fun e => e.1 ≠ id⟩ := by
  rw [remove]
  cases hlookup : s.nameMaps.lookup id with
  | none =>
    have hnone : ∀ e ∈ s.nameMaps, e.1 ≠ id := fun e he heq =>
      absurd (List.lookup_eq_none_iff.1 hlookup e he) (by simp [heq])
    rw [List.filter_eq_self.2 fun e he => decide_eq_true (hnone e he),
      List.filter_eq_self.2 fun e he => decide_eq_true (hnone e (h.owned he))]
  | some map =>
    have hmap := mem_of_lookup hlookup
    have hself : map.sameElement map = true := sameElement_iff.2 ⟨h.distinct _ hmap, .refl _⟩
    -- An element of the compatibility set with this id is this map.
    have hthis : ∀ c ∈ s.compatibilitySet, c.1 = id → c = (id, map) := fun c hc heq =>
      List.inj_on_of_nodup_map h.nodup (h.owned hc) hmap heq
    dsimp only
    congr 1
    cases hfind : s.compatibilitySet.find? fun c => map.sameElement c.2 with
    | none =>
      dsimp only
      refine (List.filter_eq_self.2 fun c hc => decide_eq_true ?_).symm
      intro heq
      apply List.find?_eq_none.1 hfind c hc
      rw [hthis c hc heq]
      exact hself
    | some c =>
      dsimp only
      obtain ⟨hsame, before, after, hsplit, hbefore⟩ := List.find?_eq_some_iff_append.1 hfind
      have hc : c ∈ s.compatibilitySet := by simp [hsplit]
      split
      · rename_i hid
        have hrest : ∀ c' ∈ before ++ after, c'.1 ≠ id := by
          intro c' hc' heq
          have hmem : c' ∈ s.compatibilitySet := by
            rw [hsplit]
            rcases List.mem_append.1 hc' with hc' | hc'
            · exact List.mem_append_left _ hc'
            · exact List.mem_append_right _ (List.mem_cons_of_mem _ hc')
          have hmap' := hthis c' hmem heq
          rcases List.mem_append.1 hc' with hc' | hc'
          · have := hbefore c' hc'
            rw [hmap', hself] at this
            cases this
          · have hapart := h.apart
            rw [hsplit, List.pairwise_append, List.pairwise_cons] at hapart
            have := hapart.2.1.1 c' hc'
            rw [hmap', hthis c hc hid, hself] at this
            cases this
        have hbefore' : ∀ c' ∈ before, ¬ map.sameElement c'.2 = true := fun c' hc' heq => by
          have := hbefore c' hc'
          rw [heq] at this
          cases this
        have herase : (c :: after).eraseP (fun e => map.sameElement e.2) = after := by
          simp [hsame]
        rw [hsplit, List.eraseP_append_right _ hbefore', herase,
          List.filter_append, List.filter_cons_of_neg (by simp [hid]), ← List.filter_append,
          List.filter_eq_self.2 fun c' hc' => decide_eq_true (hrest c' hc')]
      · rename_i hid
        refine (List.filter_eq_self.2 fun c' hc' => decide_eq_true ?_).symm
        intro heq
        have hmap' := hthis c' hc' heq
        have hsame' : c'.2.sameElement c.2 = true := by rwa [hmap']
        exact hid (h.eq_of_same hc' hc hsame' ▸ heq)

theorem foldl_remove_eq (h : s.WellFormed) (ids : List MappingIndex) :
    ids.foldl (·.remove) s = ⟨s.nameMaps.filter fun e => e.1 ∉ ids,
      s.compatibilitySet.filter fun e => e.1 ∉ ids⟩ := by
  induction ids generalizing s with
  | nil => simp
  | cons id ids ih =>
    rw [List.foldl_cons, h.remove_eq, ih (h.filter fun i => i ≠ id), List.filter_filter,
      List.filter_filter]
    congr 1 <;> refine List.filter_congr fun e _ => ?_ <;>
      simp [Bool.and_comm]

/-- The set finds a map with the same paths. -/
theorem exists_of_tryGet (h : s.WellFormed) (hget : s.tryGetCompatibleNameMap map = some id) :
    ∃ e ∈ s.nameMaps, e.1 = id ∧ map.SamePaths e.2 := by
  rw [tryGetCompatibleNameMap, Option.map_eq_some_iff] at hget
  obtain ⟨c, hfind, rfl⟩ := hget
  obtain ⟨hsame, -⟩ := List.find?_eq_some_iff_append.1 hfind
  exact ⟨c, h.owned (List.mem_of_find?_eq_some hfind), rfl, (sameElement_iff.1 hsame).2⟩

theorem tryGet_eq_none (hget : s.tryGetCompatibleNameMap map = none) :
    (s.compatibilitySet.any fun c => map.sameElement c.2) = false := by
  rw [tryGetCompatibleNameMap, Option.map_eq_none_iff] at hget
  rw [List.any_eq_false]
  exact List.find?_eq_none.1 hget

/-- A map under a new id, which the set has no compatible map for. -/
theorem add_new (h : s.WellFormed) (hnew : ∀ e ∈ s.nameMaps, e.1 ≠ id)
    (hget : s.tryGetCompatibleNameMap map = none) (hdistinct : DistinctColumns map.columnMaps) :
    (s.add (id, map)).WellFormed ∧ (s.add (id, map)).nameMaps = s.nameMaps ++ [(id, map)] := by
  have hlookup : s.nameMaps.lookup id = none := by
    rw [List.lookup_eq_none_iff]
    exact fun e he => bne_iff_ne.2 (hnew e he).symm
  have hany := tryGet_eq_none hget
  rw [DuckLakeNameMapSet.add]
  simp only [hlookup, hany, Option.isSome_none, Bool.false_eq_true, if_false, and_true]
  constructor
  · rw [List.map_append, List.nodup_append]
    refine ⟨h.nodup, by simp, fun i hi i' hi' heq => ?_⟩
    obtain ⟨e, he, rfl⟩ := List.mem_map.1 hi
    exact hnew e he (heq.trans (List.mem_singleton.1 hi'))
  · intro e he
    rcases List.mem_append.1 he with he | he
    · exact h.distinct e he
    · rw [List.mem_singleton.1 he]
      exact hdistinct
  · exact List.append_subset.2 ⟨fun c hc => List.mem_append_left _ (h.owned hc),
      List.subset_append_right _ _⟩
  · rw [List.pairwise_append]
    refine ⟨h.apart, List.pairwise_singleton _ _, fun c hc c' hc' => ?_⟩
    rw [List.mem_singleton.1 hc', Bool.eq_false_iff]
    exact fun hsame => List.any_eq_false.1 hany c hc (sameElement_symm hsame)

end WellFormed

/-- What a set holds of the name maps that were ever written: for each of its maps one with the same
paths, under the same id. A map stands in the compatibility set for those that are compatible with
it, and if it is still there then so are they. -/
structure Represents (s : DuckLakeNameMapSet) (history written : List (MappingIndex × DuckLakeNameMap)) :
    Prop extends s.WellFormed where
  known : ∀ e ∈ s.nameMaps, ∃ h ∈ history, h.1 = e.1 ∧ h.2.SamePaths e.2 ∧ h.2.columnMaps ≠ []
  represented : ∀ e ∈ s.nameMaps, ∃ c ∈ s.compatibilitySet, e.2.sameElement c.2 = true ∧
    (c.1 ∈ written.map (·.1) → e.1 ∈ written.map (·.1))

namespace Represents

variable {s : DuckLakeNameMapSet} {history written : List (MappingIndex × DuckLakeNameMap)}

theorem empty : ({} : DuckLakeNameMapSet).Represents history written :=
  ⟨wellFormed_empty, nofun, nofun⟩

/-- A set has one of the maps that a map is compatible with exactly if it finds one. -/
theorem any_sameElement (h : s.Represents history written) {map : DuckLakeNameMap}
    {e : MappingIndex × DuckLakeNameMap} (he : e ∈ s.nameMaps) (hsame : map.sameElement e.2 = true) :
    ∃ c ∈ s.compatibilitySet, map.sameElement c.2 = true := by
  obtain ⟨c, hc, hec, -⟩ := h.represented e he
  rw [sameElement_iff] at hsame hec
  exact ⟨c, hc, sameElement_iff.2 ⟨hsame.1, hsame.2.trans hec.2⟩⟩

/-- Adding a map under its id; one that is there under this id has the same paths. -/
theorem add (h : s.Represents history written) (hids : (history.map (·.1)).Nodup)
    {w : MappingIndex × DuckLakeNameMap} (hw : w ∈ history) (hlive : w.1 ∈ written.map (·.1))
    (hdistinct : DistinctColumns w.2.columnMaps) (hne : w.2.columnMaps ≠ [])
    {map : DuckLakeNameMap} (hpaths : w.2.SamePaths map) :
    (s.add (w.1, map)).Represents history written ∧ w.1 ∈ (s.add (w.1, map)).nameMaps.map (·.1) ∧
      s.nameMaps ⊆ (s.add (w.1, map)).nameMaps := by
  have hmap := hpaths.distinct hdistinct
  have hself : map.sameElement map = true := sameElement_iff.2 ⟨hmap, .refl _⟩
  rw [DuckLakeNameMapSet.add]
  cases hlookup : s.nameMaps.lookup w.1 with
  | some map' =>
    -- the map is there, and so is one in the compatibility set
    have hmem := WellFormed.mem_of_lookup hlookup
    obtain ⟨w', hw', hid, hpaths', -⟩ := h.known _ hmem
    obtain rfl := List.inj_on_of_nodup_map hids hw' hw hid
    have hsame : map.sameElement map' = true :=
      sameElement_iff.2 ⟨hmap, hpaths.symm.trans hpaths'⟩
    have hany : (s.compatibilitySet.any fun c => map.sameElement c.2) = true :=
      List.any_eq_true.2 (h.any_sameElement hmem hsame)
    simp only [hany, Option.isSome_some, if_true]
    exact ⟨h, List.mem_map.2 ⟨_, hmem, rfl⟩, fun _ he => he⟩
  | none =>
    have hnew : ∀ e ∈ s.nameMaps, e.1 ≠ w.1 := fun e he heq =>
      absurd (List.lookup_eq_none_iff.1 hlookup e he) (by simp [heq])
    simp only [Option.isSome_none, Bool.false_eq_true, if_false]
    refine ⟨?_, by simp, List.subset_append_left _ _⟩
    have hnodup : ((s.nameMaps ++ [(w.1, map)]).map (·.1)).Nodup := by
      rw [List.map_append, List.nodup_append]
      refine ⟨h.nodup, by simp, fun id hid id' hid' heq => ?_⟩
      obtain ⟨e, he, rfl⟩ := List.mem_map.1 hid
      exact hnew e he (heq.trans (List.mem_singleton.1 hid'))
    have hdistinct' : ∀ e ∈ s.nameMaps ++ [(w.1, map)], DistinctColumns e.2.columnMaps := by
      intro e he
      rcases List.mem_append.1 he with he | he
      · exact h.distinct e he
      · rw [List.mem_singleton.1 he]
        exact hmap
    have hknown : ∀ e ∈ s.nameMaps ++ [(w.1, map)],
        ∃ h ∈ history, h.1 = e.1 ∧ h.2.SamePaths e.2 ∧ h.2.columnMaps ≠ [] := by
      intro e he
      rcases List.mem_append.1 he with he | he
      · exact h.known e he
      · rw [List.mem_singleton.1 he]
        exact ⟨w, hw, rfl, hpaths, hne⟩
    split
    · rename_i hany
      refine ⟨⟨hnodup, hdistinct', fun c hc => List.mem_append_left _ (h.owned hc), h.apart⟩,
        hknown, fun e he => ?_⟩
      rcases List.mem_append.1 he with he | he
      · exact h.represented e he
      · rw [List.mem_singleton.1 he]
        obtain ⟨c, hc, hsame⟩ := List.any_eq_true.1 hany
        exact ⟨c, hc, hsame, fun _ => hlive⟩
    · rename_i hany
      have hnone : ∀ c ∈ s.compatibilitySet, ¬ map.sameElement c.2 = true := fun c hc hsame =>
        hany (List.any_eq_true.2 ⟨c, hc, hsame⟩)
      refine ⟨⟨hnodup, hdistinct', List.append_subset.2 ⟨fun c hc =>
        List.mem_append_left _ (h.owned hc), fun c hc => List.mem_append_right _ hc⟩, ?_⟩,
        hknown, fun e he => ?_⟩
      · rw [List.pairwise_append]
        refine ⟨h.apart, List.pairwise_singleton _ _, fun c hc c' hc' => ?_⟩
        rw [List.mem_singleton.1 hc', Bool.eq_false_iff]
        exact fun hsame => hnone c hc (sameElement_symm hsame)
      · rcases List.mem_append.1 he with he | he
        · obtain ⟨c, hc, hrest⟩ := h.represented e he
          exact ⟨c, List.mem_append_left _ hc, hrest⟩
        · rw [List.mem_singleton.1 he]
          exact ⟨(w.1, map), by simp, hself, fun _ => hlive⟩

/-- New name maps get ids that the set does not have. -/
theorem write (h : s.Represents history written) {new : List (MappingIndex × DuckLakeNameMap)}
    (hnew : ∀ e ∈ history, e.1 ∉ new.map (·.1)) :
    s.Represents (history ++ new) (written ++ new) := by
  refine ⟨h.toWellFormed, fun e he => ?_, fun e he => ?_⟩
  · obtain ⟨w, hw, hrest⟩ := h.known e he
    exact ⟨w, List.mem_append_left _ hw, hrest⟩
  · obtain ⟨c, hc, hsame, hlive⟩ := h.represented e he
    refine ⟨c, hc, hsame, fun hmem => ?_⟩
    rw [List.map_append] at hmem ⊢
    rcases List.mem_append.1 hmem with hmem | hmem
    · exact List.mem_append_left _ (hlive hmem)
    · obtain ⟨w, hw, hid, -⟩ := h.known c (h.owned hc)
      exact absurd (hid ▸ hmem) (hnew w hw)

/-- The maps of tables that another catalog has deleted stay. -/
theorem expireElsewhere (h : s.Represents history written) (hids : (history.map (·.1)).Nodup)
    (hsub : written ⊆ history) (keeps : TableIndex → Bool) :
    s.Represents history (written.filter fun e => keeps e.2.tableId) := by
  refine ⟨h.toWellFormed, h.known, fun e he => ?_⟩
  obtain ⟨c, hc, hsame, hlive⟩ := h.represented e he
  refine ⟨c, hc, hsame, fun hmem => ?_⟩
  obtain ⟨w, hw, hwc⟩ := List.mem_map.1 hmem
  obtain ⟨hw, hkept⟩ := List.mem_filter.1 hw
  obtain ⟨w', hw', hwe⟩ := List.mem_map.1 (hlive (List.mem_map.2 ⟨w, hw, hwc⟩))
  refine List.mem_map.2 ⟨w', List.mem_filter.2 ⟨hw', ?_⟩, hwe⟩
  -- both are maps of one table
  have htable : w'.2.tableId = w.2.tableId := by
    obtain ⟨e', he', hid, hpaths, -⟩ := h.known e he
    obtain ⟨c', hc', hid', hpaths', -⟩ := h.known c (h.owned hc)
    obtain rfl := List.inj_on_of_nodup_map hids he' (hsub hw') (hid.trans hwe.symm)
    obtain rfl := List.inj_on_of_nodup_map hids hc' (hsub hw) (hid'.trans hwc.symm)
    rw [hpaths.tableId, hpaths'.tableId]
    exact (sameElement_iff.1 hsame).2.tableId
  rwa [htable]

end Represents

end DuckLakeNameMapSet

end DuckLake
