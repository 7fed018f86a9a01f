import DuckLake.Lib.RoseTree
import Mathlib.Data.List.Nodup
import Mathlib.Data.List.Perm.Basic

/-!
# The paths of a forest

Every node of a forest has a path: the labels from its root down to it. A tree whose nodes are added
one by one, each below one that is there, has the paths of its nodes in whatever order they came.
-/

namespace DuckLake

namespace RoseTree

variable {α : Type}

mutual

/-- The paths of all nodes, each from the label of the root on. -/
def paths : RoseTree α → List (List α)
  | node a ts => [a] :: (pathsAll ts).map (a :: ·)

def pathsAll : List (RoseTree α) → List (List α)
  | [] => []
  | t :: ts => paths t ++ pathsAll ts

end

/-- The labels on the way to a place. -/
def labelsAt : List (RoseTree α) → List ℕ → Option (List α)
  | _, [] => some []
  | ts, i :: place => ts[i]?.bind fun t => (labelsAt t.children place).map (t.label :: ·)

theorem paths_eq (t : RoseTree α) :
    paths t = [t.label] :: (pathsAll t.children).map (t.label :: ·) := by
  cases t
  rw [paths]
  rfl

theorem pathsAll_append (ts us : List (RoseTree α)) :
    pathsAll (ts ++ us) = pathsAll ts ++ pathsAll us := by
  induction ts with
  | nil => rfl
  | cons t ts ih => rw [List.cons_append, pathsAll, pathsAll, ih, List.append_assoc]

/-- A change of one tree of a forest leaves the paths before and after its own. -/
theorem pathsAll_modify {ts : List (RoseTree α)} {i : ℕ} {t : RoseTree α} (h : ts[i]? = some t) :
    ∃ before after, pathsAll ts = before ++ (paths t ++ after) ∧
      ∀ f, pathsAll (ts.modify i f) = before ++ (paths (f t) ++ after) := by
  induction ts generalizing i with
  | nil => cases h
  | cons u us ih =>
    cases i with
    | zero =>
      obtain rfl : u = t := Option.some.inj h
      exact ⟨[], pathsAll us, rfl, fun f => rfl⟩
    | succ i =>
      obtain ⟨before, after, heq, hmodify⟩ := ih h
      refine ⟨paths u ++ before, after, by rw [pathsAll, heq, List.append_assoc], fun f => ?_⟩
      rw [List.modify_succ_cons, pathsAll, hmodify, List.append_assoc]

/-- A leaf that is added below a node has the path of the node and its own label. -/
theorem pathsAll_attach {ts : List (RoseTree α)} {place : List ℕ} {as : List α}
    (h : labelsAt ts place = some as) (a : α) :
    (pathsAll (attach ts place (node a []))).Perm ((as ++ [a]) :: pathsAll ts) := by
  induction place generalizing ts as with
  | nil =>
    cases h
    rw [attach, pathsAll_append]
    exact List.perm_append_comm
  | cons i place ih =>
    obtain ⟨t, ht, h⟩ := Option.bind_eq_some_iff.1 h
    obtain ⟨as, has, rfl⟩ := Option.map_eq_some_iff.1 h
    obtain ⟨before, after, heq, hmodify⟩ := pathsAll_modify ht
    have hchildren := ((ih has).map (t.label :: ·)).cons [t.label]
    rw [attach, hmodify, heq, paths_eq, paths_eq]
    refine .trans (.append_left before (.append_right after (hchildren.trans (.swap _ _ _)))) ?_
    exact List.perm_middle

/-- What is there keeps its labels. -/
theorem labelsAt_attach {ts : List (RoseTree α)} {place : List ℕ} {as : List α}
    (h : labelsAt ts place = some as) (p : List ℕ) (t : RoseTree α) :
    labelsAt (attach ts p t) place = some as := by
  induction place generalizing ts as p with
  | nil => exact h
  | cons i place ih =>
    obtain ⟨u, hu, h⟩ := Option.bind_eq_some_iff.1 h
    obtain ⟨as, has, rfl⟩ := Option.map_eq_some_iff.1 h
    obtain ⟨u', hu', hlabel, hchildren⟩ := getElem?_attach hu p t
    rw [labelsAt, hu', Option.bind_some, hlabel]
    rcases hchildren with hc | ⟨q, hc⟩
    · rw [hc, has, Option.map_some]
    · rw [hc, ih has q, Option.map_some]

theorem labelsAt_append {ts : List (RoseTree α)} {place : List ℕ} {as : List α} {i : ℕ}
    {t : RoseTree α} (h : labelsAt ts place = some as) (ht : (childrenAt ts place)[i]? = some t) :
    labelsAt ts (place ++ [i]) = some (as ++ [t.label]) := by
  induction place generalizing ts as with
  | nil =>
    cases h
    rw [List.nil_append, labelsAt, show ts[i]? = some t from ht]
    rfl
  | cons j place ih =>
    obtain ⟨u, hu, h⟩ := Option.bind_eq_some_iff.1 h
    obtain ⟨as, has, rfl⟩ := Option.map_eq_some_iff.1 h
    rw [childrenAt, hu] at ht
    rw [List.cons_append, labelsAt, hu, Option.bind_some, ih has ht]
    rfl

theorem hasPlace_of_labelsAt {ts : List (RoseTree α)} {place : List ℕ} {as : List α}
    (h : labelsAt ts place = some as) : HasPlace ts place := by
  induction place generalizing ts as with
  | nil => trivial
  | cons i place ih =>
    obtain ⟨u, hu, h⟩ := Option.bind_eq_some_iff.1 h
    obtain ⟨as, has, -⟩ := Option.map_eq_some_iff.1 h
    exact ⟨u, hu, ih has⟩

/-- The labels at the place of a tree that has just been added. -/
theorem labelsAt_attach_last {ts : List (RoseTree α)} {place : List ℕ} {as : List α}
    (h : labelsAt ts place = some as) (a : α) (us : List (RoseTree α)) :
    labelsAt (attach ts place (node a us)) (place ++ [(childrenAt ts place).length]) =
      some (as ++ [a]) := by
  refine labelsAt_append (t := node a us) (labelsAt_attach h place _) ?_
  rw [childrenAt_attach (hasPlace_of_labelsAt h)]
  exact List.getElem?_concat_length

/-! ## What the paths say -/

theorem ne_nil_of_mem_pathsAll {ts : List (RoseTree α)} {path : List α} (h : path ∈ pathsAll ts) :
    path ≠ [] := by
  induction ts with
  | nil => cases h
  | cons t ts ih =>
    rcases List.mem_append.1 h with h | h
    · rw [paths_eq] at h
      rcases List.mem_cons.1 h with rfl | h
      · exact List.cons_ne_nil _ _
      · obtain ⟨path, -, rfl⟩ := List.mem_map.1 h
        exact List.cons_ne_nil _ _
    · exact ih h

theorem paths_subset {ts : List (RoseTree α)} {t : RoseTree α} (h : t ∈ ts) :
    (paths t).Sublist (pathsAll ts) := by
  induction ts with
  | nil => cases h
  | cons u us ih =>
    rcases List.mem_cons.1 h with rfl | h
    · exact List.sublist_append_left _ _
    · exact (ih h).trans (List.sublist_append_right _ _)

theorem head?_paths {t : RoseTree α} {path : List α} (h : path ∈ paths t) :
    path.head? = some t.label := by
  rw [paths_eq] at h
  rcases List.mem_cons.1 h with rfl | h
  · rfl
  · obtain ⟨path, -, rfl⟩ := List.mem_map.1 h
    rfl

theorem head?_pathsAll {ts : List (RoseTree α)} {path : List α} (h : path ∈ pathsAll ts) :
    ∃ t ∈ ts, path.head? = some t.label := by
  induction ts with
  | nil => cases h
  | cons t ts ih =>
    rcases List.mem_append.1 h with h | h
    · exact ⟨t, List.mem_cons_self .., head?_paths h⟩
    · obtain ⟨u, hu, hhead⟩ := ih h
      exact ⟨u, List.mem_cons_of_mem _ hu, hhead⟩

/-- The labels of the roots, as the paths of one label. -/
def rootLabel : List α → Option α
  | [a] => some a
  | _ => none

theorem filterMap_rootLabel (ts : List (RoseTree α)) :
    (pathsAll ts).filterMap rootLabel = ts.map label := by
  induction ts with
  | nil => rfl
  | cons t ts ih =>
    have hchildren : ((pathsAll t.children).map (t.label :: ·)).filterMap rootLabel = [] := by
      rw [List.filterMap_map, List.filterMap_eq_nil_iff]
      intro path hpath
      obtain ⟨b, bs, rfl⟩ := List.exists_cons_of_ne_nil (ne_nil_of_mem_pathsAll hpath)
      rfl
    rw [pathsAll, List.filterMap_append, ih, paths_eq, List.filterMap_cons, hchildren]
    rfl

section Below

variable [DecidableEq α]

/-- What a path below a root goes through after the root. -/
def belowRoot (a : α) : List α → Option (List α)
  | b :: c :: path => if b = a then some (c :: path) else none
  | _ => none

theorem filterMap_belowRoot_paths (t : RoseTree α) (a : α) :
    (paths t).filterMap (belowRoot a) = if t.label = a then pathsAll t.children else [] := by
  have hroot : belowRoot a [t.label] = none := rfl
  rw [paths_eq, List.filterMap_cons, hroot, List.filterMap_map]
  dsimp only
  split
  · rename_i h
    refine (List.filterMap_congr fun path hpath => ?_).trans List.filterMap_some
    obtain ⟨b, bs, rfl⟩ := List.exists_cons_of_ne_nil (ne_nil_of_mem_pathsAll hpath)
    exact if_pos h
  · rename_i h
    rw [List.filterMap_eq_nil_iff]
    intro path hpath
    obtain ⟨b, bs, rfl⟩ := List.exists_cons_of_ne_nil (ne_nil_of_mem_pathsAll hpath)
    exact if_neg h

/-- The paths below a root whose label no other root has. -/
theorem filterMap_belowRoot {ts : List (RoseTree α)} {t : RoseTree α} (h : t ∈ ts)
    (hnodup : (ts.map label).Nodup) :
    (pathsAll ts).filterMap (belowRoot t.label) = pathsAll t.children := by
  induction ts with
  | nil => cases h
  | cons u us ih =>
    rw [List.map_cons, List.nodup_cons] at hnodup
    rw [pathsAll, List.filterMap_append, filterMap_belowRoot_paths]
    rcases List.mem_cons.1 h with rfl | h
    · have hrest : (pathsAll us).filterMap (belowRoot t.label) = [] := by
        clear ih h
        induction us with
        | nil => rfl
        | cons v us ih =>
          rw [List.map_cons, List.mem_cons, not_or] at hnodup
          rw [pathsAll, List.filterMap_append, filterMap_belowRoot_paths,
            if_neg (Ne.symm hnodup.1.1), List.nil_append]
          exact ih ⟨hnodup.1.2, (List.nodup_cons.1 hnodup.2).2⟩
      rw [if_pos rfl, hrest, List.append_nil]
    · have hne : u.label ≠ t.label := fun heq => hnodup.1 (heq ▸ List.mem_map_of_mem h)
      rw [if_neg hne, List.nil_append]
      exact ih h hnodup.2

end Below

/-! ## Forests without two nodes of one path -/

/-- No two nodes have the same path of names. -/
def DistinctPaths {ν : Type} (name : α → ν) (ts : List (RoseTree α)) : Prop :=
  ((pathsAll ts).map (List.map name)).Nodup

namespace DistinctPaths

variable {ν : Type} {name : α → ν} {ts us : List (RoseTree α)}

theorem perm (h : DistinctPaths name ts) (hperm : (pathsAll ts).Perm (pathsAll us)) :
    DistinctPaths name us := (hperm.map _).nodup h

theorem roots (h : DistinctPaths name ts) : (ts.map fun t => name t.label).Nodup := by
  have hmap : (ts.map fun t => [name t.label]).Sublist ((pathsAll ts).map (List.map name)) := by
    clear h
    induction ts with
    | nil => exact .slnil
    | cons t ts ih =>
      rw [pathsAll, List.map_append, List.map_cons, paths_eq, List.map_cons, List.cons_append]
      exact .cons_cons _ (ih.trans (List.sublist_append_right _ _))
  refine List.Nodup.of_map (fun n => [n]) ?_
  rw [List.map_map]
  exact h.sublist hmap

theorem of_root {t : RoseTree α} (h : DistinctPaths name t.children) :
    ((paths t).map (List.map name)).Nodup := by
  rw [paths_eq, List.map_cons, List.nodup_cons, List.map_map]
  constructor
  · intro hmem
    obtain ⟨path, hpath, heq⟩ := List.mem_map.1 hmem
    rw [Function.comp_apply, List.map_cons, List.map_singleton, List.cons.injEq,
      List.map_eq_nil_iff] at heq
    exact ne_nil_of_mem_pathsAll hpath heq.2
  · have hmap := h.map (fun (p q : List ν) (heq : name t.label :: p = name t.label :: q) =>
      (List.cons.inj heq).2)
    rw [List.map_map] at hmap
    exact hmap

/-- No two roots have the same name, nor do two nodes below one root have the same path. -/
theorem of_roots (hroots : (ts.map fun t => name t.label).Nodup)
    (hchildren : ∀ t ∈ ts, DistinctPaths name t.children) : DistinctPaths name ts := by
  induction ts with
  | nil => exact List.nodup_nil
  | cons t ts ih =>
    rw [List.map_cons, List.nodup_cons] at hroots
    have hrest := ih hroots.2 fun u hu => hchildren u (List.mem_cons_of_mem _ hu)
    rw [DistinctPaths, pathsAll, List.map_append]
    refine List.nodup_append.2 ⟨of_root (hchildren t (List.mem_cons_self ..)), hrest, ?_⟩
    intro path hpath path' hpath' heq
    obtain ⟨as, has, rfl⟩ := List.mem_map.1 hpath
    obtain ⟨bs, hbs, rfl⟩ := List.mem_map.1 hpath'
    obtain ⟨u, hu, hhead⟩ := head?_pathsAll hbs
    have hnames := congrArg List.head? heq
    rw [List.head?_map, List.head?_map, head?_paths has, hhead] at hnames
    exact hroots.1 (Option.some.inj hnames ▸ List.mem_map_of_mem (f := fun t => name t.label) hu)

theorem children (h : DistinctPaths name ts) {t : RoseTree α} (ht : t ∈ ts) :
    DistinctPaths name t.children := by
  have hnodup := h.sublist ((paths_subset ht).map (List.map name))
  rw [paths_eq, List.map_cons, List.nodup_cons, List.map_map] at hnodup
  have hmap := hnodup.2
  rw [show (List.map name ∘ fun path => t.label :: path) =
    (fun names => name t.label :: names) ∘ List.map name from rfl, ← List.map_map] at hmap
  exact hmap.of_map _

/-- Forests with the same paths have the same roots, and below each the same paths. -/
theorem exists_perm_children [DecidableEq α] (h : DistinctPaths name ts)
    (hperm : (pathsAll ts).Perm (pathsAll us)) {t : RoseTree α} (ht : t ∈ ts) :
    ∃ u ∈ us, u.label = t.label ∧ (pathsAll t.children).Perm (pathsAll u.children) := by
  have hroots := hperm.filterMap rootLabel
  rw [filterMap_rootLabel, filterMap_rootLabel] at hroots
  obtain ⟨u, hu, hlabel⟩ := List.mem_map.1 (hroots.subset (List.mem_map_of_mem ht))
  have hnodup {vs : List (RoseTree α)} (h : DistinctPaths name vs) : (vs.map label).Nodup := by
    refine List.Nodup.of_map name ?_
    rw [List.map_map]
    exact h.roots
  have hbelow := hperm.filterMap (belowRoot t.label)
  rw [filterMap_belowRoot ht (hnodup h), ← hlabel,
    filterMap_belowRoot hu (hnodup (h.perm hperm))] at hbelow
  exact ⟨u, hu, hlabel, hbelow⟩

end DistinctPaths

end RoseTree

end DuckLake
