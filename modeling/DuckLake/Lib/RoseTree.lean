import Mathlib.Data.List.Basic
import Mathlib.Data.List.Induction

/-!
# Ordered trees and their preorder listing

Trees whose nodes have any number of children, and forests of them. The preorder listing of a forest
gives each label with the number of children of its node. A place in a forest is the list of the
positions on the way to it; the empty place is that of the roots' parent, which is not a node.
-/

namespace DuckLake

inductive RoseTree (α : Type) where
  | node (label : α) (children : List (RoseTree α))

namespace RoseTree

variable {α β : Type}

def label : RoseTree α → α
  | node a _ => a

def children : RoseTree α → List (RoseTree α)
  | node _ ts => ts

mutual

def map (f : α → β) : RoseTree α → RoseTree β
  | node a ts => node (f a) (mapAll f ts)

def mapAll (f : α → β) : List (RoseTree α) → List (RoseTree β)
  | [] => []
  | t :: ts => map f t :: mapAll f ts

end

/-! ## Listings -/

mutual

def preorder : RoseTree α → List (α × ℕ)
  | node a ts => (a, ts.length) :: preorderAll ts

def preorderAll : List (RoseTree α) → List (α × ℕ)
  | [] => []
  | t :: ts => preorder t ++ preorderAll ts

end

theorem preorderAll_leaves (a : α) (n : ℕ) :
    preorderAll (List.replicate n (node a [])) = List.replicate n (a, 0) := by
  induction n with
  | zero => rfl
  | succ n ih => simp only [List.replicate_succ, preorderAll, preorder, List.length_nil,
      List.singleton_append, ih]

/-- Any list of labels and counts begins with the listing of a forest of `n` trees, or leaves can
complete it to one. -/
theorem listing_or_completion (a : α) (n : ℕ) (l : List (α × ℕ)) :
    (∃ ts rest, l = preorderAll ts ++ rest ∧ ts.length = n) ∨
      ∃ ts m, l ++ List.replicate m (a, 0) = preorderAll ts ∧ ts.length = n := by
  induction hlength : l.length using Nat.strongRecOn generalizing l n with
  | ind m ih =>
    subst hlength
    cases n with
    | zero => exact .inl ⟨[], l, rfl, rfl⟩
    | succ n =>
      cases l with
      | nil => exact .inr ⟨_, n + 1, (preorderAll_leaves a (n + 1)).symm, List.length_replicate⟩
      | cons e l =>
        obtain ⟨b, k⟩ := e
        have hcons {ts : List (RoseTree α)} (hts : ts.length = k) (us : List (RoseTree α)) :
            preorderAll (node b ts :: us) = (b, k) :: (preorderAll ts ++ preorderAll us) := by
          rw [preorderAll, preorder, hts, List.cons_append]
        rcases ih _ (Nat.lt_succ_self _) k l rfl with ⟨ts, rest, rfl, hts⟩ | ⟨ts, m, h, hts⟩
        · have hrest : rest.length < ((b, k) :: (preorderAll ts ++ rest)).length := by
            simp only [List.length_cons, List.length_append]
            omega
          rcases ih _ hrest n rest rfl with ⟨us, rest, rfl, hus⟩ | ⟨us, m, h, hus⟩
          · exact .inl ⟨node b ts :: us, rest, by simp [hcons hts], by simp [hus]⟩
          · exact .inr ⟨node b ts :: us, m, by simp [hcons hts, ← h], by simp [hus]⟩
        · refine .inr ⟨node b ts :: List.replicate n (node a []), m + n, ?_, by simp⟩
          rw [hcons hts, preorderAll_leaves, ← h, List.replicate_add, List.cons_append,
            List.append_assoc]

/-! ## Places -/

/-- The children at a place. -/
def childrenAt : List (RoseTree α) → List ℕ → List (RoseTree α)
  | ts, [] => ts
  | ts, i :: place => match ts[i]? with
    | none => []
    | some t => childrenAt t.children place

def HasPlace : List (RoseTree α) → List ℕ → Prop
  | _, [] => True
  | ts, i :: place => ∃ t, ts[i]? = some t ∧ HasPlace t.children place

def nodeAt : List (RoseTree α) → List ℕ → Option (RoseTree α)
  | _, [] => none
  | ts, [i] => ts[i]?
  | ts, i :: place => ts[i]?.bind fun t => nodeAt t.children place

/-- Adds a tree after the last child at a place. -/
def attach : List (RoseTree α) → List ℕ → RoseTree α → List (RoseTree α)
  | ts, [], t => ts ++ [t]
  | ts, i :: place, t => ts.modify i fun u => node u.label (attach u.children place t)

@[simp] theorem nodeAt_append (ts : List (RoseTree α)) (place : List ℕ) (i : ℕ) :
    nodeAt ts (place ++ [i]) = (childrenAt ts place)[i]? := by
  induction place generalizing ts with
  | nil => rfl
  | cons j place ih =>
    rw [List.cons_append, nodeAt, childrenAt]
    · cases ts[j]? with
      | none => rfl
      | some t => exact ih t.children
    · simp

theorem childrenAt_append (ts : List (RoseTree α)) (place : List ℕ) (i : ℕ) :
    childrenAt ts (place ++ [i]) = ((childrenAt ts place)[i]?.map children).getD [] := by
  induction place generalizing ts with
  | nil =>
    rw [List.nil_append, childrenAt, childrenAt]
    cases ts[i]? <;> rfl
  | cons j place ih =>
    rw [List.cons_append, childrenAt, childrenAt]
    cases ts[j]? with
    | none => rfl
    | some t => exact ih t.children

theorem childrenAt_attach {ts : List (RoseTree α)} {place : List ℕ} (h : HasPlace ts place)
    (t : RoseTree α) : childrenAt (attach ts place t) place = childrenAt ts place ++ [t] := by
  induction place generalizing ts with
  | nil => rfl
  | cons i place ih =>
    obtain ⟨u, hu, hplace⟩ := h
    simp only [attach, childrenAt, List.getElem?_modify, hu]
    exact ih hplace

/-- What is there already keeps its position. -/
theorem getElem?_attach {ts : List (RoseTree α)} {i : ℕ} {u : RoseTree α} (h : ts[i]? = some u)
    (place : List ℕ) (t : RoseTree α) :
    ∃ u', (attach ts place t)[i]? = some u' ∧ u'.label = u.label ∧
      (u'.children = u.children ∨ ∃ p, u'.children = attach u.children p t) := by
  cases place with
  | nil =>
    have hi : i < ts.length := (List.getElem?_eq_some_iff.1 h).1
    exact ⟨u, by rw [attach, List.getElem?_append_left hi, h], rfl, .inl rfl⟩
  | cons j p =>
    by_cases hj : j = i
    · subst hj
      exact ⟨node u.label (attach u.children p t), by rw [attach, List.getElem?_modify_eq, h]; rfl, rfl,
        .inr ⟨p, rfl⟩⟩
    · exact ⟨u, by rw [attach, List.getElem?_modify_ne _ _ hj, h], rfl, .inl rfl⟩

theorem hasPlace_attach {ts : List (RoseTree α)} {place : List ℕ} (h : HasPlace ts place)
    (p : List ℕ) (t : RoseTree α) : HasPlace (attach ts p t) place := by
  induction place generalizing ts p with
  | nil => exact trivial
  | cons i place ih =>
    obtain ⟨u, hu, hplace⟩ := h
    obtain ⟨u', hu', -, hchildren⟩ := getElem?_attach hu p t
    refine ⟨u', hu', ?_⟩
    rcases hchildren with hc | ⟨q, hc⟩
    · rwa [hc]
    · rw [hc]
      exact ih hplace q

theorem hasPlace_append {ts : List (RoseTree α)} {place : List ℕ} {i : ℕ} (h : HasPlace ts place)
    (hi : i < (childrenAt ts place).length) : HasPlace ts (place ++ [i]) := by
  induction place generalizing ts with
  | nil => exact ⟨ts[i], List.getElem?_eq_getElem hi, trivial⟩
  | cons j place ih =>
    obtain ⟨u, hu, hplace⟩ := h
    simp only [childrenAt, hu] at hi
    exact ⟨u, hu, ih hplace hi⟩

theorem label_attach (ts : List (RoseTree α)) (p : List ℕ) (t : RoseTree α) :
    ∀ {place : List ℕ} {a : α}, (nodeAt ts place).map label = some a →
      (nodeAt (attach ts p t) place).map label = some a
  | [], _, h => nomatch h
  | [i], a, h => by
    obtain ⟨u, hu, rfl⟩ := Option.map_eq_some_iff.1 h
    obtain ⟨u', hu', hlabel, -⟩ := getElem?_attach hu p t
    rw [nodeAt, hu', Option.map_some, hlabel]
  | i :: j :: place, a, h => by
    obtain ⟨v, hv, rfl⟩ := Option.map_eq_some_iff.1 h
    obtain ⟨u, hu, hnode⟩ := Option.bind_eq_some_iff.1 hv
    obtain ⟨u', hu', -, hchildren⟩ := getElem?_attach hu p t
    rw [nodeAt, hu', Option.bind_some]
    have hlabel : (nodeAt u.children (j :: place)).map label = some v.label := by rw [hnode]; rfl
    · rcases hchildren with hc | ⟨q, hc⟩
      · rwa [hc]
      · rw [hc]
        exact label_attach u.children q t hlabel
    · exact List.cons_ne_nil _ _

theorem modify_last (ts : List α) (a : α) (f : α → α) :
    (ts ++ [a]).modify ts.length f = ts ++ [f a] := by
  induction ts with
  | nil => rfl
  | cons b ts ih => rw [List.cons_append, List.length_cons, List.modify_succ_cons, ih,
      List.cons_append]

theorem modify_congr_at {ts : List α} {i : ℕ} {a : α} {f g : α → α} (h : ts[i]? = some a)
    (hfg : f a = g a) : ts.modify i f = ts.modify i g := by
  refine List.ext_getElem? fun j => ?_
  rw [List.getElem?_modify, List.getElem?_modify]
  by_cases hj : i = j
  · subst hj
    simp [h, hfg]
  · simp [hj]

/-- A tree that is attached to the node attached last. -/
theorem attach_last {ts : List (RoseTree α)} {place : List ℕ} (h : HasPlace ts place) (a : α)
    (us : List (RoseTree α)) (t : RoseTree α) :
    attach (attach ts place (node a us)) (place ++ [(childrenAt ts place).length]) t =
      attach ts place (node a (us ++ [t])) := by
  induction place generalizing ts with
  | nil => exact modify_last ts (node a us) _
  | cons i place ih =>
    obtain ⟨u, hu, hplace⟩ := h
    have hchildren : childrenAt ts (i :: place) = childrenAt u.children place := by
      rw [childrenAt, hu]
    rw [hchildren, List.cons_append, attach, attach, attach, List.modify_modify_eq]
    exact modify_congr_at hu (congrArg (node u.label) (ih hplace))

def attachAll (ts : List (RoseTree α)) (place : List ℕ) (us : List (RoseTree α)) :
    List (RoseTree α) :=
  us.foldl (fun ts u => attach ts place u) ts

theorem attachAll_append (ts : List (RoseTree α)) (place : List ℕ) (us vs : List (RoseTree α)) :
    attachAll ts place (us ++ vs) = attachAll (attachAll ts place us) place vs := by
  rw [attachAll, List.foldl_append]
  rfl

theorem attachAll_last {ts : List (RoseTree α)} {place : List ℕ} (h : HasPlace ts place) (a : α)
    (us : List (RoseTree α)) :
    attachAll (attach ts place (node a [])) (place ++ [(childrenAt ts place).length]) us =
      attach ts place (node a us) := by
  induction us using List.reverseRecOn with
  | nil => rfl
  | append_singleton us t ih =>
    rw [attachAll_append, ih]
    exact attach_last h a us t

theorem attachAll_nil (ts us : List (RoseTree α)) : attachAll ts [] us = ts ++ us := by
  induction us generalizing ts with
  | nil => simp [attachAll]
  | cons u us ih =>
    rw [attachAll, List.foldl_cons, ← attachAll, ih, attach, List.append_assoc,
      List.singleton_append]

theorem childrenAt_attach_last {ts : List (RoseTree α)} {place : List ℕ} (h : HasPlace ts place)
    (t : RoseTree α) :
    childrenAt (attach ts place t) (place ++ [(childrenAt ts place).length]) = t.children := by
  rw [childrenAt_append, childrenAt_attach h]
  simp

theorem hasPlace_attach_last {ts : List (RoseTree α)} {place : List ℕ} (h : HasPlace ts place)
    (t : RoseTree α) : HasPlace (attach ts place t) (place ++ [(childrenAt ts place).length]) := by
  refine hasPlace_append (hasPlace_attach h place t) ?_
  rw [childrenAt_attach h]
  simp

theorem getElem?_mapAll (f : α → β) (ts : List (RoseTree α)) (i : ℕ) :
    (mapAll f ts)[i]? = ts[i]?.map (map f) := by
  induction ts generalizing i with
  | nil => rfl
  | cons t ts ih =>
    cases i with
    | zero => rfl
    | succ i => exact ih i

theorem children_map (f : α → β) (t : RoseTree α) :
    (map f t).children = mapAll f t.children := by
  cases t
  rfl

theorem label_map (f : α → β) (t : RoseTree α) : (map f t).label = f t.label := by
  cases t
  rfl

theorem nodeAt_mapAll (f : α → β) (ts : List (RoseTree α)) :
    ∀ place : List ℕ, nodeAt (mapAll f ts) place = (nodeAt ts place).map (map f)
  | [] => rfl
  | [i] => getElem?_mapAll f ts i
  | i :: j :: place => by
    simp only [nodeAt, getElem?_mapAll]
    cases ts[i]? with
    | none => rfl
    | some t =>
      rw [Option.map_some, Option.bind_some, Option.bind_some, children_map]
      exact nodeAt_mapAll f t.children (j :: place)

end RoseTree

end DuckLake
