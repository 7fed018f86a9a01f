import Mathlib.Data.List.Induction
import Mathlib.Data.List.Nodup
import Mathlib.Data.List.Perm.Basic

/-!
# Grouping by a key

The elements of a list under the keys that they have, as a map of lists that every element is
pushed to. The groups are in the order in which their keys occur first.
-/

namespace DuckLake

variable {κ α : Type} [DecidableEq κ]

def pushBack (key : κ) (a : α) : List (κ × List α) → List (κ × List α)
  | [] => [(key, [a])]
  | group :: groups =>
    if group.1 = key then (key, group.2 ++ [a]) :: groups else group :: pushBack key a groups

def groupByKey (key : α → κ) (l : List α) : List (κ × List α) :=
  l.foldl (fun groups a => pushBack (key a) a groups) []

theorem groupByKey_concat (key : α → κ) (l : List α) (a : α) :
    groupByKey key (l ++ [a]) = pushBack (key a) a (groupByKey key l) := by
  simp [groupByKey]

theorem pushBack_perm (key : κ) (a : α) (groups : List (κ × List α)) :
    ((pushBack key a groups).flatMap (·.2)).Perm (a :: groups.flatMap (·.2)) := by
  induction groups with
  | nil => exact .refl _
  | cons group groups ih =>
    rw [pushBack]
    split
    · simp only [List.flatMap_cons, List.append_assoc, List.singleton_append]
      exact List.perm_middle
    · simp only [List.flatMap_cons]
      exact (ih.append_left group.2).trans List.perm_middle

/-- The groups hold every element of the list once. -/
theorem groupByKey_perm (key : α → κ) (l : List α) :
    ((groupByKey key l).flatMap (·.2)).Perm l := by
  induction l using List.reverseRecOn with
  | nil => exact .refl _
  | append_singleton l a ih =>
    rw [groupByKey_concat]
    exact (pushBack_perm _ a _).trans ((ih.cons a).trans (List.perm_append_singleton a l).symm)

/-- After a push there are the groups from before, a new one, or one that has grown. -/
theorem pushBack_forall {P : κ × List α → Prop} {key : κ} {a : α} {groups : List (κ × List α)}
    (hgroups : ∀ group ∈ groups, P group) (hnew : P (key, [a]))
    (hpush : ∀ l, (key, l) ∈ groups → P (key, l ++ [a])) :
    ∀ group ∈ pushBack key a groups, P group := by
  induction groups with
  | nil =>
    intro group hgroup
    rw [pushBack, List.mem_singleton] at hgroup
    exact hgroup ▸ hnew
  | cons head groups ih =>
    obtain ⟨hhead, htail⟩ := List.forall_mem_cons.1 hgroups
    rw [pushBack]
    split
    next heq =>
      refine List.forall_mem_cons.2 ⟨hpush _ ?_, htail⟩
      rw [← heq]
      exact List.mem_cons_self
    next =>
      exact List.forall_mem_cons.2
        ⟨hhead, ih htail fun l h => hpush l (List.mem_cons_of_mem _ h)⟩

theorem lookup_cons_ite {β : Type} {k k' : κ} {b : β} {l : List (κ × β)} :
    ((k', b) :: l).lookup k = if k = k' then some b else l.lookup k := by
  rw [List.lookup_cons]
  by_cases h : k = k'
  · simp [h]
  · rw [if_neg h, beq_false_of_ne h]

theorem lookup_pushBack {key k : κ} {a : α} {groups : List (κ × List α)} :
    (pushBack key a groups).lookup k =
      if k = key then some ((groups.lookup key).getD [] ++ [a]) else groups.lookup k := by
  induction groups with
  | nil =>
    rw [pushBack, lookup_cons_ite]
    rfl
  | cons group groups ih =>
    obtain ⟨first, l⟩ := group
    rw [pushBack]
    by_cases hfirst : first = key
    · subst hfirst
      rw [if_pos rfl, lookup_cons_ite, lookup_cons_ite, lookup_cons_ite, if_pos rfl]
      by_cases h : k = first <;> simp [h]
    · rw [if_neg hfirst, lookup_cons_ite, ih, lookup_cons_ite, lookup_cons_ite,
        if_neg (Ne.symm hfirst)]
      by_cases h : k = key
      · simp [h, Ne.symm hfirst]
      · simp [h]

/-- The group of a key holds the elements with the key. -/
theorem lookup_groupByKey {key : α → κ} {l : List α} {k : κ} :
    (groupByKey key l).lookup k =
      if l.filter (key · = k) = [] then none else some (l.filter (key · = k)) := by
  induction l using List.reverseRecOn with
  | nil => rfl
  | append_singleton l a ih =>
    rw [groupByKey_concat, lookup_pushBack, List.filter_append]
    by_cases h : k = key a
    · subst h
      rw [if_pos rfl, ih]
      split
      next hnil => simp [hnil]
      next => simp
    · simp [h, Ne.symm h, ih]

theorem keys_pushBack {key : κ} {a : α} {groups : List (κ × List α)} :
    (pushBack key a groups).map (·.1) =
      if key ∈ groups.map (·.1) then groups.map (·.1) else groups.map (·.1) ++ [key] := by
  induction groups with
  | nil => rfl
  | cons group groups ih =>
    rw [pushBack]
    by_cases hfirst : group.1 = key
    · simp [hfirst]
    · simp only [if_neg hfirst, List.map_cons, ih, List.mem_cons, Ne.symm hfirst, false_or]
      split <;> rfl

theorem nodup_keys_groupByKey {key : α → κ} {l : List α} :
    ((groupByKey key l).map (·.1)).Nodup := by
  induction l using List.reverseRecOn with
  | nil => exact List.nodup_nil
  | append_singleton l a ih =>
    rw [groupByKey_concat, keys_pushBack]
    split
    next => exact ih
    next hnew => exact List.nodup_append.2 ⟨ih, List.nodup_singleton _, fun b hb c hc => by
      rintro rfl
      exact hnew (List.mem_singleton.1 hc ▸ hb)⟩

theorem mem_groupByKey {key : α → κ} {l : List α} {k : κ} {g : List α} :
    (k, g) ∈ groupByKey key l ↔ g = l.filter (key · = k) ∧ g ≠ [] := by
  have hmem : ∀ {groups : List (κ × List α)}, (groups.map (·.1)).Nodup →
      ((k, g) ∈ groups ↔ groups.lookup k = some g) := by
    intro groups hnodup
    induction groups with
    | nil => simp
    | cons group groups ih =>
      obtain ⟨first, l⟩ := group
      obtain ⟨hfirst, hgroups⟩ := List.nodup_cons.1 hnodup
      rw [lookup_cons_ite, List.mem_cons, ih hgroups, Prod.mk.injEq]
      by_cases h : k = first
      · subst h
        have hnone : groups.lookup k ≠ some g := fun hg =>
          hfirst (List.mem_map.2 ⟨_, (ih hgroups).2 hg, rfl⟩)
        simp [hnone, eq_comm]
      · simp [h]
  rw [hmem nodup_keys_groupByKey, lookup_groupByKey]
  split
  next hnil => simp only [hnil]; simp
  next hne =>
    rw [Option.some.injEq]
    exact ⟨fun h => ⟨h.symm, h ▸ hne⟩, fun h => h.1.symm⟩

theorem key_of_mem_groupByKey {key : α → κ} {l : List α} :
    ∀ group ∈ groupByKey key l, ∀ a ∈ group.2, key a = group.1 := by
  induction l using List.reverseRecOn with
  | nil => exact fun _ h => absurd h List.not_mem_nil
  | append_singleton l a ih =>
    rw [groupByKey_concat]
    refine pushBack_forall ih (by simp) fun l' h b hb => ?_
    rcases List.mem_append.1 hb with hb | hb
    · exact ih _ h b hb
    · rw [List.mem_singleton.1 hb]

/-- Within a group the elements keep their order. -/
theorem sublist_of_mem_groupByKey {key : α → κ} {l : List α} :
    ∀ group ∈ groupByKey key l, group.2.Sublist l := by
  induction l using List.reverseRecOn with
  | nil => exact fun _ h => absurd h List.not_mem_nil
  | append_singleton l a ih =>
    rw [groupByKey_concat]
    refine pushBack_forall (fun group h => ?_) (List.sublist_append_right l [a]) fun l' h => ?_
    · exact (ih group h).trans (List.sublist_append_left l [a])
    · exact (ih _ h).append_right [a]

end DuckLake
