import Mathlib.Algebra.BigOperators.Group.Multiset.Basic
import Mathlib.Data.Finset.Dedup
import Mathlib.Data.Multiset.Filter
import Mathlib.Order.CompleteLattice.Finset
import Mathlib.Data.Multiset.Lattice
import Mathlib.Tactic.Abel

/-!
# Grouped views

A relation is a multiset of rows. A grouped view has one row for every key that occurs in the
relation, computed from the rows with that key. When rows are inserted and deleted, only the rows
of the view with the keys of those rows change.
-/

namespace DuckLake

namespace GroupedView

variable {α β κ : Type} [DecidableEq κ] (key : α → κ) (out : κ → Multiset α → β)

/-- The keys that occur. -/
def keysOf (s : Multiset α) : Finset κ := (s.map key).toFinset

def groupOf (k : κ) (s : Multiset α) : Multiset α := s.filter fun a => key a = k

/-- The rows of the view. -/
def rows (s : Multiset α) : Multiset β := (keysOf key s).val.map fun k => out k (groupOf key k s)

variable {key out} {k : κ} {s : Multiset α}

theorem mem_keysOf : k ∈ keysOf key s ↔ ∃ a ∈ s, key a = k := by
  rw [keysOf, Multiset.mem_toFinset, Multiset.mem_map]

theorem groupOf_eq_zero : groupOf key k s = 0 ↔ k ∉ keysOf key s := by
  rw [groupOf, Multiset.filter_eq_nil, mem_keysOf]
  exact ⟨fun h ⟨a, ha, hk⟩ => h a ha hk, fun h a ha hk => h ⟨a, ha, hk⟩⟩

@[simp] theorem groupOf_add {t : Multiset α} :
    groupOf key k (s + t) = groupOf key k s + groupOf key k t :=
  Multiset.filter_add _ _ _

theorem mem_groupOf {a : α} : a ∈ groupOf key k s ↔ a ∈ s ∧ key a = k := Multiset.mem_filter

/-! ## Changes -/

section Changes

-- `after` is `before` with the rows of `inserted` and without those of `deleted`.
variable {before inserted deleted after : Multiset α}

/-- The group of a key that no inserted and no deleted row has stays. -/
theorem groupOf_unchanged (h : before + inserted = deleted + after)
    (hinserted : k ∉ keysOf key inserted) (hdeleted : k ∉ keysOf key deleted) :
    groupOf key k after = groupOf key k before := by
  have hgroup := congrArg (groupOf key k) h
  rw [groupOf_add, groupOf_add, groupOf_eq_zero.2 hinserted, groupOf_eq_zero.2 hdeleted, add_zero,
    zero_add] at hgroup
  exact hgroup.symm

theorem mem_keysOf_unchanged (h : before + inserted = deleted + after)
    (hinserted : k ∉ keysOf key inserted) (hdeleted : k ∉ keysOf key deleted) :
    k ∈ keysOf key after ↔ k ∈ keysOf key before := by
  rw [← not_iff_not, ← groupOf_eq_zero, ← groupOf_eq_zero, groupOf_unchanged h hinserted hdeleted]

/-- The rows of a view, with the keys in a set apart from the others. -/
theorem rows_eq_add (changed : Finset κ) :
    rows key out s =
      ((keysOf key s).filter (· ∉ changed)).val.map (fun k => out k (groupOf key k s)) +
        ((keysOf key s).filter (· ∈ changed)).val.map fun k => out k (groupOf key k s) := by
  rw [rows, ← Multiset.map_add, Finset.filter_val, Finset.filter_val, add_comm,
    Multiset.filter_add_not]

/-- A view is maintained by keeping the rows whose keys no changed row has, and computing the
others. -/
theorem rows_maintained (h : before + inserted = deleted + after) {changed : Finset κ}
    (hinserted : keysOf key inserted ⊆ changed) (hdeleted : keysOf key deleted ⊆ changed) :
    rows key out after =
      ((keysOf key before).filter (· ∉ changed)).val.map (fun k => out k (groupOf key k before)) +
        ((keysOf key after).filter (· ∈ changed)).val.map fun k => out k (groupOf key k after) := by
  have hkeys : (keysOf key after).filter (· ∉ changed) =
      (keysOf key before).filter (· ∉ changed) := by
    ext k
    rw [Finset.mem_filter, Finset.mem_filter]
    exact and_congr_left fun hk =>
      mem_keysOf_unchanged h (fun hmem => hk (hinserted hmem)) fun hmem => hk (hdeleted hmem)
  rw [rows_eq_add changed, hkeys]
  congr 1
  refine Multiset.map_congr rfl fun k hk => ?_
  have hnot := (Finset.mem_filter.1 (Finset.mem_def.2 hk)).2
  rw [groupOf_unchanged h (fun hmem => hnot (hinserted hmem)) fun hmem => hnot (hdeleted hmem)]

/-- The view of the rows that satisfy a predicate on keys. -/
theorem rows_filter (changed : Finset κ) :
    rows key out (s.filter fun a => key a ∈ changed) =
      ((keysOf key s).filter (· ∈ changed)).val.map fun k => out k (groupOf key k s) := by
  have hkeys : keysOf key (s.filter fun a => key a ∈ changed) =
      (keysOf key s).filter (· ∈ changed) := by
    ext k
    rw [mem_keysOf, Finset.mem_filter, mem_keysOf]
    constructor
    · rintro ⟨a, ha, rfl⟩
      exact ⟨⟨a, (Multiset.mem_filter.1 ha).1, rfl⟩, (Multiset.mem_filter.1 ha).2⟩
    · rintro ⟨⟨a, ha, rfl⟩, hk⟩
      exact ⟨a, Multiset.mem_filter.2 ⟨ha, hk⟩, rfl⟩
  rw [rows, hkeys]
  refine Multiset.map_congr rfl fun k hk => ?_
  have hmem := (Finset.mem_filter.1 (Finset.mem_def.2 hk)).2
  rw [groupOf, groupOf, Multiset.filter_filter]
  congr 1
  refine Multiset.filter_congr fun a _ => ?_
  exact ⟨fun ha => ha.1, fun ha => ⟨ha, ha ▸ hmem⟩⟩

end Changes

/-! ## Aggregates of changed groups -/

/-- A sum follows the changes. -/
theorem sum_changed {M : Type} [AddCommGroup M] (f : α → M)
    {before inserted deleted after : Multiset α} (h : before + inserted = deleted + after) :
    (after.map f).sum =
      (before.map f).sum + ((inserted.map f).sum + (deleted.map fun a => -f a).sum) := by
  have hsum := congrArg (fun s => (Multiset.map f s).sum) h
  simp only [Multiset.map_add, Multiset.sum_add] at hsum
  rw [Multiset.sum_map_neg, ← add_assoc, hsum]
  abel

section Extremum

variable {W : Type} [SemilatticeInf W] [OrderTop W] [Std.Total (α := W) (· ≤ ·)]

omit [OrderTop W] in
theorem inf_choice (a b : W) : a ⊓ b = a ∨ a ⊓ b = b :=
  (total_of (· ≤ ·) a b).imp inf_eq_left.2 inf_eq_right.2

/-- A least element other than the greatest one is attained. -/
theorem inf_mem {t : Multiset W} (h : t.inf ≠ ⊤) : t.inf ∈ t := by
  induction t using Multiset.induction_on with
  | empty => exact absurd Multiset.inf_zero h
  | cons a t ih =>
    rw [Multiset.inf_cons] at h ⊢
    rcases inf_choice a t.inf with hmin | hmin
    · rw [hmin]
      exact Multiset.mem_cons_self a t
    · rw [hmin] at h ⊢
      exact Multiset.mem_cons_of_mem (ih h)

/-- A minimum follows the changes, unless an element that is not greater was deleted. -/
theorem inf_changed {before inserted deleted after : Multiset W}
    (h : before + inserted = deleted + after)
    (hdeleted : ∀ d ∈ deleted, d ≠ ⊤ → ¬ d ≤ before.inf ⊓ inserted.inf) :
    after.inf = before.inf ⊓ inserted.inf := by
  have hinf := congrArg Multiset.inf h
  rw [Multiset.inf_add, Multiset.inf_add] at hinf
  rw [hinf] at hdeleted ⊢
  rcases inf_choice deleted.inf after.inf with hmin | hmin
  · by_cases htop : deleted.inf = ⊤
    · have hle : deleted.inf ≤ after.inf := inf_eq_left.1 hmin
      rw [htop] at hle
      rw [hmin, htop]
      exact top_le_iff.1 hle
    · exact absurd hmin.ge (hdeleted _ (inf_mem htop) htop)
  · exact hmin.symm

end Extremum

end GroupedView

end DuckLake
