import Mathlib.Data.List.Sort
import Mathlib.Tactic.Order
import Mathlib.Tactic.Tauto

/-!
# Ordered sets

A finite set kept as a strictly increasing list, the way an ordered container is iterated. Two
such sets with the same members are equal, so results about them can be stated as equations.
-/

namespace DuckLake

structure OrdSet (α : Type) [LT α] where
  elems : List α
  sorted : elems.Pairwise (· < ·)
deriving DecidableEq

namespace OrdSet

variable {α : Type} [LinearOrder α]

instance : Membership α (OrdSet α) := ⟨fun s a => a ∈ s.elems⟩

theorem mem_def {s : OrdSet α} {a : α} : a ∈ s ↔ a ∈ s.elems := .rfl

instance {s : OrdSet α} {a : α} : Decidable (a ∈ s) := inferInstanceAs (Decidable (a ∈ s.elems))

instance : EmptyCollection (OrdSet α) := ⟨⟨[], .nil⟩⟩

@[simp] theorem elems_empty : (∅ : OrdSet α).elems = [] := rfl

@[simp] theorem not_mem_empty {a : α} : a ∉ (∅ : OrdSet α) := List.not_mem_nil

theorem ext_mem {s t : OrdSet α} (h : ∀ a, a ∈ s ↔ a ∈ t) : s = t := by
  obtain ⟨l, hl⟩ := s
  obtain ⟨m, hm⟩ := t
  congr
  exact hl.eq_of_mem_iff hm h

theorem eq_empty_iff {s : OrdSet α} : s = ∅ ↔ ∀ a, a ∉ s := by
  refine ⟨fun h => h ▸ fun _ => not_mem_empty, fun h => ext_mem fun a => ?_⟩
  simp [h a]

/-! ## Insertion -/

def insertList (a : α) : List α → List α
  | [] => [a]
  | b :: l => if a < b then a :: b :: l else if b < a then b :: insertList a l else b :: l

theorem mem_insertList {a b : α} {l : List α} : b ∈ insertList a l ↔ b = a ∨ b ∈ l := by
  induction l with
  | nil => simp [insertList]
  | cons c l ih =>
    rw [insertList]
    split
    · simp
    · split
      · simp only [List.mem_cons, ih]
        exact or_left_comm
      · have : c = a := by order
        simp [this]

theorem sorted_insertList {a : α} {l : List α} (h : l.Pairwise (· < ·)) :
    (insertList a l).Pairwise (· < ·) := by
  induction l with
  | nil => simp [insertList]
  | cons c l ih =>
    obtain ⟨hc, hl⟩ := List.pairwise_cons.1 h
    rw [insertList]
    split
    · rename_i hac
      refine List.pairwise_cons.2 ⟨fun b hb => ?_, h⟩
      rcases List.mem_cons.1 hb with rfl | hb
      · exact hac
      · exact hac.trans (hc b hb)
    · split
      · rename_i hca
        refine List.pairwise_cons.2 ⟨fun b hb => ?_, ih hl⟩
        rcases mem_insertList.1 hb with rfl | hb
        · exact hca
        · exact hc b hb
      · exact h

def insert (s : OrdSet α) (a : α) : OrdSet α :=
  ⟨insertList a s.elems, sorted_insertList s.sorted⟩

@[simp] theorem mem_insert {s : OrdSet α} {a b : α} : b ∈ s.insert a ↔ b = a ∨ b ∈ s :=
  mem_insertList

def ofList (l : List α) : OrdSet α := l.foldl insert ∅

theorem mem_foldl_insert {l : List α} {s : OrdSet α} {a : α} :
    a ∈ l.foldl insert s ↔ a ∈ s ∨ a ∈ l := by
  induction l generalizing s with
  | nil => simp
  | cons b l ih =>
    simp only [List.foldl_cons, ih, mem_insert, List.mem_cons]
    tauto

@[simp] theorem mem_ofList {l : List α} {a : α} : a ∈ ofList l ↔ a ∈ l := by
  simp [ofList, mem_foldl_insert]

def isEmpty (s : OrdSet α) : Bool := s.elems.isEmpty

theorem isEmpty_iff {s : OrdSet α} : s.isEmpty = true ↔ ∀ a, a ∉ s := by
  simp [isEmpty, mem_def, List.isEmpty_iff, List.eq_nil_iff_forall_not_mem]

theorem isEmpty_eq_false_iff {s : OrdSet α} : s.isEmpty = false ↔ ∃ a, a ∈ s := by
  rw [← Bool.not_eq_true, isEmpty_iff]
  push Not
  rfl

end OrdSet

end DuckLake
