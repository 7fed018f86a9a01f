import Mathlib.Logic.Relation

/-!
# Chains of a deterministic relation

Where every element has at most one successor, the elements reachable from `a` form a chain. It
ends, at one element only, or it enters a cycle.
-/

namespace DuckLake

open Relation

variable {α : Type} {r : α → α → Prop}

/-- The chain of `a` ends at `b`. -/
def EndsAt (r : α → α → Prop) (a b : α) : Prop := ReflTransGen r a b ∧ ∀ c, ¬ r b c

def EntersCycle (r : α → α → Prop) (a : α) : Prop := ∃ b, ReflTransGen r a b ∧ TransGen r b b

theorem eq_of_reflTransGen {a b : α} (h : ReflTransGen r a b) (hend : ∀ c, ¬ r a c) : a = b := by
  rcases h.cases_head with rfl | ⟨c, hc, -⟩
  · rfl
  · exact absurd hc (hend c)

theorem EndsAt.unique (hr : Relator.RightUnique r) {a b c : α} (hb : EndsAt r a b)
    (hc : EndsAt r a c) : b = c := by
  rcases ReflTransGen.total_of_right_unique hr hb.1 hc.1 with h | h
  · exact eq_of_reflTransGen h hb.2
  · exact (eq_of_reflTransGen h hc.2).symm

/-- On a cycle every element has a successor, and it is on the cycle too. -/
theorem transGen_self_of_reflTransGen (hr : Relator.RightUnique r) {a b : α} (hcycle : TransGen r a a)
    (h : ReflTransGen r a b) : TransGen r b b := by
  induction h with
  | refl => exact hcycle
  | @tail b c _ hbc ih =>
    obtain ⟨d, hbd, hdb⟩ := TransGen.head'_iff.1 ih
    obtain rfl := hr hbc hbd
    exact TransGen.tail' hdb hbc

theorem EndsAt.not_entersCycle (hr : Relator.RightUnique r) {a b : α} (h : EndsAt r a b) :
    ¬ EntersCycle r a := by
  rintro ⟨c, hac, hcycle⟩
  have hbb : TransGen r b b := by
    rcases ReflTransGen.total_of_right_unique hr hac h.1 with hcb | hbc
    · exact transGen_self_of_reflTransGen hr hcycle hcb
    · rwa [eq_of_reflTransGen hbc h.2]
  obtain ⟨d, hbd, -⟩ := TransGen.head'_iff.1 hbb
  exact h.2 d hbd

end DuckLake
