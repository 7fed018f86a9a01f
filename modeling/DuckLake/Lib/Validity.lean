import Mathlib.Data.List.Basic

/-!
# Versioned rows

A row of a versioned table is visible from the version that wrote it up to the version that ended
it. Once none of the versions between is retained, nobody can see the row and it may go.
-/

namespace DuckLake

/-- The versions at which a row is visible: from `beginAt` on, and before `endAt` if it ends. -/
structure Validity (α : Type) where
  beginAt : α
  endAt : Option α
deriving DecidableEq

namespace Validity

variable {α β : Type} [LE α] [LT α] [DecidableLE α] [DecidableLT α]

def visibleAt (v : Validity α) (s : α) : Bool := decide (v.beginAt ≤ s) && v.endAt.all (s < ·)

/-- The row has ended and no retained version sees it. -/
def expired (v : Validity α) (retained : List α) : Bool :=
  v.endAt.any fun e => !retained.any fun s => decide (v.beginAt ≤ s) && decide (s < e)

theorem not_expired_of_visibleAt {v : Validity α} {s : α} {retained : List α} (hs : s ∈ retained)
    (h : v.visibleAt s = true) : v.expired retained = false := by
  simp only [visibleAt, Bool.and_eq_true, decide_eq_true_eq] at h
  obtain ⟨hbegin, hend⟩ := h
  cases he : v.endAt with
  | none => simp [expired, he]
  | some e =>
    rw [he] at hend
    have hlt : s < e := by simpa using hend
    have hany : (retained.any fun s => decide (v.beginAt ≤ s) && decide (s < e)) = true :=
      List.any_eq_true.mpr ⟨s, hs, by simp [hbegin, hlt]⟩
    simp only [expired, he, Option.any_some, hany, Bool.not_true]

end Validity

/-- What is seen of a list does not change when only unseen elements are left out. -/
theorem filter_filter_of_seen {α : Type} {keep seen : α → Bool} {l : List α}
    (h : ∀ a ∈ l, seen a = true → keep a = true) :
    (l.filter keep).filter seen = l.filter seen := by
  rw [List.filter_filter]
  apply List.filter_congr
  intro a ha
  cases hs : seen a with
  | false => rfl
  | true => simpa [hs] using h a ha hs

end DuckLake
