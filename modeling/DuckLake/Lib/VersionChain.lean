import Mathlib.Data.List.Basic

/-!
# Chains of versions

An object with a base version and the versions made on top of it, the latest first. Each version is
made from the one below it. What the versions on top do not change is read off any of them.
-/

namespace DuckLake

structure VersionChain (E : Type) where
  base : E
  staged : List E := []

variable {E γ : Type} {r : E → E → Prop} {base v : E} {newer older : List E}

namespace VersionChain

def current (c : VersionChain E) : E := c.staged.headD c.base

def push (c : VersionChain E) (v : E) : VersionChain E := { c with staged := v :: c.staged }

@[simp] theorem current_push {c : VersionChain E} {v : E} : (c.push v).current = v := rfl

end VersionChain

/-- Every version of the list is made from the one below it, the last one from the base. -/
def MadeFrom (r : E → E → Prop) (base : E) : List E → Prop
  | [] => True
  | v :: older => r (older.headD base) v ∧ MadeFrom r base older

namespace MadeFrom

theorem of_append (h : MadeFrom r base (newer ++ older)) : MadeFrom r base older := by
  induction newer with
  | nil => exact h
  | cons _ _ ih => exact ih h.2

theorem made (h : MadeFrom r base (newer ++ v :: older)) : r (older.headD base) v :=
  h.of_append.1

/-- The latest version still has what no version above `older` changes. -/
theorem keeps {f : E → γ} {p : E → Prop} (hstep : ∀ u v, r u v → ¬ p v → f v = f u)
    (h : MadeFrom r base (newer ++ older)) (hnewer : ∀ v ∈ newer, ¬ p v) :
    f ((newer ++ older).headD base) = f (older.headD base) := by
  induction newer with
  | nil => rfl
  | cons v newer ih =>
    have hv : f v = f ((newer ++ older).headD base) := hstep _ v h.1 (hnewer v (by simp))
    exact hv.trans (ih h.2 fun w hw => hnewer w (by simp [hw]))

theorem keeps_base {f : E → γ} {p : E → Prop}
    (hstep : ∀ u v, r u v → ¬ p v → f v = f u) {versions : List E}
    (h : MadeFrom r base versions) (hversions : ∀ v ∈ versions, ¬ p v) :
    f (versions.headD base) = f base := by
  have hkeeps : f ((versions ++ []).headD base) = f (([] : List E).headD base) :=
    keeps hstep (by simpa using h) hversions
  simpa using hkeeps

/-- What holds of the base and is kept by every step holds of all versions. -/
theorem all {P : E → Prop} (hbase : P base) (hstep : ∀ u v, r u v → P u → P v) {versions : List E}
    (h : MadeFrom r base versions) : P (versions.headD base) ∧ ∀ v ∈ versions, P v := by
  induction versions with
  | nil => exact ⟨hbase, by simp⟩
  | cons v older ih =>
    obtain ⟨hhead, hall⟩ := ih h.2
    have hv := hstep _ v h.1 hhead
    exact ⟨hv, by simpa [hv] using hall⟩

end MadeFrom

end DuckLake
