import Mathlib.Logic.Relation

/-!
# Runs of a step function

The states that a step function reaches through actions of which each, in the state it is taken in,
meets a condition. An invariant needs to be kept by the steps that meet the condition only.
-/

namespace DuckLake

variable {σ α : Type} (step : σ → α → Option σ) (ok : σ → α → Prop)

/-- One step, by an action that meets the condition. -/
def OrderlyStep (s s' : σ) : Prop := ∃ a, ok s a ∧ step s a = some s'

/-- A run from `s` to `s'`. -/
abbrev Reaches : σ → σ → Prop := Relation.ReflTransGen (OrderlyStep step ok)

variable {step ok}

namespace Reaches

theorem invariant {I : σ → Prop} {s s' : σ} (h : Reaches step ok s s') (hinit : I s)
    (hstep : ∀ s a s', I s → ok s a → step s a = some s' → I s') : I s' := by
  induction h with
  | refl => exact hinit
  | tail _ h ih =>
    obtain ⟨a, hok, ha⟩ := h
    exact hstep _ a _ ih hok ha

/-- A sequence of actions that are all enabled is a run. -/
theorem of_foldlM {actions : List α} {s s' : σ} (h : actions.foldlM step s = some s') :
    Reaches step (fun _ _ => True) s s' := by
  induction actions generalizing s with
  | nil =>
    obtain rfl : s = s' := by simpa using h
    exact .refl
  | cons a as ih =>
    rw [List.foldlM_cons] at h
    obtain ⟨s₁, ha, has⟩ := Option.bind_eq_some_iff.1 h
    exact .head ⟨a, trivial, ha⟩ (ih has)

end Reaches

/-! ## Runs with a log

A run whose steps each leave an entry in a log. What some entries bring about and others take away
holds at the end of the run when an entry brought it about and none after it took it away.
-/

section Log

variable {σ E : Type}

/-- A run from `s` to `s'` and its log, whose last entry is the one of the last step. -/
inductive LogRun (step : σ → E → σ → Prop) (s : σ) : List E → σ → Prop
  | nil : LogRun step s [] s
  | concat {log s' e s''} : LogRun step s log s' → step s' e s'' → LogRun step s (log ++ [e]) s''

/-- An entry of the log brings something about, and no entry after it takes it away. -/
def Stands (adds removes : E → Prop) (log : List E) : Prop :=
  ∃ before e after, log = before ++ e :: after ∧ adds e ∧ ∀ later ∈ after, ¬ removes later

namespace Stands

variable {adds removes : E → Prop} {log : List E} {e : E}

theorem nil : ¬ Stands adds removes [] := by
  rintro ⟨before, e, after, hlog, -⟩
  exact List.cons_ne_nil _ _ (List.append_eq_nil_iff.1 hlog.symm).2

theorem concat :
    Stands adds removes (log ++ [e]) ↔ adds e ∨ Stands adds removes log ∧ ¬ removes e := by
  constructor
  · rintro ⟨before, first, after, hlog, hadds, hafter⟩
    rcases List.eq_nil_or_concat after with rfl | ⟨after, last, rfl⟩
    · obtain ⟨-, heq⟩ := List.append_inj' hlog rfl
      exact .inl (List.singleton_inj.1 heq ▸ hadds)
    · rw [List.concat_eq_append] at hlog hafter
      rw [← List.cons_append, ← List.append_assoc] at hlog
      obtain ⟨rfl, heq⟩ := List.append_inj' hlog rfl
      obtain rfl := List.singleton_inj.1 heq
      exact .inr ⟨⟨before, first, after, rfl, hadds, fun later h =>
        hafter later (List.mem_append_left _ h)⟩, hafter e (by simp)⟩
  · rintro (hadds | ⟨⟨before, first, after, rfl, hadds, hafter⟩, hlast⟩)
    · exact ⟨log, e, [], rfl, hadds, nofun⟩
    · refine ⟨before, first, after ++ [e], by simp, hadds, fun later h => ?_⟩
      rcases List.mem_append.1 h with h | h
      · exact hafter later h
      · exact List.mem_singleton.1 h ▸ hlast

end Stands

namespace LogRun

variable {step : σ → E → σ → Prop} {s s' : σ} {log : List E}

theorem invariant {I : σ → Prop} (h : LogRun step s log s') (hinit : I s)
    (hstep : ∀ s e s', I s → step s e s' → I s') : I s' := by
  induction h with
  | nil => exact hinit
  | concat _ h ih => exact hstep _ _ _ ih h

/-- Entries that all meet a condition are those of steps that do. -/
theorem restrict {ok : E → Prop} (h : LogRun step s log s') (hok : ∀ e ∈ log, ok e) :
    LogRun (fun s e s' => ok e ∧ step s e s') s log s' := by
  induction h with
  | nil => exact .nil
  | concat _ h ih =>
    exact .concat (ih fun e he => hok e (List.mem_append_left _ he)) ⟨hok _ (by simp), h⟩

/-- A property that every step keeps except where its entry takes it away, and that only an entry
that brings it about establishes, stands in the log. -/
theorem iff_stands {I P : σ → Prop} {adds removes : E → Prop} (h : LogRun step s log s')
    (hinit : I s) (hI : ∀ s e s', I s → step s e s' → I s') (hP : ¬ P s)
    (hstep : ∀ s e s', I s → step s e s' → (P s' ↔ adds e ∨ P s ∧ ¬ removes e)) :
    P s' ↔ Stands adds removes log := by
  induction h with
  | nil => exact iff_of_false hP Stands.nil
  | concat hrun h ih =>
    rw [hstep _ _ _ (hrun.invariant hinit hI) h, ih, Stands.concat]

end LogRun

end Log

end DuckLake
