import Mathlib.Data.List.Forall2

/-!
# Sequences of guards

A check that either throws or returns nothing. These rules say when a sequence of such checks
passes, so that a proof about it never follows the exceptions step by step.
-/

namespace DuckLake

variable {ε α : Type}

/-- The check passes. -/
def Passes (g : Except ε Unit) : Prop := g = .ok ()

instance [DecidableEq ε] (g : Except ε Unit) : Decidable (Passes g) :=
  match g with
  | .ok () => isTrue rfl
  | .error _ => isFalse nofun

@[simp] theorem passes_ok : Passes (.ok () : Except ε Unit) := rfl

@[simp] theorem passes_pure : Passes (pure () : Except ε Unit) := rfl

@[simp] theorem not_passes_error {e : ε} : ¬ Passes (.error e : Except ε Unit) := nofun

@[simp] theorem passes_bind {g : Except ε Unit} {h : Unit → Except ε Unit} :
    Passes (g >>= h) ↔ Passes g ∧ Passes (h ()) := by
  cases g with
  | ok u => exact ⟨fun hh => ⟨rfl, hh⟩, fun hh => hh.2⟩
  | error e => exact ⟨nofun, fun hh => nomatch hh.1⟩

theorem not_passes_iff {g : Except ε Unit} : ¬ Passes g ↔ ∃ e, g = .error e := by
  cases g with
  | ok u => simp [Passes]
  | error e => simp [Passes]

@[simp] theorem passes_forM {l : List α} {f : α → Except ε Unit} :
    Passes (l.forM f) ↔ ∀ a ∈ l, Passes (f a) := by
  induction l with
  | nil => exact ⟨nofun, fun _ => rfl⟩
  | cons a l ih =>
    change Passes (f a >>= fun _ => l.forM f) ↔ _
    rw [passes_bind, List.forall_mem_cons]
    exact and_congr_right fun _ => ih

@[simp] theorem passes_ite {c : Prop} [Decidable c] {g h : Except ε Unit} :
    Passes (if c then g else h) ↔ (c → Passes g) ∧ (¬ c → Passes h) := by
  split <;> simp [*]

/-! ## Loops that may throw -/

variable {σ β : Type}

theorem bind_eq_ok {x : Except ε α} {f : α → Except ε β} {b : β} :
    (x >>= f) = .ok b ↔ ∃ a, x = .ok a ∧ f a = .ok b := by
  cases x with
  | error e => exact ⟨nofun, fun ⟨_, h, _⟩ => nomatch h⟩
  | ok a => exact ⟨fun h => ⟨a, rfl, h⟩, fun ⟨_, h, hb⟩ => Except.ok.inj h ▸ hb⟩

/-- What a loop has collected, when every round adds what its element brings. -/
theorem collects_foldlM (step : σ → α → Except ε σ) {Holds : σ → Prop} {Brings : α → Prop}
    (hstep : ∀ s a s', step s a = .ok s' → (Holds s' ↔ Holds s ∨ Brings a)) {l : List α} {s s' : σ}
    (h : l.foldlM step s = .ok s') : Holds s' ↔ Holds s ∨ ∃ a ∈ l, Brings a := by
  induction l generalizing s with
  | nil =>
    cases h
    simp
  | cons a l ih =>
    rw [List.foldlM_cons] at h
    cases ha : step s a with
    | error e =>
      rw [ha] at h
      cases h
    | ok t =>
      rw [ha] at h
      rw [ih h, hstep s a t ha, or_assoc]
      simp

/-- A loop that rejects some elements and is the loop of `step₀` on the others. -/
theorem foldlM_reject_eq_ok {step step₀ : σ → α → Except ε σ} {Bad : α → Prop}
    (hbad : ∀ s a, Bad a → ∀ s', step s a ≠ .ok s')
    (hgood : ∀ s a, ¬ Bad a → step s a = step₀ s a) {l : List α} {s s' : σ} :
    l.foldlM step s = .ok s' ↔ (∀ a ∈ l, ¬ Bad a) ∧ l.foldlM step₀ s = .ok s' := by
  induction l generalizing s with
  | nil => simp
  | cons a l ih =>
    rw [List.foldlM_cons, List.foldlM_cons, List.forall_mem_cons]
    by_cases ha : Bad a
    · cases hs : step s a with
      | error e => exact ⟨nofun, fun h => absurd ha h.1.1⟩
      | ok t => exact absurd hs (hbad s a ha t)
    · rw [hgood s a ha]
      cases step₀ s a with
      | error e => exact ⟨nofun, fun h => h.2⟩
      | ok t => exact ih.trans ⟨fun h => ⟨⟨ha, h.1⟩, h.2⟩, fun h => ⟨h.1.2, h.2⟩⟩

theorem invariant_foldlM {step : σ → α → Except ε σ} {I : σ → Prop} {l : List α}
    (hstep : ∀ s, ∀ a ∈ l, ∀ s', I s → step s a = .ok s' → I s') {s s' : σ} (hs : I s)
    (h : l.foldlM step s = .ok s') : I s' := by
  induction l generalizing s with
  | nil =>
    cases h
    exact hs
  | cons a l ih =>
    rw [List.foldlM_cons] at h
    obtain ⟨t, ht, hl⟩ := bind_eq_ok.1 h
    exact ih (fun s a ha => hstep s a (List.mem_cons_of_mem _ ha))
      (hstep s a List.mem_cons_self t hs ht) hl

theorem foldlM_unchanged (step : σ → α → Except ε σ) {f : σ → β}
    (hstep : ∀ s a s', step s a = .ok s' → f s' = f s) {l : List α} {s s' : σ}
    (h : l.foldlM step s = .ok s') : f s' = f s := by
  refine invariant_foldlM (I := fun t => f t = f s) ?_ rfl h
  intro t a _ t' ht hok
  exact (hstep t a t' hok).trans ht

theorem mapM_eq_some_iff {f : α → Option β} {l : List α} {bs : List β} :
    l.mapM f = some bs ↔ List.Forall₂ (fun a b => f a = some b) l bs := by
  induction l generalizing bs with
  | nil => simp [List.forall₂_nil_left_iff, eq_comm]
  | cons a l ih =>
    rw [List.mapM_cons, List.forall₂_cons_left_iff]
    simp only [Option.bind_eq_bind, Option.bind_eq_some_iff, ih]
    constructor
    · rintro ⟨b, hb, bs, hbs, heq⟩
      cases heq
      exact ⟨b, bs, hb, hbs, rfl⟩
    · rintro ⟨b, bs, hb, hbs, rfl⟩
      exact ⟨b, hb, bs, hbs, rfl⟩

/-- A loop that maps every element succeeds with the results of its elements, in their order. -/
theorem mapM_eq_ok_iff {f : α → Except ε β} {l : List α} {bs : List β} :
    l.mapM f = .ok bs ↔ List.Forall₂ (fun a b => f a = .ok b) l bs := by
  induction l generalizing bs with
  | nil =>
    rw [List.mapM_nil, List.forall₂_nil_left_iff]
    exact ⟨fun h => (Except.ok.inj h).symm, fun h => h ▸ rfl⟩
  | cons a l ih =>
    rw [List.mapM_cons, bind_eq_ok, List.forall₂_cons_left_iff]
    constructor
    · rintro ⟨b, ha, h⟩
      obtain ⟨bs', hl, h⟩ := bind_eq_ok.1 h
      exact ⟨b, bs', ha, ih.1 hl, (Except.ok.inj h).symm⟩
    · rintro ⟨b, bs', ha, hl, rfl⟩
      exact ⟨b, ha, bind_eq_ok.2 ⟨bs', ih.2 hl, rfl⟩⟩

theorem exists_of_mem_forall₂ {R : α → β → Prop} {l : List α} {bs : List β}
    (h : List.Forall₂ R l bs) : (∀ a ∈ l, ∃ b ∈ bs, R a b) ∧ ∀ b ∈ bs, ∃ a ∈ l, R a b := by
  induction h with
  | nil => simp
  | cons ha _ ih =>
    obtain ⟨hleft, hright⟩ := ih
    constructor
    · intro a' ha'
      rcases List.mem_cons.mp ha' with rfl | ha'
      · exact ⟨_, List.mem_cons_self, ha⟩
      · obtain ⟨b', hb', hR⟩ := hleft a' ha'
        exact ⟨b', List.mem_cons_of_mem _ hb', hR⟩
    · intro b' hb'
      rcases List.mem_cons.mp hb' with rfl | hb'
      · exact ⟨_, List.mem_cons_self, ha⟩
      · obtain ⟨a', ha', hR⟩ := hright b' hb'
        exact ⟨a', List.mem_cons_of_mem _ ha', hR⟩

/-- The results of a loop that maps every element are those of its elements. -/
theorem mapM_ok {f : α → Except ε β} {l : List α} {bs : List β} (h : l.mapM f = .ok bs) :
    (∀ a ∈ l, ∃ b ∈ bs, f a = .ok b) ∧ ∀ b ∈ bs, ∃ a ∈ l, f a = .ok b :=
  exists_of_mem_forall₂ (mapM_eq_ok_iff.1 h)

theorem mapM_succeeds {f : α → Except ε β} {l : List α} (h : ∀ a ∈ l, ∃ b, f a = .ok b) :
    ∃ bs, l.mapM f = .ok bs := by
  induction l with
  | nil => exact ⟨[], rfl⟩
  | cons a l ih =>
    obtain ⟨b, hb⟩ := h a List.mem_cons_self
    obtain ⟨bs, hbs⟩ := ih fun a ha => h a (List.mem_cons_of_mem _ ha)
    refine ⟨b :: bs, ?_⟩
    rw [List.mapM_cons, hb, hbs]
    rfl

/-- A loop that changes the elements around one of them in a fixed way. -/
theorem mapM_around {f : α → Except ε β} {g : α → β} {before after : List α} {a : α}
    (hbefore : ∀ b ∈ before, f b = .ok (g b)) (hafter : ∀ b ∈ after, f b = .ok (g b)) :
    (before ++ a :: after).mapM f =
      (f a).map fun c => before.map g ++ c :: after.map g := by
  have hmap : ∀ {l : List α}, (∀ b ∈ l, f b = .ok (g b)) → l.mapM f = .ok (l.map g) := by
    intro l h
    rw [mapM_eq_ok_iff, List.forall₂_map_right_iff]
    exact List.forall₂_same.2 h
  rw [List.mapM_append, List.mapM_cons, hmap hbefore, hmap hafter]
  cases f a <;> rfl

end DuckLake
