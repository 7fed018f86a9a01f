import Mathlib.Data.List.Basic

/-!
# Computations that may stop half way

An `Attempt` changes a state and may throw. Unlike a transaction it undoes nothing when it throws:
the state it leaves behind is the state at the point of failure. `Keeps I` says that an invariant
holds of what is left behind, whether the attempt got to its end or not; `Yields P m Q` is about
the attempts that get to their end; `Returns m s Q` says that the attempt does get there.
-/

abbrev Attempt (σ ε α : Type) : Type := ExceptT ε (StateM σ) α

namespace Attempt

variable {σ ε α β : Type}

/-- The outcome of an attempt, and the state that it leaves behind. -/
def run (m : Attempt σ ε α) (s : σ) : Except ε α × σ := m s

@[simp] theorem run_pure {a : α} {s : σ} : run (pure a : Attempt σ ε α) s = (.ok a, s) := rfl

@[simp] theorem run_throw {e : ε} {s : σ} :
    run (throw e : Attempt σ ε α) s = (.error e, s) := rfl

@[simp] theorem run_modify {f : σ → σ} {s : σ} :
    run (modify f : Attempt σ ε PUnit) s = (.ok ⟨⟩, f s) := rfl

@[simp] theorem run_modifyGet {f : σ → α × σ} {s : σ} :
    run (modifyGet f : Attempt σ ε α) s = (.ok (f s).1, (f s).2) := rfl

@[simp] theorem run_get {s : σ} : run (get : Attempt σ ε σ) s = (.ok s, s) := rfl

theorem run_bind {m : Attempt σ ε α} {f : α → Attempt σ ε β} {s : σ} :
    run (m >>= f) s =
      match run m s with
      | (.ok a, t) => run (f a) t
      | (.error e, t) => (.error e, t) := by
  change run (ExceptT.bind m f) s = _
  simp only [run, ExceptT.bind, ExceptT.mk]
  change StateT.bind m (ExceptT.bindCont f) s = _
  simp only [StateT.bind]
  change ExceptT.bindCont f (m s).1 (m s).2 = _
  match hm : m s with
  | (.ok a, t) => rfl
  | (.error e, t) => rfl

@[simp] theorem run_ofExcept {r : Except ε α} {s : σ} :
    run (MonadExcept.ofExcept r : Attempt σ ε α) s = (r, s) := by
  cases r <;> rfl

/-! ## Invariants -/

def Keeps (I : σ → Prop) (m : Attempt σ ε α) : Prop := ∀ s, I s → I (run m s).2

namespace Keeps

variable {I : σ → Prop} {m : Attempt σ ε α} {f : α → Attempt σ ε β}

theorem pure {a : α} : Keeps I (pure a : Attempt σ ε α) := fun _ h => h

theorem throw {e : ε} : Keeps I (throw e : Attempt σ ε α) := fun _ h => h

theorem get : Keeps I (get : Attempt σ ε σ) := fun _ h => h

theorem ofExcept {r : Except ε α} : Keeps I (MonadExcept.ofExcept r : Attempt σ ε α) := by
  intro s h
  rw [run_ofExcept]
  exact h

theorem modify {g : σ → σ} (h : ∀ s, I s → I (g s)) :
    Keeps I (modify g : Attempt σ ε PUnit) := h

theorem modifyGet {g : σ → α × σ} (h : ∀ s, I s → I (g s).2) :
    Keeps I (modifyGet g : Attempt σ ε α) := h

theorem bind (hm : Keeps I m) (hf : ∀ a, Keeps I (f a)) : Keeps I (m >>= f) := by
  intro s hs
  have ht := hm s hs
  rw [run_bind]
  match hr : run m s with
  | (.ok a, t) =>
    rw [hr] at ht
    exact hf a t ht
  | (.error e, t) =>
    rw [hr] at ht
    exact ht

/-- What is known of the result may be used from there on. -/
theorem bindPost {P : α → Prop} (hm : Keeps I m)
    (hP : ∀ s a, I s → (run m s).1 = .ok a → P a) (hf : ∀ a, P a → Keeps I (f a)) :
    Keeps I (m >>= f) := by
  intro s hs
  have ht := hm s hs
  have hp := hP s
  rw [run_bind]
  match hr : run m s with
  | (.ok a, t) =>
    rw [hr] at ht hp
    exact hf a (hp a hs rfl) t ht
  | (.error e, t) =>
    rw [hr] at ht
    exact ht

theorem ite {c : Prop} [Decidable c] {m₁ m₂ : Attempt σ ε α} (h₁ : c → Keeps I m₁)
    (h₂ : ¬c → Keeps I m₂) : Keeps I (if c then m₁ else m₂) := by
  split
  · exact h₁ ‹_›
  · exact h₂ ‹_›

theorem foldlM {γ : Type} {g : β → γ → Attempt σ ε β} {l : List γ} {b : β}
    (h : ∀ b, ∀ c ∈ l, Keeps I (g b c)) : Keeps I (l.foldlM g b) := by
  induction l generalizing b with
  | nil => exact pure
  | cons c l ih =>
    rw [List.foldlM_cons]
    exact (h b c (.head _)).bind fun b' => ih fun b'' c' hc' => h b'' c' (.tail _ hc')

theorem mapM {γ : Type} {g : γ → Attempt σ ε β} {l : List γ} (h : ∀ c ∈ l, Keeps I (g c)) :
    Keeps I (l.mapM g) := by
  induction l with
  | nil => exact pure
  | cons c l ih =>
    rw [List.mapM_cons]
    exact (h c (.head _)).bind fun b => (ih fun c' hc' => h c' (.tail _ hc')).bind fun _ => pure

theorem forM {γ : Type} {g : γ → Attempt σ ε PUnit} {l : List γ} (h : ∀ c ∈ l, Keeps I (g c)) :
    Keeps I (l.forM g) := by
  induction l with
  | nil => exact pure
  | cons c l ih =>
    exact bind (h c (.head _)) fun _ => ih fun c' hc' => h c' (.tail _ hc')

end Keeps

/-! ## Results -/

/-- If the attempt gets to its end from a state with `P`, then `Q` holds of its result and of the
state it leaves behind. -/
def Yields (P : σ → Prop) (m : Attempt σ ε α) (Q : α → σ → Prop) : Prop :=
  ∀ s, P s → ∀ a t, run m s = (.ok a, t) → Q a t

namespace Yields

variable {P : σ → Prop} {m : Attempt σ ε α} {Q : α → σ → Prop} {f : α → Attempt σ ε β}
  {R : β → σ → Prop}

theorem pure {a : α} (h : ∀ s, P s → Q a s) : Yields P (pure a : Attempt σ ε α) Q := by
  intro s hs b t hrun
  cases hrun
  exact h s hs

theorem throw {e : ε} : Yields P (throw e : Attempt σ ε α) Q := by
  intro s hs b t hrun
  cases hrun

theorem get {Q : σ → σ → Prop} (h : ∀ s, P s → Q s s) :
    Yields P (get : Attempt σ ε σ) Q := by
  intro s hs b t hrun
  cases hrun
  exact h s hs

theorem modify {g : σ → σ} {Q : PUnit → σ → Prop} (h : ∀ s, P s → Q ⟨⟩ (g s)) :
    Yields P (modify g : Attempt σ ε PUnit) Q := by
  intro s hs b t hrun
  cases hrun
  exact h s hs

theorem modifyGet {g : σ → α × σ} (h : ∀ s, P s → Q (g s).1 (g s).2) :
    Yields P (modifyGet g : Attempt σ ε α) Q := by
  intro s hs b t hrun
  cases hrun
  exact h s hs

theorem ofExcept {r : Except ε α} (h : ∀ s a, P s → r = .ok a → Q a s) :
    Yields P (MonadExcept.ofExcept r : Attempt σ ε α) Q := by
  intro s hs b t hrun
  rw [run_ofExcept] at hrun
  cases hrun
  exact h s b hs rfl

theorem bind (hm : Yields P m Q) (hf : ∀ a, Yields (Q a) (f a) R) : Yields P (m >>= f) R := by
  intro s hs b t hrun
  rw [run_bind] at hrun
  match hr : run m s with
  | (.ok a, u) =>
    rw [hr] at hrun
    exact hf a u (hm s hs a u hr) b t hrun
  | (.error e, u) =>
    rw [hr] at hrun
    cases hrun

theorem mono {P' : σ → Prop} {Q' : α → σ → Prop} (h : Yields P m Q) (hP : ∀ s, P' s → P s)
    (hQ : ∀ a s, Q a s → Q' a s) : Yields P' m Q' :=
  fun s hs a t hrun => hQ a t (h s (hP s hs) a t hrun)

/-- What does not depend on the state is known from there on. -/
theorem trivial (m : Attempt σ ε α) : Yields P m fun _ _ => True := fun _ _ _ _ _ => True.intro

theorem pull {p : Prop} (h : p → Yields P m Q) : Yields (fun s => P s ∧ p) m Q :=
  fun s hs => h hs.2 s hs.1

/-- What is known of the state stays known when the state is only read. -/
theorem frame {F : σ → Prop} (h : Yields P m Q) (hm : ∀ s a t, run m s = (.ok a, t) → t = s) :
    Yields (fun s => P s ∧ F s) m fun a s => Q a s ∧ F s := by
  intro s hs a t hrun
  have hsame := hm s a t hrun
  subst hsame
  exact ⟨h t hs.1 a t hrun, hs.2⟩

theorem pullExists {ι : Type} {P : ι → σ → Prop} (h : ∀ i, Yields (P i) m Q) :
    Yields (fun s => ∃ i, P i s) m Q :=
  fun s ⟨i, hs⟩ => h i s hs

theorem ite {c : Prop} [Decidable c] {m₁ m₂ : Attempt σ ε α} (h₁ : c → Yields P m₁ Q)
    (h₂ : ¬c → Yields P m₂ Q) : Yields P (if c then m₁ else m₂) Q := by
  split
  · exact h₁ ‹_›
  · exact h₂ ‹_›

/-- A loop, with an invariant that knows which elements are done. -/
theorem foldlM {γ : Type} {g : β → γ → Attempt σ ε β} {l : List γ} {b : β}
    (I : List γ → β → σ → Prop)
    (h : ∀ done c rest b, l = done ++ c :: rest → Yields (I done b) (g b c) (I (done ++ [c]))) :
    Yields (I [] b) (l.foldlM g b) (I l) := by
  have hloop : ∀ done rest b, l = done ++ rest → Yields (I done b) (rest.foldlM g b) (I l) := by
    intro done rest
    induction rest generalizing done with
    | nil =>
      intro b hl
      rw [List.append_nil] at hl
      exact pure fun s hs => hl ▸ hs
    | cons c rest ih =>
      intro b hl
      rw [List.foldlM_cons]
      refine (h done c rest b hl).bind fun b' => ih (done ++ [c]) b' ?_
      rw [hl, List.append_assoc, List.singleton_append]
  exact hloop [] l b rfl

/-- The same for a loop that collects results. -/
theorem mapM {γ : Type} {g : γ → Attempt σ ε β} {l : List γ} (I : List γ → List β → σ → Prop)
    (h : ∀ done c rest bs, l = done ++ c :: rest →
      Yields (I done bs) (g c) fun b => I (done ++ [c]) (bs ++ [b])) :
    Yields (I [] []) (l.mapM g) (I l) := by
  have hloop : ∀ done rest bs, l = done ++ rest →
      Yields (I done bs) (rest.mapM g) fun bs' => I l (bs ++ bs') := by
    intro done rest
    induction rest generalizing done with
    | nil =>
      intro bs hl
      rw [List.append_nil] at hl
      rw [List.mapM_nil]
      exact pure fun s hs => by rwa [List.append_nil, hl]
    | cons c rest ih =>
      intro bs hl
      rw [List.mapM_cons]
      refine (h done c rest bs hl).bind fun b => ?_
      refine (ih (done ++ [c]) (bs ++ [b]) ?_).bind fun bs' => pure fun s hs => ?_
      · rw [hl, List.append_assoc, List.singleton_append]
      · rwa [List.append_assoc, List.singleton_append] at hs
  exact hloop [] l [] rfl

/-- The same for a loop without results. -/
theorem forM {γ : Type} {g : γ → Attempt σ ε PUnit} {l : List γ} (I : σ → Prop)
    (h : ∀ c ∈ l, Yields I (g c) fun _ => I) : Yields I (l.forM g) fun _ => I := by
  induction l with
  | nil => exact pure fun s hs => hs
  | cons c l ih =>
    exact bind (h c (.head _)) fun _ => ih fun c' hc' => h c' (.tail _ hc')

end Yields

theorem Keeps.yields {I : σ → Prop} {m : Attempt σ ε α} (h : Keeps I m) : Yields I m fun _ => I := by
  intro s hs a t hrun
  have ht := h s hs
  rwa [hrun] at ht

/-- A loop that collects results collects one for each element. -/
theorem length_of_mapM {γ : Type} {g : γ → Attempt σ ε β} {l : List γ} {s : σ} {bs : List β}
    (h : (run (l.mapM g) s).1 = .ok bs) : bs.length = l.length := by
  have hlength : Yields (fun _ : σ => True) (l.mapM g) fun bs _ => bs.length = l.length := by
    refine .mono (.mapM (fun done bs _ => bs.length = done.length) ?_) (fun _ _ => rfl)
      fun _ _ h => h
    intro done c rest bs _ s hs b t _
    simp [hs]
  exact hlength s trivial bs (run (l.mapM g) s).2 (Prod.ext h rfl)

theorem Keeps.mapMBind {γ δ : Type} {I : σ → Prop} {g : γ → Attempt σ ε β} {l : List γ}
    {f : List β → Attempt σ ε δ} (hg : ∀ c ∈ l, Keeps I (g c))
    (hf : ∀ bs, bs.length = l.length → Keeps I (f bs)) : Keeps I (l.mapM g >>= f) :=
  bindPost (mapM hg) (fun _ _ _ h => length_of_mapM h) hf

/-! ## Attempts that get to their end -/

/-- From `s` the attempt gets to its end, with a result and a state that satisfy `Q`. -/
def Returns (m : Attempt σ ε α) (s : σ) (Q : α → σ → Prop) : Prop :=
  ∃ a t, run m s = (.ok a, t) ∧ Q a t

namespace Returns

variable {m : Attempt σ ε α} {f : α → Attempt σ ε β} {s : σ} {Q : α → σ → Prop}

theorem pure {a : α} (h : Q a s) : Returns (pure a : Attempt σ ε α) s Q := ⟨a, s, rfl, h⟩

theorem modify {g : σ → σ} {Q : PUnit → σ → Prop} (h : Q ⟨⟩ (g s)) :
    Returns (modify g : Attempt σ ε PUnit) s Q := ⟨⟨⟩, g s, rfl, h⟩

theorem modifyGet {g : σ → α × σ} (h : Q (g s).1 (g s).2) :
    Returns (modifyGet g : Attempt σ ε α) s Q := ⟨(g s).1, (g s).2, rfl, h⟩

theorem get {Q : σ → σ → Prop} (h : Q s s) : Returns (get : Attempt σ ε σ) s Q := ⟨s, s, rfl, h⟩

theorem ofExcept {r : Except ε α} {a : α} (hr : r = .ok a) (h : Q a s) :
    Returns (MonadExcept.ofExcept r : Attempt σ ε α) s Q := ⟨a, s, by rw [run_ofExcept, hr], h⟩

theorem bind {R : β → σ → Prop} (h : Returns m s fun a t => Returns (f a) t R) :
    Returns (m >>= f) s R := by
  obtain ⟨a, t, hm, b, u, hf, hR⟩ := h
  exact ⟨b, u, by rw [run_bind, hm]; exact hf, hR⟩

theorem mono {Q' : α → σ → Prop} (h : Returns m s Q) (hQ : ∀ a t, Q a t → Q' a t) :
    Returns m s Q' := by
  obtain ⟨a, t, hm, h⟩ := h
  exact ⟨a, t, hm, hQ a t h⟩

/-- A loop, with an invariant that knows what is left to do. -/
theorem foldlM {γ : Type} {g : β → γ → Attempt σ ε β} {I : List γ → β → σ → Prop}
    (h : ∀ c rest b s, I (c :: rest) b s → Returns (g b c) s (I rest)) {l : List γ} {b : β}
    (hl : I l b s) : Returns (l.foldlM g b) s (I []) := by
  induction l generalizing b s with
  | nil => exact pure hl
  | cons c l ih =>
    rw [List.foldlM_cons]
    exact bind ((h c l b s hl).mono fun b' t ht => ih ht)

end Returns

end Attempt
