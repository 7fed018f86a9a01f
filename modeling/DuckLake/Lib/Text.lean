import Mathlib.Data.List.Basic

/-!
# Text

Strings as lists of characters, with the two quoting conventions that textual formats share: a
value wrapped in a quote character whose occurrences inside the value are doubled, and a list of
values joined by a separator.
-/

namespace DuckLake

abbrev Text := List Char

instance : Coe String Text := ⟨String.toList⟩

namespace Text

/-- A property of all characters of a text that is evaluated one by one. -/
theorem forall_mem_of_all {p : Char → Prop} [DecidablePred p] {t : Text}
    (h : t.all (fun c => decide (p c)) = true) : ∀ c ∈ t, p c :=
  fun c hc => of_decide_eq_true (List.all_eq_true.1 h c hc)

/-! ## Case folding -/

/-- Case folding of ASCII letters: two texts are equal without regard to case when their folds
are equal. -/
def fold (t : Text) : Text := t.map Char.toLower

def ciEquals (s t : Text) : Bool := s.fold == t.fold

@[simp] theorem ciEquals_iff {s t : Text} : ciEquals s t = true ↔ s.fold = t.fold := by
  simp [ciEquals]

theorem ciEquals_refl (t : Text) : ciEquals t t = true := by simp

/-! ## Joining -/

def join (sep : Text) : List Text → Text
  | [] => []
  | [t] => t
  | t :: u :: ts => t ++ sep ++ join sep (u :: ts)

theorem join_cons {sep t : Text} {ts : List Text} (h : ts ≠ []) :
    join sep (t :: ts) = t ++ sep ++ join sep ts := by
  obtain ⟨u, us, rfl⟩ := List.exists_cons_of_ne_nil h
  rfl

theorem join_append {sep : Text} {ts us : List Text} (ht : ts ≠ []) (hu : us ≠ []) :
    join sep (ts ++ us) = join sep ts ++ sep ++ join sep us := by
  induction ts with
  | nil => exact absurd rfl ht
  | cons t ts ih =>
    by_cases h : ts = []
    · subst h
      rw [List.singleton_append, join_cons hu]
      rfl
    · rw [List.cons_append, join_cons (by simp [h]), join_cons h, ih h]
      simp only [List.append_assoc]

theorem join_ne_nil {sep : Text} {ts : List Text} (h : ts ≠ []) (hts : ∀ t ∈ ts, t ≠ []) :
    join sep ts ≠ [] := by
  cases ts with
  | nil => exact absurd rfl h
  | cons t ts =>
    have ht := hts t (by simp)
    cases ts with
    | nil => exact ht
    | cons u us =>
      rw [join_cons (by simp)]
      simp [ht]

/-- Joining the nonempty ones among joined groups is joining all their parts. -/
theorem join_join {α : Type} {sep : Text} {xs : List α} {f : α → List Text}
    (hf : ∀ x ∈ xs, ∀ t ∈ f x, t ≠ []) :
    join sep ((xs.map fun x => join sep (f x)).filter (!·.isEmpty)) = join sep (xs.flatMap f) := by
  induction xs with
  | nil => rfl
  | cons x xs ih =>
    have ih := ih fun y hy => hf y (List.mem_cons_of_mem _ hy)
    rw [List.map_cons, List.flatMap_cons]
    by_cases hx : f x = []
    · rw [hx]
      exact ih
    · have hjoin : join sep (f x) ≠ [] := join_ne_nil hx (hf x (by simp))
      rw [List.filter_cons_of_pos (by simpa using hjoin)]
      by_cases hxs : xs.flatMap f = []
      · rw [hxs] at ih ⊢
        have hnil : (xs.map fun x => join sep (f x)).filter (!·.isEmpty) = [] := by
          by_contra hne
          refine join_ne_nil hne (fun t ht => ?_) ih
          simpa using (List.mem_filter.1 ht).2
        rw [hnil, List.append_nil]
        rfl
      · rw [join_append hx hxs, ← ih, join_cons]
        intro hnil
        rw [hnil] at ih
        exact join_ne_nil hxs (fun t ht => by
          obtain ⟨y, hy, ht⟩ := List.mem_flatMap.1 ht
          exact hf y (List.mem_cons_of_mem _ hy) t ht) ih.symm

/-! ## Quoting -/

/-- Every occurrence of the quote character doubled. -/
def escape (q : Char) : Text → Text
  | [] => []
  | c :: t => if c = q then q :: q :: escape q t else c :: escape q t

def writeQuoted (q : Char) (t : Text) : Text := q :: escape q t ++ [q]

theorem escape_append {q : Char} {s t : Text} : escape q (s ++ t) = escape q s ++ escape q t := by
  induction s with
  | nil => rfl
  | cons c s ih => by_cases h : c = q <;> simp [escape, h, ih]

theorem escape_eq_flatMap {q : Char} {t : Text} :
    escape q t = t.flatMap fun c => if c = q then [q, q] else [c] := by
  induction t with
  | nil => rfl
  | cons c t ih => by_cases h : c = q <;> simp [escape, h, ih]

/-- Position of a scanner that tracks whether it stands inside quotes: a quote character flips the
state. -/
def quoteState (q : Char) : Bool → Text → Bool
  | b, [] => b
  | b, c :: t => quoteState q (if c = q then !b else b) t

theorem quoteState_append {q : Char} {b : Bool} {s t : Text} :
    quoteState q b (s ++ t) = quoteState q (quoteState q b s) t := by
  induction s generalizing b with
  | nil => rfl
  | cons c s ih => exact ih

/-- No occurrence of `sep` is met outside quotes by a scanner that starts in state `b`. -/
def Guarded (q sep : Char) : Bool → Text → Prop
  | _, [] => True
  | b, c :: t => (b = false → c ≠ sep) ∧ Guarded q sep (if c = q then !b else b) t

theorem Guarded.append {q sep : Char} {b : Bool} {s t : Text} :
    Guarded q sep b (s ++ t) ↔ Guarded q sep b s ∧ Guarded q sep (quoteState q b s) t := by
  induction s generalizing b with
  | nil => simp [Guarded, quoteState]
  | cons c s ih => simp only [List.cons_append, Guarded, quoteState, ih, and_assoc]

/-- A text that a scanner crosses without meeting an unquoted separator, and leaves outside
quotes. -/
structure Closed (q sep : Char) (t : Text) : Prop where
  guarded : Guarded q sep false t
  state : quoteState q false t = false

namespace Closed

variable {q sep : Char} {s t : Text}

theorem nil : Closed q sep [] := ⟨trivial, rfl⟩

theorem append (hs : Closed q sep s) (ht : Closed q sep t) : Closed q sep (s ++ t) where
  guarded := Guarded.append.2 ⟨hs.guarded, by rw [hs.state]; exact ht.guarded⟩
  state := by rw [quoteState_append, hs.state, ht.state]

theorem cons {c : Char} (hq : c ≠ q) (hsep : c ≠ sep) (ht : Closed q sep t) :
    Closed q sep (c :: t) where
  guarded := ⟨fun _ => hsep, by rw [if_neg hq]; exact ht.guarded⟩
  state := by rw [quoteState, if_neg hq]; exact ht.state

theorem of_forall (h : ∀ c ∈ t, c ≠ q ∧ c ≠ sep) : Closed q sep t := by
  induction t with
  | nil => exact .nil
  | cons c t ih =>
    obtain ⟨hq, hsep⟩ := h c (by simp)
    exact cons hq hsep (ih fun d hd => h d (List.mem_cons_of_mem _ hd))

private theorem escape_inside (hsep : sep ≠ q) (t : Text) :
    Guarded q sep true (escape q t) ∧ quoteState q true (escape q t) = true := by
  induction t with
  | nil => exact ⟨trivial, rfl⟩
  | cons c t ih =>
    by_cases h : c = q
    · simp [escape, h, Guarded, quoteState, ih, hsep.symm]
    · simp [escape, h, Guarded, quoteState, ih]

theorem writeQuoted (hsep : sep ≠ q) (t : Text) : Closed q sep (Text.writeQuoted q t) := by
  obtain ⟨hg, hs⟩ := escape_inside hsep t
  constructor
  · simp only [Text.writeQuoted, List.cons_append, Guarded, if_true, Bool.not_false]
    refine ⟨fun _ => hsep.symm, Guarded.append.2 ⟨hg, ?_⟩⟩
    simp [Guarded, hs]
  · simp [Text.writeQuoted, quoteState, quoteState_append, hs]

theorem join {ts : List Text} {sep' : Text} (hsep : Closed q sep sep')
    (h : ∀ t ∈ ts, Closed q sep t) : Closed q sep (Text.join sep' ts) := by
  induction ts with
  | nil => exact .nil
  | cons t ts ih =>
    have ih := ih fun u hu => h u (List.mem_cons_of_mem _ hu)
    cases ts with
    | nil => exact h t (by simp)
    | cons u us => exact ((h t (by simp)).append hsep).append ih

end Closed

/-! ## Decimal numbers -/

def ofNat (n : Nat) : Text := Nat.toDigits 10 n

theorem isDigit_of_mem_ofNat {n : Nat} {c : Char} (h : c ∈ ofNat n) : c.isDigit :=
  Nat.isDigit_of_mem_toDigits (by decide) (by decide) h

theorem ofNat_ne_nil (n : Nat) : ofNat n ≠ [] := Nat.toDigits_ne_nil

end Text

end DuckLake
