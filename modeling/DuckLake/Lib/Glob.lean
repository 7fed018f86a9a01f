import Mathlib.Data.List.Forall2

/-!
# Patterns with wildcards

A pattern is a list of literals, of wildcards for one letter, and of wildcards for any run of
letters. The letters of a text are matched in their order, and nothing of the text is left over. A
matcher that compares letters before it looks for runs takes the letter that runs are written with
for itself; `DenotesTaking` is the language that is left of a pattern then.
-/

namespace DuckLake

inductive Wildcard (α : Type) where
  | literal (a : α)
  | one
  | run

namespace Wildcard

variable {α : Type}

/-- The pattern matches the text as a whole. -/
def Denotes : List (Wildcard α) → List α → Prop
  | [], text => text = []
  | literal a :: pattern, text => ∃ rest, text = a :: rest ∧ Denotes pattern rest
  | one :: pattern, text => ∃ a rest, text = a :: rest ∧ Denotes pattern rest
  | run :: pattern, text => ∃ skipped rest, text = skipped ++ rest ∧ Denotes pattern rest

/-- The pattern matches the text so that a run in front of the letter `star` takes just this
letter. -/
def DenotesTaking (star : α) : List (Wildcard α) → List α → Prop
  | [], text => text = []
  | literal a :: pattern, text => ∃ rest, text = a :: rest ∧ DenotesTaking star pattern rest
  | one :: pattern, text => ∃ a rest, text = a :: rest ∧ DenotesTaking star pattern rest
  | run :: pattern, text => ∃ skipped rest, text = skipped ++ rest ∧
      (text.head? = some star → skipped = [star]) ∧ DenotesTaking star pattern rest

/-- The wildcard takes the letter, and no other one. -/
def Takes : Wildcard α → α → Prop
  | literal a, b => a = b
  | one, _ => True
  | run, _ => False

/-! ## Runs of any letters -/

theorem denotes_run {pattern : List (Wildcard α)} {text : List α} :
    Denotes (run :: pattern) text ↔ ∃ rest, rest <:+ text ∧ Denotes pattern rest :=
  ⟨fun ⟨skipped, rest, h, hrest⟩ => ⟨rest, ⟨skipped, h.symm⟩, hrest⟩,
    fun ⟨rest, ⟨skipped, h⟩, hrest⟩ => ⟨skipped, rest, h.symm, hrest⟩⟩

theorem denotes_run_of_suffix {pattern : List (Wildcard α)} {rest text : List α}
    (h : Denotes (run :: pattern) rest) (hrest : rest <:+ text) :
    Denotes (run :: pattern) text := by
  obtain ⟨v, hv, hpattern⟩ := denotes_run.1 h
  exact denotes_run.2 ⟨v, hv.trans hrest, hpattern⟩

theorem denotes_literals (front : List α) {pattern : List (Wildcard α)} {text : List α} :
    Denotes (front.map literal ++ pattern) text ↔
      ∃ rest, text = front ++ rest ∧ Denotes pattern rest := by
  induction front generalizing text with
  | nil => exact ⟨fun h => ⟨text, rfl, h⟩, fun ⟨_, hrest, h⟩ => hrest ▸ h⟩
  | cons a front ih =>
    constructor
    · rintro ⟨rest, rfl, hrest⟩
      obtain ⟨rest', rfl, hpattern⟩ := ih.1 hrest
      exact ⟨rest', rfl, hpattern⟩
    · rintro ⟨rest, rfl, hpattern⟩
      exact ⟨front ++ rest, rfl, ih.2 ⟨rest, rfl, hpattern⟩⟩

/-! ## Runs that take the letter they are written with -/

section Taking

variable {star : α} {pattern front : List (Wildcard α)} {text taken : List α}

theorem DenotesTaking.denotes (h : DenotesTaking star pattern text) : Denotes pattern text := by
  induction pattern generalizing text with
  | nil => exact h
  | cons w pattern ih =>
    cases w with
    | literal a =>
      obtain ⟨rest, htext, hrest⟩ := h
      exact ⟨rest, htext, ih hrest⟩
    | one =>
      obtain ⟨a, rest, htext, hrest⟩ := h
      exact ⟨a, rest, htext, ih hrest⟩
    | run =>
      obtain ⟨skipped, rest, htext, -, hrest⟩ := h
      exact ⟨skipped, rest, htext, ih hrest⟩

/-- Where the letter does not occur, nothing is lost. -/
theorem Denotes.taking_of_notMem (h : Denotes pattern text) (hstar : star ∉ text) :
    DenotesTaking star pattern text := by
  induction pattern generalizing text with
  | nil => exact h
  | cons w pattern ih =>
    cases w with
    | literal a =>
      obtain ⟨rest, rfl, hrest⟩ := h
      exact ⟨rest, rfl, ih hrest fun hmem => hstar (List.mem_cons_of_mem _ hmem)⟩
    | one =>
      obtain ⟨a, rest, rfl, hrest⟩ := h
      exact ⟨a, rest, rfl, ih hrest fun hmem => hstar (List.mem_cons_of_mem _ hmem)⟩
    | run =>
      obtain ⟨skipped, rest, rfl, hrest⟩ := h
      exact ⟨skipped, rest, rfl, fun hhead => absurd (List.mem_of_mem_head? hhead) hstar,
        ih hrest fun hmem => hstar (List.mem_append_right _ hmem)⟩

/-- Nor is it where there are no runs. -/
theorem Denotes.taking_of_ne_run (h : Denotes pattern text) (hrun : ∀ w ∈ pattern, w ≠ run) :
    DenotesTaking star pattern text := by
  induction pattern generalizing text with
  | nil => exact h
  | cons w pattern ih =>
    obtain ⟨hw, hpattern⟩ := List.forall_mem_cons.1 hrun
    cases w with
    | literal a =>
      obtain ⟨rest, htext, hrest⟩ := h
      exact ⟨rest, htext, ih hrest hpattern⟩
    | one =>
      obtain ⟨a, rest, htext, hrest⟩ := h
      exact ⟨a, rest, htext, ih hrest hpattern⟩
    | run => exact absurd rfl hw

/-- Nothing is matched only by runs. -/
theorem denotesTaking_nil_iff : DenotesTaking star pattern [] ↔ ∀ w ∈ pattern, w = run := by
  induction pattern with
  | nil => exact iff_of_true rfl fun w hw => absurd hw List.not_mem_nil
  | cons w pattern ih =>
    rw [List.forall_mem_cons, ← ih]
    cases w with
    | literal a => exact iff_of_false (by rintro ⟨_, ⟨⟩, _⟩) (by rintro ⟨⟨⟩, _⟩)
    | one => exact iff_of_false (by rintro ⟨_, _, ⟨⟩, _⟩) (by rintro ⟨⟨⟩, _⟩)
    | run =>
      constructor
      · rintro ⟨skipped, rest, hnil, -, hrest⟩
        rw [(List.append_eq_nil_iff.1 hnil.symm).2] at hrest
        exact ⟨rfl, hrest⟩
      · rintro ⟨-, h⟩
        exact ⟨[], [], rfl, by rintro ⟨⟩, h⟩

/-- The rest of a pattern matches a rest of the text. -/
theorem DenotesTaking.tail {w : Wildcard α} (h : DenotesTaking star (w :: pattern) text) :
    ∃ rest, rest <:+ text ∧ DenotesTaking star pattern rest := by
  cases w with
  | literal a =>
    obtain ⟨rest, rfl, hrest⟩ := h
    exact ⟨rest, List.suffix_cons _ _, hrest⟩
  | one =>
    obtain ⟨a, rest, rfl, hrest⟩ := h
    exact ⟨rest, List.suffix_cons _ _, hrest⟩
  | run =>
    obtain ⟨skipped, rest, rfl, -, hrest⟩ := h
    exact ⟨rest, List.suffix_append _ _, hrest⟩

/-- The wildcard takes the letter, or it is a run and the letter is the one that it is written
with. -/
def TakesOrIs (star : α) (w : Wildcard α) (a : α) : Prop := w.Takes a ∨ w = run ∧ a = star

theorem denotesTaking_cons_cons {w : Wildcard α} {a : α} (h : TakesOrIs star w a) :
    DenotesTaking star (w :: pattern) (a :: text) ↔ DenotesTaking star pattern text := by
  cases w with
  | literal b =>
    obtain rfl : b = a := h.resolve_right (by rintro ⟨⟨⟩, _⟩)
    constructor
    · rintro ⟨rest, heq, hrest⟩
      obtain ⟨-, rfl⟩ := List.cons.inj heq
      exact hrest
    · exact fun hrest => ⟨text, rfl, hrest⟩
  | one =>
    constructor
    · rintro ⟨b, rest, heq, hrest⟩
      obtain ⟨-, rfl⟩ := List.cons.inj heq
      exact hrest
    · exact fun hrest => ⟨a, text, rfl, hrest⟩
  | run =>
    obtain rfl : a = star := (h.resolve_left id).2
    constructor
    · rintro ⟨skipped, rest, heq, hskipped, hrest⟩
      obtain rfl := hskipped rfl
      obtain ⟨-, rfl⟩ := List.cons.inj heq
      exact hrest
    · exact fun hrest => ⟨[a], text, rfl, fun _ => rfl, hrest⟩

theorem not_denotesTaking_cons_cons {w : Wildcard α} {a : α} (hrun : w ≠ run)
    (h : ¬ TakesOrIs star w a) : ¬ DenotesTaking star (w :: pattern) (a :: text) := by
  cases w with
  | literal b =>
    rintro ⟨rest, heq, -⟩
    exact h (.inl (List.cons.inj heq).1.symm)
  | one => exact absurd (.inl trivial) h
  | run => exact absurd rfl hrun

/-- What is taken letter by letter can be left out. -/
theorem denotesTaking_append (h : List.Forall₂ (TakesOrIs star) front taken) :
    DenotesTaking star (front ++ pattern) (taken ++ text) ↔ DenotesTaking star pattern text := by
  induction h with
  | nil => rfl
  | cons hw _ ih => rw [List.cons_append, List.cons_append, denotesTaking_cons_cons hw, ih]

/-! ## A run that is still free to take more -/

/-- The pattern matches the text after a run. -/
def OpenTaking (star : α) (pattern : List (Wildcard α)) (text : List α) : Prop :=
  ∃ rest, rest <:+ text ∧ DenotesTaking star pattern rest

/-- A run that is not in front of the letter is free. -/
theorem denotesTaking_run (h : text.head? ≠ some star) :
    DenotesTaking star (run :: pattern) text ↔ OpenTaking star pattern text :=
  ⟨fun ⟨skipped, rest, heq, _, hrest⟩ => ⟨rest, ⟨skipped, heq.symm⟩, hrest⟩,
    fun ⟨rest, ⟨skipped, heq⟩, hrest⟩ =>
      ⟨skipped, rest, heq.symm, fun hhead => absurd hhead h, hrest⟩⟩

/-- A run that cannot end here takes the next letter. -/
theorem openTaking_cons {a : α} (h : ¬ DenotesTaking star pattern (a :: text)) :
    OpenTaking star pattern (a :: text) ↔ OpenTaking star pattern text := by
  constructor
  · rintro ⟨rest, hrest, hpattern⟩
    rcases List.suffix_cons_iff.1 hrest with rfl | hrest
    · exact absurd hpattern h
    · exact ⟨rest, hrest, hpattern⟩
  · rintro ⟨rest, hrest, hpattern⟩
    exact ⟨rest, hrest.trans (List.suffix_cons a text), hpattern⟩

/-- A front of the pattern that has been taken letter by letter never takes fewer letters when it
starts later: a run in it that has not yet moved ahead stands in front of the letter. -/
theorem openTaking_of_append (h : List.Forall₂ (TakesOrIs star) front taken)
    (hopen : OpenTaking star (front ++ pattern) (taken ++ text)) : OpenTaking star pattern text := by
  induction h with
  | nil => exact hopen
  | @cons w a front taken hw _ ih =>
    obtain ⟨rest, hrest, hpattern⟩ := hopen
    rw [List.cons_append] at hrest hpattern
    refine ih ?_
    rcases List.suffix_cons_iff.1 hrest with rfl | hrest
    · exact ⟨_, List.suffix_rfl, (denotesTaking_cons_cons hw).1 hpattern⟩
    · obtain ⟨rest', hrest', hpattern'⟩ := hpattern.tail
      exact ⟨rest', hrest'.trans hrest, hpattern'⟩

/-- Where the pattern has been taken up to another run, the earlier one need not be tried again. -/
theorem openTaking_append_run (h : List.Forall₂ (TakesOrIs star) front taken)
    (hhead : text.head? ≠ some star) :
    OpenTaking star (front ++ run :: pattern) (taken ++ text) ↔ OpenTaking star pattern text := by
  constructor
  · intro hopen
    obtain ⟨rest, hrest, hpattern⟩ := openTaking_of_append h hopen
    obtain ⟨rest', hrest', hpattern'⟩ := hpattern.tail
    exact ⟨rest', hrest'.trans hrest, hpattern'⟩
  · intro hopen
    exact ⟨_, List.suffix_rfl, (denotesTaking_append h).2 ((denotesTaking_run hhead).2 hopen)⟩

/-- At the end of the text nothing is left for an earlier run. -/
theorem openTaking_append_end (h : List.Forall₂ (TakesOrIs star) front taken) :
    OpenTaking star (front ++ pattern) taken ↔ DenotesTaking star pattern [] := by
  constructor
  · intro hopen
    rw [← List.append_nil taken] at hopen
    obtain ⟨rest, hrest, hpattern⟩ := openTaking_of_append h hopen
    rwa [List.suffix_nil.1 hrest] at hpattern
  · intro hpattern
    refine ⟨taken, List.suffix_rfl, ?_⟩
    rw [← List.append_nil taken]
    exact (denotesTaking_append h).2 hpattern

end Taking

/-! ## Encoded texts -/

/-- Letters are encoded so that the start of a letter is seen in the code, and no letter is encoded
as the start of another one. -/
structure SelfSynchronizing {β : Type} (encode : α → List β) (starts : β → Prop) : Prop where
  exists_start : ∀ a, ∃ b bs, encode a = b :: bs ∧ starts b ∧ ∀ b' ∈ bs, ¬ starts b'
  eq_of_prefix : ∀ {a a' rest rest'}, encode a ++ rest = encode a' ++ rest' → a = a'

/-- A wildcard is encoded as itself. -/
def encodeWildcard {β : Type} (encode : α → List β) : Wildcard α → List (Wildcard β)
  | literal a => (encode a).map literal
  | one => [one]
  | run => [run]

section Encoded

variable {β : Type} {encode : α → List β} {starts : β → Prop}
  (hsync : SelfSynchronizing encode starts)

include hsync

theorem SelfSynchronizing.ne_nil (a : α) : encode a ≠ [] := by
  obtain ⟨b, bs, h, -⟩ := hsync.exists_start a
  exact h ▸ List.cons_ne_nil b bs

/-- A suffix of an encoded text at the start of a letter is an encoded suffix. -/
theorem SelfSynchronizing.suffix {text : List α} {b : β} {rest : List β}
    (h : b :: rest <:+ text.flatMap encode) (hb : starts b) :
    ∃ text', text' <:+ text ∧ b :: rest = text'.flatMap encode := by
  induction text with
  | nil => exact absurd (List.suffix_nil.1 h) (List.cons_ne_nil b rest)
  | cons a text ih =>
    obtain ⟨skipped, hskipped⟩ := h
    obtain ⟨first, bs, hencode, -, hbs⟩ := hsync.exists_start a
    rw [List.flatMap_cons, hencode] at hskipped
    rcases List.append_eq_append_iff.1 hskipped with ⟨c, hc, hrest⟩ | ⟨c, rfl, hrest⟩
    · cases skipped with
      | nil => exact ⟨a :: text, List.suffix_rfl, by rw [List.flatMap_cons, hencode]; exact hskipped⟩
      | cons x skipped =>
        -- the suffix would start within a letter
        cases c with
        | nil =>
          obtain ⟨text', htext', heq⟩ := ih ⟨[], hrest⟩
          exact ⟨text', htext'.trans (List.suffix_cons a text), heq⟩
        | cons y c =>
          have hy : y = b := (List.cons.inj hrest).1.symm
          have hmem : y ∈ bs := by
            rw [(List.cons.inj hc).2]
            exact List.mem_append_right _ List.mem_cons_self
          exact absurd (hy ▸ hb) (hbs y hmem)
    · obtain ⟨text', htext', heq⟩ := ih ⟨c, hrest.symm⟩
      exact ⟨text', htext'.trans (List.suffix_cons a text), heq⟩

/-- A suffix of an encoded text that is matched from a letter on starts at a letter. -/
theorem exists_suffix_of_denotes {w : Wildcard α} {pattern : List (Wildcard α)} {text : List α}
    {rest : List β} (hw : w ≠ run) (h : w = one → ∀ a ∈ text, ∃ b, encode a = [b] ∧ starts b)
    (hrest : rest <:+ text.flatMap encode)
    (hdenotes : Denotes ((w :: pattern).flatMap (encodeWildcard encode)) rest) :
    ∃ text', text' <:+ text ∧ rest = text'.flatMap encode := by
  cases w with
  | run => exact absurd rfl hw
  | literal a =>
    obtain ⟨b, bs, hencode, hb, -⟩ := hsync.exists_start a
    rw [List.flatMap_cons, encodeWildcard, denotes_literals, hencode] at hdenotes
    obtain ⟨rest', rfl, -⟩ := hdenotes
    exact hsync.suffix hrest hb
  | one =>
    obtain ⟨b, rest', rfl, -⟩ := hdenotes
    have hb : starts b := by
      obtain ⟨a, ha, hmem⟩ := List.mem_flatMap.1 (hrest.subset List.mem_cons_self)
      obtain ⟨b', hb', hstarts⟩ := h rfl a ha
      rw [hb', List.mem_singleton] at hmem
      exact hmem ▸ hstarts
    exact hsync.suffix hrest hb

/-- Matching the code of a text with that of a pattern is matching the text with the pattern, unless
a wildcard for one letter meets a letter of several. -/
theorem denotes_encoded {pattern : List (Wildcard α)} {text : List α}
    (h : one ∈ pattern → ∀ a ∈ text, ∃ b, encode a = [b] ∧ starts b) :
    Denotes (pattern.flatMap (encodeWildcard encode)) (text.flatMap encode) ↔
      Denotes pattern text := by
  induction pattern generalizing text with
  | nil =>
    cases text with
    | nil => exact iff_of_true rfl rfl
    | cons a text =>
      refine iff_of_false (fun hnil => ?_) (List.cons_ne_nil a text)
      exact hsync.ne_nil a (List.append_eq_nil_iff.1 hnil).1
  | cons w pattern ih =>
    have htail := fun hone => h (List.mem_cons_of_mem w hone)
    rw [List.flatMap_cons]
    cases w with
    | literal a =>
      rw [encodeWildcard, denotes_literals]
      constructor
      · rintro ⟨rest, heq, hrest⟩
        cases text with
        | nil => exact absurd (List.append_eq_nil_iff.1 heq.symm).1 (hsync.ne_nil a)
        | cons a' text =>
          obtain rfl := hsync.eq_of_prefix heq
          obtain rfl := List.append_cancel_left heq
          refine ⟨text, rfl, (ih fun hone => ?_).1 hrest⟩
          exact (List.forall_mem_cons.1 (htail hone)).2
      · rintro ⟨rest, rfl, hrest⟩
        refine ⟨rest.flatMap encode, rfl, (ih fun hone => ?_).2 hrest⟩
        exact (List.forall_mem_cons.1 (htail hone)).2
    | one =>
      have hsingle := h List.mem_cons_self
      cases text with
      | nil => exact iff_of_false (by rintro ⟨_, _, ⟨⟩, _⟩) (by rintro ⟨_, _, ⟨⟩, _⟩)
      | cons a text =>
        obtain ⟨⟨b, hb, -⟩, hrest⟩ := List.forall_mem_cons.1 hsingle
        rw [List.flatMap_cons, hb]
        constructor
        · rintro ⟨b', rest, heq, hdenotes⟩
          obtain ⟨-, rfl⟩ := List.cons.inj heq
          exact ⟨a, text, rfl, (ih fun _ => hrest).1 hdenotes⟩
        · rintro ⟨a', rest, heq, hdenotes⟩
          obtain ⟨-, rfl⟩ := List.cons.inj heq
          exact ⟨b, _, rfl, (ih fun _ => hrest).2 hdenotes⟩
    | run =>
      have hsuffix {text' : List α} (htext' : text' <:+ text) :
          Denotes (pattern.flatMap (encodeWildcard encode)) (text'.flatMap encode) ↔
            Denotes pattern text' := ih fun hone a ha => htail hone a (htext'.subset ha)
      rw [encodeWildcard, List.singleton_append, denotes_run, denotes_run]
      constructor
      · rintro ⟨rest, hrest, hdenotes⟩
        cases pattern with
        | nil => exact ⟨[], List.nil_suffix, rfl⟩
        | cons v pattern =>
          by_cases hv : v = run
          · -- another run takes what stands in front of the rest
            subst hv
            have hwhole := denotes_run_of_suffix hdenotes hrest
            exact ⟨text, List.suffix_rfl, (hsuffix List.suffix_rfl).1 hwhole⟩
          · have hsingle : v = one → ∀ a ∈ text, ∃ b, encode a = [b] ∧ starts b := by
              rintro rfl
              exact htail List.mem_cons_self
            obtain ⟨text', htext', rfl⟩ := exists_suffix_of_denotes hsync hv hsingle hrest hdenotes
            exact ⟨text', htext', (hsuffix htext').1 hdenotes⟩
      · rintro ⟨text', htext', hdenotes⟩
        obtain ⟨skipped, rfl⟩ := htext'
        refine ⟨text'.flatMap encode, ?_, (hsuffix (List.suffix_append _ _)).2 hdenotes⟩
        rw [List.flatMap_append]
        exact List.suffix_append _ _

end Encoded

end Wildcard

end DuckLake
