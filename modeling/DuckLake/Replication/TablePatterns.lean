import DuckLake.Lib.Glob
import DuckLake.Lib.Text
import Mathlib.Data.List.TakeWhile
import Mathlib.Data.Prod.Lex
import Mathlib.Order.WellFounded

/-!
# Which tables a replication job copies

The include and exclude patterns of a job and the matcher they are given to. The matcher works on
bytes and backtracks to the last `*` of the pattern only; `GlobState.Remaining` is what it keeps
while it does. It compares a byte of the pattern with the byte of the text before it asks whether the
byte is a `*`, so a `*` of the pattern in front of a `*` of the text takes just this one:
`globMatch_iff` says which texts are left.
-/

namespace DuckLake

/-! ## Strings -/

/-- A string of the engine, as its bytes. -/
abbrev ByteString := List UInt8

def utf8 (t : Text) : ByteString := t.flatMap String.utf8EncodeChar

abbrev starByte : UInt8 := '*'.toUInt8

abbrev questionByte : UInt8 := '?'.toUInt8

abbrev dotByte : UInt8 := '.'.toUInt8

/-! ## The matcher -/

/-- The cursors of `GlobMatch`, as what follows them in the pattern and in the text. `star` is what
followed the last `*` of the pattern (`star_p + 1`) and the bytes of the text that it has not taken
(`star_t`). -/
structure GlobState where
  p : ByteString
  t : ByteString
  star : Option (ByteString × ByteString)
  within : ∀ s ∈ star, p.length ≤ s.1.length ∧ t.length ≤ s.2.length

namespace GlobState

/-- `p++; t++` -/
def advance (s : GlobState) : GlobState where
  p := s.p.tail
  t := s.t.tail
  star := s.star
  within r hr := by
    have := s.within r hr
    simp only [List.length_tail]
    omega

/-- `star_p = p; star_t = t; p++` -/
def recordStar (s : GlobState) : GlobState where
  p := s.p.tail
  t := s.t
  star := some (s.p.tail, s.t)
  within r hr := by
    obtain rfl := Option.some.inj hr
    exact ⟨le_rfl, le_rfl⟩

/-- `p = star_p + 1; star_t++; t = star_t` -/
def backtrack (star : ByteString × ByteString) : GlobState where
  p := star.1
  t := star.2.tail
  star := some (star.1, star.2.tail)
  within r hr := by
    obtain rfl := Option.some.inj hr
    exact ⟨le_rfl, le_rfl⟩

/-- `pattern[p] == '?' || pattern[p] == text[t]` -/
def takesLetter (s : GlobState) : Bool :=
  s.p.head?.any fun c => c == questionByte || s.t.head? == some c

/-- The body of the loop: `none` where it returns `false`. -/
def next (s : GlobState) : Option GlobState :=
  if s.takesLetter then some s.advance
  else if s.p.head? = some starByte then some s.recordStar
  else s.star.map backtrack

/-- The pattern after the last `*`, the text it has not taken and the text itself get shorter, in
this order. -/
def measure (s : GlobState) : ℕ ×ₗ ℕ ×ₗ ℕ :=
  toLex (s.star.elim (s.p.length + 1) fun r => r.1.length,
    toLex (s.star.elim 0 fun r => r.2.length, s.t.length))

theorem next_cases {s s' : GlobState} (h : s.next = some s') :
    s.takesLetter = true ∧ s' = s.advance ∨
    s.takesLetter = false ∧ s.p.head? = some starByte ∧ s' = s.recordStar ∨
    s.takesLetter = false ∧ s.p.head? ≠ some starByte ∧ ∃ r, s.star = some r ∧ s' = backtrack r := by
  unfold next at h
  split at h
  next htakes => exact .inl ⟨htakes, (Option.some.inj h).symm⟩
  next htakes =>
    rw [Bool.not_eq_true] at htakes
    split at h
    next hstar => exact .inr (.inl ⟨htakes, hstar, (Option.some.inj h).symm⟩)
    next hstar =>
      obtain ⟨r, hr, rfl⟩ := Option.map_eq_some_iff.1 h
      exact .inr (.inr ⟨htakes, hstar, r, hr, rfl⟩)

theorem advance_decreases {s : GlobState} (ht : s.t ≠ []) : s.advance.measure < s.measure := by
  have hlength : s.advance.t.length < s.t.length := by
    have := List.length_pos_iff.2 ht
    simp only [advance, List.length_tail]
    omega
  cases hstar : s.star with
  | none =>
    have hp : s.advance.p.length ≤ s.p.length := by simp [advance]
    simp only [measure, hstar, show s.advance.star = none from hstar, Option.elim_none,
      Prod.Lex.toLex_lt_toLex, true_and]
    omega
  | some r =>
    simp only [measure, hstar, show s.advance.star = some r from hstar, Option.elim_some,
      Prod.Lex.toLex_lt_toLex, true_and]
    omega

theorem recordStar_decreases {s : GlobState} (hp : s.p ≠ []) :
    s.recordStar.measure < s.measure := by
  have hlength : s.p.tail.length < s.p.length := by
    have := List.length_pos_iff.2 hp
    simp only [List.length_tail]
    omega
  cases hstar : s.star with
  | none =>
    simp only [measure, hstar, recordStar, Option.elim_none, Option.elim_some,
      Prod.Lex.toLex_lt_toLex]
    omega
  | some r =>
    have hr := (s.within r hstar).1
    simp only [measure, hstar, recordStar, Option.elim_some, Prod.Lex.toLex_lt_toLex]
    omega

theorem backtrack_decreases {s : GlobState} {r : ByteString × ByteString} (hr : s.star = some r)
    (ht : s.t ≠ []) : (backtrack r).measure < s.measure := by
  have hlength : r.2.tail.length < r.2.length := by
    have := List.length_pos_iff.2 ht
    have := (s.within r hr).2
    simp only [List.length_tail]
    omega
  simp only [measure, hr, backtrack, Option.elim_some, Prod.Lex.toLex_lt_toLex, true_and]
  omega

theorem next_decreases {s s' : GlobState} (ht : s.t ≠ []) (h : s.next = some s') :
    s'.measure < s.measure := by
  rcases next_cases h with ⟨-, rfl⟩ | ⟨-, hp, rfl⟩ | ⟨-, -, r, hr, rfl⟩
  · exact advance_decreases ht
  · exact recordStar_decreases fun hnil => by simp [hnil] at hp
  · exact backtrack_decreases hr ht

end GlobState

def globLoop (s : GlobState) : Bool :=
  if _ht : s.t = [] then (s.p.dropWhile (· == starByte)).isEmpty
  else match _h : s.next with
    | none => false
    | some s' => globLoop s'
termination_by s.measure
decreasing_by exact GlobState.next_decreases _ht _h

def globMatch (pattern text : ByteString) : Bool :=
  globLoop { p := pattern, t := text, star := none, within := by rintro s ⟨⟩ }

/-! ## What the matcher computes -/

def wildcard (b : UInt8) : Wildcard UInt8 :=
  if b = starByte then .run else if b = questionByte then .one else .literal b

/-- Each `*` of the pattern stands for any run of bytes, each `?` for one byte and every other byte
for itself. -/
def GlobDenotes (pattern text : ByteString) : Prop :=
  Wildcard.Denotes (pattern.map wildcard) text

/-- So it is, but a `*` of the pattern in front of a `*` of the text takes just this one. -/
def GlobTakes (pattern text : ByteString) : Prop :=
  Wildcard.DenotesTaking starByte (pattern.map wildcard) text

/-- The wildcard of the byte takes a byte of the text, or both are `*`. -/
abbrev Matches (b a : UInt8) : Prop := (wildcard b).TakesOrIs starByte a

theorem matches_iff {b a : UInt8} : Matches b a ↔ b = questionByte ∨ b = a := by
  unfold Matches Wildcard.TakesOrIs wildcard
  split
  next h =>
    subst h
    have hne : starByte ≠ questionByte := by decide
    simp [Wildcard.Takes, hne, eq_comm]
  next h =>
    split
    next h' => simp [Wildcard.Takes, h']
    next h' => simp [Wildcard.Takes, h']

theorem wildcard_star : wildcard starByte = .run := rfl

theorem wildcard_ne_run {b : UInt8} : wildcard b ≠ .run ↔ b ≠ starByte := by
  unfold wildcard
  split
  next h => simp [h]
  next h => split <;> simp [h]

namespace GlobState

theorem takesLetter_iff {s : GlobState} {a : UInt8} {t : ByteString} (hcons : s.t = a :: t) :
    s.takesLetter = true ↔ ∃ b p, s.p = b :: p ∧ Matches b a := by
  unfold takesLetter
  rw [hcons]
  cases s.p with
  | nil => simp
  | cons b p =>
    simp only [List.head?_cons, Option.any_some, Bool.or_eq_true, beq_iff_eq, Option.some.injEq,
      List.cons.injEq, matches_iff]
    constructor
    · exact fun h => ⟨b, p, ⟨rfl, rfl⟩, h.imp_right Eq.symm⟩
    · rintro ⟨b', p', ⟨rfl, rfl⟩, h⟩
      exact h.imp_right Eq.symm

/-- Whether the rest of the text is matched, with the last `*` still free to take more of it. -/
def Remaining (s : GlobState) : Prop :=
  match s.star with
  | none => GlobTakes s.p s.t
  | some r => Wildcard.OpenTaking starByte (r.1.map wildcard) r.2

/-- The bytes of the pattern since the last `*` have taken those of the text one by one. -/
def Behind (s : GlobState) : Prop :=
  ∀ r ∈ s.star, ∃ front taken, r.1 = front ++ s.p ∧ r.2 = taken ++ s.t ∧
    List.Forall₂ (Wildcard.TakesOrIs starByte) (front.map wildcard) taken

theorem advance_spec {s : GlobState} {b a : UInt8} {p t : ByteString} (hp : s.p = b :: p)
    (ht : s.t = a :: t) (hb : Matches b a) (h : s.Behind) :
    s.advance.Behind ∧ (s.advance.Remaining ↔ s.Remaining) := by
  have hp' : s.advance.p = p := by simp [advance, hp]
  have ht' : s.advance.t = t := by simp [advance, ht]
  constructor
  · intro r hr
    obtain ⟨front, taken, hfront, htaken, hall⟩ := h r hr
    refine ⟨front ++ [b], taken ++ [a], ?_, ?_, ?_⟩
    · rw [hfront, hp, hp', List.append_assoc, List.singleton_append]
    · rw [htaken, ht, ht', List.append_assoc, List.singleton_append]
    · rw [List.map_append]
      exact List.rel_append hall (.cons hb .nil)
  · have hstar : s.advance.star = s.star := rfl
    unfold Remaining
    rw [hstar]
    cases s.star with
    | some r => rfl
    | none =>
      simp only [GlobTakes, hp, hp', ht, ht', List.map_cons]
      exact (Wildcard.denotesTaking_cons_cons hb).symm

/-- A `*` is recorded in front of another byte only. -/
theorem recordStar_spec {s : GlobState} {p : ByteString} (hp : s.p = starByte :: p)
    (hhead : s.t.head? ≠ some starByte) (h : s.Behind) :
    s.recordStar.Behind ∧ (s.recordStar.Remaining ↔ s.Remaining) := by
  have hp' : s.p.tail = p := by simp [hp]
  constructor
  · intro r hr
    obtain rfl := Option.some.inj hr
    exact ⟨[], [], rfl, rfl, .nil⟩
  · show Wildcard.OpenTaking starByte (s.p.tail.map wildcard) s.t ↔ _
    rw [hp']
    unfold Remaining
    cases hstar : s.star with
    | none =>
      simp only [GlobTakes, hp, List.map_cons, wildcard_star]
      exact (Wildcard.denotesTaking_run hhead).symm
    | some r =>
      obtain ⟨front, taken, hfront, htaken, hall⟩ := h r hstar
      simp only [hfront, htaken, hp, List.map_append, List.map_cons, wildcard_star]
      exact (Wildcard.openTaking_append_run hall hhead).symm

theorem backtrack_spec {s : GlobState} {r : ByteString × ByteString} {a : UInt8} {t : ByteString}
    (hr : s.star = some r) (ht : s.t = a :: t) (hp : ¬ GlobTakes s.p s.t) (h : s.Behind) :
    (backtrack r).Behind ∧ ((backtrack r).Remaining ↔ s.Remaining) := by
  obtain ⟨front, taken, hfront, htaken, hall⟩ := h r hr
  have hne : r.2 ≠ [] := by simp [htaken, ht]
  obtain ⟨b, u, hu⟩ := List.exists_cons_of_ne_nil hne
  constructor
  · intro r' hr'
    obtain rfl := Option.some.inj hr'
    exact ⟨[], [], rfl, rfl, .nil⟩
  · show Wildcard.OpenTaking starByte (r.1.map wildcard) r.2.tail ↔ _
    have hno : ¬ Wildcard.DenotesTaking starByte (r.1.map wildcard) (b :: u) := by
      rw [← hu, hfront, htaken, List.map_append, Wildcard.denotesTaking_append hall]
      exact hp
    simp only [Remaining, hr, hu, List.tail_cons]
    exact (Wildcard.openTaking_cons hno).symm

/-- Neither branch that moves on is taken: nothing of the text matches the pattern from here. -/
theorem not_globTakes_of_stuck {s : GlobState} {a : UInt8} {t : ByteString} (hcons : s.t = a :: t)
    (htakes : s.takesLetter = false) (hstar : s.p.head? ≠ some starByte) :
    ¬ GlobTakes s.p s.t := by
  rw [GlobTakes, hcons]
  cases hp : s.p with
  | nil => exact List.cons_ne_nil a t
  | cons b p =>
    rw [List.map_cons]
    refine Wildcard.not_denotesTaking_cons_cons (wildcard_ne_run.2 ?_) fun hmatches => ?_
    · rintro rfl
      exact hstar (by rw [hp, List.head?_cons])
    · rw [(takesLetter_iff hcons).2 ⟨b, p, hp, hmatches⟩] at htakes
      cases htakes

theorem next_spec {s s' : GlobState} (ht : s.t ≠ []) (h : s.Behind) (hnext : s.next = some s') :
    s'.Behind ∧ (s'.Remaining ↔ s.Remaining) := by
  obtain ⟨a, t, hcons⟩ := List.exists_cons_of_ne_nil ht
  rcases next_cases hnext with ⟨htakes, rfl⟩ | ⟨htakes, hp, rfl⟩ | ⟨htakes, hp, r, hr, rfl⟩
  · obtain ⟨b, p, hp, hb⟩ := (takesLetter_iff hcons).1 htakes
    exact advance_spec hp hcons hb h
  · obtain ⟨p, hp⟩ := List.head?_eq_some_iff.1 hp
    refine recordStar_spec hp (fun hhead => ?_) h
    obtain rfl : a = starByte := by simpa [hcons] using hhead
    rw [(takesLetter_iff hcons).2 ⟨_, p, hp, matches_iff.2 (.inr rfl)⟩] at htakes
    cases htakes
  · exact backtrack_spec hr hcons (not_globTakes_of_stuck hcons htakes hp) h

theorem not_remaining_of_next_eq_none {s : GlobState} (ht : s.t ≠ []) (hnext : s.next = none) :
    ¬ s.Remaining := by
  obtain ⟨a, t, hcons⟩ := List.exists_cons_of_ne_nil ht
  unfold next at hnext
  split at hnext
  next => cases hnext
  next htakes =>
    split at hnext
    next => cases hnext
    next hp =>
      rw [Remaining, Option.map_eq_none_iff.1 hnext]
      exact not_globTakes_of_stuck hcons (Bool.not_eq_true _ ▸ htakes) hp

/-- The loop after the text. -/
theorem dropWhile_star (p : ByteString) :
    (p.dropWhile (· == starByte)).isEmpty = true ↔ GlobTakes p [] := by
  rw [GlobTakes, Wildcard.denotesTaking_nil_iff, List.isEmpty_iff, List.dropWhile_eq_nil_iff,
    List.forall_mem_map]
  refine forall₂_congr fun b _ => ?_
  rw [beq_iff_eq, ← not_iff_not]
  exact wildcard_ne_run.symm

theorem remaining_end {s : GlobState} (ht : s.t = []) (h : s.Behind) :
    s.Remaining ↔ GlobTakes s.p [] := by
  unfold Remaining
  cases hstar : s.star with
  | none => rw [ht]
  | some r =>
    obtain ⟨front, taken, hfront, htaken, hall⟩ := h r hstar
    simp only [hfront, htaken, ht, List.append_nil, List.map_append]
    exact Wildcard.openTaking_append_end hall

end GlobState

theorem globLoop_iff {s : GlobState} (h : s.Behind) : globLoop s = true ↔ s.Remaining := by
  induction s using globLoop.induct with
  | case1 s ht =>
    rw [globLoop, dif_pos ht, GlobState.dropWhile_star, GlobState.remaining_end ht h]
  | case2 s ht hnext =>
    rw [globLoop, dif_neg ht]
    split
    next =>
      exact iff_of_false Bool.false_ne_true (GlobState.not_remaining_of_next_eq_none ht hnext)
    next s' hsome =>
      rw [hnext] at hsome
      cases hsome
  | case3 s ht s' hnext ih =>
    obtain ⟨hbehind, hremaining⟩ := GlobState.next_spec ht h hnext
    rw [globLoop, dif_neg ht]
    split
    next hnone =>
      rw [hnext] at hnone
      cases hnone
    next s'' hsome =>
      obtain rfl := Option.some.inj (hnext.symm.trans hsome)
      rw [ih hbehind, hremaining]

theorem globMatch_iff {pattern text : ByteString} :
    globMatch pattern text = true ↔ GlobTakes pattern text :=
  globLoop_iff (by rintro r ⟨⟩)

theorem GlobTakes.denotes {pattern text : ByteString} (h : GlobTakes pattern text) :
    GlobDenotes pattern text :=
  Wildcard.DenotesTaking.denotes h

theorem GlobDenotes.takes {pattern text : ByteString} (h : GlobDenotes pattern text)
    (hstar : starByte ∉ pattern ∨ starByte ∉ text) : GlobTakes pattern text := by
  rcases hstar with hstar | hstar
  · refine Wildcard.Denotes.taking_of_ne_run h fun w hw => ?_
    obtain ⟨b, hb, rfl⟩ := List.mem_map.1 hw
    exact wildcard_ne_run.2 fun heq => hstar (heq ▸ hb)
  · exact Wildcard.Denotes.taking_of_notMem h hstar

/-! ## Letters -/

/-- Each `*` stands for any run of letters, each `?` for one letter, of however many bytes. -/
def letterWildcard (c : Char) : Wildcard Char :=
  if c = '*' then .run else if c = '?' then .one else .literal c

def LettersDenote (pattern text : Text) : Prop :=
  Wildcard.Denotes (pattern.map letterWildcard) text

theorem selfSynchronizing_utf8 :
    Wildcard.SelfSynchronizing String.utf8EncodeChar UInt8.IsUTF8FirstByte where
  exists_start c := by
    have hfirst {i : Nat} (hi : i < (String.utf8EncodeChar c).length) :
        (String.utf8EncodeChar c)[i].IsUTF8FirstByte ↔ i = 0 :=
      UInt8.isUTF8FirstByte_getElem_utf8EncodeChar
    cases hbytes : String.utf8EncodeChar c with
    | nil => exact absurd hbytes String.utf8EncodeChar_ne_nil
    | cons b bs =>
      simp only [hbytes] at hfirst
      refine ⟨b, bs, rfl, (hfirst (Nat.succ_pos bs.length)).2 rfl, fun b' hb' => ?_⟩
      obtain ⟨i, hi, rfl⟩ := List.getElem_of_mem hb'
      exact fun hstart => Nat.succ_ne_zero i ((hfirst (Nat.succ_lt_succ hi)).1 hstart)
  eq_of_prefix {a a' rest rest'} h := by
    have hdecode {c : Char} {l : ByteString} :
        ByteArray.utf8DecodeChar? (String.utf8EncodeChar c ++ l).toByteArray 0 = some c := by
      rw [List.toByteArray_append]
      exact ByteArray.utf8DecodeChar?_utf8EncodeChar_append
    exact Option.some.inj (hdecode.symm.trans ((congrArg
      (fun l : ByteString => ByteArray.utf8DecodeChar? l.toByteArray 0) h).trans hdecode))

/-- A byte of ASCII is a letter of its own. -/
theorem eq_of_mem_utf8 {c : Char} {b : UInt8} (hb : b ∈ String.utf8EncodeChar c)
    (hascii : b.toNat < 128) : c.toNat = b.toNat := by
  have hc : c.val.toNat = c.toNat := rfl
  simp only [String.utf8EncodeChar, hc] at hb
  split at hb
  next hle =>
    obtain rfl := List.mem_singleton.1 hb
    rw [UInt8.toNat_ofNat', Nat.mod_eq_of_lt (by omega)]
  next =>
    -- the bytes of longer letters are no ASCII
    have hlarge : 128 ≤ b.toNat := by
      split at hb
      next =>
        rcases List.mem_pair.1 hb with rfl | rfl <;> rw [UInt8.toNat_ofNat'] <;> omega
      next =>
        split at hb
        all_goals
          simp only [List.mem_cons, List.not_mem_nil, or_false] at hb
          rcases hb with rfl | rfl | rfl | rfl <;> rw [UInt8.toNat_ofNat'] <;> omega
    omega

theorem map_wildcard_utf8EncodeChar (c : Char) :
    (String.utf8EncodeChar c).map wildcard =
      Wildcard.encodeWildcard String.utf8EncodeChar (letterWildcard c) := by
  have hliteral (hstar : c ≠ '*') (hone : c ≠ '?') : ∀ b ∈ String.utf8EncodeChar c,
      wildcard b = .literal b := by
    intro b hb
    unfold wildcard
    rw [if_neg, if_neg]
    · rintro rfl
      exact hone (Char.toNat_inj.1 (eq_of_mem_utf8 hb (by decide)))
    · rintro rfl
      exact hstar (Char.toNat_inj.1 (eq_of_mem_utf8 hb (by decide)))
  unfold letterWildcard
  split
  next h =>
    subst h
    rfl
  next hstar =>
    split
    next h =>
      subst h
      rfl
    next hone => exact List.map_congr_left (hliteral hstar hone)

/-- Bytes are matched like letters, unless a `?` meets a letter of several bytes. -/
theorem globDenotes_utf8 {pattern text : Text}
    (h : '?' ∉ pattern ∨ ∀ c ∈ text, c.utf8Size = 1) :
    GlobDenotes (utf8 pattern) (utf8 text) ↔ LettersDenote pattern text := by
  have hpattern : (utf8 pattern).map wildcard = (pattern.map letterWildcard).flatMap
      (Wildcard.encodeWildcard String.utf8EncodeChar) := by
    rw [utf8, List.map_flatMap, List.flatMap_map]
    exact List.flatMap_congr fun c _ => map_wildcard_utf8EncodeChar c
  rw [GlobDenotes, hpattern, utf8]
  refine Wildcard.denotes_encoded selfSynchronizing_utf8 fun hone c hc => ?_
  have hquestion : '?' ∈ pattern := by
    obtain ⟨c', hc', heq⟩ := List.mem_map.1 hone
    unfold letterWildcard at heq
    split at heq
    next => cases heq
    next =>
      split at heq
      next h' => exact h' ▸ hc'
      next => cases heq
  have hsize := h.resolve_left (not_not_intro hquestion) c hc
  obtain ⟨b, bs, hbytes, hfirst, -⟩ := selfSynchronizing_utf8.exists_start c
  have hlength := (congrArg List.length hbytes).symm.trans
    ((String.length_utf8EncodeChar c).trans hsize)
  obtain rfl : bs = [] := List.eq_nil_of_length_eq_zero (by simpa using hlength)
  exact ⟨b, hbytes, hfirst⟩

/-! ## The tables of a job -/

def patternListMatches (patterns : List ByteString) (schema table : ByteString) : Bool :=
  patterns.any fun pattern =>
    pattern == utf8 "*" || pattern == utf8 "*.*" ||
      globMatch pattern (schema ++ dotByte :: table) ||
      -- bare schema
      !pattern.contains dotByte && globMatch pattern schema

def isSkippedSchema (schema : ByteString) : Bool :=
  schema == utf8 "system" || schema == utf8 "information_schema" ||
    schema == utf8 "pg_catalog" || schema == utf8 "temp"

def isExcluded (schema table : ByteString) (included excluded : List ByteString) : Bool :=
  isSkippedSchema schema ||
    !excluded.isEmpty && patternListMatches excluded schema table ||
    !included.isEmpty && !patternListMatches included schema table

/-- A pattern without a dot stands for all tables of a schema. -/
def PatternDenotes (pattern schema table : ByteString) : Prop :=
  GlobDenotes pattern (schema ++ dotByte :: table) ∨
    dotByte ∉ pattern ∧ GlobDenotes pattern schema

/-- So it does, when a `*` in front of a `*` takes just this one. The patterns for all tables need
not be matched. -/
def PatternTakes (pattern schema table : ByteString) : Prop :=
  pattern = utf8 "*" ∨ pattern = utf8 "*.*" ∨ GlobTakes pattern (schema ++ dotByte :: table) ∨
    dotByte ∉ pattern ∧ GlobTakes pattern schema

section Tables

variable (schema table : ByteString)

def DenotedBy (patterns : List ByteString) : Prop :=
  ∃ pattern ∈ patterns, PatternDenotes pattern schema table

def TakenBy (patterns : List ByteString) : Prop :=
  ∃ pattern ∈ patterns, PatternTakes pattern schema table

/-- What the patterns say about a table. -/
def Excluded (included excluded : List ByteString) : Prop :=
  isSkippedSchema schema = true ∨ DenotedBy schema table excluded ∨
    included ≠ [] ∧ ¬ DenotedBy schema table included

/-- A list that has a pattern for the table has one that takes it with every `*`, or the other list
settles the matter. -/
def PatternsTake (included excluded : List ByteString) : Prop :=
  isSkippedSchema schema = true ∨
    (DenotedBy schema table excluded → TakenBy schema table excluded ∨
      included ≠ [] ∧ ¬ TakenBy schema table included) ∧
    (included ≠ [] → DenotedBy schema table included → TakenBy schema table included ∨
      DenotedBy schema table excluded)

variable {schema table}

theorem PatternTakes.denotes {pattern : ByteString} (h : PatternTakes pattern schema table) :
    PatternDenotes pattern schema table := by
  rcases h with rfl | rfl | h | ⟨hdot, h⟩
  · exact .inl ⟨schema ++ dotByte :: table, [], (List.append_nil _).symm, rfl⟩
  · exact .inl ⟨schema, dotByte :: table, rfl, table, rfl, table, [],
      (List.append_nil _).symm, rfl⟩
  · exact .inl h.denotes
  · exact .inr ⟨hdot, h.denotes⟩

theorem TakenBy.denotedBy {patterns : List ByteString} (h : TakenBy schema table patterns) :
    DenotedBy schema table patterns := by
  obtain ⟨pattern, hmem, hpattern⟩ := h
  exact ⟨pattern, hmem, hpattern.denotes⟩

/-- A table without a `*` in its names is taken by every pattern that denotes it. -/
theorem DenotedBy.takenBy {patterns : List ByteString} (h : DenotedBy schema table patterns)
    (hstar : starByte ∉ schema ++ dotByte :: table) : TakenBy schema table patterns := by
  obtain ⟨pattern, hmem, hpattern⟩ := h
  refine ⟨pattern, hmem, .inr (.inr (hpattern.imp (·.takes (.inr hstar)) ?_))⟩
  rintro ⟨hdot, hschema⟩
  exact ⟨hdot, hschema.takes (.inr fun hmem => hstar (List.mem_append_left _ hmem))⟩

theorem patternListMatches_iff {patterns : List ByteString} :
    patternListMatches patterns schema table = true ↔ TakenBy schema table patterns := by
  simp only [patternListMatches, List.any_eq_true, TakenBy, PatternTakes, Bool.or_eq_true,
    Bool.and_eq_true, beq_iff_eq, Bool.not_eq_true', ← Bool.not_eq_true, List.contains_iff_mem,
    globMatch_iff, or_assoc]

theorem isExcluded_iff {included excluded : List ByteString} :
    isExcluded schema table included excluded = true ↔ isSkippedSchema schema = true ∨
      TakenBy schema table excluded ∨ included ≠ [] ∧ ¬ TakenBy schema table included := by
  simp only [isExcluded, Bool.or_eq_true, Bool.and_eq_true, Bool.not_eq_true', ← Bool.not_eq_true,
    List.isEmpty_iff, patternListMatches_iff, or_assoc]
  refine or_congr_right (or_congr_left (and_iff_right_of_imp ?_))
  rintro ⟨pattern, hmem, -⟩
  exact List.ne_nil_of_mem hmem

/-- The job copies the tables that the patterns select exactly when the patterns take them. -/
theorem isExcluded_right_iff {included excluded : List ByteString} :
    (isExcluded schema table included excluded = true ↔ Excluded schema table included excluded) ↔
      PatternsTake schema table included excluded := by
  have hexcluded : TakenBy schema table excluded → DenotedBy schema table excluded :=
    TakenBy.denotedBy
  have hincluded : TakenBy schema table included → DenotedBy schema table included :=
    TakenBy.denotedBy
  rw [isExcluded_iff, Excluded, PatternsTake]
  tauto

end Tables

/-- On bytes the matcher decides the language of a pattern for a text exactly when a text that the
pattern denotes is matched with every `*` in front of a `*` taking just this one, so always when the
pattern or the text is free of `*`. Letters are matched like their bytes, unless a `?` meets one of
several bytes. The tables of a job are decided like the patterns for them. -/
theorem glob_selects_iff (pattern text : ByteString) (letters name : Text)
    (schema table : ByteString) (included excluded : List ByteString) :
    (((globMatch pattern text = true ↔ GlobDenotes pattern text) ↔
        (GlobDenotes pattern text → GlobTakes pattern text)) ∧
      (starByte ∉ pattern ∨ starByte ∉ text → GlobDenotes pattern text → GlobTakes pattern text)) ∧
    (((globMatch (utf8 letters) (utf8 name) = true ↔ LettersDenote letters name) ↔
        (LettersDenote letters name ↔ GlobTakes (utf8 letters) (utf8 name))) ∧
      (('?' ∉ letters ∨ ∀ c ∈ name, c.utf8Size = 1) →
        (GlobDenotes (utf8 letters) (utf8 name) ↔ LettersDenote letters name))) ∧
    ((isExcluded schema table included excluded = true ↔
        Excluded schema table included excluded) ↔
      PatternsTake schema table included excluded) ∧
    (starByte ∉ schema ++ dotByte :: table → PatternsTake schema table included excluded) := by
  refine ⟨⟨?_, fun hstar hdenotes => hdenotes.takes hstar⟩, ⟨?_, globDenotes_utf8⟩,
    isExcluded_right_iff, fun hstar => .inr ⟨?_, ?_⟩⟩
  · rw [globMatch_iff]
    exact ⟨fun h => h.2, fun h => ⟨GlobTakes.denotes, h⟩⟩
  · rw [globMatch_iff]
    exact ⟨Iff.symm, Iff.symm⟩
  · exact fun hdenoted => .inl (hdenoted.takenBy hstar)
  · exact fun _ hdenoted => .inl (hdenoted.takenBy hstar)

/-- Every byte takes itself. -/
theorem forall₂_matches_self (t : ByteString) :
    List.Forall₂ (Wildcard.TakesOrIs starByte) (t.map wildcard) t := by
  induction t with
  | nil => exact .nil
  | cons b t ih => exact .cons (matches_iff.2 (.inr rfl)) ih

theorem globTakes_append_self (front : ByteString) {pattern text : ByteString} :
    GlobTakes (front ++ pattern) (front ++ text) ↔ GlobTakes pattern text := by
  rw [GlobTakes, List.map_append, Wildcard.denotesTaking_append (forall₂_matches_self front),
    GlobTakes]

/-- In the pattern `main.*b` the run is `*a` for the table `*ab`, and in `main.?` the letter is `é`
for the table `é`. -/
theorem glob_star_taken_for_itself :
    (globMatch (utf8 "main.*b") (utf8 "main.*ab") = false ∧
      GlobDenotes (utf8 "main.*b") (utf8 "main.*ab") ∧
      isExcluded (utf8 "main") (utf8 "*ab") [] [utf8 "main.*b"] = false ∧
      Excluded (utf8 "main") (utf8 "*ab") [] [utf8 "main.*b"]) ∧
    globMatch (utf8 "main.?") (utf8 "main.é") = false ∧ LettersDenote "main.?" "main.é" := by
  have hdenotes : GlobDenotes (utf8 "main.*b") (utf8 "main.*ab") :=
    ⟨_, rfl, _, rfl, _, rfl, _, rfl, _, rfl, utf8 "*a", utf8 "b", rfl, _, rfl, rfl⟩
  have htakes : ¬ GlobTakes (utf8 "main.*b") (utf8 "main.*ab") := by
    rw [show utf8 "main.*b" = utf8 "main.*" ++ utf8 "b" from rfl,
      show utf8 "main.*ab" = utf8 "main.*" ++ utf8 "ab" from rfl, globTakes_append_self]
    rintro ⟨rest, hrest, -⟩
    exact absurd (List.cons.inj hrest).1 (by decide)
  have hletter : ¬ GlobTakes (utf8 "main.?") (utf8 "main.é") := by
    rw [show utf8 "main.?" = utf8 "main." ++ utf8 "?" from rfl,
      show utf8 "main.é" = utf8 "main." ++ utf8 "é" from rfl, globTakes_append_self]
    rintro ⟨b, rest, hrest, hnil⟩
    obtain rfl : rest = [] := hnil
    have hlength : 2 = [b].length := congrArg List.length hrest
    cases hlength
  refine ⟨⟨?_, hdenotes, ?_, .inr (.inl ⟨_, List.mem_singleton_self _, .inl hdenotes⟩)⟩, ?_, ?_⟩
  · exact Bool.eq_false_iff.2 fun h => htakes (globMatch_iff.1 h)
  · refine Bool.eq_false_iff.2 fun h => ?_
    rcases isExcluded_iff.1 h with hskip | ⟨pattern, hmem, htaken⟩ | ⟨hne, -⟩
    · exact absurd hskip (by decide)
    · obtain rfl := List.mem_singleton.1 hmem
      rcases htaken with hstar | hstars | hfull | ⟨hdot, -⟩
      · exact absurd hstar (by decide)
      · exact absurd hstars (by decide)
      · exact htakes hfull
      · exact hdot (by decide)
    · exact hne rfl
  · exact Bool.eq_false_iff.2 fun h => hletter (globMatch_iff.1 h)
  · exact ⟨_, rfl, _, rfl, _, rfl, _, rfl, _, rfl, 'é', [], rfl, rfl⟩

end DuckLake
