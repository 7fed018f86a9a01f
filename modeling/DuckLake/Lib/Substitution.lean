import Mathlib.Data.List.Infix
import DuckLake.Lib.Text

/-!
# Textual substitution of tags

A template engine that works on plain text: the tags are replaced one after another, each by a
search over the whole text. The text is meant as a list of segments, solid text and holes for tags.
`substitute_render_iff` says exactly when replacing the tags fills the holes and touches nothing
else.
-/

namespace DuckLake

/-! ## Replacing one tag -/

/-- Replace all occurrences of `pattern`, from left to right; what is inserted is not searched
again. -/
def replaceAll (pattern value : Text) (t : Text) : Text :=
  match t with
  | [] => []
  | c :: t =>
    if pattern ≠ [] ∧ pattern <+: c :: t then
      value ++ replaceAll pattern value ((c :: t).drop pattern.length)
    else c :: replaceAll pattern value t
termination_by t.length
decreasing_by
  · rename_i h
    have := List.length_pos_iff.2 h.1
    simp only [List.length_drop, List.length_cons]
    omega
  · simp

theorem replaceAll_pattern {p v r : Text} (hp : p ≠ []) :
    replaceAll p v (p ++ r) = v ++ replaceAll p v r := by
  obtain ⟨c, p, rfl⟩ := List.exists_cons_of_ne_nil hp
  rw [List.cons_append, replaceAll, if_pos ⟨hp, by simp⟩]
  simp

/-- No occurrence of `p` starts in `t` when `t` is followed by `r`. -/
def NoStart (p t r : Text) : Prop := ∀ s, s <:+ t → s ≠ [] → ¬ p <+: s ++ r

theorem NoStart.tail {p t r : Text} {c : Char} (h : NoStart p (c :: t) r) : NoStart p t r :=
  fun s hs => h s (hs.trans (List.suffix_cons c t))

theorem replaceAll_append {p v t r : Text} (h : NoStart p t r) :
    replaceAll p v (t ++ r) = t ++ replaceAll p v r := by
  induction t with
  | nil => rfl
  | cons c t ih =>
    have hc : ¬ p <+: c :: (t ++ r) := h (c :: t) List.suffix_rfl (by simp)
    rw [List.cons_append, replaceAll, if_neg fun hp => hc hp.2, ih h.tail, List.cons_append]

theorem NoStart.append {p s t r : Text} (hs : NoStart p s (t ++ r)) (ht : NoStart p t r) :
    NoStart p (s ++ t) r := by
  rintro u ⟨w, hw⟩ hne hp
  rcases List.append_eq_append_iff.1 hw with ⟨x, rfl, rfl⟩ | ⟨x, rfl, rfl⟩
  · by_cases hx : x = []
    · subst hx
      exact ht t List.suffix_rfl (by simpa using hne) (by simpa using hp)
    · exact hs x (List.suffix_append _ _) hx (by simpa using hp)
  · exact ht u (List.suffix_append _ _) hne hp

/-! ## Tags -/

/-- A family of tags, replaced in the order of `keys`. Every tag starts with the character `o`
and has no further one, no tag is a prefix of another, and a value starts with some text that
neither contains `o` nor continues a tag and does not end in the start of one. -/
structure Tags (κ : Type) where
  o : Char
  keys : List κ
  tag : κ → Text
  value : κ → Text
  nodup : keys.Nodup
  tag_eq : ∀ k, ∃ body, tag k = o :: body ∧ o ∉ body
  tag_prefix : ∀ k k', tag k <+: tag k' → k = k'
  stop : ∀ k, ∃ w, w ≠ [] ∧ w <+: value k ∧ o ∉ w ∧
    ∀ k' x y, x ≠ [] → tag k' = x ++ y → y ≠ [] → ¬ y <+: w ∧ ¬ w <+: y
  value_end : ∀ k k' s, s <:+ value k → s ≠ [] → s <+: tag k' → s = tag k'

namespace Tags

variable {κ : Type} (T : Tags κ)

def substituteKeys (ks : List κ) (t : Text) : Text :=
  ks.foldl (fun t k => replaceAll (T.tag k) (T.value k) t) t

def substitute (t : Text) : Text := T.substituteKeys T.keys t

inductive Segment (κ : Type) where
  | solid (t : Text)
  | hole (k : κ)

def renderSegment : Segment κ → Text
  | .solid t => t
  | .hole k => T.tag k

def fillSegment : Segment κ → Text
  | .solid t => t
  | .hole k => T.value k

def render (segments : List (Segment κ)) : Text := segments.flatMap T.renderSegment

/-- What the template is meant to become. -/
def fill (segments : List (Segment κ)) : Text := segments.flatMap T.fillSegment

/-- A text in which no tag is started at the end. -/
def Sealed (t : Text) : Prop := ∀ k s, s <:+ t → s ≠ [] → s <+: T.tag k → s = T.tag k

variable {T}

theorem tag_ne_nil (k : κ) : T.tag k ≠ [] := by
  obtain ⟨body, h, -⟩ := T.tag_eq k
  rw [h]
  simp

theorem noStart_of_sealed {t : Text} (ht : T.Sealed t) {k : κ} (h : ¬ T.tag k <:+: t) (r : Text) :
    NoStart (T.tag k) t r := by
  intro s hs hne hp
  rcases List.prefix_or_prefix_of_prefix hp (List.prefix_append s r) with hp | hp
  · exact h (hp.isInfix.trans hs.isInfix)
  · exact h (ht k s hs hne hp ▸ hs.isInfix)

theorem noStart_of_not_mem {k : κ} {t : Text} (ht : T.o ∉ t) (r : Text) :
    NoStart (T.tag k) t r := by
  intro s hs hne hp
  obtain ⟨body, htag, -⟩ := T.tag_eq k
  obtain ⟨c, s, rfl⟩ := List.exists_cons_of_ne_nil hne
  rw [htag, List.cons_append] at hp
  have hc : T.o = c := (List.cons_prefix_cons.1 hp).1
  exact ht (hs.subset (by simp [hc]))

theorem noStart_tag {k k' : κ} (h : k' ≠ k) (r : Text) : NoStart (T.tag k') (T.tag k) r := by
  obtain ⟨body, htag, hbody⟩ := T.tag_eq k
  intro s hs hne hp
  rw [htag, List.suffix_cons_iff] at hs
  rcases hs with rfl | hs
  · rw [← htag] at hp
    rcases List.prefix_or_prefix_of_prefix hp (List.prefix_append _ r) with hp | hp
    · exact h (T.tag_prefix _ _ hp)
    · exact h (T.tag_prefix _ _ hp).symm
  · exact noStart_of_not_mem hbody r s hs hne hp

/-! ## Segments that are left alone -/

theorem substituteKeys_append {ks : List κ} {t : Text}
    (h : ∀ k ∈ ks, ∀ r, NoStart (T.tag k) t r) (r : Text) :
    T.substituteKeys ks (t ++ r) = t ++ T.substituteKeys ks r := by
  induction ks generalizing r with
  | nil => rfl
  | cons k ks ih =>
    have hk := replaceAll_append (v := T.value k) (h k (by simp) r)
    simp only [substituteKeys, List.foldl_cons, hk]
    exact ih (fun k' hk' => h k' (List.mem_cons_of_mem _ hk')) _

theorem substituteKeys_nil (ks : List κ) : T.substituteKeys ks [] = [] := by
  induction ks with
  | nil => rfl
  | cons k ks ih => simpa [substituteKeys, replaceAll] using ih

theorem substituteKeys_split {before after : List κ} {k : κ} (t : Text) :
    T.substituteKeys (before ++ k :: after) t =
      T.substituteKeys after (replaceAll (T.tag k) (T.value k) (T.substituteKeys before t)) := by
  simp [substituteKeys]

/-- A tag is replaced in its turn; what happens to the value afterwards is up to the later
tags. -/
theorem substituteKeys_tag {before : List κ} {k : κ} (hk : k ∉ before) (after : List κ)
    (r : Text) :
    ∃ r', T.substituteKeys (before ++ k :: after) (T.tag k ++ r) =
        T.substituteKeys after (T.value k ++ r') ∧
      T.substituteKeys (before ++ k :: after) r = T.substituteKeys after r' := by
  refine ⟨replaceAll (T.tag k) (T.value k) (T.substituteKeys before r), ?_, substituteKeys_split r⟩
  have hbefore : ∀ k' ∈ before, ∀ r, NoStart (T.tag k') (T.tag k) r := by
    intro k' hk' r
    refine noStart_tag ?_ r
    rintro rfl
    exact hk hk'
  rw [substituteKeys_split, substituteKeys_append hbefore, replaceAll_pattern (tag_ne_nil k)]

variable (T)

/-- `k'` is replaced after `k`. -/
def Later (k k' : κ) : Prop := ∃ before after, T.keys = before ++ k :: after ∧ k' ∈ after

/-- A segment that no replacement but its own touches. -/
def Clean : Segment κ → Prop
  | .solid t => ∀ k ∈ T.keys, ¬ T.tag k <:+: t
  | .hole k => ∀ k', T.Later k k' → ¬ T.tag k' <:+: T.value k

/-- A segment of a template: solid text does not end in the start of a tag, and holes have a key
that is replaced. -/
def Proper : Segment κ → Prop
  | .solid t => T.Sealed t
  | .hole k => k ∈ T.keys

variable {T}

theorem not_mem_before {before after : List κ} {k : κ} (h : T.keys = before ++ k :: after) :
    k ∉ before := by
  have hnodup := T.nodup
  rw [h] at hnodup
  exact fun hmem => (List.nodup_append.1 hnodup).2.2 k hmem k (by simp) rfl

theorem Clean.substitute_append {segment : Segment κ} (hclean : T.Clean segment)
    (hproper : T.Proper segment) (r : Text) :
    T.substitute (T.renderSegment segment ++ r) = T.fillSegment segment ++ T.substitute r := by
  cases segment with
  | solid t => exact substituteKeys_append (fun k hk => noStart_of_sealed hproper (hclean k hk)) r
  | hole k =>
    obtain ⟨before, after, hkeys⟩ := List.append_of_mem hproper
    obtain ⟨r', htag, hr⟩ := substituteKeys_tag (T := T) (not_mem_before hkeys) after r
    have hvalue : ∀ k' ∈ after, ∀ r, NoStart (T.tag k') (T.value k) r := fun k' hk' =>
      noStart_of_sealed (T.value_end k) (hclean k' ⟨before, after, hkeys, hk'⟩)
    simp only [substitute, renderSegment, fillSegment, hkeys]
    rw [htag, hr, substituteKeys_append hvalue]

theorem substitute_render_append {segments : List (Segment κ)}
    (hclean : ∀ s ∈ segments, T.Clean s) (hproper : ∀ s ∈ segments, T.Proper s) (r : Text) :
    T.substitute (T.render segments ++ r) = T.fill segments ++ T.substitute r := by
  induction segments with
  | nil => rfl
  | cons s segments ih =>
    have ih := ih (fun s' h => hclean s' (List.mem_cons_of_mem _ h))
      fun s' h => hproper s' (List.mem_cons_of_mem _ h)
    simp only [render, fill, List.flatMap_cons, List.append_assoc] at ih ⊢
    rw [(hclean s (by simp)).substitute_append (hproper s (by simp)), ih]

/-! ## Segments that are changed -/

/-- A text that contains a tag contains a first one. -/
theorem exists_first {ks : List κ} {t : Text} (h : ∃ k ∈ ks, T.tag k <:+: t) :
    ∃ k ∈ ks, ∃ a b, t = a ++ T.tag k ++ b ∧ ∀ k' ∈ ks, ¬ T.tag k' <:+: a := by
  obtain ⟨k, hk, a, b, rfl⟩ := h
  -- by induction on what stands before the tag: a tag in there is an earlier one
  induction hn : a.length using Nat.strong_induction_on generalizing k a b with
  | _ n ih =>
    by_cases hfirst : ∀ k' ∈ ks, ¬ T.tag k' <:+: a
    · exact ⟨k, hk, a, b, rfl, hfirst⟩
    · simp only [not_forall, not_not] at hfirst
      obtain ⟨k', hk', a', b', rfl⟩ := hfirst
      have hlt : a'.length < n := by
        have := List.length_pos_iff.2 (tag_ne_nil (T := T) k')
        simp only [List.length_append] at hn
        omega
      obtain ⟨k₀, hk₀, a₀, b₀, heq, hfirst⟩ :=
        ih a'.length hlt k' hk' a' (b' ++ T.tag k ++ b) rfl
      exact ⟨k₀, hk₀, a₀, b₀, by rw [← heq]; simp, hfirst⟩

/-- A tag cannot start before another tag and reach into it. -/
theorem noStart_before_tag {k k' : κ} {a : Text} (h : ¬ T.tag k' <:+: a) (r : Text) :
    NoStart (T.tag k') a (T.tag k ++ r) := by
  intro s hs hne hp
  obtain ⟨body, htag, -⟩ := T.tag_eq k
  obtain ⟨body', htag', hbody'⟩ := T.tag_eq k'
  rcases List.prefix_or_prefix_of_prefix hp (List.prefix_append s _) with hp' | ⟨y, hy⟩
  · exact h (hp'.isInfix.trans hs.isInfix)
  · obtain ⟨c, s, rfl⟩ := List.exists_cons_of_ne_nil hne
    rw [← hy, List.prefix_append_right_inj] at hp
    rw [htag', List.cons_append] at hy
    obtain ⟨-, rfl⟩ := List.cons.inj hy
    cases y with
    | nil => exact h (by rw [htag', hy.symm]; simpa using hs.isInfix)
    | cons d y =>
      rw [htag, List.cons_append] at hp
      obtain rfl : d = T.o := (List.cons_prefix_cons.1 hp).1
      exact hbody' (by simp)

/-- A tag cannot start before an inserted value and reach into it. -/
theorem noStart_before_value {k' : κ} {a w : Text} (h : ¬ T.tag k' <:+: a) (ho : T.o ∉ w)
    (hw : ∀ k x y, x ≠ [] → T.tag k = x ++ y → y ≠ [] → ¬ y <+: w ∧ ¬ w <+: y) (r : Text) :
    NoStart (T.tag k') (a ++ w) r := by
  refine NoStart.append (fun s hs hne hp => ?_) (noStart_of_not_mem ho r)
  rcases List.prefix_or_prefix_of_prefix hp (List.prefix_append s _) with hp' | ⟨y, hy⟩
  · exact h (hp'.isInfix.trans hs.isInfix)
  · by_cases hnil : y = []
    · exact h (by rw [← hy, hnil, List.append_nil]; exact hs.isInfix)
    · rw [← hy, List.prefix_append_right_inj] at hp
      obtain ⟨hyw, hwy⟩ := hw k' s y hne hy.symm hnil
      exact (List.prefix_or_prefix_of_prefix hp (List.prefix_append w r)).elim hyw hwy

/-- A text that contains a tag does not survive. -/
theorem substituteKeys_ne {ks : List κ} {t : Text} (h : ∃ k ∈ ks, T.tag k <:+: t) (r x : Text) :
    T.substituteKeys ks (t ++ r) ≠ t ++ x := by
  obtain ⟨k, hk, a, b, rfl, hfirst⟩ := exists_first h
  obtain ⟨before, after, rfl, hnot⟩ := List.eq_append_cons_of_mem hk
  obtain ⟨w, hne, ⟨v, hv⟩, ho, hw⟩ := T.stop k
  have hbefore : ∀ k' ∈ before, ∀ r, NoStart (T.tag k') (a ++ T.tag k) r := fun k' hk' r =>
    (noStart_before_tag (hfirst k' (by simp [hk'])) r).append
      (noStart_tag (by rintro rfl; exact hnot hk') r)
  have hafter : ∀ k' ∈ after, ∀ r, NoStart (T.tag k') (a ++ w) r := fun k' hk' r =>
    noStart_before_value (hfirst k' (by simp [hk'])) ho hw r
  obtain ⟨body, htag, -⟩ := T.tag_eq k
  obtain ⟨c, w, rfl⟩ := List.exists_cons_of_ne_nil hne
  intro heq
  rw [substituteKeys_split, List.append_assoc (a ++ _), substituteKeys_append hbefore,
    List.append_assoc a, replaceAll_append (noStart_before_tag (hfirst k (by simp)) _),
    replaceAll_pattern (tag_ne_nil k), ← hv, List.append_assoc, ← List.append_assoc a,
    substituteKeys_append hafter, List.append_assoc, List.append_assoc, List.append_assoc,
    List.append_right_inj, htag] at heq
  simp only [List.cons_append, List.cons.injEq] at heq
  exact ho (by simp [heq.1])

theorem substitute_append_ne {segment : Segment κ} (hclean : ¬ T.Clean segment)
    (hproper : T.Proper segment) (r x : Text) :
    T.substitute (T.renderSegment segment ++ r) ≠ T.fillSegment segment ++ x := by
  cases segment with
  | solid t =>
    simp only [Clean, not_forall, not_not] at hclean
    obtain ⟨k, hk, htag⟩ := hclean
    exact substituteKeys_ne ⟨k, hk, htag⟩ r x
  | hole k =>
    simp only [Clean, not_forall, not_not] at hclean
    obtain ⟨k', ⟨before, after, hkeys, hk'⟩, htag⟩ := hclean
    obtain ⟨r', hr, -⟩ := substituteKeys_tag (T := T) (not_mem_before hkeys) after r
    simp only [substitute, renderSegment, fillSegment, hkeys, hr]
    exact substituteKeys_ne ⟨k', hk', htag⟩ r' x

/-- Text is left alone exactly when it contains no tag. -/
theorem substitute_eq_self_iff {t : Text} :
    T.substitute t = t ↔ ∀ k ∈ T.keys, ¬ T.tag k <:+: t := by
  constructor
  · intro h k hk htag
    have hmem : ∃ k ∈ T.keys, T.tag k <:+: t := ⟨k, hk, htag⟩
    refine substituteKeys_ne hmem [] [] ?_
    rwa [List.append_nil]
  · intro h
    unfold substitute
    generalize T.keys = ks at h
    induction ks with
    | nil => rfl
    | cons k ks ih =>
      have hstart : NoStart (T.tag k) t [] := fun s hs _ hp =>
        h k (by simp) ((List.append_nil s ▸ hp).isInfix.trans hs.isInfix)
      have hk : replaceAll (T.tag k) (T.value k) t = t := by
        simpa [replaceAll] using replaceAll_append (v := T.value k) hstart
      rw [substituteKeys, List.foldl_cons, hk]
      exact ih fun k' hk' => h k' (List.mem_cons_of_mem _ hk')

/-! ## Values without the opening character -/

theorem replaceAll_eq_or_count_lt {c : Char} {p v : Text} (hp : c ∈ p) (hv : c ∉ v) (t : Text) :
    replaceAll p v t = t ∨ (replaceAll p v t).count c < t.count c := by
  fun_induction replaceAll p v t with
  | case1 => exact .inl rfl
  | case2 d t h ih =>
    obtain ⟨r, hr⟩ := h.2
    have hcount : 0 < p.count c := List.count_pos_iff.2 hp
    have hdrop : (d :: t).drop p.length = r := by rw [← hr, List.drop_left]
    rw [hdrop] at ih ⊢
    right
    rw [← hr, List.count_append, List.count_append, List.count_eq_zero.2 hv]
    rcases ih with ih | ih
    · rw [ih]
      omega
    · omega
  | case3 d t h ih =>
    rcases ih with ih | ih
    · exact .inl (by rw [ih])
    · right
      simp only [List.count_cons]
      omega

/-- When no value has the character that opens the tags, a text that is changed loses some of
them. -/
theorem substitute_eq_or_count_lt (hv : ∀ k ∈ T.keys, T.o ∉ T.value k) (t : Text) :
    T.substitute t = t ∨ (T.substitute t).count T.o < t.count T.o := by
  unfold substitute
  generalize T.keys = ks at hv
  induction ks generalizing t with
  | nil => exact .inl rfl
  | cons k ks ih =>
    have hopen : T.o ∈ T.tag k := by
      obtain ⟨body, h, -⟩ := T.tag_eq k
      simp [h]
    rw [substituteKeys, List.foldl_cons]
    have ih := ih (replaceAll (T.tag k) (T.value k) t)
      fun k' hk' => hv k' (List.mem_cons_of_mem _ hk')
    rcases replaceAll_eq_or_count_lt hopen (hv k (by simp)) t with h | h
    · rw [h] at ih ⊢
      exact ih
    · right
      rcases ih with ih | ih
      · rw [substituteKeys] at ih
        rwa [ih]
      · exact Nat.lt_trans ih h

/-- Replacing the tags of a template one after another fills its holes and leaves the rest as it
is exactly when no solid text contains a tag and no filled hole contains one that is replaced
later. -/
theorem substitute_render_iff {segments : List (Segment κ)} (hproper : ∀ s ∈ segments, T.Proper s) :
    T.substitute (T.render segments) = T.fill segments ↔ ∀ s ∈ segments, T.Clean s := by
  constructor
  · intro h
    induction segments with
    | nil => simp
    | cons s segments ih =>
      have hs := hproper s (by simp)
      simp only [render, fill, List.flatMap_cons] at h ih
      by_cases hclean : T.Clean s
      · rw [hclean.substitute_append hs, List.append_right_inj] at h
        have ih := ih (fun s' h => hproper s' (List.mem_cons_of_mem _ h)) h
        exact List.forall_mem_cons.2 ⟨hclean, ih⟩
      · exact absurd h (substitute_append_ne hclean hs _ _)
  · intro hclean
    have h := substitute_render_append hclean hproper []
    simpa [substitute, substituteKeys_nil] using h

end Tags

/-! ## Escaped text

Escaping leaves the characters of an alphabet as they are and expands the others into characters
outside the alphabet; a word over the alphabet is then found in the escaped text exactly where it
is found in the text. -/

section Alphabet

variable {A : Char → Prop} {p : Text}

theorem not_prefix_cons {c : Char} {t : Text} (hp : ∀ d ∈ p, A d) (hne : p ≠ []) (hc : ¬ A c) :
    ¬ p <+: c :: t := by
  obtain ⟨d, p, rfl⟩ := List.exists_cons_of_ne_nil hne
  intro h
  exact hc ((List.cons_prefix_cons.1 h).1 ▸ hp d (by simp))

theorem infix_append_iff_of_not_mem {o : Char} {body x y : Text} (hx : o ∉ x) :
    o :: body <:+: x ++ y ↔ o :: body <:+: y := by
  induction x with
  | nil => rfl
  | cons c x ih =>
    rw [List.mem_cons, not_or] at hx
    rw [List.cons_append, List.infix_cons_iff, ih hx.2, List.cons_prefix_cons]
    simp [hx.1]

theorem prefix_append_cons_iff {c : Char} {x y : Text} (hp : ∀ d ∈ p, A d) (hc : ¬ A c) :
    p <+: x ++ c :: y ↔ p <+: x := by
  constructor
  · intro h
    rcases List.prefix_or_prefix_of_prefix h (List.prefix_append x _) with h' | ⟨z, rfl⟩
    · exact h'
    · rw [List.prefix_append_right_inj] at h
      cases z with
      | nil => simp
      | cons d z => exact absurd ((List.cons_prefix_cons.1 h).1 ▸ hp d (by simp)) hc
  · exact fun h => h.trans (List.prefix_append _ _)

/-- A word does not reach over a character outside its alphabet. -/
theorem infix_append_cons_iff {c : Char} {x y : Text} (hp : ∀ d ∈ p, A d) (hne : p ≠ [])
    (hc : ¬ A c) : p <:+: x ++ c :: y ↔ p <:+: x ∨ p <:+: y := by
  induction x with
  | nil =>
    rw [List.nil_append, List.infix_cons_iff]
    simp [not_prefix_cons hp hne hc, hne]
  | cons d x ih =>
    have hprefix := prefix_append_cons_iff (x := d :: x) (y := y) hp hc
    rw [List.cons_append] at hprefix ⊢
    rw [List.infix_cons_iff, ih, List.infix_cons_iff, hprefix, or_assoc]

variable {f : Char → Text} (hin : ∀ c, A c → f c = [c])
  (hout : ∀ c, ¬ A c → f c ≠ [] ∧ ∀ d ∈ f c, ¬ A d)

include hin hout

theorem prefix_flatMap_iff {t : Text} (hp : ∀ d ∈ p, A d) : p <+: t.flatMap f ↔ p <+: t := by
  induction t generalizing p with
  | nil => rfl
  | cons c t ih =>
    cases p with
    | nil => simp
    | cons d p =>
      rw [List.flatMap_cons]
      by_cases hc : A c
      · rw [hin c hc, List.singleton_append, List.cons_prefix_cons, List.cons_prefix_cons,
          ih fun e he => hp e (List.mem_cons_of_mem _ he)]
      · obtain ⟨hne, hfc⟩ := hout c hc
        obtain ⟨e, x, hx⟩ := List.exists_cons_of_ne_nil hne
        rw [hx, List.cons_append]
        constructor
        · intro h
          exact absurd h (not_prefix_cons hp (by simp) (hfc e (by simp [hx])))
        · intro h
          exact absurd h (not_prefix_cons hp (by simp) hc)

theorem infix_flatMap_iff {t : Text} (hp : ∀ d ∈ p, A d) (hne : p ≠ []) :
    p <:+: t.flatMap f ↔ p <:+: t := by
  induction t with
  | nil => rfl
  | cons c t ih =>
    by_cases hc : A c
    · have hprefix := prefix_flatMap_iff hin hout (t := c :: t) hp
      rw [List.flatMap_cons, hin c hc, List.singleton_append] at hprefix ⊢
      rw [List.infix_cons_iff, List.infix_cons_iff, ih, hprefix]
    · obtain ⟨o, body, rfl⟩ := List.exists_cons_of_ne_nil hne
      have ho : o ∉ f c := fun h => (hout c hc).2 o h (hp o (by simp))
      rw [List.flatMap_cons, infix_append_iff_of_not_mem ho, ih, List.infix_cons_iff]
      simp [not_prefix_cons hp hne hc]

end Alphabet

end DuckLake
