import Mathlib.Data.List.Induction
import Mathlib.Data.List.Perm.Basic
import Mathlib.Order.Bounds.Basic

/-!
# Bounds of incomplete summaries

A group of optional values is summarised by a lower bound of its values and by what is known of
their number, each of which may be missing. Summaries are merged into an accumulator, which a bound
that comes later may seed. The merge is neither commutative nor associative; this file determines
for which summaries its results depend on the order and the grouping all the same.
-/

namespace DuckLake

/-! ## Reductions -/

section Reduces

variable {α β : Type}

theorem exists_perm_cons {l : List α} {x : α} (hx : x ∈ l) :
    ∃ rest, l.Perm (x :: rest) := by
  obtain ⟨before, after, rfl⟩ := List.append_of_mem hx
  exact ⟨before ++ after, List.perm_middle⟩

theorem exists_perm_cons_cons {l : List α} {x y : α} (hx : x ∈ l) (hy : y ∈ l)
    (hne : x ≠ y) : ∃ rest, l.Perm (x :: y :: rest) := by
  obtain ⟨rest, hp⟩ := exists_perm_cons hx
  obtain ⟨rest', hp'⟩ := exists_perm_cons
    ((List.mem_cons.1 (hp.mem_iff.1 hy)).resolve_left fun h => hne h.symm)
  exact ⟨rest', hp.trans (hp'.cons x)⟩

variable (op : α → α → α)

/-- `s` is what `op` makes of all the elements, in some order and some grouping. -/
inductive Reduces : List α → α → Prop where
  | single (x : α) : Reduces [x] x
  | merge {l r : List α} {a b : α} (left : Reduces l a) (right : Reduces r b) :
      Reduces (l ++ r) (op a b)
  | perm {l l' : List α} {a : α} (reduces : Reduces l a) (reorders : l.Perm l') : Reduces l' a

variable {op}

theorem Reduces.ne_nil {l : List α} {s : α} (h : Reduces op l s) : l ≠ [] := by
  induction h with
  | single => exact List.cons_ne_nil _ _
  | merge _ _ ihl => exact List.append_ne_nil_of_left_ne_nil ihl _
  | perm _ hp ih =>
    intro hnil
    exact ih (List.perm_nil.1 (hnil ▸ hp))

/-- One after the other, the first one as the accumulator. -/
theorem reduces_foldl (x : α) (xs : List α) : Reduces op (x :: xs) (xs.foldl op x) := by
  induction xs using List.reverseRecOn with
  | nil => exact .single x
  | append_singleton xs y ih =>
    rw [List.foldl_append, ← List.cons_append]
    exact .merge ih (.single y)

theorem Reduces.map {op' : β → β → β} {f : α → β} {P : α → Prop} {l : List α} {s : α}
    (hP : ∀ a b, P a → P b → P (op a b)) (hf : ∀ a b, P a → P b → f (op a b) = op' (f a) (f b))
    (h : Reduces op l s) (hl : ∀ x ∈ l, P x) : P s ∧ Reduces op' (l.map f) (f s) := by
  induction h with
  | single x => exact ⟨hl x (List.mem_singleton_self x), .single (f x)⟩
  | @merge l r a b _ _ ihl ihr =>
    obtain ⟨ha, hla⟩ := ihl fun x hx => hl x (List.mem_append_left r hx)
    obtain ⟨hb, hrb⟩ := ihr fun x hx => hl x (List.mem_append_right l hx)
    refine ⟨hP a b ha hb, ?_⟩
    rw [hf a b ha hb, List.map_append]
    exact .merge hla hrb
  | perm _ hp ih =>
    obtain ⟨ha, hla⟩ := ih fun x hx => hl x (hp.mem_iff.1 hx)
    exact ⟨ha, hla.perm (hp.map f)⟩

theorem exists_perm_of_map {f : α → β} {l : List α} {m : List β} (h : m.Perm (l.map f)) :
    ∃ l' : List α, l'.Perm l ∧ l'.map f = m := by
  have hl : List.Forall₂ (fun b a => f a = b) (l.map f) l := by
    rw [List.forall₂_map_left_iff]
    exact List.forall₂_same.2 fun _ _ => rfl
  obtain ⟨l', hm, hp⟩ := List.perm_comp_forall₂ h hl
  refine ⟨l', hp, ?_⟩
  clear hp h hl
  induction hm with
  | nil => rfl
  | cons hab _ ih => rw [List.map_cons, hab, ih]

/-- Every reduction of the images is the image of a reduction. -/
theorem Reduces.of_map {op' : β → β → β} {f : α → β} {P : α → Prop} {l : List α} {t : β}
    (hP : ∀ a b, P a → P b → P (op a b)) (hf : ∀ a b, P a → P b → f (op a b) = op' (f a) (f b))
    (h : Reduces op' (l.map f) t) (hl : ∀ x ∈ l, P x) : ∃ s, Reduces op l s ∧ P s ∧ f s = t := by
  generalize hm : l.map f = m at h
  induction h generalizing l with
  | single y =>
    obtain ⟨x, rfl, rfl⟩ := List.map_eq_singleton_iff.1 hm
    exact ⟨x, .single x, hl x (List.mem_singleton_self x), rfl⟩
  | merge _ _ ihl ihr =>
    obtain ⟨l₁, l₂, rfl, rfl, rfl⟩ := List.map_eq_append_iff.1 hm
    obtain ⟨a, ha, hPa, rfl⟩ := ihl (fun x hx => hl x (List.mem_append_left l₂ hx)) rfl
    obtain ⟨b, hb, hPb, rfl⟩ := ihr (fun x hx => hl x (List.mem_append_right l₁ hx)) rfl
    exact ⟨_, .merge ha hb, hP a b hPa hPb, hf a b hPa hPb⟩
  | perm _ hp ih =>
    obtain ⟨l', hp', rfl⟩ := exists_perm_of_map (hm ▸ hp)
    obtain ⟨s, hs, hPs, rfl⟩ := ih (fun x hx => hl x (hp'.mem_iff.1 hx)) rfl
    exact ⟨s, hs.perm hp', hPs, rfl⟩

end Reduces

/-! ## Summaries -/

structure PartialBound (V : Type) where
  /-- The number of missing values and of all values. -/
  counts : Option (Nat × Nat)
  /-- Whether there is a value at all, which the counts override. -/
  valid : Bool
  /-- The bound has been invalidated and must not be seeded. -/
  unknown : Bool
  bound : Option V
deriving DecidableEq

namespace PartialBound

variable {V : Type} {a b x y z s s' : PartialBound V} {l l' : List (PartialBound V)}

def anyValid (s : PartialBound V) : Bool :=
  match s.counts with
  | some (missing, total) => missing < total
  | none => s.valid

/-- Whether the group can have a value. -/
def canHold (s : PartialBound V) : Bool :=
  match s.counts with
  | some (missing, total) => missing < total
  | none => s.valid || s.unknown

def addCounts : Option (Nat × Nat) → Option (Nat × Nat) → Option (Nat × Nat)
  | some (missing, total), some (missing', total') => some (missing + missing', total + total')
  | _, _ => none

/-- The smaller of two bounds, where both are there. -/
def lower [Min V] : Option V → Option V → Option V
  | some v, some w => some (min v w)
  | _, _ => none

/-- The accumulator with the counts added, before the bounds are looked at. -/
def addTo (a b : PartialBound V) : PartialBound V :=
  { a with counts := addCounts a.counts b.counts }

def merge [Min V] (a b : PartialBound V) : PartialBound V :=
  if !b.anyValid then a.addTo b
  else if !(a.addTo b).anyValid then
    if a.unknown then a.addTo b else { a.addTo b with valid := true, bound := b.bound }
  else { a.addTo b with bound := lower a.bound b.bound }

/-- Not more values are missing than there are. -/
def CountsLe (s : PartialBound V) : Prop :=
  ∀ missing total, s.counts = some (missing, total) → missing ≤ total

/-- What a summary of one group says is true of it. -/
structure Sound (s : PartialBound V) : Prop where
  countsLe : s.CountsLe
  not_valid : s.valid = false → s.anyValid = false
  anyValid_of_bound : s.bound.isSome → s.anyValid
  counts_of_unknown : s.unknown → s.counts = none
  bound_of_unknown : s.unknown → s.bound = none

/-- Every group that can have a value has a bound, and one of them can. -/
def Covered (l : List (PartialBound V)) : Prop :=
  (∃ s ∈ l, s.canHold) ∧ ∀ s ∈ l, s.canHold → s.bound.isSome

/-- A group without values, by its counts. -/
def IsVoid (s : PartialBound V) : Prop := s.counts.isSome ∧ s.anyValid = false

instance : DecidablePred (IsVoid (V := V)) := fun _ => inferInstanceAs (Decidable (_ ∧ _))

theorem addCounts_isSome {c d : Option (Nat × Nat)} :
    (addCounts c d).isSome ↔ c.isSome ∧ d.isSome := by
  cases c <;> cases d <;> simp [addCounts]

theorem addCounts_eq_none {c d : Option (Nat × Nat)} :
    addCounts c d = none ↔ c = none ∨ d = none := by
  cases c <;> cases d <;> simp [addCounts]

theorem anyValid_of_counts_none (h : s.counts = none) : s.anyValid = s.valid := by
  simp [anyValid, h]

theorem addTo_anyValid_of_none (h : a.counts = none ∨ b.counts = none) :
    (a.addTo b).anyValid = a.valid :=
  anyValid_of_counts_none (addCounts_eq_none.2 h)

theorem CountsLe.addTo_anyValid (ha : a.CountsLe) (hb : b.CountsLe) (hca : a.counts.isSome)
    (hcb : b.counts.isSome) : (a.addTo b).anyValid = (a.anyValid || b.anyValid) := by
  obtain ⟨⟨m, t⟩, hc⟩ := Option.isSome_iff_exists.1 hca
  obtain ⟨⟨m', t'⟩, hc'⟩ := Option.isSome_iff_exists.1 hcb
  have hm := ha m t hc
  have hm' := hb m' t' hc'
  simp only [anyValid, addTo, hc, hc', addCounts]
  rw [← Bool.decide_or]
  apply decide_eq_decide.2
  omega

/-- A flag that says that there are values holds unless the counts say otherwise. -/
theorem addTo_anyValid_of_valid (ha : a.CountsLe) (hb : b.CountsLe) (hv : a.valid)
    (h : a.anyValid ∨ b.anyValid) : (a.addTo b).anyValid := by
  by_cases hc : a.counts = none ∨ b.counts = none
  · rw [addTo_anyValid_of_none hc]
    exact hv
  · obtain ⟨hca, hcb⟩ := not_or.1 hc
    rw [ha.addTo_anyValid hb (Option.ne_none_iff_isSome.1 hca) (Option.ne_none_iff_isSome.1 hcb),
      Bool.or_eq_true]
    exact h

theorem valid_of_anyValid (hs : s.Sound) (h : s.anyValid) : s.valid := by
  cases hv : s.valid with
  | true => rfl
  | false => rw [hs.not_valid hv] at h; cases h

theorem bound_of_not_anyValid (hs : s.Sound) (h : s.anyValid = false) : s.bound = none := by
  by_contra hne
  rw [hs.anyValid_of_bound (Option.ne_none_iff_isSome.1 hne)] at h
  cases h

section Merge

variable [Min V]

/-! ### What one merge does -/

theorem merge_of_not_anyValid (hb : b.anyValid = false) : a.merge b = a.addTo b := by
  simp [merge, hb]

theorem merge_of_anyValid (hb : b.anyValid) (h : (a.addTo b).anyValid) :
    a.merge b = { a.addTo b with bound := lower a.bound b.bound } := by
  simp [merge, hb, h]

theorem merge_seed (hb : b.anyValid) (h : (a.addTo b).anyValid = false) (hu : a.unknown = false) :
    a.merge b = { a.addTo b with valid := true, bound := b.bound } := by
  simp [merge, hb, h, hu]

theorem merge_of_unknown (hb : b.anyValid) (h : (a.addTo b).anyValid = false) (hu : a.unknown) :
    a.merge b = a.addTo b := by
  simp [merge, hb, h, hu]

/-- The four branches of a merge. -/
theorem merge_cases (a b : PartialBound V) :
    (b.anyValid = false ∧ a.merge b = a.addTo b) ∨
    (b.anyValid ∧ (a.addTo b).anyValid ∧
      a.merge b = { a.addTo b with bound := lower a.bound b.bound }) ∨
    (b.anyValid ∧ (a.addTo b).anyValid = false ∧ a.unknown = false ∧
      a.merge b = { a.addTo b with valid := true, bound := b.bound }) ∨
    (b.anyValid ∧ (a.addTo b).anyValid = false ∧ a.unknown ∧ a.merge b = a.addTo b) := by
  cases hb : b.anyValid with
  | false => exact .inl ⟨rfl, merge_of_not_anyValid hb⟩
  | true =>
    cases h : (a.addTo b).anyValid with
    | true => exact .inr (.inl ⟨rfl, rfl, merge_of_anyValid hb h⟩)
    | false =>
      cases hu : a.unknown with
      | false => exact .inr (.inr (.inl ⟨rfl, rfl, rfl, merge_seed hb h hu⟩))
      | true => exact .inr (.inr (.inr ⟨rfl, rfl, rfl, merge_of_unknown hb h hu⟩))

@[simp] theorem merge_counts : (a.merge b).counts = addCounts a.counts b.counts := by
  obtain ⟨_, h⟩ | ⟨_, _, h⟩ | ⟨_, _, _, h⟩ | ⟨_, _, _, h⟩ := merge_cases a b <;> rw [h] <;> rfl

@[simp] theorem merge_unknown : (a.merge b).unknown = a.unknown := by
  obtain ⟨_, h⟩ | ⟨_, _, h⟩ | ⟨_, _, _, h⟩ | ⟨_, _, _, h⟩ := merge_cases a b <;> rw [h] <;> rfl

theorem merge_valid (ha : a.valid) : (a.merge b).valid := by
  obtain ⟨_, h⟩ | ⟨_, _, h⟩ | ⟨_, _, _, h⟩ | ⟨_, _, _, h⟩ := merge_cases a b <;>
    simp [h, addTo, ha]

/-! ### The counts -/

theorem CountsLe.merge (ha : a.CountsLe) (hb : b.CountsLe) : (a.merge b).CountsLe := by
  intro missing total h
  rw [merge_counts] at h
  cases hc : a.counts with
  | none => simp [hc, addCounts] at h
  | some c =>
    cases hc' : b.counts with
    | none => simp [hc, hc', addCounts] at h
    | some c' =>
      simp only [hc, hc', addCounts, Option.some.injEq, Prod.mk.injEq] at h
      have hm := ha c.1 c.2 hc
      have hm' := hb c'.1 c'.2 hc'
      omega

theorem countsLe_of_reduces (h : Reduces merge l s) (hl : ∀ x ∈ l, x.CountsLe) : s.CountsLe := by
  induction h with
  | single x => exact hl x (List.mem_singleton_self x)
  | @merge l r _ _ _ _ ihl ihr =>
    exact (ihl fun x hx => hl x (List.mem_append_left r hx)).merge
      (ihr fun x hx => hl x (List.mem_append_right l hx))
  | perm _ hp ih => exact ih fun x hx => hl x (hp.mem_iff.1 hx)

theorem counts_isSome_iff (h : Reduces merge l s) :
    s.counts.isSome ↔ ∀ x ∈ l, x.counts.isSome := by
  induction h with
  | single x => simp
  | merge _ _ ihl ihr => rw [merge_counts, addCounts_isSome, ihl, ihr, List.forall_mem_append]
  | perm _ hp ih => exact ih.trans (forall_congr' fun x => imp_congr_left hp.mem_iff)

/-! ### Groups without a bound -/

/-- There are values, and no bound of them. -/
def Lacks (s : PartialBound V) : Prop := s.anyValid ∧ s.bound = none

theorem merge_bound_none (ha : a.bound = none) (hb : b.bound = none) :
    (a.merge b).bound = none := by
  obtain ⟨_, h⟩ | ⟨_, _, h⟩ | ⟨_, _, _, h⟩ | ⟨_, _, _, h⟩ := merge_cases a b <;>
    simp [h, addTo, lower, ha, hb]

theorem bound_eq_none (h : Reduces merge l s) (hl : ∀ x ∈ l, x.bound = none) :
    s.bound = none := by
  induction h with
  | single x => exact hl x (List.mem_singleton_self x)
  | @merge l r _ _ _ _ ihl ihr =>
    exact merge_bound_none (ihl fun x hx => hl x (List.mem_append_left r hx))
      (ihr fun x hx => hl x (List.mem_append_right l hx))
  | perm _ hp ih => exact ih fun x hx => hl x (hp.mem_iff.1 hx)

theorem Lacks.merge_left (ha : a.Lacks) (h : (a.addTo b).anyValid) : (a.merge b).Lacks := by
  cases hb : b.anyValid with
  | false =>
    rw [merge_of_not_anyValid hb]
    exact ⟨h, ha.2⟩
  | true =>
    rw [merge_of_anyValid hb h, ha.2]
    exact ⟨h, rfl⟩

/-- Once the counts are gone, a bound that is missing may seed the accumulator as well. -/
theorem Lacks.merge_right (hb : b.Lacks) (h : (a.addTo b).anyValid ∨
    a.unknown = false ∧ (a.counts = none ∨ b.counts = none)) : (a.merge b).Lacks := by
  cases hab : (a.addTo b).anyValid with
  | true =>
    rw [merge_of_anyValid hb.1 hab, hb.2]
    refine ⟨hab, ?_⟩
    cases a.bound <;> rfl
  | false =>
    obtain ⟨hu, hc⟩ := h.resolve_left (by simp [hab])
    rw [merge_seed hb.1 hab hu]
    exact ⟨anyValid_of_counts_none (addCounts_eq_none.2 hc), hb.2⟩

/-- Where no group without values waits for a bound, a missing bound stays missing. -/
theorem lacks_of_waiting (h : Reduces merge l s) (hl : ∀ x ∈ l, x.Sound)
    (hw : ∀ x ∈ l, x.valid ∨ x.unknown = false ∧ x.counts = none) :
    (s.valid ∨ s.unknown = false ∧ s.counts = none) ∧ ((∃ x ∈ l, x.Lacks) → s.Lacks) := by
  induction h with
  | single x => simpa using hw x (List.mem_singleton_self x)
  | @merge l r a b hla hrb ihl ihr =>
    obtain ⟨hwa, hxa⟩ := ihl (fun x hx => hl x (List.mem_append_left r hx))
      (fun x hx => hw x (List.mem_append_left r hx))
    obtain ⟨-, hxb⟩ := ihr (fun x hx => hl x (List.mem_append_right l hx))
      (fun x hx => hw x (List.mem_append_right l hx))
    have hca := countsLe_of_reduces hla fun x hx => (hl x (List.mem_append_left r hx)).countsLe
    have hcb := countsLe_of_reduces hrb fun x hx => (hl x (List.mem_append_right l hx)).countsLe
    constructor
    · obtain hv | ⟨hu, hc⟩ := hwa
      · exact .inl (merge_valid hv)
      · exact .inr ⟨by rw [merge_unknown, hu], by rw [merge_counts, hc]; rfl⟩
    · rintro ⟨x, hx, hlacks⟩
      obtain hx | hx := List.mem_append.1 hx
      · have ha := hxa ⟨x, hx, hlacks⟩
        have hv : a.valid := by
          obtain hv | ⟨-, hc⟩ := hwa
          · exact hv
          · rw [← anyValid_of_counts_none hc]
            exact ha.1
        exact ha.merge_left (addTo_anyValid_of_valid hca hcb hv (.inl ha.1))
      · have hb := hxb ⟨x, hx, hlacks⟩
        refine hb.merge_right ?_
        obtain hv | ⟨hu, hc⟩ := hwa
        · exact .inl (addTo_anyValid_of_valid hca hcb hv (.inr hb.1))
        · exact .inr ⟨hu, .inl hc⟩
  | perm _ hp ih =>
    obtain ⟨hs, hx⟩ := ih (fun x hx => hl x (hp.mem_iff.1 hx)) (fun x hx => hw x (hp.mem_iff.1 hx))
    exact ⟨hs, fun ⟨x, hmem, hlacks⟩ => hx ⟨x, hp.mem_iff.2 hmem, hlacks⟩⟩

/-- Where everything is counted, the counts tell. -/
theorem lacks_of_counts (h : Reduces merge l s) (hl : ∀ x ∈ l, x.Sound)
    (hc : ∀ x ∈ l, x.counts.isSome) (hx : ∃ x ∈ l, x.Lacks) : s.Lacks := by
  induction h with
  | single y => simpa using hx
  | @merge l r a b hla hrb ihl ihr =>
    have hca := countsLe_of_reduces hla fun x hx => (hl x (List.mem_append_left r hx)).countsLe
    have hcb := countsLe_of_reduces hrb fun x hx => (hl x (List.mem_append_right l hx)).countsLe
    have hsum := hca.addTo_anyValid hcb
      ((counts_isSome_iff hla).2 fun x hx => hc x (List.mem_append_left r hx))
      ((counts_isSome_iff hrb).2 fun x hx => hc x (List.mem_append_right l hx))
    obtain ⟨x, hx, hlacks⟩ := hx
    obtain hx | hx := List.mem_append.1 hx
    · have ha := ihl (fun x hx => hl x (List.mem_append_left r hx))
        (fun x hx => hc x (List.mem_append_left r hx)) ⟨x, hx, hlacks⟩
      exact ha.merge_left (by simp [hsum, ha.1])
    · have hb := ihr (fun x hx => hl x (List.mem_append_right l hx))
        (fun x hx => hc x (List.mem_append_right l hx)) ⟨x, hx, hlacks⟩
      exact hb.merge_right (.inl (by simp [hsum, hb.1]))
  | perm _ hp ih =>
    obtain ⟨x, hmem, hlacks⟩ := hx
    exact ih (fun x hx => hl x (hp.mem_iff.1 hx)) (fun x hx => hc x (hp.mem_iff.1 hx))
      ⟨x, hp.mem_iff.2 hmem, hlacks⟩

/-- A missing bound of a group that is not counted stays missing. -/
theorem lacks_of_uncounted (h : Reduces merge l s) (hu : ∀ x ∈ l, x.unknown → x.valid) :
    (s.unknown → s.valid) ∧
      ((∃ x ∈ l, x.Lacks ∧ x.counts = none) → s.Lacks ∧ s.counts = none) := by
  induction h with
  | single x => simpa using hu x (List.mem_singleton_self x)
  | @merge l r a b _ _ ihl ihr =>
    obtain ⟨hua, hxa⟩ := ihl fun x hx => hu x (List.mem_append_left r hx)
    obtain ⟨-, hxb⟩ := ihr fun x hx => hu x (List.mem_append_right l hx)
    constructor
    · intro h
      rw [merge_unknown] at h
      exact merge_valid (hua h)
    · rintro ⟨x, hx, hlacks⟩
      rw [merge_counts]
      obtain hx | hx := List.mem_append.1 hx
      · obtain ⟨ha, hc⟩ := hxa ⟨x, hx, hlacks⟩
        refine ⟨ha.merge_left ?_, addCounts_eq_none.2 (.inl hc)⟩
        rw [addTo_anyValid_of_none (.inl hc), ← anyValid_of_counts_none hc]
        exact ha.1
      · obtain ⟨hb, hc⟩ := hxb ⟨x, hx, hlacks⟩
        refine ⟨hb.merge_right ?_, addCounts_eq_none.2 (.inr hc)⟩
        cases hunknown : a.unknown with
        | false => exact .inr ⟨rfl, .inr hc⟩
        | true =>
          rw [addTo_anyValid_of_none (.inr hc)]
          exact .inl (hua hunknown)
  | perm _ hp ih =>
    obtain ⟨hs, hx⟩ := ih fun x hx => hu x (hp.mem_iff.1 hx)
    exact ⟨hs, fun ⟨x, hmem, hlacks⟩ => hx ⟨x, hp.mem_iff.2 hmem, hlacks⟩⟩

end Merge

/-! ### Groups that all have a bound -/

def bounds (l : List (PartialBound V)) : Set V := {v | ∃ x ∈ l, x.bound = some v}

theorem bounds_append : bounds (l ++ l') = bounds l ∪ bounds l' := by
  ext v
  simp [bounds, or_and_right, exists_or]

theorem bounds_perm (h : l.Perm l') : bounds l = bounds l' := by
  ext v
  simp [bounds, h.mem_iff]

theorem bounds_eq_empty (hl : ∀ x ∈ l, x.Sound) (h : ∀ x ∈ l, x.anyValid = false) :
    bounds l = ∅ := by
  refine Set.eq_empty_of_forall_notMem ?_
  rintro v ⟨x, hx, hv⟩
  have hvalid := (hl x hx).anyValid_of_bound (by rw [hv]; rfl)
  rw [h x hx] at hvalid
  cases hvalid

/-- Groups without values do not say that there are some, nor occur beside counted ones. -/
def SeedsAlike (l : List (PartialBound V)) : Prop :=
  ∀ z ∈ l, z.IsVoid → z.valid = false ∧ ∀ x ∈ l, x.counts.isSome → x.anyValid = false

theorem SeedsAlike.mono (h : SeedsAlike l) (hsub : l' ⊆ l) : SeedsAlike l' := by
  intro z hz hvoid
  obtain ⟨hv, hx⟩ := h z (hsub hz) hvoid
  exact ⟨hv, fun x hmem => hx x (hsub hmem)⟩

/-- A reduction that has not seen a value. -/
structure Unseeded (l : List (PartialBound V)) (s : PartialBound V) : Prop where
  anyValid_mem : ∀ x ∈ l, x.anyValid = false
  valid : s.valid = false
  unknown : s.unknown = false
  anyValid : s.anyValid = false

/-- A reduction that has seen a value, with the least bound. -/
structure Seeded [LinearOrder V] (l : List (PartialBound V)) (s : PartialBound V) : Prop where
  valid : s.valid
  anyValid : s.anyValid
  least : ∃ v, s.bound = some v ∧ IsLeast (bounds l) v

section Least

variable [LinearOrder V]

theorem Seeded.bound_eq (h : Seeded l s) (h' : Seeded l s') : s.bound = s'.bound := by
  obtain ⟨v, hv, hleast⟩ := h.least
  obtain ⟨v', hv', hleast'⟩ := h'.least
  rw [hv, hv', hleast.unique hleast']

theorem Seeded.exists_bound (h : Seeded l s) : ∃ x ∈ l, x.bound.isSome := by
  obtain ⟨v, -, ⟨x, hx, hv⟩, -⟩ := h.least
  exact ⟨x, hx, by rw [hv]; rfl⟩

theorem Unseeded.merge (ha : Unseeded l a) (hb : Unseeded l' b) (hca : a.CountsLe)
    (hcb : b.CountsLe) : Unseeded (l ++ l') (a.merge b) := by
  rw [merge_of_not_anyValid hb.anyValid]
  refine ⟨List.forall_mem_append.2 ⟨ha.anyValid_mem, hb.anyValid_mem⟩, ha.valid, ha.unknown, ?_⟩
  by_cases hc : a.counts = none ∨ b.counts = none
  · rw [addTo_anyValid_of_none hc, ha.valid]
  · obtain ⟨hsa, hsb⟩ := not_or.1 hc
    rw [hca.addTo_anyValid hcb (Option.ne_none_iff_isSome.1 hsa) (Option.ne_none_iff_isSome.1 hsb),
      ha.anyValid, hb.anyValid]
    rfl

theorem Unseeded.merge_seeded (ha : Unseeded l a) (hb : Seeded l' b) (hl : ∀ x ∈ l, x.Sound)
    (hc : a.counts = none ∨ b.counts = none) : Seeded (l ++ l') (a.merge b) := by
  have hany : (a.addTo b).anyValid = false := by rw [addTo_anyValid_of_none hc, ha.valid]
  rw [merge_seed hb.anyValid hany ha.unknown]
  refine ⟨rfl, anyValid_of_counts_none (addCounts_eq_none.2 hc), ?_⟩
  rw [bounds_append, bounds_eq_empty hl ha.anyValid_mem, Set.empty_union]
  exact hb.least

theorem Seeded.merge_unseeded (ha : Seeded l a) (hb : Unseeded l' b) (hl : ∀ x ∈ l', x.Sound)
    (hca : a.CountsLe) (hcb : b.CountsLe) : Seeded (l ++ l') (a.merge b) := by
  rw [merge_of_not_anyValid hb.anyValid]
  refine ⟨ha.valid, addTo_anyValid_of_valid hca hcb ha.valid (.inl ha.anyValid), ?_⟩
  rw [bounds_append, bounds_eq_empty hl hb.anyValid_mem, Set.union_empty]
  exact ha.least

theorem Seeded.merge (ha : Seeded l a) (hb : Seeded l' b) (hca : a.CountsLe) (hcb : b.CountsLe) :
    Seeded (l ++ l') (a.merge b) := by
  have hany := addTo_anyValid_of_valid hca hcb ha.valid (.inl ha.anyValid)
  rw [merge_of_anyValid hb.anyValid hany]
  refine ⟨ha.valid, hany, ?_⟩
  obtain ⟨v, hv, hleast⟩ := ha.least
  obtain ⟨w, hw, hleast'⟩ := hb.least
  refine ⟨min v w, by rw [hv, hw]; rfl, ?_⟩
  rw [bounds_append]
  exact hleast.union hleast'

theorem unseeded_or_seeded (h : Reduces merge l s) (hl : ∀ x ∈ l, x.Sound)
    (hu : ∀ x ∈ l, x.canHold → x.anyValid) (hb : ∀ x ∈ l, x.anyValid → x.bound.isSome)
    (ha : SeedsAlike l) : Unseeded l s ∨ Seeded l s := by
  induction h with
  | single x =>
    have hx := List.mem_singleton_self x
    cases hv : x.anyValid with
    | true =>
      obtain ⟨v, hv'⟩ := Option.isSome_iff_exists.1 (hb x hx hv)
      refine .inr ⟨valid_of_anyValid (hl x hx) hv, hv, v, hv', ?_⟩
      simp [bounds, hv']
    | false =>
      have hvalid : x.valid = false := by
        by_cases hc : x.counts = none
        · rwa [anyValid_of_counts_none hc] at hv
        · exact (ha x hx ⟨Option.ne_none_iff_isSome.1 hc, hv⟩).1
      have hunknown : x.unknown = false := by
        by_contra hne
        rw [Bool.not_eq_false] at hne
        have := hu x hx (by simp [canHold, (hl x hx).counts_of_unknown hne, hne])
        rw [hv] at this
        cases this
      exact .inl ⟨by simpa using hv, hvalid, hunknown, hv⟩
  | @merge l r a b hla hrb ihl ihr =>
    have hsl := List.subset_append_left l r
    have hsr := List.subset_append_right l r
    have hca := countsLe_of_reduces hla fun x hx => (hl x (hsl hx)).countsLe
    have hcb := countsLe_of_reduces hrb fun x hx => (hl x (hsr hx)).countsLe
    replace ihl := ihl (fun x hx => hl x (hsl hx)) (fun x hx => hu x (hsl hx))
      (fun x hx => hb x (hsl hx)) (ha.mono hsl)
    replace ihr := ihr (fun x hx => hl x (hsr hx)) (fun x hx => hu x (hsr hx))
      (fun x hx => hb x (hsr hx)) (ha.mono hsr)
    obtain hua | hsa := ihl
    · obtain hub | hsb := ihr
      · exact .inl (hua.merge hub hca hcb)
      · -- a counted accumulator would meet a counted group with values
        refine .inr (hua.merge_seeded hsb (fun x hx => hl x (hsl hx)) ?_)
        by_contra hc
        obtain ⟨hsa, hsb'⟩ := not_or.1 hc
        obtain ⟨z, hz⟩ := List.exists_mem_of_ne_nil l hla.ne_nil
        obtain ⟨x, hx, hbound⟩ := hsb.exists_bound
        have hcz := (counts_isSome_iff hla).1 (Option.ne_none_iff_isSome.1 hsa) z hz
        have hcx := (counts_isSome_iff hrb).1 (Option.ne_none_iff_isSome.1 hsb') x hx
        have hno := (ha z (hsl hz) ⟨hcz, hua.anyValid_mem z hz⟩).2 x (hsr hx) hcx
        rw [(hl x (hsr hx)).anyValid_of_bound hbound] at hno
        cases hno
    · obtain hub | hsb := ihr
      · exact .inr (hsa.merge_unseeded hub (fun x hx => hl x (hsr hx)) hca hcb)
      · exact .inr (hsa.merge hsb hca hcb)
  | perm h hp ih =>
    have hsub := hp.subset
    obtain ih | ih := ih (fun x hx => hl x (hsub hx)) (fun x hx => hu x (hsub hx))
      (fun x hx => hb x (hsub hx)) (ha.mono hsub)
    · exact .inl { ih with anyValid_mem := fun x hx => ih.anyValid_mem x (hp.mem_iff.2 hx) }
    · exact .inr { ih with least := bounds_perm hp ▸ ih.least }

end Least

/-! ### Orders that lose or invent a bound -/

section Orders

variable [Min V]

/-- What follows an invalidated group is not seen. -/
theorem exists_bound_of_unknown (hl : ∀ x ∈ l, x.Sound) (hx : x ∈ l) (hbound : x.bound.isSome)
    (hy : y ∈ l) (hcan : y.canHold) (hany : y.anyValid = false) :
    ∃ s, Reduces merge l s ∧ s.bound.isSome := by
  have hcounts : y.counts = none := by
    cases hc : y.counts with
    | none => rfl
    | some c =>
      simp only [canHold, anyValid, hc] at hcan hany
      rw [hany] at hcan
      cases hcan
  have hvalid : y.valid = false := by rwa [anyValid_of_counts_none hcounts] at hany
  obtain ⟨rest, hp⟩ := exists_perm_cons_cons hx hy fun h => by
    rw [← h, (hl x hx).anyValid_of_bound hbound] at hany
    cases hany
  have hinert : (rest.foldl merge y).anyValid = false := by
    have := List.foldlRecOn rest merge
      (motive := fun s => s.counts = none ∧ s.valid = false ∧ s.unknown = true)
      ⟨hcounts, hvalid, by simpa [canHold, hcounts, hvalid] using hcan⟩
      (fun s ⟨hc, hv, hu⟩ b _ => by
        have hadd : (s.addTo b).anyValid = false := by rw [addTo_anyValid_of_none (.inl hc), hv]
        have hmerge : s.merge b = s.addTo b := by
          cases hb : b.anyValid with
          | false => exact merge_of_not_anyValid hb
          | true => exact merge_of_unknown hb hadd hu
        rw [hmerge]
        exact ⟨addCounts_eq_none.2 (.inl hc), hv, hu⟩)
    rw [anyValid_of_counts_none this.1, this.2.1]
  refine ⟨_, (Reduces.merge (.single x) (reduces_foldl y rest)).perm hp.symm, ?_⟩
  rw [merge_of_not_anyValid hinert]
  exact hbound

/-- Values that come after a counted group without values, which says that there are some. -/
theorem exists_lacks_of_void (hl : ∀ x ∈ l, x.Sound) (hz : z ∈ l) (hvoid : z.IsVoid)
    (hvalid : z.valid) (hx : x ∈ l) (hany : x.anyValid) : ∃ s, Reduces merge l s ∧ s.Lacks := by
  obtain ⟨rest, hp⟩ := exists_perm_cons_cons hz hx fun h => by
    rw [← h, hvoid.2] at hany
    cases hany
  have hcz := (hl z hz).countsLe
  have hcx := (hl x hx).countsLe
  have hadd := addTo_anyValid_of_valid hcz hcx hvalid (.inr hany)
  have hfirst : (z.merge x).Lacks := by
    rw [merge_of_anyValid hany hadd, bound_of_not_anyValid (hl z hz) hvoid.2]
    exact ⟨hadd, rfl⟩
  have := List.foldlRecOn rest merge
    (motive := fun s => s.Lacks ∧ s.valid ∧ s.CountsLe)
    ⟨hfirst, merge_valid hvalid, hcz.merge hcx⟩
    (fun s ⟨hs, hv, hc⟩ b hb => by
      have hcb := (hl b (hp.mem_iff.2 (by simp [hb]))).countsLe
      exact ⟨hs.merge_left (addTo_anyValid_of_valid hc hcb hv (.inl hs.1)), merge_valid hv,
        hc.merge hcb⟩)
  exact ⟨_, (reduces_foldl z (x :: rest)).perm hp.symm, this.1⟩

/-- A counted group without values takes a counted group's bound away, and then the others'. -/
theorem exists_lacks_of_counted (hl : ∀ x ∈ l, x.Sound) (hu : ∀ x ∈ l, x.unknown → x.valid)
    (hz : z ∈ l) (hvoid : z.IsVoid) (hx : x ∈ l) (hcx : x.counts.isSome) (hany : x.anyValid) :
    ∃ s, Reduces merge l s ∧ s.Lacks := by
  obtain ⟨rest, hp⟩ := exists_perm_cons_cons hz hx fun h => by
    rw [← h, hvoid.2] at hany
    cases hany
  have hadd : (z.addTo x).anyValid := by
    rw [(hl z hz).countsLe.addTo_anyValid (hl x hx).countsLe hvoid.1 hcx, hany, Bool.or_true]
  have hlost : (z.merge x).Lacks := by
    rw [merge_of_anyValid hany hadd, bound_of_not_anyValid (hl z hz) hvoid.2]
    exact ⟨hadd, rfl⟩
  have hpair : Reduces merge [z, x] (z.merge x) := reduces_foldl z [x]
  cases rest with
  | nil => exact ⟨_, hpair.perm hp.symm, hlost⟩
  | cons y ys =>
    have hmem : ∀ w ∈ y :: ys, w ∈ l := fun w hw =>
      hp.mem_iff.2 (List.mem_cons_of_mem _ (List.mem_cons_of_mem _ hw))
    have hrest : Reduces merge (y :: ys) (ys.foldl merge y) := reduces_foldl y ys
    have hcr := countsLe_of_reduces hrest fun w hw => (hl w (hmem w hw)).countsLe
    have hunknown := (lacks_of_uncounted hrest fun w hw => hu w (hmem w hw)).1
    refine ⟨_, (hrest.merge hpair).perm (List.perm_append_comm.trans hp.symm),
      hlost.merge_right ?_⟩
    by_cases hc : (ys.foldl merge y).counts = none
    · cases hv : (ys.foldl merge y).valid with
      | true => exact .inl (by rw [addTo_anyValid_of_none (.inl hc), hv])
      | false =>
        refine .inr ⟨?_, .inl hc⟩
        by_contra hne
        rw [hunknown (by simpa using hne)] at hv
        cases hv
    · left
      rw [hcr.addTo_anyValid ((hl z hz).countsLe.merge (hl x hx).countsLe)
        (Option.ne_none_iff_isSome.1 hc)
        (by rw [merge_counts, addCounts_isSome]; exact ⟨hvoid.1, hcx⟩)]
      simp [hlost.1]

theorem merge_valid_of_counts (ha : a.CountsLe) (hb : b.CountsLe) (hca : a.counts.isSome)
    (hcb : b.counts.isSome) : (a.merge b).valid = a.valid := by
  cases hany : b.anyValid with
  | false =>
    rw [merge_of_not_anyValid hany]
    rfl
  | true =>
    rw [merge_of_anyValid hany (by rw [ha.addTo_anyValid hb hca hcb, hany, Bool.or_true])]
    rfl

/-- Counted groups first and then the ones without values leave an accumulator without a value. -/
theorem foldl_merge_unseeded (counted empty : List (PartialBound V)) (hz : z.CountsLe)
    (hcz : z.counts.isSome) (hvalid : z.valid = false) (hunknown : z.unknown = false)
    (hc : ∀ x ∈ counted, x.CountsLe ∧ x.counts.isSome) (he : ∀ x ∈ empty, x.anyValid = false) :
    ((counted ++ empty).foldl merge z).valid = false ∧
      ((counted ++ empty).foldl merge z).unknown = false := by
  rw [List.foldl_append]
  have hfirst := List.foldlRecOn counted merge
    (motive := fun s => s.CountsLe ∧ s.counts.isSome ∧ s.valid = false ∧ s.unknown = false)
    ⟨hz, hcz, hvalid, hunknown⟩
    (fun s ⟨hs, hcs, hv, hu⟩ b hb => by
      obtain ⟨hb, hcb⟩ := hc b hb
      refine ⟨hs.merge hb, ?_, ?_, ?_⟩
      · rw [merge_counts, addCounts_isSome]
        exact ⟨hcs, hcb⟩
      · rw [merge_valid_of_counts hs hb hcs hcb, hv]
      · rw [merge_unknown, hu])
  exact List.foldlRecOn empty merge (motive := fun s => s.valid = false ∧ s.unknown = false)
    hfirst.2.2
    (fun s ⟨hv, hu⟩ b hb => by
      rw [merge_of_not_anyValid (he b hb)]
      exact ⟨hv, hu⟩)

/-- Groups that are not counted, with values and bounds, seed an accumulator without a value. -/
theorem foldl_merge_seeded (w : PartialBound V) (ws : List (PartialBound V))
    (hvalid : a.valid = false) (hunknown : a.unknown = false)
    (hw : ∀ x ∈ w :: ws, x.counts = none ∧ x.anyValid ∧ x.bound.isSome) :
    ((w :: ws).foldl merge a).bound.isSome := by
  obtain ⟨hcw, hanyw, hboundw⟩ := hw w List.mem_cons_self
  have hadd : (a.addTo w).anyValid = false := by rw [addTo_anyValid_of_none (.inr hcw), hvalid]
  have hseed : (a.merge w).valid ∧ (a.merge w).bound.isSome := by
    rw [merge_seed hanyw hadd hunknown]
    exact ⟨rfl, hboundw⟩
  rw [List.foldl_cons]
  exact (List.foldlRecOn ws merge (motive := fun s => s.valid ∧ s.bound.isSome) hseed
    (fun s ⟨hv, hb⟩ b hb' => by
      obtain ⟨hc, hany, hbound⟩ := hw b (List.mem_cons_of_mem _ hb')
      have hadd : (s.addTo b).anyValid := by rw [addTo_anyValid_of_none (.inr hc), hv]
      obtain ⟨v, hv'⟩ := Option.isSome_iff_exists.1 hb
      obtain ⟨v', hv''⟩ := Option.isSome_iff_exists.1 hbound
      refine ⟨merge_valid hv, ?_⟩
      rw [merge_of_anyValid hany hadd, hv', hv'']
      rfl)).2

/-- A counted group without values hides the counted ones that lack a bound. -/
theorem exists_bound_of_void (hl : ∀ x ∈ l, x.Sound) (hz : z ∈ l) (hvoid : z.IsVoid)
    (hvalid : z.valid = false) (hx : x ∈ l) (hbound : x.bound.isSome)
    (hy : y ∈ l) (hcy : y.counts = none)
    (hall : ∀ w ∈ l, w.counts = none → w.anyValid → w.bound.isSome) :
    ∃ s, Reduces merge l s ∧ s.bound.isSome := by
  have hanyx := (hl x hx).anyValid_of_bound hbound
  have hunknown : z.unknown = false := by
    by_contra hne
    have hnone := (hl z hz).counts_of_unknown (by simpa using hne)
    simp [IsVoid, hnone] at hvoid
  obtain ⟨rest, hp⟩ := exists_perm_cons hz
  have hmem : ∀ w ∈ rest, w ∈ l := fun w hw => hp.mem_iff.2 (List.mem_cons_of_mem _ hw)
  have hmem_rest : ∀ {w}, w ∈ l → w ≠ z → w ∈ rest := fun hw hne =>
    (List.mem_cons.1 (hp.mem_iff.1 hw)).resolve_left hne
  have hsplit := List.filter_append_perm (fun w : PartialBound V => w.counts.isSome) rest
  have hcounted : ∀ w ∈ rest.filter (·.counts.isSome), w.CountsLe ∧ w.counts.isSome :=
    fun w hw => ⟨(hl w (hmem w (List.mem_filter.1 hw).1)).countsLe, (List.mem_filter.1 hw).2⟩
  by_cases hw : ∃ w ∈ l, w.counts = none ∧ w.anyValid
  · -- the groups that are not counted come last and seed the bound
    obtain ⟨w, hwl, hcw, hanyw⟩ := hw
    have hsplit' := List.filter_append_perm (fun w : PartialBound V => !w.anyValid)
      (rest.filter (fun w => !w.counts.isSome))
    have hne : w ∈ (rest.filter (fun w => !w.counts.isSome)).filter (fun w => !!w.anyValid) := by
      have hwz : w ≠ z := fun h => by rw [h, hvoid.2] at hanyw; cases hanyw
      simp [hmem_rest hwl hwz, hcw, hanyw]
    obtain ⟨w', ws, hws⟩ := List.exists_cons_of_ne_nil (List.ne_nil_of_mem hne)
    obtain ⟨hv, hu⟩ := foldl_merge_unseeded (rest.filter (·.counts.isSome))
      ((rest.filter (fun w => !w.counts.isSome)).filter (fun w => !w.anyValid))
      (hl z hz).countsLe hvoid.1 hvalid hunknown hcounted
      (fun x hx => by simpa using (List.mem_filter.1 hx).2)
    have hseeded := foldl_merge_seeded w' ws hv hu (by
      rw [← hws]
      intro x hx
      simp only [List.mem_filter, Bool.not_not, Bool.not_eq_true', Option.isSome_eq_false_iff,
        Option.isNone_iff_eq_none] at hx
      exact ⟨hx.1.2, hx.2, hall x (hmem x hx.1.1) hx.1.2 hx.2⟩)
    rw [← hws, ← List.foldl_append, List.append_assoc] at hseeded
    refine ⟨_, (reduces_foldl z _).perm ?_, hseeded⟩
    exact (((hsplit'.append_left _).trans hsplit).cons z).trans hp.symm
  · -- the accumulator that hides them is merged into one with a bound
    have hnone : ∀ w ∈ l, w.counts = none → w.anyValid = false := fun w hwl hcw => by
      by_contra hne
      exact hw ⟨w, hwl, hcw, by simpa using hne⟩
    have hcx : x.counts.isSome := by
      by_contra hc
      rw [hnone x hx (by simpa using hc)] at hanyx
      cases hanyx
    have hxz : x ≠ z := fun h => by rw [h, hvoid.2] at hanyx; cases hanyx
    obtain ⟨counted, hpc⟩ := exists_perm_cons
      (List.mem_filter.2 ⟨hmem_rest hx hxz, hcx⟩ : x ∈ rest.filter (·.counts.isSome))
    obtain ⟨hv, -⟩ := foldl_merge_unseeded counted (rest.filter (fun w => !w.counts.isSome))
      (hl z hz).countsLe hvoid.1 hvalid hunknown
      (fun w hw => hcounted w (hpc.mem_iff.2 (List.mem_cons_of_mem _ hw)))
      (fun w hw => hnone w (hmem w (List.mem_filter.1 hw).1) (by
        simpa using (List.mem_filter.1 hw).2))
    have hreduces : Reduces merge _ _ := reduces_foldl z
      (counted ++ rest.filter (fun w => !w.counts.isSome))
    have hyz : y ≠ z := fun h => by
      have hsome := hvoid.1
      rw [← h, hcy] at hsome
      cases hsome
    have hcounts : ((counted ++ rest.filter (fun w => !w.counts.isSome)).foldl merge z).counts =
        none := by
      by_contra hc
      have hall' := (counts_isSome_iff hreduces).1 (Option.ne_none_iff_isSome.1 hc) y (by
        simp [hmem_rest hy hyz, hcy])
      rw [hcy] at hall'
      cases hall'
    refine ⟨_, (Reduces.merge (.single x) hreduces).perm ?_, ?_⟩
    · refine .trans ?_ hp.symm
      refine (List.Perm.swap z x _).trans (.cons z ?_)
      rw [← List.cons_append]
      exact (hpc.symm.append_right _).trans hsplit
    · rw [merge_of_not_anyValid (by rw [anyValid_of_counts_none hcounts, hv])]
      exact hbound

end Orders

/-! ### The summaries whose order does not matter -/

/-- Every order and grouping has the same bound, which is there if all groups are covered. -/
def OrderFree [Min V] (l : List (PartialBound V)) : Prop :=
  ∀ s, Reduces merge l s →
    (s.bound.isSome ↔ Covered l) ∧ ∀ s', Reduces merge l s' → s.bound = s'.bound

/-- Where a bound is missing, no order may seed one from the other groups. -/
def StaysMissing (l : List (PartialBound V)) : Prop :=
  (∀ z ∈ l, z.IsVoid → z.valid) ∨ (∀ x ∈ l, x.counts.isSome) ∨ ∃ x ∈ l, x.Lacks ∧ x.counts = none

def Regular (l : List (PartialBound V)) : Prop :=
  (∀ x ∈ l, x.bound = none) ∨
  (∀ x ∈ l, x.canHold → x.anyValid) ∧
    ((∀ x ∈ l, x.anyValid → x.bound.isSome) ∧ SeedsAlike l ∨
      (∃ x ∈ l, x.Lacks) ∧ StaysMissing l)

theorem canHold_of_anyValid (h : s.anyValid) : s.canHold := by
  cases hc : s.counts with
  | some c => simpa [canHold, anyValid, hc] using h
  | none => simp [canHold, anyValid_of_counts_none hc ▸ h, hc]

theorem valid_of_unknown (hl : x.Sound) (hu : x.canHold → x.anyValid) (h : x.unknown) :
    x.valid := by
  refine valid_of_anyValid hl (hu ?_)
  simp [canHold, hl.counts_of_unknown h, h]

theorem not_covered_of_lacks (hx : x ∈ l) (h : x.Lacks) : ¬Covered l := by
  intro hc
  have := hc.2 x hx (canHold_of_anyValid h.1)
  rw [h.2] at this
  cases this

theorem exists_anyValid_of_bound (hl : ∀ x ∈ l, x.Sound) (h : ¬∀ x ∈ l, x.bound = none) :
    ∃ x ∈ l, x.anyValid ∧ x.bound.isSome := by
  push Not at h
  obtain ⟨x, hx, hb⟩ := h
  have hb := Option.ne_none_iff_isSome.1 hb
  exact ⟨x, hx, (hl x hx).anyValid_of_bound hb, hb⟩

section Main

variable [LinearOrder V]

theorem lacks_of_staysMissing (h : Reduces merge l s) (hl : ∀ x ∈ l, x.Sound)
    (hu : ∀ x ∈ l, x.canHold → x.anyValid) (hlacks : ∃ x ∈ l, x.Lacks) (hstays : StaysMissing l) :
    s.Lacks := by
  obtain hvoid | hcounts | huncounted := hstays
  · refine (lacks_of_waiting h hl fun x hx => ?_).2 hlacks
    by_cases hv : x.valid
    · exact .inl hv
    · rw [Bool.not_eq_true] at hv
      refine .inr ⟨?_, ?_⟩
      · by_contra hne
        rw [valid_of_unknown (hl x hx) (hu x hx) (by simpa using hne)] at hv
        cases hv
      · by_contra hc
        rw [hvoid x hx ⟨Option.ne_none_iff_isSome.1 hc, (hl x hx).not_valid hv⟩] at hv
        cases hv
  · exact lacks_of_counts h hl hcounts hlacks
  · exact ((lacks_of_uncounted h fun x hx => valid_of_unknown (hl x hx) (hu x hx)).2 huncounted).1

theorem Regular.orderFree (hl : ∀ x ∈ l, x.Sound) (h : Regular l) : OrderFree l := by
  by_cases hnone : ∀ x ∈ l, x.bound = none
  · intro s hs
    have hb := bound_eq_none hs hnone
    refine ⟨?_, fun s' hs' => by rw [hb, bound_eq_none hs' hnone]⟩
    rw [hb]
    refine ⟨fun h => (nomatch h), ?_⟩
    rintro ⟨⟨x, hx, hcan⟩, hall⟩
    have := hall x hx hcan
    rwa [hnone x hx] at this
  obtain ⟨x, hx, hanyx, hboundx⟩ := exists_anyValid_of_bound hl hnone
  obtain ⟨hu, ⟨hb, halike⟩ | ⟨hlacks, hstays⟩⟩ := h.resolve_left hnone
  · have hseeded : ∀ s, Reduces merge l s → Seeded l s := fun s hs => by
      refine (unseeded_or_seeded hs hl hu hb halike).resolve_left fun hun => ?_
      rw [hun.anyValid_mem x hx] at hanyx
      cases hanyx
    intro s hs
    refine ⟨?_, fun s' hs' => (hseeded s hs).bound_eq (hseeded s' hs')⟩
    obtain ⟨v, hv, -⟩ := (hseeded s hs).least
    rw [hv]
    exact ⟨fun _ => ⟨⟨x, hx, canHold_of_anyValid hanyx⟩, fun y hy hcan => hb y hy (hu y hy hcan)⟩,
      fun _ => rfl⟩
  · have hnone : ∀ s, Reduces merge l s → s.bound = none := fun s hs =>
      (lacks_of_staysMissing hs hl hu hlacks hstays).2
    obtain ⟨y, hy, hylacks⟩ := hlacks
    intro s hs
    refine ⟨?_, fun s' hs' => by rw [hnone s hs, hnone s' hs']⟩
    rw [hnone s hs]
    exact ⟨fun h => (nomatch h), fun h => absurd h (not_covered_of_lacks hy hylacks)⟩

theorem OrderFree.regular (hl : ∀ x ∈ l, x.Sound) (h : OrderFree l) : Regular l := by
  refine or_iff_not_imp_left.2 fun hnone => ?_
  obtain ⟨x, hx, hanyx, hboundx⟩ := exists_anyValid_of_bound hl hnone
  have hu : ∀ y ∈ l, y.canHold → y.anyValid := by
    intro y hy hcan
    by_contra hne
    rw [Bool.not_eq_true] at hne
    obtain ⟨s, hs, hb⟩ := exists_bound_of_unknown hl hx hboundx hy hcan hne
    have := ((h s hs).1.1 hb).2 y hy hcan
    rw [bound_of_not_anyValid (hl y hy) hne] at this
    cases this
  refine ⟨hu, ?_⟩
  by_cases hb : ∀ y ∈ l, y.anyValid → y.bound.isSome
  · left
    have hcovered : Covered l :=
      ⟨⟨x, hx, canHold_of_anyValid hanyx⟩, fun y hy hcan => hb y hy (hu y hy hcan)⟩
    have hno : ¬∃ s, Reduces merge l s ∧ s.Lacks := by
      rintro ⟨s, hs, hlacks⟩
      have := (h s hs).1.2 hcovered
      rw [hlacks.2] at this
      cases this
    refine ⟨hb, fun z hz hvoid => ⟨?_, fun y hy hcy => ?_⟩⟩
    · by_contra hv
      exact hno (exists_lacks_of_void hl hz hvoid (by simpa using hv) hx hanyx)
    · by_contra hany
      exact hno (exists_lacks_of_counted hl (fun w hw => valid_of_unknown (hl w hw) (hu w hw)) hz
        hvoid hy hcy (by simpa using hany))
  · right
    push Not at hb
    obtain ⟨y, hy, hany, hnoty⟩ := hb
    have hlacks : y.Lacks := ⟨hany, by simpa using hnoty⟩
    refine ⟨⟨y, hy, hlacks⟩, ?_⟩
    by_contra hstays
    simp only [StaysMissing, not_or, not_forall, not_exists, not_and] at hstays
    obtain ⟨⟨z, hz, hvoid, hvalid⟩, ⟨w, hw, hcw⟩, hall⟩ := hstays
    obtain ⟨s, hs, hbound⟩ := exists_bound_of_void hl hz hvoid (by simpa using hvalid) hx hboundx
      hw (by simpa using hcw) (fun w hw hc hany => by
        by_contra hne
        exact hall w hw ⟨hany, by simpa using hne⟩ hc)
    exact not_covered_of_lacks hy hlacks ((h s hs).1.1 hbound)

theorem orderFree_iff (hl : ∀ x ∈ l, x.Sound) : OrderFree l ↔ Regular l :=
  ⟨fun h => h.regular hl, fun h => h.orderFree hl⟩

end Main

end PartialBound

end DuckLake
