import Mathlib.Data.List.Sort

/-!
# A cursor over sorted entries

Positions are walked one by one while a cursor moves over entries that are sorted by their
positions. The cursor compares for equality only, so it never gets past an entry that repeats the
position of the one before.
-/

namespace DuckLake

variable {ε : Type} (position : ε → Nat) (drops : ε → Bool)

/-- The offsets that are kept of `n` positions from `p` on, where `p` has the offset `i` and the
cursor is at the head of the entries. -/
def cursorKeeps : (n p i : Nat) → List ε → List Nat
  | 0, _, _, _ => []
  | n + 1, p, i, [] => i :: cursorKeeps n (p + 1) (i + 1) []
  | n + 1, p, i, e :: es =>
    if p = position e then
      if drops e then cursorKeeps n (p + 1) (i + 1) es else i :: cursorKeeps n (p + 1) (i + 1) es
    else i :: cursorKeeps n (p + 1) (i + 1) (e :: es)

/-- The entries up to the first one whose position is repeated. -/
def beforeRepeat : List ε → List ε
  | [] => []
  | [e] => [e]
  | e :: e' :: es => if position e' ≤ position e then [e] else e :: beforeRepeat (e' :: es)

/-- A cursor that has been passed drops nothing. -/
theorem cursorKeeps_of_passed {n p i : Nat} {es : List ε} (h : ∀ e ∈ es.head?, position e < p) :
    cursorKeeps position drops n p i es = (List.range n).map (i + ·) := by
  induction n generalizing p i with
  | zero => cases es <;> rfl
  | succ n ih =>
    have hstep : cursorKeeps position drops (n + 1) p i es =
        i :: cursorKeeps position drops n (p + 1) (i + 1) es := by
      cases es with
      | nil => rfl
      | cons e es =>
        have hne : p ≠ position e := (h e rfl).ne'
        rw [cursorKeeps, if_neg hne]
    rw [hstep, ih fun e he => (h e he).trans (Nat.lt_succ_self p), List.range_succ_eq_map]
    simp [Nat.add_assoc, Nat.add_comm 1]

theorem le_of_mem_beforeRepeat {e : ε} {es : List ε} :
    ∀ a ∈ beforeRepeat position (e :: es), position e ≤ position a := by
  induction es generalizing e with
  | nil => simp [beforeRepeat]
  | cons e' es ih =>
    rw [beforeRepeat]
    split
    · simp
    next hlt =>
      refine List.forall_mem_cons.2 ⟨le_rfl, fun a ha => ?_⟩
      exact (Nat.lt_of_not_le hlt).le.trans (ih a ha)

theorem any_beforeRepeat_of_lt {e : ε} {es : List ε} {q : Nat} (h : q < position e) :
    ((beforeRepeat position (e :: es)).any fun a => position a = q && drops a) = false := by
  refine List.any_eq_false.2 fun a ha => ?_
  have hne : position a ≠ q := (h.trans_le (le_of_mem_beforeRepeat position a ha)).ne'
  simp [hne]

theorem any_beforeRepeat_self {e : ε} {es : List ε} {q : Nat} (h : position e = q) :
    ((beforeRepeat position (e :: es)).any fun a => position a = q && drops a) = drops e := by
  cases es with
  | nil => simp [beforeRepeat, h]
  | cons e' es =>
    rw [beforeRepeat]
    split
    · simp [h]
    next hlt =>
      rw [List.any_cons, any_beforeRepeat_of_lt position drops (h ▸ Nat.lt_of_not_le hlt)]
      simp [h]

/-- What the cursor drops is what the entries before a repeated position say. -/
theorem cursorKeeps_eq {n p i : Nat} {es : List ε} (h : ∀ e ∈ es.head?, p ≤ position e) :
    cursorKeeps position drops n p i es = ((List.range n).filter fun k =>
      !(beforeRepeat position es).any fun e => position e = p + k && drops e).map (i + ·) := by
  induction n generalizing p i es with
  | zero => cases es <;> rfl
  | succ n ih =>
    cases es with
    | nil =>
      rw [cursorKeeps_of_passed position drops (by simp)]
      simp [beforeRepeat]
    | cons e es =>
      have hp : p ≤ position e := h e rfl
      have hshift : ∀ (q : Nat → Bool), ((List.range (n + 1)).filter q).map (i + ·) =
          (if q 0 then [i] else []) ++
            ((List.range n).filter fun k => q (k + 1)).map (i + 1 + ·) := by
        intro q
        rw [List.range_succ_eq_map, List.filter_cons, List.filter_map]
        split <;> simp [Function.comp_def, Nat.add_assoc, Nat.add_comm 1]
      rw [hshift, cursorKeeps]
      split
      next heq =>
        have hrest : cursorKeeps position drops n (p + 1) (i + 1) es =
            ((List.range n).filter fun k => !(beforeRepeat position (e :: es)).any fun a =>
              position a = p + (k + 1) && drops a).map (i + 1 + ·) := by
          cases es with
          | nil =>
            rw [cursorKeeps_of_passed position drops (by simp)]
            simp [beforeRepeat, ← heq]
          | cons e' es =>
            rw [beforeRepeat]
            split
            next hle =>
              -- the position is repeated and the cursor is stuck
              rw [cursorKeeps_of_passed position drops (by simp; omega)]
              simp [← heq]
            next hlt =>
              rw [ih (by simp; omega)]
              simp [← heq, Nat.add_assoc, Nat.add_comm 1]
        rw [hrest, any_beforeRepeat_self position drops (by simp [heq])]
        cases drops e <;> rfl
      next hne =>
        rw [any_beforeRepeat_of_lt position drops (show p + 0 < position e by omega),
          ih (by simp; omega)]
        simp [Nat.add_assoc, Nat.add_comm 1]

/-- Over sorted entries a position is dropped when its first entry says so and no earlier position
is repeated. -/
theorem any_beforeRepeat {es : List ε} (h : es.Pairwise fun a b => position a ≤ position b)
    (q : Nat) :
    (beforeRepeat position es).any (fun e => position e = q && drops e) = true ↔
      (∀ p < q, (es.map position).count p ≤ 1) ∧
        (es.find? (position · = q)).any drops = true := by
  induction es with
  | nil => simp [beforeRepeat]
  | cons e es ih =>
    obtain ⟨hle, htail⟩ := List.pairwise_cons.1 h
    have hcount : ∀ p < position e, (es.map position).count p = 0 := fun p hp =>
      List.count_eq_zero_of_not_mem fun hmem => by
        obtain ⟨a, ha, rfl⟩ := List.mem_map.1 hmem
        exact absurd (hle a ha) (Nat.not_le.2 hp)
    rcases Nat.lt_trichotomy q (position e) with hlt | heq | hgt
    · have hnone : (e :: es).find? (position · = q) = none :=
        List.find?_eq_none.2 fun a ha => by
          rcases List.mem_cons.1 ha with rfl | ha
          · simpa using hlt.ne'
          · simpa using (hlt.trans_le (hle a ha)).ne'
      simp [any_beforeRepeat_of_lt position drops hlt, hnone]
    · subst heq
      have hbelow : ∀ p < position e, ((e :: es).map position).count p ≤ 1 := fun p hp => by
        simp [hcount p hp, hp.ne']
      rw [any_beforeRepeat_self position drops rfl, List.find?_cons_of_pos (by simp)]
      exact ⟨fun hd => ⟨hbelow, hd⟩, And.right⟩
    · cases es with
      | nil => simp [beforeRepeat, hgt.ne]
      | cons e' es =>
        rw [beforeRepeat]
        split
        next hrepeat =>
          have heq : position e' = position e :=
            Nat.le_antisymm hrepeat (hle e' List.mem_cons_self)
          have htwice : ¬ ((e :: e' :: es).map position).count (position e) ≤ 1 := by
            simp [heq]
          refine iff_of_false (by simp [hgt.ne]) fun hall => htwice (hall.1 _ hgt)
        next hlt =>
          have hself : ((e' :: es).map position).count (position e) = 0 :=
            List.count_eq_zero_of_not_mem fun hmem => by
              obtain ⟨a, ha, hae⟩ := List.mem_map.1 hmem
              have hea : position e < position a := by
                rcases List.mem_cons.1 ha with rfl | ha
                · exact Nat.lt_of_not_le hlt
                · exact (Nat.lt_of_not_le hlt).trans_le ((List.pairwise_cons.1 htail).1 a ha)
              exact hea.ne' hae
          have hsame : ∀ p, ((e :: e' :: es).map position).count p ≤ 1 ↔
              ((e' :: es).map position).count p ≤ 1 := fun p => by
            rw [List.map_cons, List.count_cons]
            by_cases hpe : position e = p
            · subst hpe
              rw [hself]
              simp
            · simp [hpe]
          have hfind : (e :: e' :: es).find? (position · = q) =
              (e' :: es).find? (position · = q) := by
            rw [List.find?_cons_of_neg (by simpa using hgt.ne)]
          rw [List.any_cons, hfind]
          simp only [hsame, hgt.ne, decide_false, Bool.false_and, Bool.false_or]
          exact ih htail

/-- After a lower bound the entries before it do not matter. -/
theorem any_beforeRepeat_dropWhile {es : List ε}
    (h : es.Pairwise fun a b => position a ≤ position b) {start q : Nat} (hq : start ≤ q) :
    (beforeRepeat position (es.dropWhile (position · < start))).any
        (fun e => position e = q && drops e) = true ↔
      (∀ p < q, start ≤ p → (es.map position).count p ≤ 1) ∧
        (es.find? (position · = q)).any drops = true := by
  rw [any_beforeRepeat position drops (h.sublist (List.dropWhile_sublist _))]
  have hsplit := List.takeWhile_append_dropWhile (p := (position · < start)) (l := es)
  have hbefore : ∀ e ∈ es.takeWhile (position · < start), position e < start := fun e he => by
    simpa using List.all_eq_true.1 (List.all_takeWhile (p := (position · < start))) e he
  have hfrom : ∀ e ∈ es.dropWhile (position · < start), start ≤ position e := by
    intro e he
    cases hrest : es.dropWhile (position · < start) with
    | nil => rw [hrest] at he; cases he
    | cons e' rest =>
      have hhead := List.head?_dropWhile_not (position · < start) es
      simp only [hrest, List.head?_cons, decide_eq_false_iff_not, Nat.not_lt] at hhead
      have hsorted := h.sublist (List.dropWhile_sublist (position · < start))
      rw [hrest] at he hsorted
      rcases List.mem_cons.1 he with rfl | he
      · exact hhead
      · exact hhead.trans ((List.pairwise_cons.1 hsorted).1 e he)
  have hcount : ∀ p, ((es.dropWhile (position · < start)).map position).count p =
      if start ≤ p then (es.map position).count p else 0 := by
    intro p
    split
    next hp =>
      conv_rhs => rw [← hsplit, List.map_append, List.count_append]
      rw [List.count_eq_zero_of_not_mem (l := (es.takeWhile _).map position), Nat.zero_add]
      intro hmem
      obtain ⟨e, he, rfl⟩ := List.mem_map.1 hmem
      exact absurd (hbefore e he) (Nat.not_lt.2 hp)
    next hp =>
      refine List.count_eq_zero_of_not_mem fun hmem => hp ?_
      obtain ⟨e, he, rfl⟩ := List.mem_map.1 hmem
      exact hfrom e he
  have hfind : (es.dropWhile (position · < start)).find? (position · = q) =
      es.find? (position · = q) := by
    conv_rhs => rw [← hsplit, List.find?_append]
    have hnone : (es.takeWhile (position · < start)).find? (position · = q) = none :=
      List.find?_eq_none.2 fun e he => by simpa using ((hbefore e he).trans_le hq).ne
    rw [hnone, Option.none_or]
  rw [hfind]
  refine and_congr_left fun _ => forall₂_congr fun p _ => ?_
  rw [hcount]
  split
  next hp => simp [hp]
  next hp => simp [hp]

/-- When entries at equal positions agree, it does not matter which one is first. -/
theorem any_find? {es : List ε}
    (h : ∀ a ∈ es, ∀ b ∈ es, position a = position b → drops a = drops b) (q : Nat) :
    (es.find? (position · = q)).any drops = es.any fun e => position e = q && drops e := by
  rw [Bool.eq_iff_iff, Option.any_eq_true, List.any_eq_true]
  constructor
  · rintro ⟨e, hfind, hdrops⟩
    have hpos : position e = q := by simpa using List.find?_some hfind
    exact ⟨e, List.mem_of_find?_eq_some hfind, by simp [hpos, hdrops]⟩
  · rintro ⟨e, he, hboth⟩
    obtain ⟨hpos, hdrops⟩ : position e = q ∧ drops e = true := by simpa using hboth
    cases hfind : es.find? (position · = q) with
    | none => exact absurd hpos (by simpa using List.find?_eq_none.1 hfind e he)
    | some a =>
      have ha : position a = q := by simpa using List.find?_some hfind
      exact ⟨a, rfl, (h a (List.mem_of_find?_eq_some hfind) e he (ha.trans hpos.symm)).trans hdrops⟩

/-! ## Merging sorted entries -/

/-- A merge is sorted for every relation that the comparison decides. -/
theorem pairwise_merge {r : ε → ε → Prop} {le : ε → ε → Bool}
    (htrans : ∀ a b c, r a b → r b c → r a c) (hle : ∀ a b, le a b = true → r a b)
    (hgt : ∀ a b, le a b = false → r b a) :
    ∀ {xs ys : List ε}, xs.Pairwise r → ys.Pairwise r → (xs.merge ys le).Pairwise r
  | [], ys, _, hys => by simpa using hys
  | x :: xs, [], hxs, _ => by simpa using hxs
  | x :: xs, y :: ys, hxs, hys => by
    obtain ⟨hx, hxs'⟩ := List.pairwise_cons.1 hxs
    obtain ⟨hy, hys'⟩ := List.pairwise_cons.1 hys
    rw [List.cons_merge_cons]
    split
    next hxy =>
      refine List.pairwise_cons.2 ⟨fun a ha => ?_, pairwise_merge htrans hle hgt hxs' hys⟩
      rcases List.mem_merge.1 ha with ha | ha
      · exact hx a ha
      · rcases List.mem_cons.1 ha with rfl | ha
        · exact hle x a hxy
        · exact htrans _ _ _ (hle x y hxy) (hy a ha)
    next hxy =>
      have hyx := hgt x y (by simpa using hxy)
      refine List.pairwise_cons.2 ⟨fun a ha => ?_, pairwise_merge htrans hle hgt hxs hys'⟩
      rcases List.mem_merge.1 ha with ha | ha
      · rcases List.mem_cons.1 ha with rfl | ha
        · exact hyx
        · exact htrans _ _ _ hyx (hx a ha)
      · exact hy a ha

/-- When entries of the second list go first at equal positions, the merge has the first entry of a
position from there. -/
theorem find?_merge {xs ys : List ε} (hys : ys.Pairwise fun a b => position a ≤ position b)
    (q : Nat) :
    (xs.merge ys fun a b => decide (position a < position b)).find? (position · = q) =
      (ys.find? (position · = q)).or (xs.find? (position · = q)) := by
  induction xs generalizing ys with
  | nil => simp
  | cons x xs ihx =>
    induction ys with
    | nil => simp
    | cons y ys ihy =>
      obtain ⟨hy, hys'⟩ := List.pairwise_cons.1 hys
      rw [List.cons_merge_cons]
      split
      next hlt =>
        have hlt : position x < position y := by simpa using hlt
        rw [List.find?_cons, ihx hys, @List.find?_cons _ x xs]
        by_cases hx : position x = q
        · have hnone : (y :: ys).find? (position · = q) = none :=
            List.find?_eq_none.2 fun a ha => by
              rcases List.mem_cons.1 ha with rfl | ha
              · simpa using (hx ▸ hlt).ne'
              · simpa using ((hx ▸ hlt).trans_le (hy a ha)).ne'
          simp [hx, hnone]
        · simp [hx]
      next hlt =>
        rw [List.find?_cons, ihy hys', @List.find?_cons _ y ys]
        by_cases hy : position y = q
        · simp [hy]
        · simp [hy]

end DuckLake
