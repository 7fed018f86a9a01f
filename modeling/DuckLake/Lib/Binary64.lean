import Mathlib.Algebra.Order.Field.Power
import Mathlib.Algebra.Order.Field.Rat
import Mathlib.Algebra.Order.Floor.Ring
import Mathlib.Data.Finset.Max
import Mathlib.Data.Int.ConditionallyCompleteOrder
import Mathlib.Data.Int.Interval
import Mathlib.Data.Rat.Floor
import Mathlib.Tactic.FieldSimp
import Mathlib.Tactic.Linarith
import Mathlib.Tactic.NormNum
import Mathlib.Tactic.Positivity

/-!
# Rounding to finite doubles

The finite values of a `double` as rational numbers, rounding to the nearest of them, and rounding
to a number of decimals. A number with six decimals that is near a double is never halfway between
that double and the next one.
-/

namespace DuckLake

/-! ## Doubles -/

/-- The finite values of 64 bits. -/
def IsDouble (x : ℚ) : Prop :=
  ∃ m e : ℤ, |m| < 2 ^ 53 ∧ -1074 ≤ e ∧ e ≤ 971 ∧ x = m * 2 ^ e

def maxDouble : ℚ := (2 ^ 53 - 1) * 2 ^ (971 : ℤ)

theorem IsDouble.neg {x : ℚ} (h : IsDouble x) : IsDouble (-x) := by
  obtain ⟨m, e, hm, hlo, hhi, rfl⟩ := h
  exact ⟨-m, e, by rwa [abs_neg], hlo, hhi, by push_cast; ring⟩

theorem isDouble_zero : IsDouble 0 := ⟨0, 0, by norm_num, by norm_num, by norm_num, by norm_num⟩

theorem isDouble_maxDouble : IsDouble maxDouble :=
  ⟨2 ^ 53 - 1, 971, by norm_num, by norm_num, le_rfl, by norm_num [maxDouble]⟩

theorem exists_int_eq_maxDouble : ∃ n : ℤ, maxDouble = n := by
  refine ⟨(2 ^ 53 - 1) * 2 ^ 971, ?_⟩
  rw [maxDouble, Int.cast_mul, Int.cast_sub, Int.cast_pow, Int.cast_pow, Int.cast_ofNat,
    Int.cast_one]
  exact congrArg _ (zpow_natCast 2 971)

theorem IsDouble.abs_le {x : ℚ} (h : IsDouble x) : |x| ≤ maxDouble := by
  obtain ⟨m, e, hm, -, hhi, rfl⟩ := h
  have hmantissa : |(m : ℚ)| ≤ 2 ^ 53 - 1 := by
    have : |m| ≤ 2 ^ 53 - 1 := by omega
    exact_mod_cast this
  have hpow : (2 : ℚ) ^ e ≤ 2 ^ (971 : ℤ) := zpow_le_zpow_right₀ (by norm_num) hhi
  rw [abs_mul, abs_of_pos (by positivity : (0 : ℚ) < 2 ^ e), maxDouble]
  exact mul_le_mul hmantissa hpow (by positivity) (by norm_num)

theorem IsDouble.le_maxDouble {x : ℚ} (h : IsDouble x) : x ≤ maxDouble :=
  (le_abs_self x).trans h.abs_le

theorem IsDouble.neg_maxDouble_le {x : ℚ} (h : IsDouble x) : -maxDouble ≤ x :=
  neg_le_of_abs_le h.abs_le

/-- The next multiple of the unit of a double is a double, unless it is above all of its kind. -/
theorem isDouble_succ {m e : ℤ} (hm : |m| < 2 ^ 53) (hlo : -1074 ≤ e) (hhi : e < 971) :
    IsDouble ((m + 1 : ℤ) * 2 ^ e) := by
  by_cases h : m = 2 ^ 53 - 1
  · refine ⟨2 ^ 52, e + 1, by norm_num, by omega, by omega, ?_⟩
    rw [h, zpow_add₀ (by norm_num : (2 : ℚ) ≠ 0)]
    push_cast
    ring
  · rw [abs_lt] at hm
    refine ⟨m + 1, e, ?_, hlo, hhi.le, rfl⟩
    rw [abs_lt]
    constructor <;> omega

theorem isDouble_succ_of_ne {m e : ℤ} (hm : |m| < 2 ^ 53) (hlo : -1074 ≤ e) (hhi : e ≤ 971)
    (hne : m ≠ 2 ^ 53 - 1) : IsDouble ((m + 1 : ℤ) * 2 ^ e) := by
  rw [abs_lt] at hm
  refine ⟨m + 1, e, ?_, hlo, hhi, rfl⟩
  rw [abs_lt]
  constructor <;> omega

/-- A number with six decimals is not a small odd multiple of half a unit. -/
theorem half_ne_decimals {m n e : ℤ} (he : (2 : ℚ) ^ e ≤ 1 / 10 ^ 6) :
    (2 * m + 1 : ℤ) * (2 : ℚ) ^ e ≠ 2 * (n / 10 ^ 6) := by
  intro h
  have hsmall : e ≤ -20 := by
    by_contra hlarge
    have hpow : (2 : ℚ) ^ (-19 : ℤ) ≤ 2 ^ e := zpow_le_zpow_right₀ (by norm_num) (by omega)
    exact absurd (hpow.trans he) (by norm_num)
  obtain ⟨j, rfl⟩ : ∃ j : ℕ, e = -((j + 20 : ℕ) : ℤ) := ⟨(-e - 20).toNat, by omega⟩
  have hpow : (2 : ℚ) ^ (-((j + 20 : ℕ) : ℤ)) * 2 ^ (j + 20) = 1 := by
    rw [zpow_neg, zpow_natCast, inv_mul_cancel₀ (by positivity)]
  have hscaled : ((2 * m + 1 : ℤ) : ℚ) * 10 ^ 6 = 2 * n * 2 ^ (j + 20) := by
    calc ((2 * m + 1 : ℤ) : ℚ) * 10 ^ 6
        = (2 * m + 1 : ℤ) * ((2 : ℚ) ^ (-((j + 20 : ℕ) : ℤ)) * 2 ^ (j + 20)) * 10 ^ 6 := by
          rw [hpow, mul_one]
      _ = (2 * m + 1 : ℤ) * (2 : ℚ) ^ (-((j + 20 : ℕ) : ℤ)) * (2 ^ (j + 20) * 10 ^ 6) := by ring
      _ = 2 * (n / 10 ^ 6) * (2 ^ (j + 20) * 10 ^ 6) := by rw [h]
      _ = 2 * n * 2 ^ (j + 20) := by ring
  have hint : (2 * m + 1) * 10 ^ 6 = 2 * n * 2 ^ (j + 20) := by exact_mod_cast hscaled
  have hparity : (2 * m + 1) * 15625 = 2 * (n * 2 ^ (j + 14)) := by
    have hsplit : (2 : ℤ) ^ (j + 20) = 2 ^ (j + 14) * 64 := by rw [pow_add, pow_add]; ring
    rw [hsplit] at hint
    linarith
  omega

/-- Between two doubles that differ by more than a unit of the finer one there is another. -/
theorem not_halfway_of_le {m m' e e' n : ℤ} (hm : |m| < 2 ^ 53) (hm' : |m'| < 2 ^ 53)
    (hlo : -1074 ≤ e) (hle : e ≤ e') (hhi : e' ≤ 971)
    (hlt : (m : ℚ) * 2 ^ e < m' * 2 ^ e') (hhalf : (m : ℚ) * 2 ^ e + m' * 2 ^ e' = 2 * (n / 10 ^ 6))
    (hnear : n / 10 ^ 6 - (m : ℚ) * 2 ^ e ≤ 1 / (2 * 10 ^ 6))
    (hnone : ∀ y, IsDouble y → ¬ ((m : ℚ) * 2 ^ e < y ∧ y < m' * 2 ^ e')) : False := by
  have hpos : (0 : ℚ) < 2 ^ e := by positivity
  obtain ⟨j, hj⟩ : ∃ j : ℕ, e' = e + j := ⟨(e' - e).toNat, by omega⟩
  have hcommon : (m' : ℚ) * 2 ^ e' = (m' * 2 ^ j : ℤ) * 2 ^ e := by
    rw [hj, zpow_add₀ (by norm_num : (2 : ℚ) ≠ 0), zpow_natCast]
    push_cast
    ring
  rw [hcommon] at hlt hhalf hnone
  have hmm : m < m' * 2 ^ j := by exact_mod_cast lt_of_mul_lt_mul_right hlt hpos.le
  by_cases hsucc : m' * 2 ^ j = m + 1
  · -- the two are neighbours, and their middle is an odd multiple of half a unit
    rw [hsucc] at hhalf
    have hsum : (2 * m + 1 : ℤ) * (2 : ℚ) ^ e = 2 * (n / 10 ^ 6) := by
      rw [← hhalf]
      push_cast
      ring
    refine half_ne_decimals ?_ hsum
    push_cast at hhalf
    linarith
  · have hbetween : m + 1 < m' * 2 ^ j := by omega
    have hdouble : IsDouble ((m + 1 : ℤ) * 2 ^ e) := by
      by_cases he : e < 971
      · exact isDouble_succ hm hlo he
      · refine isDouble_succ_of_ne hm hlo (hle.trans hhi) ?_
        obtain rfl : j = 0 := by omega
        rw [abs_lt] at hm'
        omega
    refine hnone _ hdouble ⟨?_, ?_⟩
    · exact mul_lt_mul_of_pos_right (by exact_mod_cast Int.lt_succ m) hpos
    · exact mul_lt_mul_of_pos_right (by exact_mod_cast hbetween) hpos

/-- A number with six decimals that rounds to a double is not halfway to the next double. -/
theorem not_halfway {x y : ℚ} {n : ℤ} (hx : IsDouble x) (hy : IsDouble y) (hlt : x < y)
    (hhalf : x + y = 2 * (n / 10 ^ 6)) (hnear : n / 10 ^ 6 - x ≤ 1 / (2 * 10 ^ 6))
    (hnone : ∀ z, IsDouble z → ¬ (x < z ∧ z < y)) : False := by
  obtain ⟨m, e, hm, hlo, hhi, rfl⟩ := hx
  obtain ⟨m', e', hm', hlo', hhi', rfl⟩ := hy
  rcases le_total e e' with hle | hle
  · exact not_halfway_of_le hm hm' hlo hle hhi' hlt hhalf hnear hnone
  · -- the same with the signs changed
    refine @not_halfway_of_le (-m') (-m) e' e (-n) (by rwa [abs_neg]) (by rwa [abs_neg]) hlo' hle hhi
      ?_ ?_ ?_ fun z hz hbetween => hnone (-z) hz.neg ?_
    · push_cast
      linarith
    · push_cast
      linarith
    · push_cast
      linarith
    · push_cast at hbetween
      constructor <;> linarith [hbetween.1, hbetween.2]

/-! ## Rounding to the nearest double -/

/-- Each number is rounded to a double that no other is nearer to; ties may go either way. -/
structure RoundsToNearest (nearest : ℚ → ℚ) : Prop where
  isDouble (x : ℚ) : IsDouble (nearest x)
  le {x y : ℚ} : IsDouble y → |nearest x - x| ≤ |y - x|

namespace RoundsToNearest

variable {nearest : ℚ → ℚ} (h : RoundsToNearest nearest) {x y : ℚ}

include h

theorem eq_self (hx : IsDouble x) : nearest x = x := by
  have hle := h.le (x := x) hx
  rw [sub_self, abs_zero] at hle
  exact sub_eq_zero.1 (abs_eq_zero.1 (le_antisymm hle (abs_nonneg _)))

theorem monotone : Monotone nearest := by
  intro x y hxy
  by_contra hlt
  rw [not_le] at hlt
  have hx := h.le (x := x) (h.isDouble y)
  have hy := h.le (x := y) (h.isDouble x)
  have hlower : nearest x + nearest y ≤ 2 * x := by
    rcases abs_cases (nearest x - x) with ⟨ha, ha'⟩ | ⟨ha, ha'⟩ <;>
      rcases abs_cases (nearest y - x) with ⟨hb, hb'⟩ | ⟨hb, hb'⟩ <;> linarith
  have hupper : 2 * y ≤ nearest x + nearest y := by
    rcases abs_cases (nearest y - y) with ⟨ha, ha'⟩ | ⟨ha, ha'⟩ <;>
      rcases abs_cases (nearest x - y) with ⟨hb, hb'⟩ | ⟨hb, hb'⟩ <;> linarith
  obtain rfl : x = y := by linarith
  exact lt_irrefl _ hlt

/-- Rounding with the signs changed. -/
theorem neg : RoundsToNearest fun x => -nearest (-x) where
  isDouble x := (h.isDouble (-x)).neg
  le {x y} hy := by
    have hle := h.le (x := -x) hy.neg
    rw [← abs_neg] at hle
    rw [← abs_neg (y - x)]
    convert hle using 2 <;> ring

/-- Six decimals of a double are read back as no larger double exactly when they are not larger, or
nearer to the double than to any larger one. -/
theorem le_iff {n : ℤ} (hx : IsDouble x) (hnear : n / 10 ^ 6 - x ≤ 1 / (2 * 10 ^ 6)) :
    nearest (n / 10 ^ 6) ≤ x ↔
      (n / 10 ^ 6 : ℚ) ≤ x ∨ ∀ y, IsDouble y → x < y → n / 10 ^ 6 - x < y - n / 10 ^ 6 := by
  constructor
  · intro hle
    by_contra hcontra
    rw [not_or, not_le, not_forall] at hcontra
    obtain ⟨hlt, y, hy⟩ := hcontra
    simp only [Classical.not_imp, not_lt] at hy
    obtain ⟨hdouble, hxy, hfar⟩ := hy
    -- the double itself is a nearest one, so the larger one is as near
    have hself : ∀ z, IsDouble z → n / 10 ^ 6 - x ≤ |z - n / 10 ^ 6| := fun z hz => by
      refine le_trans ?_ (h.le hz)
      rw [abs_of_nonpos (by linarith)]
      linarith
    have hfar' := hself y hdouble
    have hhalf : x + y = 2 * (n / 10 ^ 6) := by
      rcases abs_cases (y - n / 10 ^ 6) with ⟨ha, -⟩ | ⟨ha, hneg⟩ <;> linarith
    refine not_halfway hx hdouble hxy hhalf hnear fun z hz hbetween => ?_
    have hz' := hself z hz
    rcases abs_cases (z - n / 10 ^ 6) with ⟨ha, -⟩ | ⟨ha, -⟩ <;>
      linarith [hbetween.1, hbetween.2]
  · rintro (hle | hfar)
    · exact (h.monotone hle).trans (h.eq_self hx).le
    · by_contra hlt
      rw [not_le] at hlt
      have hnearer := hfar _ (h.isDouble _) hlt
      have hle := h.le (x := n / 10 ^ 6) hx
      rcases abs_cases (nearest (n / 10 ^ 6) - n / 10 ^ 6) with ⟨ha, ha'⟩ | ⟨ha, ha'⟩ <;>
        rcases abs_cases (x - n / 10 ^ 6) with ⟨hb, hb'⟩ | ⟨hb, hb'⟩ <;> linarith

/-- The same for the smaller ones. -/
theorem ge_iff {n : ℤ} (hx : IsDouble x) (hnear : x - n / 10 ^ 6 ≤ 1 / (2 * 10 ^ 6)) :
    x ≤ nearest (n / 10 ^ 6) ↔
      x ≤ (n / 10 ^ 6 : ℚ) ∨ ∀ y, IsDouble y → y < x → x - n / 10 ^ 6 < n / 10 ^ 6 - y := by
  have hneg := h.neg.le_iff (n := -n) hx.neg (by push_cast; linarith)
  have hcast : ((-n : ℤ) : ℚ) / 10 ^ 6 = -(n / 10 ^ 6) := by push_cast; ring
  rw [hcast, neg_neg, neg_le_neg_iff, neg_le_neg_iff] at hneg
  rw [hneg]
  refine or_congr_right ⟨fun hfar y hy hlt => ?_, fun hfar y hy hlt => ?_⟩
  · linarith [hfar (-y) hy.neg (by linarith)]
  · linarith [hfar (-y) hy.neg (by linarith)]

end RoundsToNearest

/-- There are finitely many doubles, so there is a nearest one. -/
theorem exists_roundsToNearest : ∃ nearest : ℚ → ℚ, RoundsToNearest nearest := by
  have hall : ∃ doubles : Finset ℚ, ∀ x, x ∈ doubles ↔ IsDouble x := by
    refine ⟨((Finset.Icc (-(2 ^ 53 - 1) : ℤ) (2 ^ 53 - 1)) ×ˢ Finset.Icc (-1074 : ℤ) 971).image
      fun p => (p.1 : ℚ) * 2 ^ p.2, fun x => ?_⟩
    simp only [Finset.mem_image, Finset.mem_product, Finset.mem_Icc, Prod.exists, IsDouble, abs_lt]
    refine exists_congr fun m => exists_congr fun e => ?_
    constructor
    · rintro ⟨⟨⟨hlo, hhi⟩, he, he'⟩, rfl⟩
      exact ⟨⟨by omega, by omega⟩, he, he', rfl⟩
    · rintro ⟨⟨hlo, hhi⟩, he, he', rfl⟩
      exact ⟨⟨⟨by omega, by omega⟩, he, he'⟩, rfl⟩
  obtain ⟨doubles, hmem⟩ := hall
  have hnearest : ∀ x : ℚ, ∃ y, IsDouble y ∧ ∀ z, IsDouble z → |y - x| ≤ |z - x| := fun x => by
    obtain ⟨y, hy, hmin⟩ := Finset.exists_min_image doubles (fun y => |y - x|)
      ⟨0, (hmem 0).2 isDouble_zero⟩
    exact ⟨y, (hmem y).1 hy, fun z hz => hmin z ((hmem z).2 hz)⟩
  choose nearest hdouble hle using hnearest
  exact ⟨nearest, hdouble, fun {x y} hy => hle x y hy⟩

/-! ## Rounding to integers -/

/-- The nearest integer; a half goes to the even one. -/
def roundHalfEven (x : ℚ) : ℤ :=
  if Int.fract x < 1 / 2 then ⌊x⌋
  else if 1 / 2 < Int.fract x then ⌊x⌋ + 1
  else if ⌊x⌋ % 2 = 0 then ⌊x⌋ else ⌊x⌋ + 1

theorem abs_roundHalfEven_sub_le {x : ℚ} : |(roundHalfEven x : ℚ) - x| ≤ 1 / 2 := by
  have hfract := Int.floor_add_fract x
  have hnonneg := Int.fract_nonneg x
  have hlt := Int.fract_lt_one x
  rw [abs_le, roundHalfEven]
  split
  next => constructor <;> linarith
  next =>
    split
    next => push_cast; constructor <;> linarith
    next =>
      split
      next => constructor <;> linarith
      next => push_cast; constructor <;> linarith

theorem monotone_roundHalfEven : Monotone roundHalfEven := by
  intro x y hxy
  by_contra hlt
  rw [not_le] at hlt
  have hx := abs_le.1 (abs_roundHalfEven_sub_le (x := x))
  have hy := abs_le.1 (abs_roundHalfEven_sub_le (x := y))
  have hsucc : (roundHalfEven y : ℚ) + 1 ≤ roundHalfEven x := by exact_mod_cast hlt
  obtain rfl : x = y := by linarith [hx.1, hx.2, hy.1, hy.2]
  exact lt_irrefl _ hlt

theorem roundHalfEven_le {x : ℚ} {n : ℤ} (h : x ≤ n) : roundHalfEven x ≤ n := by
  have hx := (abs_le.1 (abs_roundHalfEven_sub_le (x := x))).2
  have hlt : (roundHalfEven x : ℚ) < n + 1 := by linarith
  exact Int.lt_add_one_iff.1 (by exact_mod_cast hlt)

theorem le_roundHalfEven {x : ℚ} {n : ℤ} (h : n ≤ x) : n ≤ roundHalfEven x := by
  have hx := (abs_le.1 (abs_roundHalfEven_sub_le (x := x))).1
  have hlt : (n : ℚ) < roundHalfEven x + 1 := by linarith
  exact Int.lt_add_one_iff.1 (by exact_mod_cast hlt)

end DuckLake
