import Mathlib.Algebra.Order.Ring.Nat
import Mathlib.Data.List.Forall2
import DuckLake.Lib.Guard
import DuckLake.Lib.Text

/-!
# Literals of SQL

The literals that stand in the tuples of an `INSERT` statement, and how a database reads them. A
string literal is read back from one text only, so reading a text tells what was written.
-/

namespace DuckLake

/-! ## Values -/

inductive SqlValue where
  | null
  | boolean (b : Bool)
  | integer (i : Int)
  | varchar (t : Text)
deriving DecidableEq, Repr

/-- The range of a `BIGINT`. -/
def bigintLimit : Nat := 2 ^ 63

def InBigint (i : Int) : Prop := -(bigintLimit : Int) ≤ i ∧ i < bigintLimit

instance : DecidablePred InBigint := fun _ => inferInstanceAs (Decidable (_ ∧ _))

/-- An unsigned number of 64 bits, cast to a signed one. -/
def toInt64 (n : Nat) : Int := (n : Int).bmod (2 * bigintLimit)

theorem inBigint_toInt64 (n : Nat) : InBigint (toInt64 n) := by
  have hle : -((2 * bigintLimit : Nat) / 2 : Int) ≤ toInt64 n := Int.le_bmod (by decide)
  have hlt : toInt64 n < ((2 * bigintLimit : Nat) + 1 : Int) / 2 := Int.bmod_lt (by decide)
  simp only [bigintLimit] at hle hlt
  constructor <;> simp only [bigintLimit] <;> omega

theorem toInt64_of_lt {n : Nat} (h : n < bigintLimit) : toInt64 n = n := by
  refine Int.bmod_eq_of_le_mul_two ?_ ?_ <;> omega

namespace Text

def ofInt (i : Int) : Text := if i < 0 then '-' :: ofNat i.natAbs else ofNat i.natAbs

/-! ## Reading numbers -/

def readDigits (t : Text) : Option Nat :=
  if t ≠ [] ∧ t.all Char.isDigit then some (Nat.ofDigitChars 10 t 0) else none

theorem readDigits_ofNat (n : Nat) : readDigits (ofNat n) = some n := by
  have hdigits : (ofNat n).all Char.isDigit := List.all_eq_true.2 fun c => isDigit_of_mem_ofNat
  rw [readDigits, if_pos ⟨ofNat_ne_nil n, hdigits⟩, ofNat, Nat.ofDigitChars_ten_toDigits]

theorem ofNat_injective : Function.Injective ofNat := fun m n h => by
  simpa [readDigits_ofNat] using congrArg readDigits h

def readInteger (t : Text) : Option Int :=
  if t.head? = some '-' then (readDigits t.tail).map fun n : Nat => -(n : Int)
  else (readDigits t).map fun n : Nat => (n : Int)

theorem head?_ofNat_ne (n : Nat) {c : Char} (hc : c.isDigit = false) :
    (ofNat n).head? ≠ some c := by
  intro h
  have hmem := isDigit_of_mem_ofNat (List.mem_of_mem_head? h)
  rw [hc] at hmem
  cases hmem

theorem readInteger_ofNat (n : Nat) : readInteger (ofNat n) = some (n : Int) := by
  rw [readInteger, if_neg (head?_ofNat_ne n (by decide)), readDigits_ofNat]
  rfl

theorem readInteger_ofInt (i : Int) : readInteger (ofInt i) = some i := by
  unfold ofInt
  split
  · rw [readInteger, List.head?_cons, if_pos rfl, List.tail_cons, readDigits_ofNat,
      Option.map_some]
    congr 1
    omega
  · rw [readInteger_ofNat]
    congr 1
    omega

/-! ## Reading strings -/

/-- What follows the opening quote of a string literal that ends where the text ends. -/
def readString : Text → Option Text
  | [] => none
  | '\'' :: '\'' :: t => (readString t).map ('\'' :: ·)
  | ['\''] => some []
  | '\'' :: _ :: _ => none
  | c :: t => (readString t).map (c :: ·)

theorem readString_cons {c : Char} (hc : c ≠ '\'') (t : Text) :
    readString (c :: t) = (readString t).map (c :: ·) := by
  rw [readString] <;> simp [hc]

theorem readString_escape (s : Text) : readString (escape '\'' s ++ ['\'']) = some s := by
  induction s with
  | nil => rfl
  | cons c s ih =>
    by_cases hc : c = '\''
    · subst hc
      simp [escape, readString, ih]
    · rw [escape, if_neg hc, List.cons_append, readString_cons hc, ih]
      rfl

theorem eq_of_readString {t s : Text} (h : readString t = some s) :
    t = escape '\'' s ++ ['\''] := by
  fun_induction readString t generalizing s with
  | case1 => cases h
  | case2 t ih =>
    obtain ⟨s', hs, rfl⟩ := Option.map_eq_some_iff.1 h
    rw [ih hs]
    simp [escape]
  | case3 =>
    cases h
    rfl
  | case4 => cases h
  | case5 c t hquote hlast hmore ih =>
    obtain ⟨s', hs, rfl⟩ := Option.map_eq_some_iff.1 h
    have hc : c ≠ '\'' := by
      rintro rfl
      cases t with
      | nil => exact hlast rfl rfl
      | cons d t => exact hmore d t rfl rfl
    rw [ih hs, escape, if_neg hc, List.cons_append]

theorem readString_iff {t s : Text} : readString t = some s ↔ t = escape '\'' s ++ ['\''] :=
  ⟨eq_of_readString, fun h => h ▸ readString_escape s⟩

/-- Only a text without quotes is its own escaped form. -/
theorem escape_eq_self_iff {q : Char} {t : Text} : escape q t = t ↔ q ∉ t := by
  constructor
  · intro h
    have hlength : ∀ u : Text, u.length + u.count q = (escape q u).length := by
      intro u
      induction u with
      | nil => rfl
      | cons c u ih => by_cases hc : c = q <;> simp [escape, hc] <;> omega
    have := hlength t
    rw [h] at this
    exact List.count_eq_zero.1 (by omega)
  · intro h
    induction t with
    | nil => rfl
    | cons c t ih =>
      rw [List.mem_cons, not_or] at h
      rw [escape, if_neg (Ne.symm h.1), ih h.2]

/-! ## Reading a literal -/

def readLiteral (t : Text) : Option SqlValue :=
  if t = "NULL".toList then some .null
  else if t = "true".toList then some (.boolean true)
  else if t = "false".toList then some (.boolean false)
  else if t.head? = some '\'' then (readString t.tail).map .varchar
  else (readInteger t).bind fun i => if InBigint i then some (.integer i) else none

theorem readLiteral_string (t : Text) : readLiteral ('\'' :: t) = (readString t).map .varchar := by
  simp [readLiteral]

/-- A text is read as a string in one way only. -/
theorem readLiteral_varchar_iff {t s : Text} :
    readLiteral t = some (.varchar s) ↔ t = writeQuoted '\'' s := by
  constructor
  · intro h
    unfold readLiteral at h
    split_ifs at h with hnull htrue hfalse hhead
    · cases h
    · cases h
    · cases h
    · obtain ⟨s', hs, heq⟩ := Option.map_eq_some_iff.1 h
      cases heq
      obtain ⟨t, rfl⟩ := List.head?_eq_some_iff.1 hhead
      rw [List.tail_cons, readString_iff] at hs
      rw [hs, writeQuoted, List.cons_append]
    · obtain ⟨i, -, hi⟩ := Option.bind_eq_some_iff.1 h
      split at hi <;> cases hi
  · rintro rfl
    rw [writeQuoted, List.cons_append, readLiteral_string, readString_escape]
    rfl

theorem readLiteral_of_readInteger {t : Text} {i : Int} (h : readInteger t = some i) :
    readLiteral t = if InBigint i then some (.integer i) else none := by
  have hne : ∀ u : Text, readInteger u = none → t ≠ u := by
    rintro u hu rfl
    rw [hu] at h
    cases h
  have hhead : t.head? ≠ some '\'' := by
    intro hhead
    obtain ⟨u, rfl⟩ := List.head?_eq_some_iff.1 hhead
    simp [readInteger, readDigits] at h
  rw [readLiteral, if_neg (hne _ (by decide)), if_neg (hne _ (by decide)),
    if_neg (hne _ (by decide)), if_neg hhead, h]
  rfl

theorem readLiteral_ofInt {i : Int} (h : InBigint i) : readLiteral (ofInt i) = some (.integer i) := by
  rw [readLiteral_of_readInteger (readInteger_ofInt i), if_pos h]

theorem readLiteral_ofNat_iff {n : Nat} :
    readLiteral (ofNat n) = some (.integer (toInt64 n)) ↔ n < bigintLimit := by
  rw [readLiteral_of_readInteger (readInteger_ofNat n)]
  constructor
  · intro h
    split at h
    · rename_i hn
      exact Int.ofNat_lt.1 hn.2
    · cases h
  · intro h
    rw [toInt64_of_lt h, if_pos]
    constructor <;> omega

end Text

/-! ## Lists of rows -/

section Rows

variable {α β γ : Type} {R : α → β → Prop}

theorem forall₂_append_iff {xs xs' : List α} {ys ys' : List β} (h : xs.length = ys.length) :
    List.Forall₂ R (xs ++ xs') (ys ++ ys') ↔ List.Forall₂ R xs ys ∧ List.Forall₂ R xs' ys' := by
  induction xs generalizing ys with
  | nil =>
    obtain rfl : ys = [] := List.length_eq_zero_iff.1 h.symm
    simp
  | cons x xs ih =>
    obtain ⟨y, ys, rfl⟩ := List.exists_cons_of_length_pos (l := ys) (by simp [← h])
    simp only [List.cons_append, List.forall₂_cons, ih (Nat.succ.inj h), and_assoc]

theorem length_flatMap_eq {xs : List γ} {f : γ → List α} {g : γ → List β}
    (h : ∀ x, (f x).length = (g x).length) : (xs.flatMap f).length = (xs.flatMap g).length := by
  simp only [List.length_flatMap, h]

theorem forall₂_flatMap_iff {xs : List γ} {f : γ → List α} {g : γ → List β}
    (h : ∀ x, (f x).length = (g x).length) :
    List.Forall₂ R (xs.flatMap f) (xs.flatMap g) ↔ ∀ x ∈ xs, List.Forall₂ R (f x) (g x) := by
  induction xs with
  | nil => simp
  | cons x xs ih =>
    rw [List.flatMap_cons, List.flatMap_cons, forall₂_append_iff (h x), ih,
      List.forall_mem_cons]

theorem forall₂_map_iff {xs : List γ} {f : γ → α} {g : γ → β} :
    List.Forall₂ R (xs.map f) (xs.map g) ↔ ∀ x ∈ xs, R (f x) (g x) := by
  rw [List.forall₂_map_left_iff, List.forall₂_map_right_iff, List.forall₂_same]

theorem forall_forall₂_iff {ι : Type} [Nonempty ι] {R : ι → α → β → Prop} {xs : List α}
    {ys : List β} :
    (∀ i, List.Forall₂ (R i) xs ys) ↔ List.Forall₂ (fun x y => ∀ i, R i x y) xs ys := by
  constructor
  · intro h
    induction xs generalizing ys with
    | nil =>
      obtain rfl := List.forall₂_nil_left_iff.1 (h (Classical.arbitrary ι))
      exact .nil
    | cons x xs ih =>
      obtain ⟨y, ys, -, -, rfl⟩ := List.forall₂_cons_left_iff.1 (h (Classical.arbitrary ι))
      simp only [List.forall₂_cons] at h ⊢
      exact ⟨fun i => (h i).1, ih fun i => (h i).2⟩
  · exact fun h i => h.imp fun x y hxy => hxy i

end Rows

end DuckLake
