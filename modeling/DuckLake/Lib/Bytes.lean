import Mathlib.Data.Nat.Init
import Mathlib.Algebra.Order.Group.Nat
import Mathlib.Tactic.NormNum

/-!
# Bytes

Numbers as bytes in both byte orders, and computations that read a buffer. A computation goes wrong
in two ways: it throws, or it reads a byte that the buffer does not have. `Safe` says that it does
not do the latter.
-/

namespace DuckLake

namespace Bytes

/-! ## Byte orders -/

/-- The low `k` bytes of a number, the least significant one first. -/
def toLittleEndian : Nat → Nat → List UInt8
  | 0, _ => []
  | k + 1, n => UInt8.ofNat n :: toLittleEndian k (n / 256)

def ofLittleEndian : List UInt8 → Nat
  | [] => 0
  | b :: bs => b.toNat + 256 * ofLittleEndian bs

def toBigEndian (k n : Nat) : List UInt8 := (toLittleEndian k n).reverse

def ofBigEndian (bs : List UInt8) : Nat := ofLittleEndian bs.reverse

@[simp] theorem length_toLittleEndian (k n : Nat) : (toLittleEndian k n).length = k := by
  induction k generalizing n with
  | zero => rfl
  | succ k ih => simp [toLittleEndian, ih]

@[simp] theorem length_toBigEndian (k n : Nat) : (toBigEndian k n).length = k := by
  simp [toBigEndian]

theorem ofLittleEndian_toLittleEndian (k n : Nat) :
    ofLittleEndian (toLittleEndian k n) = n % 256 ^ k := by
  induction k generalizing n with
  | zero => simp [toLittleEndian, ofLittleEndian, Nat.mod_one]
  | succ k ih =>
    have hbyte : (UInt8.ofNat n).toNat = n % 256 := by simp
    rw [toLittleEndian, ofLittleEndian, ih, hbyte, Nat.pow_succ', Nat.mod_mul]

theorem ofBigEndian_toBigEndian (k n : Nat) : ofBigEndian (toBigEndian k n) = n % 256 ^ k := by
  rw [ofBigEndian, toBigEndian, List.reverse_reverse, ofLittleEndian_toLittleEndian]

end Bytes

/-! ## Reading a buffer -/

inductive Fault (ε : Type) where
  | exception (e : ε)
  | outOfBounds
deriving DecidableEq

/-- A computation that reads a buffer. -/
abbrev Reading (ε : Type) := Except (Fault ε)

namespace Reading

variable {ε α β : Type}

/-- Nothing is read outside the buffer. -/
def Safe (r : Reading ε α) : Prop := r ≠ .error .outOfBounds

instance [DecidableEq ε] [DecidableEq α] (r : Reading ε α) : Decidable r.Safe :=
  match r with
  | .ok _ => isTrue nofun
  | .error (.exception _) => isTrue nofun
  | .error .outOfBounds => isFalse fun h => h rfl

/-- The first `n` bytes of what is left of the buffer. -/
def load (n : Nat) (data : List UInt8) : Reading ε (List UInt8) :=
  if n ≤ data.length then .ok (data.take n) else .error .outOfBounds

/-- The `n` bytes at an offset, which the buffer does not have when the offset is negative. -/
def loadAt (offset : Int) (n : Nat) (buffer : List UInt8) : Reading ε (List UInt8) :=
  if 0 ≤ offset ∧ offset + n ≤ buffer.length then .ok ((buffer.drop offset.toNat).take n)
  else .error .outOfBounds

def reject (cond : Bool) (e : ε) : Reading ε Unit :=
  if cond then .error (.exception e) else .ok ()

@[simp] theorem safe_ok {a : α} : Safe (.ok a : Reading ε α) := nofun

@[simp] theorem safe_pure {a : α} : Safe (pure a : Reading ε α) := nofun

@[simp] theorem safe_exception {e : ε} : Safe (.error (.exception e) : Reading ε α) := nofun

@[simp] theorem not_safe_outOfBounds : ¬ Safe (.error .outOfBounds : Reading ε α) :=
  fun h => h rfl

theorem safe_bind {r : Reading ε α} {f : α → Reading ε β} :
    Safe (r >>= f) ↔ Safe r ∧ ∀ a, r = .ok a → Safe (f a) := by
  cases r with
  | ok a => exact ⟨fun h => ⟨nofun, fun a' ha => Except.ok.inj ha ▸ h⟩, fun h => h.2 a rfl⟩
  | error fault =>
    cases fault with
    | exception e => exact ⟨fun _ => ⟨safe_exception, nofun⟩, fun _ => safe_exception⟩
    | outOfBounds => exact ⟨fun h => absurd rfl h, fun h => absurd rfl h.1⟩

@[simp] theorem safe_load {n : Nat} {data : List UInt8} :
    Safe (load n data : Reading ε _) ↔ n ≤ data.length := by
  unfold load
  split <;> simp_all

@[simp] theorem safe_loadAt {offset : Int} {n : Nat} {buffer : List UInt8} :
    Safe (loadAt offset n buffer : Reading ε _) ↔ 0 ≤ offset ∧ offset + n ≤ buffer.length := by
  unfold loadAt
  split <;> simp_all

@[simp] theorem safe_reject {cond : Bool} {e : ε} : Safe (reject cond e) := by
  unfold reject
  split <;> simp

theorem reject_eq_ok {cond : Bool} {e : ε} {u : Unit} : reject cond e = .ok u ↔ cond = false := by
  unfold reject
  split <;> simp_all

/-- A guard in a sequence matters only when it does not reject. -/
theorem safe_reject_bind {cond : Bool} {e : ε} {f : Unit → Reading ε β} :
    Safe (reject cond e >>= f) ↔ (cond = false → Safe (f ())) := by
  rw [safe_bind]
  simp only [safe_reject, true_and, reject_eq_ok]
  exact ⟨fun h hc => h () hc, fun h _ hc => h hc⟩

theorem load_eq_ok {n : Nat} {data bytes : List UInt8} :
    (load n data : Reading ε _) = .ok bytes ↔ n ≤ data.length ∧ data.take n = bytes := by
  unfold load
  split
  next h => simp [h]
  next h => simp [h]

theorem safe_load_bind {n : Nat} {data : List UInt8} {f : List UInt8 → Reading ε β} :
    Safe (load n data >>= f) ↔ n ≤ data.length ∧ Safe (f (data.take n)) := by
  rw [safe_bind, safe_load]
  refine and_congr_right fun hn => ⟨fun h => h _ (load_eq_ok.2 ⟨hn, rfl⟩), fun h a ha => ?_⟩
  rwa [← (load_eq_ok.1 ha).2]

theorem bind_eq_ok {r : Reading ε α} {f : α → Reading ε β} {b : β} :
    r >>= f = .ok b ↔ ∃ a, r = .ok a ∧ f a = .ok b := by
  cases r with
  | ok a => exact ⟨fun h => ⟨a, rfl, h⟩, fun ⟨_, ha, h⟩ => Except.ok.inj ha ▸ h⟩
  | error => exact ⟨nofun, fun ⟨_, ha, _⟩ => nomatch ha⟩

theorem reject_bind_eq_ok {cond : Bool} {e : ε} {f : Unit → Reading ε β} {b : β} :
    reject cond e >>= f = .ok b ↔ cond = false ∧ f () = .ok b := by
  rw [bind_eq_ok]
  simp only [reject_eq_ok]
  exact ⟨fun ⟨_, h⟩ => h, fun h => ⟨(), h⟩⟩

theorem load_bind_eq_ok {n : Nat} {data : List UInt8} {f : List UInt8 → Reading ε β} {b : β} :
    load n data >>= f = .ok b ↔ n ≤ data.length ∧ f (data.take n) = .ok b := by
  rw [bind_eq_ok]
  simp only [load_eq_ok]
  exact ⟨fun ⟨_, ⟨hn, h⟩, hb⟩ => ⟨hn, h ▸ hb⟩, fun ⟨hn, hb⟩ => ⟨_, ⟨hn, rfl⟩, hb⟩⟩

/-- A step that returns one value, under a condition. -/
theorem safe_bind_of_eq_ok_iff {r : Reading ε α} {f : α → Reading ε β} {p : Prop} {a : α}
    (h : ∀ b, r = .ok b ↔ p ∧ b = a) : Safe (r >>= f) ↔ Safe r ∧ (p → Safe (f a)) := by
  rw [safe_bind]
  refine and_congr_right fun _ => ⟨fun hall hp => hall a ((h a).2 ⟨hp, rfl⟩), fun hf b hb => ?_⟩
  obtain ⟨hp, rfl⟩ := (h b).1 hb
  exact hf hp

theorem loadAt_eq_ok {offset : Int} {n : Nat} {buffer bytes : List UInt8} :
    (loadAt offset n buffer : Reading ε _) = .ok bytes ↔
      (0 ≤ offset ∧ offset + n ≤ buffer.length) ∧ (buffer.drop offset.toNat).take n = bytes := by
  unfold loadAt
  split
  next h => simp [h]
  next h => simp [h]

theorem safe_loadAt_bind {offset : Int} {n : Nat} {buffer : List UInt8}
    {f : List UInt8 → Reading ε β} :
    Safe (loadAt offset n buffer >>= f) ↔ (0 ≤ offset ∧ offset + n ≤ buffer.length) ∧
      Safe (f ((buffer.drop offset.toNat).take n)) := by
  rw [safe_bind, safe_loadAt]
  refine and_congr_right fun hn => ⟨fun h => h _ (loadAt_eq_ok.2 ⟨hn, rfl⟩), fun h a ha => ?_⟩
  rwa [← (loadAt_eq_ok.1 ha).2]

theorem loadAt_bind_eq_ok {offset : Int} {n : Nat} {buffer : List UInt8}
    {f : List UInt8 → Reading ε β} {b : β} :
    loadAt offset n buffer >>= f = .ok b ↔ (0 ≤ offset ∧ offset + n ≤ buffer.length) ∧
      f ((buffer.drop offset.toNat).take n) = .ok b := by
  rw [bind_eq_ok]
  simp only [loadAt_eq_ok]
  exact ⟨fun ⟨_, ⟨hn, h⟩, hb⟩ => ⟨hn, h ▸ hb⟩, fun ⟨hn, hb⟩ => ⟨_, ⟨hn, rfl⟩, hb⟩⟩

theorem loadAt_append {offset : Int} {n : Nat} {before bytes data : List UInt8}
    (hoffset : offset = before.length) (hn : bytes.length = n) :
    (loadAt offset n (before ++ (bytes ++ data)) : Reading ε _) = .ok bytes := by
  subst hoffset hn
  refine loadAt_eq_ok.2 ⟨⟨by omega, ?_⟩, ?_⟩
  · simp only [List.length_append, Nat.cast_add]
    omega
  · rw [Int.toNat_natCast, List.drop_left' rfl, List.take_left' rfl]

theorem load_append {n : Nat} {bytes data : List UInt8} (h : bytes.length = n) :
    (load n (bytes ++ data) : Reading ε _) = .ok bytes := by
  subst h
  exact load_eq_ok.2 ⟨by simp, by simp⟩

theorem reject_false {e : ε} : reject false e = .ok () := rfl

end Reading

end DuckLake
