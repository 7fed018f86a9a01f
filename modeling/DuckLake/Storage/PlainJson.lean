import DuckLake.Storage.Puffin

/-!
# A plain format of documents

The law of the JSON library holds of a format in which each value begins with a tag, a list ends
with one, and an integer has nine bytes. No document is the beginning of another one in it.
-/

namespace DuckLake

namespace PlainJson

def writeText : Text → List UInt8
  | [] => [0]
  | c :: t => 1 :: (Bytes.toLittleEndian 4 c.toNat ++ writeText t)

def writeInt (n : JsonInt) : List UInt8 := Bytes.toLittleEndian 9 (n.value + 2 ^ 63).toNat

mutual

def write : JsonValue → List UInt8
  | .str value => 0 :: writeText value
  | .int value => 1 :: writeInt value
  | .arr values => 2 :: writeValues values
  | .obj fields => 3 :: writeFields fields
  | .other => [4]

def writeValues : List JsonValue → List UInt8
  | [] => [0]
  | value :: values => 1 :: (write value ++ writeValues values)

def writeFields : List (Text × JsonValue) → List UInt8
  | [] => [0]
  | (key, value) :: fields => 1 :: (writeText key ++ (write value ++ writeFields fields))

end

@[simp] theorem length_writeText {t : Text} : (writeText t).length = 5 * t.length + 1 := by
  induction t with
  | nil => rfl
  | cons c t ih =>
    rw [writeText, List.length_cons, List.length_append, ih, Bytes.length_toLittleEndian,
      List.length_cons]
    omega

@[simp] theorem length_writeInt {n : JsonInt} : (writeInt n).length = 9 :=
  Bytes.length_toLittleEndian 9 _

theorem append_toLittleEndian_inj {k m n : Nat} {a b : List UInt8} (hm : m < 256 ^ k)
    (hn : n < 256 ^ k) (h : Bytes.toLittleEndian k m ++ a = Bytes.toLittleEndian k n ++ b) :
    m = n ∧ a = b := by
  have hlength : (Bytes.toLittleEndian k m).length = (Bytes.toLittleEndian k n).length := by simp
  obtain ⟨hbytes, hrest⟩ := List.append_inj h hlength
  have hvalue := congrArg Bytes.ofLittleEndian hbytes
  rw [Bytes.ofLittleEndian_toLittleEndian, Bytes.ofLittleEndian_toLittleEndian,
    Nat.mod_eq_of_lt hm, Nat.mod_eq_of_lt hn] at hvalue
  exact ⟨hvalue, hrest⟩

theorem writeText_inj {t u : Text} {a b : List UInt8} (h : writeText t ++ a = writeText u ++ b) :
    t = u ∧ a = b := by
  have hchar : ∀ c : Char, c.toNat < 256 ^ 4 := fun c => c.val.toNat_lt
  induction t generalizing u with
  | nil =>
    cases u with
    | nil => exact ⟨rfl, List.cons_inj_right 0 |>.1 h⟩
    | cons => exact absurd (List.cons.inj h).1 (by decide)
  | cons c t ih =>
    cases u with
    | nil => exact absurd (List.cons.inj h).1 (by decide)
    | cons d u =>
      have htail : Bytes.toLittleEndian 4 c.toNat ++ writeText t ++ a =
          Bytes.toLittleEndian 4 d.toNat ++ writeText u ++ b := (List.cons.inj h).2
      rw [List.append_assoc, List.append_assoc] at htail
      obtain ⟨hcd, htail⟩ := append_toLittleEndian_inj (hchar c) (hchar d) htail
      obtain ⟨rfl, rfl⟩ := ih htail
      exact ⟨congrArg (· :: t) (Char.toNat_inj.1 hcd), rfl⟩

theorem writeInt_inj {m n : JsonInt} {a b : List UInt8} (h : writeInt m ++ a = writeInt n ++ b) :
    m = n ∧ a = b := by
  have hbound : ∀ n : JsonInt, (n.value + 2 ^ 63).toNat < 256 ^ 9 := fun n => by
    have := n.upper
    omega
  obtain ⟨hvalue, hrest⟩ := append_toLittleEndian_inj (hbound m) (hbound n) h
  refine ⟨?_, hrest⟩
  have hm := m.lower
  have hn := n.lower
  cases m
  cases n
  simp only at hvalue hm hn
  simp only [JsonInt.mk.injEq]
  omega

mutual

/-- What is written tells where it ends. -/
theorem write_inj {v w : JsonValue} {a b : List UInt8} (h : write v ++ a = write w ++ b) :
    v = w ∧ a = b := by
  cases v with
  | str value =>
    cases w with
    | str other =>
      obtain ⟨rfl, rfl⟩ := writeText_inj (List.cons.inj h).2
      exact ⟨rfl, rfl⟩
    | _ => exact absurd (List.cons.inj h).1 (by decide)
  | int value =>
    cases w with
    | int other =>
      obtain ⟨rfl, rfl⟩ := writeInt_inj (List.cons.inj h).2
      exact ⟨rfl, rfl⟩
    | _ => exact absurd (List.cons.inj h).1 (by decide)
  | arr values =>
    cases w with
    | arr others =>
      obtain ⟨rfl, rfl⟩ := writeValues_inj (List.cons.inj h).2
      exact ⟨rfl, rfl⟩
    | _ => exact absurd (List.cons.inj h).1 (by decide)
  | obj fields =>
    cases w with
    | obj others =>
      obtain ⟨rfl, rfl⟩ := writeFields_inj (List.cons.inj h).2
      exact ⟨rfl, rfl⟩
    | _ => exact absurd (List.cons.inj h).1 (by decide)
  | other =>
    cases w with
    | other => exact ⟨rfl, (List.cons.inj h).2⟩
    | _ => exact absurd (List.cons.inj h).1 (by decide)

theorem writeValues_inj {vs ws : List JsonValue} {a b : List UInt8}
    (h : writeValues vs ++ a = writeValues ws ++ b) : vs = ws ∧ a = b := by
  cases vs with
  | nil =>
    cases ws with
    | nil => exact ⟨rfl, (List.cons.inj h).2⟩
    | cons => exact absurd (List.cons.inj h).1 (by decide)
  | cons v vs =>
    cases ws with
    | nil => exact absurd (List.cons.inj h).1 (by decide)
    | cons w ws =>
      have htail : write v ++ writeValues vs ++ a = write w ++ writeValues ws ++ b :=
        (List.cons.inj h).2
      rw [List.append_assoc, List.append_assoc] at htail
      obtain ⟨rfl, hvalues⟩ := write_inj htail
      obtain ⟨rfl, rfl⟩ := writeValues_inj hvalues
      exact ⟨rfl, rfl⟩

theorem writeFields_inj {fs gs : List (Text × JsonValue)} {a b : List UInt8}
    (h : writeFields fs ++ a = writeFields gs ++ b) : fs = gs ∧ a = b := by
  cases fs with
  | nil =>
    cases gs with
    | nil => exact ⟨rfl, (List.cons.inj h).2⟩
    | cons => exact absurd (List.cons.inj h).1 (by decide)
  | cons f fs =>
    cases gs with
    | nil => exact absurd (List.cons.inj h).1 (by decide)
    | cons g gs =>
      obtain ⟨key, value⟩ := f
      obtain ⟨key', value'⟩ := g
      have htail : writeText key ++ (write value ++ writeFields fs) ++ a =
          writeText key' ++ (write value' ++ writeFields gs) ++ b := (List.cons.inj h).2
      simp only [List.append_assoc] at htail
      obtain ⟨rfl, hfield⟩ := writeText_inj htail
      obtain ⟨rfl, hfields⟩ := write_inj hfield
      obtain ⟨rfl, rfl⟩ := writeFields_inj hfields
      exact ⟨rfl, rfl⟩

end

theorem write_injective : Function.Injective write := fun v w h => by
  have happend : write v ++ [] = write w ++ [] := congrArg (· ++ []) h
  exact (write_inj happend).1

/-- The library with the plain format. -/
noncomputable abbrev library : JsonLibrary where
  write := write
  read := Function.partialInv write
  read_write document := Function.partialInv_left write_injective document

theorem library_write {v : JsonValue} : @JsonLibrary.write library v = write v := rfl

end PlainJson

end DuckLake
