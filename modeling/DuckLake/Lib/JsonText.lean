import Mathlib.Logic.Function.Basic
import DuckLake.Lib.Binary64
import DuckLake.Lib.SqlLiteral

/-!
# Documents in text form

The text of a document that is put together by hand, with a blank behind each comma and colon, and
a reader of such texts. Numbers have six decimals; strings have no character that is escaped.
-/

namespace DuckLake

/-- A document that was read. -/
inductive JsonNode where
  | null
  | bool (value : Bool)
  | int (value : ℤ)
  | real (value : ℚ)
  | str (value : Text)
  | arr (values : List JsonNode)
  | obj (fields : List (Text × JsonNode))

def JsonNode.get? (key : Text) : JsonNode → Option JsonNode
  | .obj fields => fields.lookup key
  | _ => none

/-! ## Texts -/

/-- A number with six decimals that is within the range of a `double`. -/
structure SixDecimals where
  negative : Bool
  millionths : ℕ
  le : (millionths / 10 ^ 6 : ℚ) ≤ maxDouble

namespace SixDecimals

def sixDigits (n : ℕ) : Text :=
  [n / 100000, n / 10000, n / 1000, n / 100, n / 10, n].map fun k => Nat.digitChar (k % 10)

def print (d : SixDecimals) : Text :=
  (if d.negative then "-" else "") ++ Text.ofNat (d.millionths / 10 ^ 6) ++
    '.' :: sixDigits (d.millionths % 10 ^ 6)

def value (d : SixDecimals) : ℚ :=
  (if d.negative then -(d.millionths : ℚ) else d.millionths) / 10 ^ 6

end SixDecimals

/-- No quote, backslash or control character. -/
abbrev PlainString := {t : Text // ∀ c ∈ t, c ≠ '"' ∧ c ≠ '\\' ∧ ' ' ≤ c}

inductive JsonSource where
  | null
  | number (value : SixDecimals)
  | str (value : PlainString)
  | arr (values : List JsonSource)
  | obj (fields : List (PlainString × JsonSource))

namespace JsonSource

def printString (t : PlainString) : Text := '"' :: (t.1 ++ ['"'])

mutual

def print : JsonSource → Text
  | .null => "null"
  | .number value => value.print
  | .str value => printString value
  | .arr values => '[' :: printValues values
  | .obj fields => '\x7b' :: printFields fields

def printValues : List JsonSource → Text
  | [] => [']']
  | value :: values => value.print ++ printMoreValues values

def printMoreValues : List JsonSource → Text
  | [] => [']']
  | value :: values => ',' :: ' ' :: (value.print ++ printMoreValues values)

def printFields : List (PlainString × JsonSource) → Text
  | [] => ['\x7d']
  | (key, value) :: fields => printString key ++ (':' :: ' ' :: (value.print ++
      printMoreFields fields))

def printMoreFields : List (PlainString × JsonSource) → Text
  | [] => ['\x7d']
  | (key, value) :: fields => ',' :: ' ' :: (printString key ++ (':' :: ' ' :: (value.print ++
      printMoreFields fields)))

end

variable (nearest : ℚ → ℚ)

mutual

/-- What is read: a number is rounded to a `double`. -/
def node : JsonSource → JsonNode
  | .null => .null
  | .number value => .real (nearest value.value)
  | .str value => .str value.1
  | .arr values => .arr (nodes values)
  | .obj fields => .obj (fieldNodes fields)

def nodes : List JsonSource → List JsonNode
  | [] => []
  | value :: values => value.node :: nodes values

def fieldNodes : List (PlainString × JsonSource) → List (Text × JsonNode)
  | [] => []
  | (key, value) :: fields => (key.1, value.node) :: fieldNodes fields

end

end JsonSource

/-! ## Lists of values and of fields -/

namespace JsonSource

theorem printMoreValues_eq {values : List JsonSource} : printMoreValues values =
    (values.flatMap fun value => ',' :: ' ' :: value.print) ++ [']'] := by
  induction values with
  | nil => rfl
  | cons value values ih => simp [printMoreValues, ih]

theorem join_cons_eq_flatMap {t : Text} {ts : List Text} :
    Text.join [',', ' '] (t :: ts) = t ++ ts.flatMap fun u => ',' :: ' ' :: u := by
  induction ts generalizing t with
  | nil => simp [Text.join]
  | cons u ts ih => simp [Text.join, ih]

theorem forall_mem_join {P : Char → Prop} {ts : List Text} (hcomma : P ',') (hblank : P ' ')
    (h : ∀ t ∈ ts, ∀ c ∈ t, P c) : ∀ c ∈ Text.join [',', ' '] ts, P c := by
  cases ts with
  | nil => exact nofun
  | cons t ts =>
    obtain ⟨hfirst, hrest⟩ := List.forall_mem_cons.1 h
    rw [join_cons_eq_flatMap]
    refine List.forall_mem_append.2 ⟨hfirst, fun c hc => ?_⟩
    obtain ⟨u, hu, hc⟩ := List.mem_flatMap.1 hc
    rcases List.mem_cons.1 hc with rfl | hc
    · exact hcomma
    · rcases List.mem_cons.1 hc with rfl | hc
      · exact hblank
      · exact hrest u hu c hc

/-- The values are separated by commas. -/
theorem printValues_eq {values : List JsonSource} :
    printValues values = Text.join [',', ' '] (values.map print) ++ [']'] := by
  cases values with
  | nil => rfl
  | cons value values =>
    rw [printValues, printMoreValues_eq, List.map_cons, join_cons_eq_flatMap, List.flatMap_map,
      List.append_assoc]

def printField (field : PlainString × JsonSource) : Text :=
  printString field.1 ++ (':' :: ' ' :: field.2.print)

theorem printMoreFields_eq {fields : List (PlainString × JsonSource)} : printMoreFields fields =
    (fields.flatMap fun field => ',' :: ' ' :: printField field) ++ ['\x7d'] := by
  induction fields with
  | nil => rfl
  | cons field fields ih => simp [printMoreFields, printField, ih]

theorem printFields_eq {fields : List (PlainString × JsonSource)} :
    printFields fields = Text.join [',', ' '] (fields.map printField) ++ ['\x7d'] := by
  cases fields with
  | nil => rfl
  | cons field fields =>
    rw [printFields, printMoreFields_eq, List.map_cons, join_cons_eq_flatMap, List.flatMap_map]
    simp [printField]

theorem print_arr {values : List JsonSource} :
    (arr values).print = '[' :: (Text.join [',', ' '] (values.map print) ++ [']']) := by
  rw [print, printValues_eq]

theorem print_obj {fields : List (PlainString × JsonSource)} :
    (obj fields).print = '\x7b' :: (Text.join [',', ' '] (fields.map printField) ++ ['\x7d']) := by
  rw [print, printFields_eq]

variable {nearest : ℚ → ℚ}

theorem nodes_eq {values : List JsonSource} : nodes nearest values = values.map (node nearest) := by
  induction values with
  | nil => rfl
  | cons value values ih => rw [nodes, ih, List.map_cons]

theorem fieldNodes_eq {fields : List (PlainString × JsonSource)} : fieldNodes nearest fields =
    fields.map fun field => (field.1.1, field.2.node nearest) := by
  induction fields with
  | nil => rfl
  | cons field fields ih => rw [fieldNodes, ih, List.map_cons]

theorem node_arr {values : List JsonSource} :
    (arr values).node nearest = .arr (values.map (node nearest)) := by
  rw [node, nodes_eq]

theorem node_obj {fields : List (PlainString × JsonSource)} :
    (obj fields).node nearest = .obj (fields.map fun field => (field.1.1, field.2.node nearest)) := by
  rw [node, fieldNodes_eq]

end JsonSource

/-- A reader of documents. It rounds to the nearest `double`. -/
class JsonReader where
  nearest : ℚ → ℚ
  roundsToNearest : RoundsToNearest nearest
  read : Text → Option JsonNode
  read_print (source : JsonSource) : read source.print = some (source.node nearest)

/-! ## A text tells where it ends -/

namespace SixDecimals

theorem digitChar_inj {m n : ℕ} (h : Nat.digitChar (m % 10) = Nat.digitChar (n % 10)) :
    m % 10 = n % 10 := by
  have hinj : ∀ a < 10, ∀ b < 10, Nat.digitChar a = Nat.digitChar b → a = b := by decide
  exact hinj _ (Nat.mod_lt _ (by decide)) _ (Nat.mod_lt _ (by decide)) h

theorem sixDigits_inj {m n : ℕ} (hm : m < 10 ^ 6) (hn : n < 10 ^ 6)
    (h : sixDigits m = sixDigits n) : m = n := by
  simp only [sixDigits, List.map_cons, List.map_nil, List.cons.injEq, and_true] at h
  obtain ⟨h5, h4, h3, h2, h1, h0⟩ := h
  have := digitChar_inj h5
  have := digitChar_inj h4
  have := digitChar_inj h3
  have := digitChar_inj h2
  have := digitChar_inj h1
  have := digitChar_inj h0
  omega

theorem ofNat_append_inj {m n : ℕ} {a b : Text}
    (h : Text.ofNat m ++ '.' :: a = Text.ofNat n ++ '.' :: b) : m = n ∧ a = b := by
  have htake : ∀ (k : ℕ) (t : Text), (Text.ofNat k ++ '.' :: t).takeWhile Char.isDigit =
      Text.ofNat k := fun k t => by
    rw [List.takeWhile_append_of_pos fun c hc => Text.isDigit_of_mem_ofNat hc,
      List.takeWhile_cons_of_neg (by decide), List.append_nil]
  have hdigits := congrArg (List.takeWhile Char.isDigit) h
  rw [htake, htake] at hdigits
  obtain rfl := Text.ofNat_injective hdigits
  exact ⟨rfl, (List.cons.inj (List.append_cancel_left h)).2⟩

theorem print_inj {d e : SixDecimals} {a b : Text} (h : d.print ++ a = e.print ++ b) :
    d = e ∧ a = b := by
  obtain ⟨sign, m, hm⟩ := d
  obtain ⟨sign', n, hn⟩ := e
  have hhead : ∀ (k : ℕ) (t t' : Text), Text.ofNat k ++ t ≠ '-' :: t' := fun k t t' hk => by
    obtain ⟨c, cs, hcs⟩ := List.exists_cons_of_ne_nil (Text.ofNat_ne_nil k)
    have hdigit : c.isDigit = true := Text.isDigit_of_mem_ofNat (hcs ▸ List.mem_cons_self)
    rw [hcs, List.cons_append, List.cons.injEq] at hk
    rw [hk.1] at hdigit
    cases hdigit
  have hmag : Text.ofNat (m / 10 ^ 6) ++ '.' :: (sixDigits (m % 10 ^ 6) ++ a) =
      Text.ofNat (n / 10 ^ 6) ++ '.' :: (sixDigits (n % 10 ^ 6) ++ b) ∧ sign = sign' := by
    cases sign <;> cases sign' <;>
      simp only [print, if_true, Bool.false_eq_true, if_false, List.append_assoc,
        List.cons_append] at h
    · exact ⟨h, rfl⟩
    · exact absurd h (hhead _ _ _)
    · exact absurd h.symm (hhead _ _ _)
    · exact ⟨(List.cons.inj h).2, rfl⟩
  obtain ⟨hmag, rfl⟩ := hmag
  obtain ⟨hint, hfrac⟩ := ofNat_append_inj hmag
  obtain ⟨hsix, hrest⟩ := List.append_inj hfrac rfl
  have hmod := sixDigits_inj (Nat.mod_lt _ (by decide)) (Nat.mod_lt _ (by decide)) hsix
  obtain rfl : m = n := by omega
  exact ⟨rfl, hrest⟩

end SixDecimals

namespace JsonSource

theorem printString_inj {t u : PlainString} {a b : Text}
    (h : printString t ++ a = printString u ++ b) : t = u ∧ a = b := by
  have htake : ∀ (t : PlainString) (a : Text), (t.1 ++ '"' :: a).takeWhile (· ≠ '"') = t.1 :=
    fun t a => by
      rw [List.takeWhile_append_of_pos fun c hc => decide_eq_true (t.2 c hc).1,
        List.takeWhile_cons_of_neg (by decide), List.append_nil]
  simp only [printString, List.cons_append, List.append_assoc, List.nil_append,
    List.cons.injEq, true_and] at h
  have heq := congrArg (List.takeWhile (· ≠ '"')) h
  rw [htake, htake] at heq
  rw [heq] at h
  exact ⟨Subtype.ext heq, (List.cons.inj (List.append_cancel_left h)).2⟩

/-- The first character of a text tells the kind of the document. -/
def headKind (c : Char) : ℕ :=
  if c = 'n' then 0 else if c = '"' then 1 else if c = '[' then 2 else if c = '\x7b' then 3
  else if c = '-' ∨ c.isDigit then 4 else 5

def kind : JsonSource → ℕ
  | .null => 0
  | .str _ => 1
  | .arr _ => 2
  | .obj _ => 3
  | .number _ => 4

theorem exists_print_eq_cons (v : JsonSource) : ∃ c t, v.print = c :: t ∧ headKind c = v.kind := by
  cases v with
  | null => exact ⟨'n', _, rfl, rfl⟩
  | str => exact ⟨'"', _, rfl, rfl⟩
  | arr => exact ⟨'[', _, rfl, rfl⟩
  | obj => exact ⟨'\x7b', _, rfl, rfl⟩
  | number d =>
    obtain ⟨sign, m, hm⟩ := d
    cases sign with
    | true =>
      refine ⟨'-', Text.ofNat (m / 10 ^ 6) ++ '.' :: SixDecimals.sixDigits (m % 10 ^ 6), ?_, rfl⟩
      simp [print, SixDecimals.print]
    | false =>
      obtain ⟨c, cs, hcs⟩ := List.exists_cons_of_ne_nil (Text.ofNat_ne_nil (m / 10 ^ 6))
      have hdigit : c.isDigit = true := Text.isDigit_of_mem_ofNat (hcs ▸ List.mem_cons_self)
      refine ⟨c, cs ++ '.' :: SixDecimals.sixDigits (m % 10 ^ 6), ?_, ?_⟩
      · rw [print, SixDecimals.print, hcs]
        rfl
      · have hne : ∀ d : Char, d.isDigit = false → c ≠ d := fun d hd h => by
          rw [h, hd] at hdigit
          cases hdigit
        simp [headKind, kind, hdigit, hne 'n' rfl, hne '"' rfl, hne '[' rfl, hne '\x7b' rfl]

theorem kind_eq {v w : JsonSource} {a b : Text} (h : v.print ++ a = w.print ++ b) :
    v.kind = w.kind := by
  obtain ⟨c, t, hv, hc⟩ := exists_print_eq_cons v
  obtain ⟨d, u, hw, hd⟩ := exists_print_eq_cons w
  rw [hv, hw, List.cons_append, List.cons_append, List.cons.injEq] at h
  rw [← hc, ← hd, h.1]

theorem print_append_ne {v : JsonSource} {a b : Text} {c : Char} (hc : headKind c = 5) :
    v.print ++ a ≠ c :: b := by
  obtain ⟨d, t, hv, hd⟩ := exists_print_eq_cons v
  rw [hv, List.cons_append]
  intro h
  rw [(List.cons.inj h).1, hc] at hd
  cases v <;> cases hd

mutual

theorem print_inj {v w : JsonSource} {a b : Text} (h : v.print ++ a = w.print ++ b) :
    v = w ∧ a = b := by
  have hkind := kind_eq h
  cases v with
  | null =>
    cases w with
    | null => exact ⟨rfl, List.append_cancel_left h⟩
    | _ => cases hkind
  | number d =>
    cases w with
    | number e =>
      obtain ⟨rfl, rfl⟩ := SixDecimals.print_inj h
      exact ⟨rfl, rfl⟩
    | _ => cases hkind
  | str t =>
    cases w with
    | str u =>
      obtain ⟨rfl, rfl⟩ := printString_inj h
      exact ⟨rfl, rfl⟩
    | _ => cases hkind
  | arr values =>
    cases w with
    | arr others =>
      obtain ⟨rfl, rfl⟩ := printValues_inj (List.cons.inj h).2
      exact ⟨rfl, rfl⟩
    | _ => cases hkind
  | obj fields =>
    cases w with
    | obj others =>
      obtain ⟨rfl, rfl⟩ := printFields_inj (List.cons.inj h).2
      exact ⟨rfl, rfl⟩
    | _ => cases hkind
termination_by structural v

theorem printValues_inj {vs ws : List JsonSource} {a b : Text}
    (h : printValues vs ++ a = printValues ws ++ b) : vs = ws ∧ a = b := by
  cases vs with
  | nil =>
    cases ws with
    | nil => exact ⟨rfl, (List.cons.inj h).2⟩
    | cons w ws =>
      rw [printValues, printValues, List.append_assoc] at h
      exact absurd h.symm (print_append_ne rfl)
  | cons v vs =>
    cases ws with
    | nil =>
      rw [printValues, printValues, List.append_assoc] at h
      exact absurd h (print_append_ne rfl)
    | cons w ws =>
      rw [printValues, printValues, List.append_assoc, List.append_assoc] at h
      obtain ⟨rfl, hmore⟩ := print_inj h
      obtain ⟨rfl, rfl⟩ := printMoreValues_inj hmore
      exact ⟨rfl, rfl⟩
termination_by structural vs

theorem printMoreValues_inj {vs ws : List JsonSource} {a b : Text}
    (h : printMoreValues vs ++ a = printMoreValues ws ++ b) : vs = ws ∧ a = b := by
  cases vs with
  | nil =>
    cases ws with
    | nil => exact ⟨rfl, (List.cons.inj h).2⟩
    | cons => exact absurd (List.cons.inj h).1 (by decide)
  | cons v vs =>
    cases ws with
    | nil => exact absurd (List.cons.inj h).1 (by decide)
    | cons w ws =>
      simp only [printMoreValues, List.cons_append, List.cons.injEq, true_and,
        List.append_assoc] at h
      obtain ⟨rfl, hmore⟩ := print_inj h
      obtain ⟨rfl, rfl⟩ := printMoreValues_inj hmore
      exact ⟨rfl, rfl⟩
termination_by structural vs

theorem printFields_inj {fs gs : List (PlainString × JsonSource)} {a b : Text}
    (h : printFields fs ++ a = printFields gs ++ b) : fs = gs ∧ a = b := by
  cases fs with
  | nil =>
    cases gs with
    | nil => exact ⟨rfl, (List.cons.inj h).2⟩
    | cons g => exact absurd (List.cons.inj h).1 (by decide)
  | cons f fs =>
    cases gs with
    | nil => exact absurd (List.cons.inj h).1 (by decide)
    | cons g gs =>
      obtain ⟨key, value⟩ := f
      obtain ⟨key', value'⟩ := g
      rw [printFields, printFields, List.append_assoc, List.append_assoc] at h
      obtain ⟨rfl, hfield⟩ := printString_inj h
      simp only [List.cons_append, List.cons.injEq, true_and, List.append_assoc] at hfield
      obtain ⟨rfl, hmore⟩ := print_inj hfield
      obtain ⟨rfl, rfl⟩ := printMoreFields_inj hmore
      exact ⟨rfl, rfl⟩
termination_by structural fs

theorem printMoreFields_inj {fs gs : List (PlainString × JsonSource)} {a b : Text}
    (h : printMoreFields fs ++ a = printMoreFields gs ++ b) : fs = gs ∧ a = b := by
  cases fs with
  | nil =>
    cases gs with
    | nil => exact ⟨rfl, (List.cons.inj h).2⟩
    | cons g => exact absurd (List.cons.inj h).1 (by decide)
  | cons f fs =>
    cases gs with
    | nil => exact absurd (List.cons.inj h).1 (by decide)
    | cons g gs =>
      obtain ⟨key, value⟩ := f
      obtain ⟨key', value'⟩ := g
      simp only [printMoreFields, List.cons_append, List.cons.injEq, true_and,
        List.append_assoc] at h
      obtain ⟨rfl, hfield⟩ := printString_inj h
      simp only [List.cons.injEq, true_and] at hfield
      obtain ⟨rfl, hmore⟩ := print_inj hfield
      obtain ⟨rfl, rfl⟩ := printMoreFields_inj hmore
      exact ⟨rfl, rfl⟩
termination_by structural fs

end

theorem print_injective : Function.Injective print := fun v w h => by
  have happend : v.print ++ [] = w.print ++ [] := congrArg (· ++ []) h
  exact (print_inj happend).1

end JsonSource

/-- The law holds of a reader that knows nothing but these texts. -/
noncomputable abbrev plainJsonReader : JsonReader where
  nearest := Classical.choose exists_roundsToNearest
  roundsToNearest := Classical.choose_spec exists_roundsToNearest
  read t := (Function.partialInv JsonSource.print t).map
    (JsonSource.node (Classical.choose exists_roundsToNearest))
  read_print source := by
    rw [Function.partialInv_left JsonSource.print_injective, Option.map_some]

end DuckLake
