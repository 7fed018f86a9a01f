import Mathlib.Algebra.Order.Ring.Nat
import Mathlib.Data.List.TakeWhile
import DuckLake.Lib.Text

/-!
# Quoted values, quoted lists and catalog entries

The textual helpers of `common/ducklake_util.cpp`. A parser of the source walks a string with a
position that it moves forward; here it takes the text from that position on and returns what is
left of it.
-/

namespace DuckLake

/-! ## Exceptions -/

inductive ExceptionType where
  | invalidInput | transaction | internal | outOfRange | invalidArgument
  | invalidConfiguration | notImplemented | catalog | constraint | binder
deriving DecidableEq, Repr

structure Exception where
  type : ExceptionType
  message : Text
deriving DecidableEq

def invalidInputException {α : Type} (message : Text) : Except Exception α :=
  .error ⟨.invalidInput, message⟩

def transactionException {α : Type} (message : Text) : Except Exception α :=
  .error ⟨.transaction, message⟩

def internalException {α : Type} (message : Text) : Except Exception α :=
  .error ⟨.internal, message⟩

/-! ## Text functions of the database engine -/

/-- The part of a string that C functions see. -/
def cString (t : Text) : Text := t.takeWhile (· ≠ '\x00')

/-- The writers of SQL text that the engine provides. An identifier is always quoted with `"` and
a string literal with `'`; both double the quote character inside. -/
class SQLWriter where
  quotedIdentifier : Text → Text
  sqlString : Text → Text
  quotedIdentifier_eq : ∀ t, quotedIdentifier t = Text.writeQuoted '"' t
  sqlString_eq : ∀ t, sqlString t = Text.writeQuoted '\'' t

/-- The writers as the engine documents them. -/
@[reducible] def SQLWriter.reference : SQLWriter where
  quotedIdentifier := Text.writeQuoted '"'
  sqlString := Text.writeQuoted '\''
  quotedIdentifier_eq _ := rfl
  sqlString_eq _ := rfl

/-- `idx_t`. -/
abbrev Idx := UInt64

/-- `to_string` of an index. -/
def Idx.toText (i : Idx) : Text := Text.ofNat i.toNat

/-- `StringUtil::ToUnsigned`: leading blanks and a sign are accepted, the digits that follow are
read up to the first other character, and a minus sign negates the unsigned value. -/
def toUnsigned (t : Text) : Except Exception Idx :=
  let t := t.dropWhile Char.isWhitespace
  let (negative, t) := match t with
    | '-' :: t => (true, t)
    | '+' :: t => (false, t)
    | t => (false, t)
  let digits := t.takeWhile Char.isDigit
  let n := Nat.ofDigitChars 10 digits 0
  if digits.isEmpty then .error ⟨.invalidArgument, "stoull"⟩
  else if 2 ^ 64 ≤ n then .error ⟨.outOfRange, "stoull"⟩
  else .ok (if negative then -UInt64.ofNat n else UInt64.ofNat n)

private theorem not_blank_of_isDigit {c : Char} (h : c.isDigit) :
    c.isWhitespace = false ∧ c ≠ '-' ∧ c ≠ '+' := by
  simp only [Char.isDigit, ge_iff_le, Bool.and_eq_true, decide_eq_true_eq] at h
  refine ⟨?_, ?_, ?_⟩
  · simp only [Char.isWhitespace, Bool.or_eq_false_iff, decide_eq_false_iff_not]
    refine ⟨⟨⟨?_, ?_⟩, ?_⟩, ?_⟩ <;> rintro rfl <;> exact absurd h.1 (by decide)
  all_goals rintro rfl; exact absurd h.1 (by decide)

theorem toUnsigned_toText (i : Idx) : toUnsigned i.toText = .ok i := by
  obtain ⟨c, l, hl⟩ := List.exists_cons_of_ne_nil (Text.ofNat_ne_nil i.toNat)
  have hdigits : ∀ d ∈ c :: l, d.isDigit := fun d hd =>
    Text.isDigit_of_mem_ofNat (n := i.toNat) (hl ▸ hd)
  obtain ⟨hblank, hminus, hplus⟩ := not_blank_of_isDigit (hdigits c (by simp))
  have htake : (c :: l).takeWhile Char.isDigit = c :: l := List.takeWhile_eq_self_iff.2 hdigits
  have hvalue : Nat.ofDigitChars 10 (c :: l) 0 = i.toNat := by
    rw [← hl]
    exact Nat.ofDigitChars_ten_toDigits
  have hlt : i.toNat < 2 ^ 64 := i.toNat_lt
  rw [Idx.toText, hl, toUnsigned, List.dropWhile_cons_of_neg (by simp [hblank])]
  split
  rename_i heq
  split at heq
  · exact absurd (List.cons.inj ‹_›).1 hminus
  · exact absurd (List.cons.inj ‹_›).1 hplus
  · cases heq
    simp only [htake, hvalue, List.isEmpty_cons, Bool.false_eq_true, if_false]
    rw [if_neg (by omega)]
    simp

/-! ## Quoted values -/

def parseQuotedBody : Text → Text → Except Exception (Text × Text)
  | _, [] => invalidInputException "Failed to parse quoted value - unterminated quote"
  -- check if this is an escaped quote
  | result, '"' :: '"' :: input => parseQuotedBody (result ++ ['"']) input
  | result, '"' :: input => .ok (result, input)
  | result, c :: input => parseQuotedBody (result ++ [c]) input

def parseQuotedValue : Text → Except Exception (Text × Text)
  | '"' :: input => parseQuotedBody [] input
  | _ => invalidInputException "Failed to parse quoted value - expected a quote"

/-- What may follow a quoted value: a further quote would read as an escaped one. -/
def NoQuote (rest : Text) : Prop := ∀ r, rest ≠ '"' :: r

theorem parseQuotedBody_escape {t rest : Text} (acc : Text) (h : NoQuote rest) :
    parseQuotedBody acc (Text.escape '"' t ++ '"' :: rest) = .ok (acc ++ t, rest) := by
  induction t generalizing acc with
  | nil =>
    rw [Text.escape, List.nil_append, List.append_nil, parseQuotedBody]
    exact fun r hr => h r hr
  | cons c t ih =>
    by_cases hc : c = '"'
    · simp [Text.escape, hc, parseQuotedBody, ih]
    · simp [Text.escape, hc, parseQuotedBody, ih]

theorem parseQuotedValue_writeQuoted (t : Text) {rest : Text} (h : NoQuote rest) :
    parseQuotedValue (Text.writeQuoted '"' t ++ rest) = .ok (t, rest) := by
  simp only [Text.writeQuoted, List.cons_append, List.append_assoc, List.nil_append,
    parseQuotedValue]
  exact parseQuotedBody_escape [] h

theorem parseQuotedBody_length {acc t : Text} {v : Text × Text}
    (h : parseQuotedBody acc t = .ok v) : v.2.length < t.length := by
  fun_induction parseQuotedBody acc t with
  | case1 => cases h
  | case2 _ _ ih => exact Nat.lt_trans (ih h) (by simp only [List.length_cons]; omega)
  | case3 => cases h; simp
  | case4 _ _ _ _ _ ih => exact Nat.lt_trans (ih h) (by simp)

theorem parseQuotedValue_length {t : Text} {v : Text × Text} (h : parseQuotedValue t = .ok v) :
    v.2.length < t.length := by
  unfold parseQuotedValue at h
  split at h
  · exact Nat.lt_trans (parseQuotedBody_length h) (by simp)
  · cases h

/-! ## Quoted lists -/

def toQuotedList [SQLWriter] (input : List Text) (listSeparator : Char) : Text :=
  Text.join [listSeparator] (input.map SQLWriter.quotedIdentifier)

def parseQuotedListLoop (listSeparator : Char) (input : Text) : Except Exception (List Text) :=
  match _h : parseQuotedValue input with
  | .error e => .error e
  | .ok (value, []) => .ok [value]
  | .ok (value, c :: rest) =>
    if c ≠ listSeparator then
      invalidInputException ("Failed to parse list - expected a " ++ [listSeparator])
    else do
      let values ← parseQuotedListLoop listSeparator rest
      return value :: values
termination_by input.length
decreasing_by
  have := parseQuotedValue_length _h
  simp only [List.length_cons] at this
  omega

def parseQuotedList (input : Text) (listSeparator : Char) : Except Exception (List Text) :=
  if input.isEmpty then .ok [] else parseQuotedListLoop listSeparator input

theorem parseQuotedListLoop_toQuotedList [SQLWriter] {sep : Char} (hsep : sep ≠ '"') {t : Text}
    {ts : List Text} :
    parseQuotedListLoop sep (toQuotedList (t :: ts) sep) = .ok (t :: ts) := by
  induction ts generalizing t with
  | nil =>
    have hv := parseQuotedValue_writeQuoted t (show NoQuote [] by simp [NoQuote])
    rw [List.append_nil] at hv
    simp only [toQuotedList, List.map_cons, List.map_nil, Text.join,
      SQLWriter.quotedIdentifier_eq]
    rw [parseQuotedListLoop]
    split <;> simp_all
  | cons u us ih =>
    have hrest : NoQuote (sep :: toQuotedList (u :: us) sep) := by simp [NoQuote, hsep]
    have hv := parseQuotedValue_writeQuoted t hrest
    have heq : toQuotedList (t :: u :: us) sep =
        Text.writeQuoted '"' t ++ sep :: toQuotedList (u :: us) sep := by
      simp [toQuotedList, Text.join, SQLWriter.quotedIdentifier_eq]
    rw [heq, parseQuotedListLoop]
    split
    · simp_all
    · simp_all
    · rename_i hw
      rw [hv] at hw
      cases hw
      simp only [ne_eq, not_true_eq_false, if_false]
      rw [ih]
      rfl

theorem toQuotedList_cons_ne_nil [SQLWriter] {sep : Char} {t : Text} {ts : List Text} :
    toQuotedList (t :: ts) sep ≠ [] := by
  cases ts <;> simp [toQuotedList, Text.join, SQLWriter.quotedIdentifier_eq, Text.writeQuoted]

theorem parseQuotedList_toQuotedList [SQLWriter] {sep : Char} (hsep : sep ≠ '"')
    (ts : List Text) : parseQuotedList (toQuotedList ts sep) sep = .ok ts := by
  cases ts with
  | nil => rfl
  | cons t ts =>
    rw [parseQuotedList, if_neg (by simpa using toQuotedList_cons_ne_nil),
      parseQuotedListLoop_toQuotedList hsep]

theorem closed_toQuotedList [SQLWriter] {sep sep' : Char} (hq : sep ≠ '"') (hq' : sep' ≠ '"')
    (hne : sep' ≠ sep) (ts : List Text) : Text.Closed '"' sep (toQuotedList ts sep') := by
  refine Text.Closed.join (.of_forall fun c hc => ?_) fun t ht => ?_
  · rw [List.mem_singleton] at hc
    exact ⟨hc ▸ hq', hc ▸ hne⟩
  · obtain ⟨u, -, rfl⟩ := List.mem_map.1 ht
    rw [SQLWriter.quotedIdentifier_eq]
    exact .writeQuoted hq u

/-! ## Catalog entries -/

structure ParsedCatalogEntry where
  schemaPath : List Text
  name : Text
deriving DecidableEq

def ParsedCatalogEntry.schemaKey [SQLWriter] (e : ParsedCatalogEntry) : Text :=
  toQuotedList e.schemaPath '.'

def parseCatalogEntry (input : Text) : Except Exception ParsedCatalogEntry := do
  let parts ← parseQuotedList input '.'
  if parts.length < 2 then
    invalidInputException "Failed to parse catalog entry - expected a schema and a name"
  else
    return ⟨parts.dropLast, parts.getLastD []⟩

theorem toQuotedList_append_singleton [SQLWriter] {sep : Char} {ts : List Text} (h : ts ≠ [])
    (t : Text) :
    toQuotedList ts sep ++ [sep] ++ SQLWriter.quotedIdentifier t = toQuotedList (ts ++ [t]) sep := by
  simp only [toQuotedList, List.map_append]
  rw [Text.join_append (by simpa using h) (by simp)]
  rfl

theorem parseCatalogEntry_toQuotedList [SQLWriter] {path : List Text} (h : path ≠ [])
    (name : Text) :
    parseCatalogEntry (toQuotedList (path ++ [name]) '.') = .ok ⟨path, name⟩ := by
  have hlen : ¬ (path ++ [name]).length < 2 := by
    have := List.length_pos_iff.2 h
    simp only [List.length_append, List.length_singleton]
    omega
  have hlast : (path ++ [name]).getLastD [] = name := by
    rw [List.getLastD_eq_getLast?]
    simp
  simp only [parseCatalogEntry, parseQuotedList_toQuotedList (show '.' ≠ '"' by decide), bind,
    Except.bind, if_neg hlen, List.dropLast_concat, hlast]
  rfl

end DuckLake
