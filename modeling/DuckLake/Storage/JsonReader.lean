import DuckLake.Storage.DataFileRows

/-!
# Reading documents

A reader for the documents that the JSON library writes without blanks. What was written is read
back; a value tells where it ends.
-/

namespace DuckLake

/-! ## Strings -/

def hexValue (c : Char) : Option Nat :=
  if c.isDigit then some (c.toNat - '0'.toNat)
  else if 'A' ≤ c ∧ c ≤ 'F' then some (c.toNat - 'A'.toNat + 10)
  else none

/-- The character after a backslash that is not that of a code point. -/
def unescapeChar (c : Char) : Option Char :=
  if c = '"' ∨ c = '\\' then some c
  else if c = 'n' then some '\n' else if c = 'r' then some '\r' else if c = 't' then some '\t'
  else if c = 'b' then some '\x08' else if c = 'f' then some '\x0c' else none

/-- The string up to the closing quote, and what follows it. -/
def readJsonString : Text → Option (Text × Text)
  | [] => none
  | '"' :: t => some ([], t)
  | '\\' :: 'u' :: '0' :: '0' :: high :: low :: t => do
    let high ← hexValue high
    let low ← hexValue low
    let s ← readJsonString t
    return (Char.ofNat (16 * high + low) :: s.1, s.2)
  | '\\' :: c :: t => do
    let c ← unescapeChar c
    let s ← readJsonString t
    return (c :: s.1, s.2)
  | c :: t => (readJsonString t).map fun s => (c :: s.1, s.2)

/-! ## Numbers -/

def isNumberChar (c : Char) : Bool := c = '-' || c.isDigit

def readJsonNumber (t : Text) : Option (Json × Text) :=
  (Text.readInteger (t.takeWhile isNumberChar)).map fun i => (.int i, t.dropWhile isNumberChar)

/-! ## Values -/

mutual

def readValue : Nat → Text → Option (Json × Text)
  | 0, _ => none
  | _, [] => none
  | fuel + 1, c :: t =>
    if c = '"' then (readJsonString t).map fun s => (.str s.1, s.2)
    else if c = '[' then
      if t.head? = some ']' then some (.arr [], t.tail)
      else (readItems fuel t).map fun items => (.arr items.1, items.2)
    else if c = '\x7b' then
      if t.head? = some '\x7d' then some (.obj [], t.tail)
      else (readMembers fuel t).map fun members => (.obj members.1, members.2)
    else if c = 't' then if t.take 3 = "rue".toList then some (.bool true, t.drop 3) else none
    else if c = 'f' then if t.take 4 = "alse".toList then some (.bool false, t.drop 4) else none
    else readJsonNumber (c :: t)

/-- The items of an array that is not empty. -/
def readItems : Nat → Text → Option (List Json × Text)
  | 0, _ => none
  | fuel + 1, t =>
    match readValue fuel t with
    | some (item, ']' :: t) => some ([item], t)
    | some (item, ',' :: t) => (readItems fuel t).map fun items => (item :: items.1, items.2)
    | _ => none

def readMembers : Nat → Text → Option (List (Text × Json) × Text)
  | 0, _ => none
  | fuel + 1, t =>
    match readJsonString t.tail with
    | some (key, ':' :: t) =>
      match readValue fuel t with
      | some (value, '\x7d' :: t) => some ([(key, value)], t)
      | some (value, ',' :: t) =>
        (readMembers fuel t).map fun members => ((key, value) :: members.1, members.2)
      | _ => none
    | _ => none

end

/-- `yyjson_read`, of a document that was written without blanks. -/
def Json.read (t : Text) : Option Json :=
  match readValue t.length t with
  | some (document, []) => some document
  | _ => none

/-! ## What was written is read -/

theorem hexValue_digit : ∀ d < 16, hexValue ((Nat.digitChar d).toUpper) = some d := by decide

theorem hexValue_decimal : ∀ d < 10, hexValue (Nat.digitChar d) = some d := by decide

theorem readJsonString_escape {c d : Char} (h : unescapeChar c = some d) (t : Text) :
    readJsonString ('\\' :: c :: t) = (readJsonString t).map fun s => (d :: s.1, s.2) := by
  have hu : c ≠ 'u' := fun hc => by rw [hc] at h; cases h
  rw [readJsonString, h]
  · cases readJsonString t <;> rfl
  · exact fun _ _ _ hc => absurd hc hu

theorem readJsonString_plain {c : Char} (hquote : c ≠ '"') (hslash : c ≠ '\\') (t : Text) :
    readJsonString (c :: t) = (readJsonString t).map fun s => (c :: s.1, s.2) := by
  rw [readJsonString]
  · exact hquote
  · exact fun _ _ _ hc => absurd hc hslash
  · exact fun _ _ hc => absurd hc hslash

theorem readJsonString_writeJsonChar (c : Char) (t : Text) :
    readJsonString (writeJsonChar c ++ t) = (readJsonString t).map fun s => (c :: s.1, s.2) := by
  unfold writeJsonChar
  split
  · next h => exact h ▸ readJsonString_escape rfl t
  split
  · next h => exact h ▸ readJsonString_escape rfl t
  split
  · next h => exact h ▸ readJsonString_escape rfl t
  split
  · next h => exact h ▸ readJsonString_escape rfl t
  split
  · next h => exact h ▸ readJsonString_escape rfl t
  split
  · next h => exact h ▸ readJsonString_escape rfl t
  split
  · next h => exact h ▸ readJsonString_escape rfl t
  split
  · next h =>
    have hhigh := hexValue_decimal (c.toNat / 16) (by omega)
    have hlow := hexValue_digit (c.toNat % 16) (by omega)
    have hc : Char.ofNat (16 * (c.toNat / 16) + c.toNat % 16) = c := by
      rw [Nat.div_add_mod, Char.ofNat_toNat]
    change readJsonString ('\\' :: 'u' :: '0' :: '0' :: Nat.digitChar (c.toNat / 16) ::
      (Nat.digitChar (c.toNat % 16)).toUpper :: t) = _
    rw [readJsonString, hhigh, hlow]
    simp only [Option.bind_eq_bind, Option.bind_some, hc]
    cases readJsonString t <;> rfl
  · next hquote hslash _ _ _ _ _ _ => exact readJsonString_plain hquote hslash t

theorem readJsonString_writeJsonString (s rest : Text) :
    readJsonString (s.flatMap writeJsonChar ++ '"' :: rest) = some (s, rest) := by
  induction s with
  | nil => rfl
  | cons c s ih =>
    rw [List.flatMap_cons, List.append_assoc, readJsonString_writeJsonChar, ih]
    rfl

/-- What stands behind a value does not go on with a number. -/
def EndsNumber (rest : Text) : Prop := ∀ c ∈ rest.head?, isNumberChar c = false

theorem isNumberChar_of_mem_ofInt {i : Int} {c : Char} (h : c ∈ Text.ofInt i) :
    isNumberChar c = true := by
  have hdigit : ∀ {n : Nat}, c ∈ Text.ofNat n → isNumberChar c = true := fun h => by
    simp [isNumberChar, Text.isDigit_of_mem_ofNat h]
  unfold Text.ofInt at h
  split at h
  · obtain rfl | h := List.mem_cons.1 h
    · rfl
    · exact hdigit h
  · exact hdigit h

theorem readJsonNumber_ofInt (i : Int) {rest : Text} (h : EndsNumber rest) :
    readJsonNumber (Text.ofInt i ++ rest) = some (.int i, rest) := by
  have hstop : rest.takeWhile isNumberChar = [] ∧ rest.dropWhile isNumberChar = rest := by
    cases rest with
    | nil => exact ⟨rfl, rfl⟩
    | cons c rest => simp [h c rfl]
  have hnumber : ∀ c ∈ Text.ofInt i, isNumberChar c = true := fun _ => isNumberChar_of_mem_ofInt
  rw [readJsonNumber, List.takeWhile_append_of_pos hnumber, List.dropWhile_append_of_pos hnumber,
    hstop.1, hstop.2, List.append_nil, Text.readInteger_ofInt]
  rfl

/-- A value begins with a character of its kind. -/
theorem exists_write_eq_cons (j : Json) : ∃ c t, j.write = c :: t ∧ c ≠ ']' := by
  cases j with
  | bool b => cases b <;> exact ⟨_, _, rfl, by decide⟩
  | int i =>
    cases hi : Text.ofInt i with
    | nil =>
      unfold Text.ofInt at hi
      split at hi
      · cases hi
      · exact absurd hi (Text.ofNat_ne_nil _)
    | cons c t =>
      have hnumber := isNumberChar_of_mem_ofInt (hi ▸ List.mem_cons_self : c ∈ Text.ofInt i)
      refine ⟨c, t, hi, fun hc => ?_⟩
      rw [hc] at hnumber
      cases hnumber
  | str => exact ⟨_, _, rfl, by decide⟩
  | arr => exact ⟨_, _, rfl, by decide⟩
  | obj => exact ⟨_, _, rfl, by decide⟩

theorem write_ne_nil (j : Json) : j.write ≠ [] := by
  obtain ⟨c, t, h, -⟩ := exists_write_eq_cons j
  rw [h]
  exact List.cons_ne_nil c t

theorem readValue_number {c : Char} (h : isNumberChar c = true) (fuel : Nat) (t : Text) :
    readValue (fuel + 1) (c :: t) = readJsonNumber (c :: t) := by
  have hne : ∀ d : Char, isNumberChar d = false → c ≠ d := fun d hd hc => by
    rw [hc, hd] at h
    cases h
  rw [readValue, if_neg (hne '"' rfl), if_neg (hne '[' rfl), if_neg (hne '\x7b' rfl),
    if_neg (hne 't' rfl), if_neg (hne 'f' rfl)]

theorem readValue_int (i : Int) (fuel : Nat) {rest : Text} (hrest : EndsNumber rest) :
    readValue (fuel + 1) (Text.ofInt i ++ rest) = some (.int i, rest) := by
  obtain ⟨c, t, h, -⟩ := exists_write_eq_cons (.int i)
  rw [Json.write] at h
  have hnumber := isNumberChar_of_mem_ofInt (h ▸ List.mem_cons_self : c ∈ Text.ofInt i)
  rw [h, List.cons_append, readValue_number hnumber, ← List.cons_append, ← h,
    readJsonNumber_ofInt i hrest]

theorem endsNumber_cons {c : Char} (h : isNumberChar c = false) (rest : Text) :
    EndsNumber (c :: rest) := fun _ hd => Option.some.inj hd ▸ h

theorem length_pos_write (j : Json) : 0 < j.write.length :=
  List.length_pos_iff.2 (write_ne_nil j)

theorem exists_join_writeItems (item : Json) (items : List Json) :
    ∃ c t, Text.join [','] (writeItems (item :: items)) = c :: t ∧ c ≠ ']' := by
  obtain ⟨c, t, h, hc⟩ := exists_write_eq_cons item
  cases items with
  | nil => exact ⟨c, t, h, hc⟩
  | cons next items =>
    rw [writeItems, Text.join_cons (by simp [writeItems]), h]
    exact ⟨c, _, rfl, hc⟩

theorem exists_join_writeMembers (member : Text × Json) (members : List (Text × Json)) :
    ∃ t, Text.join [','] (writeMembers (member :: members)) = '"' :: t := by
  cases members with
  | nil => exact ⟨_, rfl⟩
  | cons next members => exact ⟨_, rfl⟩

theorem writeMembers_cons (key : Text) (value : Json) (members : List (Text × Json)) :
    writeMembers ((key, value) :: members) =
      (writeJsonString key ++ ':' :: value.write) :: writeMembers members := by
  rw [writeMembers, List.append_assoc]
  rfl

/-- A member that stands before another one or the closing brace. -/
theorem readMember_write (key : Text) (value : Json) (rest : Text) :
    readJsonString ((writeJsonString key ++ ':' :: value.write) ++ rest).tail =
      some (key, ':' :: (value.write ++ rest)) := by
  have htail : ((writeJsonString key ++ ':' :: value.write) ++ rest).tail =
      key.flatMap writeJsonChar ++ '"' :: ':' :: (value.write ++ rest) := by
    rw [writeJsonString, List.append_assoc, List.append_assoc, List.append_assoc]
    rfl
  rw [htail, readJsonString_writeJsonString]

mutual

theorem readValue_write (j : Json) (fuel : Nat) (rest : Text) (hfuel : j.write.length ≤ fuel)
    (hrest : EndsNumber rest) : readValue fuel (j.write ++ rest) = some (j, rest) := by
  cases fuel with
  | zero => exact absurd (length_pos_write j) (by omega)
  | succ fuel =>
    cases j with
    | bool b => cases b <;> simp [Json.write, readValue]
    | int i => exact readValue_int i fuel hrest
    | str t =>
      rw [Json.write, writeJsonString, List.append_assoc, List.append_assoc]
      change readValue (fuel + 1) ('"' :: (t.flatMap writeJsonChar ++ '"' :: rest)) = _
      rw [readValue, if_pos rfl, readJsonString_writeJsonString]
      rfl
    | arr items =>
      cases items with
      | nil => simp [Json.write, writeItems, Text.join, readValue]
      | cons item items =>
        obtain ⟨c, t, hc, hclose⟩ := exists_join_writeItems item items
        have hwrite : (Json.arr (item :: items)).write =
            '[' :: (Text.join [','] (writeItems (item :: items)) ++ [']']) := rfl
        rw [hwrite, List.length_cons, List.length_append, List.length_singleton] at hfuel
        have hitems := readItems_write (item :: items) fuel rest (by simp) (by omega)
        rw [hwrite, List.cons_append, List.append_assoc, List.singleton_append]
        rw [hc] at hitems ⊢
        rw [readValue, if_neg (by decide), if_pos rfl, if_neg (by simpa using hclose), hitems]
        rfl
    | obj members =>
      cases members with
      | nil => simp [Json.write, writeMembers, Text.join, readValue]
      | cons member members =>
        obtain ⟨t, ht⟩ := exists_join_writeMembers member members
        have hwrite : (Json.obj (member :: members)).write =
            '\x7b' :: (Text.join [','] (writeMembers (member :: members)) ++ ['\x7d']) := rfl
        rw [hwrite, List.length_cons, List.length_append, List.length_singleton] at hfuel
        have hmembers := readMembers_write (member :: members) fuel rest (by simp) (by omega)
        rw [hwrite, List.cons_append, List.append_assoc, List.singleton_append]
        rw [ht] at hmembers ⊢
        rw [readValue, if_neg (by decide), if_neg (by decide), if_pos rfl, if_neg (by simp),
          hmembers]
        rfl
termination_by structural j

theorem readItems_write (items : List Json) (fuel : Nat) (rest : Text) (hne : items ≠ [])
    (hfuel : (Text.join [','] (writeItems items)).length + 1 ≤ fuel) :
    readItems fuel (Text.join [','] (writeItems items) ++ ']' :: rest) = some (items, rest) := by
  cases fuel with
  | zero => cases hfuel
  | succ fuel =>
    cases items with
    | nil => exact absurd rfl hne
    | cons item items =>
      cases items with
      | nil =>
        have hitem := readValue_write item fuel (']' :: rest) (by simpa [writeItems, Text.join] using hfuel)
          (endsNumber_cons rfl rest)
        rw [writeItems, writeItems, Text.join, readItems, hitem]
        rfl
      | cons next items =>
        have hjoin : Text.join [','] (writeItems (item :: next :: items)) =
            item.write ++ ',' :: Text.join [','] (writeItems (next :: items)) := by
          rw [writeItems, Text.join_cons (by simp [writeItems]), List.append_assoc]
          rfl
        rw [hjoin, List.length_append, List.length_cons] at hfuel
        have hpos := length_pos_write item
        have hitem := readValue_write item fuel
          (',' :: (Text.join [','] (writeItems (next :: items)) ++ ']' :: rest)) (by omega)
          (endsNumber_cons rfl _)
        have hitems := readItems_write (next :: items) fuel rest (by simp) (by omega)
        rw [hjoin, List.append_assoc, List.cons_append, readItems, hitem]
        simp only [hitems, Option.map_some]
termination_by structural items

theorem readMembers_write (members : List (Text × Json)) (fuel : Nat) (rest : Text)
    (hne : members ≠ []) (hfuel : (Text.join [','] (writeMembers members)).length + 1 ≤ fuel) :
    readMembers fuel (Text.join [','] (writeMembers members) ++ '\x7d' :: rest) =
      some (members, rest) := by
  cases fuel with
  | zero => cases hfuel
  | succ fuel =>
    cases members with
    | nil => exact absurd rfl hne
    | cons member members =>
      obtain ⟨key, value⟩ := member
      cases members with
      | nil =>
        have hmember : Text.join [','] (writeMembers [(key, value)]) =
            writeJsonString key ++ ':' :: value.write := by
          rw [writeMembers_cons]
          rfl
        rw [hmember, List.length_append, List.length_cons] at hfuel
        have hvalue := readValue_write value fuel ('\x7d' :: rest) (by omega)
          (endsNumber_cons rfl rest)
        rw [hmember, readMembers, readMember_write]
        simp only [hvalue]
      | cons next members =>
        have hjoin : Text.join [','] (writeMembers ((key, value) :: next :: members)) =
            (writeJsonString key ++ ':' :: value.write) ++
              ',' :: Text.join [','] (writeMembers (next :: members)) := by
          rw [writeMembers_cons, Text.join_cons (by simp [writeMembers]), List.append_assoc]
          rfl
        rw [hjoin, List.length_append, List.length_append, List.length_cons,
          List.length_cons] at hfuel
        have hvalue := readValue_write value fuel
          (',' :: (Text.join [','] (writeMembers (next :: members)) ++ '\x7d' :: rest)) (by omega)
          (endsNumber_cons rfl _)
        have hmembers := readMembers_write (next :: members) fuel rest (by simp) (by omega)
        rw [hjoin, List.append_assoc (writeJsonString key ++ ':' :: value.write),
          List.cons_append, readMembers, readMember_write]
        simp only [hvalue, hmembers, Option.map_some]
termination_by structural members

end

theorem read_write (j : Json) : Json.read j.write = some j := by
  have h := readValue_write j j.write.length [] le_rfl nofun
  rw [List.append_nil] at h
  rw [Json.read, h]

end DuckLake
