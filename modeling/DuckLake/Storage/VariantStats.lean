import Mathlib.Algebra.Order.Ring.Nat
import Mathlib.Algebra.Ring.Int.Defs
import DuckLake.Common.Types
import DuckLake.Lib.Guard
import DuckLake.Storage.JsonReader
import DuckLake.Storage.VariantPaths

/-!
# Stored statistics of variants

The statistics of the shredded fields of a variant are stored as a document, in which each field has
its name. They are read back as a map from names to statistics.
-/

namespace DuckLake

/-! ## Documents -/

mutual

/-- The integers of the document are 64-bit numbers. -/
def Json.FitsBigint : Json → Prop
  | .int i => InBigint i
  | .arr items => ItemsFitBigint items
  | .obj members => MembersFitBigint members
  | _ => True

def ItemsFitBigint : List Json → Prop
  | [] => True
  | item :: items => item.FitsBigint ∧ ItemsFitBigint items

def MembersFitBigint : List (Text × Json) → Prop
  | [] => True
  | (_, value) :: members => value.FitsBigint ∧ MembersFitBigint members

end

/-- The JSON library reads what it writes, and no document begins with an apostrophe. A document of
extra statistics within a field is not taken apart here. -/
class StatsReader extends StatsWriter where
  readJson : Text → Option Json
  readJson_writeJson : ∀ document : Json, document.FitsBigint →
    readJson (writeJson document) = some document
  readJson_apostrophe : ∀ t, readJson ('\'' :: t) = none
  parseExtraStats : DuckLakeColumnExtraStats → Json → Except Exception DuckLakeColumnExtraStats

/-- `yyjson_obj_get`. -/
def Json.get? (key : Text) : Json → Option Json
  | .obj members => members.lookup key
  | _ => none

/-- `(idx_t) yyjson_get_int`: the number is an `int` in between. -/
def getIdx : Json → Nat
  | .int i => (i.bmod (2 ^ 32) % 2 ^ 64).toNat
  | _ => 0

def getBool : Json → Bool
  | .bool b => b
  | _ => false

/-- `yyjson_get_str`, with its length. -/
def getText : Json → Text
  | .str t => t
  | _ => []

theorem notMem_cString (t : Text) : '\x00' ∉ cString t := fun h => by
  simpa using List.mem_takeWhile_imp h

theorem cString_eq_self {t : Text} : cString t = t ↔ '\x00' ∉ t := by
  constructor
  · intro h
    rw [← h]
    exact notMem_cString t
  · intro h
    refine List.takeWhile_eq_self_iff.2 fun c hc => decide_eq_true ?_
    rintro rfl
    exact h hc

theorem cString_cString (t : Text) : cString (cString t) = cString t :=
  cString_eq_self.2 (notMem_cString t)

/-! ## Reading statistics -/

namespace DuckLakeVariantStats

def fieldName : DuckLakeVariantStats → Text
  | .mk name _ _ _ => name

def shreddedType : DuckLakeVariantStats → Text
  | .mk _ type _ _ => type

def fieldStats : DuckLakeVariantStats → DuckLakeColumnStats
  | .mk _ _ stats _ => stats

def extraStats : DuckLakeVariantStats → Option DuckLakeColumnExtraStats
  | .mk _ _ _ extra => extra

end DuckLakeVariantStats

/-- The extra statistics of new statistics of a type. -/
def initialExtraStats : LogicalTypeId → Option DuckLakeColumnExtraStats
  | .geometry => some (.geometry {})
  | .variant => some (.variant [])
  | _ => none

section Read

variable [StatsReader]

open StatsReader

/-- `Deserialize` of the extra statistics of a field. -/
def deserializeExtraStats (extra : DuckLakeColumnExtraStats) (text : Text) :
    Except Exception DuckLakeColumnExtraStats :=
  match readJson text with
  | some document => parseExtraStats extra document
  | none =>
    match extra with
    | .geometry _ => invalidInputException "Failed to parse geo stats JSON"
    | .variant _ => invalidInputException ("Failed to parse VARIANT stats JSON \"" ++ text ++ "\"")

/-- `DeserializeShreddedStats`, without the extra statistics. -/
def deserializeShreddedStats (type : LogicalTypeId) (object : Json) : DuckLakeColumnStats :=
  let nullCount := object.get? "null_count"
  let min := object.get? "min"
  let max := object.get? "max"
  let numValues := object.get? "num_values"
  let containsNan := object.get? "contains_nan"
  { type := type
    hasNullCount := nullCount.isSome, nullCount := nullCount.elim 0 getIdx
    hasMin := min.isSome, min := min.elim [] getText
    hasMax := max.isSome, max := max.elim [] getText
    hasNumValues := numValues.isSome, numValues := numValues.elim 0 getIdx
    hasContainsNan := containsNan.isSome, containsNan := containsNan.elim false getBool
    columnSizeBytes := (object.get? "column_size_bytes").elim 0 getIdx
    isAnyValid := (object.get? "any_valid").elim true getBool }

def deserializeFieldExtra (type : LogicalTypeId) (object : Json) :
    Except Exception (Option DuckLakeColumnExtraStats) :=
  match initialExtraStats type, object.get? "extra_stats" with
  | some extra, some text => (deserializeExtraStats extra (cString (getText text))).map some
  | extra, _ => .ok extra

/-- A text that every field of the document `stats` has. -/
def requiredText (stats key : Text) (object : Json) : Except Exception Text :=
  match object.get? key with
  | some text => .ok (cString (getText text))
  | none => invalidInputException ("Missing " ++ key ++ " in VARIANT stats JSON \"" ++ stats ++ "\"")

/-- One field of the document `stats`. -/
def deserializeField (stats : Text) (object : Json) : Except Exception DuckLakeVariantStats := do
  let fieldName ← requiredText stats "field_name" object
  let shreddedType ← requiredText stats "shredded_type" object
  let type ← DuckLakeType.fromString shreddedType
  let extra ← deserializeFieldExtra type.id object
  return .mk fieldName shreddedType (deserializeShreddedStats type.id object) extra

/-- `insert`: the first entry of a name stays. -/
def insertField (fields : List DuckLakeVariantStats) (field : DuckLakeVariantStats) :
    List DuckLakeVariantStats :=
  if fields.any (·.fieldName = field.fieldName) then fields else fields ++ [field]

/-- `Deserialize`. -/
def deserializeVariantStats (stats : Text) : Except Exception (List DuckLakeVariantStats) :=
  match readJson stats with
  | none => invalidInputException ("Failed to parse VARIANT stats JSON \"" ++ stats ++ "\"")
  | some (.arr objects) => objects.foldlM
      (fun fields object => (deserializeField stats object).map (insertField fields)) []
  | some _ => .ok []

/-- The statistics that are read from what was stored; without shredded fields nothing is. -/
def reloadVariantStats (fields : List DuckLakeVariantStats) :
    Except Exception (List DuckLakeVariantStats) :=
  match (DuckLakeColumnExtraStats.variant fields).trySerialize with
  | none => .ok []
  | some literal =>
    match Text.readLiteral literal with
    | some (.varchar text) => deserializeVariantStats text
    | _ => invalidInputException ("Failed to parse VARIANT stats JSON \"" ++ literal ++ "\"")

end Read

/-! ## What a field is read back as -/

theorem isSome_flag (b : Bool) (value : Json) :
    (if b then some value else none : Option Json).isSome = b := by
  cases b <;> rfl

theorem elim_flag {α : Type} (b : Bool) (value : Json) (default : α) (f : Json → α) :
    (if b then some value else none : Option Json).elim default f =
      if b then f value else default := by
  cases b <;> rfl

section Members

/-- The members that are there. -/
def presentMembers (members : List (Text × Option Json)) : List (Text × Json) :=
  members.filterMap fun member => member.2.map (member.1, ·)

theorem presentMembers_append (l m : List (Text × Option Json)) :
    presentMembers (l ++ m) = presentMembers l ++ presentMembers m :=
  List.filterMap_append

theorem lookup_cons_text {β : Type} {key key' : Text} {value : β} {l : List (Text × β)} :
    ((key', value) :: l).lookup key = if key = key' then some value else l.lookup key := by
  rw [List.lookup_cons]
  by_cases h : key = key'
  · simp [h]
  · simp [h, beq_eq_false_iff_ne.2 h]

theorem lookup_presentMembers_of_notMem {members : List (Text × Option Json)} {key : Text}
    (h : key ∉ members.map (·.1)) : (presentMembers members).lookup key = none := by
  refine List.lookup_eq_none_iff.2 fun member hmember => ?_
  obtain ⟨member', hmember', heq⟩ := List.mem_filterMap.1 hmember
  obtain ⟨value, -, rfl⟩ := Option.map_eq_some_iff.1 heq
  refine bne_iff_ne.2 fun hkey => h ?_
  rw [hkey]
  exact List.mem_map_of_mem hmember'

theorem lookup_presentMembers {members : List (Text × Option Json)} {key : Text}
    (h : (members.map (·.1)).Nodup) :
    (presentMembers members).lookup key = (members.lookup key).join := by
  induction members with
  | nil => rfl
  | cons member members ih =>
    obtain ⟨key', value⟩ := member
    obtain ⟨hnot, hrest⟩ := List.nodup_cons.1 h
    rw [lookup_cons_text]
    cases value with
    | none =>
      change (presentMembers members).lookup key = _
      split
      · next hkey => rw [hkey, lookup_presentMembers_of_notMem hnot]; rfl
      · exact ih hrest
    | some value =>
      change ((key', value) :: presentMembers members).lookup key = _
      rw [lookup_cons_text, ih hrest]
      split <;> rfl

variable [StatsWriter]

/-- The members of a field in the order in which they are written. -/
def fieldMembers (name type : Text) (stats : DuckLakeColumnStats)
    (extra : Option DuckLakeColumnExtraStats) : List (Text × Option Json) :=
  [("field_name".toList, some (.str (cString name))),
    ("shredded_type".toList, some (.str (cString type))),
    ("null_count".toList,
      if stats.hasNullCount then some (.int (toInt64 stats.nullCount)) else none),
    ("min".toList, if stats.hasMin then some (.str stats.min) else none),
    ("max".toList, if stats.hasMax then some (.str stats.max) else none),
    ("num_values".toList,
      if stats.hasNumValues then some (.int (toInt64 stats.numValues)) else none),
    ("contains_nan".toList,
      if stats.hasContainsNan then some (.bool stats.containsNan) else none),
    ("column_size_bytes".toList, some (.int (toInt64 stats.columnSizeBytes))),
    ("any_valid".toList, some (.bool stats.isAnyValid)),
    ("extra_stats".toList, (extra.bind DuckLakeColumnExtraStats.trySerialize).map fun text =>
      .str (cString text))]

theorem nodup_fieldMembers (name type : Text) (stats : DuckLakeColumnStats)
    (extra : Option DuckLakeColumnExtraStats) :
    ((fieldMembers name type stats extra).map (·.1)).Nodup := by
  simp only [fieldMembers, List.map_cons, List.map_nil]
  decide +kernel

theorem serialize_eq (name type : Text) (stats : DuckLakeColumnStats)
    (extra : Option DuckLakeColumnExtraStats) :
    (DuckLakeVariantStats.mk name type stats extra).serialize =
      .obj (presentMembers (fieldMembers name type stats extra)) := by
  have hoptional : ∀ (b : Bool) (key : Text) (value : Json),
      (if b then [(key, value)] else []) =
        presentMembers [(key, if b then some value else none)] := fun b key value => by
    cases b <;> rfl
  have hextra : serializeExtraStats extra = presentMembers [("extra_stats".toList,
      (extra.bind DuckLakeColumnExtraStats.trySerialize).map fun text => .str (cString text))] := by
    cases extra with
    | none => rfl
    | some extra => cases h : extra.json <;> simp [serializeExtraStats, presentMembers,
        DuckLakeColumnExtraStats.trySerialize, h]
  have hpair : ∀ (key key' : Text) (value value' : Json), [(key, value), (key', value')] =
      presentMembers [(key, some value), (key', some value')] := fun _ _ _ _ => rfl
  rw [DuckLakeVariantStats.serialize, hoptional, hoptional, hoptional, hoptional, hoptional, hextra,
    hpair, hpair]
  simp only [← presentMembers_append]
  rfl

theorem get?_serialize (name type : Text) (stats : DuckLakeColumnStats)
    (extra : Option DuckLakeColumnExtraStats) (key : Text) :
    (DuckLakeVariantStats.mk name type stats extra).serialize.get? key =
      ((fieldMembers name type stats extra).lookup key).join := by
  rw [serialize_eq]
  exact lookup_presentMembers (nodup_fieldMembers name type stats extra)

section Lookup

variable (name type : Text) (stats : DuckLakeColumnStats) (extra : Option DuckLakeColumnExtraStats)

theorem lookup_fieldName : (fieldMembers name type stats extra).lookup "field_name".toList =
    some (some (.str (cString name))) := rfl

theorem lookup_shreddedType : (fieldMembers name type stats extra).lookup "shredded_type".toList =
    some (some (.str (cString type))) := rfl

theorem lookup_nullCount : (fieldMembers name type stats extra).lookup "null_count".toList =
    some (if stats.hasNullCount then some (.int (toInt64 stats.nullCount)) else none) := rfl

theorem lookup_min : (fieldMembers name type stats extra).lookup "min".toList =
    some (if stats.hasMin then some (.str stats.min) else none) := rfl

theorem lookup_max : (fieldMembers name type stats extra).lookup "max".toList =
    some (if stats.hasMax then some (.str stats.max) else none) := rfl

theorem lookup_numValues : (fieldMembers name type stats extra).lookup "num_values".toList =
    some (if stats.hasNumValues then some (.int (toInt64 stats.numValues)) else none) := rfl

theorem lookup_containsNan : (fieldMembers name type stats extra).lookup "contains_nan".toList =
    some (if stats.hasContainsNan then some (.bool stats.containsNan) else none) := rfl

theorem lookup_columnSizeBytes :
    (fieldMembers name type stats extra).lookup "column_size_bytes".toList =
      some (some (.int (toInt64 stats.columnSizeBytes))) := rfl

theorem lookup_anyValid : (fieldMembers name type stats extra).lookup "any_valid".toList =
    some (some (.bool stats.isAnyValid)) := rfl

theorem lookup_extraStats : (fieldMembers name type stats extra).lookup "extra_stats".toList =
    some ((extra.bind DuckLakeColumnExtraStats.trySerialize).map fun text =>
      .str (cString text)) := rfl

end Lookup

end Members

/-- A number that was stored and read. -/
def reloadIdx (n : Nat) : Nat := getIdx (.int (toInt64 n))

theorem reloadIdx_eq (n : Nat) : reloadIdx n = ((toInt64 n).bmod (2 ^ 32) % 2 ^ 64).toNat := rfl

theorem getIdx_toInt64 (n : Nat) : getIdx (.int (toInt64 n)) = reloadIdx n := rfl

attribute [irreducible] reloadIdx

/-- Statistics that were stored and read. -/
def reloadStats (type : LogicalTypeId) (stats : DuckLakeColumnStats) : DuckLakeColumnStats :=
  { type := type
    hasNullCount := stats.hasNullCount
    nullCount := if stats.hasNullCount then reloadIdx stats.nullCount else 0
    hasMin := stats.hasMin, min := if stats.hasMin then stats.min else []
    hasMax := stats.hasMax, max := if stats.hasMax then stats.max else []
    hasNumValues := stats.hasNumValues
    numValues := if stats.hasNumValues then reloadIdx stats.numValues else 0
    hasContainsNan := stats.hasContainsNan
    containsNan := if stats.hasContainsNan then stats.containsNan else false
    columnSizeBytes := reloadIdx stats.columnSizeBytes
    isAnyValid := stats.isAnyValid }

/-- Extra statistics have the kind that new statistics of the type have. -/
def ExtraKind (type : LogicalTypeId) (extra : Option DuckLakeColumnExtraStats) : Prop :=
  match initialExtraStats type, extra with
  | none, none | some (.geometry _), some (.geometry _) | some (.variant _), some (.variant _) => True
  | _, _ => False

section Reload

variable [StatsReader]

theorem deserializeShreddedStats_serialize (name type : Text) (stats : DuckLakeColumnStats)
    (extra : Option DuckLakeColumnExtraStats) (id : LogicalTypeId) :
    deserializeShreddedStats id (DuckLakeVariantStats.mk name type stats extra).serialize =
      reloadStats id stats := by
  simp -implicitDefEqProofs only [deserializeShreddedStats, get?_serialize, lookup_nullCount, lookup_min, lookup_max,
    lookup_numValues, lookup_containsNan, lookup_columnSizeBytes, lookup_anyValid,
    Option.join_some, isSome_flag, elim_flag, Option.elim_some, reloadStats,
    getIdx_toInt64]
  rfl

theorem deserializeFieldExtra_serialize {field : DuckLakeVariantStats} {id : LogicalTypeId}
    (hkind : ExtraKind id field.extraStats)
    (hextra : field.extraStats.bind DuckLakeColumnExtraStats.trySerialize = none) :
    deserializeFieldExtra id field.serialize = .ok field.extraStats := by
  obtain ⟨name, type, stats, extra⟩ := field
  change ExtraKind id extra at hkind
  change extra.bind DuckLakeColumnExtraStats.trySerialize = none at hextra
  have hinitial : initialExtraStats id = extra := by
    cases extra with
    | none => cases id <;> first | rfl | exact hkind.elim
    | some extra =>
      cases extra with
      | geometry stats => cases hextra
      | variant fields =>
        have hfields : fields = [] := by
          by_contra hne
          simp [DuckLakeColumnExtraStats.trySerialize, DuckLakeColumnExtraStats.json, hne] at hextra
        rw [hfields]
        cases id <;> first | rfl | exact hkind.elim
  simp -implicitDefEqProofs only [deserializeFieldExtra, get?_serialize, lookup_extraStats, hextra,
    hinitial, Option.map_none, Option.join_some, DuckLakeVariantStats.extraStats]

/-- The extra statistics begin with an apostrophe and are not a document. -/
theorem deserializeFieldExtra_error {field : DuckLakeVariantStats} {id : LogicalTypeId}
    {text : Text} (hkind : ExtraKind id field.extraStats)
    (hextra : field.extraStats.bind DuckLakeColumnExtraStats.trySerialize = some text) :
    ∃ e, deserializeFieldExtra id field.serialize = .error e := by
  obtain ⟨name, type, stats, extra⟩ := field
  change ExtraKind id extra at hkind
  change extra.bind DuckLakeColumnExtraStats.trySerialize = some text at hextra
  obtain ⟨inner, rfl, hinner⟩ := Option.bind_eq_some_iff.1 hextra
  obtain ⟨json, -, rfl⟩ := Option.map_eq_some_iff.1 hinner
  have hquote : ∃ t, inner.quote json = '\'' :: t := by
    cases inner with
    | geometry => exact ⟨_, rfl⟩
    | variant => exact ⟨_, SQLWriter.sqlString_eq json⟩
  obtain ⟨t, hquote⟩ := hquote
  have htext : cString (getText (.str (cString (inner.quote json)))) = '\'' :: cString t := by
    rw [getText, cString_cString, hquote]
    rfl
  obtain ⟨new, hnew⟩ : ∃ new, initialExtraStats id = some new := by
    cases h : initialExtraStats id with
    | none =>
      simp only [ExtraKind, h] at hkind
    | some new => exact ⟨new, rfl⟩
  simp -implicitDefEqProofs only [deserializeFieldExtra, get?_serialize, lookup_extraStats, hextra,
    hnew, Option.map_some, Option.join_some, htext, deserializeExtraStats,
    StatsReader.readJson_apostrophe]
  cases new <;> exact ⟨_, rfl⟩

theorem requiredText_fieldName (doc name type : Text) (stats : DuckLakeColumnStats)
    (extra : Option DuckLakeColumnExtraStats) :
    requiredText doc "field_name" (DuckLakeVariantStats.mk name type stats extra).serialize =
      .ok (cString name) := by
  simp -implicitDefEqProofs only [requiredText, get?_serialize, lookup_fieldName, Option.join_some,
    getText, cString_cString]

theorem requiredText_shreddedType (doc name type : Text) (stats : DuckLakeColumnStats)
    (extra : Option DuckLakeColumnExtraStats) :
    requiredText doc "shredded_type" (DuckLakeVariantStats.mk name type stats extra).serialize =
      .ok (cString type) := by
  simp -implicitDefEqProofs only [requiredText, get?_serialize, lookup_shreddedType,
    Option.join_some, getText, cString_cString]

/-- A field that was stored and read. -/
def reloadField : DuckLakeVariantStats → DuckLakeVariantStats
  | .mk name type stats extra => .mk (cString name) type (reloadStats stats.type stats) extra

/-- The type of a field is written under its name, and the statistics are those of the type. -/
def DuckLakeVariantStats.HasType (type : DuckLakeType) (field : DuckLakeVariantStats) : Prop :=
  type.toText = .ok field.shreddedType ∧ type.id = field.fieldStats.type ∧
    ExtraKind type.id field.extraStats

theorem deserializeField_eq {doc : Text} {type : DuckLakeType} {field : DuckLakeVariantStats}
    (h : field.HasType type) :
    deserializeField doc field.serialize =
      (deserializeFieldExtra type.id field.serialize).map fun extra =>
        .mk (cString field.fieldName) field.shreddedType
          (reloadStats field.fieldStats.type field.fieldStats) extra := by
  obtain ⟨name, text, stats, extra⟩ := field
  obtain ⟨htext, hid, -⟩ := h
  change type.toText = .ok text at htext
  change type.id = stats.type at hid
  have hfrom : DuckLakeType.fromString (cString text) = .ok type := by
    rw [cString_eq_self.2 (DuckLakeType.notMem_toText htext)]
    exact DuckLakeType.fromString_toText htext
  have htype : cString text = text := cString_eq_self.2 (DuckLakeType.notMem_toText htext)
  rw [deserializeField, requiredText_fieldName, requiredText_shreddedType]
  simp only [bind, Except.bind, hfrom, deserializeShreddedStats_serialize]
  cases deserializeFieldExtra type.id (DuckLakeVariantStats.mk name text stats extra).serialize with
  | error e => rfl
  | ok extra => simp only [htype, hid]; rfl

theorem deserializeField_ok {doc : Text} {type : DuckLakeType} {field : DuckLakeVariantStats}
    (h : field.HasType type)
    (hextra : field.extraStats.bind DuckLakeColumnExtraStats.trySerialize = none) :
    deserializeField doc field.serialize = .ok (reloadField field) := by
  rw [deserializeField_eq h, deserializeFieldExtra_serialize h.2.2 hextra]
  cases field
  rfl

theorem deserializeField_error {doc text : Text} {type : DuckLakeType}
    {field : DuckLakeVariantStats} (h : field.HasType type)
    (hextra : field.extraStats.bind DuckLakeColumnExtraStats.trySerialize = some text) :
    ∃ e, deserializeField doc field.serialize = .error e := by
  obtain ⟨e, he⟩ := deserializeFieldExtra_error h.2.2 hextra
  exact ⟨e, by rw [deserializeField_eq h, he]; rfl⟩

/-! ### The whole document -/

omit [StatsReader] in
theorem membersFitBigint_iff {members : List (Text × Json)} :
    MembersFitBigint members ↔ ∀ member ∈ members, member.2.FitsBigint := by
  induction members with
  | nil => simp [MembersFitBigint]
  | cons member members ih => simp [MembersFitBigint, ih]

omit [StatsReader] in
theorem itemsFitBigint_iff {items : List Json} :
    ItemsFitBigint items ↔ ∀ item ∈ items, item.FitsBigint := by
  induction items with
  | nil => simp [ItemsFitBigint]
  | cons item items ih => simp [ItemsFitBigint, ih]

omit [StatsReader] in
theorem fitsBigint_int (n : Nat) : (Json.int (toInt64 n)).FitsBigint := inBigint_toInt64 n

omit [StatsReader] in
theorem fitsBigint_str (t : Text) : (Json.str t).FitsBigint := trivial

omit [StatsReader] in
theorem fitsBigint_bool (b : Bool) : (Json.bool b).FitsBigint := trivial

theorem fitsBigint_serialize (field : DuckLakeVariantStats) : field.serialize.FitsBigint := by
  obtain ⟨name, type, stats, extra⟩ := field
  rw [serialize_eq, Json.FitsBigint, membersFitBigint_iff]
  intro member hmember
  obtain ⟨⟨key, value⟩, hmem, heq⟩ := List.mem_filterMap.1 hmember
  obtain ⟨value, rfl, rfl⟩ := Option.map_eq_some_iff.1 heq
  have hflag : ∀ {b : Bool} {new : Json}, new.FitsBigint →
      some value = (if b then some new else none) → value.FitsBigint := by
    intro b new hnew h
    cases b with
    | false => cases h
    | true => cases h; exact hnew
  simp only [fieldMembers, List.mem_cons, Prod.mk.injEq, List.not_mem_nil, or_false] at hmem
  rcases hmem with ⟨-, h⟩ | ⟨-, h⟩ | ⟨-, h⟩ | ⟨-, h⟩ | ⟨-, h⟩ | ⟨-, h⟩ | ⟨-, h⟩ | ⟨-, h⟩ | ⟨-, h⟩ |
    ⟨-, h⟩
  · exact Option.some.inj h ▸ fitsBigint_str _
  · exact Option.some.inj h ▸ fitsBigint_str _
  · exact hflag (fitsBigint_int _) h
  · exact hflag (fitsBigint_str _) h
  · exact hflag (fitsBigint_str _) h
  · exact hflag (fitsBigint_int _) h
  · exact hflag (fitsBigint_bool _) h
  · exact Option.some.inj h ▸ fitsBigint_int _
  · exact Option.some.inj h ▸ fitsBigint_bool _
  · obtain ⟨text, -, rfl⟩ := Option.map_eq_some_iff.1 h.symm
    exact fitsBigint_str _

theorem serializeShreddedStats_eq (fields : List DuckLakeVariantStats) :
    serializeShreddedStats fields = fields.map DuckLakeVariantStats.serialize := by
  induction fields with
  | nil => rfl
  | cons field fields ih => rw [serializeShreddedStats, ih, List.map_cons]

omit [StatsReader] in
theorem foldlM_insertField {objects : List Json} {f : Json → Except Exception DuckLakeVariantStats}
    (fields : List DuckLakeVariantStats) :
    objects.foldlM (fun fields object => (f object).map (insertField fields)) fields =
      (objects.mapM f).map fun read => read.foldl insertField fields := by
  induction objects generalizing fields with
  | nil => rfl
  | cons object objects ih =>
    rw [List.foldlM_cons, List.mapM_cons]
    cases f object with
    | error e => rfl
    | ok field =>
      refine (ih (insertField fields field)).trans ?_
      cases objects.mapM f <;> rfl

/-- Reading what was stored reads the fields one by one. -/
theorem reloadVariantStats_eq (fields : List DuckLakeVariantStats) :
    ∃ doc, reloadVariantStats fields =
      (fields.mapM fun field => deserializeField doc field.serialize).map fun read =>
        read.foldl insertField [] := by
  by_cases hempty : fields = []
  · exact ⟨[], by rw [hempty]; rfl⟩
  · set doc := StatsWriter.writeJson (.arr (serializeShreddedStats fields)) with hdoc
    refine ⟨doc, ?_⟩
    have htry : (DuckLakeColumnExtraStats.variant fields).trySerialize =
        some (SQLWriter.sqlString doc) := by
      simp [DuckLakeColumnExtraStats.trySerialize, DuckLakeColumnExtraStats.json, hempty, hdoc,
        DuckLakeColumnExtraStats.quote]
    have hliteral : Text.readLiteral (SQLWriter.sqlString doc) = some (.varchar doc) := by
      rw [Text.readLiteral_varchar_iff, SQLWriter.sqlString_eq]
    have hfits : (Json.arr (serializeShreddedStats fields)).FitsBigint := by
      rw [serializeShreddedStats_eq, Json.FitsBigint, itemsFitBigint_iff]
      intro item hitem
      obtain ⟨field, -, rfl⟩ := List.mem_map.1 hitem
      exact fitsBigint_serialize field
    have hread : StatsReader.readJson doc = some (.arr (serializeShreddedStats fields)) :=
      StatsReader.readJson_writeJson _ hfits
    rw [reloadVariantStats, htry]
    simp only [hliteral]
    rw [deserializeVariantStats, hread]
    simp only
    rw [foldlM_insertField, serializeShreddedStats_eq, List.mapM_map]
    rfl

/-! ## Which fields survive -/

omit [StatsReader] in
theorem insertField_of_notMem {fields : List DuckLakeVariantStats} {field : DuckLakeVariantStats}
    (h : field.fieldName ∉ fields.map (·.fieldName)) :
    insertField fields field = fields ++ [field] := by
  rw [insertField, if_neg]
  intro hany
  obtain ⟨other, hother, hname⟩ := List.any_eq_true.1 hany
  exact h (of_decide_eq_true hname ▸ List.mem_map_of_mem hother)

omit [StatsReader] in
theorem foldl_insertField {read fields : List DuckLakeVariantStats}
    (h : ((fields ++ read).map (·.fieldName)).Nodup) :
    read.foldl insertField fields = fields ++ read := by
  induction read generalizing fields with
  | nil => exact (List.append_nil _).symm
  | cons field read ih =>
    have hnot : field.fieldName ∉ fields.map (·.fieldName) := by
      rw [List.map_append, List.map_cons] at h
      exact fun hmem => (List.nodup_append.1 h).2.2 _ hmem _ List.mem_cons_self rfl
    rw [List.foldl_cons, insertField_of_notMem hnot, ih (by simpa using h), List.append_assoc]
    rfl

omit [StatsReader] in
theorem mem_foldl_insertField {read fields : List DuckLakeVariantStats}
    {field : DuckLakeVariantStats} (h : field ∈ read.foldl insertField fields) :
    field ∈ fields ∨ field ∈ read := by
  induction read generalizing fields with
  | nil => exact .inl h
  | cons new read ih =>
    rcases ih h with hfields | hread
    · unfold insertField at hfields
      split at hfields
      · exact .inl hfields
      · rcases List.mem_append.1 hfields with hold | hnew
        · exact .inl hold
        · exact .inr (List.mem_singleton.1 hnew ▸ List.mem_cons_self)
    · exact .inr (List.mem_cons_of_mem _ hread)

end Reload

/-- What statistics say about the values of a field: only what they have. -/
structure RecordedStats where
  type : LogicalTypeId
  nullCount : Option Nat
  numValues : Option Nat
  /-- A bound and whether it is exact. -/
  min : Option (Text × Bool)
  max : Option (Text × Bool)
  containsNan : Option Bool
  columnSizeBytes : Nat
  isAnyValid : Bool
  boundsUnknown : Bool
deriving DecidableEq

def DuckLakeColumnStats.recorded (stats : DuckLakeColumnStats) : RecordedStats where
  type := stats.type
  nullCount := if stats.hasNullCount then some stats.nullCount else none
  numValues := if stats.hasNumValues then some stats.numValues else none
  min := if stats.hasMin then some (stats.min, stats.effectiveMinIsExact) else none
  max := if stats.hasMax then some (stats.max, stats.effectiveMaxIsExact) else none
  containsNan := if stats.hasContainsNan then some stats.containsNan else none
  columnSizeBytes := stats.columnSizeBytes
  isAnyValid := stats.isAnyValid
  boundsUnknown := stats.boundsUnknown

/-- The counts are 64-bit numbers. -/
structure DuckLakeColumnStats.CountsFit (stats : DuckLakeColumnStats) : Prop where
  nullCount : stats.nullCount < 2 ^ 64
  numValues : stats.numValues < 2 ^ 64
  columnSizeBytes : stats.columnSizeBytes < 2 ^ 64

/-- A 64-bit number that an `int` has as well. -/
def FitsInt (n : Nat) : Prop := n < 2 ^ 31 ∨ 2 ^ 64 - 2 ^ 31 ≤ n

theorem reloadIdx_eq_self {n : Nat} (h : n < 2 ^ 64) : reloadIdx n = n ↔ FitsInt n := by
  simp only [reloadIdx_eq, toInt64, bigintLimit, FitsInt, Int.bmod]
  omega

/-- The statistics of a field that are the same after they were stored and read. -/
structure DuckLakeColumnStats.Storable (stats : DuckLakeColumnStats) : Prop where
  nullCount : stats.hasNullCount → FitsInt stats.nullCount
  numValues : stats.hasNumValues → FitsInt stats.numValues
  columnSizeBytes : FitsInt stats.columnSizeBytes
  min : stats.hasMin → stats.minIsExact → stats.type.requiresValueComparison
  max : stats.hasMax → stats.maxIsExact → stats.type.requiresValueComparison
  boundsUnknown : stats.boundsUnknown = false

theorem recorded_reloadStats_iff {stats : DuckLakeColumnStats} (h : stats.CountsFit) :
    stats.recorded = (reloadStats stats.type stats).recorded ↔ stats.Storable := by
  have hcount : ∀ (b : Bool) {n : Nat}, n < 2 ^ 64 →
      ((if b then some n else none) =
        (if b then some (if b then reloadIdx n else 0) else none) ↔ (b → FitsInt n)) := by
    intro b n hn
    cases b with
    | false => simp
    | true => simp [← reloadIdx_eq_self hn, eq_comm]
  have hbound : ∀ {b exact compared : Bool} {t : Text},
      ((if b then some (t, b && (exact || compared)) else none) =
        (if b then some (if b then t else [], b && (false || compared)) else none) ↔
        (b → exact → compared)) := by
    intro b exact compared t
    cases b <;> cases exact <;> cases compared <;> simp
  have hnan : (if stats.hasContainsNan then some stats.containsNan else none) =
      (if stats.hasContainsNan then
        some (if stats.hasContainsNan then stats.containsNan else false) else none) := by
    cases stats.hasContainsNan <;> rfl
  have hsize : stats.columnSizeBytes = reloadIdx stats.columnSizeBytes ↔
      FitsInt stats.columnSizeBytes := by
    rw [eq_comm, reloadIdx_eq_self h.columnSizeBytes]
  constructor
  · intro heq
    obtain ⟨-, hnull, hvalues, hmin, hmax, -, hbytes, -, hunknown⟩ := RecordedStats.mk.inj heq
    exact ⟨(hcount stats.hasNullCount h.nullCount).1 hnull,
      (hcount stats.hasNumValues h.numValues).1 hvalues, hsize.1 hbytes, hbound.1 hmin,
      hbound.1 hmax, hunknown⟩
  · intro hstorable
    exact (RecordedStats.mk.injEq ..).mpr ⟨rfl,
      (hcount stats.hasNullCount h.nullCount).2 hstorable.nullCount,
      (hcount stats.hasNumValues h.numValues).2 hstorable.numValues, hbound.2 hstorable.min,
      hbound.2 hstorable.max, hnan, hsize.2 hstorable.columnSizeBytes, rfl,
      hstorable.boundsUnknown⟩

/-- The statistics of a name. -/
def fieldOf (fields : List DuckLakeVariantStats) (name : Text) : Option DuckLakeVariantStats :=
  fields.find? (·.fieldName = name)

theorem fieldOf_eq_some {fields : List DuckLakeVariantStats} {field : DuckLakeVariantStats}
    (hnames : (fields.map (·.fieldName)).Nodup) (hfield : field ∈ fields) :
    fieldOf fields field.fieldName = some field := by
  induction fields with
  | nil => cases hfield
  | cons first fields ih =>
    obtain ⟨hnot, hrest⟩ := List.nodup_cons.1 hnames
    rcases List.mem_cons.1 hfield with rfl | hfield
    · exact List.find?_cons_of_pos (decide_eq_true rfl)
    · refine (List.find?_cons_of_neg fun hname => hnot ?_).trans (ih hrest hfield)
      have heq : first.fieldName = field.fieldName := of_decide_eq_true hname
      change first.fieldName ∈ _
      rw [heq]
      exact List.mem_map_of_mem hfield

theorem fieldOf_eq_none {fields : List DuckLakeVariantStats} {name : Text} :
    fieldOf fields name = none ↔ name ∉ fields.map (·.fieldName) := by
  simp [fieldOf, List.find?_eq_none]

/-- Two entries say the same about a field. -/
structure SameField (field field' : DuckLakeVariantStats) : Prop where
  fieldName : field.fieldName = field'.fieldName
  shreddedType : field.shreddedType = field'.shreddedType
  recorded : field.fieldStats.recorded = field'.fieldStats.recorded
  extraStats : field.extraStats = field'.extraStats

section Survive

variable [StatsReader]

/-- The map that is read is the map that was stored. -/
def Reloads (fields : List DuckLakeVariantStats) : Prop :=
  ∃ reloaded, reloadVariantStats fields = .ok reloaded ∧
    ∀ name, Option.Rel SameField (fieldOf fields name) (fieldOf reloaded name)

/-- The statistics that a document keeps: extra statistics within a field are not read back. -/
structure DuckLakeVariantStats.Storable (field : DuckLakeVariantStats) : Prop where
  fieldName : '\x00' ∉ field.fieldName
  stats : field.fieldStats.Storable
  extraStats : field.extraStats.bind DuckLakeColumnExtraStats.trySerialize = none

omit [StatsReader] in
theorem fieldName_reloadField (field : DuckLakeVariantStats) :
    (reloadField field).fieldName = cString field.fieldName := by
  cases field
  rfl

omit [StatsReader] in
theorem sameField_reloadField_iff {field : DuckLakeVariantStats}
    (h : field.fieldStats.CountsFit) : SameField field (reloadField field) ↔
      '\x00' ∉ field.fieldName ∧ field.fieldStats.Storable := by
  obtain ⟨name, type, stats, extra⟩ := field
  change stats.CountsFit at h
  constructor
  · intro hsame
    exact ⟨cString_eq_self.1 hsame.fieldName.symm, (recorded_reloadStats_iff h).1 hsame.recorded⟩
  · rintro ⟨hname, hstats⟩
    exact ⟨(cString_eq_self.2 hname).symm, rfl, (recorded_reloadStats_iff h).2 hstats, rfl⟩

theorem mapM_deserializeField {doc : Text} {fields : List DuckLakeVariantStats}
    (htyped : ∀ field ∈ fields, ∃ type, field.HasType type)
    (hextra : ∀ field ∈ fields,
      field.extraStats.bind DuckLakeColumnExtraStats.trySerialize = none) :
    (fields.mapM fun field => deserializeField doc field.serialize) =
      .ok (fields.map reloadField) := by
  rw [mapM_eq_ok_iff, List.forall₂_map_right_iff, List.forall₂_same]
  intro field hfield
  obtain ⟨type, htype⟩ := htyped field hfield
  exact deserializeField_ok htype (hextra field hfield)

theorem extraStats_of_mapM {doc : Text} {fields read : List DuckLakeVariantStats}
    (htyped : ∀ field ∈ fields, ∃ type, field.HasType type)
    (h : (fields.mapM fun field => deserializeField doc field.serialize) = .ok read) :
    ∀ field ∈ fields, field.extraStats.bind DuckLakeColumnExtraStats.trySerialize = none := by
  intro field hfield
  cases htry : field.extraStats.bind DuckLakeColumnExtraStats.trySerialize with
  | none => rfl
  | some text =>
    obtain ⟨type, htype⟩ := htyped field hfield
    obtain ⟨e, he⟩ := @deserializeField_error _ doc _ _ _ htype htry
    obtain ⟨new, -, hnew⟩ := (mapM_ok h).1 field hfield
    rw [he] at hnew
    cases hnew

/-- The map that is read from a map without extra statistics within its fields. -/
def reloadMap (fields : List DuckLakeVariantStats) : List DuckLakeVariantStats :=
  (fields.map reloadField).foldl insertField []

omit [StatsReader] in
/-- The names that are read have no zero byte. -/
theorem notMem_of_mem_reloadMap {fields : List DuckLakeVariantStats} {field : DuckLakeVariantStats}
    (h : field ∈ reloadMap fields) : '\x00' ∉ field.fieldName := by
  rcases mem_foldl_insertField h with hnil | hmem
  · cases hnil
  · obtain ⟨old, -, rfl⟩ := List.mem_map.1 hmem
    rw [fieldName_reloadField]
    exact notMem_cString _

omit [StatsReader] in
theorem notMem_of_rel {fields : List DuckLakeVariantStats} {field : DuckLakeVariantStats}
    (h : Option.Rel SameField (some field) (fieldOf (reloadMap fields) field.fieldName)) :
    '\x00' ∉ field.fieldName := by
  cases hfound : fieldOf (reloadMap fields) field.fieldName with
  | none =>
    rw [hfound] at h
    cases h
  | some new =>
    have hname : new.fieldName = field.fieldName := by
      simpa using List.find?_some hfound
    rw [← hname]
    exact notMem_of_mem_reloadMap (List.mem_of_find?_eq_some hfound)

omit [StatsReader] in
theorem map_fieldName_reloadField {fields : List DuckLakeVariantStats}
    (hzero : ∀ field ∈ fields, '\x00' ∉ field.fieldName) :
    (fields.map reloadField).map (·.fieldName) = fields.map (·.fieldName) := by
  rw [List.map_map]
  refine List.map_congr_left fun field hfield => ?_
  rw [Function.comp_apply, fieldName_reloadField, cString_eq_self.2 (hzero field hfield)]

omit [StatsReader] in
theorem reloadMap_eq {fields : List DuckLakeVariantStats}
    (hnames : (fields.map (·.fieldName)).Nodup)
    (hzero : ∀ field ∈ fields, '\x00' ∉ field.fieldName) :
    reloadMap fields = fields.map reloadField := by
  rw [reloadMap, foldl_insertField]
  · rfl
  · rw [List.nil_append, map_fieldName_reloadField hzero]
    exact hnames

omit [StatsReader] in
theorem fieldOf_reloadMap {fields : List DuckLakeVariantStats} {field : DuckLakeVariantStats}
    (hnames : (fields.map (·.fieldName)).Nodup)
    (hzero : ∀ field ∈ fields, '\x00' ∉ field.fieldName) (hfield : field ∈ fields) :
    fieldOf (reloadMap fields) field.fieldName = some (reloadField field) := by
  have hnodup : ((fields.map reloadField).map (·.fieldName)).Nodup := by
    rw [map_fieldName_reloadField hzero]
    exact hnames
  have hfound := fieldOf_eq_some hnodup (List.mem_map_of_mem hfield)
  rwa [fieldName_reloadField, cString_eq_self.2 (hzero field hfield),
    ← reloadMap_eq hnames hzero] at hfound

/-- A map survives exactly if every field of it can be stored. -/
theorem reloads_iff {fields : List DuckLakeVariantStats}
    (htyped : ∀ field ∈ fields, ∃ type, field.HasType type)
    (hcounts : ∀ field ∈ fields, field.fieldStats.CountsFit)
    (hnames : (fields.map (·.fieldName)).Nodup) :
    Reloads fields ↔ ∀ field ∈ fields, field.Storable := by
  obtain ⟨doc, hreload⟩ := reloadVariantStats_eq fields
  have hread : (∀ field ∈ fields,
      field.extraStats.bind DuckLakeColumnExtraStats.trySerialize = none) →
      reloadVariantStats fields = .ok (reloadMap fields) := fun hextra => by
    rw [hreload, mapM_deserializeField htyped hextra]
    rfl
  constructor
  · rintro ⟨reloaded, hok, hsame⟩
    have hextra : ∀ field ∈ fields,
        field.extraStats.bind DuckLakeColumnExtraStats.trySerialize = none := by
      rw [hreload] at hok
      cases hmap : fields.mapM fun field => deserializeField doc field.serialize with
      | error e =>
        rw [hmap] at hok
        cases hok
      | ok read => exact extraStats_of_mapM htyped hmap
    rw [hread hextra, Except.ok.injEq] at hok
    rw [← hok] at hsame
    have hzero : ∀ field ∈ fields, '\x00' ∉ field.fieldName := fun field hfield => by
      have hrel := hsame field.fieldName
      rw [fieldOf_eq_some hnames hfield] at hrel
      exact notMem_of_rel hrel
    intro field hfield
    have hrel := hsame field.fieldName
    rw [fieldOf_eq_some hnames hfield, fieldOf_reloadMap hnames hzero hfield] at hrel
    cases hrel with
    | some hfieldSame =>
      exact ⟨hzero field hfield, ((sameField_reloadField_iff (hcounts field hfield)).1
        hfieldSame).2, hextra field hfield⟩
  · intro hstorable
    have hzero : ∀ field ∈ fields, '\x00' ∉ field.fieldName := fun field hfield =>
      (hstorable field hfield).fieldName
    refine ⟨reloadMap fields, hread fun field hfield => (hstorable field hfield).extraStats,
      fun name => ?_⟩
    by_cases hname : name ∈ fields.map (·.fieldName)
    · obtain ⟨field, hfield, rfl⟩ := List.mem_map.1 hname
      rw [fieldOf_eq_some hnames hfield, fieldOf_reloadMap hnames hzero hfield]
      exact .some ((sameField_reloadField_iff (hcounts field hfield)).2
        ⟨hzero field hfield, (hstorable field hfield).stats⟩)
    · have hnone : fieldOf (reloadMap fields) name = none := by
        rw [fieldOf_eq_none, reloadMap_eq hnames hzero, map_fieldName_reloadField hzero]
        exact hname
      rw [fieldOf_eq_none.2 hname, hnone]
      exact .none

end Survive

end DuckLake
