import DuckLake.Common.Stats
import DuckLake.Lib.SqlLiteral

/-!
# Names of types

The texts under which the types of columns and of shredded fields are stored, and how a text is read
as a type again.
-/

namespace DuckLake

/-- A type of a column. A decimal has a width and a scale; JSON is a string with an alias. -/
inductive DuckLakeType where
  | base (id : LogicalTypeId)
  | decimal (width scale : Nat)
  | json
deriving DecidableEq

namespace DuckLakeType

def id : DuckLakeType → LogicalTypeId
  | base id => id
  | decimal _ _ => .decimal
  | json => .varchar

/-- `DUCKLAKE_TYPES`. -/
def duckLakeTypes : List (Text × LogicalTypeId) :=
  [("boolean".toList, .boolean), ("int8".toList, .tinyint), ("int16".toList, .smallint),
    ("int32".toList, .integer), ("int64".toList, .bigint), ("int128".toList, .hugeint),
    ("uint8".toList, .utinyint), ("uint16".toList, .usmallint), ("uint32".toList, .uinteger),
    ("uint64".toList, .ubigint), ("uint128".toList, .uhugeint), ("float32".toList, .float),
    ("float64".toList, .double), ("decimal".toList, .decimal), ("time".toList, .time),
    ("time_ns".toList, .timeNs), ("date".toList, .date), ("timestamp".toList, .timestamp),
    ("timestamp_us".toList, .timestamp), ("timestamp_ms".toList, .timestampMs),
    ("timestamp_ns".toList, .timestampNs), ("timestamp_s".toList, .timestampSec),
    ("timestamptz".toList, .timestampTz), ("timestamptz_ns".toList, .timestampTzNs),
    ("timetz".toList, .timeTz), ("interval".toList, .interval), ("varchar".toList, .varchar),
    ("blob".toList, .blob), ("uuid".toList, .uuid), ("struct".toList, .struct),
    ("map".toList, .map), ("list".toList, .list), ("null".toList, .sqlNull),
    ("unknown".toList, .unknown)]

def parseBaseType (str : Text) : Except Exception DuckLakeType :=
  match duckLakeTypes.find? fun type => str.ciEquals type.1 with
  | some (_, id) => .ok (.base id)
  | none =>
    if str.ciEquals "json" then .ok .json
    else if str.ciEquals "variant" then .ok (.base .variant)
    else if str.ciEquals "geometry" then .ok (.base .geometry)
    else invalidInputException ("Failed to parse DuckLake type - unsupported type '" ++ str ++ "'")

def parseDecimal (members : Text) : Except Exception DuckLakeType :=
  match members.dropWhile (· ≠ ',') with
  | ',' :: scale =>
    match Text.readDigits (members.takeWhile (· ≠ ',')), Text.readDigits scale with
    | some width, some scale => .ok (.decimal width scale)
    | _, _ => .error ⟨.invalidArgument, "stoull"⟩
  | _ => .error ⟨.notImplemented, "Invalid DECIMAL type - expected width and scale"⟩

/-- `DuckLakeTypes::FromString`. -/
def fromString (type : Text) : Except Exception DuckLakeType :=
  if "decimal(".toList <+: type ∧ ")".toList <:+ type then
    parseDecimal ((type.drop 8).dropLast)
  else parseBaseType type

def toStringBaseType (id : LogicalTypeId) : Except Exception Text :=
  match duckLakeTypes.find? fun type => id = type.2 with
  | some (name, _) => .ok name
  | none => invalidInputException "Failed to convert DuckDB type to DuckLake - unsupported type "

/-- `DuckLakeTypes::ToString`. -/
def toText : DuckLakeType → Except Exception Text
  | json => .ok "json"
  | base .variant => .ok "variant"
  | base .geometry => .ok "geometry"
  | base id => toStringBaseType id
  | decimal width scale =>
    .ok ("decimal(" ++ Text.ofNat width ++ "," ++ Text.ofNat scale ++ ")")

theorem parseDecimal_members (width scale : Nat) :
    parseDecimal (Text.ofNat width ++ ',' :: Text.ofNat scale) = .ok (.decimal width scale) := by
  have hdigits : ∀ c ∈ Text.ofNat width, decide (c ≠ ',') = true := fun c hc => by
    have hdigit := Text.isDigit_of_mem_ofNat hc
    refine decide_eq_true fun hcomma => ?_
    rw [hcomma] at hdigit
    cases hdigit
  have htake : (Text.ofNat width ++ ',' :: Text.ofNat scale).takeWhile (· ≠ ',') =
      Text.ofNat width := by
    rw [List.takeWhile_append_of_pos hdigits, List.takeWhile_cons_of_neg (by decide),
      List.append_nil]
  have hdrop : (Text.ofNat width ++ ',' :: Text.ofNat scale).dropWhile (· ≠ ',') =
      ',' :: Text.ofNat scale := by
    rw [List.dropWhile_append_of_pos hdigits, List.dropWhile_cons_of_neg (by decide)]
  rw [parseDecimal, hdrop]
  simp only [htake, Text.readDigits_ofNat]

theorem fromString_decimal (members : Text) :
    fromString ("decimal(".toList ++ (members ++ [')'])) = parseDecimal members := by
  have hdrop : ("decimal(".toList ++ (members ++ [')'])).drop 8 = members ++ [')'] :=
    List.drop_left' rfl
  have hends : [')'] <:+ "decimal(".toList ++ (members ++ [')']) :=
    ⟨"decimal(".toList ++ members, List.append_assoc _ _ _⟩
  rw [fromString, if_pos ⟨List.prefix_append _ _, hends⟩, hdrop, List.dropLast_concat]

/-- The text of a type is read as the type. -/
theorem fromString_toText {type : DuckLakeType} {text : Text} (h : type.toText = .ok text) :
    fromString text = .ok type := by
  cases type with
  | json =>
    cases h
    decide +kernel
  | base id => cases id <;> cases h <;> decide +kernel
  | decimal width scale =>
    have htext : text = "decimal(".toList ++ (Text.ofNat width ++ ',' :: Text.ofNat scale ++ [')']) := by
      cases h
      simp
    rw [htext, fromString_decimal, parseDecimal_members]

theorem notMem_toText {type : DuckLakeType} {text : Text} (h : type.toText = .ok text) :
    '\x00' ∉ text := by
  have hdigit : ∀ n : Nat, '\x00' ∉ Text.ofNat n := fun n hmem => by
    have hdigit := Text.isDigit_of_mem_ofNat hmem
    cases hdigit
  cases type with
  | json =>
    cases h
    decide
  | base id => cases id <;> cases h <;> decide
  | decimal width scale =>
    cases h
    simp [hdigit]

end DuckLakeType

end DuckLake
