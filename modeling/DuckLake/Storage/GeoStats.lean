import Mathlib.Data.Char
import Mathlib.Data.List.Lex
import DuckLake.Common.Util
import DuckLake.Lib.JsonText
import DuckLake.Lib.OrdSet

/-!
# Statistics of geometries

The bounding box of the geometries of a column and the set of their types are kept as a document,
in which the coordinates have six decimals. A bound that is absent has the greatest or the least
value.
-/

namespace DuckLake

/-! ## The statistics -/

/-- The eight bounds, in the order in which they are written. -/
inductive GeoBound where
  | xmin | xmax | ymin | ymax | zmin | zmax | mmin | mmax
deriving DecidableEq, Repr

namespace GeoBound

def all : List GeoBound := [.xmin, .xmax, .ymin, .ymax, .zmin, .zmax, .mmin, .mmax]

def isMin : GeoBound → Bool
  | .xmin | .ymin | .zmin | .mmin => true
  | _ => false

def name : GeoBound → Text
  | .xmin => "xmin"
  | .xmax => "xmax"
  | .ymin => "ymin"
  | .ymax => "ymax"
  | .zmin => "zmin"
  | .zmax => "zmax"
  | .mmin => "mmin"
  | .mmax => "mmax"

/-- `NumericLimits<double>::Maximum()` of a lower bound, `Minimum()` of an upper one. -/
def absent (b : GeoBound) : ℚ := if b.isMin then maxDouble else -maxDouble

end GeoBound

inductive GeoDimension where
  | x | y | z | m

namespace GeoDimension

def lower : GeoDimension → GeoBound
  | .x => .xmin
  | .y => .ymin
  | .z => .zmin
  | .m => .mmin

def upper : GeoDimension → GeoBound
  | .x => .xmax
  | .y => .ymax
  | .z => .zmax
  | .m => .mmax

end GeoDimension

/-- `DuckLakeColumnGeoStats`, with its coordinates as numbers and not as they are printed. -/
structure ColumnGeoStats where
  bound : GeoBound → ℚ
  geoTypes : OrdSet Text

/-- The types that the writer of the files knows, with the suffixes of their vertices. -/
def geometryTypeNames : List Text :=
  ["", "_z", "_m", "_zm"].flatMap fun suffix : String =>
    ["unknown", "point", "linestring", "polygon", "multipoint", "multilinestring", "multipolygon",
      "geometrycollection"].map fun type : String => type.toList ++ suffix.toList

namespace ColumnGeoStats

def empty : ColumnGeoStats := ⟨GeoBound.absent, ∅⟩

/-- `Merge`. -/
def merge (stats other : ColumnGeoStats) : ColumnGeoStats where
  bound b := if b.isMin then min (stats.bound b) (other.bound b)
    else max (stats.bound b) (other.bound b)
  geoTypes := other.geoTypes.elems.foldl OrdSet.insert stats.geoTypes

/-! ## Serialization -/

/-- The coordinate in millionths, as `std::to_string` rounds it. -/
def millionths (x : ℚ) : ℤ := roundHalfEven (x * 10 ^ 6)

/-- `std::to_string`. -/
def coordinateToString (x : ℚ) : Text :=
  (if x < 0 then "-" else "") ++ Text.ofNat ((millionths x).natAbs / 10 ^ 6) ++
    '.' :: SixDecimals.sixDigits ((millionths x).natAbs % 10 ^ 6)

def boundToString (stats : ColumnGeoStats) (b : GeoBound) : Text :=
  if stats.bound b = b.absent then "null" else coordinateToString (stats.bound b)

def bboxToString (stats : ColumnGeoStats) : Text :=
  '\x7b' :: (Text.join ", " (GeoBound.all.map fun b =>
    '"' :: b.name ++ "\": " ++ stats.boundToString b) ++ ['\x7d'])

def typesToString (stats : ColumnGeoStats) : Text :=
  '[' :: (Text.join ", " (stats.geoTypes.elems.map fun type => '"' :: type ++ ['"']) ++ [']'])

/-- `TrySerialize`: the document as a literal. -/
def trySerialize (stats : ColumnGeoStats) : Text :=
  "'\x7b\"bbox\": " ++ stats.bboxToString ++ ", \"types\": " ++ stats.typesToString ++ "\x7d'"

/-! ## Deserialization -/

/-- `yyjson_get_real` of a number. -/
def getReal? : Option JsonNode → Option ℚ
  | some (.real value) => some value
  | some (.int _) => some 0
  | _ => none

def getTypes : Option JsonNode → List Text
  | some (.arr values) => values.filterMap fun value => match value with
    | .str type => some (cString type)
    | _ => none
  | _ => []

/-- `Deserialize`, from the initial statistics. -/
def deserialize [JsonReader] (stats : Text) : Except Exception ColumnGeoStats :=
  match JsonReader.read stats with
  | none => invalidInputException "Failed to parse geo stats JSON"
  | some (.obj fields) =>
    let bbox := (JsonNode.obj fields).get? "bbox"
    .ok {
      bound := fun b => (getReal? (bbox.bind (JsonNode.get? b.name))).getD b.absent
      geoTypes := (getTypes ((JsonNode.obj fields).get? "types")).foldl OrdSet.insert ∅ }
  | some _ => invalidInputException "Invalid geo stats JSON"

/-- The statistics that are read from what was stored. -/
def store [JsonReader] (stats : ColumnGeoStats) : Except Exception ColumnGeoStats :=
  match Text.readLiteral stats.trySerialize with
  | some (.varchar text) => deserialize text
  | _ => invalidInputException "Failed to parse geo stats JSON"

/-! ## Boxes -/

/-- The statistics of geometries with finite coordinates. -/
structure WellFormed (stats : ColumnGeoStats) : Prop where
  isDouble (b : GeoBound) : IsDouble (stats.bound b)
  types : ∀ type ∈ stats.geoTypes, type ∈ geometryTypeNames

/-- The box and a box to search in have a point in common, as far as the dimensions go. -/
def Meets (stats query : ColumnGeoStats) (dimensions : List GeoDimension) : Prop :=
  ∀ d ∈ dimensions, stats.bound d.lower ≤ query.bound d.upper ∧
    query.bound d.lower ≤ stats.bound d.upper

/-- The stored box contains the original one: no search that meets the one misses the other. -/
structure Covers (stored stats : ColumnGeoStats) : Prop where
  bound (b : GeoBound) : if b.isMin then stored.bound b ≤ stats.bound b
    else stats.bound b ≤ stored.bound b
  meets (query : ColumnGeoStats) (dimensions : List GeoDimension) :
    stats.Meets query dimensions → stored.Meets query dimensions
  geoTypes : stored.geoTypes = stats.geoTypes

/-! ## What is stored is read -/

variable {stats : ColumnGeoStats}

theorem abs_millionths_sub_le {x : ℚ} : |(millionths x / 10 ^ 6 : ℚ) - x| ≤ 1 / (2 * 10 ^ 6) := by
  have hround := abs_le.1 (abs_roundHalfEven_sub_le (x := x * 10 ^ 6))
  rw [abs_le, millionths]
  constructor <;> linarith [hround.1, hround.2]

theorem millionths_mono {x y : ℚ} (h : x ≤ y) : millionths x ≤ millionths y :=
  monotone_roundHalfEven (mul_le_mul_of_nonneg_right h (by norm_num))

theorem natAbs_millionths_le {x : ℚ} (h : IsDouble x) :
    ((millionths x).natAbs / 10 ^ 6 : ℚ) ≤ maxDouble := by
  -- the greatest `double` has no decimals
  obtain ⟨n, hn⟩ := exists_int_eq_maxDouble
  have hupper : millionths x ≤ n * 10 ^ 6 := by
    refine roundHalfEven_le ?_
    rw [Int.cast_mul, ← hn]
    exact_mod_cast mul_le_mul_of_nonneg_right h.le_maxDouble (by norm_num)
  have hlower : -(n * 10 ^ 6) ≤ millionths x := by
    refine le_roundHalfEven ?_
    rw [Int.cast_neg, Int.cast_mul, ← hn, ← neg_mul]
    exact_mod_cast mul_le_mul_of_nonneg_right h.neg_maxDouble_le (by norm_num)
  have habs : (|millionths x| : ℚ) ≤ n * 10 ^ 6 := by exact_mod_cast abs_le.2 ⟨hlower, hupper⟩
  rwa [div_le_iff₀ (by norm_num), hn, Nat.cast_natAbs, Int.cast_abs]

def coordinateSource (x : ℚ) (h : IsDouble x) : SixDecimals :=
  ⟨decide (x < 0), (millionths x).natAbs, natAbs_millionths_le h⟩

theorem print_coordinateSource {x : ℚ} (h : IsDouble x) :
    (coordinateSource x h).print = coordinateToString x := by
  rw [SixDecimals.print, coordinateToString, coordinateSource]
  simp only [decide_eq_true_eq]

theorem value_coordinateSource {x : ℚ} (h : IsDouble x) :
    (coordinateSource x h).value = millionths x / 10 ^ 6 := by
  rw [SixDecimals.value, coordinateSource]
  simp only [decide_eq_true_eq]
  refine congrArg (· / 10 ^ 6) ?_
  split
  next hneg =>
    have hle : millionths x ≤ 0 := by
      refine roundHalfEven_le ?_
      push_cast
      linarith
    rw [Nat.cast_natAbs, abs_of_nonpos hle, Int.cast_neg, neg_neg]
  next hnonneg =>
    have hle : 0 ≤ millionths x := by
      refine le_roundHalfEven ?_
      push_cast
      linarith
    rw [Nat.cast_natAbs, abs_of_nonneg hle]

/-- No name has a character that would be escaped. -/
theorem plain_of_geometryTypeName {type : Text} (h : type ∈ geometryTypeNames) :
    ∀ c ∈ type, c ≠ '"' ∧ c ≠ '\\' ∧ ' ' ≤ c ∧ c ≠ '\'' ∧ c ≠ '\x00' := by
  have hall : geometryTypeNames.all (fun type => type.all fun c =>
      decide (c ≠ '"' ∧ c ≠ '\\' ∧ ' ' ≤ c ∧ c ≠ '\'' ∧ c ≠ '\x00')) = true := by decide
  exact Text.forall_mem_of_all (List.all_eq_true.1 hall type h)

/-! ### The document -/

theorem plain_name (b : GeoBound) : ∀ c ∈ b.name, c ≠ '"' ∧ c ≠ '\\' ∧ ' ' ≤ c := by
  cases b <;> exact Text.forall_mem_of_all (by decide)

def boundSource (stats : ColumnGeoStats) (h : stats.WellFormed) (b : GeoBound) :
    JsonSource :=
  if stats.bound b = b.absent then .null else .number (coordinateSource (stats.bound b) (h.isDouble b))

def typeSource (stats : ColumnGeoStats) (h : stats.WellFormed)
    (type : {type // type ∈ stats.geoTypes.elems}) : JsonSource :=
  .str ⟨type.1, fun c hc =>
    have hplain := plain_of_geometryTypeName (h.types type.1 type.2) c hc
    ⟨hplain.1, hplain.2.1, hplain.2.2.1⟩⟩

def bboxKey : PlainString := ⟨"bbox", Text.forall_mem_of_all (by decide)⟩

def typesKey : PlainString := ⟨"types", Text.forall_mem_of_all (by decide)⟩

def bboxSource (stats : ColumnGeoStats) (h : stats.WellFormed) :
    List (PlainString × JsonSource) :=
  GeoBound.all.map fun b => (⟨b.name, plain_name b⟩, stats.boundSource h b)

/-- The document that is written. -/
def source (stats : ColumnGeoStats) (h : stats.WellFormed) : JsonSource :=
  .obj [(bboxKey, .obj (stats.bboxSource h)),
    (typesKey, .arr (stats.geoTypes.elems.attach.map (stats.typeSource h)))]

variable (h : stats.WellFormed)

theorem print_boundSource {b : GeoBound} :
    (stats.boundSource h b).print = stats.boundToString b := by
  rw [boundSource, boundToString]
  split
  · rfl
  · exact print_coordinateSource _

theorem print_bboxSource : (JsonSource.obj (stats.bboxSource h)).print = stats.bboxToString := by
  rw [JsonSource.print_obj, bboxToString, bboxSource, List.map_map]
  refine congrArg ('\x7b' :: · ++ ['\x7d']) (congrArg (Text.join ", ") ?_)
  refine List.map_congr_left fun b _ => ?_
  simp [JsonSource.printField, JsonSource.printString, print_boundSource]

theorem print_typesSource :
    (JsonSource.arr (stats.geoTypes.elems.attach.map (stats.typeSource h))).print =
      stats.typesToString := by
  have htypes : stats.geoTypes.elems.attach.map (fun type => (stats.typeSource h type).print) =
      stats.geoTypes.elems.map fun type => '"' :: type ++ ['"'] := by
    conv_rhs => rw [← @List.attach_map_val _ _ stats.geoTypes.elems]
    rfl
  rw [JsonSource.print_arr, typesToString, List.map_map]
  exact congrArg ('[' :: · ++ [']']) (congrArg (Text.join ", ") htypes)

theorem print_source : (stats.source h).print =
    '\x7b' :: (JsonSource.printString bboxKey ++ (':' :: ' ' :: stats.bboxToString) ++
      (',' :: ' ' :: (JsonSource.printString typesKey ++ (':' :: ' ' :: stats.typesToString))) ++
        ['\x7d']) := by
  rw [← print_bboxSource h, ← print_typesSource h, source, JsonSource.print_obj]
  simp only [List.map_cons, List.map_nil, JsonSource.printField, Text.join, List.append_assoc,
    List.cons_append, List.nil_append]

theorem trySerialize_eq : stats.trySerialize = '\'' :: ((stats.source h).print ++ ['\'']) := by
  have hopening : ("'\x7b\"bbox\": " : Text) =
      '\'' :: '\x7b' :: (JsonSource.printString bboxKey ++ [':', ' ']) := rfl
  have hmiddle : (", \"types\": " : Text) =
      ',' :: ' ' :: (JsonSource.printString typesKey ++ [':', ' ']) := rfl
  have hclosing : ("\x7d'" : Text) = ['\x7d', '\''] := rfl
  unfold trySerialize
  rw [print_source, hopening, hmiddle, hclosing]
  simp only [List.append_assoc, List.cons_append, List.nil_append]

/-! ### Reading it back -/

theorem no_quote_coordinateToString {x : ℚ} : ∀ c ∈ coordinateToString x, c ≠ '\'' := by
  have hdigits : ∀ c : Char, c.isDigit = true → c ≠ '\'' := by
    rintro c hc rfl
    cases hc
  have hsix : ∀ k < 10, Nat.digitChar k ≠ '\'' := by decide
  intro c hc
  simp only [coordinateToString, List.mem_append, List.mem_cons, or_assoc] at hc
  rcases hc with hc | hc | rfl | hc
  · split at hc
    · rw [List.mem_singleton.1 hc]
      decide
    · cases hc
  · exact hdigits c (Text.isDigit_of_mem_ofNat hc)
  · decide
  · simp only [SixDecimals.sixDigits, List.mem_map] at hc
    obtain ⟨k, -, rfl⟩ := hc
    exact hsix _ (Nat.mod_lt _ (by decide))

theorem no_quote_bboxToString : ∀ c ∈ stats.bboxToString, c ≠ '\'' := by
  have hname : ∀ b : GeoBound, ∀ c ∈ b.name, c ≠ '\'' := by
    intro b
    cases b <;> exact Text.forall_mem_of_all (by decide)
  have hbound : ∀ b, ∀ c ∈ stats.boundToString b, c ≠ '\'' := fun b => by
    rw [boundToString]
    split
    · exact Text.forall_mem_of_all (by decide)
    · exact no_quote_coordinateToString
  have hjoin : ∀ c ∈ Text.join [',', ' '] (GeoBound.all.map fun b =>
      '"' :: b.name ++ "\": " ++ stats.boundToString b), c ≠ '\'' := by
    refine JsonSource.forall_mem_join (by decide) (by decide) (List.forall_mem_map.2 fun b _ => ?_)
    refine List.forall_mem_append.2 ⟨List.forall_mem_append.2 ⟨?_, Text.forall_mem_of_all (by decide)⟩, hbound b⟩
    exact List.forall_mem_cons.2 ⟨by decide, hname b⟩
  refine List.forall_mem_cons.2 ⟨by decide, List.forall_mem_append.2 ⟨hjoin, ?_⟩⟩
  exact Text.forall_mem_of_all (by decide)

include h in
theorem no_quote_typesToString : ∀ c ∈ stats.typesToString, c ≠ '\'' := by
  have hjoin : ∀ c ∈ Text.join [',', ' '] (stats.geoTypes.elems.map fun type =>
      '"' :: type ++ ['"']), c ≠ '\'' := by
    refine JsonSource.forall_mem_join (by decide) (by decide)
      (List.forall_mem_map.2 fun type htype => ?_)
    refine List.forall_mem_append.2 ⟨List.forall_mem_cons.2 ⟨by decide, fun c hc => ?_⟩,
      Text.forall_mem_of_all (by decide)⟩
    exact (plain_of_geometryTypeName (h.types type htype) c hc).2.2.2.1
  refine List.forall_mem_cons.2 ⟨by decide, List.forall_mem_append.2 ⟨hjoin, ?_⟩⟩
  exact Text.forall_mem_of_all (by decide)

/-- The document has no quotes that the literal would double. -/
theorem readLiteral_trySerialize :
    Text.readLiteral stats.trySerialize = some (.varchar (stats.source h).print) := by
  have hquote : '\'' ∉ (stats.source h).print := by
    have hall : ∀ c ∈ (stats.source h).print, c ≠ '\'' := by
      have hbbox : ∀ c ∈ JsonSource.printString bboxKey, c ≠ '\'' :=
        Text.forall_mem_of_all (by decide)
      have htypes : ∀ c ∈ JsonSource.printString typesKey, c ≠ '\'' :=
        Text.forall_mem_of_all (by decide)
      rw [print_source]
      simp only [List.forall_mem_cons, List.forall_mem_append]
      exact ⟨by decide, ⟨⟨hbbox, by decide, by decide, no_quote_bboxToString⟩, by decide, by decide,
        htypes, by decide, by decide, no_quote_typesToString h⟩, by decide, nofun⟩
    exact fun hmem => hall _ hmem rfl
  rw [Text.readLiteral_varchar_iff, trySerialize_eq h, Text.writeQuoted,
    Text.escape_eq_self_iff.2 hquote, List.cons_append]

section Store

variable [JsonReader]

/-- What is read of a bound: nothing of an absent one, and of another one its six decimals. -/
def storedBound (b : GeoBound) (x : ℚ) : ℚ :=
  if x = b.absent then x else JsonReader.nearest (millionths x / 10 ^ 6)

theorem getReal_bound (b : GeoBound) :
    (getReal? ((JsonSource.obj (stats.bboxSource h)).node JsonReader.nearest |>.get? b.name)).getD
      b.absent = storedBound b (stats.bound b) := by
  have hlookup : ((JsonSource.obj (stats.bboxSource h)).node JsonReader.nearest).get? b.name =
      some ((stats.boundSource h b).node JsonReader.nearest) := by
    rw [JsonSource.node_obj, JsonNode.get?, bboxSource, List.map_map]
    cases b <;> rfl
  rw [hlookup, boundSource, storedBound]
  split
  next habsent => exact habsent.symm
  next => rw [JsonSource.node, value_coordinateSource]; rfl

theorem getTypes_types :
    getTypes (some ((JsonSource.arr (stats.geoTypes.elems.attach.map (stats.typeSource h))).node
      JsonReader.nearest)) = stats.geoTypes.elems := by
  have hcString : ∀ type ∈ stats.geoTypes.elems, cString type = type := fun type htype =>
    List.takeWhile_eq_self_iff.2 fun c hc => decide_eq_true
      (plain_of_geometryTypeName (h.types type htype) c hc).2.2.2.2
  rw [JsonSource.node_arr, getTypes, List.map_map, List.filterMap_map]
  conv_rhs => rw [← List.attach_map_subtype_val stats.geoTypes.elems, ← List.filterMap_eq_map]
  refine List.filterMap_congr fun type _ => ?_
  exact congrArg some (hcString type.1 type.2)

omit [JsonReader] in
theorem foldl_insert_elems {s : OrdSet Text} : s.elems.foldl OrdSet.insert ∅ = s :=
  OrdSet.ext_mem fun type => by
    rw [OrdSet.mem_foldl_insert]
    simp [OrdSet.mem_def]

theorem deserialize_eq_ok {text : Text} {fields : List (Text × JsonNode)} {bbox types : JsonNode}
    (hread : JsonReader.read text = some (.obj fields))
    (hbbox : (JsonNode.obj fields).get? "bbox" = some bbox)
    (htypes : (JsonNode.obj fields).get? "types" = some types) :
    deserialize text = .ok ⟨fun b => (getReal? (bbox.get? b.name)).getD b.absent,
      (getTypes (some types)).foldl OrdSet.insert ∅⟩ := by
  rw [deserialize, hread]
  simp only [hbbox, htypes, Option.bind_some]

include h in
/-- What is read of what was stored. -/
theorem store_eq_ok :
    stats.store = .ok ⟨fun b => storedBound b (stats.bound b), stats.geoTypes⟩ := by
  have hread := JsonReader.read_print (stats.source h)
  have hnode : (stats.source h).node JsonReader.nearest = .obj [("bbox",
      (JsonSource.obj (stats.bboxSource h)).node JsonReader.nearest), ("types",
      (JsonSource.arr (stats.geoTypes.elems.attach.map (stats.typeSource h))).node
        JsonReader.nearest)] := by
    rw [source, JsonSource.node_obj]
    rfl
  rw [hnode] at hread
  have hok := deserialize_eq_ok hread rfl rfl
  rw [getTypes_types h, foldl_insert_elems] at hok
  simp only [getReal_bound h] at hok
  unfold store
  rw [readLiteral_trySerialize h]
  exact hok

/-! ## Stored boxes -/

omit [JsonReader] in
theorem isDouble_absent (b : GeoBound) : IsDouble b.absent := by
  rw [GeoBound.absent]
  split
  · exact isDouble_maxDouble
  · exact isDouble_maxDouble.neg

theorem isDouble_storedBound {b : GeoBound} {x : ℚ} (hx : IsDouble x) :
    IsDouble (storedBound b x) := by
  rw [storedBound]
  split
  · exact hx
  · exact JsonReader.roundsToNearest.isDouble _

/-- Storing keeps the order of the bounds. -/
theorem storedBound_mono {b : GeoBound} {x y : ℚ} (hx : IsDouble x) (hy : IsDouble y)
    (hle : x ≤ y) : storedBound b x ≤ storedBound b y := by
  have hround : JsonReader.nearest (millionths x / 10 ^ 6) ≤
      JsonReader.nearest (millionths y / 10 ^ 6) := by
    refine JsonReader.roundsToNearest.monotone ?_
    have hmono : (millionths x : ℚ) ≤ millionths y := by exact_mod_cast millionths_mono hle
    exact div_le_div_of_nonneg_right hmono (by norm_num)
  have hdouble := @isDouble_storedBound _ b
  cases hmin : b.isMin with
  | true =>
    have habsent : b.absent = maxDouble := if_pos hmin
    by_cases hyabsent : y = b.absent
    · rw [show storedBound b y = y from if_pos hyabsent, hyabsent, habsent]
      exact (hdouble hx).le_maxDouble
    · have hxabsent : x ≠ b.absent := fun h => hyabsent
        (le_antisymm (habsent ▸ hy.le_maxDouble) (h ▸ hle))
      rwa [storedBound, storedBound, if_neg hxabsent, if_neg hyabsent]
  | false =>
    have habsent : b.absent = -maxDouble := if_neg (by rw [hmin]; exact Bool.false_ne_true)
    by_cases hxabsent : x = b.absent
    · rw [show storedBound b x = x from if_pos hxabsent, hxabsent, habsent]
      exact (hdouble hy).neg_maxDouble_le
    · have hyabsent : y ≠ b.absent := fun h => hxabsent
        (le_antisymm (h ▸ hle) (habsent ▸ hx.neg_maxDouble_le))
      rwa [storedBound, storedBound, if_neg hxabsent, if_neg hyabsent]

/-- What is read of the statistics. -/
def stored (stats : ColumnGeoStats) : ColumnGeoStats :=
  ⟨fun b => storedBound b (stats.bound b), stats.geoTypes⟩

/-- Merging and storing may be done in either order. -/
theorem stored_merge {other : ColumnGeoStats} (h : stats.WellFormed)
    (hother : other.WellFormed) : (stats.merge other).stored = stats.stored.merge other.stored := by
  refine ColumnGeoStats.mk.injEq .. |>.mpr ⟨funext fun b => ?_, rfl⟩
  have hmono := @storedBound_mono _ b
  simp only [merge, stored]
  split
  · rcases le_total (stats.bound b) (other.bound b) with hle | hle
    · rw [min_eq_left hle, min_eq_left (hmono (h.isDouble b) (hother.isDouble b) hle)]
    · rw [min_eq_right hle, min_eq_right (hmono (hother.isDouble b) (h.isDouble b) hle)]
  · rcases le_total (stats.bound b) (other.bound b) with hle | hle
    · rw [max_eq_right hle, max_eq_right (hmono (h.isDouble b) (hother.isDouble b) hle)]
    · rw [max_eq_left hle, max_eq_left (hmono (hother.isDouble b) (h.isDouble b) hle)]

omit [JsonReader] in
theorem WellFormed.merge {other : ColumnGeoStats} (h : stats.WellFormed)
    (hother : other.WellFormed) : (stats.merge other).WellFormed where
  isDouble b := by
    rw [ColumnGeoStats.merge]
    simp only
    split
    · rcases min_choice (stats.bound b) (other.bound b) with hmin | hmin <;> rw [hmin]
      · exact h.isDouble b
      · exact hother.isDouble b
    · rcases max_choice (stats.bound b) (other.bound b) with hmax | hmax <;> rw [hmax]
      · exact h.isDouble b
      · exact hother.isDouble b
  types type htype := by
    rcases OrdSet.mem_foldl_insert.1 htype with htype | htype
    · exact h.types type htype
    · exact hother.types type htype

/-- The statistics of several files. -/
def mergeAll (first : ColumnGeoStats) (rest : List ColumnGeoStats) :
    ColumnGeoStats :=
  rest.foldl merge first

theorem wellFormed_mergeAll {first : ColumnGeoStats} {rest : List ColumnGeoStats}
    (h : first.WellFormed) (hrest : ∀ stats ∈ rest, stats.WellFormed) :
    (mergeAll first rest).WellFormed ∧
      (mergeAll first rest).stored = mergeAll first.stored (rest.map stored) := by
  induction rest generalizing first with
  | nil => exact ⟨h, rfl⟩
  | cons stats rest ih =>
    obtain ⟨hstats, hrest⟩ := List.forall_mem_cons.1 hrest
    obtain ⟨hwf, hstored⟩ := ih (h.merge hstats) hrest
    refine ⟨hwf, hstored.trans ?_⟩
    rw [stored_merge h hstats]
    rfl

/-- A bound is rounded away from the box, or its six decimals are nearer to it than to any `double`
further inside. -/
def Outward (b : GeoBound) (x : ℚ) : Prop :=
  x = b.absent ∨
    if b.isMin then (millionths x / 10 ^ 6 : ℚ) ≤ x ∨
      ∀ y, IsDouble y → x < y → millionths x / 10 ^ 6 - x < y - millionths x / 10 ^ 6
    else x ≤ (millionths x / 10 ^ 6 : ℚ) ∨
      ∀ y, IsDouble y → y < x → x - millionths x / 10 ^ 6 < millionths x / 10 ^ 6 - y

theorem outward_iff {b : GeoBound} {x : ℚ} (hx : IsDouble x) :
    (if b.isMin then storedBound b x ≤ x else x ≤ storedBound b x) ↔ Outward b x := by
  have hnear := abs_le.1 (abs_millionths_sub_le (x := x))
  rw [storedBound, Outward]
  by_cases habsent : x = b.absent
  · simp [habsent]
  · simp only [habsent, if_false, false_or]
    split
    · exact JsonReader.roundsToNearest.le_iff hx hnear.2
    · exact JsonReader.roundsToNearest.ge_iff hx (by linarith [hnear.1])

theorem covers_stored_iff (h : stats.WellFormed) :
    stats.stored.Covers stats ↔ ∀ b, Outward b (stats.bound b) := by
  constructor
  · exact fun hcovers b => (outward_iff (h.isDouble b)).1 (hcovers.bound b)
  · intro houtward
    have hbound : ∀ b, if b.isMin then storedBound b (stats.bound b) ≤ stats.bound b
        else stats.bound b ≤ storedBound b (stats.bound b) := fun b =>
      (outward_iff (h.isDouble b)).2 (houtward b)
    refine ⟨hbound, fun query dimensions hmeets d hd => ?_, rfl⟩
    have hlower := hbound d.lower
    have hupper := hbound d.upper
    rw [if_pos (by cases d <;> rfl)] at hlower
    rw [if_neg (by cases d <;> exact Bool.false_ne_true)] at hupper
    exact ⟨hlower.trans (hmeets d hd).1, (hmeets d hd).2.trans hupper⟩

/-- The property: the box is read, and covers the original one, whether the statistics are merged
before they are stored or after. -/
def StoredCovers (first : ColumnGeoStats) (rest : List ColumnGeoStats) : Prop :=
  (∃ box, (mergeAll first rest).store = .ok box ∧ box.Covers (mergeAll first rest)) ∧
  ∃ box boxes, first.store = .ok box ∧ rest.mapM store = .ok boxes ∧
    (mergeAll box boxes).Covers (mergeAll first rest)

theorem mapM_store {rest : List ColumnGeoStats}
    (hrest : ∀ stats ∈ rest, stats.WellFormed) : rest.mapM store = .ok (rest.map stored) := by
  induction rest with
  | nil => rfl
  | cons stats rest ih =>
    obtain ⟨hstats, hrest⟩ := List.forall_mem_cons.1 hrest
    rw [List.mapM_cons, store_eq_ok hstats, ih hrest]
    rfl

/-- Stored boxes cover the data exactly when each bound of the merged box is rounded outward by its
six decimals, or not far enough to reach another `double`. -/
theorem storedCovers_iff {first : ColumnGeoStats} {rest : List ColumnGeoStats}
    (hfirst : first.WellFormed) (hrest : ∀ stats ∈ rest, stats.WellFormed) :
    StoredCovers first rest ↔ ∀ b, Outward b ((mergeAll first rest).bound b) := by
  obtain ⟨hwf, hstored⟩ := wellFormed_mergeAll hfirst hrest
  rw [← covers_stored_iff hwf]
  constructor
  · rintro ⟨⟨box, hbox, hcovers⟩, -⟩
    rw [store_eq_ok hwf] at hbox
    cases hbox
    exact hcovers
  · intro hcovers
    refine ⟨⟨_, store_eq_ok hwf, hcovers⟩, _, _, store_eq_ok hfirst, mapM_store hrest, ?_⟩
    rwa [hstored] at hcovers

end Store

/-! ## Boxes in the plane -/

/-- A box in the first two dimensions. -/
def planarBox (xmin xmax ymin ymax : ℚ) : ColumnGeoStats where
  bound
    | .xmin => xmin
    | .xmax => xmax
    | .ymin => ymin
    | .ymax => ymax
    | b => b.absent
  geoTypes := .ofList ["point".toList]

theorem wellFormed_planarBox {xmin xmax ymin ymax : ℚ} (hxmin : IsDouble xmin)
    (hxmax : IsDouble xmax) (hymin : IsDouble ymin) (hymax : IsDouble ymax) :
    (planarBox xmin xmax ymin ymax).WellFormed where
  isDouble b := by
    cases b with
    | xmin => exact hxmin
    | xmax => exact hxmax
    | ymin => exact hymin
    | ymax => exact hymax
    | zmin => exact isDouble_absent .zmin
    | zmax => exact isDouble_absent .zmax
    | mmin => exact isDouble_absent .mmin
    | mmax => exact isDouble_absent .mmax
  types type htype := by
    have hpoint : type ∈ ["point".toList] := OrdSet.mem_ofList.1 htype
    rw [List.mem_singleton.1 hpoint]
    decide

theorem isDouble_quarters {n : ℤ} (h : |n| < 2 ^ 53) : IsDouble (n / 4) :=
  ⟨n, -2, h, by norm_num, by norm_num, by rw [div_eq_mul_inv]; norm_num⟩

theorem isDouble_tiny : IsDouble (1 / 2 ^ 22) :=
  ⟨1, -22, by norm_num, by norm_num, by norm_num, by norm_num⟩

theorem wellFormed_quarters {xmin xmax ymin ymax : ℤ} (hxmin : |xmin| < 2 ^ 53)
    (hxmax : |xmax| < 2 ^ 53) (hymin : |ymin| < 2 ^ 53) (hymax : |ymax| < 2 ^ 53) :
    (planarBox (xmin / 4) (xmax / 4) (ymin / 4) (ymax / 4)).WellFormed :=
  wellFormed_planarBox (isDouble_quarters hxmin) (isDouble_quarters hxmax) (isDouble_quarters hymin)
    (isDouble_quarters hymax)

/-- Quarters have two decimals. -/
theorem storedCovers_iff_quarters : @StoredCovers plainJsonReader
    (planarBox ((1 : ℤ) / 4) ((3 : ℤ) / 4) ((-5 : ℤ) / 4) ((5 : ℤ) / 4))
    [planarBox ((2 : ℤ) / 4) ((7 : ℤ) / 4) ((2 : ℤ) / 4) ((6 : ℤ) / 4)] := by
  refine (@storedCovers_iff plainJsonReader _ _
    (wellFormed_quarters (by norm_num) (by norm_num) (by norm_num) (by norm_num))
    (List.forall_mem_singleton.2
      (wellFormed_quarters (by norm_num) (by norm_num) (by norm_num) (by norm_num)))).2 fun b => ?_
  cases b with
  | xmin => exact .inr (.inl (by decide +kernel))
  | xmax => exact .inr (.inl (by decide +kernel))
  | ymin => exact .inr (.inl (by decide +kernel))
  | ymax => exact .inr (.inl (by decide +kernel))
  | zmin => exact .inl (by decide +kernel)
  | zmax => exact .inl (by decide +kernel)
  | mmin => exact .inl (by decide +kernel)
  | mmax => exact .inl (by decide +kernel)

/-- A box whose bounds have no decimal among the first six is stored as the point zero. -/
theorem not_storedCovers :
    ¬ @StoredCovers plainJsonReader (planarBox (-(1 / 2 ^ 22)) (1 / 2 ^ 22) 0 0) [] := by
  have hwf : (planarBox (-(1 / 2 ^ 22)) (1 / 2 ^ 22) 0 0).WellFormed :=
    wellFormed_planarBox isDouble_tiny.neg isDouble_tiny isDouble_zero isDouble_zero
  rintro ⟨⟨box, hbox, hcovers⟩, -⟩
  have hstore := (@store_eq_ok _ hwf plainJsonReader).symm.trans hbox
  rw [← Except.ok.inj hstore] at hcovers
  have houtward : Outward .xmin (-(1 / 2 ^ 22)) :=
    (@covers_stored_iff _ plainJsonReader hwf).1 hcovers .xmin
  have hzero : millionths (-(1 / 2 ^ 22)) = 0 := by decide +kernel
  rcases houtward with habsent | houtward
  · exact absurd habsent (by decide +kernel)
  · rw [if_pos (show GeoBound.xmin.isMin = true from rfl), hzero] at houtward
    rcases houtward with hle | hfar
    · norm_num at hle
    · -- zero is further inside, and the six decimals reach it
      have hreach := hfar 0 isDouble_zero (by norm_num)
      norm_num at hreach

end ColumnGeoStats

end DuckLake
