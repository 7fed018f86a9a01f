import DuckLake.Lib.SqlLiteral
import DuckLake.Storage.MetadataInfo
import DuckLake.Storage.Placeholders

/-!
# The rows of new data files

A commit writes the rows of its new data files in one of two ways: through the appenders of the
metadata database, which take values, or as text in the batch of statements, which is searched for
placeholders and then read by the database. `sameRows_iff_plain` says for which files both ways
write the same rows.
-/

namespace DuckLake

/-! ## Extra statistics -/

/-- Documents of the JSON library. -/
inductive Json where
  | bool (b : Bool)
  | int (i : Int)
  | str (t : Text)
  | arr (items : List Json)
  | obj (members : List (Text × Json))

/-- What the database engine and the JSON library bring: a document is written without blanks. -/
class StatsWriter extends ValueWriter where
  writeJson : Json → Text

/-! ### The writer of JSON -/

def writeJsonChar (c : Char) : Text :=
  if c = '"' then "\\\"" else if c = '\\' then "\\\\" else if c = '\n' then "\\n"
  else if c = '\r' then "\\r" else if c = '\t' then "\\t"
  else if c = '\x08' then "\\b" else if c = '\x0c' then "\\f"
  else if c.toNat < 32 then
    "\\u00" ++ [Nat.digitChar (c.toNat / 16), (Nat.digitChar (c.toNat % 16)).toUpper]
  else [c]

def writeJsonString (t : Text) : Text := "\"" ++ t.flatMap writeJsonChar ++ "\""

mutual

def Json.write : Json → Text
  | .bool b => if b then "true" else "false"
  | .int i => Text.ofInt i
  | .str t => writeJsonString t
  | .arr items => "[" ++ Text.join "," (writeItems items) ++ "]"
  | .obj members => "\x7b" ++ Text.join "," (writeMembers members) ++ "\x7d"

def writeItems : List Json → List Text
  | [] => []
  | item :: items => item.write :: writeItems items

def writeMembers : List (Text × Json) → List Text
  | [] => []
  | (key, value) :: members => (writeJsonString key ++ ":" ++ value.write) :: writeMembers members

end

@[reducible] def StatsWriter.reference : StatsWriter where
  toValueWriter := ValueWriter.reference
  writeJson := Json.write

/-! ### Geometries and variants -/

/-- The coordinates are kept in the form in which they are printed; there is none for a coordinate
that was never set. -/
structure DuckLakeColumnGeoStats where
  xmin : Option Text := none
  xmax : Option Text := none
  ymin : Option Text := none
  ymax : Option Text := none
  zmin : Option Text := none
  zmax : Option Text := none
  mmin : Option Text := none
  mmax : Option Text := none
  geoTypes : List Text := []
deriving DecidableEq

mutual

inductive DuckLakeColumnExtraStats where
  | geometry (stats : DuckLakeColumnGeoStats)
  | variant (shreddedFieldStats : List DuckLakeVariantStats)

/-- The statistics of one shredded field of a variant. -/
inductive DuckLakeVariantStats where
  | mk (fieldName shreddedType : Text) (fieldStats : DuckLakeColumnStats)
    (extraStats : Option DuckLakeColumnExtraStats)

end

namespace DuckLakeColumnGeoStats

def coordinate (c : Option Text) : Text := c.getD "null".toList

/-- The text of the statistics; the types are not escaped. -/
def toJson (stats : DuckLakeColumnGeoStats) : Text :=
  "\x7b\"bbox\": \x7b\"xmin\": " ++ coordinate stats.xmin ++ ", \"xmax\": " ++
    coordinate stats.xmax ++ ", \"ymin\": " ++ coordinate stats.ymin ++ ", \"ymax\": " ++
    coordinate stats.ymax ++ ", \"zmin\": " ++ coordinate stats.zmin ++ ", \"zmax\": " ++
    coordinate stats.zmax ++ ", \"mmin\": " ++ coordinate stats.mmin ++ ", \"mmax\": " ++
    coordinate stats.mmax ++ "\x7d, \"types\": [" ++
    Text.join ", " (stats.geoTypes.map fun type => "\"" ++ type ++ "\"") ++ "]\x7d"

end DuckLakeColumnGeoStats

section Serialize

variable [StatsWriter]

open SQLWriter StatsWriter

/-- The statistics of geometries are wrapped in quotes, those of variants are written as a string
literal. -/
def DuckLakeColumnExtraStats.quote : DuckLakeColumnExtraStats → Text → Text
  | .geometry _, json => "'" ++ json ++ "'"
  | .variant _, json => sqlString json

mutual

/-- The document that `TrySerialize` wraps; a variant without shredded fields has none. -/
def DuckLakeColumnExtraStats.json : DuckLakeColumnExtraStats → Option Text
  | .geometry stats => some stats.toJson
  | .variant fields =>
    if fields.isEmpty then none else some (writeJson (.arr (serializeShreddedStats fields)))

def serializeShreddedStats : List DuckLakeVariantStats → List Json
  | [] => []
  | field :: fields => field.serialize :: serializeShreddedStats fields

/-- `SerializeShreddedStats`; the statistics inside a field are kept with their quotes. -/
def DuckLakeVariantStats.serialize : DuckLakeVariantStats → Json
  | .mk fieldName shreddedType stats extraStats =>
    .obj ([("field_name".toList, .str (cString fieldName)),
        ("shredded_type".toList, .str (cString shreddedType))] ++
      (if stats.hasNullCount then [("null_count".toList, .int (toInt64 stats.nullCount))] else []) ++
      (if stats.hasMin then [("min".toList, .str stats.min)] else []) ++
      (if stats.hasMax then [("max".toList, .str stats.max)] else []) ++
      (if stats.hasNumValues then [("num_values".toList, .int (toInt64 stats.numValues))] else []) ++
      (if stats.hasContainsNan then [("contains_nan".toList, .bool stats.containsNan)] else []) ++
      [("column_size_bytes".toList, .int (toInt64 stats.columnSizeBytes)),
        ("any_valid".toList, .bool stats.isAnyValid)] ++ serializeExtraStats extraStats)

def serializeExtraStats : Option DuckLakeColumnExtraStats → List (Text × Json)
  | none => []
  | some extra =>
    (extra.json.map fun json => ("extra_stats".toList, Json.str (cString (extra.quote json)))).toList

end

def DuckLakeColumnExtraStats.trySerialize (extra : DuckLakeColumnExtraStats) : Option Text :=
  extra.json.map extra.quote

end Serialize

/-! ## New data files -/

structure FileColumn where
  columnId : FieldIndex
  stats : DuckLakeColumnStats
  extraStats : Option DuckLakeColumnExtraStats

/-- A new data file with its resolved path; the statistics of its columns are in full. -/
structure NewDataFile where
  info : DuckLakeFileInfo
  path : DuckLakePath
  columnStats : List FileColumn

/-- The rows that new data files add to the metadata tables. -/
structure FileRows (α : Type) where
  dataFile : List (List α)
  fileColumnStats : List (List α)
  fileVariantStats : List (List α)
  filePartitionValue : List (List α)
deriving DecidableEq

/-- A partitioned file has partition values and no other file has. -/
def NewDataFile.WellPartitioned (file : NewDataFile) : Prop :=
  file.info.partitionId.isSome ≠ file.info.partitionValues.isEmpty

instance (file : NewDataFile) : Decidable file.WellPartitioned :=
  inferInstanceAs (Decidable (_ ≠ _))

def partitionException : Exception :=
  ⟨.internal, "File should either not be partitioned, or have partition values"⟩

/-- The fields of a `DuckLakeColumnStats` that are known together. -/
def DuckLakeColumnStats.countsKnown (stats : DuckLakeColumnStats) : Bool :=
  stats.hasNullCount && stats.hasNumValues && stats.nullCount ≤ stats.numValues

namespace DuckLakeColumnStats

/-- Strings can have truncated bounds, other types are always exact. -/
def effectiveMinIsExact (stats : DuckLakeColumnStats) : Bool :=
  stats.hasMin && (stats.minIsExact || stats.type.requiresValueComparison)

def effectiveMaxIsExact (stats : DuckLakeColumnStats) : Bool :=
  stats.hasMax && (stats.maxIsExact || stats.type.requiresValueComparison)

end DuckLakeColumnStats

/-! ### Base64 -/

def base64Alphabet : Text := "ABCDEFGHIJKLMNOPQRSTUVWXYZabcdefghijklmnopqrstuvwxyz0123456789+/"

def base64Char (n : Nat) : Char := base64Alphabet.getD n '='

def base64Bytes : List Nat → Text
  | [] => []
  | [a] => [base64Char (a / 4), base64Char (a % 4 * 16), '=', '=']
  | [a, b] => [base64Char (a / 4), base64Char (a % 4 * 16 + b / 16), base64Char (b % 16 * 4), '=']
  | a :: b :: c :: bytes =>
    base64Char (a / 4) :: base64Char (a % 4 * 16 + b / 16) :: base64Char (b % 16 * 4 + c / 64) ::
      base64Char (c % 64) :: base64Bytes bytes

/-- `Blob::ToBase64`; the characters of the text are its bytes. -/
def toBase64 (t : Text) : Text := base64Bytes (t.map Char.toNat)

/-! ## The appenders -/

section Append

def appendIdx (n : Nat) : SqlValue := .integer (toInt64 n)

def appendOptional (v : Option Nat) : SqlValue := v.elim .null appendIdx

def appendText (has : Bool) (t : Text) : SqlValue := if has then .varchar t else .null

def appendBool (has b : Bool) : SqlValue := if has then .boolean b else .null

/-- `TrySerialize` wraps the JSON in single quotes for SQL, which are stripped. -/
def stripQuotes (t : Text) : Text :=
  if 2 ≤ t.length ∧ t.head? = some '\'' ∧ t.getLast? = some '\'' then t.tail.dropLast else t

variable [StatsWriter]

def appendExtraStats (extraStats : Option DuckLakeColumnExtraStats) : SqlValue :=
  (extraStats.bind DuckLakeColumnExtraStats.trySerialize).elim .null fun t =>
    .varchar (stripQuotes t)

/-- What the rows of a column and of a shredded field have in common: the size, the counts, the
bounds and the extra statistics. -/
def appendColumnStats (stats : DuckLakeColumnStats)
    (extraStats : Option DuckLakeColumnExtraStats) : List SqlValue :=
  [appendIdx stats.columnSizeBytes,
    if stats.countsKnown then appendIdx (stats.numValues - stats.nullCount) else .null,
    if stats.countsKnown then appendIdx stats.nullCount else .null,
    appendText stats.hasMin stats.min, appendText stats.hasMax stats.max,
    appendBool stats.hasContainsNan stats.containsNan, appendExtraStats extraStats]

omit [StatsWriter] in
def appendDataFile (supportsV11 : Bool) (snapshotId : SnapshotId) (file : NewDataFile) :
    List SqlValue :=
  let info := file.info
  [appendIdx info.id, appendIdx info.tableId.toNat,
    appendIdx (info.beginSnapshot.getD snapshotId), .null, .null, .varchar file.path.path,
    .boolean file.path.pathIsRelative, .varchar info.fileFormat, appendIdx info.rowCount,
    appendIdx info.fileSizeBytes, appendOptional info.footerSize, appendOptional info.rowIdStart,
    appendOptional (info.partitionId.map UInt64.toNat),
    appendText (!info.encryptionKey.isEmpty) (toBase64 info.encryptionKey),
    appendOptional info.mappingId, appendOptional info.maxPartialFileSnapshot] ++
    if supportsV11 then [appendOptional info.rowGroupCount] else []

def appendFileColumn (supportsV11 : Bool) (file : NewDataFile) (column : FileColumn) :
    List SqlValue :=
  let stats := column.stats
  [appendIdx file.info.id, appendIdx file.info.tableId.toNat, appendIdx column.columnId] ++
    appendColumnStats stats column.extraStats ++
    if supportsV11 then
      [appendBool stats.hasMin stats.effectiveMinIsExact,
        appendBool stats.hasMax stats.effectiveMaxIsExact]
    else []

def appendVariantField (file : NewDataFile) (columnId : FieldIndex) :
    DuckLakeVariantStats → List SqlValue
  | .mk fieldName shreddedType stats extraStats =>
    [appendIdx file.info.id, appendIdx file.info.tableId.toNat, appendIdx columnId,
      .varchar fieldName, .varchar shreddedType] ++ appendColumnStats stats extraStats

omit [StatsWriter] in
def appendPartitionValue (file : NewDataFile) (value : DuckLakeFilePartition) : List SqlValue :=
  [appendIdx file.info.id, appendIdx file.info.tableId.toNat, appendIdx value.partitionColumnIdx,
    value.partitionValue.elim .null .varchar]

end Append

/-- The shredded fields of a column. -/
def FileColumn.shreddedFieldStats (column : FileColumn) : List DuckLakeVariantStats :=
  match column.extraStats with
  | some (.variant fields) => fields
  | _ => []

section Write

variable [StatsWriter]

open SQLWriter StatsWriter

def writeNewDataFilesWithAppender (supportsV11 : Bool) (commitSnapshot : DuckLakeSnapshot)
    (newFiles : List NewDataFile) : Except Exception (FileRows SqlValue) :=
  if ∃ file ∈ newFiles, ¬ file.WellPartitioned then .error partitionException
  else .ok {
    dataFile := newFiles.map (appendDataFile supportsV11 commitSnapshot.snapshotId)
    fileColumnStats := newFiles.flatMap fun file =>
      file.columnStats.map (appendFileColumn supportsV11 file)
    fileVariantStats := newFiles.flatMap fun file =>
      file.columnStats.flatMap fun column =>
        column.shreddedFieldStats.map (appendVariantField file column.columnId)
    filePartitionValue := newFiles.flatMap fun file =>
      file.info.partitionValues.map (appendPartitionValue file) }

/-! ## The batch of statements -/

/-- `%d`, which prints a signed number. -/
def formatIdx (n : Nat) : Text := Text.ofInt (toInt64 n)

def optionalIdxOrNull (v : Option Nat) : Text := v.elim "NULL".toList Text.ofNat

def boolLiteral (b : Bool) : Text := if b then "true" else "false"

/-- A string with zero bytes has no literal: as a bound it is dropped. -/
def statsToString (t : Text) : Text := if '\x00' ∈ t then "NULL" else sqlString t

def encryptionKeyLiteral (key : Text) : Text :=
  if key.isEmpty then "NULL" else "'" ++ toBase64 key ++ "'"

/-- The cells that `FromColumnStats` prints. -/
def fromColumnStats (stats : DuckLakeColumnStats)
    (extraStats : Option DuckLakeColumnExtraStats) : List Text :=
  [Text.ofNat stats.columnSizeBytes,
    if stats.countsKnown then Text.ofNat (stats.numValues - stats.nullCount) else "NULL",
    if stats.countsKnown then Text.ofNat stats.nullCount else "NULL",
    if stats.hasMin then statsToString stats.min else "NULL",
    if stats.hasMax then statsToString stats.max else "NULL",
    if stats.hasContainsNan then boolLiteral stats.containsNan else "NULL",
    (extraStats.bind DuckLakeColumnExtraStats.trySerialize).getD "NULL".toList]

def dataFileTuple (supportsV11 : Bool) (file : NewDataFile) : List Text :=
  let info := file.info
  [formatIdx info.id, formatIdx info.tableId.toNat,
    info.beginSnapshot.elim Placeholder.snapshotId.text Text.ofNat, "NULL", "NULL",
    sqlString file.path.path, boolLiteral file.path.pathIsRelative, sqlString info.fileFormat,
    formatIdx info.rowCount, formatIdx info.fileSizeBytes, optionalIdxOrNull info.footerSize,
    optionalIdxOrNull info.rowIdStart, optionalIdxOrNull (info.partitionId.map UInt64.toNat),
    encryptionKeyLiteral info.encryptionKey, optionalIdxOrNull info.mappingId,
    optionalIdxOrNull info.maxPartialFileSnapshot] ++
    if supportsV11 then [optionalIdxOrNull info.rowGroupCount] else []

def columnStatsTuple (supportsV11 : Bool) (file : NewDataFile) (column : FileColumn) :
    List Text :=
  let stats := column.stats
  [formatIdx file.info.id, formatIdx file.info.tableId.toNat, formatIdx column.columnId] ++
    fromColumnStats stats column.extraStats ++
    if supportsV11 then
      [if stats.hasMin then boolLiteral stats.effectiveMinIsExact else "NULL",
        if stats.hasMax then boolLiteral stats.effectiveMaxIsExact else "NULL"]
    else []

def variantStatsTuple (file : NewDataFile) (columnId : FieldIndex) :
    DuckLakeVariantStats → List Text
  | .mk fieldName shreddedType stats extraStats =>
    [formatIdx file.info.id, formatIdx file.info.tableId.toNat, formatIdx columnId,
      sqlString fieldName, sqlString shreddedType] ++ fromColumnStats stats extraStats

def partitionTuple (file : NewDataFile) (value : DuckLakeFilePartition) : List Text :=
  [formatIdx file.info.id, formatIdx file.info.tableId.toNat, formatIdx value.partitionColumnIdx,
    value.partitionValue.elim "NULL".toList sqlString]

/-- The cells of the tuples that the batch inserts. -/
def writeNewDataFilesSqlBatch (supportsV11 : Bool) (newFiles : List NewDataFile) :
    Except Exception (FileRows Text) :=
  if ∃ file ∈ newFiles, ¬ file.WellPartitioned then .error partitionException
  else .ok {
    dataFile := newFiles.map (dataFileTuple supportsV11)
    fileColumnStats := newFiles.flatMap fun file =>
      file.columnStats.map (columnStatsTuple supportsV11 file)
    fileVariantStats := newFiles.flatMap fun file =>
      file.columnStats.flatMap fun column =>
        column.shreddedFieldStats.map (variantStatsTuple file column.columnId)
    filePartitionValue := newFiles.flatMap fun file =>
      file.info.partitionValues.map (partitionTuple file) }

end Write

/-! ## Running the batch -/

def FileRows.mapM {α β : Type} (f : α → Option β) (rows : FileRows α) : Option (FileRows β) := do
  let dataFile ← rows.dataFile.mapM (List.mapM f)
  let fileColumnStats ← rows.fileColumnStats.mapM (List.mapM f)
  let fileVariantStats ← rows.fileVariantStats.mapM (List.mapM f)
  let filePartitionValue ← rows.filePartitionValue.mapM (List.mapM f)
  return { dataFile, fileColumnStats, fileVariantStats, filePartitionValue }

/-- A statement is cut off at a zero byte, which leaves no complete literal. -/
def readCell (cell : Text) : Option SqlValue :=
  if '\x00' ∈ cell then none else Text.readLiteral cell

/-- The rows that are inserted when the batch is run; there are none when a cell of it is no
literal of its column. -/
def execute [ValueWriter] (context : MetadataContext) (rows : FileRows Text) :
    Option (FileRows SqlValue) :=
  rows.mapM fun cell => readCell (query context cell)

/-! ### Placeholders in a cell -/

section Query

variable [ValueWriter] (context : MetadataContext)

theorem query_eq_self_iff {t : Text} :
    query context t = t ↔ ∀ p : Placeholder, ¬ p.text <:+: t := by
  rw [query_eq_substitute, Tags.substitute_eq_self_iff]
  exact ⟨fun h p => h p (Placeholder.mem_all p), fun h p _ => h p⟩

omit [ValueWriter] in
theorem not_infix_of_no_brace {t : Text} (h : '{' ∉ t) (p : Placeholder) : ¬ p.text <:+: t := by
  obtain ⟨body, hp, -⟩ := p.text_eq
  intro htag
  exact h (htag.subset (by simp [hp]))

theorem query_of_no_brace {t : Text} (h : '{' ∉ t) : query context t = t :=
  (query_eq_self_iff context).2 (not_infix_of_no_brace h)

theorem query_nil : query context [] = [] := query_of_no_brace context (by simp)

end Query

/-! ## Cells that are read as the appended value -/

/-- A text that stands in a string literal as it is. -/
def PlainText (t : Text) : Prop := '\x00' ∉ t ∧ ∀ p : Placeholder, ¬ p.text <:+: t

section Cells

variable [ValueWriter] {snapshot : DuckLakeSnapshot}

/-- Whoever commits and wherever the metadata is kept, the database reads the cell as the value. -/
def Reads (snapshot : DuckLakeSnapshot) (cell : Text) (value : SqlValue) : Prop :=
  ∀ commitInfo catalog, readCell (query ⟨snapshot, commitInfo, catalog⟩ cell) = some value

/-- A context whose values have no braces. -/
def MetadataContext.bare (snapshot : DuckLakeSnapshot) : MetadataContext where
  snapshot := snapshot
  commitInfo := { author := none, commitMessage := none, commitExtraInfo := none }
  catalog :=
    { metadataDatabaseName := [], metadataSchemaName := [], metadataPath := [], dataPath := [] }

theorem brace_not_mem_value (p : Placeholder) : '{' ∉ (MetadataContext.bare snapshot).value p := by
  cases p with
  | snapshotId | schemaVersion | nextCatalogId | nextFileId => exact brace_not_mem_ofNat _
  | author | commitMessage | commitExtraInfo =>
    simp [MetadataContext.value, MetadataContext.bare, ValueWriter.toSQLString_none]
  | metadataCatalogNameLiteral | metadataCatalogNameIdentifier | metadataSchemaNameLiteral
  | metadataCatalog | metadataSchemaEscaped | metadataPath | dataPath =>
    simp [MetadataContext.value, MetadataContext.bare, SQLWriter.sqlString_eq,
      SQLWriter.quotedIdentifier_eq, Text.writeQuoted, Text.escape, replaceQuotes]

theorem query_bare_eq_self {t u : Text} (h : query (.bare snapshot) t = u)
    (hcount : u.count '{' = t.count '{') : query (.bare snapshot) t = t := by
  refine (Tags.substitute_eq_or_count_lt (T := (MetadataContext.bare snapshot).tags)
    (fun p _ => brace_not_mem_value p) t).resolve_right fun hlt => ?_
  have hlt : (query (.bare snapshot) t).count '{' < t.count '{' := hlt
  rw [h] at hlt
  omega

theorem reads_iff_of_no_brace {cell : Text} {value : SqlValue} (hbrace : '{' ∉ cell)
    (hzero : '\x00' ∉ cell) : Reads snapshot cell value ↔ Text.readLiteral cell = some value := by
  have hread : ∀ context, readCell (query context cell) = Text.readLiteral cell := by
    intro context
    rw [query_of_no_brace context hbrace, readCell, if_neg hzero]
  exact ⟨fun h => hread (.bare snapshot) ▸ h _ _, fun h _ _ => (hread _).trans h⟩

/-- A cell that would be read as a string is written as the literal of that string and holds no
placeholder and no zero byte. -/
theorem reads_varchar_iff {cell t : Text}
    (hcount : (Text.writeQuoted '\'' t).count '{' = cell.count '{') :
    Reads snapshot cell (.varchar t) ↔ cell = Text.writeQuoted '\'' t ∧ PlainText cell := by
  constructor
  · intro h
    have hread := h (MetadataContext.bare snapshot).commitInfo (MetadataContext.bare snapshot).catalog
    change readCell (query (.bare snapshot) cell) = _ at hread
    unfold readCell at hread
    split at hread
    · cases hread
    · rename_i hzero
      rw [Text.readLiteral_varchar_iff] at hread
      have hself := query_bare_eq_self hread hcount
      rw [hself] at hzero hread
      exact ⟨hread, hzero, (query_eq_self_iff _).1 hself⟩
  · rintro ⟨rfl, hzero, hplain⟩ commitInfo catalog
    rw [(query_eq_self_iff _).2 hplain, readCell, if_neg hzero, Text.readLiteral_varchar_iff]

omit [ValueWriter]

theorem count_escape {c q : Char} (hc : c ≠ q) (t : Text) :
    (Text.escape q t).count c = t.count c := by
  induction t with
  | nil => rfl
  | cons d t ih => by_cases hd : d = q <;> simp [Text.escape, hd, List.count_cons, ih, hc.symm]

theorem count_writeQuoted {c q : Char} (hc : c ≠ q) (t : Text) :
    (Text.writeQuoted q t).count c = t.count c := by
  simp [Text.writeQuoted, count_escape hc, hc.symm]

theorem mem_writeQuoted_iff {c q : Char} (hc : c ≠ q) (t : Text) :
    c ∈ Text.writeQuoted q t ↔ c ∈ t := by
  rw [← List.count_pos_iff, ← List.count_pos_iff, count_writeQuoted hc]

theorem plainText_writeQuoted_iff {t : Text} :
    PlainText (Text.writeQuoted '\'' t) ↔ PlainText t := by
  unfold PlainText
  rw [mem_writeQuoted_iff (by decide)]
  simp only [infix_writeQuoted_iff (q := '\'') (by decide)]

end Cells

section Literals

variable [StatsWriter] {snapshot : DuckLakeSnapshot}

open SQLWriter

theorem reads_null : Reads snapshot "NULL" .null :=
  (reads_iff_of_no_brace (by decide) (by decide)).2 rfl

theorem reads_boolLiteral (b : Bool) : Reads snapshot (boolLiteral b) (.boolean b) := by
  refine (reads_iff_of_no_brace ?_ ?_).2 ?_ <;> cases b <;> decide

omit [StatsWriter] in
theorem not_mem_ofNat {c : Char} (hc : c.isDigit = false) (n : Nat) : c ∉ Text.ofNat n := by
  intro h
  have hdigit := Text.isDigit_of_mem_ofNat h
  rw [hc] at hdigit
  cases hdigit

omit [StatsWriter] in
theorem not_mem_ofInt {c : Char} (hc : c.isDigit = false) (hminus : c ≠ '-') (i : Int) :
    c ∉ Text.ofInt i := by
  unfold Text.ofInt
  split
  · rw [List.mem_cons, not_or]
    exact ⟨hminus, not_mem_ofNat hc _⟩
  · exact not_mem_ofNat hc _

theorem reads_formatIdx (n : Nat) : Reads snapshot (formatIdx n) (appendIdx n) := by
  refine (reads_iff_of_no_brace ?_ ?_).2 (Text.readLiteral_ofInt (inBigint_toInt64 n))
  · exact not_mem_ofInt (by decide) (by decide) _
  · exact not_mem_ofInt (by decide) (by decide) _

theorem reads_ofNat_iff {n : Nat} :
    Reads snapshot (.ofNat n) (appendIdx n) ↔ n < bigintLimit := by
  rw [reads_iff_of_no_brace (not_mem_ofNat (by decide) n) (not_mem_ofNat (by decide) n)]
  exact Text.readLiteral_ofNat_iff

theorem reads_optionalIdxOrNull_iff {v : Option Nat} :
    Reads snapshot (optionalIdxOrNull v) (appendOptional v) ↔ ∀ n ∈ v, n < bigintLimit := by
  cases v with
  | none =>
    have h : Reads snapshot (optionalIdxOrNull none) (appendOptional none) := reads_null
    simp [h]
  | some n =>
    have h : Reads snapshot (optionalIdxOrNull (some n)) (appendOptional (some n)) ↔ _ :=
      reads_ofNat_iff
    simp [h]

/-- The placeholder of the snapshot is replaced by its number. -/
theorem query_snapshotId (context : MetadataContext) :
    query context Placeholder.snapshotId.text = Text.ofNat context.snapshot.snapshotId := by
  have hclean : context.tags.Clean (.hole .snapshotId) := fun p _ =>
    not_infix_of_no_brace (brace_not_mem_ofNat _) p
  have h := hclean.substitute_append (Placeholder.mem_all _) []
  rw [List.append_nil, ← query_eq_substitute, ← query_eq_substitute, query_nil] at h
  exact h.trans (List.append_nil _)

theorem reads_beginSnapshot_iff {v : Option SnapshotId} :
    Reads snapshot (v.elim Placeholder.snapshotId.text Text.ofNat)
      (appendIdx (v.getD snapshot.snapshotId)) ↔ v.getD snapshot.snapshotId < bigintLimit := by
  cases v with
  | some n => exact reads_ofNat_iff
  | none =>
    have hquery : Reads snapshot Placeholder.snapshotId.text (appendIdx snapshot.snapshotId) ↔
        Reads snapshot (.ofNat snapshot.snapshotId) (appendIdx snapshot.snapshotId) := by
      unfold Reads
      simp only [query_snapshotId, query_of_no_brace _ (brace_not_mem_ofNat _)]
    exact hquery.trans reads_ofNat_iff

theorem reads_sqlString_iff {t : Text} :
    Reads snapshot (sqlString t) (.varchar t) ↔ PlainText t := by
  rw [sqlString_eq, reads_varchar_iff rfl, plainText_writeQuoted_iff]
  exact and_iff_right rfl

theorem reads_statsToString_iff {has : Bool} {t : Text} :
    Reads snapshot (if has then statsToString t else "NULL") (appendText has t) ↔
      (has → PlainText t) := by
  cases has with
  | false => simpa [appendText] using reads_null
  | true =>
    simp only [appendText, if_true, statsToString, forall_const]
    split
    · rename_i hzero
      constructor
      · intro h
        rw [reads_iff_of_no_brace (by decide) (by decide)] at h
        cases h
      · exact fun h => absurd hzero h.1
    · exact reads_sqlString_iff

theorem reads_optionalBool (has b : Bool) :
    Reads snapshot (if has then boolLiteral b else "NULL") (appendBool has b) := by
  cases has with
  | false => exact reads_null
  | true => exact reads_boolLiteral b

omit [StatsWriter] in
theorem base64Char_ne {c : Char} (hc : c ∉ '=' :: base64Alphabet) (n : Nat) : base64Char n ≠ c := by
  rintro rfl
  refine hc ?_
  rw [base64Char, List.getD_eq_getElem?_getD]
  cases h : base64Alphabet[n]? with
  | none => exact List.mem_cons_self
  | some c => exact List.mem_cons_of_mem _ (List.mem_of_getElem? h)

omit [StatsWriter] in
theorem not_mem_toBase64 {c : Char} (hc : c ∉ '=' :: base64Alphabet) (t : Text) :
    c ∉ toBase64 t := by
  have hne := fun n => (base64Char_ne hc n).symm
  have heq : c ≠ '=' := fun h => hc (h ▸ List.mem_cons_self)
  unfold toBase64
  fun_induction base64Bytes (t.map Char.toNat) <;> simp_all

theorem reads_encryptionKeyLiteral (key : Text) :
    Reads snapshot (encryptionKeyLiteral key) (appendText (!key.isEmpty) (toBase64 key)) := by
  unfold encryptionKeyLiteral appendText
  cases key.isEmpty with
  | true => exact reads_null
  | false =>
    have hquote := Text.escape_eq_self_iff.2 (not_mem_toBase64 (c := '\'') (by decide) key)
    have hcell : "'".toList ++ toBase64 key ++ "'".toList = sqlString (toBase64 key) := by
      rw [sqlString_eq, Text.writeQuoted, hquote]
      rfl
    have hplain : PlainText (toBase64 key) :=
      ⟨not_mem_toBase64 (by decide) key, not_infix_of_no_brace (not_mem_toBase64 (by decide) key)⟩
    simp only [Bool.false_eq_true, if_false, Bool.not_false, if_true, hcell]
    exact reads_sqlString_iff.2 hplain

omit [StatsWriter] in
theorem stripQuotes_quoted (t : Text) : stripQuotes ('\'' :: t ++ ['\'']) = t := by
  have hlast : ('\'' :: t ++ ['\'']).getLast? = some '\'' := List.getLast?_concat
  rw [stripQuotes, if_pos ⟨by simp, by simp, hlast⟩]
  simp

/-- What keeps the JSON of extra statistics apart: the appender writes the escaped form of the JSON
of a variant. -/
def PlainJson (json : Text) : Prop := PlainText json ∧ '\'' ∉ json

theorem reads_quote_iff {extra : DuckLakeColumnExtraStats} {json : Text} :
    Reads snapshot (extra.quote json) (.varchar (stripQuotes (extra.quote json))) ↔
      PlainJson json := by
  have hsame : Text.escape '\'' json = json →
      (PlainText (Text.writeQuoted '\'' json) ↔ PlainJson json) := fun h => by
    rw [plainText_writeQuoted_iff, PlainJson, and_iff_left (Text.escape_eq_self_iff.1 h)]
  cases extra with
  | geometry stats =>
    have hcell : DuckLakeColumnExtraStats.quote (.geometry stats) json = '\'' :: json ++ ['\''] := rfl
    have hcount : (Text.writeQuoted '\'' json).count '{' = ('\'' :: json ++ ['\'']).count '{' := by
      rw [count_writeQuoted (by decide)]
      simp
    rw [hcell, stripQuotes_quoted, reads_varchar_iff hcount]
    constructor
    · rintro ⟨heq, hplain⟩
      have hjson : Text.escape '\'' json = json := by
        simpa [Text.writeQuoted] using heq.symm
      rw [heq] at hplain
      exact (hsame hjson).1 hplain
    · intro h
      have hjson := Text.escape_eq_self_iff.2 h.2
      have heq : '\'' :: json ++ ['\''] = Text.writeQuoted '\'' json := by
        rw [Text.writeQuoted, hjson]
      exact ⟨heq, heq ▸ (hsame hjson).2 h⟩
  | variant fields =>
    have hcell : DuckLakeColumnExtraStats.quote (.variant fields) json =
        Text.writeQuoted '\'' json := sqlString_eq json
    have hcount : (Text.writeQuoted '\'' (Text.escape '\'' json)).count '{' =
        (Text.writeQuoted '\'' json).count '{' := by
      rw [count_writeQuoted (by decide), count_writeQuoted (by decide), count_escape (by decide)]
    have hstrip : stripQuotes (Text.writeQuoted '\'' json) = Text.escape '\'' json :=
      stripQuotes_quoted _
    rw [hcell, hstrip, reads_varchar_iff hcount]
    constructor
    · rintro ⟨heq, hplain⟩
      have hread := Text.readString_escape json
      have hjson : Text.escape '\'' json ++ ['\''] =
          Text.escape '\'' (Text.escape '\'' json) ++ ['\''] := (List.cons.inj heq).2
      rw [hjson, Text.readString_escape] at hread
      exact (hsame (Option.some.inj hread)).1 hplain
    · intro h
      have hjson := Text.escape_eq_self_iff.2 h.2
      exact ⟨by rw [hjson], (hsame hjson).2 h⟩

theorem reads_extraStats_iff {extraStats : Option DuckLakeColumnExtraStats} :
    Reads snapshot ((extraStats.bind DuckLakeColumnExtraStats.trySerialize).getD "NULL".toList)
      (appendExtraStats extraStats) ↔ ∀ extra ∈ extraStats, ∀ json ∈ extra.json, PlainJson json := by
  have hnull : Reads snapshot "NULL" .null := reads_null
  cases extraStats with
  | none => simpa [appendExtraStats] using hnull
  | some extra =>
    simp only [appendExtraStats, Option.bind_some, DuckLakeColumnExtraStats.trySerialize]
    cases hjson : extra.json with
    | none => simpa [hjson] using hnull
    | some json => simpa [hjson] using reads_quote_iff

end Literals

/-! ## When both ways write the same rows -/

section Rows

variable [StatsWriter] {snapshot : DuckLakeSnapshot}

/-- The statistics of a column are written alike: the numbers fit a `BIGINT`, the bounds and the
JSON stand in a literal as they are. -/
structure PlainStats (stats : DuckLakeColumnStats)
    (extraStats : Option DuckLakeColumnExtraStats) : Prop where
  columnSizeBytes : stats.columnSizeBytes < bigintLimit
  counts : stats.countsKnown →
    stats.numValues - stats.nullCount < bigintLimit ∧ stats.nullCount < bigintLimit
  min : stats.hasMin → PlainText stats.min
  max : stats.hasMax → PlainText stats.max
  extraStats : ∀ extra ∈ extraStats, ∀ json ∈ extra.json, PlainJson json

def DuckLakeVariantStats.Plain : DuckLakeVariantStats → Prop
  | .mk fieldName shreddedType stats extraStats =>
    PlainText fieldName ∧ PlainText shreddedType ∧ PlainStats stats extraStats

structure NewDataFile.Plain (supportsV11 : Bool) (snapshot : DuckLakeSnapshot)
    (file : NewDataFile) : Prop where
  beginSnapshot : file.info.beginSnapshot.getD snapshot.snapshotId < bigintLimit
  path : PlainText file.path.path
  fileFormat : PlainText file.info.fileFormat
  footerSize : ∀ n ∈ file.info.footerSize, n < bigintLimit
  rowIdStart : ∀ n ∈ file.info.rowIdStart, n < bigintLimit
  partitionId : ∀ n ∈ file.info.partitionId.map UInt64.toNat, n < bigintLimit
  mappingId : ∀ n ∈ file.info.mappingId, n < bigintLimit
  maxPartialFileSnapshot : ∀ n ∈ file.info.maxPartialFileSnapshot, n < bigintLimit
  rowGroupCount : supportsV11 → ∀ n ∈ file.info.rowGroupCount, n < bigintLimit
  columnStats : ∀ column ∈ file.columnStats, PlainStats column.stats column.extraStats
  shreddedFieldStats : ∀ column ∈ file.columnStats, ∀ field ∈ column.shreddedFieldStats,
    field.Plain
  partitionValues : ∀ value ∈ file.info.partitionValues, ∀ t ∈ value.partitionValue, PlainText t

/-- Both ways insert the same rows, or both are refused, whoever commits and wherever the metadata
is kept. -/
def SameRows (supportsV11 : Bool) (snapshot : DuckLakeSnapshot) (files : List NewDataFile) :
    Prop :=
  ∀ commitInfo catalog,
    (writeNewDataFilesSqlBatch supportsV11 files).map (execute ⟨snapshot, commitInfo, catalog⟩) =
      (writeNewDataFilesWithAppender supportsV11 snapshot files).map some

theorem reads_counts_iff {stats : DuckLakeColumnStats} {n : Nat} :
    Reads snapshot (if stats.countsKnown then Text.ofNat n else "NULL")
      (if stats.countsKnown then appendIdx n else .null) ↔
      (stats.countsKnown → n < bigintLimit) := by
  cases stats.countsKnown with
  | false => simpa using reads_null
  | true => simpa using reads_ofNat_iff

theorem reads_columnStats_iff {stats : DuckLakeColumnStats}
    {extraStats : Option DuckLakeColumnExtraStats} :
    List.Forall₂ (Reads snapshot) (fromColumnStats stats extraStats)
      (appendColumnStats stats extraStats) ↔ PlainStats stats extraStats := by
  simp only [fromColumnStats, appendColumnStats, List.forall₂_cons, reads_ofNat_iff,
    reads_counts_iff, reads_statsToString_iff, reads_optionalBool, reads_extraStats_iff]
  constructor
  · rintro ⟨hsize, hcount, hnull, hmin, hmax, -, hextra, -⟩
    exact ⟨hsize, fun h => ⟨hcount h, hnull h⟩, hmin, hmax, hextra⟩
  · intro h
    exact ⟨h.columnSizeBytes, fun hk => (h.counts hk).1, fun hk => (h.counts hk).2, h.min, h.max,
      trivial, h.extraStats, .nil⟩

theorem reads_variantField_iff {file : NewDataFile} {columnId : FieldIndex}
    {field : DuckLakeVariantStats} :
    List.Forall₂ (Reads snapshot) (variantStatsTuple file columnId field)
      (appendVariantField file columnId field) ↔ field.Plain := by
  obtain ⟨fieldName, shreddedType, stats, extraStats⟩ := field
  simp only [variantStatsTuple, appendVariantField, List.cons_append, List.nil_append,
    List.forall₂_cons, reads_formatIdx, reads_sqlString_iff, reads_columnStats_iff, true_and,
    DuckLakeVariantStats.Plain]

theorem reads_fileColumn_iff {supportsV11 : Bool} {file : NewDataFile} {column : FileColumn} :
    List.Forall₂ (Reads snapshot) (columnStatsTuple supportsV11 file column)
      (appendFileColumn supportsV11 file column) ↔
      PlainStats column.stats column.extraStats := by
  have hexact : List.Forall₂ (Reads snapshot)
      (if supportsV11 then
        [if column.stats.hasMin then boolLiteral column.stats.effectiveMinIsExact else "NULL",
          if column.stats.hasMax then boolLiteral column.stats.effectiveMaxIsExact else "NULL"]
      else [])
      (if supportsV11 then
        [appendBool column.stats.hasMin column.stats.effectiveMinIsExact,
          appendBool column.stats.hasMax column.stats.effectiveMaxIsExact]
      else []) := by
    cases supportsV11 with
    | false => exact .nil
    | true => exact .cons (reads_optionalBool _ _) (.cons (reads_optionalBool _ _) .nil)
  simp only [columnStatsTuple, appendFileColumn, List.cons_append, List.nil_append,
    List.forall₂_cons, reads_formatIdx, true_and]
  have hlength : (fromColumnStats column.stats column.extraStats).length =
      (appendColumnStats column.stats column.extraStats).length := rfl
  rw [forall₂_append_iff hlength, reads_columnStats_iff]
  exact and_iff_left hexact

theorem reads_partitionValue_iff {file : NewDataFile} {value : DuckLakeFilePartition} :
    List.Forall₂ (Reads snapshot) (partitionTuple file value) (appendPartitionValue file value) ↔
      ∀ t ∈ value.partitionValue, PlainText t := by
  have hvalue : Reads snapshot (value.partitionValue.elim "NULL".toList SQLWriter.sqlString)
      (value.partitionValue.elim .null .varchar) ↔ ∀ t ∈ value.partitionValue, PlainText t := by
    cases value.partitionValue with
    | none => simpa using reads_null
    | some t => simpa using reads_sqlString_iff
  simp only [partitionTuple, appendPartitionValue, List.forall₂_cons, reads_formatIdx, hvalue,
    true_and, List.Forall₂.nil, and_true]

theorem reads_dataFile_iff {supportsV11 : Bool} {file : NewDataFile} :
    List.Forall₂ (Reads snapshot) (dataFileTuple supportsV11 file)
      (appendDataFile supportsV11 snapshot.snapshotId file) ↔
      file.info.beginSnapshot.getD snapshot.snapshotId < bigintLimit ∧
      PlainText file.path.path ∧ PlainText file.info.fileFormat ∧
      (∀ n ∈ file.info.footerSize, n < bigintLimit) ∧
      (∀ n ∈ file.info.rowIdStart, n < bigintLimit) ∧
      (∀ n ∈ file.info.partitionId.map UInt64.toNat, n < bigintLimit) ∧
      (∀ n ∈ file.info.mappingId, n < bigintLimit) ∧
      (∀ n ∈ file.info.maxPartialFileSnapshot, n < bigintLimit) ∧
      (supportsV11 → ∀ n ∈ file.info.rowGroupCount, n < bigintLimit) := by
  have hrowGroups : List.Forall₂ (Reads snapshot)
      (if supportsV11 then [optionalIdxOrNull file.info.rowGroupCount] else [])
      (if supportsV11 then [appendOptional file.info.rowGroupCount] else []) ↔
      (supportsV11 → ∀ n ∈ file.info.rowGroupCount, n < bigintLimit) := by
    cases supportsV11 with
    | false => simp
    | true => simpa using reads_optionalIdxOrNull_iff
  simp only [dataFileTuple, appendDataFile, List.cons_append, List.nil_append, List.forall₂_cons,
    reads_formatIdx, reads_beginSnapshot_iff, reads_null, reads_sqlString_iff, reads_boolLiteral,
    reads_optionalIdxOrNull_iff, reads_encryptionKeyLiteral, hrowGroups, true_and]

/-- A row for each file, column, shredded field and partition value that is written alike. -/
theorem forall_plain_iff {supportsV11 : Bool} {files : List NewDataFile} :
    (∀ file ∈ files, file.Plain supportsV11 snapshot) ↔
      (∀ file ∈ files, List.Forall₂ (Reads snapshot) (dataFileTuple supportsV11 file)
        (appendDataFile supportsV11 snapshot.snapshotId file)) ∧
      (∀ file ∈ files, ∀ column ∈ file.columnStats, PlainStats column.stats column.extraStats) ∧
      (∀ file ∈ files, ∀ column ∈ file.columnStats, ∀ field ∈ column.shreddedFieldStats,
        field.Plain) ∧
      ∀ file ∈ files, ∀ value ∈ file.info.partitionValues, ∀ t ∈ value.partitionValue,
        PlainText t := by
  simp only [reads_dataFile_iff]
  constructor
  · intro h
    exact ⟨fun file hfile => ⟨(h file hfile).beginSnapshot, (h file hfile).path,
      (h file hfile).fileFormat, (h file hfile).footerSize, (h file hfile).rowIdStart,
      (h file hfile).partitionId, (h file hfile).mappingId, (h file hfile).maxPartialFileSnapshot,
      (h file hfile).rowGroupCount⟩, fun file hfile => (h file hfile).columnStats,
      fun file hfile => (h file hfile).shreddedFieldStats,
      fun file hfile => (h file hfile).partitionValues⟩
  · rintro ⟨hfile, hcolumns, hfields, hvalues⟩ file hmem
    obtain ⟨hbegin, hpath, hformat, hfooter, hrowId, hpartition, hmapping, hpartial, hgroups⟩ :=
      hfile file hmem
    exact ⟨hbegin, hpath, hformat, hfooter, hrowId, hpartition, hmapping, hpartial, hgroups,
      hcolumns file hmem, hfields file hmem, hvalues file hmem⟩

omit [StatsWriter] in
theorem FileRows.mapM_eq_some_iff {α β : Type} {f : α → Option β} {rows : FileRows α}
    {out : FileRows β} :
    rows.mapM f = some out ↔
      List.Forall₂ (List.Forall₂ fun x y => f x = some y) rows.dataFile out.dataFile ∧
      List.Forall₂ (List.Forall₂ fun x y => f x = some y) rows.fileColumnStats
        out.fileColumnStats ∧
      List.Forall₂ (List.Forall₂ fun x y => f x = some y) rows.fileVariantStats
        out.fileVariantStats ∧
      List.Forall₂ (List.Forall₂ fun x y => f x = some y) rows.filePartitionValue
        out.filePartitionValue := by
  have hrows (xs : List (List α)) (ys : List (List β)) : xs.mapM (List.mapM f) = some ys ↔
      List.Forall₂ (List.Forall₂ fun x y => f x = some y) xs ys := by
    simp only [DuckLake.mapM_eq_some_iff]
  unfold FileRows.mapM
  simp only [Option.bind_eq_bind, Option.bind_eq_some_iff, hrows]
  constructor
  · rintro ⟨dataFile, hd, columns, hc, fields, hf, values, hv, heq⟩
    cases heq
    exact ⟨hd, hc, hf, hv⟩
  · rintro ⟨hd, hc, hf, hv⟩
    exact ⟨_, hd, _, hc, _, hf, _, hv, rfl⟩

theorem execute_eq_some_iff {rows : FileRows Text} {out : FileRows SqlValue} :
    (∀ commitInfo catalog, execute ⟨snapshot, commitInfo, catalog⟩ rows = some out) ↔
      List.Forall₂ (List.Forall₂ (Reads snapshot)) rows.dataFile out.dataFile ∧
      List.Forall₂ (List.Forall₂ (Reads snapshot)) rows.fileColumnStats out.fileColumnStats ∧
      List.Forall₂ (List.Forall₂ (Reads snapshot)) rows.fileVariantStats out.fileVariantStats ∧
      List.Forall₂ (List.Forall₂ (Reads snapshot)) rows.filePartitionValue
        out.filePartitionValue := by
  have hreads : Reads snapshot = fun cell value => ∀ env : DuckLakeSnapshotCommit × MetadataNames,
      readCell (query ⟨snapshot, env.1, env.2⟩ cell) = some value := by
    funext cell value
    exact propext ⟨fun h env => h _ _, fun h commitInfo catalog => h (commitInfo, catalog)⟩
  have hforall : (∀ commitInfo catalog,
      execute ⟨snapshot, commitInfo, catalog⟩ rows = some out) ↔
      ∀ env : DuckLakeSnapshotCommit × MetadataNames,
        execute ⟨snapshot, env.1, env.2⟩ rows = some out :=
    ⟨fun h env => h _ _, fun h commitInfo catalog => h (commitInfo, catalog)⟩
  have : Nonempty (DuckLakeSnapshotCommit × MetadataNames) :=
    ⟨(MetadataContext.bare snapshot).commitInfo, (MetadataContext.bare snapshot).catalog⟩
  rw [hforall, hreads]
  simp only [execute, FileRows.mapM_eq_some_iff, forall_and, forall_forall₂_iff]

/-- Files that are partitioned as they should be. -/
theorem sameRows_wellPartitioned {supportsV11 : Bool} {files : List NewDataFile}
    (h : ¬ ∃ file ∈ files, ¬ file.WellPartitioned) :
    SameRows supportsV11 snapshot files ↔ ∀ file ∈ files, file.Plain supportsV11 snapshot := by
  unfold SameRows writeNewDataFilesSqlBatch writeNewDataFilesWithAppender
  rw [if_neg h, if_neg h]
  simp only [Except.map, Except.ok.injEq, execute_eq_some_iff]
  rw [forall_plain_iff]
  refine and_congr forall₂_map_iff (and_congr ?_ (and_congr ?_ ?_))
  · rw [forall₂_flatMap_iff fun file => by simp]
    simp only [forall₂_map_iff, reads_fileColumn_iff]
  · have hfields (file : NewDataFile) (column : FileColumn) :
        (column.shreddedFieldStats.map (variantStatsTuple file column.columnId)).length =
          (column.shreddedFieldStats.map (appendVariantField file column.columnId)).length := by
      simp
    rw [forall₂_flatMap_iff fun file => length_flatMap_eq (hfields file)]
    simp only [forall₂_flatMap_iff (hfields _), forall₂_map_iff, reads_variantField_iff]
  · rw [forall₂_flatMap_iff fun file => by simp]
    simp only [forall₂_map_iff, reads_partitionValue_iff]

/-- The appenders and the batch write the same rows exactly when all files are plain, or when both
refuse a file whose partition values do not go with its partition. -/
theorem sameRows_iff_plain (supportsV11 : Bool) (snapshot : DuckLakeSnapshot)
    (files : List NewDataFile) :
    SameRows supportsV11 snapshot files ↔
      (∃ file ∈ files, ¬ file.WellPartitioned) ∨
        ∀ file ∈ files, file.Plain supportsV11 snapshot := by
  by_cases h : ∃ file ∈ files, ¬ file.WellPartitioned
  · simp [SameRows, writeNewDataFilesSqlBatch, writeNewDataFilesWithAppender, h, Except.map]
  · rw [sameRows_wellPartitioned h, or_iff_right h]

end Rows

/-- A file with one string column whose smallest value has a zero byte. -/
def zeroByteFile : NewDataFile where
  info :=
    { id := 0, tableId := 1, fileName := "main/t/f.parquet", fileFormat := "parquet", rowCount := 1
      fileSizeBytes := 300, footerSize := some 100, rowGroupCount := some 1, rowIdStart := some 0
      partitionId := none, beginSnapshot := none, maxPartialFileSnapshot := none
      encryptionKey := [], mappingId := none, partitionValues := []
      columnStats := [(1,
        { type := .varchar, min := "a\x00b", max := "c", hasMin := true, hasMax := true })] }
  path := { path := "f.parquet", pathIsRelative := true }
  columnStats := [{
    columnId := 1
    stats := { type := .varchar, min := "a\x00b", max := "c", hasMin := true, hasMax := true }
    extraStats := none }]

/-- The appenders keep a bound with a zero byte, the batch drops it. -/
theorem not_sameRows_zeroByteFile :
    ¬ ∀ (_ : StatsWriter) supportsV11 snapshot files, SameRows supportsV11 snapshot files := by
  intro h
  let _ := StatsWriter.reference
  have hsame := h StatsWriter.reference true ⟨1, 0, 1, 0⟩ [zeroByteFile]
  rw [sameRows_wellPartitioned (by decide)] at hsame
  have hplain := ((hsame zeroByteFile (by simp)).columnStats _ List.mem_cons_self).min rfl
  exact hplain.1 (by decide)

end DuckLake
