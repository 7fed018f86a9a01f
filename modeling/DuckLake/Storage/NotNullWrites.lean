import DuckLake.Storage.InlinedTables
import DuckLake.Storage.RowIds

/-!
# NOT NULL constraints on written rows

Rows are written to a table either into data files or inline into the catalog. Both paths verify the
NOT NULL constraints from the statistics that they gather: the first from what the file writer
reports for each column path, the second from the vectors of the rows. The two do not gather
statistics for the same columns.
-/

namespace DuckLake

/-! ## Rows -/

/-- A value of a column, without its type. -/
inductive Datum where
  | null
  /-- A value without fields, as it is cast to VARCHAR. -/
  | atom (text : Text)
  | struct (fields : List Datum)
  | list (elements : List Datum)
  | map (entries : List (Datum × Datum))

namespace Datum

def isNull : Datum → Bool
  | null => true
  | _ => false

/-- The cast to VARCHAR, which is NULL only for NULL. -/
def text : Datum → Option Text
  | null => none
  | atom text => some text
  | _ => some []

/-- The vector of the child at `idx` of a vector of a nested type. -/
def childVector (type : FieldType) (idx : Nat) (vector : List Datum) : List Datum :=
  match type with
  | .struct => vector.map fun d => match d with
    | struct fields => fields.getD idx null
    | _ => null
  | .list => vector.flatMap fun d => match d with
    | list elements => elements
    | _ => []
  | .map => vector.flatMap fun d => match d with
    | map entries => entries.map fun entry => if idx = 0 then entry.1 else entry.2
    | _ => []
  | .primitive _ => []

end Datum

/-- A row holds one value for each column of the table. -/
abbrev Row := List Datum

/-- The vector of the column at `c`. -/
def columnVector (c : Nat) (rows : List Row) : List Datum := rows.map (·.getD c .null)

def nullCount (vector : List Datum) : Nat := vector.countP Datum.isNull

theorem nullCount_eq_zero {vector : List Datum} :
    nullCount vector = 0 ↔ ∀ d ∈ vector, d.isNull = false := by
  simp [nullCount]

theorem nullCount_append (v w : List Datum) : nullCount (v ++ w) = nullCount v + nullCount w :=
  List.countP_append

@[simp] theorem columnVector_append (c : Nat) (rows rows' : List Row) :
    columnVector c (rows ++ rows') = columnVector c rows ++ columnVector c rows' :=
  List.map_append

/-! ## Field types -/

/-- VARIANT is stored as a nested value, but it has no fields of its own. -/
def DuckLakeFieldId.isVariant (field : DuckLakeFieldId) : Bool :=
  field.type = .primitive "variant".toList

/-- `DuckLakeTypes::IsNested`. -/
def FieldType.isNested : FieldType → Bool
  | primitive _ => false
  | struct | list | map => true

namespace DuckLakeFieldId

mutual

/-- The ids of a field and of the fields below it. -/
def fieldIds : DuckLakeFieldId → List FieldIndex
  | ⟨data, _, _, children⟩ => data.id :: childFieldIds children

def childFieldIds : List DuckLakeFieldId → List FieldIndex
  | [] => []
  | field :: fields => field.fieldIds ++ childFieldIds fields

end

end DuckLakeFieldId

/-- The columns of a table differ in their names, and all fields in their ids. -/
structure ValidFields (fields : List DuckLakeFieldId) : Prop where
  names : fields.Pairwise fun a b => a.name.fold ≠ b.name.fold
  ids : (DuckLakeFieldId.childFieldIds fields).Nodup

/-- The parts of the engine that gather and read statistics. -/
class WriteStatistics extends InlinedStorage, StatsMerge where
  /-- The type of a primitive type name. -/
  typeId : Text → LogicalTypeId
  isNan : Text → Bool
  /-- `ParseStats` of the extra statistics of a type, if it knows the name. -/
  parseExtraStats : LogicalTypeId → Option Text → Text → Text → Option Text
  /-- The name and the type of a shredded field of a variant type. -/
  extractVariantType : Option Text → List Text → Except Exception (Text × LogicalTypeId)
  /-- The stored form of the statistics of shredded fields. -/
  serializeVariantStats : List (Text × LogicalTypeId × DuckLakeColumnStats) → Text
  /-- A row as it is inlined. -/
  inlinedRow : Row → Text

section Types

variable [WriteStatistics]

open WriteStatistics

def FieldType.typeId : FieldType → LogicalTypeId
  | primitive name => WriteStatistics.typeId name
  | struct => .struct
  | list => .list
  | map => .map

/-! ## Statistics of vectors -/

/-- The value that the others do not replace. -/
def boundOf (replaces : Text → Text → Bool) (values : List Text) : Option Text :=
  values.foldl (fun bound value => match bound with
    | none => some value
    | some current => if replaces value current then some value else some current) none

/-- `TemplatedUpdateStats`. -/
def templatedUpdateStats (type : LogicalTypeId) (vector : List Datum) : DuckLakeColumnStats :=
  let values := vector.filterMap (·.text)
  let min := boundOf (fun value current => StatsMerge.lessThan type value current) values
  let max := boundOf (fun value current => StatsMerge.lessThan type current value) values
  { type := type
    isAnyValid := !values.isEmpty
    hasNullCount := true
    nullCount := nullCount vector
    hasMin := min.isSome, min := min.getD [], minIsExact := min.isSome
    hasMax := max.isSome, max := max.getD [], maxIsExact := max.isSome }

def getVectorStats (type : LogicalTypeId) (vector : List Datum) : DuckLakeColumnStats :=
  let result := templatedUpdateStats type vector
  if type.isFloating then
    { result with
      hasContainsNan := true, containsNan := (vector.filterMap (·.text)).any isNan }
  else result

/-- The statistics of a column so far, with those of its fields. -/
inductive DuckLakeBaseColumnStats where
  | mk (fieldId : FieldIndex) (stats : DuckLakeColumnStats) (hasStats : Bool)
    (children : List DuckLakeBaseColumnStats)

namespace DuckLakeBaseColumnStats

def stats : DuckLakeBaseColumnStats → DuckLakeColumnStats
  | mk _ stats _ _ => stats

/-- The statistics of a column before any row was seen. -/
def start (field : DuckLakeFieldId) : DuckLakeBaseColumnStats :=
  mk field.columnData.id { type := field.type.typeId } false []

/-- Statistics of a vector without fields. -/
def update (new : DuckLakeColumnStats) : DuckLakeBaseColumnStats → DuckLakeBaseColumnStats
  | mk fieldId stats hasStats children =>
    mk fieldId (if hasStats then stats.mergeStats new else new) true children

/-- New statistics of the children. -/
def recurse (f : List DuckLakeBaseColumnStats → List DuckLakeBaseColumnStats) :
    DuckLakeBaseColumnStats → DuckLakeBaseColumnStats
  | mk fieldId stats hasStats children => mk fieldId stats hasStats (f children)

end DuckLakeBaseColumnStats

section Update

variable (skipped : List FieldIndex)

mutual

/-- `UpdateStats` for the column whose statistics so far are `stats`. -/
def updateStats : DuckLakeFieldId → List Datum → Option DuckLakeBaseColumnStats →
    DuckLakeBaseColumnStats
  | ⟨data, name, .primitive type, children⟩, vector, stats =>
    let new := getVectorStats (FieldType.primitive type).typeId vector
    (stats.getD (.start ⟨data, name, .primitive type, children⟩)).update
      (if data.id ∈ skipped then new.clearBounds else new)
  | ⟨data, name, type, children⟩, vector, stats =>
    -- nested - recurse into children
    (stats.getD (.start ⟨data, name, type, children⟩)).recurse
      (updateChildStats type vector 0 children)

def updateChildStats (type : FieldType) (vector : List Datum) (idx : Nat) :
    List DuckLakeFieldId → List DuckLakeBaseColumnStats → List DuckLakeBaseColumnStats
  | [], _ => []
  | field :: fields, stats =>
    updateStats field (Datum.childVector type idx vector) stats.head? ::
      updateChildStats type vector (idx + 1) fields stats.tail

end

/-- The statistics of all columns when a chunk has been added. -/
def updateChunkStats (fields : List DuckLakeFieldId) (stats : List DuckLakeBaseColumnStats)
    (chunk : List Row) : List DuckLakeBaseColumnStats :=
  fields.zipIdx.map fun field =>
    updateStats skipped field.1 (columnVector field.2 chunk) stats[field.2]?

end Update

/-- `emplace` into a map of statistics: an entry that is there stays. -/
def emplaceStats (field : FieldIndex) (new : DuckLakeColumnStats)
    (entries : List (FieldIndex × DuckLakeColumnStats)) :
    List (FieldIndex × DuckLakeColumnStats) :=
  if (entries.lookup field).isSome then entries else insertSorted field new entries

mutual

/-- The statistics of a column and its fields, in the order in which `SetFinalStats` inserts them. -/
def finalStats : DuckLakeBaseColumnStats → List (FieldIndex × DuckLakeColumnStats)
  | .mk fieldId stats hasStats children =>
    (if hasStats then [(fieldId, stats)] else []) ++ finalChildStats children

def finalChildStats : List DuckLakeBaseColumnStats → List (FieldIndex × DuckLakeColumnStats)
  | [] => []
  | stats :: rest => finalStats stats ++ finalChildStats rest

end

/-! ## Constraints -/

def DuckLakeTableEntry.getFieldIds (table : DuckLakeTableEntry) : List DuckLakeFieldId :=
  table.columns.map (·.field)

def DuckLakeTableEntry.getNotNullFields (table : DuckLakeTableEntry) : CISet :=
  table.columns.foldl
    (fun names column => if column.notNull then names.insert column.field.name () else names) ∅

def notNullFailed {α : Type} (table column : Text) : Except Exception α :=
  .error ⟨.constraint, "NOT NULL constraint failed: ".toList ++ SQLWriter.quotedIdentifier table ++
    ".".toList ++ SQLWriter.quotedIdentifier column⟩

/-! ## Inlined rows -/

/-- One round of the loop over the columns of `OperatorFinalize`. -/
def finalizeColumn (table : DuckLakeTableEntry)
    (result : List (FieldIndex × DuckLakeColumnStats))
    (column : DuckLakeFieldId × DuckLakeBaseColumnStats) :
    Except Exception (List (FieldIndex × DuckLakeColumnStats)) :=
  if 0 < column.2.stats.nullCount ∧ table.getNotNullFields.contains column.1.name then
    notNullFailed table.name column.1.name
  else
    .ok ((finalStats column.2).foldl (fun result entry => emplaceStats entry.1 entry.2 result)
      result)

/-- `OperatorFinalize`: the rows of all chunks with their statistics. `rowIds` are the row ids that
an update preserves. -/
def operatorFinalize (table : DuckLakeTableEntry) (skipped : List FieldIndex)
    (chunks : List (List Row)) (rowIds : List Int) : Except Exception DuckLakeInlinedData := do
  let newStats := chunks.foldl (updateChunkStats skipped table.getFieldIds) []
  -- set the final stats and verify NOT NULL constraints
  let columnStats ← (table.getFieldIds.zip newStats).foldlM (finalizeColumn table) []
  return { rows := chunks.flatten.map inlinedRow, columnStats := columnStats, rowIds := rowIds }

/-! ## Reading the statistics of a file -/

/-- One statistic of a column, by its name. -/
def parseStat (stats : DuckLakeColumnStats) (stat : Text × Text) :
    Except Exception DuckLakeColumnStats :=
  if stat.1 = "min".toList then .ok { stats with min := stat.2, hasMin := true }
  else if stat.1 = "max".toList then .ok { stats with max := stat.2, hasMax := true }
  else if stat.1 = "null_count".toList then
    (toUnsigned stat.2).map fun n => { stats with hasNullCount := true, nullCount := n.toNat }
  else if stat.1 = "num_values".toList then
    (toUnsigned stat.2).map fun n => { stats with hasNumValues := true, numValues := n.toNat }
  else if stat.1 = "column_size_bytes".toList then
    (toUnsigned stat.2).map fun n => { stats with columnSizeBytes := n.toNat }
  else if stat.1 = "has_nan".toList then
    .ok { stats with hasContainsNan := true, containsNan := stat.2 = "true".toList }
  else if stat.1 = "min_is_exact".toList then
    .ok { stats with minIsExact := stat.2 = "true".toList }
  else if stat.1 = "max_is_exact".toList then
    .ok { stats with maxIsExact := stat.2 = "true".toList }
  else match parseExtraStats stats.type stats.extraStats stat.1 stat.2 with
    | some extra => .ok { stats with extraStats := some extra }
    | none => .error ⟨.notImplemented, "Unsupported stats type \"".toList ++ stat.1 ++
        "\" in DuckLakeInsert::Sink()".toList⟩

def parseColumnStats (type : LogicalTypeId) (colStats : List (Text × Text)) :
    Except Exception DuckLakeColumnStats :=
  colStats.foldlM parseStat { type := type }

/-- `GetByNames` from a field on; the offset is the position of the first name that lies within a
variant. -/
def getByNames : DuckLakeFieldId → List Text → Nat → Option (DuckLakeFieldId × Option Nat)
  | field, [], i => some (field, if field.isVariant then some i else none)
  | field, name :: names, i =>
    if field.isVariant then some (field, some i)
    else match field.children.find? fun child => child.name.ciEquals name with
      | none => none
      | some child => getByNames child names (i + 1)

/-- `GetFieldId`. -/
def getFieldId (fields : List DuckLakeFieldId) (names : List Text) :
    Except Exception (DuckLakeFieldId × Option Nat) :=
  let result := match names with
    | [] => none
    | name :: names => (fields.find? fun field => field.name.ciEquals name).bind fun root =>
        getByNames root names 1
  match result with
  | some field => .ok field
  | none => .error ⟨.binder, "Column \"".toList ++ Text.join ".".toList names ++
      "\" does not exist".toList⟩

/-- The statistics of a variant column while those of its parts are read. -/
structure ReturnedVariantStats where
  result : DuckLakeColumnStats := { type := .variant }
  variantType : Option Text := none
  /-- The shredded parts by their path in the variant: the field name and its statistics. -/
  shreddedFieldStats : List (List Text × Text × LogicalTypeId × DuckLakeColumnStats) := []
  fullyShreddedFields : List (List Text) := []

/-- Every second name of a path within a variant is `typed_value`. -/
def extractVariantFieldNames : List Text → Except Exception (List Text)
  | typedValue :: name :: rest =>
    if typedValue ≠ "typed_value".toList then
      invalidInputException "Expected typed_value in the path of a variant field"
    else (extractVariantFieldNames rest).map (name :: ·)
  | _ => .ok []

/-- The untyped values are all NULL. -/
def isFullyShredded (untyped : DuckLakeColumnStats) : Bool :=
  (untyped.hasNullCount && untyped.hasNumValues && untyped.nullCount = untyped.numValues) ||
    (untyped.hasMin && untyped.hasMax && untyped.min = "00".toList && untyped.max = "00".toList)

namespace ReturnedVariantStats

def parseMetadata (stats : ReturnedVariantStats) (colStats : List (Text × Text)) :
    Except Exception ReturnedVariantStats := do
  let metadata ← parseColumnStats .variant colStats
  -- propagate the top-level stats
  return { stats with
    result := { stats.result with
      hasNullCount := metadata.hasNullCount || stats.result.hasNullCount
      nullCount := if metadata.hasNullCount then metadata.nullCount else stats.result.nullCount
      hasNumValues := metadata.hasNumValues || stats.result.hasNumValues
      numValues := if metadata.hasNumValues then metadata.numValues else stats.result.numValues
      columnSizeBytes := stats.result.columnSizeBytes + metadata.columnSizeBytes }
    variantType := metadata.extraStats }

def parseTypedValue (stats : ReturnedVariantStats) (names : List Text)
    (colStats : List (Text × Text)) : Except Exception ReturnedVariantStats := do
  let shredded ← extractVariantType stats.variantType names
  let new ← parseColumnStats shredded.2 colStats
  return { stats with
    result.columnSizeBytes := stats.result.columnSizeBytes + new.columnSizeBytes
    shreddedFieldStats := stats.shreddedFieldStats ++ [(names, shredded.1, shredded.2, new)] }

def parseValue (stats : ReturnedVariantStats) (names : List Text)
    (colStats : List (Text × Text)) : Except Exception ReturnedVariantStats := do
  let untyped ← parseColumnStats .blob colStats
  return { stats with
    result.columnSizeBytes := stats.result.columnSizeBytes + untyped.columnSizeBytes
    fullyShreddedFields :=
      if isFullyShredded untyped then stats.fullyShreddedFields ++ [names]
      else stats.fullyShreddedFields }

/-- `ParseVariantStats` for the names of a path from the offset on. -/
def parseVariantStats (stats : ReturnedVariantStats) (path : List Text)
    (colStats : List (Text × Text)) : Except Exception ReturnedVariantStats :=
  if path = ["metadata".toList] then stats.parseMetadata colStats
  else match extractVariantFieldNames path with
    | .error e => .error e
    | .ok names =>
      if path.getLast? = some "typed_value".toList then stats.parseTypedValue names colStats
      else if path.getLast? = some "value".toList then stats.parseValue names colStats
      else invalidInputException ("Variant stats - unknown path element ".toList ++
        path.getLast?.getD [] ++ " - expected metadata, typed_value or value".toList)

/-- `Finalize`: the statistics of the fully shredded fields are kept. -/
def finalize (stats : ReturnedVariantStats) : DuckLakeColumnStats :=
  { stats.result with
    extraStats := some (serializeVariantStats
      ((stats.shreddedFieldStats.filter fun field =>
        stats.fullyShreddedFields.contains field.1).map (·.2))) }

end ReturnedVariantStats

/-! ## Data files -/

/-- What the file writer returns for a file. -/
structure WrittenDataFile where
  fileName : Text
  rowCount : Nat
  fileSizeBytes : Nat := 0
  footerSize : Nat := 0
  /-- The statistics of each column path. -/
  columnStats : List (Text × List (Text × Text))
  partitionValues : List Value := []
  rowGroupCount : Option Nat := none

/-- The columns that are written in addition to those of the table. -/
def isInternalColumn (name : Text) : Bool :=
  name = "_ducklake_internal_snapshot_id".toList || name = "_ducklake_internal_row_id".toList

/-- The statistics of a file that have been read so far. -/
structure FileStats where
  columnStats : List (FieldIndex × DuckLakeColumnStats) := []
  variantStats : List (FieldIndex × ReturnedVariantStats) := []

/-- The statistics of a column that is not in a variant. `table` is the name in the message. -/
def addColumnStats (skipped : List FieldIndex) (table : Text) (notNull : CISet)
    (names : List Text) (field : DuckLakeFieldId) (colStats : List (Text × Text))
    (acc : FileStats) : Except Exception FileStats :=
  match parseColumnStats field.type.typeId colStats with
  | .error e => .error e
  | .ok stats =>
    -- we wrote NULL values to a base column - verify NOT NULL constraint
    if 0 < stats.nullCount ∧ names.length = 1 ∧ notNull.contains (names.headD []) then
      notNullFailed table (names.headD [])
    else
      .ok { acc with
        columnStats := emplaceStats field.columnData.id
          (if field.columnData.id ∈ skipped then stats.clearBounds else stats) acc.columnStats }

/-- The statistics of a part of a variant. -/
def addVariantStats (names : List Text) (field : DuckLakeFieldId) (offset : Nat)
    (colStats : List (Text × Text)) (acc : FileStats) : Except Exception FileStats := do
  let current := (acc.variantStats.lookup field.columnData.id).getD {}
  let stats ← current.parseVariantStats (names.drop offset) colStats
  return { acc with
    variantStats := (field.columnData.id, stats) ::
      acc.variantStats.filter (·.1 ≠ field.columnData.id) }

/-- One round of the loop over the column statistics of a file. -/
def addFileStats (fields : List DuckLakeFieldId) (skipped : List FieldIndex) (table : Text)
    (notNull : CISet) (acc : FileStats) (entry : Text × List (Text × Text)) :
    Except Exception FileStats := do
  let names ← parseQuotedList entry.1 '.'
  if isInternalColumn (names.headD []) then return acc
  else
    match ← getFieldId fields names with
    | (field, some offset) => addVariantStats names field offset entry.2 acc
    | (field, none) => addColumnStats skipped table notNull names field entry.2 acc

/-- The column statistics of a file, with those of its variants. -/
def FileStats.finalize (acc : FileStats) : List (FieldIndex × DuckLakeColumnStats) :=
  acc.variantStats.foldl (fun result entry => emplaceStats entry.1 entry.2.finalize result)
    acc.columnStats

/-- `AddWrittenFiles` for one file of an insert or an update, which write no snapshot ids. -/
def addWrittenFile (table : DuckLakeTableEntry) (skipped : List FieldIndex)
    (partitionId : Option Idx) (file : WrittenDataFile) : Except Exception DuckLakeDataFile := do
  let stats ← file.columnStats.foldlM
    (addFileStats table.getFieldIds skipped table.name table.getNotNullFields) {}
  return {
    fileName := file.fileName
    fileFormat := if ".vortex".toList <:+ file.fileName.fold then "vortex" else "parquet"
    rowCount := file.rowCount
    fileSizeBytes := file.fileSizeBytes
    footerSize := some file.footerSize
    rowGroupCount := file.rowGroupCount
    partitionId := partitionId
    columnStats := stats.finalize
    partitionValues := file.partitionValues.zipIdx.map fun value => ⟨value.2, value.1⟩ }

def addWrittenFiles (table : DuckLakeTableEntry) (skipped : List FieldIndex)
    (partitionId : Option Idx) (files : List WrittenDataFile) :
    Except Exception (List DuckLakeDataFile) :=
  files.mapM (addWrittenFile table skipped partitionId)

end Types

end DuckLake
