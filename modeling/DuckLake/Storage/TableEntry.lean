import DuckLake.Storage.LocalChanges

/-!
# Table and view entries of a transaction

Every ALTER of a transaction makes a new entry on top of the one it alters, and the entry remembers
by which local change it was made. This is what a commit reads of such an entry. The type of a
nested column is the tree of its fields, so it is not stored a second time.
-/

namespace DuckLake

/-! ## Fields -/

inductive DefaultExpression where
  | literal (value : Value)
  | expression (text : Text)
deriving DecidableEq

structure DuckLakeColumnData where
  id : FieldIndex
  initialDefault : Value := none
  defaultValue : Option DefaultExpression := none
deriving DecidableEq

inductive FieldType where
  | primitive (name : Text)
  | struct | list | map
deriving DecidableEq

def FieldType.toText : FieldType → Text
  | primitive name => name
  | struct => "struct"
  | list => "list"
  | map => "map"

structure DuckLakeFieldId where
  columnData : DuckLakeColumnData
  name : Text
  type : FieldType
  children : List DuckLakeFieldId := []

/-- A column as it is written to the catalog; nested columns carry their fields. -/
structure DuckLakeColumnInfo where
  id : FieldIndex
  name : Text
  type : Text
  initialDefault : Value := none
  defaultValue : Value := none
  defaultValueType : Text := []
  nullsAllowed : Bool := false
  children : List DuckLakeColumnInfo := []

structure DuckLakeNewColumn where
  tableId : TableIndex
  columnInfo : DuckLakeColumnInfo
  parentIdx : Option FieldIndex := none

structure DuckLakeDroppedColumn where
  tableId : TableIndex
  fieldId : FieldIndex
deriving DecidableEq

/-- The default of a column, as a literal or as an expression. -/
def DuckLakeColumnInfo.extractDefaultValue (data : DuckLakeColumnData)
    (info : DuckLakeColumnInfo) : DuckLakeColumnInfo :=
  let info := { info with initialDefault := data.initialDefault }
  match data.defaultValue with
  | some (.literal value) => { info with defaultValue := value, defaultValueType := "literal" }
  | some (.expression text) =>
    { info with defaultValue := some text, defaultValueType := "expression" }
  | none => { info with defaultValue := none, defaultValueType := "literal" }

namespace DuckLakeFieldId

mutual

/-- Only columns without fields carry a default. -/
def convertColumn : DuckLakeFieldId → DuckLakeColumnInfo
  | ⟨data, name, .primitive type, _⟩ =>
    DuckLakeColumnInfo.extractDefaultValue data
      { id := data.id, name := name, type := type, nullsAllowed := true }
  | ⟨data, name, type, children⟩ =>
    { id := data.id, name := name, type := type.toText, nullsAllowed := true,
      children := convertColumns children }

def convertColumns : List DuckLakeFieldId → List DuckLakeColumnInfo
  | [] => []
  | field :: fields => convertColumn field :: convertColumns fields

end

end DuckLakeFieldId

/-! ## Local changes -/

inductive LocalChange where
  | none | created | renamed | setPartitionKey | setComment
  | setColumnComment (field : FieldIndex)
  | setNull (field : FieldIndex)
  | dropNull (field : FieldIndex)
  | renameColumn (field : FieldIndex)
  | addColumn
  | removeColumn (field : FieldIndex)
  | changeColumnType
  | setDefault (field : FieldIndex)
  | setSortKey | addConstraint
  | setViewColumnComment (name : Text)
deriving DecidableEq

/-- The fields that a change of a column adds and drops. -/
structure ColumnChangeInfo where
  newFields : List (DuckLakeColumnInfo × Option FieldIndex) := []
  droppedFields : List FieldIndex := []

/-! ## Partitioning and sorting -/

inductive DuckLakeTransform where
  | identity | year | month | day | hour | epochYear | epochMonth | epochDay | epochHour
  | bucket (bucketCount : Nat)
deriving DecidableEq

def DuckLakeTransform.toText : DuckLakeTransform → Text
  | identity => "identity"
  | year => "year"
  | month => "month"
  | day => "day"
  | hour => "hour"
  | epochYear => "epoch_year"
  | epochMonth => "epoch_month"
  | epochDay => "epoch_day"
  | epochHour => "epoch_hour"
  | bucket bucketCount => "bucket(" ++ Text.ofNat bucketCount ++ ")"

structure DuckLakePartitionField where
  partitionKeyIndex : Nat
  fieldId : FieldIndex
  transform : DuckLakeTransform
deriving DecidableEq

structure DuckLakePartition where
  partitionId : Idx
  /-- The transaction-local id this partition was assigned when it was created; data files written
  in the same transaction reference it. Commit attempts overwrite `partitionId`. -/
  localPartitionId : Option Idx
  fields : List DuckLakePartitionField
deriving DecidableEq

structure DuckLakeSortField where
  sortKeyIndex : Nat
  expression : Text
  dialect : Text
  ascending : Bool
  nullsFirst : Bool
deriving DecidableEq

structure DuckLakeSort where
  sortId : Idx
  fields : List DuckLakeSortField
deriving DecidableEq

/-! ## Entries -/

structure TableColumn where
  field : DuckLakeFieldId
  notNull : Bool := false
  comment : Value := none

/-- A UNIQUE or PRIMARY KEY constraint with the names of its columns. -/
structure UniqueConstraint where
  isPrimaryKey : Bool
  columnNames : List Text
deriving DecidableEq

structure DuckLakeTableEntry where
  tableId : TableIndex
  uuid : Text
  schema : DuckLakeSchemaEntry
  name : Text
  dataPath : Text
  columns : List TableColumn
  constraints : List UniqueConstraint := []
  comment : Value := none
  localChange : LocalChange
  changedFields : ColumnChangeInfo := {}
  /-- The entry carries the constraint that it adds. -/
  hasAddedConstraint : Bool := false
  partitionData : Option DuckLakePartition := none
  sortData : Option DuckLakeSort := none
  tableOptions : List (Text × Text) := []
  /-- A partition spec that this entry brings in knows its transaction-local id. -/
  localPartition : localChange = .setPartitionKey ∨ localChange = .created →
    ∀ data ∈ partitionData, data.localPartitionId.isSome := by simp

structure DuckLakeViewEntry where
  viewId : TableIndex
  uuid : Text
  schema : DuckLakeSchemaEntry
  name : Text
  querySql : Text
  columnAliases : List Text := []
  comment : Value := none
  columnComments : List (Text × Value) := []
  localChange : LocalChange

namespace DuckLakeTableEntry

def getTableColumns (table : DuckLakeTableEntry) : List DuckLakeColumnInfo :=
  table.columns.map fun column =>
    if column.notNull then { column.field.convertColumn with nullsAllowed := false }
    else column.field.convertColumn

def findColumn (table : DuckLakeTableEntry) (field : FieldIndex) : Except Exception TableColumn :=
  match table.columns.find? (·.field.columnData.id = field) with
  | some column => .ok column
  | none => internalException "Field id not found in table"

/-- `GetColumnInfo`: the column itself, without the fields that it may have. -/
def getColumnInfo (table : DuckLakeTableEntry) (field : FieldIndex) :
    Except Exception DuckLakeColumnInfo := do
  let column ← table.findColumn field
  let info : DuckLakeColumnInfo :=
    { id := field, name := column.field.name, type := column.field.type.toText }
  return { info.extractDefaultValue column.field.columnData with nullsAllowed := !column.notNull }

/-- The column that is added is always the last column. -/
def getAddColumnInfo (table : DuckLakeTableEntry) : Except Exception DuckLakeColumnInfo :=
  match table.columns.getLast? with
  | some column => .ok column.field.convertColumn
  | none => internalException "Column not found in table"

end DuckLakeTableEntry

end DuckLake
