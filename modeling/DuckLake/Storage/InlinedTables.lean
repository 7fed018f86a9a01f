import Mathlib.Algebra.Order.Ring.Nat
import DuckLake.Storage.NewTableInfo

/-!
# Inlined data tables

Small inserts are kept as rows of an inlined data table in the catalog. A table may have several of
them, one for each schema version under which rows were inlined, and rows always go to the one of
the largest schema version. This module follows the commits that create inlined data tables and
write to them, and the readers that look up the columns of an inlined data table by its schema
version.
-/

namespace DuckLake

/-! ## Columns -/

/-- The types and limits of the database that holds the metadata. -/
class InlinedStorage extends SQLWriter where
  typeIsNativelySupported : Text → Bool
  /-- `GetColumnTypeInternal` of a type or of the scalar type that stores it; `VARCHAR` for nested
  types that are stored as text. -/
  storageType : Text → Text
  supportsInlining : Text → Bool
  maxIdentifierLength : Nat
  prefixedInlinedColumns : Bool

/-- The metadata in the engine itself: every type is native, and a type is stored as it is
written. -/
@[reducible] def InlinedStorage.duckdb : InlinedStorage where
  toSQLWriter := .reference
  typeIsNativelySupported _ := true
  storageType type := type
  supportsInlining type := type ≠ "geometry".toList
  maxIdentifierLength := 2 ^ 64 - 1
  prefixedInlinedColumns := true

/-- A column of an inlined data table. -/
structure InlinedColumn where
  name : Text
  type : Text
deriving DecidableEq

namespace DuckLakeColumnInfo

mutual

/-- A column without its defaults and constraints: its field, the name and the type. -/
def typedField : DuckLakeColumnInfo → DuckLakeColumnInfo
  | ⟨id, name, type, _, _, _, _, children⟩ =>
    { id := id, name := name, type := type, children := typedFields children }

def typedFields : List DuckLakeColumnInfo → List DuckLakeColumnInfo
  | [] => []
  | column :: columns => typedField column :: typedFields columns

end

section Types

variable [InlinedStorage]

open InlinedStorage

/-- The type of a nested column, from its type and its fields. -/
def nestedColumnType (type : Text) (fields : List InlinedColumn) : Text :=
  if type = "struct".toList then
    "STRUCT(".toList ++
      Text.join ", " (fields.map fun field =>
        SQLWriter.quotedIdentifier field.name ++ " ".toList ++ field.type) ++ ")".toList
  else if type = "list".toList then (fields.head?.map (·.type)).getD [] ++ "[]".toList
  else if type = "map".toList then
    "MAP(".toList ++ Text.join ", " (fields.map (·.type)) ++ ")".toList
  else storageType type

mutual

def getColumnType : DuckLakeColumnInfo → Text
  | ⟨_, _, type, _, _, _, _, children⟩ =>
    if typeIsNativelySupported type then nestedColumnType type (inlinedColumns children)
    else storageType type

/-- The columns with which an inlined data table is created. -/
def inlinedColumns : List DuckLakeColumnInfo → List InlinedColumn
  | [] => []
  | column :: columns => ⟨column.name, getColumnType column⟩ :: inlinedColumns columns

end

mutual

def supportsInliningColumn : DuckLakeColumnInfo → Bool
  | ⟨_, _, type, _, _, _, _, children⟩ => supportsInlining type && supportsInliningColumns children

def supportsInliningColumns : List DuckLakeColumnInfo → Bool
  | [] => true
  | column :: columns => supportsInliningColumn column && supportsInliningColumns columns

end

/-- A column of this name would clash with the columns that DuckLake adds. -/
def conflictsWith (name : Text) : Bool :=
  let added : List Text := ["row_id", "begin_snapshot", "end_snapshot"]
  let names := if prefixedInlinedColumns then added.map ("_ducklake_".toList ++ ·) else added
  (names ++ ["_ducklake_internal_snapshot_id".toList, "_ducklake_internal_row_id".toList]).any
    (Text.ciEquals name)

def canInlineColumns (columns : List DuckLakeColumnInfo) : Bool :=
  columns.all (fun column => !conflictsWith column.name &&
    decide ((column.name.map Char.utf8Size).sum ≤ maxIdentifierLength)) &&
  supportsInliningColumns columns

end Types

end DuckLakeColumnInfo

/-! ## Altered tables -/

namespace DuckLakeTableEntry

/-- The version changes the columns, or rows that the old inlined data table refuses may follow.
A renamed column is written only if no later version alters the column again. -/
def changesColumnSchema (table : DuckLakeTableEntry) (later : List DuckLakeTableEntry) : Bool :=
  match table.localChange with
  | .setPartitionKey | .dropNull _ | .removeColumn _ | .changeColumnType | .addColumn => true
  | .renameColumn field => later.all (·.localChange.alteredField? ≠ some field)
  | _ => false

/-- The version has a row of its own in `ducklake_table`. -/
def writesTableRow (table : DuckLakeTableEntry) : Bool :=
  match table.localChange with
  | .none | .created | .renamed => true
  | _ => false

/-- The version gives the table a new schema version. -/
def changesSchemaVersion (table : DuckLakeTableEntry) : Bool :=
  match table.localChange with
  | .setPartitionKey | .setNull _ | .dropNull _ | .renameColumn _ | .addColumn | .removeColumn _
  | .changeColumnType | .setDefault _ => true
  | .addConstraint => table.hasAddedConstraint
  | _ => false

end DuckLakeTableEntry

/-- Whether the walk over the versions, the first one written first, finds changed columns. -/
def columnSchemaChange : List DuckLakeTableEntry → Bool
  | [] => false
  | table :: later => table.changesColumnSchema later || columnSchemaChange later

/-- A table that a transaction creates or alters. -/
structure AlteredTable where
  /-- The id in the catalog, a new one for a new table. -/
  id : TableIndex
  committed : isTransactionLocal id = false
  latest : DuckLakeTableEntry
  /-- The last column of a table cannot be dropped. -/
  hasColumns : latest.columns ≠ []
  /-- The versions before the latest one, the later ones first. -/
  earlier : List DuckLakeTableEntry := []

namespace AlteredTable

/-- The versions, the first one written first. -/
def versions (table : AlteredTable) : List DuckLakeTableEntry :=
  (table.latest :: table.earlier).reverse

def columns (table : AlteredTable) : List DuckLakeColumnInfo := table.latest.getTableColumns

/-- The entry of `new_inlined_data_tables` for the table, if it has one. -/
def newInlinedDataTable (table : AlteredTable) : Option DuckLakeTableInfo :=
  if table.versions.any (·.writesTableRow) || columnSchemaChange table.versions then
    some (inlinedTableEntry table.latest table.id)
  else none

def writesTableRow (table : AlteredTable) : Bool := table.versions.any (·.writesTableRow)

/-- The table has a row for the schema version of the commit. -/
def hasSchemaVersion (table : AlteredTable) : Bool :=
  table.versions.any fun version => version.writesTableRow || version.changesSchemaVersion

end AlteredTable

/-! ## The catalog -/

structure TableDefinition where
  tableId : TableIndex
  beginSnapshot : SnapshotId
  columns : List DuckLakeColumnInfo

/-- A row of `ducklake_schema_versions`. -/
structure SchemaVersionRow where
  beginSnapshot : SnapshotId
  schemaVersion : Nat
  tableId : TableIndex
deriving DecidableEq

structure InlinedRow where
  beginSnapshot : SnapshotId
  values : List Value
  /-- The columns of the table for which the row was inserted. -/
  columns : List DuckLakeColumnInfo

/-- An inlined data table together with its row of `ducklake_inlined_data_tables`. Its name is
made of the table id and the schema version. -/
structure InlinedTable where
  tableId : TableIndex
  schemaVersion : Nat
  columns : List InlinedColumn
  rows : List InlinedRow := []

/-- The part of the metadata that inlined data depends on. -/
structure InlinedCatalog where
  snapshotId : SnapshotId := 0
  schemaVersion : Nat := 0
  /-- The rows of `ducklake_table`, with the snapshot in which each begins. -/
  tables : List (TableIndex × SnapshotId) := []
  /-- The later ones first. -/
  definitions : List TableDefinition := []
  schemaVersions : List SchemaVersionRow := []
  inlinedTables : List InlinedTable := []
  dataInliningRowLimit : TableIndex → Nat := fun _ => 10

namespace InlinedCatalog

/-- The columns that the table has in a snapshot. -/
def columnsAt (db : InlinedCatalog) (id : TableIndex) (snapshot : SnapshotId) :
    Option (List DuckLakeColumnInfo) :=
  (db.definitions.find? fun d => d.tableId = id ∧ d.beginSnapshot ≤ snapshot).map (·.columns)

def currentColumns (db : InlinedCatalog) (id : TableIndex) : Option (List DuckLakeColumnInfo) :=
  db.columnsAt id db.snapshotId

/-- `SELECT MAX(schema_version)` over the inlined data tables of a table. -/
def maxSchemaVersion (db : InlinedCatalog) (id : TableIndex) : Option Nat :=
  ((db.inlinedTables.filter (·.tableId = id)).map (·.schemaVersion)).max?

/-- `LatestInlinedTableQuery`. -/
def latestInlinedTable (db : InlinedCatalog) (id : TableIndex) : Option InlinedTable :=
  db.inlinedTables.find? fun table =>
    table.tableId = id ∧ db.maxSchemaVersion id = some table.schemaVersion

/-! ### Readers -/

def getBeginSnapshotForTable (db : InlinedCatalog) (id : TableIndex) : Option SnapshotId :=
  (db.tables.find? (·.1 = id)).map (·.2)

/-- A schema version that is not recorded for the table stands for the one it was created with. -/
def getBeginSnapshotForSchemaVersion (db : InlinedCatalog) (id : TableIndex) (version : Nat) :
    Option SnapshotId :=
  match db.schemaVersions.find? fun row => row.tableId = id ∧ row.schemaVersion = version with
  | some row => some row.beginSnapshot
  | none => db.getBeginSnapshotForTable id

/-- The columns with which a reader maps the rows of an inlined data table. -/
def readerColumns (db : InlinedCatalog) (table : InlinedTable) :
    Option (List DuckLakeColumnInfo) :=
  (db.getBeginSnapshotForSchemaVersion table.tableId table.schemaVersion).bind
    (db.columnsAt table.tableId)

end InlinedCatalog

/-! ## Commits -/

/-- Rows that a transaction has inlined for a table. -/
structure InlinedInsert where
  tableId : TableIndex
  rows : List (List Value)

structure FlushedInlinedTable where
  tableId : TableIndex
  schemaVersion : Nat
  flushSnapshotId : SnapshotId

structure InlinedCommit where
  tables : List AlteredTable := []
  /-- The transaction makes other schema changes, such as a new view. -/
  otherSchemaChanges : Bool := false
  newInlinedData : List InlinedInsert := []
  flushedInlinedTables : List FlushedInlinedTable := []

/-- What an attempt has written so far, with the cache of the table to which rows go. -/
structure InlinedWrites where
  schemaVersion : Nat
  created : List InlinedTable := []
  insertInlinedTableCache : List (TableIndex × Nat) := []
  inserts : List (TableIndex × Nat × List InlinedRow) := []

namespace InlinedCommit

def newInlinedDataTables (commit : InlinedCommit) : List DuckLakeTableInfo :=
  commit.tables.filterMap (·.newInlinedDataTable)

/-- The columns that the table has in the transaction. -/
def columnsOf (commit : InlinedCommit) (db : InlinedCatalog) (id : TableIndex) :
    Option (List DuckLakeColumnInfo) :=
  match commit.tables.find? (·.id = id) with
  | some table => some table.columns
  | none => db.currentColumns id

/-- The schema version of the new snapshot, if no inlined data table needs one of its own. -/
def startVersion (commit : InlinedCommit) (db : InlinedCatalog) : Nat :=
  db.schemaVersion + if commit.tables.isEmpty && !commit.otherSchemaChanges then 0 else 1

end InlinedCommit

namespace InlinedWrites

variable [InlinedStorage]

/-- `GetInlinedTableQueries`. -/
def getInlinedTableQueries (w : InlinedWrites) (id : TableIndex)
    (columns : List DuckLakeColumnInfo) : InlinedWrites :=
  { w with
    created := w.created ++ [⟨id, w.schemaVersion, DuckLakeColumnInfo.inlinedColumns columns, []⟩]
    insertInlinedTableCache := (id, w.schemaVersion) :: w.insertInlinedTableCache }

/-- One table of `WriteNewInlinedTables`. -/
def writeNewInlinedTable (db : InlinedCatalog) (w : InlinedWrites) (table : DuckLakeTableInfo) :
    InlinedWrites :=
  if db.dataInliningRowLimit table.id = 0 || isTransactionLocal table.id then w
  else
    let columns :=
      if table.columns.isEmpty then (db.currentColumns table.id).getD [] else table.columns
    if DuckLakeColumnInfo.canInlineColumns columns then w.getInlinedTableQueries table.id columns
    else w

omit [InlinedStorage] in
/-- The inlined data table that is known to take rows of the table, by its schema version. -/
def inlinedTableName (db : InlinedCatalog) (commit : InlinedCommit) (w : InlinedWrites)
    (id : TableIndex) : Option Nat :=
  match w.insertInlinedTableCache.lookup id with
  | some version => some version
  | none =>
    if commit.newInlinedDataTables.all (·.id ≠ id) then
      (db.latestInlinedTable id).map (·.schemaVersion)
    else none

/-- A first inlined data table for rows that are about to be written. One that no altered table
asked for has a schema version of its own, and the columns of the table as it is committed: the
versions of an altered table are not found by its id. -/
def createInlinedTable (db : InlinedCatalog) (commit : InlinedCommit) (w : InlinedWrites)
    (id : TableIndex) : Except Exception InlinedWrites :=
  match commit.newInlinedDataTables.find? (·.id = id), db.currentColumns id with
  | some table, _ => .ok (w.getInlinedTableQueries id table.columns)
  | none, some columns =>
    .ok ({ w with schemaVersion := w.schemaVersion + 1 }.getInlinedTableQueries id columns)
  | none, none =>
    internalException "Writing inlined data for a table that cannot be found in the catalog"

omit [InlinedStorage] in
/-- The rows go to the inlined data table of this schema version. -/
def insertInto (w : InlinedWrites) (id : TableIndex) (version : Nat) (rows : List InlinedRow) :
    InlinedWrites :=
  { w with
    insertInlinedTableCache := (id, version) :: w.insertInlinedTableCache
    inserts := w.inserts ++ [(id, version, rows)] }

/-- One table of `WriteNewInlinedData`. -/
def writeInlinedEntry (db : InlinedCatalog) (commit : InlinedCommit) (w : InlinedWrites)
    (entry : InlinedInsert) : Except Exception InlinedWrites := do
  let rows : List InlinedRow := entry.rows.map fun values =>
    ⟨db.snapshotId + 1, values, (commit.columnsOf db entry.tableId).getD []⟩
  match inlinedTableName db commit w entry.tableId with
  | some version => return w.insertInto entry.tableId version rows
  | none =>
    let w ← createInlinedTable db commit w entry.tableId
    return w.insertInto entry.tableId w.schemaVersion rows

end InlinedWrites

namespace InlinedTable

/-- The rows that the statements of a commit leave in the inlined data table: inserts come before
the deletion of what was flushed. -/
def afterCommit (w : InlinedWrites) (flushed : List FlushedInlinedTable) (table : InlinedTable) :
    InlinedTable :=
  let inserted := w.inserts.flatMap fun insert =>
    if insert.1 = table.tableId ∧ insert.2.1 = table.schemaVersion then insert.2.2 else []
  { table with
    rows := (table.rows ++ inserted).filter fun row => flushed.all fun f =>
      !(f.tableId = table.tableId ∧ f.schemaVersion = table.schemaVersion ∧
        row.beginSnapshot ≤ f.flushSnapshotId) }

end InlinedTable

namespace InlinedCatalog

variable [InlinedStorage]

def writeNewInlinedTables (db : InlinedCatalog) (commit : InlinedCommit) : InlinedWrites :=
  commit.newInlinedDataTables.foldl (InlinedWrites.writeNewInlinedTable db)
    { schemaVersion := commit.startVersion db }

def writeNewInlinedData (db : InlinedCatalog) (commit : InlinedCommit) :
    Except Exception InlinedWrites :=
  commit.newInlinedData.foldlM (InlinedWrites.writeInlinedEntry db commit)
    (db.writeNewInlinedTables commit)

omit [InlinedStorage] in
/-- The catalog after the statements of a commit. -/
def afterWrites (db : InlinedCatalog) (commit : InlinedCommit) (w : InlinedWrites) :
    InlinedCatalog where
  snapshotId := db.snapshotId + 1
  schemaVersion := w.schemaVersion
  tables := db.tables ++
    (commit.tables.filter (·.writesTableRow)).map fun table => (table.id, db.snapshotId + 1)
  definitions :=
    (commit.tables.map fun table => ⟨table.id, db.snapshotId + 1, table.columns⟩) ++
      db.definitions
  schemaVersions := db.schemaVersions ++
    (commit.tables.filter (·.hasSchemaVersion)).map fun table =>
      ⟨db.snapshotId + 1, w.schemaVersion, table.id⟩
  inlinedTables :=
    (db.inlinedTables ++ w.created).map (·.afterCommit w commit.flushedInlinedTables)
  dataInliningRowLimit := db.dataInliningRowLimit

def commit (db : InlinedCatalog) (commit : InlinedCommit) : Except Exception InlinedCatalog := do
  return db.afterWrites commit (← db.writeNewInlinedData commit)

omit [InlinedStorage] in
/-- `DropEmptySupersededInlinedTables`. -/
def dropEmptySupersededInlinedTables (db : InlinedCatalog) : InlinedCatalog :=
  { db with
    inlinedTables := db.inlinedTables.filter fun table =>
      !(table.rows.isEmpty &&
        (db.maxSchemaVersion table.tableId).any (table.schemaVersion < ·)) }

end InlinedCatalog

/-! ## Runs -/

/-- What happens to a lake, as far as inlined data is concerned. -/
inductive InlinedStep where
  /-- An option or a setting changes the row limit of any number of tables. -/
  | setDataInliningRowLimit (limit : TableIndex → Nat)
  | commit (transaction : InlinedCommit)
  | dropEmptySupersededInlinedTables

def InlinedStep.run [InlinedStorage] (db : InlinedCatalog) :
    InlinedStep → Except Exception InlinedCatalog
  | setDataInliningRowLimit limit => .ok { db with dataInliningRowLimit := limit }
  | commit transaction => db.commit transaction
  | dropEmptySupersededInlinedTables => .ok db.dropEmptySupersededInlinedTables

/-- The catalogs that a new lake reaches when all steps are as `Allowed` says. -/
inductive InlinedCatalog.Reached [InlinedStorage]
    (Allowed : InlinedCatalog → InlinedStep → Prop) : InlinedCatalog → Prop
  | new {limit : TableIndex → Nat} : Reached Allowed { dataInliningRowLimit := limit }
  | step {db db' : InlinedCatalog} {s : InlinedStep} :
    Reached Allowed db → Allowed db s → s.run db = .ok db' → Reached Allowed db'

end DuckLake
