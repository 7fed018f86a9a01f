import DuckLake.Storage.CommitAttempt

/-!
# The rows of new and altered tables and views

`getNewTableInfo` walks over the versions of a table from the first one written to the latest one
and collects the rows that bring the catalog from the committed table to the latest version. Of
several changes to one field only the last one is written, and a column that was added by this
transaction is taken back instead of being dropped.
-/

namespace DuckLake

/-! ## Columns -/

/-- Where the columns that were added by this transaction stand in the list of new columns. -/
abbrev TxnAddedFields : Type := List (FieldIndex × Nat)

/-- Takes back the column if it was added in this transaction, and drops it otherwise. -/
def cancelOrDropField (tableId : TableIndex) (field : FieldIndex) (result : NewTableInfo)
    (added : TxnAddedFields) : NewTableInfo × TxnAddedFields :=
  match added.lookup field with
  | some erased =>
    ({ result with newColumns := result.newColumns.eraseIdx erased },
      (added.filter (·.1 ≠ field)).map fun e => if erased < e.2 then (e.1, e.2 - 1) else e)
  | none =>
    ({ result with droppedColumns := result.droppedColumns ++ [⟨tableId, field⟩] }, added)

/-- Appends a new column and registers its position. -/
def pushNewColumn (column : DuckLakeNewColumn) (result : NewTableInfo) (added : TxnAddedFields) :
    NewTableInfo × TxnAddedFields :=
  ({ result with newColumns := result.newColumns ++ [column] },
    (column.columnInfo.id, result.newColumns.length) ::
      added.filter (·.1 ≠ column.columnInfo.id))

/-- A field that is dropped without being added again loses the column tags queued for it. -/
def discardColumnTags (tableId : TableIndex) (change : ColumnChangeInfo) (result : NewTableInfo) :
    NewTableInfo :=
  let gone := change.droppedFields.filter fun field =>
    change.newFields.all fun new => new.1.id ≠ field
  { result with
    newColumnTags := result.newColumnTags.filter fun tag =>
      !(tag.tableId = tableId && gone.contains tag.fieldIndex) }

def handleChangedFields (tableId : TableIndex) (change : ColumnChangeInfo) (result : NewTableInfo)
    (added : TxnAddedFields) : NewTableInfo × TxnAddedFields :=
  let dropped := change.droppedFields.foldl
    (fun acc field => cancelOrDropField tableId field acc.1 acc.2) (result, added)
  let extended := change.newFields.foldl
    (fun acc new => pushNewColumn ⟨tableId, new.1, new.2⟩ acc.1 acc.2) dropped
  (discardColumnTags tableId change extended.1, extended.2)

/-! ## Constraints and names -/

/-- PRIMARY KEY and UNIQUE are stored as metadata only and never enforced. -/
def effectiveConstraints (table : DuckLakeTableEntry) (tableId : TableIndex) :
    List DuckLakeConstraintInfo :=
  (table.constraints.filter (!·.columnNames.isEmpty)).map fun unique =>
    { tableId := tableId
      constraintType := if unique.isPrimaryKey then "PRIMARY KEY" else "UNIQUE"
      columnNames := unique.columnNames }

/-- Patches the name of the first entry with this id. -/
def renameEmittedTable (id : TableIndex) (name : Text) :
    List DuckLakeTableInfo → List DuckLakeTableInfo
  | [] => []
  | entry :: entries =>
    if entry.id = id then { entry with name := name } :: entries
    else entry :: renameEmittedTable id name entries

def renameEmittedView (id : TableIndex) (name : Text) :
    List DuckLakeViewInfo → List DuckLakeViewInfo
  | [] => []
  | entry :: entries =>
    if entry.id = id then { entry with name := name } :: entries
    else entry :: renameEmittedView id name entries

/-! ## Keys and ids -/

section Commit

variable [SQLWriter]

namespace CommitM

def ensure (cond : Bool) (message : Text) : CommitM Unit :=
  ofExcept (if cond then .ok () else internalException message)

def unsupportedLocalChange {α : Type} : CommitM α :=
  throw ⟨.notImplemented, "Unsupported transaction local change"⟩

def getTableId (id : TableIndex) : CommitM TableIndex := do
  return (← getCommitState).getTableId id

def getSchemaId (id : SchemaIndex) : CommitM SchemaIndex := do
  return (← getCommitState).getSchemaId id

omit [SQLWriter] in
theorem keepsCatalogId_of_local {old new : TableIndex} (h : isTransactionLocal old = true)
    (h' : isTransactionLocal old = false) : new = old := absurd (h.symm.trans h') Bool.noConfusion

/-- A transaction-local id is replaced by a new one; an id that is already committed is kept. -/
def allocateTableId (old : TableIndex) :
    CommitM { new : TableIndex // isTransactionLocal old = false → new = old } :=
  if h : isTransactionLocal old then do
    let new ← nextCatalogId
    return ⟨new, keepsCatalogId_of_local h⟩
  else return ⟨old, fun _ => rfl⟩

end CommitM

open CommitM

def getNewPartitionKey (address : EntryAddress) (table : DuckLakeTableEntry) :
    CommitM DuckLakePartitionInfo := do
  let tableId ← getTableId table.tableId
  ensure (!isTransactionLocal tableId) "Trying to write partition with transaction local table-id"
  match table.partitionData with
  | none => return { tableId := tableId }
  | some data =>
    -- the remap is keyed by the original transaction-local id: a previous failed attempt may
    -- have overwritten the partition id, while data files still reference the local one
    let localPartitionId := data.localPartitionId.getD data.partitionId
    let partitionId ← nextCatalogId
    store (.partitionId address partitionId)
    CommitM.setPartitionId localPartitionId partitionId
    return {
      id := some partitionId
      tableId := tableId
      fields := data.fields.map fun field =>
        ⟨field.partitionKeyIndex, field.fieldId, field.transform.toText⟩ }

def getNewSortKey (address : EntryAddress) (table : DuckLakeTableEntry) :
    CommitM DuckLakeSortInfo := do
  let tableId ← getTableId table.tableId
  ensure (!isTransactionLocal tableId) "Trying to write sort with transaction local table-id"
  match table.sortData with
  | none => return { tableId := tableId }
  | some data =>
    let sortId ← nextCatalogId
    store (.sortId address sortId)
    return { id := some sortId, tableId := tableId, fields := data.fields }

/-- The partition key of the table, if it has one. -/
def partitionKeys (address : EntryAddress) (table : DuckLakeTableEntry) :
    CommitM (List DuckLakePartitionInfo) :=
  if table.partitionData.isSome then do return [← getNewPartitionKey address table] else pure []

/-- The sort key of the table, if it has one. -/
def sortKeys (address : EntryAddress) (table : DuckLakeTableEntry) :
    CommitM (List DuckLakeSortInfo) :=
  if table.sortData.isSome then do return [← getNewSortKey address table] else pure []

/-! ## Tables -/

/-- The variables of the walk over the versions of a table. -/
structure TableWalk where
  result : NewTableInfo
  fieldAlterRemaining : FieldIndex → Nat
  commentRemaining : Nat
  columnCommentRemaining : FieldIndex → Nat
  txnAddedFields : TxnAddedFields := []
  columnSchemaChange : Bool := false
  constraintsTouched : Bool
  tableCreatedInTxn : Bool := false

/-- The field whose definition a change replaces. -/
def LocalChange.alteredField? : LocalChange → Option FieldIndex
  | .setNull field | .dropNull field | .setDefault field | .renameColumn field => some field
  | _ => Option.none

def LocalChange.commentedField? : LocalChange → Option FieldIndex
  | .setColumnComment field => some field
  | _ => Option.none

/-- Renaming or removing a column changes the names of the keys on it. -/
def LocalChange.touchesKeys : LocalChange → Bool
  | .renameColumn _ | .removeColumn _ => true
  | _ => false

/-- The counts with which the walk starts. -/
def TableWalk.start (tables : List DuckLakeTableEntry) (result : NewTableInfo) : TableWalk where
  result := result
  fieldAlterRemaining field := tables.countP (·.localChange.alteredField? = some field)
  commentRemaining := tables.countP (·.localChange = .setComment)
  columnCommentRemaining field := tables.countP (·.localChange.commentedField? = some field)
  constraintsTouched := tables.any (·.localChange.touchesKeys)

def getNewTable (table : DuckLakeTableEntry) (id : TableIndex) : CommitM DuckLakeTableInfo := do
  let schemaId ← getSchemaId table.schema.schemaId
  let isNewTable := isTransactionLocal table.tableId
  return {
    id := id
    schemaId := schemaId
    uuid := table.uuid
    name := table.name
    path := table.dataPath
    columns := if isNewTable then table.getTableColumns else []
    constraints := if isNewTable then effectiveConstraints table id else [] }

/-- The entry for the inlined data table, with the latest columns. -/
def inlinedTableEntry (latest : DuckLakeTableEntry) (id : TableIndex) : DuckLakeTableInfo where
  id := id
  schemaId := latest.schema.schemaId
  uuid := latest.uuid
  columns := latest.getTableColumns

/-- CREATE TABLE ... PARTITIONED BY / SORTED BY / WITH. -/
def createdTableKeys (address : EntryAddress) (latest table : DuckLakeTableEntry)
    (id : TableIndex) (created : Bool) (result : NewTableInfo) : CommitM NewTableInfo :=
  if created then do
    let newPartitionKeys ← partitionKeys address table
    let newSortKeys ← sortKeys address table
    return { result with
      newPartitionKeys := result.newPartitionKeys ++ newPartitionKeys
      newSortKeys := result.newSortKeys ++ newSortKeys
      newTableOptions := result.newTableOptions ++
        latest.tableOptions.map fun option => ⟨option.1, option.2, id⟩ }
  else pure result

def emitNewTable (address : EntryAddress) (latest table : DuckLakeTableEntry)
    (walk : TableWalk) : CommitM TableWalk := do
  let newId ← allocateTableId table.tableId
  let newTable ← getNewTable table newId.1
  let created : Bool := table.localChange = .created
  -- constraints added later in this same transaction ride along on the new-table row
  let newTable :=
    if created then { newTable with constraints := effectiveConstraints latest newId.1 }
    else newTable
  emplaceTable table.tableId newId.1 newId.2
  let result := { walk.result with
    newTables := walk.result.newTables ++ [newTable]
    newInlinedDataTables := walk.result.newInlinedDataTables ++ [inlinedTableEntry latest newId.1] }
  let result ← createdTableKeys address latest table newId.1 created result
  return { walk with
    result := result
    tableCreatedInTxn := walk.tableCreatedInTxn || created }

def setTableComment (table : DuckLakeTableEntry) (walk : TableWalk) : CommitM TableWalk := do
  let walk := { walk with commentRemaining := walk.commentRemaining - 1 }
  if 0 < walk.commentRemaining then return walk
  else
    let id ← getTableId table.tableId
    alterTable table.tableId
    return { walk with
      result.newTags := walk.result.newTags ++ [⟨id, "comment", table.comment⟩] }

def setColumnComment (table : DuckLakeTableEntry) (field : FieldIndex) (walk : TableWalk) :
    CommitM TableWalk := do
  let remaining := walk.columnCommentRemaining field - 1
  let walk := { walk with
    columnCommentRemaining := Function.update walk.columnCommentRemaining field remaining }
  if 0 < remaining then return walk
  else
    let id ← getTableId table.tableId
    let column ← ofExcept (table.findColumn field)
    alterTable table.tableId
    return { walk with
      result.newColumnTags :=
        walk.result.newColumnTags ++ [⟨id, field, "comment", column.comment⟩] }

/-- A renamed column changes the sort expressions that mention it. -/
def renamedSortKeys (address : EntryAddress) (table : DuckLakeTableEntry) (renamed : Bool) :
    CommitM (List DuckLakeSortInfo) :=
  if renamed then sortKeys address table else pure []

/-- A new definition of a column: the last one of the transaction is written, in place of the
committed column or of the column that was added before. -/
def alterField (address : EntryAddress) (table : DuckLakeTableEntry) (field : FieldIndex)
    (walk : TableWalk) : CommitM TableWalk := do
  let renamed : Bool := table.localChange = .renameColumn field
  -- rows that are NULL in this column may only be inlined under the new schema version
  let walk := { walk with
    columnSchemaChange :=
      walk.columnSchemaChange || table.localChange = LocalChange.dropNull field }
  let remaining := walk.fieldAlterRemaining field - 1
  let walk := { walk with
    fieldAlterRemaining := Function.update walk.fieldAlterRemaining field remaining }
  if 0 < remaining then return walk
  else
    let committedTableId ← getTableId table.tableId
    let canceled := cancelOrDropField committedTableId field walk.result walk.txnAddedFields
    let info ← ofExcept (table.getColumnInfo field)
    let pushed := pushNewColumn ⟨committedTableId, info, none⟩ canceled.1 canceled.2
    alterTable table.tableId
    alterSchemaVersion table.tableId
    let newSortKeys ← renamedSortKeys address table renamed
    return { walk with
      result := { pushed.1 with newSortKeys := pushed.1.newSortKeys ++ newSortKeys }
      txnAddedFields := pushed.2
      columnSchemaChange := walk.columnSchemaChange || renamed }

def changeFields (table : DuckLakeTableEntry) (walk : TableWalk) : CommitM TableWalk := do
  let id ← getTableId table.tableId
  let handled := handleChangedFields id table.changedFields walk.result walk.txnAddedFields
  alterSchemaVersion table.tableId
  return { walk with
    result := handled.1, txnAddedFields := handled.2, columnSchemaChange := true }

def addColumn (table : DuckLakeTableEntry) (walk : TableWalk) : CommitM TableWalk := do
  let id ← getTableId table.tableId
  let info ← ofExcept table.getAddColumnInfo
  let pushed := pushNewColumn ⟨id, info, none⟩ walk.result walk.txnAddedFields
  alterTable table.tableId
  alterSchemaVersion table.tableId
  return { walk with
    result := pushed.1, txnAddedFields := pushed.2, columnSchemaChange := true }

def newTableRow (address : EntryAddress) (latest table : DuckLakeTableEntry) (walk : TableWalk) :
    CommitM TableWalk := do
  let existing := (← getCommitState).committedTables.lookup table.tableId
  match table.localChange, existing with
  | .renamed, some id =>
    -- a row for this table was emitted earlier in the chain - patch its name
    return { walk with
      result.newTables := renameEmittedTable id table.name walk.result.newTables }
  | _, _ => emitNewTable address latest table walk

/-- One version of the table. -/
def newTableStep (latest : DuckLakeTableEntry) (walk : TableWalk)
    (version : DuckLakeTableEntry × EntryAddress) : CommitM TableWalk :=
  let table := version.1
  match table.localChange with
  | .setPartitionKey => do
    let key ← getNewPartitionKey version.2 table
    alterTable table.tableId
    alterSchemaVersion table.tableId
    return { walk with
      result.newPartitionKeys := walk.result.newPartitionKeys ++ [key], columnSchemaChange := true }
  | .addConstraint =>
    if table.hasAddedConstraint then do
      alterTable table.tableId
      alterSchemaVersion table.tableId
      return { walk with constraintsTouched := true }
    else pure walk
  | .setSortKey => do
    let key ← getNewSortKey version.2 table
    alterTable table.tableId
    return { walk with result.newSortKeys := walk.result.newSortKeys ++ [key] }
  | .setComment => setTableComment table walk
  | .setColumnComment field => setColumnComment table field walk
  | .setNull field | .dropNull field | .renameColumn field | .setDefault field =>
    alterField version.2 table field walk
  | .removeColumn _ | .changeColumnType => changeFields table walk
  | .addColumn => addColumn table walk
  | .none | .created | .renamed => newTableRow version.2 latest table walk
  | .setViewColumnComment _ => unsupportedLocalChange

/-- What is published once for the whole chain: the final keys, and an inlined data table for the
changed columns of an existing table. -/
def finishTable (latest : DuckLakeTableEntry) (walk : TableWalk) : CommitM NewTableInfo := do
  let id ← getTableId latest.tableId
  let result :=
    if walk.constraintsTouched && !walk.tableCreatedInTxn then
      { walk.result with
        replacementConstraints :=
          insertSorted id (effectiveConstraints latest id) walk.result.replacementConstraints }
    else walk.result
  return if walk.columnSchemaChange && result.newInlinedDataTables.all (·.id ≠ id) then
      { result with
        newInlinedDataTables := result.newInlinedDataTables ++ [inlinedTableEntry latest id] }
    else result

/-- The versions of a chain with their addresses, in the order in which they were written. -/
def chainVersions (schema entry : Nat) (tables : List DuckLakeTableEntry) :
    List (DuckLakeTableEntry × EntryAddress) :=
  (tables.zipIdx.map fun version => (version.1, ⟨schema, entry, version.2⟩)).reverse

omit [SQLWriter] in
theorem map_fst_chainVersions (schema entry : Nat) (tables : List DuckLakeTableEntry) :
    (chainVersions schema entry tables).map (·.1) = tables.reverse := by
  rw [chainVersions, List.map_reverse, List.map_map]
  exact congrArg List.reverse (List.zipIdx_map_fst 0 _)

def getNewTableInfo (schema entry : Nat) (tables : List DuckLakeTableEntry)
    (result : NewTableInfo) : CommitM NewTableInfo :=
  match tables with
  | [] => pure result
  | latest :: _ => do
    let walk ← (chainVersions schema entry tables).foldlM (newTableStep latest)
      (TableWalk.start tables result)
    finishTable latest walk

/-! ## Views -/

structure ViewWalk where
  result : NewTableInfo
  commentRemaining : Nat
  columnCommentRemaining : Text → Nat
  /-- The columns that are commented on by this transaction. -/
  commentedColumns : List Text

def LocalChange.commentedViewColumn? : LocalChange → Option Text
  | .setViewColumnComment name => some name
  | _ => Option.none

def ViewWalk.start (views : List DuckLakeViewEntry) (result : NewTableInfo) : ViewWalk where
  result := result
  commentRemaining := views.countP (·.localChange = .setComment)
  columnCommentRemaining name := views.countP (·.localChange.commentedViewColumn? = some name)
  commentedColumns := views.filterMap (·.localChange.commentedViewColumn?)

def setViewComment (view : DuckLakeViewEntry) (walk : ViewWalk) : CommitM ViewWalk := do
  let walk := { walk with commentRemaining := walk.commentRemaining - 1 }
  if 0 < walk.commentRemaining then return walk
  else
    let id ← getTableId view.viewId
    alterView view.viewId
    return { walk with
      result.newTags := walk.result.newTags ++ [⟨id, "comment", view.comment⟩] }

def setViewColumnComment (view : DuckLakeViewEntry) (name : Text) (walk : ViewWalk) :
    CommitM ViewWalk := do
  ensure (!name.isEmpty) "SET_COLUMN_COMMENT on view without view_column_comment_name"
  let remaining := walk.columnCommentRemaining name - 1
  let walk := { walk with
    columnCommentRemaining := Function.update walk.columnCommentRemaining name remaining }
  if 0 < remaining then return walk
  else
    let id ← getTableId view.viewId
    alterView view.viewId
    let value := (view.columnComments.find? fun e => Text.ciEquals e.1 name).bind (·.2)
    return { walk with
      result.newViewColumnTags := walk.result.newViewColumnTags ++ [⟨id, name, "comment", value⟩] }

def emitNewView (view : DuckLakeViewEntry) (walk : ViewWalk) : CommitM ViewWalk := do
  let newId ← allocateTableId view.viewId
  let schemaId ← getSchemaId view.schema.schemaId
  let newView : DuckLakeViewInfo :=
    { id := newId.1, schemaId := schemaId, uuid := view.uuid, name := view.name,
      dialect := "duckdb", columnAliases := view.columnAliases, sql := view.querySql }
  emplaceTable view.viewId newId.1 newId.2
  -- a renamed view is a new row, so its other column comments are written again
  let carried :=
    if view.localChange = .renamed then
      view.columnComments.filter fun e => !walk.commentedColumns.contains e.1
    else []
  return { walk with
    result := { walk.result with
      newViews := walk.result.newViews ++ [newView]
      newViewColumnTags := walk.result.newViewColumnTags ++
        carried.map fun e => ⟨newId.1, e.1, "comment", e.2⟩ } }

def newViewRow (view : DuckLakeViewEntry) (walk : ViewWalk) : CommitM ViewWalk := do
  let existing := (← getCommitState).committedTables.lookup view.viewId
  match view.localChange, existing with
  | .renamed, some id =>
    return { walk with result.newViews := renameEmittedView id view.name walk.result.newViews }
  | _, _ => emitNewView view walk

def newViewStep (walk : ViewWalk) (view : DuckLakeViewEntry) : CommitM ViewWalk :=
  match view.localChange with
  | .setComment => setViewComment view walk
  | .setViewColumnComment name => setViewColumnComment view name walk
  | .none | .created | .renamed => newViewRow view walk
  | _ => unsupportedLocalChange

def getNewViewInfo (views : List DuckLakeViewEntry) (result : NewTableInfo) :
    CommitM NewTableInfo := do
  let walk ← views.reverse.foldlM newViewStep (ViewWalk.start views result)
  return walk.result

/-! ## All entries -/

def getNewEntry (schema : Nat) (result : NewTableInfo) (entry : StagedEntry × Nat) :
    CommitM NewTableInfo :=
  match entry.1 with
  | .table chain => getNewTableInfo schema entry.2 chain result
  | .view chain => getNewViewInfo chain result

def getNewTables (T : StagedTransaction) : CommitM NewTableInfo :=
  T.newTables.zipIdx.foldlM
    (fun result schema => schema.1.2.zipIdx.foldlM (getNewEntry schema.2) result) {}

end Commit

end DuckLake
