import DuckLake.Lib.Guard
import DuckLake.Lib.Validity
import DuckLake.Storage.MetadataInfo

/-!
# The metadata tables

The tables of the metadata catalog as snapshot expiration and the readers of a snapshot see them.
Of each row the columns are kept that one of the two looks at; the other columns are its `cells`.
-/

namespace DuckLake

/-! ## Paths -/

/-- What the metadata manager asks the attached catalog for. -/
structure CatalogSettings where
  dataPath : Text
  separator : Char
  supportsV1_1Metadata : Bool

/-- `StringUtil::Replace` of one character. -/
def replaceChar (old new : Char) (t : Text) : Text := t.map fun c => if c == old then new else c

def storePath (settings : CatalogSettings) (path : Text) : Text :=
  if settings.separator == '/' then path else replaceChar settings.separator '/' path

def loadPath (settings : CatalogSettings) (path : Text) : Text :=
  if settings.separator == '/' then path else replaceChar '/' settings.separator path

def fromRelativePath (settings : CatalogSettings) (path : DuckLakePath) (basePath : Text) : Text :=
  if !path.pathIsRelative then loadPath settings path.path
  else loadPath settings (basePath ++ path.path)

def getRelativePath (settings : CatalogSettings) (path : Text) : DuckLakePath :=
  if settings.dataPath.isPrefixOf path then
    ⟨storePath settings (path.drop settings.dataPath.length), true⟩
  else ⟨storePath settings path, false⟩

section Paths

variable {settings : CatalogSettings} {path : Text}

/-- A loaded path has no slash left, unless the separator is one. -/
theorem slash_not_mem_loadPath (h : settings.separator ≠ '/') : '/' ∉ loadPath settings path := by
  simp only [loadPath, beq_iff_eq, h, if_false, replaceChar, List.mem_map, not_exists, not_and]
  intro c _
  split
  · exact h
  · rename_i hc
    simpa using hc

theorem replaceChar_replaceChar {sep : Char} (h : '/' ∉ path) :
    replaceChar '/' sep (replaceChar sep '/' path) = path := by
  simp only [replaceChar, List.map_map]
  conv_rhs => rw [← List.map_id path]
  apply List.map_congr_left
  intro c hc
  have hslash : c ≠ '/' := fun heq => h (heq ▸ hc)
  by_cases hsep : c = sep
  · simp [hsep]
  · simp [hsep, hslash]

theorem replaceChar_of_not_mem {old new : Char} (h : old ∉ path) :
    replaceChar old new path = path := by
  conv_rhs => rw [← List.map_id path]
  apply List.map_congr_left
  intro c hc
  have hne : c ≠ old := fun heq => h (heq ▸ hc)
  simp [hne]

/-- A path that was stored relative to the data path is found again when it is cleaned up. -/
theorem fromRelativePath_getRelativePath {stored : Text} (h : path = loadPath settings stored) :
    fromRelativePath settings (getRelativePath settings path) settings.dataPath = path := by
  by_cases hsep : settings.separator = '/'
  · simp only [fromRelativePath, getRelativePath, loadPath, storePath, hsep]
    split
    · rename_i hpre
      obtain ⟨rest, rfl⟩ := List.isPrefixOf_iff_prefix.mp hpre
      simp
    · simp
  · have hslash : '/' ∉ path := h ▸ slash_not_mem_loadPath hsep
    simp only [fromRelativePath, getRelativePath, loadPath, storePath, beq_iff_eq, hsep, if_false]
    split
    · rename_i hpre
      obtain ⟨rest, rfl⟩ := List.isPrefixOf_iff_prefix.mp hpre
      have hbase : '/' ∉ settings.dataPath := fun hm => hslash (List.mem_append_left _ hm)
      have hrest : '/' ∉ rest := fun hm => hslash (List.mem_append_right _ hm)
      have hmap : ∀ s t : Text, replaceChar '/' settings.separator (s ++ t) =
          replaceChar '/' settings.separator s ++ replaceChar '/' settings.separator t :=
        fun s t => List.map_append
      simp [hmap, replaceChar_of_not_mem hbase, replaceChar_replaceChar hrest]
    · simp [replaceChar_replaceChar hslash]

end Paths

/-! ## Rows -/

/-- A row with a validity, and the id by which it is looked up. -/
structure VersionedRow (κ : Type) where
  key : κ
  life : Validity SnapshotId
  cells : List Text
deriving DecidableEq

/-- A row without a validity of its own: it lives as long as what its key names. -/
structure KeyedRow (κ : Type) where
  key : κ
  cells : List Text
deriving DecidableEq

/-- A row of `ducklake_schema`. -/
structure SchemaRow where
  schemaId : SchemaIndex
  life : Validity SnapshotId
  path : DuckLakePath
  cells : List Text
deriving DecidableEq

/-- A row of `ducklake_table`. A table that was altered has several, one after the other. -/
structure TableRow where
  tableId : TableIndex
  life : Validity SnapshotId
  schemaId : SchemaIndex
  path : DuckLakePath
  cells : List Text
deriving DecidableEq

/-- A row of `ducklake_data_file`. -/
structure DataFileRow where
  dataFileId : DataFileIndex
  tableId : TableIndex
  life : Validity SnapshotId
  path : DuckLakePath
  cells : List Text
deriving DecidableEq

/-- A row of `ducklake_delete_file`. -/
structure DeleteFileRow where
  deleteFileId : DataFileIndex
  tableId : TableIndex
  life : Validity SnapshotId
  dataFileId : DataFileIndex
  path : DuckLakePath
  cells : List Text
deriving DecidableEq

/-- A row of `ducklake_files_scheduled_for_deletion`. -/
structure ScheduledFileRow where
  dataFileId : DataFileIndex
  path : DuckLakePath
deriving DecidableEq

/-- A row of `ducklake_inlined_data_tables`. -/
structure InlinedDataTableRow where
  tableId : TableIndex
  tableName : Text
  schemaVersion : Nat
deriving DecidableEq

/-- A row of an inlined data table. -/
structure InlinedDataRow where
  rowId : Nat
  life : Validity SnapshotId
  cells : List Text
deriving DecidableEq

/-- A row of an inlined deletion table. -/
structure InlinedDeletionRow where
  fileId : DataFileIndex
  rowId : Nat
  beginSnapshot : SnapshotId
deriving DecidableEq

/-- A row of `ducklake_column_mapping`. -/
structure ColumnMappingRow where
  mappingId : MappingIndex
  tableId : TableIndex
  cells : List Text
deriving DecidableEq

def inlinedTableNameFor (tableId : TableIndex) (schemaVersion : Nat) : Text :=
  "ducklake_inlined_data_".toList ++ tableId.toText ++ '_' :: Text.ofNat schemaVersion

def inlinedFileDeletionTableName (tableId : TableIndex) : Text :=
  "ducklake_inlined_delete_".toList ++ tableId.toText

theorem Idx.toText_injective : Function.Injective Idx.toText := by
  intro i j h
  have := toUnsigned_toText i
  rw [h, toUnsigned_toText] at this
  cases this
  rfl

theorem inlinedFileDeletionTableName_injective :
    Function.Injective inlinedFileDeletionTableName := by
  intro t u h
  exact Idx.toText_injective (List.append_cancel_left h)

theorem takeWhile_digits (i : Idx) (rest : Text) :
    (i.toText ++ '_' :: rest).takeWhile Char.isDigit = i.toText := by
  have hdigits : ∀ c ∈ i.toText, c.isDigit = true := fun c hc => Text.isDigit_of_mem_ofNat hc
  rw [List.takeWhile_append_of_pos hdigits]
  simp

theorem inlinedTableNameFor_table {t u : TableIndex} {v w : Nat}
    (h : inlinedTableNameFor t v = inlinedTableNameFor u w) : t = u := by
  unfold inlinedTableNameFor at h
  simp only [List.append_assoc] at h
  have hrest := List.append_cancel_left h
  apply Idx.toText_injective
  rw [← takeWhile_digits t, hrest, takeWhile_digits u]

theorem inlinedTableNameFor_ne_deletion (t u : TableIndex) (v : Nat) :
    inlinedTableNameFor t v ≠ inlinedFileDeletionTableName u := by
  intro h
  have htake := congrArg (List.take 20) h
  unfold inlinedTableNameFor inlinedFileDeletionTableName at htake
  rw [List.append_assoc, List.take_append_of_le_length (by decide),
    List.take_append_of_le_length (by decide)] at htake
  exact absurd htake (by decide)

/-! ## The metadata catalog -/

/-- The metadata tables. The ids of data files and of delete files are primary keys, and an inlined
data table is registered under the name that is made for its table and schema version. -/
structure Metadata where
  snapshots : List SnapshotId
  snapshotProtections : List SnapshotId
  schemas : List SchemaRow
  tables : List TableRow
  columns : List (VersionedRow TableIndex)
  columnTags : List (VersionedRow TableIndex)
  partitionInfo : List (VersionedRow TableIndex)
  partitionColumns : List (KeyedRow TableIndex)
  sortInfo : List (VersionedRow TableIndex)
  sortExpressions : List (KeyedRow TableIndex)
  tableStats : List (KeyedRow TableIndex)
  tableColumnStats : List (KeyedRow TableIndex)
  schemaVersions : List (KeyedRow TableIndex)
  columnMappings : List ColumnMappingRow
  nameMappings : List (KeyedRow MappingIndex)
  dataFiles : List DataFileRow
  fileColumnStats : List (KeyedRow DataFileIndex)
  fileVariantStats : List (KeyedRow DataFileIndex)
  filePartitionValues : List (KeyedRow DataFileIndex)
  deleteFiles : List DeleteFileRow
  inlinedDataTables : List InlinedDataTableRow
  /-- The inlined data tables that exist, by name. -/
  inlinedData : List (Text × List InlinedDataRow)
  /-- The inlined deletion tables that exist, by name. -/
  inlinedDeletions : List (Text × List InlinedDeletionRow)
  views : List (VersionedRow TableIndex)
  viewColumnTags : List (VersionedRow TableIndex)
  tags : List (VersionedRow Idx)
  macros : List (VersionedRow MacroIndex)
  macroImpls : List (KeyedRow MacroIndex)
  macroParameters : List (KeyedRow MacroIndex)
  procedures : List (VersionedRow ProcedureIndex)
  procedureParameters : List (KeyedRow ProcedureIndex)
  materializedViews : List (VersionedRow TableIndex)
  materializedViewDependencies : List (VersionedRow TableIndex)
  externalFiles : List Text
  filesScheduledForDeletion : List ScheduledFileRow
  dataFileId_nodup : (dataFiles.map (·.dataFileId)).Nodup
  deleteFileId_nodup : (deleteFiles.map (·.deleteFileId)).Nodup
  tableName_eq : ∀ row ∈ inlinedDataTables,
    row.tableName = inlinedTableNameFor row.tableId row.schemaVersion

namespace Metadata

/-- The path of the first schema of the join of a table's rows with their schemas. -/
def getPathForTable (md : Metadata) (settings : CatalogSettings) (tableId : TableIndex) :
    Except Exception Text :=
  match (md.tables.filter (·.tableId == tableId)).findSome? fun table =>
      (md.schemas.find? (·.schemaId == table.schemaId)).map fun schema => (schema, table) with
  | some (schema, table) =>
    .ok (fromRelativePath settings table.path
      (fromRelativePath settings schema.path settings.dataPath))
  | none =>
    invalidInputException
      ("Failed to get path for table with id ".toList ++ tableId.toText ++
        " - table not found in metadata catalog".toList)

/-- The data path of the table entry at the snapshot of the transaction; for a table that is not
there, the one its rows have. -/
def getPath (md : Metadata) (settings : CatalogSettings) (snapshot : SnapshotId)
    (tableId : TableIndex) : Except Exception Text :=
  match md.tables.find? fun table => table.tableId == tableId && table.life.visibleAt snapshot with
  | some table =>
    match md.schemas.find? fun schema =>
        schema.schemaId == table.schemaId && schema.life.visibleAt snapshot with
    | some schema =>
      .ok (fromRelativePath settings table.path
        (fromRelativePath settings schema.path settings.dataPath))
    | none =>
      invalidInputException
        ("Failed to load DuckLake - table with id ".toList ++ table.tableId.toText ++
          " references schema id ".toList ++ table.schemaId.toText ++
          " that does not exist".toList)
  | none => md.getPathForTable settings tableId

/-- `FromRelativePath` of a path of a table. -/
def filePath (md : Metadata) (settings : CatalogSettings) (snapshot : SnapshotId)
    (tableId : TableIndex) (path : DuckLakePath) : Except Exception Text :=
  (md.getPath settings snapshot tableId).map (fromRelativePath settings path)

theorem filePath_loaded {md : Metadata} {settings : CatalogSettings} {snapshot : SnapshotId}
    {tableId : TableIndex} {path : DuckLakePath} {p : Text}
    (h : md.filePath settings snapshot tableId path = .ok p) :
    ∃ stored, p = loadPath settings stored := by
  unfold filePath at h
  cases hbase : md.getPath settings snapshot tableId with
  | error e =>
    rw [hbase] at h
    cases h
  | ok base =>
    rw [hbase] at h
    cases h
    unfold fromRelativePath
    split
    · exact ⟨_, rfl⟩
    · exact ⟨_, rfl⟩

end Metadata

/-! ## What a reader sees at a snapshot -/

/-- A data file with its statistics and partition values. -/
structure DataFileContent where
  file : DataFileRow
  columnStats : List (KeyedRow DataFileIndex)
  variantStats : List (KeyedRow DataFileIndex)
  partitionValues : List (KeyedRow DataFileIndex)
deriving DecidableEq

structure TableContent where
  table : TableRow
  columns : List (VersionedRow TableIndex)
  columnTags : List (VersionedRow TableIndex)
  partitions : List (VersionedRow TableIndex)
  sortKeys : List (VersionedRow TableIndex)
  dataFiles : List DataFileContent
  deleteFiles : List DeleteFileRow
  inlinedRows : List (Nat × List InlinedDataRow)
  inlinedDeletions : List InlinedDeletionRow
  columnMappings : List (ColumnMappingRow × List (KeyedRow MappingIndex))
deriving DecidableEq

/-- A macro or procedure with the rows that belong to it. -/
structure RoutineContent (κ : Type) where
  routine : VersionedRow κ
  impls : List (KeyedRow κ)
  parameters : List (KeyedRow κ)
deriving DecidableEq

structure SnapshotContent where
  schemas : List SchemaRow
  tables : List TableContent
  views : List (VersionedRow TableIndex)
  viewColumnTags : List (VersionedRow TableIndex)
  tags : List (VersionedRow Idx)
  macros : List (RoutineContent MacroIndex)
  procedures : List (RoutineContent ProcedureIndex)
  materializedViews : List (VersionedRow TableIndex)
  materializedViewDependencies : List (VersionedRow TableIndex)
deriving DecidableEq

namespace Metadata

def ofTableAt (rows : List (VersionedRow TableIndex)) (tableId : TableIndex)
    (snapshot : SnapshotId) : List (VersionedRow TableIndex) :=
  rows.filter fun row => row.life.visibleAt snapshot && row.key == tableId

def visibleRows {κ : Type} (rows : List (VersionedRow κ)) (snapshot : SnapshotId) :
    List (VersionedRow κ) :=
  rows.filter (·.life.visibleAt snapshot)

def dataFilesAt (md : Metadata) (tableId : TableIndex) (snapshot : SnapshotId) :
    List DataFileRow :=
  md.dataFiles.filter fun file => file.life.visibleAt snapshot && file.tableId == tableId

def dataFileContent (md : Metadata) (file : DataFileRow) : DataFileContent where
  file
  columnStats := md.fileColumnStats.filter (·.key == file.dataFileId)
  variantStats := md.fileVariantStats.filter (·.key == file.dataFileId)
  partitionValues := md.filePartitionValues.filter (·.key == file.dataFileId)

/-- The delete files that the file list joins to the data files. -/
def deleteFilesAt (md : Metadata) (tableId : TableIndex) (snapshot : SnapshotId) :
    List DeleteFileRow :=
  md.deleteFiles.filter fun file => file.life.visibleAt snapshot && file.tableId == tableId &&
    (md.dataFilesAt tableId snapshot).any (·.dataFileId == file.dataFileId)

/-- The visible rows of the inlined data table of a name. -/
def inlinedRowsAt (md : Metadata) (name : Text) (snapshot : SnapshotId) : List InlinedDataRow :=
  (md.inlinedData.filter (·.1 == name)).flatMap fun table =>
    table.2.filter (·.life.visibleAt snapshot)

def inlinedDeletionsAt (md : Metadata) (tableId : TableIndex) (snapshot : SnapshotId) :
    List InlinedDeletionRow :=
  (md.inlinedDeletions.filter (·.1 == inlinedFileDeletionTableName tableId)).flatMap fun table =>
    table.2.filter fun row => decide (row.beginSnapshot ≤ snapshot) &&
      (md.dataFilesAt tableId snapshot).any (·.dataFileId == row.fileId)

def tableContent (md : Metadata) (snapshot : SnapshotId) (table : TableRow) : TableContent where
  table
  columns := ofTableAt md.columns table.tableId snapshot
  columnTags := ofTableAt md.columnTags table.tableId snapshot
  partitions := ofTableAt md.partitionInfo table.tableId snapshot
  sortKeys := ofTableAt md.sortInfo table.tableId snapshot
  dataFiles := (md.dataFilesAt table.tableId snapshot).map md.dataFileContent
  deleteFiles := md.deleteFilesAt table.tableId snapshot
  inlinedRows := (md.inlinedDataTables.filter (·.tableId == table.tableId)).map fun inlined =>
    (inlined.schemaVersion, md.inlinedRowsAt inlined.tableName snapshot)
  inlinedDeletions := md.inlinedDeletionsAt table.tableId snapshot
  columnMappings := (md.columnMappings.filter (·.tableId == table.tableId)).map fun mapping =>
    (mapping, md.nameMappings.filter (·.key == mapping.mappingId))

/-- Everything that a reader of a snapshot can see. -/
def contentAt (md : Metadata) (snapshot : SnapshotId) : SnapshotContent where
  schemas := md.schemas.filter (·.life.visibleAt snapshot)
  tables := (md.tables.filter (·.life.visibleAt snapshot)).map (md.tableContent snapshot)
  views := visibleRows md.views snapshot
  viewColumnTags := visibleRows md.viewColumnTags snapshot
  tags := visibleRows md.tags snapshot
  macros := (visibleRows md.macros snapshot).map fun row => ⟨row,
    md.macroImpls.filter (·.key == row.key), md.macroParameters.filter (·.key == row.key)⟩
  procedures := (visibleRows md.procedures snapshot).map fun row => ⟨row, [],
    md.procedureParameters.filter (·.key == row.key)⟩
  materializedViews := visibleRows md.materializedViews snapshot
  materializedViewDependencies := visibleRows md.materializedViewDependencies snapshot

end Metadata

end DuckLake
