import DuckLake.Storage.InlinedTables

/-!
# What an ALTER does to the columns

An ALTER makes a new version of a table on top of the one before it. Only some kinds of ALTER touch
the fields of the table and their names and types, and all of these but a renamed column that is
altered again make the commit ask for a new inlined data table.
-/

namespace DuckLake

/-! ## Fields and their types -/

namespace DuckLakeColumnInfo

theorem typedField_eq (c : DuckLakeColumnInfo) :
    typedField c =
      { id := c.id, name := c.name, type := c.type, children := typedFields c.children } := by
  cases c
  rfl

theorem typedFields_eq_map (l : List DuckLakeColumnInfo) : typedFields l = l.map typedField := by
  induction l with
  | nil => rfl
  | cons c l ih => rw [typedFields, ih, List.map_cons]

theorem typedField_congr {c d : DuckLakeColumnInfo} (hid : c.id = d.id) (hname : c.name = d.name)
    (htype : c.type = d.type) (hchildren : c.children = d.children) :
    typedField c = typedField d := by
  rw [typedField_eq, typedField_eq, hid, hname, htype, hchildren]

section Types

variable [InlinedStorage]

mutual

theorem getColumnType_typedField :
    (c : DuckLakeColumnInfo) → getColumnType (typedField c) = getColumnType c
  | ⟨_, _, _, _, _, _, _, children⟩ => by
    simp only [typedField, getColumnType, inlinedColumns_typedFields children]

/-- An inlined data table only depends on the fields and their types. -/
theorem inlinedColumns_typedFields :
    (l : List DuckLakeColumnInfo) → inlinedColumns (typedFields l) = inlinedColumns l
  | [] => rfl
  | c :: l => by
    have hname : (typedField c).name = c.name := by rw [typedField_eq]
    simp only [typedFields, inlinedColumns, hname, getColumnType_typedField c,
      inlinedColumns_typedFields l]

end

theorem inlinedColumns_congr {l m : List DuckLakeColumnInfo} (h : typedFields l = typedFields m) :
    inlinedColumns l = inlinedColumns m := by
  rw [← inlinedColumns_typedFields l, h, inlinedColumns_typedFields]

end Types

end DuckLakeColumnInfo

namespace TableColumn

/-- The field of a column with its type, as the catalog has it. -/
def typedField (column : TableColumn) : DuckLakeColumnInfo :=
  DuckLakeColumnInfo.typedField column.field.convertColumn

theorem typedField_notNull (column : TableColumn) :
    DuckLakeColumnInfo.typedField
      (if column.notNull then { column.field.convertColumn with nullsAllowed := false }
        else column.field.convertColumn) = column.typedField := by
  split
  · exact DuckLakeColumnInfo.typedField_congr rfl rfl rfl rfl
  · rfl

end TableColumn

open DuckLakeColumnInfo in
theorem DuckLakeTableEntry.typedFields_getTableColumns (table : DuckLakeTableEntry) :
    typedFields table.getTableColumns = table.columns.map (·.typedField) := by
  rw [typedFields_eq_map, getTableColumns, List.map_map]
  exact List.map_congr_left fun column _ => column.typedField_notNull

/-! ## Alters -/

/-- The column that has the field, changed. -/
def changeColumn (field : FieldIndex) (change : TableColumn → TableColumn)
    (columns : List TableColumn) : List TableColumn :=
  columns.map fun column => if column.field.columnData.id = field then change column else column

/-- What a change does to the columns of a table. Which fields and types a change of a type leaves
is left open. -/
def LocalChange.Alters (older newer : List TableColumn) : LocalChange → Prop
  | .setColumnComment field =>
    ∃ comment, newer = changeColumn field (fun c => { c with comment := comment }) older
  | .setNull field => newer = changeColumn field (fun c => { c with notNull := true }) older
  | .dropNull field => newer = changeColumn field (fun c => { c with notNull := false }) older
  | .setDefault field => ∃ default,
    newer = changeColumn field (fun c => { c with field.columnData.defaultValue := default }) older
  | .renameColumn field => ∃ name,
    newer = changeColumn field (fun c => { c with field.name := name }) older
  | .addColumn => ∃ column, newer = older ++ [column]
  | .removeColumn field => newer = older.filter (·.field.columnData.id ≠ field)
  | .changeColumnType => True
  | _ => newer = older

/-- The change has an effect on the fields, their names or their types. -/
def LocalChange.changesFields : LocalChange → Bool
  | .renameColumn _ | .addColumn | .removeColumn _ | .changeColumnType => true
  | _ => false

theorem map_typedField_changeColumn (field : FieldIndex) {change : TableColumn → TableColumn}
    (h : ∀ c, (change c).typedField = c.typedField) (columns : List TableColumn) :
    (changeColumn field change columns).map (·.typedField) = columns.map (·.typedField) := by
  rw [changeColumn, List.map_map]
  refine List.map_congr_left fun column _ => ?_
  simp only [Function.comp_apply]
  split
  · exact h column
  · rfl

theorem typedField_setDefault (c : TableColumn) (default : Option DefaultExpression) :
    TableColumn.typedField { c with field.columnData.defaultValue := default } =
      c.typedField := by
  obtain ⟨⟨data, name, type, children⟩, notNull, comment⟩ := c
  simp only [TableColumn.typedField]
  cases type with
  | primitive text =>
    simp only [DuckLakeFieldId.convertColumn]
    refine DuckLakeColumnInfo.typedField_congr ?_ ?_ ?_ ?_ <;>
      (simp only [DuckLakeColumnInfo.extractDefaultValue]; split <;> split <;> rfl)
  | _ => simp only [DuckLakeFieldId.convertColumn]

theorem LocalChange.Alters.fields {older newer : List TableColumn} {change : LocalChange}
    (h : change.Alters older newer) (hchange : change.changesFields = false) :
    newer.map (·.typedField) = older.map (·.typedField) := by
  cases change with
  | setColumnComment field =>
    obtain ⟨comment, rfl⟩ := h
    refine map_typedField_changeColumn field ?_ older
    exact fun _ => rfl
  | setNull field =>
    cases h
    refine map_typedField_changeColumn field ?_ older
    exact fun _ => rfl
  | dropNull field =>
    cases h
    refine map_typedField_changeColumn field ?_ older
    exact fun _ => rfl
  | setDefault field =>
    obtain ⟨default, rfl⟩ := h
    exact map_typedField_changeColumn field (fun c => typedField_setDefault c default) older
  | renameColumn _ => cases hchange
  | addColumn => cases hchange
  | removeColumn _ => cases hchange
  | changeColumnType => cases hchange
  | _ => rw [show newer = older from h]

/-- The newer version was made from the older one by one ALTER. -/
structure DuckLakeTableEntry.AlteredTo (older newer : DuckLakeTableEntry) : Prop where
  sameTable : newer.tableId = older.tableId
  columns : newer.localChange.Alters older.columns newer.columns
  altered : newer.localChange ≠ .none ∧ newer.localChange ≠ .created

/-- Versions that leave the fields alone, from a version on. -/
theorem fields_of_alterations {base latest : DuckLakeTableEntry}
    {versions : List DuckLakeTableEntry}
    (hchain : List.IsChain DuckLakeTableEntry.AlteredTo (base :: versions))
    (hlast : (base :: versions).getLast? = some latest)
    (hfields : ∀ version ∈ versions, version.localChange.changesFields = false) :
    latest.columns.map (·.typedField) = base.columns.map (·.typedField) := by
  induction versions generalizing base with
  | nil =>
    cases hlast
    rfl
  | cons version versions ih =>
    rw [List.isChain_cons_cons] at hchain
    have hrest := ih hchain.2 (by simpa using hlast) fun v hv => hfields v (.tail _ hv)
    have hfirst := hchain.1.columns.fields (hfields version (.head _))
    exact hrest.trans hfirst

/-! ## The new inlined data table -/

theorem columnSchemaChange_of_mem {versions : List DuckLakeTableEntry}
    {version : DuckLakeTableEntry} (hmem : version ∈ versions)
    (h : ∀ later, version.changesColumnSchema later = true) :
    columnSchemaChange versions = true := by
  induction hmem with
  | head later => simp [columnSchemaChange, h]
  | tail _ _ ih => simp [columnSchemaChange, ih]

/-- A change of the fields that asks for no inlined data table is the name of a column. -/
theorem renameColumn_of_changesFields {table : AlteredTable}
    (hnone : table.newInlinedDataTable = none) {version : DuckLakeTableEntry}
    (hmem : version ∈ table.versions) (h : version.localChange.changesFields = true) :
    ∃ field, version.localChange = .renameColumn field := by
  have hchange : columnSchemaChange table.versions = false := by
    unfold AlteredTable.newInlinedDataTable at hnone
    split at hnone
    · cases hnone
    · rename_i hneither
      simp only [Bool.or_eq_true, not_or, Bool.not_eq_true] at hneither
      exact hneither.2
  have hnot : ¬ ∀ later, version.changesColumnSchema later = true := fun hall => by
    rw [columnSchemaChange_of_mem hmem hall] at hchange
    cases hchange
  cases hlocal : version.localChange with
  | renameColumn field => exact ⟨field, rfl⟩
  | addColumn =>
    exact absurd (fun _ => by simp [DuckLakeTableEntry.changesColumnSchema, hlocal]) hnot
  | removeColumn _ =>
    exact absurd (fun _ => by simp [DuckLakeTableEntry.changesColumnSchema, hlocal]) hnot
  | changeColumnType =>
    exact absurd (fun _ => by simp [DuckLakeTableEntry.changesColumnSchema, hlocal]) hnot
  | _ =>
    rw [hlocal] at h
    cases h

end DuckLake
