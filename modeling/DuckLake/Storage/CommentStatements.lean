import DuckLake.Lib.CIMap
import DuckLake.Lib.VersionChain
import DuckLake.Storage.TableConstraints
import DuckLake.Storage.TableEntry

/-!
# COMMENT ON and RENAME

Every statement makes a new version of the entry. A column comment of a table is kept with the
column and known by its field id. A column comment of a view is kept under the name that the bound
view has for the column at that time: the entry finds it again without regard to case, under the
name that it was first stored with.
-/

namespace DuckLake

/-- DuckDB has no empty identifiers. -/
def Identifier : Type := { name : Text // name ≠ [] }

/-- Renames the column references of a sort expression (`ReplaceColumnRefName`). -/
class ColumnRefs where
  replaceColumnRefName : (expression oldName newName : Text) → Text

/-! ## Tables -/

inductive TableStatement where
  | comment (value : Value)
  | columnComment (name : Text) (value : Value)
  | rename (newName : Text)
  | renameColumn (oldName newName : Text)

namespace TableColumn

def name (column : TableColumn) : Text := column.field.name

def fieldIndex (column : TableColumn) : FieldIndex := column.field.columnData.id

def setName (column : TableColumn) (name : Text) : TableColumn :=
  { column with field := { column.field with name := name } }

def setComment (column : TableColumn) (value : Value) : TableColumn :=
  { column with comment := value }

@[simp] theorem fieldIndex_setComment {column : TableColumn} {value : Value} :
    (column.setComment value).fieldIndex = column.fieldIndex := rfl

end TableColumn

namespace DuckLakeTableEntry

/-- `GetColumn` -/
def columnNamed (table : DuckLakeTableEntry) (name : Text) : Except Exception TableColumn :=
  match table.columns.find? (·.name.ciEquals name) with
  | some column => .ok column
  | none => internalException ("Column with name " ++ quotedName name ++ " does not exist")

/-- A new version: the parts of the table that a statement does not touch are copied, what the last
local change brought with it is not. -/
def newVersion (table : DuckLakeTableEntry) (change : LocalChange)
    (h : change ≠ .setPartitionKey ∧ change ≠ .created) : DuckLakeTableEntry :=
  { table with
    localChange := change
    changedFields := {}
    hasAddedConstraint := false
    localPartition := by simp [h] }

def setColumnCommentOf (columns : List TableColumn) (field : FieldIndex) (value : Value) :
    List TableColumn :=
  columns.map fun column => if column.fieldIndex = field then column.setComment value else column

def renameColumns (columns : List TableColumn) (oldName newName : Text) : List TableColumn :=
  columns.map fun column => if column.name.ciEquals oldName then column.setName newName else column

def renameKey (oldName newName : Text) (unique : UniqueConstraint) :
    UniqueConstraint :=
  { unique with
    columnNames := unique.columnNames.map fun key =>
      if key.ciEquals oldName then newName else key }

theorem find?_map_of_fieldIndex {g : TableColumn → TableColumn}
    (hg : ∀ column, (g column).fieldIndex = column.fieldIndex) {columns : List TableColumn}
    {field : FieldIndex} : (columns.map g).find? (·.fieldIndex = field) =
      (columns.find? (·.fieldIndex = field)).map g := by
  rw [List.find?_map]
  simp only [Function.comp_def, hg]

theorem fieldIndex_ite_setComment {field : FieldIndex} {value : Value} (column : TableColumn) :
    (if column.fieldIndex = field then column.setComment value else column).fieldIndex =
      column.fieldIndex := by
  split <;> rfl

theorem fieldIndex_ite_setName {oldName newName : Text} (column : TableColumn) :
    (if column.name.ciEquals oldName then column.setName newName else column).fieldIndex =
      column.fieldIndex := by
  split <;> rfl

theorem columnNamed_mem {table : DuckLakeTableEntry} {name : Text} {column : TableColumn}
    (h : table.columnNamed name = .ok column) : column ∈ table.columns := by
  rw [columnNamed] at h
  split at h
  · cases h
    exact List.mem_of_find?_eq_some ‹_›
  · cases h

section Alter

variable [ColumnRefs]

def renameSortColumns (oldName newName : Text) (sort : DuckLakeSort) : DuckLakeSort :=
  { sort with
    fields := sort.fields.map fun field =>
      { field with
        expression := ColumnRefs.replaceColumnRefName field.expression oldName newName } }

def alter (table : DuckLakeTableEntry) : TableStatement → Except Exception DuckLakeTableEntry
  | .comment value => .ok { table.newVersion .setComment (by simp) with comment := value }
  | .columnComment name value => do
    let column ← table.columnNamed name
    return { table.newVersion (.setColumnComment column.fieldIndex) (by simp) with
      columns := setColumnCommentOf table.columns column.fieldIndex value }
  | .rename newName => .ok { table.newVersion .renamed (by simp) with name := newName }
  | .renameColumn oldName newName =>
    match table.columns.find? (·.name.ciEquals oldName) with
    | none => .error ⟨.catalog, "Failed to rename column - column " ++ quotedName oldName ++
        " does not exist"⟩
    | some column => do
      let _ ← columnList ((renameColumns table.columns oldName newName).map (·.name))
      return { table.newVersion (.renameColumn column.fieldIndex) (by simp) with
        columns := renameColumns table.columns oldName newName
        constraints := table.constraints.map (renameKey oldName newName)
        sortData := table.sortData.map (renameSortColumns column.name newName) }

/-- A version that a statement makes of another one. -/
def Alters (u v : DuckLakeTableEntry) : Prop := ∃ statement, u.alter statement = .ok v

/-- The comment of the column with this field id. -/
def commentOf (table : DuckLakeTableEntry) (field : FieldIndex) : Option Value :=
  (table.columns.find? (·.fieldIndex = field)).map (·.comment)

def fields (table : DuckLakeTableEntry) : List FieldIndex := table.columns.map (·.fieldIndex)

/-! ### What a statement changes -/

/-- What each statement makes of the table. -/
theorem Alters.cases {u v : DuckLakeTableEntry} (h : Alters u v) :
    (v.localChange = .setComment ∧ v.columns = u.columns) ∨
    (∃ column ∈ u.columns, ∃ value, v.localChange = .setColumnComment column.fieldIndex ∧
      v.comment = u.comment ∧
      v.columns = setColumnCommentOf u.columns column.fieldIndex value) ∨
    (v.localChange = .renamed ∧ v.comment = u.comment ∧ v.columns = u.columns) ∨
    (∃ column ∈ u.columns, ∃ oldName newName, v.localChange = .renameColumn column.fieldIndex ∧
      v.comment = u.comment ∧ v.columns = renameColumns u.columns oldName newName) := by
  obtain ⟨statement, h⟩ := h
  cases statement with
  | comment value =>
    cases h
    exact .inl ⟨rfl, rfl⟩
  | columnComment name value =>
    obtain ⟨column, hcolumn, h⟩ := bind_eq_ok.1 h
    cases h
    exact .inr (.inl ⟨column, columnNamed_mem hcolumn, value, rfl, rfl, rfl⟩)
  | rename newName =>
    cases h
    exact .inr (.inr (.inl ⟨rfl, rfl, rfl⟩))
  | renameColumn oldName newName =>
    rw [alter] at h
    split at h
    · cases h
    · obtain ⟨_, _, h⟩ := bind_eq_ok.1 h
      cases h
      exact .inr (.inr (.inr ⟨_, List.mem_of_find?_eq_some ‹_›, oldName, newName, rfl, rfl, rfl⟩))

theorem Alters.tableId {u v : DuckLakeTableEntry} (h : Alters u v) : v.tableId = u.tableId := by
  obtain ⟨statement, h⟩ := h
  cases statement with
  | comment value => cases h; rfl
  | columnComment name value =>
    obtain ⟨column, -, h⟩ := bind_eq_ok.1 h
    cases h
    rfl
  | rename newName => cases h; rfl
  | renameColumn oldName newName =>
    rw [alter] at h
    split at h
    · cases h
    · obtain ⟨_, _, h⟩ := bind_eq_ok.1 h
      cases h
      rfl

theorem Alters.fields {u v : DuckLakeTableEntry} (h : Alters u v) : v.fields = u.fields := by
  rw [DuckLakeTableEntry.fields, DuckLakeTableEntry.fields]
  rcases h.cases with ⟨-, hcolumns⟩ | ⟨column, -, value, -, -, hcolumns⟩ | ⟨-, -, hcolumns⟩ |
    ⟨column, -, oldName, newName, -, -, hcolumns⟩
  · rw [hcolumns]
  · rw [hcolumns, setColumnCommentOf, List.map_map]
    exact List.map_congr_left fun column _ => fieldIndex_ite_setComment column
  · rw [hcolumns]
  · rw [hcolumns, renameColumns, List.map_map]
    exact List.map_congr_left fun column _ => fieldIndex_ite_setName column

/-- The changes that the statements leave behind. -/
theorem Alters.localChange {u v : DuckLakeTableEntry} (h : Alters u v) :
    v.localChange = .setComment ∨ v.localChange = .renamed ∨
      ∃ field ∈ v.fields,
        v.localChange = .setColumnComment field ∨ v.localChange = .renameColumn field := by
  rw [h.fields]
  rcases h.cases with ⟨hchange, -⟩ | ⟨column, hcolumn, value, hchange, -⟩ | ⟨hchange, -⟩ |
    ⟨column, hcolumn, oldName, newName, hchange, -⟩
  · exact .inl hchange
  · exact .inr (.inr ⟨column.fieldIndex, List.mem_map_of_mem hcolumn, .inl hchange⟩)
  · exact .inr (.inl hchange)
  · exact .inr (.inr ⟨column.fieldIndex, List.mem_map_of_mem hcolumn, .inr hchange⟩)

theorem Alters.comment {u v : DuckLakeTableEntry} (h : Alters u v)
    (hchange : v.localChange ≠ .setComment) : v.comment = u.comment := by
  rcases h.cases with ⟨hcomment, -⟩ | ⟨_, _, _, -, hkept, -⟩ | ⟨-, hkept, -⟩ |
    ⟨_, _, _, _, -, hkept, -⟩
  · exact absurd hcomment hchange
  all_goals exact hkept

theorem Alters.commentOf {u v : DuckLakeTableEntry} (h : Alters u v) {field : FieldIndex}
    (hchange : v.localChange ≠ .setColumnComment field) :
    v.commentOf field = u.commentOf field := by
  rw [DuckLakeTableEntry.commentOf, DuckLakeTableEntry.commentOf]
  rcases h.cases with ⟨-, hcolumns⟩ | ⟨column, -, value, hcomment, -, hcolumns⟩ |
    ⟨-, -, hcolumns⟩ | ⟨column, -, oldName, newName, -, -, hcolumns⟩
  · rw [hcolumns]
  · have hne : column.fieldIndex ≠ field := fun h => hchange (h ▸ hcomment)
    rw [hcolumns, setColumnCommentOf, find?_map_of_fieldIndex fieldIndex_ite_setComment,
      Option.map_map]
    refine Option.map_congr fun found hfound => ?_
    have hfield : found.fieldIndex = field := by simpa using List.find?_some hfound
    simp [hfield, hne.symm]
  · rw [hcolumns]
  · rw [hcolumns, renameColumns, find?_map_of_fieldIndex fieldIndex_ite_setName, Option.map_map]
    refine Option.map_congr fun found _ => ?_
    simp only [Function.comp_apply]
    split <;> rfl

end Alter

end DuckLakeTableEntry

/-- What a column comment does to comments that are known by their field ids. -/
theorem comment_setColumnCommentOf {columns : List TableColumn} {comments : FieldIndex → Value}
    (h : ∀ column ∈ columns, column.comment = comments column.fieldIndex) {field : FieldIndex}
    {value : Value} :
    ∀ column ∈ DuckLakeTableEntry.setColumnCommentOf columns field value,
      column.comment = Function.update comments field value column.fieldIndex := by
  intro column hcolumn
  obtain ⟨old, hold, rfl⟩ := List.mem_map.1 hcolumn
  split
  · rename_i hfield
    rw [TableColumn.fieldIndex_setComment, hfield, Function.update_self]
    rfl
  · rename_i hfield
    rw [Function.update_of_ne hfield]
    exact h old hold

theorem comment_renameColumns {columns : List TableColumn} {comments : FieldIndex → Value}
    (h : ∀ column ∈ columns, column.comment = comments column.fieldIndex)
    {oldName newName : Text} :
    ∀ column ∈ DuckLakeTableEntry.renameColumns columns oldName newName,
      column.comment = comments column.fieldIndex := by
  intro column hcolumn
  obtain ⟨old, hold, rfl⟩ := List.mem_map.1 hcolumn
  split
  · exact h old hold
  · exact h old hold

/-! ## Views -/

/-- `bound` are the names of the columns that the bound view has when the statement runs, if there
are any. -/
inductive ViewStatement where
  | comment (value : Value)
  | columnComment (bound : Option (List Identifier)) (name : Identifier) (value : Value)
  | rename (newName : Text)

namespace DuckLakeViewEntry

def columnNotFound {α : Type} (view : DuckLakeViewEntry) (name : Text) : Except Exception α :=
  .error ⟨.binder, "View " ++ quotedName view.name ++ " does not have a column with name " ++
    quotedName name⟩

/-- The name that the column is commented under: that of the bound view, for an alias that of the
column that it stands for. -/
def resolveColumnName (view : DuckLakeViewEntry) (bound : Option (List Identifier))
    (name : Identifier) : Except Exception Identifier :=
  match bound with
  | none => .ok name
  | some names =>
    if view.columnAliases.isEmpty then
      match names.find? (·.1.ciEquals name.1) with
      | some resolved => .ok resolved
      | none => view.columnNotFound name.1
    else
      match view.columnAliases.findIdx? (·.ciEquals name.1) with
      | none => view.columnNotFound name.1
      | some aliasIndex =>
        match names[aliasIndex]? with
        | some resolved => .ok resolved
        | none => internalException ("Attempted to access index " ++ Text.ofNat aliasIndex ++
            " within vector of size " ++ Text.ofNat names.length)

/-- Assignment in `column_comments_map`, whose keys are compared without regard to case. -/
def assignComment (comments : List (Text × Value)) (name : Text) (value : Value) :
    List (Text × Value) :=
  CIMap.updateList name (fun _ => value) value comments

def alter (view : DuckLakeViewEntry) : ViewStatement → Except Exception DuckLakeViewEntry
  | .comment value => .ok { view with comment := value, localChange := .setComment }
  | .columnComment bound name value => do
    let resolved ← view.resolveColumnName bound name
    return { view with
      columnComments := assignComment view.columnComments resolved.1 value
      localChange := .setViewColumnComment resolved.1 }
  | .rename newName => .ok { view with name := newName, localChange := .renamed }

/-- A column is commented on under the name that its comment is already stored with. -/
def KeepsSpelling (view : DuckLakeViewEntry) : ViewStatement → Prop
  | .columnComment bound name _ => ∀ resolved, view.resolveColumnName bound name = .ok resolved →
      ∀ e ∈ view.columnComments, e.1.fold = resolved.1.fold → e.1 = resolved.1
  | _ => True

/-- The comment of a column. -/
def columnComment (view : DuckLakeViewEntry) (name : Text) : Value :=
  (view.columnComments.find? fun e => e.1.ciEquals name).bind (·.2)

/-- A version that a statement makes of another one, under the stored names. -/
def Alters (u v : DuckLakeViewEntry) : Prop :=
  ∃ statement, u.KeepsSpelling statement ∧ u.alter statement = .ok v

/-- The names of the commented columns differ up to case. -/
def Distinct (view : DuckLakeViewEntry) : Prop :=
  view.columnComments.Pairwise fun a b => a.1.fold ≠ b.1.fold

/-! ### What a statement changes -/

/-- What each statement makes of the view. -/
theorem Alters.cases {u v : DuckLakeViewEntry} (h : Alters u v) :
    (v.localChange = .setComment ∧ v.columnComments = u.columnComments) ∨
    (∃ (name : Text) (value : Value), name ≠ [] ∧
      v.localChange = .setViewColumnComment name ∧ v.comment = u.comment ∧
      v.columnComments = assignComment u.columnComments name value ∧
      ∀ e ∈ u.columnComments, e.1.fold = name.fold → e.1 = name) ∨
    (v.localChange = .renamed ∧ v.comment = u.comment ∧
      v.columnComments = u.columnComments) := by
  obtain ⟨statement, hspelling, h⟩ := h
  cases statement with
  | comment value =>
    cases h
    exact .inl ⟨rfl, rfl⟩
  | columnComment bound name value =>
    obtain ⟨resolved, hresolved, h⟩ := bind_eq_ok.1 h
    cases h
    exact .inr (.inl ⟨resolved.1, value, resolved.2, rfl, rfl, rfl, hspelling resolved hresolved⟩)
  | rename newName =>
    cases h
    exact .inr (.inr ⟨rfl, rfl, rfl⟩)

theorem Alters.viewId {u v : DuckLakeViewEntry} (h : Alters u v) : v.viewId = u.viewId := by
  obtain ⟨statement, -, h⟩ := h
  cases statement with
  | comment value => cases h; rfl
  | columnComment bound name value =>
    obtain ⟨resolved, -, h⟩ := bind_eq_ok.1 h
    cases h
    rfl
  | rename newName => cases h; rfl

/-- The changes that the statements leave behind. -/
theorem Alters.localChange {u v : DuckLakeViewEntry} (h : Alters u v) :
    v.localChange = .setComment ∨ v.localChange = .renamed ∨
      ∃ name, name ≠ [] ∧ v.localChange = .setViewColumnComment name := by
  rcases h.cases with ⟨hchange, -⟩ | ⟨name, value, hne, hchange, -⟩ | ⟨hchange, -⟩
  · exact .inl hchange
  · exact .inr (.inr ⟨name, hne, hchange⟩)
  · exact .inr (.inl hchange)

theorem Alters.comment {u v : DuckLakeViewEntry} (h : Alters u v)
    (hchange : v.localChange ≠ .setComment) : v.comment = u.comment := by
  rcases h.cases with ⟨hcomment, -⟩ | ⟨_, _, -, -, hkept, -⟩ | ⟨-, hkept, -⟩
  · exact absurd hcomment hchange
  all_goals exact hkept

theorem Alters.distinct {u v : DuckLakeViewEntry} (h : Alters u v) (hu : u.Distinct) :
    v.Distinct := by
  rw [Distinct]
  rcases h.cases with ⟨-, hcomments⟩ | ⟨name, value, -, -, -, hcomments, -⟩ | ⟨-, -, hcomments⟩
  · rwa [hcomments]
  · rw [hcomments]
    exact CIMap.distinct_updateList hu
  · rwa [hcomments]

/-- A column keeps its comment unless it is commented on. -/
theorem Alters.mem_columnComments {u v : DuckLakeViewEntry} (h : Alters u v) {name : Text}
    (hchange : v.localChange ≠ .setViewColumnComment name) {value : Value} :
    (name, value) ∈ v.columnComments ↔ (name, value) ∈ u.columnComments := by
  rcases h.cases with ⟨-, hcomments⟩ | ⟨name', value', -, hname, -, hcomments, hexact⟩ |
    ⟨-, -, hcomments⟩
  · rw [hcomments]
  · have hne : name ≠ name' := fun h => hchange (h ▸ hname)
    rw [hcomments, assignComment, CIMap.mem_updateList_of_ne hexact hne]
  · rw [hcomments]

/-- The column that a version comments on has its comment. -/
theorem Alters.exists_mem_columnComments {u v : DuckLakeViewEntry} (h : Alters u v) {name : Text}
    (hchange : v.localChange = .setViewColumnComment name) :
    ∃ value, (name, value) ∈ v.columnComments := by
  rcases h.cases with ⟨hother, -⟩ | ⟨name', value, -, hname, -, hcomments, hexact⟩ | ⟨hother, -⟩
  · exact absurd (hchange.symm.trans hother) nofun
  · obtain rfl : name = name' := by simpa using hchange.symm.trans hname
    refine ⟨value, ?_⟩
    rw [hcomments]
    exact CIMap.mem_updateList_self hexact
  · exact absurd (hchange.symm.trans hother) nofun

def Distinct.toMap {view : DuckLakeViewEntry} (h : view.Distinct) : CIMap Value :=
  ⟨view.columnComments, h⟩

theorem Distinct.columnComment_eq {view : DuckLakeViewEntry} (h : view.Distinct) {name : Text} :
    view.columnComment name = (h.toMap.find? name).join := by
  rw [columnComment, toMap, CIMap.find?]
  cases view.columnComments.find? fun e => e.1.ciEquals name <;> rfl

theorem Distinct.find?_eq_some_iff {view : DuckLakeViewEntry} (h : view.Distinct) {name : Text}
    {value : Value} : h.toMap.find? name = some value ↔
      ∃ e ∈ view.columnComments, e.1.fold = name.fold ∧ e.2 = value :=
  CIMap.find?_eq_some_iff

/-- A stored comment is found under its name. -/
theorem columnComment_of_mem {view : DuckLakeViewEntry} (h : view.Distinct) {name : Text}
    {value : Value} (hmem : (name, value) ∈ view.columnComments) :
    view.columnComment name = value := by
  have hfind : h.toMap.find? name = some value := h.find?_eq_some_iff.2 ⟨_, hmem, rfl, rfl⟩
  rw [h.columnComment_eq, hfind]
  rfl

/-- Views with the same stored comments show the same comments. -/
theorem columnComment_congr {u v : DuckLakeViewEntry} (hu : u.Distinct) (hv : v.Distinct)
    (h : ∀ name value, (name, value) ∈ u.columnComments ↔ (name, value) ∈ v.columnComments)
    (name : Text) : u.columnComment name = v.columnComment name := by
  rw [hu.columnComment_eq, hv.columnComment_eq]
  refine congrArg Option.join (Option.ext fun value => ?_)
  rw [hu.find?_eq_some_iff, hv.find?_eq_some_iff]
  exact ⟨fun ⟨e, he, hrest⟩ => ⟨e, (h e.1 e.2).1 he, hrest⟩,
    fun ⟨e, he, hrest⟩ => ⟨e, (h e.1 e.2).2 he, hrest⟩⟩

/-- The comments after one of them was assigned. -/
theorem columnComment_assign {u v : DuckLakeViewEntry} (hu : u.Distinct) {name k : Text}
    {value : Value} (hv : v.columnComments = assignComment u.columnComments name value) :
    v.columnComment k = if name.fold = k.fold then value else u.columnComment k := by
  have hdistinct : v.Distinct := by
    rw [Distinct, hv]
    exact CIMap.distinct_updateList hu
  have hmap : hdistinct.toMap = hu.toMap.update name (fun _ => value) value := by
    obtain ⟨⟩ := v
    cases hv
    rfl
  rw [hdistinct.columnComment_eq, hmap, CIMap.find?_update, hu.columnComment_eq]
  split <;> rfl

end DuckLakeViewEntry

end DuckLake
