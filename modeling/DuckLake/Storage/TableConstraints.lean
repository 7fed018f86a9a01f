import DuckLake.Common.Util
import DuckLake.Lib.Guard
import Mathlib.Data.List.Nodup

/-!
# Constraints of a table whose columns change

NOT NULL constraints name their column by its position, keys by the position of one column or by the
names of several. ALTER TABLE rewrites them with the columns. What a constraint means is the fields
that it refers to: `resolve` looks them up, and an ALTER keeps them for every constraint that it
keeps.
-/

namespace DuckLake

/-! ## Constraints -/

inductive KeyColumns where
  | index (index : ℕ)
  | names (columnNames : List Text)

inductive TableConstraint where
  | notNull (index : ℕ)
  | unique (key : KeyColumns) (isPrimaryKey : Bool)

/-- What the ALTERs of columns read and write of a table. `fieldIds` are those of the columns, in
their order. The partitioning and sorting are reduced to the columns that they refer to. -/
structure ConstrainedTable where
  name : Text
  columns : List Text
  fieldIds : List ℕ
  nextColumnId : ℕ
  constraints : List TableConstraint
  partitionFields : List ℕ := []
  sortColumns : List Text := []

/-- The statements. A column that is added has `nested` fields below it. -/
inductive ColumnAlter where
  | add (name : Text) (nested : ℕ) (ifNotExists : Bool)
  | drop (name : Text) (ifExists : Bool)
  | rename (oldName newName : Text)

def quotedName (name : Text) : Text := Text.writeQuoted '"' name

/-- The position of the column in the list; names are compared without regard to case. -/
def columnPosition (columns : List Text) (name : Text) : Option ℕ :=
  columns.findIdx? fun column => column.ciEquals name

/-- `ColumnList::AddColumn` -/
def addColumnName (columns : List Text) (name : Text) : Except Exception (List Text) :=
  match columnPosition columns name with
  | some _ => .error ⟨.catalog, "Column with name " ++ name ++ " already exists!"⟩
  | none => .ok (columns ++ [name])

def columnList (columns : List Text) : Except Exception (List Text) :=
  columns.foldlM addColumnName []

namespace TableConstraint

def mapNames (f : Text → Text) : TableConstraint → TableConstraint
  | unique (.names columnNames) isPrimaryKey => unique (.names (columnNames.map f)) isPrimaryKey
  | constraint => constraint

def renameColumn (oldName newName : Text) : TableConstraint → TableConstraint :=
  mapNames fun key => if key.ciEquals oldName then newName else key

/-- The constraint after a column was removed, or `none` if it goes with the column. -/
def removeColumn (removedColumn : Text) (removedIndex : ℕ) :
    TableConstraint → Option TableConstraint
  | notNull index =>
    if index = removedIndex then none
    else some (notNull (if removedIndex < index then index - 1 else index))
  | unique (.index index) isPrimaryKey =>
    if index = removedIndex then none
    else some (unique (.index (if removedIndex < index then index - 1 else index)) isPrimaryKey)
  | unique (.names columnNames) isPrimaryKey =>
    if columnNames.any (·.ciEquals removedColumn) then none
    else some (unique (.names columnNames) isPrimaryKey)

/-- The loop over `c_idx`, which erases from the list it goes over. -/
def removeLoop (removedColumn : Text) (removedIndex : ℕ) (constraints : List TableConstraint)
    (c_idx : ℕ) : List TableConstraint :=
  if h : c_idx < constraints.length then
    match constraints[c_idx].removeColumn removedColumn removedIndex with
    | none => removeLoop removedColumn removedIndex (constraints.eraseIdx c_idx) c_idx
    | some constraint =>
      removeLoop removedColumn removedIndex (constraints.set c_idx constraint) (c_idx + 1)
  else constraints
termination_by constraints.length - c_idx
decreasing_by
  · rw [List.length_eraseIdx_of_lt h]
    omega
  · rw [List.length_set]
    omega

end TableConstraint

/-! ## ALTER TABLE -/

namespace ConstrainedTable

/-- `none` where the statement has nothing to do. -/
def addColumn (table : ConstrainedTable) (name : Text) (nested : ℕ) (ifNotExists : Bool) :
    Except Exception (Option ConstrainedTable) :=
  if ifNotExists && (columnPosition table.columns name).isSome then .ok none
  else do
    let columns ← addColumnName table.columns name
    return some { table with
      columns
      fieldIds := table.fieldIds ++ [table.nextColumnId]
      nextColumnId := table.nextColumnId + 1 + nested }

def renameColumn (table : ConstrainedTable) (oldName newName : Text) :
    Except Exception (Option ConstrainedTable) :=
  match columnPosition table.columns oldName with
  | none => .error ⟨.catalog, "Failed to rename column - column " ++ quotedName oldName ++
      " does not exist"⟩
  | some _ => do
    let columns ← columnList
      (table.columns.map fun column => if column.ciEquals oldName then newName else column)
    return some { table with
      columns
      constraints := table.constraints.map (·.renameColumn oldName newName)
      sortColumns := table.sortColumns.map fun column =>
        if column.ciEquals oldName then newName else column }

/-- The checks of DROP COLUMN, for a column that exists. -/
def checkRemoveColumn (table : ConstrainedTable) (column : Text) (fieldId : ℕ) :
    Except Exception Unit :=
  if table.columns.length = 1 then
    .error ⟨.catalog, "Cannot drop column: table only has one column remaining!"⟩
  else if table.partitionFields.contains fieldId then
    .error ⟨.catalog, "Cannot drop column \"" ++ column ++ "\" - the table is partitioned by this " ++
      "column. Reset or change the partitioning on this table in order to drop this column"⟩
  else if table.sortColumns.any (·.ciEquals column) then
    .error ⟨.catalog, "Cannot drop column \"" ++ column ++ "\" - the table is sorted by this " ++
      "column. Reset or change the sort order on this table in order to drop this column"⟩
  else .ok ()

def removeColumn (table : ConstrainedTable) (removedColumn : Text) (ifExists : Bool) :
    Except Exception (Option ConstrainedTable) :=
  match columnPosition table.columns removedColumn with
  | none =>
    if ifExists then .ok none
    else .error ⟨.binder, "Table " ++ table.name ++ " does not have a column with name " ++
      quotedName removedColumn⟩
  | some index =>
    match table.columns[index]?, table.fieldIds[index]? with
    | some column, some fieldId => do
      table.checkRemoveColumn column fieldId
      let columns ← columnList (table.columns.filter fun column => !column.ciEquals removedColumn)
      return some { table with
        columns
        fieldIds := table.fieldIds.filter (· ≠ fieldId)
        constraints := TableConstraint.removeLoop removedColumn index table.constraints 0 }
    | _, _ => internalException ("Attempted to access index " ++ Text.ofNat index ++
        " within vector of size " ++ Text.ofNat table.fieldIds.length)

/-- A statement; `validate` is the check for the names of system columns. -/
def alter (table : ConstrainedTable) (validate : Text → Except Exception Unit) :
    ColumnAlter → Except Exception (Option ConstrainedTable)
  | .add name nested ifNotExists => do
    validate name
    table.addColumn name nested ifNotExists
  | .drop name ifExists => table.removeColumn name ifExists
  | .rename oldName newName => do
    validate newName
    table.renameColumn oldName newName

/-- The entry after the statement: the old one where it failed or had nothing to do. -/
def altered (table : ConstrainedTable)
    (statement : (Text → Except Exception Unit) × ColumnAlter) : ConstrainedTable :=
  match table.alter statement.1 statement.2 with
  | .ok (some table) => table
  | _ => table

/-! ## What the constraints refer to -/

end ConstrainedTable

inductive ConstraintKind where
  | notNull | unique | primaryKey
deriving DecidableEq

def ConstraintKind.ofKey (isPrimaryKey : Bool) : ConstraintKind :=
  if isPrimaryKey then primaryKey else unique

/-- A constraint, with the fields of its columns. -/
structure FieldConstraint where
  kind : ConstraintKind
  fields : List ℕ
deriving DecidableEq

namespace ConstrainedTable

def fieldOf (table : ConstrainedTable) (name : Text) : Option ℕ :=
  (columnPosition table.columns name).bind fun index => table.fieldIds[index]?

def keyFields (table : ConstrainedTable) : KeyColumns → Option (List ℕ)
  | .index index => table.fieldIds[index]?.map fun id => [id]
  | .names columnNames => columnNames.mapM table.fieldOf

/-- The constraint in terms of fields; `none` if it refers to no column. -/
def resolve (table : ConstrainedTable) : TableConstraint → Option FieldConstraint
  | .notNull index => table.fieldIds[index]?.map fun id => ⟨.notNull, [id]⟩
  | .unique key isPrimaryKey => (table.keyFields key).map fun ids => ⟨.ofKey isPrimaryKey, ids⟩

/-- The constraints of the table. -/
def resolved (table : ConstrainedTable) : List FieldConstraint :=
  table.constraints.filterMap table.resolve

structure WellFormed (table : ConstrainedTable) : Prop where
  fields : table.fieldIds.length = table.columns.length
  names : (table.columns.map Text.fold).Nodup
  ids : table.fieldIds.Nodup
  fresh : ∀ id ∈ table.fieldIds, id < table.nextColumnId
  constraints : ∀ c ∈ table.constraints, ∃ r, table.resolve c = some r

/-! ### Looking columns up -/

theorem columnPosition_eq_some {columns : List Text} (h : (columns.map Text.fold).Nodup)
    {name : Text} {i : ℕ} :
    columnPosition columns name = some i ↔ ∃ c, columns[i]? = some c ∧ c.fold = name.fold := by
  unfold columnPosition
  rw [List.findIdx?_eq_some_iff_getElem]
  constructor
  · rintro ⟨hi, hc, -⟩
    exact ⟨columns[i], List.getElem?_eq_getElem hi, Text.ciEquals_iff.1 hc⟩
  · rintro ⟨c, hc, hfold⟩
    obtain ⟨hi, rfl⟩ := List.getElem?_eq_some_iff.1 hc
    refine ⟨hi, Text.ciEquals_iff.2 hfold, fun j hj hcj => ?_⟩
    have hlt : j < columns.length := hj.trans hi
    have heq : (columns.map Text.fold)[j]? = (columns.map Text.fold)[i]? := by
      simp [List.getElem?_eq_getElem hlt, List.getElem?_eq_getElem hi, Text.ciEquals_iff.1 hcj,
        hfold]
    exact absurd ((List.getElem?_inj (by simpa using hlt) h).1 heq) (Nat.ne_of_lt hj)

theorem fieldOf_eq_some {table : ConstrainedTable} (h : (table.columns.map Text.fold).Nodup)
    {name : Text} {id : ℕ} :
    table.fieldOf name = some id ↔
      ∃ (i : ℕ) (c : Text), table.columns[i]? = some c ∧ c.fold = name.fold ∧
        table.fieldIds[i]? = some id := by
  rw [fieldOf, Option.bind_eq_some_iff]
  simp only [columnPosition_eq_some h]
  exact ⟨fun ⟨i, ⟨c, hc, hfold⟩, hid⟩ => ⟨i, c, hc, hfold, hid⟩,
    fun ⟨i, c, hc, hfold, hid⟩ => ⟨i, ⟨c, hc, hfold⟩, hid⟩⟩

theorem columnPosition_eq_none {columns : List Text} {name : Text} :
    columnPosition columns name = none ↔ name.fold ∉ columns.map Text.fold := by
  rw [columnPosition, List.findIdx?_eq_none_iff]
  simp only [List.mem_map, not_exists, not_and, ← Bool.not_eq_true, Text.ciEquals_iff]

theorem mem_fieldIds_of_fieldOf {table : ConstrainedTable} {name : Text} {id : ℕ}
    (h : table.fieldOf name = some id) : id ∈ table.fieldIds := by
  obtain ⟨i, -, hid⟩ := Option.bind_eq_some_iff.1 h
  exact List.mem_of_getElem? hid

theorem mem_fieldIds_of_resolve {table : ConstrainedTable} {c : TableConstraint}
    {r : FieldConstraint} (h : table.resolve c = some r) : ∀ id ∈ r.fields, id ∈ table.fieldIds := by
  cases c with
  | notNull index =>
    obtain ⟨id, hid, rfl⟩ := Option.map_eq_some_iff.1 h
    simpa using List.mem_of_getElem? hid
  | unique key isPrimaryKey =>
    obtain ⟨ids, hids, rfl⟩ := Option.map_eq_some_iff.1 h
    cases key with
    | index index =>
      obtain ⟨id, hid, rfl⟩ := Option.map_eq_some_iff.1 hids
      simpa using List.mem_of_getElem? hid
    | names columnNames =>
      intro id hmem
      obtain ⟨name, -, hname⟩ := (exists_of_mem_forall₂ (mapM_eq_some_iff.1 hids)).2 id hmem
      exact mem_fieldIds_of_fieldOf hname

/-! ### Column lists -/

theorem addColumnName_eq_ok {columns result : List Text} {name : Text} :
    addColumnName columns name = .ok result ↔
      result = columns ++ [name] ∧ name.fold ∉ columns.map Text.fold := by
  rw [← columnPosition_eq_none, addColumnName]
  cases columnPosition columns name with
  | some i => exact ⟨nofun, fun h => nomatch h.2⟩
  | none => exact ⟨fun h => ⟨(Except.ok.inj h).symm, rfl⟩, fun h => h.1 ▸ rfl⟩

/-- The list of columns is built if no two of them have the same name. -/
theorem foldlM_addColumnName {columns acc result : List Text} (hacc : (acc.map Text.fold).Nodup) :
    columns.foldlM addColumnName acc = .ok result ↔
      result = acc ++ columns ∧ ((acc ++ columns).map Text.fold).Nodup := by
  induction columns generalizing acc result with
  | nil =>
    rw [List.append_nil, and_iff_left hacc]
    exact ⟨fun h => (Except.ok.inj h).symm, fun h => h ▸ rfl⟩
  | cons c columns ih =>
    have hsplit : acc ++ c :: columns = acc ++ [c] ++ columns := by simp
    rw [List.foldlM_cons, bind_eq_ok]
    simp only [addColumnName_eq_ok]
    constructor
    · rintro ⟨_, ⟨rfl, hc⟩, hrest⟩
      have hacc' : ((acc ++ [c]).map Text.fold).Nodup := by
        rw [List.map_append, List.nodup_append]
        refine ⟨hacc, by simp, fun a ha b hb => ?_⟩
        obtain rfl : b = c.fold := by simpa using hb
        exact fun heq => hc (heq ▸ ha)
      rw [hsplit]
      exact (ih hacc').1 hrest
    · rintro ⟨rfl, hnodup⟩
      rw [hsplit] at hnodup ⊢
      have hacc' : ((acc ++ [c]).map Text.fold).Nodup := by
        rw [List.map_append] at hnodup
        exact (List.nodup_append.1 hnodup).1
      refine ⟨acc ++ [c], ⟨rfl, fun hc => ?_⟩, (ih hacc').2 ⟨rfl, hnodup⟩⟩
      rw [List.map_append, List.nodup_append] at hacc'
      exact hacc'.2.2 _ hc _ (by simp) rfl

theorem columnList_eq_ok {columns result : List Text} :
    columnList columns = .ok result ↔ result = columns ∧ (columns.map Text.fold).Nodup := by
  rw [columnList, foldlM_addColumnName (by simp), List.nil_append]

/-! ### The statements -/

/-- The table after a run of statements: the constraints that are left are those of which all
fields are left, and no field is replaced by another one. -/
structure Follows (table table' : ConstrainedTable) : Prop where
  wellFormed : table'.WellFormed
  resolved : table'.resolved =
    table.resolved.filter fun r => r.fields.all fun id => id ∈ table'.fieldIds
  old : ∀ id ∈ table'.fieldIds, id ∈ table.fieldIds ∨ table.nextColumnId ≤ id
  next : table.nextColumnId ≤ table'.nextColumnId

/-- It is enough to follow each constraint. -/
theorem constraints_of_change {table : ConstrainedTable} (hwf : table.WellFormed)
    (table' : ConstrainedTable) (change : TableConstraint → Option TableConstraint)
    (keep : FieldConstraint → Bool)
    (hconstraints : table'.constraints = table.constraints.filterMap change)
    (h : ∀ c ∈ table.constraints, ∀ r, table.resolve c = some r →
      change c = none ∧ keep r = false ∨
        ∃ c', change c = some c' ∧ table'.resolve c' = some r ∧ keep r = true) :
    (∀ c ∈ table'.constraints, ∃ r, table'.resolve c = some r) ∧
      table'.resolved = table.resolved.filter keep := by
  constructor
  · intro c' hc'
    rw [hconstraints, List.mem_filterMap] at hc'
    obtain ⟨c, hc, hchange⟩ := hc'
    obtain ⟨r, hr⟩ := hwf.constraints c hc
    rcases h c hc r hr with ⟨hnone, -⟩ | ⟨c'', hsome, hr', -⟩
    · rw [hnone] at hchange
      cases hchange
    · obtain rfl := Option.some.inj (hchange.symm.trans hsome)
      exact ⟨r, hr'⟩
  · rw [ConstrainedTable.resolved, ConstrainedTable.resolved, hconstraints,
      List.filterMap_filterMap, List.filter_filterMap]
    refine List.filterMap_congr fun c hc => ?_
    obtain ⟨r, hr⟩ := hwf.constraints c hc
    rcases h c hc r hr with ⟨hnone, hkeep⟩ | ⟨c', hsome, hr', hkeep⟩
    · simp [hnone, hr, Option.filter, hkeep]
    · simp [hsome, hr, hr', Option.filter, hkeep]

/-- Names are replaced by names of the same fields, and the positions stay. -/
theorem resolve_mapNames {table table' : ConstrainedTable} {f : Text → Text}
    (hindex : ∀ (i id : ℕ), table.fieldIds[i]? = some id → table'.fieldIds[i]? = some id)
    (hnames : ∀ name id, table.fieldOf name = some id → table'.fieldOf (f name) = some id)
    {c : TableConstraint} {r : FieldConstraint} (h : table.resolve c = some r) :
    table'.resolve (c.mapNames f) = some r := by
  cases c with
  | notNull index =>
    obtain ⟨id, hid, rfl⟩ := Option.map_eq_some_iff.1 h
    exact Option.map_eq_some_iff.2 ⟨id, hindex index id hid, rfl⟩
  | unique key isPrimaryKey =>
    obtain ⟨ids, hids, rfl⟩ := Option.map_eq_some_iff.1 h
    cases key with
    | index index =>
      obtain ⟨id, hid, rfl⟩ := Option.map_eq_some_iff.1 hids
      exact Option.map_eq_some_iff.2 ⟨[id], Option.map_eq_some_iff.2 ⟨id, hindex index id hid, rfl⟩,
        rfl⟩
    | names columnNames =>
      refine Option.map_eq_some_iff.2 ⟨ids, mapM_eq_some_iff.2 ?_, rfl⟩
      rw [List.forall₂_map_left_iff]
      exact (mapM_eq_some_iff.1 hids).imp fun name id => hnames name id

theorem fieldsIn_of_resolve {table table' : ConstrainedTable}
    (hfields : ∀ id ∈ table.fieldIds, id ∈ table'.fieldIds) {c : TableConstraint}
    {r : FieldConstraint} (h : table.resolve c = some r) :
    (r.fields.all fun id => id ∈ table'.fieldIds) = true := by
  rw [List.all_eq_true]
  exact fun id hid => decide_eq_true (hfields id (mem_fieldIds_of_resolve h id hid))

theorem addColumn_follows {table table' : ConstrainedTable} (hwf : table.WellFormed) {name : Text}
    {nested : ℕ} {ifNotExists : Bool}
    (h : table.addColumn name nested ifNotExists = .ok (some table')) : table.Follows table' := by
  unfold addColumn at h
  split at h
  · cases h
  obtain ⟨columns, hcolumns, h⟩ := bind_eq_ok.1 h
  obtain rfl := Option.some.inj (Except.ok.inj h)
  obtain ⟨rfl, hname⟩ := addColumnName_eq_ok.1 hcolumns
  have hnames : ((table.columns ++ [name]).map Text.fold).Nodup := by
    rw [List.map_append, List.nodup_append]
    refine ⟨hwf.names, by simp, fun a ha b hb => ?_⟩
    obtain rfl : b = name.fold := by simpa using hb
    exact fun heq => hname (heq ▸ ha)
  have hindex (i id : ℕ) (hi : table.fieldIds[i]? = some id) :
      (table.fieldIds ++ [table.nextColumnId])[i]? = some id := by
    rw [List.getElem?_append_left (List.getElem?_eq_some_iff.1 hi).1, hi]
  let added : ConstrainedTable := { table with
    columns := table.columns ++ [name]
    fieldIds := table.fieldIds ++ [table.nextColumnId]
    nextColumnId := table.nextColumnId + 1 + nested }
  have hfieldOf (key : Text) (id : ℕ) (hid : table.fieldOf key = some id) :
      added.fieldOf key = some id := by
    obtain ⟨i, c, hc, hfold, hi⟩ := (fieldOf_eq_some hwf.names).1 hid
    refine (fieldOf_eq_some hnames).2 ⟨i, c, ?_, hfold, hindex i id hi⟩
    show (table.columns ++ [name])[i]? = some c
    rw [List.getElem?_append_left (List.getElem?_eq_some_iff.1 hc).1, hc]
  have hkeep (id) (hid : id ∈ table.fieldIds) : id ∈ added.fieldIds :=
    List.mem_append_left _ hid
  have hsame (c : TableConstraint) : c.mapNames id = c := by
    cases c with
    | notNull index => rfl
    | unique key isPrimaryKey => cases key <;> simp [TableConstraint.mapNames]
  have hadded (c : TableConstraint) (r : FieldConstraint) (hr : table.resolve c = some r) :
      added.resolve c = some r := by
    rw [← hsame c]
    exact resolve_mapNames hindex hfieldOf hr
  obtain ⟨hresolve, hresolved⟩ := constraints_of_change hwf added some
    (fun r => r.fields.all fun id => id ∈ added.fieldIds) List.filterMap_some.symm
    fun c hc r hr => .inr ⟨c, rfl, hadded c r hr, fieldsIn_of_resolve hkeep hr⟩
  have hnext : table.nextColumnId < added.nextColumnId := by
    show table.nextColumnId < table.nextColumnId + 1 + nested
    omega
  refine ⟨⟨?_, hnames, ?_, fun id hid => ?_, hresolve⟩, hresolved, fun id hid => ?_, hnext.le⟩
  · simp [hwf.fields]
  · refine List.nodup_append.2 ⟨hwf.ids, by simp, fun a ha b hb => ?_⟩
    obtain rfl := List.mem_singleton.1 hb
    exact Nat.ne_of_lt (hwf.fresh a ha)
  · rcases List.mem_append.1 hid with hid | hid
    · exact (hwf.fresh id hid).trans hnext
    · obtain rfl := List.mem_singleton.1 hid
      exact hnext
  · exact (List.mem_append.1 hid).imp_right fun hid => (List.mem_singleton.1 hid).ge

theorem renameColumn_follows {table table' : ConstrainedTable} (hwf : table.WellFormed)
    {oldName newName : Text} (h : table.renameColumn oldName newName = .ok (some table')) :
    table.Follows table' := by
  unfold renameColumn at h
  split at h
  · cases h
  obtain ⟨columns, hcolumns, h⟩ := bind_eq_ok.1 h
  obtain rfl := Option.some.inj (Except.ok.inj h)
  obtain ⟨rfl, hnames⟩ := columnList_eq_ok.1 hcolumns
  set rename : Text → Text := fun key => if key.ciEquals oldName then newName else key with hrename
  let renamed : ConstrainedTable := { table with
    columns := table.columns.map rename
    constraints := table.constraints.map (·.renameColumn oldName newName)
    sortColumns := table.sortColumns.map rename }
  -- two spellings of one name are renamed to the same name
  have hfold {c key : Text} (hc : c.fold = key.fold) : (rename c).fold = (rename key).fold := by
    have hiff : c.ciEquals oldName = key.ciEquals oldName := by
      rw [Bool.eq_iff_iff, Text.ciEquals_iff, Text.ciEquals_iff, hc]
    simp only [hrename, hiff]
    split
    · rfl
    · exact hc
  have hfieldOf (key : Text) (id : ℕ) (hid : table.fieldOf key = some id) :
      renamed.fieldOf (rename key) = some id := by
    obtain ⟨i, c, hc, hfold', hi⟩ := (fieldOf_eq_some hwf.names).1 hid
    refine (fieldOf_eq_some hnames).2 ⟨i, rename c, ?_, hfold hfold', hi⟩
    show (table.columns.map rename)[i]? = some (rename c)
    rw [List.getElem?_map, hc, Option.map_some]
  have hindex (i id : ℕ) (hi : table.fieldIds[i]? = some id) : renamed.fieldIds[i]? = some id := hi
  have hrenamed (c : TableConstraint) (r : FieldConstraint) (hr : table.resolve c = some r) :
      renamed.resolve (c.renameColumn oldName newName) = some r :=
    resolve_mapNames hindex hfieldOf hr
  have hkeep (id) (hid : id ∈ table.fieldIds) : id ∈ renamed.fieldIds := hid
  have hconstraints : renamed.constraints =
      table.constraints.filterMap fun c => some (c.renameColumn oldName newName) :=
    (congrFun List.filterMap_eq_map table.constraints).symm
  obtain ⟨hresolve, hresolved⟩ := constraints_of_change hwf renamed _
    (fun r => r.fields.all fun id => id ∈ renamed.fieldIds) hconstraints
    fun c hc r hr => .inr ⟨_, rfl, hrenamed c r hr, fieldsIn_of_resolve hkeep hr⟩
  exact ⟨⟨by simpa using hwf.fields, hnames, hwf.ids, hwf.fresh, hresolve⟩, hresolved,
    fun id hid => .inl hid, le_rfl⟩

/-! ### DROP COLUMN -/

/-- Removing an element of a list with distinct keys by its key removes its position. -/
theorem filter_ne_eq_eraseIdx {α β : Type} [DecidableEq β] {f : α → β} {l : List α} {i : ℕ} {a : α}
    (h : (l.map f).Nodup) (hi : l[i]? = some a) :
    l.filter (fun b => f b ≠ f a) = l.eraseIdx i := by
  induction l generalizing i with
  | nil => cases hi
  | cons b l ih =>
    obtain ⟨hb, hl⟩ := List.nodup_cons.1 h
    cases i with
    | zero =>
      obtain rfl := Option.some.inj hi
      rw [List.filter_cons_of_neg (by simp), List.eraseIdx_cons_zero, List.filter_eq_self]
      intro c hc
      exact decide_eq_true fun heq => hb (heq ▸ List.mem_map_of_mem hc)
    | succ i =>
      have hne : f b ≠ f a := fun heq => hb (heq ▸ List.mem_map_of_mem (List.mem_of_getElem? hi))
      rw [List.filter_cons_of_pos (by simpa using hne), List.eraseIdx_cons_succ, ih hl hi]

/-- The positions after the removed one move down. -/
theorem getElem?_eraseIdx_shift {α : Type} (l : List α) {i j : ℕ} (h : j ≠ i) :
    (l.eraseIdx i)[if i < j then j - 1 else j]? = l[j]? := by
  rw [List.getElem?_eraseIdx]
  by_cases hij : i < j
  · have hlt : ¬ j - 1 < i := by omega
    rw [if_pos hij, if_neg hlt, Nat.sub_add_cancel (by omega)]
  · have hlt : j < i := by omega
    rw [if_neg hij, if_pos hlt]

end ConstrainedTable

theorem TableConstraint.removeLoop_eq (removedColumn : Text) (removedIndex : ℕ)
    (constraints : List TableConstraint) (c_idx : ℕ) :
    removeLoop removedColumn removedIndex constraints c_idx =
      constraints.take c_idx ++
        (constraints.drop c_idx).filterMap (·.removeColumn removedColumn removedIndex) := by
  induction constraints, c_idx using removeLoop.induct removedColumn removedIndex with
  | case1 constraints c_idx h hnone ih =>
    have hlength : (constraints.take c_idx).length = c_idx := List.length_take_of_le h.le
    rw [removeLoop, dif_pos h]
    split
    · rw [ih, List.eraseIdx_eq_take_drop_succ, List.take_left' hlength, List.drop_left' hlength,
        List.drop_eq_getElem_cons h, List.filterMap_cons_none hnone]
    next constraint hsome =>
      rw [hnone] at hsome
      cases hsome
  | case2 constraints c_idx h constraint hsome ih =>
    have hlength : (constraints.take c_idx ++ [constraint]).length = c_idx + 1 := by
      rw [List.length_append, List.length_take_of_le h.le]
      rfl
    have hset : constraints.set c_idx constraint =
        constraints.take c_idx ++ [constraint] ++ constraints.drop (c_idx + 1) := by
      rw [List.set_eq_take_append_cons_drop, if_pos h, List.append_assoc, List.singleton_append]
    rw [removeLoop, dif_pos h]
    split
    next hnone =>
      rw [hsome] at hnone
      cases hnone
    next constraint' hsome' =>
      obtain rfl := Option.some.inj (hsome.symm.trans hsome')
      rw [ih, hset, List.take_left' hlength, List.drop_left' hlength, List.drop_eq_getElem_cons h,
        List.filterMap_cons_some hsome, List.append_assoc, List.singleton_append]
  | case3 constraints c_idx h =>
    rw [removeLoop, dif_neg h, List.drop_of_length_le (by omega), List.take_of_length_le (by omega)]
    simp

namespace ConstrainedTable

/-- Everything about the removal of a column but the constraints. -/
structure Removed (table table' : ConstrainedTable) (column : Text) (index fieldId : ℕ) : Prop where
  isColumn : ∃ c, table.columns[index]? = some c ∧ c.fold = column.fold
  isField : table.fieldIds[index]? = some fieldId
  columns : table'.columns = table.columns.eraseIdx index
  fieldIds : table'.fieldIds = table.fieldIds.eraseIdx index
  constraints : table'.constraints =
    table.constraints.filterMap (·.removeColumn column index)
  next : table'.nextColumnId = table.nextColumnId

theorem removeColumn_ok {table table' : ConstrainedTable} (hwf : table.WellFormed)
    {removedColumn : Text} {ifExists : Bool}
    (h : table.removeColumn removedColumn ifExists = .ok (some table')) :
    ∃ index fieldId, table.Removed table' removedColumn index fieldId := by
  unfold removeColumn at h
  split at h
  · split at h <;> cases h
  next index hindex =>
    obtain ⟨c, hc, hfold⟩ := (columnPosition_eq_some hwf.names).1 hindex
    split at h
    next column fieldId hcolumn hfieldId =>
      obtain ⟨-, -, h⟩ := bind_eq_ok.1 h
      obtain ⟨columns, hcolumns, h⟩ := bind_eq_ok.1 h
      obtain rfl := Option.some.inj (Except.ok.inj h)
      obtain ⟨rfl, -⟩ := columnList_eq_ok.1 hcolumns
      refine ⟨index, fieldId, ⟨c, hc, hfold⟩, hfieldId, ?_, ?_, ?_, rfl⟩
      · rw [← filter_ne_eq_eraseIdx hwf.names hc]
        refine List.filter_congr fun d _ => ?_
        rw [hfold, Bool.eq_iff_iff, Bool.not_eq_true', decide_eq_true_iff, ← Bool.not_eq_true,
          Text.ciEquals_iff]
      · exact filter_ne_eq_eraseIdx (f := id) (by simpa using hwf.ids) hfieldId
      · rw [TableConstraint.removeLoop_eq, List.take_zero, List.drop_zero, List.nil_append]
    · cases h

theorem forall₂_imp_of_mem {α β : Type} {R S : α → β → Prop} {l : List α} {bs : List β}
    (h : List.Forall₂ R l bs) (himp : ∀ a ∈ l, ∀ b, R a b → S a b) : List.Forall₂ S l bs := by
  induction h with
  | nil => exact .nil
  | cons hab _ ih =>
    exact .cons (himp _ List.mem_cons_self _ hab)
      (ih fun a ha => himp a (List.mem_cons_of_mem _ ha))

namespace Removed

variable {table table' : ConstrainedTable} {column : Text} {index fieldId : ℕ}

theorem mem_fieldIds (hwf : table.WellFormed) (h : table.Removed table' column index fieldId)
    {id : ℕ} : id ∈ table'.fieldIds ↔ id ∈ table.fieldIds ∧ id ≠ fieldId := by
  have hids : (table.fieldIds.map fun id => id).Nodup := by simpa using hwf.ids
  rw [h.fieldIds, ← filter_ne_eq_eraseIdx hids h.isField]
  simp

/-- Another position is that of another field, and moves with it. -/
theorem getElem?_fieldIds (hwf : table.WellFormed) (h : table.Removed table' column index fieldId)
    {j id : ℕ} (hj : j ≠ index) (hid : table.fieldIds[j]? = some id) :
    table'.fieldIds[if index < j then j - 1 else j]? = some id ∧ id ≠ fieldId := by
  constructor
  · rw [h.fieldIds, getElem?_eraseIdx_shift _ hj, hid]
  · rintro rfl
    exact hj ((List.getElem?_inj (List.getElem?_eq_some_iff.1 hid).1 hwf.ids).1
      (hid.trans h.isField.symm))

theorem names (hwf : table.WellFormed) (h : table.Removed table' column index fieldId) :
    (table'.columns.map Text.fold).Nodup := by
  rw [h.columns]
  exact hwf.names.sublist ((List.eraseIdx_sublist _ _).map _)

/-- The name of the removed column is that of its field only. -/
theorem fieldOf_cases (hwf : table.WellFormed) (h : table.Removed table' column index fieldId)
    {key : Text} {id : ℕ} (hid : table.fieldOf key = some id) :
    key.fold = column.fold ∧ id = fieldId ∨
      key.fold ≠ column.fold ∧ id ≠ fieldId ∧ table'.fieldOf key = some id := by
  obtain ⟨i, c, hc, hfold, hi⟩ := (fieldOf_eq_some hwf.names).1 hid
  obtain ⟨c₀, hc₀, hfold₀⟩ := h.isColumn
  by_cases hkey : key.fold = column.fold
  · have hc' := (columnPosition_eq_some hwf.names).2 ⟨c, hc, hfold⟩
    have hc₀' := (columnPosition_eq_some hwf.names).2 ⟨c₀, hc₀, hfold₀.trans hkey.symm⟩
    obtain rfl := Option.some.inj (hc'.symm.trans hc₀')
    exact .inl ⟨hkey, Option.some.inj (hi.symm.trans h.isField)⟩
  · have hne : i ≠ index := by
      rintro rfl
      obtain rfl := Option.some.inj (hc.symm.trans hc₀)
      exact hkey (hfold.symm.trans hfold₀)
    obtain ⟨hi', hid'⟩ := h.getElem?_fieldIds hwf hne hi
    refine .inr ⟨hkey, hid', (fieldOf_eq_some (h.names hwf)).2 ⟨_, c, ?_, hfold, hi'⟩⟩
    rw [h.columns, getElem?_eraseIdx_shift _ hne, hc]

theorem constraint (hwf : table.WellFormed) (h : table.Removed table' column index fieldId)
    {c : TableConstraint} {r : FieldConstraint} (hr : table.resolve c = some r) :
    c.removeColumn column index = none ∧ (r.fields.all fun id => id ∈ table'.fieldIds) = false ∨
      ∃ c', c.removeColumn column index = some c' ∧ table'.resolve c' = some r ∧
        (r.fields.all fun id => id ∈ table'.fieldIds) = true := by
  have hkept {id : ℕ} (hmem : id ∈ table.fieldIds) (hid : id ≠ fieldId) : id ∈ table'.fieldIds :=
    (h.mem_fieldIds hwf).2 ⟨hmem, hid⟩
  have hgone : fieldId ∉ table'.fieldIds := fun hmem => ((h.mem_fieldIds hwf).1 hmem).2 rfl
  have hmem := mem_fieldIds_of_resolve hr
  cases c with
  | notNull j =>
    obtain ⟨id, hid, rfl⟩ := Option.map_eq_some_iff.1 hr
    by_cases hj : j = index
    · subst hj
      obtain rfl := Option.some.inj (hid.symm.trans h.isField)
      exact .inl ⟨if_pos rfl, by simpa using hgone⟩
    · obtain ⟨hid', hne⟩ := h.getElem?_fieldIds hwf hj hid
      refine .inr ⟨_, if_neg hj, Option.map_eq_some_iff.2 ⟨id, hid', rfl⟩, ?_⟩
      simpa using hkept (hmem id (by simp)) hne
  | unique key isPrimaryKey =>
    obtain ⟨ids, hids, rfl⟩ := Option.map_eq_some_iff.1 hr
    cases key with
    | index j =>
      obtain ⟨id, hid, rfl⟩ := Option.map_eq_some_iff.1 hids
      by_cases hj : j = index
      · subst hj
        obtain rfl := Option.some.inj (hid.symm.trans h.isField)
        exact .inl ⟨if_pos rfl, by simpa using hgone⟩
      · obtain ⟨hid', hne⟩ := h.getElem?_fieldIds hwf hj hid
        refine .inr ⟨_, if_neg hj, Option.map_eq_some_iff.2
          ⟨[id], Option.map_eq_some_iff.2 ⟨id, hid', rfl⟩, rfl⟩, ?_⟩
        simpa using hkept (hmem id (by simp)) hne
    | names columnNames =>
      have hall := mapM_eq_some_iff.1 hids
      by_cases hremoved : columnNames.any (·.ciEquals column) = true
      · refine .inl ⟨if_pos hremoved, ?_⟩
        obtain ⟨key, hkey, hfold⟩ := List.any_eq_true.1 hremoved
        obtain ⟨id, hid, hfield⟩ := (exists_of_mem_forall₂ hall).1 key hkey
        rcases h.fieldOf_cases hwf hfield with ⟨-, rfl⟩ | ⟨hne, -⟩
        · rw [List.all_eq_false]
          exact ⟨id, hid, by simpa using hgone⟩
        · exact absurd (Text.ciEquals_iff.1 hfold) hne
      · have hkey (key) (hkey : key ∈ columnNames) : key.fold ≠ column.fold := fun hfold =>
          hremoved (List.any_eq_true.2 ⟨key, hkey, Text.ciEquals_iff.2 hfold⟩)
        refine .inr ⟨_, if_neg hremoved, Option.map_eq_some_iff.2
          ⟨ids, mapM_eq_some_iff.2 ?_, rfl⟩, ?_⟩
        · refine forall₂_imp_of_mem hall fun key hmem id hid => ?_
          rcases h.fieldOf_cases hwf hid with ⟨hfold, -⟩ | ⟨-, -, hid'⟩
          · exact absurd hfold (hkey key hmem)
          · exact hid'
        · rw [List.all_eq_true]
          intro id hid
          obtain ⟨key, hmemKey, hfield⟩ := (exists_of_mem_forall₂ hall).2 id hid
          rcases h.fieldOf_cases hwf hfield with ⟨hfold, -⟩ | ⟨-, hne, -⟩
          · exact absurd hfold (hkey key hmemKey)
          · exact decide_eq_true (hkept (hmem id hid) hne)

theorem follows (hwf : table.WellFormed) (h : table.Removed table' column index fieldId) :
    table.Follows table' := by
  obtain ⟨hresolve, hresolved⟩ := constraints_of_change hwf table' _
    (fun r => r.fields.all fun id => id ∈ table'.fieldIds) h.constraints
    fun c _ r hr => h.constraint hwf hr
  have hmem (id) (hid : id ∈ table'.fieldIds) : id ∈ table.fieldIds :=
    ((h.mem_fieldIds hwf).1 hid).1
  refine ⟨⟨?_, h.names hwf, ?_, fun id hid => ?_, hresolve⟩, hresolved,
    fun id hid => .inl (hmem id hid), h.next.ge⟩
  · rw [h.columns, h.fieldIds, List.length_eraseIdx, List.length_eraseIdx, hwf.fields]
  · rw [h.fieldIds]
    exact hwf.ids.sublist (List.eraseIdx_sublist _ _)
  · rw [h.next]
    exact hwf.fresh id (hmem id hid)

end Removed

/-! ### Runs -/

theorem Follows.refl {table : ConstrainedTable} (hwf : table.WellFormed) :
    table.Follows table := by
  refine ⟨hwf, ?_, fun id hid => .inl hid, le_rfl⟩
  rw [eq_comm, List.filter_eq_self]
  intro r hr
  obtain ⟨c, -, hc⟩ := List.mem_filterMap.1 hr
  exact fieldsIn_of_resolve (fun _ hid => hid) hc

theorem Follows.trans {a b c : ConstrainedTable} (hwf : a.WellFormed) (hab : a.Follows b)
    (hbc : b.Follows c) : a.Follows c := by
  refine ⟨hbc.wellFormed, ?_, fun id hid => ?_, hab.next.trans hbc.next⟩
  · rw [hbc.resolved, hab.resolved, List.filter_filter]
    refine List.filter_congr fun r hr => ?_
    obtain ⟨d, -, hd⟩ := List.mem_filterMap.1 hr
    -- a field of the first table that the last one has was never dropped in between
    have hback {id : ℕ} (hid : id ∈ r.fields) (hc : id ∈ c.fieldIds) : id ∈ b.fieldIds := by
      refine (hbc.old id hc).resolve_right fun hle => ?_
      have := hwf.fresh id (mem_fieldIds_of_resolve hd id hid)
      have := hab.next
      omega
    rw [Bool.eq_iff_iff, Bool.and_eq_true, List.all_eq_true, List.all_eq_true]
    simp only [decide_eq_true_iff]
    exact ⟨fun h => h.1, fun h => ⟨h, fun id hid => hback hid (h id hid)⟩⟩
  · rcases hbc.old id hid with hid | hle
    · exact hab.old id hid
    · exact .inr (hab.next.trans hle)

theorem altered_follows {table : ConstrainedTable} (hwf : table.WellFormed)
    (statement : (Text → Except Exception Unit) × ColumnAlter) :
    table.Follows (table.altered statement) := by
  obtain ⟨validate, alter⟩ := statement
  unfold altered
  split
  next table' h =>
    cases alter with
    | add name nested ifNotExists =>
      obtain ⟨-, -, h⟩ := bind_eq_ok.1 h
      exact addColumn_follows hwf h
    | drop name ifExists =>
      obtain ⟨index, fieldId, hremoved⟩ := removeColumn_ok hwf h
      exact hremoved.follows hwf
    | rename oldName newName =>
      obtain ⟨-, -, h⟩ := bind_eq_ok.1 h
      exact renameColumn_follows hwf h
  next => exact .refl hwf

/-- The table after the statements, in their order. -/
def run (table : ConstrainedTable)
    (statements : List ((Text → Except Exception Unit) × ColumnAlter)) : ConstrainedTable :=
  statements.foldl altered table

theorem run_follows {table : ConstrainedTable} (hwf : table.WellFormed)
    (statements : List ((Text → Except Exception Unit) × ColumnAlter)) :
    table.Follows (table.run statements) := by
  unfold run
  induction statements generalizing table with
  | nil => exact .refl hwf
  | cons statement statements ih =>
    have hstep := altered_follows hwf statement
    exact hstep.trans hwf (ih hstep.wellFormed)

/-- The constraint refers to columns of the table. -/
def InRange (table : ConstrainedTable) : TableConstraint → Prop
  | .notNull index => index < table.columns.length
  | .unique (.index index) _ => index < table.columns.length
  | .unique (.names columnNames) _ =>
    ∀ name ∈ columnNames, ∃ column ∈ table.columns, column.fold = name.fold

theorem WellFormed.inRange {table : ConstrainedTable} (hwf : table.WellFormed)
    {c : TableConstraint} (hc : c ∈ table.constraints) : table.InRange c := by
  obtain ⟨r, hr⟩ := hwf.constraints c hc
  have hindex {i id : ℕ} (hi : table.fieldIds[i]? = some id) : i < table.columns.length :=
    hwf.fields ▸ (List.getElem?_eq_some_iff.1 hi).1
  cases c with
  | notNull index =>
    obtain ⟨id, hid, -⟩ := Option.map_eq_some_iff.1 hr
    exact hindex hid
  | unique key isPrimaryKey =>
    obtain ⟨ids, hids, -⟩ := Option.map_eq_some_iff.1 hr
    cases key with
    | index index =>
      obtain ⟨id, hid, -⟩ := Option.map_eq_some_iff.1 hids
      exact hindex hid
    | names columnNames =>
      intro name hname
      obtain ⟨id, -, hid⟩ := (exists_of_mem_forall₂ (mapM_eq_some_iff.1 hids)).1 name hname
      obtain ⟨i, c, hc, hfold, -⟩ := (fieldOf_eq_some hwf.names).1 hid
      exact ⟨c, List.mem_of_getElem? hc, hfold⟩

theorem WellFormed.map_resolve {table : ConstrainedTable} (hwf : table.WellFormed) :
    table.constraints.map table.resolve = table.resolved.map some := by
  have hall (l : List TableConstraint) (h : ∀ c ∈ l, ∃ r, table.resolve c = some r) :
      l.map table.resolve = (l.filterMap table.resolve).map some := by
    induction l with
    | nil => rfl
    | cons c l ih =>
      obtain ⟨r, hr⟩ := h c List.mem_cons_self
      rw [List.map_cons, List.filterMap_cons_some hr, List.map_cons, hr,
        ih fun c hc => h c (List.mem_cons_of_mem _ hc)]
  exact hall _ hwf.constraints

/-- Columns are added, dropped and renamed, and the constraints follow them: those of which no column
was dropped are left, with the same fields, and refer to columns of the table. Fields that are added
are new ones. -/
theorem constraints_follow_columns {table : ConstrainedTable} (hwf : table.WellFormed)
    (statements : List ((Text → Except Exception Unit) × ColumnAlter)) :
    (table.run statements).constraints.map (table.run statements).resolve =
      (table.resolved.filter fun r => r.fields.all fun id =>
        id ∈ (table.run statements).fieldIds).map some ∧
    (∀ id ∈ (table.run statements).fieldIds, id ∈ table.fieldIds ∨ table.nextColumnId ≤ id) ∧
    ∀ c ∈ (table.run statements).constraints, (table.run statements).InRange c := by
  have h := run_follows hwf statements
  refine ⟨?_, h.old, fun c hc => h.wellFormed.inRange hc⟩
  rw [h.wellFormed.map_resolve, h.resolved]

/-- A table with a constraint of each kind, and a run that drops and renames columns of them. -/
def keyedTable : ConstrainedTable where
  name := "t"
  columns := ["a", "b", "c", "d"]
  fieldIds := [1, 2, 3, 4]
  nextColumnId := 5
  constraints := [.notNull 0, .notNull 3, .unique (.index 2) true, .unique (.names ["A", "b"]) false,
    .unique (.names ["D", "c"]) false]

def keyedTableAlters : List ((Text → Except Exception Unit) × ColumnAlter) :=
  [(fun _ => .ok (), .drop "B" false), (fun _ => .ok (), .rename "c" "b"),
    (fun _ => .ok (), .add "c" 0 false)]

theorem constraints_follow_columns_keyedTable :
    ((keyedTable.run keyedTableAlters).constraints.map (keyedTable.run keyedTableAlters).resolve =
      (keyedTable.resolved.filter fun r => r.fields.all fun id =>
        id ∈ (keyedTable.run keyedTableAlters).fieldIds).map some) ∧
    (keyedTable.run keyedTableAlters).fieldIds = [1, 3, 4, 5] ∧
    (keyedTable.run keyedTableAlters).resolved =
      [⟨.notNull, [1]⟩, ⟨.notNull, [4]⟩, ⟨.primaryKey, [3]⟩, ⟨.unique, [4, 3]⟩] := by
  have hwf : keyedTable.WellFormed := by
    have hresolve : ∀ c ∈ keyedTable.constraints, (keyedTable.resolve c).isSome = true := by
      decide +kernel
    exact ⟨rfl, by decide, by decide, by decide, fun c hc =>
      Option.isSome_iff_exists.1 (hresolve c hc)⟩
  exact ⟨(constraints_follow_columns hwf keyedTableAlters).1, by decide +kernel, by decide +kernel⟩

end ConstrainedTable

end DuckLake
