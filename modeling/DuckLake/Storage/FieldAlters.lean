import DuckLake.Storage.FieldEdits

/-!
# ALTER TABLE statements on nested fields

The fields of a table are well formed, and their ids are different from each other and below the next
column id. A statement that is admitted edits one field of one column and keeps all that, or is
rejected because the parent of a field that is removed is not a struct.
-/

namespace DuckLake

namespace NestedField

/-! ## New fields -/

theorem distinctNames_of_foldlM {column : Text} {names names' : List Text}
    {children : List NestedField} (hnames : (names.map Text.fold).Nodup)
    (h : children.foldlM (checkChildName column) names = .ok names') :
    ((names.map Text.fold) ++ children.map fun child => child.name.fold).Nodup := by
  induction children generalizing names with
  | nil => simpa using hnames
  | cons child children ih =>
    rw [List.foldlM_cons, checkChildName] at h
    by_cases hany : names.any child.name.ciEquals = true
    · rw [if_pos hany] at h
      cases h
    rw [if_neg hany] at h
    have hnew : (names ++ [child.name]).map Text.fold = names.map Text.fold ++ [child.name.fold] := by
      rw [List.map_append, List.map_singleton]
    have hnames' : ((names ++ [child.name]).map Text.fold).Nodup := by
      rw [hnew]
      refine List.Nodup.append hnames (List.nodup_singleton _) (List.disjoint_singleton.2 ?_)
      intro hmem
      obtain ⟨name, hname, heq⟩ := List.mem_map.1 hmem
      exact hany (List.any_eq_true.2 ⟨name, hname, Text.ciEquals_iff.2 heq.symm⟩)
    have hrest := ih hnames' h
    rwa [hnew, List.append_assoc] at hrest

theorem makeField_eq_ok {data : FieldData} {name : Text} {type : NestedType}
    {children : List NestedField} {field : NestedField}
    (h : makeField data name type children = .ok field) :
    field = .mk data name type children ∧ DistinctNames children := by
  obtain ⟨names, hnames, hfield⟩ := bind_eq_ok.1 h
  have hdistinct := @distinctNames_of_foldlM _ [] _ _ List.nodup_nil hnames
  exact ⟨(Except.ok.inj hfield).symm, hdistinct⟩

/-- The ids are those from one column id to another. -/
def NumberedFrom (ids : List ℕ) (columnId next : ℕ) : Prop :=
  ∃ count, next = columnId + count ∧ ids = List.range' columnId count

theorem NumberedFrom.append {ids ids' : List ℕ} {columnId middle next : ℕ}
    (h : NumberedFrom ids columnId middle) (h' : NumberedFrom ids' middle next) :
    NumberedFrom (ids ++ ids') columnId next := by
  obtain ⟨count, rfl, rfl⟩ := h
  obtain ⟨count', rfl, rfl⟩ := h'
  exact ⟨count + count', Nat.add_assoc _ _ _, List.range'_append_1⟩

theorem NumberedFrom.cons {ids : List ℕ} {columnId next : ℕ}
    (h : NumberedFrom ids (columnId + 1) next) : NumberedFrom (columnId :: ids) columnId next :=
  NumberedFrom.append ⟨1, rfl, rfl⟩ h

/-- What a new field is made of. -/
structure IsNew (name : Text) (type : NestedType) (default : Option DefaultExpression)
    (columnId next : ℕ) (field : NestedField) : Prop where
  name : field.name = name
  type : field.type = type
  default : field.columnData.defaultValue = default
  wellFormed : field.WellFormed
  ids : NumberedFrom field.ids columnId next

variable {env : FieldEnv}

mutual

theorem isNew_fieldIdFromType {name : Text} {type : NestedType}
    {default : Option DefaultExpression} {columnId next : ℕ} {field : NestedField}
    (h : fieldIdFromType env name type default columnId = .ok (field, next)) :
    IsNew name type default columnId next field := by
  rw [fieldIdFromType] at h
  obtain ⟨⟨children, next'⟩, hchildren, h⟩ := bind_eq_ok.1 h
  obtain ⟨initialDefault, -, h⟩ := bind_eq_ok.1 h
  obtain ⟨field', hfield, h⟩ := bind_eq_ok.1 h
  cases h
  obtain ⟨rfl, hdistinct⟩ := makeField_eq_ok hfield
  obtain ⟨htyped, hwf, hids⟩ := childrenFromType_spec hchildren
  exact ⟨rfl, rfl, rfl, ⟨htyped, hdistinct, hwf⟩, hids.cons⟩
termination_by (sizeOf type, 1)

theorem childrenFromType_spec {type : NestedType} {default : Option DefaultExpression}
    {columnId next : ℕ} {children : List NestedField}
    (h : childrenFromType env type default columnId = .ok (children, next)) :
    TypedBy children type ∧ AllWellFormed children ∧
      NumberedFrom (allIds children) columnId next := by
  cases type with
  | primitive name =>
    rw [childrenFromType] at h
    · cases h
      exact ⟨rfl, trivial, 0, rfl, rfl⟩
    all_goals simp
  | variant =>
    rw [childrenFromType] at h
    · cases h
      exact ⟨rfl, trivial, 0, rfl, rfl⟩
    all_goals simp
  | struct fields =>
    rw [childrenFromType] at h
    obtain ⟨-, -, h⟩ := bind_eq_ok.1 h
    exact fieldIdsFromTypes_spec h
  | list element =>
    rw [childrenFromType] at h
    obtain ⟨-, -, h⟩ := bind_eq_ok.1 h
    obtain ⟨⟨child, next'⟩, hchild, h⟩ := bind_eq_ok.1 h
    cases h
    have hnew := isNew_fieldIdFromType hchild
    refine ⟨⟨child, rfl, hnew.type.symm⟩, ⟨hnew.wellFormed, trivial⟩, ?_⟩
    rw [allIds, allIds, List.append_nil]
    exact hnew.ids
  | map key value =>
    rw [childrenFromType] at h
    obtain ⟨-, -, h⟩ := bind_eq_ok.1 h
    obtain ⟨⟨keyChild, middle⟩, hkey, h⟩ := bind_eq_ok.1 h
    obtain ⟨⟨valueChild, next'⟩, hvalue, h⟩ := bind_eq_ok.1 h
    cases h
    have hkey := isNew_fieldIdFromType hkey
    have hvalue := isNew_fieldIdFromType hvalue
    refine ⟨⟨keyChild, valueChild, rfl, hkey.type.symm, hvalue.type.symm⟩,
      ⟨hkey.wellFormed, hvalue.wellFormed, trivial⟩, ?_⟩
    rw [allIds, allIds, allIds, List.append_nil]
    exact hkey.ids.append hvalue.ids
termination_by (sizeOf type, 0)

theorem fieldIdsFromTypes_spec {fields : List (Text × NestedType)} {columnId next : ℕ}
    {children : List NestedField}
    (h : fieldIdsFromTypes env fields columnId = .ok (children, next)) :
    fields = children.map (fun child => (child.name, child.type)) ∧ AllWellFormed children ∧
      NumberedFrom (allIds children) columnId next := by
  match fields, h with
  | [], h =>
    rw [fieldIdsFromTypes] at h
    cases h
    exact ⟨rfl, trivial, 0, rfl, rfl⟩
  | (name, type) :: fields, h =>
    rw [fieldIdsFromTypes] at h
    obtain ⟨⟨child, middle⟩, hchild, h⟩ := bind_eq_ok.1 h
    obtain ⟨⟨children', next'⟩, hchildren, h⟩ := bind_eq_ok.1 h
    cases h
    have hnew := isNew_fieldIdFromType hchild
    obtain ⟨hfields, hwf, hids⟩ := fieldIdsFromTypes_spec hchildren
    refine ⟨?_, ⟨hnew.wellFormed, hwf⟩, hnew.ids.append hids⟩
    rw [List.map_cons, hnew.name, hnew.type, ← hfields]
termination_by (sizeOf fields, 0)

end

end NestedField

/-! ## Tables -/

/-- The columns are those of the fields, which are well formed, and no id is used twice. -/
structure FieldTable.WellFormed (table : FieldTable) : Prop where
  columns : table.columns = table.fields.map fun field => (field.name, field.type)
  names : NestedField.DistinctNames table.fields
  fields : ∀ field ∈ table.fields, field.WellFormed
  ids : (NestedField.allIds table.fields).Nodup
  fresh : ∀ id ∈ NestedField.allIds table.fields, id < table.nextColumnId

/-- The node below a column to which the path leads. -/
def FieldTable.NodeAt (table : FieldTable) (column : Text) (path : List Text)
    (node : NestedField) : Prop :=
  ∃ field ∈ table.fields, field.name.fold = column.fold ∧ NestedField.LeadsTo node path field

def FieldEdit.path : FieldEdit → List Text
  | add _ path _ | remove _ path _ | rename _ path _ _ => path

/-- The children of the field at the end of the path, before and after. -/
def FieldEdit.Change : FieldEdit → List NestedField → List NestedField → Prop
  | add _ _ newChild, children, children' => children' = children ++ [newChild]
  | remove _ _ leaf, children, children' => ∃ before child after,
    children = before ++ child :: after ∧ child.name.fold = leaf.fold ∧ children' = before ++ after
  | rename _ _ leaf newName, children, children' => ∃ before child after,
    children = before ++ child :: after ∧ child.name.fold = leaf.fold ∧
      children' = before ++ child.renamed newName :: after

/-- The table after the edit differs in one field of one column. -/
structure FieldEdit.Keeps (edit : FieldEdit) (table table' : FieldTable) : Prop where
  wellFormed : table'.WellFormed
  edited : ∃ before field after field', table.fields = before ++ field :: after ∧
    field.name.fold = edit.column.fold ∧ table'.fields = before ++ field' :: after ∧
      NestedField.Edits edit.Change edit.path field field'

/-- The field to be removed is the element of a list, or the key or value of a map. -/
def FieldEdit.RemovesEntry (table : FieldTable) : FieldEdit → Prop
  | remove column path _ => ∃ parent, table.NodeAt column path parent ∧
    NestedField.isMapOrList parent.type = true
  | _ => False

/-- The edit is the one that the statement names, with a new field where it adds one. -/
def FieldAlter.Asks (table : FieldTable) : FieldAlter → FieldEdit → ℕ → Prop
  | .add column path newField _, edit, next => ∃ newChild, edit = .add column path newChild ∧
    NestedField.IsNew newField.name newField.type newField.defaultValue table.nextColumnId next
      newChild
  | .remove column path leaf _, edit, _ => edit = .remove column path leaf
  | .rename column path leaf newName, edit, _ => edit = .rename column path leaf newName

variable {env : FieldEnv} {table : FieldTable}

theorem FieldTable.nodeAt_of_tryGetFieldId (hwf : table.WellFormed) {column : Text}
    {path : List Text} {node : NestedField}
    (h : table.tryGetFieldId column path = .ok (some node)) : table.NodeAt column path node := by
  rw [tryGetFieldId] at h
  cases hindex : table.columns.findIdx? (·.1.ciEquals column) with
  | none =>
    rw [hindex] at h
    cases h
  | some index =>
    rw [hindex] at h
    obtain ⟨field, hfield, hnode⟩ := bind_eq_ok.1 h
    have hget : table.fields[index]? = some field := by
      rw [fieldAt] at hfield
      cases hget : table.fields[index]? with
      | none =>
        rw [hget] at hfield
        cases hfield
      | some field' =>
        rw [hget] at hfield
        cases hfield
        rfl
    obtain ⟨hlt, hname, -⟩ := List.findIdx?_eq_some_iff_getElem.1 hindex
    have hcolumn : table.columns[index]? = some (field.name, field.type) := by
      rw [hwf.columns, List.getElem?_map, hget]
      rfl
    rw [List.getElem?_eq_getElem hlt, Option.some.injEq] at hcolumn
    rw [hcolumn, Text.ciEquals_iff] at hname
    exact ⟨field, List.mem_of_getElem? hget, hname, NestedField.getByNames_leadsTo hnode⟩

theorem FieldTable.tryGetFieldId_of_getFieldId {column : Text} {path : List Text}
    {node : NestedField} (h : table.getFieldId column path = .ok node) :
    table.tryGetFieldId column path = .ok (some node) := by
  obtain ⟨result, hresult, h⟩ := bind_eq_ok.1 h
  cases result with
  | none => cases h
  | some found =>
    cases h
    exact hresult

theorem FieldTable.NodeAt.unique (hwf : table.WellFormed) {column : Text} {path : List Text}
    {node node' : NestedField} (h : table.NodeAt column path node)
    (h' : table.NodeAt column path node') : node = node' := by
  obtain ⟨field, hmem, hname, hlead⟩ := h
  obtain ⟨field', hmem', hname', hlead'⟩ := h'
  obtain rfl := List.inj_on_of_nodup_map hwf.names hmem hmem' (hname.trans hname'.symm)
  exact hlead.unique (hwf.fields field hmem) hlead'

theorem FieldTable.NodeAt.parent {column leaf : Text} {path : List Text} {node : NestedField}
    (h : table.NodeAt column (path ++ [leaf]) node) :
    ∃ parent, table.NodeAt column path parent ∧ node ∈ parent.children ∧
      node.name.fold = leaf.fold := by
  obtain ⟨field, hmem, hname, hlead⟩ := h
  obtain ⟨parent, hparent, hnode⟩ := hlead.append
  exact ⟨parent, ⟨field, hmem, hname, hparent⟩, hnode⟩

theorem FieldTable.NodeAt.wellFormed (hwf : table.WellFormed) {column : Text} {path : List Text}
    {node : NestedField} (h : table.NodeAt column path node) : node.WellFormed := by
  obtain ⟨field, hmem, -, hlead⟩ := h
  exact hlead.wellFormed (hwf.fields field hmem)

/-! ## What the checks establish -/

def FieldEdit.Admitted (table : FieldTable) : FieldEdit → ℕ → Prop
  | add column path newChild, next => ∃ parent fields, table.NodeAt column path parent ∧
    parent.type = .struct fields ∧ fields.any (·.1.ciEquals newChild.name) = false ∧
      newChild.WellFormed ∧ NestedField.NumberedFrom newChild.ids table.nextColumnId next
  | remove column path leaf, next => next = table.nextColumnId ∧ ∃ parent,
    table.NodeAt column path parent ∧ ∃ child ∈ parent.children, child.name.fold = leaf.fold
  | rename column path leaf newName, next => next = table.nextColumnId ∧ ∃ parent fields,
    table.NodeAt column path parent ∧ parent.type = .struct fields ∧
      fields.any (·.1.ciEquals newName) = false ∧
        ∃ child ∈ parent.children, child.name.fold = leaf.fold

theorem FieldTable.admitAdd_spec (hwf : table.WellFormed) {column : Text} {path : List Text}
    {newField : NewFieldDefinition} {ifNotExists : Bool} {edit : FieldEdit} {next : ℕ}
    (h : table.admitAdd env column path newField ifNotExists = .ok (some (edit, next))) :
    (FieldAlter.add column path newField ifNotExists).Asks table edit next ∧
      edit.Admitted table next := by
  obtain ⟨parent, hparent, h⟩ := bind_eq_ok.1 h
  have hnode := nodeAt_of_tryGetFieldId hwf (tryGetFieldId_of_getFieldId hparent)
  cases htype : parent.type with
  | struct fields =>
    rw [htype] at h
    cases hexists : fields.any (·.1.ciEquals newField.name) with
    | true =>
      simp only [hexists] at h
      cases ifNotExists <;> cases h
    | false =>
      simp only [hexists] at h
      obtain ⟨⟨newChild, next'⟩, hnew, h⟩ := bind_eq_ok.1 h
      obtain ⟨-, -, h⟩ := bind_eq_ok.1 h
      cases h
      have hnew := NestedField.isNew_fieldIdFromType hnew
      refine ⟨⟨newChild, rfl, hnew⟩, parent, fields, hnode, htype, ?_, hnew.wellFormed, hnew.ids⟩
      rw [hnew.name, hexists]
  | primitive name => rw [htype] at h; cases h
  | variant => rw [htype] at h; cases h
  | list element => rw [htype] at h; cases h
  | map key value => rw [htype] at h; cases h

theorem FieldTable.admitRemove_iff {column leaf : Text} {path : List Text} {ifExists : Bool} {edit : FieldEdit} {next : ℕ} :
    table.admitRemove column path leaf ifExists = .ok (some (edit, next)) ↔
      (edit = .remove column path leaf ∧ next = table.nextColumnId) ∧
        ∃ node, table.tryGetFieldId column (path ++ [leaf]) = .ok (some node) := by
  rw [admitRemove]
  cases ifExists with
  | true =>
    rw [if_pos rfl]
    constructor
    · intro h
      obtain ⟨removed, hremoved, h⟩ := bind_eq_ok.1 h
      cases removed with
      | none => cases h
      | some node =>
        cases h
        exact ⟨⟨rfl, rfl⟩, node, hremoved⟩
    · rintro ⟨⟨rfl, rfl⟩, node, hnode⟩
      rw [hnode]
      rfl
  | false =>
    rw [if_neg Bool.false_ne_true]
    constructor
    · intro h
      obtain ⟨node, hnode, h⟩ := bind_eq_ok.1 h
      cases h
      exact ⟨⟨rfl, rfl⟩, node, tryGetFieldId_of_getFieldId hnode⟩
    · rintro ⟨⟨rfl, rfl⟩, node, hnode⟩
      rw [getFieldId, hnode]
      rfl

theorem FieldTable.admitRename_spec (hwf : table.WellFormed) {column leaf newName : Text}
    {path : List Text} {edit : FieldEdit} {next : ℕ}
    (h : table.admitRename column path leaf newName = .ok (some (edit, next))) :
    edit = .rename column path leaf newName ∧ edit.Admitted table next := by
  obtain ⟨node, hnode, h⟩ := bind_eq_ok.1 h
  obtain ⟨parent, hparent, h⟩ := bind_eq_ok.1 h
  have hnode := nodeAt_of_tryGetFieldId hwf (tryGetFieldId_of_getFieldId hnode)
  have hparent := nodeAt_of_tryGetFieldId hwf (tryGetFieldId_of_getFieldId hparent)
  obtain ⟨parent', hparent', hchild⟩ := hnode.parent
  obtain rfl := hparent.unique hwf hparent'
  cases htype : parent.type with
  | struct fields =>
    rw [htype] at h
    cases hexists : fields.any (·.1.ciEquals newName) with
    | true =>
      simp only [hexists] at h
      cases h
    | false =>
      simp only [hexists] at h
      cases h
      exact ⟨rfl, rfl, parent, fields, hparent, htype, hexists, node, hchild⟩
  | primitive name => rw [htype] at h; cases h
  | variant => rw [htype] at h; cases h
  | list element => rw [htype] at h; cases h
  | map key value => rw [htype] at h; cases h

theorem FieldTable.admit_spec (hwf : table.WellFormed) {statement : FieldAlter} {edit : FieldEdit}
    {next : ℕ} (h : table.admit env statement = .ok (some (edit, next))) :
    statement.Asks table edit next ∧ edit.Admitted table next := by
  cases statement with
  | add column path newField ifNotExists => exact admitAdd_spec hwf h
  | remove column path leaf ifExists =>
    obtain ⟨⟨rfl, rfl⟩, node, hnode⟩ := admitRemove_iff.1 h
    obtain ⟨parent, hparent, hchild⟩ := (nodeAt_of_tryGetFieldId hwf hnode).parent
    exact ⟨rfl, rfl, parent, hparent, node, hchild⟩
  | rename column path leaf newName => exact admitRename_spec hwf h

/-! ## The edited column -/

open NestedField (LeadsTo Edits addField_step addField_end removeField_step removeField_end
  removeField_entry renameField_step renameField_end edits_of_leadsTo error_of_leadsTo)

section applyTo

variable {field parent : NestedField} {column leaf : Text} {path : List Text}

theorem applyTo_add {newChild : NestedField} {fields : List (Text × NestedType)}
    (hwf : field.WellFormed) (hlead : LeadsTo parent path field)
    (htype : parent.type = .struct fields) (hnew : newChild.WellFormed)
    (hfree : fields.any (·.1.ciEquals newChild.name) = false) :
    ∃ field', (FieldEdit.add column path newChild).applyTo field = .ok field' ∧
      field'.WellFormed ∧ Edits (FieldEdit.add column path newChild).Change path field field' := by
  obtain ⟨parent', hend, hparent', hsame, hchange⟩ :=
    addField_end (hlead.wellFormed hwf) htype hnew hfree
  exact edits_of_leadsTo (NestedField.addField newChild) addField_step hlead hwf hend hparent' hsame hchange

theorem applyTo_remove {child : NestedField} {fields : List (Text × NestedType)}
    (hwf : field.WellFormed) (hlead : LeadsTo parent path field)
    (htype : parent.type = .struct fields) (hmem : child ∈ parent.children)
    (hname : child.name.fold = leaf.fold) :
    ∃ field', (FieldEdit.remove column path leaf).applyTo field = .ok field' ∧
      field'.WellFormed ∧ Edits (FieldEdit.remove column path leaf).Change path field field' := by
  obtain ⟨before, after, hsplit⟩ := List.append_of_mem hmem
  obtain ⟨parent', hend, hparent', hsame, hchildren⟩ :=
    removeField_end (path.length + 2) (hlead.wellFormed hwf) htype hsplit hname
  have hchange : (FieldEdit.remove column path leaf).Change parent.children parent'.children :=
    ⟨before, child, after, hsplit, hname, hchildren⟩
  cases path with
  | nil =>
    cases hlead
    exact ⟨parent', hend, hparent', .here hsame hchange⟩
  | cons name rest =>
    exact edits_of_leadsTo
      (fun path => NestedField.removeField ((name :: rest).length + 2) (path ++ [leaf]))
      (removeField_step (by simp)) hlead hwf hend hparent' hsame hchange

/-- Below the first level of a column, the guard for the entries of lists and maps is skipped. -/
theorem applyTo_removeEntry (column : Text) {child : NestedField} (hwf : field.WellFormed)
    (hlead : LeadsTo parent path field) (htype : NestedField.isMapOrList parent.type = true)
    (hmem : child ∈ parent.children) (hname : child.name.fold = leaf.fold) :
    ∃ e, (FieldEdit.remove column path leaf).applyTo field = .error e ∧
      e.type = if path = [] then .catalog else .internal := by
  obtain ⟨e, hend, he⟩ :=
    removeField_entry (path.length + 2) (hlead.wellFormed hwf) htype hmem hname
  cases path with
  | nil =>
    cases hlead
    exact ⟨e, hend, he⟩
  | cons name rest =>
    refine ⟨e, ?_, by simpa using he⟩
    exact error_of_leadsTo
      (fun path => NestedField.removeField ((name :: rest).length + 2) (path ++ [leaf]))
      (removeField_step (by simp)) hlead hwf hend

theorem applyTo_rename {child : NestedField} {newName : Text} {fields : List (Text × NestedType)}
    (hwf : field.WellFormed) (hlead : LeadsTo parent path field)
    (htype : parent.type = .struct fields) (hmem : child ∈ parent.children)
    (hname : child.name.fold = leaf.fold) (hfree : fields.any (·.1.ciEquals newName) = false) :
    ∃ field', (FieldEdit.rename column path leaf newName).applyTo field = .ok field' ∧
      field'.WellFormed ∧
        Edits (FieldEdit.rename column path leaf newName).Change path field field' := by
  obtain ⟨before, after, hsplit⟩ := List.append_of_mem hmem
  obtain ⟨parent', hend, hparent', hsame, hchildren⟩ :=
    renameField_end (path.length + 2) (hlead.wellFormed hwf) htype hsplit hname hfree
  exact edits_of_leadsTo
    (fun rest => NestedField.renameField (path.length + 2) newName (rest ++ [leaf]))
    renameField_step hlead hwf hend hparent' hsame ⟨before, child, after, hsplit, hname, hchildren⟩

end applyTo

theorem FieldEdit.applyTo_spec {edit : FieldEdit} {next : ℕ} (hwf : table.WellFormed)
    (h : edit.Admitted table next) (hentry : ¬ edit.RemovesEntry table) :
    ∃ field ∈ table.fields, field.name.fold = edit.column.fold ∧ ∃ field',
      edit.applyTo field = .ok field' ∧ field'.WellFormed ∧
        Edits edit.Change edit.path field field' := by
  cases edit with
  | add column path newChild =>
    obtain ⟨parent, fields, ⟨field, hfield, hname, hlead⟩, htype, hfree, hnew, -⟩ := h
    exact ⟨field, hfield, hname,
      applyTo_add (hwf.fields field hfield) hlead htype hnew hfree⟩
  | remove column path leaf =>
    obtain ⟨-, parent, hparent, child, hmem, hchild⟩ := h
    obtain ⟨htyped, -⟩ := NestedField.wellFormed_iff.1 (hparent.wellFormed hwf)
    have hstruct : ∃ fields, parent.type = .struct fields := by
      cases htype : parent.type with
      | struct fields => exact ⟨fields, rfl⟩
      | list element => exact (hentry ⟨parent, hparent, htype ▸ rfl⟩).elim
      | map key value => exact (hentry ⟨parent, hparent, htype ▸ rfl⟩).elim
      | primitive name =>
        rw [htype, NestedField.TypedBy] at htyped
        rw [htyped] at hmem
        cases hmem
      | variant =>
        rw [htype, NestedField.TypedBy] at htyped
        rw [htyped] at hmem
        cases hmem
    obtain ⟨fields, htype⟩ := hstruct
    obtain ⟨field, hfield, hname, hlead⟩ := hparent
    exact ⟨field, hfield, hname,
      applyTo_remove (hwf.fields field hfield) hlead htype hmem hchild⟩
  | rename column path leaf newName =>
    obtain ⟨-, parent, fields, ⟨field, hfield, hname, hlead⟩, htype, hfree, child, hmem, hchild⟩ := h
    exact ⟨field, hfield, hname,
      applyTo_rename (hwf.fields field hfield) hlead htype hmem hchild hfree⟩

/-! ## The edited table -/

theorem FieldTable.applyEdit_eq (hwf : table.WellFormed) {edit : FieldEdit} {next : ℕ}
    {before after : List NestedField} {field : NestedField}
    (hsplit : table.fields = before ++ field :: after)
    (hname : field.name.fold = edit.column.fold) :
    table.applyEdit edit next = (edit.applyTo field).map fun field' =>
      { columns := before.map (fun other => (other.name, other.type)) ++
          (field.name, field'.type) :: after.map fun other => (other.name, other.type)
        fields := before ++ field' :: after
        nextColumnId := next } := by
  have hothers := hwf.names
  rw [hsplit] at hothers
  obtain ⟨hbefore, hafter⟩ := hothers.others hname
  have hkept : ∀ {others : List NestedField}, (∀ other ∈ others,
      other.name.ciEquals edit.column = false) →
      ∀ entry ∈ others.map fun other => ((other.name, other.type), other),
        edit.applyToColumn entry = .ok (id entry) := by
    intro others h entry hentry
    obtain ⟨other, hother, rfl⟩ := List.mem_map.1 hentry
    rw [FieldEdit.applyToColumn, if_neg (by simp [h other hother])]
    rfl
  have hentries : table.columns.zip table.fields =
      before.map (fun other => ((other.name, other.type), other)) ++
        ((field.name, field.type), field) ::
          after.map fun other => ((other.name, other.type), other) := by
    have hzip : (table.fields.map fun other => (other.name, other.type)).zip
        (table.fields.map id) = table.fields.map fun other => ((other.name, other.type), other) :=
      List.zip_map'
    rw [List.map_id] at hzip
    rw [hwf.columns, hzip, hsplit, List.map_append, List.map_cons]
  rw [applyEdit, hentries, mapM_around (hkept hbefore) (hkept hafter), FieldEdit.applyToColumn,
    if_pos (Text.ciEquals_iff.2 hname)]
  cases edit.applyTo field with
  | error e => rfl
  | ok field' =>
    change Except.ok _ = Except.ok _
    simp [Function.comp_def]

def FieldEdit.addedIds : FieldEdit → List ℕ
  | add _ _ newChild => newChild.ids
  | _ => []

theorem FieldEdit.Change.count_allIds {edit : FieldEdit} {children children' : List NestedField}
    (h : edit.Change children children') (id : ℕ) :
    (NestedField.allIds children').count id ≤
      (NestedField.allIds children).count id + edit.addedIds.count id := by
  cases edit with
  | add column path newChild =>
    obtain rfl : children' = _ := h
    rw [NestedField.allIds_append, List.count_append]
    simp [NestedField.allIds, addedIds]
  | remove column path leaf =>
    obtain ⟨before, child, after, rfl, -, rfl⟩ := h
    simp only [NestedField.allIds_append, NestedField.allIds, List.count_append]
    omega
  | rename column path leaf newName =>
    obtain ⟨before, child, after, rfl, -, rfl⟩ := h
    have hids : (child.renamed newName).ids = child.ids := by
      cases child
      rfl
    simp only [NestedField.allIds_append, NestedField.allIds, List.count_append, hids]
    omega

theorem FieldEdit.Admitted.addedIds {edit : FieldEdit} {next : ℕ} (h : edit.Admitted table next) :
    edit.addedIds.Nodup ∧ (∀ id ∈ edit.addedIds, table.nextColumnId ≤ id ∧ id < next) ∧
      table.nextColumnId ≤ next := by
  cases edit with
  | add column path newChild =>
    obtain ⟨parent, fields, -, -, -, -, count, rfl, hids⟩ := h
    rw [FieldEdit.addedIds, hids]
    refine ⟨List.nodup_range', fun id hid => ?_, Nat.le_add_right _ _⟩
    exact List.mem_range'_1.1 hid
  | remove column path leaf =>
    obtain ⟨rfl, -⟩ := h
    exact ⟨List.nodup_nil, nofun, le_rfl⟩
  | rename column path leaf newName =>
    obtain ⟨rfl, -⟩ := h
    exact ⟨List.nodup_nil, nofun, le_rfl⟩

theorem FieldEdit.ids_after {edit : FieldEdit} {next : ℕ} {ids : List ℕ} (hwf : table.WellFormed)
    (h : edit.Admitted table next) (hcount : ∀ id, ids.count id ≤
      (NestedField.allIds table.fields).count id + edit.addedIds.count id) :
    ids.Nodup ∧ ∀ id ∈ ids, id < next := by
  obtain ⟨hadded, hrange, hnext⟩ := h.addedIds
  constructor
  · rw [List.nodup_iff_count_le_one]
    intro id
    have hid := hcount id
    have hold := List.nodup_iff_count_le_one.1 hwf.ids id
    have hnew := List.nodup_iff_count_le_one.1 hadded id
    by_cases hmem : id ∈ edit.addedIds
    · -- a new id is not one of the table
      have hfresh : id ∉ NestedField.allIds table.fields := fun hin =>
        absurd (hwf.fresh id hin) (Nat.not_lt.2 (hrange id hmem).1)
      rw [List.count_eq_zero_of_not_mem hfresh] at hid
      omega
    · rw [List.count_eq_zero_of_not_mem hmem] at hid
      omega
  · intro id hid
    have hpos := List.count_pos_iff.2 hid
    have hle := hcount id
    by_cases hmem : id ∈ edit.addedIds
    · exact (hrange id hmem).2
    · rw [List.count_eq_zero_of_not_mem hmem] at hle
      have hin : id ∈ NestedField.allIds table.fields := List.count_pos_iff.1 (by omega)
      exact (hwf.fresh id hin).trans_le hnext

theorem FieldEdit.applyEdit_keeps {edit : FieldEdit} {next : ℕ} (hwf : table.WellFormed)
    (h : edit.Admitted table next) (hentry : ¬ edit.RemovesEntry table) :
    ∃ table', table.applyEdit edit next = .ok table' ∧ edit.Keeps table table' := by
  obtain ⟨field, hmem, hname, field', happly, hfield', hedits⟩ := applyTo_spec hwf h hentry
  obtain ⟨before, after, hsplit⟩ := List.append_of_mem hmem
  refine ⟨_, by rw [FieldTable.applyEdit_eq hwf hsplit hname, happly]; rfl, ?_,
    before, field, after, field', hsplit, hname, rfl, hedits⟩
  have hcount : ∀ id, (NestedField.allIds (before ++ field' :: after)).count id ≤
      (NestedField.allIds table.fields).count id + edit.addedIds.count id := by
    intro id
    have hfield := hedits.count_ids fun children children' hchange =>
      hchange.count_allIds id
    simp only [hsplit, NestedField.allIds_append, NestedField.allIds, List.count_append]
    omega
  have hids := ids_after hwf h hcount
  have hnames := hwf.names
  have hall := hwf.fields
  rw [hsplit] at hnames hall
  constructor
  · simp [hedits.same.name]
  · exact hnames.replace hedits.same.name
  · intro other hother
    rw [List.mem_append, List.mem_cons] at hother
    rcases hother with hother | rfl | hother
    · exact hall other (by simp [hother])
    · exact hfield'
    · exact hall other (by simp [hother])
  · exact hids.1
  · exact hids.2

theorem FieldEdit.applyEdit_entry {column leaf : Text} {path : List Text} {next : ℕ}
    (hwf : table.WellFormed) (h : (remove column path leaf).Admitted table next)
    (hentry : (remove column path leaf).RemovesEntry table) :
    ∃ e, table.applyEdit (remove column path leaf) next = .error e ∧
      e.type = if path = [] then .catalog else .internal := by
  obtain ⟨-, parent, hparent, child, hmem, hchild⟩ := h
  obtain ⟨parent', hparent', htype⟩ := hentry
  obtain rfl := hparent.unique hwf hparent'
  obtain ⟨field, hfield, hname, hlead⟩ := hparent
  obtain ⟨before, after, hsplit⟩ := List.append_of_mem hfield
  obtain ⟨e, happly, he⟩ :=
    applyTo_removeEntry column (hwf.fields field hfield) hlead htype hmem hchild
  have hname : field.name.fold = (remove column path leaf).column.fold := hname
  refine ⟨e, ?_, he⟩
  rw [FieldTable.applyEdit_eq hwf hsplit hname, happly]
  rfl

/-! ## The statements -/

/-- A statement that is admitted makes the edit that it asks for and keeps everything else, or it is
rejected because it removes the entry of a list or a map. -/
def FieldAlter.KeepsFields (env : FieldEnv) (table : FieldTable) (statement : FieldAlter) : Prop :=
  ∀ edit next, table.admit env statement = .ok (some (edit, next)) →
    statement.Asks table edit next ∧
      ((∃ table', table.applyEdit edit next = .ok table' ∧ edit.Keeps table table') ∨
        edit.RemovesEntry table ∧ ∃ e, table.applyEdit edit next = .error e ∧ e.type = .catalog)

/-- The statement removes the entry of a list or a map that is not a column itself. -/
def FieldAlter.DropsEntryBelowColumn (table : FieldTable) : FieldAlter → Prop
  | .remove column path leaf _ => path ≠ [] ∧ (FieldEdit.remove column path leaf).RemovesEntry table ∧
    ∃ node, table.tryGetFieldId column (path ++ [leaf]) = .ok (some node)
  | _ => False

theorem FieldAlter.keepsFields_iff (env : FieldEnv) {table : FieldTable} (hwf : table.WellFormed)
    (statement : FieldAlter) :
    statement.KeepsFields env table ↔ ¬ statement.DropsEntryBelowColumn table := by
  constructor
  · intro hkeeps hdrops
    cases statement with
    | add column path newField ifNotExists => exact hdrops
    | rename column path leaf newName => exact hdrops
    | remove column path leaf ifExists =>
      obtain ⟨hpath, hentry, hnode⟩ := hdrops
      have hadmit : table.admit env (.remove column path leaf ifExists) =
          .ok (some (.remove column path leaf, table.nextColumnId)) :=
        FieldTable.admitRemove_iff.2 ⟨⟨rfl, rfl⟩, hnode⟩
      obtain ⟨e, happly, he⟩ :=
        FieldEdit.applyEdit_entry hwf (FieldTable.admit_spec hwf hadmit).2 hentry
      rw [if_neg hpath] at he
      obtain ⟨-, ⟨table', hok, -⟩ | ⟨-, e', herror, hcatalog⟩⟩ := hkeeps _ _ hadmit
      · rw [happly] at hok
        cases hok
      · rw [happly] at herror
        cases herror
        rw [he] at hcatalog
        cases hcatalog
  · intro hdrops edit next hadmit
    obtain ⟨hasks, hadmitted⟩ := FieldTable.admit_spec hwf hadmit
    refine ⟨hasks, ?_⟩
    by_cases hentry : edit.RemovesEntry table
    · right
      cases edit with
      | add column path newChild => exact hentry.elim
      | rename column path leaf newName => exact hentry.elim
      | remove column path leaf =>
        obtain ⟨e, happly, he⟩ := FieldEdit.applyEdit_entry hwf hadmitted hentry
        refine ⟨hentry, e, happly, ?_⟩
        cases statement with
        | add column' path' newField ifNotExists =>
          obtain ⟨newChild, hedit, -⟩ := hasks
          cases hedit
        | rename column' path' leaf' newName => cases hasks
        | remove column' path' leaf' ifExists =>
          cases hasks
          by_cases hpath : path = []
          · rw [he, if_pos hpath]
          · exact (hdrops ⟨hpath, hentry, (FieldTable.admitRemove_iff.1 hadmit).2⟩).elim
    · exact .inl (FieldEdit.applyEdit_keeps hwf hadmitted hentry)

/-- An environment without initial values and statistics options. -/
def plainFieldEnv : FieldEnv where
  typeText _ := []
  initialValue _ _ := .ok default
  validateAdded _ _ := .ok ()

/-- A table `t (s STRUCT(m MAP(VARCHAR, INTEGER), i INTEGER))`. -/
def mapBelowStruct : FieldTable :=
  let varchar : NestedType := .primitive "VARCHAR".toList
  let integer : NestedType := .primitive "INTEGER".toList
  let data (id : ℕ) : FieldData := ⟨id, default, none⟩
  let m : NestedField := .mk (data 2) "m".toList (.map varchar integer)
    [.mk (data 3) "key".toList varchar [], .mk (data 4) "value".toList integer []]
  let s : NestedType := .struct [("m".toList, .map varchar integer), ("i".toList, integer)]
  { columns := [("s".toList, s)]
    fields := [.mk (data 1) "s".toList s [m, .mk (data 5) "i".toList integer []]]
    nextColumnId := 6 }

theorem mapBelowStruct_wellFormed : mapBelowStruct.WellFormed where
  columns := rfl
  names := List.nodup_singleton _
  fields := by
    intro field hfield
    obtain rfl := List.mem_singleton.1 hfield
    refine ⟨rfl, by unfold NestedField.DistinctNames; decide, ⟨⟨_, _, rfl, rfl, rfl⟩, ?_, ?_⟩, ?_⟩
    · unfold NestedField.DistinctNames
      decide
    · exact ⟨⟨rfl, List.nodup_nil, trivial⟩, ⟨rfl, List.nodup_nil, trivial⟩, trivial⟩
    · exact ⟨⟨rfl, List.nodup_nil, trivial⟩, trivial⟩
  ids := by decide
  fresh := by decide

theorem FieldAlter.keepsFields_iff_rename :
    (FieldAlter.rename "s".toList [] "i".toList "n".toList).KeepsFields plainFieldEnv
      mapBelowStruct :=
  (keepsFields_iff plainFieldEnv mapBelowStruct_wellFormed _).2 id

/-- `ALTER TABLE t DROP COLUMN s.m.key` reads past the end of the new children. -/
theorem FieldAlter.not_keepsFields_dropKey : mapBelowStruct.WellFormed ∧
    ¬ (FieldAlter.remove "s".toList ["m".toList] "key".toList false).KeepsFields plainFieldEnv
      mapBelowStruct := by
  refine ⟨mapBelowStruct_wellFormed, fun h => ?_⟩
  have happly : mapBelowStruct.applyEdit (.remove "s".toList ["m".toList] "key".toList) 6 =
      .error ⟨.internal, "Attempted to access index 1 within vector of size 1"⟩ := rfl
  obtain ⟨-, ⟨table', hok, -⟩ | ⟨-, e, herror, hcatalog⟩⟩ := h _ _ rfl
  · cases happly.symm.trans hok
  · cases happly.symm.trans herror
    cases hcatalog

end DuckLake
