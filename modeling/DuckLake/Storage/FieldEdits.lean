import DuckLake.Storage.FieldTrees
import Mathlib.Data.List.Nodup

/-!
# What the edits of field trees keep

A field tree is well formed when the type of every field is the one that its children give and no two
children have the same name. `Edits` relates a tree to the one after an edit: it differs at the end of
the path only. An edit that the statement admits gives such a tree, except that it does not always
reject the removal of the element of a list or of the key or value of a map.
-/

namespace DuckLake

namespace NestedField

/-! ## Well-formed trees -/

/-- The type is built from the children. -/
def TypedBy (children : List NestedField) : NestedType → Prop
  | .primitive _ | .variant => children = []
  | .list element => ∃ child, children = [child] ∧ element = child.type
  | .struct fields => fields = children.map fun child => (child.name, child.type)
  | .map key value => ∃ keyChild valueChild, children = [keyChild, valueChild] ∧
      key = keyChild.type ∧ value = valueChild.type

def DistinctNames (children : List NestedField) : Prop :=
  (children.map fun child => child.name.fold).Nodup

mutual

def WellFormed : NestedField → Prop
  | mk _ _ type children => TypedBy children type ∧ DistinctNames children ∧ AllWellFormed children

def AllWellFormed : List NestedField → Prop
  | [] => True
  | child :: children => child.WellFormed ∧ AllWellFormed children

end

mutual

/-- The ids of the field and of those below it. -/
def ids : NestedField → List ℕ
  | mk data _ _ children => data.id :: allIds children

def allIds : List NestedField → List ℕ
  | [] => []
  | child :: children => child.ids ++ allIds children

end

theorem allWellFormed_iff {children : List NestedField} :
    AllWellFormed children ↔ ∀ child ∈ children, child.WellFormed := by
  induction children with
  | nil => simp [AllWellFormed]
  | cons child children ih => rw [AllWellFormed, ih, List.forall_mem_cons]

theorem allIds_append (as bs : List NestedField) : allIds (as ++ bs) = allIds as ++ allIds bs := by
  induction as with
  | nil => rfl
  | cons a as ih => rw [List.cons_append, allIds, allIds, ih, List.append_assoc]

theorem wellFormed_iff {field : NestedField} :
    field.WellFormed ↔ TypedBy field.children field.type ∧ DistinctNames field.children ∧
      ∀ child ∈ field.children, child.WellFormed := by
  cases field
  rw [WellFormed, allWellFormed_iff]
  rfl

/-! ## Rebuilding a field -/

/-- The number of children that a type allows. -/
def FitsType (children : List NestedField) : NestedType → Prop
  | .primitive _ | .variant => False
  | .list _ => children.length = 1
  | .struct _ => True
  | .map _ _ => children.length = 2

/-- The constructor of the type. -/
def SameKind : NestedType → NestedType → Prop
  | .primitive a, .primitive b => a = b
  | .variant, .variant | .list _, .list _ | .struct _, .struct _ | .map _ _, .map _ _ => True
  | _, _ => False

/-- The field itself is the same, whatever its children are. -/
structure SameNode (field field' : NestedField) : Prop where
  columnData : field'.columnData = field.columnData
  name : field'.name = field.name
  kind : SameKind field.type field'.type

theorem checkChildName_foldlM {column : Text} {names : List Text} {children : List NestedField}
    (h : ((names.map Text.fold) ++ children.map fun child => child.name.fold).Nodup) :
    ∃ names', children.foldlM (checkChildName column) names = .ok names' := by
  induction children generalizing names with
  | nil => exact ⟨names, rfl⟩
  | cons child children ih =>
    have hnew : names.any child.name.ciEquals = false := by
      rw [← Bool.not_eq_true, List.any_eq_true]
      rintro ⟨name, hname, heq⟩
      rw [Text.ciEquals_iff] at heq
      exact (List.nodup_append.1 h).2.2 _ (List.mem_map_of_mem hname) _ List.mem_cons_self heq.symm
    rw [List.foldlM_cons, checkChildName, hnew]
    refine ih ?_
    simpa using h

theorem makeField_ok {data : FieldData} {name : Text} {type : NestedType}
    {children : List NestedField} (h : DistinctNames children) :
    makeField data name type children = .ok (.mk data name type children) := by
  obtain ⟨names, hnames⟩ := @checkChildName_foldlM name [] _ h
  rw [makeField, hnames]
  rfl

theorem getNewNestedType_ok {type : NestedType} {children : List NestedField}
    (h : FitsType children type) :
    ∃ type', getNewNestedType type children = .ok type' ∧ TypedBy children type' ∧
      SameKind type type' := by
  cases type with
  | primitive name => exact h.elim
  | variant => exact h.elim
  | list element =>
    obtain ⟨child, rfl⟩ := List.length_eq_one_iff.1 h
    exact ⟨.list child.type, rfl, ⟨child, rfl, rfl⟩, trivial⟩
  | struct fields => exact ⟨getStructType children, rfl, rfl, trivial⟩
  | map key value =>
    obtain ⟨keyChild, valueChild, rfl⟩ := List.length_eq_two.1 h
    exact ⟨.map keyChild.type valueChild.type, rfl, ⟨keyChild, valueChild, rfl, rfl, rfl⟩, trivial⟩

theorem rebuild_ok {field : NestedField} {newChildren : List NestedField}
    (hfits : FitsType newChildren field.type) (hnames : DistinctNames newChildren)
    (hwf : ∀ child ∈ newChildren, child.WellFormed) :
    ∃ field', field.rebuild newChildren = .ok field' ∧ field'.WellFormed ∧
      field'.children = newChildren ∧ SameNode field field' := by
  obtain ⟨type', htype, htyped, hkind⟩ := getNewNestedType_ok hfits
  refine ⟨.mk field.columnData field.name type' newChildren, ?_, wellFormed_iff.2
    ⟨htyped, hnames, hwf⟩, rfl, ⟨rfl, rfl, hkind⟩⟩
  rw [rebuild, htype]
  exact makeField_ok hnames

/-! ## Edits at the end of a path -/

/-- The fields differ at the end of the path only, where `change` relates the children before and
after. The fields on the path are the same but for their types. -/
inductive Edits (change : List NestedField → List NestedField → Prop) :
    List Text → NestedField → NestedField → Prop where
  | here {field field' : NestedField} (same : SameNode field field')
    (changed : change field.children field'.children) : Edits change [] field field'
  | child {field field' child child' : NestedField} {name : Text} {path : List Text}
    {before after : List NestedField} (same : SameNode field field')
    (children : field.children = before ++ child :: after)
    (children' : field'.children = before ++ child' :: after)
    (childName : child.name.fold = name.fold) (edits : Edits change path child child') :
    Edits change (name :: path) field field'

theorem Edits.same {change : List NestedField → List NestedField → Prop} {path : List Text}
    {field field' : NestedField} (h : Edits change path field field') : SameNode field field' := by
  cases h <;> assumption

theorem ciEquals_false_of_ne {a b : Text} (h : a.fold ≠ b.fold) : a.ciEquals b = false := by
  rw [← Bool.not_eq_true, Text.ciEquals_iff]
  exact h

/-- No other child has the name. -/
theorem DistinctNames.others {before after : List NestedField} {child : NestedField} {name : Text}
    (h : DistinctNames (before ++ child :: after)) (hname : child.name.fold = name.fold) :
    (∀ other ∈ before, other.name.ciEquals name = false) ∧
      ∀ other ∈ after, other.name.ciEquals name = false := by
  rw [DistinctNames, List.map_append, List.map_cons, List.nodup_append, List.nodup_cons] at h
  obtain ⟨-, ⟨hafter, -⟩, hbefore⟩ := h
  constructor
  · intro other hother
    refine ciEquals_false_of_ne fun heq => ?_
    exact hbefore _ (List.mem_map_of_mem hother) _ List.mem_cons_self (heq.trans hname.symm)
  · intro other hother
    refine ciEquals_false_of_ne fun heq => hafter ?_
    rw [hname, ← heq]
    exact List.mem_map_of_mem hother

theorem editFirst_eq {name : Text} {edit : NestedField → Except Exception NestedField}
    {before after : List NestedField} {child : NestedField}
    (hbefore : ∀ other ∈ before, other.name.ciEquals name = false)
    (hchild : child.name.ciEquals name = true) :
    editFirst name edit (before ++ child :: after) =
      (edit child).map fun edited => some (before ++ edited :: after) := by
  induction before with
  | nil =>
    rw [List.nil_append, editFirst, if_pos hchild]
    cases edit child <;> rfl
  | cons other before ih =>
    obtain ⟨hother, hbefore⟩ := List.forall_mem_cons.1 hbefore
    rw [List.cons_append, editFirst, if_neg (by simp [hother]), ih hbefore]
    cases edit child <;> rfl

theorem editAll_eq {name : Text} {edit : NestedField → Except Exception (List NestedField)}
    {before after : List NestedField} {child : NestedField}
    (hbefore : ∀ other ∈ before, other.name.ciEquals name = false)
    (hafter : ∀ other ∈ after, other.name.ciEquals name = false)
    (hchild : child.name.ciEquals name = true) :
    editAll name edit (before ++ child :: after) =
      (edit child).map fun edited => before ++ (edited ++ after) := by
  have hothers : ∀ {others : List NestedField},
      (∀ other ∈ others, other.name.ciEquals name = false) → ∀ other ∈ others,
      (if other.name.ciEquals name then edit other else .ok [other]) = .ok [other] := by
    intro others h other hother
    rw [if_neg (by simp [h other hother])]
  have hflatten : ∀ edited, (before.map (fun other => [other]) ++
      edited :: after.map fun other => [other]).flatten = before ++ (edited ++ after) := by
    intro edited
    rw [List.flatten_append, List.flatten_cons, ← List.flatMap_def, ← List.flatMap_def,
      List.flatMap_singleton', List.flatMap_singleton']
  rw [editAll, mapM_around (hothers hbefore) (hothers hafter), if_pos hchild]
  cases edit child with
  | error e => rfl
  | ok edited =>
    have hany : (before ++ child :: after).any (·.name.ciEquals name) = true := by simp [hchild]
    change (if _ then _ else _) = _
    rw [if_pos hany, hflatten]
    rfl

/-! ## Descending along a path -/

/-- The path leads from the field to the node. -/
inductive LeadsTo (node : NestedField) : List Text → NestedField → Prop where
  | here : LeadsTo node [] node
  | child {field child : NestedField} {name : Text} {path : List Text}
    (mem : child ∈ field.children) (childName : child.name.fold = name.fold)
    (rest : LeadsTo node path child) : LeadsTo node (name :: path) field

theorem getByNames_leadsTo {columnPath path : List Text} {field node : NestedField}
    (h : field.getByNames columnPath path = .ok (some node)) : LeadsTo node path field := by
  induction path generalizing field with
  | nil =>
    obtain ⟨data, name, type, children⟩ := field
    cases type <;> cases h <;> exact .here
  | cons name path ih =>
    obtain ⟨data, fieldName, type, children⟩ := field
    have hchild : ∃ child ∈ children, child.name.fold = name.fold ∧
        child.getByNames columnPath path = .ok (some node) := by
      cases hfind : children.find? (·.name.ciEquals name) with
      | none => cases type <;> simp [getByNames, hfind, invalidInputException] at h
      | some child =>
        have hname : child.name.ciEquals name = true := by simpa using List.find?_some hfind
        refine ⟨child, List.mem_of_find?_eq_some hfind, Text.ciEquals_iff.1 hname, ?_⟩
        cases type <;> first | simpa [getByNames, hfind] using h | cases h
    obtain ⟨child, hmem, hname, hrest⟩ := hchild
    exact .child hmem hname (ih hrest)

theorem LeadsTo.append {path : List Text} {leaf : Text} {field node : NestedField}
    (h : LeadsTo node (path ++ [leaf]) field) :
    ∃ parent, LeadsTo parent path field ∧ node ∈ parent.children ∧
      node.name.fold = leaf.fold := by
  induction path generalizing field with
  | nil =>
    cases h with
    | child hmem hname hrest =>
      cases hrest
      exact ⟨field, .here, hmem, hname⟩
  | cons name path ih =>
    cases h with
    | child hmem hname hrest =>
      obtain ⟨parent, hparent, hnode⟩ := ih hrest
      exact ⟨parent, .child hmem hname hparent, hnode⟩

/-- The paths of a well-formed tree lead to one node. -/
theorem LeadsTo.unique {path : List Text} {field node node' : NestedField} (hwf : field.WellFormed)
    (h : LeadsTo node path field) (h' : LeadsTo node' path field) : node = node' := by
  induction h with
  | here =>
    cases h'
    rfl
  | child hmem hname hrest ih =>
    cases h' with
    | child hmem' hname' hrest' =>
      obtain ⟨-, hdistinct, hchildren⟩ := wellFormed_iff.1 hwf
      obtain rfl := List.inj_on_of_nodup_map hdistinct hmem hmem' (hname.trans hname'.symm)
      exact ih (hchildren _ hmem) hrest'

theorem LeadsTo.wellFormed {path : List Text} {field node : NestedField}
    (h : LeadsTo node path field) (hwf : field.WellFormed) : node.WellFormed := by
  induction h with
  | here => exact hwf
  | child hmem _ _ ih => exact ih ((wellFormed_iff.1 hwf).2.2 _ hmem)

/-! ## What the edits compute -/

/-- A replaced child leaves the number of children as it is. -/
theorem FitsType.replace {field : NestedField} {before after : List NestedField}
    {child : NestedField} (child' : NestedField) (hwf : field.WellFormed)
    (hchildren : field.children = before ++ child :: after) :
    FitsType (before ++ child' :: after) field.type := by
  have hlength : (before ++ child' :: after).length = field.children.length := by
    simp [hchildren]
  obtain ⟨htyped, -, -⟩ := wellFormed_iff.1 hwf
  cases htype : field.type with
  | primitive name =>
    rw [htype] at htyped
    simp [TypedBy, hchildren] at htyped
  | variant =>
    rw [htype] at htyped
    simp [TypedBy, hchildren] at htyped
  | list element =>
    rw [htype] at htyped
    obtain ⟨entry, hentry, -⟩ := htyped
    rw [FitsType, hlength, hentry, List.length_singleton]
  | struct fields => trivial
  | map key value =>
    rw [htype] at htyped
    obtain ⟨keyChild, valueChild, hentries, -⟩ := htyped
    rw [FitsType, hlength, hentries]
    rfl

theorem DistinctNames.replace {before after : List NestedField} {child child' : NestedField}
    (h : DistinctNames (before ++ child :: after)) (hname : child'.name = child.name) :
    DistinctNames (before ++ child' :: after) := by
  simpa [DistinctNames, hname] using h

/-- An edit that rebuilds the fields on the path succeeds when its end does. -/
theorem edits_of_leadsTo (edit : List Text → NestedField → Except Exception NestedField)
    {change : List NestedField → List NestedField → Prop}
    (hstep : ∀ {name path field child before after}, DistinctNames field.children →
      field.children = before ++ child :: after → child.name.fold = name.fold →
      edit (name :: path) field =
        edit path child >>= fun child' => field.rebuild (before ++ child' :: after))
    {path : List Text} {field node node' : NestedField} (hlead : LeadsTo node path field)
    (hwf : field.WellFormed) (hend : edit [] node = .ok node') (hwf' : node'.WellFormed)
    (hsame : SameNode node node') (hchange : change node.children node'.children) :
    ∃ field', edit path field = .ok field' ∧ field'.WellFormed ∧ Edits change path field field' := by
  induction hlead with
  | here => exact ⟨node', hend, hwf', .here hsame hchange⟩
  | @child field child name path hmem hname hrest ih =>
    obtain ⟨-, hdistinct, hchildren⟩ := wellFormed_iff.1 hwf
    obtain ⟨child', hedit, hchild', hedits⟩ := ih (hchildren child hmem)
    obtain ⟨before, after, hsplit⟩ := List.append_of_mem hmem
    have hdistinct' : DistinctNames (before ++ child' :: after) :=
      (hsplit ▸ hdistinct).replace hedits.same.name
    have hall : ∀ other ∈ before ++ child' :: after, other.WellFormed := by
      intro other hother
      rw [List.mem_append, List.mem_cons] at hother
      rcases hother with hother | rfl | hother
      · exact hchildren other (by simp [hsplit, hother])
      · exact hchild'
      · exact hchildren other (by simp [hsplit, hother])
    obtain ⟨field', hrebuild, hfield', hnew, hnode⟩ :=
      rebuild_ok (FitsType.replace child' hwf hsplit) hdistinct' hall
    refine ⟨field', ?_, hfield', .child hnode hsplit hnew hname hedits⟩
    rw [hstep hdistinct hsplit hname, hedit]
    exact hrebuild

/-- It fails when its end does. -/
theorem error_of_leadsTo (edit : List Text → NestedField → Except Exception NestedField)
    (hstep : ∀ {name path field child before after}, DistinctNames field.children →
      field.children = before ++ child :: after → child.name.fold = name.fold →
      edit (name :: path) field =
        edit path child >>= fun child' => field.rebuild (before ++ child' :: after))
    {path : List Text} {field node : NestedField} {e : Exception} (hlead : LeadsTo node path field)
    (hwf : field.WellFormed) (hend : edit [] node = .error e) : edit path field = .error e := by
  induction hlead with
  | here => exact hend
  | @child field child name path hmem hname hrest ih =>
    obtain ⟨-, hdistinct, hchildren⟩ := wellFormed_iff.1 hwf
    obtain ⟨before, after, hsplit⟩ := List.append_of_mem hmem
    rw [hstep hdistinct hsplit hname, ih (hchildren child hmem)]
    rfl

section steps

variable {name : Text} {path : List Text} {field child : NestedField}
  {before after : List NestedField}

theorem addField_step {newChild : NestedField} (hdistinct : DistinctNames field.children)
    (hsplit : field.children = before ++ child :: after) (hname : child.name.fold = name.fold) :
    addField newChild (name :: path) field =
      addField newChild path child >>= fun child' => field.rebuild (before ++ child' :: after) := by
  obtain ⟨hbefore, -⟩ := (hsplit ▸ hdistinct).others hname
  rw [addField, hsplit, editFirst_eq hbefore (Text.ciEquals_iff.2 hname)]
  cases addField newChild path child <;> rfl

theorem removeField_step {pathSize : ℕ} {next : Text} (hsize : pathSize ≠ 2)
    (hdistinct : DistinctNames field.children)
    (hsplit : field.children = before ++ child :: after) (hname : child.name.fold = name.fold) :
    removeField pathSize (name :: (path ++ [next])) field =
      removeField pathSize (path ++ [next]) child >>=
        fun child' => field.rebuild (before ++ child' :: after) := by
  obtain ⟨hbefore, hafter⟩ := (hsplit ▸ hdistinct).others hname
  rw [removeField, hsplit, editAll_eq hbefore hafter (Text.ciEquals_iff.2 hname),
    if_neg (by simp [hsize]), if_neg (by simp)]
  cases removeField pathSize (path ++ [next]) child <;> rfl

theorem renameField_step {pathSize : ℕ} {newName next : Text}
    (hdistinct : DistinctNames field.children)
    (hsplit : field.children = before ++ child :: after) (hname : child.name.fold = name.fold) :
    renameField pathSize newName (name :: (path ++ [next])) field =
      renameField pathSize newName (path ++ [next]) child >>=
        fun child' => field.rebuild (before ++ child' :: after) := by
  obtain ⟨hbefore, hafter⟩ := (hsplit ▸ hdistinct).others hname
  rw [renameField, hsplit, editAll_eq hbefore hafter (Text.ciEquals_iff.2 hname),
    if_neg (by simp)]
  cases renameField pathSize newName (path ++ [next]) child <;> rfl

end steps

section ends

variable {parent child : NestedField} {fields : List (Text × NestedType)} {leaf : Text}

theorem nameExists_iff (hwf : parent.WellFormed) (htype : parent.type = .struct fields)
    {name : Text} :
    fields.any (·.1.ciEquals name) = true ↔ ∃ child ∈ parent.children,
      child.name.fold = name.fold := by
  obtain ⟨htyped, -, -⟩ := wellFormed_iff.1 hwf
  rw [htype] at htyped
  obtain rfl : fields = _ := htyped
  simp [List.any_eq_true, Text.ciEquals_iff]

theorem fitsType_struct (htype : parent.type = .struct fields) (children : List NestedField) :
    FitsType children parent.type := by
  rw [htype]
  trivial

theorem addField_end {newChild : NestedField} (hwf : parent.WellFormed)
    (htype : parent.type = .struct fields) (hnew : newChild.WellFormed)
    (hfree : fields.any (·.1.ciEquals newChild.name) = false) :
    ∃ parent', addField newChild [] parent = .ok parent' ∧ parent'.WellFormed ∧
      SameNode parent parent' ∧ parent'.children = parent.children ++ [newChild] := by
  obtain ⟨-, hdistinct, hchildren⟩ := wellFormed_iff.1 hwf
  have hdistinct' : DistinctNames (parent.children ++ [newChild]) := by
    rw [DistinctNames, List.map_append, List.map_singleton]
    refine List.Nodup.append hdistinct (List.nodup_singleton _) ?_
    rw [List.disjoint_singleton]
    intro hmem
    obtain ⟨child, hchild, hname⟩ := List.mem_map.1 hmem
    have hexists := (nameExists_iff hwf htype).2 ⟨child, hchild, hname⟩
    rw [hfree] at hexists
    cases hexists
  have hall : ∀ child ∈ parent.children ++ [newChild], child.WellFormed := by
    intro child hchild
    rcases List.mem_append.1 hchild with hchild | hchild
    · exact hchildren child hchild
    · exact List.mem_singleton.1 hchild ▸ hnew
  obtain ⟨parent', hrebuild, hparent', hnew', hsame⟩ :=
    rebuild_ok (fitsType_struct htype _) hdistinct' hall
  exact ⟨parent', hrebuild, hparent', hsame, hnew'⟩

theorem removeField_end (pathSize : ℕ) {before after : List NestedField}
    (hwf : parent.WellFormed) (htype : parent.type = .struct fields)
    (hsplit : parent.children = before ++ child :: after) (hname : child.name.fold = leaf.fold) :
    ∃ parent', removeField pathSize [leaf] parent = .ok parent' ∧ parent'.WellFormed ∧
      SameNode parent parent' ∧ parent'.children = before ++ after := by
  obtain ⟨-, hdistinct, hchildren⟩ := wellFormed_iff.1 hwf
  obtain ⟨hbefore, hafter⟩ := (hsplit ▸ hdistinct).others hname
  have hsub : (before ++ after).Sublist parent.children := by
    rw [hsplit]
    exact (List.sublist_cons_self _ _).append_left _
  obtain ⟨parent', hrebuild, hparent', hnew, hsame⟩ :=
    rebuild_ok (fitsType_struct htype (before ++ after)) (hdistinct.sublist (hsub.map _))
      fun other hother => hchildren other (hsub.subset hother)
  refine ⟨parent', ?_, hparent', hsame, hnew⟩
  rw [removeField, hsplit, editAll_eq hbefore hafter (Text.ciEquals_iff.2 hname),
    if_neg (by simp [htype, isMapOrList])]
  exact hrebuild

/-- The guard for the entries of lists and maps covers the paths of length two. -/
theorem removeField_entry (pathSize : ℕ) (hwf : parent.WellFormed)
    (htype : isMapOrList parent.type = true) (hmem : child ∈ parent.children)
    (hname : child.name.fold = leaf.fold) :
    ∃ e, removeField pathSize [leaf] parent = .error e ∧
      e.type = if pathSize = 2 then .catalog else .internal := by
  obtain ⟨htyped, hdistinct, -⟩ := wellFormed_iff.1 hwf
  obtain ⟨before, after, hsplit⟩ := List.append_of_mem hmem
  obtain ⟨hbefore, hafter⟩ := (hsplit ▸ hdistinct).others hname
  rw [removeField, hsplit, editAll_eq hbefore hafter (Text.ciEquals_iff.2 hname)]
  by_cases hsize : pathSize = 2
  · rw [if_pos ⟨hsize, htype⟩, if_pos hsize]
    exact ⟨_, rfl, rfl⟩
  rw [if_neg fun h => hsize h.1, if_neg hsize]
  change ∃ e, rebuild parent (before ++ after) = .error e ∧ e.type = _
  rw [rebuild]
  rw [hsplit] at htyped
  cases hparent : parent.type with
  | primitive name => simp [hparent, isMapOrList] at htype
  | variant => simp [hparent, isMapOrList] at htype
  | struct fields => simp [hparent, isMapOrList] at htype
  | list element =>
    rw [hparent] at htyped
    obtain ⟨entry, hentry, -⟩ := htyped
    have hnil : before ++ after = [] := by
      rw [← List.length_eq_zero_iff]
      have hlength := congrArg List.length hentry
      simp only [List.length_append, List.length_cons, List.length_nil] at hlength ⊢
      omega
    rw [hnil]
    exact ⟨_, rfl, rfl⟩
  | map key value =>
    rw [hparent] at htyped
    obtain ⟨keyChild, valueChild, hentries, -⟩ := htyped
    obtain ⟨entry, hentry⟩ : ∃ entry, before ++ after = [entry] := by
      rw [← List.length_eq_one_iff]
      have hlength := congrArg List.length hentries
      simp only [List.length_append, List.length_cons, List.length_nil] at hlength ⊢
      omega
    rw [hentry]
    exact ⟨_, rfl, rfl⟩

/-- The field under its new name. -/
def renamed (field : NestedField) (newName : Text) : NestedField :=
  .mk field.columnData newName field.type field.children

theorem renamed_wellFormed {field : NestedField} (h : field.WellFormed) (newName : Text) :
    (field.renamed newName).WellFormed := by
  cases field
  exact h

theorem DistinctNames.rename {before after : List NestedField} {newName : Text}
    (h : DistinctNames (before ++ child :: after))
    (hfree : ∀ other ∈ before ++ child :: after, other.name.fold ≠ newName.fold) :
    DistinctNames (before ++ child.renamed newName :: after) := by
  rw [DistinctNames, List.map_append, List.map_cons, List.nodup_middle] at h ⊢
  refine List.nodup_cons.2 ⟨?_, (List.nodup_cons.1 h).2⟩
  rw [← List.map_append]
  intro hmem
  obtain ⟨other, hother, hname⟩ := List.mem_map.1 hmem
  exact hfree other (by grind) hname

theorem renameField_end (pathSize : ℕ) {newName : Text} {before after : List NestedField}
    (hwf : parent.WellFormed) (htype : parent.type = .struct fields)
    (hsplit : parent.children = before ++ child :: after) (hname : child.name.fold = leaf.fold)
    (hfree : fields.any (·.1.ciEquals newName) = false) :
    ∃ parent', renameField pathSize newName [leaf] parent = .ok parent' ∧ parent'.WellFormed ∧
      SameNode parent parent' ∧ parent'.children = before ++ child.renamed newName :: after := by
  obtain ⟨-, hdistinct, hchildren⟩ := wellFormed_iff.1 hwf
  rw [hsplit] at hdistinct hchildren
  obtain ⟨hbefore, hafter⟩ := hdistinct.others hname
  have hchild : child.WellFormed := hchildren child (by simp)
  have hdistinct' : DistinctNames (before ++ child.renamed newName :: after) := by
    refine hdistinct.rename fun other hother heq => ?_
    have hexists := (nameExists_iff hwf htype).2 ⟨other, hsplit ▸ hother, heq⟩
    rw [hfree] at hexists
    cases hexists
  have hall : ∀ other ∈ before ++ child.renamed newName :: after, other.WellFormed := by
    intro other hother
    rw [List.mem_append, List.mem_cons] at hother
    rcases hother with hother | rfl | hother
    · exact hchildren other (by simp [hother])
    · exact renamed_wellFormed hchild newName
    · exact hchildren other (by simp [hother])
  obtain ⟨parent', hrebuild, hparent', hnew, hsame⟩ :=
    rebuild_ok (fitsType_struct htype _) hdistinct' hall
  refine ⟨parent', ?_, hparent', hsame, hnew⟩
  rw [renameField, hsplit, editAll_eq hbefore hafter (Text.ciEquals_iff.2 hname),
    if_pos List.isEmpty_nil, makeField_ok (wellFormed_iff.1 hchild).2.1]
  exact hrebuild

end ends

/-! ## Field ids -/

/-- No id occurs more often, except for those that the change adds at the end of the path. -/
theorem Edits.count_ids {change : List NestedField → List NestedField → Prop} {added : List ℕ}
    {id : ℕ} (hchange : ∀ children children', change children children' →
      (allIds children').count id ≤ (allIds children).count id + added.count id)
    {path : List Text} {field field' : NestedField} (h : Edits change path field field') :
    field'.ids.count id ≤ field.ids.count id + added.count id := by
  have hids : ∀ field : NestedField,
      field.ids.count id = (allIds field.children).count id +
        if field.columnData.id == id then 1 else 0 := by
    rintro ⟨data, name, type, children⟩
    rw [ids, List.count_cons]
    rfl
  induction h with
  | here same changed =>
    have hcount := hchange _ _ changed
    rw [hids, hids, same.columnData]
    omega
  | child same children children' childName edits ih =>
    rw [hids, hids, same.columnData, children, children']
    simp only [allIds_append, allIds, List.count_append]
    omega

end NestedField

end DuckLake
