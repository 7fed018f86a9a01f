import DuckLake.Common.Util
import DuckLake.Lib.Guard
import DuckLake.Storage.TableEntry

/-!
# Field trees and their edits

The fields of a nested column, each with its id, its name and its type, and the operations that add,
remove and rename a field below a path. They rebuild the fields on the path from the leaf upwards,
with the type that belongs to the new children, and copy everything else.
-/

namespace DuckLake

/-! ## Types and fields -/

inductive NestedType where
  | primitive (name : Text)
  | variant
  | list (element : NestedType)
  | struct (fields : List (Text × NestedType))
  | map (key value : NestedType)

structure FieldData where
  id : ℕ
  initialDefault : Value
  defaultValue : Option DefaultExpression
deriving DecidableEq

/-- `DuckLakeFieldId` -/
inductive NestedField where
  | mk (columnData : FieldData) (name : Text) (type : NestedType) (children : List NestedField)

namespace NestedField

def columnData : NestedField → FieldData
  | mk data _ _ _ => data

def name : NestedField → Text
  | mk _ name _ _ => name

def type : NestedField → NestedType
  | mk _ _ type _ => type

def children : NestedField → List NestedField
  | mk _ _ _ children => children

end NestedField

def checkChildName (column : Text) (names : List Text) (child : NestedField) :
    Except Exception (List Text) :=
  if names.any child.name.ciEquals then
    invalidInputException ("Duplicate child name \"" ++ child.name ++ "\" found in column \"" ++
      column ++ "\"")
  else .ok (names ++ [child.name])

/-- The constructor of `DuckLakeFieldId`. -/
def makeField (data : FieldData) (name : Text) (type : NestedType) (children : List NestedField) :
    Except Exception NestedField := do
  let _ ← children.foldlM (checkChildName name) []
  return .mk data name type children

/-- An element of a vector. -/
def fieldAt (fields : List NestedField) (index : ℕ) : Except Exception NestedField :=
  match fields[index]? with
  | some field => .ok field
  | none => internalException ("Attempted to access index " ++ Text.ofNat index ++
      " within vector of size " ++ Text.ofNat fields.length)

def getStructType (newChildren : List NestedField) : NestedType :=
  .struct (newChildren.map fun child => (child.name, child.type))

def getNewNestedType (type : NestedType) (newChildren : List NestedField) :
    Except Exception NestedType :=
  match type with
  | .list _ => do
    let element ← fieldAt newChildren 0
    return .list element.type
  | .struct _ => .ok (getStructType newChildren)
  | .map _ _ => do
    let key ← fieldAt newChildren 0
    let value ← fieldAt newChildren 1
    return .map key.type value.type
  | _ => internalException "Unsupported type for AddField"

/-! ## The edits -/

namespace NestedField

/-- The end of each edit: the field with new children. -/
def rebuild (field : NestedField) (newChildren : List NestedField) :
    Except Exception NestedField := do
  let newType ← getNewNestedType field.type newChildren
  makeField field.columnData field.name newType newChildren

def childNotFound {α : Type} : Except Exception α :=
  internalException "DuckLakeFieldId::AddField - child not found in struct path"

/-- Edits the first child with the name; `none` if there is none. -/
def editFirst (name : Text) (edit : NestedField → Except Exception NestedField) :
    List NestedField → Except Exception (Option (List NestedField))
  | [] => .ok none
  | child :: children =>
    if child.name.ciEquals name then do
      let edited ← edit child
      return some (edited :: children)
    else do
      let edited ← editFirst name edit children
      return edited.map (child :: ·)

/-- Edits all children with the name. -/
def editAll (name : Text) (edit : NestedField → Except Exception (List NestedField))
    (children : List NestedField) : Except Exception (List NestedField) := do
  let edited ← children.mapM fun child =>
    if child.name.ciEquals name then edit child else .ok [child]
  if children.any (·.name.ciEquals name) then .ok edited.flatten else childNotFound

/-- `columnPath` is what follows `depth` in the path. -/
def addField (newChild : NestedField) : List Text → NestedField → Except Exception NestedField
  | [], field => field.rebuild (field.children ++ [newChild])
  | name :: columnPath, field => do
    let newChildren ← editFirst name (addField newChild columnPath) field.children
    newChildren.elim childNotFound field.rebuild

def isMapOrList : NestedType → Bool
  | .map _ _ | .list _ => true
  | _ => false

/-- `pathSize` is the length of the whole path. -/
def removeField (pathSize : ℕ) : List Text → NestedField → Except Exception NestedField
  | [], _ => internalException ("Attempted to access index " ++ Text.ofNat pathSize ++
      " within vector of size " ++ Text.ofNat pathSize)
  | name :: columnPath, field => do
    let newChildren ← editAll name (fun child =>
      if pathSize = 2 ∧ isMapOrList field.type then
        .error ⟨.catalog, "Cannot drop field " ++ Text.writeQuoted '"' child.name ++
          " from column " ++ Text.writeQuoted '"' field.name ++ " - it's not a struct"⟩
      else if columnPath.isEmpty then .ok []
      else do
        let newChild ← removeField pathSize columnPath child
        return [newChild]) field.children
    field.rebuild newChildren

def renameField (pathSize : ℕ) (newName : Text) :
    List Text → NestedField → Except Exception NestedField
  | [], _ => internalException ("Attempted to access index " ++ Text.ofNat pathSize ++
      " within vector of size " ++ Text.ofNat pathSize)
  | name :: columnPath, field => do
    let newChildren ← editAll name (fun child =>
      if columnPath.isEmpty then do
        let renamed ← makeField child.columnData newName child.type child.children
        return [renamed]
      else do
        let newChild ← renameField pathSize newName columnPath child
        return [newChild]) field.children
    field.rebuild newChildren

end NestedField

/-! ## New fields -/

/-- What the statements use of the engine and of the statistics options. -/
structure FieldEnv where
  typeText : NestedType → Text
  /-- `ExtractInitialValue` of a default -/
  initialValue : Option DefaultExpression → NestedType → Except Exception Value
  /-- `ValidateAddedFieldsCanSkipStats` -/
  validateAdded : NestedField → NestedField → Except Exception Unit

variable (env : FieldEnv)

def rejectDefault (kind : Text) (default : Option DefaultExpression) : Except Exception Unit :=
  if default.isSome then
    .error ⟨.notImplemented, "Default value for " ++ kind ++ " type not supported"⟩
  else .ok ()

mutual

/-- The field of a type, and the next column id. -/
def fieldIdFromType (name : Text) (type : NestedType) (default : Option DefaultExpression)
    (columnId : ℕ) : Except Exception (NestedField × ℕ) := do
  let (children, next) ← childrenFromType type default (columnId + 1)
  let initialDefault ← env.initialValue default type
  let field ← makeField ⟨columnId, initialDefault, default⟩ name type children
  return (field, next)

def childrenFromType (type : NestedType) (default : Option DefaultExpression) (columnId : ℕ) :
    Except Exception (List NestedField × ℕ) :=
  match type with
  | .struct fields => do
    rejectDefault "STRUCT" default
    fieldIdsFromTypes fields columnId
  | .list element => do
    rejectDefault "LIST" default
    let (child, next) ← fieldIdFromType "element" element none columnId
    return ([child], next)
  | .map key value => do
    rejectDefault "MAP" default
    let (keyChild, next) ← fieldIdFromType "key" key none columnId
    let (valueChild, next) ← fieldIdFromType "value" value none next
    return ([keyChild, valueChild], next)
  | _ => .ok ([], columnId)

def fieldIdsFromTypes (fields : List (Text × NestedType)) (columnId : ℕ) :
    Except Exception (List NestedField × ℕ) :=
  match fields with
  | [] => .ok ([], columnId)
  | (name, type) :: fields => do
    let (child, next) ← fieldIdFromType name type none columnId
    let (children, next) ← fieldIdsFromTypes fields next
    return (child :: children, next)

end

/-! ## The statements -/

/-- What the statements read and write of a table: its columns and the fields of the columns, in the
same order. -/
structure FieldTable where
  columns : List (Text × NestedType)
  fields : List NestedField
  nextColumnId : ℕ

structure NewFieldDefinition where
  name : Text
  type : NestedType
  defaultValue : Option DefaultExpression

/-- The column path of a statement begins with a column. The path of a field that is removed or
renamed ends with a further name. -/
inductive FieldAlter where
  | add (column : Text) (path : List Text) (newField : NewFieldDefinition) (ifNotExists : Bool)
  | remove (column : Text) (path : List Text) (leaf : Text) (ifExists : Bool)
  | rename (column : Text) (path : List Text) (leaf newName : Text)

/-- `GetByNames` below a column. -/
def NestedField.getByNames (columnPath : List Text) :
    List Text → NestedField → Except Exception (Option NestedField)
  | path, .mk data name type children =>
    match type with
    | .variant =>
      invalidInputException ("Column path " ++ Text.join "." columnPath ++
        " points to child of variant column " ++ name ++ " - but no name_offset is provided")
    | _ =>
      match path with
      | [] => .ok (some (.mk data name type children))
      | next :: path => match children.find? (·.name.ciEquals next) with
        | none => .ok none
        | some child => getByNames columnPath path child

def FieldTable.tryGetFieldId (table : FieldTable) (column : Text) (path : List Text) :
    Except Exception (Option NestedField) :=
  match table.columns.findIdx? (·.1.ciEquals column) with
  | none => .ok none
  | some index => do
    let field ← fieldAt table.fields index
    field.getByNames (column :: path) path

def FieldTable.getFieldId (table : FieldTable) (column : Text) (path : List Text) :
    Except Exception NestedField := do
  let result ← table.tryGetFieldId column path
  result.elim (.error ⟨.binder, "Column \"" ++ Text.join "." (column :: path) ++
    "\" does not exist"⟩) .ok

/-- The edit of the field tree that a statement asks for, once its checks have passed. -/
inductive FieldEdit where
  | add (column : Text) (path : List Text) (newChild : NestedField)
  | remove (column : Text) (path : List Text) (leaf : Text)
  | rename (column : Text) (path : List Text) (leaf newName : Text)

/-- The checks of ADD COLUMN for a path. -/
def FieldTable.admitAdd (table : FieldTable) (column : Text) (path : List Text)
    (newField : NewFieldDefinition) (ifNotExists : Bool) :
    Except Exception (Option (FieldEdit × ℕ)) := do
  let parent ← table.getFieldId column path
  match parent.type with
  | .struct fields =>
    if fields.any (·.1.ciEquals newField.name) then
      if ifNotExists then .ok none
      else .error ⟨.catalog, "Failed to add field - field \"" ++ newField.name ++
        "\" already exists in column \"" ++ (column :: path).getLastD [] ++ "\""⟩
    else do
      let (newChild, next) ← fieldIdFromType env newField.name newField.type
        newField.defaultValue table.nextColumnId
      env.validateAdded parent newChild
      return some (.add column path newChild, next)
  | type => .error ⟨.catalog, "Fields can only be added to structs - " ++ parent.name ++
      " is a " ++ env.typeText type⟩

def FieldTable.admitRemove (table : FieldTable) (column : Text) (path : List Text) (leaf : Text)
    (ifExists : Bool) : Except Exception (Option (FieldEdit × ℕ)) :=
  if ifExists then do
    let removed ← table.tryGetFieldId column (path ++ [leaf])
    return removed.map fun _ => (.remove column path leaf, table.nextColumnId)
  else do
    let _ ← table.getFieldId column (path ++ [leaf])
    return some (.remove column path leaf, table.nextColumnId)

def FieldTable.admitRename (table : FieldTable) (column : Text) (path : List Text)
    (leaf newName : Text) : Except Exception (Option (FieldEdit × ℕ)) := do
  let _ ← table.getFieldId column (path ++ [leaf])
  let parent ← table.getFieldId column path
  match parent.type with
  | .struct fields =>
    if fields.any (·.1.ciEquals newName) then
      .error ⟨.catalog, "Failed to rename field \"" ++ leaf ++ "\" to \"" ++ newName ++
        "\" - field with this name already exists in column \"" ++
        Text.join "." (column :: path) ++ "\""⟩
    else return some (.rename column path leaf newName, table.nextColumnId)
  | _ => .error ⟨.notImplemented, "Only rename on top-level struct fields is supported currently"⟩

/-- The checks of a statement, with the next column id after it. -/
def FieldTable.admit (table : FieldTable) : FieldAlter → Except Exception (Option (FieldEdit × ℕ))
  | .add column path newField ifNotExists => table.admitAdd env column path newField ifNotExists
  | .remove column path leaf ifExists => table.admitRemove column path leaf ifExists
  | .rename column path leaf newName => table.admitRename column path leaf newName

def FieldEdit.column : FieldEdit → Text
  | add column _ _ | remove column _ _ | rename column _ _ _ => column

/-- The edit of the field of the column. -/
def FieldEdit.applyTo : FieldEdit → NestedField → Except Exception NestedField
  | add _ path newChild, field => NestedField.addField newChild path field
  | remove _ path leaf, field => field.removeField (path.length + 2) (path ++ [leaf])
  | rename _ path leaf newName, field =>
    field.renameField (path.length + 2) newName (path ++ [leaf])

/-- The field of the column, edited, and the column with its type. -/
def FieldEdit.applyToColumn (edit : FieldEdit) (entry : (Text × NestedType) × NestedField) :
    Except Exception ((Text × NestedType) × NestedField) :=
  if entry.2.name.ciEquals edit.column then do
    let field ← edit.applyTo entry.2
    return ((entry.1.1, field.type), field)
  else .ok entry

def FieldTable.applyEdit (table : FieldTable) (edit : FieldEdit) (next : ℕ) :
    Except Exception FieldTable := do
  let entries ← (table.columns.zip table.fields).mapM edit.applyToColumn
  return { columns := entries.map Prod.fst, fields := entries.map Prod.snd, nextColumnId := next }

/-- `AlterTable` of the statements; `none` where there is nothing to do. -/
def FieldTable.alter (table : FieldTable) (statement : FieldAlter) :
    Except Exception (Option FieldTable) := do
  let admitted ← table.admit env statement
  match admitted with
  | none => .ok none
  | some (edit, next) => do
    let table ← table.applyEdit edit next
    return some table

end DuckLake
