import DuckLake.Lib.LiveRows
import DuckLake.Storage.CommentStatements
import DuckLake.Storage.MetadataInfo

/-!
# The tags of a catalog

Comments are stored as tags with the key `comment`: those of a table or a view by its id, those of
the columns of a table by their field id, those of the columns of a view by their name.
-/

namespace DuckLake

open TimedRow

def commentKey : Text := "comment"

/-! ## Writing -/

def DuckLakeTagInfo.tagKey (tag : DuckLakeTagInfo) : Idx × Text := (tag.id, tag.key)

def DuckLakeColumnTagInfo.tagKey (tag : DuckLakeColumnTagInfo) : TableIndex × FieldIndex × Text :=
  (tag.tableId, tag.fieldIndex, tag.key)

def DuckLakeViewColumnTagInfo.tagKey (tag : DuckLakeViewColumnTagInfo) :
    TableIndex × Text × Text :=
  (tag.viewId, tag.columnName, tag.key)

def writeNewTags (snapshot : SnapshotId) (newTags : List DuckLakeTagInfo) :
    List (TimedRow DuckLakeTagInfo) → List (TimedRow DuckLakeTagInfo) :=
  overwrite DuckLakeTagInfo.tagKey snapshot newTags

def writeNewColumnTags (snapshot : SnapshotId) (newTags : List DuckLakeColumnTagInfo) :
    List (TimedRow DuckLakeColumnTagInfo) → List (TimedRow DuckLakeColumnTagInfo) :=
  overwrite DuckLakeColumnTagInfo.tagKey snapshot newTags

/-- The names of the columns are compared as they are written. -/
def writeNewViewColumnTags (snapshot : SnapshotId) (newTags : List DuckLakeViewColumnTagInfo) :
    List (TimedRow DuckLakeViewColumnTagInfo) → List (TimedRow DuckLakeViewColumnTagInfo) :=
  overwrite DuckLakeViewColumnTagInfo.tagKey snapshot newTags

def writeExpiredColumnTags (snapshot : SnapshotId) (dropped : List DuckLakeDroppedColumn) :
    List (TimedRow DuckLakeColumnTagInfo) → List (TimedRow DuckLakeColumnTagInfo) :=
  expire (fun tag => (tag.tableId, tag.fieldIndex)) snapshot
    (dropped.map fun column => (column.tableId, column.fieldId))

/-! ## Loading -/

/-- The loop over the tags with the key `comment`; `LoadTags` leaves out those that are NULL. -/
def lastComment (values : List Value) : Value :=
  values.foldl (fun comment value => if value.isSome then value else comment) none

def loadComment (tags : List DuckLakeTagInfo) (id : Idx) : Value :=
  lastComment ((tags.filter (·.tagKey = (id, commentKey))).map (·.value))

def loadColumnComment (tags : List DuckLakeColumnTagInfo) (tableId : TableIndex)
    (field : FieldIndex) : Value :=
  lastComment ((tags.filter (·.tagKey = (tableId, field, commentKey))).map (·.value))

def loadColumnComments (tags : List DuckLakeViewColumnTagInfo) (viewId : TableIndex) :
    List (Text × Value) :=
  (tags.filter fun tag => tag.viewId = viewId && tag.key = commentKey).foldl
    (fun comments tag => DuckLakeViewEntry.assignComment comments tag.columnName tag.value) []

/-- The table as it is loaded with these tags. -/
def DuckLakeTableEntry.load (table : DuckLakeTableEntry) (tags : List DuckLakeTagInfo)
    (columnTags : List DuckLakeColumnTagInfo) (id : TableIndex) : DuckLakeTableEntry :=
  { table with
    tableId := id
    localChange := .none
    changedFields := {}
    hasAddedConstraint := false
    comment := loadComment tags id
    columns := table.columns.map fun column =>
      column.setComment (loadColumnComment columnTags id column.fieldIndex)
    localPartition := by simp }

def DuckLakeViewEntry.load (view : DuckLakeViewEntry) (tags : List DuckLakeTagInfo)
    (columnTags : List DuckLakeViewColumnTagInfo) (id : TableIndex) : DuckLakeViewEntry :=
  { view with
    viewId := id
    localChange := .none
    comment := loadComment tags id
    columnComments := loadColumnComments columnTags id }

/-! ## Entries and their tags -/

/-- The tags have the comments of the table. -/
structure TableStored (tags : List DuckLakeTagInfo) (columnTags : List DuckLakeColumnTagInfo)
    (id : TableIndex) (table : DuckLakeTableEntry) : Prop where
  comment : Tells DuckLakeTagInfo.tagKey (·.value) (id, commentKey) table.comment tags
  column : ∀ field c, table.commentOf field = some c →
    Tells DuckLakeColumnTagInfo.tagKey (·.value) (id, field, commentKey) c columnTags

/-- The tags have the comments of the view. -/
structure ViewStored (tags : List DuckLakeTagInfo) (columnTags : List DuckLakeViewColumnTagInfo)
    (id : TableIndex) (view : DuckLakeViewEntry) : Prop where
  comment : Tells DuckLakeTagInfo.tagKey (·.value) (id, commentKey) view.comment tags
  column : ∀ name value, ⟨id, name, commentKey, value⟩ ∈ columnTags ↔
    (name, value) ∈ view.columnComments

/-! ## What is loaded -/

theorem lastComment_eq {values : List Value} {c : Value} (h : ∀ value ∈ values, value = c)
    (hc : c ≠ none → values ≠ []) : lastComment values = c := by
  have hloop : ∀ values : List Value, (∀ value ∈ values, value = c) → ∀ init,
      init = c ∨ (values ≠ [] ∧ init = none) →
      values.foldl (fun comment value => if value.isSome then value else comment) init = c := by
    intro values
    induction values with
    | nil => exact fun _ init hinit => hinit.resolve_right (by simp)
    | cons value values ih =>
      intro hall init hinit
      obtain rfl : value = c := hall value (by simp)
      refine ih (fun v hv => hall v (by simp [hv])) _ (.inl ?_)
      cases value with
      | none => simpa using hinit
      | some text => rfl
  refine hloop values h none ?_
  cases c with
  | none => exact .inl rfl
  | some text => exact .inr ⟨hc nofun, rfl⟩

theorem lastComment_of_tells {τ κ : Type} [DecidableEq κ] {key : τ → κ} {value : τ → Value} {k : κ}
    {c : Value} {l : List τ} (h : Tells key value k c l) :
    lastComment ((l.filter fun t => key t = k).map value) = c := by
  refine lastComment_eq ?_ fun hc => ?_
  · intro v hv
    obtain ⟨t, ht, rfl⟩ := List.mem_map.1 hv
    obtain ⟨ht, hk⟩ := List.mem_filter.1 ht
    exact h.1 t ht (of_decide_eq_true hk)
  · obtain ⟨t, ht, hk⟩ := h.2 hc
    exact List.ne_nil_of_mem (List.mem_map_of_mem
      (List.mem_filter.2 ⟨ht, decide_eq_true hk⟩))

theorem updateList_of_forall_ne {V : Type} {key : Text} {f : V → V} {init : V}
    {l : List (Text × V)} (h : ∀ e ∈ l, e.1.fold ≠ key.fold) :
    CIMap.updateList key f init l = l ++ [(key, f init)] := by
  induction l with
  | nil => rfl
  | cons e l ih =>
    rw [CIMap.updateList, if_neg (by simpa using h e (by simp)),
      ih fun e' he' => h e' (by simp [he'])]
    rfl

/-- Names that differ up to case are loaded one after the other. -/
theorem foldl_assignComment {tags : List DuckLakeViewColumnTagInfo} {comments : List (Text × Value)}
    (h : (comments ++ tags.map fun tag => (tag.columnName, tag.value)).Pairwise
      fun a b => a.1.fold ≠ b.1.fold) :
    tags.foldl
      (fun comments tag => DuckLakeViewEntry.assignComment comments tag.columnName tag.value)
      comments = comments ++ tags.map fun tag => (tag.columnName, tag.value) := by
  induction tags generalizing comments with
  | nil => simp
  | cons tag tags ih =>
    have hnew : ∀ e ∈ comments, e.1.fold ≠ tag.columnName.fold := fun e he =>
      (List.pairwise_append.1 h).2.2 e he (tag.columnName, tag.value) (by simp)
    rw [List.foldl_cons, DuckLakeViewEntry.assignComment, updateList_of_forall_ne hnew, ih]
    · simp
    · simpa using h

end DuckLake
