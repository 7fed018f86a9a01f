import DuckLake.Storage.CommentTags
import Mathlib.Logic.Function.Basic

/-!
# A session that comments

The state of a session that comments on a table, a view and their columns and renames them: the
stored tags, the versions of the two entries since they were loaded, and the comments that the
statements asked for. The invariant says that the tags have what was loaded and that the latest
versions have what was asked for.
-/

namespace DuckLake

open TimedRow

variable [ColumnRefs]

/-! ## The session -/

/-- The comments that the statements so far ask for. -/
structure Comments where
  table : Value
  column : FieldIndex → Value
  view : Value
  /-- By the name of the column in lower case. -/
  viewColumn : Text → Value

namespace Comments

def recordTable (comments : Comments) (table : DuckLakeTableEntry) : TableStatement → Comments
  | .comment value => { comments with table := value }
  | .columnComment name value =>
    match table.columnNamed name with
    | .ok column =>
      { comments with column := Function.update comments.column column.fieldIndex value }
    | .error _ => comments
  | .rename _ | .renameColumn _ _ => comments

def recordView (comments : Comments) (view : DuckLakeViewEntry) : ViewStatement → Comments
  | .comment value => { comments with view := value }
  | .columnComment bound name value =>
    match view.resolveColumnName bound name with
    | .ok resolved =>
      { comments with viewColumn := Function.update comments.viewColumn resolved.1.fold value }
    | .error _ => comments
  | .rename _ => comments

end Comments

/-- The stored tags, the versions of the entries, and what was asked for. -/
structure CommentState where
  snapshot : DuckLakeSnapshot
  tags : List (TimedRow DuckLakeTagInfo)
  columnTags : List (TimedRow DuckLakeColumnTagInfo)
  viewColumnTags : List (TimedRow DuckLakeViewColumnTagInfo)
  table : VersionChain DuckLakeTableEntry
  view : VersionChain DuckLakeViewEntry
  intended : Comments

namespace CommentState

/-- A statement that fails changes nothing. -/
def runTable (s : CommentState) (statement : TableStatement) : CommentState :=
  match s.table.current.alter statement with
  | .error _ => s
  | .ok version =>
    { s with
      table := s.table.push version
      intended := s.intended.recordTable s.table.current statement }

def runView (s : CommentState) (statement : ViewStatement) : CommentState :=
  match s.view.current.alter statement with
  | .error _ => s
  | .ok version =>
    { s with
      view := s.view.push version
      intended := s.intended.recordView s.view.current statement }

/-! ## What is asked of it -/

/-- One tag for each object, each column of a table, and each column of a view, whose names are
compared without regard to case; and the entries have the comments that were asked for. -/
structure KeepsComments (s : CommentState) : Prop where
  tags_once : LiveOnce DuckLakeTagInfo.tagKey s.tags
  columnTags_once : LiveOnce DuckLakeColumnTagInfo.tagKey s.columnTags
  viewColumnTags_once : (live s.viewColumnTags).Pairwise fun a b =>
    a.viewId = b.viewId → a.key = b.key → a.columnName.fold ≠ b.columnName.fold
  table : s.table.current.comment = s.intended.table
  column : ∀ column ∈ s.table.current.columns, column.comment = s.intended.column column.fieldIndex
  view : s.view.current.comment = s.intended.view
  viewColumn : ∀ name, s.view.current.columnComment name = s.intended.viewColumn name.fold

end CommentState

/-! ## The invariant -/

/-- An entry that was loaded from the catalog. -/
structure IsLoaded (id : TableIndex) (change : LocalChange) (nextCatalogId : Idx) : Prop where
  committed : isTransactionLocal id = false
  change : change ≠ .created
  lt : id.toNat < nextCatalogId.toNat

/-- An entry that this transaction creates. -/
structure IsCreated (id : TableIndex) (change : LocalChange) : Prop where
  isLocal : isTransactionLocal id = true
  change : change = .created

namespace CommentState

def Fresh (s : CommentState) (id : TableIndex) : Prop :=
  id.toNat < s.snapshot.nextCatalogId.toNat

/-- The stored tags: at most one is live for each key, also where the names of columns only differ
in case, and their ids were given out. -/
structure Tagged (s : CommentState) : Prop where
  tags_settled : SettledAt s.tags s.snapshot.snapshotId
  columnTags_settled : SettledAt s.columnTags s.snapshot.snapshotId
  viewColumnTags_settled : SettledAt s.viewColumnTags s.snapshot.snapshotId
  tags_once : LiveOnce DuckLakeTagInfo.tagKey s.tags
  columnTags_once : LiveOnce DuckLakeColumnTagInfo.tagKey s.columnTags
  viewColumnTags_once : LiveOnce DuckLakeViewColumnTagInfo.tagKey s.viewColumnTags
  names_once : (live s.viewColumnTags).Pairwise fun a b =>
    a.viewId = b.viewId → a.key = b.key → a.columnName.fold ≠ b.columnName.fold
  tags_lt : ∀ t ∈ live s.tags, s.Fresh t.id
  columnTags_lt : ∀ t ∈ live s.columnTags, s.Fresh t.tableId
  viewColumnTags_lt : ∀ t ∈ live s.viewColumnTags, s.Fresh t.viewId

structure Inv (s : CommentState) : Prop extends s.Tagged where
  table_made : MadeFrom DuckLakeTableEntry.Alters s.table.base s.table.staged
  table_fields : s.table.base.fields.Nodup
  table_base :
    IsLoaded s.table.base.tableId s.table.base.localChange s.snapshot.nextCatalogId ∧
        TableStored (live s.tags) (live s.columnTags) s.table.base.tableId s.table.base ∨
      IsCreated s.table.base.tableId s.table.base.localChange ∧
        s.table.base.comment = none ∧ ∀ column ∈ s.table.base.columns, column.comment = none
  view_made : MadeFrom DuckLakeViewEntry.Alters s.view.base s.view.staged
  view_distinct : s.view.base.Distinct
  view_base :
    IsLoaded s.view.base.viewId s.view.base.localChange s.snapshot.nextCatalogId ∧
        ViewStored (live s.tags) (live s.viewColumnTags) s.view.base.viewId s.view.base ∨
      IsCreated s.view.base.viewId s.view.base.localChange ∧
        s.view.base.comment = none ∧ s.view.base.columnComments = []
  ids_ne : s.table.base.tableId ≠ s.view.base.viewId
  table : s.table.current.comment = s.intended.table
  column : ∀ column ∈ s.table.current.columns, column.comment = s.intended.column column.fieldIndex
  view : s.view.current.comment = s.intended.view
  viewColumn : ∀ name, s.view.current.columnComment name = s.intended.viewColumn name.fold

theorem Inv.keepsComments {s : CommentState} (h : s.Inv) : s.KeepsComments :=
  ⟨h.tags_once, h.columnTags_once, h.names_once, h.table, h.column, h.view, h.viewColumn⟩

/-! ### Statements -/

theorem Inv.runTable {s : CommentState} (h : s.Inv) (statement : TableStatement) :
    (s.runTable statement).Inv := by
  rw [CommentState.runTable]
  split
  · exact h
  · rename_i version halter
    have hmade : MadeFrom DuckLakeTableEntry.Alters s.table.base (version :: s.table.staged) :=
      ⟨⟨statement, halter⟩, h.table_made⟩
    have hfields := (h.table_made.all (P := fun v => v.fields.Nodup) h.table_fields
      fun u v huv hu => huv.fields ▸ hu).1
    cases statement with
    | comment value =>
      cases halter
      exact { h with table_made := hmade, table := rfl, column := h.column }
    | columnComment name value =>
      obtain ⟨column, hcolumn, halter⟩ := bind_eq_ok.1 halter
      cases halter
      simp only [Comments.recordTable, hcolumn]
      exact { h with
        table_made := hmade, table := h.table, column := comment_setColumnCommentOf h.column }
    | rename newName =>
      cases halter
      exact { h with table_made := hmade, table := h.table, column := h.column }
    | renameColumn oldName newName =>
      rw [DuckLakeTableEntry.alter] at halter
      split at halter
      · cases halter
      · obtain ⟨_, _, halter⟩ := bind_eq_ok.1 halter
        cases halter
        exact { h with
          table_made := hmade, table := h.table, column := comment_renameColumns h.column }

theorem Inv.runView {s : CommentState} (h : s.Inv) {statement : ViewStatement}
    (hspelling : s.view.current.KeepsSpelling statement) : (s.runView statement).Inv := by
  rw [CommentState.runView]
  split
  · exact h
  · rename_i version halter
    have hmade : MadeFrom DuckLakeViewEntry.Alters s.view.base (version :: s.view.staged) :=
      ⟨⟨statement, hspelling, halter⟩, h.view_made⟩
    have hdistinct := (h.view_made.all h.view_distinct fun u v huv hu => huv.distinct hu).1
    cases statement with
    | comment value =>
      cases halter
      exact { h with view_made := hmade, view := rfl, viewColumn := h.viewColumn }
    | columnComment bound name value =>
      obtain ⟨resolved, hresolved, halter⟩ := bind_eq_ok.1 halter
      cases halter
      simp only [Comments.recordView, hresolved]
      exact { h with
        view_made := hmade
        view := h.view
        viewColumn := fun k => by
          rw [VersionChain.current_push, DuckLakeViewEntry.columnComment_assign hdistinct rfl]
          change _ = Function.update s.intended.viewColumn resolved.1.fold value k.fold
          split
          · rename_i hfold
            rw [hfold, Function.update_self]
          · rename_i hfold
            rw [Function.update_of_ne (Ne.symm hfold)]
            exact h.viewColumn k }
    | rename newName =>
      cases halter
      exact { h with view_made := hmade, view := h.view, viewColumn := h.viewColumn }

end CommentState

end DuckLake
