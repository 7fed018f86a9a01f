import DuckLake.Storage.CommentWalks

/-!
# The tags that the commit of a table emits

The columns of a table are commented on by their field ids. A column that is renamed is dropped and
added again under its field id, so that its tags stay.
-/

namespace DuckLake

open Attempt CommitM

/-! ## The changes of a table -/

namespace DuckLakeTableEntry

/-- The change to the comment of the table itself. -/
def objectComment? (table : DuckLakeTableEntry) : Option Unit :=
  if table.localChange = .setComment then some () else none

def commentedField? (table : DuckLakeTableEntry) : Option FieldIndex :=
  table.localChange.commentedField?

def alteredField? (table : DuckLakeTableEntry) : Option FieldIndex :=
  table.localChange.alteredField?

end DuckLakeTableEntry

open DuckLakeTableEntry (objectComment? commentedField? alteredField?)

section TableChanges

variable {base v : DuckLakeTableEntry} {staged rest : List DuckLakeTableEntry}

theorem tableComment?_eq_some_iff : v.objectComment? = some () ↔ v.localChange = .setComment := by
  rw [objectComment?]
  split <;> simp_all

theorem countP_setTableComment : rest.countP (·.localChange = .setComment) =
    rest.countP (fun v => v.objectComment? = some ()) :=
  List.countP_congr fun v _ => by simp [tableComment?_eq_some_iff]

variable [ColumnRefs]

theorem tableComment_eq_latest (hmade : MadeFrom DuckLakeTableEntry.Alters base staged)
    (hsplit : ∃ older, staged = (v :: rest).reverse ++ older)
    (hrest : ¬ Touches objectComment? rest ()) : v.comment = (staged.headD base).comment := by
  obtain ⟨older, rfl⟩ := hsplit
  rw [List.reverse_cons, List.append_assoc, List.singleton_append] at hmade ⊢
  refine (hmade.keeps (p := fun v => v.localChange = .setComment)
    (fun u v huv hv => huv.comment hv) fun w hw hchange => ?_).symm
  exact hrest ⟨w, List.mem_reverse.1 hw, tableComment?_eq_some_iff.2 hchange⟩

theorem commentOf_eq_latest (hmade : MadeFrom DuckLakeTableEntry.Alters base staged)
    (hsplit : ∃ older, staged = (v :: rest).reverse ++ older) {field : FieldIndex}
    (hrest : ¬ Touches commentedField? rest field) :
    v.commentOf field = (staged.headD base).commentOf field := by
  obtain ⟨older, rfl⟩ := hsplit
  rw [List.reverse_cons, List.append_assoc, List.singleton_append] at hmade ⊢
  refine (hmade.keeps (f := fun v => v.commentOf field)
    (p := fun v => v.localChange = .setColumnComment field)
    (fun u v huv hv => huv.commentOf hv) fun w hw hchange => ?_).symm
  exact hrest ⟨w, List.mem_reverse.1 hw, by simp [commentedField?, hchange,
    LocalChange.commentedField?]⟩

end TableChanges

/-! ## Columns -/

theorem findColumn_of_mem_fields {table : DuckLakeTableEntry} {field : FieldIndex}
    (h : field ∈ table.fields) : ∃ column, table.findColumn field = .ok column ∧
      table.commentOf field = some column.comment := by
  obtain ⟨column, hcolumn, hfield⟩ := List.mem_map.1 h
  have hsome : (table.columns.find? (·.fieldIndex = field)).isSome :=
    List.find?_isSome.2 ⟨column, hcolumn, by simpa using hfield⟩
  obtain ⟨found, hfound⟩ := Option.isSome_iff_exists.1 hsome
  refine ⟨found, ?_, by rw [DuckLakeTableEntry.commentOf, hfound]; rfl⟩
  have hfind : table.columns.find? (·.field.columnData.id = field) = some found := hfound
  rw [DuckLakeTableEntry.findColumn, hfind]

theorem getColumnInfo_of_mem_fields {table : DuckLakeTableEntry} {field : FieldIndex}
    (h : field ∈ table.fields) : ∃ info, table.getColumnInfo field = .ok info ∧ info.id = field := by
  obtain ⟨column, hcolumn, -⟩ := findColumn_of_mem_fields h
  rw [DuckLakeTableEntry.getColumnInfo, hcolumn]
  refine ⟨_, rfl, ?_⟩
  simp only [DuckLakeColumnInfo.extractDefaultValue]
  split <;> rfl

/-- Every dropped column is added again. -/
def NewTableInfo.Readds (info : NewTableInfo) : Prop :=
  ∀ dropped ∈ info.droppedColumns, ∃ new ∈ info.newColumns,
    new.tableId = dropped.tableId ∧ new.columnInfo.id = dropped.fieldId

theorem NewTableInfo.Readds.expiredColumnTags {info : NewTableInfo} (h : info.Readds) :
    info.expiredColumnTags = [] := by
  rw [NewTableInfo.expiredColumnTags, List.filter_eq_nil_iff]
  intro dropped hdropped hall
  obtain ⟨new, hnew, htable, hfield⟩ := h dropped hdropped
  simpa [htable, hfield] using List.all_eq_true.1 hall new hnew

section Walk

variable [SQLWriter]

/-! ## Keys -/

/-- The next id that the attempt gives out. -/
def CommitAttempt.nextId (s : CommitAttempt) : ℕ := s.commitSnapshot.nextCatalogId.toNat

/-- There is room for `count` more ids below those that are transaction-local. -/
def CommitAttempt.HasIds (s : CommitAttempt) (count : ℕ) : Prop :=
  s.nextId + count ≤ transactionLocalIdStart.toNat

omit [SQLWriter] in
theorem isTransactionLocal_of_lt {id : Idx} (h : id.toNat < transactionLocalIdStart.toNat) :
    isTransactionLocal id = false := by
  rw [isTransactionLocal, decide_eq_false_iff_not, UInt64.le_iff_toNat_le]
  exact Nat.not_le.2 h

/-- A state that the attempt gets to by giving out at most `count` ids. -/
structure Allocates (count : ℕ) (s t : CommitAttempt) : Prop where
  committedTables : t.commitState.committedTables = s.commitState.committedTables
  le : s.nextId ≤ t.nextId
  ge : t.nextId ≤ s.nextId + count

theorem toNat_nextCatalogId {s : CommitAttempt} {n : ℕ} (h : s.HasIds (n + 1)) :
    (s.commitSnapshot.nextCatalogId + 1).toNat = s.nextId + 1 := by
  rw [CommitAttempt.HasIds, CommitAttempt.nextId] at h
  rw [UInt64.toNat_add, CommitAttempt.nextId]
  have hstart : transactionLocalIdStart.toNat = 9223372036854775808 := rfl
  have hone : (1 : UInt64).toNat = 1 := rfl
  rw [hone, Nat.mod_eq_of_lt (by omega)]

theorem allocates_one {s t : CommitAttempt} (hids : s.HasIds 1)
    (htables : t.commitState.committedTables = s.commitState.committedTables)
    (hnext : t.commitSnapshot.nextCatalogId = s.commitSnapshot.nextCatalogId + 1) :
    Allocates 1 s t := by
  have hid : t.nextId = s.nextId + 1 := by
    rw [CommitAttempt.nextId, hnext, toNat_nextCatalogId hids]
  exact ⟨htables, by omega, by omega⟩

theorem returns_getNewPartitionKey {address : EntryAddress} {table : DuckLakeTableEntry}
    {final : TableIndex} {s : CommitAttempt}
    {Q : DuckLakePartitionInfo → CommitAttempt → Prop} (hs : WrittenAs table.tableId final s)
    (hids : s.HasIds 1) (hfinal : isTransactionLocal final = false) (hQ : ∀ key t, Allocates 1 s t → Q key t) :
    Returns (getNewPartitionKey address table) s Q := by
  rw [getNewPartitionKey]
  refine .bind (returns_getTableId ?_)
  rw [hs.mapped]
  refine .bind (returns_ensure (by simp [hfinal]) ?_)
  cases table.partitionData with
  | none => exact .pure (hQ _ s ⟨rfl, Nat.le_refl _, Nat.le_add_right _ _⟩)
  | some data =>
    exact .bind (.modifyGet (.bind (.modify (.bind (.modify (.pure
      (hQ _ _ (allocates_one hids rfl rfl))))))))

theorem returns_getNewSortKey {address : EntryAddress} {table : DuckLakeTableEntry}
    {final : TableIndex} {s : CommitAttempt} {Q : DuckLakeSortInfo → CommitAttempt → Prop}
    (hs : WrittenAs table.tableId final s) (hids : s.HasIds 1) (hfinal : isTransactionLocal final = false)
    (hQ : ∀ key t, Allocates 1 s t → Q key t) : Returns (getNewSortKey address table) s Q := by
  rw [getNewSortKey]
  refine .bind (returns_getTableId ?_)
  rw [hs.mapped]
  refine .bind (returns_ensure (by simp [hfinal]) ?_)
  cases table.sortData with
  | none => exact .pure (hQ _ s ⟨rfl, Nat.le_refl _, Nat.le_add_right _ _⟩)
  | some data =>
    exact .bind (.modifyGet (.bind (.modify (.pure
      (hQ _ _ (allocates_one hids rfl rfl))))))

theorem returns_sortKeys {address : EntryAddress} {table : DuckLakeTableEntry}
    {final : TableIndex} {s : CommitAttempt} {Q : List DuckLakeSortInfo → CommitAttempt → Prop}
    (hs : WrittenAs table.tableId final s) (hids : s.HasIds 1) (hfinal : isTransactionLocal final = false)
    (hQ : ∀ keys t, Allocates 1 s t → Q keys t) : Returns (sortKeys address table) s Q := by
  rw [sortKeys]
  split
  · exact .bind (returns_getNewSortKey hs hids hfinal fun key t ht => .pure (hQ _ t ht))
  · exact .pure (hQ _ s ⟨rfl, Nat.le_refl _, Nat.le_add_right _ _⟩)

theorem returns_partitionKeys {address : EntryAddress} {table : DuckLakeTableEntry}
    {final : TableIndex} {s : CommitAttempt}
    {Q : List DuckLakePartitionInfo → CommitAttempt → Prop} (hs : WrittenAs table.tableId final s)
    (hids : s.HasIds 1) (hfinal : isTransactionLocal final = false) (hQ : ∀ keys t, Allocates 1 s t → Q keys t) :
    Returns (partitionKeys address table) s Q := by
  rw [partitionKeys]
  split
  · exact .bind (returns_getNewPartitionKey hs hids hfinal fun key t ht => .pure (hQ _ t ht))
  · exact .pure (hQ _ s ⟨rfl, Nat.le_refl _, Nat.le_add_right _ _⟩)

/-! ## Tables -/

/-- The walk over the versions of a table, with `rest` left to do. -/
structure TableWalk.Inv (base : DuckLakeTableEntry) (staged : List DuckLakeTableEntry)
    (final : TableIndex) (result : NewTableInfo) (rest : List DuckLakeTableEntry)
    (walk : TableWalk) (tags : List (Unit × Value)) (columns : List (FieldIndex × Value)) :
    Prop where
  split : ∃ older, staged = rest.reverse ++ older
  commentRemaining : walk.commentRemaining = rest.countP (·.localChange = .setComment)
  columnCommentRemaining : ∀ field, walk.columnCommentRemaining field =
    rest.countP (·.localChange.commentedField? = some field)
  fieldAlterRemaining : ∀ field, walk.fieldAlterRemaining field =
    rest.countP (·.localChange.alteredField? = some field)
  newTags : walk.result.newTags = result.newTags ++ tags.map fun e => ⟨final, commentKey, e.2⟩
  newColumnTags : walk.result.newColumnTags =
    result.newColumnTags ++ columns.map fun e => ⟨final, e.1, commentKey, e.2⟩
  newViewColumnTags : walk.result.newViewColumnTags = result.newViewColumnTags
  readds : walk.result.Readds
  /-- A field is only written with its last change, and never added before. -/
  added : ∀ field, (walk.txnAddedFields.lookup field).isSome →
    ¬ Touches alteredField? rest field
  tag : Emission objectComment? (fun _ x => x = (staged.headD base).comment) staged rest tags
  column : Emission commentedField? (fun field x => (staged.headD base).commentOf field = some x)
    staged rest columns

section TableSteps

variable {base v latest : DuckLakeTableEntry} {staged rest : List DuckLakeTableEntry}
  {final : TableIndex} {result : NewTableInfo} {walk : TableWalk} {tags : List (Unit × Value)}
  {columns : List (FieldIndex × Value)} {s : CommitAttempt}
  {Q : TableWalk → CommitAttempt → Prop}

omit [SQLWriter] in
theorem TableWalk.Inv.tail (h : walk.Inv base staged final result (v :: rest) tags columns)
    (hcomment : v.objectComment? = none) (hcolumn : v.commentedField? = none)
    (halter : v.alteredField? = none) : walk.Inv base staged final result rest tags columns :=
  { h with
    split := split_tail h.split
    commentRemaining := by
      rw [h.commentRemaining, countP_setTableComment, countP_setTableComment,
        List.countP_cons_of_neg (by simp [hcomment])]
    columnCommentRemaining := fun field => by
      rw [h.columnCommentRemaining, List.countP_cons_of_neg]
      rw [commentedField?] at hcolumn
      simp [hcolumn]
    fieldAlterRemaining := fun field => by
      rw [h.fieldAlterRemaining, List.countP_cons_of_neg]
      rw [alteredField?] at halter
      simp [halter]
    added := fun field hfield ht => h.added field hfield (touches_cons.2 (.inr ht))
    tag := h.tag.skip hcomment
    column := h.column.skip hcolumn }

variable [ColumnRefs]

theorem returns_setTableComment (hmade : MadeFrom DuckLakeTableEntry.Alters base staged)
    (hid : v.tableId = base.tableId) (hv : v.localChange = .setComment)
    (h : walk.Inv base staged final result (v :: rest) tags columns)
    (hs : WrittenAs base.tableId final s)
    (hQ : ∀ walk' tags' t, walk'.Inv base staged final result rest tags' columns →
      Allocates 0 s t → Q walk' t) :
    Returns (setTableComment v walk) s Q := by
  have hkind : v.objectComment? = some () := tableComment?_eq_some_iff.2 hv
  have hcolumn : v.commentedField? = none := by
    rw [commentedField?, hv]
    rfl
  have halter : v.alteredField? = none := by
    rw [alteredField?, hv]
    rfl
  have hremaining : walk.commentRemaining - 1 = rest.countP (·.localChange = .setComment) := by
    rw [h.commentRemaining, List.countP_cons_of_pos (by simp [hv]), Nat.add_sub_cancel]
  have hcolumns : ∀ field, walk.columnCommentRemaining field =
      rest.countP (·.localChange.commentedField? = some field) := fun field => by
    rw [h.columnCommentRemaining, List.countP_cons_of_neg (by simp [hv,
      LocalChange.commentedField?])]
  have halters : ∀ field, walk.fieldAlterRemaining field =
      rest.countP (·.localChange.alteredField? = some field) := fun field => by
    rw [h.fieldAlterRemaining, List.countP_cons_of_neg (by simp [hv,
      LocalChange.alteredField?])]
  have hadded : ∀ field, (walk.txnAddedFields.lookup field).isSome →
      ¬ Touches alteredField? rest field := fun field hfield ht =>
    h.added field hfield (touches_cons.2 (.inr ht))
  rw [setTableComment]
  simp only [hremaining]
  rw [countP_setTableComment]
  split
  · rename_i hpos
    refine .pure (hQ _ tags s ?_ ⟨rfl, Nat.le_refl _, Nat.le_refl _⟩)
    exact { h with
      split := split_tail h.split
      commentRemaining := countP_setTableComment.symm
      columnCommentRemaining := hcolumns
      fieldAlterRemaining := halters
      added := hadded
      tag := h.tag.superseded hkind (countP_pos_iff_touches.1 hpos)
      column := h.column.skip hcolumn }
  · rename_i hpos
    have hlast : ¬ Touches objectComment? rest () := fun ht => hpos (countP_pos_iff_touches.2 ht)
    refine .bind (returns_getTableId (.bind (.modify (.pure (hQ _ (tags ++ [((), v.comment)]) _ ?_
      ⟨rfl, Nat.le_refl _, Nat.le_refl _⟩)))))
    rw [hid, hs.mapped]
    exact { h with
      split := split_tail h.split
      commentRemaining := countP_setTableComment.symm
      columnCommentRemaining := hcolumns
      fieldAlterRemaining := halters
      added := hadded
      newTags := by
        rw [h.newTags]
        simp [commentKey]
      tag := h.tag.last hkind hlast (tableComment_eq_latest hmade h.split hlast)
      column := h.column.skip hcolumn }

theorem returns_setColumnComment {field : FieldIndex}
    (hmade : MadeFrom DuckLakeTableEntry.Alters base staged) (hid : v.tableId = base.tableId)
    (hfield : field ∈ v.fields) (hv : v.localChange = .setColumnComment field)
    (h : walk.Inv base staged final result (v :: rest) tags columns)
    (hs : WrittenAs base.tableId final s)
    (hQ : ∀ walk' columns' t, walk'.Inv base staged final result rest tags columns' →
      Allocates 0 s t → Q walk' t) :
    Returns (setColumnComment v field walk) s Q := by
  have hkind : v.objectComment? = none := by
    rw [objectComment?, if_neg (by simp [hv])]
  have hcolumn : v.commentedField? = some field := by
    rw [commentedField?, hv]
    rfl
  have hcomments : walk.commentRemaining = rest.countP (·.localChange = .setComment) := by
    rw [h.commentRemaining, List.countP_cons_of_neg (by simp [hv])]
  have hremaining : walk.columnCommentRemaining field - 1 =
      rest.countP (·.localChange.commentedField? = some field) := by
    rw [h.columnCommentRemaining, List.countP_cons_of_pos (by simpa [commentedField?] using hcolumn),
      Nat.add_sub_cancel]
  have hcolumns : ∀ k, Function.update walk.columnCommentRemaining field
      (rest.countP (·.localChange.commentedField? = some field)) k =
        rest.countP (·.localChange.commentedField? = some k) := by
    intro k
    rcases eq_or_ne k field with rfl | hk
    · rw [Function.update_self]
    · rw [Function.update_of_ne hk, h.columnCommentRemaining, List.countP_cons_of_neg]
      rw [commentedField?] at hcolumn
      simpa [hcolumn] using hk.symm
  have halters : ∀ field, walk.fieldAlterRemaining field =
      rest.countP (·.localChange.alteredField? = some field) := fun field => by
    rw [h.fieldAlterRemaining, List.countP_cons_of_neg (by simp [hv,
      LocalChange.alteredField?])]
  have hadded : ∀ field, (walk.txnAddedFields.lookup field).isSome →
      ¬ Touches alteredField? rest field := fun field hfield ht =>
    h.added field hfield (touches_cons.2 (.inr ht))
  rw [setColumnComment]
  simp only [hremaining]
  split
  · rename_i hpos
    refine .pure (hQ _ columns s ?_ ⟨rfl, Nat.le_refl _, Nat.le_refl _⟩)
    exact { h with
      split := split_tail h.split
      commentRemaining := hcomments
      columnCommentRemaining := hcolumns
      fieldAlterRemaining := halters
      added := hadded
      tag := h.tag.skip hkind
      column := h.column.superseded hcolumn (countP_pos_iff_touches.1 hpos) }
  · rename_i hpos
    have hlast : ¬ Touches commentedField? rest field := fun ht =>
      hpos (countP_pos_iff_touches.2 ht)
    obtain ⟨column, hfind, hcomment⟩ := findColumn_of_mem_fields hfield
    refine .bind (returns_getTableId (.bind (.ofExcept hfind (.bind (.modify (.pure
      (hQ _ (columns ++ [(field, column.comment)]) _ ?_ ⟨rfl, Nat.le_refl _, Nat.le_refl _⟩)))))))
    rw [hid, hs.mapped]
    exact { h with
      split := split_tail h.split
      commentRemaining := hcomments
      columnCommentRemaining := hcolumns
      fieldAlterRemaining := halters
      added := hadded
      newColumnTags := by
        rw [h.newColumnTags]
        simp [commentKey]
      tag := h.tag.skip hkind
      column := h.column.last hcolumn hlast
        ((commentOf_eq_latest hmade h.split hlast).symm.trans hcomment) }

omit [ColumnRefs] in
theorem returns_renamedSortKeys {address : EntryAddress} {renamed : Bool}
    {Q : List DuckLakeSortInfo → CommitAttempt → Prop} (hs : WrittenAs v.tableId final s)
    (hids : s.HasIds 1) (hfinal : isTransactionLocal final = false)
    (hQ : ∀ keys t, Allocates 1 s t → Q keys t) :
    Returns (renamedSortKeys address v renamed) s Q := by
  rw [renamedSortKeys]
  split
  · exact returns_sortKeys hs hids hfinal hQ
  · exact .pure (hQ _ s ⟨rfl, Nat.le_refl _, Nat.le_add_right _ _⟩)

omit [SQLWriter] [ColumnRefs] in
theorem Readds.push {info : NewTableInfo} (h : info.Readds) {tableId : TableIndex}
    {field : FieldIndex} {column : DuckLakeColumnInfo} (hcolumn : column.id = field)
    {info' : NewTableInfo} (hdropped : info'.droppedColumns = info.droppedColumns ++ [⟨tableId, field⟩])
    (hnew : info'.newColumns = info.newColumns ++ [⟨tableId, column, none⟩]) : info'.Readds := by
  intro dropped hin
  rw [hdropped, List.mem_append, List.mem_singleton] at hin
  rcases hin with hin | rfl
  · obtain ⟨new, hmem, heq⟩ := h dropped hin
    exact ⟨new, by simp [hnew, hmem], heq⟩
  · exact ⟨⟨tableId, column, none⟩, by simp [hnew], rfl, hcolumn⟩

omit [ColumnRefs] in
/-- The last rename of a column drops the column and adds it again. -/
theorem returns_alterField {address : EntryAddress} {field : FieldIndex}
    (hid : v.tableId = base.tableId) (hfield : field ∈ v.fields)
    (hv : v.localChange = .renameColumn field)
    (h : walk.Inv base staged final result (v :: rest) tags columns)
    (hs : WrittenAs base.tableId final s) (hids : s.HasIds 1)
    (hfinal : isTransactionLocal final = false)
    (hQ : ∀ walk' t, walk'.Inv base staged final result rest tags columns →
      Allocates 1 s t → Q walk' t) :
    Returns (alterField address v field walk) s Q := by
  have hkind : v.objectComment? = none := by
    rw [objectComment?, if_neg (by simp [hv])]
  have hcolumn : v.commentedField? = none := by
    rw [commentedField?, hv]
    rfl
  have halter : v.alteredField? = some field := by
    rw [alteredField?, hv]
    rfl
  have hcomments : walk.commentRemaining = rest.countP (·.localChange = .setComment) := by
    rw [h.commentRemaining, List.countP_cons_of_neg (by simp [hv])]
  have hcolumns : ∀ field, walk.columnCommentRemaining field =
      rest.countP (·.localChange.commentedField? = some field) := fun field => by
    rw [h.columnCommentRemaining, List.countP_cons_of_neg (by simp [hv,
      LocalChange.commentedField?])]
  have hremaining : walk.fieldAlterRemaining field - 1 =
      rest.countP (·.localChange.alteredField? = some field) := by
    rw [h.fieldAlterRemaining, List.countP_cons_of_pos (by simpa [alteredField?] using halter),
      Nat.add_sub_cancel]
  have halters : ∀ k, Function.update walk.fieldAlterRemaining field
      (rest.countP (·.localChange.alteredField? = some field)) k =
        rest.countP (·.localChange.alteredField? = some k) := by
    intro k
    rcases eq_or_ne k field with rfl | hk
    · rw [Function.update_self]
    · rw [Function.update_of_ne hk, h.fieldAlterRemaining, List.countP_cons_of_neg]
      rw [alteredField?] at halter
      simpa [halter] using hk.symm
  have hadded : ∀ k, (walk.txnAddedFields.lookup k).isSome → ¬ Touches alteredField? rest k :=
    fun k hk ht => h.added k hk (touches_cons.2 (.inr ht))
  rw [alterField]
  simp only [hremaining]
  split
  · refine .pure (hQ _ s ?_ ⟨rfl, Nat.le_refl _, Nat.le_add_right _ _⟩)
    exact { h with
      split := split_tail h.split
      commentRemaining := hcomments
      columnCommentRemaining := hcolumns
      fieldAlterRemaining := halters
      added := hadded
      tag := h.tag.skip hkind
      column := h.column.skip hcolumn }
  · rename_i hpos
    have hlast : ¬ Touches alteredField? rest field := fun ht =>
      hpos (countP_pos_iff_touches.2 ht)
    have hfresh : walk.txnAddedFields.lookup field = none := by
      rw [← Option.not_isSome_iff_eq_none]
      exact fun hsome => h.added field hsome (touches_cons.2 (.inl halter))
    obtain ⟨info, hinfo, hinfoId⟩ := getColumnInfo_of_mem_fields hfield
    refine .bind (returns_getTableId (.bind (.ofExcept hinfo (.bind (.modify (.bind (.modify
      (.bind (returns_renamedSortKeys (by rw [hid]; exact hs.congr rfl) hids hfinal
        fun keys t ht => .pure (hQ _ t ?_ ⟨ht.committedTables, ht.le, ht.ge⟩))))))))))
    simp only [cancelOrDropField, hfresh, pushNewColumn]
    exact { h with
      split := split_tail h.split
      commentRemaining := hcomments
      columnCommentRemaining := hcolumns
      fieldAlterRemaining := halters
      readds := Readds.push h.readds hinfoId rfl rfl
      added := fun k hk => by
        obtain ⟨entry, hentry, hkey⟩ := List.lookup_isSome_iff.1 hk
        obtain rfl : k = entry.1 := by simpa using hkey
        rcases List.mem_cons.1 hentry with rfl | hentry
        · rwa [hinfoId]
        · exact hadded _ (List.lookup_isSome_iff.2 ⟨entry, (List.mem_filter.1 hentry).1, by simp⟩)
      tag := h.tag.skip hkind
      column := h.column.skip hcolumn }

/-- A state in which more ids of this table are mapped, and no others. -/
structure MapsOnly (id : TableIndex) (s t : CommitAttempt) : Prop where
  other : ∀ id', id' ≠ id →
    t.commitState.committedTables.lookup id' = s.commitState.committedTables.lookup id'

omit [ColumnRefs] in
theorem MapsOnly.trans {id : TableIndex} {s t u : CommitAttempt} (h : MapsOnly id s t)
    (h' : MapsOnly id t u) : MapsOnly id s u :=
  ⟨fun id' hne => (h'.other id' hne).trans (h.other id' hne)⟩

omit [ColumnRefs] in
theorem MapsOnly.of_eq {id : TableIndex} {s t : CommitAttempt}
    (h : t.commitState.committedTables = s.commitState.committedTables) : MapsOnly id s t :=
  ⟨fun id' _ => by rw [h]⟩

omit [ColumnRefs] in
theorem MapsOnly.emplaced {id new : TableIndex} {s t : CommitAttempt}
    (h : t.commitState.committedTables = s.commitState.committedTables ++ [(id, new)]) :
    MapsOnly id s t := by
  refine ⟨fun id' hne => ?_⟩
  rw [h, List.lookup_append, List.lookup_singleton, if_neg (by simpa using hne), Option.or_none]

omit [ColumnRefs] in
/-- The row of a renamed table says nothing of comments. -/
theorem returns_newTableRow {address : EntryAddress} (hid : v.tableId = base.tableId)
    (hv : v.localChange = .renamed)
    (h : walk.Inv base staged final result (v :: rest) tags columns)
    (hs : WrittenAs base.tableId final s)
    (hQ : ∀ walk' t, walk'.Inv base staged final result rest tags columns →
      WrittenAs base.tableId final t → MapsOnly base.tableId s t → t.nextId = s.nextId →
      Q walk' t) :
    Returns (newTableRow address latest v walk) s Q := by
  have htail : walk.Inv base staged final result rest tags columns :=
    h.tail (by rw [objectComment?, if_neg (by simp [hv])]) (by rw [commentedField?, hv]; rfl)
      (by rw [alteredField?, hv]; rfl)
  simp only [← hid] at hs hQ
  rw [newTableRow]
  refine .bind (.bind (.get (.pure ?_)))
  simp only [hv]
  cases hlookup : s.commitState.committedTables.lookup v.tableId with
  | some id => exact .pure (hQ _ s { htail with } hs (.of_eq rfl) rfl)
  | none =>
    obtain ⟨hlocal, rfl⟩ := hs.eq_of_lookup hlookup
    simp only [emitNewTable, hv]
    refine .bind (returns_allocate_committed hlocal ?_)
    refine .bind (.bind (returns_getSchemaId (.pure ?_)))
    refine .bind (.modify (.bind (.pure (.pure ?_))))
    refine hQ _ _ { htail with } (.of_lookup ?_) (.emplaced rfl) rfl
    exact (lookup_append_of_none hlookup).trans (by simp)

/-- What holds between two versions of the walk, which started in the state `s₀`. -/
def TableWalk.Reached (base : DuckLakeTableEntry) (staged : List DuckLakeTableEntry)
    (final : TableIndex) (result : NewTableInfo) (n : ℕ) (s₀ : CommitAttempt)
    (rest : List DuckLakeTableEntry) (walk : TableWalk) (s : CommitAttempt) : Prop :=
  ∃ tags columns, walk.Inv base staged final result rest tags columns ∧
    WrittenAs base.tableId final s ∧ MapsOnly base.tableId s₀ s ∧ s₀.nextId ≤ s.nextId ∧
    s.HasIds (rest.length + n)

theorem returns_newTableStep {n : ℕ} {s₀ : CommitAttempt} {address : EntryAddress}
    (hmade : MadeFrom DuckLakeTableEntry.Alters base staged)
    (hfinal : isTransactionLocal final = false)
    (h : walk.Reached base staged final result n s₀ (v :: rest) s) :
    Returns (newTableStep latest walk (v, address)) s
      (TableWalk.Reached base staged final result n s₀ rest) := by
  obtain ⟨tags, columns, hinv, hs, honly, hle, hids⟩ := h
  obtain ⟨older, hsplit⟩ := hinv.split
  have hmem : v ∈ staged := by simp [hsplit]
  have hmade' := hmade
  rw [hsplit, List.reverse_cons, List.append_assoc, List.singleton_append] at hmade'
  have hv := hmade'.made
  have hid : v.tableId = base.tableId := (hmade.all (P := fun w => w.tableId = base.tableId) rfl
    fun u w huw hu => huw.tableId.trans hu).2 v hmem
  rw [List.length_cons, CommitAttempt.HasIds] at hids
  have hnext : ∀ t, Allocates 1 s t → WrittenAs base.tableId final t ∧ MapsOnly base.tableId s₀ t ∧
      s₀.nextId ≤ t.nextId ∧ t.HasIds (rest.length + n) := fun t ht =>
    ⟨hs.congr ht.committedTables, honly.trans (.of_eq ht.committedTables), hle.trans ht.le, by
      have hge := ht.ge
      rw [CommitAttempt.HasIds]
      omega⟩
  have hnext₀ : ∀ t, Allocates 0 s t → Allocates 1 s t := fun t ht =>
    ⟨ht.committedTables, ht.le, ht.ge.trans (Nat.le_succ _)⟩
  rcases hv.localChange with hchange | hchange | ⟨field, hfield, hchange | hchange⟩
  · rw [newTableStep, hchange]
    exact returns_setTableComment hmade hid hchange hinv hs fun walk' tags' t hinv' ht =>
      ⟨tags', columns, hinv', hnext t (hnext₀ t ht)⟩
  · rw [newTableStep, hchange]
    refine returns_newTableRow hid hchange hinv hs fun walk' t hinv' hs' honly' hid' => ?_
    refine ⟨tags, columns, hinv', hs', honly.trans honly', hid' ▸ hle, ?_⟩
    rw [CommitAttempt.HasIds, hid']
    omega
  · rw [newTableStep, hchange]
    exact returns_setColumnComment hmade hid hfield hchange hinv hs fun walk' columns' t hinv' ht =>
      ⟨tags, columns', hinv', hnext t (hnext₀ t ht)⟩
  · rw [newTableStep, hchange]
    refine returns_alterField hid hfield hchange hinv hs ?_ hfinal fun walk' t hinv' ht =>
      ⟨tags, columns, hinv', hnext t ht⟩
    rw [CommitAttempt.HasIds]
    omega

omit [SQLWriter] [ColumnRefs] in
theorem TableWalk.Inv.start (hresult : result.Readds) :
    (TableWalk.start staged result).Inv base staged final result staged.reverse [] [] where
  split := ⟨[], by simp⟩
  commentRemaining := (List.countP_reverse ..).symm
  columnCommentRemaining := fun field => (List.countP_reverse ..).symm
  fieldAlterRemaining := fun field => (List.countP_reverse ..).symm
  newTags := by simp [TableWalk.start]
  newColumnTags := by simp [TableWalk.start]
  newViewColumnTags := rfl
  readds := hresult
  added := by simp [TableWalk.start]
  tag := .start
  column := .start

/-- What the commit of the versions of a table adds to the tags. -/
def TableEmits (base : DuckLakeTableEntry) (staged : List DuckLakeTableEntry) (final : TableIndex)
    (result result' : NewTableInfo) : Prop :=
  ∃ (tags : List (Unit × Value)) (columns : List (FieldIndex × Value)),
    result'.newTags = result.newTags ++ tags.map (fun e => ⟨final, commentKey, e.2⟩) ∧
    result'.newColumnTags =
      result.newColumnTags ++ columns.map (fun e => ⟨final, e.1, commentKey, e.2⟩) ∧
    result'.newViewColumnTags = result.newViewColumnTags ∧ result'.Readds ∧
    Emission objectComment? (fun _ x => x = (staged.headD base).comment) staged [] tags ∧
    Emission commentedField? (fun field x => (staged.headD base).commentOf field = some x)
      staged [] columns

omit [ColumnRefs] in
theorem returns_finishTable (h : walk.Inv base staged final result [] tags columns)
    {Q : NewTableInfo → CommitAttempt → Prop}
    (hQ : ∀ result', TableEmits base staged final result result' → Q result' s) :
    Returns (finishTable latest walk) s Q := by
  rw [finishTable]
  refine .bind (returns_getTableId (.pure (hQ _ ⟨tags, columns, ?_⟩)))
  have hemits := And.intro h.newTags (And.intro h.newColumnTags (And.intro h.newViewColumnTags
    (And.intro h.readds (And.intro h.tag h.column))))
  split <;> split <;> exact hemits

theorem returns_walk {n : ℕ} {r : CommitAttempt}
    (hmade : MadeFrom DuckLakeTableEntry.Alters base staged)
    (hfinal : isTransactionLocal final = false) {versions : List (DuckLakeTableEntry × EntryAddress)}
    (hversions : versions.map (·.1) = rest)
    (h : walk.Reached base staged final result n r rest s) :
    Returns (versions.foldlM (newTableStep latest) walk) s
      (TableWalk.Reached base staged final result n r []) := by
  subst hversions
  exact Returns.foldlM (I := fun versions =>
      TableWalk.Reached base staged final result n r (versions.map (·.1)))
    (fun ⟨_, _⟩ _ _ _ h => returns_newTableStep hmade hfinal h) h

/-- The state after the versions of a table were written. -/
structure TableWritten (id final : TableIndex) (n : ℕ) (s t : CommitAttempt) : Prop where
  written : WrittenAs id final t
  only : MapsOnly id s t
  le : s.nextId ≤ t.nextId
  hasIds : t.HasIds n

theorem returns_getNewTableInfo {n schema entry : ℕ}
    (hmade : MadeFrom DuckLakeTableEntry.Alters base staged)
    (hid : isTransactionLocal base.tableId = false) (hresult : result.Readds)
    (hids : s.HasIds (staged.length + n)) :
    Returns (getNewTableInfo schema entry staged result) s fun result' t =>
      TableEmits base staged base.tableId result result' ∧
        TableWritten base.tableId base.tableId n s t := by
  cases staged with
  | nil =>
    refine .pure ⟨⟨[], [], by simp, by simp, rfl, hresult, .start, .start⟩, .of_committed hid,
      .of_eq rfl, Nat.le_refl _, ?_⟩
    simpa using hids
  | cons latest older =>
    refine .bind ((returns_walk hmade hid (map_fst_chainVersions ..)
      ⟨[], [], .start hresult, .of_committed hid, .of_eq rfl,
        Nat.le_refl _, by simpa using hids⟩).mono ?_)
    rintro walk t ⟨tags, columns, hinv, hs, honly, hle, hn⟩
    exact returns_finishTable hinv fun result' hemits =>
      ⟨hemits, hs, honly, hle, by simpa using hn⟩

omit [ColumnRefs] in
/-- The row of a table that this transaction creates is written first. -/
theorem returns_createdTable {n : ℕ} {address : EntryAddress}
    (hcreated : base.localChange = .created) (hid : isTransactionLocal base.tableId = true)
    (hnone : s.commitState.committedTables.lookup base.tableId = none) (hresult : result.Readds)
    (hids : s.HasIds (3 + n)) :
    Returns (newTableStep latest (TableWalk.start (staged ++ [base]) result) (base, address)) s
      fun walk t => walk.Inv base staged s.commitSnapshot.nextCatalogId result staged.reverse [] [] ∧
        WrittenAs base.tableId s.commitSnapshot.nextCatalogId t ∧ MapsOnly base.tableId s t ∧
        s.nextId < t.nextId ∧ t.HasIds n := by
  have hstart : (TableWalk.start staged result).Inv base staged s.commitSnapshot.nextCatalogId
      result staged.reverse [] [] := .start hresult
  have hroom : s.nextId + (3 + n) ≤ transactionLocalIdStart.toNat := hids
  have hafter : ∀ t : CommitAttempt,
      t.commitSnapshot.nextCatalogId = s.commitSnapshot.nextCatalogId + 1 →
        t.nextId = s.nextId + 1 := fun t ht => by
    rw [CommitAttempt.nextId, ht, toNat_nextCatalogId (n := 0)]
    rw [CommitAttempt.HasIds]
    omega
  have hfinal : isTransactionLocal s.commitSnapshot.nextCatalogId = false := by
    refine isTransactionLocal_of_lt ?_
    change s.nextId < _
    omega
  rw [newTableStep, hcreated]
  refine .bind (.bind (.get (.pure ?_)))
  simp only [hcreated, emitNewTable]
  refine .bind (returns_allocate_local hid fun hnew => ?_)
  refine .bind (.bind (returns_getSchemaId (.pure ?_)))
  simp only [decide_true, if_true]
  refine .bind (.modify ?_)
  have hlookup : (s.commitState.committedTables ++
      [(base.tableId, s.commitSnapshot.nextCatalogId)]).lookup base.tableId =
        some s.commitSnapshot.nextCatalogId := by
    rw [lookup_append_of_none hnone]
    simp
  refine .bind (.bind (returns_partitionKeys (.of_lookup hlookup) ?_ hfinal fun keys t ht => ?_))
  · rw [CommitAttempt.HasIds, hafter _ rfl]
    omega
  have hle : s.nextId + 1 ≤ t.nextId := (hafter _ rfl).symm.le.trans ht.le
  have hge : t.nextId ≤ s.nextId + 1 + 1 := ht.ge.trans_eq (congrArg (· + 1) (hafter _ rfl))
  refine .bind (returns_sortKeys ((WrittenAs.of_lookup hlookup).congr ht.committedTables) ?_ hfinal
    fun sortKeys u hu => .pure (.pure ?_))
  · rw [CommitAttempt.HasIds]
    omega
  have htables := hu.committedTables.trans ht.committedTables
  refine ⟨?_, (WrittenAs.of_lookup hlookup).congr htables, .emplaced htables,
    Nat.lt_of_lt_of_le hle hu.le, ?_⟩
  · exact { hstart with
      commentRemaining := by
        rw [← hstart.commentRemaining]
        simp [TableWalk.start, hcreated, List.countP_append]
      columnCommentRemaining := fun field => by
        rw [← hstart.columnCommentRemaining]
        simp [TableWalk.start, hcreated, List.countP_append, LocalChange.commentedField?]
      fieldAlterRemaining := fun field => by
        rw [← hstart.fieldAlterRemaining]
        simp [TableWalk.start, hcreated, List.countP_append, LocalChange.alteredField?] }
  · have hge' := hu.ge
    rw [CommitAttempt.HasIds]
    omega

theorem returns_getNewTableInfo_created {n schema entry : ℕ}
    (hmade : MadeFrom DuckLakeTableEntry.Alters base staged)
    (hcreated : base.localChange = .created) (hid : isTransactionLocal base.tableId = true)
    (hnone : s.commitState.committedTables.lookup base.tableId = none) (hresult : result.Readds)
    (hids : s.HasIds (3 + (staged.length + n))) :
    Returns (getNewTableInfo schema entry (staged ++ [base]) result) s fun result' t =>
      TableEmits base staged s.commitSnapshot.nextCatalogId result result' ∧
        TableWritten base.tableId s.commitSnapshot.nextCatalogId n s t ∧
          s.nextId < t.nextId := by
  have hfinal : isTransactionLocal s.commitSnapshot.nextCatalogId = false := by
    refine isTransactionLocal_of_lt ?_
    have hroom : s.nextId + (3 + (staged.length + n)) ≤ transactionLocalIdStart.toNat := hids
    change s.nextId < _
    omega
  have hversions := map_fst_chainVersions schema entry (staged ++ [base])
  rw [List.reverse_append, List.reverse_singleton, List.singleton_append] at hversions
  obtain ⟨⟨first, address⟩, versions, hchain, hfirst, hversions⟩ := List.map_eq_cons_iff.1 hversions
  obtain rfl : base = first := hfirst.symm
  obtain ⟨latest, older, hlatest⟩ : ∃ latest older, staged ++ [base] = latest :: older := by
    cases staged <;> exact ⟨_, _, rfl⟩
  have hwalk : Returns ((chainVersions schema entry (staged ++ [base])).foldlM
      (newTableStep latest) (TableWalk.start (staged ++ [base]) result)) s fun walk t =>
        ∃ tags columns, walk.Inv base staged s.commitSnapshot.nextCatalogId result [] tags columns ∧
          TableWritten base.tableId s.commitSnapshot.nextCatalogId n s t ∧
            s.nextId < t.nextId := by
    rw [hchain, List.foldlM_cons]
    refine .bind ((returns_createdTable hcreated hid hnone hresult hids).mono ?_)
    rintro walk t ⟨hinv, hs, honly, hlt, hroom⟩
    refine (returns_walk (r := t) (n := n) hmade hfinal hversions
      ⟨[], [], hinv, hs, .of_eq rfl, Nat.le_refl _, by simpa using hroom⟩).mono ?_
    rintro walk u ⟨tags, columns, hinv, hs', honly', hle, hn⟩
    exact ⟨tags, columns, hinv, ⟨hs', honly.trans honly', hlt.le.trans hle, by simpa using hn⟩,
      Nat.lt_of_lt_of_le hlt hle⟩
  rw [hlatest] at hwalk ⊢
  refine .bind (hwalk.mono ?_)
  rintro walk t ⟨tags, columns, hinv, hwritten, hlt⟩
  exact returns_finishTable hinv fun result' hemits => ⟨hemits, hwritten, hlt⟩

end TableSteps

end Walk

end DuckLake
