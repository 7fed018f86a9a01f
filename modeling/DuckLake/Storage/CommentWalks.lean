import DuckLake.Lib.LastChanges
import DuckLake.Storage.CommentTags
import DuckLake.Storage.CommitChanges

/-!
# The tags that a commit emits

The walk over the versions of an entry counts the comments that are left for each name or field and
emits a tag for the last one only. Its value is that of the latest version, as no later version
changes it. The row of a renamed view brings the comments of the other columns with it.
-/

namespace DuckLake

open Attempt CommitM

/-! ## The changes of a view -/

namespace DuckLakeViewEntry

/-- The change to the comment of the view itself. -/
def objectComment? (view : DuckLakeViewEntry) : Option Unit :=
  if view.localChange = .setComment then some () else none

def commentedName? (view : DuckLakeViewEntry) : Option Text :=
  view.localChange.commentedViewColumn?

end DuckLakeViewEntry

open DuckLakeViewEntry (objectComment? commentedName?)

theorem split_tail {E : Type} {v : E} {staged rest : List E}
    (h : ∃ older, staged = (v :: rest).reverse ++ older) : ∃ older, staged = rest.reverse ++ older := by
  obtain ⟨older, rfl⟩ := h
  exact ⟨v :: older, by simp⟩

section ViewChanges

variable {base v : DuckLakeViewEntry} {staged rest : List DuckLakeViewEntry}

theorem objectComment?_eq_some_iff : v.objectComment? = some () ↔ v.localChange = .setComment := by
  rw [objectComment?]
  split <;> simp_all

theorem countP_setComment : rest.countP (·.localChange = .setComment) =
    rest.countP (fun v => v.objectComment? = some ()) :=
  List.countP_congr fun v _ => by simp [objectComment?_eq_some_iff]

theorem comment_eq_latest (hmade : MadeFrom DuckLakeViewEntry.Alters base staged)
    (hsplit : ∃ older, staged = (v :: rest).reverse ++ older)
    (hrest : ¬ Touches objectComment? rest ()) : v.comment = (staged.headD base).comment := by
  obtain ⟨older, rfl⟩ := hsplit
  rw [List.reverse_cons, List.append_assoc, List.singleton_append] at hmade ⊢
  refine (hmade.keeps (p := fun v => v.localChange = .setComment)
    (fun u v huv hv => huv.comment hv) fun w hw hchange => ?_).symm
  exact hrest ⟨w, List.mem_reverse.1 hw, objectComment?_eq_some_iff.2 hchange⟩

theorem mem_columnComments_latest (hmade : MadeFrom DuckLakeViewEntry.Alters base staged)
    (hsplit : ∃ older, staged = (v :: rest).reverse ++ older) {name : Text}
    (hrest : ¬ Touches commentedName? rest name) {value : Value} :
    (name, value) ∈ v.columnComments ↔ (name, value) ∈ (staged.headD base).columnComments := by
  obtain ⟨older, rfl⟩ := hsplit
  rw [List.reverse_cons, List.append_assoc, List.singleton_append] at hmade ⊢
  refine (hmade.keeps (f := fun v => (name, value) ∈ v.columnComments)
    (p := fun v => v.localChange = .setViewColumnComment name)
    (fun u v huv hv => propext (huv.mem_columnComments hv)) fun w hw hchange => ?_).symm.to_iff
  exact hrest ⟨w, List.mem_reverse.1 hw, by simp [commentedName?, hchange,
    LocalChange.commentedViewColumn?]⟩

end ViewChanges

section Walk

variable [SQLWriter]

/-! ## Ids -/

/-- The rows of the entry with this id are written with the id `final`. -/
structure WrittenAs (id final : TableIndex) (s : CommitAttempt) : Prop where
  mapped : s.commitState.getTableId id = final
  known : isTransactionLocal id = true → s.commitState.committedTables.lookup id = some final

theorem WrittenAs.eq_of_lookup {id final : TableIndex} {s : CommitAttempt} (h : WrittenAs id final s)
    (hlookup : s.commitState.committedTables.lookup id = none) :
    isTransactionLocal id = false ∧ final = id := by
  constructor
  · rw [← Bool.not_eq_true]
    intro hlocal
    exact nomatch hlookup.symm.trans (h.known hlocal)
  · rw [← h.mapped, DuckLakeCommitState.getTableId, hlookup]
    rfl

theorem WrittenAs.congr {id final : TableIndex} {s t : CommitAttempt} (h : WrittenAs id final s)
    (hst : t.commitState.committedTables = s.commitState.committedTables) :
    WrittenAs id final t := by
  obtain ⟨hmapped, hknown⟩ := h
  refine ⟨?_, by rwa [hst]⟩
  rw [DuckLakeCommitState.getTableId] at hmapped ⊢
  rwa [hst]

theorem WrittenAs.of_lookup {id final : TableIndex} {s : CommitAttempt}
    (h : s.commitState.committedTables.lookup id = some final) : WrittenAs id final s := by
  refine ⟨?_, fun _ => h⟩
  rw [DuckLakeCommitState.getTableId, h]
  rfl

theorem WrittenAs.of_committed {id : TableIndex} {s : CommitAttempt}
    (h : isTransactionLocal id = false) : WrittenAs id id s :=
  ⟨s.commitState.getTableId_of_committed h, fun hlocal => nomatch h.symm.trans hlocal⟩

theorem returns_getTableId {id : TableIndex} {s : CommitAttempt}
    {Q : TableIndex → CommitAttempt → Prop} (h : Q (s.commitState.getTableId id) s) :
    Returns (getTableId id) s Q := ⟨_, s, rfl, h⟩

theorem returns_getSchemaId {id : SchemaIndex} {s : CommitAttempt}
    {Q : SchemaIndex → CommitAttempt → Prop} (h : Q (s.commitState.getSchemaId id) s) :
    Returns (getSchemaId id) s Q := ⟨_, s, rfl, h⟩

theorem returns_ensure {cond : Bool} {message : Text} {s : CommitAttempt}
    {Q : Unit → CommitAttempt → Prop} (hcond : cond = true) (h : Q () s) :
    Returns (ensure cond message) s Q := by
  subst hcond
  exact .ofExcept rfl h

theorem returns_allocate_committed {id : TableIndex} (hid : isTransactionLocal id = false)
    {s : CommitAttempt} {Q : {new : TableIndex // isTransactionLocal id = false → new = id} →
      CommitAttempt → Prop} (h : Q ⟨id, fun _ => rfl⟩ s) : Returns (allocateTableId id) s Q := by
  rw [allocateTableId, dif_neg (by simp [hid])]
  exact .pure h

/-- A new object gets the next id. -/
theorem returns_allocate_local {id : TableIndex} (hid : isTransactionLocal id = true)
    {s : CommitAttempt} {Q : {new : TableIndex // isTransactionLocal id = false → new = id} →
      CommitAttempt → Prop}
    (h : ∀ hnew, Q ⟨s.commitSnapshot.nextCatalogId, hnew⟩
      { s with commitSnapshot.nextCatalogId := s.commitSnapshot.nextCatalogId + 1 }) :
    Returns (allocateTableId id) s Q := by
  rw [allocateTableId, dif_pos hid]
  exact .bind (.modifyGet (.pure (h _)))

omit [SQLWriter] in
theorem lookup_append_of_none {α β : Type} [DecidableEq α] {l l' : List (α × β)} {a : α}
    (h : l.lookup a = none) : (l ++ l').lookup a = l'.lookup a := by
  rw [List.lookup_append, h]
  rfl

/-! ## Views -/

/-- The walk over the versions of a view, with `rest` left to do. -/
structure ViewWalk.Inv (base : DuckLakeViewEntry) (staged : List DuckLakeViewEntry)
    (final : TableIndex) (result : NewTableInfo) (rest : List DuckLakeViewEntry) (walk : ViewWalk)
    (tags : List (Unit × Value)) (columns : List (Text × Value)) : Prop where
  split : ∃ older, staged = rest.reverse ++ older
  commentRemaining : walk.commentRemaining = rest.countP (·.localChange = .setComment)
  columnCommentRemaining : ∀ name, walk.columnCommentRemaining name =
    rest.countP (·.localChange.commentedViewColumn? = some name)
  commentedColumns : ∀ name, name ∈ walk.commentedColumns ↔ Touches commentedName? staged name
  newTags : walk.result.newTags =
    result.newTags ++ tags.map fun e => ⟨final, commentKey, e.2⟩
  newViewColumnTags : walk.result.newViewColumnTags =
    result.newViewColumnTags ++ columns.map fun e => ⟨final, e.1, commentKey, e.2⟩
  newColumnTags : walk.result.newColumnTags = result.newColumnTags
  expiredColumnTags : walk.result.expiredColumnTags = result.expiredColumnTags
  tag : Emission objectComment? (fun _ x => x = (staged.headD base).comment) staged rest tags
  column : Emission commentedName? (fun name x => (name, x) ∈ (staged.headD base).columnComments)
    staged rest columns

section ViewSteps

variable {base v : DuckLakeViewEntry} {staged rest : List DuckLakeViewEntry} {final : TableIndex}
  {result : NewTableInfo} {walk : ViewWalk} {tags : List (Unit × Value)}
  {columns : List (Text × Value)} {s : CommitAttempt} {Q : ViewWalk → CommitAttempt → Prop}

theorem returns_setViewComment (hmade : MadeFrom DuckLakeViewEntry.Alters base staged)
    (hid : v.viewId = base.viewId) (hv : v.localChange = .setComment)
    (h : walk.Inv base staged final result (v :: rest) tags columns)
    (hs : WrittenAs base.viewId final s)
    (hQ : ∀ walk' tags' t, walk'.Inv base staged final result rest tags' columns →
      t.commitState = s.commitState → t.commitSnapshot = s.commitSnapshot → Q walk' t) :
    Returns (setViewComment v walk) s Q := by
  have hkind : v.objectComment? = some () := objectComment?_eq_some_iff.2 hv
  have hname : v.commentedName? = none := by
    rw [commentedName?, hv]
    rfl
  have hremaining : walk.commentRemaining - 1 =
      rest.countP (·.localChange = .setComment) := by
    rw [h.commentRemaining, List.countP_cons_of_pos (by simp [hv]), Nat.add_sub_cancel]
  have hcolumns : ∀ name, walk.columnCommentRemaining name =
      rest.countP (·.localChange.commentedViewColumn? = some name) := fun name => by
    rw [h.columnCommentRemaining, List.countP_cons_of_neg (by simp [hv,
      LocalChange.commentedViewColumn?])]
  rw [setViewComment]
  simp only [hremaining]
  rw [countP_setComment]
  split
  · rename_i hpos
    refine .pure (hQ _ tags s ?_ rfl rfl)
    exact { h with
      split := split_tail h.split
      commentRemaining := countP_setComment.symm
      columnCommentRemaining := hcolumns
      tag := h.tag.superseded hkind (countP_pos_iff_touches.1 hpos)
      column := h.column.skip hname }
  · rename_i hpos
    have hlast : ¬ Touches objectComment? rest () := fun ht => hpos (countP_pos_iff_touches.2 ht)
    refine .bind (returns_getTableId (.bind (.modify (.pure (hQ _ (tags ++ [((), v.comment)]) _ ?_
      rfl rfl)))))
    rw [hid, hs.mapped]
    exact { h with
      split := split_tail h.split
      commentRemaining := countP_setComment.symm
      columnCommentRemaining := hcolumns
      newTags := by
        rw [h.newTags]
        simp [commentKey]
      tag := h.tag.last hkind hlast (comment_eq_latest hmade h.split hlast)
      column := h.column.skip hname }

theorem returns_setViewColumnComment {name : Text} {value : Value}
    (hmade : MadeFrom DuckLakeViewEntry.Alters base staged) (hid : v.viewId = base.viewId)
    (hdistinct : v.Distinct) (hne : name ≠ []) (hv : v.localChange = .setViewColumnComment name)
    (hvalue : (name, value) ∈ v.columnComments)
    (h : walk.Inv base staged final result (v :: rest) tags columns)
    (hs : WrittenAs base.viewId final s)
    (hQ : ∀ walk' columns' t, walk'.Inv base staged final result rest tags columns' →
      (∀ k ∈ columns'.map (·.1), k ∈ columns.map (·.1) ∨ k = name) →
      t.commitState = s.commitState → t.commitSnapshot = s.commitSnapshot → Q walk' t) :
    Returns (setViewColumnComment v name walk) s Q := by
  have hkind : v.objectComment? = none := by
    rw [objectComment?, if_neg (by simp [hv])]
  have hname : v.commentedName? = some name := by
    rw [commentedName?, hv]
    rfl
  have hcomments : walk.commentRemaining = rest.countP (·.localChange = .setComment) := by
    rw [h.commentRemaining, List.countP_cons_of_neg (by simp [hv])]
  have hremaining : walk.columnCommentRemaining name - 1 =
      rest.countP (·.localChange.commentedViewColumn? = some name) := by
    rw [h.columnCommentRemaining, List.countP_cons_of_pos (by simpa [commentedName?] using hname),
      Nat.add_sub_cancel]
  have hcolumns : ∀ k, Function.update walk.columnCommentRemaining name
      (rest.countP (·.localChange.commentedViewColumn? = some name)) k =
        rest.countP (·.localChange.commentedViewColumn? = some k) := by
    intro k
    rcases eq_or_ne k name with rfl | hk
    · rw [Function.update_self]
    · rw [Function.update_of_ne hk, h.columnCommentRemaining, List.countP_cons_of_neg]
      rw [commentedName?] at hname
      simpa [hname] using hk.symm
  rw [setViewColumnComment]
  refine .bind (returns_ensure (by simpa using hne) ?_)
  simp only [hremaining]
  split
  · rename_i hpos
    refine .pure (hQ _ columns s ?_ (fun k hk => .inl hk) rfl rfl)
    exact { h with
      split := split_tail h.split
      commentRemaining := hcomments
      columnCommentRemaining := hcolumns
      tag := h.tag.skip hkind
      column := h.column.superseded hname (countP_pos_iff_touches.1 hpos) }
  · rename_i hpos
    have hlast : ¬ Touches commentedName? rest name := fun ht =>
      hpos (countP_pos_iff_touches.2 ht)
    refine .bind (returns_getTableId (.bind (.modify (.pure (hQ _ (columns ++ [(name, value)]) _ ?_
      (fun k hk => by simpa using hk) rfl rfl)))))
    have hfind : (v.columnComments.find? fun e => Text.ciEquals e.1 name).bind (·.2) = value :=
      DuckLakeViewEntry.columnComment_of_mem hdistinct hvalue
    rw [hid, hs.mapped, hfind]
    exact { h with
      split := split_tail h.split
      commentRemaining := hcomments
      columnCommentRemaining := hcolumns
      newViewColumnTags := by
        rw [h.newViewColumnTags]
        simp [commentKey]
      tag := h.tag.skip hkind
      column := h.column.last hname hlast
        ((mem_columnComments_latest hmade h.split hlast).1 hvalue) }

/-- The row of a renamed view: it is written once, and with the comments of the columns that no
version comments on. -/
theorem returns_newViewRow (hmade : MadeFrom DuckLakeViewEntry.Alters base staged)
    (hid : v.viewId = base.viewId) (hdistinct : v.Distinct) (hv : v.localChange = .renamed)
    (h : walk.Inv base staged final result (v :: rest) tags columns)
    (hs : WrittenAs base.viewId final s)
    (hcolumns : s.commitState.committedTables.lookup base.viewId = none →
      ∀ k ∈ columns.map (·.1), Touches commentedName? staged k)
    (hQ : ∀ walk' columns' t, walk'.Inv base staged final result rest tags columns' →
      (t.commitState.committedTables.lookup base.viewId).isSome → WrittenAs base.viewId final t →
      t.commitSnapshot = s.commitSnapshot → Q walk' t) :
    Returns (newViewRow v walk) s Q := by
  have hkind : v.objectComment? = none := by
    rw [objectComment?, if_neg (by simp [hv])]
  have hname : v.commentedName? = none := by
    rw [commentedName?, hv]
    rfl
  have htail : walk.Inv base staged final result rest tags columns :=
    { h with
      split := split_tail h.split
      commentRemaining := by rw [h.commentRemaining, List.countP_cons_of_neg (by simp [hv])]
      columnCommentRemaining := fun name => by
        rw [h.columnCommentRemaining, List.countP_cons_of_neg (by simp [hv,
          LocalChange.commentedViewColumn?])]
      tag := h.tag.skip hkind
      column := h.column.skip hname }
  simp only [← hid] at hs hcolumns hQ
  rw [newViewRow]
  refine .bind (.bind (.get (.pure ?_)))
  simp only [hv]
  cases hlookup : s.commitState.committedTables.lookup v.viewId with
  | some id => exact .pure (hQ _ columns s { htail with } (by simp [hlookup]) hs rfl)
  | none =>
    obtain ⟨hlocal, rfl⟩ := hs.eq_of_lookup hlookup
    simp only [emitNewView]
    refine .bind (returns_allocate_committed hlocal ?_)
    refine .bind (returns_getSchemaId (.bind (.modify (.pure ?_))))
    have hsome : ((s.commitState.committedTables ++ [(v.viewId, v.viewId)]).lookup v.viewId) =
        some v.viewId := by
      rw [lookup_append_of_none hlookup]
      simp
    refine hQ _ (columns ++ v.columnComments.filter fun e => !walk.commentedColumns.contains e.1) _
      ?_ (by simp [hsome]) (.of_lookup hsome) rfl
    have hcarried : ∀ e ∈ v.columnComments.filter fun e => !walk.commentedColumns.contains e.1,
        (e.1, e.2) ∈ (staged.headD base).columnComments ∧ ¬ Touches commentedName? staged e.1 := by
      intro e he
      obtain ⟨he, hfree⟩ := List.mem_filter.1 he
      have hnot : ¬ Touches commentedName? staged e.1 := by
        rw [← h.commentedColumns]
        simpa using hfree
      refine ⟨(mem_columnComments_latest hmade h.split fun ht => hnot ?_).1 he, hnot⟩
      obtain ⟨older, rfl⟩ := h.split
      obtain ⟨w, hw, hk⟩ := ht
      exact ⟨w, by simp [hw], hk⟩
    exact { htail with
      newViewColumnTags := by
        rw [h.newViewColumnTags]
        simp [hv, commentKey]
      column := htail.column.extend
        (fun k ⟨w, hw, hk⟩ => by
          obtain ⟨older, heq⟩ := htail.split
          exact ⟨w, by simp [heq, hw], hk⟩)
        hcarried
        ((hdistinct.imp fun hne heq => hne (congrArg Text.fold heq)).filter _ |>.map _
          fun _ _ h => h)
        (hcolumns hlookup) }

/-- What holds between two versions of the walk. -/
def ViewWalk.Reached (base : DuckLakeViewEntry) (staged : List DuckLakeViewEntry)
    (final : TableIndex) (result : NewTableInfo) (snapshot : DuckLakeSnapshot)
    (rest : List DuckLakeViewEntry) (walk : ViewWalk) (s : CommitAttempt) : Prop :=
  ∃ tags columns, walk.Inv base staged final result rest tags columns ∧
    WrittenAs base.viewId final s ∧
    (s.commitState.committedTables.lookup base.viewId = none →
      ∀ k ∈ columns.map (·.1), Touches commentedName? staged k) ∧
    s.commitSnapshot = snapshot

theorem returns_newViewStep {snapshot : DuckLakeSnapshot}
    (hmade : MadeFrom DuckLakeViewEntry.Alters base staged) (hbase : base.Distinct)
    (h : walk.Reached base staged final result snapshot (v :: rest) s) :
    Returns (newViewStep walk v) s (ViewWalk.Reached base staged final result snapshot rest) := by
  obtain ⟨tags, columns, hinv, hs, hcolumns, hsnapshot⟩ := h
  obtain ⟨older, hsplit⟩ := hinv.split
  have hmem : v ∈ staged := by simp [hsplit]
  have hmade' := hmade
  rw [hsplit, List.reverse_cons, List.append_assoc, List.singleton_append] at hmade'
  have hv := hmade'.made
  obtain ⟨hid, hdistinct⟩ := (hmade.all (P := fun w => w.viewId = base.viewId ∧ w.Distinct)
    ⟨rfl, hbase⟩ fun u w huw hu => ⟨huw.viewId.trans hu.1, huw.distinct hu.2⟩).2 v hmem
  rcases hv.localChange with hchange | hchange | ⟨name, hne, hchange⟩
  · rw [newViewStep, hchange]
    refine returns_setViewComment hmade hid hchange hinv hs
      fun walk' tags' t hinv' hstate hsnap => ?_
    exact ⟨tags', columns, hinv', hs.congr (by rw [hstate]), by rwa [hstate],
      hsnap.trans hsnapshot⟩
  · rw [newViewStep, hchange]
    refine returns_newViewRow hmade hid hdistinct hchange hinv hs hcolumns
      fun walk' columns' t hinv' hsome hs' hsnap => ?_
    exact ⟨tags, columns', hinv', hs', fun hnone => by simp [hnone] at hsome,
      hsnap.trans hsnapshot⟩
  · obtain ⟨value, hvalue⟩ := hv.exists_mem_columnComments hchange
    rw [newViewStep, hchange]
    refine returns_setViewColumnComment hmade hid hdistinct hne hchange hvalue hinv hs
      fun walk' columns' t hinv' hnames hstate hsnap => ?_
    refine ⟨tags, columns', hinv', hs.congr (by rw [hstate]), fun hnone k hk => ?_,
      hsnap.trans hsnapshot⟩
    rcases hnames k hk with hk | rfl
    · exact hcolumns (by rwa [hstate] at hnone) k hk
    · exact ⟨v, hmem, by rw [commentedName?, hchange]; rfl⟩

omit [SQLWriter] in
/-- The walk over the versions that statements made, from its start on. -/
theorem ViewWalk.Inv.start (hwalk : walk = ViewWalk.start staged result) :
    walk.Inv base staged final result staged.reverse [] [] := by
  subst hwalk
  exact {
    split := ⟨[], by simp⟩
    commentRemaining := (List.countP_reverse ..).symm
    columnCommentRemaining := fun name => (List.countP_reverse ..).symm
    commentedColumns := fun name => by
      simp [ViewWalk.start, Touches, commentedName?]
    newTags := by simp [ViewWalk.start]
    newViewColumnTags := by simp [ViewWalk.start]
    newColumnTags := rfl
    expiredColumnTags := rfl
    tag := .start
    column := .start }

/-- What the commit of the versions of a view adds to the tags. -/
def ViewEmits (base : DuckLakeViewEntry) (staged : List DuckLakeViewEntry) (final : TableIndex)
    (result result' : NewTableInfo) : Prop :=
  ∃ (walk : ViewWalk) (tags : List (Unit × Value)) (columns : List (Text × Value)),
    walk.result = result' ∧ walk.Inv base staged final result [] tags columns

theorem returns_getNewViewInfo (hmade : MadeFrom DuckLakeViewEntry.Alters base staged)
    (hbase : base.Distinct) (hid : isTransactionLocal base.viewId = false) :
    Returns (getNewViewInfo staged result) s fun result' t =>
      ViewEmits base staged base.viewId result result' ∧ WrittenAs base.viewId base.viewId t ∧
        t.commitSnapshot = s.commitSnapshot := by
  have hloop : Returns (staged.reverse.foldlM newViewStep (ViewWalk.start staged result)) s
      (ViewWalk.Reached base staged base.viewId result s.commitSnapshot []) :=
    Returns.foldlM
      (I := ViewWalk.Reached base staged base.viewId result s.commitSnapshot)
      (fun _ _ _ _ h => returns_newViewStep hmade hbase h)
      ⟨[], [], .start rfl, .of_committed hid, by simp, rfl⟩
  refine .bind (hloop.mono ?_)
  rintro walk t ⟨tags, columns, hinv, hs, -, hsnapshot⟩
  exact .pure ⟨⟨walk, tags, columns, rfl, hinv⟩, hs, hsnapshot⟩

/-- The row of a view that this transaction creates is written first. -/
theorem returns_getNewViewInfo_created (hmade : MadeFrom DuckLakeViewEntry.Alters base staged)
    (hbase : base.Distinct) (hcreated : base.localChange = .created)
    (hid : isTransactionLocal base.viewId = true)
    (hnone : s.commitState.committedTables.lookup base.viewId = none) :
    Returns (getNewViewInfo (staged ++ [base]) result) s fun result' t =>
      ViewEmits base staged s.commitSnapshot.nextCatalogId result result' ∧
        WrittenAs base.viewId s.commitSnapshot.nextCatalogId t ∧
        t.commitSnapshot.nextCatalogId = s.commitSnapshot.nextCatalogId + 1 := by
  rw [getNewViewInfo, List.reverse_append, List.reverse_singleton, List.singleton_append,
    List.foldlM_cons]
  have hfirst : Returns (newViewStep (ViewWalk.start (staged ++ [base]) result) base) s
      fun walk t => walk.Inv base staged s.commitSnapshot.nextCatalogId result staged.reverse [] [] ∧
        WrittenAs base.viewId s.commitSnapshot.nextCatalogId t ∧
        t.commitSnapshot.nextCatalogId = s.commitSnapshot.nextCatalogId + 1 := by
    rw [newViewStep, hcreated]
    refine .bind (.bind (.get (.pure ?_)))
    simp only [hcreated]
    refine .bind (returns_allocate_local hid fun hnew => ?_)
    refine .bind (returns_getSchemaId (.bind (.modify (.pure ?_))))
    have hsome : ((s.commitState.committedTables ++
        [(base.viewId, s.commitSnapshot.nextCatalogId)]).lookup base.viewId) =
          some s.commitSnapshot.nextCatalogId := by
      rw [lookup_append_of_none hnone]
      simp
    have hstart : (ViewWalk.start staged result).Inv base staged
        s.commitSnapshot.nextCatalogId result staged.reverse [] [] := .start rfl
    refine ⟨?_, .of_lookup hsome, rfl⟩
    exact { hstart with
      commentRemaining := by
        rw [← hstart.commentRemaining]
        simp [ViewWalk.start, hcreated, List.countP_append]
      columnCommentRemaining := fun name => by
        rw [← hstart.columnCommentRemaining]
        simp [ViewWalk.start, hcreated, List.countP_append, LocalChange.commentedViewColumn?]
      commentedColumns := fun name => by
        rw [← hstart.commentedColumns]
        simp [ViewWalk.start, hcreated, LocalChange.commentedViewColumn?]
      newViewColumnTags := by simp [ViewWalk.start, hcreated] }
  refine .bind (.bind (hfirst.mono ?_))
  rintro walk t ⟨hinv, hs, hnext⟩
  have hloop : Returns (staged.reverse.foldlM newViewStep walk) t
      (ViewWalk.Reached base staged s.commitSnapshot.nextCatalogId result t.commitSnapshot []) :=
    Returns.foldlM
      (I := ViewWalk.Reached base staged s.commitSnapshot.nextCatalogId result t.commitSnapshot)
      (fun _ _ _ _ h => returns_newViewStep hmade hbase h) ⟨[], [], hinv, hs, by simp, rfl⟩
  refine hloop.mono ?_
  rintro walk u ⟨tags, columns, hinv, hs, -, hsnapshot⟩
  exact .pure ⟨⟨walk, tags, columns, rfl, hinv⟩, hs, by rw [hsnapshot, hnext]⟩

end ViewSteps

end Walk

end DuckLake
