import DuckLake.Storage.CommentSession
import DuckLake.Storage.CommentsStored

/-!
# Comments over the transactions of a session

A commit writes the tags of all versions and loads the entries again. Whatever the order of the
statements, the last comment wins, and it is stored once, as long as a column of the view is
commented on under one spelling of its name.
-/

namespace DuckLake

open CommitM TimedRow

section Runs

variable [SQLWriter] [ColumnRefs]

/-! ## Runs -/

inductive CommentAction where
  | table (statement : TableStatement)
  | view (statement : ViewStatement)
  | commit

/-- The versions that a commit writes: an entry that was loaded is not one of them. -/
def tableVersions (table : VersionChain DuckLakeTableEntry) : List DuckLakeTableEntry :=
  if table.base.localChange = .created then table.staged ++ [table.base] else table.staged

def viewVersions (view : VersionChain DuckLakeViewEntry) : List DuckLakeViewEntry :=
  if view.base.localChange = .created then view.staged ++ [view.base] else view.staged

namespace CommentState

/-- The attempt that commits the transaction. -/
def attempt (s : CommentState) : CommitAttempt where
  commitSnapshot := { s.snapshot with
    snapshotId := s.snapshot.snapshotId + 1, schemaVersion := s.snapshot.schemaVersion + 1 }
  changes := {}
  droppedFileStats := []

/-- The rows of both entries, and the ids that they are written with. -/
def emitEntries (s : CommentState) : CommitM (NewTableInfo × TableIndex × TableIndex) := do
  let result ← getNewTableInfo 0 0 (tableVersions s.table) {}
  let tableId ← getTableId s.table.base.tableId
  let result ← getNewViewInfo (viewVersions s.view) result
  let viewId ← getTableId s.view.base.viewId
  return (result, tableId, viewId)

/-- Writes the tags and loads the entries with them. What else the entries hold is taken from the
latest versions. -/
def applyEntries (s : CommentState) (info : NewTableInfo) (tableId viewId : TableIndex)
    (nextCatalogId : Idx) : CommentState :=
  let snapshotId := s.snapshot.snapshotId + 1
  let tags := writeNewTags snapshotId info.newTags s.tags
  let columnTags := writeExpiredColumnTags snapshotId info.expiredColumnTags
    (writeNewColumnTags snapshotId info.newColumnTags s.columnTags)
  let viewColumnTags := writeNewViewColumnTags snapshotId info.newViewColumnTags s.viewColumnTags
  { s with
    snapshot := { s.attempt.commitSnapshot with nextCatalogId := nextCatalogId }
    tags, columnTags, viewColumnTags
    table.base := s.table.current.load (visible tags snapshotId) (visible columnTags snapshotId)
      tableId
    table.staged := []
    view.base := s.view.current.load (visible tags snapshotId) (visible viewColumnTags snapshotId)
      viewId
    view.staged := [] }

def commit (s : CommentState) : CommentState :=
  match Attempt.run s.emitEntries s.attempt with
  | (.error _, _) => s
  | (.ok (info, tableId, viewId), t) =>
    s.applyEntries info tableId viewId t.commitSnapshot.nextCatalogId

def step (s : CommentState) : CommentAction → CommentState
  | .table statement => s.runTable statement
  | .view statement => s.runView statement
  | .commit => s.commit

def run (s : CommentState) (actions : List CommentAction) : CommentState := actions.foldl step s

/-- The catalog has ids left for what a commit writes, and a column of the view is commented on
under one spelling of its name. -/
def Allows (s : CommentState) : CommentAction → Prop
  | .table _ => True
  | .view statement => s.view.current.KeepsSpelling statement
  | .commit => s.attempt.HasIds (3 + (s.table.staged.length + 1))

/-- Every action of the run is allowed in the state that it finds. -/
def AllowsAll (s : CommentState) : List CommentAction → Prop
  | [] => True
  | action :: actions => s.Allows action ∧ (s.step action).AllowsAll actions

end CommentState

/-! ## What a commit emits -/

namespace CommentState

variable {s : CommentState}

omit [SQLWriter] [ColumnRefs] in
/-- Nothing is stored yet under an id that was never given out. -/
theorem tells_none_of_fresh {τ κ : Type} {key : τ → κ} {value : τ → Value} {k : κ} {l : List τ}
    {c : Value} (hc : c = none) (h : ∀ t ∈ l, key t ≠ k) : Tells key value k c l :=
  ⟨fun t ht hk => absurd hk (h t ht), fun hne => absurd hc hne⟩

omit [SQLWriter] in
theorem Inv.tableStored_created (h : s.Inv) (hcomment : s.table.base.comment = none)
    (hcolumns : ∀ column ∈ s.table.base.columns, column.comment = none) {id : TableIndex}
    (hid : ¬ s.Fresh id) :
    TableStored (live s.tags) (live s.columnTags) id s.table.base := by
  constructor
  · refine tells_none_of_fresh hcomment fun t ht hk => ?_
    obtain rfl : t.id = id := congrArg Prod.fst hk
    exact hid (h.tags_lt t ht)
  · intro field c hc
    rw [DuckLakeTableEntry.commentOf] at hc
    obtain ⟨column, hcolumn, rfl⟩ := Option.map_eq_some_iff.1 hc
    refine tells_none_of_fresh (hcolumns column (List.mem_of_find?_eq_some hcolumn))
      fun t ht hk => ?_
    obtain rfl : t.tableId = id := congrArg Prod.fst hk
    exact hid (h.columnTags_lt t ht)

omit [SQLWriter] in
theorem Inv.viewStored_created (h : s.Inv) (hcomment : s.view.base.comment = none)
    (hcolumns : s.view.base.columnComments = []) {id : TableIndex} (hid : ¬ s.Fresh id) :
    ViewStored (live s.tags) (live s.viewColumnTags) id s.view.base := by
  constructor
  · refine tells_none_of_fresh hcomment fun t ht hk => ?_
    obtain rfl : t.id = id := congrArg Prod.fst hk
    exact hid (h.tags_lt t ht)
  · intro name value
    rw [hcolumns]
    exact iff_of_false (fun ht => hid (h.viewColumnTags_lt _ ht)) (by simp)

/-- What is known of the id that an entry is written with. -/
structure Assigned (id final : TableIndex) (first : ℕ) (t : CommitAttempt) : Prop where
  written : WrittenAs id final t
  committed : isTransactionLocal final = false
  lt : final.toNat < t.nextId
  assigned : final = id ∨ final.toNat = first

theorem Inv.returns_table (h : s.Inv) (hids : s.Allows .commit) :
    Attempt.Returns (getNewTableInfo 0 0 (tableVersions s.table) {}) s.attempt fun info t =>
      ∃ final, Assigned s.table.base.tableId final s.attempt.nextId t ∧
        TableEmits s.table.base s.table.staged final {} info ∧
        TableStored (live s.tags) (live s.columnTags) final s.table.base ∧
        MapsOnly s.table.base.tableId s.attempt t ∧ s.attempt.nextId ≤ t.nextId ∧ t.HasIds 1 := by
  have hroom : s.attempt.nextId + (3 + (s.table.staged.length + 1)) ≤
      transactionLocalIdStart.toNat := hids
  rcases h.table_base with ⟨hloaded, hstored⟩ | ⟨hcreated, hcomment, hcolumns⟩
  · rw [tableVersions, if_neg hloaded.change]
    refine (returns_getNewTableInfo (n := 1) h.table_made hloaded.committed
      (by simp [NewTableInfo.Readds]) ?_).mono ?_
    · rw [CommitAttempt.HasIds]
      omega
    · rintro info t ⟨hemits, hwritten⟩
      exact ⟨_, ⟨hwritten.written, hloaded.committed, Nat.lt_of_lt_of_le hloaded.lt hwritten.le,
        .inl rfl⟩, hemits, hstored, hwritten.only, hwritten.le, hwritten.hasIds⟩
  · rw [tableVersions, if_pos hcreated.change]
    refine (returns_getNewTableInfo_created (n := 1) h.table_made hcreated.change
      hcreated.isLocal rfl (by simp [NewTableInfo.Readds]) hids).mono ?_
    rintro info t ⟨hemits, hwritten, hlt⟩
    refine ⟨_, ⟨hwritten.written, isTransactionLocal_of_lt ?_, hlt, .inr rfl⟩, hemits,
      h.tableStored_created hcomment hcolumns (Nat.lt_irrefl _), hwritten.only, hwritten.le,
      hwritten.hasIds⟩
    change s.attempt.nextId < _
    omega

theorem Inv.returns_view (h : s.Inv) {info : NewTableInfo} {t : CommitAttempt}
    (honly : MapsOnly s.table.base.tableId s.attempt t) (hle : s.attempt.nextId ≤ t.nextId)
    (hids : t.HasIds 1) :
    Attempt.Returns (getNewViewInfo (viewVersions s.view) info) t fun info' u =>
      ∃ final, Assigned s.view.base.viewId final t.nextId u ∧
        ViewEmits s.view.base s.view.staged final info info' ∧
        ViewStored (live s.tags) (live s.viewColumnTags) final s.view.base ∧
        t.nextId ≤ u.nextId := by
  rcases h.view_base with ⟨hloaded, hstored⟩ | ⟨hcreated, hcomment, hcolumns⟩
  · rw [viewVersions, if_neg hloaded.change]
    refine (returns_getNewViewInfo h.view_made h.view_distinct hloaded.committed).mono ?_
    rintro info' u ⟨hemits, hwritten, hsnapshot⟩
    have hnext : u.nextId = t.nextId := by rw [CommitAttempt.nextId, hsnapshot]; rfl
    refine ⟨_, ⟨hwritten, hloaded.committed, ?_, .inl rfl⟩, hemits, hstored, hnext.ge⟩
    rw [hnext]
    exact Nat.lt_of_lt_of_le hloaded.lt hle
  · have hnone : t.commitState.committedTables.lookup s.view.base.viewId = none :=
      honly.other _ h.ids_ne.symm
    rw [viewVersions, if_pos hcreated.change]
    refine (returns_getNewViewInfo_created h.view_made h.view_distinct hcreated.change
      hcreated.isLocal hnone).mono ?_
    rintro info' u ⟨hemits, hwritten, hsnapshot⟩
    have hnext : u.nextId = t.nextId + 1 := by
      rw [CommitAttempt.nextId, hsnapshot, toNat_nextCatalogId (n := 0) hids]
    refine ⟨_, ⟨hwritten, isTransactionLocal_of_lt ?_, ?_, .inr rfl⟩, hemits,
      h.viewStored_created hcomment hcolumns (Nat.not_lt.2 hle), by omega⟩
    · have hroom : t.nextId + 1 ≤ transactionLocalIdStart.toNat := hids
      change t.nextId < _
      omega
    · change t.nextId < u.nextId
      omega

theorem Inv.applyEntries (h : s.Inv) {info₁ info : NewTableInfo} {tableId viewId : TableIndex}
    {next : Idx} (htable : TableEmits s.table.base s.table.staged tableId {} info₁)
    (hview : ViewEmits s.view.base s.view.staged viewId info₁ info)
    (htableStored : TableStored (live s.tags) (live s.columnTags) tableId s.table.base)
    (hviewStored : ViewStored (live s.tags) (live s.viewColumnTags) viewId s.view.base)
    (hne : tableId ≠ viewId) (htableId : isTransactionLocal tableId = false)
    (hviewId : isTransactionLocal viewId = false) (htableLt : tableId.toNat < next.toNat)
    (hviewLt : viewId.toNat < next.toNat) (hle : s.snapshot.nextCatalogId.toNat ≤ next.toNat) :
    (s.applyEntries info tableId viewId next).Inv := by
  obtain ⟨tableTags, columns, htags, hcolumns, hnone, hreadds, htag, hcolumn⟩ := id htable
  obtain ⟨walk, viewTags, viewColumns, rfl, hinv⟩ := id hview
  have hnewTags : walk.result.newTags =
      tableTags.map (fun e => (⟨tableId, commentKey, e.2⟩ : DuckLakeTagInfo)) ++
        viewTags.map (fun e => (⟨viewId, commentKey, e.2⟩ : DuckLakeTagInfo)) := by
    rw [hinv.newTags, htags]
    rfl
  have hnewColumnTags : walk.result.newColumnTags = columns.map fun e =>
      (⟨tableId, e.1, commentKey, e.2⟩ : DuckLakeColumnTagInfo) := by
    rw [hinv.newColumnTags, hcolumns]
    rfl
  have hnewViewColumnTags : walk.result.newViewColumnTags =
      emittedColumnTags viewId viewColumns := by
    rw [hinv.newViewColumnTags, hnone]
    rfl
  have hexpired : walk.result.expiredColumnTags = [] := by
    rw [hinv.expiredColumnTags, hreadds.expiredColumnTags]
  have hlater := Nat.le_succ s.snapshot.snapshotId
  have htags' : SettledAt (writeNewTags (s.snapshot.snapshotId + 1) walk.result.newTags s.tags)
      (s.snapshot.snapshotId + 1) := (h.tags_settled.mono hlater).overwrite
  have hcolumnTags' : SettledAt (writeExpiredColumnTags (s.snapshot.snapshotId + 1)
      walk.result.expiredColumnTags (writeNewColumnTags (s.snapshot.snapshotId + 1)
        walk.result.newColumnTags s.columnTags)) (s.snapshot.snapshotId + 1) :=
    ((h.columnTags_settled.mono hlater).overwrite).expire
  have hviewColumnTags' : SettledAt (writeNewViewColumnTags (s.snapshot.snapshotId + 1)
      walk.result.newViewColumnTags s.viewColumnTags) (s.snapshot.snapshotId + 1) :=
    (h.viewColumnTags_settled.mono hlater).overwrite
  have hvisible := visible_eq_live htags'
  have hvisibleColumns := visible_eq_live hcolumnTags'
  have hvisibleViewColumns := visible_eq_live hviewColumnTags'
  have htableStored' : TableStored
      (live (writeNewTags (s.snapshot.snapshotId + 1) walk.result.newTags s.tags))
      (live (writeExpiredColumnTags (s.snapshot.snapshotId + 1) walk.result.expiredColumnTags
        (writeNewColumnTags (s.snapshot.snapshotId + 1) walk.result.newColumnTags s.columnTags)))
      tableId s.table.current := by
    rw [hexpired, writeExpiredColumnTags, List.map_nil, expire_nil, hinv.newColumnTags, hinv.newTags]
    refine htable.stored h.table_made htableStored fun t ht heq => ?_
    obtain ⟨e, -, rfl⟩ := List.mem_map.1 ht
    exact hne heq.symm
  have hviewStored' : ViewStored
      (live (writeNewTags (s.snapshot.snapshotId + 1) walk.result.newTags s.tags))
      (live (writeNewViewColumnTags (s.snapshot.snapshotId + 1) walk.result.newViewColumnTags
        s.viewColumnTags)) viewId s.view.current := by
    refine hview.stored h.view_made h.view_distinct hviewStored (fun t ht heq => ?_) hnone
    rw [htags] at ht
    obtain ⟨e, -, rfl⟩ := List.mem_map.1 ht
    exact hne heq
  have hnames : (live (writeNewViewColumnTags (s.snapshot.snapshotId + 1)
      walk.result.newViewColumnTags s.viewColumnTags)).Pairwise fun a b =>
        a.viewId = b.viewId → a.key = b.key → a.columnName.fold ≠ b.columnName.fold := by
    rw [hnewViewColumnTags]
    exact names_once_viewColumnTags h.view_made h.view_distinct hviewStored.column hinv.column
      h.names_once
  have hfields : s.table.current.fields.Nodup := (latest_fields h.table_made).symm ▸ h.table_fields
  obtain ⟨hcomment, hcolumns'⟩ := htableStored'.load hfields
  obtain ⟨hviewComment, hdistinct, hviewColumns⟩ := hviewStored'.load hnames
  rw [← hvisible, ← hvisibleColumns] at hcomment hcolumns'
  rw [← hvisible, ← hvisibleViewColumns] at hviewComment hdistinct hviewColumns
  have hfresh : ∀ {id : TableIndex}, s.Fresh id → id.toNat < next.toNat :=
    fun hid => Nat.lt_of_lt_of_le hid hle
  exact {
    tags_settled := htags'
    columnTags_settled := hcolumnTags'
    viewColumnTags_settled := hviewColumnTags'
    tags_once := by
      refine h.tags_once.overwrite ?_
      rw [hnewTags]
      exact htag.nodup_tags hinv.tag hne
    columnTags_once := by
      have honce : LiveOnce DuckLakeColumnTagInfo.tagKey (writeNewColumnTags
          (s.snapshot.snapshotId + 1) walk.result.newColumnTags s.columnTags) := by
        refine h.columnTags_once.overwrite ?_
        rw [hnewColumnTags]
        exact hcolumn.nodup_columnTags
      change LiveOnce _ (writeExpiredColumnTags _ _ _)
      rw [writeExpiredColumnTags]
      exact honce.expire
    viewColumnTags_once := by
      refine h.viewColumnTags_once.overwrite ?_
      rw [hnewViewColumnTags]
      exact nodup_emittedColumnTags hinv.column.once
    names_once := hnames
    tags_lt := fun t ht => by
      rcases mem_live_overwrite.1 ht with ⟨hold, -⟩ | hnew
      · exact hfresh (h.tags_lt t hold)
      · rw [hnewTags, List.mem_append] at hnew
        rcases hnew with hnew | hnew
        · obtain ⟨e, -, rfl⟩ := List.mem_map.1 hnew
          exact htableLt
        · obtain ⟨e, -, rfl⟩ := List.mem_map.1 hnew
          exact hviewLt
    columnTags_lt := fun t ht => by
      change t ∈ live (writeExpiredColumnTags _ walk.result.expiredColumnTags _) at ht
      rw [hexpired, writeExpiredColumnTags, List.map_nil, expire_nil] at ht
      rcases mem_live_overwrite.1 ht with ⟨hold, -⟩ | hnew
      · exact hfresh (h.columnTags_lt t hold)
      · rw [hnewColumnTags] at hnew
        obtain ⟨e, -, rfl⟩ := List.mem_map.1 hnew
        exact htableLt
    viewColumnTags_lt := fun t ht => by
      rcases mem_live_overwrite.1 ht with ⟨hold, -⟩ | hnew
      · exact hfresh (h.viewColumnTags_lt t hold)
      · rw [hnewViewColumnTags] at hnew
        obtain ⟨e, -, rfl⟩ := List.mem_map.1 hnew
        exact hviewLt
    table_made := trivial
    table_fields := by
      rw [DuckLakeTableEntry.fields] at hfields ⊢
      exact hcolumns'.symm ▸ hfields
    table_base := .inl ⟨⟨htableId, by simp [CommentState.applyEntries, DuckLakeTableEntry.load], htableLt⟩,
      htableStored'.congr hcomment hcolumns'⟩
    view_made := trivial
    view_distinct := hdistinct
    view_base := .inl ⟨⟨hviewId, by simp [CommentState.applyEntries, DuckLakeViewEntry.load], hviewLt⟩,
      ⟨hviewComment ▸ hviewStored'.comment, fun name value =>
        (hviewStored'.column name value).trans (hviewColumns name value).symm⟩⟩
    ids_ne := hne
    table := hcomment.trans h.table
    column := fun column hcolumn => h.column column (hcolumns' ▸ hcolumn)
    view := hviewComment.trans h.view
    viewColumn := fun name => (DuckLakeViewEntry.columnComment_congr hdistinct
      (latest_distinct h.view_made h.view_distinct) hviewColumns name).trans (h.viewColumn name) }

/-- The commit succeeds, and what it loads has the comments of the latest versions. -/
theorem Inv.commit (h : s.Inv) (hids : s.Allows .commit) : s.commit.Inv := by
  have hemit : Attempt.Returns s.emitEntries s.attempt fun r u =>
      (s.applyEntries r.1 r.2.1 r.2.2 u.commitSnapshot.nextCatalogId).Inv := by
    rw [emitEntries]
    refine .bind ((h.returns_table hids).mono ?_)
    rintro info t ⟨tableId, htable, hemits, hstored, honly, hle, hroom⟩
    refine .bind (returns_getTableId (.bind ((h.returns_view honly hle hroom).mono ?_)))
    rintro info' u ⟨viewId, hview, hviewEmits, hviewStored, hle'⟩
    refine .bind (returns_getTableId (.pure ?_))
    rw [htable.written.mapped, hview.written.mapped]
    have hne : tableId ≠ viewId := by
      rintro rfl
      have hlt := htable.lt
      rcases hview.assigned with hid | hid
      · rcases htable.assigned with hid' | hid'
        · exact h.ids_ne (hid'.symm.trans hid)
        · rcases h.view_base with ⟨hloaded, -⟩ | ⟨hcreated, -⟩
          · have hold : s.view.base.viewId.toNat < s.attempt.nextId := hloaded.lt
            rw [← hid, hid'] at hold
            exact Nat.lt_irrefl _ hold
          · have hlocal := hcreated.isLocal
            rw [← hid, htable.committed] at hlocal
            exact nomatch hlocal
      · omega
    exact h.applyEntries hemits hviewEmits hstored hviewStored hne htable.committed hview.committed
      (Nat.lt_of_lt_of_le htable.lt hle') hview.lt (hle.trans hle')
  obtain ⟨⟨info, tableId, viewId⟩, u, hrun, hinv⟩ := hemit
  rw [CommentState.commit, hrun]
  exact hinv

theorem Inv.step (h : s.Inv) {action : CommentAction} (hallows : s.Allows action) :
    (s.step action).Inv := by
  cases action with
  | table statement => exact h.runTable statement
  | view statement => exact h.runView hallows
  | commit => exact h.commit hallows

theorem Inv.run (h : s.Inv) {actions : List CommentAction} (hallows : s.AllowsAll actions) :
    (s.run actions).Inv := by
  induction actions generalizing s with
  | nil => exact h
  | cons action actions ih => exact ih (h.step hallows.1) hallows.2

/-! ## From the start of a session -/

omit [SQLWriter] [ColumnRefs] in
theorem tells_lastComment {τ κ : Type} [DecidableEq κ] {key : τ → κ} {value : τ → Value} {k : κ}
    {rows : List (TimedRow τ)} (h : LiveOnce key rows) :
    Tells key value k (lastComment (((live rows).filter fun t => key t = k).map value))
      (live rows) := by
  constructor
  · intro t ht hk
    have hfilter : ∀ t' ∈ (live rows).filter fun t => key t = k, t' = t := fun t' ht' => by
      obtain ⟨hin, hk'⟩ := List.mem_filter.1 ht'
      exact h.eq hin ht ((of_decide_eq_true hk').trans hk.symm)
    refine (lastComment_eq (fun v hv => ?_) fun _ => ?_).symm
    · obtain ⟨t', ht', rfl⟩ := List.mem_map.1 hv
      rw [hfilter t' ht']
    · exact List.ne_nil_of_mem (List.mem_map_of_mem
        (List.mem_filter.2 ⟨ht, decide_eq_true hk⟩))
  · intro hne
    by_contra hnone
    have hempty : ((live rows).filter fun t => key t = k) = [] :=
      List.filter_eq_nil_iff.2 fun t ht hk => hnone ⟨t, ht, of_decide_eq_true hk⟩
    exact hne (by rw [hempty]; rfl)

/-- The session starts with the entries as they are loaded, or with entries that the first
transaction creates, without comments. -/
structure Starts (s : CommentState) : Prop extends s.Tagged where
  table_staged : s.table.staged = []
  table_fields : s.table.base.fields.Nodup
  table_base :
    IsLoaded s.table.base.tableId s.table.base.localChange s.snapshot.nextCatalogId ∧
        s.table.base = s.table.base.load (visible s.tags s.snapshot.snapshotId)
          (visible s.columnTags s.snapshot.snapshotId) s.table.base.tableId ∨
      IsCreated s.table.base.tableId s.table.base.localChange ∧
        s.table.base.comment = none ∧ ∀ column ∈ s.table.base.columns, column.comment = none
  view_staged : s.view.staged = []
  view_base :
    IsLoaded s.view.base.viewId s.view.base.localChange s.snapshot.nextCatalogId ∧
        s.view.base = s.view.base.load (visible s.tags s.snapshot.snapshotId)
          (visible s.viewColumnTags s.snapshot.snapshotId) s.view.base.viewId ∨
      IsCreated s.view.base.viewId s.view.base.localChange ∧
        s.view.base.comment = none ∧ s.view.base.columnComments = []
  ids_ne : s.table.base.tableId ≠ s.view.base.viewId
  table : s.table.base.comment = s.intended.table
  column : ∀ column ∈ s.table.base.columns, column.comment = s.intended.column column.fieldIndex
  view : s.view.base.comment = s.intended.view
  viewColumn : ∀ name, s.view.base.columnComment name = s.intended.viewColumn name.fold

omit [SQLWriter] [ColumnRefs] in
theorem Starts.tableStored (h : s.Starts)
    (hload : s.table.base = s.table.base.load (visible s.tags s.snapshot.snapshotId)
      (visible s.columnTags s.snapshot.snapshotId) s.table.base.tableId) :
    TableStored (live s.tags) (live s.columnTags) s.table.base.tableId s.table.base := by
  rw [visible_eq_live h.tags_settled, visible_eq_live h.columnTags_settled] at hload
  constructor
  · have hcomment : s.table.base.comment = loadComment (live s.tags) s.table.base.tableId :=
      congrArg DuckLakeTableEntry.comment hload
    rw [hcomment]
    exact tells_lastComment h.tags_once
  · intro field c hc
    rw [DuckLakeTableEntry.commentOf] at hc
    obtain ⟨column, hfind, rfl⟩ := Option.map_eq_some_iff.1 hc
    have hmem := List.mem_of_find?_eq_some hfind
    rw [congrArg DuckLakeTableEntry.columns hload] at hmem
    obtain ⟨old, -, rfl⟩ := List.mem_map.1 hmem
    have hfield := List.find?_some hfind
    obtain rfl : old.fieldIndex = field := of_decide_eq_true hfield
    exact tells_lastComment h.columnTags_once

omit [SQLWriter] [ColumnRefs] in
theorem Starts.viewStored (h : s.Starts)
    (hload : s.view.base = s.view.base.load (visible s.tags s.snapshot.snapshotId)
      (visible s.viewColumnTags s.snapshot.snapshotId) s.view.base.viewId) :
    ViewStored (live s.tags) (live s.viewColumnTags) s.view.base.viewId s.view.base ∧
      s.view.base.Distinct := by
  rw [visible_eq_live h.tags_settled, visible_eq_live h.viewColumnTags_settled] at hload
  have hcomment : s.view.base.comment = loadComment (live s.tags) s.view.base.viewId :=
    congrArg DuckLakeViewEntry.comment hload
  have hcolumns : s.view.base.columnComments =
      loadColumnComments (live s.viewColumnTags) s.view.base.viewId :=
    congrArg DuckLakeViewEntry.columnComments hload
  obtain ⟨hdistinct, hmem⟩ := loadColumnComments_spec h.names_once
  refine ⟨⟨?_, fun name value => ?_⟩, ?_⟩
  · rw [hcomment]
    exact tells_lastComment h.tags_once
  · rw [hcolumns, hmem]
  · rw [DuckLakeViewEntry.Distinct, hcolumns]
    exact hdistinct

omit [SQLWriter] in
theorem Starts.inv (h : s.Starts) : s.Inv := by
  have htable : s.table.current = s.table.base := by
    rw [VersionChain.current, h.table_staged]
    rfl
  have hview : s.view.current = s.view.base := by
    rw [VersionChain.current, h.view_staged]
    rfl
  exact { h with
    table_made := by
      rw [h.table_staged]
      trivial
    table_base := h.table_base.imp (fun hl => ⟨hl.1, h.tableStored hl.2⟩) id
    view_made := by
      rw [h.view_staged]
      trivial
    view_distinct := by
      rcases h.view_base with ⟨-, hload⟩ | ⟨-, -, hnone⟩
      · exact (h.viewStored hload).2
      · rw [DuckLakeViewEntry.Distinct, hnone]
        exact .nil
    view_base := h.view_base.imp (fun hl => ⟨hl.1, (h.viewStored hl.2).1⟩) id
    table := htable ▸ h.table
    column := htable ▸ h.column
    view := hview ▸ h.view
    viewColumn := hview ▸ h.viewColumn }

/-- In every state of a session whose actions are all allowed, the last comments are shown, and
each is stored once. -/
theorem run_keepsComments {actions : List CommentAction} (h : s.Starts)
    (hallows : s.AllowsAll actions) : (s.run actions).KeepsComments :=
  (h.inv.run hallows).keepsComments

end CommentState

end Runs

namespace CommentState

section Example

/-- Sort expressions without column references. -/
@[reducible] def plainExpressions : ColumnRefs := ⟨fun expression _ _ => expression⟩

attribute [local instance] SQLWriter.reference plainExpressions

theorem localPartition_none (change : LocalChange) :
    change = .setPartitionKey ∨ change = .created →
      ∀ data ∈ (none : Option DuckLakePartition), data.localPartitionId.isSome := by simp

/-- A table that the transaction creates. -/
def ordersTable : DuckLakeTableEntry where
  tableId := transactionLocalIdStart
  uuid := "orders-uuid"
  schema := .root 0 "main"
  name := "orders"
  dataPath := "main/orders/"
  columns := [{ field := { columnData := { id := 1 }, name := "a", type := .primitive "int32" } }]
  localChange := .created
  localPartition := localPartition_none .created

/-- A view with all columns of a table. -/
def ordersView : DuckLakeViewEntry where
  viewId := 2
  uuid := "v-uuid"
  schema := .root 0 "main"
  name := "v"
  querySql := "SELECT * FROM orders"
  localChange := .none

/-- A session that found no comments. -/
def ordersSession : CommentState where
  snapshot := ⟨3, 3, 4, 0⟩
  tags := []
  columnTags := []
  viewColumnTags := []
  table := { base := ordersTable }
  view := { base := ordersView }
  intended := ⟨none, fun _ => none, none, fun _ => none⟩

def lowerName : Identifier := ⟨"a", by decide⟩

def upperName : Identifier := ⟨"A", by decide⟩

theorem starts_ordersSession : ordersSession.Starts where
  tags_settled := by simp [SettledAt, ordersSession]
  columnTags_settled := by simp [SettledAt, ordersSession]
  viewColumnTags_settled := by simp [SettledAt, ordersSession]
  tags_once := .nil
  columnTags_once := .nil
  viewColumnTags_once := .nil
  names_once := .nil
  tags_lt := nofun
  columnTags_lt := nofun
  viewColumnTags_lt := nofun
  table_staged := rfl
  table_fields := by simp [ordersSession, ordersTable, DuckLakeTableEntry.fields]
  table_base := .inr ⟨⟨by decide, rfl⟩, rfl, by simp [ordersSession, ordersTable]⟩
  view_staged := rfl
  view_base := .inl ⟨⟨by decide, by decide, by decide⟩, rfl⟩
  ids_ne := by decide
  table := rfl
  column := by simp [ordersSession, ordersTable]
  view := rfl
  viewColumn := fun _ => rfl

/-- Comments on a new table and on a view, with renames, in one transaction and a second one. -/
def commentActions : List CommentAction :=
  [.table (.columnComment "A" (some "first")), .table (.renameColumn "a" "b"),
    .table (.columnComment "B" (some "key")), .table (.rename "sales"),
    .view (.columnComment (some [lowerName]) upperName (some "note")), .view (.rename "w"),
    .commit, .view (.comment (some "all")), .commit]

theorem run_keepsComments_twoTransactions : (ordersSession.run commentActions).KeepsComments :=
  run_keepsComments starts_ordersSession
    ⟨trivial, trivial, trivial, trivial, nofun, trivial, Nat.le_of_ble_eq_true (by decide +kernel),
      trivial, Nat.le_of_ble_eq_true (by decide +kernel), trivial⟩

/-- The column of the table is renamed to upper case between two comments on the column of the
view: the tag with the old spelling stays. -/
def respelledActions : List CommentAction :=
  [.view (.columnComment (some [lowerName]) lowerName (some "old")), .commit,
    .view (.columnComment (some [upperName]) lowerName (some "new")), .commit]

theorem not_keepsComments_respelled :
    ordersSession.Starts ∧ ¬ (ordersSession.run respelledActions).KeepsComments := by
  refine ⟨starts_ordersSession, fun h => ?_⟩
  have hlive : live (ordersSession.run respelledActions).viewColumnTags =
      [⟨2, "a", commentKey, some "old"⟩, ⟨2, "A", commentKey, some "new"⟩] := by decide +kernel
  have honce := h.viewColumnTags_once
  rw [hlive] at honce
  exact (List.pairwise_cons.1 honce).1 _ (.head _) rfl rfl (by decide)

end Example

end CommentState

end DuckLake
