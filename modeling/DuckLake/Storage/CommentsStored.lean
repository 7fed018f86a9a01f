import DuckLake.Storage.TableCommentWalks

/-!
# Stored comments after a commit

If the tags had the comments of the versions that a transaction started from, then with the tags
that its commit emits they have those of the latest versions, and an entry that is loaded with them
has the same comments.
-/

namespace DuckLake

open TimedRow

theorem Emission.updates_tags {E : Type} {kind : E → Option Unit} {staged : List E}
    {tags : List (Unit × Value)} {c c₀ : Value} {id : Idx}
    (h : Emission kind (fun _ x => x = c) staged [] tags)
    (hc : ¬ Touches kind staged () → c = c₀) :
    Updates DuckLakeTagInfo.tagKey (·.value) (id, commentKey) c₀ c
      (tags.map fun e => (⟨id, commentKey, e.2⟩ : DuckLakeTagInfo)) := by
  constructor
  · intro t ht _
    obtain ⟨e, he, rfl⟩ := List.mem_map.1 ht
    exact h.value e he
  · by_cases htouch : Touches kind staged ()
    · obtain ⟨e, he, -⟩ := List.mem_map.1 (h.emitted () htouch not_touches_nil)
      exact .inl ⟨_, List.mem_map_of_mem he, rfl⟩
    · exact .inr (hc htouch)

theorem Emission.updates_columnTags {E : Type} {kind : E → Option FieldIndex} {staged : List E}
    {value : FieldIndex → Value → Prop} {columns : List (FieldIndex × Value)} {c c₀ : Value}
    {id : TableIndex} {field : FieldIndex} (h : Emission kind value staged [] columns)
    (hvalue : ∀ x, value field x → x = c) (hc : ¬ Touches kind staged field → c = c₀) :
    Updates DuckLakeColumnTagInfo.tagKey (·.value) (id, field, commentKey) c₀ c
      (columns.map fun e => (⟨id, e.1, commentKey, e.2⟩ : DuckLakeColumnTagInfo)) := by
  constructor
  · intro t ht hk
    obtain ⟨e, he, rfl⟩ := List.mem_map.1 ht
    obtain rfl : e.1 = field := by simpa [DuckLakeColumnTagInfo.tagKey] using hk
    exact hvalue _ (h.value e he)
  · by_cases htouch : Touches kind staged field
    · obtain ⟨e, he, rfl⟩ := List.mem_map.1 (h.emitted field htouch not_touches_nil)
      exact .inl ⟨_, List.mem_map_of_mem he, rfl⟩
    · exact .inr (hc htouch)

/-- The tags of objects with different ids have different keys. -/
theorem Emission.nodup_tags {E F : Type} {kind : E → Option Unit} {kind' : F → Option Unit}
    {staged : List E} {staged' : List F} {value value' : Unit → Value → Prop}
    {tags tags' : List (Unit × Value)} (h : Emission kind value staged [] tags)
    (h' : Emission kind' value' staged' [] tags') {id id' : Idx} (hne : id ≠ id') :
    ((tags.map (fun e => (⟨id, commentKey, e.2⟩ : DuckLakeTagInfo)) ++
      tags'.map (fun e => (⟨id', commentKey, e.2⟩ : DuckLakeTagInfo))).map
        DuckLakeTagInfo.tagKey).Nodup := by
  have hkeys : ∀ (l : List (Unit × Value)) (id : Idx),
      (l.map fun e => (⟨id, commentKey, e.2⟩ : DuckLakeTagInfo)).map DuckLakeTagInfo.tagKey =
        (l.map (·.1)).map fun _ => (id, commentKey) := fun l id => by
    rw [List.map_map, List.map_map]
    rfl
  rw [List.map_append, hkeys, hkeys, List.nodup_append]
  refine ⟨h.once.map fun _ _ _ => rfl, h'.once.map fun _ _ _ => rfl, ?_⟩
  rintro a ha b hb rfl
  obtain ⟨_, -, rfl⟩ := List.mem_map.1 ha
  obtain ⟨_, -, heq⟩ := List.mem_map.1 hb
  exact hne (congrArg Prod.fst heq).symm

theorem Emission.nodup_columnTags {E : Type} {kind : E → Option FieldIndex} {staged : List E}
    {value : FieldIndex → Value → Prop} {columns : List (FieldIndex × Value)}
    (h : Emission kind value staged [] columns) {id : TableIndex} :
    ((columns.map fun e => (⟨id, e.1, commentKey, e.2⟩ : DuckLakeColumnTagInfo)).map
      DuckLakeColumnTagInfo.tagKey).Nodup := by
  have hmap : (columns.map fun e => (⟨id, e.1, commentKey, e.2⟩ : DuckLakeColumnTagInfo)).map
      DuckLakeColumnTagInfo.tagKey =
        (columns.map (·.1)).map fun field => (id, field, commentKey) := by
    rw [List.map_map, List.map_map]
    rfl
  rw [hmap]
  exact h.once.map fun a b hab => congrArg (fun key => key.2.1) hab

/-! ### Tables -/

section Tables

variable {base : DuckLakeTableEntry} {staged : List DuckLakeTableEntry} {id : TableIndex}
  {info : NewTableInfo} {version : SnapshotId}

theorem commentOf_isSome_iff {table : DuckLakeTableEntry} {field : FieldIndex} :
    (table.commentOf field).isSome ↔ field ∈ table.fields := by
  rw [DuckLakeTableEntry.commentOf, Option.isSome_map, List.find?_isSome, DuckLakeTableEntry.fields,
    List.mem_map]
  simp

theorem commentOf_of_mem {table : DuckLakeTableEntry} (h : table.fields.Nodup)
    {column : TableColumn} (hcolumn : column ∈ table.columns) :
    table.commentOf column.fieldIndex = some column.comment := by
  have hsome : (table.columns.find? (·.fieldIndex = column.fieldIndex)).isSome :=
    List.find?_isSome.2 ⟨column, hcolumn, by simp⟩
  obtain ⟨found, hfound⟩ := Option.isSome_iff_exists.1 hsome
  obtain rfl : found = column := List.inj_on_of_nodup_map h (List.mem_of_find?_eq_some hfound)
    hcolumn (by simpa using List.find?_some hfound)
  rw [DuckLakeTableEntry.commentOf, hfound]
  rfl

variable [ColumnRefs]

theorem latest_comment_of_not_touches (hmade : MadeFrom DuckLakeTableEntry.Alters base staged)
    (h : ¬ Touches DuckLakeTableEntry.objectComment? staged ()) :
    (staged.headD base).comment = base.comment :=
  hmade.keeps_base (p := fun v => v.localChange = .setComment)
    (fun _ _ huv hv => huv.comment hv)
    fun v hv hchange => h ⟨v, hv, tableComment?_eq_some_iff.2 hchange⟩

theorem latest_commentOf_of_not_touches (hmade : MadeFrom DuckLakeTableEntry.Alters base staged)
    {field : FieldIndex} (h : ¬ Touches DuckLakeTableEntry.commentedField? staged field) :
    (staged.headD base).commentOf field = base.commentOf field :=
  hmade.keeps_base (f := fun v => v.commentOf field)
    (p := fun v => v.localChange = .setColumnComment field)
    (fun _ _ huv hv => huv.commentOf hv)
    fun v hv hchange => h ⟨v, hv, by
      rw [DuckLakeTableEntry.commentedField?, hchange]
      rfl⟩

theorem latest_fields (hmade : MadeFrom DuckLakeTableEntry.Alters base staged) :
    (staged.headD base).fields = base.fields :=
  (hmade.all (P := fun v => v.fields = base.fields) rfl fun _ _ huv hu => huv.fields.trans hu).1

/-- The tags of the latest version, after those of the versions were written. -/
theorem TableEmits.stored {tags : List (TimedRow DuckLakeTagInfo)}
    {columnTags : List (TimedRow DuckLakeColumnTagInfo)} (h : TableEmits base staged id {} info)
    (hmade : MadeFrom DuckLakeTableEntry.Alters base staged)
    (hstored : TableStored (live tags) (live columnTags) id base) {others : List DuckLakeTagInfo}
    (hothers : ∀ t ∈ others, t.id ≠ id) :
    TableStored (live (writeNewTags version (info.newTags ++ others) tags))
      (live (writeNewColumnTags version info.newColumnTags columnTags)) id
      (staged.headD base) := by
  obtain ⟨newTags, newColumns, htags, hcolumns, -, -, htag, hcolumn⟩ := h
  have hkey : ∀ t ∈ others, t.tagKey ≠ (id, commentKey) := fun t ht heq =>
    hothers t ht (congrArg Prod.fst heq)
  constructor
  · rw [htags]
    refine hstored.comment.overwrite (Updates.between ?_ (by simp) hkey)
    exact htag.updates_tags (latest_comment_of_not_touches hmade)
  · intro field c hc
    have hfield : field ∈ base.fields := by
      rw [← latest_fields hmade, ← commentOf_isSome_iff, hc]
      rfl
    obtain ⟨c₀, hc₀⟩ := Option.isSome_iff_exists.1 (commentOf_isSome_iff.2 hfield)
    rw [hcolumns]
    refine (hstored.column field c₀ hc₀).overwrite ?_
    refine hcolumn.updates_columnTags (fun x hx => ?_) fun hnot => ?_
    · exact Option.some.inj (hx.symm.trans hc)
    · exact Option.some.inj (hc.symm.trans ((latest_commentOf_of_not_touches hmade hnot).trans hc₀))

omit [ColumnRefs] in
/-- What is loaded is the table that the tags describe. -/
theorem TableStored.load {tags : List DuckLakeTagInfo} {columnTags : List DuckLakeColumnTagInfo}
    {table : DuckLakeTableEntry} (h : TableStored tags columnTags id table)
    (hfields : table.fields.Nodup) : (table.load tags columnTags id).comment = table.comment ∧
      (table.load tags columnTags id).columns = table.columns := by
  constructor
  · exact lastComment_of_tells h.comment
  · change table.columns.map _ = table.columns
    conv_rhs => rw [← List.map_id table.columns]
    refine List.map_congr_left fun column hcolumn => ?_
    have htells := h.column column.fieldIndex column.comment (commentOf_of_mem hfields hcolumn)
    rw [loadColumnComment, lastComment_of_tells htells]
    rfl

omit [ColumnRefs] in
theorem TableStored.congr {tags : List DuckLakeTagInfo} {columnTags : List DuckLakeColumnTagInfo}
    {table table' : DuckLakeTableEntry} (h : TableStored tags columnTags id table)
    (hcomment : table'.comment = table.comment) (hcolumns : table'.columns = table.columns) :
    TableStored tags columnTags id table' := by
  refine ⟨hcomment ▸ h.comment, fun field c hc => h.column field c ?_⟩
  rwa [DuckLakeTableEntry.commentOf, hcolumns] at hc

end Tables

/-! ### Views -/

section Views

variable {base : DuckLakeViewEntry} {staged : List DuckLakeViewEntry} {id : TableIndex}
  {info info' : NewTableInfo} {version : SnapshotId}

theorem DuckLakeViewEntry.Distinct.eq {view : DuckLakeViewEntry} (h : view.Distinct)
    {a b : Text × Value} (ha : a ∈ view.columnComments) (hb : b ∈ view.columnComments)
    (hab : a.1.fold = b.1.fold) : a = b := by
  have hnodup : (view.columnComments.map fun e => e.1.fold).Nodup := List.pairwise_map.2 h
  exact List.inj_on_of_nodup_map hnodup ha hb hab

theorem latest_distinct (hmade : MadeFrom DuckLakeViewEntry.Alters base staged)
    (hbase : base.Distinct) : (staged.headD base).Distinct :=
  (hmade.all hbase fun _ _ huv hu => huv.distinct hu).1

theorem latest_viewComment_of_not_touches (hmade : MadeFrom DuckLakeViewEntry.Alters base staged)
    (h : ¬ Touches DuckLakeViewEntry.objectComment? staged ()) :
    (staged.headD base).comment = base.comment :=
  hmade.keeps_base (p := fun v => v.localChange = .setComment)
    (fun _ _ huv hv => huv.comment hv)
    fun v hv hchange => h ⟨v, hv, objectComment?_eq_some_iff.2 hchange⟩

theorem latest_columnComments_of_not_touches
    (hmade : MadeFrom DuckLakeViewEntry.Alters base staged) {name : Text}
    (h : ¬ Touches DuckLakeViewEntry.commentedName? staged name) {value : Value} :
    (name, value) ∈ (staged.headD base).columnComments ↔ (name, value) ∈ base.columnComments :=
  (hmade.keeps_base (f := fun v => (name, value) ∈ v.columnComments)
    (p := fun v => v.localChange = .setViewColumnComment name)
    (fun _ _ huv hv => propext (huv.mem_columnComments hv))
    fun v hv hchange => h ⟨v, hv, by
      rw [DuckLakeViewEntry.commentedName?, hchange]
      rfl⟩).to_iff

/-- The tags of the columns that a commit emits. -/
def emittedColumnTags (id : TableIndex) (columns : List (Text × Value)) :
    List DuckLakeViewColumnTagInfo :=
  columns.map fun e => ⟨id, e.1, commentKey, e.2⟩

theorem mem_map_tagKey_emitted {columns : List (Text × Value)} {name : Text} :
    (id, name, commentKey) ∈ (emittedColumnTags id columns).map DuckLakeViewColumnTagInfo.tagKey ↔
      name ∈ columns.map (·.1) := by
  simp [emittedColumnTags, DuckLakeViewColumnTagInfo.tagKey]

theorem nodup_emittedColumnTags {columns : List (Text × Value)} (h : (columns.map (·.1)).Nodup) :
    ((emittedColumnTags id columns).map DuckLakeViewColumnTagInfo.tagKey).Nodup := by
  have hmap : (emittedColumnTags id columns).map DuckLakeViewColumnTagInfo.tagKey =
      (columns.map (·.1)).map fun name => (id, name, commentKey) := by
    simp [emittedColumnTags, DuckLakeViewColumnTagInfo.tagKey, Function.comp_def]
  rw [hmap]
  exact h.map fun a b hab => congrArg (fun key => key.2.1) hab

/-- The column tags of the latest version, after those of the versions were written. -/
theorem mem_live_viewColumnTags {rows : List (TimedRow DuckLakeViewColumnTagInfo)}
    (hmade : MadeFrom DuckLakeViewEntry.Alters base staged) (hbase : base.Distinct)
    (hstored : ∀ name value, ⟨id, name, commentKey, value⟩ ∈ live rows ↔
      (name, value) ∈ base.columnComments) {columns : List (Text × Value)}
    (hcolumn : Emission DuckLakeViewEntry.commentedName?
      (fun name x => (name, x) ∈ (staged.headD base).columnComments) staged [] columns)
    (name : Text) (value : Value) :
    ⟨id, name, commentKey, value⟩ ∈
        live (writeNewViewColumnTags version (emittedColumnTags id columns) rows) ↔
      (name, value) ∈ (staged.headD base).columnComments := by
  have hkept : name ∉ columns.map (·.1) → ∀ value,
      (name, value) ∈ (staged.headD base).columnComments ↔ (name, value) ∈ base.columnComments :=
    fun hname value => latest_columnComments_of_not_touches hmade fun htouch =>
      hname (hcolumn.emitted name htouch not_touches_nil)
  rw [writeNewViewColumnTags, mem_live_overwrite, DuckLakeViewColumnTagInfo.tagKey,
    mem_map_tagKey_emitted]
  constructor
  · rintro (⟨hold, hname⟩ | hnew)
    · exact (hkept hname value).2 ((hstored name value).1 hold)
    · obtain ⟨e, he, heq⟩ := List.mem_map.1 hnew
      cases heq
      exact hcolumn.value e he
  · intro hlatest
    by_cases hname : name ∈ columns.map (·.1)
    · obtain ⟨e, he, rfl⟩ := List.mem_map.1 hname
      have heq := (latest_distinct hmade hbase).eq hlatest (hcolumn.value e he) rfl
      obtain rfl : value = e.2 := congrArg Prod.snd heq
      exact .inr (List.mem_map_of_mem he)
    · exact .inl ⟨(hstored name value).2 ((hkept hname value).1 hlatest), hname⟩

/-- The names of the commented columns of all views still differ up to case. -/
theorem names_once_viewColumnTags {rows : List (TimedRow DuckLakeViewColumnTagInfo)}
    (hmade : MadeFrom DuckLakeViewEntry.Alters base staged) (hbase : base.Distinct)
    (hstored : ∀ name value, ⟨id, name, commentKey, value⟩ ∈ live rows ↔
      (name, value) ∈ base.columnComments) {columns : List (Text × Value)}
    (hcolumn : Emission DuckLakeViewEntry.commentedName?
      (fun name x => (name, x) ∈ (staged.headD base).columnComments) staged [] columns)
    (honce : (live rows).Pairwise fun a b =>
      a.viewId = b.viewId → a.key = b.key → a.columnName.fold ≠ b.columnName.fold) :
    (live (writeNewViewColumnTags version (emittedColumnTags id columns) rows)).Pairwise fun a b =>
      a.viewId = b.viewId → a.key = b.key → a.columnName.fold ≠ b.columnName.fold := by
  have hdistinct := latest_distinct hmade hbase
  have hmem : ∀ name value, ⟨id, name, commentKey, value⟩ ∈
      live (writeNewViewColumnTags version (emittedColumnTags id columns) rows) ↔
        (name, value) ∈ (staged.headD base).columnComments :=
    mem_live_viewColumnTags hmade hbase hstored hcolumn
  refine pairwise_live_overwrite honce ?_ ?_
  · rw [emittedColumnTags, List.pairwise_map]
    refine (List.pairwise_map.1 hcolumn.once).imp_of_mem fun {a b} ha hb hne _ _ hfold => ?_
    exact hne (congrArg Prod.fst (hdistinct.eq (hcolumn.value a ha) (hcolumn.value b hb) hfold))
  · rintro ⟨viewId, name, key, value⟩ hold hfree b hnew hid hkey hfold
    obtain ⟨e, he, rfl⟩ := List.mem_map.1 hnew
    obtain rfl : viewId = id := hid
    obtain rfl : key = commentKey := hkey
    have hin := (hmem name value).1 (mem_live_overwrite.2 (.inl ⟨hold, hfree⟩))
    obtain rfl : name = e.1 := congrArg Prod.fst (hdistinct.eq hin (hcolumn.value e he) hfold)
    exact hfree (mem_map_tagKey_emitted.2 (List.mem_map_of_mem he))

/-- The tags of the latest version, after those of the versions were written. -/
theorem ViewEmits.stored {tags : List (TimedRow DuckLakeTagInfo)}
    {rows : List (TimedRow DuckLakeViewColumnTagInfo)} (h : ViewEmits base staged id info info')
    (hmade : MadeFrom DuckLakeViewEntry.Alters base staged) (hbase : base.Distinct)
    (hstored : ViewStored (live tags) (live rows) id base)
    (hothers : ∀ t ∈ info.newTags, t.id ≠ id) (hnone : info.newViewColumnTags = []) :
    ViewStored (live (writeNewTags version info'.newTags tags))
      (live (writeNewViewColumnTags version info'.newViewColumnTags rows)) id
      (staged.headD base) := by
  obtain ⟨walk, newTags, columns, rfl, hinv⟩ := h
  constructor
  · rw [hinv.newTags, ← List.append_nil (info.newTags ++ _)]
    refine hstored.comment.overwrite (Updates.between ?_ (fun t ht heq =>
      hothers t ht (congrArg Prod.fst heq)) (by simp))
    exact hinv.tag.updates_tags (latest_viewComment_of_not_touches hmade)
  · rw [hinv.newViewColumnTags, hnone, List.nil_append]
    exact mem_live_viewColumnTags hmade hbase hstored.column hinv.column

/-- The comments that are loaded are those of the tags. -/
theorem loadColumnComments_spec {columnTags : List DuckLakeViewColumnTagInfo}
    (honce : columnTags.Pairwise fun a b =>
      a.viewId = b.viewId → a.key = b.key → a.columnName.fold ≠ b.columnName.fold) :
    ((loadColumnComments columnTags id).Pairwise fun a b => a.1.fold ≠ b.1.fold) ∧
      ∀ name value, (name, value) ∈ loadColumnComments columnTags id ↔
        ⟨id, name, commentKey, value⟩ ∈ columnTags := by
  have hpairwise : (([] : List (Text × Value)) ++ (columnTags.filter fun tag =>
      tag.viewId = id && tag.key = commentKey).map fun tag => (tag.columnName, tag.value)).Pairwise
        fun a b => a.1.fold ≠ b.1.fold := by
    rw [List.nil_append, List.pairwise_map]
    refine (honce.filter _).imp_of_mem fun {a b} ha hb hne => ?_
    have ha' := (List.mem_filter.1 ha).2
    have hb' := (List.mem_filter.1 hb).2
    simp only [Bool.and_eq_true, decide_eq_true_eq] at ha' hb'
    exact hne (ha'.1.trans hb'.1.symm) (ha'.2.trans hb'.2.symm)
  rw [loadColumnComments, foldl_assignComment hpairwise]
  refine ⟨hpairwise, fun name value => ?_⟩
  rw [List.nil_append, List.mem_map]
  constructor
  · rintro ⟨⟨viewId, columnName, key, v⟩, htag, heq⟩
    obtain ⟨hin, hof⟩ := List.mem_filter.1 htag
    simp only [Bool.and_eq_true, decide_eq_true_eq] at hof
    obtain ⟨rfl, rfl⟩ := hof
    cases heq
    exact hin
  · intro htag
    exact ⟨_, List.mem_filter.2 ⟨htag, by simp⟩, rfl⟩

/-- What is loaded is the view that the tags describe. -/
theorem ViewStored.load {tags : List DuckLakeTagInfo} {columnTags : List DuckLakeViewColumnTagInfo}
    {view : DuckLakeViewEntry} (h : ViewStored tags columnTags id view)
    (honce : columnTags.Pairwise fun a b =>
      a.viewId = b.viewId → a.key = b.key → a.columnName.fold ≠ b.columnName.fold) :
    (view.load tags columnTags id).comment = view.comment ∧
      (view.load tags columnTags id).Distinct ∧
      ∀ name value, (name, value) ∈ (view.load tags columnTags id).columnComments ↔
        (name, value) ∈ view.columnComments := by
  obtain ⟨hdistinct, hmem⟩ := loadColumnComments_spec honce
  exact ⟨lastComment_of_tells h.comment, hdistinct, fun name value =>
    (hmem name value).trans (h.column name value)⟩

end Views

end DuckLake
