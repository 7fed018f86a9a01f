import DuckLake.Storage.AlteredTables

/-!
# The inlined data tables of a commit

Which inlined data tables a commit creates, with which columns and under which schema version, and
into which ones its rows go.
-/

namespace DuckLake

open DuckLakeColumnInfo

/-! ## The largest schema version -/

namespace InlinedCatalog

/-- No inlined data table of the same table has a larger schema version. -/
def IsLatest (db : InlinedCatalog) (table : InlinedTable) : Prop :=
  table ∈ db.inlinedTables ∧
    ∀ other ∈ db.inlinedTables, other.tableId = table.tableId →
      other.schemaVersion ≤ table.schemaVersion

variable {db : InlinedCatalog} {id : TableIndex} {table : InlinedTable}

theorem maxSchemaVersion_eq_some {version : Nat} :
    db.maxSchemaVersion id = some version ↔
      (∃ table ∈ db.inlinedTables, table.tableId = id ∧ table.schemaVersion = version) ∧
        ∀ table ∈ db.inlinedTables, table.tableId = id → table.schemaVersion ≤ version := by
  unfold maxSchemaVersion
  rw [List.max?_eq_some_iff]
  simp only [List.mem_map, List.mem_filter, decide_eq_true_eq, and_assoc]
  refine and_congr_right fun _ => ⟨fun h table hmem hid => h _ ⟨table, hmem, hid, rfl⟩, ?_⟩
  rintro h _ ⟨table, hmem, hid, rfl⟩
  exact h table hmem hid

theorem isLatest_of_latestInlinedTable (h : db.latestInlinedTable id = some table) :
    db.IsLatest table ∧ table.tableId = id := by
  have hmem := List.mem_of_find?_eq_some h
  have hfound := List.find?_some h
  simp only [Bool.decide_and, Bool.and_eq_true, decide_eq_true_eq] at hfound
  obtain ⟨hid, hmax⟩ := hfound
  refine ⟨⟨hmem, fun other hother hsame => ?_⟩, hid⟩
  exact (maxSchemaVersion_eq_some.1 hmax).2 other hother (hsame.trans hid)

theorem latestInlinedTable_eq_none :
    db.latestInlinedTable id = none ↔ ∀ table ∈ db.inlinedTables, table.tableId ≠ id := by
  constructor
  · intro h table hmem hid
    obtain ⟨version, hmax⟩ : ∃ version, db.maxSchemaVersion id = some version := by
      rw [← Option.isSome_iff_exists]
      unfold maxSchemaVersion
      rw [List.isSome_max?_iff]
      exact List.ne_nil_of_mem (List.mem_map_of_mem (List.mem_filter.2 ⟨hmem, by simpa using hid⟩))
    obtain ⟨⟨largest, hlargest, hsame, hversion⟩, -⟩ := maxSchemaVersion_eq_some.1 hmax
    have hnot := List.find?_eq_none.1 h largest hlargest
    simp [hsame, hmax, hversion] at hnot
  · intro h
    refine List.find?_eq_none.2 fun table hmem => ?_
    simp [h table hmem]

end InlinedCatalog

/-! ## The inlined data tables that a commit creates -/

namespace InlinedCommit

variable [InlinedStorage]

/-- The commit creates an inlined data table for the new columns of the table. -/
def createsWithTables (commit : InlinedCommit) (db : InlinedCatalog) (id : TableIndex) : Bool :=
  commit.newInlinedDataTables.any fun table =>
    table.id = id && db.dataInliningRowLimit id ≠ 0 && canInlineColumns table.columns

omit [InlinedStorage] in
/-- The rows go to a first inlined data table that no altered table asks for, and that takes a
schema version of its own. -/
def needsFirst (commit : InlinedCommit) (db : InlinedCatalog) (entry : InlinedInsert) : Bool :=
  commit.newInlinedDataTables.all (·.id ≠ entry.tableId) &&
    (db.latestInlinedTable entry.tableId).isNone

/-- After the inlined data table of the table is created, another one takes a schema version. -/
def versionTakenAfter (commit : InlinedCommit) (db : InlinedCatalog)
    (entries : List InlinedInsert) (id : TableIndex) : Bool :=
  if commit.createsWithTables db id then entries.any (commit.needsFirst db)
  else ((entries.dropWhile (·.tableId ≠ id)).drop 1).any (commit.needsFirst db)

end InlinedCommit

/-! ## The writes of one commit -/

section Writes

variable [InlinedStorage] {db : InlinedCatalog} {commit : InlinedCommit}

omit [InlinedStorage] in
theorem InlinedCommit.find_altered (hdistinct : (commit.tables.map (·.id)).Nodup)
    {table : AlteredTable} (hmem : table ∈ commit.tables) :
    commit.tables.find? (·.id = table.id) = some table := by
  have hunique := List.inj_on_of_nodup_map hdistinct
  cases hfind : commit.tables.find? (·.id = table.id) with
  | none =>
    have hnot := List.find?_eq_none.1 hfind table hmem
    simp at hnot
  | some found =>
    have hid : found.id = table.id := by simpa using List.find?_some hfind
    rw [hunique (List.mem_of_find?_eq_some hfind) hmem hid]

omit [InlinedStorage] in
theorem InlinedCommit.columnsOf_altered (hdistinct : (commit.tables.map (·.id)).Nodup)
    {table : AlteredTable} (hmem : table ∈ commit.tables) :
    commit.columnsOf db table.id = some table.columns := by
  rw [InlinedCommit.columnsOf, InlinedCommit.find_altered hdistinct hmem]

omit [InlinedStorage] in
/-- An entry for an inlined data table comes from an altered table and has its latest columns. -/
theorem InlinedCommit.mem_newInlinedDataTables {info : DuckLakeTableInfo}
    (h : info ∈ commit.newInlinedDataTables) :
    ∃ table ∈ commit.tables, table.newInlinedDataTable = some info ∧ info.id = table.id ∧
      info.columns = table.columns := by
  obtain ⟨table, hmem, hinfo⟩ := List.mem_filterMap.1 h
  refine ⟨table, hmem, hinfo, ?_⟩
  unfold AlteredTable.newInlinedDataTable at hinfo
  split at hinfo
  · cases hinfo
    exact ⟨rfl, rfl⟩
  · cases hinfo

omit [InlinedStorage] in
theorem InlinedCommit.startVersion_of_newInlinedDataTables (db : InlinedCatalog)
    {info : DuckLakeTableInfo} (h : info ∈ commit.newInlinedDataTables) :
    commit.startVersion db = db.schemaVersion + 1 := by
  obtain ⟨table, hmem, -⟩ := InlinedCommit.mem_newInlinedDataTables h
  have hne : commit.tables.isEmpty = false := List.isEmpty_eq_false_iff.2 (List.ne_nil_of_mem hmem)
  simp [InlinedCommit.startVersion, hne]

namespace InlinedWrites

/-- Rows of the table go to an inlined data table with its columns. -/
def Target (db : InlinedCatalog) (commit : InlinedCommit) (w : InlinedWrites) (id : TableIndex)
    (version : Nat) : Prop :=
  (∃ table ∈ w.created, table.tableId = id ∧ table.schemaVersion = version) ∨
    commit.newInlinedDataTables.all (·.id ≠ id) = true ∧
      ∃ table, db.latestInlinedTable id = some table ∧ table.schemaVersion = version

/-- What is written when the rows of the entries `done` have their inlined data table. -/
structure Correct (db : InlinedCatalog) (commit : InlinedCommit) (done : List InlinedInsert)
    (w : InlinedWrites) : Prop where
  start : commit.startVersion db ≤ w.schemaVersion
  fresh : ∀ table ∈ w.created,
    db.schemaVersion < table.schemaVersion ∧ table.schemaVersion ≤ w.schemaVersion
  version : ∀ table ∈ w.created, table.schemaVersion = w.schemaVersion ∨
    commit.versionTakenAfter db done table.tableId = true
  columns : ∀ table ∈ w.created, ∃ columns, commit.columnsOf db table.tableId = some columns ∧
    table.columns = inlinedColumns columns ∧ table.rows = []
  source : ∀ table ∈ w.created, commit.createsWithTables db table.tableId = true ∨
    ∃ entry ∈ done, entry.tableId = table.tableId ∧
      (commit.newInlinedDataTables.any (·.id = table.tableId) ||
        commit.needsFirst db entry) = true
  withTables : ∀ id, commit.createsWithTables db id = true → ∃ table ∈ w.created, table.tableId = id
  entries : ∀ entry ∈ done, commit.newInlinedDataTables.any (·.id = entry.tableId) = true →
    ∃ table ∈ w.created, table.tableId = entry.tableId
  cached : ∀ table ∈ w.created, (w.insertInlinedTableCache.lookup table.tableId).isSome
  cache : ∀ id version, w.insertInlinedTableCache.lookup id = some version →
    w.Target db commit id version
  inserts : ∀ insert ∈ w.inserts, w.Target db commit insert.1 insert.2.1
  rows : ∀ insert ∈ w.inserts, ∀ row ∈ insert.2.2,
    row.columns = (commit.columnsOf db insert.1).getD []

variable {done : List InlinedInsert} {w w' : InlinedWrites}

/-! ### The tables of the transaction -/

/-- The inlined data tables of the tables before `rest`. -/
structure CorrectTables (db : InlinedCatalog) (commit : InlinedCommit)
    (done : List DuckLakeTableInfo) (w : InlinedWrites) : Prop where
  version : w.schemaVersion = commit.startVersion db
  created : ∀ table ∈ w.created, ∃ info ∈ done, table.tableId = info.id ∧
    table.schemaVersion = w.schemaVersion ∧ table.columns = inlinedColumns info.columns ∧
    table.rows = [] ∧ db.dataInliningRowLimit info.id ≠ 0 ∧ canInlineColumns info.columns = true
  all : ∀ info ∈ done, db.dataInliningRowLimit info.id ≠ 0 → canInlineColumns info.columns = true →
    ∃ table ∈ w.created, table.tableId = info.id
  cached : ∀ table ∈ w.created, (w.insertInlinedTableCache.lookup table.tableId).isSome
  cache : ∀ id version, w.insertInlinedTableCache.lookup id = some version →
    ∃ table ∈ w.created, table.tableId = id ∧ table.schemaVersion = version
  inserts : w.inserts = []

omit [InlinedStorage] in
theorem lookup_cons_self_isSome {id : TableIndex} {version : Nat}
    {cache : List (TableIndex × Nat)} : (((id, version) :: cache).lookup id).isSome := by
  simp

omit [InlinedStorage] in
theorem lookup_cons_isSome {id other : TableIndex} {version : Nat}
    {cache : List (TableIndex × Nat)} (h : (cache.lookup id).isSome) :
    (((other, version) :: cache).lookup id).isSome := by
  rw [List.lookup_cons]
  split
  · rfl
  · exact h

theorem CorrectTables.step {done : List DuckLakeTableInfo} {info : DuckLakeTableInfo}
    (h : CorrectTables db commit done w) (hinfo : info ∈ commit.newInlinedDataTables) :
    CorrectTables db commit (done ++ [info]) (writeNewInlinedTable db w info) := by
  obtain ⟨table, hmem, -, hid, hcolumns⟩ := InlinedCommit.mem_newInlinedDataTables hinfo
  have hlocal : isTransactionLocal info.id = false := hid ▸ table.committed
  have hfetched : (if info.columns.isEmpty then (db.currentColumns info.id).getD []
      else info.columns) = info.columns := by
    have hnonempty : info.columns.isEmpty = false := by
      rw [hcolumns, List.isEmpty_eq_false_iff]
      exact fun hempty => table.hasColumns (List.map_eq_nil_iff.1 hempty)
    rw [hnonempty, if_neg Bool.false_ne_true]
  -- a table that is skipped
  have hskip : ¬ (db.dataInliningRowLimit info.id ≠ 0 ∧ canInlineColumns info.columns = true) →
      CorrectTables db commit (done ++ [info]) w := by
    intro hnot
    refine { h with created := ?_, all := ?_ }
    · intro t ht
      obtain ⟨i, hi, hrest⟩ := h.created t ht
      exact ⟨i, List.mem_append_left _ hi, hrest⟩
    · intro i hi hlimit hinline
      rcases List.mem_append.1 hi with hi | hi
      · exact h.all i hi hlimit hinline
      · cases List.mem_singleton.1 hi
        exact absurd ⟨hlimit, hinline⟩ hnot
  unfold writeNewInlinedTable
  rw [hlocal, hfetched]
  dsimp only
  split
  · rename_i hzero
    refine hskip fun hand => hand.1 ?_
    simpa using hzero
  · rename_i hlimit
    have hlimit : db.dataInliningRowLimit info.id ≠ 0 := by simpa using hlimit
    split
    · rename_i hinline
      exact {
        version := h.version
        created := by
          intro t ht
          rcases List.mem_append.1 ht with ht | ht
          · obtain ⟨i, hi, hrest⟩ := h.created t ht
            exact ⟨i, List.mem_append_left _ hi, hrest⟩
          · cases List.mem_singleton.1 ht
            exact ⟨info, List.mem_append_right _ (.head _), rfl, rfl, rfl, rfl, hlimit, hinline⟩
        all := by
          intro i hi hlimit' hinline'
          rcases List.mem_append.1 hi with hi | hi
          · obtain ⟨t, ht, hsame⟩ := h.all i hi hlimit' hinline'
            exact ⟨t, List.mem_append_left _ ht, hsame⟩
          · cases List.mem_singleton.1 hi
            exact ⟨_, List.mem_append_right _ (.head _), rfl⟩
        cached := by
          intro t ht
          rcases List.mem_append.1 ht with ht | ht
          · exact lookup_cons_isSome (h.cached t ht)
          · cases List.mem_singleton.1 ht
            exact lookup_cons_self_isSome
        cache := by
          intro id version hlookup
          simp only [getInlinedTableQueries, List.lookup_cons] at hlookup
          split at hlookup
          · rename_i heq
            cases hlookup
            exact ⟨_, List.mem_append_right _ (.head _), (beq_iff_eq.1 heq).symm, rfl⟩
          · obtain ⟨t, ht, hrest⟩ := h.cache id version hlookup
            exact ⟨t, List.mem_append_left _ ht, hrest⟩
        inserts := h.inserts }
    · rename_i hinline
      exact hskip fun hand => hinline hand.2

theorem correctTables_foldl {done rest : List DuckLakeTableInfo}
    (hrest : rest ⊆ commit.newInlinedDataTables) (h : CorrectTables db commit done w) :
    CorrectTables db commit (done ++ rest) (rest.foldl (writeNewInlinedTable db) w) := by
  induction rest generalizing done w with
  | nil => simpa using h
  | cons info rest ih =>
    have hstep := h.step (hrest (.head _))
    have := ih (fun i hi => hrest (.tail _ hi)) hstep
    rwa [List.append_assoc, List.singleton_append] at this

theorem writeNewInlinedTables_correct (hdistinct : (commit.tables.map (·.id)).Nodup) :
    Correct db commit [] (db.writeNewInlinedTables commit) := by
  have hstart : CorrectTables db commit [] { schemaVersion := commit.startVersion db } := {
    version := rfl
    created := by simp
    all := by simp
    cached := by simp
    cache := by simp
    inserts := rfl }
  have h : CorrectTables db commit commit.newInlinedDataTables
      (db.writeNewInlinedTables commit) := by
    have := correctTables_foldl (List.Subset.refl _) hstart
    rwa [List.nil_append] at this
  have hcreates : ∀ id, commit.createsWithTables db id = true ↔
      ∃ info ∈ commit.newInlinedDataTables, info.id = id ∧ db.dataInliningRowLimit id ≠ 0 ∧
        canInlineColumns info.columns = true := by
    simp [InlinedCommit.createsWithTables, and_assoc]
  exact {
    start := h.version.ge
    fresh := by
      intro t ht
      obtain ⟨info, hinfo, -, hversion, -⟩ := h.created t ht
      have hstart := InlinedCommit.startVersion_of_newInlinedDataTables db hinfo
      have := h.version
      omega
    version := fun t ht => .inl (h.created t ht).choose_spec.2.2.1
    columns := by
      intro t ht
      obtain ⟨info, hinfo, hid, -, hcolumns, hrows, -⟩ := h.created t ht
      obtain ⟨table, hmem, -, htable, hsame⟩ := InlinedCommit.mem_newInlinedDataTables hinfo
      refine ⟨table.columns, ?_, hsame ▸ hcolumns, hrows⟩
      rw [hid, htable]
      exact InlinedCommit.columnsOf_altered hdistinct hmem
    source := by
      intro t ht
      obtain ⟨info, hinfo, hid, -, -, -, hlimit, hinline⟩ := h.created t ht
      rw [hid]
      exact .inl ((hcreates _).2 ⟨info, hinfo, rfl, hlimit, hinline⟩)
    withTables := by
      intro id hid
      obtain ⟨info, hinfo, rfl, hlimit, hinline⟩ := (hcreates id).1 hid
      exact h.all info hinfo hlimit hinline
    entries := by simp
    cached := h.cached
    cache := fun id version hlookup => .inl (h.cache id version hlookup)
    inserts := by simp [h.inserts]
    rows := by simp [h.inserts] }

/-! ### The inlined rows of the transaction -/

omit [InlinedStorage] in
theorem dropWhile_concat_of_mem {id : TableIndex} {entry : InlinedInsert}
    (h : ∃ e ∈ done, e.tableId = id) :
    ((done ++ [entry]).dropWhile (·.tableId ≠ id)).drop 1 =
      (done.dropWhile (·.tableId ≠ id)).drop 1 ++ [entry] := by
  induction done with
  | nil => simp at h
  | cons first done ih =>
    by_cases hfirst : first.tableId = id
    · simp [hfirst]
    · obtain ⟨e, he, hid⟩ := h
      rcases List.mem_cons.1 he with rfl | he
      · exact absurd hid hfirst
      · simpa [hfirst] using ih ⟨e, he, hid⟩

/-- Where the schema version of an inlined data table is taken by the next entry. -/
theorem versionTakenAfter_concat {id : TableIndex} {entry : InlinedInsert}
    (h : commit.createsWithTables db id = true ∨ ∃ e ∈ done, e.tableId = id) :
    commit.versionTakenAfter db (done ++ [entry]) id =
      (commit.versionTakenAfter db done id || commit.needsFirst db entry) := by
  unfold InlinedCommit.versionTakenAfter
  split
  · simp
  · rename_i hcreates
    rw [dropWhile_concat_of_mem (h.resolve_left hcreates)]
    simp

theorem Correct.versionTakenAfter_concat (h : Correct db commit done w) {table : InlinedTable}
    (hmem : table ∈ w.created) (entry : InlinedInsert) :
    commit.versionTakenAfter db (done ++ [entry]) table.tableId =
      (commit.versionTakenAfter db done table.tableId || commit.needsFirst db entry) := by
  refine InlinedWrites.versionTakenAfter_concat ?_
  rcases h.source table hmem with hcreates | ⟨e, he, hid, -⟩
  · exact .inl hcreates
  · exact .inr ⟨e, he, hid⟩

/-- An entry whose rows have an inlined data table already. -/
theorem Correct.skip (h : Correct db commit done w) {entry : InlinedInsert}
    (hentry : commit.newInlinedDataTables.any (·.id = entry.tableId) = true →
      ∃ table ∈ w.created, table.tableId = entry.tableId) :
    Correct db commit (done ++ [entry]) w :=
  { h with
    version := by
      intro t ht
      rcases h.version t ht with hv | hv
      · exact .inl hv
      · rw [h.versionTakenAfter_concat ht, hv, Bool.true_or]
        exact .inr rfl
    source := by
      intro t ht
      rcases h.source t ht with hcreates | ⟨e, he, hrest⟩
      · exact .inl hcreates
      · exact .inr ⟨e, List.mem_append_left _ he, hrest⟩
    entries := by
      intro e he hpublished
      rcases List.mem_append.1 he with he | he
      · exact h.entries e he hpublished
      · cases List.mem_singleton.1 he
        exact hentry hpublished }

/-- The rows of an entry go to their inlined data table. -/
theorem Correct.insertInto (h : Correct db commit done w) {id : TableIndex} {version : Nat}
    {rows : List InlinedRow} (htarget : w.Target db commit id version)
    (hrows : ∀ row ∈ rows, row.columns = (commit.columnsOf db id).getD []) :
    Correct db commit done (w.insertInto id version rows) :=
  { h with
    cached := fun t ht => lookup_cons_isSome (h.cached t ht)
    cache := by
      intro other v hlookup
      simp only [InlinedWrites.insertInto, List.lookup_cons] at hlookup
      split at hlookup
      · rename_i heq
        cases hlookup
        cases beq_iff_eq.1 heq
        exact htarget
      · exact h.cache other v hlookup
    inserts := by
      intro insert hinsert
      rcases List.mem_append.1 hinsert with hinsert | hinsert
      · exact h.inserts insert hinsert
      · cases List.mem_singleton.1 hinsert
        exact htarget
    rows := by
      intro insert hinsert
      rcases List.mem_append.1 hinsert with hinsert | hinsert
      · exact h.rows insert hinsert
      · cases List.mem_singleton.1 hinsert
        exact hrows }

omit [InlinedStorage] in
theorem Target.mono {id : TableIndex} {version : Nat} (h : w.Target db commit id version)
    (hcreated : w.created ⊆ w'.created) : w'.Target db commit id version := by
  rcases h with ⟨t, ht, hrest⟩ | hold
  · exact .inl ⟨t, hcreated ht, hrest⟩
  · exact .inr hold

/-- A new inlined data table for the rows of an entry. `taken` is the schema version that it takes
for itself. -/
theorem Correct.getInlinedTableQueries (h : Correct db commit done w) {entry : InlinedInsert}
    {columns now : List DuckLakeColumnInfo} (taken : Nat)
    (hfresh : db.schemaVersion < w.schemaVersion + taken)
    (htaken : taken ≠ 0 → commit.needsFirst db entry = true)
    (hcolumns : commit.columnsOf db entry.tableId = some now)
    (hsame : typedFields now = typedFields columns)
    (hsource : (commit.newInlinedDataTables.any (·.id = entry.tableId) ||
      commit.needsFirst db entry) = true) :
    Correct db commit (done ++ [entry])
      ({ w with schemaVersion := w.schemaVersion + taken }.getInlinedTableQueries entry.tableId
        columns) where
  start := h.start.trans (Nat.le_add_right _ _)
  fresh := by
    intro t ht
    rcases List.mem_append.1 ht with ht | ht
    · have := h.fresh t ht
      exact ⟨this.1, this.2.trans (Nat.le_add_right _ _)⟩
    · cases List.mem_singleton.1 ht
      exact ⟨hfresh, le_rfl⟩
  version := by
    intro t ht
    rcases List.mem_append.1 ht with ht | ht
    · rw [h.versionTakenAfter_concat ht]
      by_cases hzero : taken = 0
      · rcases h.version t ht with hv | hv
        · exact .inl (by rw [hv, hzero]; rfl)
        · exact .inr (by rw [hv, Bool.true_or])
      · exact .inr (by rw [htaken hzero, Bool.or_true])
    · cases List.mem_singleton.1 ht
      exact .inl rfl
  columns := by
    intro t ht
    rcases List.mem_append.1 ht with ht | ht
    · exact h.columns t ht
    · cases List.mem_singleton.1 ht
      exact ⟨now, hcolumns, (inlinedColumns_congr hsame).symm, rfl⟩
  source := by
    intro t ht
    rcases List.mem_append.1 ht with ht | ht
    · rcases h.source t ht with hcreates | ⟨e, he, hrest⟩
      · exact .inl hcreates
      · exact .inr ⟨e, List.mem_append_left _ he, hrest⟩
    · cases List.mem_singleton.1 ht
      exact .inr ⟨entry, List.mem_append_right _ (.head _), rfl, hsource⟩
  withTables := by
    intro id hid
    obtain ⟨t, ht, hsame⟩ := h.withTables id hid
    exact ⟨t, List.mem_append_left _ ht, hsame⟩
  entries := by
    intro e he hpublished
    rcases List.mem_append.1 he with he | he
    · obtain ⟨t, ht, hsame⟩ := h.entries e he hpublished
      exact ⟨t, List.mem_append_left _ ht, hsame⟩
    · cases List.mem_singleton.1 he
      exact ⟨_, List.mem_append_right _ (.head _), rfl⟩
  cached := by
    intro t ht
    rcases List.mem_append.1 ht with ht | ht
    · exact lookup_cons_isSome (h.cached t ht)
    · cases List.mem_singleton.1 ht
      exact lookup_cons_self_isSome
  cache := by
    intro id version hlookup
    simp only [InlinedWrites.getInlinedTableQueries, List.lookup_cons] at hlookup
    split at hlookup
    · rename_i heq
      cases hlookup
      exact .inl ⟨_, List.mem_append_right _ (.head _), (beq_iff_eq.1 heq).symm, rfl⟩
    · exact (h.cache id version hlookup).mono (List.subset_append_left _ _)
  inserts := fun insert hinsert =>
    (h.inserts insert hinsert).mono (List.subset_append_left _ _)
  rows := h.rows

omit [InlinedStorage] in
/-- What is known when the table of an entry has no inlined data table to insert into. -/
theorem inlinedTableName_eq_none {id : TableIndex} (h : inlinedTableName db commit w id = none)
    (hnone : commit.newInlinedDataTables.find? (·.id = id) = none) :
    commit.newInlinedDataTables.all (·.id ≠ id) = true ∧ db.latestInlinedTable id = none := by
  have hall : commit.newInlinedDataTables.all (·.id ≠ id) = true := by
    simpa using hnone
  refine ⟨hall, ?_⟩
  unfold inlinedTableName at h
  split at h
  · cases h
  · rw [if_pos hall, Option.map_eq_none_iff] at h
    exact h

/-- No column is changed of a table for which a first inlined data table is created that it has not
asked for. -/
def KeepsFirst (db : InlinedCatalog) (commit : InlinedCommit) (entry : InlinedInsert) : Prop :=
  commit.needsFirst db entry = true → ∀ columns, db.currentColumns entry.tableId = some columns →
    ∃ now, commit.columnsOf db entry.tableId = some now ∧ typedFields now = typedFields columns

theorem Correct.entry (h : Correct db commit done w) {entry : InlinedInsert}
    (hdistinct : (commit.tables.map (·.id)).Nodup) (hkeeps : KeepsFirst db commit entry)
    (hrun : writeInlinedEntry db commit w entry = .ok w') :
    Correct db commit (done ++ [entry]) w' := by
  have hrows : ∀ row ∈ entry.rows.map fun values =>
      (⟨db.snapshotId + 1, values, (commit.columnsOf db entry.tableId).getD []⟩ : InlinedRow),
      row.columns = (commit.columnsOf db entry.tableId).getD [] := by
    intro row hrow
    obtain ⟨values, -, rfl⟩ := List.mem_map.1 hrow
    rfl
  unfold writeInlinedEntry at hrun
  dsimp only at hrun
  split at hrun
  · rename_i version hname
    cases hrun
    have htarget : w.Target db commit entry.tableId version := by
      unfold inlinedTableName at hname
      split at hname
      · rename_i v hlookup
        cases hname
        exact h.cache _ _ hlookup
      · split at hname
        · rename_i hall
          obtain ⟨t, ht, hv⟩ := Option.map_eq_some_iff.1 hname
          exact .inr ⟨hall, t, ht, hv⟩
        · cases hname
    refine (h.skip fun hpublished => ?_).insertInto htarget hrows
    rcases htarget with ⟨t, ht, hid, -⟩ | ⟨hall, -⟩
    · exact ⟨t, ht, hid⟩
    · rw [List.any_eq_true] at hpublished
      obtain ⟨info, hinfo, hid⟩ := hpublished
      have hne := List.all_eq_true.1 hall info hinfo
      simp only [decide_eq_true_eq] at hid hne
      exact absurd hid hne
  · rename_i hname
    obtain ⟨created, hcreated, hinsert⟩ : ∃ created,
        createInlinedTable db commit w entry.tableId = .ok created ∧
        w' = created.insertInto entry.tableId created.schemaVersion (entry.rows.map fun values =>
          ⟨db.snapshotId + 1, values, (commit.columnsOf db entry.tableId).getD []⟩) := by
      match hc : createInlinedTable db commit w entry.tableId with
      | .ok created =>
        rw [hc] at hrun
        cases hrun
        exact ⟨created, rfl, rfl⟩
      | .error e =>
        rw [hc] at hrun
        cases hrun
    unfold createInlinedTable at hcreated
    split at hcreated
    · rename_i info hfind
      cases hcreated
      have hinfo := List.mem_of_find?_eq_some hfind
      have hid : info.id = entry.tableId := by simpa using List.find?_some hfind
      obtain ⟨table, hmem, -, htable, hsame⟩ := InlinedCommit.mem_newInlinedDataTables hinfo
      have hstart := InlinedCommit.startVersion_of_newInlinedDataTables db hinfo
      have hle := h.start
      have hcolumns : commit.columnsOf db entry.tableId = some info.columns := by
        rw [← hid, htable, hsame]
        exact InlinedCommit.columnsOf_altered hdistinct hmem
      have hpublished : commit.newInlinedDataTables.any (·.id = entry.tableId) = true :=
        List.any_eq_true.2 ⟨info, hinfo, by simpa using hid⟩
      have hnew := h.getInlinedTableQueries 0 (by omega) (fun hne => absurd rfl hne)
        hcolumns rfl (by rw [hpublished, Bool.true_or])
      rw [hinsert]
      refine hnew.insertInto (.inl ⟨_, List.mem_append_right _ (.head _), rfl, rfl⟩) hrows
    · rename_i columns hfind hcolumns
      cases hcreated
      obtain ⟨hall, hlatest⟩ := inlinedTableName_eq_none hname hfind
      have hfirst : commit.needsFirst db entry = true := by
        rw [InlinedCommit.needsFirst, hall, hlatest]
        rfl
      have hle : db.schemaVersion ≤ commit.startVersion db := Nat.le_add_right _ _
      have hstart := h.start
      obtain ⟨now, hnow, hsame⟩ := hkeeps hfirst columns hcolumns
      have hnew := h.getInlinedTableQueries 1 (by omega) (fun _ => hfirst) hnow hsame
        (by rw [hfirst, Bool.or_true])
      rw [hinsert]
      refine hnew.insertInto (.inl ⟨_, List.mem_append_right _ (.head _), rfl, rfl⟩) hrows
    · cases hcreated

theorem correct_foldlM (hdistinct : (commit.tables.map (·.id)).Nodup) {rest : List InlinedInsert}
    (hkeeps : ∀ entry ∈ rest, KeepsFirst db commit entry) (h : Correct db commit done w)
    (hrun : rest.foldlM (writeInlinedEntry db commit) w = .ok w') :
    Correct db commit (done ++ rest) w' := by
  induction rest generalizing done w with
  | nil =>
    cases hrun
    simpa using h
  | cons entry rest ih =>
    rw [List.foldlM_cons] at hrun
    match hentry : writeInlinedEntry db commit w entry with
    | .ok next =>
      rw [hentry] at hrun
      have := ih (fun e he => hkeeps e (.tail _ he)) (h.entry hdistinct (hkeeps entry (.head _)) hentry)
        hrun
      rwa [List.append_assoc, List.singleton_append] at this
    | .error e =>
      rw [hentry] at hrun
      cases hrun

theorem writeNewInlinedData_correct (hdistinct : (commit.tables.map (·.id)).Nodup)
    (hkeeps : ∀ entry ∈ commit.newInlinedData, KeepsFirst db commit entry)
    (hrun : db.writeNewInlinedData commit = .ok w) :
    Correct db commit commit.newInlinedData w := by
  have := correct_foldlM hdistinct hkeeps (writeNewInlinedTables_correct hdistinct) hrun
  rwa [List.nil_append] at this

end InlinedWrites

end Writes

end DuckLake
