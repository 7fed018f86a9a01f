import DuckLake.Storage.InlinedWrites
import Mathlib.Data.List.Find

/-!
# The newest inlined data table over a run

Rows are inserted by position into the newest inlined data table, and readers map the rows of every
inlined data table by the columns of its schema version. Whether both agree with the columns of the
table is decided by the commit that changes the columns and by the one that creates the inlined
data table.
-/

namespace DuckLake

open DuckLakeColumnInfo

/-! ## Well-formed transactions -/

/-- The versions of the table are made by ALTERs of what the catalog has, or by a CREATE TABLE and
ALTERs of the new table. -/
inductive AlteredTable.StagedOn (db : InlinedCatalog) (table : AlteredTable) : Prop where
  | new {created : DuckLakeTableEntry} {later : List DuckLakeTableEntry} :
    db.currentColumns table.id = none → table.versions = created :: later →
    created.localChange = .created →
    List.IsChain DuckLakeTableEntry.AlteredTo (created :: later) → StagedOn db table
  | existing {base : DuckLakeTableEntry} {columns : List DuckLakeColumnInfo} :
    db.currentColumns table.id = some columns →
    typedFields base.getTableColumns = typedFields columns →
    List.IsChain DuckLakeTableEntry.AlteredTo (base :: table.versions) → StagedOn db table

structure InlinedCommit.StagedOn (commit : InlinedCommit) (db : InlinedCatalog) : Prop where
  tables : ∀ table ∈ commit.tables, table.StagedOn db
  distinct : (commit.tables.map (·.id)).Nodup

namespace InlinedCommit

variable [InlinedStorage]

/-- The columns of the table are changed: their fields, names or types. -/
def ChangesColumns (db : InlinedCatalog) (table : AlteredTable) : Prop :=
  ∃ columns, db.currentColumns table.id = some columns ∧
    typedFields table.columns ≠ typedFields columns

/-- The commit creates an inlined data table for the table. -/
def createsInlinedTable (commit : InlinedCommit) (db : InlinedCatalog) (id : TableIndex) : Bool :=
  commit.createsWithTables db id || commit.newInlinedData.any fun entry =>
    entry.tableId = id && (commit.newInlinedDataTables.any (·.id = id) || commit.needsFirst db entry)

/-- The commit records its schema version for the table. -/
def recordsSchemaVersion (commit : InlinedCommit) (id : TableIndex) : Bool :=
  commit.tables.any fun table => table.id = id && table.hasSchemaVersion

/-- The table has an inlined data table, or the commit has rows for one. -/
def IsInlined (commit : InlinedCommit) (db : InlinedCatalog) (id : TableIndex) : Prop :=
  db.latestInlinedTable id ≠ none ∨ ∃ entry ∈ commit.newInlinedData, entry.tableId = id

/-- The condition on a commit. -/
structure KeepsInlinedTables (commit : InlinedCommit) (db : InlinedCatalog) : Prop where
  /-- The new name of a column is not overlooked because a later ALTER takes the column up again. -/
  renames : ∀ table ∈ commit.tables, commit.IsInlined db table.id → ChangesColumns db table →
    (∃ version ∈ table.versions, ∃ field, version.localChange = .renameColumn field) →
    table.newInlinedDataTable ≠ none
  /-- Where rows were inlined before, changed columns can be inlined at the commit, or there are
  rows to inline. -/
  inlines : ∀ table ∈ commit.tables, db.latestInlinedTable table.id ≠ none →
    ChangesColumns db table →
    (db.dataInliningRowLimit table.id ≠ 0 ∧ canInlineColumns table.columns = true) ∨
      ∃ entry ∈ commit.newInlinedData, entry.tableId = table.id
  /-- The schema version of a new inlined data table is recorded for the table, or the table has
  the columns it was created with. -/
  versions : ∀ id columns, commit.createsInlinedTable db id = true →
    db.currentColumns id = some columns →
    (commit.recordsSchemaVersion id = true ∧
      commit.versionTakenAfter db commit.newInlinedData id = false) ∨
    ∃ snapshot first now, db.getBeginSnapshotForTable id = some snapshot ∧
      db.columnsAt id snapshot = some first ∧ commit.columnsOf db id = some now ∧
      typedFields first = typedFields now

end InlinedCommit

def InlinedStep.KeepsInlinedTables [InlinedStorage] (db : InlinedCatalog) : InlinedStep → Prop
  | .commit transaction => transaction.KeepsInlinedTables db
  | _ => True

/-! ## What is claimed -/

namespace InlinedCatalog

variable [InlinedStorage]

/-- Readers map the inlined data table by these columns, up to defaults and constraints. -/
def ReadAs (db : InlinedCatalog) (table : InlinedTable) (columns : List DuckLakeColumnInfo) :
    Prop :=
  table.columns = inlinedColumns columns ∧
    ∃ reader, db.readerColumns table = some reader ∧ typedFields reader = typedFields columns

structure Sound (db : InlinedCatalog) : Prop where
  definitions : ∀ d ∈ db.definitions, d.beginSnapshot ≤ db.snapshotId
  schemaVersions : ∀ row ∈ db.schemaVersions,
    row.beginSnapshot ≤ db.snapshotId ∧ row.schemaVersion ≤ db.schemaVersion
  tables : ∀ row ∈ db.tables, row.2 ≤ db.snapshotId ∧ db.currentColumns row.1 ≠ none
  versions : ∀ table ∈ db.inlinedTables,
    table.schemaVersion ≤ db.schemaVersion ∧ db.currentColumns table.tableId ≠ none
  latest : ∀ table columns, db.IsLatest table →
    db.currentColumns table.tableId = some columns → db.ReadAs table columns
  rows : ∀ table ∈ db.inlinedTables, ∀ row ∈ table.rows, db.ReadAs table row.columns

theorem ReadAs.congr {db : InlinedCatalog} {table : InlinedTable}
    {columns columns' : List DuckLakeColumnInfo} (h : db.ReadAs table columns)
    (hsame : typedFields columns = typedFields columns') : db.ReadAs table columns' := by
  obtain ⟨hcolumns, reader, hreader, hfields⟩ := h
  exact ⟨hcolumns.trans (inlinedColumns_congr hsame), reader, hreader, hfields.trans hsame⟩

/-! ### What a commit leaves as it is -/

section Commit

variable {db : InlinedCatalog} {commit : InlinedCommit} {w : InlinedWrites} {id : TableIndex}

omit [InlinedStorage] in
theorem columnsAt_afterWrites {snapshot : SnapshotId} (hle : snapshot ≤ db.snapshotId) :
    (db.afterWrites commit w).columnsAt id snapshot = db.columnsAt id snapshot := by
  have hnone : (commit.tables.map fun table =>
      (⟨table.id, db.snapshotId + 1, table.columns⟩ : TableDefinition)).find?
        (fun d => d.tableId = id ∧ d.beginSnapshot ≤ snapshot) = none := by
    rw [List.find?_map, Option.map_eq_none_iff, List.find?_eq_none]
    intro table _
    have hlater : ¬ db.snapshotId + 1 ≤ snapshot := Nat.not_le.2 (Nat.lt_succ_of_le hle)
    simp [hlater]
  unfold columnsAt afterWrites
  rw [List.find?_append, hnone, Option.none_or]

omit [InlinedStorage] in
theorem currentColumns_afterWrites
    (h : ∀ d ∈ db.definitions, d.beginSnapshot ≤ db.snapshotId) :
    (db.afterWrites commit w).currentColumns id = commit.columnsOf db id := by
  have hnew : (commit.tables.map fun table =>
      (⟨table.id, db.snapshotId + 1, table.columns⟩ : TableDefinition)).find?
        (fun d => d.tableId = id ∧ d.beginSnapshot ≤ db.snapshotId + 1) =
      (commit.tables.find? (·.id = id)).map fun table =>
        ⟨table.id, db.snapshotId + 1, table.columns⟩ := by
    rw [List.find?_map]
    congr 2
    funext table
    simp
  have hold : db.definitions.find? (fun d => d.tableId = id ∧ d.beginSnapshot ≤ db.snapshotId + 1) =
      db.definitions.find? (fun d => d.tableId = id ∧ d.beginSnapshot ≤ db.snapshotId) := by
    refine List.find?_congr fun d hd => ?_
    have hle := h d hd
    have hnext : d.beginSnapshot ≤ db.snapshotId + 1 := Nat.le_succ_of_le hle
    simp [hle, hnext]
  unfold currentColumns columnsAt afterWrites InlinedCommit.columnsOf
  rw [List.find?_append, hnew, hold]
  cases commit.tables.find? (·.id = id) with
  | none => rfl
  | some table => rfl

omit [InlinedStorage] in
theorem getBeginSnapshotForTable_afterWrites {snapshot : SnapshotId}
    (h : db.getBeginSnapshotForTable id = some snapshot) :
    (db.afterWrites commit w).getBeginSnapshotForTable id = some snapshot := by
  obtain ⟨row, hrow, rfl⟩ := Option.map_eq_some_iff.1 h
  simp only [getBeginSnapshotForTable, afterWrites, List.find?_append, hrow, Option.some_or,
    Option.map_some]

omit [InlinedStorage] in
/-- The schema version of a commit that alters tables is a new one. -/
theorem recordedVersions_fresh (hstart : commit.startVersion db ≤ w.schemaVersion)
    {version : Nat} (hversion : version ≤ db.schemaVersion) :
    ((commit.tables.filter (·.hasSchemaVersion)).map fun table =>
      (⟨db.snapshotId + 1, w.schemaVersion, table.id⟩ : SchemaVersionRow)).find?
        (fun row => row.tableId = id ∧ row.schemaVersion = version) = none := by
  rw [List.find?_map, Option.map_eq_none_iff, List.find?_eq_none]
  intro table hmem
  have hne : commit.tables.isEmpty = false :=
    List.isEmpty_eq_false_iff.2 (List.ne_nil_of_mem (List.mem_of_mem_filter hmem))
  have hnew : commit.startVersion db = db.schemaVersion + 1 := by
    simp [InlinedCommit.startVersion, hne]
  have hdiffer : w.schemaVersion ≠ version := by omega
  simp [hdiffer]

omit [InlinedStorage] in
theorem readerColumns_afterWrites (hdb : ∀ row ∈ db.schemaVersions,
      row.beginSnapshot ≤ db.snapshotId ∧ row.schemaVersion ≤ db.schemaVersion)
    (htables : ∀ row ∈ db.tables, row.2 ≤ db.snapshotId ∧ db.currentColumns row.1 ≠ none)
    (hstart : commit.startVersion db ≤ w.schemaVersion) {table : InlinedTable}
    (hversion : table.schemaVersion ≤ db.schemaVersion) {columns : List DuckLakeColumnInfo}
    (h : db.readerColumns table = some columns) :
    (db.afterWrites commit w).readerColumns table = some columns := by
  obtain ⟨snapshot, hbegin, hcolumns⟩ := Option.bind_eq_some_iff.1 h
  unfold getBeginSnapshotForSchemaVersion at hbegin
  split at hbegin
  · rename_i row hrow
    cases hbegin
    have hle := (hdb row (List.mem_of_find?_eq_some hrow)).1
    have hbegin' : (db.afterWrites commit w).getBeginSnapshotForSchemaVersion table.tableId
        table.schemaVersion = some row.beginSnapshot := by
      simp only [getBeginSnapshotForSchemaVersion, afterWrites, List.find?_append, hrow,
        Option.some_or]
    rw [readerColumns, hbegin', Option.bind_some, columnsAt_afterWrites hle, hcolumns]
  · rename_i hnone
    obtain ⟨row, hrow, rfl⟩ := Option.map_eq_some_iff.1 hbegin
    have hle := (htables row (List.mem_of_find?_eq_some hrow)).1
    have hbegin' : (db.afterWrites commit w).getBeginSnapshotForSchemaVersion table.tableId
        table.schemaVersion = some row.2 := by
      have hfallback : (db.afterWrites commit w).getBeginSnapshotForTable table.tableId =
          some row.2 := getBeginSnapshotForTable_afterWrites hbegin
      unfold getBeginSnapshotForSchemaVersion
      rw [show (db.afterWrites commit w).schemaVersions.find? (fun row =>
          row.tableId = table.tableId ∧ row.schemaVersion = table.schemaVersion) = none from ?_]
      · exact hfallback
      · simp only [afterWrites, List.find?_append, hnone, Option.none_or]
        exact recordedVersions_fresh hstart hversion
    rw [readerColumns, hbegin', Option.bind_some, columnsAt_afterWrites hle, hcolumns]

theorem ReadAs.afterWrites {table : InlinedTable} {columns : List DuckLakeColumnInfo}
    (h : db.ReadAs table columns) (hdb : db.Sound)
    (hstart : commit.startVersion db ≤ w.schemaVersion)
    (hversion : table.schemaVersion ≤ db.schemaVersion) :
    (db.afterWrites commit w).ReadAs table columns := by
  obtain ⟨hcolumns, reader, hreader, hfields⟩ := h
  exact ⟨hcolumns, reader,
    readerColumns_afterWrites hdb.schemaVersions hdb.tables hstart hversion hreader, hfields⟩

/-! ### New inlined data tables -/

omit [InlinedStorage] in
/-- A table that the transaction creates begins with its commit. -/
theorem getBeginSnapshotForTable_new (hdb : ∀ row ∈ db.tables, db.currentColumns row.1 ≠ none)
    (hstaged : commit.StagedOn db) (hnew : db.currentColumns id = none)
    {columns : List DuckLakeColumnInfo} (hcolumns : commit.columnsOf db id = some columns) :
    (db.afterWrites commit w).getBeginSnapshotForTable id = some (db.snapshotId + 1) := by
  have hold : db.tables.find? (·.1 = id) = none := by
    refine List.find?_eq_none.2 fun row hrow hid => hdb row hrow ?_
    rw [decide_eq_true_eq] at hid
    rw [hid, hnew]
  obtain ⟨table, hmem, rfl⟩ : ∃ table ∈ commit.tables, table.id = id := by
    unfold InlinedCommit.columnsOf at hcolumns
    split at hcolumns
    · rename_i table hfind
      exact ⟨table, List.mem_of_find?_eq_some hfind, by simpa using List.find?_some hfind⟩
    · rw [hnew] at hcolumns
      cases hcolumns
  have hrow : table.writesTableRow = true := by
    cases hstaged.tables table hmem with
    | new _ hversions hcreated _ =>
      simp [AlteredTable.writesTableRow, hversions, DuckLakeTableEntry.writesTableRow, hcreated]
    | existing hsome => exact absurd (hnew.symm.trans hsome) nofun
  have hfind : ∃ row, ((commit.tables.filter (·.writesTableRow)).map fun t =>
      (t.id, db.snapshotId + 1)).find? (·.1 = table.id) = some row := by
    rw [← Option.isSome_iff_exists, List.find?_isSome]
    exact ⟨_, List.mem_map_of_mem (List.mem_filter.2 ⟨hmem, hrow⟩), by simp⟩
  obtain ⟨row, hrow⟩ := hfind
  obtain ⟨t, -, rfl⟩ := List.mem_map.1 (List.mem_of_find?_eq_some hrow)
  simp only [getBeginSnapshotForTable, afterWrites, List.find?_append, hold, Option.none_or,
    hrow, Option.map_some]

open InlinedWrites in
theorem readAs_created (hdb : db.Sound) (hstaged : commit.StagedOn db)
    (hkeeps : commit.KeepsInlinedTables db) (hw : Correct db commit commit.newInlinedData w)
    {table : InlinedTable} (hmem : table ∈ w.created) {columns : List DuckLakeColumnInfo}
    (hcolumns : commit.columnsOf db table.tableId = some columns) :
    (db.afterWrites commit w).ReadAs table columns := by
  obtain ⟨columns', hcolumns', hcreated, -⟩ := hw.columns table hmem
  cases hcolumns'.symm.trans hcolumns
  refine ⟨hcreated, ?_⟩
  have hnow : (db.afterWrites commit w).columnsAt table.tableId (db.snapshotId + 1) =
      some columns := (currentColumns_afterWrites hdb.definitions).trans hcolumns
  have hold : db.schemaVersions.find? (fun row =>
      row.tableId = table.tableId ∧ row.schemaVersion = table.schemaVersion) = none := by
    refine List.find?_eq_none.2 fun row hrow => ?_
    have hle := (hdb.schemaVersions row hrow).2
    have hlt := (hw.fresh table hmem).1
    have hne : row.schemaVersion ≠ table.schemaVersion := by omega
    simp [hne]
  unfold readerColumns getBeginSnapshotForSchemaVersion
  split
  · -- the schema version is recorded by the commit
    rename_i row hrow
    simp only [afterWrites, List.find?_append, hold, Option.none_or] at hrow
    obtain ⟨altered, -, rfl⟩ := List.mem_map.1 (List.mem_of_find?_eq_some hrow)
    rw [Option.bind_some]
    exact ⟨columns, hnow, rfl⟩
  · rename_i hnone
    cases hcurrent : db.currentColumns table.tableId with
    | none =>
      rw [getBeginSnapshotForTable_new (fun row hrow => (hdb.tables row hrow).2) hstaged hcurrent
        hcolumns, Option.bind_some]
      exact ⟨columns, hnow, rfl⟩
    | some current =>
      have hcreates : commit.createsInlinedTable db table.tableId = true := by
        unfold InlinedCommit.createsInlinedTable
        rw [Bool.or_eq_true]
        rcases hw.source table hmem with hwith | ⟨entry, hentry, hid, hsource⟩
        · exact .inl hwith
        · refine .inr (List.any_eq_true.2 ⟨entry, hentry, ?_⟩)
          rw [hsource, Bool.and_true]
          simpa using hid
      rcases hkeeps.versions table.tableId current hcreates hcurrent with
        ⟨hrecords, htaken⟩ | ⟨snapshot, first, now, hbegin, hfirst, hcolumnsOf, hsame⟩
      · exfalso
        have hversion : table.schemaVersion = w.schemaVersion := by
          refine (hw.version table hmem).resolve_right fun htrue => ?_
          rw [htaken] at htrue
          cases htrue
        obtain ⟨altered, haltered, hid⟩ := List.any_eq_true.1 hrecords
        simp only [Bool.and_eq_true, decide_eq_true_eq] at hid
        have hrow := List.find?_eq_none.1 hnone ⟨db.snapshotId + 1, w.schemaVersion, altered.id⟩
          (List.mem_append_right _ (List.mem_map_of_mem (List.mem_filter.2 ⟨haltered, hid.2⟩)))
        simp [hid.1, hversion] at hrow
      · cases hcolumnsOf.symm.trans hcolumns
        rw [getBeginSnapshotForTable_afterWrites hbegin, Option.bind_some]
        obtain ⟨row, hrow, hsnapshot⟩ := Option.map_eq_some_iff.1 hbegin
        have hle := (hdb.tables row (List.mem_of_find?_eq_some hrow)).1
        rw [hsnapshot] at hle
        rw [columnsAt_afterWrites hle]
        exact ⟨first, hfirst, hsame⟩

/-! ### Tables without a new inlined data table -/

/-- Where rows are inlined, changed columns come with a new inlined data table. -/
theorem published_of_changesColumns (hstaged : commit.StagedOn db)
    (hkeeps : commit.KeepsInlinedTables db) {table : AlteredTable} (hmem : table ∈ commit.tables)
    (hinlined : commit.IsInlined db table.id)
    (hchanges : InlinedCommit.ChangesColumns db table) :
    commit.newInlinedDataTables.any (·.id = table.id) = true := by
  have hsome : table.newInlinedDataTable ≠ none := by
    intro hnone
    obtain ⟨columns, hcurrent, hdiffer⟩ := hchanges
    cases hstaged.tables table hmem with
    | new hnew => exact absurd (hnew.symm.trans hcurrent) nofun
    | @existing base columns' hcurrent' hbase hchain =>
      cases hcurrent.symm.trans hcurrent'
      have hfields : ∃ version ∈ table.versions, version.localChange.changesFields = true := by
        by_contra hno
        push Not at hno
        refine hdiffer ?_
        have hlast : (base :: table.versions).getLast? = some table.latest := by
          simp [AlteredTable.versions, List.getLast?_cons]
        have hsame := fields_of_alterations hchain hlast
          fun version hversion => Bool.not_eq_true _ ▸ hno version hversion
        rw [AlteredTable.columns, DuckLakeTableEntry.typedFields_getTableColumns, hsame,
          ← DuckLakeTableEntry.typedFields_getTableColumns, hbase]
      obtain ⟨version, hversion, hchange⟩ := hfields
      obtain ⟨field, hrename⟩ := renameColumn_of_changesFields hnone hversion hchange
      exact hkeeps.renames table hmem hinlined ⟨columns, hcurrent, hdiffer⟩
        ⟨version, hversion, field, hrename⟩ hnone
  obtain ⟨info, hinfo⟩ := Option.ne_none_iff_exists'.1 hsome
  have hid : info.id = table.id := by
    unfold AlteredTable.newInlinedDataTable at hinfo
    split at hinfo
    · cases hinfo
      rfl
    · cases hinfo
  exact List.any_eq_true.2 ⟨info, List.mem_filterMap.2 ⟨table, hmem, hinfo⟩, by simpa using hid⟩

omit [InlinedStorage] in
/-- The columns of a table are the ones it had, unless they are changed. -/
theorem columnsOf_unchanged (hdistinct : (commit.tables.map (·.id)).Nodup)
    {current : List DuckLakeColumnInfo} (hcurrent : db.currentColumns id = some current)
    (hunchanged : ∀ table ∈ commit.tables, table.id = id →
      ¬ InlinedCommit.ChangesColumns db table) :
    ∃ now, commit.columnsOf db id = some now ∧ typedFields now = typedFields current := by
  cases hfind : commit.tables.find? (·.id = id) with
  | none => exact ⟨current, by rw [InlinedCommit.columnsOf, hfind, hcurrent], rfl⟩
  | some table =>
    have hmem := List.mem_of_find?_eq_some hfind
    have hid : table.id = id := by simpa using List.find?_some hfind
    refine ⟨table.columns, hid ▸ InlinedCommit.columnsOf_altered hdistinct hmem, ?_⟩
    by_contra hdiffer
    exact hunchanged table hmem hid ⟨current, hid ▸ hcurrent, hdiffer⟩

theorem keepsFirst (hstaged : commit.StagedOn db) (hkeeps : commit.KeepsInlinedTables db) :
    ∀ entry ∈ commit.newInlinedData, InlinedWrites.KeepsFirst db commit entry := by
  intro entry hentry hfirst current hcurrent
  refine columnsOf_unchanged hstaged.distinct hcurrent fun table htable hid hchanges => ?_
  obtain ⟨info, hinfo, hsame⟩ := List.any_eq_true.1
    (published_of_changesColumns hstaged hkeeps htable (.inr ⟨entry, hentry, hid.symm⟩) hchanges)
  rw [InlinedCommit.needsFirst, Bool.and_eq_true] at hfirst
  have hne := List.all_eq_true.1 hfirst.1 info hinfo
  simp only [decide_eq_true_eq] at hsame hne
  exact hne (hsame.trans hid)

/-! ### All inlined data tables after a commit -/

open InlinedWrites in
/-- The newest inlined data table of a table that asks for no new one can still be read as the
table is now. -/
theorem readAs_old (hdb : db.Sound) (hstaged : commit.StagedOn db)
    (hw : Correct db commit commit.newInlinedData w) {table : InlinedTable}
    (hlatest : db.IsLatest table)
    (hunchanged : ∀ altered ∈ commit.tables, altered.id = table.tableId →
      ¬ InlinedCommit.ChangesColumns db altered) :
    ∃ now, commit.columnsOf db table.tableId = some now ∧
      (db.afterWrites commit w).ReadAs table now := by
  obtain ⟨hversion, hknown⟩ := hdb.versions table hlatest.1
  obtain ⟨current, hcurrent⟩ := Option.ne_none_iff_exists'.1 hknown
  obtain ⟨now, hnow, hsame⟩ := columnsOf_unchanged hstaged.distinct hcurrent hunchanged
  refine ⟨now, hnow, ReadAs.congr ?_ hsame.symm⟩
  exact (hdb.latest table current hlatest hcurrent).afterWrites hdb hw.start hversion

open InlinedWrites in
theorem afterWrites_latest (hdb : db.Sound) (hstaged : commit.StagedOn db)
    (hkeeps : commit.KeepsInlinedTables db) (hw : Correct db commit commit.newInlinedData w)
    {table : InlinedTable} (hmem : table ∈ db.inlinedTables ++ w.created)
    (hlatest : ∀ other ∈ db.inlinedTables ++ w.created, other.tableId = table.tableId →
      other.schemaVersion ≤ table.schemaVersion) {columns : List DuckLakeColumnInfo}
    (hcolumns : commit.columnsOf db table.tableId = some columns) :
    (db.afterWrites commit w).ReadAs table columns := by
  rcases List.mem_append.1 hmem with hold | hcreated
  · have hnone : ∀ other ∈ w.created, other.tableId ≠ table.tableId := by
      intro other hother hid
      have hle := hlatest other (List.mem_append_right _ hother) hid
      have hlt := (hw.fresh other hother).1
      have hversion := (hdb.versions table hold).1
      omega
    have hmax : db.IsLatest table :=
      ⟨hold, fun other hother hid => hlatest other (List.mem_append_left _ hother) hid⟩
    obtain ⟨now, hnow, hread⟩ := readAs_old hdb hstaged hw hmax fun altered haltered hid => by
      intro hchanges
      have hinlined : db.latestInlinedTable altered.id ≠ none := by
        rw [hid]
        exact fun hempty => latestInlinedTable_eq_none.1 hempty table hold rfl
      have hpublished :=
        published_of_changesColumns hstaged hkeeps haltered (.inl hinlined) hchanges
      rcases hkeeps.inlines altered haltered hinlined hchanges with
        ⟨hlimit, hinline⟩ | ⟨entry, hentry, hsame⟩
      · -- the commit creates an inlined data table for the new columns
        have hcreates : commit.createsWithTables db altered.id = true := by
          obtain ⟨info, hinfo, hinfoId⟩ := List.any_eq_true.1 hpublished
          obtain ⟨other, hother, -, htable, hcols⟩ := InlinedCommit.mem_newInlinedDataTables hinfo
          have hinfoId : info.id = altered.id := by simpa using hinfoId
          have hother : other = altered :=
            List.inj_on_of_nodup_map hstaged.distinct hother haltered (htable.symm.trans hinfoId)
          rw [hother] at hcols
          refine List.any_eq_true.2 ⟨info, hinfo, ?_⟩
          simp [hinfoId, hlimit, hcols, hinline]
        obtain ⟨other, hother, hsame⟩ := hw.withTables altered.id hcreates
        exact hnone other hother (hsame.trans hid)
      · obtain ⟨other, hother, hcreated⟩ := hw.entries entry hentry (by rwa [hsame])
        exact hnone other hother (hcreated.trans (hsame.trans hid))
    cases hnow.symm.trans hcolumns
    exact hread
  · exact readAs_created hdb hstaged hkeeps hw hcreated hcolumns

open InlinedWrites in
/-- Rows that the commit inserts into an inlined data table. -/
theorem afterWrites_insert (hdb : db.Sound) (hstaged : commit.StagedOn db)
    (hkeeps : commit.KeepsInlinedTables db) (hw : Correct db commit commit.newInlinedData w)
    {table : InlinedTable} (hmem : table ∈ db.inlinedTables ++ w.created)
    (htarget : w.Target db commit table.tableId table.schemaVersion) {row : InlinedRow}
    (hrow : row.columns = (commit.columnsOf db table.tableId).getD []) :
    (db.afterWrites commit w).ReadAs table row.columns := by
  rcases List.mem_append.1 hmem with hold | hcreated
  · have hversion := (hdb.versions table hold).1
    rcases htarget with ⟨created, hcreated, hid, hsame⟩ | ⟨hall, latest, hfound, hsame⟩
    · have hlt := (hw.fresh created hcreated).1
      omega
    · obtain ⟨hmax, hid⟩ := isLatest_of_latestInlinedTable hfound
      have hlatest : db.IsLatest table :=
        ⟨hold, fun other hother hother' => hsame ▸ hmax.2 other hother (hother'.trans hid.symm)⟩
      obtain ⟨now, hnow, hread⟩ := readAs_old hdb hstaged hw hlatest fun altered haltered hid' => by
        intro hchanges
        have hinlined : db.latestInlinedTable altered.id ≠ none := by
          rw [hid', hfound]
          nofun
        obtain ⟨info, hinfo, hinfoId⟩ := List.any_eq_true.1
          (published_of_changesColumns hstaged hkeeps haltered (.inl hinlined) hchanges)
        have hne := List.all_eq_true.1 hall info hinfo
        simp only [decide_eq_true_eq] at hinfoId hne
        exact hne (hinfoId.trans hid')
      rw [hrow, hnow]
      exact hread
  · obtain ⟨columns, hcolumns, -, -⟩ := hw.columns table hcreated
    rw [hrow, hcolumns]
    exact readAs_created hdb hstaged hkeeps hw hcreated hcolumns

omit [InlinedStorage] in
theorem InlinedTable.mem_rows_afterCommit {flushed : List FlushedInlinedTable}
    {table : InlinedTable} {row : InlinedRow} (h : row ∈ (table.afterCommit w flushed).rows) :
    row ∈ table.rows ∨ ∃ insert ∈ w.inserts, insert.1 = table.tableId ∧
      insert.2.1 = table.schemaVersion ∧ row ∈ insert.2.2 := by
  rcases List.mem_append.1 (List.mem_of_mem_filter h) with hold | hnew
  · exact .inl hold
  · obtain ⟨insert, hinsert, hrow⟩ := List.mem_flatMap.1 hnew
    split at hrow
    · rename_i hsame
      exact .inr ⟨insert, hinsert, hsame.1, hsame.2, hrow⟩
    · cases hrow

open InlinedWrites in
theorem Sound.afterCommit (hdb : db.Sound) (hstaged : commit.StagedOn db)
    (hkeeps : commit.KeepsInlinedTables db) {db' : InlinedCatalog}
    (hrun : db.commit commit = .ok db') : db'.Sound := by
  obtain ⟨w, hwrites, rfl⟩ : ∃ w, db.writeNewInlinedData commit = .ok w ∧
      db' = db.afterWrites commit w := by
    unfold InlinedCatalog.commit at hrun
    match hw : db.writeNewInlinedData commit with
    | .ok w =>
      rw [hw] at hrun
      cases hrun
      exact ⟨w, rfl, rfl⟩
    | .error e =>
      rw [hw] at hrun
      cases hrun
  have hw := writeNewInlinedData_correct hstaged.distinct (keepsFirst hstaged hkeeps) hwrites
  have hcurrent : ∀ id, (db.afterWrites commit w).currentColumns id = commit.columnsOf db id :=
    fun id => currentColumns_afterWrites hdb.definitions
  have hle : db.schemaVersion ≤ w.schemaVersion := (Nat.le_add_right _ _).trans hw.start
  have hknown : ∀ id, db.currentColumns id ≠ none → commit.columnsOf db id ≠ none := by
    intro id hid
    unfold InlinedCommit.columnsOf
    split
    · nofun
    · exact hid
  exact {
    definitions := by
      intro d hd
      rcases List.mem_append.1 hd with hd | hd
      · obtain ⟨table, -, rfl⟩ := List.mem_map.1 hd
        exact le_rfl
      · exact Nat.le_succ_of_le (hdb.definitions d hd)
    schemaVersions := by
      intro row hrow
      rcases List.mem_append.1 hrow with hrow | hrow
      · have hold := hdb.schemaVersions row hrow
        exact ⟨Nat.le_succ_of_le hold.1, hold.2.trans hle⟩
      · obtain ⟨table, -, rfl⟩ := List.mem_map.1 hrow
        exact ⟨le_rfl, le_rfl⟩
    tables := by
      intro row hrow
      rw [hcurrent]
      rcases List.mem_append.1 hrow with hrow | hrow
      · have hold := hdb.tables row hrow
        exact ⟨Nat.le_succ_of_le hold.1, hknown _ hold.2⟩
      · obtain ⟨table, htable, rfl⟩ := List.mem_map.1 hrow
        refine ⟨le_rfl, ?_⟩
        rw [InlinedCommit.columnsOf_altered hstaged.distinct (List.mem_of_mem_filter htable)]
        nofun
    versions := by
      intro table htable
      obtain ⟨before, hbefore, rfl⟩ := List.mem_map.1 htable
      rw [hcurrent]
      rcases List.mem_append.1 hbefore with hold | hcreated
      · have hversion := hdb.versions before hold
        exact ⟨hversion.1.trans hle, hknown _ hversion.2⟩
      · obtain ⟨columns, hcolumns, -⟩ := hw.columns before hcreated
        refine ⟨(hw.fresh before hcreated).2, ?_⟩
        rw [show (before.afterCommit w commit.flushedInlinedTables).tableId = before.tableId
          from rfl, hcolumns]
        nofun
    latest := by
      rintro table columns ⟨htable, hmax⟩ hcolumns
      obtain ⟨before, hbefore, rfl⟩ := List.mem_map.1 htable
      rw [hcurrent] at hcolumns
      have hlatest : ∀ other ∈ db.inlinedTables ++ w.created, other.tableId = before.tableId →
          other.schemaVersion ≤ before.schemaVersion :=
        fun other hother hid =>
          hmax (other.afterCommit w commit.flushedInlinedTables) (List.mem_map_of_mem hother) hid
      exact afterWrites_latest hdb hstaged hkeeps hw hbefore hlatest hcolumns
    rows := by
      intro table htable row hrow
      obtain ⟨before, hbefore, rfl⟩ := List.mem_map.1 htable
      rcases InlinedTable.mem_rows_afterCommit hrow with hold | ⟨insert, hinsert, hid, hv, hrow⟩
      · rcases List.mem_append.1 hbefore with hmem | hcreated
        · exact (hdb.rows before hmem row hold).afterWrites hdb hw.start (hdb.versions before hmem).1
        · obtain ⟨-, -, -, hempty⟩ := hw.columns before hcreated
          rw [hempty] at hold
          cases hold
      · have htarget := hw.inserts insert hinsert
        have hcolumns := hw.rows insert hinsert row hrow
        rw [hid, hv] at htarget
        rw [hid] at hcolumns
        exact afterWrites_insert hdb hstaged hkeeps hw hbefore htarget hcolumns }

end Commit

/-! ### Other steps -/

theorem Sound.new {limit : TableIndex → Nat} :
    Sound { dataInliningRowLimit := limit } where
  definitions := by simp
  schemaVersions := by simp
  tables := by simp
  versions := by simp
  latest := fun table columns h => absurd h.1 (by simp)
  rows := by simp

end InlinedCatalog

/-! ## Runs -/

namespace OrdersTable

def quantity : TableColumn :=
  { field := { columnData := { id := 1 }, name := "quantity", type := .primitive "int32" } }

def entry (id : TableIndex) (change : LocalChange) (columns : List TableColumn) :
    DuckLakeTableEntry where
  tableId := id
  uuid := "orders"
  schema := .root 0 "main"
  name := "orders"
  dataPath := "data/main/orders/"
  columns := columns
  localChange := change

def create : InlinedCommit where
  tables := [
    { id := 1
      committed := rfl
      latest := entry transactionLocalIdStart .created [quantity]
      hasColumns := List.cons_ne_nil _ _ }]

def insert : InlinedCommit where
  newInlinedData := [⟨1, [[some "3", some "20"]]⟩]

variable [InlinedStorage] {db : InlinedCatalog} {id : TableIndex}

end OrdersTable

end DuckLake
