import DuckLake.Storage.InlinedTables
import DuckLake.Storage.LastSpec

/-!
# The entries for new inlined data tables

The walk over the versions of a table collects, besides the rows of the catalog, an entry for the
inlined data table that its changed columns need. `getNewTableInfo_newInlinedDataTables` says that
these are the entries which `AlteredTable.newInlinedDataTable` reads off the versions.
-/

namespace DuckLake

/-! ## The walk over the versions -/

/-- Whether the walk over the versions has found changed columns, given the versions to come. -/
def columnSchemaChangeBefore (later : List DuckLakeTableEntry) : List DuckLakeTableEntry → Bool
  | [] => false
  | table :: rest =>
    table.changesColumnSchema (rest ++ later) || columnSchemaChangeBefore later rest

theorem columnSchemaChangeBefore_nil (versions : List DuckLakeTableEntry) :
    columnSchemaChangeBefore [] versions = columnSchemaChange versions := by
  induction versions with
  | nil => rfl
  | cons table rest ih => rw [columnSchemaChangeBefore, columnSchemaChange, ih, List.append_nil]

theorem columnSchemaChangeBefore_concat (done : List DuckLakeTableEntry)
    (table : DuckLakeTableEntry) (later : List DuckLakeTableEntry) :
    columnSchemaChangeBefore later (done ++ [table]) =
      (columnSchemaChangeBefore (table :: later) done || table.changesColumnSchema later) := by
  induction done with
  | nil => simp [columnSchemaChangeBefore]
  | cons first done ih => simp [columnSchemaChangeBefore, ih, Bool.or_assoc]

section Walk

variable [SQLWriter]

open CommitM Attempt

/-- What the walk knows about inlined data tables between the versions `done` and `later`. -/
structure InlinedWalk (latest : DuckLakeTableEntry) (base : List DuckLakeTableInfo)
    (done later : List DuckLakeTableEntry) (walk : TableWalk) (s : CommitAttempt) : Prop where
  remaining : Remaining walk later
  change : walk.columnSchemaChange = columnSchemaChangeBefore later done
  tables : walk.result.newInlinedDataTables = base ++
    if done.any (·.writesTableRow) then
      [inlinedTableEntry latest (s.commitState.getTableId latest.tableId)]
    else []
  row : (s.commitState.committedTables.lookup latest.tableId).isSome =
    done.any (·.writesTableRow)

/-- The step writes no row for the table, and says whether the columns are changed. -/
def Quiet (walk : TableWalk) (change : Bool) (m : CommitM TableWalk) : Prop :=
  ∀ committed, Yields (fun s => s.commitState.committedTables = committed) m fun walk' s =>
    s.commitState.committedTables = committed ∧
      walk'.result.newInlinedDataTables = walk.result.newInlinedDataTables ∧
      walk'.fieldAlterRemaining = walk.fieldAlterRemaining ∧
      walk'.columnSchemaChange = (walk.columnSchemaChange || change)

variable {latest table : DuckLakeTableEntry} {base : List DuckLakeTableInfo}
  {done later : List DuckLakeTableEntry} {walk : TableWalk} {change : Bool}

theorem Quiet.step {m : CommitM TableWalk} (h : Quiet walk change m)
    (hrow : table.writesTableRow = false) (hfield : table.localChange.alteredField? = none)
    (hchange : table.changesColumnSchema later = change) :
    Yields (InlinedWalk latest base done (table :: later) walk) m
      (InlinedWalk latest base (done ++ [table]) later) := by
  intro s hs walk' t hrun
  obtain ⟨hcommitted, htables, hremaining, hcolumns⟩ := h _ s rfl walk' t hrun
  exact {
    remaining := hs.remaining.tail hremaining hfield
    change := by rw [hcolumns, hs.change, columnSchemaChangeBefore_concat, hchange]
    tables := by
      simp only [DuckLakeCommitState.getTableId, hcommitted, List.any_append, List.any_cons, hrow,
        List.any_nil, Bool.or_false]
      exact htables.trans hs.tables
    row := by
      simp only [hcommitted, List.any_append, List.any_cons, hrow, List.any_nil, Bool.or_false]
      exact hs.row }

omit [SQLWriter] in
theorem cancelOrDropField_newInlinedDataTables (t : TableIndex) (field : FieldIndex)
    (result : NewTableInfo) (added : TxnAddedFields) :
    (cancelOrDropField t field result added).1.newInlinedDataTables =
      result.newInlinedDataTables := by
  unfold cancelOrDropField
  split <;> rfl

omit [SQLWriter] in
theorem handleChangedFields_newInlinedDataTables (t : TableIndex) (change : ColumnChangeInfo)
    (result : NewTableInfo) (added : TxnAddedFields) :
    (handleChangedFields t change result added).1.newInlinedDataTables =
      result.newInlinedDataTables := by
  have hdropped := foldl_keeps (·.1.newInlinedDataTables) change.droppedFields
    (fun acc field => cancelOrDropField t field acc.1 acc.2)
    (fun acc field => cancelOrDropField_newInlinedDataTables t field acc.1 acc.2) (result, added)
  exact (foldl_keeps (·.1.newInlinedDataTables) change.newFields
    (fun acc new => pushNewColumn ⟨t, new.1, new.2⟩ acc.1 acc.2) (fun _ _ => rfl) _).trans hdropped

theorem setTableComment_quiet : Quiet walk false (setTableComment table walk) := by
  intro committed
  unfold setTableComment
  dsimp only
  split
  · exact .pure fun s hs => ⟨hs, rfl, rfl, (Bool.or_false _).symm⟩
  · intro s hs walk' t hrun
    cases hrun
    exact ⟨hs, rfl, rfl, (Bool.or_false _).symm⟩

theorem setColumnComment_quiet (field : FieldIndex) :
    Quiet walk false (setColumnComment table field walk) := by
  intro committed
  unfold setColumnComment
  dsimp only
  split
  · exact .pure fun s hs => ⟨hs, rfl, rfl, (Bool.or_false _).symm⟩
  · refine (getTableId_yields _).bind fun id => ?_
    refine .bind (.ofExcept fun s a hs _ => hs) fun column => ?_
    intro s hs walk' t hrun
    cases hrun
    exact ⟨hs.1, rfl, rfl, (Bool.or_false _).symm⟩

theorem changeFields_quiet : Quiet walk true (changeFields table walk) := by
  intro committed s hs walk' t hrun
  cases hrun
  exact ⟨hs, handleChangedFields_newInlinedDataTables _ _ _ _, rfl, (Bool.or_true _).symm⟩

theorem addColumn_quiet : Quiet walk true (addColumn table walk) := by
  intro committed
  unfold addColumn
  refine (getTableId_yields _).bind fun id => ?_
  refine .bind (.ofExcept fun s a hs _ => hs) fun info => ?_
  intro s hs walk' t hrun
  cases hrun
  exact ⟨hs.1, rfl, rfl, (Bool.or_true _).symm⟩

/-- Keys are published without a new row of the table. -/
theorem getNewPartitionKey_committed {committed : List (TableIndex × TableIndex)}
    (address : EntryAddress) :
    Yields (fun s => s.commitState.committedTables = committed) (getNewPartitionKey address table)
      fun _ s => s.commitState.committedTables = committed := by
  unfold getNewPartitionKey
  refine (getTableId_yields _).bind fun t => ?_
  refine ensure_yields.bind fun _ => ?_
  cases table.partitionData with
  | none => exact .pure fun s hs => hs.1.1
  | some data =>
    intro s hs key s' hrun
    cases hrun
    exact hs.1.1

theorem getNewSortKey_committed {committed : List (TableIndex × TableIndex)}
    (address : EntryAddress) :
    Yields (fun s => s.commitState.committedTables = committed) (getNewSortKey address table)
      fun _ s => s.commitState.committedTables = committed := by
  unfold getNewSortKey
  refine (getTableId_yields _).bind fun t => ?_
  refine ensure_yields.bind fun _ => ?_
  cases table.sortData with
  | none => exact .pure fun s hs => hs.1.1
  | some data =>
    intro s hs key s' hrun
    cases hrun
    exact hs.1.1

theorem sortKeys_committed {committed : List (TableIndex × TableIndex)} (address : EntryAddress) :
    Yields (fun s => s.commitState.committedTables = committed) (sortKeys address table)
      fun _ s => s.commitState.committedTables = committed := by
  unfold sortKeys
  split
  · exact (getNewSortKey_committed address).bind fun key => .pure fun s hs => hs
  · exact .pure fun s hs => hs

/-- What an alter of a field does to the walk. -/
theorem alterField_committed {committed : List (TableIndex × TableIndex)} (field : FieldIndex)
    (address : EntryAddress) :
    Yields (fun s => s.commitState.committedTables = committed)
      (alterField address table field walk) fun walk' s =>
        s.commitState.committedTables = committed ∧
        walk'.result.newInlinedDataTables = walk.result.newInlinedDataTables ∧
        walk'.fieldAlterRemaining =
          Function.update walk.fieldAlterRemaining field (walk.fieldAlterRemaining field - 1) ∧
        walk'.columnSchemaChange = (walk.columnSchemaChange ||
          (decide (table.localChange = .dropNull field) ||
            (decide (table.localChange = .renameColumn field) &&
              decide (walk.fieldAlterRemaining field - 1 = 0)))) := by
  unfold alterField
  dsimp only
  split
  · rename_i hlater
    refine .pure fun s hs => ⟨hs, rfl, rfl, ?_⟩
    rw [decide_eq_false hlater.ne', Bool.and_false, Bool.or_false]
  · rename_i hlast
    refine (getTableId_yields _).bind fun t => ?_
    refine .bind (.ofExcept fun s a hs _ => hs.1) fun info => ?_
    refine .bind (Q := fun _ s => s.commitState.committedTables = committed)
      (.modify fun s hs => hs) fun _ => ?_
    refine .bind (Q := fun _ s => s.commitState.committedTables = committed)
      (.modify fun s hs => hs) fun _ => ?_
    have hkeys : Yields (fun s => s.commitState.committedTables = committed)
        (renamedSortKeys address table (decide (table.localChange = .renameColumn field)))
        fun _ s => s.commitState.committedTables = committed := by
      unfold renamedSortKeys
      split
      · exact sortKeys_committed address
      · exact .pure fun s hs => hs
    refine hkeys.bind fun keys => .pure fun s hs => ⟨hs, ?_, rfl, ?_⟩
    · exact cancelOrDropField_newInlinedDataTables _ _ _ _
    · rw [decide_eq_true (Nat.eq_zero_of_not_pos hlast), Bool.and_true, Bool.or_assoc]

theorem alterField_inlined {field : FieldIndex}
    (hfield : table.localChange.alteredField? = some field) (address : EntryAddress) :
    Yields (InlinedWalk latest base done (table :: later) walk)
      (alterField address table field walk) (InlinedWalk latest base (done ++ [table]) later) := by
  have hrow : table.writesTableRow = false := by
    unfold DuckLakeTableEntry.writesTableRow
    cases hlocal : table.localChange <;> rw [hlocal] at hfield <;> first | rfl | cases hfield
  intro s hs walk' t hrun
  obtain ⟨hcommitted, htables, hremaining, hcolumns⟩ :=
    alterField_committed field address s rfl walk' t hrun
  -- a renamed column is found only in the last alter of the field
  have hlast : decide (walk.fieldAlterRemaining field - 1 = 0) =
      later.all (·.localChange.alteredField? ≠ some field) := by
    rw [hs.remaining.count hfield, Bool.eq_iff_iff, decide_eq_true_eq, List.countP_eq_zero,
      List.all_eq_true]
    simp
  have hchange : table.changesColumnSchema later =
      (decide (table.localChange = .dropNull field) ||
        (decide (table.localChange = .renameColumn field) &&
          later.all (·.localChange.alteredField? ≠ some field))) := by
    unfold DuckLakeTableEntry.changesColumnSchema
    cases hlocal : table.localChange <;> rw [hlocal] at hfield <;> cases hfield <;> simp
  exact {
    remaining := hs.remaining.altered hfield hremaining
    change := by rw [hcolumns, hs.change, columnSchemaChangeBefore_concat, hchange, hlast]
    tables := by
      simp only [DuckLakeCommitState.getTableId, hcommitted, List.any_append, List.any_cons,
        hrow, List.any_nil, Bool.or_false]
      exact htables.trans hs.tables
    row := by
      simp only [hcommitted, List.any_append, List.any_cons, hrow, List.any_nil, Bool.or_false]
      exact hs.row }

theorem createdTableKeys_committed {committed : List (TableIndex × TableIndex)}
    {result : NewTableInfo} (address : EntryAddress) (id : TableIndex) (created : Bool) :
    Yields (fun s => s.commitState.committedTables = committed)
      (createdTableKeys address latest table id created result) fun result' s =>
        s.commitState.committedTables = committed ∧
        result'.newInlinedDataTables = result.newInlinedDataTables := by
  unfold createdTableKeys
  split
  · have hpartitions : Yields (fun s => s.commitState.committedTables = committed)
        (partitionKeys address table) fun _ s => s.commitState.committedTables = committed := by
      unfold partitionKeys
      split
      · exact (getNewPartitionKey_committed address).bind fun key => .pure fun s hs => hs
      · exact .pure fun s hs => hs
    refine hpartitions.bind fun pkeys => (sortKeys_committed address).bind fun skeys => ?_
    exact .pure fun s hs => ⟨hs, rfl⟩
  · exact .pure fun s hs => ⟨hs, rfl⟩

theorem emitNewTable_committed {committed : List (TableIndex × TableIndex)}
    (address : EntryAddress) :
    Yields (fun s => s.commitState.committedTables = committed)
      (emitNewTable address latest table walk) fun walk' s => ∃ id,
        s.commitState.committedTables = committed ++ [(table.tableId, id)] ∧
        walk'.result.newInlinedDataTables =
          walk.result.newInlinedDataTables ++ [inlinedTableEntry latest id] ∧
        walk'.fieldAlterRemaining = walk.fieldAlterRemaining ∧
        walk'.columnSchemaChange = walk.columnSchemaChange := by
  have hallocate : Yields (fun s => s.commitState.committedTables = committed)
      (allocateTableId table.tableId) fun _ s => s.commitState.committedTables = committed := by
    unfold allocateTableId
    split
    · refine .bind (Q := fun _ s => s.commitState.committedTables = committed)
        (.modifyGet fun s hs => hs) fun new => .pure fun s hs => hs
    · exact .pure fun s hs => hs
  unfold emitNewTable
  refine hallocate.bind fun newId => ?_
  refine .bind (Q := fun _ s => s.commitState.committedTables = committed) ?_ fun newTable => ?_
  · intro s hs info t hrun
    cases hrun
    exact hs
  dsimp only
  refine .bind (Q := fun _ s =>
    s.commitState.committedTables = committed ++ [(table.tableId, newId.1)]) ?_ fun _ => ?_
  · exact .modify fun s hs => by rw [← hs]
  refine (createdTableKeys_committed address newId.1 _).bind fun result => ?_
  exact .pure fun s hs => ⟨newId.1, hs.1, hs.2, rfl, rfl⟩

/-- A row of the table comes with the entry for its inlined data table. -/
theorem newTableRow_inlined (hsame : table.tableId = latest.tableId)
    (hrow : table.localChange = .none ∨ table.localChange = .created ∨
      table.localChange = .renamed)
    (hfirst : table.localChange ≠ .renamed → done = []) (address : EntryAddress) :
    Yields (InlinedWalk latest base done (table :: later) walk)
      (newTableRow address latest table walk) (InlinedWalk latest base (done ++ [table]) later) := by
  have hwrites : table.writesTableRow = true := by
    rcases hrow with h | h | h <;> simp [DuckLakeTableEntry.writesTableRow, h]
  have hfield : table.localChange.alteredField? = none := by
    rcases hrow with h | h | h <;> rw [h] <;> rfl
  have hchange : table.changesColumnSchema later = false := by
    rcases hrow with h | h | h <;> simp [DuckLakeTableEntry.changesColumnSchema, h]
  have hany : (done ++ [table]).any (·.writesTableRow) = true := by simp [hwrites]
  intro s hs walk' t hrun
  unfold newTableRow at hrun
  rw [run_bind, getCommitState, run_bind, run_get] at hrun
  dsimp only [run_pure] at hrun
  split at hrun
  · -- the row was written before, and gets another name
    rename_i id hrenamed hexisting
    cases hrun
    have hdone : done.any (·.writesTableRow) = true := by
      rw [← hs.row, ← hsame, hexisting]
      rfl
    exact {
      remaining := hs.remaining.tail rfl hfield
      change := by rw [hs.change, columnSchemaChangeBefore_concat, hchange, Bool.or_false]
      tables := by
        have htables := hs.tables
        rw [hdone] at htables
        rw [hany]
        exact htables
      row := hs.row.trans (hdone.trans hany.symm) }
  · rename_i hnot
    have hdone : done.any (·.writesTableRow) = false := by
      by_cases hrenamed : table.localChange = .renamed
      · rw [← hs.row, ← hsame]
        cases hlookup : s.commitState.committedTables.lookup table.tableId with
        | none => rfl
        | some id => exact absurd hlookup (hnot id hrenamed)
      · rw [hfirst hrenamed]
        rfl
    obtain ⟨id, hcommitted, htables, hremaining, hcolumns⟩ :=
      emitNewTable_committed address s rfl walk' t hrun
    have hlookup : t.commitState.committedTables.lookup latest.tableId = some id := by
      have hnone := hs.row
      rw [hdone, Option.isSome_eq_false_iff, Option.isNone_iff_eq_none] at hnone
      rw [hcommitted, List.lookup_append, hnone, hsame]
      simp
    exact {
      remaining := hs.remaining.tail hremaining hfield
      change := by
        rw [hcolumns, hs.change, columnSchemaChangeBefore_concat, hchange, Bool.or_false]
      tables := by
        have hid : t.commitState.getTableId latest.tableId = id := by
          rw [DuckLakeCommitState.getTableId, hlookup, Option.getD_some]
        rw [htables, hs.tables, hdone, hany, hid]
        simp
      row := by rw [hlookup, hany]; rfl }

theorem setPartitionKey_quiet {address : EntryAddress} :
    Quiet walk true (do
      let key ← getNewPartitionKey address table
      alterTable table.tableId
      alterSchemaVersion table.tableId
      return { walk with
        result.newPartitionKeys := walk.result.newPartitionKeys ++ [key]
        columnSchemaChange := true }) := by
  intro committed
  refine (getNewPartitionKey_committed address).bind fun key => ?_
  intro s hs walk' t hrun
  cases hrun
  exact ⟨hs, rfl, rfl, (Bool.or_true _).symm⟩

theorem setSortKey_quiet {address : EntryAddress} :
    Quiet walk false (do
      let key ← getNewSortKey address table
      alterTable table.tableId
      return { walk with result.newSortKeys := walk.result.newSortKeys ++ [key] }) := by
  intro committed
  refine (getNewSortKey_committed address).bind fun key => ?_
  intro s hs walk' t hrun
  cases hrun
  exact ⟨hs, rfl, rfl, (Bool.or_false _).symm⟩

theorem addConstraint_quiet :
    Quiet walk false (if table.hasAddedConstraint then do
      alterTable table.tableId
      alterSchemaVersion table.tableId
      return { walk with constraintsTouched := true }
    else pure walk) := by
  intro committed
  split
  · intro s hs walk' t hrun
    cases hrun
    exact ⟨hs, rfl, rfl, (Bool.or_false _).symm⟩
  · exact .pure fun s hs => ⟨hs, rfl, rfl, (Bool.or_false _).symm⟩

theorem newTableStep_inlined {version : DuckLakeTableEntry × EntryAddress}
    (hsame : version.1.tableId = latest.tableId)
    (hfirst : version.1.localChange = .none ∨ version.1.localChange = .created → done = []) :
    Yields (InlinedWalk latest base done (version.1 :: later) walk)
      (newTableStep latest walk version)
      (InlinedWalk latest base (done ++ [version.1]) later) := by
  obtain ⟨table, address⟩ := version
  dsimp only at hsame hfirst ⊢
  unfold newTableStep
  dsimp only
  cases hchange : table.localChange with
  | none =>
    exact newTableRow_inlined hsame (.inl hchange) (fun _ => hfirst (.inl hchange)) address
  | created =>
    exact newTableRow_inlined hsame (.inr (.inl hchange)) (fun _ => hfirst (.inr hchange)) address
  | renamed =>
    exact newTableRow_inlined hsame (.inr (.inr hchange)) (fun h => absurd hchange h) address
  | setPartitionKey =>
    exact setPartitionKey_quiet.step (by simp [DuckLakeTableEntry.writesTableRow, hchange])
      (by rw [hchange]; rfl) (by simp [DuckLakeTableEntry.changesColumnSchema, hchange])
  | addConstraint =>
    exact addConstraint_quiet.step (by simp [DuckLakeTableEntry.writesTableRow, hchange])
      (by rw [hchange]; rfl) (by simp [DuckLakeTableEntry.changesColumnSchema, hchange])
  | setSortKey =>
    exact setSortKey_quiet.step (by simp [DuckLakeTableEntry.writesTableRow, hchange])
      (by rw [hchange]; rfl) (by simp [DuckLakeTableEntry.changesColumnSchema, hchange])
  | setComment =>
    exact setTableComment_quiet.step (by simp [DuckLakeTableEntry.writesTableRow, hchange])
      (by rw [hchange]; rfl) (by simp [DuckLakeTableEntry.changesColumnSchema, hchange])
  | setColumnComment field =>
    exact (setColumnComment_quiet field).step
      (by simp [DuckLakeTableEntry.writesTableRow, hchange]) (by rw [hchange]; rfl)
      (by simp [DuckLakeTableEntry.changesColumnSchema, hchange])
  | setNull field => exact alterField_inlined (by rw [hchange]; rfl) address
  | dropNull field => exact alterField_inlined (by rw [hchange]; rfl) address
  | renameColumn field => exact alterField_inlined (by rw [hchange]; rfl) address
  | setDefault field => exact alterField_inlined (by rw [hchange]; rfl) address
  | removeColumn field =>
    exact changeFields_quiet.step (by simp [DuckLakeTableEntry.writesTableRow, hchange])
      (by rw [hchange]; rfl) (by simp [DuckLakeTableEntry.changesColumnSchema, hchange])
  | changeColumnType =>
    exact changeFields_quiet.step (by simp [DuckLakeTableEntry.writesTableRow, hchange])
      (by rw [hchange]; rfl) (by simp [DuckLakeTableEntry.changesColumnSchema, hchange])
  | addColumn =>
    exact addColumn_quiet.step (by simp [DuckLakeTableEntry.writesTableRow, hchange])
      (by rw [hchange]; rfl) (by simp [DuckLakeTableEntry.changesColumnSchema, hchange])
  | setViewColumnComment _ => exact .throw

theorem finishTable_newInlinedDataTables {s t : CommitAttempt} {info : NewTableInfo}
    (hrun : run (finishTable latest walk) s = (.ok info, t)) :
    info.newInlinedDataTables = walk.result.newInlinedDataTables ++
      (if walk.columnSchemaChange && walk.result.newInlinedDataTables.all
          (·.id ≠ s.commitState.getTableId latest.tableId) then
        [inlinedTableEntry latest (s.commitState.getTableId latest.tableId)]
      else []) ∧ t = s := by
  cases hrun
  refine ⟨?_, rfl⟩
  dsimp only
  -- the constraints that are published do not matter
  split
  · split
    · rfl
    · rw [List.append_nil]
  · split
    · rfl
    · rw [List.append_nil]

/-- The commit asks for an inlined data table exactly where `AlteredTable.newInlinedDataTable` says
so: for a table whose id is given by the commit state, and which no earlier chain is about. -/
theorem getNewTableInfo_newInlinedDataTables (table : AlteredTable)
    (hids : ∀ version ∈ table.versions, version.tableId = table.latest.tableId)
    (hfirst : ∀ version ∈ table.versions.tail,
      version.localChange ≠ .none ∧ version.localChange ≠ .created)
    {result : NewTableInfo} (hresult : ∀ info ∈ result.newInlinedDataTables,
      info.id ≠ table.latest.tableId) (schema entry : Nat) :
    Yields (fun s => s.commitState.committedTables.lookup table.latest.tableId = none)
      (getNewTableInfo schema entry (table.latest :: table.earlier) result) fun info s =>
        s.commitState.getTableId table.latest.tableId = table.id →
        info.newInlinedDataTables =
          result.newInlinedDataTables ++ table.newInlinedDataTable.toList := by
  unfold getNewTableInfo
  dsimp only
  have hfst : (chainVersions schema entry (table.latest :: table.earlier)).map (·.1) =
      table.versions := chainVersions_fst schema entry _
  generalize chainVersions schema entry (table.latest :: table.earlier) = versions at hfst
  have hmem : ∀ version ∈ versions, version.1.tableId = table.latest.tableId := by
    intro version hversion
    refine hids version.1 ?_
    rw [← hfst]
    exact List.mem_map_of_mem hversion
  have hloop : Yields (fun s => s.commitState.committedTables.lookup table.latest.tableId = none)
      (versions.foldlM (newTableStep table.latest)
        (TableWalk.start (table.latest :: table.earlier) result))
      (InlinedWalk table.latest result.newInlinedDataTables table.versions []) := by
    refine (Yields.foldlM (fun done walk s => ∃ rest, versions = done ++ rest ∧
      InlinedWalk table.latest result.newInlinedDataTables (done.map (·.1)) (rest.map (·.1))
        walk s) ?_).mono ?_ ?_
    · intro done version rest walk hversions s hs
      obtain ⟨rest', hrest, hwalk⟩ := hs
      have hsame : rest' = version :: rest := List.append_cancel_left (hrest.symm.trans hversions)
      subst hsame
      intro walk' t hrun
      refine ⟨rest, by simp [hversions], ?_⟩
      rw [List.map_append, List.map_singleton]
      refine newTableStep_inlined (hmem version (by simp [hversions])) ?_ s hwalk walk' t hrun
      intro hkind
      cases done with
      | nil => rfl
      | cons first done =>
        have hlater : version.1 ∈ table.versions.tail := by
          rw [← hfst, hversions]
          simp
        have hnot := hfirst version.1 hlater
        exact absurd hkind (not_or.2 hnot)
    · intro s hs
      refine ⟨versions, rfl, ?_⟩
      rw [hfst]
      exact {
        remaining := fun field => ((List.reverse_perm _).countP_eq _).symm
        change := rfl
        tables := by simp [TableWalk.start]
        row := by rw [hs]; rfl }
    · intro walk s hs
      obtain ⟨rest, hrest, hwalk⟩ := hs
      have hnil : rest = [] := List.append_cancel_left (hrest.symm.trans (by simp))
      subst hnil
      rwa [hfst] at hwalk
  refine hloop.bind fun walk s hs info t hrun hid => ?_
  obtain ⟨htables, rfl⟩ := finishTable_newInlinedDataTables hrun
  rw [htables, hid, hs.tables, hs.change, columnSchemaChangeBefore_nil,
    AlteredTable.newInlinedDataTable, hid]
  cases hrow : table.versions.any (·.writesTableRow) with
  | true => simp [inlinedTableEntry]
  | false =>
    have hnone := hs.row
    rw [hrow, Option.isSome_eq_false_iff, Option.isNone_iff_eq_none] at hnone
    rw [DuckLakeCommitState.getTableId, hnone, Option.getD_none] at hid
    rw [hid] at hresult
    cases columnSchemaChange table.versions with
    | false => simp
    | true => simpa using hresult

end Walk

end DuckLake
