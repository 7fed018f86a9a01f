import DuckLake.Storage.NotNullCounts

/-!
# NOT NULL over runs

A column becomes NOT NULL when the statistics of its table know of no NULL, or else when a scan finds
none. Rows of statistics are inserted with the first rows of the table and only updated later, so
that a column that is added later has none. Dropping whole files deletes them, or forgets what they
know once no row remains.
-/

namespace DuckLake

/-! ## Runs -/

/-- `FromGlobalStats` of what a commit has stored: of the NULLs only whether there are any. -/
def DuckLakeColumnStats.fromGlobalStats (tableHasRows : Bool) (stats : DuckLakeColumnStats) :
    DuckLakeColumnStats :=
  let isAnyValid := stats.hasMin || stats.hasMax || stats.extraStats.isSome
  { type := stats.type
    hasNullCount := stats.hasNullCount
    nullCount := if stats.hasNullCount && 0 < stats.nullCount then 1 else 0
    hasContainsNan := stats.hasContainsNan
    containsNan := stats.hasContainsNan && stats.containsNan
    hasMin := stats.hasMin
    min := if stats.hasMin then stats.min else []
    hasMax := stats.hasMax
    max := if stats.hasMax then stats.max else []
    minIsExact := stats.hasMin && (stats.minIsExact || stats.type.requiresValueComparison)
    maxIsExact := stats.hasMax && (stats.maxIsExact || stats.type.requiresValueComparison)
    isAnyValid := isAnyValid
    boundsUnknown := !isAnyValid && tableHasRows
    extraStats := stats.extraStats }

theorem DuckLakeColumnStats.zeroNulls_fromGlobalStats {tableHasRows : Bool}
    {stats : DuckLakeColumnStats} :
    ZeroNulls (stats.fromGlobalStats tableHasRows) ↔ ZeroNulls stats := by
  rw [ZeroNulls, ZeroNulls, fromGlobalStats]
  refine and_congr_right fun hhas => ?_
  simp only at hhas
  simp only [hhas, Bool.true_and, decide_eq_true_eq]
  split <;> omega

/-- The rows of `ducklake_table_column_stats` once these statistics are written: the first are
inserted, later ones update the rows that are there. -/
def DuckLakeTableStats.storedColumns (current : Option DuckLakeTableStats)
    (stats : DuckLakeTableStats) : List (FieldIndex × DuckLakeColumnStats) :=
  match current with
  | none => stats.columnStats
  | some current => stats.columnStats.filter fun entry => (current.columnStats.lookup entry.1).isSome

/-- The statistics of a table once they are stored and loaded again. -/
def DuckLakeTableStats.reload (current : Option DuckLakeTableStats) (stats : DuckLakeTableStats) :
    DuckLakeTableStats :=
  { stats with
    columnStats := (stats.storedColumns current).map fun entry =>
      (entry.1, entry.2.fromGlobalStats (0 < stats.recordCount)) }

/-- A table with its statistics, the rows that were ever written to it, and those that are left. A
row ends where the table ended when it was written. -/
structure NotNullTable where
  table : DuckLakeTableEntry
  stats : Option DuckLakeTableStats := none
  /-- The rows that the table got first. -/
  initial : List Row := []
  written : List Row := []
  rows : List Row := []
  /-- Whole files were dropped and rows remained, by the count of the statistics. -/
  cleared : Bool := false
  /-- Whole files were dropped and no row remained. -/
  emptied : Bool := false

/-- A row that is older than a column has its initial default. -/
def isNullAt (column : TableColumn) (i : ℕ) (row : Row) : Bool :=
  match row[i]? with
  | some d => d.isNull
  | none => column.field.columnData.initialDefault.isNone

def DuckLakeTableEntry.withNotNull (table : DuckLakeTableEntry) (i : ℕ) (notNull : Bool) :
    DuckLakeTableEntry :=
  { table with columns := table.columns.modify i fun column => { column with notNull := notNull } }

def DuckLakeTableEntry.withColumn (table : DuckLakeTableEntry) (column : TableColumn) :
    DuckLakeTableEntry :=
  { table with columns := table.columns ++ [column] }

namespace NotNullTable

def columnStats (σ : NotNullTable) : List (FieldIndex × DuckLakeColumnStats) :=
  (σ.stats.getD {}).columnStats

/-- `ApplyDroppedFileStats`. -/
def applyDropped (σ : NotNullTable) (dropped : Option DroppedDataFileStats) :
    Except Exception (Bool × DuckLakeTableStats) :=
  match dropped with
  | none => .ok (false, σ.stats.getD {})
  | some dropped => dropFileStats (σ.stats.getD {}) dropped

/-- A transaction leaves some of the rows, adds new ones and writes the statistics, or deletes those
of the columns. -/
def commit (σ : NotNullTable) (kept rows : List Row) (dropped : Option DroppedDataFileStats)
    (clear : Bool) (stats : DuckLakeTableStats) : NotNullTable :=
  { σ with
    stats := some ((if clear then { stats with columnStats := [] } else stats).reload σ.stats)
    initial := if σ.stats.isNone then rows else σ.initial
    written := σ.written ++ rows
    rows := kept ++ rows
    cleared := σ.cleared || clear
    emptied := σ.emptied || (dropped.isSome && !clear) }

/-- The column with a name, and its position. -/
def findColumn (σ : NotNullTable) (columnName : Text) : Option (TableColumn × ℕ) :=
  σ.table.columns.zipIdx.find? fun c => c.1.field.name.ciEquals columnName

/-- `AlterTable(SetNotNullInfo)` for a table without transaction-local inserts. -/
def setNotNull (σ : NotNullTable) (columnName : Text) : Except Exception NotNullTable :=
  match σ.findColumn columnName with
  | none => .error ⟨.catalog, "Failed to alter column - column ".toList ++ columnName ++
      " does not exist".toList⟩
  | some (column, i) =>
    if column.notNull then
      .error ⟨.catalog, "Cannot SET NOT NULL on column ".toList ++ column.field.name ++
        " - it already has a NOT NULL constraint".toList⟩
    else match σ.stats with
      | none => .error ⟨.catalog, "Cannot SET NOT NULL on table ".toList ++ σ.table.name ++
          " - the table has transaction-local changes or no stats are available".toList⟩
      | some stats => match stats.columnStats.lookup column.field.columnData.id with
        | none => .error ⟨.catalog, "Cannot SET NOT NULL on table ".toList ++ σ.table.name ++
            " - no column stats are available".toList⟩
        | some stats =>
          -- unknown stats or previously deleted NULLs require checking the live rows
          if (!stats.hasNullCount || decide (0 < stats.nullCount)) &&
              σ.rows.any (isNullAt column i) then
            .error ⟨.catalog, "Cannot SET NOT NULL on column ".toList ++ column.field.name ++
              " - the column has NULL values".toList⟩
          else .ok { σ with table := σ.table.withNotNull i true }

/-- `AlterTable(DropNotNullInfo)`. -/
def dropNotNull (σ : NotNullTable) (columnName : Text) : Except Exception NotNullTable :=
  match σ.findColumn columnName with
  | none => .error ⟨.catalog, "Failed to alter column - column ".toList ++ columnName ++
      " does not exist".toList⟩
  | some (column, i) =>
    if column.notNull then .ok { σ with table := σ.table.withNotNull i false }
    else
      .error ⟨.catalog, "Cannot DROP NULL on column ".toList ++ column.field.name ++
        " - it has no NOT NULL constraint defined".toList⟩

section Steps

variable [WriteStatistics]

/-- The files that a transaction drops are files of the table, which its statistics count. -/
structure Drops (σ : NotNullTable) (kept : List Row) (dropped : Option DroppedDataFileStats)
    (applied : Bool × DuckLakeTableStats) : Prop where
  kept : kept ⊆ σ.rows
  counted : dropped.isSome = true → σ.stats.isSome = true
  applied : σ.applyDropped dropped = .ok applied

/-- Transactions that follow one another. Each of them may delete rows and drop whole files. -/
inductive Step : NotNullTable → NotNullTable → Prop
  | insertInlined {σ : NotNullTable} {kept : List Row} {dropped : Option DroppedDataFileStats}
      {applied : Bool × DuckLakeTableStats} {skipped : List FieldIndex} {chunks : List (List Row)}
      {rowIds : List Int} {data : DuckLakeInlinedData} (hdrops : σ.Drops kept dropped applied)
      (hne : chunks.flatten ≠ [])
      (hlength : ∀ row ∈ chunks.flatten, row.length = σ.table.columns.length)
      (hok : operatorFinalize σ.table skipped chunks rowIds = .ok data) :
      Step σ (σ.commit kept chunks.flatten dropped applied.1 (applied.2.mergeInlinedData data))
  | insertFiles {σ : NotNullTable} {kept : List Row} {dropped : Option DroppedDataFileStats}
      {applied : Bool × DuckLakeTableStats} {skipped : List FieldIndex} {parts : List (List Row)}
      {files : List WrittenDataFile} {partitionId : Option Idx} {dataFiles : List DuckLakeDataFile}
      (hdrops : σ.Drops kept dropped applied) (hsome : parts ≠ []) (hne : ∀ part ∈ parts, part ≠ [])
      (hlength : ∀ row ∈ parts.flatten, row.length = σ.table.columns.length)
      (hreports : List.Forall₂ (ReportsNulls σ.table) parts files)
      (hok : addWrittenFiles σ.table skipped partitionId files = .ok dataFiles) :
      Step σ (σ.commit kept parts.flatten dropped applied.1
        (dataFiles.foldl (·.mergeFileStats) applied.2))
  | delete {σ : NotNullTable} {kept : List Row} (h : kept ⊆ σ.rows) : Step σ { σ with rows := kept }
  | dropFiles {σ : NotNullTable} {kept : List Row} {dropped : DroppedDataFileStats}
      {applied : Bool × DuckLakeTableStats} (hdrops : σ.Drops kept (some dropped) applied) :
      Step σ (σ.commit kept [] (some dropped) applied.1 applied.2)
  | setNotNull {σ σ' : NotNullTable} {columnName : Text} (h : σ.setNotNull columnName = .ok σ') :
      Step σ σ'
  | dropNotNull {σ σ' : NotNullTable} {columnName : Text}
      (h : σ.dropNotNull columnName = .ok σ') : Step σ σ'
  /-- The ids of a new column have not been used before. -/
  | addColumn {σ : NotNullTable} {column : TableColumn} (hnotNull : column.notNull = false)
      (hvalid : ValidFields (σ.table.withColumn column).getFieldIds)
      (hfresh : ∀ stats ∈ σ.stats, stats.columnStats.lookup column.field.columnData.id = none) :
      Step σ { σ with table := σ.table.withColumn column }

inductive Reachable : NotNullTable → Prop
  | start {table : DuckLakeTableEntry} (hvalid : ValidFields table.getFieldIds) :
      Reachable { table := table }
  | step {σ σ' : NotNullTable} : Reachable σ → Step σ σ' → Reachable σ'

end Steps

end NotNullTable

/-- The values that rows have at a position; those that are too short have none. -/
def valuesAt (i : ℕ) (rows : List Row) : List Datum := rows.filterMap (·[i]?)

theorem valuesAt_append (i : ℕ) (rows rows' : List Row) :
    valuesAt i (rows ++ rows') = valuesAt i rows ++ valuesAt i rows' := List.filterMap_append

theorem valuesAt_eq_columnVector {i : ℕ} {rows : List Row} (h : ∀ row ∈ rows, i < row.length) :
    valuesAt i rows = columnVector i rows := by
  induction rows with
  | nil => rfl
  | cons row rows ih =>
    rw [List.forall_mem_cons] at h
    rw [valuesAt, columnVector, List.map_cons, List.getD_eq_getElem?_getD,
      List.getElem?_eq_getElem h.1, List.filterMap_cons, List.getElem?_eq_getElem h.1]
    exact congrArg (row[i] :: ·) (ih h.2)

theorem mem_valuesAt {i : ℕ} {rows : List Row} {d : Datum} :
    d ∈ valuesAt i rows ↔ ∃ row ∈ rows, row[i]? = some d := List.mem_filterMap

/-! ## What a run keeps -/

namespace NotNullTable

variable {σ σ' : NotNullTable} {i : ℕ} {column : TableColumn}

theorem getFieldIds_withNotNull (table : DuckLakeTableEntry) (i : ℕ) (notNull : Bool) :
    (table.withNotNull i notNull).getFieldIds = table.getFieldIds := by
  refine List.ext_getElem? fun j => ?_
  rw [DuckLakeTableEntry.getElem?_getFieldIds, DuckLakeTableEntry.getElem?_getFieldIds,
    DuckLakeTableEntry.withNotNull, List.getElem?_modify]
  cases table.columns[j]? with
  | none => rfl
  | some column =>
    simp only [Option.map_some]
    split <;> rfl

/-- The column at a position, before its constraint is changed. -/
theorem getElem?_withNotNull {table : DuckLakeTableEntry} {j : ℕ} {notNull : Bool}
    (h : (table.withNotNull j notNull).columns[i]? = some column) :
    ∃ old, table.columns[i]? = some old ∧ column.field = old.field ∧
      column.notNull = if j = i then notNull else old.notNull := by
  rw [DuckLakeTableEntry.withNotNull, List.getElem?_modify] at h
  obtain ⟨old, hold, rfl⟩ := Option.map_eq_some_iff.1 h
  refine ⟨old, hold, ?_, ?_⟩ <;> split <;> rfl

theorem getElem?_withColumn {table : DuckLakeTableEntry} {added : TableColumn}
    (h : (table.withColumn added).columns[i]? = some column) :
    table.columns[i]? = some column ∨ i = table.columns.length ∧ column = added := by
  rw [DuckLakeTableEntry.withColumn, List.getElem?_append] at h
  split at h
  · exact .inl h
  · rename_i hlong
    rw [List.getElem?_singleton] at h
    split at h
    · rename_i hzero
      exact .inr ⟨by omega, (Option.some.inj h).symm⟩
    · cases h

/-- The table had the column at this position when it got its first rows. -/
def HasInitially (σ : NotNullTable) (i : ℕ) : Prop := ∃ row ∈ σ.initial, i < row.length

/-- What holds in every state: a column has statistics if the table had it with its first rows and no
statistics were deleted since. They know of no NULL if none was written and they were not reset. -/
structure Invariant (σ : NotNullTable) : Prop where
  valid : ValidFields σ.table.getFieldIds
  lengths : ∀ row ∈ σ.written, row.length ≤ σ.table.columns.length
  live : σ.rows ⊆ σ.written
  first : σ.initial ⊆ σ.written
  sorted : σ.columnStats.Pairwise (·.1 < ·.1)
  unwritten : σ.stats = none →
    σ.initial = [] ∧ σ.written = [] ∧ σ.cleared = false ∧ σ.emptied = false
  whole : ∀ i, σ.HasInitially i → ∀ row ∈ σ.written, i < row.length
  present : ∀ i column, σ.table.columns[i]? = some column → TrackedInFiles column.field →
    ((σ.columnStats.lookup column.field.columnData.id).isSome = true ↔
      σ.HasInitially i ∧ σ.cleared = false)
  zero : ∀ i column, σ.table.columns[i]? = some column → TrackedInFiles column.field →
    ∀ stats, σ.columnStats.lookup column.field.columnData.id = some stats →
      (ZeroNulls stats ↔ σ.emptied = false ∧ ∀ d ∈ valuesAt i σ.written, d.isNull = false)
  notNull : ∀ i column, σ.table.columns[i]? = some column → column.notNull = true →
    TrackedInFiles column.field → ∀ row ∈ σ.rows, isNullAt column i row = false

theorem Invariant.start {table : DuckLakeTableEntry} (hvalid : ValidFields table.getFieldIds) :
    Invariant { table := table } where
  valid := hvalid
  lengths _ hrow := absurd hrow List.not_mem_nil
  live := List.Subset.refl _
  first := List.Subset.refl _
  sorted := List.Pairwise.nil
  unwritten _ := ⟨rfl, rfl, rfl, rfl⟩
  whole _ _ _ hrow := absurd hrow List.not_mem_nil
  present _ _ _ _ := iff_of_false Bool.false_ne_true fun h => by
    obtain ⟨⟨row, hrow, -⟩, -⟩ := h
    exact List.not_mem_nil hrow
  zero _ _ _ _ _ hstats := by cases hstats
  notNull _ _ _ _ _ _ hrow := absurd hrow List.not_mem_nil

theorem Invariant.delete (h : σ.Invariant) {rows : List Row} (hrows : rows ⊆ σ.rows) :
    Invariant { σ with rows := rows } where
  valid := h.valid
  lengths := h.lengths
  live := List.Subset.trans hrows h.live
  first := h.first
  sorted := h.sorted
  unwritten := h.unwritten
  whole := h.whole
  present := h.present
  zero := h.zero
  notNull i column hi hnotNull htracked row hrow :=
    h.notNull i column hi hnotNull htracked row (hrows hrow)

/-- A column only becomes NOT NULL when no row that is left has a NULL in it. -/
theorem Invariant.withNotNull (h : σ.Invariant) {j : ℕ} {notNull : Bool}
    (hnone : notNull = true → ∀ column, σ.table.columns[j]? = some column →
      TrackedInFiles column.field → ∀ row ∈ σ.rows, isNullAt column j row = false) :
    Invariant { σ with table := σ.table.withNotNull j notNull } where
  valid := by
    dsimp only
    rw [getFieldIds_withNotNull]
    exact h.valid
  lengths row hrow := by
    dsimp only [DuckLakeTableEntry.withNotNull]
    rw [List.length_modify]
    exact h.lengths row hrow
  live := h.live
  first := h.first
  sorted := h.sorted
  unwritten := h.unwritten
  whole := h.whole
  present i column hi htracked := by
    obtain ⟨old, hold, hfield, -⟩ := getElem?_withNotNull hi
    rw [hfield] at htracked ⊢
    exact h.present i old hold htracked
  zero i column hi htracked := by
    obtain ⟨old, hold, hfield, -⟩ := getElem?_withNotNull hi
    rw [hfield] at htracked ⊢
    exact h.zero i old hold htracked
  notNull i column hi hnotNull htracked row hrow := by
    obtain ⟨old, hold, hfield, hconstraint⟩ := getElem?_withNotNull hi
    have hread : isNullAt column i row = isNullAt old i row := by
      rw [isNullAt, isNullAt, hfield]
    rw [hfield] at htracked
    rw [hread]
    by_cases hj : j = i
    · subst hj
      rw [if_pos rfl] at hconstraint
      exact hnone (hconstraint ▸ hnotNull) old hold htracked row hrow
    · rw [if_neg hj] at hconstraint
      exact h.notNull i old hold (hconstraint ▸ hnotNull) htracked row hrow

theorem Invariant.addColumn (h : σ.Invariant) (hnotNull : column.notNull = false)
    (hvalid : ValidFields (σ.table.withColumn column).getFieldIds)
    (hfresh : ∀ stats ∈ σ.stats, stats.columnStats.lookup column.field.columnData.id = none) :
    Invariant { σ with table := σ.table.withColumn column } := by
  have hnone : σ.columnStats.lookup column.field.columnData.id = none := by
    rw [columnStats]
    cases hstats : σ.stats with
    | none => rfl
    | some stats => exact hfresh stats hstats
  have hshort : ¬ σ.HasInitially σ.table.columns.length := by
    rintro ⟨row, hrow, hlong⟩
    have hlength := h.lengths row (h.first hrow)
    omega
  exact {
    valid := hvalid
    lengths := fun row hrow => by
      dsimp only [DuckLakeTableEntry.withColumn]
      rw [List.length_append]
      exact (h.lengths row hrow).trans (Nat.le_add_right _ _)
    live := h.live
    first := h.first
    sorted := h.sorted
    unwritten := h.unwritten
    whole := h.whole
    present := fun i other hi htracked => by
      rcases getElem?_withColumn hi with hold | ⟨rfl, rfl⟩
      · exact h.present i other hold htracked
      · change (σ.columnStats.lookup _).isSome = true ↔ _
        rw [hnone]
        exact iff_of_false Bool.false_ne_true fun hinitial => hshort hinitial.1
    zero := fun i other hi htracked stats hstats => by
      rcases getElem?_withColumn hi with hold | ⟨rfl, rfl⟩
      · exact h.zero i other hold htracked stats hstats
      · cases hnone.symm.trans hstats
    notNull := fun i other hi hconstraint htracked => by
      rcases getElem?_withColumn hi with hold | ⟨rfl, rfl⟩
      · exact h.notNull i other hold hconstraint htracked
      · exact absurd (hnotNull.symm.trans hconstraint) Bool.false_ne_true }

/-! ## SET NOT NULL -/

theorem findColumn_spec {columnName : Text} (h : σ.findColumn columnName = some (column, i)) :
    σ.table.columns[i]? = some column :=
  List.mem_zipIdx_iff_getElem?.1 (List.mem_of_find?_eq_some h)

/-- The column may become NOT NULL: its statistics know of no NULL, or a scan finds none. -/
def AllowsNotNull (σ : NotNullTable) (column : TableColumn) (i : ℕ) : Prop :=
  ∃ stats, σ.columnStats.lookup column.field.columnData.id = some stats ∧
    (ZeroNulls stats ∨ ∀ row ∈ σ.rows, isNullAt column i row = false)

theorem setNotNull_eq_ok {columnName : Text} (hfind : σ.findColumn columnName = some (column, i)) :
    σ.setNotNull columnName = .ok σ' ↔ column.notNull = false ∧ σ.AllowsNotNull column i ∧
      σ' = { σ with table := σ.table.withNotNull i true } := by
  rw [setNotNull, hfind]
  dsimp only
  cases hconstraint : column.notNull with
  | true => simp
  | false =>
    rw [AllowsNotNull, columnStats]
    cases hstats : σ.stats with
    | none => simp
    | some stats =>
      dsimp only [Option.getD_some]
      cases hcolumn : stats.columnStats.lookup column.field.columnData.id with
      | none => simp
      | some stats =>
        have hcheck : ((!stats.hasNullCount || decide (0 < stats.nullCount)) &&
            σ.rows.any (isNullAt column i)) = true ↔
            ¬ (ZeroNulls stats ∨ ∀ row ∈ σ.rows, isNullAt column i row = false) := by
          simp [ZeroNulls, Nat.pos_iff_ne_zero, imp_iff_not_or]
        dsimp only
        rw [if_neg Bool.false_ne_true]
        split
        · rename_i hnull
          refine iff_of_false (fun h => by cases h) ?_
          rintro ⟨-, ⟨_, hsame, hallowed⟩, -⟩
          exact hcheck.1 hnull (Option.some.inj hsame ▸ hallowed)
        · rename_i hnone
          have hallowed := not_not.1 (mt hcheck.2 hnone)
          refine ⟨fun h => ⟨rfl, ⟨stats, rfl, hallowed⟩, (Except.ok.inj h).symm⟩, ?_⟩
          rintro ⟨-, -, rfl⟩
          rfl

theorem Invariant.setNotNull (h : σ.Invariant) {columnName : Text}
    (hok : σ.setNotNull columnName = .ok σ') : σ'.Invariant := by
  cases hfind : σ.findColumn columnName with
  | none =>
    rw [NotNullTable.setNotNull, hfind] at hok
    cases hok
  | some found =>
    obtain ⟨column, i⟩ := found
    obtain ⟨-, ⟨stats, hstats, hallowed⟩, rfl⟩ := (setNotNull_eq_ok hfind).1 hok
    have hi := findColumn_spec hfind
    refine h.withNotNull fun _ other hother htracked row hrow => ?_
    obtain rfl : column = other := Option.some.inj (hi.symm.trans hother)
    rcases hallowed with hzero | hscan
    · -- the table had the column with its first rows, so that no row is too short
      have hinitial := ((h.present i column hi htracked).1 (hstats ▸ rfl)).1
      have hlong := h.whole i hinitial row (h.live hrow)
      have hvalue := List.getElem?_eq_getElem hlong
      rw [isNullAt, hvalue]
      exact ((h.zero i column hi htracked stats hstats).1 hzero).2 _
        (mem_valuesAt.2 ⟨row, h.live hrow, hvalue⟩)
    · exact hscan row hrow

theorem Invariant.dropNotNull (h : σ.Invariant) {columnName : Text}
    (hok : σ.dropNotNull columnName = .ok σ') : σ'.Invariant := by
  rw [NotNullTable.dropNotNull] at hok
  split at hok
  · cases hok
  · split at hok
    · obtain rfl := (Except.ok.inj hok).symm
      exact h.withNotNull fun hfalse => absurd hfalse Bool.false_ne_true
    · cases hok

/-! ## Runs keep the invariant -/

theorem lookup_map_snd {α β : Type} (f : α → β) (columns : List (FieldIndex × α)) (k : FieldIndex) :
    (columns.map fun entry => (entry.1, f entry.2)).lookup k = (columns.lookup k).map f := by
  induction columns with
  | nil => rfl
  | cons e columns ih =>
    rw [List.map_cons, lookup_cons_ite, lookup_cons_ite, ih]
    split <;> rfl

theorem lookup_filter_key {α : Type} (p : FieldIndex → Bool) (columns : List (FieldIndex × α))
    (k : FieldIndex) :
    (columns.filter fun entry => p entry.1).lookup k = if p k then columns.lookup k else none := by
  induction columns with
  | nil => exact (ite_self _).symm
  | cons e columns ih =>
    rw [List.filter_cons, lookup_cons_ite]
    by_cases hkey : k = e.1
    · subst hkey
      rw [if_pos rfl]
      split
      · rw [lookup_cons_ite, if_pos rfl]
      · rename_i hp
        rw [ih, if_neg hp]
    · rw [if_neg hkey]
      split
      · rw [lookup_cons_ite, if_neg hkey, ih]
      · exact ih

theorem dropFileStats_columnStats {stats : DuckLakeTableStats} {dropped : DroppedDataFileStats}
    {applied : Bool × DuckLakeTableStats} (h : dropFileStats stats dropped = .ok applied) :
    applied.1 = true ∨ applied.2.columnStats = stats.columnStats.map fun entry =>
      (entry.1, { type := entry.2.type, isAnyValid := false }) := by
  obtain ⟨count, -, h⟩ := bind_eq_ok.1 h
  split at h
  · obtain ⟨size, -, h⟩ := bind_eq_ok.1 h
    obtain rfl := (Except.ok.inj h).symm
    exact .inl rfl
  · obtain rfl := (Except.ok.inj h).symm
    exact .inr rfl

/-- What dropped files leave of the statistics: the same columns, of which nothing is known if files
were dropped. -/
theorem Drops.lookup {kept : List Row} {dropped : Option DroppedDataFileStats}
    {applied : Bool × DuckLakeTableStats} (hdrops : σ.Drops kept dropped applied)
    (hclear : applied.1 = false) (k : FieldIndex) :
    applied.2.columnStats.lookup k = (σ.columnStats.lookup k).map fun old =>
      if dropped.isSome then { type := old.type, isAnyValid := false } else old := by
  have happlied := hdrops.applied
  unfold applyDropped at happlied
  cases dropped with
  | none =>
    obtain rfl := (Except.ok.inj happlied).symm
    simp [columnStats]
  | some dropped =>
    rcases dropFileStats_columnStats happlied with hkept | hreset
    · cases hclear.symm.trans hkept
    · rw [hreset, lookup_map_snd fun old : DuckLakeColumnStats =>
        ({ type := old.type, isAnyValid := false } : DuckLakeColumnStats)]
      rfl

theorem Drops.sorted {kept : List Row} {dropped : Option DroppedDataFileStats}
    {applied : Bool × DuckLakeTableStats} (hdrops : σ.Drops kept dropped applied)
    (hclear : applied.1 = false) (hsorted : σ.columnStats.Pairwise (·.1 < ·.1)) :
    applied.2.columnStats.Pairwise (·.1 < ·.1) := by
  have happlied := hdrops.applied
  unfold applyDropped at happlied
  cases dropped with
  | none =>
    obtain rfl := (Except.ok.inj happlied).symm
    exact hsorted
  | some dropped =>
    rcases dropFileStats_columnStats happlied with hkept | hreset
    · cases hclear.symm.trans hkept
    · rw [hreset]
      exact List.pairwise_map.2 hsorted

theorem columnStats_commit_of_clear {kept rows : List Row} {dropped : Option DroppedDataFileStats}
    {stats : DuckLakeTableStats} : (σ.commit kept rows dropped true stats).columnStats = [] := by
  rw [columnStats, NotNullTable.commit, Option.getD_some, DuckLakeTableStats.reload, if_pos rfl]
  unfold DuckLakeTableStats.storedColumns
  cases σ.stats <;> rfl

/-- Only the first statistics and those of columns that have some are stored. -/
theorem lookup_commit {kept rows : List Row} {dropped : Option DroppedDataFileStats}
    {stats : DuckLakeTableStats} {k : FieldIndex} :
    (σ.commit kept rows dropped false stats).columnStats.lookup k =
      if σ.stats.isNone || (σ.columnStats.lookup k).isSome then
        (stats.columnStats.lookup k).map (·.fromGlobalStats (0 < stats.recordCount))
      else none := by
  rw [columnStats, NotNullTable.commit, Option.getD_some, DuckLakeTableStats.reload,
    if_neg Bool.false_ne_true]
  dsimp only
  rw [lookup_map_snd, columnStats]
  unfold DuckLakeTableStats.storedColumns
  cases σ.stats with
  | none => rfl
  | some current =>
    dsimp only
    rw [lookup_filter_key fun key => (current.columnStats.lookup key).isSome]
    simp only [Option.isNone_some, Option.getD_some, Bool.false_or]
    split <;> rfl

section Commit

variable {kept rows : List Row} {dropped : Option DroppedDataFileStats}
  {applied : Bool × DuckLakeTableStats} {stats : DuckLakeTableStats}
  {new : List (FieldIndex × DuckLakeColumnStats)}

/-- A row that is written has a value in every column that the table has. -/
theorem valuesAt_eq_columnVector_of_length (hi : σ.table.columns[i]? = some column)
    (hlength : ∀ row ∈ rows, row.length = σ.table.columns.length) :
    valuesAt i rows = columnVector i rows :=
  valuesAt_eq_columnVector fun row hrow => hlength row hrow ▸ (List.getElem?_eq_some_iff.1 hi).1

theorem Invariant.whole_commit (h : σ.Invariant)
    (hlength : ∀ row ∈ rows, row.length = σ.table.columns.length)
    (hinitial : (σ.commit kept rows dropped applied.1 stats).HasInitially i) :
    ∀ row ∈ σ.written ++ rows, i < row.length := by
  obtain ⟨first, hfirst, hlong⟩ := hinitial
  rw [NotNullTable.commit] at hfirst
  dsimp only at hfirst
  have hcolumns : i < σ.table.columns.length := by
    split at hfirst
    · exact hlength first hfirst ▸ hlong
    · exact hlong.trans_le (h.lengths first (h.first hfirst))
  intro row hrow
  rcases List.mem_append.1 hrow with hrow | hrow
  · split at hfirst
    · rename_i hnone
      rw [(h.unwritten (Option.isNone_iff_eq_none.1 hnone)).2.1] at hrow
      cases hrow
    · exact h.whole i ⟨first, hfirst, hlong⟩ row hrow
  · exact hlength row hrow ▸ hcolumns

variable [WriteStatistics]

theorem Invariant.present_commit (h : σ.Invariant) (hdrops : σ.Drops kept dropped applied)
    (hstats : stats.columnStats = mergeColumns applied.2.columnStats new)
    (hwritten : σ.stats = none → rows ≠ [])
    (hlength : ∀ row ∈ rows, row.length = σ.table.columns.length)
    (hi : σ.table.columns[i]? = some column) (htracked : TrackedInFiles column.field)
    (hcounts : CountsNulls column.field.columnData.id (columnVector i rows) new) :
    ((σ.commit kept rows dropped applied.1 stats).columnStats.lookup
        column.field.columnData.id).isSome = true ↔
      (σ.commit kept rows dropped applied.1 stats).HasInitially i ∧
        (σ.cleared || applied.1) = false := by
  cases hclear : applied.1 with
  | true =>
    rw [columnStats_commit_of_clear, Bool.or_true]
    exact iff_of_false Bool.false_ne_true fun h => absurd h.2.symm Bool.false_ne_true
  | false =>
    have hmerged : (stats.columnStats.lookup column.field.columnData.id).isSome = true ↔
        (σ.columnStats.lookup column.field.columnData.id).isSome = true ∨
          columnVector i rows ≠ [] := by
      rw [hstats, isSome_mergeColumns (hdrops.sorted hclear h.sorted), hcounts.present,
        hdrops.lookup hclear, Option.isSome_map]
    rw [lookup_commit, Bool.or_false]
    cases hσ : σ.stats with
    | none =>
      obtain ⟨row, hrow⟩ := List.exists_mem_of_ne_nil _ (hwritten hσ)
      have hvector : columnVector i rows ≠ [] := fun h => hwritten hσ (List.map_eq_nil_iff.1 h)
      rw [Option.isNone_none, Bool.true_or, if_pos rfl, Option.isSome_map, hmerged]
      refine iff_of_true (.inr hvector) ⟨⟨row, ?_, ?_⟩, (h.unwritten hσ).2.2.1⟩
      · simpa [NotNullTable.commit, hσ] using hrow
      · exact hlength row hrow ▸ (List.getElem?_eq_some_iff.1 hi).1
    | some current =>
      have hinitial : (σ.commit kept rows dropped false stats).HasInitially i ↔
          σ.HasInitially i := by
        simp [HasInitially, NotNullTable.commit, hσ]
      rw [hinitial, ← h.present i column hi htracked, Option.isNone_some, Bool.false_or]
      split
      · rename_i hsome
        rw [Option.isSome_map, hmerged]
        exact iff_of_true (.inl hsome) hsome
      · rename_i hnone
        exact iff_of_false Bool.false_ne_true hnone

theorem Invariant.zero_commit (h : σ.Invariant) (hdrops : σ.Drops kept dropped applied)
    (hstats : stats.columnStats = mergeColumns applied.2.columnStats new)
    (hlength : ∀ row ∈ rows, row.length = σ.table.columns.length)
    (hi : σ.table.columns[i]? = some column) (htracked : TrackedInFiles column.field)
    (hcounts : CountsNulls column.field.columnData.id (columnVector i rows) new)
    {stored : DuckLakeColumnStats}
    (hstored : (σ.commit kept rows dropped applied.1 stats).columnStats.lookup
      column.field.columnData.id = some stored) :
    ZeroNulls stored ↔ (σ.emptied || (dropped.isSome && !applied.1)) = false ∧
      ∀ d ∈ valuesAt i (σ.written ++ rows), d.isNull = false := by
  cases hclear : applied.1 with
  | true =>
    rw [hclear, columnStats_commit_of_clear] at hstored
    cases hstored
  | false =>
    rw [hclear, lookup_commit] at hstored
    split at hstored
    · rename_i hkept
      obtain ⟨merged, hmerged, rfl⟩ := Option.map_eq_some_iff.1 hstored
      have hzero : ZeroNulls merged ↔
          (∀ s ∈ applied.2.columnStats.lookup column.field.columnData.id, ZeroNulls s) ∧
            ∀ d ∈ columnVector i rows, d.isNull = false := by
        rw [← hcounts.zero, ← zeroNulls_mergeColumns (hdrops.sorted hclear h.sorted), ← hstats,
          hmerged]
        simp
      have hold : (∀ s ∈ applied.2.columnStats.lookup column.field.columnData.id, ZeroNulls s) ↔
          (σ.emptied || (dropped.isSome && !false)) = false ∧
            ∀ d ∈ valuesAt i σ.written, d.isNull = false := by
        rw [hdrops.lookup hclear]
        cases hlookup : σ.columnStats.lookup column.field.columnData.id with
        | none =>
          -- these are the first statistics
          rw [hlookup, Option.isSome_none, Bool.or_false, Option.isNone_iff_eq_none] at hkept
          obtain ⟨-, hwritten, -, hemptied⟩ := h.unwritten hkept
          have hdropped : dropped.isSome = false := by
            by_contra hsome
            have hcounted := hdrops.counted (Bool.not_eq_false _ ▸ hsome)
            rw [hkept] at hcounted
            cases hcounted
          simp [hemptied, hdropped, hwritten, valuesAt]
        | some old =>
          have hcounted := h.zero i column hi htracked old hlookup
          cases hdropped : dropped.isSome with
          | true => simp [ZeroNulls]
          | false => simpa using hcounted
      rw [DuckLakeColumnStats.zeroNulls_fromGlobalStats, hzero, hold, valuesAt_append,
        valuesAt_eq_columnVector_of_length hi hlength, List.forall_mem_append, and_assoc]
    · cases hstored

/-- A committed transaction whose statistics count its NULLs, and that was accepted. -/
theorem Invariant.commit (h : σ.Invariant) (hdrops : σ.Drops kept dropped applied)
    (hstats : stats.columnStats = mergeColumns applied.2.columnStats new)
    (hwritten : σ.stats = none → rows ≠ [])
    (hlength : ∀ row ∈ rows, row.length = σ.table.columns.length)
    (hcounts : ∀ i column, σ.table.columns[i]? = some column → TrackedInFiles column.field →
      CountsNulls column.field.columnData.id (columnVector i rows) new)
    (hforbids : ForbidsNulls σ.table TrackedInFiles rows) :
    (σ.commit kept rows dropped applied.1 stats).Invariant where
  valid := h.valid
  lengths := List.forall_mem_append.2 ⟨h.lengths, fun row hrow => (hlength row hrow).le⟩
  live := List.append_subset.2 ⟨List.subset_append_of_subset_left _
    (List.Subset.trans hdrops.kept h.live), List.subset_append_right _ _⟩
  first := by
    dsimp only [NotNullTable.commit]
    split
    · exact List.subset_append_right _ _
    · exact List.subset_append_of_subset_left _ h.first
  sorted := by
    cases hclear : applied.1 with
    | true =>
      rw [columnStats_commit_of_clear]
      exact List.Pairwise.nil
    | false =>
      have hmerged : stats.columnStats.Pairwise (·.1 < ·.1) :=
        hstats ▸ sorted_mergeColumns (hdrops.sorted hclear h.sorted)
      refine List.pairwise_map.2 ?_
      cases hσ : σ.stats with
      | none => exact hmerged
      | some current => exact hmerged.filter _
  unwritten hnone := by cases hnone
  whole i hinitial := h.whole_commit hlength hinitial
  present i column hi htracked :=
    h.present_commit hdrops hstats hwritten hlength hi htracked (hcounts i column hi htracked)
  zero i column hi htracked stored hstored :=
    h.zero_commit hdrops hstats hlength hi htracked (hcounts i column hi htracked) hstored
  notNull i column hi hnotNull htracked := by
    refine List.forall_mem_append.2 ⟨fun row hrow =>
      h.notNull i column hi hnotNull htracked row (hdrops.kept hrow), fun row hrow => ?_⟩
    have hlong : i < row.length := hlength row hrow ▸ (List.getElem?_eq_some_iff.1 hi).1
    have hvalue := List.getElem?_eq_getElem hlong
    rw [isNullAt, hvalue]
    refine nullCount_eq_zero.1 (hforbids i column hi hnotNull htracked) _ ?_
    rw [← valuesAt_eq_columnVector_of_length hi hlength]
    exact mem_valuesAt.2 ⟨row, hrow, hvalue⟩

end Commit

variable [WriteStatistics]

theorem columnStats_mergeFileStats {stats : DuckLakeTableStats} {file : DuckLakeDataFile} :
    (stats.mergeFileStats file).columnStats = mergeColumns stats.columnStats file.columnStats := by
  rw [DuckLakeTableStats.mergeFileStats]
  dsimp only [DuckLakeTableStats.mergeStats]
  split <;> rfl

theorem columnStats_foldl_mergeFileStats {stats : DuckLakeTableStats}
    {files : List DuckLakeDataFile} : (files.foldl (·.mergeFileStats) stats).columnStats =
      mergeColumns stats.columnStats (files.flatMap (·.columnStats)) := by
  induction files generalizing stats with
  | nil => rfl
  | cons file files ih =>
    rw [List.foldl_cons, ih, columnStats_mergeFileStats, List.flatMap_cons, mergeColumns,
      mergeColumns, mergeColumns, List.foldl_append]

theorem Invariant.insertInlined (h : σ.Invariant) {kept : List Row}
    {dropped : Option DroppedDataFileStats} {applied : Bool × DuckLakeTableStats}
    {skipped : List FieldIndex} {chunks : List (List Row)} {rowIds : List Int}
    {data : DuckLakeInlinedData} (hdrops : σ.Drops kept dropped applied) (hne : chunks.flatten ≠ [])
    (hlength : ∀ row ∈ chunks.flatten, row.length = σ.table.columns.length)
    (hok : operatorFinalize σ.table skipped chunks rowIds = .ok data) :
    (σ.commit kept chunks.flatten dropped applied.1 (applied.2.mergeInlinedData data)).Invariant := by
  refine h.commit hdrops rfl (fun _ => hne) hlength
    (fun i column hi htracked => countsNulls_operatorFinalize h.valid hne hok hi htracked.1) ?_
  exact fun i column hi hnotNull htracked =>
    (operatorFinalize_ok_iff h.valid).1 ⟨data, hok⟩ i column hi hnotNull htracked.1

theorem Invariant.insertFiles (h : σ.Invariant) {kept : List Row}
    {dropped : Option DroppedDataFileStats} {applied : Bool × DuckLakeTableStats}
    {skipped : List FieldIndex} {parts : List (List Row)} {files : List WrittenDataFile}
    {partitionId : Option Idx} {dataFiles : List DuckLakeDataFile}
    (hdrops : σ.Drops kept dropped applied) (hsome : parts ≠ []) (hne : ∀ part ∈ parts, part ≠ [])
    (hlength : ∀ row ∈ parts.flatten, row.length = σ.table.columns.length)
    (hreports : List.Forall₂ (ReportsNulls σ.table) parts files)
    (hok : addWrittenFiles σ.table skipped partitionId files = .ok dataFiles) :
    (σ.commit kept parts.flatten dropped applied.1
      (dataFiles.foldl (·.mergeFileStats) applied.2)).Invariant := by
  refine h.commit hdrops columnStats_foldl_mergeFileStats (fun _ hnil => ?_) hlength
    (fun i column hi htracked => countsNulls_addWrittenFiles h.valid hreports hne hok hi htracked) ?_
  · obtain ⟨part, hpart⟩ := List.exists_mem_of_ne_nil _ hsome
    exact hne part hpart (List.flatten_eq_nil_iff.1 hnil part hpart)
  · exact ((addWrittenFiles_ok_iff h.valid hreports).1 ⟨dataFiles, hok⟩).1

theorem Invariant.dropFiles (h : σ.Invariant) {kept : List Row} {dropped : DroppedDataFileStats}
    {applied : Bool × DuckLakeTableStats} (hdrops : σ.Drops kept (some dropped) applied) :
    (σ.commit kept [] (some dropped) applied.1 applied.2).Invariant := by
  have hσ := hdrops.counted rfl
  have hsame : applied.2.columnStats = mergeColumns applied.2.columnStats [] := rfl
  refine h.commit hdrops hsame (fun hnone => ?_) (fun _ hrow => absurd hrow List.not_mem_nil)
    (fun i column _ _ => ?_) fun i column _ _ _ => rfl
  · rw [hnone] at hσ
    cases hσ
  · refine ⟨iff_of_false ?_ (not_not.2 rfl), iff_of_true (fun e he => absurd he List.not_mem_nil)
      fun d hd => absurd hd List.not_mem_nil⟩
    rintro ⟨e, he, -⟩
    exact absurd he List.not_mem_nil

theorem Step.invariant (h : σ.Invariant) (hstep : Step σ σ') : σ'.Invariant := by
  cases hstep with
  | insertInlined hdrops hne hlength hok => exact h.insertInlined hdrops hne hlength hok
  | insertFiles hdrops hsome hne hlength hreports hok =>
    exact h.insertFiles hdrops hsome hne hlength hreports hok
  | delete hkept => exact h.delete hkept
  | dropFiles hdrops => exact h.dropFiles hdrops
  | setNotNull hok => exact h.setNotNull hok
  | dropNotNull hok => exact h.dropNotNull hok
  | addColumn hnotNull hvalid hfresh => exact h.addColumn hnotNull hvalid hfresh

theorem Reachable.invariant (h : Reachable σ) : σ.Invariant := by
  induction h with
  | start hvalid => exact .start hvalid
  | step _ hstep ih => exact hstep.invariant ih

end NotNullTable

/-! ## A column that is younger than a row -/

section Example

attribute [local instance] WriteStatistics.reference

namespace NotNullTable

/-- A committed transaction that writes rows inline. -/
def inserted (σ : NotNullTable) (rows : List Row) : NotNullTable :=
  σ.commit σ.rows rows none false ((σ.stats.getD {}).mergeInlinedData
    ((operatorFinalize σ.table [] [rows] []).toOption.getD { rows := [] }))

end NotNullTable

def keyColumn : TableColumn where
  field := { columnData := { id := 1 }, name := "k".toList, type := .primitive "varchar".toList }

/-- A table with a column `k`. -/
def keys : DuckLakeTableEntry where
  tableId := 1
  uuid := "keys-uuid".toList
  schema := .root 0 "main".toList
  name := "keys".toList
  dataPath := "main/keys/".toList
  columns := [keyColumn]
  localChange := .none
  localPartition := localPartition_of_none

namespace NotNullTable

end NotNullTable

end Example

end DuckLake
