import DuckLake.Storage.CommitRetry
import DuckLake.Storage.Placeholders

/-!
# Row ids

Every row of a table has a row id. Rows that are newly inserted take the next ids of the table,
rows that are updated or flushed bring theirs along. The next id is kept with the statistics of the
table, which every commit that touches the data of the table reads and writes back.
-/

namespace DuckLake

/-! ## Row ids of inlined rows -/

namespace DuckLakeInlinedData

/-- Row ids are preserved for all of the rows or for none. -/
def Complete (data : DuckLakeInlinedData) : Prop :=
  data.rowIds = [] ∨ data.rowIds.length = data.rows.length

/-- The preserved row id of every row, if row ids are preserved. -/
def preserved (data : DuckLakeInlinedData) : List (Option Int) :=
  if data.rowIds.isEmpty then data.rows.map fun _ => none else data.rowIds.map some

def getOutputRowId (data : DuckLakeInlinedData) (position : Nat) : Int :=
  if data.rowIds.isEmpty then transactionLocalRowIdStart + position
  else data.rowIds.getD position 0

end DuckLakeInlinedData

/-- `InlinedDataInsert`: the row ids that are written when the values have to be encoded. -/
def inlinedDataInsert : Nat → List Int → List Int
  | _, [] => []
  | nextRowId, rowId :: rows =>
    if isTransactionLocalRowId rowId then nextRowId :: inlinedDataInsert (nextRowId + 1) rows
    else rowId :: inlinedDataInsert nextRowId rows

/-- `WriteNewInlinedData`: the row ids of the rows that are written from `rowIdStart` on. -/
def inlinedRowIds (needsEncoding : Bool) (rowIdStart : Nat) (data : DuckLakeInlinedData) :
    List Int :=
  if needsEncoding then
    inlinedDataInsert rowIdStart ((List.range data.rows.length).map data.getOutputRowId)
  else emitRowIds rowIdStart data.preserved

/-- The row is not the new version of a row that has a row id already. -/
def isInserted (preserved : Option Int) : Bool := preserved.all isTransactionLocalRowId

/-- The row ids that newly inserted rows are given. -/
def insertedInline (needsEncoding : Bool) (rowIdStart : Nat) (data : DuckLakeInlinedData) :
    List Int :=
  ((data.preserved.zip (inlinedRowIds needsEncoding rowIdStart data)).filter
    (isInserted ·.1)).map (·.2)

theorem inlinedDataInsert_eq_emitRowIds (rowIdStart : Nat) (rows : List Int) :
    inlinedDataInsert rowIdStart rows = emitRowIds rowIdStart (rows.map some) := by
  induction rows generalizing rowIdStart with
  | nil => rfl
  | cons rowId rows ih =>
    rw [inlinedDataInsert, List.map_cons, emitRowIds, ih, ih]

theorem emitRowIds_none (rowIdStart : Nat) {rows : List (Option Int)}
    (h : ∀ row ∈ rows, isInserted row = true) :
    emitRowIds rowIdStart rows = (List.range' rowIdStart rows.length).map Int.ofNat := by
  induction rows generalizing rowIdStart with
  | nil => rfl
  | cons row rows ih =>
    have hrows := ih (rowIdStart + 1) fun r hr => h r (List.mem_cons_of_mem _ hr)
    have hrow := h row List.mem_cons_self
    rw [List.length_cons, List.range'_succ, List.map_cons, ← hrows]
    cases row with
    | none => rfl
    | some rid =>
      have hlocal : isTransactionLocalRowId rid = true := hrow
      rw [emitRowIds, if_pos hlocal]
      rfl

/-- Both ways to write the rows give out the same row ids. -/
theorem inlinedRowIds_eq (needsEncoding : Bool) (rowIdStart : Nat) {data : DuckLakeInlinedData}
    (h : data.Complete) :
    inlinedRowIds needsEncoding rowIdStart data = emitRowIds rowIdStart data.preserved := by
  cases needsEncoding with
  | false => rfl
  | true =>
    rw [inlinedRowIds, if_pos rfl, inlinedDataInsert_eq_emitRowIds, List.map_map]
    by_cases hempty : data.rowIds = []
    · have hpreserved : data.preserved = data.rows.map fun _ => none := by
        simp [DuckLakeInlinedData.preserved, hempty]
      rw [emitRowIds_none rowIdStart, emitRowIds_none rowIdStart, hpreserved]
      · simp
      · intro row hrow
        rw [hpreserved] at hrow
        obtain ⟨r, -, rfl⟩ := List.mem_map.1 hrow
        rfl
      · intro row hrow
        obtain ⟨position, -, rfl⟩ := List.mem_map.1 hrow
        simp only [isInserted, DuckLakeInlinedData.getOutputRowId, hempty, Function.comp_apply,
          List.isEmpty_nil, if_true, Option.all_some, isTransactionLocalRowId, decide_eq_true_eq]
        omega
    · have hlength : data.rowIds.length = data.rows.length := h.resolve_left hempty
      have hids : (List.range data.rows.length).map (some ∘ data.getOutputRowId) =
          data.preserved := by
        refine List.ext_getElem (by simp [DuckLakeInlinedData.preserved, hempty, hlength]) ?_
        intro i h₁ h₂
        have hi : i < data.rowIds.length := by
          rw [hlength]
          simpa using h₁
        simp [DuckLakeInlinedData.getOutputRowId, DuckLakeInlinedData.preserved, hempty, hi]
      rw [hids]

/-- The newly inserted rows are given the ids from `rowIdStart` on. -/
theorem insertedInline_eq (needsEncoding : Bool) (rowIdStart : Nat) {data : DuckLakeInlinedData}
    (h : data.Complete) :
    insertedInline needsEncoding rowIdStart data =
      (List.range' rowIdStart (data.preserved.countP isInserted)).map Int.ofNat := by
  rw [insertedInline, inlinedRowIds_eq needsEncoding rowIdStart h]
  generalize data.preserved = rows
  induction rows generalizing rowIdStart with
  | nil => rfl
  | cons row rows ih =>
    by_cases hrow : isInserted row = true
    · rw [List.countP_cons_of_pos hrow, List.range'_succ, List.map_cons, ← ih (rowIdStart + 1)]
      cases row with
      | none => rfl
      | some rid =>
        have hlocal : isTransactionLocalRowId rid = true := hrow
        rw [emitRowIds, if_pos hlocal, List.zip_cons_cons, List.filter_cons_of_pos (by exact hrow)]
        rfl
    · rw [List.countP_cons_of_neg hrow, ← ih rowIdStart]
      cases row with
      | none => exact absurd rfl hrow
      | some rid =>
        have hlocal : ¬ isTransactionLocalRowId rid = true := hrow
        rw [emitRowIds, if_neg hlocal, List.zip_cons_cons, List.filter_cons_of_neg (by exact hrow)]

/-! ## Ids that are given out -/

/-- New ids: different ones, from `lo` up to `hi`. -/
structure GivenOut (lo hi : Nat) (ids : List Int) : Prop where
  le : lo ≤ hi
  distinct : ids.Nodup
  range : ∀ id ∈ ids, (lo : Int) ≤ id ∧ id < hi

namespace GivenOut

variable {lo mid hi : Nat} {ids ids' : List Int}

theorem nil (h : lo ≤ hi) : GivenOut lo hi [] := ⟨h, List.nodup_nil, by simp⟩

theorem append (h : GivenOut lo mid ids) (h' : GivenOut mid hi ids') :
    GivenOut lo hi (ids ++ ids') := by
  have hle := h.le
  have hle' := h'.le
  refine ⟨hle.trans hle', List.nodup_append.2 ⟨h.distinct, h'.distinct, ?_⟩, ?_⟩
  · rintro a ha b hb rfl
    have hrange := h.range a ha
    have hrange' := h'.range a hb
    omega
  · intro id hid
    rcases List.mem_append.1 hid with hid | hid
    · have hrange := h.range id hid
      omega
    · have hrange := h'.range id hid
      omega

theorem range' (lo count : Nat) :
    GivenOut lo (lo + count) ((List.range' lo count).map Int.ofNat) := by
  refine ⟨Nat.le_add_right lo count, ?_, ?_⟩
  · exact (List.nodup_range' 1).map fun a b h => Int.ofNat.inj h
  · intro id hid
    obtain ⟨n, hn, rfl⟩ := List.mem_map.1 hid
    have hrange := List.mem_range'_1.1 hn
    exact ⟨Int.ofNat_le.2 hrange.1, Int.ofNat_lt.2 hrange.2⟩

end GivenOut

/-! ## Row ids of data files -/

/-- The row ids that newly inserted rows of a data file are given; the rows of a flushed file bring
theirs along. -/
def insertedRowIds (file : DuckLakeDataFile) (rowIdStart : Option Nat) : List Int :=
  match file.flushRowIdStart with
  | some _ => []
  | none => (List.range' (rowIdStart.getD 0) file.rowCount).map Int.ofNat

/-- A file that was written here and that brings its row ids along is a flushed one. -/
def DuckLakeDataFile.RowIdsKnown (file : DuckLakeDataFile) : Prop :=
  file.maxPartialFileSnapshot.isSome = file.flushRowIdStart.isSome

/-- The number of rows of the files. -/
def rowCounts (files : List DuckLakeDataFile) : Nat := (files.map (·.rowCount)).sum

/-- The next row id once a file is counted whose rows bring their ids along or take new ones. -/
def DuckLakeDataFile.spanEnd (nextRowId : Nat) (file : DuckLakeDataFile) : Nat :=
  file.flushRowIdStart.elim (nextRowId + file.rowCount) fun start =>
    max (nextRowId + file.rowCount) (start + file.rowCount)

/-- The id is below what the spans of the files, registered from `nextRowId` on, reach up to. -/
def InSpans (nextRowId : Nat) (files : List DuckLakeDataFile) (id : Int) : Prop :=
  id < nextRowId + rowCounts files ∨
    ∃ file rest start, file :: rest <:+ files ∧ file.flushRowIdStart = some start ∧
      id < start + rowCounts (file :: rest)

theorem rowCounts_cons (file : DuckLakeDataFile) (files : List DuckLakeDataFile) :
    rowCounts (file :: files) = file.rowCount + rowCounts files := by
  rw [rowCounts, List.map_cons, List.sum_cons, rowCounts]

theorem lt_spanEnd_add {nextRowId : Nat} {file : DuckLakeDataFile} {count : Nat} {id : Int} :
    id < file.spanEnd nextRowId + count ↔ id < nextRowId + (file.rowCount + count : Nat) ∨
      ∃ start, file.flushRowIdStart = some start ∧ id < start + (file.rowCount + count : Nat) := by
  unfold DuckLakeDataFile.spanEnd
  cases file.flushRowIdStart with
  | none =>
    simp only [Option.elim_none, reduceCtorEq, false_and, exists_false, or_false]
    omega
  | some start =>
    simp only [Option.elim_some, Option.some.injEq, exists_eq_left']
    omega

theorem inSpans_cons {nextRowId : Nat} {file : DuckLakeDataFile} {files : List DuckLakeDataFile}
    {id : Int} : InSpans nextRowId (file :: files) id ↔
      InSpans (file.spanEnd nextRowId) files id := by
  unfold InSpans
  rw [lt_spanEnd_add, rowCounts_cons]
  constructor
  · rintro (hid | ⟨f, rest, start, hsuffix, hflush, hid⟩)
    · exact .inl (.inl hid)
    · rcases List.suffix_cons_iff.1 hsuffix with heq | hsuffix
      · obtain ⟨rfl, rfl⟩ := List.cons.inj heq
        rw [rowCounts_cons] at hid
        exact .inl (.inr ⟨start, hflush, hid⟩)
      · exact .inr ⟨f, rest, start, hsuffix, hflush, hid⟩
  · rintro ((hid | ⟨start, hflush, hid⟩) | ⟨f, rest, start, hsuffix, hflush, hid⟩)
    · exact .inl hid
    · refine .inr ⟨file, files, start, List.suffix_refl _, hflush, ?_⟩
      rw [rowCounts_cons]
      exact hid
    · exact .inr ⟨f, rest, start, hsuffix.trans (List.suffix_cons _ _), hflush, hid⟩

section Stats

variable [StatsMerge]

namespace DuckLakeTableStats

theorem nextRowId_mergeStats (stats : DuckLakeTableStats)
    (new : List (FieldIndex × DuckLakeColumnStats)) :
    (stats.mergeStats new).nextRowId = stats.nextRowId := rfl

theorem nextRowId_le_mergeFileStats (stats : DuckLakeTableStats) (file : DuckLakeDataFile) :
    stats.nextRowId ≤ (stats.mergeFileStats file).nextRowId := by
  unfold mergeFileStats
  rw [nextRowId_mergeStats]
  dsimp only
  split
  · exact le_refl _
  · dsimp only
    split <;> omega

theorem nextRowId_mergeFileStats {file : DuckLakeDataFile} (hknown : file.RowIdsKnown)
    (hflush : file.flushRowIdStart = none) (stats : DuckLakeTableStats) :
    (stats.mergeFileStats file).nextRowId = stats.nextRowId + file.rowCount := by
  have hcounted : ¬ file.maxPartialFileSnapshot.isSome = true := by
    intro h
    rw [hknown, hflush] at h
    cases h
  unfold mergeFileStats
  rw [nextRowId_mergeStats]
  simp [hcounted, hflush]

theorem nextRowId_mergeFileStats_eq_spanEnd {file : DuckLakeDataFile}
    (hcounted : file.maxPartialFileSnapshot = none) (stats : DuckLakeTableStats) :
    (stats.mergeFileStats file).nextRowId = file.spanEnd stats.nextRowId := by
  unfold mergeFileStats
  rw [nextRowId_mergeStats, DuckLakeDataFile.spanEnd]
  cases file.flushRowIdStart <;> simp [hcounted]

/-- Replicated files take the next row id to the end of their spans. -/
theorem lt_nextRowId_iff_inSpans {files : List DuckLakeDataFile}
    (hcounted : ∀ file ∈ files, file.maxPartialFileSnapshot = none) (stats : DuckLakeTableStats)
    (id : Int) :
    id < (files.foldl mergeFileStats stats).nextRowId ↔ InSpans stats.nextRowId files id := by
  induction files generalizing stats with
  | nil => simp [InSpans, rowCounts]
  | cons file files ih =>
    have hrest := ih (fun f hf => hcounted f (List.mem_cons_of_mem _ hf))
      (stats.mergeFileStats file)
    rw [List.foldl_cons, hrest, inSpans_cons,
      nextRowId_mergeFileStats_eq_spanEnd (hcounted file List.mem_cons_self)]

theorem nextRowId_mergeInlinedData (stats : DuckLakeTableStats) {data : DuckLakeInlinedData} :
    (stats.mergeInlinedData data).nextRowId =
      stats.nextRowId + data.preserved.countP isInserted := by
  unfold mergeInlinedData DuckLakeInlinedData.preserved
  cases hempty : data.rowIds.isEmpty with
  | true => simp [nextRowId_mergeStats, List.countP_replicate, isInserted]
  | false => simp [nextRowId_mergeStats, isInserted, List.countP_map, Function.comp_def]

end DuckLakeTableStats

/-- The row id that each of the files starts from. -/
def rowIdStarts : DuckLakeTableStats → List DuckLakeDataFile → List Nat
  | _, [] => []
  | stats, file :: files =>
    file.flushRowIdStart.getD stats.nextRowId :: rowIdStarts (stats.mergeFileStats file) files

theorem givenOut_files {files : List DuckLakeDataFile} (hknown : ∀ file ∈ files, file.RowIdsKnown)
    (stats : DuckLakeTableStats) :
    GivenOut stats.nextRowId (files.foldl DuckLakeTableStats.mergeFileStats stats).nextRowId
      ((files.zip (rowIdStarts stats files)).flatMap fun file =>
        insertedRowIds file.1 (some file.2)) := by
  induction files generalizing stats with
  | nil => exact .nil (le_refl _)
  | cons file files ih =>
    have hrest := ih (fun f hf => hknown f (List.mem_cons_of_mem _ hf)) (stats.mergeFileStats file)
    rw [List.foldl_cons, rowIdStarts, List.zip_cons_cons, List.flatMap_cons]
    refine .append ?_ hrest
    cases hflush : file.flushRowIdStart with
    | some start =>
      rw [insertedRowIds, hflush]
      exact .nil (stats.nextRowId_le_mergeFileStats file)
    | none =>
      rw [insertedRowIds, hflush, Option.getD_none, Option.getD_some,
        DuckLakeTableStats.nextRowId_mergeFileStats (hknown file List.mem_cons_self) hflush]
      exact .range' _ _

theorem givenOut_inline (needsEncoding : Bool) (stats : DuckLakeTableStats)
    {data : DuckLakeInlinedData} (h : data.Complete) :
    GivenOut stats.nextRowId (stats.mergeInlinedData data).nextRowId
      (insertedInline needsEncoding stats.nextRowId data) := by
  rw [insertedInline_eq needsEncoding stats.nextRowId h, stats.nextRowId_mergeInlinedData]
  exact .range' _ _

/-! ## Rewriting deletes -/

/-- A column of the flattened schema of a table. -/
structure DuckLakeColumnSchemaEntry where
  fieldIndex : FieldIndex
  columnType : LogicalTypeId
  isRoot : Bool

/-- A data file joined with the statistics of one of its columns. -/
structure FileColumnStatsRow where
  dataFileId : DataFileIndex
  recordCount : Nat
  fileSizeBytes : Nat
  columnId : Option FieldIndex
  valueCount : Option Nat
  nullCount : Option Nat
  minValue : Option Text
  maxValue : Option Text
  containsNan : Option Bool
  extraStats : Option Text
  minIsExact : Option Bool
  maxIsExact : Option Bool

/-- What the rows of an inlined data table aggregate to, for one column. -/
structure InlinedAggregate where
  fieldIndex : FieldIndex
  columnType : LogicalTypeId
  minValue : Option Text
  maxValue : Option Text
  count : Nat
  containsNan : Option Bool

/-- What the catalog answers when the statistics of a table are recomputed. -/
structure RewriteContext where
  columns : List DuckLakeColumnSchemaEntry
  currentStats : Option DuckLakeTableStats
  fileRows : List FileColumnStatsRow
  netDataFileRowCount : Nat
  netInlinedRowCount : Nat
  /-- The number of rows of each inlined data table, with the aggregates of its columns. -/
  inlinedTables : List (Nat × List InlinedAggregate)
  skippedStatsFields : List FieldIndex

def isFoldableScalarType (type : LogicalTypeId) : Bool :=
  type.isNumeric || type.isTemporal || type = .varchar || type = .boolean

def FileColumnStatsRow.columnStats (row : FileColumnStatsRow) (type : LogicalTypeId) :
    DuckLakeColumnStats :=
  let counted := row.valueCount.isSome && row.nullCount.isSome
  { type := type
    hasNumValues := counted
    numValues := if counted then row.valueCount.getD 0 + row.nullCount.getD 0 else 0
    hasNullCount := counted
    nullCount := if counted then row.nullCount.getD 0 else 0
    hasMin := row.minValue.isSome
    min := row.minValue.getD []
    hasMax := row.maxValue.isSome
    max := row.maxValue.getD []
    hasContainsNan := row.containsNan.isSome
    containsNan := row.containsNan.getD false
    minIsExact := row.minIsExact.getD false
    maxIsExact := row.maxIsExact.getD false
    extraStats := if type = .geometry ∨ type = .variant then row.extraStats else none }

/-- The id of the last file, the rows of all files, and the statistics. -/
abbrev FileRowsSoFar : Type := Option DataFileIndex × Nat × DuckLakeTableStats

/-- A file is counted with the first of its rows. -/
def countFileRow (acc : FileRowsSoFar) (row : FileColumnStatsRow) : FileRowsSoFar :=
  if acc.1 = some row.dataFileId then acc
  else (some row.dataFileId, acc.2.1 + row.recordCount, { acc.2.2 with
    recordCount := acc.2.2.recordCount + row.recordCount
    tableSizeBytes := acc.2.2.tableSizeBytes + row.fileSizeBytes })

/-- A column that no longer exists is skipped. -/
def mergeColumnRow (columns : List DuckLakeColumnSchemaEntry) (stats : DuckLakeTableStats)
    (row : FileColumnStatsRow) : DuckLakeTableStats :=
  match row.columnId.bind fun field => columns.find? (·.fieldIndex = field) with
  | none => stats
  | some column => stats.mergeStats [(column.fieldIndex, row.columnStats column.columnType)]

/-- The statistics of the files that stay. -/
def mergeFileRow (columns : List DuckLakeColumnSchemaEntry) (removed : List DataFileIndex)
    (acc : FileRowsSoFar) (row : FileColumnStatsRow) : FileRowsSoFar :=
  if row.dataFileId ∈ removed then acc
  else
    let counted := countFileRow acc row
    (counted.1, counted.2.1, mergeColumnRow columns counted.2.2 row)

def mergeRewrittenFile (acc : Nat × DuckLakeTableStats) (file : DuckLakeFileInfo) :
    Nat × DuckLakeTableStats :=
  (acc.1 + file.rowCount, DuckLakeTableStats.mergeStats { acc.2 with
    recordCount := acc.2.recordCount + file.rowCount
    tableSizeBytes := acc.2.tableSizeBytes + file.fileSizeBytes } file.columnStats)

/-- No bounds are recorded for floats if there is a NaN. -/
def InlinedAggregate.columnStats (total : Nat) (aggregate : InlinedAggregate) :
    DuckLakeColumnStats :=
  let isFloat := aggregate.columnType.isFloating
  let nan := aggregate.containsNan.getD false
  let bounded := !(isFloat && nan)
  { type := aggregate.columnType
    hasNumValues := true
    numValues := total
    hasNullCount := true
    nullCount := total - aggregate.count
    hasContainsNan := isFloat
    containsNan := isFloat && nan
    hasMin := bounded && aggregate.minValue.isSome
    min := if bounded then aggregate.minValue.getD [] else []
    minIsExact := bounded && aggregate.minValue.isSome
    hasMax := bounded && aggregate.maxValue.isSome
    max := if bounded then aggregate.maxValue.getD [] else []
    maxIsExact := bounded && aggregate.maxValue.isSome }

def tryMergeInlinedStats (columns : List DuckLakeColumnSchemaEntry)
    (tables : List (Nat × List InlinedAggregate)) (stats : DuckLakeTableStats) :
    Option DuckLakeTableStats :=
  if columns.all (isFoldableScalarType ·.columnType) then
    some (tables.foldl (fun stats table =>
      if table.1 = 0 then stats
      else stats.mergeStats (table.2.map fun a => (a.fieldIndex, a.columnStats table.1))) stats)
  else none

/-- The inlined rows are folded in if there are any. -/
def foldInlinedStats (context : RewriteContext) (stats : DuckLakeTableStats) :
    Option DuckLakeTableStats :=
  if 0 < context.netInlinedRowCount then
    (tryMergeInlinedStats (context.columns.filter (·.isRoot)) context.inlinedTables stats).map
      fun stats => { stats with recordCount := stats.recordCount + context.netInlinedRowCount }
  else some stats

/-- `ClearBounds`. -/
def DuckLakeColumnStats.clearBounds (stats : DuckLakeColumnStats) : DuckLakeColumnStats :=
  { stats with
    min := [], max := [], hasMin := false, hasMax := false, minIsExact := false
    maxIsExact := false, containsNan := false, hasContainsNan := false }

/-- A column without live data becomes unknown. -/
def completeColumns (columns : List DuckLakeColumnSchemaEntry) (stats : DuckLakeTableStats) :
    DuckLakeTableStats :=
  stats.mergeStats ((columns.filter fun column =>
    stats.columnStats.all (·.1 ≠ column.fieldIndex)).map fun column =>
      (column.fieldIndex, { type := column.columnType }))

/-- The statistics of a table once deletes were rewritten, if they are known exactly. -/
def recomputeGlobalStatsAfterRewrite (context : RewriteContext) (newFiles : List DuckLakeFileInfo)
    (removed : List DataFileIndex) : Option DuckLakeTableStats :=
  match context.currentStats with
  | none => none
  | some current =>
    if context.columns.isEmpty then none
    else
      -- the next row id is carried forward, never recomputed
      let kept := context.fileRows.foldl (mergeFileRow context.columns removed)
        (none, 0, { nextRowId := current.nextRowId })
      let merged := newFiles.foldl mergeRewrittenFile kept.2
      if merged.1 ≠ context.netDataFileRowCount then none
      else (foldInlinedStats context merged.2).map fun stats =>
        completeColumns context.columns { stats with
          columnStats := stats.columnStats.map fun entry =>
            (entry.1, if entry.1 ∈ context.skippedStatsFields then entry.2.clearBounds else entry.2) }

theorem nextRowId_mergeFileRow (columns : List DuckLakeColumnSchemaEntry)
    (removed : List DataFileIndex) (acc : FileRowsSoFar) (row : FileColumnStatsRow) :
    (mergeFileRow columns removed acc row).2.2.nextRowId = acc.2.2.nextRowId := by
  have hcounted : (countFileRow acc row).2.2.nextRowId = acc.2.2.nextRowId := by
    unfold countFileRow
    split <;> rfl
  unfold mergeFileRow
  split
  · rfl
  · rw [← hcounted]
    dsimp only
    unfold mergeColumnRow
    split <;> rfl

omit [StatsMerge] in
theorem nextRowId_foldl {α β : Type} (f : β → DuckLakeTableStats) (step : β → α → β)
    (hstep : ∀ b a, (f (step b a)).nextRowId = (f b).nextRowId) (l : List α) (b : β) :
    (f (l.foldl step b)).nextRowId = (f b).nextRowId := by
  induction l generalizing b with
  | nil => rfl
  | cons a l ih => rw [List.foldl_cons, ih, hstep]

theorem nextRowId_foldInlinedStats {context : RewriteContext} {stats stats' : DuckLakeTableStats}
    (h : foldInlinedStats context stats = some stats') : stats'.nextRowId = stats.nextRowId := by
  unfold foldInlinedStats at h
  split at h
  · obtain ⟨merged, hmerged, rfl⟩ := Option.map_eq_some_iff.1 h
    unfold tryMergeInlinedStats at hmerged
    split at hmerged
    · cases hmerged
      refine nextRowId_foldl id _ (fun stats table => ?_) _ _
      dsimp only [id]
      split <;> rfl
    · cases hmerged
  · cases h
    rfl

theorem nextRowId_recompute {context : RewriteContext} {newFiles : List DuckLakeFileInfo}
    {removed : List DataFileIndex} {stats : DuckLakeTableStats}
    (h : recomputeGlobalStatsAfterRewrite context newFiles removed = some stats) :
    ∃ current, context.currentStats = some current ∧ stats.nextRowId = current.nextRowId := by
  unfold recomputeGlobalStatsAfterRewrite at h
  cases hcurrent : context.currentStats with
  | none =>
    rw [hcurrent] at h
    cases h
  | some current =>
    rw [hcurrent] at h
    refine ⟨current, rfl, ?_⟩
    dsimp only at h
    split at h
    · cases h
    · split at h
      · cases h
      · obtain ⟨folded, hfolded, rfl⟩ := Option.map_eq_some_iff.1 h
        have hinlined := nextRowId_foldInlinedStats hfolded
        have hfiles := nextRowId_foldl (·.2) mergeRewrittenFile (fun _ _ => rfl) newFiles
          (context.fileRows.foldl (mergeFileRow context.columns removed)
            (none, 0, { nextRowId := current.nextRowId })).2
        have hkept := nextRowId_foldl (·.2.2) (mergeFileRow context.columns removed)
          (nextRowId_mergeFileRow context.columns removed) context.fileRows
          (none, 0, { nextRowId := current.nextRowId })
        calc folded.nextRowId = _ := hinlined
          _ = _ := hfiles
          _ = current.nextRowId := hkept

end Stats

/-! ## Commits -/

/-- The row of `ducklake_table_stats` of a table. -/
structure TableStatsRow where
  recordCount : Nat
  nextRowId : Nat
  fileSizeBytes : Nat

def DuckLakeTableStats.row (stats : DuckLakeTableStats) : TableStatsRow :=
  ⟨stats.recordCount, stats.nextRowId, stats.tableSizeBytes⟩

section Commit

variable [SQLWriter]

/-- What a statement does to the row of a table: the first statistics are inserted, later ones
update the row. -/
def Statement.updateTableStats (t : TableIndex) (row : Option TableStatsRow) :
    Statement → Option TableStatsRow
  | .globalTableStats tableId stats initialized =>
    if tableId = t then if initialized then row.map fun _ => stats.row else some stats.row
    else row
  | _ => row

/-- The next row id of a table, of which the first commit that writes data inserts the row. -/
def nextRowIdOf (row : Option TableStatsRow) : Nat := (row.map (·.nextRowId)).getD 0

/-- The row of a table, the rows that it had before, and the row ids that were given to new rows
so far. -/
structure RowIdState where
  row : Option TableStatsRow := none
  earlier : List (Option TableStatsRow) := []
  assigned : List Int := []

def RowIdState.nextRowId (σ : RowIdState) : Nat := nextRowIdOf σ.row

/-- The row changes and new rows are given ids. -/
def RowIdState.next (σ : RowIdState) (row : Option TableStatsRow) (new : List Int) : RowIdState where
  row := row
  earlier := σ.earlier ++ [σ.row]
  assigned := σ.assigned ++ new

omit [SQLWriter] in
@[simp] theorem RowIdState.nextRowId_next (σ : RowIdState) (row : Option TableStatsRow)
    (new : List Int) : (σ.next row new).nextRowId = nextRowIdOf row := rfl

/-- The row ids that the files and the inlined rows of a table are given by a commit. -/
def assignedRowIds (changes : LocalTableDataChanges) (needsEncoding : Bool)
    (newFiles : List DuckLakeFileInfo) (newInlinedData : List DuckLakeInlinedDataInfo) :
    List Int :=
  ((changes.newDataFiles.zip newFiles).flatMap fun file =>
    insertedRowIds file.1 file.2.rowIdStart) ++
    newInlinedData.flatMap fun info => insertedInline needsEncoding info.rowIdStart info.data

variable [StatsMerge]

/-- The statistics that the commit reads are those of the row. -/
def CommitEnvironment.Reads (env : CommitEnvironment) (t : TableIndex)
    (row : Option TableStatsRow) : Prop :=
  ∃ current, env.tableStats t = .ok current ∧ current.map (·.row) = row

/-- What a commit does to the data of a table. -/
inductive RowIdEvent where
  /-- Inserts, updates and flushes: the walk over the local changes. -/
  | write (env : CommitEnvironment) (x : TableIndex) (changes : LocalTableDataChanges)
    (acc : NewDataInfo) (start : CommitAttempt) (needsEncoding : Bool)
  /-- `ApplyShareSync`: the same walk over the files of another table, that keep their row ids. Of
  each file, the ids of the rows that the table has not had so far. -/
  | replicate (env : CommitEnvironment) (x : TableIndex) (changes : LocalTableDataChanges)
    (acc : NewDataInfo) (start : CommitAttempt) (newRows : DuckLakeDataFile → List Int)
  /-- Whole files are dropped. -/
  | drop (env : CommitEnvironment) (start : CommitAttempt)
  /-- Deletes are rewritten, in an attempt after the one that ran in `first`. -/
  | rewrite (side : CommitSide) (first : Option CommitEnvironment) (env : CommitEnvironment)
    (context : RewriteContext) (newFiles : List DuckLakeFileInfo) (removed : List DataFileIndex)

/-- A commit to the table `t`: what it emits is applied to the row. All of them read the row as it
stands, except that an attempt before the last one has read a row that the table had before. -/
inductive RowIdStep (t : TableIndex) : RowIdState → RowIdEvent → RowIdState → Prop where
  | write {σ : RowIdState} {env : CommitEnvironment} {x : TableIndex}
      {changes : LocalTableDataChanges} {acc result : NewDataInfo} {s s' : CommitAttempt}
      {emitted : List Statement} {needsEncoding : Bool}
      (reads : env.Reads t σ.row)
      (table : s.commitState.getTableId x = t)
      (known : ∀ file ∈ changes.newDataFiles, file.RowIdsKnown)
      (complete : ∀ data ∈ changes.newInlinedData, data.Complete)
      (run : Attempt.run (newTableData env acc (x, changes)) s = (.ok result, s'))
      (batch : s'.batchQueries = s.batchQueries ++ emitted) :
      RowIdStep t σ (.write env x changes acc s needsEncoding)
        (σ.next (emitted.foldl (Statement.updateTableStats t) σ.row)
          (assignedRowIds changes needsEncoding (result.newFiles.drop acc.newFiles.length)
            (result.newInlinedData.drop acc.newInlinedData.length)))
  | replicate {σ : RowIdState} {env : CommitEnvironment} {x : TableIndex}
      {changes : LocalTableDataChanges} {acc result : NewDataInfo} {s s' : CommitAttempt}
      {emitted : List Statement} {newRows : DuckLakeDataFile → List Int}
      (reads : env.Reads t σ.row)
      (table : s.commitState.getTableId x = t)
      (counted : ∀ file ∈ changes.newDataFiles, file.maxPartialFileSnapshot = none)
      (files : changes.newInlinedData = none)
      (run : Attempt.run (newTableData env acc (x, changes)) s = (.ok result, s'))
      (batch : s'.batchQueries = s.batchQueries ++ emitted) :
      RowIdStep t σ (.replicate env x changes acc s newRows)
        (σ.next (emitted.foldl (Statement.updateTableStats t) σ.row)
          (changes.newDataFiles.flatMap newRows))
  | drop {σ : RowIdState} {env : CommitEnvironment} {s s' : CommitAttempt}
      {emitted : List Statement}
      (reads : env.Reads t σ.row)
      (run : Attempt.run (updateDroppedTableStats env t) s = (.ok (), s'))
      (batch : s'.batchQueries = s.batchQueries ++ emitted) :
      RowIdStep t σ (.drop env s)
        (σ.next (emitted.foldl (Statement.updateTableStats t) σ.row) [])
  | rewrite {σ : RowIdState} {side : CommitSide} {first : Option CommitEnvironment}
      {env : CommitEnvironment} {context : RewriteContext} {newFiles : List DuckLakeFileInfo}
      {removed : List DataFileIndex} {stats : DuckLakeTableStats}
      (reads : env.Reads t σ.row)
      (earlier : ∀ e ∈ first, ∃ row ∈ σ.earlier ++ [σ.row], e.Reads t row)
      (current : (env.sees side first).rewriteReads.tableStats t = .ok context.currentStats)
      (recompute : recomputeGlobalStatsAfterRewrite context newFiles removed = some stats) :
      RowIdStep t σ (.rewrite side first env context newFiles removed)
        (σ.next (Statement.updateTableStats t σ.row (.globalTableStats t stats true)) [])

/-- The states that a table can get to from its creation on by commits that are allowed. -/
inductive RowIdReachable (Allowed : RowIdState → RowIdEvent → Prop) (t : TableIndex) :
    RowIdState → Prop where
  | created : RowIdReachable Allowed t {}
  | step {σ σ' : RowIdState} {e : RowIdEvent} : RowIdReachable Allowed t σ → Allowed σ e →
    RowIdStep t σ e σ' → RowIdReachable Allowed t σ'

/-- The rows that the table has not had bring ids that differ and that no row of the table has had,
in the spans of their files. -/
structure BringsNewIds (σ : RowIdState) (files : List DuckLakeDataFile)
    (newRows : DuckLakeDataFile → List Int) : Prop where
  distinct : (files.flatMap newRows).Nodup
  fresh : ∀ id ∈ files.flatMap newRows, id ∉ σ.assigned
  span : ∀ id ∈ files.flatMap newRows, 0 ≤ id ∧ InSpans σ.nextRowId files id

/-- A server does not retry to rewrite deletes once rows were inserted, and replicated rows bring
new ids. -/
def RowIdEvent.KeepsRowIds (t : TableIndex) (σ : RowIdState) : RowIdEvent → Prop
  | .write .. | .drop .. => True
  | .replicate _ _ changes _ _ newRows => BringsNewIds σ changes.newDataFiles newRows
  | .rewrite side first .. =>
    side = .server → ∀ e ∈ first, ∀ row, e.Reads t row → nextRowIdOf row = σ.nextRowId

/-! ### What a commit writes -/

open CommitM Attempt

omit [SQLWriter] in
theorem rowIdStarts_concat (stats : DuckLakeTableStats) (files : List DuckLakeDataFile)
    (file : DuckLakeDataFile) :
    rowIdStarts stats (files ++ [file]) = rowIdStarts stats files ++
      [file.flushRowIdStart.getD
        (files.foldl DuckLakeTableStats.mergeFileStats stats).nextRowId] := by
  induction files generalizing stats with
  | nil => rfl
  | cons first files ih => rw [List.cons_append, rowIdStarts, rowIdStarts, ih]; rfl

variable {t : TableIndex} {batch : List Statement}

omit [StatsMerge] in
theorem getNewDataFile_yields (file : DuckLakeDataFile) (rowIdStart : Option Nat) :
    Yields (fun s => s.batchQueries = batch) (getNewDataFile file t rowIdStart) fun info s =>
      s.batchQueries = batch ∧ info.rowIdStart = rowIdStart := by
  unfold getNewDataFile
  refine .bind (Q := fun _ s => s.batchQueries = batch) (.modifyGet fun s hs => hs) fun id => ?_
  refine .bind (Q := fun _ s => s.batchQueries = batch) ?_ fun state => ?_
  · intro s hs state s' hrun
    cases hrun
    exact hs
  refine .bind (Q := fun _ s => s.batchQueries = batch) (.ofExcept fun s a hs _ => hs) fun _ => ?_
  exact .pure fun s hs => ⟨hs, rfl⟩

/-- The loop over the files of a table. -/
theorem newDataFiles_yields (stats : DuckLakeTableStats) (files : List DuckLakeDataFile) :
    Yields (fun s => s.batchQueries = batch)
      (files.foldlM (newDataFileStep t) ({ stats := stats } : TableFiles)) fun acc s =>
        s.batchQueries = batch ∧
          acc.stats = files.foldl DuckLakeTableStats.mergeFileStats stats ∧
          acc.files.map (·.rowIdStart) = (rowIdStarts stats files).map some := by
  refine (Yields.foldlM (fun done acc s => s.batchQueries = batch ∧
    acc.stats = done.foldl DuckLakeTableStats.mergeFileStats stats ∧
    acc.files.map (·.rowIdStart) = (rowIdStarts stats done).map some) ?_).mono
      (fun s hs => ⟨hs, rfl, rfl⟩) fun _ _ h => h
  intro done file rest acc _ s hs
  obtain ⟨hbatch, hstats, hstarts⟩ := hs
  unfold newDataFileStep
  refine Yields.bind (P := fun s => s.batchQueries = batch) (getNewDataFile_yields file _)
    (fun info => .pure fun s hs => ?_) s hbatch
  refine ⟨hs.1, ?_, ?_⟩
  · rw [List.foldl_append, ← hstats]
    rfl
  · rw [List.map_append, hstarts, rowIdStarts_concat, List.map_append, ← hstats]
    simp [hs.2]

omit [SQLWriter] [StatsMerge] in
theorem nextRowId_dropFileStats {stats : DuckLakeTableStats} {dropped : DroppedDataFileStats}
    {applied : Bool × DuckLakeTableStats} (h : dropFileStats stats dropped = .ok applied) :
    applied.2.nextRowId = stats.nextRowId := by
  unfold dropFileStats at h
  cases hcount : subtractDroppedFileStat stats.recordCount dropped.rowCount with
  | error e =>
    rw [hcount] at h
    cases h
  | ok count =>
    rw [hcount] at h
    change (if 0 < count then _ else _) = _ at h
    split at h
    · cases hsize : subtractDroppedFileStat stats.tableSizeBytes dropped.fileSizeBytes with
      | error e =>
        rw [hsize] at h
        cases h
      | ok size =>
        rw [hsize] at h
        cases h
        rfl
    · cases h
      rfl

omit [StatsMerge] in
theorem applyDroppedFileStats_yields (stats : DuckLakeTableStats) :
    Yields (fun s => s.batchQueries = batch) (applyDroppedFileStats t stats) fun applied s =>
      s.batchQueries = batch ∧ applied.2.nextRowId = stats.nextRowId := by
  unfold applyDroppedFileStats
  refine .bind (Q := fun _ s => s.batchQueries = batch) (.get fun s hs => hs) fun u => ?_
  split
  · exact .pure fun s hs => ⟨hs, rfl⟩
  · refine .bind (Q := fun applied s => s.batchQueries = batch ∧
      applied.2.nextRowId = stats.nextRowId) (.ofExcept fun s a hs hr => ?_) fun applied => ?_
    · exact ⟨hs, nextRowId_dropFileStats hr⟩
    · refine .bind (Q := fun _ s => s.batchQueries = batch ∧
        applied.2.nextRowId = stats.nextRowId) (.modify fun s hs => hs) fun _ => ?_
      exact .pure fun s hs => hs

/-- The statements leave this next row id in the row of the table. -/
def LeavesNextRowId (t : TableIndex) (initialized : Bool) (nextRowId : Nat)
    (emitted : List Statement) : Prop :=
  ∀ row : Option TableStatsRow, row.isSome = initialized →
    ∃ new, emitted.foldl (Statement.updateTableStats t) row = some new ∧ new.nextRowId = nextRowId

omit [StatsMerge] in
theorem writeTableStats_yields (stats : DuckLakeTableStats) (initialized clear : Bool) :
    Yields (fun s => s.batchQueries = batch) (writeTableStats t stats initialized clear) fun _ s =>
      ∃ emitted, s.batchQueries = batch ++ emitted ∧
        LeavesNextRowId t initialized stats.nextRowId emitted := by
  have hrow : ∀ row : Option TableStatsRow, row.isSome = initialized →
      ∀ stats : DuckLakeTableStats,
        Statement.updateTableStats t row (.globalTableStats t stats initialized) =
          some stats.row := by
    intro row hrow stats
    cases initialized with
    | true =>
      obtain ⟨old, rfl⟩ := Option.isSome_iff_exists.1 hrow
      simp [Statement.updateTableStats]
    | false => simp [Statement.updateTableStats]
  intro s hs _ s' hrun
  cases clear with
  | true =>
    cases hrun
    refine ⟨[.globalTableStats t { stats with columnStats := [] } initialized,
      .deleteTableColumnStats t], ?_, fun row hsome => ⟨_, hrow row hsome _, rfl⟩⟩
    simp [← hs]
  | false =>
    cases hrun
    refine ⟨[.globalTableStats t stats initialized], ?_, fun row hsome => ⟨_, hrow row hsome _, rfl⟩⟩
    simp [← hs]

/-- The inlined rows of a table start from the next row id that the files have left. -/
theorem newInlinedRows_yields (changes : LocalTableDataChanges) (stats : DuckLakeTableStats) :
    Yields (fun s => s.batchQueries = batch) (newInlinedRows t changes stats) fun inlined s =>
      s.batchQueries = batch ∧
        inlined.1 = changes.newInlinedData.elim stats stats.mergeInlinedData ∧
        inlined.2 = changes.newInlinedData.toList.map fun data => ⟨t, stats.nextRowId, data⟩ := by
  unfold newInlinedRows
  cases changes.newInlinedData with
  | none => exact .pure fun s hs => ⟨hs, rfl, rfl⟩
  | some data =>
    refine .bind (Q := fun _ s => s.batchQueries = batch) ?_ fun _ => ?_
    · unfold runIf
      split
      · exact .modify fun s hs => hs
      · exact .pure fun s hs => hs
    · exact .pure fun s hs => ⟨hs, rfl, rfl⟩

/-- What the walk over the data of one table returns and emits. -/
structure TableDataWritten (t : TableIndex) (current : Option DuckLakeTableStats)
    (changes : LocalTableDataChanges) (acc result : NewDataInfo) (emitted : List Statement) :
    Prop where
  written : ∃ stats final : DuckLakeTableStats, ∃ files : List DuckLakeFileInfo,
    stats.nextRowId = (current.getD {}).nextRowId ∧
    result.newFiles = acc.newFiles ++ files ∧
    files.map (·.rowIdStart) = (rowIdStarts stats changes.newDataFiles).map some ∧
    final = changes.newDataFiles.foldl DuckLakeTableStats.mergeFileStats stats ∧
    result.newInlinedData = acc.newInlinedData ++
      changes.newInlinedData.toList.map (fun data => ⟨t, final.nextRowId, data⟩) ∧
    LeavesNextRowId t current.isSome
      (changes.newInlinedData.elim final final.mergeInlinedData).nextRowId emitted

theorem newTableData_yields {env : CommitEnvironment} {x : TableIndex}
    {changes : LocalTableDataChanges} {acc : NewDataInfo} {current : Option DuckLakeTableStats}
    (henv : env.tableStats t = .ok current) :
    Yields (fun s => s.batchQueries = batch ∧ s.commitState.getTableId x = t)
      (newTableData env acc (x, changes)) fun result s =>
        (changes.newDataFiles = [] ∧ changes.newInlinedData = none ∧ result = acc ∧
          s.batchQueries = batch) ∨
        ∃ emitted, s.batchQueries = batch ++ emitted ∧
          TableDataWritten t current changes acc result emitted := by
  unfold newTableData
  refine .bind (Q := fun id s => s.batchQueries = batch ∧ id = t) ?_ fun id => .pull fun hid => ?_
  · intro s hs id s' hrun
    cases hrun
    exact hs
  subst hid
  refine .bind (Q := fun _ s => s.batchQueries = batch) (.ofExcept fun s a hs _ => hs) fun _ => ?_
  refine .ite (fun hnone => ?_) fun _ => ?_
  · refine .pure fun s hs => .inl ?_
    obtain ⟨hfiles, hinlined⟩ := Bool.and_eq_true_iff.1 hnone
    exact ⟨List.isEmpty_iff.1 hfiles, Option.isNone_iff_eq_none.1 hinlined, rfl, hs⟩
  refine .bind (Q := fun read s => s.batchQueries = batch ∧ read = current)
    (.ofExcept fun s a hs hr => ⟨hs, ?_⟩) fun read => .pull fun hread => ?_
  · rw [henv] at hr
    cases hr
    rfl
  subst hread
  refine (applyDroppedFileStats_yields _).bind fun applied => .pull fun happlied => ?_
  refine (newDataFiles_yields applied.2 changes.newDataFiles).bind fun files => .pull fun hfiles => ?_
  obtain ⟨hstats, hstarts⟩ := hfiles
  refine .bind (Q := fun _ s => s.batchQueries = batch) (.modify fun s hs => hs) fun _ => ?_
  refine (newInlinedRows_yields changes files.stats).bind fun inlined => .pull fun hinlined => ?_
  obtain ⟨hfinal, hrows⟩ := hinlined
  refine (writeTableStats_yields inlined.1 _ _).bind fun _ => .pure fun s hs => .inr ?_
  obtain ⟨emitted, hbatch, hleaves⟩ := hs
  refine ⟨emitted, hbatch, ⟨applied.2, files.stats, files.files, happlied, rfl, hstarts, hstats, ?_,
    ?_⟩⟩
  · rw [hrows]
  · rw [hfinal] at hleaves
    exact hleaves

omit [StatsMerge] in
theorem updateDroppedTableStats_yields {env : CommitEnvironment}
    {current : Option DuckLakeTableStats} (henv : env.tableStats t = .ok current) :
    Yields (fun s => s.batchQueries = batch) (updateDroppedTableStats env t) fun _ s =>
      ∃ stats emitted, current = some stats ∧ s.batchQueries = batch ++ emitted ∧
        LeavesNextRowId t true stats.nextRowId emitted := by
  unfold updateDroppedTableStats
  refine .bind (Q := fun read s => s.batchQueries = batch ∧ read = current)
    (.ofExcept fun s a hs hr => ⟨hs, ?_⟩) fun read => .pull fun hread => ?_
  · rw [henv] at hr
    cases hr
    rfl
  subst hread
  cases read with
  | none => exact .ofExcept fun s a _ hr => nomatch hr
  | some stats =>
    refine (applyDroppedFileStats_yields _).bind fun applied => .pull fun happlied => ?_
    refine (writeTableStats_yields applied.2 true applied.1).mono (fun _ hs => hs) fun _ s hs => ?_
    obtain ⟨emitted, hbatch, hleaves⟩ := hs
    rw [happlied] at hleaves
    exact ⟨stats, emitted, rfl, hbatch, hleaves⟩

/-! ### Steps and runs -/

variable {σ σ' : RowIdState}

omit [SQLWriter] [StatsMerge] in
theorem nextRowId_of_row {current : Option DuckLakeTableStats} {row : Option TableStatsRow}
    (h : current.map (·.row) = row) :
    nextRowIdOf row = (current.getD {}).nextRowId ∧ row.isSome = current.isSome := by
  rw [nextRowIdOf, ← h]
  cases current <;> exact ⟨rfl, by simp⟩

/-- What the walk over the local changes leaves in the row, and the ids that it gives out. -/
theorem newTableData_nextRowId {env : CommitEnvironment} {x : TableIndex}
    {changes : LocalTableDataChanges} {acc result : NewDataInfo} {s s' : CommitAttempt}
    {emitted : List Statement} (hreads : env.Reads t σ.row)
    (htable : s.commitState.getTableId x = t)
    (hrun : Attempt.run (newTableData env acc (x, changes)) s = (.ok result, s'))
    (hbatch : s'.batchQueries = s.batchQueries ++ emitted) (needsEncoding : Bool) :
    ∃ stats : DuckLakeTableStats, stats.nextRowId = σ.nextRowId ∧
      nextRowIdOf (emitted.foldl (Statement.updateTableStats t) σ.row) =
        (changes.newInlinedData.elim (changes.newDataFiles.foldl DuckLakeTableStats.mergeFileStats
          stats) (changes.newDataFiles.foldl DuckLakeTableStats.mergeFileStats
            stats).mergeInlinedData).nextRowId ∧
      assignedRowIds changes needsEncoding (result.newFiles.drop acc.newFiles.length)
          (result.newInlinedData.drop acc.newInlinedData.length) =
        ((changes.newDataFiles.zip (rowIdStarts stats changes.newDataFiles)).flatMap fun file =>
          insertedRowIds file.1 (some file.2)) ++
        changes.newInlinedData.toList.flatMap fun data => insertedInline needsEncoding
          (changes.newDataFiles.foldl DuckLakeTableStats.mergeFileStats stats).nextRowId data := by
  obtain ⟨current, henv, hcurrent⟩ := hreads
  obtain ⟨hnext, hsome⟩ := nextRowId_of_row hcurrent
  rcases newTableData_yields henv s ⟨rfl, htable⟩ result s' hrun with hnone | hwritten
  · obtain ⟨hfiles, hinlined, rfl, hsame⟩ := hnone
    obtain rfl : emitted = [] := List.append_cancel_left (hbatch.symm.trans (by simp [hsame]))
    refine ⟨current.getD {}, hnext.symm, ?_, ?_⟩
    · rw [hfiles, hinlined]
      exact hnext
    · simp [assignedRowIds, hfiles, hinlined]
  · obtain ⟨emitted', hbatch', ⟨stats, final, files, hstart, hfiles, hstarts, rfl, hinlined,
      hleaves⟩⟩ := hwritten
    obtain rfl : emitted' = emitted := List.append_cancel_left (hbatch'.symm.trans hbatch)
    obtain ⟨new, hnew, hnewId⟩ := hleaves σ.row hsome
    refine ⟨stats, hstart.trans hnext.symm, ?_, ?_⟩
    · rw [hnew]
      exact hnewId
    · have hzip : ((changes.newDataFiles.zip files).flatMap fun file =>
          insertedRowIds file.1 file.2.rowIdStart) =
          (changes.newDataFiles.zip (rowIdStarts stats changes.newDataFiles)).flatMap fun file =>
            insertedRowIds file.1 (some file.2) := by
        have hmap := congrArg (fun starts => (changes.newDataFiles.zip starts).flatMap
          fun file => insertedRowIds file.1 file.2) hstarts
        simpa [List.zip_map_right, List.flatMap_map] using hmap
      rw [assignedRowIds, hfiles, hinlined, List.drop_left, List.drop_left, hzip, List.flatMap_map]

/-- A commit that writes rows gives them new ids. -/
theorem RowIdStep.givenOut_write {env : CommitEnvironment} {x : TableIndex}
    {changes : LocalTableDataChanges} {acc : NewDataInfo} {s : CommitAttempt}
    {needsEncoding : Bool} (h : RowIdStep t σ (.write env x changes acc s needsEncoding) σ') :
    ∃ ids, σ'.assigned = σ.assigned ++ ids ∧ GivenOut σ.nextRowId σ'.nextRowId ids := by
  cases h with
  | write reads table known complete run batch =>
    obtain ⟨stats, hstart, hnext, hids⟩ :=
      newTableData_nextRowId reads table run batch needsEncoding
    refine ⟨_, rfl, ?_⟩
    rw [RowIdState.nextRowId_next, hnext, hids, ← hstart]
    refine .append (givenOut_files known stats) ?_
    cases hdata : changes.newInlinedData with
    | none => exact .nil (le_refl _)
    | some data => simpa using givenOut_inline needsEncoding _ (complete data hdata)

/-- Replicated files give the ids that they bring along, and take the next row id beyond them. -/
theorem RowIdStep.nextRowId_replicate {env : CommitEnvironment} {x : TableIndex}
    {changes : LocalTableDataChanges} {acc : NewDataInfo} {s : CommitAttempt}
    {newRows : DuckLakeDataFile → List Int}
    (h : RowIdStep t σ (.replicate env x changes acc s newRows) σ') :
    σ'.assigned = σ.assigned ++ changes.newDataFiles.flatMap newRows ∧
      ∀ id : Int, id < σ'.nextRowId ↔ InSpans σ.nextRowId changes.newDataFiles id := by
  cases h with
  | replicate reads table counted files run batch =>
    obtain ⟨stats, hstart, hnext, -⟩ := newTableData_nextRowId reads table run batch false
    refine ⟨rfl, fun id => ?_⟩
    rw [files] at hnext
    rw [RowIdState.nextRowId_next, hnext, ← hstart]
    exact DuckLakeTableStats.lt_nextRowId_iff_inSpans counted stats id

theorem RowIdStep.nextRowId_drop {env : CommitEnvironment} {s : CommitAttempt}
    (h : RowIdStep t σ (.drop env s) σ') :
    σ'.assigned = σ.assigned ∧ σ'.nextRowId = σ.nextRowId := by
  generalize he : RowIdEvent.drop env s = e at h
  cases h with
  | write | replicate | rewrite => cases he
  | @drop env' s₁ s' emitted reads run batch =>
    obtain ⟨current, henv, hcurrent⟩ := reads
    obtain ⟨stats, emitted', rfl, hbatch, hleaves⟩ :=
      updateDroppedTableStats_yields henv s₁ rfl () s' run
    obtain rfl : emitted' = emitted := List.append_cancel_left (hbatch.symm.trans batch)
    obtain ⟨hnext, hsome⟩ := nextRowId_of_row hcurrent
    obtain ⟨new, hnew, hnewId⟩ := hleaves σ.row hsome
    refine ⟨List.append_nil _, ?_⟩
    rw [RowIdState.nextRowId_next, hnew, RowIdState.nextRowId, hnext]
    exact hnewId

omit [SQLWriter] [StatsMerge] in
theorem CommitEnvironment.Reads.unique {env : CommitEnvironment} {row row' : Option TableStatsRow}
    (h : env.Reads t row) (h' : env.Reads t row') : row = row' := by
  obtain ⟨current, henv, rfl⟩ := h
  obtain ⟨current', henv', rfl⟩ := h'
  obtain rfl : current = current' := Except.ok.inj (henv.symm.trans henv')
  rfl

omit [StatsMerge] in
/-- On a server, a rewrite that is retried reads what the first attempt has read. -/
theorem RowIdEvent.keepsRowIds_rewrite_iff {side : CommitSide} {first : Option CommitEnvironment}
    {env : CommitEnvironment} {context : RewriteContext} (newFiles : List DuckLakeFileInfo)
    (removed : List DataFileIndex) (hreads : env.Reads t σ.row)
    (hearlier : ∀ e ∈ first, ∃ row ∈ σ.earlier ++ [σ.row], e.Reads t row)
    (hcurrent : (env.sees side first).rewriteReads.tableStats t = .ok context.currentStats) :
    ∃ row ∈ σ.earlier ++ [σ.row], context.currentStats.map (·.row) = row ∧
      (KeepsRowIds t σ (.rewrite side first env context newFiles removed) ↔
        nextRowIdOf row = σ.nextRowId) := by
  have hlast : σ.row ∈ σ.earlier ++ [σ.row] := List.mem_append_right _ List.mem_cons_self
  cases side with
  | client =>
    have hrow := hreads.unique ⟨_, hcurrent, rfl⟩
    exact ⟨σ.row, hlast, hrow.symm, by simp [KeepsRowIds, RowIdState.nextRowId]⟩
  | server =>
    cases first with
    | none =>
      have hrow := hreads.unique ⟨_, hcurrent, rfl⟩
      exact ⟨σ.row, hlast, hrow.symm, by simp [KeepsRowIds, RowIdState.nextRowId]⟩
    | some first =>
      obtain ⟨row, hmem, hfirst⟩ := hearlier first rfl
      refine ⟨row, hmem, (hfirst.unique ⟨_, hcurrent, rfl⟩).symm, ?_⟩
      constructor
      · exact fun h => h rfl first rfl row hfirst
      · intro h _ e he row' hrow'
        cases he
        rw [← hfirst.unique hrow', h]

/-- A rewrite leaves the next row id that it has read. -/
theorem RowIdStep.nextRowId_rewrite {side : CommitSide} {first : Option CommitEnvironment}
    {env : CommitEnvironment} {context : RewriteContext} {newFiles : List DuckLakeFileInfo}
    {removed : List DataFileIndex} (hle : ∀ row ∈ σ.earlier, nextRowIdOf row ≤ σ.nextRowId)
    (h : RowIdStep t σ (.rewrite side first env context newFiles removed) σ') :
    σ'.assigned = σ.assigned ∧ σ'.nextRowId ≤ σ.nextRowId ∧
      (RowIdEvent.KeepsRowIds t σ (.rewrite side first env context newFiles removed) ↔
        σ'.nextRowId = σ.nextRowId) := by
  generalize he : RowIdEvent.rewrite side first env context newFiles removed = e at h
  cases h with
  | write | replicate | drop => cases he
  | @rewrite _ _ _ _ _ _ stats reads earlier current recompute =>
    cases he
    obtain ⟨row, hmem, hread, hkeeps⟩ :=
      RowIdEvent.keepsRowIds_rewrite_iff newFiles removed reads earlier current
    have hrow : nextRowIdOf row ≤ σ.nextRowId := by
      rcases List.mem_append.1 hmem with hmem | hmem
      · exact hle row hmem
      · exact (List.mem_singleton.1 hmem ▸ le_refl _)
    have hnext : nextRowIdOf (Statement.updateTableStats t σ.row (.globalTableStats t stats true)) =
        nextRowIdOf row := by
      obtain ⟨read, hcurrent, hsame⟩ := nextRowId_recompute recompute
      cases hσ : σ.row with
      | none =>
        -- the row was never there
        rw [RowIdState.nextRowId, hσ] at hrow
        simpa [Statement.updateTableStats, nextRowIdOf] using (Nat.le_zero.1 hrow).symm
      | some old =>
        rw [← hread, hcurrent]
        simpa [Statement.updateTableStats, nextRowIdOf, DuckLakeTableStats.row] using hsame
    refine ⟨List.append_nil _, ?_, ?_⟩
    · rw [RowIdState.nextRowId_next, hnext]
      exact hrow
    · rw [hkeeps, RowIdState.nextRowId_next, hnext]

/-- The ids that were given out are below the next row id, which the table had reached by steps. -/
structure RowIdState.Ordered (σ : RowIdState) : Prop where
  assigned : GivenOut 0 σ.nextRowId σ.assigned
  earlier : ∀ row ∈ σ.earlier, nextRowIdOf row ≤ σ.nextRowId

/-- Replicated files keep the row ids of the table exactly if they bring new ones. -/
theorem RowIdStep.bringsNewIds_iff (hσ : σ.Ordered) {env : CommitEnvironment} {x : TableIndex}
    {changes : LocalTableDataChanges} {acc : NewDataInfo} {s : CommitAttempt}
    {newRows : DuckLakeDataFile → List Int}
    (h : RowIdStep t σ (.replicate env x changes acc s newRows) σ') :
    BringsNewIds σ changes.newDataFiles newRows ↔
      σ.nextRowId ≤ σ'.nextRowId ∧ GivenOut 0 σ'.nextRowId σ'.assigned := by
  obtain ⟨hassigned, hspan⟩ := h.nextRowId_replicate
  have hle : σ.nextRowId ≤ σ'.nextRowId := by
    by_contra hlt
    have hbelow := (hspan σ'.nextRowId).2 (.inl (by omega))
    omega
  rw [hassigned]
  constructor
  · intro hnew
    refine ⟨hle, Nat.zero_le _, List.nodup_append.2 ⟨hσ.assigned.distinct, hnew.distinct, ?_⟩, ?_⟩
    · rintro a ha b hb rfl
      exact hnew.fresh a hb ha
    · intro id hid
      rcases List.mem_append.1 hid with hid | hid
      · have hrange := hσ.assigned.range id hid
        omega
      · exact ⟨(hnew.span id hid).1, (hspan id).2 (hnew.span id hid).2⟩
  · rintro ⟨-, -, hdistinct, hrange⟩
    obtain ⟨-, hnodup, hdisjoint⟩ := List.nodup_append.1 hdistinct
    refine ⟨hnodup, fun id hid hold => hdisjoint id hold id hid rfl, fun id hid => ?_⟩
    have hid := hrange id (List.mem_append_right _ hid)
    exact ⟨hid.1, (hspan id).1 hid.2⟩

/-- A commit keeps the row ids of the table exactly under the condition. -/
theorem RowIdStep.keepsRowIds_iff {e : RowIdEvent} (hσ : σ.Ordered) (h : RowIdStep t σ e σ') :
    e.KeepsRowIds t σ ↔ σ.nextRowId ≤ σ'.nextRowId ∧ GivenOut 0 σ'.nextRowId σ'.assigned := by
  cases e with
  | write =>
    obtain ⟨ids, hassigned, hids⟩ := h.givenOut_write
    rw [hassigned]
    exact iff_of_true trivial ⟨hids.le, hσ.assigned.append hids⟩
  | replicate => exact h.bringsNewIds_iff hσ
  | drop =>
    obtain ⟨hassigned, hnext⟩ := h.nextRowId_drop
    rw [hassigned, hnext]
    exact iff_of_true trivial ⟨le_refl _, hσ.assigned⟩
  | rewrite =>
    obtain ⟨hassigned, hle, hkeeps⟩ := h.nextRowId_rewrite hσ.earlier
    rw [hassigned, hkeeps]
    constructor
    · intro hnext
      rw [hnext]
      exact ⟨le_refl _, hσ.assigned⟩
    · exact fun hkept => le_antisymm hle hkept.1

theorem RowIdStep.extended {e : RowIdEvent} (h : RowIdStep t σ e σ') :
    σ'.earlier = σ.earlier ++ [σ.row] ∧ ∃ new, σ'.assigned = σ.assigned ++ new := by
  cases h <;> exact ⟨rfl, _, rfl⟩

theorem RowIdReachable.ordered (h : RowIdReachable (RowIdEvent.KeepsRowIds t) t σ) :
    σ.Ordered := by
  induction h with
  | created => exact ⟨.nil (le_refl _), by simp⟩
  | step _ hkeeps hstep ih =>
    obtain ⟨hle, hassigned⟩ := (hstep.keepsRowIds_iff ih).1 hkeeps
    refine ⟨hassigned, fun row hrow => ?_⟩
    rw [hstep.extended.1] at hrow
    rcases List.mem_append.1 hrow with hrow | hrow
    · exact (ih.earlier row hrow).trans hle
    · rw [List.mem_singleton.1 hrow]
      exact hle

/-- Row ids are never reused, whatever is committed to a table, as long as no server retries to
rewrite deletes once rows were inserted and replicated rows bring new ids: the ids of new rows
differ from each other and from all ids that were assigned before, they are below the next row id,
and the next row id never decreases. The first commit that does not meet the condition breaks
this. -/
theorem rowIds_neverReused (h : RowIdReachable (RowIdEvent.KeepsRowIds t) t σ) :
    σ.assigned.Nodup ∧ (∀ id ∈ σ.assigned, 0 ≤ id ∧ id < σ.nextRowId) ∧
      ∀ e σ', RowIdStep t σ e σ' → (∃ new, σ'.assigned = σ.assigned ++ new) ∧
        (e.KeepsRowIds t σ ↔ σ.nextRowId ≤ σ'.nextRowId ∧ σ'.assigned.Nodup ∧
          ∀ id ∈ σ'.assigned, 0 ≤ id ∧ id < σ'.nextRowId) := by
  have hσ := h.ordered
  refine ⟨hσ.assigned.distinct, hσ.assigned.range, fun e σ' hstep => ⟨hstep.extended.2, ?_⟩⟩
  rw [hstep.keepsRowIds_iff hσ]
  exact and_congr_right fun _ =>
    ⟨fun hids => ⟨hids.distinct, hids.range⟩, fun hids => ⟨Nat.zero_le _, hids.1, hids.2⟩⟩

end Commit

section Example

attribute [local instance] SQLWriter.reference textualStats

/-- Three rows in a file, and two inlined rows of which one is the new version of row 7. -/
def fileAndInlined : LocalTableDataChanges where
  newDataFiles := [{ fileName := "new.parquet", rowCount := 3, fileSizeBytes := 100 }]
  newInlinedData := some { rows := ["1", "2"], rowIds := [7, transactionLocalRowIdStart] }

def rowIdsStart : CommitAttempt where
  commitSnapshot := ⟨4, 1, 10, 5⟩
  changes := {}
  droppedFileStats := []

/-- The rows of the file get the ids 0, 1, 2 and the inserted inlined row gets 3. -/
theorem rowIds_neverReused_fileAndInlined :
    ∃ σ, RowIdReachable (RowIdEvent.KeepsRowIds 1) 1 σ ∧ σ.assigned = [0, 1, 2, 3] ∧
      σ.nextRowId = 4 ∧ σ.assigned.Nodup ∧ ∀ id ∈ σ.assigned, 0 ≤ id ∧ id < σ.nextRowId := by
  have hstep := @RowIdStep.write _ _ 1 {} (emptyCatalog 3 10) 1 fileAndInlined {} _
    rowIdsStart _ _ false ⟨none, rfl, rfl⟩ rfl
    (by simp [fileAndInlined, DuckLakeDataFile.RowIdsKnown])
    (by simp [fileAndInlined, DuckLakeInlinedData.Complete]) rfl (List.nil_append _).symm
  have hcreated : RowIdReachable (RowIdEvent.KeepsRowIds 1) 1 {} := .created
  have hreach := hcreated.step (by trivial) hstep
  obtain ⟨hdistinct, hrange, -⟩ := rowIds_neverReused hreach
  exact ⟨_, hreach, by decide +kernel, by decide +kernel, hdistinct, hrange⟩

/-- Rows in a new file. -/
def inserts (rowCount : Nat) : LocalTableDataChanges where
  newDataFiles := [{ fileName := "new.parquet", rowCount := rowCount, fileSizeBytes := 100 }]

def catalogAt (snapshotId : SnapshotId) (stats : DuckLakeTableStats) : CommitEnvironment :=
  { emptyCatalog snapshotId 10 with tableStats := fun _ => .ok (some stats) }

def threeRows : DuckLakeTableStats where
  recordCount := 3
  nextRowId := 3
  tableSizeBytes := 100

def fiveRows : DuckLakeTableStats where
  recordCount := 5
  nextRowId := 5
  tableSizeBytes := 200

/-- The only file of three rows, of which one was deleted, is rewritten. -/
def rewriteThree : RewriteContext where
  columns := [⟨1, .bigint, true⟩]
  currentStats := some threeRows
  fileRows := []
  netDataFileRowCount := 2
  netInlinedRowCount := 0
  inlinedTables := []
  skippedStatsFields := []

def rewrittenThree : DuckLakeFileInfo :=
  buildDataFileInfo { fileName := "rewritten.parquet", rowCount := 2, fileSizeBytes := 80 } 2 1 none

def twoRows : DuckLakeTableStats where
  recordCount := 2
  nextRowId := 3
  tableSizeBytes := 80

/-- Two rows are inserted before a server retries to rewrite the deletes of the table: it takes the
next row id back, and the next rows get the same ids again. -/
theorem not_rowIds_neverReused_serverRewrite :
    ¬ ∀ σ, RowIdReachable (fun _ _ => True) 1 σ →
      σ.assigned.Nodup ∧ ∀ e σ', RowIdStep 1 σ e σ' → σ.nextRowId ≤ σ'.nextRowId := by
  have hknown : ∀ count, ∀ file ∈ (inserts count).newDataFiles, file.RowIdsKnown := by
    simp [inserts, DuckLakeDataFile.RowIdsKnown]
  have hcomplete : ∀ count, ∀ data ∈ (inserts count).newInlinedData, data.Complete := by
    simp [inserts]
  have hcreated : RowIdReachable (fun _ _ => True) 1 {} := .created
  have hfirst := hcreated.step trivial (@RowIdStep.write _ _ 1 _ (emptyCatalog 3 10) 1
    (inserts 3) {} _ rowIdsStart _ _ false ⟨none, rfl, rfl⟩ rfl (hknown 3) (hcomplete 3) rfl
    (List.nil_append _).symm)
  have hsecond := hfirst.step trivial (@RowIdStep.write _ _ 1 _ (catalogAt 4 threeRows) 1
    (inserts 2) {} _ rowIdsStart _ _ false ⟨some threeRows, rfl, rfl⟩ rfl (hknown 2) (hcomplete 2)
    rfl (List.nil_append _).symm)
  have hrewrite := hsecond.step trivial (@RowIdStep.rewrite _ _ 1 _ .server
    (some (catalogAt 4 threeRows)) (catalogAt 5 fiveRows) rewriteThree [rewrittenThree] [1] _
    ⟨some fiveRows, rfl, rfl⟩
    (fun e he => ⟨some threeRows.row, .tail _ (.head _), by
      cases he
      exact ⟨some threeRows, rfl, rfl⟩⟩) rfl rfl)
  have hthird := hrewrite.step trivial (@RowIdStep.write _ _ 1 _ (catalogAt 6 twoRows) 1
    (inserts 2) {} _ rowIdsStart _ _ false ⟨some twoRows, rfl, rfl⟩ rfl (hknown 2) (hcomplete 2)
    rfl (List.nil_append _).symm)
  intro h
  exact absurd (h _ hthird).1 (by decide +kernel)

end Example

end DuckLake
