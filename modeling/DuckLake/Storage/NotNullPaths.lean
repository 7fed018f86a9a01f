import DuckLake.Common.StatsOrder
import DuckLake.Storage.NotNullStatistics

/-!
# The rows that the write paths accept

The file path looks for NULLs in the statistics under paths of a single name. The writer reports no
such path for a column with fields or for a variant, and the statistics of a column whose name is
that of an internal column are passed over. The inlined path only leaves out columns with fields.
-/

namespace DuckLake

section Paths

variable [WriteStatistics]

/-! ## Statistics that violate a constraint -/

/-- The statistics say that a NOT NULL column has NULLs. -/
structure ReportsForbidden (fields : List DuckLakeFieldId) (notNull : CISet)
    (entry : Text × List (Text × Text)) (name : Text) (field : DuckLakeFieldId)
    (stats : DuckLakeColumnStats) : Prop where
  path : parseQuotedList entry.1 '.' = .ok [name]
  notInternal : isInternalColumn name = false
  found : getFieldId fields [name] = .ok (field, none)
  read : parseColumnStats field.type.typeId entry.2 = .ok stats
  nulls : 0 < stats.nullCount
  notNull : notNull.contains name = true

variable {fields : List DuckLakeFieldId} {skipped : List FieldIndex} {table : DuckLakeTableEntry}
  {name : Text} {notNull : CISet} {acc : FileStats} {entry : Text × List (Text × Text)}

/-- Statistics of a path that leads to a column. -/
theorem addFileStats_of_path {names : List Text} {field : DuckLakeFieldId} {offset : Option Nat}
    (hpath : parseQuotedList entry.1 '.' = .ok names)
    (hinternal : isInternalColumn (names.headD []) = false)
    (hfield : getFieldId fields names = .ok (field, offset)) :
    addFileStats fields skipped table.name notNull acc entry = match offset with
      | some offset => addVariantStats names field offset entry.2 acc
      | none => addColumnStats skipped table.name notNull names field entry.2 acc := by
  rw [addFileStats, hpath]
  simp only [bind, Except.bind, hinternal, Bool.false_eq_true, if_false, hfield]
  cases offset <;> rfl

theorem addFileStats_of_forbidden {field : DuckLakeFieldId} {stats : DuckLakeColumnStats}
    (h : ReportsForbidden fields notNull entry name field stats) (result : FileStats) :
    addFileStats fields skipped table.name notNull acc entry ≠ .ok result := by
  intro hok
  rw [addFileStats_of_path h.path h.notInternal h.found] at hok
  have hrejects : addColumnStats skipped table.name notNull [name] field entry.2 acc =
      notNullFailed table.name name := by
    rw [addColumnStats, h.read]
    exact if_pos ⟨h.nulls, rfl, h.notNull⟩
  exact nomatch hrejects.symm.trans hok

/-- Without such statistics, the constraints play no part. -/
theorem addColumnStats_congr {names : List Text} {field : DuckLakeFieldId}
    {colStats : List (Text × Text)}
    (h : ∀ stats, parseColumnStats field.type.typeId colStats = .ok stats → 0 < stats.nullCount →
      ∀ name, names = [name] → notNull.contains name = false) :
    addColumnStats skipped table.name notNull names field colStats acc =
      addColumnStats skipped table.name ∅ names field colStats acc := by
  unfold addColumnStats
  cases hstats : parseColumnStats field.type.typeId colStats with
  | error e => rfl
  | ok stats =>
    have hkept : ¬ (0 < stats.nullCount ∧ names.length = 1 ∧
        notNull.contains (names.headD []) = true) := by
      intro hrejected
      obtain ⟨hpos, hlength, hcontains⟩ := hrejected
      obtain ⟨name, rfl⟩ := List.length_eq_one_iff.1 hlength
      rw [List.headD_cons, h stats hstats hpos name rfl] at hcontains
      cases hcontains
    have hempty : ¬ (0 < stats.nullCount ∧ names.length = 1 ∧
        (∅ : CISet).contains (names.headD []) = true) := fun hrejected => nomatch hrejected.2.2
    dsimp only
    rw [if_neg hkept, if_neg hempty]

theorem addFileStats_congr
    (h : ∀ name field stats, ¬ ReportsForbidden fields notNull entry name field stats) :
    addFileStats fields skipped table.name notNull acc entry =
      addFileStats fields skipped table.name ∅ acc entry := by
  cases hpath : parseQuotedList entry.1 '.' with
  | error e => rw [addFileStats, addFileStats, hpath]; rfl
  | ok names =>
    cases hinternal : isInternalColumn (names.headD []) with
    | true =>
      rw [addFileStats, addFileStats, hpath]
      simp only [bind, Except.bind, hinternal, if_true]
    | false =>
      cases hfield : getFieldId fields names with
      | error e =>
        rw [addFileStats, addFileStats, hpath]
        simp only [bind, Except.bind, hinternal, Bool.false_eq_true, if_false, hfield]
      | ok found =>
        obtain ⟨field, offset⟩ := found
        rw [addFileStats_of_path hpath hinternal hfield,
          addFileStats_of_path hpath hinternal hfield]
        cases offset with
        | some offset => rfl
        | none =>
          refine addColumnStats_congr fun stats hstats hpos name hname => ?_
          subst hname
          by_contra hcontains
          exact h name field stats ⟨hpath, hinternal, hfield, hstats, hpos,
            Bool.not_eq_false _ ▸ hcontains⟩

/-! ## The file path -/

/-- The statistics of the file can be read. -/
def ReadsStatistics (table : DuckLakeTableEntry) (skipped : List FieldIndex)
    (file : WrittenDataFile) : Prop :=
  ∃ stats, file.columnStats.foldlM (addFileStats table.getFieldIds skipped table.name ∅) {} =
    .ok stats

theorem addWrittenFile_ok_iff {partitionId : Option Idx} {file : WrittenDataFile} :
    (∃ dataFile, addWrittenFile table skipped partitionId file = .ok dataFile) ↔
      (∀ entry ∈ file.columnStats, ¬ ∃ name field stats,
        ReportsForbidden table.getFieldIds table.getNotNullFields entry name field stats) ∧
      ReadsStatistics table skipped file := by
  have hread : (∃ dataFile, addWrittenFile table skipped partitionId file = .ok dataFile) ↔
      ∃ stats, file.columnStats.foldlM
        (addFileStats table.getFieldIds skipped table.name table.getNotNullFields) {} =
          .ok stats := by
    simp only [addWrittenFile, bind_eq_ok]
    constructor
    · rintro ⟨-, stats, hstats, -⟩
      exact ⟨stats, hstats⟩
    · rintro ⟨stats, hstats⟩
      exact ⟨_, stats, hstats, rfl⟩
  rw [hread, ReadsStatistics, ← exists_and_left]
  refine exists_congr fun stats => foldlM_reject_eq_ok ?_ ?_
  · rintro acc entry ⟨name, field, forbidden, h⟩ result
    exact addFileStats_of_forbidden h result
  · intro acc entry h
    exact addFileStats_congr fun name field forbidden hforbidden =>
      h ⟨name, field, forbidden, hforbidden⟩

/-! ## What the writer reports -/

omit [WriteStatistics] in
/-- A column with a field that is not a variant is found under its name. -/
theorem getFieldId_single_iff {field : DuckLakeFieldId} :
    getFieldId fields [name] = .ok (field, none) ↔
      (fields.find? fun field => field.name.ciEquals name) = some field ∧
        field.isVariant = false := by
  rw [getFieldId]
  cases hroot : fields.find? (·.name.ciEquals name) with
  | none => simp
  | some root =>
    cases hvariant : root.isVariant with
    | true =>
      simp only [Option.bind_some, getByNames, hvariant, if_true]
      refine ⟨fun h => ?_, fun h => ?_⟩
      · cases h
      · obtain ⟨rfl, hnot⟩ := And.imp_left Option.some.inj h
        exact absurd (hvariant.symm.trans hnot) Bool.noConfusion
    | false =>
      simp only [Option.bind_some, getByNames, hvariant, Bool.false_eq_true, if_false]
      refine ⟨fun h => ?_, fun h => ?_⟩
      · cases h
        exact ⟨rfl, hvariant⟩
      · obtain ⟨rfl, -⟩ := And.imp_left Option.some.inj h
        rfl

omit [WriteStatistics] in
/-- No other column is found under the name of a column. -/
theorem find?_getFieldIds (hvalid : ValidFields table.getFieldIds) {i : ℕ} {column : TableColumn}
    (hi : table.columns[i]? = some column) :
    table.getFieldIds.find? (·.name.ciEquals column.field.name) = some column.field := by
  have hi' : table.getFieldIds[i]? = some column.field := by
    rw [table.getElem?_getFieldIds, hi]
    rfl
  cases hroot : table.getFieldIds.find? (·.name.ciEquals column.field.name) with
  | none =>
    have hother := List.find?_eq_none.1 hroot column.field (List.mem_of_getElem? hi')
    exact absurd (Text.ciEquals_refl column.field.name) hother
  | some root =>
    obtain ⟨j, hj⟩ := List.getElem?_of_mem (List.mem_of_find?_eq_some hroot)
    have hfound := List.find?_some hroot
    have hsame := Text.ciEquals_iff.1 hfound
    obtain rfl := hvalid.eq_of_fold_name hj hi' hsame
    exact hj.symm.trans hi'

/-- What the writer of files reports about the rows of a file: a column without fields, unless it is
a variant, has a path of its name alone, with the number of its NULLs. Other columns have no path of
a single name. -/
structure ReportsNulls (table : DuckLakeTableEntry) (rows : List Row) (file : WrittenDataFile) :
    Prop where
  reported : ∀ column ∈ table.columns, column.field.type.isNested = false →
    column.field.isVariant = false →
    ∃ entry ∈ file.columnStats, parseQuotedList entry.1 '.' = .ok [column.field.name]
  counted : ∀ i column, table.columns[i]? = some column → ∀ entry ∈ file.columnStats, ∀ name,
    parseQuotedList entry.1 '.' = .ok [name] → name.fold = column.field.name.fold →
    name = column.field.name ∧ column.field.type.isNested = false ∧
      ∃ stats, parseColumnStats column.field.type.typeId entry.2 = .ok stats ∧
        ExactNulls stats (nullCount (columnVector i rows))

/-- The columns in whose statistics the file path finds NULLs. -/
def TrackedInFiles (field : DuckLakeFieldId) : Prop :=
  field.type.isNested = false ∧ field.isVariant = false ∧ isInternalColumn field.name = false

/-- No column with a constraint of those that are looked at has a NULL. -/
def ForbidsNulls (table : DuckLakeTableEntry) (Tracked : DuckLakeFieldId → Prop)
    (rows : List Row) : Prop :=
  ∀ i column, table.columns[i]? = some column → column.notNull = true → Tracked column.field →
    nullCount (columnVector i rows) = 0

theorem noneForbidden_iff (hvalid : ValidFields table.getFieldIds) {rows : List Row}
    {file : WrittenDataFile} (hreports : ReportsNulls table rows file) :
    (∀ entry ∈ file.columnStats, ¬ ∃ name field stats,
        ReportsForbidden table.getFieldIds table.getNotNullFields entry name field stats) ↔
      ForbidsNulls table TrackedInFiles rows := by
  constructor
  · intro hnone i column hi hnotNull htracked
    obtain ⟨hbase, hvariant, hinternal⟩ := htracked
    have hmem := List.mem_of_getElem? hi
    obtain ⟨entry, hentry, hpath⟩ := hreports.reported column hmem hbase hvariant
    obtain ⟨-, -, stats, hstats, hcount⟩ := hreports.counted i column hi entry hentry _ hpath rfl
    by_contra hnulls
    refine hnone entry hentry ⟨column.field.name, column.field, stats, hpath, hinternal, ?_,
      hstats, hcount.count.symm ▸ Nat.pos_of_ne_zero hnulls, (notNull_of_contains hvalid hi).2 hnotNull⟩
    exact getFieldId_single_iff.2 ⟨find?_getFieldIds hvalid hi, hvariant⟩
  · rintro hforbids entry hentry ⟨name, field, stats, h⟩
    obtain ⟨hroot, hvariant⟩ := getFieldId_single_iff.1 h.found
    have hfound := List.find?_some hroot
    have hsame := Text.ciEquals_iff.1 hfound
    obtain ⟨i, hi⟩ := List.getElem?_of_mem (List.mem_of_find?_eq_some hroot)
    rw [table.getElem?_getFieldIds] at hi
    obtain ⟨column, hcolumn, rfl⟩ := Option.map_eq_some_iff.1 hi
    obtain ⟨hname, hbase, stats', hstats', hcount⟩ :=
      hreports.counted i column hcolumn entry hentry name h.path hsame.symm
    have hnotNull := (notNull_of_contains hvalid hcolumn).1 (hname ▸ h.notNull)
    have hzero := hforbids i column hcolumn hnotNull ⟨hbase, hvariant, hname ▸ h.notInternal⟩
    cases hstats'.symm.trans h.read
    exact absurd (hcount.count.trans hzero) (Nat.ne_of_gt h.nulls)

/-! ## Rows in several files -/

omit [WriteStatistics] in
theorem nullCount_columnVector_eq_zero {i : ℕ} {rows : List Row} :
    nullCount (columnVector i rows) = 0 ↔ ∀ row ∈ rows, (row.getD i .null).isNull = false := by
  rw [nullCount_eq_zero, columnVector, List.forall_mem_map]

omit [WriteStatistics] in
theorem forbidsNulls_flatten {Tracked : DuckLakeFieldId → Prop} {parts : List (List Row)}
    {rows : List Row} (hrows : parts.flatten.Perm rows) :
    ForbidsNulls table Tracked rows ↔ ∀ part ∈ parts, ForbidsNulls table Tracked part := by
  simp only [ForbidsNulls, nullCount_columnVector_eq_zero]
  constructor
  · intro h part hpart i column hi hnotNull htracked row hrow
    exact h i column hi hnotNull htracked row
      (hrows.mem_iff.1 (List.mem_flatten.2 ⟨part, hpart, hrow⟩))
  · intro h i column hi hnotNull htracked row hrow
    obtain ⟨part, hpart, hrow⟩ := List.mem_flatten.1 (hrows.mem_iff.2 hrow)
    exact h part hpart i column hi hnotNull htracked row hrow

theorem addWrittenFiles_ok_iff (hvalid : ValidFields table.getFieldIds) {parts : List (List Row)}
    {partitionId : Option Idx} {files : List WrittenDataFile}
    (hreports : List.Forall₂ (ReportsNulls table) parts files) :
    (∃ dataFiles, addWrittenFiles table skipped partitionId files = .ok dataFiles) ↔
      ForbidsNulls table TrackedInFiles parts.flatten ∧
        ∀ file ∈ files, ReadsStatistics table skipped file := by
  have hall : (∃ dataFiles, addWrittenFiles table skipped partitionId files = .ok dataFiles) ↔
      ∀ file ∈ files, ∃ dataFile, addWrittenFile table skipped partitionId file = .ok dataFile := by
    refine ⟨fun h file hfile => ?_, mapM_succeeds⟩
    obtain ⟨dataFiles, hok⟩ := h
    obtain ⟨dataFile, -, hdataFile⟩ := (mapM_ok hok).1 file hfile
    exact ⟨dataFile, hdataFile⟩
  rw [hall, forbidsNulls_flatten (.refl _)]
  clear hall
  induction hreports with
  | nil => simp
  | cons hreport hreports ih =>
    rw [List.forall_mem_cons, List.forall_mem_cons, List.forall_mem_cons, and_and_and_comm]
    refine and_congr ?_ ih
    rw [addWrittenFile_ok_iff, noneForbidden_iff hvalid hreport]

/-- Rows may be written inline exactly if no constraint forbids a NULL in a column without fields,
and to files exactly if none does in those of these columns that are no variants and not named like
an internal column. -/
theorem writePaths_ok_iff (hvalid : ValidFields table.getFieldIds) {chunks parts : List (List Row)}
    {rowIds : List Int} {partitionId : Option Idx} {files : List WrittenDataFile}
    (hrows : parts.flatten.Perm chunks.flatten)
    (hreports : List.Forall₂ (ReportsNulls table) parts files)
    (hreads : ∀ file ∈ files, ReadsStatistics table skipped file) :
    ((∃ data, operatorFinalize table skipped chunks rowIds = .ok data) ↔
      ForbidsNulls table TrackedInline chunks.flatten) ∧
    ((∃ dataFiles, addWrittenFiles table skipped partitionId files = .ok dataFiles) ↔
      ForbidsNulls table TrackedInFiles chunks.flatten) := by
  refine ⟨operatorFinalize_ok_iff hvalid, ?_⟩
  rw [addWrittenFiles_ok_iff hvalid hreports, and_iff_left hreads,
    forbidsNulls_flatten hrows, ← forbidsNulls_flatten (.refl _)]

end Paths

/-! ## A variant that is NULL -/

section Example

/-- Variants, and values that are kept as they are. -/
@[reducible] def WriteStatistics.reference : WriteStatistics where
  toInlinedStorage := .duckdb
  toStatsMerge := DuckLakeColumnStats.storedStrings
  typeId name := if name = "variant".toList then .variant else .varchar
  isNan _ := false
  parseExtraStats _ _ _ _ := none
  extractVariantType _ names := .ok (names.getLastD [], .varchar)
  serializeVariantStats _ := []
  inlinedRow _ := []

attribute [local instance] WriteStatistics.reference

theorem localPartition_of_none {change : LocalChange} :
    change = .setPartitionKey ∨ change = .created →
      ∀ data ∈ (none : Option DuckLakePartition), data.localPartitionId.isSome :=
  fun _ _ h => absurd h (Option.not_mem_none _)

/-- A table whose two columns, a string and a variant, are both NOT NULL. -/
def documents : DuckLakeTableEntry where
  tableId := 1
  uuid := "documents-uuid".toList
  schema := .root 0 "main".toList
  name := "documents".toList
  dataPath := "main/documents/".toList
  columns := [
    { field := { columnData := { id := 1 }, name := "k".toList, type := .primitive "varchar".toList }
      notNull := true },
    { field := { columnData := { id := 2 }, name := "v".toList, type := .primitive "variant".toList }
      notNull := true }]
  localChange := .none
  localPartition := localPartition_of_none

/-- What the writer reports for a row whose variant is NULL. -/
def documentFile : WrittenDataFile where
  fileName := "documents.parquet".toList
  rowCount := 1
  columnStats := [
    (toQuotedList ["k".toList] '.', [("null_count".toList, "0".toList)]),
    (toQuotedList ["v".toList, "metadata".toList] '.', [("null_count".toList, "1".toList)])]

theorem validFields_documents : ValidFields documents.getFieldIds where
  names := by decide
  ids := by decide

theorem reportsNulls_documentFile :
    ReportsNulls documents [[.atom "a".toList, .null]] documentFile where
  reported column hcolumn hbase hvariant := by
    rcases List.mem_cons.1 hcolumn with rfl | hcolumn
    · exact ⟨_, List.mem_cons_self, parseQuotedList_toQuotedList (by decide) _⟩
    · obtain rfl := List.mem_singleton.1 hcolumn
      exact absurd hvariant (by decide)
  counted i column hi entry hentry name hpath hname := by
    rcases List.mem_cons.1 hentry with rfl | hentry
    · obtain ⟨rfl⟩ : ["k".toList] = [name] :=
        Except.ok.inj ((parseQuotedList_toQuotedList (by decide) _).symm.trans hpath)
      cases i with
      | zero =>
        cases hi
        exact ⟨rfl, rfl, _, rfl, rfl, rfl⟩
      | succ i =>
        cases i with
        | zero =>
          cases hi
          exact absurd hname (by decide)
        | succ i => cases hi
    · obtain rfl := List.mem_singleton.1 hentry
      have hlength := Except.ok.inj
        ((parseQuotedList_toQuotedList (by decide) ["v".toList, "metadata".toList]).symm.trans hpath)
      cases hlength

/-- The statistics of the key, which is not NULL. -/
def keyStats : FileStats where
  columnStats := [(1, { type := .varchar, hasNullCount := true })]

theorem documentPath (names : List Text) :
    parseQuotedList (toQuotedList names '.') '.' = .ok names :=
  parseQuotedList_toQuotedList (by decide) names

theorem addFileStats_key :
    addFileStats documents.getFieldIds [] documents.name ∅ {}
      (toQuotedList ["k".toList] '.', [("null_count".toList, "0".toList)]) = .ok keyStats := by
  have hfield : getFieldId documents.getFieldIds ["k".toList] =
      .ok (⟨{ id := 1 }, "k".toList, .primitive "varchar".toList, []⟩, none) := rfl
  rw [addFileStats_of_path (documentPath _) rfl hfield]
  rfl

theorem addFileStats_variant :
    ∃ result, addFileStats documents.getFieldIds [] documents.name ∅ keyStats
      (toQuotedList ["v".toList, "metadata".toList] '.', [("null_count".toList, "1".toList)]) =
        .ok result := by
  have hfield : getFieldId documents.getFieldIds ["v".toList, "metadata".toList] =
      .ok (⟨{ id := 2 }, "v".toList, .primitive "variant".toList, []⟩, some 1) := rfl
  have hok : (addVariantStats ["v".toList, "metadata".toList]
      ⟨{ id := 2 }, "v".toList, .primitive "variant".toList, []⟩ 1
      [("null_count".toList, "1".toList)] keyStats).isOk = true := rfl
  rw [addFileStats_of_path (documentPath _) rfl hfield]
  dsimp only
  generalize addVariantStats ["v".toList, "metadata".toList]
    ⟨{ id := 2 }, "v".toList, .primitive "variant".toList, []⟩ 1
    [("null_count".toList, "1".toList)] keyStats = result at hok
  cases result with
  | error e => cases hok
  | ok stats => exact ⟨stats, rfl⟩

theorem readsStatistics_documentFile : ReadsStatistics documents [] documentFile := by
  obtain ⟨result, hresult⟩ := addFileStats_variant
  have hentries : documentFile.columnStats = [
      (toQuotedList ["k".toList] '.', [("null_count".toList, "0".toList)]),
      (toQuotedList ["v".toList, "metadata".toList] '.',
        [("null_count".toList, "1".toList)])] := rfl
  refine ⟨result, ?_⟩
  rw [hentries, List.foldlM_cons, addFileStats_key]
  refine bind_eq_ok.2 ⟨keyStats, rfl, ?_⟩
  rw [List.foldlM_cons, hresult]
  exact bind_eq_ok.2 ⟨result, rfl, List.foldlM_nil⟩

/-- The row is accepted in a file, and rejected inline. -/
theorem writePaths_ok_documents :
    (∃ dataFiles, addWrittenFiles documents [] none [documentFile] = .ok dataFiles) ∧
      ¬ ∃ data, operatorFinalize documents [] [[[.atom "a".toList, .null]]] [] = .ok data := by
  obtain ⟨hinlined, hfiles⟩ := @writePaths_ok_iff WriteStatistics.reference [] documents
    validFields_documents [[[.atom "a".toList, .null]]] [[[.atom "a".toList, .null]]] [] none
    [documentFile] (.refl _) (.cons reportsNulls_documentFile .nil)
    (List.forall_mem_singleton.2 readsStatistics_documentFile)
  refine ⟨hfiles.2 fun i column hi hnotNull htracked => ?_, fun hok => ?_⟩
  · cases i with
    | zero => rfl
    | succ i =>
      cases i with
      | zero =>
        cases hi
        exact absurd htracked.2.1 (by decide)
      | succ i => cases hi
  · have hzero := hinlined.1 hok 1 _ rfl rfl rfl
    exact absurd hzero (by decide)

end Example

end DuckLake
