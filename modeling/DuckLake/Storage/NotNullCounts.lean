import DuckLake.Storage.CommitChanges
import DuckLake.Storage.NotNullPaths

/-!
# NULLs in the statistics of a table

The statistics of what is written count the NULLs of each column, and merging them into those of the
table keeps the count.
-/

namespace DuckLake

/-! ## Statistics of written files -/

theorem id_getByNames {root field : DuckLakeFieldId} {offset : Option Nat} {names : List Text}
    {i : Nat} (h : getByNames root names i = some (field, offset)) :
    field.columnData.id ∈ root.fieldIds := by
  induction names generalizing root i with
  | nil =>
    rw [getByNames] at h
    cases h
    exact DuckLakeFieldId.id_mem_fieldIds _
  | cons name names ih =>
    rw [getByNames] at h
    split at h
    · cases h
      exact DuckLakeFieldId.id_mem_fieldIds _
    · split at h
      · cases h
      · rename_i child hchild
        have hmem := List.mem_of_find?_eq_some hchild
        rw [root.fieldIds_eq, DuckLakeFieldId.childFieldIds_eq]
        exact List.mem_cons_of_mem _ (List.mem_flatMap.2 ⟨child, hmem, ih h⟩)

section Files

variable [WriteStatistics] {table : DuckLakeTableEntry} {skipped : List FieldIndex}
  {rows : List Row} {file : WrittenDataFile} {i : ℕ} {column : TableColumn}

omit [WriteStatistics] in
/-- Only the name of a column leads to its id. -/
theorem single_of_getFieldId (hvalid : ValidFields table.getFieldIds)
    (hi : table.columns[i]? = some column) (hvariant : column.field.isVariant = false)
    {names : List Text} {field : DuckLakeFieldId} {offset : Option Nat}
    (h : getFieldId table.getFieldIds names = .ok (field, offset))
    (hid : field.columnData.id = column.field.columnData.id) :
    offset = none ∧ ∃ name, names = [name] ∧ name.fold = column.field.name.fold ∧
      field = column.field := by
  have hi' : table.getFieldIds[i]? = some column.field := by
    rw [table.getElem?_getFieldIds, hi]
    rfl
  unfold getFieldId at h
  cases names with
  | nil => cases h
  | cons name rest =>
    dsimp only at h
    cases hroot : table.getFieldIds.find? (·.name.ciEquals name) with
    | none =>
      rw [hroot] at h
      cases h
    | some root =>
      rw [hroot, Option.bind_some] at h
      obtain ⟨j, hj⟩ := List.getElem?_of_mem (List.mem_of_find?_eq_some hroot)
      have hfound := List.find?_some hroot
      have hsame := Text.ciEquals_iff.1 hfound
      cases hget : getByNames root rest 1 with
      | none =>
        rw [hget] at h
        cases h
      | some found =>
        rw [hget] at h
        obtain rfl : found = (field, offset) := Except.ok.inj h
        obtain rfl := hvalid.eq_of_mem_fieldIds hj hi' (id_getByNames hget)
          (hid ▸ column.field.id_mem_fieldIds)
        obtain rfl : root = column.field := Option.some.inj (hj.symm.trans hi')
        cases rest with
        | nil =>
          rw [getByNames, hvariant] at hget
          cases hget
          exact ⟨rfl, name, rfl, hsame.symm, rfl⟩
        | cons child rest =>
          rw [getByNames, hvariant, if_neg Bool.false_ne_true] at hget
          split at hget
          · cases hget
          · rename_i below hbelow
            -- the id of a column is none of those below it
            have hmem := List.mem_of_find?_eq_some hbelow
            refine absurd ?_ (hvalid.id_notMem_children hi')
            rw [DuckLakeFieldId.childFieldIds_eq, ← hid]
            exact List.mem_flatMap.2 ⟨below, hmem, id_getByNames hget⟩

/-- What one round of the loop over the statistics of a file does. -/
theorem addFileStats_eq_ok {notNull : CISet} {acc acc' : FileStats}
    {entry : Text × List (Text × Text)} {fields : List DuckLakeFieldId}
    (h : addFileStats fields skipped table.name notNull acc entry = .ok acc') :
    ∃ names, parseQuotedList entry.1 '.' = .ok names ∧
      ((isInternalColumn (names.headD []) = true ∧ acc' = acc) ∨
      ∃ field offset, isInternalColumn (names.headD []) = false ∧
        getFieldId fields names = .ok (field, offset) ∧
        ((∃ o, offset = some o ∧ acc'.columnStats = acc.columnStats ∧
          ∃ stats, acc'.variantStats = (field.columnData.id, stats) ::
            acc.variantStats.filter (·.1 ≠ field.columnData.id)) ∨
        (offset = none ∧ acc'.variantStats = acc.variantStats ∧
          ∃ stats, parseColumnStats field.type.typeId entry.2 = .ok stats ∧
            acc'.columnStats = emplaceStats field.columnData.id
              (if field.columnData.id ∈ skipped then stats.clearBounds else stats)
              acc.columnStats))) := by
  cases hpath : parseQuotedList entry.1 '.' with
  | error e =>
    rw [addFileStats, hpath] at h
    cases h
  | ok names =>
    refine ⟨names, rfl, ?_⟩
    cases hinternal : isInternalColumn (names.headD []) with
    | true =>
      rw [addFileStats, hpath] at h
      simp only [bind, Except.bind, hinternal, if_true] at h
      exact .inl ⟨rfl, (Except.ok.inj h).symm⟩
    | false =>
      cases hfield : getFieldId fields names with
      | error e =>
        rw [addFileStats, hpath] at h
        simp only [bind, Except.bind, hinternal, Bool.false_eq_true, if_false, hfield] at h
        cases h
      | ok found =>
        obtain ⟨field, offset⟩ := found
        rw [addFileStats_of_path hpath hinternal hfield] at h
        refine .inr ⟨field, offset, rfl, rfl, ?_⟩
        cases offset with
        | some o =>
          obtain ⟨stats, -, hacc⟩ := bind_eq_ok.1 h
          obtain rfl := (Except.ok.inj hacc).symm
          exact .inl ⟨o, rfl, rfl, stats, rfl⟩
        | none =>
          dsimp only at h
          unfold addColumnStats at h
          cases hstats : parseColumnStats field.type.typeId entry.2 with
          | error e =>
            rw [hstats] at h
            cases h
          | ok stats =>
            rw [hstats] at h
            dsimp only at h
            split at h
            · cases h
            · obtain rfl := (Except.ok.inj h).symm
              exact .inr ⟨rfl, rfl, stats, rfl, rfl⟩

/-- The statistics count the NULLs that a batch has in the column with the id `k`. -/
structure CountsNulls (k : FieldIndex) (vector : List Datum)
    (stats : List (FieldIndex × DuckLakeColumnStats)) : Prop where
  present : (∃ e ∈ stats, e.1 = k) ↔ vector ≠ []
  zero : (∀ e ∈ stats, e.1 = k → ZeroNulls e.2) ↔ ∀ d ∈ vector, d.isNull = false

omit [WriteStatistics] in
theorem CountsNulls.of_exact {k : FieldIndex} {vector : List Datum}
    {stats : List (FieldIndex × DuckLakeColumnStats)} (hne : vector ≠ [])
    (hexact : ∀ e ∈ stats, e.1 = k → ExactNulls e.2 (nullCount vector))
    (hpresent : ∃ e ∈ stats, e.1 = k) : CountsNulls k vector stats where
  present := iff_of_true hpresent hne
  zero := by
    rw [← nullCount_eq_zero]
    constructor
    · intro h
      obtain ⟨e, he, hk⟩ := hpresent
      exact (hexact e he hk).zeroNulls_iff.1 (h e he hk)
    · intro h e he hk
      exact (hexact e he hk).zeroNulls_iff.2 h

omit [WriteStatistics] in
theorem CountsNulls.append {k : FieldIndex} {v w : List Datum}
    {stats stats' : List (FieldIndex × DuckLakeColumnStats)} (h : CountsNulls k v stats)
    (h' : CountsNulls k w stats') : CountsNulls k (v ++ w) (stats ++ stats') where
  present := by
    have happend : (∃ e ∈ stats ++ stats', e.1 = k) ↔
        (∃ e ∈ stats, e.1 = k) ∨ ∃ e ∈ stats', e.1 = k := by
      simp only [List.mem_append, or_and_right, exists_or]
    rw [happend, h.present, h'.present, ne_eq, ne_eq, ne_eq, List.append_eq_nil_iff, not_and_or]
  zero := by
    rw [List.forall_mem_append, List.forall_mem_append, h.zero, h'.zero]

/-- There are statistics of the column with the id `k`. -/
def FileStats.HasColumn (k : FieldIndex) (acc : FileStats) : Prop :=
  (acc.columnStats.lookup k).isSome = true

/-- The path of an entry leads to the column with the id `k`. -/
def LeadsToColumn (fields : List DuckLakeFieldId) (k : FieldIndex)
    (entry : Text × List (Text × Text)) : Prop :=
  ∃ names field, parseQuotedList entry.1 '.' = .ok names ∧
    isInternalColumn (names.headD []) = false ∧ getFieldId fields names = .ok (field, none) ∧
    field.columnData.id = k

theorem hasColumn_foldlM {notNull : CISet} {fields : List DuckLakeFieldId} {k : FieldIndex}
    {entries : List (Text × List (Text × Text))} {acc : FileStats}
    (h : entries.foldlM (addFileStats fields skipped table.name notNull) {} = .ok acc) :
    acc.HasColumn k ↔ FileStats.HasColumn k {} ∨ ∃ entry ∈ entries, LeadsToColumn fields k entry := by
  refine collects_foldlM _ ?_ h
  intro acc entry acc' hstep
  obtain ⟨names, hnames, hcase⟩ := addFileStats_eq_ok hstep
  rcases hcase with ⟨hinternal, rfl⟩ | ⟨field, offset, hinternal, hfield, hkind⟩
  · refine (or_iff_left ?_).symm
    rintro ⟨names', field', hnames', hnot, -⟩
    cases hnames.symm.trans hnames'
    cases hnot.symm.trans hinternal
  rcases hkind with ⟨o, rfl, hcolumns, -⟩ | ⟨rfl, -, stats, -, hcolumns⟩
  · rw [FileStats.HasColumn, hcolumns]
    refine (or_iff_left ?_).symm
    rintro ⟨names', field', hnames', -, hfield', -⟩
    cases hnames.symm.trans hnames'
    cases hfield.symm.trans hfield'
  · rw [FileStats.HasColumn, hcolumns, lookup_emplaceStats]
    split
    · rename_i hid
      exact iff_of_true rfl (.inr ⟨names, field, hnames, hinternal, hfield, hid.symm⟩)
    · rename_i hid
      refine (or_iff_left ?_).symm
      rintro ⟨names', field', hnames', -, hfield', hid'⟩
      cases hnames.symm.trans hnames'
      cases hfield.symm.trans hfield'
      exact hid hid'.symm

/-- The statistics of the file are those that the writer has reported. -/
theorem countsNulls_addWrittenFile (hvalid : ValidFields table.getFieldIds)
    {partitionId : Option Idx} {dataFile : DuckLakeDataFile}
    (hreports : ReportsNulls table rows file) (hne : rows ≠ [])
    (hok : addWrittenFile table skipped partitionId file = .ok dataFile)
    (hi : table.columns[i]? = some column) (htracked : TrackedInFiles column.field) :
    CountsNulls column.field.columnData.id (columnVector i rows) dataFile.columnStats := by
  obtain ⟨hbase, hvariant, hinternal⟩ := htracked
  rw [addWrittenFile] at hok
  obtain ⟨acc, hacc, hdata⟩ := bind_eq_ok.1 hok
  obtain rfl := (Except.ok.inj hdata).symm
  have hinvariant : (∀ e ∈ acc.columnStats, e.1 = column.field.columnData.id →
      ExactNulls e.2 (nullCount (columnVector i rows))) ∧
      ∀ e ∈ acc.variantStats, e.1 ≠ column.field.columnData.id := by
    refine invariant_foldlM (I := fun acc : FileStats =>
      (∀ e ∈ acc.columnStats, e.1 = column.field.columnData.id →
        ExactNulls e.2 (nullCount (columnVector i rows))) ∧
      ∀ e ∈ acc.variantStats, e.1 ≠ column.field.columnData.id) ?_
      ⟨fun e he => absurd he List.not_mem_nil, fun e he => absurd he List.not_mem_nil⟩ hacc
    intro acc entry hentry acc' hI hstep
    obtain ⟨names, hnames, hcase⟩ := addFileStats_eq_ok hstep
    rcases hcase with ⟨-, rfl⟩ | ⟨field, offset, -, hfield, hkind⟩
    · exact hI
    rcases hkind with ⟨o, rfl, hcolumns, stats, hvariants⟩ | ⟨rfl, hvariants, stats, hstats, hcolumns⟩
    · refine ⟨hcolumns ▸ hI.1, fun e he hid => ?_⟩
      rw [hvariants] at he
      rcases List.mem_cons.1 he with rfl | he
      · cases (single_of_getFieldId hvalid hi hvariant hfield hid).1
      · exact hI.2 e (List.mem_of_mem_filter he) hid
    · refine ⟨fun e he hid => ?_, hvariants ▸ hI.2⟩
      rw [hcolumns] at he
      rcases mem_of_mem_emplaceStats he with rfl | he
      · obtain ⟨-, name, rfl, hname, rfl⟩ := single_of_getFieldId hvalid hi hvariant hfield hid
        obtain ⟨-, -, stats', hstats', hexact⟩ :=
          hreports.counted i column hi entry hentry name hnames hname
        cases hstats'.symm.trans hstats
        exact hexact.clearIf _
      · exact hI.1 e he hid
  have hpresent : (acc.columnStats.lookup column.field.columnData.id).isSome = true := by
    obtain ⟨entry, hentry, hpath⟩ :=
      hreports.reported column (List.mem_of_getElem? hi) hbase hvariant
    refine (hasColumn_foldlM hacc).2 (.inr ⟨entry, hentry, [column.field.name], column.field, hpath,
      hinternal, ?_, rfl⟩)
    exact getFieldId_single_iff.2 ⟨find?_getFieldIds hvalid hi, hvariant⟩
  have hmem : ∀ e ∈ acc.finalize, e.1 = column.field.columnData.id → e ∈ acc.columnStats := by
    intro e he hid
    rw [FileStats.finalize, ← List.foldl_map (f := fun e : FieldIndex × ReturnedVariantStats =>
      (e.1, e.2.finalize)) (g := fun result entry => emplaceStats entry.1 entry.2 result)] at he
    rcases mem_of_mem_foldl_emplaceStats he with he | he
    · exact he
    · obtain ⟨e', he', rfl⟩ := List.mem_map.1 he
      exact absurd hid (hinvariant.2 e' he')
  have hvector : columnVector i rows ≠ [] := fun h => hne (List.map_eq_nil_iff.1 h)
  refine .of_exact hvector (fun e he hid => hinvariant.1 e (hmem e he hid) hid) ?_
  rw [← lookup_isSome_iff]
  dsimp only
  rw [FileStats.finalize, ← List.foldl_map (f := fun e : FieldIndex × ReturnedVariantStats =>
    (e.1, e.2.finalize)) (g := fun result entry => emplaceStats entry.1 entry.2 result),
    lookup_foldl_emplaceStats]
  obtain ⟨stats, hstats⟩ := Option.isSome_iff_exists.1 hpresent
  rw [hstats]
  rfl

/-- The statistics of the rows of several files. -/
theorem countsNulls_addWrittenFiles (hvalid : ValidFields table.getFieldIds)
    {partitionId : Option Idx} {parts : List (List Row)} {files : List WrittenDataFile}
    {dataFiles : List DuckLakeDataFile} (hreports : List.Forall₂ (ReportsNulls table) parts files)
    (hne : ∀ part ∈ parts, part ≠ [])
    (hok : addWrittenFiles table skipped partitionId files = .ok dataFiles)
    (hi : table.columns[i]? = some column) (htracked : TrackedInFiles column.field) :
    CountsNulls column.field.columnData.id (columnVector i parts.flatten)
      (dataFiles.flatMap (·.columnStats)) := by
  have hfiles := mapM_eq_ok_iff.1 hok
  clear hok
  induction hreports generalizing dataFiles with
  | nil =>
    cases hfiles
    refine ⟨iff_of_false ?_ (not_not.2 rfl), iff_of_true (fun e he => absurd he List.not_mem_nil)
      fun d hd => absurd hd List.not_mem_nil⟩
    rintro ⟨e, he, -⟩
    exact absurd he List.not_mem_nil
  | cons hreport hreports ih =>
    cases hfiles with
    | cons hfile hfiles =>
      rw [List.forall_mem_cons] at hne
      rw [List.flatten_cons, columnVector_append, List.flatMap_cons]
      exact (countsNulls_addWrittenFile hvalid hreport hne.1 hfile hi htracked).append
        (ih hne.2 hfiles)

theorem countsNulls_operatorFinalize (hvalid : ValidFields table.getFieldIds)
    {chunks : List (List Row)} {rowIds : List Int} {data : DuckLakeInlinedData}
    (hne : chunks.flatten ≠ [])
    (hok : operatorFinalize table skipped chunks rowIds = .ok data)
    (hi : table.columns[i]? = some column) (htracked : TrackedInline column.field) :
    CountsNulls column.field.columnData.id (columnVector i chunks.flatten) data.columnStats := by
  have hi' : table.getFieldIds[i]? = some column.field := by
    rw [table.getElem?_getFieldIds, hi]
    rfl
  have hdescribes := describesNulls_operatorFinalize hvalid hok hi'
  have hvector : columnVector i chunks.flatten ≠ [] := fun h => hne (List.map_eq_nil_iff.1 h)
  exact .of_exact hvector (fun e he hid => (hdescribes.exact e he hid).2)
    (hdescribes.present htracked hvector)

end Files

/-! ## Statistics of the table -/

theorem lookup_eq_none_of_lt {k : FieldIndex} {columns : List (FieldIndex × DuckLakeColumnStats)}
    (h : ∀ e ∈ columns, k < e.1) : columns.lookup k = none := by
  induction columns with
  | nil => rfl
  | cons e columns ih =>
    rw [List.forall_mem_cons] at h
    rw [lookup_cons_ite, if_neg (Nat.ne_of_lt h.1), ih h.2]

section Table

variable [StatsMerge] {k field : FieldIndex} {new : DuckLakeColumnStats}
  {columns : List (FieldIndex × DuckLakeColumnStats)}

open DuckLakeTableStats

theorem lookup_mergeColumn (h : columns.Pairwise (·.1 < ·.1)) :
    (mergeColumn field new columns).lookup k =
      if k = field then some (((columns.lookup field).map (·.mergeStats new)).getD new)
      else columns.lookup k := by
  induction columns with
  | nil => exact lookup_cons_ite
  | cons e columns ih =>
    obtain ⟨hlt, hsorted⟩ := List.pairwise_cons.1 h
    rw [mergeColumn]
    split
    · rename_i hkey
      subst hkey
      rw [lookup_cons_ite, lookup_cons_ite, lookup_cons_ite, if_pos rfl]
      split <;> rfl
    · rename_i hkey
      split
      · rename_i hless
        have hnone : (e :: columns).lookup field = none :=
          lookup_eq_none_of_lt (List.forall_mem_cons.2 ⟨hless, fun e' he' => hless.trans (hlt e' he')⟩)
        rw [lookup_cons_ite, hnone]
        rfl
      · rw [lookup_cons_ite, lookup_cons_ite, lookup_cons_ite, ih hsorted, if_neg (Ne.symm hkey)]
        by_cases hk : k = e.1
        · rw [if_pos hk, if_pos hk, if_neg (hk ▸ hkey)]
        · rw [if_neg hk, if_neg hk]

theorem key_of_mem_mergeColumn {e : FieldIndex × DuckLakeColumnStats}
    (h : e ∈ mergeColumn field new columns) : e.1 = field ∨ ∃ e' ∈ columns, e'.1 = e.1 := by
  induction columns with
  | nil => exact .inl (List.mem_singleton.1 h ▸ rfl)
  | cons e' columns ih =>
    rw [mergeColumn] at h
    split at h
    · rcases List.mem_cons.1 h with rfl | h
      · exact .inl rfl
      · exact .inr ⟨e, List.mem_cons_of_mem _ h, rfl⟩
    · split at h
      · rcases List.mem_cons.1 h with rfl | h
        · exact .inl rfl
        · exact .inr ⟨e, h, rfl⟩
      · rcases List.mem_cons.1 h with rfl | h
        · exact .inr ⟨e, List.mem_cons_self, rfl⟩
        · rcases ih h with hkey | ⟨e', he', hkey⟩
          · exact .inl hkey
          · exact .inr ⟨e', List.mem_cons_of_mem _ he', hkey⟩

theorem sorted_mergeColumn (h : columns.Pairwise (·.1 < ·.1)) :
    (mergeColumn field new columns).Pairwise (·.1 < ·.1) := by
  induction columns with
  | nil => exact List.pairwise_singleton _ _
  | cons e columns ih =>
    obtain ⟨hlt, hsorted⟩ := List.pairwise_cons.1 h
    rw [mergeColumn]
    split
    · rename_i hkey
      exact List.pairwise_cons.2 ⟨fun e' he' => hkey ▸ hlt e' he', hsorted⟩
    · rename_i hkey
      split
      · rename_i hless
        exact List.pairwise_cons.2
          ⟨List.forall_mem_cons.2 ⟨hless, fun e' he' => hless.trans (hlt e' he')⟩, h⟩
      · rename_i hless
        refine List.pairwise_cons.2 ⟨fun e' he' => ?_, ih hsorted⟩
        rcases key_of_mem_mergeColumn he' with hfield | ⟨other, hother, hsame⟩
        · exact hfield ▸ lt_of_le_of_ne (not_lt.1 hless) hkey
        · exact hsame ▸ hlt other hother

/-- Merging some statistics into those of a table, under their ids. -/
def mergeColumns (columns new : List (FieldIndex × DuckLakeColumnStats)) :
    List (FieldIndex × DuckLakeColumnStats) :=
  new.foldl (fun columns entry => mergeColumn entry.1 entry.2 columns) columns

theorem sorted_mergeColumns {new : List (FieldIndex × DuckLakeColumnStats)}
    (h : columns.Pairwise (·.1 < ·.1)) : (mergeColumns columns new).Pairwise (·.1 < ·.1) := by
  induction new generalizing columns with
  | nil => exact h
  | cons e new ih => exact ih (sorted_mergeColumn h)

theorem isSome_mergeColumns {new : List (FieldIndex × DuckLakeColumnStats)}
    (h : columns.Pairwise (·.1 < ·.1)) : ((mergeColumns columns new).lookup k).isSome = true ↔
      (columns.lookup k).isSome = true ∨ ∃ e ∈ new, e.1 = k := by
  induction new generalizing columns with
  | nil =>
    refine (or_iff_left ?_).symm
    rintro ⟨e, he, -⟩
    exact absurd he List.not_mem_nil
  | cons e new ih =>
    rw [mergeColumns, List.foldl_cons, ← mergeColumns, ih (sorted_mergeColumn h),
      lookup_mergeColumn h, List.exists_mem_cons_iff]
    by_cases hk : k = e.1
    · rw [if_pos hk]
      exact iff_of_true (.inl rfl) (.inr (.inl hk.symm))
    · rw [if_neg hk]
      exact or_congr_right (or_iff_right (Ne.symm hk)).symm

/-- No NULL was counted if none was before and none is in what is merged. -/
theorem zeroNulls_mergeColumns {new : List (FieldIndex × DuckLakeColumnStats)}
    (h : columns.Pairwise (·.1 < ·.1)) : (∀ s ∈ (mergeColumns columns new).lookup k, ZeroNulls s) ↔
      (∀ s ∈ columns.lookup k, ZeroNulls s) ∧ ∀ e ∈ new, e.1 = k → ZeroNulls e.2 := by
  induction new generalizing columns with
  | nil => exact (and_iff_left fun e he => absurd he List.not_mem_nil).symm
  | cons e new ih =>
    rw [mergeColumns, List.foldl_cons, ← mergeColumns, ih (sorted_mergeColumn h),
      lookup_mergeColumn h, List.forall_mem_cons, ← and_assoc]
    refine and_congr_left fun _ => ?_
    by_cases hk : k = e.1
    · subst hk
      rw [if_pos rfl]
      cases hlookup : columns.lookup e.1 with
      | none => simp
      | some s => simp [zeroNulls_mergeStats]
    · rw [if_neg hk]
      exact (and_iff_left fun hkey => absurd hkey.symm hk).symm

end Table

end DuckLake
