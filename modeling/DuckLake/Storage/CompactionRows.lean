import DuckLake.Storage.CompactionGroups

/-!
# The rows of a compaction

The files that a compaction writes have the rows of its sources, with the row ids, the snapshot ids
and the values that a scan of the sources reads. A row id that is not written comes back from the
place of the row, so the rows have to be written in the order of their row ids then.
-/

namespace DuckLake

variable {env : CompactionEnvironment} {table : StoredTable} {type : CompactionType}

/-! ## Values -/

theorem lookup_map_mk (ids : List FieldIndex) (value : FieldIndex → Value) (field : FieldIndex) :
    (ids.map fun id => (id, value id)).lookup field =
      if field ∈ ids then some (value field) else none := by
  induction ids with
  | nil => rfl
  | cons id ids ih =>
    rw [List.map_cons, List.lookup_cons, ih]
    by_cases heq : field = id
    · simp [heq]
    · simp [heq, beq_eq_false_iff_ne.2 heq]

/-- Values that are written under a schema read the same under every other one, when the fields
outside of the schema have their defaults. -/
theorem readValues_restrict {initialDefault : FieldIndex → Value} {ids : List FieldIndex}
    {values : List (FieldIndex × Value)}
    (h : ∀ field ∉ ids, (values.lookup field).getD (initialDefault field) = initialDefault field)
    (fields : List FieldIndex) :
    readValues initialDefault fields
        (ids.map fun id => (id, (values.lookup id).getD (initialDefault id))) =
      readValues initialDefault fields values := by
  unfold readValues
  refine List.map_congr_left fun field _ => ?_
  rw [lookup_map_mk]
  split
  · rfl
  next hfield => exact (h field hfield).symm

/-- In the fields that the schema of a file does not have, its rows hold the initial defaults: they
were written, if at all, when the file was rewritten under a later schema. -/
def CompactionEnvironment.DefaultsOutside (env : CompactionEnvironment) (table : StoredTable) :
    Prop :=
  ∀ file ∈ table.dataFiles,
    ∀ version ∈ table.schemaVersionAt (file.partialMax.getD file.life.beginAt),
    ∀ fields ∈ env.fieldsOf version, ∀ row ∈ file.rows, ∀ field ∉ fieldIds fields,
      (row.values.lookup field).getD (env.initialDefault field) = env.initialDefault field

/-- The values of a source row survive the rewrite under the fields of the compaction. -/
theorem readValues_written (hdefaults : env.DefaultsOutside table) {compaction : Compaction}
    (hlayout : compaction.SharesLayout env) {source : CompactionCandidate}
    (hsource : source ∈ compaction.sourceFiles) (hselected : source.Selected table type)
    {keep : Nat → Bool} {row : ReadRow} (hrow : row ∈ source.file.readRows keep)
    (fields : List FieldIndex) :
    readValues env.initialDefault fields ((fieldIds compaction.fields).map fun field =>
        (field, (row.values.lookup field).getD (env.initialDefault field))) =
      readValues env.initialDefault fields row.values := by
  obtain ⟨entry, hentry, rfl⟩ := List.mem_map.1 hrow
  obtain ⟨older, holder, hreadable⟩ := hlayout.readable source hsource
  refine readValues_restrict (fun field hfield => ?_) fields
  exact hdefaults source.file hselected.mem _ hselected.schemaVersionAt older holder entry.1
    (List.fst_mem_of_mem_zipIdx (List.mem_of_mem_filter hentry)) field
    fun h => hfield (hreadable.fieldIds_subset h)

/-! ## Output files -/

/-- A row of a source as it is read from the output, whose rows begin at the snapshot. -/
def Compaction.outputRow (compaction : Compaction) (env : CompactionEnvironment)
    (beginAt : SnapshotId) (row : ReadRow) : ReadRow where
  rowId := row.rowId
  snapshotId := if compaction.writeSnapshotId then row.snapshotId else beginAt
  values := (compaction.storedRow env row).values

/-- The rows of an output without row ids are in the order of the row ids that it claims. -/
def Compaction.InRowIdOrder (compaction : Compaction) (env : CompactionEnvironment)
    (snapshot : SnapshotId) : Prop :=
  compaction.writeRowId = false →
    RowIdsFrom compaction.rowIdStart 0
      (writtenOrder env snapshot compaction.type compaction.sourceFiles)

theorem insertSort_perm (rows : List ReadRow) : (insertSort env rows).Perm rows := by
  unfold insertSort
  split
  · exact .refl _
  · exact env.orderBy_perm _ rows

section Output

variable {compaction : Compaction} {bounds : SnapshotId × Option SnapshotId}

theorem mem_outputFiles {id : DataFileIndex} {rowCount : Nat} {files : List CompactedFile} :
    ∀ file ∈ outputFiles compaction bounds id rowCount files,
      id ≤ file.id ∧ file.life = ⟨bounds.1, none⟩ ∧ file.partialMax = bounds.2 ∧
        ∀ row ∈ file.rows, row ∈ files.flatMap (·.rows) := by
  induction files generalizing id rowCount with
  | nil => exact fun _ h => absurd h List.not_mem_nil
  | cons written files ih =>
    rw [outputFiles, List.flatMap_cons]
    refine List.forall_mem_cons.2
      ⟨⟨le_rfl, rfl, rfl, fun row h => List.mem_append_left _ h⟩, fun file hfile => ?_⟩
    obtain ⟨hid, hlife, hmax, hrows⟩ := ih file hfile
    exact ⟨Nat.le_of_succ_le hid, hlife, hmax, fun row h => List.mem_append_right _ (hrows row h)⟩

/-- Without a first row id the rows of the output are read as they are stored. -/
theorem allRows_outputFiles (h : compaction.rowIdStart = none) (id : DataFileIndex)
    (rowCount : Nat) (files : List CompactedFile) :
    (outputFiles compaction bounds id rowCount files).flatMap (·.allRows) =
      (files.flatMap (·.rows)).map fun row =>
        ⟨row.rowId, row.snapshotId.getD bounds.1, row.values⟩ := by
  induction files generalizing id rowCount with
  | nil => rfl
  | cons written files ih =>
    rw [outputFiles, List.flatMap_cons, List.flatMap_cons, ih, List.map_append,
      StoredDataFile.allRows_of_rowIdStart_eq_none (by simp [h])]
    simp [StoredDataFile.readRow, h]

/-- Rows that are written in the order of their row ids get them back from their places. -/
theorem allRows_of_inOrder {file : StoredDataFile} {rows : List ReadRow}
    (hrows : file.rows = rows.map (compaction.storedRow env))
    (hwrite : compaction.writeRowId = false) (horder : RowIdsFrom file.rowIdStart 0 rows) :
    file.allRows = rows.map (compaction.outputRow env file.life.beginAt) := by
  rw [StoredDataFile.allRows_eq, hrows, List.zipIdx_map, List.map_map]
  calc rows.zipIdx.map _
      = rows.zipIdx.map (compaction.outputRow env file.life.beginAt ∘ Prod.fst) := by
        refine List.map_congr_left fun entry hentry => ?_
        cases hsnapshot : compaction.writeSnapshotId <;>
          simp [StoredDataFile.readRow, Compaction.storedRow, Compaction.outputRow, hwrite,
            hsnapshot, horder entry hentry]
    _ = rows.map (compaction.outputRow env file.life.beginAt) := by
        rw [← List.map_map, List.zipIdx_map_fst]

/-- The files of a compaction have the rows of its sources. -/
theorem allRows_perm {run : CompactionGroup × List CompactionCandidate}
    (hgenerated : compaction.Generated env type run) {snapshot : SnapshotId}
    (horder : compaction.InRowIdOrder env snapshot) (id : DataFileIndex) :
    ((outputFiles compaction bounds id 0 (compaction.writtenFiles env snapshot)).flatMap
        (·.allRows)).Perm
      ((compaction.sourceFiles.flatMap (·.scan snapshot compaction.type)).map
        (compaction.outputRow env bounds.1)) := by
  have hsort : (writtenOrder env snapshot compaction.type compaction.sourceFiles).Perm
      (compaction.sourceFiles.flatMap (·.scan snapshot compaction.type)) := insertSort_perm _
  refine List.Perm.trans ?_ (hsort.map _)
  cases hwrite : compaction.writeRowId with
  | true =>
    have hstart : compaction.rowIdStart = none := by
      rw [hgenerated.rowIdStart_eq, hwrite, if_pos rfl]
    simp only [Compaction.writtenFiles, hwrite, if_true]
    rw [allRows_outputFiles hstart]
    refine ((env.copyToFiles_perm _).map _).trans (.of_eq ?_)
    rw [List.map_map]
    refine List.map_congr_left fun row _ => ?_
    cases hsnapshot : compaction.writeSnapshotId <;>
      simp [Compaction.storedRow, Compaction.outputRow, hwrite, hsnapshot]
  | false =>
    refine .of_eq ?_
    simp only [Compaction.writtenFiles, hwrite, Bool.false_eq_true, if_false]
    split
    next hnil =>
      rw [List.isEmpty_iff, List.map_eq_nil_iff] at hnil
      rw [hnil]
      rfl
    next =>
      have hclaimed := horder hwrite
      rw [outputFiles, List.flatMap_cons, outputFiles, List.flatMap_nil, List.append_nil]
      refine allRows_of_inOrder (env.copyToFile_rows _) hwrite ?_
      simpa using hclaimed

end Output

end DuckLake
