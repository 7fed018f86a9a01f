import Mathlib.Data.Char
import Mathlib.Data.List.Lex
import DuckLake.Storage.CompactedTables

/-!
# Compaction and row identity

A compaction keeps what every snapshot shows of a table, up to one decision: row ids are not written
when the row ids of the sources follow one another by their first ids and row counts. The rows then
get their ids from their places in the output, and these are their own only if the rows are written
in that order: neither a sort key nor a row id that a source file stores is taken into account.
-/

namespace DuckLake

variable {env : CompactionEnvironment} {table : StoredTable} {type : CompactionType}

/-! ## Visible rows of the output -/

theorem flatMap_map_congr {α β γ : Type} {l : List α} {f g : α → List β}
    (h : ∀ a ∈ l, f a = g a) (k : β → γ) :
    (l.flatMap fun a => (f a).map k) = (l.flatMap g).map k := by
  rw [List.map_flatMap]
  exact List.flatMap_congr fun a ha => by rw [h a ha]

section Step

variable {compaction : Compaction} {id : DataFileIndex} {files : List StoredDataFile}
  {table' : StoredTable} {snapshot : SnapshotId} {fields : List FieldIndex}

theorem visible_merge (hT : table.WellFormed) (hdefaults : env.DefaultsOutside table)
    (hc : compaction.Prepared env table .mergeAdjacentTables)
    (horder : compaction.InRowIdOrder env table.snapshot)
    (h : compactionOutput env table id compaction = .ok files)
    (hkept : ∀ file ∈ files, ∀ place, table'.deletedAt snapshot file.id place = false) :
    (files.flatMap fun file => (table'.rowsAt snapshot file).map fun row =>
        (row.rowId, readValues env.initialDefault fields row.values)).Perm
      (compaction.sourceFiles.flatMap fun source =>
        (table.rowsAt snapshot source.file).map fun row =>
          (row.rowId, readValues env.initialDefault fields row.values)) := by
  obtain ⟨run, hrun⟩ := hc.generated
  have htype := type_eq hc
  have hdated := dated_output hT hc h
  have hfiles := compactionOutput_spec h
  have hsource : ∀ source ∈ compaction.sourceFiles, table.rowsAt snapshot source.file =
      (source.scan table.snapshot compaction.type).filter (·.snapshotId ≤ snapshot) := by
    intro source hmem
    have hselected := hc.selected source hmem
    rw [htype, hselected.scan_merge]
    exact StoredTable.rowsAt_of_kept (hT.dated _ hselected.mem) hselected.endAt_eq
      (hselected.deletedAt_merge hT (hc.compactable source hmem) snapshot)
  have houtput : ∀ file ∈ files, table'.rowsAt snapshot file =
      file.allRows.filter (·.snapshotId ≤ snapshot) := by
    intro file hmem
    have hlife := (mem_outputFiles file (hfiles ▸ hmem)).2.1
    exact StoredTable.rowsAt_of_kept (hdated file hmem) (by rw [hlife]) (hkept file hmem)
  rw [flatMap_map_congr houtput, flatMap_map_congr hsource, ← List.filter_flatMap,
    ← List.filter_flatMap, hfiles]
  refine (((allRows_perm hrun horder id).filter _).map _).trans (.of_eq ?_)
  rw [List.filter_map, List.map_map]
  have hsnapshot : compaction.writeSnapshotId = true := by rw [hrun.writeSnapshotId_eq]; rfl
  simp only [Function.comp_def, Compaction.outputRow, hsnapshot, if_true]
  exact List.map_congr_left fun row hrow => outputRow_view hdefaults hc 0 fields
    (List.mem_of_mem_filter hrow)

theorem visible_rewrite (hT : table.WellFormed) (hdefaults : env.DefaultsOutside table)
    (hc : compaction.Prepared env table .rewriteDeletes)
    (h : compactionOutput env table id compaction = .ok files)
    (hkept : ∀ file ∈ files, ∀ place, table'.deletedAt snapshot file.id place = false)
    (hs : table.snapshot < snapshot) :
    (files.flatMap fun file => (table'.rowsAt snapshot file).map fun row =>
        (row.rowId, readValues env.initialDefault fields row.values)).Perm
      (compaction.sourceFiles.flatMap fun source =>
        (table.rowsAt snapshot source.file).map fun row =>
          (row.rowId, readValues env.initialDefault fields row.values)) := by
  obtain ⟨run, hrun⟩ := hc.generated
  have htype := type_eq hc
  have hfiles := compactionOutput_spec h
  have horder : compaction.InRowIdOrder env table.snapshot := fun hwrite => by
    rw [hrun.writeRowId_eq] at hwrite
    cases hwrite
  have hsource : ∀ source ∈ compaction.sourceFiles, table.rowsAt snapshot source.file =
      source.scan table.snapshot compaction.type := fun source hmem => by
    rw [htype]
    exact (hc.selected source hmem).rowsAt_rewrite hT hs.le
  have houtput : ∀ file ∈ files, table'.rowsAt snapshot file = file.allRows := by
    intro file hmem
    obtain ⟨-, hlife, hmax, -⟩ := mem_outputFiles file (hfiles ▸ hmem)
    rw [bounds_rewrite htype] at hlife hmax
    have hbegin : table.snapshot + 1 ≤ snapshot := hs
    simp [StoredTable.rowsAt, Validity.visibleAt, hlife, hmax, hbegin, hkept file hmem,
      StoredDataFile.allRows]
  rw [flatMap_map_congr houtput, flatMap_map_congr hsource, hfiles]
  refine ((allRows_perm hrun horder id).map _).trans (.of_eq ?_)
  rw [List.map_map]
  exact List.map_congr_left fun row hrow => outputRow_view hdefaults hc _ fields hrow

/-- The files of a rewrite are not there before the commit. -/
theorem invisible_rewrite (hc : compaction.Prepared env table .rewriteDeletes)
    (h : compactionOutput env table id compaction = .ok files) (hs : snapshot ≤ table.snapshot) :
    ∀ file ∈ files, table'.rowsAt snapshot file = [] := by
  intro file hmem
  obtain ⟨-, hlife, -⟩ := mem_outputFiles file (compactionOutput_spec h ▸ hmem)
  rw [bounds_rewrite (type_eq hc)] at hlife
  simp [StoredTable.rowsAt, Validity.visibleAt, hlife, Nat.not_le.2 (Nat.lt_succ_of_le hs)]

end Step

/-! ## Commits -/

theorem flatMap_outputs_perm {β : Type} {F : StoredDataFile → List β} {G : Compaction → List β}
    {compactions : List Compaction} {id : DataFileIndex} {files : List StoredDataFile}
    (h : compactionOutputs env table id compactions = .ok files)
    (hstep : ∀ compaction ∈ compactions, ∀ id' output,
      compactionOutput env table id' compaction = .ok output → output ⊆ files →
        (output.flatMap F).Perm (G compaction)) :
    (files.flatMap F).Perm (compactions.flatMap G) := by
  induction compactions generalizing id files with
  | nil =>
    cases h
    exact .refl _
  | cons compaction compactions ih =>
    obtain ⟨output, houtput, h⟩ := bind_eq_ok.1 h
    obtain ⟨rest, hrest, h⟩ := bind_eq_ok.1 h
    cases h
    rw [List.flatMap_append, List.flatMap_cons]
    refine (hstep compaction List.mem_cons_self id output houtput
      (List.subset_append_left _ _)).append (ih hrest fun c hc id' o ho hsub => ?_)
    exact hstep c (List.mem_cons_of_mem _ hc) id' o ho
      (List.Subset.trans hsub (List.subset_append_right _ _))

theorem le_id_of_mem_outputs {compactions : List Compaction} {id : DataFileIndex}
    {files : List StoredDataFile} (h : compactionOutputs env table id compactions = .ok files) :
    ∀ file ∈ files, id ≤ file.id := by
  induction compactions generalizing id files with
  | nil =>
    cases h
    exact fun _ h => absurd h List.not_mem_nil
  | cons compaction compactions ih =>
    obtain ⟨output, houtput, h⟩ := bind_eq_ok.1 h
    obtain ⟨rest, hrest, h⟩ := bind_eq_ok.1 h
    cases h
    refine List.forall_mem_append.2 ⟨fun file hfile => ?_, fun file hfile => ?_⟩
    · exact (mem_outputFiles file (compactionOutput_spec houtput ▸ hfile)).1
    · exact (Nat.le_add_right _ _).trans (ih hrest file hfile)

/-- A file that has just got its id has no deletes. -/
theorem deletedAt_of_new {id fileId : DataFileIndex}
    (hdeletes : ∀ deletes ∈ table.deleteFiles, deletes.dataFileId < id)
    (hinlined : ∀ deletion ∈ table.inlinedDeletions, deletion.fileId < id) (hid : id ≤ fileId)
    (snapshot : SnapshotId) (place : Nat) : table.deletedAt snapshot fileId place = false := by
  unfold StoredTable.deletedAt
  rw [Bool.or_eq_false_iff, List.any_eq_false, List.any_eq_false]
  constructor
  · intro deletes hmem
    simp [((hdeletes deletes hmem).trans_le hid).ne]
  · intro deletion hmem
    simp [((hinlined deletion hmem).trans_le hid).ne]

theorem rowsAt_congr {table' : StoredTable} {snapshot : SnapshotId} {file : StoredDataFile}
    (h : ∀ place, table'.deletedAt snapshot file.id place = table.deletedAt snapshot file.id place) :
    table'.rowsAt snapshot file = table.rowsAt snapshot file := by
  simp only [StoredTable.rowsAt, h]

section Commit

variable {compactions : List Compaction} {table' : StoredTable} {snapshot : SnapshotId}
  {fields : List FieldIndex}

/-- The rows that a scan at the snapshot shows of a file. -/
def visibleOf (env : CompactionEnvironment) (table : StoredTable) (snapshot : SnapshotId)
    (fields : List FieldIndex) (file : StoredDataFile) : List (Option Nat × List Value) :=
  (table.rowsAt snapshot file).map fun row =>
    (row.rowId, readValues env.initialDefault fields row.values)

theorem visibleRows_eq (env : CompactionEnvironment) (table : StoredTable) (snapshot : SnapshotId)
    (fields : List FieldIndex) : table.visibleRows env.initialDefault snapshot fields =
      table.dataFiles.flatMap (visibleOf env table snapshot fields) := by
  rw [StoredTable.visibleRows, List.map_flatMap]
  rfl

/-- A table shows the same when the files that are no sources do, and the new files show what the
sources have shown. -/
theorem visibleRows_perm (hT : table.WellFormed)
    (hsources : ((compactions.flatMap (·.sourceFiles)).map (·.file)).Subperm table.dataFiles)
    {old files : List StoredDataFile} (hdata : table'.dataFiles = old ++ files)
    (hold : (old.flatMap (visibleOf env table' snapshot fields)).Perm ((table.dataFiles.filter
      (·.id ∉ (compactions.flatMap (·.sourceFiles)).map (·.file.id))).flatMap
        (visibleOf env table snapshot fields)))
    (hnew : (files.flatMap (visibleOf env table' snapshot fields)).Perm
      (compactions.flatMap fun compaction => compaction.sourceFiles.flatMap fun source =>
        visibleOf env table snapshot fields source.file)) :
    (table'.visibleRows env.initialDefault snapshot fields).Perm
      (table.visibleRows env.initialDefault snapshot fields) := by
  rw [visibleRows_eq, visibleRows_eq, hdata, List.flatMap_append]
  refine (hold.append hnew).trans ?_
  refine List.Perm.trans (.of_eq ?_) ((dataFiles_perm hT hsources).flatMap_right _)
  rw [List.flatMap_append, List.flatMap_map, List.flatMap_assoc]

theorem visibleRows_merge (hT : table.WellFormed) (hdefaults : env.DefaultsOutside table)
    (h : generateCompactions env table .mergeAdjacentTables = .ok compactions)
    (horder : ∀ compaction ∈ compactions, compaction.InRowIdOrder env table.snapshot)
    (hcommit : commitCompactions env table .mergeAdjacentTables compactions = .ok table') :
    (table'.visibleRows env.initialDefault snapshot fields).Perm
      (table.visibleRows env.initialDefault snapshot fields) := by
  obtain ⟨files, hfiles, hcommit⟩ := bind_eq_ok.1 hcommit
  cases hcommit
  obtain ⟨_, _, _, hsources⟩ := sourceFiles_subperm h
  refine visibleRows_perm hT hsources rfl (.of_eq ?_) (flatMap_outputs_perm hfiles ?_)
  · refine List.flatMap_congr fun file hfile => ?_
    have hid := of_decide_eq_true (List.mem_filter.1 hfile).2
    refine congrArg (List.map _) (rowsAt_congr fun place => ?_)
    unfold StoredTable.deletedAt
    congr 1
    rw [writeMergeAdjacent, List.any_filter]
    refine List.any_congr rfl fun deletes => ?_
    by_cases heq : deletes.dataFileId = file.id
    · simp [heq, hid]
    · simp [heq]
  · intro compaction hmem id output houtput hsub
    refine visible_merge hT hdefaults (prepared_of_generated h compaction hmem)
      (horder compaction hmem) houtput fun file hfile place => ?_
    refine deletedAt_of_new (fun deletes hmem => ?_) (fun deletion hmem => ?_)
      (le_id_of_mem_outputs hfiles file (hsub hfile)) snapshot place
    · exact hT.deletes_id_lt deletes (List.mem_of_mem_filter hmem)
    · exact hT.inlined_id_lt deletion hmem

/-! ### Rewrites -/

variable {sources : List CompactionCandidate}

/-- The delete files that end with a rewrite are those of its sources. -/
theorem endAt_of_ended (hselected : ∀ source ∈ sources, source.Selected table .rewriteDeletes)
    (hT : table.WellFormed) {deletes : StoredDeleteFile} (hmem : deletes ∈ table.deleteFiles)
    (hended : deletes.deleteFileId ∈ sources.filterMap fun source =>
      source.deleteFiles.getLast?.bind fun deletes =>
        if deletes.life.endAt.isNone then some deletes.deleteFileId else none) :
    deletes.life.endAt = none ∧ deletes.dataFileId ∈ sources.map (·.file.id) := by
  obtain ⟨source, hsource, hlast⟩ := List.mem_filterMap.1 hended
  obtain ⟨deletes', hlast, hlive⟩ := Option.bind_eq_some_iff.1 hlast
  obtain ⟨hmem', hid, hend⟩ :=
    (hselected source hsource).mem_deleteFiles.1 (List.mem_of_getLast? hlast)
  rw [hend, Option.isNone_none, if_pos rfl, Option.some.injEq] at hlive
  rw [← List.inj_on_of_nodup_map hT.deleteFileId_nodup hmem' hmem hlive]
  exact ⟨hend, List.mem_map.2 ⟨source, hsource, hid.symm⟩⟩

/-- A rewrite ends a delete file after the snapshots before it, and leaves those of other files. -/
theorem deletedAt_writeDeleteRewrites
    (hselected : ∀ source ∈ sources, source.Selected table .rewriteDeletes) (hT : table.WellFormed)
    {fileId : DataFileIndex}
    (h : snapshot ≤ table.snapshot ∨ fileId ∉ sources.map (·.file.id)) (place : Nat) :
    (writeDeleteRewrites table sources).deletedAt snapshot fileId place =
      table.deletedAt snapshot fileId place := by
  unfold StoredTable.deletedAt
  congr 1
  rw [writeDeleteRewrites, List.any_map, Bool.eq_iff_iff, List.any_eq_true, List.any_eq_true]
  refine exists_congr fun deletes => and_congr_right fun hmem => ?_
  dsimp only [Function.comp_def]
  split
  next hended =>
    obtain ⟨hend, hfile⟩ := endAt_of_ended hselected hT hmem hended
    rcases h with h | h
    · simp [Validity.visibleAt, hend, Nat.lt_succ_of_le h]
    · have hne : deletes.dataFileId ≠ fileId := fun heq => h (heq ▸ hfile)
      simp [hne]
  next => rfl

theorem writeDeleteRewrites_deletes_id_lt (hT : table.WellFormed) :
    ∀ deletes ∈ (writeDeleteRewrites table sources).deleteFiles,
      deletes.dataFileId < table.nextFileId := by
  intro deletes hmem
  obtain ⟨old, hold, rfl⟩ := List.mem_map.1 hmem
  split
  · exact hT.deletes_id_lt old hold
  · exact hT.deletes_id_lt old hold

/-- A file that has ended is read as before up to its end, and not at all from then on. -/
theorem rowsAt_ended {file : StoredDataFile} (hend : file.life.endAt = none)
    (hdeletes : snapshot ≤ table.snapshot →
      ∀ place, table'.deletedAt snapshot file.id place = table.deletedAt snapshot file.id place) :
    table'.rowsAt snapshot
        { file with life := ⟨file.life.beginAt, some (table.snapshot + 1)⟩ } =
      if snapshot ≤ table.snapshot then table.rowsAt snapshot file else [] := by
  split
  next hs =>
    simp only [StoredTable.rowsAt, Validity.visibleAt, hend, Option.all_some, Option.all_none,
      Nat.lt_succ_of_le hs, decide_true, hdeletes hs]
    rfl
  next hs =>
    have hlt : ¬ snapshot < table.snapshot + 1 := fun h => hs (Nat.le_of_lt_succ h)
    simp [StoredTable.rowsAt, Validity.visibleAt, hlt]

/-- What a scan shows of a file after a rewrite. -/
theorem visibleOf_writeDeleteRewrites (hT : table.WellFormed)
    (hselected : ∀ source ∈ sources, source.Selected table .rewriteDeletes)
    (hdeletes : table'.deleteFiles = (writeDeleteRewrites table sources).deleteFiles)
    (hinlined : table'.inlinedDeletions = table.inlinedDeletions) {file : StoredDataFile}
    (hfile : file ∈ table.dataFiles) :
    visibleOf env table' snapshot fields
        (if file.id ∈ sources.map (·.file.id) then
          { file with life := ⟨file.life.beginAt, some (table.snapshot + 1)⟩ }
        else file) =
      if table.snapshot < snapshot ∧ file.id ∈ sources.map (·.file.id) then []
      else visibleOf env table snapshot fields file := by
  have hsame : snapshot ≤ table.snapshot ∨ file.id ∉ sources.map (·.file.id) → ∀ place,
      table'.deletedAt snapshot file.id place = table.deletedAt snapshot file.id place := by
    intro h place
    rw [← deletedAt_writeDeleteRewrites hselected hT h place]
    simp only [StoredTable.deletedAt, hdeletes, hinlined]
    rfl
  unfold visibleOf
  split
  next hid =>
    obtain ⟨source, hsource, heq⟩ := List.mem_map.1 hid
    have hend : file.life.endAt = none := by
      rw [← List.inj_on_of_nodup_map hT.id_nodup (hselected source hsource).mem hfile heq]
      exact (hselected source hsource).endAt_eq
    rw [rowsAt_ended hend fun hs => hsame (.inl hs)]
    by_cases hs : snapshot ≤ table.snapshot
    · simp [hs, Nat.not_lt.2 hs]
    · simp [hs, Nat.lt_of_not_le hs, List.mem_map.1 hid]
  next hid =>
    rw [rowsAt_congr (hsame (.inr hid)), if_neg fun h => hid h.2]

theorem visibleRows_rewrite (hT : table.WellFormed) (hdefaults : env.DefaultsOutside table)
    (h : generateCompactions env table .rewriteDeletes = .ok compactions)
    (hcommit : commitCompactions env table .rewriteDeletes compactions = .ok table') :
    (table'.visibleRows env.initialDefault snapshot fields).Perm
      (table.visibleRows env.initialDefault snapshot fields) := by
  have hprepared := prepared_of_generated h
  obtain ⟨_, _, _, hsources⟩ := sourceFiles_subperm h
  have hselected : ∀ source ∈ compactions.flatMap (·.sourceFiles),
      source.Selected table .rewriteDeletes := by
    intro source hsource
    obtain ⟨compaction, hmem, hsource⟩ := List.mem_flatMap.1 hsource
    exact (hprepared compaction hmem).selected source hsource
  obtain ⟨files, hfiles, hcommit⟩ := bind_eq_ok.1 hcommit
  have hcommit := Except.ok.inj hcommit
  have hdata : table'.dataFiles = (writeDeleteRewrites table
      (compactions.flatMap (·.sourceFiles))).dataFiles ++ files := by rw [← hcommit]
  have hdeletes : table'.deleteFiles = (writeDeleteRewrites table
      (compactions.flatMap (·.sourceFiles))).deleteFiles := by rw [← hcommit]
  have hinlined : table'.inlinedDeletions = table.inlinedDeletions := by rw [← hcommit]; rfl
  have hold : ∀ file ∈ table.dataFiles, visibleOf env table' snapshot fields _ = _ :=
    fun file hfile => visibleOf_writeDeleteRewrites hT hselected hdeletes hinlined hfile
  by_cases hs : snapshot ≤ table.snapshot
  · -- before the commit the sources are still there, and the files are not
    have hnew : (files.flatMap (visibleOf env table' snapshot fields)).Perm
        (compactions.flatMap fun _ => []) :=
      flatMap_outputs_perm hfiles fun compaction hmem id output houtput _ => by
        refine .of_eq (List.flatMap_eq_nil_iff.2 fun file hfile => ?_)
        rw [visibleOf, invisible_rewrite (hprepared compaction hmem) houtput hs file hfile]
        rfl
    have hnil := (hnew.trans (.of_eq (List.flatMap_eq_nil_iff.2 fun _ _ => rfl))).eq_nil
    rw [visibleRows_eq, visibleRows_eq, hdata, List.flatMap_append, hnil, List.append_nil,
      writeDeleteRewrites, List.flatMap_map]
    refine .of_eq (List.flatMap_congr fun file hfile => ?_)
    rw [hold file hfile, if_neg fun h => Nat.not_lt.2 hs h.1]
  · have hs := Nat.lt_of_not_le hs
    refine visibleRows_perm hT hsources hdata ?_ (flatMap_outputs_perm hfiles ?_)
    · rw [writeDeleteRewrites, List.flatMap_map]
      refine ((dataFiles_perm hT hsources).symm.flatMap_right _).trans (.of_eq ?_)
      rw [List.flatMap_append, List.flatMap_map]
      have hended : ∀ source ∈ compactions.flatMap (·.sourceFiles), _ = [] := fun source hsource =>
        (hold source.file (hselected source hsource).mem).trans
          (if_pos ⟨hs, List.mem_map_of_mem hsource⟩)
      rw [List.flatMap_eq_nil_iff.2 hended, List.append_nil]
      refine List.flatMap_congr fun file hfile => ?_
      obtain ⟨hfile, hid⟩ := List.mem_filter.1 hfile
      rw [hold file hfile, if_neg fun h => of_decide_eq_true hid h.2]
    · intro compaction hmem id output houtput hsub
      refine visible_rewrite hT hdefaults (hprepared compaction hmem) houtput
        (fun file hfile place => ?_) hs
      refine deletedAt_of_new (hdeletes ▸ writeDeleteRewrites_deletes_id_lt hT)
        (hinlined ▸ hT.inlined_id_lt) (le_id_of_mem_outputs hfiles file (hsub hfile)) snapshot place

end Commit

/-! ## Row identity -/

/-- The row ids of a run that are not written: without a sort key no source may store a row id other
than that of the place, and a sort key has to order the rows by row ids that go on without gaps. -/
def RowIdsInOrder (env : CompactionEnvironment) (sources : List CompactionCandidate) : Prop :=
  filesAreAdjacent none sources = true →
    match sortOrders env with
    | [] => ∀ source ∈ sources, source.file.RowIdsByPlace
    | order :: orders => RowIdsFrom (sources.head?.bind (·.file.rowIdStart)) 0
        (env.orderBy (order :: orders) (sources.flatMap (·.file.allRows)))

/-- In every run of files that are merged, row ids that are not written are in order. -/
def MergesInRowIdOrder (env : CompactionEnvironment) (table : StoredTable) (type : CompactionType) :
    Prop :=
  type = .mergeAdjacentTables → ∀ candidates, getFilesForCompaction env table type = .ok candidates →
    ∀ run ∈ compactedRuns env type candidates, RowIdsInOrder env run.2

/-- What compactions keep of a table. -/
structure KeepsRowIdentity (env : CompactionEnvironment) (table : StoredTable)
    (type : CompactionType) (compactions : List Compaction) : Prop where
  /-- Each candidate is a source of at most one compaction. -/
  sources_subperm : ∀ candidates, getFilesForCompaction env table type = .ok candidates →
    (compactions.flatMap (·.sourceFiles)).Subperm candidates
  sources_nodup : ((compactions.flatMap (·.sourceFiles)).map (·.file.id)).Nodup
  sharesLayout : ∀ compaction ∈ compactions, compaction.SharesLayout env
  visibleRows : ∀ table', commitCompactions env table type compactions = .ok table' →
    ∀ snapshot fields, (table'.visibleRows env.initialDefault snapshot fields).Perm
      (table.visibleRows env.initialDefault snapshot fields)
  inRowIdOrder : ∀ compaction ∈ compactions, compaction.InRowIdOrder env table.snapshot

theorem rowIdsFrom_sources {sources : List CompactionCandidate} {start place : Nat}
    (h : filesAreAdjacent (some (start + place)) sources = true) :
    RowIdsFrom (some start) place (sources.flatMap (·.file.allRows)) ↔
      ∀ source ∈ sources, source.file.RowIdsByPlace := by
  induction sources generalizing place with
  | nil => simp [RowIdsFrom]
  | cons source sources ih =>
    rw [filesAreAdjacent] at h
    split at h
    · cases h
    next first hfirst =>
      rw [Bool.and_eq_true, Option.all_some, decide_eq_true_eq] at h
      obtain ⟨rfl, hrest⟩ := h
      rw [Nat.add_assoc] at hrest
      rw [List.flatMap_cons, rowIdsFrom_append, List.forall_mem_cons,
        StoredDataFile.rowIdsFrom_allRows hfirst, StoredDataFile.length_allRows, ih hrest]

theorem inRowIdOrder_iff {compaction : Compaction}
    {run : CompactionGroup × List CompactionCandidate}
    (hc : compaction.Prepared env table .mergeAdjacentTables)
    (hrun : compaction.Generated env .mergeAdjacentTables run) :
    compaction.InRowIdOrder env table.snapshot ↔ RowIdsInOrder env run.2 := by
  have hrows : compaction.sourceFiles.flatMap (·.scan table.snapshot compaction.type) =
      run.2.flatMap (·.file.allRows) := by
    rw [← hrun.sourceFiles_eq]
    exact List.flatMap_congr fun source hsource => by
      rw [type_eq hc, (hc.selected source hsource).scan_merge]
  have hwrite : compaction.writeRowId = false ↔ filesAreAdjacent none run.2 = true := by
    rw [hrun.writeRowId_eq, writesRowId, Bool.not_eq_false']
  unfold Compaction.InRowIdOrder RowIdsInOrder
  rw [hwrite]
  refine imp_congr_right fun hadjacent => ?_
  rw [hrun.rowIdStart_eq, hwrite.2 hadjacent, if_neg Bool.false_ne_true, writtenOrder, hrows,
    insertSort]
  cases sortOrders env with
  | cons order orders => rfl
  | nil =>
    cases hsources : run.2 with
    | nil => simp [RowIdsFrom]
    | cons source sources =>
      rw [hsources, filesAreAdjacent] at hadjacent
      split at hadjacent
      · cases hadjacent
      next first hfirst =>
        rw [List.head?_cons, Option.bind_some, hfirst]
        refine rowIdsFrom_sources ?_
        rw [filesAreAdjacent, hfirst]
        simpa using hadjacent

/-- Compactions keep the identity of the rows exactly when the merges that do not write row ids find
them in order. -/
theorem keepsRowIdentity_iff (hT : table.WellFormed) (hdefaults : env.DefaultsOutside table)
    {compactions : List Compaction}
    (h : generateCompactions env table type = .ok compactions) :
    KeepsRowIdentity env table type compactions ↔ MergesInRowIdOrder env table type := by
  obtain ⟨candidates, hcandidates, hsub, hfiles⟩ := sourceFiles_subperm h
  obtain ⟨candidates', hcandidates', hruns⟩ := generateCompactions_spec h
  have hprepared := prepared_of_generated h
  constructor
  · rintro hkeeps rfl candidates'' hget run hrun
    cases hcandidates'.symm.trans hget
    obtain ⟨compaction, hmem, hgenerated⟩ := (exists_of_mem_forall₂ hruns).1 run hrun
    exact (inRowIdOrder_iff (hprepared compaction hmem) hgenerated).1
      (hkeeps.inRowIdOrder compaction hmem)
  · intro horder
    have hinOrder : ∀ compaction ∈ compactions,
        compaction.InRowIdOrder env table.snapshot := by
      intro compaction hmem
      obtain ⟨run, hrun, hgenerated⟩ := (exists_of_mem_forall₂ hruns).2 compaction hmem
      cases type with
      | mergeAdjacentTables =>
        exact (inRowIdOrder_iff (hprepared compaction hmem) hgenerated).2
          (horder rfl candidates' hcandidates' run hrun)
      | rewriteDeletes =>
        intro hwrite
        rw [hgenerated.writeRowId_eq] at hwrite
        cases hwrite
    refine ⟨fun candidates'' hget => ?_, ?_, fun compaction hmem => (hprepared compaction hmem).layout,
      fun table' hcommit snapshot fields => ?_, hinOrder⟩
    · cases hcandidates.symm.trans hget
      exact hsub
    · have hnodup := nodup_of_subperm_map hfiles hT.id_nodup
      rwa [List.map_map] at hnodup
    · cases type with
      | mergeAdjacentTables => exact visibleRows_merge hT hdefaults h hinOrder hcommit
      | rewriteDeletes => exact visibleRows_rewrite hT hdefaults h hcommit

/-! ### Merges of small files -/

/-- Merges of a table with one column, which the sort key orders by `i DESC`. -/
def oneColumnEnvironment (sortData : Option DuckLakeSort) : CompactionEnvironment where
  targetFileSize := 100
  maxFiles := 1000
  reachesThreshold _ _ := true
  remainingSize size _ _ := size
  fieldsOf _ := some [⟨{ id := 1 }, "i", .primitive "int", []⟩]
  tableFields := []
  schemaVersion := 1
  initialDefault _ := none
  sortData := sortData
  -- the values are numbers of one digit
  orderBy _ rows := rows.insertionSort fun row row' =>
    (row'.values.lookup 1).join.getD [] ≤ (row.values.lookup 1).join.getD []
  orderBy_perm _ rows := List.perm_insertionSort _ rows
  groupOrder groups := groups
  groupOrder_perm _ := .refl _
  copyToFiles rows := [⟨"merged.parquet", 10, rows⟩]
  copyToFile rows := ⟨"merged.parquet", 10, rows⟩
  copyToFiles_perm rows := by simp
  copyToFile_rows _ := rfl

def descendingSort : DuckLakeSort := ⟨0, [⟨0, "i", "duckdb", false, false⟩]⟩

/-- A small file, where an update has stored the row ids of its rows. -/
def smallFile (id : DataFileIndex) (snapshot : SnapshotId) (rowIdStart : Nat)
    (rows : List (Text × Option Nat)) : StoredDataFile where
  id := id
  path := Text.ofNat id
  life := ⟨snapshot, none⟩
  rowIdStart := rowIdStart
  fileSizeBytes := 10
  rows := rows.map fun row => ⟨[(1, some row.1)], row.2, none⟩

theorem smallFile_dated (id : DataFileIndex) (snapshot : SnapshotId) (rowIdStart : Nat)
    (rows : List (Text × Option Nat)) : (smallFile id snapshot rowIdStart rows).Dated := by
  refine StoredDataFile.dated_of_unversioned rfl fun row hrow => ?_
  obtain ⟨_, _, rfl⟩ := List.mem_map.1 hrow
  rfl

/-- Two inserts, one after the other. -/
def insertedFiles : StoredTable where
  snapshot := 2
  nextFileId := 2
  schemaVersions := [(0, 1)]
  dataFiles := [smallFile 0 1 0 [("1", none), ("2", none)], smallFile 1 2 2 [("3", none)]]

/-- A row is updated, and another one is inserted then. -/
def updatedFiles : StoredTable where
  snapshot := 3
  nextFileId := 4
  schemaVersions := [(0, 1)]
  dataFiles := [smallFile 0 1 0 [("1", none), ("2", none)], smallFile 1 2 2 [("7", some 0)],
    smallFile 3 3 3 [("4", none)]]
  deleteFiles := [⟨2, 0, "delete.parquet", ⟨2, none⟩, ⟨[0], []⟩⟩]

theorem insertedFiles_wellFormed : insertedFiles.WellFormed := by
  constructor
  case dated =>
    simp only [insertedFiles, List.forall_mem_cons]
    exact ⟨smallFile_dated .., smallFile_dated .., fun _ h => absurd h List.not_mem_nil⟩
  case deletes_dated => exact fun _ h => absurd h List.not_mem_nil
  all_goals decide

theorem updatedFiles_wellFormed : updatedFiles.WellFormed := by
  constructor
  case dated =>
    simp only [updatedFiles, List.forall_mem_cons]
    exact ⟨smallFile_dated .., smallFile_dated .., smallFile_dated ..,
      fun _ h => absurd h List.not_mem_nil⟩
  case deletes_dated =>
    simp only [updatedFiles, List.forall_mem_singleton]
    exact ⟨.inl rfl, fun _ h => absurd h List.not_mem_nil⟩
  all_goals decide

theorem oneColumn_defaultsOutside {sortData : Option DuckLakeSort}
    (h : ∀ file ∈ table.dataFiles, ∀ row ∈ file.rows, row.values.map (·.1) = [1]) :
    (oneColumnEnvironment sortData).DefaultsOutside table := by
  intro file hfile version _ fields hfields row hrow field hfield
  cases hfields
  have hkeys := h file hfile row hrow
  obtain ⟨value, hvalues⟩ : ∃ value, row.values = [(1, value)] := by
    match hv : row.values with
    | [] => simp [hv] at hkeys
    | [(id, value)] => exact ⟨value, by simpa [hv] using hkeys⟩
    | _ :: _ :: _ => simp [hv] at hkeys
  have hne : field ≠ 1 := fun heq => hfield (heq ▸ List.mem_cons_self)
  simp [hvalues, List.lookup_cons, beq_eq_false_iff_ne.2 hne]

theorem keepsRowIdentity_insertedFiles :
    ∃ compactions, generateCompactions (oneColumnEnvironment none) insertedFiles
        .mergeAdjacentTables = .ok compactions ∧
      KeepsRowIdentity (oneColumnEnvironment none) insertedFiles .mergeAdjacentTables
        compactions := by
  refine ⟨_, rfl, (keepsRowIdentity_iff insertedFiles_wellFormed
    (oneColumn_defaultsOutside (by decide)) rfl).2 ?_⟩
  intro _ candidates hget run hrun _ source hsource
  have hselected := (getFilesForCompaction_spec hget).1 source
    ((compactedRun_of_mem run hrun).sublist.subset hsource)
  have hplain : ∀ file ∈ insertedFiles.dataFiles, file.RowIdsByPlace := by decide
  exact hplain source.file hselected.mem

/-- A sort key and a stored row id both make a merge give other row ids to the rows. -/
theorem not_keepsRowIdentity :
    (insertedFiles.WellFormed ∧
      (oneColumnEnvironment descendingSort).DefaultsOutside insertedFiles ∧
      ∃ compactions, generateCompactions (oneColumnEnvironment descendingSort) insertedFiles
          .mergeAdjacentTables = .ok compactions ∧
        ¬ KeepsRowIdentity (oneColumnEnvironment descendingSort) insertedFiles
          .mergeAdjacentTables compactions) ∧
    updatedFiles.WellFormed ∧
      (oneColumnEnvironment none).DefaultsOutside updatedFiles ∧
      ∃ compactions, generateCompactions (oneColumnEnvironment none) updatedFiles
          .mergeAdjacentTables = .ok compactions ∧
        ¬ KeepsRowIdentity (oneColumnEnvironment none) updatedFiles
          .mergeAdjacentTables compactions := by
  refine ⟨⟨insertedFiles_wellFormed, oneColumn_defaultsOutside (by decide), _, rfl, fun h => ?_⟩,
    updatedFiles_wellFormed, oneColumn_defaultsOutside (by decide), _, rfl, fun h => ?_⟩
  · exact absurd (h.visibleRows _ rfl 2 [1]) (by decide +kernel)
  · exact absurd (h.visibleRows _ rfl 3 [1]) (by decide +kernel)

end DuckLake
