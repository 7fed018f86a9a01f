import DuckLake.Storage.CompactionRows
import DuckLake.Storage.DeletedRows

/-!
# Tables after compactions

A commit of compactions replaces the sources of merges, and ends those of rewrites with its
snapshot. At every snapshot the table then shows the rows that it has shown before, when each
compaction keeps the rows of its sources.
-/

namespace DuckLake

variable {env : CompactionEnvironment} {table : StoredTable} {type : CompactionType}

/-! ## The rows of the sources -/

namespace CompactionCandidate.Selected

variable {source : CompactionCandidate}

/-- A file is merged only when it has no deletes at all. -/
theorem deletedAt_merge (hT : table.WellFormed)
    (h : source.Selected table .mergeAdjacentTables)
    (hcompactable : isCompactable env .mergeAdjacentTables source = true)
    (snapshot : SnapshotId) (place : Nat) :
    table.deletedAt snapshot source.file.id place = false := by
  obtain ⟨hdeletes, -, hinlined⟩ := h.of_merge
  simp only [isCompactable, Bool.and_eq_true, Bool.not_eq_true', Bool.or_eq_false_iff,
    decide_true, Bool.and_true, Bool.not_eq_false'] at hcompactable
  obtain ⟨-, ⟨hnil, hnone⟩, -⟩ := hcompactable
  rw [hdeletes, List.isEmpty_iff, ← List.length_eq_zero_iff, beginOrder,
    List.length_insertionSort, List.length_eq_zero_iff, List.filter_eq_nil_iff] at hnil
  rw [hinlined, List.any_eq_false] at hnone
  unfold StoredTable.deletedAt
  rw [Bool.or_eq_false_iff, List.any_eq_false, List.any_eq_false]
  constructor
  · intro deletes hmem
    simp [hnil deletes hmem]
  · intro deletion hmem
    have hid : deletion.fileId ≠ source.file.id := by
      simpa [hT.inlined_beginSnapshot_le deletion hmem] using hnone deletion hmem
    simp [hid]

theorem scan_merge (h : source.Selected table .mergeAdjacentTables) (snapshot : SnapshotId) :
    source.scan snapshot .mergeAdjacentTables = source.file.allRows := by
  simp [scan, StoredDataFile.allRows, h.of_merge.2.1]

theorem visibleAt_source (hT : table.WellFormed) (h : source.Selected table type)
    {snapshot : SnapshotId} (hs : table.snapshot ≤ snapshot) :
    source.file.life.visibleAt snapshot = true ∧
      source.file.partialMax.all (· ≤ snapshot) = true := by
  have hmax := hT.partialMax_le source.file h.mem
  have hbegin := ((hT.dated source.file h.mem).beginAt_le.trans hmax).trans hs
  refine ⟨by simp [Validity.visibleAt, h.endAt_eq, hbegin], ?_⟩
  cases heq : source.file.partialMax with
  | none => rfl
  | some max =>
    rw [heq, Option.getD_some] at hmax
    simpa using hmax.trans hs

/-- From the last snapshot on the deletes of a source are those that a rewrite applies. -/
theorem deletedAt_rewrite (hT : table.WellFormed) (h : source.Selected table .rewriteDeletes)
    {snapshot : SnapshotId} (hs : table.snapshot ≤ snapshot) (place : Nat) :
    table.deletedAt snapshot source.file.id place =
      (source.deleteFiles.getLast?.any (·.data.filters table.snapshot place) ||
        decide (place ∈ source.inlinedFileDeletions)) := by
  unfold StoredTable.deletedAt
  congr 1
  · rw [Bool.eq_iff_iff, List.any_eq_true, Option.any_eq_true]
    constructor
    · rintro ⟨deletes, hmem, hdeletes⟩
      simp only [Bool.and_eq_true, decide_eq_true_eq] at hdeletes
      obtain ⟨⟨hid, hvisible⟩, hfilters⟩ := hdeletes
      have hlive : deletes.life.endAt = none := by
        rw [Option.eq_none_iff_forall_not_mem]
        intro e he
        have hend := hT.deletes_endAt_le deletes hmem e he
        rw [Validity.visibleAt, Option.mem_def.1 he] at hvisible
        simp [Nat.not_lt.2 (hend.trans hs)] at hvisible
      have hsource := h.mem_deleteFiles.2 ⟨hmem, hid, hlive⟩
      -- the live delete file of the source is the only one
      have hlast := List.getLast?_eq_some_getLast (List.ne_nil_of_mem hsource)
      obtain ⟨hmem', hid', hlive'⟩ := h.mem_deleteFiles.1 (List.getLast_mem _)
      refine ⟨_, hlast, ?_⟩
      rw [hT.deletes_unique _ hmem' deletes hmem (hid'.trans hid.symm) hlive' hlive,
        (hT.deletes_dated deletes hmem).filters_iff le_rfl]
      exact ((hT.deletes_dated deletes hmem).filters_iff hs).1 hfilters
    · rintro ⟨deletes, hlast, hfilters⟩
      obtain ⟨hmem, hid, hlive⟩ := h.mem_deleteFiles.1 (List.mem_of_getLast? hlast)
      have hbegin := (hT.deletes_beginAt_le deletes hmem).trans hs
      have hdated := hT.deletes_dated deletes hmem
      refine ⟨deletes, hmem, ?_⟩
      rw [hdated.filters_iff le_rfl] at hfilters
      simp [hid, Validity.visibleAt, hlive, hbegin, (hdated.filters_iff hs).2 hfilters]
  · rw [h.of_rewrite.2, readInlinedFileDeletions, Bool.eq_iff_iff, List.any_eq_true,
      decide_eq_true_eq, OrdSet.mem_ofList, List.mem_map]
    refine exists_congr fun deletion => ?_
    rw [List.mem_filter, and_assoc]
    refine and_congr_right fun hmem => ?_
    have hle := hT.inlined_beginSnapshot_le deletion hmem
    simp [hle, hle.trans hs]

/-- From the last snapshot on a scan of the table reads of a source what a rewrite reads. -/
theorem rowsAt_rewrite (hT : table.WellFormed) (h : source.Selected table .rewriteDeletes)
    {snapshot : SnapshotId} (hs : table.snapshot ≤ snapshot) :
    table.rowsAt snapshot source.file = source.scan table.snapshot .rewriteDeletes := by
  obtain ⟨hvisible, hmax⟩ := h.visibleAt_source hT hs
  simp only [StoredTable.rowsAt, hvisible, hmax, if_true, Bool.true_or, List.filter_true,
    h.deletedAt_rewrite hT hs, scan, decide_true, Bool.true_and]

end CompactionCandidate.Selected

/-! ## Replacing the sources -/

theorem nodup_of_subperm_map {α β : Type} {f : α → β} {l l' : List α} (h : l.Subperm l')
    (hnodup : (l'.map f).Nodup) : (l.map f).Nodup := by
  obtain ⟨m, hperm, hsub⟩ := h
  exact (hperm.map f).nodup_iff.1 (hnodup.sublist (hsub.map f))

/-- The files of a table are its sources and the files that are not. -/
theorem dataFiles_perm (hT : table.WellFormed) {sources : List CompactionCandidate}
    (hsources : (sources.map (·.file)).Subperm table.dataFiles) :
    (table.dataFiles.filter (·.id ∉ sources.map (·.file.id)) ++ sources.map (·.file)).Perm
      table.dataFiles := by
  have hfiles : (table.dataFiles.filter (·.id ∈ sources.map (·.file.id))).Perm
      (sources.map (·.file)) := by
    have hnodup := List.Nodup.of_map _ hT.id_nodup
    refine (List.perm_ext_iff_of_nodup (hnodup.filter _)
      (List.Nodup.of_map (·.id) (nodup_of_subperm_map hsources hT.id_nodup))).2 fun file => ?_
    rw [List.mem_filter, decide_eq_true_eq]
    constructor
    · rintro ⟨hmem, hid⟩
      obtain ⟨source, hsource, heq⟩ := List.mem_map.1 hid
      have hfile := List.mem_map_of_mem (f := (·.file)) hsource
      exact List.inj_on_of_nodup_map hT.id_nodup (hsources.subset hfile) hmem heq ▸ hfile
    · intro hmem
      obtain ⟨source, hsource, rfl⟩ := List.mem_map.1 hmem
      exact ⟨hsources.subset hmem, List.mem_map_of_mem hsource⟩
  refine List.Perm.trans ?_ (List.filter_append_perm
    (fun file => decide (file.id ∉ sources.map (·.file.id))) table.dataFiles)
  refine List.Perm.append_left _ (hfiles.symm.trans (.of_eq ?_))
  exact List.filter_congr fun file _ => by rw [decide_not, Bool.not_not]

/-! ## Bounds of the output -/

theorem compactionOutput_spec {id : DataFileIndex} {compaction : Compaction}
    {files : List StoredDataFile} (h : compactionOutput env table id compaction = .ok files) :
    files = outputFiles compaction
      (compactionBounds (compaction.entry (compaction.writtenFiles env table.snapshot))
        (table.snapshot + 1)) id 0 (compaction.writtenFiles env table.snapshot) := by
  simp only [compactionOutput] at h
  split at h
  · cases h
  · split at h
    · cases h
    · exact (Except.ok.inj h).symm

theorem bounds_rewrite {compaction : Compaction} (htype : compaction.type = .rewriteDeletes)
    (files : List CompactedFile) (snapshot : SnapshotId) :
    compactionBounds (compaction.entry files) snapshot = (snapshot, none) := by
  simp [compactionBounds, Compaction.entry, htype]

/-- The output of a merge begins with its first source and reaches to the last snapshot of all. -/
theorem bounds_merge {compaction : Compaction} (htype : compaction.type = .mergeAdjacentTables)
    (hsorted : compaction.sourceFiles.Pairwise (·.file.life.beginAt ≤ ·.file.life.beginAt))
    (hlength : 1 < compaction.sourceFiles.length) (files : List CompactedFile)
    (snapshot : SnapshotId) :
    let bounds := compactionBounds (compaction.entry files) snapshot
    ∃ last, bounds.2 = some last ∧ ∀ source ∈ compaction.sourceFiles,
      bounds.1 ≤ source.file.life.beginAt ∧
        source.file.partialMax.getD source.file.life.beginAt ≤ last := by
  let lastSnapshot := fun source : CompactionCandidate =>
    source.file.partialMax.getD source.file.life.beginAt
  have hne : compaction.sourceFiles.map lastSnapshot ≠ [] := by
    rw [Ne, List.map_eq_nil_iff]
    exact List.ne_nil_of_length_pos (Nat.lt_of_succ_lt hlength)
  obtain ⟨last, hlast⟩ := Option.isSome_iff_exists.1 (List.isSome_max?_of_ne_nil hne)
  have hle := (List.max?_eq_some_iff.1 hlast).2
  have hentry : ∀ {β : Type} (f : DuckLakeCompactionFileEntry → β),
      (compaction.entry files).sourceFiles.map f =
        compaction.sourceFiles.map fun source => f source.entry := fun f => by
    simp [Compaction.entry]
  have htype' : (compaction.entry files).type = .mergeAdjacentTables := htype
  have hlength' : 1 < (compaction.entry files).sourceFiles.length := by
    simpa [Compaction.entry] using hlength
  simp only [compactionBounds, htype', hentry, hlength', if_true]
  refine ⟨last, hlast, fun source hsource => ⟨?_, hle _ (List.mem_map_of_mem hsource)⟩⟩
  cases hsources : compaction.sourceFiles with
  | nil => simp [hsources] at hlength
  | cons first rest =>
    rw [hsources] at hsorted hsource
    rw [List.map_cons, List.head?_cons, Option.getD_some]
    rcases List.mem_cons.1 hsource with rfl | hsource
    · exact le_rfl
    · exact List.rel_of_pairwise_cons hsorted hsource

/-! ## Compactions of a table -/

/-- A compaction as it is generated for files of the table. -/
structure Compaction.Prepared (env : CompactionEnvironment) (table : StoredTable)
    (type : CompactionType) (compaction : Compaction) : Prop where
  generated : ∃ run, compaction.Generated env type run
  layout : compaction.SharesLayout env
  selected : ∀ source ∈ compaction.sourceFiles, source.Selected table type
  compactable : ∀ source ∈ compaction.sourceFiles, isCompactable env type source = true
  sorted : compaction.sourceFiles.Pairwise (·.file.life.beginAt ≤ ·.file.life.beginAt)
  length_lt : type = .mergeAdjacentTables → 1 < compaction.sourceFiles.length

theorem flatMap_sourceFiles {runs : List (CompactionGroup × List CompactionCandidate)}
    {compactions : List Compaction}
    (h : List.Forall₂ (Compaction.Generated env type) runs compactions) :
    compactions.flatMap (·.sourceFiles) = runs.flatMap (·.2) := by
  induction h with
  | nil => rfl
  | cons hrun _ ih => rw [List.flatMap_cons, List.flatMap_cons, ih, hrun.sourceFiles_eq]

theorem prepared_of_generated {compactions : List Compaction}
    (h : generateCompactions env table type = .ok compactions) :
    ∀ compaction ∈ compactions, compaction.Prepared env table type := by
  obtain ⟨candidates, hcandidates, hruns⟩ := generateCompactions_spec h
  obtain ⟨hselected, _, hsorted⟩ := getFilesForCompaction_spec hcandidates
  intro compaction hmem
  obtain ⟨run, hrun, hgenerated⟩ := (exists_of_mem_forall₂ hruns).2 compaction hmem
  have hrun := compactedRun_of_mem run hrun
  have hsources := hgenerated.sourceFiles_eq
  refine ⟨⟨run, hgenerated⟩, hgenerated.sharesLayout hrun, ?_, ?_, ?_, fun htype => ?_⟩
  · exact fun source hsource => hselected source (hrun.sublist.subset (hsources ▸ hsource))
  · exact fun source hsource => hrun.compactable source (hsources ▸ hsource)
  · exact hsources ▸ hsorted.sublist hrun.sublist
  · have hne := List.length_pos_iff.2 hrun.ne_nil
    have hone := hrun.length_ne htype
    rw [hsources]
    omega

/-- Each candidate is a source of at most one compaction. -/
theorem sourceFiles_subperm {compactions : List Compaction}
    (h : generateCompactions env table type = .ok compactions) :
    ∃ candidates, getFilesForCompaction env table type = .ok candidates ∧
      (compactions.flatMap (·.sourceFiles)).Subperm candidates ∧
      ((compactions.flatMap (·.sourceFiles)).map (·.file)).Subperm table.dataFiles := by
  obtain ⟨candidates, hcandidates, hruns⟩ := generateCompactions_spec h
  have hsub : (compactions.flatMap (·.sourceFiles)).Subperm candidates :=
    flatMap_sourceFiles hruns ▸ compactedRuns_subperm candidates
  obtain ⟨sources, hperm, hsublist⟩ := hsub
  have hfiles : ((compactions.flatMap (·.sourceFiles)).map (·.file)).Subperm
      (candidates.map (·.file)) := ⟨_, hperm.map _, hsublist.map _⟩
  exact ⟨candidates, hcandidates, ⟨sources, hperm, hsublist⟩,
    hfiles.trans (getFilesForCompaction_spec hcandidates).2.1⟩

/-! ## What is read of the output -/

section Output

variable {compaction : Compaction} {id : DataFileIndex} {files : List StoredDataFile}

theorem outputRow_view (hdefaults : env.DefaultsOutside table)
    (hc : compaction.Prepared env table type) (beginAt : SnapshotId) (fields : List FieldIndex)
    {row : ReadRow}
    (hrow : row ∈ compaction.sourceFiles.flatMap (·.scan table.snapshot compaction.type)) :
    ((compaction.outputRow env beginAt row).rowId, readValues env.initialDefault fields
        (compaction.outputRow env beginAt row).values) =
      (row.rowId, readValues env.initialDefault fields row.values) := by
  obtain ⟨source, hsource, hrow⟩ := List.mem_flatMap.1 hrow
  exact Prod.ext rfl (readValues_written hdefaults hc.layout hsource (hc.selected source hsource)
    hrow fields)

/-- A stored row of the output comes from a row of the sources. -/
theorem exists_of_mem_output
    (h : compactionOutput env table id compaction = .ok files) {file : StoredDataFile}
    (hfile : file ∈ files) {row : StoredRow} (hrow : row ∈ file.rows) :
    ∃ read ∈ compaction.sourceFiles.flatMap (·.scan table.snapshot compaction.type),
      row = compaction.storedRow env read := by
  rw [compactionOutput_spec h] at hfile
  have hwritten := (mem_outputFiles file hfile).2.2.2 row hrow
  have hperm : ((compaction.writtenFiles env table.snapshot).flatMap (·.rows)).Perm
      ((writtenOrder env table.snapshot compaction.type compaction.sourceFiles).map
        (compaction.storedRow env)) := by
    simp only [Compaction.writtenFiles]
    split
    · exact env.copyToFiles_perm _
    · split
      next hnil => rw [List.isEmpty_iff.1 hnil]; exact .refl _
      next => rw [List.flatMap_singleton, env.copyToFile_rows]
  obtain ⟨read, hread, rfl⟩ := List.mem_map.1 (hperm.subset hwritten)
  exact ⟨read, (insertSort_perm _).subset hread, rfl⟩

theorem type_eq (hc : compaction.Prepared env table type) : compaction.type = type :=
  hc.generated.elim fun _ h => h.type_eq

/-- The output of a merge says from which snapshots its rows are. -/
theorem dated_output (hT : table.WellFormed)
    (hc : compaction.Prepared env table .mergeAdjacentTables)
    (h : compactionOutput env table id compaction = .ok files) :
    ∀ file ∈ files, file.Dated := by
  intro file hfile
  have hrows : ∀ row ∈ file.rows, ∃ read ∈ _, row = compaction.storedRow env read :=
    fun row hrow => exists_of_mem_output h hfile hrow
  have hfile' := compactionOutput_spec h ▸ hfile
  obtain ⟨-, hlife, hmax, -⟩ := mem_outputFiles file hfile'
  obtain ⟨last, hlast, hbounds⟩ := bounds_merge (type_eq hc) hc.sorted (hc.length_lt rfl)
    (compaction.writtenFiles env table.snapshot) (table.snapshot + 1)
  rw [hlast] at hmax
  have hids : ∀ row ∈ file.rows, ∀ id ∈ row.snapshotId,
      file.life.beginAt ≤ id ∧ id ≤ last := by
    intro row hrow id hid
    obtain ⟨read, hread, rfl⟩ := hrows row hrow
    obtain ⟨source, hsource, hread⟩ := List.mem_flatMap.1 hread
    obtain ⟨hfirst, hlast⟩ := hbounds source hsource
    obtain ⟨hbegin, hend⟩ := (hT.dated _ (hc.selected source hsource).mem).mem_range _ read hread
    have heq : read.snapshotId = id := by
      obtain ⟨run, hrun⟩ := hc.generated
      simpa [Compaction.storedRow, hrun.writeSnapshotId_eq] using hid
    rw [hlife, ← heq]
    exact ⟨hfirst.trans hbegin, hend.trans hlast⟩
  obtain ⟨source, hsource⟩ := List.exists_mem_of_length_pos (Nat.lt_of_succ_lt (hc.length_lt rfl))
  obtain ⟨hfirst, hlast⟩ := hbounds source hsource
  have hsource := (hT.dated _ (hc.selected source hsource).mem).beginAt_le
  refine ⟨?_, fun row hrow id hid => (hids row hrow id hid).1, fun row hrow id hid => ?_⟩
  · rw [hmax, hlife, Option.getD_some]
    exact hfirst.trans (hsource.trans hlast)
  · rw [hmax, Option.getD_some]
    exact (hids row hrow id hid).2

end Output

end DuckLake
