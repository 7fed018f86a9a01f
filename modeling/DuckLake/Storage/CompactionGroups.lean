import Mathlib.Data.List.Flatten
import Mathlib.Data.List.ReduceOption
import DuckLake.Lib.Guard
import DuckLake.Storage.Compaction

/-!
# The source files of compactions

Which files a compaction takes: each candidate goes into at most one compaction, and the sources of
a compaction lie in one partition and can be read with the fields that the compaction is bound to.
-/

namespace DuckLake

open DuckLakeFieldId

variable {env : CompactionEnvironment} {table : StoredTable} {type : CompactionType}

/-! ## Fields -/

mutual

theorem sameType_refl : ∀ field : DuckLakeFieldId, sameType field field = true
  | ⟨_, _, _, children⟩ => by simp [sameType, sameTypes_refl children]

theorem sameTypes_refl : ∀ fields : List DuckLakeFieldId, sameTypes fields fields = true
  | [] => rfl
  | field :: fields => by simp [sameTypes, sameType_refl field, sameTypes_refl fields]

end

/-- Files with the fields can be read and written with the others: each field is there, under its
id, with its name and its type. -/
def ReadableUnder (fields latest : List DuckLakeFieldId) : Prop :=
  ∀ field ∈ flatFields fields, ∃ field' ∈ flatFields latest,
    field'.columnData.id = field.columnData.id ∧ field'.name = field.name ∧
      sameType field field' = true

theorem ReadableUnder.refl (fields : List DuckLakeFieldId) : ReadableUnder fields fields :=
  fun field h => ⟨field, h, rfl, rfl, sameType_refl field⟩

theorem ReadableUnder.fieldIds_subset {fields latest : List DuckLakeFieldId}
    (h : ReadableUnder fields latest) : fieldIds fields ⊆ fieldIds latest := by
  intro id hid
  obtain ⟨field, hfield, rfl⟩ := List.mem_map.1 hid
  obtain ⟨field', hfield', heq, _⟩ := h field hfield
  exact List.mem_map.2 ⟨field', hfield', heq⟩

mutual

theorem exists_of_fieldPreserved {latest : List DuckLakeFieldId} :
    ∀ field, fieldPreservedInLatest latest field = true → ∀ f ∈ field.flat,
      ∃ f' ∈ flatFields latest, f'.columnData.id = f.columnData.id ∧ f'.name = f.name ∧
        sameType f f' = true
  | ⟨data, name, type, children⟩, h, f, hf => by
    rw [fieldPreservedInLatest, Bool.and_eq_true] at h
    obtain ⟨hfield, hchildren⟩ := h
    rw [flat] at hf
    rcases List.mem_cons.1 hf with rfl | hf
    · split at hfield
      · cases hfield
      · rename_i field' hget
        rw [Bool.and_eq_true, decide_eq_true_eq] at hfield
        have hid := List.find?_some hget
        rw [decide_eq_true_eq] at hid
        exact ⟨field', List.mem_of_find?_eq_some hget, hid, hfield.1.symm, hfield.2⟩
    · exact readableUnder_of_preserved children hchildren f hf

theorem readableUnder_of_preserved {latest : List DuckLakeFieldId} :
    ∀ fields, fieldsPreservedInLatest latest fields = true → ReadableUnder fields latest
  | [], _ => fun _ h => absurd h List.not_mem_nil
  | field :: fields, h => by
    rw [fieldsPreservedInLatest, Bool.and_eq_true] at h
    intro f hf
    rw [flatFields] at hf
    rcases List.mem_append.1 hf with hf | hf
    · exact exists_of_fieldPreserved field h.1 f hf
    · exact readableUnder_of_preserved fields h.2 f hf

end

/-! ## Candidates -/

theorem compactionCandidate_file {file : StoredDataFile} {candidate : CompactionCandidate}
    (h : compactionCandidate table type file = .ok candidate) : candidate.file = file := by
  unfold compactionCandidate at h
  split at h
  · cases h
  · cases type <;> exact (Except.ok.inj h) ▸ rfl

/-- A file as `getFilesForCompaction` returns it. -/
structure CompactionCandidate.Selected (table : StoredTable) (type : CompactionType)
    (candidate : CompactionCandidate) : Prop where
  mem : candidate.file ∈ table.dataFiles
  endAt_eq : candidate.file.life.endAt = none
  candidate_eq : compactionCandidate table type candidate.file = .ok candidate

namespace CompactionCandidate.Selected

variable {source : CompactionCandidate}

theorem schemaVersionAt (h : source.Selected table type) :
    table.schemaVersionAt (source.file.partialMax.getD source.file.life.beginAt) =
      some source.schemaVersion := by
  have heq := h.candidate_eq
  unfold compactionCandidate at heq
  split at heq
  · cases heq
  next version hversion =>
    rw [hversion]
    cases type <;> rw [← Except.ok.inj heq]

theorem of_merge (h : source.Selected table .mergeAdjacentTables) :
    source.deleteFiles = beginOrder (table.deleteFiles.filter (·.dataFileId = source.file.id)) ∧
      source.inlinedFileDeletions = ∅ ∧
      source.hasInlinedDeletions = table.inlinedDeletions.any fun deletion =>
        deletion.fileId = source.file.id && deletion.beginSnapshot ≤ table.snapshot := by
  have heq := h.candidate_eq
  unfold compactionCandidate at heq
  split at heq
  · cases heq
  · rw [← Except.ok.inj heq]
    exact ⟨rfl, rfl, rfl⟩

theorem of_rewrite (h : source.Selected table .rewriteDeletes) :
    source.deleteFiles = (beginOrder (table.deleteFiles.filter
        (·.dataFileId = source.file.id))).filter (·.life.endAt.isNone) ∧
      source.inlinedFileDeletions = readInlinedFileDeletions table source.file.id := by
  have heq := h.candidate_eq
  unfold compactionCandidate at heq
  split at heq
  · cases heq
  · rw [← Except.ok.inj heq]
    exact ⟨rfl, rfl⟩

/-- The delete files of a candidate for a rewrite are the live ones of its file. -/
theorem mem_deleteFiles (h : source.Selected table .rewriteDeletes) {deletes : StoredDeleteFile} :
    deletes ∈ source.deleteFiles ↔ deletes ∈ table.deleteFiles ∧
      deletes.dataFileId = source.file.id ∧ deletes.life.endAt = none := by
  rw [h.of_rewrite.1, List.mem_filter, beginOrder, List.mem_insertionSort, List.mem_filter,
    decide_eq_true_eq, Option.isNone_iff_eq_none, and_assoc]

/-- No delete file of a candidate for a rewrite has ended. -/
theorem deleteFile_live (h : source.Selected table .rewriteDeletes) :
    source.deleteFiles.getLast?.bind (·.life.endAt) = none := by
  cases hlast : source.deleteFiles.getLast? with
  | none => rfl
  | some deletes => exact (h.mem_deleteFiles.1 (List.mem_of_getLast? hlast)).2.2

end CompactionCandidate.Selected

theorem compactionFileFilter_endAt {file : StoredDataFile}
    (h : compactionFileFilter env table file type = true) : file.life.endAt = none := by
  cases type <;>
    simp only [compactionFileFilter, Bool.and_eq_true, Option.isNone_iff_eq_none] at h
  · exact h.1.1.1
  · exact h.1

theorem pairwise_beginAt_compactionOrder (files : List StoredDataFile) :
    (compactionOrder files).Pairwise (·.life.beginAt ≤ ·.life.beginAt) := by
  let r : StoredDataFile → StoredDataFile → Prop := fun file file' => file.sortKey ≤ file'.sortKey
  have htotal : Std.Total r := ⟨fun _ _ => le_total _ _⟩
  have htrans : IsTrans StoredDataFile r := ⟨fun _ _ _ => le_trans⟩
  refine (List.pairwise_insertionSort r files).imp fun {file file'} h => ?_
  rcases (Prod.Lex.le_iff (x := file.sortKey) (y := file'.sortKey)).1 h with h | h
  · exact h.le
  · exact h.1.le

theorem map_file_of_candidates {files : List StoredDataFile} {candidates : List CompactionCandidate}
    (h : List.Forall₂ (fun file candidate => compactionCandidate table type file = .ok candidate)
      files candidates) : candidates.map (·.file) = files := by
  induction h with
  | nil => rfl
  | cons hfile _ ih => rw [List.map_cons, ih, compactionCandidate_file hfile]

/-- The candidates are files of the table, each at most once, in the order of their snapshots. -/
theorem getFilesForCompaction_spec {candidates : List CompactionCandidate}
    (h : getFilesForCompaction env table type = .ok candidates) :
    (∀ candidate ∈ candidates, candidate.Selected table type) ∧
      (candidates.map (·.file)).Subperm table.dataFiles ∧
      candidates.Pairwise (·.file.life.beginAt ≤ ·.file.life.beginAt) := by
  obtain ⟨all, hall, h⟩ := bind_eq_ok.1 h
  have hsub : candidates.Sublist all := by
    cases type with
    | mergeAdjacentTables => exact (Except.ok.inj h) ▸ List.Sublist.refl _
    | rewriteDeletes => exact (Except.ok.inj h) ▸ List.filter_sublist
  have hmap := map_file_of_candidates (mapM_eq_ok_iff.1 hall)
  generalize hselected : table.dataFiles.filter (compactionFileFilter env table · type) = selected
    at hmap
  have hperm : (all.map (·.file)).Perm selected := hmap ▸ List.perm_insertionSort _ selected
  refine ⟨fun candidate hmem => ?_, ?_, ?_⟩
  · have hmem := hsub.subset hmem
    obtain ⟨file, _, hfile⟩ := (mapM_ok hall).2 candidate hmem
    have hselect := hperm.subset (List.mem_map_of_mem hmem)
    rw [← hselected] at hselect
    refine ⟨List.mem_of_mem_filter hselect,
      compactionFileFilter_endAt (List.mem_filter.1 hselect).2, ?_⟩
    rw [compactionCandidate_file hfile]
    exact hfile
  · refine (hsub.map _).subperm.trans (hperm.subperm.trans ?_)
    exact hselected ▸ List.filter_sublist.subperm
  · have hsorted := pairwise_beginAt_compactionOrder selected
    rw [← hmap] at hsorted
    exact (List.pairwise_map.1 hsorted).sublist hsub

/-! ## Runs -/

section Runs

variable {size : CompactionCandidate → Nat} {target : Nat}

theorem flatten_compactionRuns (current : List CompactionCandidate) (currentFileSize : Nat)
    (files : List CompactionCandidate) :
    (compactionRuns size target current currentFileSize files).flatten = current ++ files := by
  induction files generalizing current currentFileSize with
  | nil =>
    rw [compactionRuns, List.append_nil]
    split
    next h => rw [List.flatten_nil, List.isEmpty_iff.1 h]
    next => exact List.flatten_singleton
  | cons file files ih =>
    rw [compactionRuns]
    split
    · rw [List.flatten_cons, ih, List.singleton_append]
    · rw [ih, List.append_assoc, List.singleton_append]

theorem ne_nil_of_mem_compactionRuns {current : List CompactionCandidate} {currentFileSize : Nat}
    {files : List CompactionCandidate} (hcurrent : current = [] → currentFileSize = 0) :
    ∀ run ∈ compactionRuns size target current currentFileSize files, run ≠ [] := by
  induction files generalizing current currentFileSize with
  | nil =>
    rw [compactionRuns]
    split
    next => exact fun _ h => absurd h List.not_mem_nil
    next h => exact List.forall_mem_singleton.2 fun hnil => h (List.isEmpty_iff.2 hnil)
  | cons file files ih =>
    rw [compactionRuns]
    split
    next h =>
      refine List.forall_mem_cons.2 ⟨fun hnil => ?_, ih fun h => absurd h (List.cons_ne_nil _ _)⟩
      simp [movesAway, hcurrent hnil] at h
    next => exact ih fun h => absurd h (by simp)

end Runs

/-- A run of files that is compacted. -/
structure CompactedRun (env : CompactionEnvironment) (type : CompactionType)
    (candidates : List CompactionCandidate)
    (run : CompactionGroup × List CompactionCandidate) : Prop where
  sublist : run.2.Sublist candidates
  group_eq : ∀ source ∈ run.2, compactionGroup env type source = run.1
  compactable : ∀ source ∈ run.2, isCompactable env type source = true
  ne_nil : run.2 ≠ []
  length_ne : type = .mergeAdjacentTables → run.2.length ≠ 1

theorem compactedRun_of_mem {candidates : List CompactionCandidate} :
    ∀ run ∈ compactedRuns env type candidates, CompactedRun env type candidates run := by
  intro run hrun
  obtain ⟨hrun, hlength⟩ := List.mem_filter.1 hrun
  obtain ⟨group, hgroup, hrun⟩ := List.mem_flatMap.1 (List.mem_of_mem_take hrun)
  obtain ⟨files, hfiles, rfl⟩ := List.mem_map.1 hrun
  have hgroup := (env.groupOrder_perm _).subset (List.mem_of_mem_filter hgroup)
  have hsub := List.sublist_flatten_of_mem hfiles
  rw [flatten_compactionRuns, List.nil_append] at hsub
  have hfiltered := hsub.trans (sublist_of_mem_groupByKey group hgroup)
  refine ⟨hfiltered.trans List.filter_sublist, fun source hsource => ?_, fun source hsource => ?_,
    ne_nil_of_mem_compactionRuns (fun _ => rfl) files hfiles, fun htype hone => ?_⟩
  · exact key_of_mem_groupByKey group hgroup source (hsub.subset hsource)
  · exact List.of_mem_filter (hfiltered.subset hsource)
  · simp [htype, hone] at hlength

/-- No candidate is in two runs, or twice in a run. -/
theorem compactedRuns_subperm (candidates : List CompactionCandidate) :
    ((compactedRuns env type candidates).flatMap (·.2)).Subperm candidates := by
  have hruns : ∀ l : List (CompactionGroup × List CompactionCandidate),
      (l.flatMap fun group => (compactionRuns (compactionSize env type) env.targetFileSize [] 0
        group.2).map (group.1, ·)).flatMap (·.2) = l.flatMap (·.2) := by
    intro l
    rw [List.flatMap_assoc]
    refine List.flatMap_congr fun group _ => ?_
    rw [List.flatMap_map, List.flatMap_id']
    exact flatten_compactionRuns [] 0 group.2
  have hsub := (List.filter_sublist.trans (List.take_sublist _ _) :
    (compactedRuns env type candidates).Sublist _).flatMap (·.2)
  rw [hruns] at hsub
  refine hsub.subperm.trans ((List.filter_sublist.flatMap _).subperm.trans ?_)
  refine ((env.groupOrder_perm _).flatMap_right _).subperm.trans ?_
  exact (groupByKey_perm _ _).subperm.trans List.filter_sublist.subperm

/-! ## Commands -/

/-- What a command takes over from the run that it is generated for. -/
structure Compaction.Generated (env : CompactionEnvironment) (type : CompactionType)
    (run : CompactionGroup × List CompactionCandidate) (compaction : Compaction) : Prop where
  type_eq : compaction.type = type
  sourceFiles_eq : compaction.sourceFiles = run.2
  bound : boundFields env run.1 = .ok compaction.fields
  writeRowId_eq : compaction.writeRowId = writesRowId type run.2
  writeSnapshotId_eq : compaction.writeSnapshotId = decide (type = .mergeAdjacentTables)
  rowIdStart_eq : compaction.rowIdStart =
    if compaction.writeRowId then none else run.2.head?.bind (·.file.rowIdStart)
  partitionId_eq : compaction.partitionId = run.1.partitionId
  partitionValues_eq : compaction.partitionValues = run.1.partitionValues

theorem actionableFile_eq {source : CompactionCandidate} {result : Option CompactionCandidate}
    (hsource : source.Selected table type) (h : actionableFile type source = .ok result) :
    result = some source := by
  cases type with
  | mergeAdjacentTables =>
    rw [actionableFile] at h
    split at h
    · exact (Except.ok.inj h).symm
    · cases h
  | rewriteDeletes =>
    rw [actionableFile, hsource.deleteFile_live] at h
    exact (Except.ok.inj h).symm

theorem reduceOption_of_actionable {sources : List CompactionCandidate}
    (hsources : ∀ source ∈ sources, source.Selected table type)
    {files : List (Option CompactionCandidate)}
    (h : List.Forall₂ (fun source file => actionableFile type source = .ok file) sources files) :
    files.reduceOption = sources := by
  induction h with
  | nil => rfl
  | cons hfile _ ih =>
    obtain ⟨hsource, hsources⟩ := List.forall_mem_cons.1 hsources
    rw [actionableFile_eq hsource hfile, List.reduceOption_cons_of_some, ih hsources]

theorem generateCompactionCommand_spec {run : CompactionGroup × List CompactionCandidate}
    (hsources : ∀ source ∈ run.2, source.Selected table type) (hne : run.2 ≠ [])
    {result : Option Compaction} (h : generateCompactionCommand env type run = .ok result) :
    ∃ compaction, result = some compaction ∧ compaction.Generated env type run := by
  obtain ⟨fields, hfields, h⟩ := bind_eq_ok.1 h
  obtain ⟨files, hfiles, h⟩ := bind_eq_ok.1 h
  have hreduce := reduceOption_of_actionable hsources (mapM_eq_ok_iff.1 hfiles)
  have h := Except.ok.inj h
  simp only [hreduce, List.isEmpty_iff, hne, if_false] at h
  exact ⟨_, h.symm, rfl, rfl, hfields, rfl, rfl, rfl, rfl, rfl⟩

theorem reduceOption_of_commands {runs : List (CompactionGroup × List CompactionCandidate)}
    (hruns : ∀ run ∈ runs, (∀ source ∈ run.2, source.Selected table type) ∧ run.2 ≠ [])
    {results : List (Option Compaction)}
    (h : List.Forall₂ (fun run result => generateCompactionCommand env type run = .ok result)
      runs results) :
    List.Forall₂ (Compaction.Generated env type) runs results.reduceOption := by
  induction h with
  | nil => exact .nil
  | cons hresult _ ih =>
    obtain ⟨hrun, hruns⟩ := List.forall_mem_cons.1 hruns
    obtain ⟨compaction, rfl, hcompaction⟩ := generateCompactionCommand_spec hrun.1 hrun.2 hresult
    rw [List.reduceOption_cons_of_some]
    exact .cons hcompaction (ih hruns)

/-- There is one compaction for each run. -/
theorem generateCompactions_spec {compactions : List Compaction}
    (h : generateCompactions env table type = .ok compactions) :
    ∃ candidates, getFilesForCompaction env table type = .ok candidates ∧
      List.Forall₂ (Compaction.Generated env type) (compactedRuns env type candidates)
        compactions := by
  obtain ⟨candidates, hcandidates, h⟩ := bind_eq_ok.1 h
  obtain ⟨results, hresults, h⟩ := bind_eq_ok.1 h
  obtain ⟨hselected, _⟩ := getFilesForCompaction_spec hcandidates
  have hruns : ∀ run ∈ compactedRuns env type candidates,
      (∀ source ∈ run.2, source.Selected table type) ∧ run.2 ≠ [] := by
    intro run hrun
    have hrun := compactedRun_of_mem run hrun
    exact ⟨fun source hsource => hselected source (hrun.sublist.subset hsource), hrun.ne_nil⟩
  refine ⟨candidates, hcandidates, ?_⟩
  rw [← Except.ok.inj h]
  exact reduceOption_of_commands hruns (mapM_eq_ok_iff.1 hresults)

/-- The sources lie in one partition and are read with fields that cover those of their schemas. -/
structure Compaction.SharesLayout (env : CompactionEnvironment) (compaction : Compaction) :
    Prop where
  partitionId_eq : ∀ source ∈ compaction.sourceFiles,
    source.file.partitionId = compaction.partitionId
  partitionValues_eq : ∀ source ∈ compaction.sourceFiles,
    source.file.partitionValues = compaction.partitionValues
  readable : ∀ source ∈ compaction.sourceFiles, ∃ fields,
    env.fieldsOf source.schemaVersion = some fields ∧ ReadableUnder fields compaction.fields

theorem readable_of_canMergeIntoLatest {version : Nat} {latest : List DuckLakeFieldId}
    (hlatest : env.fieldsOf env.schemaVersion = some latest)
    (h : canMergeIntoLatest env type version = true) :
    ∃ fields, env.fieldsOf version = some fields ∧ ReadableUnder fields latest := by
  cases type with
  | rewriteDeletes => cases h
  | mergeAdjacentTables =>
    simp only [canMergeIntoLatest, hlatest] at h
    split at h
    next heq => exact ⟨latest, heq ▸ hlatest, .refl latest⟩
    next =>
      split at h
      · cases h
      · split at h
        next => cases h
        next fields hfields => exact ⟨fields, hfields, readableUnder_of_preserved fields h⟩

theorem fieldsOf_of_bound {group : CompactionGroup} {fields : List DuckLakeFieldId}
    (h : boundFields env group = .ok fields) :
    env.fieldsOf (group.schemaVersion.getD env.schemaVersion) = some fields := by
  unfold boundFields at h
  split at h
  next => cases h
  next heq => exact Except.ok.inj h ▸ heq

theorem Compaction.Generated.sharesLayout {candidates : List CompactionCandidate}
    {run : CompactionGroup × List CompactionCandidate} {compaction : Compaction}
    (h : compaction.Generated env type run) (hrun : CompactedRun env type candidates run) :
    compaction.SharesLayout env := by
  have hgroup : ∀ source ∈ compaction.sourceFiles, compactionGroup env type source = run.1 :=
    fun source hsource => hrun.group_eq source (h.sourceFiles_eq ▸ hsource)
  refine ⟨fun source hsource => ?_, fun source hsource => ?_, fun source hsource => ?_⟩
  · rw [h.partitionId_eq, ← hgroup source hsource]
    rfl
  · rw [h.partitionValues_eq, ← hgroup source hsource]
    rfl
  · have hfields := fieldsOf_of_bound h.bound
    rw [← hgroup source hsource] at hfields
    cases hmerge : canMergeIntoLatest env type source.schemaVersion with
    | true =>
      simp only [compactionGroup, hmerge, if_true, Option.getD_none] at hfields
      exact readable_of_canMergeIntoLatest hfields hmerge
    | false =>
      simp only [compactionGroup, hmerge, Bool.false_eq_true, if_false, Option.getD_some] at hfields
      exact ⟨compaction.fields, hfields, .refl _⟩

end DuckLake
