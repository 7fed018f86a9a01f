import Mathlib.Data.List.Induction
import Mathlib.Data.List.Pairwise
import DuckLake.Storage.Delete

/-!
# The rows that a delete hides

What is staged for one file leaves the others alone, so a whole run of the delete operator comes
down to the files that the paths of its entries stand for. It hides the selected rows and no others
exactly when these are the files that the rows are in.
-/

namespace DuckLake

variable {table : LiveFiles}

/-! ## What is staged for a file -/

/-- The effect was found for the file. -/
def DeleteEffect.Concerns (file : LiveDataFile) : DeleteEffect → Prop
  | dropFile | inlinedFileDeletes _ => True
  | deleteFile written => written.dataFileId = file.fileId ∧
      ∀ old ∈ written.overwrittenDeleteFile, old.deleteFileId ∈ file.deleteFiles.map (·.deleteFileId)

theorem DuckLakeDelete.flushDataFile_concerns {op : DuckLakeDelete} {snapshot : SnapshotId}
    {filename : Text} {file : LiveDataFile} {existing : Option DuckLakeDeleteData}
    {rows : OrdSet Nat} :
    (op.flushDataFile snapshot filename file existing rows).Concerns file := by
  have hdrop : ∀ {count written}, written.dataFileId = file.fileId →
      (∀ old ∈ written.overwrittenDeleteFile,
        old.deleteFileId ∈ file.deleteFiles.map (·.deleteFileId)) →
      (tryDropFullyDeletedFile file count written).Concerns file := by
    intro count written hid hold
    unfold tryDropFullyDeletedFile
    split
    · trivial
    · exact ⟨hid, hold⟩
  unfold flushDataFile
  split
  · trivial
  · split
    · trivial
    · split
      · exact hdrop rfl nofun
      · split
        · refine hdrop rfl fun old hold => ?_
          obtain ⟨deleteFile, hdelete, rfl⟩ := Option.map_eq_some_iff.1 hold
          exact List.mem_map_of_mem (List.mem_of_mem_head? hdelete)
        · exact hdrop rfl nofun

namespace DeleteState

variable {state : DeleteState} {file other : LiveDataFile} {filename : Text}
  {effect : DeleteEffect} {nextFileId : DataFileIndex} {commitSnapshot : SnapshotId} {row : Nat}

/-- Nothing has been staged for the file so far. -/
structure Untouched (state : DeleteState) (file : LiveDataFile) : Prop where
  dropped : file.fileId ∉ state.droppedFiles.map (·.2)
  inlined : ∀ entry ∈ state.newInlinedFileDeletes, entry.1 ≠ file.fileId
  written : ∀ entry ∈ state.writtenFiles, entry.2.dataFileId ≠ file.fileId
  overwritten : ∀ old ∈ file.deleteFiles, old.deleteFileId ∉ state.overwrittenDeleteFileIds

/-- No two files have a delete file in common. -/
def Apart (file other : LiveDataFile) : Prop :=
  other.fileId ≠ file.fileId ∧
    ∀ old ∈ file.deleteFiles, old.deleteFileId ∉ other.deleteFiles.map (·.deleteFileId)

theorem overwritten_concat {written : WrittenDeleteFile} (hapart : Apart file other)
    (hconcerns : (DeleteEffect.deleteFile written).Concerns other) {old : LiveDeleteFile}
    (hold : old ∈ file.deleteFiles) :
    old.deleteFileId ∈ ({ state with
        writtenFiles := state.writtenFiles ++ [(filename, written)] }).overwrittenDeleteFileIds ↔
      old.deleteFileId ∈ state.overwrittenDeleteFileIds := by
  unfold overwrittenDeleteFileIds
  rw [List.filterMap_append, List.mem_append]
  apply or_iff_left
  intro hmem
  obtain ⟨entry, hentry, hid⟩ := List.mem_filterMap.1 hmem
  cases List.mem_singleton.1 hentry
  obtain ⟨overwritten, hoverwritten, hid⟩ := Option.map_eq_some_iff.1 hid
  exact hapart.2 old hold (hid ▸ hconcerns.2 overwritten hoverwritten)

/-- The parts of the state that the commit of a file depends on. -/
theorem commitFile_congr {state' : DeleteState}
    (hdropped : file.fileId ∈ state.droppedFiles.map (·.2) ↔
      file.fileId ∈ state'.droppedFiles.map (·.2))
    (hold : ∀ old ∈ file.deleteFiles, old.deleteFileId ∈ state.overwrittenDeleteFileIds ↔
      old.deleteFileId ∈ state'.overwrittenDeleteFileIds)
    (hnew : state.newDeleteFiles nextFileId commitSnapshot file.fileId =
      state'.newDeleteFiles nextFileId commitSnapshot file.fileId)
    (hinlined : state.newInlinedFileDeletes.filter (·.1 = file.fileId) =
      state'.newInlinedFileDeletes.filter (·.1 = file.fileId)) :
    state.commitFile nextFileId commitSnapshot file =
      state'.commitFile nextFileId commitSnapshot file := by
  have hkept : file.deleteFiles.filter (·.deleteFileId ∉ state.overwrittenDeleteFileIds) =
      file.deleteFiles.filter (·.deleteFileId ∉ state'.overwrittenDeleteFileIds) :=
    List.filter_congr fun old h => by simp [hold old h]
  unfold commitFile
  rw [hkept, hnew, hinlined]
  simp only [hdropped]

/-- What is staged for one file does not concern another one. -/
theorem commitFile_stage_of_apart (hapart : Apart file other) (hconcerns : effect.Concerns other) :
    (state.stage filename other effect).commitFile nextFileId commitSnapshot file =
      state.commitFile nextFileId commitSnapshot file := by
  cases effect with
  | dropFile =>
    simp only [stage, dropFile]
    split
    · rfl
    · refine commitFile_congr ?_ (fun _ _ => .rfl) rfl rfl
      simp [clearDeletes, hapart.1.symm]
  | inlinedFileDeletes rows =>
    refine commitFile_congr .rfl (fun _ _ => .rfl) rfl ?_
    simp [stage, hapart.1]
  | deleteFile written =>
    simp only [stage, emplaceWrittenFile]
    split
    · rfl
    · refine commitFile_congr .rfl (fun old hold => overwritten_concat hapart hconcerns hold) ?_ rfl
      have hne : written.dataFileId ≠ file.fileId := hconcerns.1 ▸ hapart.1
      simp [newDeleteFiles, List.zipIdx_append, clearDeletes, hne]

/-- A file that nothing is staged for stays as it is. -/
theorem Untouched.commitFile (h : state.Untouched file) :
    state.commitFile nextFileId commitSnapshot file = some file := by
  have hold : file.deleteFiles.filter (·.deleteFileId ∉ state.overwrittenDeleteFileIds) =
      file.deleteFiles := List.filter_eq_self.2 fun old hold => by simp [h.overwritten old hold]
  have hnew : state.newDeleteFiles nextFileId commitSnapshot file.fileId = [] := by
    unfold newDeleteFiles
    rw [List.map_eq_nil_iff, List.filter_eq_nil_iff]
    intro entry hentry
    simpa using h.written entry.1 (List.fst_mem_of_mem_zipIdx hentry)
  have hinlined : state.newInlinedFileDeletes.filter (·.1 = file.fileId) = [] :=
    List.filter_eq_nil_iff.2 fun entry hentry => by simpa using h.inlined entry hentry
  unfold DeleteState.commitFile
  rw [if_neg h.dropped, hold, hnew, hinlined, List.append_nil]
  rfl

theorem Untouched.stage_of_apart (h : state.Untouched file) (hapart : Apart file other)
    (hconcerns : effect.Concerns other) : (state.stage filename other effect).Untouched file := by
  cases effect with
  | dropFile =>
    simp only [stage, dropFile]
    split
    · exact ⟨h.dropped, h.inlined, h.written, h.overwritten⟩
    · refine ⟨?_, h.inlined, h.written, h.overwritten⟩
      simpa [clearDeletes, hapart.1.symm] using h.dropped
  | inlinedFileDeletes rows =>
    refine ⟨h.dropped, ?_, h.written, h.overwritten⟩
    intro entry hentry
    cases List.mem_append.1 hentry with
    | inl hentry => exact h.inlined entry hentry
    | inr hentry =>
      cases List.mem_singleton.1 hentry
      exact hapart.1
  | deleteFile written =>
    simp only [stage, emplaceWrittenFile]
    split
    · exact ⟨h.dropped, h.inlined, h.written, h.overwritten⟩
    · refine ⟨h.dropped, h.inlined, ?_, ?_⟩
      · intro entry hentry
        cases List.mem_append.1 hentry with
        | inl hentry => exact h.written entry hentry
        | inr hentry =>
          cases List.mem_singleton.1 hentry
          exact hconcerns.1 ▸ hapart.1
      · intro old hold hmem
        exact h.overwritten old hold ((overwritten_concat hapart hconcerns hold).1 hmem)

theorem mem_foldl_rows {entries : List (DataFileIndex × OrdSet Nat)} {rows : OrdSet Nat} :
    row ∈ entries.foldl (fun rows entry => entry.2.elems.foldl OrdSet.insert rows) rows ↔
      row ∈ rows ∨ ∃ entry ∈ entries, row ∈ entry.2 := by
  induction entries generalizing rows with
  | nil => simp
  | cons entry entries ih =>
    rw [List.foldl_cons, ih, OrdSet.mem_foldl_insert, or_assoc]
    simp [OrdSet.mem_def]

theorem hidden_iff (h : file.fileId ∉ state.droppedFiles.map (·.2)) :
    state.hidden nextFileId commitSnapshot file row = true ↔
      (file.deleteFiles.filter (·.deleteFileId ∉ state.overwrittenDeleteFileIds)).any
          (·.data.filters commitSnapshot row) = true ∨
        (∃ entry ∈ state.writtenFiles, entry.2.dataFileId = file.fileId ∧
          entry.2.data.filters commitSnapshot row = true) ∨
        row ∈ file.inlinedFileDeletions ∨
        ∃ entry ∈ state.newInlinedFileDeletes, entry.1 = file.fileId ∧ row ∈ entry.2 := by
  have hnew : (state.newDeleteFiles nextFileId commitSnapshot file.fileId).any
      (·.data.filters commitSnapshot row) = true ↔ ∃ entry ∈ state.writtenFiles,
        entry.2.dataFileId = file.fileId ∧ entry.2.data.filters commitSnapshot row = true := by
    simp only [newDeleteFiles, List.any_map, List.any_filter, List.any_eq_true, Function.comp_apply,
      Bool.and_eq_true, decide_eq_true_eq]
    constructor
    · rintro ⟨entry, hentry, h⟩
      exact ⟨entry.1, List.fst_mem_of_mem_zipIdx hentry, h⟩
    · rintro ⟨entry, hentry, h⟩
      obtain ⟨i, hi, rfl⟩ := List.getElem_of_mem hentry
      exact ⟨_, List.mk_mem_zipIdx_iff_getElem?.2 (List.getElem?_eq_getElem hi), h⟩
  unfold hidden commitFile
  rw [if_neg h]
  simp only [LiveDataFile.deletedAt, List.any_append, Bool.or_eq_true, decide_eq_true_eq,
    mem_foldl_rows, hnew, List.mem_filter, and_assoc, or_assoc]

/-- The effect on a file that nothing was staged for before. -/
theorem hidden_stage (h : state.Untouched file) (hconcerns : effect.Concerns file)
    (hpath : file.path = filename) (hdropped : state.droppedFiles.lookup filename = none)
    (hwritten : state.writtenFiles.lookup filename = none) :
    (state.stage filename file effect).hidden nextFileId commitSnapshot file row =
      effect.hides commitSnapshot file row := by
  rw [Bool.eq_iff_iff]
  cases effect with
  | dropFile =>
    simp only [stage, dropFile, clearDeletes, hpath, hdropped]
    simp [hidden, commitFile, DeleteEffect.hides]
  | inlinedFileDeletes rows =>
    refine (hidden_iff ?_).trans ?_
    · exact h.dropped
    simp only [stage, DeleteEffect.hides, LiveDataFile.deletedAt, Bool.or_eq_true,
      decide_eq_true_eq, or_assoc]
    refine or_congr (Eq.to_iff ?_) ?_
    · congr 2
      exact List.filter_eq_self.2 fun old hold => decide_eq_true (h.overwritten old hold)
    · have hnone : ¬ ∃ entry ∈ state.writtenFiles, entry.2.dataFileId = file.fileId ∧
          entry.2.data.filters commitSnapshot row = true := by
        rintro ⟨entry, hentry, hid, -⟩
        exact h.written entry hentry hid
      rw [or_iff_right hnone]
      refine or_congr .rfl ⟨?_, fun hrow => ⟨_, List.mem_concat_self, rfl, hrow⟩⟩
      rintro ⟨entry, hentry, hid, hrow⟩
      cases List.mem_append.1 hentry with
      | inl hentry => exact absurd hid (h.inlined entry hentry)
      | inr hentry =>
        cases List.mem_singleton.1 hentry
        exact hrow
  | deleteFile written =>
    simp only [stage, emplaceWrittenFile, clearDeletes, hwritten]
    refine (hidden_iff ?_).trans ?_
    · exact h.dropped
    simp only [DeleteEffect.hides, Bool.or_eq_true, decide_eq_true_eq, or_assoc]
    refine or_congr (Eq.to_iff ?_) (or_congr ⟨?_, fun hrow => ?_⟩ ?_)
    · congr 2
      apply List.filter_congr
      intro old hold
      have hnot := h.overwritten old hold
      unfold overwrittenDeleteFileIds at hnot ⊢
      simp only [List.filterMap_append, List.mem_append, hnot, false_or]
      cases hover : written.overwrittenDeleteFile <;> simp [hover, eq_comm]
    · rintro ⟨entry, hentry, hid, hrow⟩
      cases List.mem_append.1 hentry with
      | inl hentry => exact absurd hid (h.written entry hentry)
      | inr hentry =>
        cases List.mem_singleton.1 hentry
        exact hrow
    · exact ⟨_, List.mem_concat_self, hconcerns.1, hrow⟩
    · apply or_iff_left
      rintro ⟨entry, hentry, hid, -⟩
      exact h.inlined entry hentry hid

end DeleteState

theorem LiveFiles.apart {file other : LiveDataFile} (hfile : file ∈ table.files)
    (hother : other ∈ table.files) (hne : other ≠ file) : DeleteState.Apart file other := by
  constructor
  · exact fun hid => hne (List.inj_on_of_nodup_map table.fileId_nodup hother hfile hid)
  · intro old hold hmem
    obtain ⟨old', hold', hid⟩ := List.mem_map.1 hmem
    have heq := List.inj_on_of_nodup_map table.deleteFileId_nodup
      (List.mem_flatMap.2 ⟨other, hother, hold'⟩) (List.mem_flatMap.2 ⟨file, hfile, hold⟩) hid
    have hdisjoint := (List.nodup_flatMap.1 table.deleteFileId_nodup.of_map).2
    have : Std.Symm (Function.onFun List.Disjoint fun file : LiveDataFile => file.deleteFiles) :=
      ⟨fun _ _ h => List.disjoint_symm h⟩
    have hapart := hdisjoint.forall hother hfile hne
    exact hapart hold' (heq ▸ hold)

/-! ## Runs of the operator -/

namespace DeleteScan

variable {scan : DeleteScan table} {filename : Text} {file : LiveDataFile}

/-- The file that a path stands for: the first one that has it. -/
def resolve (scan : DeleteScan table) (filename : Text) : Option LiveDataFile :=
  (scan.extended ++ scan.refreshed).find? fun file => decide (file.path = filename)

theorem resolve_spec (h : scan.resolve filename = some file) :
    file.path = filename ∧ file ∈ table.files := by
  refine ⟨by simpa using List.find?_some h, ?_⟩
  cases List.mem_append.1 (List.mem_of_find?_eq_some h) with
  | inl hmem => exact scan.extended_subset hmem
  | inr hmem => exact scan.refreshed_perm.mem_iff.1 hmem

/-- The file map, completed by the refreshed list, finds what a path stands for. -/
def Resolves (scan : DeleteScan table) (fileMap : List (Text × LiveDataFile)) : Prop :=
  ∀ filename, (fileMap.lookup filename).or
    (scan.refreshed.find? fun file => decide (file.path = filename)) = scan.resolve filename

theorem lookup_paths (files : List LiveDataFile) :
    (files.map fun file => (file.path, file)).lookup filename =
      files.find? fun file => decide (file.path = filename) := by
  induction files with
  | nil => rfl
  | cons file files ih =>
    rw [List.map_cons, List.lookup_cons, List.find?_cons, ih]
    by_cases h : file.path = filename
    · simp [h]
    · simp [h, beq_eq_false_iff_ne.2 (Ne.symm h)]

theorem initialState_resolves : scan.Resolves scan.initialState.fileMap := by
  intro filename
  rw [initialState, lookup_paths, resolve, List.find?_append]

end DeleteScan

namespace DuckLakeDelete

variable {op : DuckLakeDelete} {scan : DeleteScan table} {state state' : DeleteState}
  {filenames : List (Nat × Text)} {filename : Text} {file : LiveDataFile}

theorem findFile_ok (hres : scan.Resolves state.fileMap) {found : LiveDataFile × DeleteState}
    (h : findFile scan state filename = .ok found) :
    scan.resolve filename = some found.1 ∧ ∃ fileMap, scan.Resolves fileMap ∧
      found.2 = { state with fileMap := fileMap } := by
  unfold findFile at h
  have hname := hres filename
  split at h
  · rename_i hlookup
    cases h
    rw [hlookup, Option.some_or] at hname
    exact ⟨hname.symm, _, hres, rfl⟩
  · rename_i hlookup
    rw [hlookup, Option.none_or] at hname
    split at h
    · rename_i file hfind
      cases h
      refine ⟨by rw [← hname, hfind], _, fun other => ?_, rfl⟩
      rw [← hres other, List.lookup_append]
      cases hother : state.fileMap.lookup other with
      | some _ => rfl
      | none =>
        by_cases heq : file.path = other
        · have hpath : file.path = filename := by simpa using List.find?_some hfind
          rw [← heq, hpath, hfind]
          simp
        · simp [List.lookup_cons, beq_eq_false_iff_ne.2 (Ne.symm heq)]
    · cases h

/-- One round: the path of the entry is resolved, and an effect is staged for the file found. -/
theorem flushEntry_ok (hres : scan.Resolves state.fileMap) {entry : Nat × List Nat}
    (h : op.flushEntry scan filenames state entry = .ok state') :
    ∃ filename file fileMap, filenames.lookup entry.1 = some filename ∧
      scan.resolve filename = some file ∧ scan.Resolves fileMap ∧
      state' = ({ state with fileMap := fileMap }).stage filename file
        (op.flushDataFile table.snapshot filename file (state.deleteDataMap.lookup filename)
          (.ofList entry.2)) := by
  unfold flushEntry at h
  split at h
  · cases h
  · rename_i filename hname
    cases hfound : findFile scan state filename with
    | error e => simp [flushDelete, hfound, bind, Except.bind] at h
    | ok found =>
      obtain ⟨hresolve, fileMap, hmap, hstate⟩ := findFile_ok hres hfound
      refine ⟨filename, found.1, fileMap, hname, hresolve, hmap, ?_⟩
      simp only [flushDelete, hfound, bind, Except.bind] at h
      split at h
      · cases h
      · cases h
        rw [hstate]

end DuckLakeDelete

/-- Neither the file nor its path has been flushed so far. -/
structure DeleteState.Fresh (scan : DeleteScan table) (state : DeleteState) (file : LiveDataFile) :
    Prop where
  untouched : state.Untouched file
  dropped : state.droppedFiles.lookup file.path = none
  written : state.writtenFiles.lookup file.path = none
  deleteData : state.deleteDataMap.lookup file.path =
    scan.initialState.deleteDataMap.lookup file.path

namespace DeleteState.Fresh

variable {scan : DeleteScan table} {state : DeleteState} {file other : LiveDataFile}
  {filename : Text} {effect : DeleteEffect}

theorem initial : scan.initialState.Fresh scan file := ⟨⟨nofun, nofun, nofun, nofun⟩, rfl, rfl, rfl⟩

theorem lookup_filter {entries : List (Text × DuckLakeDeleteData)} {path : Text}
    (h : filename ≠ path) : (entries.filter (·.1 ≠ filename)).lookup path = entries.lookup path := by
  induction entries with
  | nil => rfl
  | cons entry entries ih =>
    by_cases heq : entry.1 = filename
    · rw [List.filter_cons_of_neg (by simpa using heq), ih, List.lookup_cons,
        beq_eq_false_iff_ne.2 (fun hpath => h (heq.symm.trans hpath.symm))]
    · rw [List.filter_cons_of_pos (by simpa using heq), List.lookup_cons, List.lookup_cons, ih]

theorem lookup_concat {β : Type} {entries : List (Text × β)} {value : β} {path : Text}
    (h : filename ≠ path) : (entries ++ [(filename, value)]).lookup path = entries.lookup path := by
  rw [List.lookup_append, List.lookup_cons, beq_eq_false_iff_ne.2 (Ne.symm h)]
  cases entries.lookup path <;> rfl

theorem lookup_dropFile {path : Text} (hne : other.path ≠ path) :
    (state.dropFile other.path other).droppedFiles.lookup path =
      state.droppedFiles.lookup path := by
  unfold DeleteState.dropFile
  split
  · rfl
  · exact lookup_concat hne

theorem lookup_emplaceWrittenFile {path : Text} {written : WrittenDeleteFile}
    (hne : filename ≠ path) :
    (state.emplaceWrittenFile filename written).writtenFiles.lookup path =
      state.writtenFiles.lookup path := by
  unfold DeleteState.emplaceWrittenFile
  split
  · rfl
  · exact lookup_concat hne

theorem stage (h : state.Fresh scan file) (hapart : Apart file other)
    (hconcerns : effect.Concerns other) (hother : other.path = filename)
    (hne : filename ≠ file.path) : (state.stage filename other effect).Fresh scan file := by
  have hdata := (lookup_filter hne).trans h.deleteData
  refine ⟨h.untouched.stage_of_apart hapart hconcerns, ?_, ?_, ?_⟩
  · cases effect with
    | dropFile => exact (lookup_dropFile (hother ▸ hne)).trans h.dropped
    | inlinedFileDeletes rows => exact h.dropped
    | deleteFile written => simpa [DeleteState.stage, clearDeletes] using h.dropped
  · cases effect with
    | dropFile => simpa [DeleteState.stage, clearDeletes] using h.written
    | inlinedFileDeletes rows => exact h.written
    | deleteFile written => exact (lookup_emplaceWrittenFile hne).trans h.written
  · cases effect with
    | dropFile =>
      rw [DeleteState.stage, dropFile_deleteDataMap]
      exact hdata
    | inlinedFileDeletes rows => exact h.deleteData
    | deleteFile written =>
      rw [DeleteState.stage, emplaceWrittenFile_deleteDataMap]
      exact hdata

end DeleteState.Fresh

/-! ## Whole runs -/

namespace DuckLakeDelete

variable {op : DuckLakeDelete} {scan : DeleteScan table} {state final : DeleteState}
  {filenames : List (Nat × Text)} {entries : List (Nat × List Nat)} {file : LiveDataFile}
  {nextFileId : DataFileIndex} {commitSnapshot : SnapshotId}

theorem foldlM_cons_ok {entry : Nat × List Nat}
    (h : (entry :: entries).foldlM (op.flushEntry scan filenames) state = .ok final) :
    ∃ state', op.flushEntry scan filenames state entry = .ok state' ∧
      entries.foldlM (op.flushEntry scan filenames) state' = .ok final := by
  rw [List.foldlM_cons] at h
  cases hstep : op.flushEntry scan filenames state entry with
  | error e => simp [hstep, bind, Except.bind] at h
  | ok state' => exact ⟨state', rfl, by simpa [hstep, bind, Except.bind] using h⟩

/-- A file that none of the paths stands for is not touched. -/
theorem commitFile_of_not_resolved (hfile : file ∈ table.files)
    (hres : scan.Resolves state.fileMap)
    (hnot : ∀ entry ∈ entries, ∀ filename, filenames.lookup entry.1 = some filename →
      scan.resolve filename ≠ some file)
    (h : entries.foldlM (op.flushEntry scan filenames) state = .ok final) :
    final.commitFile nextFileId commitSnapshot file =
      state.commitFile nextFileId commitSnapshot file := by
  induction entries generalizing state with
  | nil =>
    cases h
    rfl
  | cons entry entries ih =>
    obtain ⟨state', hstep, hrest⟩ := foldlM_cons_ok h
    obtain ⟨filename, other, fileMap, hname, hresolve, hmap, rfl⟩ := flushEntry_ok hres hstep
    have hne : other ≠ file := fun heq => hnot entry (.head _) filename hname (heq ▸ hresolve)
    have hapart := LiveFiles.apart hfile (DeleteScan.resolve_spec hresolve).2 hne
    rw [ih ?_ (fun entry' h' => hnot entry' (.tail _ h')) hrest]
    · exact DeleteState.commitFile_stage_of_apart hapart flushDataFile_concerns
    · rw [DeleteState.stage_fileMap]
      exact hmap

/-- A file that one of the paths stands for suffers the effect of its entry, and no other one. -/
theorem hidden_of_resolved (hfile : file ∈ table.files) (hres : scan.Resolves state.fileMap)
    (hfresh : state.Fresh scan file) (hresolve : scan.resolve file.path = some file)
    (hdistinct : entries.Pairwise fun a b => filenames.lookup a.1 ≠ filenames.lookup b.1)
    {entry : Nat × List Nat} (hentry : entry ∈ entries)
    (hname : filenames.lookup entry.1 = some file.path)
    (h : entries.foldlM (op.flushEntry scan filenames) state = .ok final) {row : Nat} :
    final.hidden nextFileId commitSnapshot file row =
      (op.flushDataFile table.snapshot file.path file
        (scan.initialState.deleteDataMap.lookup file.path) (.ofList entry.2)).hides commitSnapshot
          file row := by
  induction entries generalizing state with
  | nil => cases hentry
  | cons first entries ih =>
    obtain ⟨hfirst, hdistinct⟩ := List.pairwise_cons.1 hdistinct
    obtain ⟨state', hstep, hrest⟩ := foldlM_cons_ok h
    obtain ⟨filename, other, fileMap, hfilename, hother, hmap, rfl⟩ := flushEntry_ok hres hstep
    obtain ⟨hpath, hmem⟩ := DeleteScan.resolve_spec hother
    cases hentry with
    | head =>
      rw [hname] at hfilename
      cases hfilename
      rw [hresolve] at hother
      cases hother
      have hrest' : ∀ entry' ∈ entries, ∀ name, filenames.lookup entry'.1 = some name →
          scan.resolve name ≠ some file := by
        intro entry' h' name hname' hresolved
        have hsame := (DeleteScan.resolve_spec hresolved).1
        exact hfirst entry' h' (hname.trans (hsame ▸ hname'.symm))
      unfold DeleteState.hidden
      rw [commitFile_of_not_resolved hfile ?_ hrest' hrest]
      · have huntouched : DeleteState.Untouched { state with fileMap := fileMap } file :=
          ⟨hfresh.untouched.dropped, hfresh.untouched.inlined, hfresh.untouched.written,
            hfresh.untouched.overwritten⟩
        rw [hfresh.deleteData]
        exact DeleteState.hidden_stage huntouched flushDataFile_concerns rfl hfresh.dropped
          hfresh.written
      · rw [DeleteState.stage_fileMap]
        exact hmap
    | tail _ hentry =>
      have hne : filename ≠ file.path := by
        rintro rfl
        exact hfirst entry hentry (hfilename.trans hname.symm)
      have hapart := LiveFiles.apart hfile hmem fun heq => hne (by rw [← hpath, heq])
      refine ih ?_ ?_ hdistinct hentry hrest
      · rw [DeleteState.stage_fileMap]
        exact hmap
      · refine DeleteState.Fresh.stage ?_ hapart flushDataFile_concerns hpath hne
        exact ⟨⟨hfresh.untouched.dropped, hfresh.untouched.inlined, hfresh.untouched.written,
          hfresh.untouched.overwritten⟩, hfresh.dropped, hfresh.written, hfresh.deleteData⟩

end DuckLakeDelete

/-! ## The collected rows -/

theorem lookup_appendRow (index row other : Nat) (entries : List (Nat × List Nat)) :
    (appendRow index row entries).lookup other =
      if other = index then some ((entries.lookup index).getD [] ++ [row])
      else entries.lookup other := by
  induction entries with
  | nil =>
    by_cases h : other = index
    · simp [appendRow, h]
    · rw [appendRow, lookup_cons_of_ne h, if_neg h]
  | cons entry entries ih =>
    obtain ⟨first, firstRows⟩ := entry
    rw [appendRow]
    by_cases hindex : first = index
    · subst hindex
      by_cases h : other = first
      · simp [h]
      · simp [h, lookup_cons_of_ne h]
    · rw [if_neg hindex, lookup_cons_of_ne (Ne.symm hindex)]
      by_cases h : other = first
      · simp [h, hindex]
      · rw [lookup_cons_of_ne h, lookup_cons_of_ne h, ih]

theorem keys_appendRow (index row : Nat) (entries : List (Nat × List Nat)) :
    (appendRow index row entries).map (·.1) =
      if index ∈ entries.map (·.1) then entries.map (·.1) else entries.map (·.1) ++ [index] := by
  induction entries with
  | nil => rfl
  | cons entry entries ih =>
    rw [appendRow]
    by_cases hindex : entry.1 = index
    · simp [hindex]
    · rw [if_neg hindex, List.map_cons, ih]
      simp only [List.map_cons, List.mem_cons, Ne.symm hindex, false_or]
      split <;> simp

theorem lookup_of_mem {entries : List (Nat × List Nat)} (h : (entries.map (·.1)).Nodup)
    {entry : Nat × List Nat} (hentry : entry ∈ entries) :
    entries.lookup entry.1 = some entry.2 := by
  induction entries with
  | nil => cases hentry
  | cons first entries ih =>
    obtain ⟨index, firstRows⟩ := first
    obtain ⟨hfirst, hrest⟩ := List.nodup_cons.1 h
    cases hentry with
    | head => exact List.lookup_cons_self
    | tail _ hentry =>
      have hne : entry.1 ≠ index := by
        rintro rfl
        exact hfirst (List.mem_map.2 ⟨entry, hentry, rfl⟩)
      rw [lookup_cons_of_ne hne]
      exact ih hrest hentry

section Rows

variable {scan : DeleteScan table} {rows : List (SelectedRow scan)}

/-- The row numbers that are selected of the file with the index. -/
def selectedRows (rows : List (SelectedRow scan)) (index : Nat) : List Nat :=
  (rows.filter (·.fileIndex.val = index)).map (·.rowNumber)

theorem sinkRows_concat (row : SelectedRow scan) :
    sinkRows (rows ++ [row]) = (sinkRows rows).sink row := by
  simp [sinkRows]

theorem sinkRows_nodup : ((sinkRows rows).deletedRows.map (·.1)).Nodup := by
  induction rows using List.reverseRecOn with
  | nil => exact .nil
  | append_singleton rows row ih =>
    rw [sinkRows_concat, DuckLakeDeleteGlobalState.sink, keys_appendRow]
    split
    · exact ih
    · rename_i hnot
      refine List.nodup_append.2 ⟨ih, List.nodup_singleton _, fun a ha b hb => ?_⟩
      cases List.mem_singleton.1 hb
      exact fun heq => hnot (heq ▸ ha)

theorem lookup_sinkRows (index : Nat) : ((sinkRows rows).deletedRows.lookup index).getD [] =
    selectedRows rows index := by
  induction rows using List.reverseRecOn with
  | nil => rfl
  | append_singleton rows row ih =>
    rw [sinkRows_concat, DuckLakeDeleteGlobalState.sink, lookup_appendRow, selectedRows,
      List.filter_append, List.map_append]
    by_cases h : index = row.fileIndex.val
    · subst h
      simp [ih, selectedRows]
    · simp [h, Ne.symm h, ih, selectedRows]

theorem mem_sinkRows {index : Nat} : index ∈ (sinkRows rows).deletedRows.map (·.1) ↔
    ∃ row ∈ rows, row.fileIndex.val = index := by
  induction rows using List.reverseRecOn with
  | nil => simp [sinkRows]
  | append_singleton rows row ih =>
    have hconcat : (∃ r ∈ rows ++ [row], r.fileIndex.val = index) ↔
        (∃ r ∈ rows, r.fileIndex.val = index) ∨ row.fileIndex.val = index := by
      simp only [List.mem_append, List.mem_singleton, or_and_right, exists_or, exists_eq_left]
    rw [hconcat, ← ih, sinkRows_concat, DuckLakeDeleteGlobalState.sink, keys_appendRow]
    split
    · rename_i hmem
      exact (or_iff_left_of_imp fun heq => heq ▸ hmem).symm
    · rw [List.mem_append, List.mem_singleton, eq_comm]

theorem filenames_sinkRows :
    (sinkRows rows).filenames = rows.map fun row => (row.fileIndex.val, row.fileName) := by
  induction rows using List.reverseRecOn with
  | nil => rfl
  | append_singleton rows row ih =>
    rw [sinkRows_concat, DuckLakeDeleteGlobalState.sink, ih, List.map_append]
    rfl

theorem lookup_filenames {row : SelectedRow scan} (hrow : row ∈ rows) :
    (sinkRows rows).filenames.lookup row.fileIndex.val = some row.fileName := by
  rw [filenames_sinkRows]
  induction rows with
  | nil => cases hrow
  | cons first rows ih =>
    rw [List.map_cons, List.lookup_cons]
    by_cases h : row.fileIndex.val = first.fileIndex.val
    · have hfile : row.fileIndex = first.fileIndex := Fin.ext h
      simp [SelectedRow.fileName, SelectedRow.file, hfile]
    · have hmem : row ∈ rows := by
        cases hrow with
        | head => exact absurd rfl h
        | tail _ hmem => exact hmem
      rw [beq_eq_false_iff_ne.2 h]
      exact ih hmem

/-- What the map of the collected rows holds, in whatever order it is iterated. -/
theorem mem_entries {entries : List (Nat × List Nat)}
    (hentries : entries.Perm (sinkRows rows).deletedRows) {entry : Nat × List Nat}
    (hentry : entry ∈ entries) :
    ∃ row ∈ rows, row.fileIndex.val = entry.1 ∧ entry.2 = selectedRows rows entry.1 := by
  have hmem := hentries.mem_iff.1 hentry
  obtain ⟨row, hrow, hindex⟩ := mem_sinkRows.1 (List.mem_map_of_mem hmem)
  refine ⟨row, hrow, hindex, ?_⟩
  rw [← lookup_sinkRows, lookup_of_mem sinkRows_nodup hmem]
  rfl

theorem exists_entry {entries : List (Nat × List Nat)}
    (hentries : entries.Perm (sinkRows rows).deletedRows) {row : SelectedRow scan}
    (hrow : row ∈ rows) : (row.fileIndex.val, selectedRows rows row.fileIndex.val) ∈ entries := by
  obtain ⟨entry, hentry, hindex⟩ := List.mem_map.1 (mem_sinkRows.2 ⟨row, hrow, rfl⟩)
  have hmem := hentries.mem_iff.2 hentry
  obtain ⟨-, -, -, hrows⟩ := mem_entries hentries hmem
  rw [← hindex, ← hrows]
  exact hmem

theorem mem_selectedRows {row : SelectedRow scan} {number : Nat} :
    number ∈ selectedRows rows row.fileIndex.val ↔
      ∃ r ∈ rows, r.file = row.file ∧ r.rowNumber = number := by
  unfold selectedRows
  simp only [List.mem_map, List.mem_filter, decide_eq_true_eq, and_assoc]
  exact exists_congr fun r => and_congr_right fun _ => and_congr_left fun _ =>
    SelectedRow.file_inj.symm

end Rows

/-! ## What a statement hides -/

/-- The delete data that is known for a path: that of the first opened file that has some. -/
def DeleteScan.deleteData (scan : DeleteScan table) (path : Text) : Option DuckLakeDeleteData :=
  scan.initialState.deleteDataMap.lookup path

namespace DuckLakeDelete

variable {op : DuckLakeDelete} {scan : DeleteScan table} {rows : List (SelectedRow scan)}
  {final : DeleteState} {entries : List (Nat × List Nat)} {nextFileId : DataFileIndex}
  {commitSnapshot : SnapshotId}

/-- After the commit the hidden rows are the ones that were hidden before and the selected ones. In
particular a file that was dropped has no others. -/
def HidesSelected (rows : List (SelectedRow scan)) (final : DeleteState)
    (nextFileId : DataFileIndex) (commitSnapshot : SnapshotId) : Prop :=
  ∀ file ∈ table.files, ∀ row < file.rowCount,
    final.hidden nextFileId commitSnapshot file row = true ↔
      file.deletedAt table.snapshot row = true ∨ ∃ r ∈ rows, r.file = file ∧ r.rowNumber = row

/-- The path of every file with selected rows stands for that file; and unless the deletes are kept
inline, the delete data known for the path takes away, with the selected rows, the rows that the
deletes of the file itself do. -/
def ReachesOwnFiles (op : DuckLakeDelete) (rows : List (SelectedRow scan)) : Prop :=
  ∀ row ∈ rows, scan.resolve row.fileName = some row.file ∧
    let selected := OrdSet.ofList (selectedRows rows row.fileIndex.val)
    op.inlines selected = true ∨ ∀ number < row.file.rowCount,
      row.file.goneWith ((((scan.deleteData row.fileName).map (·.deletedRows)).getD []).foldl
          OrdSet.insert selected) number ↔
        row.file.goneWith (row.file.deletedRows.foldl OrdSet.insert selected) number

theorem deleteData_dated {path : Text} :
    ∀ data ∈ scan.deleteData path, data.Dated table.snapshot := by
  intro data hdata
  obtain ⟨before, after, hmap, -⟩ := List.lookup_eq_some_iff.1 hdata
  have hmem : (path, data) ∈ scan.initialState.deleteDataMap := by
    rw [hmap]
    exact List.mem_append_right _ (.head _)
  obtain ⟨file, hfile, hdelete⟩ := List.mem_filterMap.1 hmem
  obtain ⟨old, hold, heq⟩ := Option.map_eq_some_iff.1 hdelete
  cases heq
  have htable := scan.files_subset (scan.opened_subset hfile)
  exact (table.wellFormed file htable old (List.mem_of_mem_head? hold)).toDated

theorem deleteFile_of_no_deleteData {row : SelectedRow scan}
    (h : scan.deleteData row.fileName = none) : row.file.deleteFile = none := by
  cases hdelete : row.file.deleteFile with
  | none => rfl
  | some old =>
    have hmem : (row.fileName, old.data) ∈ scan.initialState.deleteDataMap :=
      List.mem_filterMap.2 ⟨row.file, row.opened, by simp [hdelete, SelectedRow.fileName]⟩
    have hne := List.lookup_eq_none_iff.1 h _ hmem
    simp at hne

theorem selected_lt (rows : List (SelectedRow scan)) (row : SelectedRow scan) :
    ∀ number ∈ OrdSet.ofList (selectedRows rows row.fileIndex.val),
      number < row.file.rowCount := by
  intro number hnumber
  obtain ⟨r, -, hfile, rfl⟩ := mem_selectedRows.1 (OrdSet.mem_ofList.1 hnumber)
  exact hfile ▸ r.row_lt

/-- The entries stand for different paths when every path stands for its own file. -/
theorem entries_distinct (hentries : entries.Perm (sinkRows rows).deletedRows)
    (hown : ∀ row ∈ rows, scan.resolve row.fileName = some row.file) :
    entries.Pairwise fun a b =>
      (sinkRows rows).filenames.lookup a.1 ≠ (sinkRows rows).filenames.lookup b.1 := by
  have hnodup : (entries.map (·.1)).Nodup := (hentries.map _).nodup_iff.2 sinkRows_nodup
  rw [List.Nodup, List.pairwise_map] at hnodup
  refine hnodup.imp_of_mem fun {a b} ha hb hne heq => ?_
  obtain ⟨r, hr, hindex, -⟩ := mem_entries hentries ha
  obtain ⟨r', hr', hindex', -⟩ := mem_entries hentries hb
  rw [← hindex, ← hindex', lookup_filenames hr, lookup_filenames hr', Option.some.injEq] at heq
  have hfile : some r.file = some r'.file := by rw [← hown r hr, ← hown r' hr', heq]
  exact hne (hindex ▸ hindex' ▸ SelectedRow.file_inj.1 (Option.some.inj hfile))

/-- A selected row is hidden, and a row of an untouched file is not. -/
theorem hidden_of_not_resolved {file : LiveDataFile} (hfile : file ∈ table.files)
    (hcommit : table.snapshot < commitSnapshot)
    (hentries : entries.Perm (sinkRows rows).deletedRows)
    (h : op.finalize scan (sinkRows rows).filenames entries = .ok final)
    (hnot : ∀ row ∈ rows, scan.resolve row.fileName ≠ some file) {number : Nat} :
    final.hidden nextFileId commitSnapshot file number = true ↔
      file.deletedAt table.snapshot number = true := by
  unfold DeleteState.hidden
  rw [commitFile_of_not_resolved hfile DeleteScan.initialState_resolves ?_ h]
  · rw [DeleteState.Fresh.initial.untouched.commitFile]
    show file.deletedAt commitSnapshot number = true ↔ _
    rw [LiveFiles.deletedAt_iff hfile hcommit.le, LiveFiles.deletedAt_iff hfile le_rfl]
  · intro entry hentry name hname
    obtain ⟨row, hrow, hindex, -⟩ := mem_entries hentries hentry
    rw [← hindex, lookup_filenames hrow] at hname
    cases hname
    exact hnot row hrow

/-- A file whose path stands for it loses what the effect of its entry takes away. -/
theorem hidden_of_own {row : SelectedRow scan} (hrow : row ∈ rows)
    (hentries : entries.Perm (sinkRows rows).deletedRows)
    (hown : ∀ row ∈ rows, scan.resolve row.fileName = some row.file)
    (h : op.finalize scan (sinkRows rows).filenames entries = .ok final) {number : Nat} :
    final.hidden nextFileId commitSnapshot row.file number =
      (op.flushDataFile table.snapshot row.fileName row.file (scan.deleteData row.fileName)
        (.ofList (selectedRows rows row.fileIndex.val))).hides commitSnapshot row.file number :=
  hidden_of_resolved row.file_mem DeleteScan.initialState_resolves .initial (hown row hrow)
    (entries_distinct hentries hown) (exists_entry hentries hrow) (lookup_filenames hrow) h

/-- The condition on one file, once its path stands for it. -/
theorem hides_selected_iff {row : SelectedRow scan} (hcommit : table.snapshot < commitSnapshot) :
    let selected := OrdSet.ofList (selectedRows rows row.fileIndex.val)
    (∀ number < row.file.rowCount,
      ((op.flushDataFile table.snapshot row.fileName row.file (scan.deleteData row.fileName)
          selected).hides commitSnapshot row.file number = true ↔
        row.file.deletedAt table.snapshot number = true ∨ number ∈ selected)) ↔
      (op.inlines selected = true ∨ ∀ number < row.file.rowCount,
        (row.file.goneWith ((((scan.deleteData row.fileName).map (·.deletedRows)).getD []).foldl
            OrdSet.insert selected) number ↔
          row.file.goneWith (row.file.deletedRows.foldl OrdSet.insert selected) number)) := by
  intro selected
  have hlt := selected_lt rows row
  cases hinline : op.inlines selected with
  | true =>
    simp only [true_or, iff_true]
    exact fun number hnumber => flushDataFile_inlines row.file_mem hcommit hlt hnumber hinline
  | false =>
    simp only [Bool.false_eq_true, false_or]
    refine forall₂_congr fun number hnumber => ?_
    rw [flushDataFile_writes row.file_mem hcommit deleteFile_of_no_deleteData deleteData_dated
      hinline, LiveFiles.goneWith_deletedRows row.file_mem hlt hnumber]

/-- A statement hides exactly the selected rows if and only if it reaches the files that they are
in. -/
theorem hidesSelected_iff_reachesOwnFiles (op : DuckLakeDelete) (scan : DeleteScan table)
    (rows : List (SelectedRow scan)) (entries : List (Nat × List Nat))
    (hentries : entries.Perm (sinkRows rows).deletedRows) (final : DeleteState)
    (h : op.finalize scan (sinkRows rows).filenames entries = .ok final)
    (nextFileId : DataFileIndex) (commitSnapshot : SnapshotId)
    (hcommit : table.snapshot < commitSnapshot) :
    HidesSelected rows final nextFileId commitSnapshot ↔ op.ReachesOwnFiles rows := by
  have hselected : ∀ (row : SelectedRow scan) (number : Nat),
      number ∈ OrdSet.ofList (selectedRows rows row.fileIndex.val) ↔
        ∃ r ∈ rows, r.file = row.file ∧ r.rowNumber = number :=
    fun row number => OrdSet.mem_ofList.trans mem_selectedRows
  constructor
  · intro hhides
    have hown : ∀ row ∈ rows, scan.resolve row.fileName = some row.file := by
      intro row hrow
      by_contra hresolve
      have hnot : ∀ r ∈ rows, scan.resolve r.fileName ≠ some row.file := by
        intro r _ hr
        rw [← (DeleteScan.resolve_spec hr).1] at hr
        exact hresolve hr
      have hgone := (hhides row.file row.file_mem row.rowNumber row.row_lt).2
        (.inr ⟨row, hrow, rfl, rfl⟩)
      rw [hidden_of_not_resolved row.file_mem hcommit hentries h hnot] at hgone
      have hvisible := row.visible.symm.trans hgone
      cases hvisible
    refine fun row hrow => ⟨hown row hrow, (hides_selected_iff hcommit).1 fun number hnumber => ?_⟩
    rw [← hidden_of_own hrow hentries hown h, hselected]
    exact hhides row.file row.file_mem number hnumber
  · intro hreaches file hfile number hnumber
    have hown := fun row hrow => (hreaches row hrow).1
    by_cases hrows : ∃ row ∈ rows, row.file = file
    · obtain ⟨row, hrow, rfl⟩ := hrows
      rw [hidden_of_own hrow hentries hown h, ← hselected]
      exact (hides_selected_iff hcommit).2 (hreaches row hrow).2 number hnumber
    · have hnot : ∀ row ∈ rows, scan.resolve row.fileName ≠ some file := by
        intro row hrow hresolve
        exact hrows ⟨row, hrow, Option.some.inj ((hown row hrow).symm.trans hresolve)⟩
      rw [hidden_of_not_resolved hfile hcommit hentries h hnot]
      refine (or_iff_left ?_).symm
      rintro ⟨row, hrow, hrowFile, -⟩
      exact hrows ⟨row, hrow, hrowFile⟩

end DuckLakeDelete

/-- A table to which a file was added twice. -/
def addedTwice : LiveFiles where
  snapshot := 2
  files := [⟨0, "shared.parquet", 2, 100, [], ∅⟩, ⟨1, "shared.parquet", 2, 100, [], ∅⟩]
  fileId_nodup := by decide
  deleteFileId_nodup := by decide
  deleteFiles_length := by decide
  beginSnapshot_le := by decide
  wellFormed := by simp

def addedTwiceScan : DeleteScan addedTwice where
  files := addedTwice.files
  files_nodup := by decide
  files_subset := List.Subset.refl _
  extended := addedTwice.files
  extended_subset := List.Subset.refl _
  refreshed := addedTwice.files
  refreshed_perm := .refl _
  opened := addedTwice.files
  opened_subset := List.Subset.refl _

/-- The first row of one of the two. -/
def addedTwiceRow (fileIndex : Fin addedTwiceScan.files.length) : SelectedRow addedTwiceScan where
  fileIndex := fileIndex
  rowNumber := 0
  opened := List.getElem_mem fileIndex.isLt
  row_lt := by revert fileIndex; decide
  visible := by revert fileIndex; decide

/-- A row of the file that was added first is deleted as it should be. -/
theorem delete_from_first_added : ∃ final,
    (DuckLakeDelete.mk true 0).finalize addedTwiceScan
        (sinkRows [addedTwiceRow ⟨0, by decide⟩]).filenames
        (sinkRows [addedTwiceRow ⟨0, by decide⟩]).deletedRows = .ok final ∧
      DuckLakeDelete.HidesSelected [addedTwiceRow ⟨0, by decide⟩] final 2 3 := by
  refine ⟨_, rfl, (DuckLakeDelete.hidesSelected_iff_reachesOwnFiles _ addedTwiceScan _ _ (.refl _) _
    rfl 2 3 (by decide)).2 ?_⟩
  intro row hrow
  cases List.mem_singleton.1 hrow
  exact ⟨by decide, .inr fun number hnumber => by rfl⟩

/-- A row of the file that was added second is deleted from the first one instead. -/
theorem delete_from_second_added :
    ¬ ∀ (table : LiveFiles) (op : DuckLakeDelete) (scan : DeleteScan table)
        (rows : List (SelectedRow scan)) (entries : List (Nat × List Nat)) (final : DeleteState)
        (nextFileId : DataFileIndex) (commitSnapshot : SnapshotId),
      entries.Perm (sinkRows rows).deletedRows → table.snapshot < commitSnapshot →
      op.finalize scan (sinkRows rows).filenames entries = .ok final →
      DuckLakeDelete.HidesSelected rows final nextFileId commitSnapshot := by
  intro hclaim
  have hhides := hclaim addedTwice ⟨true, 0⟩ addedTwiceScan [addedTwiceRow ⟨1, by decide⟩] _ _ 2 3
    (.refl _) (by decide) rfl
  have hfirst := (hhides ⟨0, "shared.parquet", 2, 100, [], ∅⟩ (.head _) 0 (by decide)).1 rfl
  cases hfirst with
  | inl hdeleted => exact absurd hdeleted (by decide)
  | inr hselected =>
    obtain ⟨row, hrow, hfile, -⟩ := hselected
    cases List.mem_singleton.1 hrow
    exact absurd hfile (by decide)

end DuckLake
