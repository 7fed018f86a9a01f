import Mathlib.Data.List.Infix
import DuckLake.Storage.CommitRetry

/-!
# The commit loop

A commit is tried until a round gets to its end, the retries are used up, or an error occurs that
is not worth a retry; then the files of the transaction are removed. All of this is decided from
the exceptions of the callbacks. Where the metadata becomes durable depends on the metadata
manager: most commit the connection at the end of the round, but one sends the batch as a
transaction of its own to a server. A callback may throw before or after its effect. The loop
itself may run on a server too, which then only knows what has been staged for it.
-/

namespace DuckLake

/-! ## Files of a transaction -/

/-- A file on disk that a transaction is going to register. -/
structure StagedFile where
  path : Text
  createdByDucklake : Bool
deriving DecidableEq

def DuckLakeDeleteFile.stagedFile (file : DuckLakeDeleteFile) : StagedFile :=
  ⟨file.fileName, file.createdByDucklake⟩

def DuckLakeDataFile.stagedFile (file : DuckLakeDataFile) : StagedFile :=
  ⟨file.fileName, file.createdByDucklake⟩

namespace LocalTableDataChanges

/-- The data files and delete files, those of a data file after it. -/
def insertedFiles (c : LocalTableDataChanges) : List StagedFile :=
  (c.newDataFiles.flatMap fun file => file.stagedFile :: file.deleteFiles.map (·.stagedFile)) ++
    c.newDeleteFiles.flatMap fun files => files.2.map (·.stagedFile)

def compactedFiles (c : LocalTableDataChanges) : List StagedFile :=
  c.compactions.flatMap fun compaction => compaction.writtenFiles.map (·.stagedFile)

/-- The files that `CleanupFiles` removes: the output of a compaction is removed in any case. -/
def cleanupFiles (c : LocalTableDataChanges) : List StagedFile :=
  c.insertedFiles.filter (·.createdByDucklake) ++ c.compactedFiles

end LocalTableDataChanges

namespace LocalTableChanges

variable (changes : LocalTableChanges)

def cleanupFiles : List StagedFile := changes.changes.flatMap (·.2.cleanupFiles)

def insertedFiles : List StagedFile := changes.changes.flatMap (·.2.insertedFiles)

def compactedFiles : List StagedFile := changes.changes.flatMap (·.2.compactedFiles)

theorem mem_cleanupFiles {file : StagedFile} :
    file ∈ changes.cleanupFiles ↔
      file ∈ changes.insertedFiles ∧ file.createdByDucklake = true ∨ file ∈ changes.compactedFiles := by
  simp only [cleanupFiles, insertedFiles, compactedFiles, LocalTableDataChanges.cleanupFiles,
    List.mem_flatMap, List.mem_append, List.mem_filter]
  constructor
  · rintro ⟨e, he, ⟨hf, hcreated⟩ | hf⟩
    · exact .inl ⟨⟨e, he, hf⟩, hcreated⟩
    · exact .inr ⟨e, he, hf⟩
  · rintro (⟨⟨e, he, hf⟩, hcreated⟩ | ⟨e, he, hf⟩)
    · exact ⟨e, he, .inl ⟨hf, hcreated⟩⟩
    · exact ⟨e, he, .inr hf⟩

end LocalTableChanges

/-- The files that a statement refers to. -/
def Statement.files : Statement → List Text
  | newDataFiles rows => rows.map (·.1.fileName)
  | newDeleteFiles rows => rows.map (·.1.path)
  | _ => []

abbrev CommitBatch := List Statement × DuckLakeSnapshot

/-! ## Callbacks -/

/-- How a callback that writes to the metadata database ends. -/
inductive Callback (ε : Type) where
  | returns
  | throwsBefore (e : ε)
  | throwsAfter (e : ε)

/-- The batch fails with an error in its result, or with an exception. -/
inductive BatchFailure where
  | errorResult (rawMessage : Text)
  | exception (e : Exception)

structure MetadataManager where
  /-- The batch is wrapped in a transaction of its own, as the quack manager does. -/
  commitsInBatch : Bool
  isRetryableCommitError : Text → Bool

/-- What the callbacks do in one round of the loop. -/
structure Round where
  /-- The snapshot that is read in the first round or returned by the conflict check in a later
  one, with the other answers of the catalog. -/
  start : Except Exception CommitEnvironment
  executeCommitBatch : Callback BatchFailure
  flushCacheIfPending : Except Exception Unit
  commitConnection : Callback Exception
  tryRollback : Except Exception Unit
  prepareRetry : Except Exception Unit

/-- Primary key errors, conflicts and concurrent access. -/
def retryOnError (originalMessage : Text) : Bool :=
  let message := originalMessage.fold
  let parts : List Text := ["primary key", "unique", "conflict", "concurrent"]
  parts.any fun part => part <:+: message

/-- What the handler of a round knows of the exception. -/
structure Thrown where
  exception : Exception
  canRetry : Bool
  retryableMetadataError : Bool

def Thrown.retries (m : MetadataManager) (t : Thrown) : Bool :=
  t.canRetry && (t.retryableMetadataError || m.isRetryableCommitError t.exception.message ||
    retryOnError t.exception.message)

/-- How a round has ended: the batch that it made durable, and the exception it has thrown. -/
structure RoundResult where
  durable : Option CommitBatch := none
  thrown : Option Thrown := none

def BatchFailure.thrown (m : MetadataManager) : BatchFailure → Thrown
  | errorResult rawMessage =>
    ⟨⟨.transaction, "Failed to flush changes into DuckLake: " ++ rawMessage⟩, true,
      m.isRetryableCommitError rawMessage⟩
  | exception e => ⟨e, true, false⟩

/-! ## The loop -/

section Loop

variable [SQLWriter] [StatsMerge]

def Round.commit (round : Round) (m : MetadataManager) (batch : CommitBatch) : RoundResult :=
  let sent := if m.commitsInBatch then some batch else none
  match round.executeCommitBatch with
  | .throwsBefore e => { thrown := some (e.thrown m) }
  | .throwsAfter e => { durable := sent, thrown := some (e.thrown m) }
  | .returns =>
    match round.flushCacheIfPending with
    | .error e => { durable := sent, thrown := some ⟨e, true, false⟩ }
    | .ok () =>
      match round.commitConnection with
      | .throwsBefore e => { durable := sent, thrown := some ⟨e, true, false⟩ }
      | .throwsAfter e => { durable := some batch, thrown := some ⟨e, true, false⟩ }
      | .returns => { durable := some batch }

def Round.run (round : Round) (m : MetadataManager) (changes : TransactionChangeInformation)
    (T : StagedTransaction) : RoundResult :=
  match round.start with
  | .error e => { thrown := some ⟨e, false, false⟩ }
  | .ok env =>
    match emitted env changes T with
    | .error e => { thrown := some ⟨e, true, false⟩ }
    | .ok batch => round.commit m batch

/-- The transaction when the round is over. -/
def Round.after (round : Round) (changes : TransactionChangeInformation) (T : StagedTransaction) :
    StagedTransaction :=
  match round.start with
  | .error _ => T
  | .ok env => afterAttempt env changes T

structure CommitOutcome where
  /-- The snapshots of this transaction that have become durable. -/
  durable : List CommitBatch
  /-- The files that were removed, when `CleanupFiles` ran. -/
  removed : Option (List StagedFile) := none
  error : Option Exception := none

/-- The loop from a round on, with the number of retries that are left. -/
def commitLoop (m : MetadataManager) (changes : TransactionChangeInformation)
    (rounds : Nat → Round) (retriesLeft i : Nat) (T : StagedTransaction)
    (durable : List CommitBatch) : CommitOutcome :=
  let result := (rounds i).run m changes T
  let durable := durable ++ result.durable.toList
  let T := (rounds i).after changes T
  match result.thrown, (rounds i).tryRollback, retriesLeft with
  | none, _, _ => { durable := durable }
  | some _, .error e, _ => { durable := durable, error := some e }
  | some thrown, .ok (), 0 =>
    { durable := durable, removed := some T.localChanges.cleanupFiles
      error := some thrown.exception }
  | some thrown, .ok (), retriesLeft + 1 =>
    if thrown.retries m then
      match (rounds i).prepareRetry with
      | .error e => { durable := durable, error := some e }
      | .ok () => commitLoop m changes rounds retriesLeft (i + 1) T durable
    else
      { durable := durable, removed := some T.localChanges.cleanupFiles
        error := some thrown.exception }

/-! ## Safety -/

/-- The staged rows have no column for who has created a file, so the server reads the default. -/
def CommitSide.read : CommitSide → StagedFile → StagedFile
  | client, file => file
  | server, file => { file with createdByDucklake := true }

omit [SQLWriter] [StatsMerge] in
@[simp] theorem CommitSide.path_read (side : CommitSide) (file : StagedFile) :
    (side.read file).path = file.path := by
  cases side <;> rfl

/-- A transaction that is about to commit, with the files that the rows of other transactions refer
to. -/
structure CommittingTransaction extends StagedTransaction where
  changes : TransactionChangeInformation
  otherFiles : List Text
  side : CommitSide
  /-- The transaction as the commit loop sees it. -/
  executed : StagedTransaction
  inserted : ∀ f, f ∈ executed.localChanges.insertedFiles ↔
    ∃ g ∈ localChanges.insertedFiles, f = side.read g
  compacted : ∀ f, f ∈ executed.localChanges.compactedFiles ↔
    ∃ g ∈ localChanges.compactedFiles, f = side.read g
  /-- A compaction writes its output itself. -/
  written : ∀ f ∈ localChanges.compactedFiles, f.createdByDucklake = true

namespace CommittingTransaction

variable (T : CommittingTransaction)

/-- The outcome of `DuckLakeTransactionState::Commit`. -/
def commit (m : MetadataManager) (maxRetryCount : Nat) (rounds : Nat → Round) : CommitOutcome :=
  commitLoop m T.changes rounds maxRetryCount 0 T.executed []

/-- The transaction has a file at the path that DuckLake has created. -/
def Creates (path : Text) : Prop :=
  ∃ f ∈ T.localChanges.insertedFiles ++ T.localChanges.compactedFiles,
    f.createdByDucklake = true ∧ f.path = path

/-- No file is staged that DuckLake has not created, or it is not a server that commits. -/
def KeepsOrigin : Prop :=
  T.side = .server → ∀ f ∈ T.localChanges.insertedFiles, T.Creates f.path

/-- No row of another transaction refers to a file that this one has created. -/
def Fresh : Prop := ∀ path, T.Creates path → path ∉ T.otherFiles

end CommittingTransaction

/-- The files that durable rows refer to. -/
def CommitOutcome.durableFiles (outcome : CommitOutcome) (otherFiles : List Text) : List Text :=
  otherFiles ++ outcome.durable.flatMap fun batch => batch.1.flatMap Statement.files

/-- The transaction is committed at most once, and files are only removed when it is not. -/
structure CommittingTransaction.Safe (T : CommittingTransaction) (outcome : CommitOutcome) :
    Prop where
  once : outcome.durable.length ≤ 1
  notDurable : outcome.removed.isSome = true → outcome.durable = []
  created : ∀ files ∈ outcome.removed, ∀ f ∈ files, T.Creates f.path
  unreferenced : ∀ files ∈ outcome.removed, ∀ f ∈ files,
    f.path ∉ outcome.durableFiles T.otherFiles

/-- A callback throws when the batch of the round is already durable. -/
inductive Round.FailsDurable (m : MetadataManager) (round : Round) : Prop where
  | batch {e : BatchFailure} (hm : m.commitsInBatch = true)
      (h : round.executeCommitBatch = .throwsAfter e)
  | cache {e : Exception} (hm : m.commitsInBatch = true)
      (h : round.executeCommitBatch = .returns) (hc : round.flushCacheIfPending = .error e)
  | connection {e : Exception} (hm : m.commitsInBatch = true)
      (h : round.executeCommitBatch = .returns) (hc : round.flushCacheIfPending = .ok ())
      (hcommit : round.commitConnection = .throwsBefore e)
  | committed {e : Exception} (h : round.executeCommitBatch = .returns)
      (hc : round.flushCacheIfPending = .ok ()) (hcommit : round.commitConnection = .throwsAfter e)

namespace Round

variable {round : Round} {m : MetadataManager} {changes : TransactionChangeInformation}
  {T : StagedTransaction} {thrown : Thrown} {batch : CommitBatch}

omit [SQLWriter] [StatsMerge] in
theorem durable_commit (h : ¬ round.FailsDurable m)
    (ht : (round.commit m batch).thrown = some thrown) :
    (round.commit m batch).durable = none := by
  unfold commit at ht ⊢
  cases hm : m.commitsInBatch with
  | true =>
    cases hexec : round.executeCommitBatch with
    | throwsBefore e => rfl
    | throwsAfter e => exact absurd (.batch hm hexec) h
    | returns =>
      cases hc : round.flushCacheIfPending with
      | error e => exact absurd (.cache hm hexec hc) h
      | ok u =>
        cases hcommit : round.commitConnection with
        | throwsBefore e => exact absurd (.connection hm hexec hc hcommit) h
        | throwsAfter e => exact absurd (.committed hexec hc hcommit) h
        | returns => simp [hexec, hc, hcommit] at ht
  | false =>
    cases hexec : round.executeCommitBatch with
    | throwsBefore e | throwsAfter e => rfl
    | returns =>
      cases hc : round.flushCacheIfPending with
      | error e => rfl
      | ok u =>
        cases hcommit : round.commitConnection with
        | throwsBefore e => rfl
        | throwsAfter e => exact absurd (.committed hexec hc hcommit) h
        | returns => simp [hexec, hc, hcommit] at ht

/-- A round that does not fail late has made nothing durable when it throws. -/
theorem durable_run (h : ¬ round.FailsDurable m)
    (ht : (round.run m changes T).thrown = some thrown) :
    (round.run m changes T).durable = none := by
  unfold run at ht ⊢
  cases hstart : round.start with
  | error e => rfl
  | ok env =>
    simp only [hstart] at ht ⊢
    cases hbatch : emitted env changes T with
    | error e => rfl
    | ok batch =>
      simp only [hbatch] at ht ⊢
      exact durable_commit h ht

/-- A round that fails late has made its batch durable. -/
theorem FailsDurable.run (h : round.FailsDurable m) {env : CommitEnvironment}
    (hstart : round.start = .ok env) (hbatch : emitted env changes T = .ok batch) :
    (round.run m changes T).durable = some batch ∧
      ∃ thrown, (round.run m changes T).thrown = some thrown := by
  cases h with
  | batch hm h => simp [Round.run, commit, hstart, hbatch, hm, h]
  | cache hm h hc => simp [Round.run, commit, hstart, hbatch, hm, h, hc]
  | connection hm h hc hcommit => simp [Round.run, commit, hstart, hbatch, hm, h, hc, hcommit]
  | committed h hc hcommit => simp [Round.run, commit, hstart, hbatch, h, hc, hcommit]

/-- A round that reaches its end has made its batch durable. -/
theorem durable_of_not_thrown (h : (round.run m changes T).thrown = none) :
    ∃ batch, (round.run m changes T).durable = some batch := by
  unfold run at h ⊢
  cases hstart : round.start with
  | error e => simp [hstart] at h
  | ok env =>
    simp only [hstart] at h ⊢
    cases hbatch : emitted env changes T with
    | error e => simp [hbatch] at h
    | ok batch =>
      simp only [hbatch] at h ⊢
      refine ⟨batch, ?_⟩
      unfold commit at h ⊢
      cases hexec : round.executeCommitBatch with
      | throwsBefore e | throwsAfter e => simp [hexec] at h
      | returns =>
        cases hc : round.flushCacheIfPending with
        | error e => simp [hexec, hc] at h
        | ok u =>
          cases hcommit : round.commitConnection with
          | throwsBefore e | throwsAfter e => simp [hexec, hc, hcommit] at h
          | returns => rfl

/-- What an attempt stores in the transaction does not touch its files. -/
theorem localChanges_after : (round.after changes T).localChanges = T.localChanges := by
  have hstore : ∀ (stores : List Store) (T : StagedTransaction),
      (stores.foldl .store T).localChanges = T.localChanges := by
    intro stores
    induction stores with
    | nil => exact fun _ => rfl
    | cons w stores ih =>
      intro T
      refine (ih _).trans ?_
      cases w <;> rfl
  unfold after
  cases round.start with
  | error e => rfl
  | ok env => exact hstore _ _

end Round

variable (m : MetadataManager) (changes : TransactionChangeInformation) (rounds : Nat → Round)

/-- The ways in which the loop goes on after a round that has had `before` durable batches. -/
inductive LoopStep (m : MetadataManager) (changes : TransactionChangeInformation)
    (rounds : Nat → Round) (retriesLeft i : Nat) (T : StagedTransaction)
    (before : List CommitBatch) (outcome : CommitOutcome) : Prop where
  | committed {batch : CommitBatch} (ht : ((rounds i).run m changes T).thrown = none)
      (hd : ((rounds i).run m changes T).durable = some batch)
      (ho : outcome = { durable := before ++ [batch] })
  | escaped {thrown : Thrown} {e : Exception}
      (ht : ((rounds i).run m changes T).thrown = some thrown)
      (he : (rounds i).tryRollback = .error e ∨ (rounds i).prepareRetry = .error e)
      (ho : outcome =
        { durable := before ++ ((rounds i).run m changes T).durable.toList, error := some e })
  | aborted {thrown : Thrown} (ht : ((rounds i).run m changes T).thrown = some thrown)
      (ho : outcome =
        { durable := before ++ ((rounds i).run m changes T).durable.toList
          removed := some T.localChanges.cleanupFiles
          error := some thrown.exception })
  | retried {thrown : Thrown} {n : Nat} (ht : ((rounds i).run m changes T).thrown = some thrown)
      (hn : retriesLeft = n + 1)
      (ho : outcome = commitLoop m changes rounds n (i + 1) ((rounds i).after changes T)
        (before ++ ((rounds i).run m changes T).durable.toList))

theorem commitLoop_step (retriesLeft i : Nat) (T : StagedTransaction) (before : List CommitBatch) :
    LoopStep m changes rounds retriesLeft i T before
      (commitLoop m changes rounds retriesLeft i T before) := by
  unfold commitLoop
  dsimp only
  rw [Round.localChanges_after]
  cases hthrown : ((rounds i).run m changes T).thrown with
  | none =>
    obtain ⟨batch, hbatch⟩ := Round.durable_of_not_thrown hthrown
    exact .committed hthrown hbatch (by rw [hbatch]; rfl)
  | some thrown =>
    cases hrollback : (rounds i).tryRollback with
    | error e => exact .escaped hthrown (.inl hrollback) rfl
    | ok u =>
      cases retriesLeft with
      | zero => exact .aborted hthrown rfl
      | succ n =>
        dsimp only
        split
        · cases hprepare : (rounds i).prepareRetry with
          | error e => exact .escaped hthrown (.inr hprepare) rfl
          | ok u => exact .retried hthrown rfl rfl
        · exact .aborted hthrown rfl

/-- `CleanupFiles` always sees the files that were staged. -/
theorem removed_commitLoop (retriesLeft i : Nat) (T : StagedTransaction)
    (before : List CommitBatch) :
    ∀ files ∈ (commitLoop m changes rounds retriesLeft i T before).removed,
      files = T.localChanges.cleanupFiles := by
  induction retriesLeft using Nat.strong_induction_on generalizing i T before with
  | _ retriesLeft ih =>
    intro files hfiles
    cases commitLoop_step m changes rounds retriesLeft i T before with
    | committed _ _ ho | escaped _ _ ho =>
      rw [ho] at hfiles
      cases hfiles
    | aborted _ ho =>
      rw [ho] at hfiles
      exact (Option.some.inj hfiles).symm
    | retried _ hn ho =>
      rw [ho] at hfiles
      rw [← Round.localChanges_after]
      exact ih _ (by omega) _ _ _ files hfiles

/-- Without late failures, only the last round makes something durable, and then nothing is
removed. -/
theorem durable_commitLoop (h : ∀ i, ¬ (rounds i).FailsDurable m) (retriesLeft i : Nat)
    (T : StagedTransaction) :
    (commitLoop m changes rounds retriesLeft i T []).durable.length ≤ 1 ∧
      ((commitLoop m changes rounds retriesLeft i T []).removed.isSome = true →
        (commitLoop m changes rounds retriesLeft i T []).durable = []) := by
  induction retriesLeft using Nat.strong_induction_on generalizing i T with
  | _ retriesLeft ih =>
    cases commitLoop_step m changes rounds retriesLeft i T [] with
    | committed _ _ ho =>
      rw [ho]
      exact ⟨le_rfl, nofun⟩
    | escaped ht _ ho | aborted ht ho =>
      rw [ho, Round.durable_run (h i) ht]
      exact ⟨Nat.zero_le 1, fun _ => rfl⟩
    | retried ht hn ho =>
      rw [ho, Round.durable_run (h i) ht]
      exact ih _ (by omega) _ _

/-- Once a round has failed late, the loop commits a second time or removes committed files. -/
theorem late_commitLoop
    (hreturn : ∀ i, (rounds i).tryRollback = .ok () ∧ (rounds i).prepareRetry = .ok ())
    (retriesLeft i : Nat) (T : StagedTransaction) {before : List CommitBatch}
    (hbefore : before ≠ []) :
    2 ≤ (commitLoop m changes rounds retriesLeft i T before).durable.length ∨
      ((commitLoop m changes rounds retriesLeft i T before).removed.isSome = true ∧
        (commitLoop m changes rounds retriesLeft i T before).durable ≠ []) := by
  induction retriesLeft using Nat.strong_induction_on generalizing i T before with
  | _ retriesLeft ih =>
    cases commitLoop_step m changes rounds retriesLeft i T before with
    | committed _ _ ho =>
      have hlength := List.length_pos_of_ne_nil hbefore
      rw [ho, List.length_append, List.length_singleton]
      exact .inl (by omega)
    | escaped _ he ho =>
      obtain ⟨hrollback, hprepare⟩ := hreturn i
      rcases he with he | he
      · exact absurd (hrollback.symm.trans he) nofun
      · exact absurd (hprepare.symm.trans he) nofun
    | aborted _ ho =>
      rw [ho]
      exact .inr ⟨rfl, List.append_ne_nil_of_left_ne_nil hbefore _⟩
    | retried _ hn ho =>
      rw [ho]
      exact ih _ (by omega) _ _ (List.append_ne_nil_of_left_ne_nil hbefore _)

namespace CommittingTransaction

variable {T : CommittingTransaction}

omit [StatsMerge] in
theorem creates_of_mem_cleanupFiles (hkeeps : T.KeepsOrigin) {f : StagedFile}
    (h : f ∈ T.executed.localChanges.cleanupFiles) : T.Creates f.path := by
  rcases (LocalTableChanges.mem_cleanupFiles _).1 h with ⟨hf, hcreated⟩ | hf
  · obtain ⟨g, hg, rfl⟩ := (T.inserted f).1 hf
    cases hside : T.side with
    | client =>
      rw [hside] at hcreated
      exact ⟨g, List.mem_append_left _ hg, hcreated, rfl⟩
    | server => exact hkeeps hside g hg
  · obtain ⟨g, hg, rfl⟩ := (T.compacted f).1 hf
    exact ⟨g, List.mem_append_right _ hg, T.written g hg, (T.side.path_read g).symm⟩

omit [StatsMerge] in
/-- The files that the transaction has created are removed. -/
theorem exists_cleanupFile {path : Text} (h : T.Creates path) :
    ∃ f ∈ T.executed.localChanges.cleanupFiles, f.path = path := by
  obtain ⟨g, hg, hcreated, rfl⟩ := h
  refine ⟨T.side.read g, (LocalTableChanges.mem_cleanupFiles _).2 ?_, T.side.path_read g⟩
  rcases List.mem_append.1 hg with hg | hg
  · refine .inl ⟨(T.inserted _).2 ⟨g, hg, rfl⟩, ?_⟩
    cases T.side with
    | client => exact hcreated
    | server => rfl
  · exact .inr ((T.compacted _).2 ⟨g, hg, rfl⟩)

omit [StatsMerge] in
/-- On a server, all files that were added are removed. -/
theorem exists_cleanupFile_of_server (hside : T.side = .server) {g : StagedFile}
    (hg : g ∈ T.localChanges.insertedFiles) :
    ∃ f ∈ T.executed.localChanges.cleanupFiles, f.path = g.path := by
  refine ⟨T.side.read g, (LocalTableChanges.mem_cleanupFiles _).2 ?_, T.side.path_read g⟩
  refine .inl ⟨(T.inserted _).2 ⟨g, hg, rfl⟩, ?_⟩
  rw [hside]
  rfl

theorem removed_commit {m : MetadataManager} {maxRetryCount : Nat} {rounds : Nat → Round} :
    ∀ files ∈ (T.commit m maxRetryCount rounds).removed,
      files = T.executed.localChanges.cleanupFiles :=
  removed_commitLoop m T.changes rounds maxRetryCount 0 T.executed []

theorem Safe.of_not_failsDurable (hkeeps : T.KeepsOrigin) (hfresh : T.Fresh)
    {m : MetadataManager} {maxRetryCount : Nat} {rounds : Nat → Round}
    (h : ∀ i, ¬ (rounds i).FailsDurable m) : T.Safe (T.commit m maxRetryCount rounds) := by
  obtain ⟨honce, hremoved⟩ := durable_commitLoop m T.changes rounds h maxRetryCount 0 T.executed
  refine ⟨honce, hremoved, fun files hfiles f hf => ?_, fun files hfiles f hf => ?_⟩
  · rw [removed_commit files hfiles] at hf
    exact creates_of_mem_cleanupFiles hkeeps hf
  · have hdurable : (T.commit m maxRetryCount rounds).durable = [] := by
      refine hremoved ?_
      rw [Option.isSome_iff_exists]
      exact ⟨files, hfiles⟩
    rw [removed_commit files hfiles] at hf
    rw [CommitOutcome.durableFiles, hdurable]
    simpa using hfresh _ (creates_of_mem_cleanupFiles hkeeps hf)

/-- Where `CleanupFiles` runs, it removes what it should only if the files that it sees are the
transaction's own. -/
theorem Safe.ownFiles {m : MetadataManager} {maxRetryCount : Nat} {rounds : Nat → Round}
    (h : T.Safe (T.commit m maxRetryCount rounds))
    (hremoved : (T.commit m maxRetryCount rounds).removed.isSome = true) :
    T.KeepsOrigin ∧ T.Fresh := by
  obtain ⟨files, hfiles⟩ := Option.isSome_iff_exists.1 hremoved
  have hcleanup := removed_commit files hfiles
  constructor
  · intro hside g hg
    obtain ⟨f, hf, hpath⟩ := exists_cleanupFile_of_server hside hg
    rw [← hcleanup] at hf
    exact hpath ▸ h.created files hfiles f hf
  · intro path hcreates hother
    obtain ⟨f, hf, rfl⟩ := exists_cleanupFile hcreates
    rw [← hcleanup] at hf
    exact h.unreferenced files hfiles f hf (List.mem_append_left _ hother)

end CommittingTransaction

/-- A commit is safe in which no round throws after its batch has become durable, if no other
transaction refers to the files that this one has created and those that it has not created are
not committed by a server. Otherwise it is not: a round that fails late leads to a second commit or
to the removal of committed files, unless the handler itself is left by an exception, and
`CleanupFiles` removes the files of others. -/
theorem commit_safe (m : MetadataManager) :
    (∀ (T : CommittingTransaction) (maxRetryCount : Nat) (rounds : Nat → Round),
      T.KeepsOrigin → T.Fresh → (∀ i, ¬ (rounds i).FailsDurable m) →
      T.Safe (T.commit m maxRetryCount rounds)) ∧
    (∀ (T : CommittingTransaction) (maxRetryCount : Nat) (rounds : Nat → Round),
      (T.commit m maxRetryCount rounds).removed.isSome = true →
      T.Safe (T.commit m maxRetryCount rounds) → T.KeepsOrigin ∧ T.Fresh) ∧
    ∀ (T : CommittingTransaction) (rounds : Nat → Round),
      (∀ i, (rounds i).tryRollback = .ok () ∧ (rounds i).prepareRetry = .ok ()) →
      ∀ (retriesLeft i : Nat) (executed : StagedTransaction) (before : List CommitBatch)
        (env : CommitEnvironment) (batch : CommitBatch),
        (rounds i).FailsDurable m → (rounds i).start = .ok env →
        emitted env T.changes executed = .ok batch →
        ¬ T.Safe (commitLoop m T.changes rounds retriesLeft i executed before) := by
  refine ⟨fun T maxRetryCount rounds hkeeps hfresh h => .of_not_failsDurable hkeeps hfresh h,
    fun T maxRetryCount rounds hremoved h => h.ownFiles hremoved, ?_⟩
  intro T rounds hreturn retriesLeft i executed before env batch hlate hstart hbatch hsafe
  obtain ⟨hdurable, thrown, hthrown⟩ := hlate.run hstart hbatch
  have hne : before ++ ((rounds i).run m T.changes executed).durable.toList ≠ [] := by
    simp [hdurable]
  obtain ⟨hrollback, hprepare⟩ := hreturn i
  cases commitLoop_step m T.changes rounds retriesLeft i executed before with
  | committed ht _ _ => exact absurd (ht.symm.trans hthrown) nofun
  | escaped _ he _ =>
    rcases he with he | he
    · exact absurd (hrollback.symm.trans he) nofun
    · exact absurd (hprepare.symm.trans he) nofun
  | aborted _ ho =>
    rw [ho] at hsafe
    exact hne (hsafe.notDurable rfl)
  | @retried _ n _ hn ho =>
    rw [ho] at hsafe
    have hlate := late_commitLoop m T.changes rounds hreturn n (i + 1)
      ((rounds i).after T.changes executed) hne
    rcases hlate with htwice | ⟨hremoved, hdurable⟩
    · have honce := hsafe.once
      omega
    · exact hdurable (hsafe.notDurable hremoved)

end Loop

section Example

attribute [local instance] SQLWriter.reference
attribute [local instance] textualStats

/-- One data file is inserted into table 1. -/
def insertFile : StagedTransaction where
  commitInfo := ⟨none, none, none, false⟩
  localChanges := ⟨[(1, { newDataFiles := [{ fileName := "new.parquet", rowCount := 1 }] })],
    by decide⟩

/-- The insert is committed by the client. -/
def commitInsertedFile : CommittingTransaction where
  toStagedTransaction := insertFile
  changes := { tablesInsertedInto := .ofList [1] }
  otherFiles := ["old.parquet"]
  side := .client
  executed := insertFile
  inserted f := by simp [CommitSide.read]
  compacted f := by simp [CommitSide.read]
  written := by decide

/-- The connection is lost while it commits. -/
def lostConnection (commit : Exception → Callback Exception) : Round where
  start := .ok (emptyCatalog 3 10)
  executeCommitBatch := .returns
  flushCacheIfPending := .ok ()
  commitConnection := commit ⟨.transaction, "server closed the connection unexpectedly"⟩
  tryRollback := .ok ()
  prepareRetry := .ok ()

/-- A manager that commits with the connection. -/
def connectionManager : MetadataManager := ⟨false, fun _ => false⟩

/-- When the connection is lost before the commit took effect, the file may be removed. -/
theorem commit_safe_lostBefore :
    commitInsertedFile.Safe
        (commitInsertedFile.commit connectionManager 10 fun _ => lostConnection .throwsBefore) ∧
      (commitInsertedFile.commit connectionManager 10 fun _ =>
        lostConnection .throwsBefore).removed.isSome = true := by
  have hfresh : commitInsertedFile.Fresh := by
    rintro path ⟨f, hf, -, rfl⟩
    revert f
    decide
  refine ⟨(commit_safe connectionManager).1 commitInsertedFile 10 _
    (fun hside => absurd hside (by decide)) hfresh fun i h => ?_,
    by decide +kernel⟩
  cases h with
  | batch hm | cache hm | connection hm => cases hm
  | committed _ _ hcommit => cases hcommit

/-- When it is lost after the commit took effect, a committed file is removed. -/
theorem not_commit_safe_lostAfter :
    ¬ ∀ (m : MetadataManager) (T : CommittingTransaction) (maxRetryCount : Nat)
      (rounds : Nat → Round), T.Safe (T.commit m maxRetryCount rounds) := by
  intro h
  have hsafe := h connectionManager commitInsertedFile 10 fun _ => lostConnection .throwsAfter
  have hdurable := hsafe.notDurable (by decide +kernel)
  have hlength : (commitInsertedFile.commit connectionManager 10 fun _ =>
      lostConnection .throwsAfter).durable.length = 1 := by decide +kernel
  rw [hdurable] at hlength
  exact absurd hlength (by decide)

end Example

end DuckLake
