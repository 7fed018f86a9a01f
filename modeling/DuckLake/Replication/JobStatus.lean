import Mathlib.Logic.Function.Basic
import DuckLake.Lib.Runs

/-!
# The status of replication jobs

The rows of `ducklake_replication` and everyone who writes their status: the calls that start,
stop, pause and resume jobs, the catchup cycles with the status they report at their end, and the
supervisor threads, which run cycles of the jobs that are due. Each statement on the catalog is one
step; all of them may interleave.
-/

namespace DuckLake

abbrev JobId := Nat
abbrev SupervisorId := Nat
abbrev CallId := Nat

inductive JobStatus where
  | created | running | error | paused | stopped
deriving DecidableEq, Repr

/-- `JobIsRunnable`. -/
def JobStatus.isRunnable : JobStatus → Bool
  | running | error => true
  | _ => false

/-! ## Cycles and supervisors -/

/-- Who runs a catchup cycle. -/
inductive Caller where
  | supervisor (i : SupervisorId)
  | manual (call : CallId)
deriving DecidableEq

inductive CyclePhase where
  /-- The row of the job has been read. -/
  | read
  /-- The cycle holds its `CycleGuard`. -/
  | running
  /-- The cycle is about to report a status, after an exception or not. -/
  | reporting (status : JobStatus) (throws : Bool)
deriving DecidableEq

/-- A call of `Catchup` that has read the row of its job. -/
structure Cycle where
  job : JobId
  /-- `job.status`, as it was read. -/
  status : JobStatus
  phase : CyclePhase
deriving DecidableEq

/-- A job as `ListJobs` returned it. -/
abbrev ListedJob := JobId × JobStatus

/-- Where a supervisor is in `SupervisorLoop`. -/
inductive ThreadPhase where
  | asleep
  /-- In the loop over the jobs, with those still to come. -/
  | looping (todo : List ListedJob)
  /-- About to call `Catchup` on a job that is due. -/
  | picked (job : JobId) (todo : List ListedJob)
  | inCatchup (todo : List ListedJob)
  /-- About to report the exception that `Catchup` threw. -/
  | failed (job : JobId) (todo : List ListedJob)
  | exited

structure Thread where
  /-- `stop_requested` and `abort_cycle`, which are set together. -/
  aborting : Bool
  phase : ThreadPhase

/-- The jobs of a list that a pass would run. -/
def runnableJobs (todo : List ListedJob) : List JobId :=
  (todo.filter (·.2.isRunnable)).map (·.1)

/-- The jobs that a supervisor may still call `Catchup` on in this pass. -/
def ThreadPhase.pending : ThreadPhase → List JobId
  | asleep | exited => []
  | looping todo | inCatchup todo | failed _ todo => runnableJobs todo
  | picked job todo => job :: runnableJobs todo

/-! ## States -/

structure ReplicationState where
  jobs : List JobId
  status : JobId → JobStatus
  /-- The entry of the destination in `supervisor_registry`. -/
  registry : Option SupervisorId
  threads : SupervisorId → Option Thread
  cycles : Caller → Option Cycle
  /-- `in_flight_cycles`. -/
  inFlight : List JobId
  /-- The calls of `Stop` that have removed the registry entry, each with the supervisor it has to
  join. -/
  stopping : CallId → Option (Option SupervisorId)
  /-- The jobs that were paused or stopped and that no `Start`, `Resume` or `ResumeAll` has selected
  since. No code reads it. -/
  inactive : JobId → Bool

namespace ReplicationState

/-- Nothing runs yet. -/
structure Initial (s : ReplicationState) : Prop where
  registry : s.registry = none
  threads : ∀ i, s.threads i = none
  cycles : ∀ caller, s.cycles caller = none
  inFlight : s.inFlight = []
  stopping : ∀ call, s.stopping call = none
  inactive : ∀ j, s.inactive j = false

/-- `UPDATE ducklake_replication SET status = .. WHERE ..`. -/
def update (s : ReplicationState) (selected : JobId → Bool) (status : JobStatus) :
    ReplicationState :=
  { s with status := fun j => if selected j then status else s.status j }

/-- The selected jobs are active again. -/
def release (s : ReplicationState) (selected : JobId → Bool) : ReplicationState :=
  { s with inactive := fun j => s.inactive j && !selected j }

/-- The selected jobs are paused or stopped. -/
def deactivate (s : ReplicationState) (selected : JobId → Bool) : ReplicationState :=
  { s with inactive := fun j => s.inactive j || selected j }

def setThread (s : ReplicationState) (i : SupervisorId) (t : Thread) : ReplicationState :=
  { s with threads := Function.update s.threads i (some t) }

def setPhase (s : ReplicationState) (i : SupervisorId) (t : Thread) (phase : ThreadPhase) :
    ReplicationState :=
  s.setThread i { t with phase := phase }

def setCycle (s : ReplicationState) (caller : Caller) (c : Option Cycle) : ReplicationState :=
  { s with cycles := Function.update s.cycles caller c }

/-! ## Statuses that calls write -/

/-- `Start`: all startable jobs, or one job whatever its status. -/
def startSelects (s : ReplicationState) (selected : Option JobId) (j : JobId) : Bool :=
  s.jobs.contains j &&
    match selected with
    | none => s.status j = .created || s.status j = .error || s.status j = .stopped
    | some j' => j = j'

def resumeAllSelects (s : ReplicationState) (j : JobId) : Bool :=
  s.jobs.contains j && (s.status j = .paused || s.status j = .error || s.status j = .stopped)

def stopSelects (s : ReplicationState) (j : JobId) : Bool :=
  s.jobs.contains j && (s.status j = .running || s.status j = .created)

def selectsJob (s : ReplicationState) (j j' : JobId) : Bool := s.jobs.contains j' && j' = j

/-- `UpdateJobStatus`: a concurrent pause wins over the cycle's own transition. -/
def updateJobStatus (s : ReplicationState) (j : JobId) (status : JobStatus) : ReplicationState :=
  s.update (fun j' => s.selectsJob j j' && s.status j' ≠ .paused) status

/-! ## Supervisors -/

/-- `HasLiveSupervisor`. -/
def hasLiveSupervisor (s : ReplicationState) : Bool :=
  match s.registry.bind s.threads with
  | some ⟨_, .exited⟩ => false
  | some _ => true
  | none => false

/-- `EnsureSupervisor`: a new thread, unless a live one is registered. -/
def ensureSupervisor (s : ReplicationState) (fresh : SupervisorId) : Option ReplicationState :=
  if s.hasLiveSupervisor then some s
  else if (s.threads fresh).isSome then none
  else some { s.setThread fresh ⟨false, .asleep⟩ with registry := some fresh }

/-- `StopSupervisorEntry`, up to the join: the entry is removed and its thread told to stop. -/
def stopSupervisorEntry (s : ReplicationState) (call : CallId) : ReplicationState :=
  let s' := { s with registry := none, stopping := Function.update s.stopping call (some s.registry) }
  match s.registry with
  | some i =>
      match s.threads i with
      | some t => s'.setThread i { t with aborting := true }
      | none => s'
  | none => s'

def hasExited (s : ReplicationState) (i : SupervisorId) : Bool :=
  match s.threads i with
  | some ⟨_, .exited⟩ => true
  | _ => false

/-- The rest of `Stop`, once the supervisor is joined. -/
def stopUpdate (s : ReplicationState) (call : CallId) : Option ReplicationState :=
  match s.stopping call with
  | some joined =>
      if joined.all s.hasExited then
        some { (s.update s.stopSelects .stopped).deactivate s.stopSelects with
          stopping := Function.update s.stopping call none }
      else none
  | none => none

/-- Whether the abort flag of the caller is set. A manual call has none. -/
def isAborting (s : ReplicationState) : Caller → Bool
  | .supervisor i => (s.threads i).any (·.aborting)
  | .manual _ => false

/-- What `Catchup` throws at, once it has looked for the row. -/
def rejectsJob (s : ReplicationState) (j : JobId) : Bool :=
  !s.jobs.contains j || s.status j = .paused

/-- The job of which a supervisor starts a cycle when it takes its next step. -/
def supervisorStarts (s : ReplicationState) (i : SupervisorId) : Option JobId :=
  match s.threads i with
  | some ⟨_, .picked j _⟩ => if s.rejectsJob j then none else some j
  | _ => none

/-- `Catchup` of the supervisor has thrown: the error is reported unless a stop is under way. -/
def supervisorCaught (s : ReplicationState) (i : SupervisorId) (t : Thread) (j : JobId)
    (todo : List ListedJob) : ReplicationState :=
  s.setPhase i t (if t.aborting then .looping todo else .failed j todo)

/-! ## Cycles -/

/-- The cycle is over. Its guard, where it holds one, is released. -/
def closeCycle (s : ReplicationState) (caller : Caller) (c : Cycle) (guarded : Bool) :
    ReplicationState :=
  { s.setCycle caller none with
    inFlight := if guarded then s.inFlight.erase c.job else s.inFlight }

/-- `Catchup` returns, or throws, to its caller. -/
def leaveCycle (s : ReplicationState) (caller : Caller) (c : Cycle) (guarded throws : Bool) :
    ReplicationState :=
  let s := s.closeCycle caller c guarded
  match caller with
  | .manual _ => s
  | .supervisor i =>
      match s.threads i with
      | some ⟨aborting, .inCatchup todo⟩ =>
          if throws then s.supervisorCaught i ⟨aborting, .inCatchup todo⟩ c.job todo
          else s.setPhase i ⟨aborting, .inCatchup todo⟩ (.looping todo)
      | _ => s

/-- How the work of a cycle ends: every table is copied, some table failed, or an exception. -/
inductive Outcome where
  | success | tableFailures | exception
deriving DecidableEq

/-- The status that is reported at the end of a cycle. -/
def reportedStatus (s : ReplicationState) (c : Cycle) : Outcome → JobStatus
  | .success => if s.hasLiveSupervisor && c.status.isRunnable then .running else .created
  | .tableFailures | .exception => .error

/-! ## Steps -/

inductive Action where
  /-- The `UPDATE` of `Start`. -/
  | start (selected : Option JobId)
  | pause (j : JobId)
  | resume (j : JobId)
  | resumeAll
  /-- The end of `Start`, `Resume` and `ResumeAll`. -/
  | ensureSupervisor (fresh : SupervisorId)
  | stopSupervisorEntry (call : CallId)
  /-- The `UPDATE` of `Stop`. -/
  | stopUpdate (call : CallId)
  /-- A call of `Catchup` reads the row of its job. -/
  | manualCatchup (call : CallId) (j : JobId)
  | beginPass (i : SupervisorId)
  /-- A job is passed over: it is not runnable, or not due. -/
  | passOver (i : SupervisorId)
  | pick (i : SupervisorId)
  /-- The supervisor's call of `Catchup` reads the row of its job. -/
  | readJob (i : SupervisorId)
  /-- The call of `Catchup` fails before it has the row. -/
  | readFails (i : SupervisorId)
  /-- The supervisor writes `error` for a job whose cycle threw. -/
  | reportError (i : SupervisorId)
  /-- That update fails, or a stop is noticed before it. -/
  | dropError (i : SupervisorId)
  | endPass (i : SupervisorId)
  | exit (i : SupervisorId)
  | enterCycle (caller : Caller)
  /-- The cycle returns because of the abort flag. -/
  | abortCycle (caller : Caller)
  | finishCycle (caller : Caller) (outcome : Outcome)
  | updateStatus (caller : Caller)
  | updateFails (caller : Caller)

/-- The steps of a supervisor. -/
def stepSupervisor (s : ReplicationState) (i : SupervisorId) (t : Thread) :
    Action → Option ReplicationState
  | .beginPass _ =>
      match t.phase with
      | .asleep =>
          if t.aborting then none
          else some (s.setPhase i t (.looping (s.jobs.map fun j => (j, s.status j))))
      | _ => none
  | .passOver _ =>
      match t.phase with
      | .looping (_ :: todo) => some (s.setPhase i t (.looping todo))
      | _ => none
  | .pick _ =>
      match t.phase with
      | .looping ((j, status) :: todo) =>
          if t.aborting || !status.isRunnable then none else some (s.setPhase i t (.picked j todo))
      | _ => none
  | .readJob _ =>
      match t.phase with
      | .picked j todo =>
          if s.rejectsJob j then some (s.supervisorCaught i t j todo)
          else some ((s.setPhase i t (.inCatchup todo)).setCycle (.supervisor i)
            (some ⟨j, s.status j, .read⟩))
      | _ => none
  | .readFails _ =>
      match t.phase with
      | .picked j todo => some (s.supervisorCaught i t j todo)
      | _ => none
  | .reportError _ =>
      match t.phase with
      | .failed j todo => some ((s.updateJobStatus j .error).setPhase i t (.looping todo))
      | _ => none
  | .dropError _ =>
      match t.phase with
      | .failed _ todo => some (s.setPhase i t (.looping todo))
      | _ => none
  | .endPass _ =>
      match t.phase with
      | .looping todo => if t.aborting || todo.isEmpty then some (s.setPhase i t .asleep) else none
      | _ => none
  | .exit _ =>
      match t.phase with
      | .asleep => some (s.setPhase i t .exited)
      | _ => none
  | _ => none

/-- The steps of a cycle. -/
def stepCycle (s : ReplicationState) (caller : Caller) (c : Cycle) :
    Action → Option ReplicationState
  | .enterCycle _ =>
      match c.phase with
      | .read =>
          if s.inFlight.contains c.job then some (s.leaveCycle caller c false true)
          else some { s.setCycle caller (some { c with phase := .running }) with
            inFlight := c.job :: s.inFlight }
      | _ => none
  | .abortCycle _ =>
      match c.phase with
      | .running => if s.isAborting caller then some (s.leaveCycle caller c true false) else none
      | _ => none
  | .finishCycle _ outcome =>
      match c.phase with
      | .running =>
          if s.isAborting caller then none
          else some (s.setCycle caller (some { c with
            phase := .reporting (s.reportedStatus c outcome) (outcome = .exception) }))
      | _ => none
  | .updateStatus _ =>
      match c.phase with
      | .reporting status throws =>
          some ((s.updateJobStatus c.job status).leaveCycle caller c true throws)
      | _ => none
  | .updateFails _ =>
      match c.phase with
      -- the failure is caught and reported in turn, unless the cycle is being aborted
      | .reporting _ false =>
          if s.isAborting caller then some (s.leaveCycle caller c true false)
          else some (s.setCycle caller (some { c with phase := .reporting .error true }))
      | .reporting _ true => some (s.leaveCycle caller c true true)
      | _ => none
  | _ => none

def step (s : ReplicationState) (a : Action) : Option ReplicationState :=
  match a with
  | .start selected =>
      some ((s.update (s.startSelects selected) .running).release (s.startSelects selected))
  | .pause j => some ((s.update (s.selectsJob j) .paused).deactivate (s.selectsJob j))
  | .resume j => some ((s.update (s.selectsJob j) .running).release (s.selectsJob j))
  | .resumeAll => some ((s.update s.resumeAllSelects .running).release s.resumeAllSelects)
  | .ensureSupervisor fresh => s.ensureSupervisor fresh
  | .stopSupervisorEntry call =>
      if (s.stopping call).isSome then none else some (s.stopSupervisorEntry call)
  | .stopUpdate call => s.stopUpdate call
  | .manualCatchup call j =>
      if (s.cycles (.manual call)).isSome || s.rejectsJob j then none
      else some (s.setCycle (.manual call) (some ⟨j, s.status j, .read⟩))
  | .beginPass i | .passOver i | .pick i | .readJob i | .readFails i | .reportError i
  | .dropError i | .endPass i | .exit i => (s.threads i).bind fun t => s.stepSupervisor i t a
  | .enterCycle caller | .abortCycle caller | .finishCycle caller _ | .updateStatus caller
  | .updateFails caller => (s.cycles caller).bind fun c => s.stepCycle caller c a

end ReplicationState

end DuckLake
