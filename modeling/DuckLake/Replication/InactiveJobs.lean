import DuckLake.Replication.JobStatus

/-!
# Jobs that are paused or stopped

A paused job stays paused whatever a cycle reports, and `Catchup` rejects it. A stopped job has no
such protection: the report of a cycle overwrites its status, and a supervisor that has listed it
before still runs it. `inactive_settled` says which steps of a run keep it stopped.
-/

namespace DuckLake

namespace ReplicationState

/-! ## The property -/

/-- No supervisor starts a cycle of a job that was paused or stopped, nor will it: the job is not
runnable. -/
def KeepsInactive (s : ReplicationState) : Prop :=
  ∀ j, s.inactive j = true →
    (s.status j).isRunnable = false ∧ ∀ i, s.supervisorStarts i ≠ some j

/-- Some supervisor may still call `Catchup` on the job in the pass it is in. -/
def Pending (s : ReplicationState) (j : JobId) : Prop :=
  ∃ i t, s.threads i = some t ∧ j ∈ t.phase.pending

/-- The condition on the steps of a run. `Stop` stops no job that a supervisor still has on its
list, and a status that is reported for a job that was stopped meanwhile is that of a success
without a supervisor. -/
def Orderly (s : ReplicationState) : Action → Prop
  | .stopUpdate _ => ∀ j, s.stopSelects j = true → ¬ s.Pending j
  | .updateStatus caller => ∀ c status throws, s.cycles caller = some c →
      c.phase = .reporting status throws → s.inactive c.job = true →
        s.status c.job = .paused ∨ status = .created
  | .reportError i => ∀ t j todo, s.threads i = some t → t.phase = .failed j todo →
      s.inactive j = true → s.status j = .paused
  | _ => True

/-- What the steps of an orderly run preserve. -/
def Settled (s : ReplicationState) : Prop :=
  ∀ j, s.inactive j = true →
    s.status j = .paused ∨ (s.status j).isRunnable = false ∧ ¬ s.Pending j

theorem Settled.keepsInactive {s : ReplicationState} (h : s.Settled) : s.KeepsInactive := by
  intro j hj
  constructor
  · rcases h j hj with hpaused | ⟨hstatus, -⟩
    · rw [hpaused]; rfl
    · exact hstatus
  · intro i hstart
    unfold supervisorStarts at hstart
    split at hstart
    next aborting j' todo ht =>
      split at hstart
      next => cases hstart
      next hrejects =>
        obtain rfl := Option.some.inj hstart
        rcases h j' hj with hpaused | ⟨-, hpending⟩
        · simp [rejectsJob, hpaused] at hrejects
        · exact hpending ⟨i, _, ht, List.mem_cons_self⟩
    next => cases hstart

/-! ## What a step leaves as it is -/

/-- A step that writes no status and puts only runnable jobs on a list. -/
structure Calm (s s' : ReplicationState) : Prop where
  status : s'.status = s.status
  inactive : s'.inactive = s.inactive
  pending : ∀ j, s'.Pending j → s.Pending j ∨ (s.status j).isRunnable = true

theorem Settled.of_calm {s s' : ReplicationState} (h : s.Settled) (hcalm : Calm s s') :
    s'.Settled := by
  intro j hj
  rw [hcalm.inactive] at hj
  rw [hcalm.status]
  rcases h j hj with hpaused | ⟨hstatus, hpending⟩
  · exact .inl hpaused
  · refine .inr ⟨hstatus, fun hpending' => ?_⟩
    rcases hcalm.pending j hpending' with hold | hrun
    · exact hpending hold
    · rw [hstatus] at hrun
      cases hrun

variable {s : ReplicationState}

theorem calm_setCycle {caller : Caller} {c : Option Cycle} : Calm s (s.setCycle caller c) :=
  ⟨rfl, rfl, fun _ h => .inl h⟩

theorem pending_setPhase {i : SupervisorId} {t : Thread} {phase : ThreadPhase} {j : JobId}
    (h : (s.setPhase i t phase).Pending j) : s.Pending j ∨ j ∈ phase.pending := by
  obtain ⟨i', t', ht', hj⟩ := h
  by_cases hi : i' = i
  · subst hi
    obtain rfl : { t with phase := phase } = t' := by
      simpa [setPhase, setThread] using ht'
    exact .inr hj
  · have ht' : s.threads i' = some t' := by simpa [setPhase, setThread, hi] using ht'
    exact .inl ⟨i', t', ht', hj⟩

theorem calm_setPhase {i : SupervisorId} {t : Thread} {phase : ThreadPhase}
    (ht : s.threads i = some t)
    (h : ∀ j ∈ phase.pending, j ∈ t.phase.pending ∨ (s.status j).isRunnable = true) :
    Calm s (s.setPhase i t phase) := by
  refine ⟨rfl, rfl, fun j hj => ?_⟩
  rcases pending_setPhase hj with hold | hnew
  · exact .inl hold
  · exact (h j hnew).imp_left fun hj => ⟨i, t, ht, hj⟩

theorem calm_supervisorCaught {i : SupervisorId} {t : Thread} {j : JobId} {todo : List ListedJob}
    (ht : s.threads i = some t) (h : ∀ j ∈ runnableJobs todo, j ∈ t.phase.pending) :
    Calm s (s.supervisorCaught i t j todo) := by
  refine calm_setPhase ht fun j hj => .inl (h j ?_)
  split at hj <;> exact hj

theorem Calm.rfl : Calm s s := ⟨Eq.refl _, Eq.refl _, fun _ h => .inl h⟩

theorem Calm.trans {s₁ s₂ s₃ : ReplicationState} (h₁ : Calm s₁ s₂) (h₂ : Calm s₂ s₃) :
    Calm s₁ s₃ := by
  refine ⟨h₂.status.trans h₁.status, h₂.inactive.trans h₁.inactive, fun j hj => ?_⟩
  rcases h₂.pending j hj with hold | hrun
  · exact h₁.pending j hold
  · exact .inr (h₁.status ▸ hrun)

theorem calm_closeCycle {caller : Caller} {c : Cycle} {guarded : Bool} :
    Calm s (s.closeCycle caller c guarded) :=
  ⟨rfl, rfl, fun _ h => .inl h⟩

theorem calm_leaveCycle {caller : Caller} {c : Cycle} {guarded throws : Bool} :
    Calm s (s.leaveCycle caller c guarded throws) := by
  have hclose : Calm s (s.closeCycle caller c guarded) := calm_closeCycle
  refine hclose.trans ?_
  unfold leaveCycle
  dsimp only
  split
  next => exact .rfl
  next i =>
    split
    next aborting todo ht =>
      split
      · exact calm_supervisorCaught ht fun j hj => hj
      · exact calm_setPhase ht fun j hj => .inl hj
    next => exact .rfl

/-! ## Status updates -/

theorem Settled.updateJobStatus {j : JobId} {status : JobStatus} (h : s.Settled)
    (hstatus : s.inactive j = true → s.status j = .paused ∨ status.isRunnable = false) :
    (s.updateJobStatus j status).Settled := by
  intro j' hj'
  have hold := h j' hj'
  have hvalue : (s.updateJobStatus j status).status j' =
      if s.selectsJob j j' && s.status j' ≠ .paused then status else s.status j' := rfl
  rw [hvalue]
  by_cases hsel : (s.selectsJob j j' && s.status j' ≠ .paused) = true
  · obtain ⟨⟨-, rfl⟩, hpaused⟩ : (j' ∈ s.jobs ∧ j' = j) ∧ s.status j' ≠ .paused := by
      simpa [selectsJob] using hsel
    obtain ⟨-, hpending⟩ := hold.resolve_left hpaused
    rw [if_pos hsel]
    exact .inr ⟨(hstatus hj').resolve_left hpaused, hpending⟩
  · rw [if_neg hsel]
    exact hold

/-- Whoever selects a job makes it active again. -/
theorem Settled.activate {selected : JobId → Bool} (h : s.Settled) :
    ((s.update selected .running).release selected).Settled := by
  intro j hj
  obtain ⟨hold, hsel⟩ : s.inactive j = true ∧ selected j = false := by
    simpa [release, update] using hj
  have hstatus : ((s.update selected .running).release selected).status j = s.status j := by
    simp [release, update, hsel]
  rw [hstatus]
  exact h j hold

theorem Settled.pause {selected : JobId → Bool} (h : s.Settled) :
    ((s.update selected .paused).deactivate selected).Settled := by
  intro j hj
  cases hsel : selected j with
  | true => exact .inl (by simp [deactivate, update, hsel])
  | false =>
    have hold : s.inactive j = true := by simpa [deactivate, update, hsel] using hj
    have hstatus : ((s.update selected .paused).deactivate selected).status j = s.status j := by
      simp [deactivate, update, hsel]
    rw [hstatus]
    exact h j hold

theorem Settled.stop (h : s.Settled) (horderly : ∀ j, s.stopSelects j = true → ¬ s.Pending j) :
    ((s.update s.stopSelects .stopped).deactivate s.stopSelects).Settled := by
  intro j hj
  cases hsel : s.stopSelects j with
  | true =>
    have hstatus : ((s.update s.stopSelects .stopped).deactivate s.stopSelects).status j =
        .stopped := by
      simp [deactivate, update, hsel]
    rw [hstatus]
    exact .inr ⟨rfl, horderly j hsel⟩
  | false =>
    have hold : s.inactive j = true := by simpa [deactivate, update, hsel] using hj
    have hstatus : ((s.update s.stopSelects .stopped).deactivate s.stopSelects).status j =
        s.status j := by
      simp [deactivate, update, hsel]
    rw [hstatus]
    exact h j hold

/-! ## Steps -/

theorem runnableJobs_cons_subset {x : ListedJob} {todo : List ListedJob} :
    runnableJobs todo ⊆ runnableJobs (x :: todo) := by
  intro j hj
  obtain ⟨y, hy, rfl⟩ := List.mem_map.1 hj
  obtain ⟨hmem, hrun⟩ := List.mem_filter.1 hy
  exact List.mem_map.2 ⟨y, List.mem_filter.2 ⟨List.mem_cons_of_mem _ hmem, hrun⟩, rfl⟩

theorem isRunnable_of_mem_runnableJobs {jobs : List JobId} {status : JobId → JobStatus} {j : JobId}
    (h : j ∈ runnableJobs (jobs.map fun j => (j, status j))) : (status j).isRunnable = true := by
  obtain ⟨y, hy, rfl⟩ := List.mem_map.1 h
  obtain ⟨hmem, hrun⟩ := List.mem_filter.1 hy
  obtain ⟨j, -, rfl⟩ := List.mem_map.1 hmem
  exact hrun

/-- Every step of a supervisor is calm, but for the report of an error. -/
theorem calm_stepSupervisor {i : SupervisorId} {t : Thread} {a : Action} {s' : ReplicationState}
    (ht : s.threads i = some t) (h : s.stepSupervisor i t a = some s') :
    Calm s s' ∨ ∃ i' j todo, a = .reportError i' ∧ t.phase = .failed j todo ∧
      Calm (s.updateJobStatus j .error) s' := by
  cases a with
  | beginPass =>
    simp only [stepSupervisor] at h
    split at h
    next hphase =>
      split at h
      next => cases h
      next =>
        obtain rfl := Option.some.inj h
        exact .inl (calm_setPhase ht fun j hj => .inr (isRunnable_of_mem_runnableJobs hj))
    next => cases h
  | passOver =>
    simp only [stepSupervisor] at h
    split at h
    next x todo hphase =>
      obtain rfl := Option.some.inj h
      exact .inl (calm_setPhase ht fun j hj => .inl (by
        rw [hphase]; exact runnableJobs_cons_subset hj))
    next => cases h
  | pick =>
    simp only [stepSupervisor] at h
    split at h
    next j status todo hphase =>
      split at h
      next => cases h
      next hrun =>
        obtain rfl := Option.some.inj h
        have hrunnable : status.isRunnable = true := by simp_all
        refine .inl (calm_setPhase ht fun j' hj' => .inl ?_)
        rw [hphase]
        simpa [ThreadPhase.pending, runnableJobs, hrunnable] using hj'
    next => cases h
  | readJob =>
    simp only [stepSupervisor] at h
    split at h
    next j todo hphase =>
      have hsub : ∀ j' ∈ runnableJobs todo, j' ∈ t.phase.pending := fun j' hj' => by
        rw [hphase]; exact List.mem_cons_of_mem _ hj'
      split at h
      next =>
        obtain rfl := Option.some.inj h
        exact .inl (calm_supervisorCaught ht hsub)
      next =>
        obtain rfl := Option.some.inj h
        have hphase' : Calm s (s.setPhase i t (.inCatchup todo)) :=
          calm_setPhase ht fun j' hj' => .inl (hsub j' hj')
        exact .inl (hphase'.trans calm_setCycle)
    next => cases h
  | readFails =>
    simp only [stepSupervisor] at h
    split at h
    next j todo hphase =>
      obtain rfl := Option.some.inj h
      exact .inl (calm_supervisorCaught ht fun j' hj' => by
        rw [hphase]; exact List.mem_cons_of_mem _ hj')
    next => cases h
  | reportError i' =>
    simp only [stepSupervisor] at h
    split at h
    next j todo hphase =>
      obtain rfl := Option.some.inj h
      have ht' : (s.updateJobStatus j .error).threads i = some t := ht
      exact .inr ⟨i', j, todo, rfl, hphase,
        calm_setPhase ht' fun j' hj' => .inl (by rw [hphase]; exact hj')⟩
    next => cases h
  | dropError =>
    simp only [stepSupervisor] at h
    split at h
    next j todo hphase =>
      obtain rfl := Option.some.inj h
      exact .inl (calm_setPhase ht fun j' hj' => .inl (by rw [hphase]; exact hj'))
    next => cases h
  | endPass =>
    simp only [stepSupervisor] at h
    split at h
    next todo hphase =>
      split at h
      next =>
        obtain rfl := Option.some.inj h
        exact .inl (calm_setPhase ht fun j' hj' => absurd hj' List.not_mem_nil)
      next => cases h
    next => cases h
  | exit =>
    simp only [stepSupervisor] at h
    split at h
    next =>
      obtain rfl := Option.some.inj h
      exact .inl (calm_setPhase ht fun j' hj' => absurd hj' List.not_mem_nil)
    next => cases h
  | _ => cases h

/-- Every step of a cycle is calm, but for its report. -/
theorem calm_stepCycle {caller : Caller} {c : Cycle} {a : Action} {s' : ReplicationState}
    (h : s.stepCycle caller c a = some s') :
    Calm s s' ∨ ∃ caller' status throws, a = .updateStatus caller' ∧
      c.phase = .reporting status throws ∧ Calm (s.updateJobStatus c.job status) s' := by
  cases a with
  | enterCycle =>
    simp only [stepCycle] at h
    split at h
    next =>
      split at h <;> obtain rfl := Option.some.inj h
      · exact .inl calm_leaveCycle
      · exact .inl ⟨rfl, rfl, fun _ h => .inl h⟩
    next => cases h
  | abortCycle =>
    simp only [stepCycle] at h
    split at h
    next =>
      split at h
      next =>
        obtain rfl := Option.some.inj h
        exact .inl calm_leaveCycle
      next => cases h
    next => cases h
  | finishCycle =>
    simp only [stepCycle] at h
    split at h
    next =>
      split at h
      next => cases h
      next =>
        obtain rfl := Option.some.inj h
        exact .inl calm_setCycle
    next => cases h
  | updateStatus caller' =>
    simp only [stepCycle] at h
    split at h
    next status throws hphase =>
      obtain rfl := Option.some.inj h
      exact .inr ⟨caller', status, throws, rfl, hphase, calm_leaveCycle⟩
    next => cases h
  | updateFails =>
    simp only [stepCycle] at h
    split at h
    next =>
      split at h <;> obtain rfl := Option.some.inj h
      · exact .inl calm_leaveCycle
      · exact .inl calm_setCycle
    next =>
      obtain rfl := Option.some.inj h
      exact .inl calm_leaveCycle
    next => cases h
  | _ => cases h

theorem calm_ensureSupervisor {fresh : SupervisorId} {s' : ReplicationState}
    (h : s.ensureSupervisor fresh = some s') : Calm s s' := by
  unfold ensureSupervisor at h
  split at h
  next =>
    obtain rfl := Option.some.inj h
    exact .rfl
  next =>
    split at h
    next => cases h
    next =>
      obtain rfl := Option.some.inj h
      refine ⟨rfl, rfl, fun j hj => .inl ?_⟩
      exact (pending_setPhase (t := ⟨false, .asleep⟩) hj).resolve_right List.not_mem_nil

theorem calm_stopSupervisorEntry {call : CallId} : Calm s (s.stopSupervisorEntry call) := by
  unfold stopSupervisorEntry
  dsimp only
  split
  next i hi =>
    split
    next t ht =>
      refine ⟨rfl, rfl, fun j hj => .inl ?_⟩
      rcases pending_setPhase (t := ⟨true, t.phase⟩) hj with hold | hnew
      · exact hold
      · exact ⟨i, t, ht, hnew⟩
    next => exact ⟨rfl, rfl, fun _ h => .inl h⟩
  next => exact ⟨rfl, rfl, fun _ h => .inl h⟩

theorem Settled.stepSupervisor {i : SupervisorId} {a : Action} {s' : ReplicationState}
    (hs : s.Settled)
    (hreport : ∀ t j todo, s.threads i = some t → t.phase = .failed j todo →
      (∃ i', a = .reportError i') → s.inactive j = true → s.status j = .paused)
    (h : ((s.threads i).bind fun t => s.stepSupervisor i t a) = some s') : s'.Settled := by
  obtain ⟨t, ht, h⟩ := Option.bind_eq_some_iff.1 h
  rcases calm_stepSupervisor ht h with hcalm | ⟨i', j, todo, ha, hphase, hcalm⟩
  · exact hs.of_calm hcalm
  · refine (hs.updateJobStatus fun hj => .inl ?_).of_calm hcalm
    exact hreport t j todo ht hphase ⟨i', ha⟩ hj

theorem Settled.stepCycle {caller : Caller} {a : Action} {s' : ReplicationState}
    (hs : s.Settled)
    (hreport : ∀ c status throws, s.cycles caller = some c → c.phase = .reporting status throws →
      (∃ caller', a = .updateStatus caller') → s.inactive c.job = true →
        s.status c.job = .paused ∨ status = .created)
    (h : ((s.cycles caller).bind fun c => s.stepCycle caller c a) = some s') : s'.Settled := by
  obtain ⟨c, hc, h⟩ := Option.bind_eq_some_iff.1 h
  rcases calm_stepCycle h with hcalm | ⟨caller', status, throws, ha, hphase, hcalm⟩
  · exact hs.of_calm hcalm
  · refine (hs.updateJobStatus fun hj => ?_).of_calm hcalm
    exact (hreport c status throws hc hphase ⟨caller', ha⟩ hj).imp_right fun h => by rw [h]; rfl

/-- What an orderly step preserves. -/
theorem Settled.step {a : Action} {s' : ReplicationState} (hs : s.Settled) (horderly : s.Orderly a)
    (h : s.step a = some s') : s'.Settled := by
  cases a with
  | start selected =>
    obtain rfl := Option.some.inj h
    exact hs.activate
  | pause j =>
    obtain rfl := Option.some.inj h
    exact hs.pause
  | resume j =>
    obtain rfl := Option.some.inj h
    exact hs.activate
  | resumeAll =>
    obtain rfl := Option.some.inj h
    exact hs.activate
  | ensureSupervisor fresh => exact hs.of_calm (calm_ensureSupervisor h)
  | stopSupervisorEntry call =>
    simp only [ReplicationState.step] at h
    split at h
    next => cases h
    next =>
      obtain rfl := Option.some.inj h
      exact hs.of_calm calm_stopSupervisorEntry
  | stopUpdate call =>
    simp only [ReplicationState.step, stopUpdate] at h
    split at h
    next =>
      split at h
      next =>
        obtain rfl := Option.some.inj h
        exact (hs.stop horderly).of_calm ⟨rfl, rfl, fun _ h => .inl h⟩
      next => cases h
    next => cases h
  | manualCatchup call j =>
    simp only [ReplicationState.step] at h
    split at h
    next => cases h
    next =>
      obtain rfl := Option.some.inj h
      exact hs.of_calm calm_setCycle
  | reportError i =>
    exact hs.stepSupervisor (fun t j todo ht hphase _ => horderly t j todo ht hphase) h
  | updateStatus caller =>
    exact hs.stepCycle (fun c status throws hc hphase _ => horderly c status throws hc hphase) h
  | beginPass | passOver | pick | readJob | readFails | dropError | endPass | exit =>
    exact hs.stepSupervisor (fun _ _ _ _ _ ⟨_, ha⟩ => nomatch ha) h
  | enterCycle | abortCycle | finishCycle | updateFails =>
    exact hs.stepCycle (fun _ _ _ _ _ ⟨_, ha⟩ => nomatch ha) h

/-- In a run of orderly steps, paused and stopped jobs are not runnable and no supervisor starts a
cycle of one. -/
theorem keepsInactive_of_orderly {s₀ s : ReplicationState} (hinit : s₀.Initial)
    (h : Reaches step Orderly s₀ s) : s.KeepsInactive := by
  have hsettled : s₀.Settled := fun j hj => by
    rw [hinit.inactive] at hj
    cases hj
  exact (h.invariant hsettled fun _ _ _ hs horderly hstep => hs.step horderly hstep).keepsInactive

/-! ## Runs -/

/-- Two jobs, of which the first is running, before any call. -/
def twoJobs : ReplicationState where
  jobs := [1, 2]
  status j := if j = 1 then .running else .created
  registry := none
  threads _ := none
  cycles _ := none
  inFlight := []
  stopping _ := none
  inactive _ := false

theorem initial_twoJobs : twoJobs.Initial :=
  ⟨rfl, fun _ => rfl, fun _ => rfl, rfl, fun _ => rfl, fun _ => rfl⟩

/-- A job that is paused while the supervisor runs a cycle of it stays paused. -/
theorem keepsInactive_pausedInFlight :
    ∃ s, Reaches step Orderly twoJobs s ∧ s.inactive 1 = true ∧ s.KeepsInactive := by
  have hrun : Reaches step Orderly twoJobs _ :=
    (Relation.ReflTransGen.refl
      |>.tail ⟨.ensureSupervisor 0, trivial, rfl⟩
      |>.tail ⟨.beginPass 0, trivial, rfl⟩
      |>.tail ⟨.pick 0, trivial, rfl⟩
      |>.tail ⟨.readJob 0, trivial, rfl⟩
      |>.tail ⟨.enterCycle (.supervisor 0), trivial, rfl⟩
      |>.tail ⟨.pause 1, trivial, rfl⟩
      |>.tail ⟨.finishCycle (.supervisor 0) .success, trivial, rfl⟩
      |>.tail ⟨.updateStatus (.supervisor 0), fun c _ _ hc _ _ => by
        obtain rfl := Option.some.inj hc
        exact .inl rfl, rfl⟩)
  exact ⟨_, hrun, rfl, keepsInactive_of_orderly initial_twoJobs hrun⟩

/-- A manual cycle of the first job is in flight when `Stop` is called, and fails afterwards; then
the second job is started. -/
def failureAfterStop : List Action :=
  [.manualCatchup 0 1, .enterCycle (.manual 0), .stopSupervisorEntry 0, .stopUpdate 0,
    .finishCycle (.manual 0) .exception, .updateStatus (.manual 0),
    .start (some 2), .ensureSupervisor 0, .beginPass 0, .pick 0]

/-- The stopped job is run by the supervisor that was started for the other one. -/
theorem not_keepsInactive_failureAfterStop :
    ¬ ∀ s₀ s : ReplicationState, s₀.Initial → Reaches step (fun _ _ => True) s₀ s →
      s.KeepsInactive := by
  intro h
  have hvalue : (failureAfterStop.foldlM step twoJobs).map
      (fun s => (s.inactive 1, s.supervisorStarts 0)) = some (true, some 1) := by decide
  obtain ⟨s, hrun, hs⟩ := Option.map_eq_some_iff.1 hvalue
  obtain ⟨hinactive, hstarts⟩ := Prod.mk.inj hs
  exact (h twoJobs s initial_twoJobs (.of_foldlM hrun) 1 hinactive).2 0 hstarts

end ReplicationState

end DuckLake
