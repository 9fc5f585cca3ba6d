import Mathlib.Algebra.BigOperators.Group.Finset.Piecewise
import RkWhisper.Proof.BeamTotal
import RkWhisper.Proof.SchedulerRun
import RkWhisper.WorkerPool

/-!
# Ready tokens

A worker announces itself once for every job it is sent. The loop takes an announcement only when it
has work, and then it sends exactly one job, to the worker that has announced itself. So a worker
that is in its loop has either one announcement under way or one job, and the queue of a worker that
has announced itself is empty. What takes a worker out of its loop is a panic of its job.
-/

namespace RkWhisper

open Transition

namespace Scheduler

variable {maxInFlight : Nat} {s : Scheduler}

/-- **The guard and the selection agree.** With work to dispatch, exactly one job is sent, wherever
the cursor stands. -/
theorem exists_dispatched (hwork : hasDispatchableLiveWork maxInFlight s.activeJobs = true) :
    ∃ job, (s.dispatchReadyLiveWindow maxInFlight true).atWorkers = s.atWorkers ++ [job] := by
  rw [dispatchReadyLiveWindow]
  split
  · rename_i idx cursor hscan
    obtain ⟨job, hidx, hready⟩ := scanJobs_some hscan
    obtain ⟨vad, hvad, -⟩ := ActiveLiveJob.hasVadReady_iff.mp hready
    rw [hidx]
    refine ⟨.vad (job.vadJobAt vad), ?_⟩
    change s.atWorkers ++ (job.sendVadJob true).1.toList.map NpuJob.vad = _
    rw [ActiveLiveJob.sendVadJob_of_ready hvad hready]
    rfl
  · rename_i cursor hnoVad
    split
    · rename_i idx cursor' hscan
      obtain ⟨job, hidx, hmay⟩ := scanJobs_some hscan
      obtain ⟨-, -, plan, hplan⟩ := ActiveLiveJob.mayDispatch_iff.mp hmay
      rw [hidx]
      refine ⟨.whisper (job.whisperJob plan), ?_⟩
      change s.atWorkers ++ (job.dispatchToWorker true).1.toList.map NpuJob.whisper = _
      rw [ActiveLiveJob.dispatchToWorker_eq hplan]
      rfl
    · rename_i cursor' hnoWindow
      -- No job suits either scan, which the guard excludes.
      obtain ⟨job, hjob, hsuits⟩ := List.any_eq_true.mp hwork
      rw [scanJobs_none hnoVad job hjob, scanJobs_none hnoWindow job hjob] at hsuits
      cases hsuits

end Scheduler

/-! ### The pool -/

theorem WorkerPhase.eq_waiting {phase : WorkerPhase} (hinitialised : phase.initialised = true)
    (hidle : phase.executing = false) : phase = .waiting := by
  cases phase with
  | waiting => rfl
  | running | answering | announcing => cases hidle
  | loading | refusing | stopped | starting | panicked => cases hinitialised

/-- The thread has something to do before it waits for a job. -/
def WorkerPhase.busy : WorkerPhase → Bool
  | .stopped | .waiting | .panicked _ => false
  | .loading | .refusing _ | .starting | .running _ | .answering _ | .announcing => true

/-- What keeps the worker from asking for a job. -/
def NpuWorker.claims (worker : NpuWorker) : Nat :=
  worker.jobRx.isSome.toNat + worker.phase.busy.toNat

/-- The jobs that a worker is still to answer. -/
def NpuWorker.held (worker : NpuWorker) : Multiset NpuJob :=
  (worker.jobRx.toList : Multiset NpuJob) +
    match worker.phase with
    | .running job => {job}
    | .answering outcome => {outcome.job}
    | _ => 0

/-- The job that a worker has died of. -/
def NpuWorker.lost (worker : NpuWorker) : Multiset NpuJob :=
  match worker.phase with
  | .panicked job => {job}
  | _ => 0

namespace WorkerPool

variable {pool pool' : WorkerPool} {workerId other : Fin npuWorkers} {event : WorkerEvent}
  {worker : NpuWorker}

@[simp]
theorem put_self (pool : WorkerPool) (workerId : Fin npuWorkers) (worker : NpuWorker) :
    (pool.put workerId worker).workers workerId = worker :=
  Function.update_self ..

theorem put_of_ne (pool : WorkerPool) (worker : NpuWorker) (hne : other ≠ workerId) :
    (pool.put workerId worker).workers other = pool.workers other :=
  Function.update_of_ne hne ..

/-- The worker has as much to do as before, and has said nothing. -/
structure Quiet (worker worker' : NpuWorker) : Prop where
  jobs : worker'.jobs = worker.jobs
  held : worker'.held = worker.held
  lost : worker'.lost = worker.lost
  initialised : worker'.phase.initialised = worker.phase.initialised

theorem quiet_answering {job : NpuJob} {outcome : WorkerOutcome} (hphase : worker.phase = .running job)
    (hjob : outcome.job = job) : Quiet worker { worker with phase := .answering outcome } where
  jobs := by simp [NpuWorker.jobs, hphase, WorkerPhase.executing]
  held := by simp [NpuWorker.held, hphase, hjob]
  lost := by simp [NpuWorker.lost, hphase]
  initialised := by rw [hphase]; rfl

/-- What a step can do: only an announcement, a failed start and an answer are seen outside, and only a
panic takes a job away. -/
theorem step_cases (h : pool.step workerId event = some pool') :
    (event ≠ .refuse ∧ event ≠ .answer ∧ event ≠ .panic ∧
      ∃ worker, Quiet (pool.workers workerId) worker ∧ pool' = pool.put workerId worker) ∨
    (event = .announce ∧ ((pool.workers workerId).phase = .starting ∨
        (pool.workers workerId).phase = .announcing) ∧
      pool' = { pool.setPhase workerId .waiting with readyRx := pool.readyRx ++ [workerId] }) ∨
    (event = .refuse ∧ ∃ error, (pool.workers workerId).phase = .refusing error ∧
      pool' = { pool.setPhase workerId .stopped with
        resultRx := pool.resultRx ++ [.error (initFailure workerId error)] }) ∨
    (event = .answer ∧ ∃ outcome, (pool.workers workerId).phase = .answering outcome ∧
      pool' = { pool.setPhase workerId .announcing with
        resultRx := pool.resultRx ++ [outcome.result workerId] }) ∨
    (event = .panic ∧ ∃ job, (pool.workers workerId).phase = .running job ∧
      pool' = pool.setPhase workerId (.panicked job)) := by
  cases event with
  | load loaded =>
      refine .inl ⟨nofun, nofun, nofun, ?_⟩
      simp only [step] at h
      split at h
      · rename_i hphase
        cases h
        exact ⟨_, ⟨by simp [NpuWorker.jobs, hphase, WorkerPhase.executing],
          by simp [NpuWorker.held, hphase], by simp [NpuWorker.lost, hphase],
          by rw [hphase]; rfl⟩, rfl⟩
      · rename_i hphase
        cases h
        exact ⟨_, ⟨by simp [NpuWorker.jobs, hphase, WorkerPhase.executing],
          by simp [NpuWorker.held, hphase], by simp [NpuWorker.lost, hphase],
          by rw [hphase]; rfl⟩, rfl⟩
      · cases h
  | refuse =>
      refine .inr (.inr (.inl ⟨rfl, ?_⟩))
      simp only [step] at h
      split at h
      · rename_i error hphase
        obtain ⟨-, rfl⟩ := Option.ite_some_none_eq_some.mp h
        exact ⟨error, hphase, rfl⟩
      · cases h
  | announce =>
      refine .inr (.inl ⟨rfl, ?_⟩)
      simp only [step] at h
      split at h
      · rename_i hphase
        obtain ⟨-, rfl⟩ := Option.ite_some_none_eq_some.mp h
        exact ⟨.inl hphase, rfl⟩
      · rename_i hphase
        obtain ⟨-, rfl⟩ := Option.ite_some_none_eq_some.mp h
        exact ⟨.inr hphase, rfl⟩
      · cases h
  | take =>
      refine .inl ⟨nofun, nofun, nofun, ?_⟩
      simp only [step] at h
      split at h
      · rename_i job hphase hjob
        cases h
        exact ⟨_, ⟨by simp [NpuWorker.jobs, hphase, hjob, WorkerPhase.executing],
          by simp [NpuWorker.held, hphase, hjob], by simp [NpuWorker.lost, hphase],
          by rw [hphase]; rfl⟩, rfl⟩
      · cases h
  | transcribe text segments =>
      refine .inl ⟨nofun, nofun, nofun, ?_⟩
      simp only [step] at h
      split at h
      · rename_i job hphase
        cases h
        exact ⟨_, quiet_answering hphase rfl, rfl⟩
      · cases h
  | classify probability state =>
      refine .inl ⟨nofun, nofun, nofun, ?_⟩
      simp only [step] at h
      split at h
      · rename_i job hphase
        cases h
        exact ⟨_, quiet_answering hphase rfl, rfl⟩
      · cases h
  | fail error =>
      refine .inl ⟨nofun, nofun, nofun, ?_⟩
      simp only [step] at h
      split at h
      · rename_i job hphase
        cases h
        exact ⟨_, quiet_answering hphase rfl, rfl⟩
      · cases h
  | answer =>
      refine .inr (.inr (.inr (.inl ⟨rfl, ?_⟩)))
      simp only [step] at h
      split at h
      · rename_i outcome hphase
        obtain ⟨-, rfl⟩ := Option.ite_some_none_eq_some.mp h
        exact ⟨outcome, hphase, rfl⟩
      · cases h
  | panic =>
      refine .inr (.inr (.inr (.inr ⟨rfl, ?_⟩)))
      simp only [step] at h
      split at h
      · rename_i job hphase
        cases h
        exact ⟨job, hphase, rfl⟩
      · cases h

/-- A worker that has come into its loop is announced or busy, and only once; any other is
neither. -/
def Conserves (pool : WorkerPool) : Prop :=
  ∀ workerId, pool.tokens workerId + (pool.workers workerId).jobs =
    (pool.workers workerId).phase.initialised.toNat

/-- **What a change of one worker has to show.** -/
theorem Conserves.change (h : pool.Conserves) (worker : NpuWorker)
    (hworkers : pool'.workers = (pool.put workerId worker).workers)
    (hothers : ∀ other ≠ workerId, pool'.tokens other = pool.tokens other)
    (hself : pool'.tokens workerId + worker.jobs = worker.phase.initialised.toNat) :
    pool'.Conserves := by
  intro other
  by_cases hother : other = workerId
  · rw [hother, hworkers, put_self]
    exact hself
  · rw [hworkers, put_of_ne pool worker hother, hothers other hother]
    exact h other

theorem Conserves.step (h : pool.Conserves) (hstep : pool.step workerId event = some pool') :
    pool'.Conserves := by
  have hworker := h workerId
  rw [NpuWorker.jobs] at hworker
  obtain ⟨-, -, -, worker, hquiet, rfl⟩ | ⟨-, hphase, rfl⟩ | ⟨-, error, hphase, rfl⟩ |
    ⟨-, outcome, hphase, rfl⟩ | ⟨-, job, hphase, rfl⟩ := step_cases hstep
  · refine h.change worker rfl (fun _ _ => rfl) ?_
    rw [hquiet.jobs, hquiet.initialised]
    exact hworker
  · refine h.change { pool.workers workerId with phase := .waiting } rfl ?_ ?_
    · intro other hother
      change (pool.readyRx ++ [workerId]).count other = pool.readyRx.count other
      rw [List.count_append, List.count_singleton, beq_false_of_ne hother.symm]
      rfl
    · change (pool.readyRx ++ [workerId]).count workerId +
        ((pool.workers workerId).jobRx.isSome.toNat + 0) = 1
      rw [List.count_append, List.count_singleton_self]
      rw [tokens] at hworker
      obtain hphase | hphase := hphase <;> rw [hphase] at hworker <;>
        simp only [WorkerPhase.executing, WorkerPhase.initialised, Bool.toNat_true,
          Bool.toNat_false] at hworker <;> omega
  · refine h.change { pool.workers workerId with phase := .stopped } rfl (fun _ _ => rfl) ?_
    rw [hphase] at hworker
    exact hworker
  · refine h.change { pool.workers workerId with phase := .announcing } rfl (fun _ _ => rfl) ?_
    rw [hphase] at hworker
    exact hworker
  · refine h.change { pool.workers workerId with phase := .panicked job } rfl (fun _ _ => rfl) ?_
    rw [hphase] at hworker
    change pool.tokens workerId + ((pool.workers workerId).jobRx.isSome.toNat + 0) = 0
    simp only [WorkerPhase.executing, WorkerPhase.initialised, Bool.toNat_true] at hworker
    omega

/-- A step of a worker is none of another. -/
theorem workers_of_ne (hstep : pool.step workerId event = some pool') (hother : other ≠ workerId) :
    pool'.workers other = pool.workers other := by
  obtain ⟨-, -, -, worker, -, rfl⟩ | ⟨-, -, rfl⟩ | ⟨-, error, -, rfl⟩ | ⟨-, outcome, -, rfl⟩ |
    ⟨-, job, -, rfl⟩ := step_cases hstep <;> exact put_of_ne _ _ hother

/-- A worker in its loop stays there unless it panics. -/
theorem initialised_step (hstep : pool.step workerId event = some pool') (hevent : event ≠ .panic)
    (h : (pool.workers workerId).phase.initialised = true) :
    (pool'.workers workerId).phase.initialised = true := by
  obtain ⟨-, -, -, worker, hquiet, rfl⟩ | ⟨-, -, rfl⟩ | ⟨-, error, hphase, -⟩ |
    ⟨-, outcome, -, rfl⟩ | ⟨hpanic, -⟩ := step_cases hstep
  · rw [put_self, hquiet.initialised, h]
  · simp [setPhase, WorkerPhase.initialised]
  · rw [hphase] at h
    cases h
  · simp [setPhase, WorkerPhase.initialised]
  · exact absurd hpanic hevent

/-- A thread that has panicked does nothing more. -/
theorem step_of_panicked {job : NpuJob} (hphase : (pool.workers workerId).phase = .panicked job)
    (event : WorkerEvent) : pool.step workerId event = none := by
  cases event <;> simp [step, hphase]

/-- And it has neither an announcement nor a job. -/
theorem Conserves.of_panicked (h : pool.Conserves) {job : NpuJob}
    (hphase : (pool.workers workerId).phase = .panicked job) :
    pool.tokens workerId + (pool.workers workerId).jobs = 0 := by
  have hworker := h workerId
  rwa [hphase] at hworker

/-- The worker of the first announcement waits, and its queue is empty. -/
theorem Conserves.first (h : pool.Conserves) {readyRx : List (Fin npuWorkers)}
    (hready : pool.readyRx = workerId :: readyRx) :
    pool.workers workerId = { phase := .waiting, jobRx := none } ∧ workerId ∉ readyRx := by
  have hworker := h workerId
  rw [tokens, hready, List.count_cons_self, NpuWorker.jobs] at hworker
  have hle : (pool.workers workerId).phase.initialised.toNat ≤ 1 := Bool.toNat_le _
  have hrest : readyRx.count workerId = 0 := by omega
  have hslot : (pool.workers workerId).jobRx = none := by
    rw [← Option.not_isSome_iff_eq_none, ← Bool.toNat_eq_one]
    omega
  have hphase : (pool.workers workerId).phase = .waiting := by
    refine WorkerPhase.eq_waiting ?_ ?_
    · rw [← Bool.toNat_eq_one]
      omega
    · rw [← Bool.toNat_eq_zero]
      omega
  refine ⟨?_, List.count_eq_zero.mp hrest⟩
  rw [← hphase, ← hslot]

/-- A worker that has something to do has no announcement under way, and any other at most one; only a
worker that waits has a job in its queue. -/
structure Announced (pool : WorkerPool) : Prop where
  tokens : ∀ workerId, pool.tokens workerId + (pool.workers workerId).claims ≤ 1
  queue : ∀ workerId, (pool.workers workerId).jobRx.isSome = true →
    (pool.workers workerId).phase = .waiting

theorem Conserves.announced (h : pool.Conserves) : pool.Announced := by
  refine ⟨fun workerId => ?_, fun workerId hjob => ?_⟩
  · have hworker := h workerId
    rw [NpuWorker.jobs] at hworker
    rw [NpuWorker.claims]
    cases hphase : (pool.workers workerId).phase <;>
      simp only [hphase, WorkerPhase.executing, WorkerPhase.initialised, WorkerPhase.busy,
        Bool.toNat_true, Bool.toNat_false] at hworker ⊢ <;> omega
  · have hworker := h workerId
    rw [NpuWorker.jobs, hjob, Bool.toNat_true] at hworker
    have hle : (pool.workers workerId).phase.initialised.toNat ≤ 1 := Bool.toNat_le _
    apply WorkerPhase.eq_waiting
    · rw [← Bool.toNat_eq_one]
      omega
    · rw [← Bool.toNat_eq_zero]
      omega

/-- There is always room for one more announcement. -/
theorem Announced.announce (h : pool.Announced)
    (hphase : (pool.workers workerId).phase = .starting ∨
      (pool.workers workerId).phase = .announcing) :
    pool.step workerId .announce = some
      { pool.setPhase workerId .waiting with readyRx := pool.readyRx ++ [workerId] } := by
  have hbusy : (pool.workers workerId).phase.busy = true := by
    obtain hphase | hphase := hphase <;> rw [hphase] <;> rfl
  have hnodup : (workerId :: pool.readyRx).Nodup := by
    rw [List.nodup_iff_count_le_one]
    intro other
    have hother := h.tokens other
    rw [WorkerPool.tokens, NpuWorker.claims] at hother
    by_cases heq : other = workerId
    · subst heq
      rw [hbusy, Bool.toNat_true] at hother
      rw [List.count_cons_self]
      omega
    · rw [List.count_cons_of_ne (Ne.symm heq)]
      omega
  have hroom : pool.readyRx.length < npuWorkers := by
    have hcard := hnodup.length_le_card
    rw [Fintype.card_fin, List.length_cons] at hcard
    exact hcard
  obtain hphase | hphase := hphase <;> simp only [WorkerPool.step, hphase, if_pos hroom]

/-- The announcement of a worker has been answered with this job. -/
theorem Conserves.sent (h : pool.Conserves) {readyRx : List (Fin npuWorkers)}
    (hready : pool.readyRx = workerId :: readyRx) (job : NpuJob) :
    ({ pool with readyRx }.put workerId { phase := .waiting, jobRx := some job }).Conserves := by
  obtain ⟨hworker, hrest⟩ := h.first hready
  refine h.change { phase := .waiting, jobRx := some job } rfl ?_ ?_
  · intro other hother
    rw [tokens, tokens, hready, List.count_cons_of_ne hother.symm]
    rfl
  · change readyRx.count workerId + 1 = 1
    rw [List.count_eq_zero_of_not_mem hrest]

/-- The first announcement can be answered. -/
theorem Conserves.send_first (h : pool.Conserves) {readyRx : List (Fin npuWorkers)}
    (hready : pool.readyRx = workerId :: readyRx) (job : NpuJob) :
    { pool with readyRx }.send workerId job =
      some ({ pool with readyRx }.put workerId { phase := .waiting, jobRx := some job }) := by
  simp [send, (h.first hready).1]

end WorkerPool

namespace ModelScheduler

open Scheduler (hasDispatchableLiveWork)

variable {config : ConcurrencyConfig} {s s' : ModelScheduler} {workerId : Fin npuWorkers}
  {readyRx : List (Fin npuWorkers)}

/-- The announcement of a worker has been answered with this job. -/
def sentTo (s : ModelScheduler) (workerId : Fin npuWorkers) (readyRx : List (Fin npuWorkers))
    (job : NpuJob) : WorkerPool :=
  { s.pool with readyRx }.put workerId { phase := .waiting, jobRx := some job }

theorem ready_sends (h : s.pool.Conserves) (hphase : s.scheduler.phase = .select)
    (hwork : hasDispatchableLiveWork config.maxInFlight s.scheduler.activeJobs = true)
    (hready : s.pool.readyRx = workerId :: readyRx) :
    ∃ job scheduler, s.scheduler.step config (.ready true) = some scheduler ∧
      scheduler.atWorkers = s.scheduler.atWorkers ++ [job] ∧
      s.step config .ready = some { s with scheduler, pool := s.sentTo workerId readyRx job } := by
  obtain ⟨hworker, -⟩ := h.first hready
  obtain ⟨job, hjob⟩ := Scheduler.exists_dispatched hwork
  have hstep : s.scheduler.step config (.ready true) =
      some { s.scheduler.dispatchReadyLiveWindow config.maxInFlight true with phase := .tail } :=
    if_pos ⟨hphase, hwork⟩
  refine ⟨job, _, hstep, hjob, ?_⟩
  have hreceives : (s.pool.workers workerId).phase.receives = true := by
    rw [hworker]
    rfl
  simp only [step, hready, hreceives, hstep, Option.bind_some, hjob, List.drop_left]
  simp [sendAll, WorkerPool.send, hworker, sentTo]

/-- An announcement is only received when there is work. -/
theorem ready_guard (hstep : Step config s .ready s') : s.scheduler.phase = .select ∧
    hasDispatchableLiveWork config.maxInFlight s.scheduler.activeJobs = true := by
  simp only [Step, step] at hstep
  split at hstep
  · cases hstep
  · obtain ⟨scheduler, hscheduler, -⟩ := Option.bind_eq_some_iff.mp hstep
    exact (Option.ite_some_none_eq_some.mp hscheduler).1

theorem conserves_sentTo (h : s.pool.Conserves) (hready : s.pool.readyRx = workerId :: readyRx)
    (job : NpuJob) : (s.sentTo workerId readyRx job).Conserves :=
  h.sent hready job

/-- **What a step of the thread can do to the pool.** -/
theorem pool_step {event : Event} (h : s.pool.Conserves) (hstep : Step config s event s') :
    s'.pool = s.pool ∨ (∃ resultRx, s'.pool = { s.pool with resultRx }) ∨
      (∃ workerId readyRx job, s.pool.readyRx = workerId :: readyRx ∧
        s'.pool = s.sentTo workerId readyRx job) ∨
      ∃ workerId told, event = .worker workerId told ∧ s.pool.step workerId told = some s'.pool := by
  cases event with
  | loop event =>
      simp only [Step, step] at hstep
      split at hstep
      · obtain ⟨scheduler, -, rfl⟩ := Option.map_eq_some_iff.mp hstep
        exact .inl rfl
      · cases hstep
  | result =>
      simp only [Step, step] at hstep
      split at hstep
      · cases hstep
      · obtain ⟨scheduler, -, rfl⟩ := Option.map_eq_some_iff.mp hstep
        exact .inr (.inl ⟨_, rfl⟩)
  | ready =>
      cases hready : s.pool.readyRx with
      | nil => simp [Step, step, hready] at hstep
      | cons workerId readyRx =>
          obtain ⟨hphase, hwork⟩ := ready_guard hstep
          obtain ⟨job, scheduler, -, -, hsent⟩ := ready_sends h hphase hwork hready
          obtain rfl := Option.some.inj (hsent.symm.trans hstep)
          exact .inr (.inr (.inl ⟨workerId, readyRx, job, rfl, rfl⟩))
  | call job =>
      obtain ⟨-, rfl⟩ := Option.ite_some_none_eq_some.mp hstep
      exact .inl rfl
  | worker workerId event =>
      obtain ⟨pool, hpool, hseen⟩ := Option.bind_eq_some_iff.mp hstep
      refine .inr (.inr (.inr ⟨workerId, event, rfl, ?_⟩))
      split at hseen
      · obtain rfl := Option.some.inj hseen
        exact hpool
      · obtain ⟨scheduler, -, rfl⟩ := Option.map_eq_some_iff.mp hseen
        exact hpool

theorem conserves_step {event : Event} (h : s.pool.Conserves) (hstep : Step config s event s') :
    s'.pool.Conserves := by
  obtain hpool | ⟨resultRx, hpool⟩ | ⟨workerId, readyRx, job, hready, hpool⟩ |
    ⟨workerId, told, -, hpool⟩ := pool_step h hstep
  · rwa [hpool]
  · rw [hpool]
    exact h
  · rw [hpool]
    exact conserves_sentTo h hready job
  · exact h.step hpool

theorem conserves_start (hasVad : Bool) : (start hasVad).pool.Conserves :=
  fun _ => rfl

/-- A worker only gets on in its own steps: while it is sent a job it waits. -/
theorem phase_step {event : Event} (h : s.pool.Conserves) (hstep : Step config s event s') :
    (s'.pool.workers workerId).phase = (s.pool.workers workerId).phase ∨
      ∃ told, event = .worker workerId told ∧ s.pool.step workerId told = some s'.pool := by
  obtain hpool | ⟨resultRx, hpool⟩ | ⟨other, readyRx, job, hready, hpool⟩ |
    ⟨other, told, hevent, hpool⟩ := pool_step h hstep
  · exact .inl (by rw [hpool])
  · exact .inl (by rw [hpool])
  · refine .inl ?_
    rw [hpool, sentTo]
    by_cases hother : workerId = other
    · rw [hother, WorkerPool.put_self, (h.first hready).1]
    · rw [WorkerPool.put_of_ne _ _ hother]
  · by_cases hother : workerId = other
    · subst hother
      exact .inr ⟨told, hevent, hpool⟩
    · exact .inl (by rw [WorkerPool.workers_of_ne hpool hother])

/-- Nothing but a panic takes a worker out of its loop. -/
theorem initialised_step {event : Event} (h : s.pool.Conserves) (hstep : Step config s event s')
    (hevent : event ≠ .worker workerId .panic)
    (hworker : (s.pool.workers workerId).phase.initialised = true) :
    (s'.pool.workers workerId).phase.initialised = true := by
  obtain hphase | ⟨told, rfl, hpool⟩ := @phase_step config s s' workerId _ h hstep
  · rwa [hphase]
  · exact WorkerPool.initialised_step hpool (fun hpanic => hevent (by rw [hpanic])) hworker

/-- A thread that has panicked does not come back. -/
theorem panicked_step {event : Event} {job : NpuJob} (h : s.pool.Conserves)
    (hstep : Step config s event s') (hworker : (s.pool.workers workerId).phase = .panicked job) :
    (s'.pool.workers workerId).phase = .panicked job := by
  obtain hphase | ⟨told, rfl, hpool⟩ := @phase_step config s s' workerId _ h hstep
  · rw [hphase, hworker]
  · rw [WorkerPool.step_of_panicked hworker] at hpool
    cases hpool

theorem step_panic (hstep : Step config s (.worker workerId .panic) s') :
    ∃ job, (s'.pool.workers workerId).phase = .panicked job := by
  obtain ⟨pool, hpool, hseen⟩ := Option.bind_eq_some_iff.mp hstep
  obtain rfl := Option.some.inj hseen
  obtain ⟨-, -, hne, -⟩ | ⟨hne, -⟩ | ⟨hne, -⟩ | ⟨hne, -⟩ | ⟨-, job, -, rfl⟩ :=
    WorkerPool.step_cases hpool
  · exact absurd rfl hne
  · cases hne
  · cases hne
  · cases hne
  · exact ⟨job, by rw [WorkerPool.setPhase, WorkerPool.put_self]⟩

variable {hasVad : Bool} {events more : List Event}

theorem conserves_of_run (h : Run (Step config) (start hasVad) events s) : s.pool.Conserves :=
  h.invariant (P := fun _ s => s.pool.Conserves) (conserves_start hasVad)
    fun _ _ _ _ hconserves hstep => conserves_step hconserves hstep

/-- There is always room for one more announcement. -/
theorem announces (h : Run (Step config) (start hasVad) events s)
    (hphase : (s.pool.workers workerId).phase = .starting ∨
      (s.pool.workers workerId).phase = .announcing) :
    s.pool.step workerId .announce = some
      { s.pool.setPhase workerId .waiting with readyRx := s.pool.readyRx ++ [workerId] } :=
  (conserves_of_run h).announced.announce hphase

/-- From where a worker is in its loop, it is there as long as its thread has not panicked. -/
theorem initialised_or_panicked (hworker : (s.pool.workers workerId).phase.initialised = true)
    (h : s.pool.Conserves) (hmore : Run (Step config) s more s') :
    s'.pool.Conserves ∧
      (.worker workerId .panic ∉ more → (s'.pool.workers workerId).phase.initialised = true) ∧
      (.worker workerId .panic ∈ more →
        ∃ job, (s'.pool.workers workerId).phase = .panicked job) := by
  apply hmore.invariant (P := fun more s' => s'.pool.Conserves ∧
    (.worker workerId .panic ∉ more → (s'.pool.workers workerId).phase.initialised = true) ∧
    (.worker workerId .panic ∈ more → ∃ job, (s'.pool.workers workerId).phase = .panicked job))
  · exact ⟨h, fun _ => hworker, fun hmem => absurd hmem List.not_mem_nil⟩
  · rintro before reached event next ⟨hconserves, hin, hout⟩ hstep
    refine ⟨conserves_step hconserves hstep, ?_, ?_⟩
    · intro hnone
      rw [List.mem_append, List.mem_singleton, not_or] at hnone
      exact initialised_step hconserves hstep (Ne.symm hnone.2) (hin hnone.1)
    · intro hsome
      obtain hbefore | hnow := List.mem_append.mp hsome
      · obtain ⟨job, hphase⟩ := hout hbefore
        exact ⟨job, panicked_step hconserves hstep hphase⟩
      · rw [← List.mem_singleton.mp hnow] at hstep
        exact step_panic hstep

/-- **Ready tokens are conserved until a thread panics.** A worker that has once announced itself is
from then on announced or busy with one job, and never both, exactly as long as its thread has not
panicked. When there is work and an announcement is received, wherever the cursor stands, exactly one
job is sent to that worker, whose queue is empty. -/
theorem ready_tokens_conserved (h : Run (Step config) (start hasVad) events s)
    (hmore : Run (Step config) s more s') :
    (∀ workerId, (s.pool.workers workerId).phase.initialised = true →
      (s'.pool.tokens workerId + (s'.pool.workers workerId).jobs = 1 ↔
        .worker workerId .panic ∉ more)) ∧
    ∀ cursor workerId readyRx, s'.scheduler.phase = .select →
      hasDispatchableLiveWork config.maxInFlight s'.scheduler.activeJobs = true →
      s'.pool.readyRx = workerId :: readyRx →
      (s'.pool.workers workerId).jobRx = none ∧
      ∃ job scheduler,
        step config { s' with scheduler := { s'.scheduler with dispatchCursor := cursor } } .ready =
          some { s' with scheduler, pool := s'.sentTo workerId readyRx job } ∧
        scheduler.atWorkers = s'.scheduler.atWorkers ++ [job] := by
  have hconserves := conserves_of_run (h.trans hmore)
  refine ⟨?_, ?_⟩
  · intro workerId hworker
    obtain ⟨-, hin, hout⟩ := initialised_or_panicked hworker (conserves_of_run h) hmore
    constructor
    · intro hone hpanic
      obtain ⟨job, hphase⟩ := hout hpanic
      rw [hconserves.of_panicked hphase] at hone
      cases hone
    · intro hnone
      have hlaw := hconserves workerId
      rwa [hin hnone] at hlaw
  · intro cursor workerId readyRx hphase hwork hready
    have hmoved := @ready_sends config
      { s' with scheduler := { s'.scheduler with dispatchCursor := cursor } } workerId readyRx
      hconserves hphase hwork hready
    obtain ⟨job, scheduler, -, hjob, hsent⟩ := hmoved
    refine ⟨?_, job, scheduler, hsent, hjob⟩
    rw [(hconserves.first hready).1]

/-- A worker comes up, and fails on the one window of the first job. -/
def failingEvents : List Event :=
  [.worker 0 (.load (.ok ())), .worker 0 .announce, .call Scheduler.sampleJob, .loop .head, .ready,
    .worker 0 .take, .worker 0 (.fail (.other "")), .worker 0 .answer, .loop .tail, .loop .head, .result]

/-- It announces itself after the end of the call, and the next call finds the announcement. -/
def recoveringEvents : List Event :=
  [.worker 0 .announce, .call Scheduler.sampleJob, .loop .head]

theorem ready_tokens_conserved_failing : ∃ s s',
    Run (Step Scheduler.pairConfig) (start false) failingEvents s ∧
    Run (Step Scheduler.pairConfig) s recoveringEvents s' ∧
    s.scheduler.phase = .exited ∧ s'.pool.tokens 0 + (s'.pool.workers 0).jobs = 1 ∧
    ∃ job scheduler,
      step Scheduler.pairConfig
          { s' with scheduler := { s'.scheduler with dispatchCursor := 7 } } .ready =
        some { s' with scheduler, pool := s'.sentTo 0 [] job } ∧
      scheduler.atWorkers = s'.scheduler.atWorkers ++ [job] := by
  have hrun : ((failingEvents.foldlM (step Scheduler.pairConfig) (start false)).map fun s =>
      (s.scheduler.phase, (s.pool.workers 0).phase.initialised)) = some (.exited, true) := by
    decide +kernel
  obtain ⟨s, hfold, hview⟩ := Option.map_eq_some_iff.mp hrun
  have hmore : ((failingEvents.foldlM (step Scheduler.pairConfig) (start false)).bind fun s =>
      (recoveringEvents.foldlM (step Scheduler.pairConfig) s).map fun s =>
        (s.scheduler.phase, s.pool.readyRx,
          hasDispatchableLiveWork Scheduler.pairConfig.maxInFlight s.scheduler.activeJobs)) =
        some (.select, [0], true) := by
    decide +kernel
  rw [hfold] at hmore
  obtain ⟨s', hfold', hview'⟩ := Option.map_eq_some_iff.mp hmore
  simp only [Prod.mk.injEq] at hview hview'
  have h : Run (Step Scheduler.pairConfig) (start false) failingEvents s :=
    Run.of_foldlM (fun _ _ _ hstep => hstep) hfold
  have h' : Run (Step Scheduler.pairConfig) s recoveringEvents s' :=
    Run.of_foldlM (fun _ _ _ hstep => hstep) hfold'
  obtain ⟨hlaw, hsends⟩ := ready_tokens_conserved h h'
  obtain ⟨-, hsent⟩ := hsends 7 0 [] hview'.1 hview'.2.2 hview'.2.1
  have hnone : Event.worker 0 .panic ∉ recoveringEvents := by
    simp [recoveringEvents]
  exact ⟨s, s', h, h', hview.1, (hlaw 0 hview.2).mpr hnone, hsent⟩

/-- One sample for a hello that asks for as many beams as there are tokens. -/
def wideJob : ModelJob :=
  { Scheduler.sampleJob with header := requestHeaderFromHello wideHello }

def wideEvents : List Event :=
  [.worker 0 (.load (.ok ())), .worker 0 .announce, .call wideJob, .loop .head, .ready,
    .worker 0 .take]

def wideWindow : WhisperJob :=
  { Scheduler.sampleWindow 1 with options := .ofHeader (requestHeaderFromHello wideHello) }

/-- Every search for this window panics in its first step; the worker is gone, with neither an
announcement nor a job. -/
theorem worker_lost_wide : validateClientHello wideHello = .ok () ∧
    (∀ (ε σ F : Type) (input : SearchInput whisperTiny ε σ F) (sorter : SliceSort.Sorter),
      input.size = wideWindow.options.beamSize → input.initialLogits.length = whisperTiny.vocab →
      input.step sorter input.start = .error (.panic (.sort .outOfRange))) ∧
    ∃ s s', Run (Step Scheduler.pairConfig) (start false) wideEvents s ∧
      (s.pool.workers 0).phase.initialised = true ∧
      (s.pool.workers 0).held = {.whisper wideWindow} ∧
      Run (Step Scheduler.pairConfig) s [.worker 0 .panic] s' ∧
      (s'.pool.workers 0).lost = {.whisper wideWindow} ∧
      s'.pool.tokens 0 + (s'.pool.workers 0).jobs = 0 := by
  refine ⟨by decide, ?_, ?_⟩
  · intro ε σ F input sorter hsize hlogits
    apply SearchInput.step_start_outOfRange
    rw [hsize, hlogits]
    decide
  · have hrun : ((wideEvents.foldlM (step Scheduler.pairConfig) (start false)).map fun s =>
        ((s.pool.workers 0).phase.initialised, (s.pool.workers 0).held)) =
          some (true, {.whisper wideWindow}) := by
      decide +kernel
    obtain ⟨s, hfold, hview⟩ := Option.map_eq_some_iff.mp hrun
    have hmore : ((wideEvents.foldlM (step Scheduler.pairConfig) (start false)).bind fun s =>
        (step Scheduler.pairConfig s (.worker 0 .panic)).map fun s' =>
          ((s'.pool.workers 0).lost, s'.pool.tokens 0 + (s'.pool.workers 0).jobs)) =
          some ({.whisper wideWindow}, 0) := by
      decide +kernel
    rw [hfold] at hmore
    obtain ⟨s', hstep, hview'⟩ := Option.map_eq_some_iff.mp hmore
    simp only [Prod.mk.injEq] at hview hview'
    exact ⟨s, s', Run.of_foldlM (fun _ _ _ hstep => hstep) hfold, hview.1, hview.2,
      Run.refl.snoc hstep, hview'.1, hview'.2⟩

end ModelScheduler

end RkWhisper
