import RkWhisper.Proof.ReadyTokens

/-!
# The scheduler over its workers

What the scheduler keeps about its workers agrees with the workers: the jobs at the workers are the
jobs the workers have, those among them that a worker has died of included, and both see the same
results. So every call of `run_live_jobs` is a run of `Scheduler`, with what the calls before have left
behind.
-/

namespace RkWhisper

open Transition

namespace Scheduler

variable {config : ConcurrencyConfig} {s s' : Scheduler}

/-- Neither a worker nor a result is touched. -/
structure SamePool (s s' : Scheduler) : Prop where
  atWorkers : s'.atWorkers = s.atWorkers
  resultRx : s'.resultRx = s.resultRx

theorem samePool_step {event : Event} (hown : ModelScheduler.ownEvent event = true)
    (hstep : Step config s event s') : SamePool s s' := by
  cases event with
  | head | newJob | sleep | tail | arrive =>
      obtain ⟨-, hnext⟩ := Option.ite_some_none_eq_some.mp hstep
      subst hnext
      exact ⟨rfl, rfl⟩
  | hangUp jobId =>
      obtain rfl := Option.some.inj hstep
      exact ⟨rfl, rfl⟩
  | ready | result | answerVad | answerWhisper | fail => cases hown

theorem resultRx_dispatchReadyLiveWindow (maxInFlight : Nat) (s : Scheduler) (sent : Bool) :
    (s.dispatchReadyLiveWindow maxInFlight sent).resultRx = s.resultRx := by
  rw [dispatchReadyLiveWindow]
  split
  · split <;> rfl
  · split
    · split <;> rfl
    · rfl

/-- The first result is gone. -/
theorem step_result (hstep : Step config s .result s') :
    s'.atWorkers = s.atWorkers ∧ ∃ result, s.resultRx = result :: s'.resultRx := by
  rw [Step, step] at hstep
  split at hstep
  · split at hstep
    · cases hstep
    · rename_i result resultRx hresults
      cases hstep
      rw [hresults]
      cases result with
      | error error => exact ⟨rfl, _, rfl⟩
      | ok result => cases result <;> exact ⟨rfl, _, rfl⟩
  · cases hstep

theorem step_fail {failed : Option NpuJob} (hfailed : ∀ job ∈ failed, job ∈ s.atWorkers)
    (error : Error) : s.step config (.fail failed error) = some { s with
      atWorkers := s.atWorkers.diff failed.toList
      resultRx := s.resultRx ++ [.error error] } :=
  if_pos hfailed

/-- All there is belongs to older jobs, as a new call of the loop expects it. -/
theorem Older.leftover {bound : Nat} (h : s.Older bound) :
    ∃ leftover : Leftover bound, leftover.atWorkers = s.atWorkers ∧
      leftover.resultRx = s.resultRx := by
  refine ⟨⟨s.atWorkers, s.resultRx, ?_, ?_⟩, rfl, rfl⟩
  · intro job hjob
    rw [← NpuJob.jobId_ticket]
    exact h.tickets _ (Multiset.mem_add.mpr (.inl (Multiset.mem_map_of_mem _ hjob)))
  · intro result hresult
    rw [← NpuResult.jobId_ticket]
    exact h.tickets _ (Multiset.mem_add.mpr (.inr
      (Multiset.mem_coe.mpr (List.mem_filterMap.mpr ⟨_, hresult, rfl⟩))))

end Scheduler

namespace WorkerPool

variable {pool pool' : WorkerPool} {workerId : Fin npuWorkers}

/-- One worker counts as something else than before. -/
theorem sum_put {M : Type*} [AddCommMonoid M] (f : NpuWorker → M) (pool : WorkerPool)
    (workerId : Fin npuWorkers) (worker : NpuWorker) :
    ∑ other, f ((pool.put workerId worker).workers other) + f (pool.workers workerId) =
      ∑ other, f (pool.workers other) + f worker := by
  have hupdate : (fun other => f ((pool.put workerId worker).workers other)) =
      Function.update (fun other => f (pool.workers other)) workerId (f worker) := by
    funext other
    by_cases hother : other = workerId
    · subst hother
      rw [put_self, Function.update_self]
    · rw [put_of_ne _ _ hother, Function.update_of_ne hother]
  have hsum := Finset.sum_erase_add Finset.univ (fun other => f (pool.workers other))
    (Finset.mem_univ workerId)
  calc ∑ other, f ((pool.put workerId worker).workers other) + f (pool.workers workerId)
      = f worker + (∑ other ∈ Finset.univ.erase workerId, f (pool.workers other)) +
          f (pool.workers workerId) := by
        rw [hupdate, Finset.sum_update_of_mem (Finset.mem_univ workerId),
          Finset.sdiff_singleton_eq_erase]
    _ = ∑ other, f (pool.workers other) + f worker := by
        rw [add_assoc, hsum, add_comm]

/-- The jobs of all workers. -/
def held (pool : WorkerPool) : Multiset NpuJob :=
  ∑ workerId, (pool.workers workerId).held

/-- The jobs that workers have died of. -/
def lost (pool : WorkerPool) : Multiset NpuJob :=
  ∑ workerId, (pool.workers workerId).lost

theorem sum_change {M : Type*} [AddCommMonoid M] (f : NpuWorker → M) {worker : NpuWorker}
    (hworkers : pool'.workers = (pool.put workerId worker).workers) :
    ∑ other, f (pool'.workers other) + f (pool.workers workerId) =
      ∑ other, f (pool.workers other) + f worker := by
  rw [hworkers, sum_put]

theorem sum_eq_of_eq {M : Type*} [AddCancelCommMonoid M] (f : NpuWorker → M) {worker : NpuWorker}
    (hworkers : pool'.workers = (pool.put workerId worker).workers)
    (hsame : f worker = f (pool.workers workerId)) :
    ∑ other, f (pool'.workers other) = ∑ other, f (pool.workers other) := by
  have hchange := sum_change f hworkers
  rw [hsame] at hchange
  exact add_right_cancel hchange

/-- One worker has other jobs than before. -/
theorem held_change {worker : NpuWorker}
    (hworkers : pool'.workers = (pool.put workerId worker).workers) :
    pool'.held + (pool.workers workerId).held = pool.held + worker.held :=
  sum_change NpuWorker.held hworkers

theorem held_eq_of_eq {worker : NpuWorker}
    (hworkers : pool'.workers = (pool.put workerId worker).workers)
    (hheld : worker.held = (pool.workers workerId).held) : pool'.held = pool.held :=
  sum_eq_of_eq NpuWorker.held hworkers hheld

theorem lost_eq_of_eq {worker : NpuWorker}
    (hworkers : pool'.workers = (pool.put workerId worker).workers)
    (hlost : worker.lost = (pool.workers workerId).lost) : pool'.lost = pool.lost :=
  sum_eq_of_eq NpuWorker.lost hworkers hlost

/-- A worker that has answered has one job less. -/
theorem held_answer {outcome : WorkerOutcome}
    (hphase : (pool.workers workerId).phase = .answering outcome) (hpool : pool' =
      { pool.setPhase workerId .announcing with
        resultRx := pool.resultRx ++ [outcome.result workerId] }) :
    pool'.held + {outcome.job} = pool.held := by
  have hchange := @held_change pool pool' workerId
    { pool.workers workerId with phase := .announcing } (by rw [hpool]; rfl)
  have hold : (pool.workers workerId).held =
      NpuWorker.held { pool.workers workerId with phase := .announcing } + {outcome.job} := by
    simp [NpuWorker.held, hphase]
  rw [hold, ← add_assoc, add_right_comm] at hchange
  exact add_right_cancel hchange

theorem lost_answer {outcome : WorkerOutcome}
    (hphase : (pool.workers workerId).phase = .answering outcome) (hpool : pool' =
      { pool.setPhase workerId .announcing with
        resultRx := pool.resultRx ++ [outcome.result workerId] }) : pool'.lost = pool.lost := by
  have hlost : NpuWorker.lost { pool.workers workerId with phase := .announcing } =
      (pool.workers workerId).lost := by
    simp [NpuWorker.lost, hphase]
  exact lost_eq_of_eq (by rw [hpool]; rfl) hlost

/-- A worker that panics takes its job along. -/
theorem held_panic {job : NpuJob} (hphase : (pool.workers workerId).phase = .running job) :
    (pool.setPhase workerId (.panicked job)).held + {job} = pool.held := by
  have hchange := @held_change pool (pool.setPhase workerId (.panicked job)) workerId
    { pool.workers workerId with phase := .panicked job } rfl
  have hold : (pool.workers workerId).held =
      NpuWorker.held { pool.workers workerId with phase := .panicked job } + {job} := by
    simp [NpuWorker.held, hphase]
  rw [hold, ← add_assoc, add_right_comm] at hchange
  exact add_right_cancel hchange

theorem lost_panic {job : NpuJob} (hphase : (pool.workers workerId).phase = .running job) :
    (pool.setPhase workerId (.panicked job)).lost = pool.lost + {job} := by
  have hchange := @sum_change pool (pool.setPhase workerId (.panicked job)) workerId _ _
    NpuWorker.lost { pool.workers workerId with phase := .panicked job } rfl
  simpa [NpuWorker.lost, hphase, lost] using hchange

end WorkerPool

namespace ModelScheduler

variable {config : ConcurrencyConfig} {s s' : ModelScheduler} {workerId : Fin npuWorkers}

/-- The scheduler's view of the workers is the workers'. -/
structure Agrees (s : ModelScheduler) : Prop where
  conserves : s.pool.Conserves
  atWorkers : (s.scheduler.atWorkers : Multiset NpuJob) = s.pool.held + s.pool.lost
  resultRx : s.scheduler.resultRx = s.pool.resultRx

theorem Agrees.mem_atWorkers (h : s.Agrees) {outcome : WorkerOutcome}
    (hphase : (s.pool.workers workerId).phase = .answering outcome) :
    outcome.job ∈ s.scheduler.atWorkers := by
  have hheld : (s.pool.workers workerId).held ≤ s.pool.held :=
    Finset.single_le_sum (f := fun workerId => (s.pool.workers workerId).held)
      (fun _ _ => Multiset.zero_le _) (Finset.mem_univ workerId)
  rw [← Multiset.mem_coe, h.atWorkers]
  refine Multiset.mem_add.mpr (.inl (Multiset.mem_of_le hheld ?_))
  simp [NpuWorker.held, hphase]

theorem step_worker_unseen {event : WorkerEvent} {pool : WorkerPool}
    (hpool : s.pool.step workerId event = some pool) (hseen : s.seen workerId event = none) :
    step config s (.worker workerId event) = some ⟨s.hasVad, s.scheduler, pool⟩ := by
  simp only [step, hpool, Option.bind_some, hseen]

theorem step_worker_seen {event : WorkerEvent} {pool : WorkerPool} {told : Scheduler.Event}
    {scheduler : Scheduler} (hpool : s.pool.step workerId event = some pool)
    (hseen : s.seen workerId event = some told)
    (hscheduler : s.scheduler.step config told = some scheduler) :
    step config s (.worker workerId event) = some ⟨s.hasVad, scheduler, pool⟩ := by
  simp only [step, hpool, Option.bind_some, hseen, hscheduler, Option.map_some]

/-- How the books change when a worker has answered. -/
theorem Agrees.answered (h : s.Agrees) {outcome : WorkerOutcome}
    (hphase : (s.pool.workers workerId).phase = .answering outcome) {pool : WorkerPool}
    (hpool : pool = { s.pool.setPhase workerId .announcing with
      resultRx := s.pool.resultRx ++ [outcome.result workerId] }) :
    ((s.scheduler.atWorkers.erase outcome.job : List NpuJob) : Multiset NpuJob) =
      pool.held + pool.lost := by
  have hheld := WorkerPool.held_answer hphase hpool
  rw [← Multiset.coe_erase, h.atWorkers, ← hheld, WorkerPool.lost_answer hphase hpool,
    add_right_comm, add_comm, Multiset.singleton_add, Multiset.erase_cons_head]

/-- What the scheduler is told of a worker is what the worker does. -/
theorem Agrees.worker (h : s.Agrees) (config : ConcurrencyConfig) {event : WorkerEvent}
    {pool : WorkerPool} (hpool : s.pool.step workerId event = some pool) :
    ∃ scheduler, step config s (.worker workerId event) = some ⟨s.hasVad, scheduler, pool⟩ ∧
      (scheduler.atWorkers : Multiset NpuJob) = pool.held + pool.lost ∧
      scheduler.resultRx = pool.resultRx := by
  obtain ⟨hrefuse, hanswer, -, worker, hquiet, heq⟩ | ⟨rfl, hphase, heq⟩ |
    ⟨rfl, error, hphase, heq⟩ | ⟨rfl, outcome, hphase, heq⟩ | ⟨rfl, job, hphase, heq⟩ :=
    WorkerPool.step_cases hpool
  · have hseen : s.seen workerId event = none := by
      cases event <;> first | rfl | contradiction
    refine ⟨_, step_worker_unseen hpool hseen, ?_, ?_⟩
    · rw [heq, WorkerPool.held_eq_of_eq rfl hquiet.held, WorkerPool.lost_eq_of_eq rfl hquiet.lost,
        h.atWorkers]
    · rw [heq, h.resultRx]
      rfl
  · refine ⟨_, step_worker_unseen hpool rfl, ?_, ?_⟩
    · have hheld : NpuWorker.held { s.pool.workers workerId with phase := .waiting } =
          (s.pool.workers workerId).held := by
        obtain hphase | hphase := hphase <;> simp [NpuWorker.held, hphase]
      have hlost : NpuWorker.lost { s.pool.workers workerId with phase := .waiting } =
          (s.pool.workers workerId).lost := by
        obtain hphase | hphase := hphase <;> simp [NpuWorker.lost, hphase]
      rw [WorkerPool.held_eq_of_eq (by rw [heq]; rfl) hheld,
        WorkerPool.lost_eq_of_eq (by rw [heq]; rfl) hlost, h.atWorkers]
    · rw [heq, h.resultRx]
      rfl
  · have hseen : s.seen workerId .refuse =
        some (.fail none (WorkerPool.initFailure workerId error)) := by
      simp only [seen, hphase]
    refine ⟨_, step_worker_seen hpool hseen (Scheduler.step_fail (by simp) _), ?_, ?_⟩
    · have hheld : NpuWorker.held { s.pool.workers workerId with phase := .stopped } =
          (s.pool.workers workerId).held := by
        simp [NpuWorker.held, hphase]
      have hlost : NpuWorker.lost { s.pool.workers workerId with phase := .stopped } =
          (s.pool.workers workerId).lost := by
        simp [NpuWorker.lost, hphase]
      rw [WorkerPool.held_eq_of_eq (by rw [heq]; rfl) hheld,
        WorkerPool.lost_eq_of_eq (by rw [heq]; rfl) hlost, ← h.atWorkers]
      simp
    · rw [heq, ← h.resultRx]
  · have hmem := h.mem_atWorkers hphase
    have hheld := h.answered hphase heq
    cases outcome with
    | transcribed job text segments =>
        have hseen : s.seen workerId .answer = some (.answerWhisper job text segments) := by
          simp only [seen, hphase]
        refine ⟨_, step_worker_seen hpool hseen (if_pos hmem), hheld, ?_⟩
        rw [heq, ← h.resultRx]
        rfl
    | classified job probability state =>
        have hseen : s.seen workerId .answer = some (.answerVad job probability state) := by
          simp only [seen, hphase]
        refine ⟨_, step_worker_seen hpool hseen (if_pos hmem), hheld, ?_⟩
        rw [heq, ← h.resultRx]
        rfl
    | failed job error =>
        have hseen : s.seen workerId .answer =
            some (.fail (some job) (WorkerOutcome.failure workerId error job)) := by
          simp only [seen, hphase]
        refine ⟨_, step_worker_seen hpool hseen (Scheduler.step_fail ?_ _), ?_, ?_⟩
        · rintro _ ⟨⟩
          exact hmem
        · change ((s.scheduler.atWorkers.diff [job] : List NpuJob) : Multiset NpuJob) = _
          rw [List.diff_cons, List.diff_nil]
          exact hheld
        · rw [heq, ← h.resultRx]
          rfl
  · refine ⟨_, step_worker_unseen hpool rfl, ?_, ?_⟩
    · rw [heq, WorkerPool.lost_panic hphase, h.atWorkers, ← WorkerPool.held_panic hphase,
        add_right_comm, add_assoc]
    · rw [heq, h.resultRx]
      rfl

theorem Agrees.step {event : Event} (h : s.Agrees) (hstep : Step config s event s') :
    s'.Agrees := by
  have hconserves := conserves_step h.conserves hstep
  cases event with
  | loop event =>
      simp only [Step, ModelScheduler.step] at hstep
      split at hstep
      · rename_i hown
        obtain ⟨scheduler, hscheduler, rfl⟩ := Option.map_eq_some_iff.mp hstep
        have hsame := Scheduler.samePool_step hown hscheduler
        exact ⟨h.conserves, hsame.atWorkers ▸ h.atWorkers, hsame.resultRx.trans h.resultRx⟩
      · cases hstep
  | result =>
      simp only [Step, ModelScheduler.step] at hstep
      split at hstep
      · cases hstep
      · rename_i result resultRx hresults
        obtain ⟨scheduler, hscheduler, rfl⟩ := Option.map_eq_some_iff.mp hstep
        obtain ⟨hworkers, first, hfirst⟩ := Scheduler.step_result hscheduler
        have hrest : first :: scheduler.resultRx = result :: resultRx := by
          rw [← hfirst, h.resultRx, hresults]
        exact ⟨hconserves, hworkers ▸ h.atWorkers, (List.cons.inj hrest).2⟩
  | ready =>
      cases hready : s.pool.readyRx with
      | nil => simp [Step, ModelScheduler.step, hready] at hstep
      | cons workerId readyRx =>
          obtain ⟨hphase, hwork⟩ := ready_guard hstep
          obtain ⟨job, scheduler, hscheduler, hjob, hsent⟩ :=
            ready_sends h.conserves hphase hwork hready
          obtain rfl := Option.some.inj (hsent.symm.trans hstep)
          obtain ⟨hworker, -⟩ := h.conserves.first hready
          have hheld := @WorkerPool.held_change s.pool (s.sentTo workerId readyRx job) workerId
            { phase := .waiting, jobRx := some job } rfl
          rw [hworker] at hheld
          have hlost : (s.sentTo workerId readyRx job).lost = s.pool.lost :=
            WorkerPool.lost_eq_of_eq rfl (by rw [hworker]; rfl)
          refine ⟨hconserves, ?_, ?_⟩
          · have hsum : (s.sentTo workerId readyRx job).held = s.pool.held + {job} := by
              simpa [NpuWorker.held] using hheld
            rw [hjob, ← Multiset.coe_add, h.atWorkers]
            change _ = (s.sentTo workerId readyRx job).held + (s.sentTo workerId readyRx job).lost
            rw [hsum, hlost, add_right_comm]
            rfl
          · have hresults : scheduler.resultRx = s.scheduler.resultRx := by
              obtain ⟨-, rfl⟩ := Option.ite_some_none_eq_some.mp hscheduler
              exact Scheduler.resultRx_dispatchReadyLiveWindow ..
            exact hresults.trans h.resultRx
  | call job =>
      obtain ⟨-, rfl⟩ := Option.ite_some_none_eq_some.mp hstep
      exact ⟨hconserves, h.atWorkers, h.resultRx⟩
  | worker workerId event =>
      obtain ⟨pool, hpool, -⟩ := Option.bind_eq_some_iff.mp hstep
      obtain ⟨scheduler, hworker, hbooks⟩ := h.worker config hpool
      obtain rfl := Option.some.inj (hworker.symm.trans hstep)
      exact ⟨hconserves, hbooks.1, hbooks.2⟩

theorem agrees_start (hasVad : Bool) : (start hasVad).Agrees where
  conserves := conserves_start hasVad
  atWorkers := rfl
  resultRx := rfl

variable {hasVad : Bool} {events : List Event}

theorem agrees_of_run (h : Run (Step config) (start hasVad) events s) : s.Agrees :=
  h.invariant (P := fun _ s => s.Agrees) (agrees_start hasVad)
    fun _ _ _ _ hagrees hstep => hagrees.step hstep

/-- What the scheduler does in a step of the thread, unless a new call begins. -/
theorem scheduler_step {event : Event} (hstep : Step config s event s') :
    s'.hasVad = s.hasVad ∧
      (s'.scheduler = s.scheduler ∨
        (∃ event, Scheduler.Step config s.scheduler event s'.scheduler) ∨
        ∃ job, s.scheduler.phase = .exited ∧ s'.scheduler = s.called job) := by
  cases event with
  | loop event =>
      simp only [Step, ModelScheduler.step] at hstep
      split at hstep
      · obtain ⟨scheduler, hscheduler, rfl⟩ := Option.map_eq_some_iff.mp hstep
        exact ⟨rfl, .inr (.inl ⟨_, hscheduler⟩)⟩
      · cases hstep
  | result =>
      simp only [Step, ModelScheduler.step] at hstep
      split at hstep
      · cases hstep
      · obtain ⟨scheduler, hscheduler, rfl⟩ := Option.map_eq_some_iff.mp hstep
        exact ⟨rfl, .inr (.inl ⟨_, hscheduler⟩)⟩
  | ready =>
      simp only [Step, ModelScheduler.step] at hstep
      split at hstep
      · cases hstep
      · obtain ⟨scheduler, hscheduler, hmap⟩ := Option.bind_eq_some_iff.mp hstep
        obtain ⟨pool, -, rfl⟩ := Option.map_eq_some_iff.mp hmap
        exact ⟨rfl, .inr (.inl ⟨_, hscheduler⟩)⟩
  | call job =>
      obtain ⟨hphase, rfl⟩ := Option.ite_some_none_eq_some.mp hstep
      exact ⟨rfl, .inr (.inr ⟨job, hphase, rfl⟩)⟩
  | worker workerId event =>
      obtain ⟨pool, -, hseen⟩ := Option.bind_eq_some_iff.mp hstep
      split at hseen
      · obtain rfl := Option.some.inj hseen
        exact ⟨rfl, .inl rfl⟩
      · obtain ⟨scheduler, hscheduler, rfl⟩ := Option.map_eq_some_iff.mp hseen
        exact ⟨rfl, .inr (.inl ⟨_, hscheduler⟩)⟩

/-- Before the first call there is no work; a worker may have failed to start. -/
structure Idle (s : Scheduler) : Prop where
  phase : s.phase = .exited
  activeJobs : s.activeJobs = []
  atWorkers : s.atWorkers = []
  resultRx : ∀ result, .ok result ∉ s.resultRx

/-- The scheduler is in a call, or has ended one. -/
def Called (config : ConcurrencyConfig) (s : ModelScheduler) : Prop :=
  ∃ jobId job leftover events,
    Run (Scheduler.Step config) (Scheduler.start jobId job s.hasVad leftover) events s.scheduler

theorem Idle.leftover {scheduler : Scheduler} (h : Idle scheduler) (bound : Nat) :
    ∃ leftover : Leftover bound, leftover.atWorkers = scheduler.atWorkers ∧
      leftover.resultRx = scheduler.resultRx := by
  refine ⟨⟨scheduler.atWorkers, scheduler.resultRx, ?_, ?_⟩, rfl, rfl⟩
  · intro job hjob
    rw [h.atWorkers] at hjob
    cases hjob
  · intro result hresult
    exact absurd hresult (h.resultRx result)

theorem Idle.step {scheduler scheduler' : Scheduler} {event : Scheduler.Event}
    (h : Idle scheduler) (hstep : Scheduler.Step config scheduler event scheduler') :
    Idle scheduler' := by
  rw [Scheduler.Step] at hstep
  cases event with
  | head | newJob | ready | result | sleep | tail =>
      simp [Scheduler.step, h.phase] at hstep
  | arrive jobId chunk => simp [Scheduler.step, h.activeJobs] at hstep
  | answerVad | answerWhisper => simp [Scheduler.step, h.atWorkers] at hstep
  | hangUp jobId =>
      obtain rfl := Option.some.inj hstep
      exact ⟨h.phase, by rw [h.activeJobs]; rfl, h.atWorkers, h.resultRx⟩
  | fail failed error =>
      obtain ⟨-, rfl⟩ := Option.ite_some_none_eq_some.mp hstep
      refine ⟨h.phase, h.activeJobs, ?_, ?_⟩
      · change scheduler.atWorkers.diff failed.toList = []
        rw [h.atWorkers, List.nil_diff]
      · intro result hmem
        obtain hmem | hmem := List.mem_append.mp hmem
        · exact h.resultRx result hmem
        · cases List.mem_singleton.mp hmem

theorem called_of_leftover {bound : Nat} {leftover : Leftover bound}
    (hbound : s.scheduler.nextJobId = bound) (hworkers : leftover.atWorkers = s.scheduler.atWorkers)
    (hresults : leftover.resultRx = s.scheduler.resultRx) (job : ModelJob)
    (hscheduler : s'.scheduler = s.called job) (hhasVad : s'.hasVad = s.hasVad) :
    Called config s' := by
  subst hbound
  refine ⟨s.scheduler.nextJobId, job, leftover, [], ?_⟩
  have hstart : Scheduler.start s.scheduler.nextJobId job s'.hasVad leftover = s'.scheduler := by
    rw [hscheduler, hhasVad, Scheduler.start, called, hworkers, hresults]
  rw [hstart]
  exact .refl

/-- **Every call is a run of the scheduler**, over what the calls before it have left behind. -/
theorem idle_or_called (h : Run (Step config) (start hasVad) events s) :
    Idle s.scheduler ∨ Called config s := by
  refine h.invariant (P := fun _ s => Idle s.scheduler ∨ Called config s) ?_ ?_
  · exact .inl ⟨rfl, rfl, rfl, fun _ => List.not_mem_nil⟩
  · intro _ s event s' hstate hstep
    obtain ⟨hhasVad, hsame | ⟨event, hscheduler⟩ | ⟨job, hphase, hcalled⟩⟩ := scheduler_step hstep
    · rw [hsame, Called, hhasVad, hsame]
      exact hstate
    · obtain hidle | ⟨jobId, job, leftover, events, hrun⟩ := hstate
      · exact .inl (hidle.step hscheduler)
      · refine .inr ⟨jobId, job, leftover, events ++ [event], ?_⟩
        rw [hhasVad]
        exact hrun.snoc hscheduler
    · obtain hidle | ⟨jobId, first, leftover, events, hrun⟩ := hstate
      · obtain ⟨leftover, hworkers, hresults⟩ := hidle.leftover s.scheduler.nextJobId
        exact .inr (called_of_leftover rfl hworkers hresults job hcalled hhasVad)
      · obtain ⟨leftover, hworkers, hresults⟩ := (Scheduler.Sim.of_run hrun).older.leftover
        exact .inr (called_of_leftover rfl hworkers hresults job hcalled hhasVad)

end ModelScheduler

end RkWhisper
