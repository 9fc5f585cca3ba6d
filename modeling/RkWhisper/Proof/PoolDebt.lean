import RkWhisper.Lib.Termination
import RkWhisper.Proof.ModelScheduler

/-!
# What the workers owe

Every job is paid for with one result, and a thread that loads its model may have to send one error.
The results in the channel and those still owed are the debt of a pool. No step of a thread makes it
larger, and only finitely many steps are taken until all threads wait or have ended. A thread that
panics takes the result that it owes along.
-/

namespace RkWhisper

/-- The results that the thread still sends for what it has at hand; a thread that loads its model may
have to send an error. -/
def WorkerPhase.owes : WorkerPhase → Nat
  | .loading | .refusing _ | .running _ | .answering _ => 1
  | .stopped | .starting | .waiting | .announcing | .panicked _ => 0

/-- How many steps the thread takes until it waits for a job, with the result it sends on the way. -/
def WorkerPhase.rank : WorkerPhase → Nat
  | .stopped | .waiting | .panicked _ => 0
  | .starting | .announcing => 1
  | .refusing _ => 2
  | .loading | .answering _ => 3
  | .running _ => 4

def NpuWorker.owes (worker : NpuWorker) : Nat :=
  worker.jobRx.isSome.toNat + worker.phase.owes

def NpuWorker.rank (worker : NpuWorker) : Nat :=
  5 * worker.jobRx.isSome.toNat + worker.phase.rank

namespace WorkerPool

variable {pool pool' : WorkerPool} {workerId : Fin npuWorkers} {event : WorkerEvent}

/-- The results that are in the channel and those that may still come. -/
def debt (pool : WorkerPool) : Nat :=
  pool.resultRx.length + ∑ workerId, (pool.workers workerId).owes

def rank (pool : WorkerPool) : Nat :=
  pool.resultRx.length + ∑ workerId, (pool.workers workerId).rank

/-- What a step of a worker costs. A result is sent only into a channel with room, and then the worker
owes one less; but for a model that loads and a panic, nothing is owed less than before. -/
structure Pays (pool : WorkerPool) (workerId : Fin npuWorkers) (event : WorkerEvent)
    (worker : NpuWorker) (told : List (Fin npuWorkers)) (sent : List (Except Error NpuResult)) :
    Prop where
  rank : worker.rank + sent.length < (pool.workers workerId).rank
  owes : worker.owes + sent.length ≤ (pool.workers workerId).owes
  owes_eq : event ≠ .load (.ok ()) → event ≠ .panic →
    worker.owes + sent.length = (pool.workers workerId).owes
  room : pool.resultRx.length + sent.length ≤ max npuWorkers pool.resultRx.length
  claims : worker.claims + told.count workerId ≤ (pool.workers workerId).claims
  told : ∀ other ∈ told, other = workerId
  queue : worker.jobRx.isSome = true → (pool.workers workerId).jobRx.isSome = true ∧
    (pool.workers workerId).phase ≠ .waiting

theorem pays_step (hstep : pool.step workerId event = some pool') :
    ∃ worker told sent, pool'.workers = (pool.put workerId worker).workers ∧
      pool'.readyRx = pool.readyRx ++ told ∧ pool'.resultRx = pool.resultRx ++ sent ∧
      pool.Pays workerId event worker told sent := by
  cases event with
  | load | take | transcribe | classify | fail | panic =>
      simp only [step] at hstep
      split at hstep <;> cases hstep <;>
        refine ⟨_, [], [], rfl, (List.append_nil _).symm, (List.append_nil _).symm,
          ⟨?_, ?_, ?_, le_max_right _ _, ?_, List.forall_mem_nil _, ?_⟩⟩ <;>
        simp [NpuWorker.rank, NpuWorker.owes, NpuWorker.claims, WorkerPhase.rank, WorkerPhase.owes,
          WorkerPhase.busy, *]
  | announce =>
      simp only [step] at hstep
      split at hstep
      all_goals first
        | cases hstep
        | obtain ⟨-, rfl⟩ := Option.ite_some_none_eq_some.mp hstep
      all_goals
        refine ⟨_, [workerId], [], rfl, rfl, (List.append_nil _).symm,
          ⟨?_, ?_, ?_, le_max_right _ _, ?_, fun _ => List.mem_singleton.mp, ?_⟩⟩ <;>
        simp [NpuWorker.rank, NpuWorker.owes, NpuWorker.claims, WorkerPhase.rank, WorkerPhase.owes,
          WorkerPhase.busy, *]
  | refuse | answer =>
      simp only [step] at hstep
      split at hstep
      · obtain ⟨hroom, rfl⟩ := Option.ite_some_none_eq_some.mp hstep
        refine ⟨_, [], _, rfl, (List.append_nil _).symm, rfl,
          ⟨?_, ?_, ?_, le_max_of_le_left hroom, ?_, List.forall_mem_nil _, ?_⟩⟩ <;>
          simp [NpuWorker.rank, NpuWorker.owes, NpuWorker.claims, WorkerPhase.rank,
            WorkerPhase.owes, WorkerPhase.busy, *]
      · cases hstep

theorem rank_step (hstep : pool.step workerId event = some pool') : pool'.rank < pool.rank := by
  obtain ⟨worker, told, sent, hworkers, -, hresults, hpays⟩ := pays_step hstep
  have hsum := sum_put NpuWorker.rank pool workerId worker
  have hpaid := hpays.rank
  rw [rank, rank, hworkers, hresults, List.length_append]
  omega

theorem debt_step (hstep : pool.step workerId event = some pool') : pool'.debt ≤ pool.debt := by
  obtain ⟨worker, told, sent, hworkers, -, hresults, hpays⟩ := pays_step hstep
  have hsum := sum_put NpuWorker.owes pool workerId worker
  have hpaid := hpays.owes
  rw [debt, debt, hworkers, hresults, List.length_append]
  omega

/-- Only a model that loads and a panic take something off. -/
theorem debt_step_eq (hstep : pool.step workerId event = some pool')
    (hload : event ≠ .load (.ok ())) (hpanic : event ≠ .panic) : pool'.debt = pool.debt := by
  obtain ⟨worker, told, sent, hworkers, -, hresults, hpays⟩ := pays_step hstep
  have hsum := sum_put NpuWorker.owes pool workerId worker
  have hpaid := hpays.owes_eq hload hpanic
  rw [debt, debt, hworkers, hresults, List.length_append]
  omega

theorem room_step (hstep : pool.step workerId event = some pool')
    (hroom : pool.resultRx.length ≤ npuWorkers) : pool'.resultRx.length ≤ npuWorkers := by
  obtain ⟨worker, told, sent, -, -, hresults, hpays⟩ := pays_step hstep
  have hpaid := hpays.room
  rw [max_eq_left hroom] at hpaid
  rwa [hresults, List.length_append]

theorem Announced.step (h : pool.Announced) (hstep : pool.step workerId event = some pool') :
    pool'.Announced := by
  obtain ⟨worker, told, sent, hworkers, hready, -, hpays⟩ := pays_step hstep
  have hself : pool'.workers workerId = worker := by
    rw [hworkers, put_self]
  have hothers : ∀ other ≠ workerId, pool'.workers other = pool.workers other := by
    intro other hother
    rw [hworkers, put_of_ne _ _ hother]
  refine ⟨fun other => ?_, fun other hjob => ?_⟩
  · have hbefore := h.tokens other
    rw [WorkerPool.tokens] at hbefore ⊢
    rw [hready, List.count_append]
    by_cases hother : other = workerId
    · have hclaims := hpays.claims
      subst hother
      rw [hself]
      omega
    · have hcount : told.count other = 0 :=
        List.count_eq_zero.mpr fun hmem => hother (hpays.told other hmem)
      rw [hothers other hother, hcount]
      exact hbefore
  · by_cases hother : other = workerId
    · -- A worker that goes on has taken the job out of its queue.
      subst hother
      rw [hself] at hjob
      obtain ⟨hbefore, hwaiting⟩ := hpays.queue hjob
      exact absurd (h.queue other hbefore) hwaiting
    · rw [hothers other hother] at hjob ⊢
      exact h.queue other hjob

section Send

variable {job : NpuJob} (hsend : pool.send workerId job = some pool')

include hsend

theorem eq_put_of_send : (pool.workers workerId).jobRx = none ∧
    pool' = pool.put workerId { pool.workers workerId with jobRx := some job } := by
  rw [send] at hsend
  split at hsend
  · rename_i hslot
    exact ⟨hslot, (Option.some.inj hsend).symm⟩
  · cases hsend

theorem rank_send : pool'.rank = pool.rank + 5 := by
  obtain ⟨hslot, rfl⟩ := eq_put_of_send hsend
  have hsum := sum_put NpuWorker.rank pool workerId
    { pool.workers workerId with jobRx := some job }
  simp only [NpuWorker.rank, hslot, Option.isSome_some, Option.isSome_none, Bool.toNat_true,
    Bool.toNat_false] at hsum
  simp only [rank, NpuWorker.rank]
  change pool.resultRx.length + _ = _
  omega

theorem debt_send : pool'.debt = pool.debt + 1 := by
  obtain ⟨hslot, rfl⟩ := eq_put_of_send hsend
  have hsum := sum_put NpuWorker.owes pool workerId
    { pool.workers workerId with jobRx := some job }
  simp only [NpuWorker.owes, hslot, Option.isSome_some, Option.isSome_none, Bool.toNat_true,
    Bool.toNat_false] at hsum
  simp only [debt, NpuWorker.owes]
  change pool.resultRx.length + _ = _
  omega

end Send

/-- A worker owes at most one result. -/
theorem Conserves.owes_le (h : pool.Conserves) (workerId : Fin npuWorkers) :
    (pool.workers workerId).owes ≤ 1 := by
  have hworker := h workerId
  have hjob := Bool.toNat_le (pool.workers workerId).jobRx.isSome
  rw [NpuWorker.jobs] at hworker
  rw [NpuWorker.owes]
  cases hphase : (pool.workers workerId).phase <;>
    simp only [hphase, WorkerPhase.executing, WorkerPhase.initialised, WorkerPhase.owes,
      Bool.toNat_true, Bool.toNat_false] at hworker ⊢ <;> omega

theorem Conserves.debt_le (h : pool.Conserves) (hroom : pool.resultRx.length ≤ npuWorkers) :
    pool.debt ≤ 2 * npuWorkers := by
  have hsum : ∑ workerId, (pool.workers workerId).owes ≤ npuWorkers :=
    calc ∑ workerId, (pool.workers workerId).owes
        ≤ ∑ _workerId : Fin npuWorkers, 1 := Finset.sum_le_sum fun workerId _ => h.owes_le workerId
      _ = npuWorkers := by simp
  rw [debt]
  omega

/-! ### Workers that can go no further -/

/-- The worker waits for its next job. -/
def Idle (worker : NpuWorker) : Prop :=
  worker.phase = .waiting ∧ worker.jobRx = none

/-- The worker has a result to send. -/
def Sends (worker : NpuWorker) : Prop :=
  (∃ error, worker.phase = .refusing error) ∨ ∃ outcome, worker.phase = .answering outcome

/-- **Why a worker takes no step.** It has ended, it waits for a job, or the channel is full. -/
theorem Announced.still (h : pool.Announced)
    (hstill : ∀ event, pool.step workerId event = none) :
    (pool.workers workerId).phase.receives = false ∨ Idle (pool.workers workerId) ∨
      (Sends (pool.workers workerId) ∧ npuWorkers ≤ pool.resultRx.length) := by
  cases hphase : (pool.workers workerId).phase with
  | stopped | panicked => exact .inl rfl
  | loading =>
      have hload := hstill (.load (.ok ()))
      simp only [WorkerPool.step, hphase] at hload
      cases hload
  | starting => cases (h.announce (.inl hphase)).symm.trans (hstill .announce)
  | announcing => cases (h.announce (.inr hphase)).symm.trans (hstill .announce)
  | waiting =>
      refine .inr (.inl ⟨hphase, ?_⟩)
      cases hslot : (pool.workers workerId).jobRx with
      | none => rfl
      | some job =>
          have htake := hstill .take
          simp only [WorkerPool.step, hphase, hslot] at htake
          cases htake
  | running job =>
      have hfail := hstill (.fail (.other ""))
      simp only [WorkerPool.step, hphase] at hfail
      cases hfail
  | refusing error =>
      refine .inr (.inr ⟨.inl ⟨error, hphase⟩, ?_⟩)
      have hrefuse := hstill .refuse
      simp only [WorkerPool.step, hphase] at hrefuse
      refine not_lt.mp fun hroom => ?_
      rw [if_pos hroom] at hrefuse
      cases hrefuse
  | answering outcome =>
      refine .inr (.inr ⟨.inr ⟨outcome, hphase⟩, ?_⟩)
      have hanswer := hstill .answer
      simp only [WorkerPool.step, hphase] at hanswer
      refine not_lt.mp fun hroom => ?_
      rw [if_pos hroom] at hanswer
      cases hanswer

/-- A thread that has ended takes no step. -/
theorem step_eq_none_of_ended (hended : (pool.workers workerId).phase.receives = false)
    (event : WorkerEvent) : pool.step workerId event = none := by
  cases hphase : (pool.workers workerId).phase with
  | stopped | panicked => cases event <;> simp [WorkerPool.step, hphase]
  | _ => simp [hphase, WorkerPhase.receives] at hended

theorem step_eq_none_of_idle (hidle : Idle (pool.workers workerId)) (event : WorkerEvent) :
    pool.step workerId event = none := by
  obtain ⟨hphase, hslot⟩ := hidle
  cases event <;> simp [WorkerPool.step, hphase, hslot]

theorem Sends.receives {worker : NpuWorker} (h : Sends worker) : worker.phase.receives = true := by
  obtain ⟨error, hphase⟩ | ⟨outcome, hphase⟩ := h <;> rw [hphase] <;> rfl

theorem Sends.owes {worker : NpuWorker} (h : Sends worker) : 1 ≤ worker.owes := by
  obtain ⟨error, hphase⟩ | ⟨outcome, hphase⟩ := h <;>
    simp [NpuWorker.owes, hphase, WorkerPhase.owes]

/-- A worker that waits for a job has announced itself. -/
theorem Conserves.mem_of_idle (h : pool.Conserves) (hidle : Idle (pool.workers workerId)) :
    workerId ∈ pool.readyRx := by
  have hworker := h workerId
  rw [NpuWorker.jobs, hidle.1, hidle.2] at hworker
  apply List.count_pos_iff.mp
  change 0 < pool.tokens workerId
  change pool.tokens workerId + 0 = 1 at hworker
  omega

/-- A worker that has ended has nothing to do. -/
theorem Conserves.of_ended (h : pool.Conserves)
    (hended : (pool.workers workerId).phase.receives = false) :
    (pool.workers workerId).jobRx = none ∧ (pool.workers workerId).held = 0 := by
  have hlaw := h workerId
  rw [NpuWorker.jobs] at hlaw
  have hout : (pool.workers workerId).phase.initialised = false := by
    cases hphase : (pool.workers workerId).phase <;> rw [hphase] at hended <;>
      first | rfl | cases hended
  rw [hout, Bool.toNat_false] at hlaw
  have hslot : (pool.workers workerId).jobRx = none := by
    rw [← Option.not_isSome_iff_eq_none, ← Bool.toNat_eq_one]
    omega
  refine ⟨hslot, ?_⟩
  rw [NpuWorker.held, hslot]
  cases hphase : (pool.workers workerId).phase <;> rw [hphase] at hended <;>
    first | rfl | cases hended

/-- Workers that wait for a job or have ended have none. -/
theorem Conserves.held_eq_zero (h : pool.Conserves) (hworkers : ∀ workerId,
    (pool.workers workerId).phase.receives = false ∨ Idle (pool.workers workerId)) :
    pool.held = 0 := by
  refine Finset.sum_eq_zero fun workerId _ => ?_
  obtain hended | hidle := hworkers workerId
  · exact (h.of_ended hended).2
  · rw [NpuWorker.held, hidle.1, hidle.2]
    rfl

theorem rank_receive {result : Except Error NpuResult} {resultRx : List (Except Error NpuResult)}
    (hresults : pool.resultRx = result :: resultRx) :
    rank { pool with resultRx } + 1 = pool.rank := by
  rw [rank, rank, hresults, List.length_cons]
  exact Nat.add_right_comm ..

theorem debt_receive {result : Except Error NpuResult} {resultRx : List (Except Error NpuResult)}
    (hresults : pool.resultRx = result :: resultRx) :
    debt { pool with resultRx } + 1 = pool.debt := by
  rw [debt, debt, hresults, List.length_cons]
  exact Nat.add_right_comm ..

end WorkerPool

end RkWhisper
