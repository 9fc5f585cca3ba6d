import RkWhisper.Proof.PoolProgress

/-!
# Dropping a pool

`drop` joins the threads while the receiver of the results is alive, and nobody reads it. So the
threads can end just when the channel has room for all that they owe. After calls that have succeeded
it has; a call that fails can leave more. A thread that has panicked is joined like any other.
-/

namespace RkWhisper

open Transition

namespace WorkerPool

variable {pool pool' : WorkerPool} {workerId : Fin npuWorkers} {event : WorkerEvent}

/-- The number of threads that have not ended. -/
def alive (pool : WorkerPool) : Nat :=
  ∑ workerId, (pool.workers workerId).phase.receives.toNat

/-- A thread that has ended stays so. -/
theorem ended_step (hstep : pool.step workerId event = some pool') {other : Fin npuWorkers}
    (hended : (pool.workers other).phase.receives = false) :
    (pool'.workers other).phase.receives = false := by
  have hother : other ≠ workerId := by
    rintro rfl
    rw [step_eq_none_of_ended hended] at hstep
    cases hstep
  rwa [workers_of_ne hstep hother]

theorem alive_step (hstep : pool.step workerId event = some pool') : pool'.alive ≤ pool.alive := by
  refine Finset.sum_le_sum fun other _ => ?_
  cases hended : (pool.workers other).phase.receives with
  | false => rw [ended_step hstep hended]
  | true => exact Bool.toNat_le _

end WorkerPool

namespace PoolDrop

open ParallelTranscriberPool (solvent_of_run Waiting)

variable {d d' : PoolDrop} {event : Event}

/-- What a thread that ends changes. -/
theorem closed_cases {workerId : Fin npuWorkers} (hstep : Step d (.closed workerId) d') :
    d.pool.workers workerId = { phase := .waiting, jobRx := none } ∧
      d' = { d with pool := d.pool.put workerId { phase := .stopped, jobRx := none } } := by
  simp only [Step, step] at hstep
  split at hstep
  · rename_i hphase hslot
    obtain rfl := Option.some.inj hstep
    have hworker : d.pool.workers workerId = { phase := .waiting, jobRx := none } := by
      rw [← hphase, ← hslot]
    refine ⟨hworker, ?_⟩
    rw [WorkerPool.setPhase, hworker]
  · cases hstep

theorem join_cases (hstep : Step d .join d') : ∃ hlt : d.joined < npuWorkers,
    (d.pool.workers ⟨d.joined, hlt⟩).phase.receives = false ∧
      d' = { d with joined := d.joined + 1 } := by
  simp only [Step, step] at hstep
  split at hstep
  · rename_i hlt
    obtain ⟨hended, hsome⟩ := Option.ite_none_left_eq_some.mp hstep
    exact ⟨hlt, Bool.eq_false_of_not_eq_true hended, (Option.some.inj hsome).symm⟩
  · cases hstep

/-! ### The threads end -/

def rank (d : PoolDrop) : Nat :=
  d.pool.rank + d.pool.alive + (npuWorkers - d.joined)

theorem rank_step (hstep : Step d event d') : d'.rank < d.rank := by
  cases event with
  | worker workerId event =>
      obtain ⟨pool, hpool, rfl⟩ := Option.map_eq_some_iff.mp hstep
      have hrank := WorkerPool.rank_step hpool
      have halive := WorkerPool.alive_step hpool
      simp only [rank]
      omega
  | closed workerId =>
      obtain ⟨hworker, rfl⟩ := closed_cases hstep
      have hrank := WorkerPool.sum_put NpuWorker.rank d.pool workerId
        { phase := .stopped, jobRx := none }
      have halive := WorkerPool.sum_put (fun worker => worker.phase.receives.toNat) d.pool workerId
        { phase := .stopped, jobRx := none }
      rw [hworker] at hrank halive
      change _ + 0 = _ + 0 at hrank
      change _ + 1 = _ + 0 at halive
      simp only [rank, WorkerPool.rank, WorkerPool.alive]
      change d.pool.resultRx.length + _ + _ + _ < _
      omega
  | join =>
      obtain ⟨hlt, -, rfl⟩ := join_cases hstep
      simp only [rank]
      omega

theorem terminates (d : PoolDrop) : Terminates Step d :=
  terminates_of_rank (P := fun _ => True) rank (fun _ _ _ _ _ => trivial)
    (fun _ _ _ _ hstep => rank_step hstep) trivial

/-- The threads that have been joined have ended. -/
structure Dropping (d : PoolDrop) : Prop where
  announced : d.pool.Announced
  joined : ∀ workerId : Fin npuWorkers, workerId < d.joined →
    (d.pool.workers workerId).phase.receives = false
  bound : d.joined ≤ npuWorkers
  room : d.pool.resultRx.length ≤ npuWorkers

theorem Dropping.step (h : Dropping d) (hstep : Step d event d') : Dropping d' := by
  cases event with
  | worker workerId event =>
      obtain ⟨pool, hpool, rfl⟩ := Option.map_eq_some_iff.mp hstep
      refine ⟨h.announced.step hpool, fun other hother => ?_, h.bound,
        WorkerPool.room_step hpool h.room⟩
      exact WorkerPool.ended_step hpool (h.joined other hother)
  | closed workerId =>
      obtain ⟨hworker, rfl⟩ := closed_cases hstep
      have hothers : ∀ other ≠ workerId, (d.pool.put workerId
          { phase := .stopped, jobRx := none }).workers other = d.pool.workers other :=
        fun other hother => WorkerPool.put_of_ne _ _ hother
      refine ⟨⟨fun other => ?_, fun other hjob => ?_⟩, fun other hother => ?_, h.bound, h.room⟩
      · have hbefore := h.announced.tokens other
        change d.pool.tokens other + _ ≤ 1
        by_cases hself : other = workerId
        · subst hself
          rw [hworker] at hbefore
          rwa [WorkerPool.put_self]
        · rwa [hothers other hself]
      · by_cases hself : other = workerId
        · subst hself
          rw [WorkerPool.put_self] at hjob
          cases hjob
        · rw [hothers other hself] at hjob ⊢
          exact h.announced.queue other hjob
      · by_cases hself : other = workerId
        · subst hself
          rw [WorkerPool.put_self]
          rfl
        · rw [hothers other hself]
          exact h.joined other hother
  | join =>
      obtain ⟨hlt, hphase, rfl⟩ := join_cases hstep
      refine ⟨h.announced, fun other hother => ?_, hlt, h.room⟩
      obtain hbefore | hthis := Nat.lt_succ_iff_lt_or_eq.mp hother
      · exact h.joined other hbefore
      · rwa [show other = ⟨d.joined, hlt⟩ from Fin.ext hthis]

theorem Dropping.of_run {events : List Event} (h : Dropping d) (hrun : Run Step d events d') :
    Dropping d' :=
  hrun.invariant (P := fun _ => Dropping) h fun _ _ _ _ hinv hstep => hinv.step hstep

/-! ### What they owe -/

theorem debt_closed {workerId : Fin npuWorkers} (hstep : Step d (.closed workerId) d') :
    d'.pool.debt = d.pool.debt := by
  obtain ⟨hworker, rfl⟩ := closed_cases hstep
  have hsum := WorkerPool.sum_put NpuWorker.owes d.pool workerId
    { phase := .stopped, jobRx := none }
  rw [hworker] at hsum
  exact congrArg (d.pool.resultRx.length + ·) hsum

theorem debt_step (hstep : Step d event d') : d'.pool.debt ≤ d.pool.debt := by
  cases event with
  | worker workerId event =>
      obtain ⟨pool, hpool, rfl⟩ := Option.map_eq_some_iff.mp hstep
      exact WorkerPool.debt_step hpool
  | closed workerId => exact (debt_closed hstep).le
  | join =>
      obtain ⟨-, -, rfl⟩ := join_cases hstep
      exact le_rfl

theorem debt_run {events : List Event} (hrun : Run Step d events d') :
    d'.pool.debt ≤ d.pool.debt :=
  hrun.invariant (P := fun _ d' => d'.pool.debt ≤ d.pool.debt) le_rfl
    fun _ _ _ _ hinv hstep => (debt_step hstep).trans hinv

/-- **Where the threads stop**: all have ended and are joined, just when the channel had room for what
they owe. -/
theorem Dropping.returned_iff (h : Dropping d) (hfinal : Final Step d) :
    d.Returned ↔ d.pool.debt ≤ npuWorkers := by
  have hworkers : ∀ workerId, (d.pool.workers workerId).phase.receives = false ∨
      (WorkerPool.Sends (d.pool.workers workerId) ∧ npuWorkers ≤ d.pool.resultRx.length) := by
    intro workerId
    have hstill : ∀ event, d.pool.step workerId event = none := by
      intro event
      by_contra hsome
      obtain ⟨pool, hpool⟩ := Option.ne_none_iff_exists'.mp hsome
      refine hfinal (.worker workerId event) { d with pool } ?_
      simp [Step, PoolDrop.step, hpool]
    refine (h.announced.still hstill).imp_right fun hrest => hrest.resolve_left ?_
    rintro ⟨hphase, hslot⟩
    refine hfinal (.closed workerId) { d with pool := d.pool.setPhase workerId .stopped } ?_
    simp [Step, PoolDrop.step, hphase, hslot]
  constructor
  · intro hreturned
    have hended : ∀ workerId, (d.pool.workers workerId).owes = 0 := by
      intro workerId
      have hended := h.joined workerId (hreturned.symm ▸ workerId.isLt)
      have hslot : (d.pool.workers workerId).jobRx.isSome = false := by
        rw [← Bool.not_eq_true]
        intro hsome
        rw [h.announced.queue workerId hsome] at hended
        cases hended
      rw [NpuWorker.owes, hslot]
      cases hphase : (d.pool.workers workerId).phase <;> rw [hphase] at hended <;>
        first | rfl | cases hended
    rw [WorkerPool.debt, Finset.sum_eq_zero fun workerId _ => hended workerId]
    exact h.room
  · intro hdebt
    have hended : ∀ workerId, (d.pool.workers workerId).phase.receives = false := by
      intro workerId
      refine (hworkers workerId).resolve_right ?_
      rintro ⟨hsends, hfull⟩
      have howes := hsends.owes
      have hsum := Finset.single_le_sum (f := fun workerId => (d.pool.workers workerId).owes)
        (fun _ _ => Nat.zero_le _) (Finset.mem_univ workerId)
      rw [WorkerPool.debt] at hdebt
      omega
    by_contra hmore
    have hlt : d.joined < npuWorkers := lt_of_le_of_ne h.bound hmore
    refine hfinal .join { d with joined := d.joined + 1 } ?_
    simp [Step, PoolDrop.step, hlt, hended]

/-- The steps of threads whose models do not load and whose jobs do not panic. -/
structure FailingStep (d : PoolDrop) (event : Event) (d' : PoolDrop) : Prop where
  step : Step d event d'
  load : ∀ workerId, event ≠ .worker workerId (.load (.ok ()))
  panic : ∀ workerId, event ≠ .worker workerId .panic

theorem debt_failing {events : List Event} (hrun : Run FailingStep d events d') :
    d'.pool.debt = d.pool.debt := by
  refine hrun.invariant (P := fun _ d' => d'.pool.debt = d.pool.debt) rfl ?_
  rintro _ before event after hinv ⟨hstep, hload, hpanic⟩
  refine Eq.trans ?_ hinv
  cases event with
  | worker workerId event =>
      obtain ⟨pool, hpool, rfl⟩ := Option.map_eq_some_iff.mp hstep
      refine WorkerPool.debt_step_eq hpool ?_ ?_
      · rintro rfl
        exact hload workerId rfl
      · rintro rfl
        exact hpanic workerId rfl
  | closed workerId => exact debt_closed hstep
  | join =>
      obtain ⟨-, -, rfl⟩ := join_cases hstep
      rfl

/-- A model that could load could also fail to, and a job that could panic could also fail. -/
theorem final_of_failing (hfinal : Final FailingStep d) : Final Step d := by
  intro event d' hstep
  by_cases hload : ∃ workerId, event = .worker workerId (.load (.ok ()))
  · obtain ⟨workerId, rfl⟩ := hload
    obtain ⟨pool, hpool, -⟩ := Option.map_eq_some_iff.mp hstep
    have hphase : (d.pool.workers workerId).phase = .loading := by
      simp only [WorkerPool.step] at hpool
      split at hpool
      · assumption
      · assumption
      · cases hpool
    refine hfinal (.worker workerId (.load (.error (.other ""))))
      { d with pool := d.pool.setPhase workerId (.refusing (.other "")) } ⟨?_, ?_, ?_⟩
    · simp [Step, step, WorkerPool.step, hphase]
    · rintro other ⟨⟩
    · rintro other ⟨⟩
  · by_cases hpanic : ∃ workerId, event = .worker workerId .panic
    · obtain ⟨workerId, rfl⟩ := hpanic
      obtain ⟨pool, hpool, -⟩ := Option.map_eq_some_iff.mp hstep
      simp only [WorkerPool.step] at hpool
      split at hpool
      · rename_i job hphase
        refine hfinal (.worker workerId (.fail (.other "")))
          { d with pool := d.pool.setPhase workerId (.answering (.failed job (.other ""))) }
          ⟨?_, ?_, ?_⟩
        · simp [Step, step, WorkerPool.step, hphase]
        · rintro other ⟨⟩
        · rintro other ⟨⟩
      · cases hpool
    · exact hfinal event d' ⟨hstep, fun workerId heq => hload ⟨workerId, heq⟩,
        fun workerId heq => hpanic ⟨workerId, heq⟩⟩

theorem dropping_of_run {s : ParallelTranscriberPool} {events : List ParallelTranscriberPool.Event}
    (h : Run ParallelTranscriberPool.Step {} events s) : Dropping { pool := s.pool } := by
  have hsolvent := solvent_of_run h
  exact ⟨hsolvent.conserves.announced, fun _ hlt => absurd hlt (Nat.not_lt_zero _), Nat.zero_le _,
    hsolvent.room⟩

/-- Where all results find room, `drop` returns. -/
theorem returned_of_debt_le {s : ParallelTranscriberPool}
    {events : List ParallelTranscriberPool.Event} (h : Run ParallelTranscriberPool.Step {} events s)
    (hdebt : s.pool.debt ≤ npuWorkers) {more : List Event} {d : PoolDrop}
    (hrun : Run Step { pool := s.pool } more d) (hfinal : Final Step d) : d.Returned :=
  (((dropping_of_run h).of_run hrun).returned_iff hfinal).mpr ((debt_run hrun).trans hdebt)

/-- **When `drop` returns.** Wherever the calls have left the pool, no run of its threads goes on for
ever; and every run that goes on as long as it can ends with all threads joined if and only if the
results in the channel and those still owed find room in it. -/
theorem drop_returns_iff {s : ParallelTranscriberPool}
    {events : List ParallelTranscriberPool.Event} (h : Run ParallelTranscriberPool.Step {} events s) :
    Terminates Step { pool := s.pool } ∧
      ((∀ more d, Run Step { pool := s.pool } more d → Final Step d → d.Returned) ↔
        s.pool.debt ≤ npuWorkers) := by
  refine ⟨terminates _, ?_, fun hdebt _ _ => returned_of_debt_le h hdebt⟩
  intro hreturns
  have hterminates : Terminates FailingStep { pool := s.pool } :=
    terminates_of_rank (P := fun _ => True) rank (fun _ _ _ _ _ => trivial)
      (fun _ _ _ _ hstep => rank_step hstep.step) trivial
  obtain ⟨more, d, hrun, hfinal⟩ := hterminates.exists_final
  have hall := hrun.mono fun _ _ _ hstep => hstep.step
  have hlast := final_of_failing hfinal
  rw [← debt_failing hrun]
  exact (((dropping_of_run h).of_run hall).returned_iff hlast).mp (hreturns more d hall hlast)

/-- Five windows. -/
def fiveSegments : List VadSegment :=
  ParallelTranscriberPool.fourSegments ++
    [⟨1920004, 1920005, samplesToSec 1920004, samplesToSec 1920005⟩]

def fiveAudio : List F32 := List.replicate 1920005 (F32.ofNat 1)

/-- The first of five windows fails, with two results in the channel and two windows at work. -/
def failedEvents : List ParallelTranscriberPool.Event :=
  [.worker 0 (.load (.ok ())), .worker 1 (.load (.ok ())), .worker 2 (.load (.ok ())),
    .worker 0 .announce, .worker 1 .announce, .worker 2 .announce,
    .call fiveAudio fiveSegments (.ofHeader {}) fun _ _ => .ok (), .dispatch, .dispatch, .dispatch,
    .worker 0 .take, .worker 0 (.fail (.other "")), .worker 0 .answer, .worker 0 .announce,
    .worker 1 .take, .worker 1 (.transcribe "" []), .worker 1 .answer, .worker 1 .announce,
    .worker 2 .take, .worker 2 (.transcribe "" []), .worker 2 .answer, .dispatch, .dispatch,
    .receive, .join]

/-- A pool that `drop` does not get rid of. -/
theorem drop_returns_iff_failed : ∃ s,
    Run ParallelTranscriberPool.Step {} failedEvents s ∧ s.call = none ∧
    Terminates Step { pool := s.pool } ∧
    ∃ more d, Run Step { pool := s.pool } more d ∧ Final Step d ∧ ¬ d.Returned := by
  have hrun : ((failedEvents.foldlM ParallelTranscriberPool.step
      ({} : ParallelTranscriberPool)).map fun s => (s.call.isNone, s.pool.debt)) =
      some (true, 4) := by
    decide +kernel
  obtain ⟨s, hfold, hview⟩ := Option.map_eq_some_iff.mp hrun
  simp only [Prod.mk.injEq, Option.isNone_iff_eq_none] at hview
  have h : Run ParallelTranscriberPool.Step {} failedEvents s :=
    Run.of_foldlM (fun _ _ _ hstep => hstep) hfold
  obtain ⟨hterminates, hiff⟩ := drop_returns_iff h
  refine ⟨s, h, hview.1, hterminates, ?_⟩
  have hhangs := mt hiff.mp (by rw [hview.2]; decide)
  simpa only [not_forall, exists_prop] using hhangs

end PoolDrop

/-! ### Behind calls that have succeeded -/

namespace ParallelTranscriberPool

variable {s s' : ParallelTranscriberPool} {event : Event}

def Succeeded (s : ParallelTranscriberPool) : Prop :=
  ∀ returned ∈ s.returned, ∃ transcription, returned.result = .ok transcription

theorem succeeded_of_all (hall : s.returned.all (fun returned => returned.result.toOption.isSome) =
    true) : Succeeded s := by
  intro returned hmem
  have hsome := List.all_eq_true.mp hall returned hmem
  cases hresult : returned.result with
  | ok transcription => exact ⟨transcription, rfl⟩
  | error error =>
      rw [hresult] at hsome
      cases hsome

/-- Between the calls the pool owes what the channel has room for. -/
structure Paid (s : ParallelTranscriberPool) : Prop where
  between : s.call = none → s.pool.debt ≤ npuWorkers
  during : ∀ call, s.call = some call → call.collector.failed = none →
    Waiting npuWorkers s.pool call

theorem Paid.of_between (hcall : s.call = none) (hdebt : s.pool.debt ≤ npuWorkers) : Paid s where
  between _ := hdebt
  during call hsome := by
    rw [hcall] at hsome
    cases hsome

theorem Paid.of_during {call : PoolCall} (hcall : s.call = some call)
    (hwaiting : call.collector.failed = none → Waiting npuWorkers s.pool call) : Paid s where
  between hnone := by
    rw [hcall] at hnone
    cases hnone
  during other hother := by
    obtain rfl := Option.some.inj (hcall.symm.trans hother)
    exact hwaiting

theorem succeeded_returnCall {call : PoolCall} {result : Except Error Transcription}
    (h : Succeeded (s.returnCall call result)) :
    Succeeded s ∧ ∃ transcription, result = .ok transcription := by
  refine ⟨fun returned hmem => h returned (List.mem_append_left _ hmem), ?_⟩
  exact h _ (List.mem_append_right _ (List.mem_singleton_self _))

theorem Paid.startCall (h : Paid s) (hcall : s.call = none) (audio : List F32)
    (vadSegments : List VadSegment) (options : TranscribeOptions) (onSegment : SegmentCallback) :
    Paid (s.startCall audio vadSegments options onSegment) := by
  rw [ParallelTranscriberPool.startCall]
  split
  · exact .of_between rfl (h.between hcall)
  · exact .of_during rfl fun _ => waiting_start (h.between hcall) ..

theorem paid_dispatch (h : Succeeded s → Paid s) {call : PoolCall} (hcall : s.call = some call)
    (hfailed : call.collector.failed = none) (hstep : s.dispatch call = some s')
    (hsucceeded : Succeeded s') : Paid s' := by
  rw [ParallelTranscriberPool.dispatch] at hstep
  split at hstep
  · cases hstep
  · split at hstep
    · obtain rfl := Option.some.inj hstep
      obtain ⟨-, transcription, hresult⟩ := succeeded_returnCall hsucceeded
      cases hresult
    · cases hstep
  · rename_i window pending workerId readyRx hpending hready
    split at hstep
    · obtain ⟨pool, hsend, rfl⟩ := Option.map_eq_some_iff.mp hstep
      have hwaiting := (h hsucceeded).during call hcall hfailed
      have htaken : Waiting npuWorkers { s.pool with readyRx } call :=
        ⟨hwaiting.total, hwaiting.windows, hwaiting.missing, hwaiting.credit⟩
      exact .of_during rfl fun _ => htaken.send hpending hsend
    · obtain rfl := Option.some.inj hstep
      obtain ⟨-, transcription, hresult⟩ := succeeded_returnCall hsucceeded
      cases hresult

theorem paid_receive (h : Succeeded s → Paid s) {call : PoolCall} (hcall : s.call = some call)
    (hstep : s.receive call = some s') (hsucceeded : Succeeded s') : Paid s' := by
  rw [ParallelTranscriberPool.receive] at hstep
  split at hstep
  · cases hstep
  · rename_i hdone
    have hfailed : call.collector.failed = none := by
      by_contra hsome
      exact hdone (Collector.done_eq_true.mpr (.inl hsome))
    split at hstep
    · split at hstep
      · obtain rfl := Option.some.inj hstep
        refine .of_during rfl fun hnone => ?_
        cases hnone
      · cases hstep
    · rename_i result resultRx hresults
      obtain rfl := Option.some.inj hstep
      exact .of_during rfl
        (((h hsucceeded).during call hcall hfailed).receive hresults)

theorem paid_step (h : Succeeded s → Paid s) (hstep : Step s event s') (hsucceeded : Succeeded s') :
    Paid s' := by
  simp only [Step, step] at hstep
  cases event with
  | call audio vadSegments options onSegment =>
      simp only at hstep
      split at hstep
      · rename_i hcall
        obtain rfl := Option.some.inj hstep
        refine (h fun returned hmem => hsucceeded returned ?_).startCall hcall ..
        rw [startCall]
        split
        · exact List.mem_append_left _ hmem
        · exact hmem
      · cases hstep
  | dispatch =>
      obtain ⟨call, hcall, hdispatch⟩ := Option.bind_eq_some_iff.mp hstep
      split at hdispatch
      · cases hdispatch
      · rename_i hfailed
        exact paid_dispatch h hcall (Option.not_isSome_iff_eq_none.mp hfailed) hdispatch hsucceeded
  | receive =>
      obtain ⟨call, hcall, hreceive⟩ := Option.bind_eq_some_iff.mp hstep
      exact paid_receive h hcall hreceive hsucceeded
  | join =>
      obtain ⟨call, hcall, hjoin⟩ := Option.bind_eq_some_iff.mp hstep
      obtain ⟨hready, rfl⟩ := Option.ite_some_none_eq_some.mp hjoin
      obtain ⟨hbefore, transcription, hresult⟩ := succeeded_returnCall hsucceeded
      have hfailed : call.collector.failed = none := by
        cases hsome : call.collector.failed with
        | none => rfl
        | some error =>
            rw [Collector.result, hsome] at hresult
            cases hresult
      refine .of_between rfl ?_
      obtain hsome | ⟨hdone, hpending⟩ := hready
      · rw [hfailed] at hsome
        cases hsome
      · have hle := (Collector.done_eq_true.mp hdone).resolve_left fun hsome => hsome hfailed
        have hcredit := ((h hbefore).during call hcall hfailed).credit
        change s.pool.debt ≤ npuWorkers
        omega
  | worker workerId event =>
      obtain ⟨pool, hpool, rfl⟩ := Option.map_eq_some_iff.mp hstep
      have hpaid := h hsucceeded
      refine ⟨fun hcall => (WorkerPool.debt_step hpool).trans (hpaid.between hcall), ?_⟩
      intro call hcall hfailed
      exact (hpaid.during call hcall hfailed).worker hpool

theorem paid_of_run {events : List Event}
    (h : Run Step ({} : ParallelTranscriberPool) events s) : Succeeded s → Paid s := by
  refine h.invariant (P := fun _ s => Succeeded s → Paid s) (fun _ => .of_between rfl ?_)
    fun _ _ _ _ hinv hstep => paid_step hinv hstep
  decide

end ParallelTranscriberPool

namespace PoolDrop

open ParallelTranscriberPool (Succeeded paid_of_run)

/-- **`drop` returns behind calls that have succeeded**, however many there have been and however the
threads go on; so a recording is transcribed by a pool of its own and the pool is gone. -/
theorem drop_returns_behind_successes {s : ParallelTranscriberPool}
    {events : List ParallelTranscriberPool.Event} (h : Run ParallelTranscriberPool.Step {} events s)
    (hcall : s.call = none) (hsucceeded : Succeeded s) :
    Terminates Step { pool := s.pool } ∧
      ∀ more d, Run Step { pool := s.pool } more d → Final Step d → d.Returned := by
  have hdebt : s.pool.debt ≤ npuWorkers := (paid_of_run h hsucceeded).between hcall
  exact ⟨terminates _, fun _ _ => returned_of_debt_le h hdebt⟩

/-- A pool that has answered one call. -/
theorem drop_returns_behind_successes_resting : ∃ s more d,
    Run ParallelTranscriberPool.Step {} ParallelTranscriberPool.restingEvents s ∧
      s.returned.length = 1 ∧ Run Step { pool := s.pool } more d ∧ d.Returned := by
  have hrun : ((ParallelTranscriberPool.restingEvents.foldlM ParallelTranscriberPool.step
      ({} : ParallelTranscriberPool)).map fun s => (s.call.isNone, s.returned.length,
        s.returned.all fun returned => returned.result.toOption.isSome)) =
      some (true, 1, true) := by
    decide +kernel
  obtain ⟨s, hfold, hview⟩ := Option.map_eq_some_iff.mp hrun
  simp only [Prod.mk.injEq, Option.isNone_iff_eq_none] at hview
  obtain ⟨hcall, hlength, hall⟩ := hview
  have h : Run ParallelTranscriberPool.Step {} ParallelTranscriberPool.restingEvents s :=
    Run.of_foldlM (fun _ _ _ hstep => hstep) hfold
  have hsucceeded := ParallelTranscriberPool.succeeded_of_all hall
  obtain ⟨hterminates, hreturns⟩ := drop_returns_behind_successes h hcall hsucceeded
  obtain ⟨more, d, hmore, hfinal⟩ := hterminates.exists_final
  exact ⟨s, more, d, h, hlength, hmore, hreturns more d hmore hfinal⟩

end PoolDrop

end RkWhisper
