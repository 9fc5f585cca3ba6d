import RkWhisper.PoolVad
import RkWhisper.Proof.PoolDrop

/-!
# Voice activity by the workers is that of the offline loop

At most one window is under way, with the state that the windows before it have left. So whatever
workers take the windows, and whatever an earlier transcription has left in the channels, the segments
are those that the offline loop finds.
-/

namespace RkWhisper

open Transition

/-! ### Windows under way -/

def NpuJob.vadOf : NpuJob → Option VadJob
  | .vad job => some job
  | .whisper _ => none

def vadResultOf : Except Error NpuResult → Option VadResult
  | .ok (.vad result) => some result
  | _ => none

/-- The thread reports what the model makes of its window. -/
def WorkerOutcome.Honest (vad : Option VadModel) : WorkerOutcome → Prop
  | .classified job probability state => VadModel.runVad vad job = .ok (probability, state)
  | .failed (.vad job) error => VadModel.runVad vad job = .error error
  | .failed (.whisper _) _ | .transcribed .. => True

def WorkerPhase.Honest (vad : Option VadModel) : WorkerPhase → Prop
  | .answering outcome => outcome.Honest vad
  | _ => True

namespace WorkerPool

variable {pool pool' : WorkerPool} {workerId : Fin npuWorkers} {event : WorkerEvent}
  {vad : Option VadModel}

/-- What a thread computes of a window is what the model makes of it, and no panic. -/
def Computes (vad : Option VadModel) (pool : WorkerPool) (workerId : Fin npuWorkers) :
    WorkerEvent → Prop
  | .classify probability state => ∀ job, (pool.workers workerId).phase = .running (.vad job) →
      VadModel.runVad vad job = .ok (probability, state)
  | .fail error => ∀ job, (pool.workers workerId).phase = .running (.vad job) →
      VadModel.runVad vad job = .error error
  | .panic => ∀ job, (pool.workers workerId).phase ≠ .running (.vad job)
  | _ => True

def Honest (vad : Option VadModel) (pool : WorkerPool) : Prop :=
  ∀ workerId, (pool.workers workerId).phase.Honest vad

theorem Honest.change (h : pool.Honest vad) {worker : NpuWorker}
    (hworkers : pool'.workers = (pool.put workerId worker).workers)
    (hworker : worker.phase.Honest vad) : pool'.Honest vad := by
  intro other
  rw [hworkers]
  by_cases hother : other = workerId
  · subst hother
    rwa [put_self]
  · rw [put_of_ne _ _ hother]
    exact h other

theorem Honest.step (h : pool.Honest vad) (hcomputes : pool.Computes vad workerId event)
    (hstep : pool.step workerId event = some pool') : pool'.Honest vad := by
  cases event with
  | load | take | transcribe | announce | refuse | answer | panic =>
      simp only [WorkerPool.step] at hstep
      split at hstep
      all_goals first
        | cases hstep
        | obtain ⟨-, rfl⟩ := Option.ite_some_none_eq_some.mp hstep
      all_goals exact h.change rfl trivial
  | classify probability state =>
      simp only [WorkerPool.step] at hstep
      split at hstep
      · rename_i job hphase
        cases hstep
        exact h.change rfl (hcomputes job hphase)
      · cases hstep
  | fail error =>
      simp only [WorkerPool.step] at hstep
      split at hstep
      · rename_i job hphase
        cases hstep
        refine h.change rfl ?_
        cases job with
        | vad job => exact hcomputes job hphase
        | whisper job => trivial
      · cases hstep

/-- The windows at the workers. -/
def vadJobs (pool : WorkerPool) : Multiset VadJob :=
  pool.held.filterMap NpuJob.vadOf

/-- Their results in the channel. -/
def vadResults (pool : WorkerPool) : List VadResult :=
  pool.resultRx.filterMap vadResultOf

/-- No window is under way. -/
structure NoVad (pool : WorkerPool) : Prop where
  jobs : pool.vadJobs = 0
  results : pool.vadResults = []

theorem NoVad.of_eq (h : pool.NoVad) (hheld : pool'.held = pool.held)
    (hresults : pool'.resultRx = pool.resultRx) : pool'.NoVad where
  jobs := by
    rw [vadJobs, hheld]
    exact h.jobs
  results := by
    rw [vadResults, hresults]
    exact h.results

/-- A window stays where it is, or its result goes into the channel, or an error does. -/
theorem vad_step (h : pool.Honest vad) (hcomputes : pool.Computes vad workerId event)
    (hstep : pool.step workerId event = some pool') :
    (pool'.vadJobs = pool.vadJobs ∧ pool'.vadResults = pool.vadResults) ∨
    ∃ job, pool.vadJobs = job ::ₘ pool'.vadJobs ∧
      ((∃ probability state, VadModel.runVad vad job = .ok (probability, state) ∧
          pool'.vadResults = pool.vadResults ++ [job.answer probability state]) ∨
        (∃ error, VadModel.runVad vad job = .error error) ∧ pool'.vadResults = pool.vadResults ∧
          ∃ error, .error error ∈ pool'.resultRx) := by
  obtain ⟨-, -, -, worker, hquiet, heq⟩ | ⟨-, hphase, heq⟩ | ⟨-, error, hphase, heq⟩ |
    ⟨-, outcome, hphase, heq⟩ | ⟨rfl, job, hphase, heq⟩ := step_cases hstep
  · refine .inl ⟨?_, by rw [heq]; rfl⟩
    rw [vadJobs, vadJobs, held_eq_of_eq (by rw [heq]) hquiet.held]
  · refine .inl ⟨?_, by rw [heq]; rfl⟩
    have hheld : NpuWorker.held { pool.workers workerId with phase := .waiting } =
        (pool.workers workerId).held := by
      obtain hphase | hphase := hphase <;> simp [NpuWorker.held, hphase]
    rw [vadJobs, vadJobs, held_eq_of_eq (by rw [heq]; rfl) hheld]
  · refine .inl ⟨?_, ?_⟩
    · have hheld : NpuWorker.held { pool.workers workerId with phase := .stopped } =
          (pool.workers workerId).held := by
        simp [NpuWorker.held, hphase]
      rw [vadJobs, vadJobs, held_eq_of_eq (by rw [heq]; rfl) hheld]
    · rw [heq, vadResults, List.filterMap_append]
      exact List.append_nil _
  · have hhonest := h workerId
    rw [hphase] at hhonest
    have hheld := held_answer hphase heq
    have hresults : pool'.vadResults =
        pool.vadResults ++ (vadResultOf (outcome.result workerId)).toList := by
      rw [heq, vadResults, List.filterMap_append, List.filterMap_cons, List.filterMap_nil]
      cases vadResultOf (outcome.result workerId) <;> rfl
    have hjobs : pool.vadJobs = pool'.vadJobs + Multiset.filterMap NpuJob.vadOf {outcome.job} := by
      rw [vadJobs, ← hheld, Multiset.filterMap_add]
      rfl
    have hsent : outcome.result workerId ∈ pool'.resultRx := by
      rw [heq]
      exact List.mem_append_right _ (List.mem_singleton_self _)
    have hlost : ∀ job, pool'.vadJobs + Multiset.filterMap NpuJob.vadOf {.vad job} =
        job ::ₘ pool'.vadJobs := fun job => by
      rw [← Multiset.singleton_add, add_comm]
      rfl
    cases outcome with
    | transcribed job text segments => exact .inl ⟨(hjobs.trans (add_zero _)).symm, by
        rw [hresults]; exact List.append_nil _⟩
    | classified job probability state =>
        exact .inr ⟨job, hjobs.trans (hlost job), .inl ⟨probability, state, hhonest, hresults⟩⟩
    | failed job error =>
        have hsame : pool'.vadResults = pool.vadResults := by
          rw [hresults]
          exact List.append_nil _
        cases job with
        | whisper job => exact .inl ⟨(hjobs.trans (add_zero _)).symm, hsame⟩
        | vad job =>
            exact .inr ⟨job, hjobs.trans (hlost job), .inr ⟨⟨error, hhonest⟩, hsame, _, hsent⟩⟩
  · refine .inl ⟨?_, by rw [heq]; rfl⟩
    cases job with
    | vad job => exact absurd hphase (hcomputes job)
    | whisper job =>
        rw [vadJobs, vadJobs, ← held_panic hphase, ← heq, Multiset.filterMap_add]
        exact (add_zero _).symm

/-- No thread has a window at work. -/
theorem NoVad.not_running (h : pool.NoVad) (workerId : Fin npuWorkers) (job : VadJob) :
    (pool.workers workerId).phase ≠ .running (.vad job) := by
  intro hphase
  have hheld : NpuJob.vad job ∈ pool.held := by
    refine Multiset.mem_of_le (Finset.single_le_sum (f := fun workerId =>
      (pool.workers workerId).held) (fun _ _ => Multiset.zero_le _) (Finset.mem_univ workerId)) ?_
    rw [NpuWorker.held, hphase]
    exact Multiset.mem_add.mpr (.inr (Multiset.mem_singleton_self _))
  have hmem : job ∈ pool.vadJobs :=
    (Multiset.mem_filterMap ..).mpr ⟨.vad job, hheld, rfl⟩
  rw [h.jobs] at hmem
  exact Multiset.notMem_zero _ hmem

theorem NoVad.step (h : pool.NoVad) (hhonest : pool.Honest vad)
    (hcomputes : pool.Computes vad workerId event)
    (hstep : pool.step workerId event = some pool') : pool'.NoVad := by
  obtain ⟨hjobs, hresults⟩ | ⟨job, hjobs, -⟩ := vad_step hhonest hcomputes hstep
  · exact ⟨hjobs.trans h.jobs, hresults.trans h.results⟩
  · rw [h.jobs] at hjobs
    exact absurd hjobs (Multiset.cons_ne_zero).symm

/-- `job` is the one window under way: at a worker, or answered, or it has failed. -/
def UnderWay (vad : Option VadModel) (pool : WorkerPool) (job : VadJob) : Prop :=
  (pool.vadJobs = {job} ∧ pool.vadResults = []) ∨
  (pool.vadJobs = 0 ∧ ∃ probability state, VadModel.runVad vad job = .ok (probability, state) ∧
    pool.vadResults = [job.answer probability state]) ∨
  (pool.vadJobs = 0 ∧ pool.vadResults = [] ∧ ∃ error, .error error ∈ pool.resultRx)

theorem UnderWay.step {job : VadJob} (h : pool.UnderWay vad job) (hhonest : pool.Honest vad)
    (hcomputes : pool.Computes vad workerId event)
    (hstep : pool.step workerId event = some pool') : pool'.UnderWay vad job := by
  obtain ⟨hjobs, hresults⟩ | ⟨other, hjobs, hanswer⟩ := vad_step hhonest hcomputes hstep
  · rw [UnderWay, hjobs, hresults]
    refine h.imp_right (Or.imp_right fun ⟨hnone, hempty, error, hmem⟩ => ?_)
    exact ⟨hnone, hempty, error, resultRx_step hstep hmem⟩
  · obtain ⟨hone, hempty⟩ | ⟨hnone, -⟩ | ⟨hnone, -⟩ := h
    · obtain ⟨rfl, hnone⟩ : other = job ∧ pool'.vadJobs = 0 := by
        obtain ⟨hsame, hnone⟩ := (Multiset.singleton_eq_cons_iff _).mp (hone.symm.trans hjobs)
        exact ⟨hsame.symm, hnone⟩
      obtain ⟨probability, state, hrun, hresults⟩ | ⟨-, hresults, herror⟩ := hanswer
      · refine .inr (.inl ⟨hnone, probability, state, hrun, ?_⟩)
        rw [hresults, hempty, List.nil_append]
      · exact .inr (.inr ⟨hnone, hresults.trans hempty, herror⟩)
    all_goals
      rw [hnone] at hjobs
      exact absurd hjobs (Multiset.cons_ne_zero).symm

/-- A window that is sent is the only one. -/
theorem NoVad.send (h : pool.NoVad) {job : VadJob}
    (hsend : pool.send workerId (.vad job) = some pool') : pool'.UnderWay vad job := by
  obtain ⟨hheld, -⟩ := held_send hsend
  obtain ⟨-, rfl⟩ := eq_put_of_send hsend
  refine .inl ⟨?_, h.results⟩
  have hjobs := h.jobs
  rw [vadJobs] at hjobs ⊢
  rw [hheld, Multiset.filterMap_add, hjobs, zero_add]
  rfl

end WorkerPool

/-! ### The loop of the offline model -/

namespace VadModel

variable {model : VadModel} {audio : List F32} {config : VadConfig}

theorem tryProbs_concat (front : List Nat) (start : Nat) :
    model.tryProbs audio config (front ++ [start]) =
      (model.tryProbs audio config front).bind fun (probs, state) =>
        (model.speechProbability (window audio config.windowSamples start) state).map
          fun (probability, state) => (probs ++ [(start, probability)], state) := by
  rw [tryProbs, List.foldlM_append]
  refine congrArg (bind _) (funext fun _ => ?_)
  rw [List.foldlM_cons]
  exact bind_pure _

/-- The model that pads a window to this length. -/
def padding (model : VadModel) (windowSamples : Nat) : VadModel :=
  { model with config := { model.config with windowSamples } }

theorem padding_eq (hsame : model.config.windowSamples = config.windowSamples) :
    model.padding config.windowSamples = model := by
  rw [padding, ← hsame]

/-- A worker pads a window as its job says. -/
theorem runVad_vadJob {call : VadCall} (haudio : call.audio = audio) (hconfig : call.config = config)
    (start : Nat) : runVad (some model) (PoolVad.vadJob call start) =
      (model.padding config.windowSamples).speechProbability (window audio config.windowSamples start)
        call.state := by
  subst haudio hconfig
  rfl

end VadModel

namespace PoolVad

open ParallelTranscriberPool (Paid Solvent Succeeded paid_step)

variable {model : VadModel} {audio : List F32} {config : VadConfig} {s s' : PoolVad} {event : Event}

/-- The workers compute what the model does. -/
structure ServedStep (model : VadModel) (s : PoolVad) (event : Event) (s' : PoolVad) : Prop where
  step : Step s event s'
  computes : ∀ workerId workerEvent, event = .worker workerId workerEvent →
    s.pool.Computes (some model) workerId workerEvent

/-- What a pool is like that a call may begin with. -/
structure Clean (model : VadModel) (pool : WorkerPool) : Prop where
  conserves : pool.Conserves
  honest : pool.Honest (some model)
  noVad : pool.NoVad
  debt : pool.debt ≤ npuWorkers

/-- `front` is done; the window behind it is under way, or it is still to be sent. -/
structure Loops (model : VadModel) (audio : List F32) (config : VadConfig) (s : PoolVad)
    (front : List Nat) : Prop where
  conserves : s.pool.Conserves
  honest : s.pool.Honest (some model)
  audio_eq : s.call.audio = audio
  config_eq : s.call.config = config
  probs : (model.padding config.windowSamples).tryProbs audio config front =
    .ok (s.call.probs, s.call.state)
  debt : s.pool.debt ≤ npuWorkers + s.call.waiting.toNat
  idle : s.call.waiting = false → s.pool.NoVad ∧
    Stride.starts config.windowSamples audio.length = front ++ s.call.starts
  waiting : s.call.waiting = true → ∃ start,
    s.pool.UnderWay (some model) (vadJob s.call start) ∧
      Stride.starts config.windowSamples audio.length = front ++ start :: s.call.starts

/-- What is known of a call that has come to an end. -/
structure Ended (model : VadModel) (audio : List F32) (config : VadConfig) (s : PoolVad) : Prop where
  conserves : s.pool.Conserves
  honest : s.pool.Honest (some model)
  result : ∀ segments, s.call.returned = some (.ok segments) →
    (model.padding config.windowSamples).trySegmentsWithConfig audio config = .ok segments ∧
      Clean model s.pool

/-- The call goes on, or it has returned. -/
def Invariant (model : VadModel) (audio : List F32) (config : VadConfig) (s : PoolVad) : Prop :=
  (s.call.returned = none ∧ ∃ front, Loops model audio config s front) ∨
    (s.call.returned ≠ none ∧ Ended model audio config s)

theorem start_eq_some_iff {pool : WorkerPool} : start pool audio config = some s ↔
    1 ≤ config.windowSamples ∧ s =
      { pool
        call := { audio, config, starts := Stride.starts config.windowSamples audio.length } } := by
  rw [start, Option.ite_none_left_eq_some, Nat.one_le_iff_ne_zero, Option.some.injEq, eq_comm (b := s)]

theorem Clean.loops {pool : WorkerPool} (h : Clean model pool)
    (hstart : start pool audio config = some s) : Loops model audio config s [] := by
  obtain ⟨-, rfl⟩ := start_eq_some_iff.mp hstart
  exact
    { conserves := h.conserves
      honest := h.honest
      audio_eq := rfl
      config_eq := rfl
      probs := rfl
      debt := h.debt
      idle := fun _ => ⟨h.noVad, rfl⟩
      waiting := fun hwaiting => by cases hwaiting }

theorem invariant_error (hconserves : s.pool.Conserves) (hhonest : s.pool.Honest (some model))
    (error : Error) : Invariant model audio config (s.returnCall (.error error)) := by
  refine .inr ⟨Option.some_ne_none _, hconserves, hhonest, fun segments hsegments => ?_⟩
  cases Option.some.inj hsegments

/-! ### Steps of the call and of the threads -/

section Steps

variable {front : List Nat}

theorem Loops.dispatch (h : Loops model audio config s front) (hnone : s.call.returned = none)
    (hwaiting : s.call.waiting = false) (hstep : s.dispatch = some s') :
    Invariant model audio config s' := by
  rw [PoolVad.dispatch] at hstep
  split at hstep
  · cases hstep
  · split at hstep
    · obtain rfl := Option.some.inj hstep
      exact invariant_error h.conserves h.honest _
    · cases hstep
  · rename_i start starts workerId readyRx hstarts hready
    have hsend := h.conserves.send_first hready (.vad (vadJob s.call start))
    have hreceives : (s.pool.workers workerId).phase.receives = true := by
      rw [(h.conserves.first hready).1]
      rfl
    simp only [if_pos hreceives, hsend, Option.map_some] at hstep
    obtain rfl := Option.some.inj hstep
    obtain ⟨hnoVad, hrest⟩ := h.idle hwaiting
    have htaken : WorkerPool.NoVad { s.pool with readyRx } := hnoVad.of_eq rfl rfl
    have hdebt := @WorkerPool.debt_send { s.pool with readyRx } _ _ _ hsend
    refine .inl ⟨hnone, front, ?_⟩
    exact
      { conserves := h.conserves.sent hready _
        honest := @WorkerPool.Honest.change s.pool _ _ _ h.honest _ rfl trivial
        audio_eq := h.audio_eq
        config_eq := h.config_eq
        probs := h.probs
        debt := by
          have hbefore := h.debt
          rw [hwaiting] at hbefore
          exact hdebt.trans_le (Nat.succ_le_succ hbefore)
        idle := fun hidle => by cases hidle
        waiting := fun _ => ⟨start, htaken.send hsend, hrest.trans (by rw [hstarts])⟩ }

theorem Loops.receive (h : Loops model audio config s front) (hnone : s.call.returned = none)
    (hwaiting : s.call.waiting = true) (hstep : s.receive = some s') :
    Invariant model audio config s' := by
  obtain ⟨start, hunderWay, hrest⟩ := h.waiting hwaiting
  rw [PoolVad.receive] at hstep
  split at hstep
  · split at hstep
    · obtain rfl := Option.some.inj hstep
      exact invariant_error h.conserves h.honest _
    · cases hstep
  · rename_i result resultRx hresults
    have hdebt : WorkerPool.debt { s.pool with resultRx } ≤ npuWorkers := by
      have hbefore := h.debt
      rw [hwaiting, ← WorkerPool.debt_receive hresults] at hbefore
      exact Nat.le_of_succ_le_succ hbefore
    split at hstep
    · rename_i error
      obtain rfl := Option.some.inj hstep
      exact @invariant_error _ _ _ { s with pool := { s.pool with resultRx } } h.conserves h.honest _
    · -- A result of an earlier transcription.
      obtain rfl := Option.some.inj hstep
      refine .inl ⟨hnone, front, ?_⟩
      have hkept : WorkerPool.UnderWay (some model) { s.pool with resultRx }
          (vadJob s.call start) := by
        have hvad : s.pool.vadResults = WorkerPool.vadResults { s.pool with resultRx } := by
          rw [WorkerPool.vadResults, hresults]
          rfl
        rw [WorkerPool.UnderWay, hvad] at hunderWay
        refine hunderWay.imp_right (Or.imp_right fun ⟨hjobs, hempty, error, hmem⟩ => ?_)
        rw [hresults] at hmem
        refine ⟨hjobs, hempty, error, (List.mem_cons.mp hmem).resolve_left ?_⟩
        intro herror
        cases herror
      exact
        { conserves := h.conserves
          honest := h.honest
          audio_eq := h.audio_eq
          config_eq := h.config_eq
          probs := h.probs
          debt := Nat.le_add_right_of_le hdebt
          idle := fun hidle => by cases hwaiting.symm.trans hidle
          waiting := fun _ => ⟨start, hkept, hrest⟩ }
    · rename_i answer
      obtain rfl := Option.some.inj hstep
      have hvad : s.pool.vadResults = answer :: WorkerPool.vadResults { s.pool with resultRx } := by
        rw [WorkerPool.vadResults, hresults]
        rfl
      obtain ⟨hjobs, probability, state, hrun, hanswer, hnoResult⟩ :
          s.pool.vadJobs = 0 ∧ ∃ probability state,
            VadModel.runVad (some model) (vadJob s.call start) = .ok (probability, state) ∧
              answer = (vadJob s.call start).answer probability state ∧
                WorkerPool.vadResults { s.pool with resultRx } = [] := by
        rw [WorkerPool.UnderWay, hvad] at hunderWay
        obtain ⟨-, hempty⟩ | ⟨hjobs, probability, state, hrun, hone⟩ | ⟨-, hempty, -⟩ := hunderWay
        · cases hempty
        · obtain ⟨hanswer, hnoResult⟩ := List.cons.inj hone
          exact ⟨hjobs, probability, state, hrun, hanswer, hnoResult⟩
        · cases hempty
      subst hanswer
      rw [VadModel.runVad_vadJob h.audio_eq h.config_eq] at hrun
      have hprobs : (model.padding config.windowSamples).tryProbs audio config (front ++ [start]) =
          .ok (s.call.probs ++ [(start, probability)], state) := by
        rw [VadModel.tryProbs_concat, h.probs]
        change ((model.padding config.windowSamples).speechProbability _ s.call.state).map _ = _
        rw [hrun]
        rfl
      refine .inl ⟨hnone, front ++ [start], ?_⟩
      exact
        { conserves := h.conserves
          honest := h.honest
          audio_eq := h.audio_eq
          config_eq := h.config_eq
          probs := hprobs
          debt := hdebt
          idle := fun _ => ⟨⟨hjobs, hnoResult⟩, hrest.trans (List.append_cons ..)⟩
          waiting := fun hmore => by cases hmore }

theorem Loops.finish (h : Loops model audio config s front) (hwaiting : s.call.waiting = false)
    (hstarts : s.call.starts = []) : Invariant model audio config
      (s.returnCall (.ok (segmentsFromProbs s.call.audio.length s.call.probs s.call.config))) := by
  obtain ⟨hnoVad, hrest⟩ := h.idle hwaiting
  have hdebt := h.debt
  rw [hwaiting] at hdebt
  refine .inr ⟨Option.some_ne_none _, h.conserves, h.honest, fun segments hsegments => ?_⟩
  refine ⟨?_, h.conserves, h.honest, hnoVad, hdebt⟩
  obtain rfl := Except.ok.inj (Option.some.inj hsegments)
  rw [hstarts, List.append_nil] at hrest
  rw [VadModel.trySegmentsWithConfig, hrest, h.probs, h.audio_eq, h.config_eq]
  rfl

theorem Clean.worker {pool pool' : WorkerPool} {workerId : Fin npuWorkers} {event : WorkerEvent}
    (h : Clean model pool) (hcomputes : pool.Computes (some model) workerId event)
    (hstep : pool.step workerId event = some pool') : Clean model pool' where
  conserves := h.conserves.step hstep
  honest := h.honest.step hcomputes hstep
  noVad := h.noVad.step h.honest hcomputes hstep
  debt := (WorkerPool.debt_step hstep).trans h.debt

theorem Loops.worker (h : Loops model audio config s front) {pool : WorkerPool}
    {workerId : Fin npuWorkers} {event : WorkerEvent}
    (hcomputes : s.pool.Computes (some model) workerId event)
    (hstep : s.pool.step workerId event = some pool) :
    Loops model audio config { s with pool } front where
  conserves := h.conserves.step hstep
  honest := h.honest.step hcomputes hstep
  audio_eq := h.audio_eq
  config_eq := h.config_eq
  probs := h.probs
  debt := (WorkerPool.debt_step hstep).trans h.debt
  idle hidle := (h.idle hidle).imp_left fun hnoVad => hnoVad.step h.honest hcomputes hstep
  waiting hwaiting := by
    obtain ⟨start, hunderWay, hrest⟩ := h.waiting hwaiting
    exact ⟨start, hunderWay.step h.honest hcomputes hstep, hrest⟩

end Steps

theorem Invariant.step (h : Invariant model audio config s)
    (hserved : ServedStep model s event s') :
    Invariant model audio config s' := by
  have hstep := hserved.step
  simp only [Step, PoolVad.step] at hstep
  cases event with
  | dispatch =>
      obtain ⟨⟨hnone, hwaiting⟩, hdispatch⟩ := Option.ite_none_right_eq_some.mp hstep
      rw [Option.isNone_iff_eq_none] at hnone
      obtain ⟨-, front, hloops⟩ | ⟨hreturned, -⟩ := h
      · exact hloops.dispatch hnone hwaiting hdispatch
      · exact absurd hnone hreturned
  | receive =>
      obtain ⟨⟨hnone, hwaiting⟩, hreceive⟩ := Option.ite_none_right_eq_some.mp hstep
      rw [Option.isNone_iff_eq_none] at hnone
      obtain ⟨-, front, hloops⟩ | ⟨hreturned, -⟩ := h
      · exact hloops.receive hnone hwaiting hreceive
      · exact absurd hnone hreturned
  | finish =>
      obtain ⟨⟨hnone, hwaiting, hstarts⟩, rfl⟩ := Option.ite_some_none_eq_some.mp hstep
      rw [Option.isNone_iff_eq_none] at hnone
      obtain ⟨-, front, hloops⟩ | ⟨hreturned, -⟩ := h
      · exact hloops.finish hwaiting hstarts
      · exact absurd hnone hreturned
  | worker workerId event =>
      obtain ⟨pool, hpool, rfl⟩ := Option.map_eq_some_iff.mp hstep
      have hcomputes := hserved.computes workerId event rfl
      obtain ⟨hnone, front, hloops⟩ | ⟨hreturned, hended⟩ := h
      · exact .inl ⟨hnone, front, hloops.worker hcomputes hpool⟩
      · refine .inr ⟨hreturned, hended.conserves.step hpool, hended.honest.step hcomputes hpool, ?_⟩
        intro segments hsegments
        obtain ⟨hresult, hclean⟩ := hended.result segments hsegments
        exact ⟨hresult, hclean.worker hcomputes hpool⟩

/-! ### Calls come to an end -/

def rank (s : PoolVad) : Nat :=
  6 * s.call.starts.length + s.pool.rank + s.call.returned.isNone.toNat

theorem rank_returnCall_lt (hnone : s.call.returned.isNone = true) {pool : WorkerPool}
    (hpool : pool.rank = s.pool.rank) (result : Except Error (List VadSegment)) :
    rank ({ s with pool }.returnCall result) < s.rank := by
  rw [rank, rank, hnone]
  change 6 * s.call.starts.length + pool.rank + 0 < _
  rw [hpool]
  exact Nat.lt_succ_self _

theorem rank_lt {pool : WorkerPool} {call : VadCall} (hpool : pool.rank < s.pool.rank)
    (hstarts : call.starts = s.call.starts)
    (hreturned : call.returned.isNone.toNat ≤ s.call.returned.isNone.toNat) :
    rank { pool, call } < s.rank := by
  simp only [rank, hstarts]
  omega

theorem rank_step (hstep : Step s event s') : s'.rank < s.rank := by
  simp only [Step, PoolVad.step] at hstep
  cases event with
  | dispatch =>
      obtain ⟨⟨hnone, -⟩, hdispatch⟩ := Option.ite_none_right_eq_some.mp hstep
      rw [PoolVad.dispatch] at hdispatch
      split at hdispatch
      · cases hdispatch
      · split at hdispatch
        · obtain rfl := Option.some.inj hdispatch
          exact rank_returnCall_lt hnone rfl _
        · cases hdispatch
      · rename_i start starts workerId readyRx hstarts hready
        split at hdispatch
        · obtain ⟨pool, hsend, rfl⟩ := Option.map_eq_some_iff.mp hdispatch
          have hrank : pool.rank = s.pool.rank + 5 :=
            @WorkerPool.rank_send { s.pool with readyRx } _ _ _ hsend
          simp only [rank, hstarts, List.length_cons, hrank]
          omega
        · obtain rfl := Option.some.inj hdispatch
          exact @rank_returnCall_lt s hnone { s.pool with readyRx } rfl _
  | receive =>
      obtain ⟨⟨hnone, -⟩, hreceive⟩ := Option.ite_none_right_eq_some.mp hstep
      rw [PoolVad.receive] at hreceive
      split at hreceive
      · split at hreceive
        · obtain rfl := Option.some.inj hreceive
          exact rank_returnCall_lt hnone rfl _
        · cases hreceive
      · rename_i result resultRx hresults
        have hpool : WorkerPool.rank { s.pool with resultRx } < s.pool.rank :=
          Nat.lt_of_succ_le (WorkerPool.rank_receive hresults).le
        split at hreceive <;> obtain rfl := Option.some.inj hreceive
        · exact rank_lt hpool rfl (Nat.zero_le _)
        all_goals exact rank_lt hpool rfl le_rfl
  | finish =>
      obtain ⟨⟨hnone, -⟩, rfl⟩ := Option.ite_some_none_eq_some.mp hstep
      exact rank_returnCall_lt hnone rfl _
  | worker workerId event =>
      obtain ⟨pool, hpool, rfl⟩ := Option.map_eq_some_iff.mp hstep
      exact rank_lt (WorkerPool.rank_step hpool) rfl le_rfl

theorem terminates (model : VadModel) (s : PoolVad) : Terminates (ServedStep model) s :=
  terminates_of_rank (P := fun _ => True) rank (fun _ _ _ _ _ => trivial)
    (fun _ _ _ _ hserved => rank_step hserved.step) trivial

/-- A thread with a window can always go on as the model says. -/
theorem still_of_computes {pool : WorkerPool} {workerId : Fin npuWorkers} {vad : Option VadModel}
    (hstill : ∀ event, pool.Computes vad workerId event → pool.step workerId event = none)
    (event : WorkerEvent) : pool.step workerId event = none := by
  by_cases hvad : ∃ job, (pool.workers workerId).phase = .running (.vad job)
  · obtain ⟨job, hphase⟩ := hvad
    have hjob : ∀ other, (pool.workers workerId).phase = .running (.vad other) → other = job := by
      intro other hother
      cases hother.symm.trans hphase
      rfl
    cases hrun : VadModel.runVad vad job with
    | ok answer =>
        have hclassify := hstill (.classify answer.1 answer.2) fun other hother => by
          rw [hjob other hother]
          exact hrun
        simp [WorkerPool.step, hphase] at hclassify
    | error error =>
        have hfail := hstill (.fail error) fun other hother => by
          rw [hjob other hother]
          exact hrun
        simp [WorkerPool.step, hphase] at hfail
  · apply hstill
    cases event with
    | classify | fail => exact fun job hphase => absurd ⟨job, hphase⟩ hvad
    | panic => exact fun job hphase => hvad ⟨job, hphase⟩
    | _ => trivial

section Ended

variable (hfinal : Final (ServedStep model) s)

include hfinal

/-- The call and the threads have no step left. -/
theorem step_eq_none (hcall : ∀ workerId workerEvent, event ≠ .worker workerId workerEvent) :
    s.step event = none := by
  by_contra hsome
  obtain ⟨s', hstep⟩ := Option.ne_none_iff_exists'.mp hsome
  exact hfinal event s' ⟨hstep, fun workerId workerEvent heq =>
    absurd heq (hcall workerId workerEvent)⟩

theorem worker_of_final (hconserves : s.pool.Conserves) (workerId : Fin npuWorkers) :
    (s.pool.workers workerId).phase.receives = false ∨ WorkerPool.Idle (s.pool.workers workerId) ∨
      (WorkerPool.Sends (s.pool.workers workerId) ∧ npuWorkers ≤ s.pool.resultRx.length) := by
  refine hconserves.announced.still (@still_of_computes _ _ (some model) ?_)
  intro event hcomputes
  by_contra hsome
  obtain ⟨pool, hpool⟩ := Option.ne_none_iff_exists'.mp hsome
  refine hfinal (.worker workerId event) { s with pool } ⟨?_, ?_⟩
  · rw [Step, step, hpool]
    rfl
  · rintro _ _ ⟨⟩
    exact hcomputes

variable {front : List Nat} (h : Loops model audio config s front)
  (hnone : s.call.returned = none)

include h hnone

theorem waiting_of_final : s.call.waiting = true := by
  by_contra hidle
  rw [Bool.not_eq_true] at hidle
  cases hstarts : s.call.starts with
  | nil =>
      have hfinish : s.step .finish = none := step_eq_none hfinal (by rintro _ _ ⟨⟩)
      simp [step, hnone, hidle, hstarts] at hfinish
  | cons start starts =>
      cases hready : s.pool.readyRx with
      | nil =>
          have hended : ∀ workerId, (s.pool.workers workerId).phase.receives = false := by
            intro workerId
            obtain hstopped | hwaits | ⟨hsends, hfull⟩ := worker_of_final hfinal h.conserves workerId
            · exact hstopped
            · have hmem := h.conserves.mem_of_idle hwaits
              rw [hready] at hmem
              cases hmem
            · -- A full channel and one more result are more than the pool owes.
              have howes := hsends.owes.trans (Finset.single_le_sum
                (f := fun workerId => (s.pool.workers workerId).owes)
                (fun _ _ => Nat.zero_le _) (Finset.mem_univ workerId))
              have hdebt := h.debt
              rw [hidle, WorkerPool.debt, Bool.toNat_false] at hdebt
              omega
          have hdispatch : s.step .dispatch = none := step_eq_none hfinal (by rintro _ _ ⟨⟩)
          have hstopped : s.stopped = true := decide_eq_true hended
          simp [step, hnone, hidle, dispatch, hstarts, hready, hstopped] at hdispatch
      | cons workerId readyRx =>
          have hdispatch : s.step .dispatch = none := step_eq_none hfinal (by rintro _ _ ⟨⟩)
          have hreceives : (s.pool.workers workerId).phase.receives = true := by
            rw [(h.conserves.first hready).1]
            rfl
          simp [step, hnone, hidle, dispatch, hstarts, hready, hreceives,
            h.conserves.send_first hready] at hdispatch

/-- A call that waits for a result is not left alone. -/
theorem false_of_final : False := by
  have hwaiting := waiting_of_final hfinal h hnone
  have hempty : s.pool.resultRx = [] := by
    cases hresults : s.pool.resultRx with
    | nil => rfl
    | cons result resultRx =>
        have hreceive : s.step .receive = none := step_eq_none hfinal (by rintro _ _ ⟨⟩)
        simp only [step, hnone, hwaiting, Option.isNone_none, true_and, if_true, receive, hresults]
          at hreceive
        split at hreceive <;> cases hreceive
  have hworkers : ∀ workerId, (s.pool.workers workerId).phase.receives = false ∨
      WorkerPool.Idle (s.pool.workers workerId) := by
    intro workerId
    obtain hstopped | hidle | ⟨-, hfull⟩ := worker_of_final hfinal h.conserves workerId
    · exact .inl hstopped
    · exact .inr hidle
    · rw [hempty] at hfull
      exact absurd hfull (by decide)
  have hheld := h.conserves.held_eq_zero hworkers
  obtain ⟨start, ⟨hone, -⟩ | ⟨-, probability, state, -, hone⟩ | ⟨-, -, error, herror⟩, -⟩ :=
    h.waiting hwaiting
  · rw [WorkerPool.vadJobs, hheld] at hone
    exact absurd hone.symm (Multiset.singleton_ne_zero _)
  · rw [WorkerPool.vadResults, hempty] at hone
    cases hone
  · rw [hempty] at herror
    cases herror

end Ended

/-! ### A pool that serves one call after the other -/

/-- A transcription puts no window of this kind under way. -/
theorem noVad_transcription {p p' : ParallelTranscriberPool} {event : ParallelTranscriberPool.Event}
    (h : p.pool.NoVad ∧ p.pool.Honest (some model))
    (hstep : ParallelTranscriberPool.Step p event p') :
    p'.pool.NoVad ∧ p'.pool.Honest (some model) := by
  obtain ⟨hnoVad, hhonest⟩ := h
  simp only [ParallelTranscriberPool.Step, ParallelTranscriberPool.step] at hstep
  cases event with
  | call audio vadSegments options onSegment =>
      simp only at hstep
      split at hstep
      · obtain rfl := Option.some.inj hstep
        rw [ParallelTranscriberPool.startCall]
        split <;> exact ⟨hnoVad, hhonest⟩
      · cases hstep
  | dispatch =>
      obtain ⟨call, hcall, hdispatch⟩ := Option.bind_eq_some_iff.mp hstep
      split at hdispatch
      · cases hdispatch
      · rw [ParallelTranscriberPool.dispatch] at hdispatch
        split at hdispatch
        · cases hdispatch
        · split at hdispatch
          · obtain rfl := Option.some.inj hdispatch
            exact ⟨hnoVad, hhonest⟩
          · cases hdispatch
        · rename_i window pending workerId readyRx hpending hready
          split at hdispatch
          · obtain ⟨pool, hsend, rfl⟩ := Option.map_eq_some_iff.mp hdispatch
            obtain ⟨hheld, -⟩ := WorkerPool.held_send hsend
            obtain ⟨-, rfl⟩ := WorkerPool.eq_put_of_send hsend
            refine ⟨⟨?_, hnoVad.results⟩, hhonest.change rfl (hhonest workerId)⟩
            rw [WorkerPool.vadJobs, hheld, Multiset.filterMap_add]
            exact (add_zero _).trans hnoVad.jobs
          · obtain rfl := Option.some.inj hdispatch
            exact ⟨hnoVad.of_eq rfl rfl, hhonest⟩
  | receive =>
      obtain ⟨call, hcall, hreceive⟩ := Option.bind_eq_some_iff.mp hstep
      rw [ParallelTranscriberPool.receive] at hreceive
      split at hreceive
      · cases hreceive
      · split at hreceive
        · split at hreceive
          · obtain rfl := Option.some.inj hreceive
            exact ⟨hnoVad, hhonest⟩
          · cases hreceive
        · rename_i result resultRx hresults
          obtain rfl := Option.some.inj hreceive
          refine ⟨⟨hnoVad.jobs, ?_⟩, hhonest⟩
          have hnone := hnoVad.results
          rw [WorkerPool.vadResults, hresults] at hnone
          exact List.filterMap_eq_nil_iff.mpr fun result hmem =>
            List.filterMap_eq_nil_iff.mp hnone result (List.mem_cons_of_mem _ hmem)
  | join =>
      obtain ⟨call, hcall, hjoin⟩ := Option.bind_eq_some_iff.mp hstep
      obtain ⟨-, rfl⟩ := Option.ite_some_none_eq_some.mp hjoin
      exact ⟨hnoVad, hhonest⟩
  | worker workerId event =>
      obtain ⟨pool, hpool, rfl⟩ := Option.map_eq_some_iff.mp hstep
      have hcomputes : p.pool.Computes (some model) workerId event := by
        cases event with
        | classify | fail => exact fun job hphase => absurd hphase (hnoVad.not_running workerId job)
        | panic => exact hnoVad.not_running workerId
        | _ => trivial
      exact ⟨hnoVad.step hhonest hcomputes hpool, hhonest.step hcomputes hpool⟩

theorem Clean.transcribed {pool : WorkerPool} {p : ParallelTranscriberPool}
    {events : List ParallelTranscriberPool.Event} (h : Clean model pool)
    (hrun : Run ParallelTranscriberPool.Step { pool } events p) (hcall : p.call = none)
    (hsucceeded : Succeeded p) :
    Clean model p.pool := by
  have hsolvent : Solvent { pool } :=
    { conserves := h.conserves
      room := (Nat.le_add_right _ _).trans h.debt
      call := fun _ hsome => by cases hsome
      idle := fun _ => h.debt.trans (by decide) }
  have hpaid : Succeeded p → Paid p :=
    hrun.invariant (P := fun _ p => Succeeded p → Paid p) (fun _ => .of_between rfl h.debt)
      fun _ _ _ _ hinv hstep => paid_step hinv hstep
  have hnoVad : p.pool.NoVad ∧ p.pool.Honest (some model) :=
    hrun.invariant (P := fun _ p => p.pool.NoVad ∧ p.pool.Honest (some model))
      ⟨h.noVad, h.honest⟩ fun _ _ _ _ hinv hstep => noVad_transcription hinv hstep
  exact
    { conserves := (hrun.invariant (P := fun _ => Solvent) hsolvent
        fun _ _ _ _ hinv hstep => hinv.step hstep).conserves
      honest := hnoVad.2
      noVad := hnoVad.1
      debt := (hpaid hsucceeded).between hcall }

theorem invariant_of_run {pool : WorkerPool} {first : PoolVad} {events : List Event}
    (h : Clean model pool) (hstart : start pool audio config = some first)
    (hrun : Run (ServedStep model) first events s) : Invariant model audio config s := by
  have hloops := h.loops hstart
  have hnone : first.call.returned = none := by
    obtain ⟨-, rfl⟩ := start_eq_some_iff.mp hstart
    rfl
  exact hrun.invariant (P := fun _ => Invariant model audio config) (.inl ⟨hnone, [], hloops⟩)
    fun _ _ _ _ hinv hserved => hinv.step hserved

/-- The pools that have served calls of both kinds, in any order, of which none has failed. -/
inductive Served (model : VadModel) : WorkerPool → Prop where
  | fresh : Served model {}
  | transcribed {pool : WorkerPool} {p : ParallelTranscriberPool}
      {events : List ParallelTranscriberPool.Event} : Served model pool →
      Run ParallelTranscriberPool.Step { pool } events p → p.call = none → Succeeded p →
        Served model p.pool
  | classified {pool : WorkerPool} {first s : PoolVad} {audio : List F32} {config : VadConfig}
      {events : List Event} {segments : List VadSegment} : Served model pool →
      start pool audio config = some first → Run (ServedStep model) first events s →
      s.call.returned = some (.ok segments) → Served model s.pool

theorem Served.clean {pool : WorkerPool} (h : Served model pool) : Clean model pool := by
  induction h with
  | fresh =>
      have hheld : ({} : WorkerPool).held = 0 := Finset.sum_eq_zero fun _ _ => rfl
      refine ⟨fun _ => rfl, fun _ => trivial, ⟨?_, rfl⟩, by decide⟩
      rw [WorkerPool.vadJobs, hheld]
      rfl
  | transcribed _ hrun hcall hsucceeded ih => exact ih.transcribed hrun hcall hsucceeded
  | classified _ hstart hrun hreturned ih =>
      obtain ⟨hnone, -⟩ | ⟨-, hended⟩ := invariant_of_run ih hstart hrun
      · rw [hnone] at hreturned
        cases hreturned
      · exact (hended.result _ hreturned).2

/-- **The workers find what the offline loop finds.** Behind any calls that have succeeded, a call
comes to an end, and where no step of it or of a thread is left it has returned; the segments it
returns are those of the offline loop, whichever workers take the windows. The two agree on
configurations that pad a window to the same length, and a window has a sample. -/
theorem vad_segments_eq_offline {pool : WorkerPool} (hserved : Served model pool)
    (hwindow : 1 ≤ config.windowSamples)
    (hsame : model.config.windowSamples = config.windowSamples) (audio : List F32) :
    ∃ first, start pool audio config = some first ∧ Terminates (ServedStep model) first ∧
      ∀ events s, Run (ServedStep model) first events s →
        (∀ segments, s.call.returned = some (.ok segments) →
          model.trySegmentsWithConfig audio config = .ok segments) ∧
        (Final (ServedStep model) s → s.call.returned ≠ none) := by
  refine ⟨_, start_eq_some_iff.mpr ⟨hwindow, rfl⟩, terminates model _, fun events s hrun => ?_⟩
  have hinv := invariant_of_run hserved.clean (start_eq_some_iff.mpr ⟨hwindow, rfl⟩) hrun
  refine ⟨fun segments hsegments => ?_, fun hfinal hnone => ?_⟩
  · obtain ⟨hnone, -⟩ | ⟨-, hended⟩ := hinv
    · rw [hnone] at hsegments
      cases hsegments
    · have hresult := (hended.result segments hsegments).1
      rwa [VadModel.padding_eq hsame] at hresult
  · obtain ⟨-, front, hloops⟩ | ⟨hreturned, -⟩ := hinv
    · exact false_of_final hfinal hloops hnone
    · exact hreturned hnone

/-- Every window that does not begin with silence is speech. -/
def sampleModel : VadModel where
  network window _ := .ok (window.headD (F32.ofNat 0), window)
  config := { minSpeechMs := 0, minSilenceMs := 0, speechPadMs := 0, windowSamples := 2 }

def sampleAudio : List F32 := [F32.ofNat 1, F32.ofNat 1, F32.ofNat 0, F32.ofNat 0, F32.ofNat 1]

/-- Three windows, by three workers. -/
def sampleEvents : List Event :=
  [.dispatch, .worker 1 .take, .worker 1 (.classify (F32.ofNat 1) [F32.ofNat 1, F32.ofNat 1]),
    .worker 1 .answer, .receive, .dispatch, .worker 1 .announce, .worker 2 .take,
    .worker 2 (.classify (F32.ofNat 0) [F32.ofNat 0, F32.ofNat 0]), .worker 2 .answer, .receive,
    .dispatch, .worker 0 .take, .worker 0 (.classify (F32.ofNat 1) [F32.ofNat 1, F32.ofNat 0]),
    .worker 0 .answer, .receive, .finish]

/-- The thread has the window whose answer this is. -/
def classifies (model : VadModel) (s : PoolVad) (workerId : Fin npuWorkers) (probability : F32)
    (state : List F32) : Bool :=
  match (s.pool.workers workerId).phase with
  | .running (.vad job) =>
      match VadModel.runVad (some model) job with
      | .ok answer => decide (answer = (probability, state))
      | .error _ => false
  | _ => false

/-- The steps of `ServedStep`, for answers that can be checked. -/
def servedStep (model : VadModel) (s : PoolVad) (event : Event) : Option PoolVad :=
  match event with
  | .worker workerId (.classify probability state) =>
      if s.classifies model workerId probability state then s.step event else none
  | .worker _ (.fail _) | .worker _ .panic => none
  | _ => s.step event

theorem servedStep_spec (h : servedStep model s event = some s') :
    ServedStep model s event s' := by
  cases event with
  | dispatch | receive | finish =>
      refine ⟨h, ?_⟩
      rintro _ _ ⟨⟩
  | worker workerId event =>
      cases event with
      | classify probability state =>
          obtain ⟨hclassifies, hstep⟩ := Option.ite_none_right_eq_some.mp h
          refine ⟨hstep, ?_⟩
          rintro _ _ ⟨⟩ job hphase
          rw [classifies, hphase] at hclassifies
          cases hrun : VadModel.runVad (some model) job with
          | ok answer =>
              simp only [hrun, decide_eq_true_eq] at hclassifies
              rw [hclassifies]
          | error error =>
              simp only [hrun] at hclassifies
              cases hclassifies
      | fail error => cases h
      | panic => cases h
      | _ =>
          refine ⟨h, ?_⟩
          rintro _ _ ⟨⟩
          trivial

def segmentsOf (s : PoolVad) : Option (List (Nat × Nat)) :=
  s.call.returned.bind fun result =>
    result.toOption.map fun segments =>
      segments.map fun segment => (segment.startSample, segment.endSample)

theorem vad_segments_eq_offline_sample : ∃ pool first s segments, Served sampleModel pool ∧
    start pool sampleAudio sampleModel.config = some first ∧
    Run (ServedStep sampleModel) first sampleEvents s ∧
    segments.map (fun segment : VadSegment => (segment.startSample, segment.endSample)) =
      [(0, 2), (4, 5)] ∧
    sampleModel.trySegmentsWithConfig sampleAudio sampleModel.config = .ok segments := by
  have hboth : ((ParallelTranscriberPool.restingEvents.foldlM ParallelTranscriberPool.step
      ({} : ParallelTranscriberPool)).bind fun p =>
        (start p.pool sampleAudio sampleModel.config).bind fun first =>
          (sampleEvents.foldlM (servedStep sampleModel) first).map fun s =>
            (p.call.isNone, p.returned.all fun returned => returned.result.toOption.isSome,
              segmentsOf s)) = some (true, true, some [(0, 2), (4, 5)]) := by
    decide +kernel
  obtain ⟨p, hp, hs⟩ := Option.bind_eq_some_iff.mp hboth
  obtain ⟨first, hstart, hrest⟩ := Option.bind_eq_some_iff.mp hs
  obtain ⟨s, hfold, hview⟩ := Option.map_eq_some_iff.mp hrest
  simp only [Prod.mk.injEq, Option.isNone_iff_eq_none] at hview
  obtain ⟨hcall, hall, hsegments⟩ := hview
  obtain ⟨result, hreturned, hresult⟩ := Option.bind_eq_some_iff.mp hsegments
  obtain ⟨segments, hok, hmap⟩ := Option.map_eq_some_iff.mp hresult
  have hserved : Served sampleModel p.pool :=
    .transcribed .fresh (Run.of_foldlM (fun _ _ _ hstep => hstep) hp) hcall
      (ParallelTranscriberPool.succeeded_of_all hall)
  have hrun : Run (ServedStep sampleModel) first sampleEvents s :=
    Run.of_foldlM (fun _ _ _ => servedStep_spec) hfold
  obtain ⟨_, hsame, -, hruns⟩ :=
    @vad_segments_eq_offline sampleModel sampleModel.config _ hserved (by decide) rfl sampleAudio
  obtain rfl := Option.some.inj (hstart.symm.trans hsame)
  refine ⟨p.pool, first, s, segments, hserved, hstart, hrun, hmap, (hruns _ s hrun).1 segments ?_⟩
  rw [hreturned]
  cases result with
  | ok _ =>
      obtain rfl := Option.some.inj hok
      rfl
  | error error => cases hok

end PoolVad

end RkWhisper
