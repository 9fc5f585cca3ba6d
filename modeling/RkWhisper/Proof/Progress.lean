import RkWhisper.Proof.Delivery
import RkWhisper.Proof.Timeline

/-!
# A closed job terminates

The work of a closed job is bounded by what is left of its audio, and as long as the job is not
complete some step does a part of it.
-/

namespace RkWhisper

open Segmentation Transition

namespace LiveRun

variable {maxInFlight : Nat} {run run' : LiveRun}

/-- Every sample in the buffer may be scanned and may be dispatched, and a dispatch is answered. -/
def work (run : LiveRun) : Nat :=
  2 * run.job.audioBuffer.length +
    2 * (run.job.audioBuffer.length - run.job.vadProcessedSamples) + run.job.inFlight +
    if run.job.vadInFlight then 0 else 1

/-- The steps that do some of the work. -/
def Working (run : LiveRun) : Event → Prop
  | .refresh => ∃ config, run.job.Silent config
  | .sendVad sent => sent = true
  | .vadResult _ => True
  | .dispatch _ => True
  | .whisperResult _ => True
  | _ => False

/-- A dispatch or an answer costs one, whatever the state. -/
def Event.cost : Event → Nat
  | .sendVad sent => if sent then 1 else 0
  | .vadResult _ => 1
  | .dispatch _ => 1
  | .whisperResult _ => 1
  | _ => 0

/-- The step works, or removes the job. -/
def Advancing (run : LiveRun) (event : Event) : Prop :=
  run.Working event ∨ event = .finish

theorem producerClosed_of_step {event : Event} (h : Step maxInFlight run event run')
    (hclosed : run.job.producerClosed = true) : run'.job.producerClosed = true := by
  cases audioStep h with
  | same hsame => exact hsame.producerClosed.trans hclosed
  | accept samples closed himplies hsame =>
      exact hsame.producerClosed.trans (himplies hclosed).2
  | clear config hsilent hsame => exact hsame.producerClosed.trans hclosed
  | scan config sent hconfig hready hsame => exact hsame.producerClosed.trans hclosed
  | record vadJob result hjob hstart hsame => exact hsame.producerClosed.trans hclosed
  | cut plan sent _ hready hidle hplan hsame => exact hsame.producerClosed.trans hclosed

theorem drainLiveChunks_of_closed (hclosed : run.job.producerClosed = true) :
    run.job.drainLiveChunks maxInFlight = run.job := by
  rw [ActiveLiveJob.drainLiveChunks, if_pos (.inl hclosed)]

theorem next_drain_of_closed (hclosed : run.job.producerClosed = true) :
    run.next maxInFlight .drain = run := by
  have haccepted : run.accepted ++ audioOf [] = run.accepted := List.append_nil _
  simp only [next, drainLiveChunks_of_closed hclosed,
    ActiveLiveJob.drainedChunks_of_closed hclosed, haccepted]

/-- A drain that finds nothing changes nothing. -/
theorem next_drain_of_empty (hqueue : run.job.chunkRx.queue = [])
    (hopen : run.job.chunkRx.disconnected = false) : run.next maxInFlight .drain = run := by
  have hnone : run.job.drainedChunks maxInFlight = [] := by
    rw [ActiveLiveJob.drainedChunks, hqueue, ite_self]
  have haccepted : run.accepted ++ audioOf [] = run.accepted := List.append_nil _
  simp only [next, ActiveLiveJob.drainLiveChunks_of_empty hqueue hopen, hnone, haccepted]

/-- Dropping silence does all the work that is left on the audio. -/
theorem work_clear_lt {config : VadConfig} (hsilent : run.job.Silent config) :
    work { run with job := run.job.clear } < work run := by
  have hpos : 0 < run.job.audioBuffer.length := List.length_pos_iff.mpr hsilent.nonempty
  simp only [work, ActiveLiveJob.clear, List.length_nil, hsilent.idle]
  omega

/-- A VAD result moves the cursor by at least one sample. -/
theorem work_record {vad : Option VadConfig} (hinv : AudioInvariant vad run)
    (hwindow : ∀ config ∈ vad, 1 ≤ config.windowSamples) {vadJob : VadJob} {result : VadResult}
    (hjob : run.vadJob = some vadJob) (hstart : result.startSample = vadJob.startSample)
    {config : VadConfig} (hconfig : run.job.vadConfig = some config) :
    work (run.record result) + 1 ≤ work run := by
  have hmem : config ∈ vad := hinv.vadConfig.symm.trans hconfig
  have hpos := hwindow config hmem
  have hrecording := hinv.recording config hmem
  obtain ⟨hprocessed, hlt, -⟩ := hrecording.atWorker vadJob hjob
  have hbusy : run.job.vadInFlight = true := by
    rw [hinv.slot, hjob]
    rfl
  rw [← hstart] at hprocessed
  simp only [work, record, ActiveLiveJob.handleVadResult, hconfig, hbusy, hprocessed,
    Option.map_some, Option.getD_some, Bool.false_eq_true, if_true, if_false]
  omega

/-- A cut takes at least one sample, and adds at most one window in flight. -/
theorem work_cut {vad : Option VadConfig} (hinv : AudioInvariant vad run)
    (hwindow : ∀ config ∈ vad, 1 ≤ config.windowSamples) {plan : DispatchPlan}
    (hplan : run.job.nextDispatchPlan = some plan) (sent : Bool) :
    work (run.next maxInFlight (.dispatch sent)) + 1 ≤ work run := by
  have hbounds := plan_bounds hinv.timeline (fun config hconfig => by
    rw [hinv.vadConfig] at hconfig
    exact ⟨hwindow config hconfig, hinv.recording config hconfig⟩) hplan
  simp only [next, ActiveLiveJob.dispatchToWorker_eq hplan]
  cases sent with
  | false =>
      simp only [work, Bool.false_eq_true, if_false, ActiveLiveJob.cut, ActiveLiveJob.send,
        List.length_drop]
      omega
  | true =>
      simp only [work, if_true, ActiveLiveJob.countDispatch, ActiveLiveJob.cut, ActiveLiveJob.send,
        List.length_drop]
      omega

theorem work_whisperResult (hdelivery : Delivery maxInFlight run) {result : WindowTranscription}
    (hmem : result.windowIndex ∈ run.awaited) :
    work (run.next maxInFlight (.whisperResult result)) + 1 ≤ work run := by
  have hpos : 0 < run.job.inFlight := by
    rw [hdelivery.inFlight]
    exact List.length_pos_of_mem hmem
  obtain ⟨emitted, pending, hjob, -⟩ := run.job.handleResult_spec result
  simp only [work, next, hjob]
  omega

/-- **Every dispatch and every answer does some of the work, and nothing adds to it.** -/
theorem work_add_cost_le {vad : Option VadConfig} {event : Event} (hinv : AudioInvariant vad run)
    (hwindow : ∀ config ∈ vad, 1 ≤ config.windowSamples) (hdelivery : Delivery maxInFlight run)
    (hclosed : run.job.producerClosed = true) (hstep : Step maxInFlight run event run') :
    work run' + event.cost ≤ work run := by
  obtain ⟨⟨-, henabled⟩, rfl⟩ := step_eq_some_iff.mp hstep
  cases event with
  | arrive chunk => exact le_rfl
  | hangUp => exact le_rfl
  | drain =>
      simp only [next, drainLiveChunks_of_closed hclosed]
      exact le_rfl
  | refresh =>
      simp only [next]
      obtain hsame | ⟨config, hsilent⟩ := run.job.refreshSpeechState_cases
      · rw [hsame]
        exact le_rfl
      · rw [ActiveLiveJob.refreshSpeechState_of_silent hsilent]
        exact (work_clear_lt hsilent).le
  | sendVad sent =>
      obtain ⟨config, hconfig, hidle, -⟩ := ActiveLiveJob.hasVadReady_iff.mp henabled
      simp only [work, next, ActiveLiveJob.sendVadJob_of_ready hconfig henabled, hidle, Event.cost]
      cases sent <;> simp
  | vadResult result =>
      simp only [Enabled] at henabled
      split at henabled
      · rename_i vadJob hjob
        cases hconfig : run.job.vadConfig with
        | none =>
            have hnone := hinv.vadOff (hinv.vadConfig.symm.trans hconfig)
            rw [hnone] at hjob
            cases hjob
        | some config => exact work_record hinv hwindow hjob henabled.2.2 hconfig
      · exact henabled.elim
  | dispatch sent =>
      obtain ⟨-, -, plan, hplan⟩ := ActiveLiveJob.mayDispatch_iff.mp henabled.2
      exact work_cut hinv hwindow hplan sent
  | whisperResult result => exact work_whisperResult hdelivery henabled
  | finish =>
      simp only [next, ActiveLiveJob.finishIfComplete]
      split <;> exact le_rfl
  | abort error => exact le_rfl

theorem work_lt_of_working {vad : Option VadConfig} {event : Event}
    (hinv : AudioInvariant vad run) (hwindow : ∀ config ∈ vad, 1 ≤ config.windowSamples)
    (hdelivery : Delivery maxInFlight run) (hclosed : run.job.producerClosed = true)
    (hstep : Step maxInFlight run event run') (hworking : run.Working event) :
    work run' < work run := by
  have hcost := work_add_cost_le hinv hwindow hdelivery hclosed hstep
  cases event with
  | refresh =>
      obtain ⟨config, hsilent⟩ := hworking
      obtain ⟨-, rfl⟩ := step_eq_some_iff.mp hstep
      simp only [next, ActiveLiveJob.refreshSpeechState_of_silent hsilent]
      exact work_clear_lt hsilent
  | sendVad sent =>
      obtain rfl : sent = true := hworking
      exact hcost
  | vadResult result => exact hcost
  | dispatch sent => exact hcost
  | whisperResult result => exact hcost
  | arrive chunk => exact hworking.elim
  | hangUp => exact hworking.elim
  | drain => exact hworking.elim
  | finish => exact hworking.elim
  | abort error => exact hworking.elim

/-! ### No job gets stuck -/

/-- A closed job with nothing in flight is complete, or one of the two dispatches is possible, unless
the rest of its buffer is silence. -/
theorem complete_or_ready {job : ActiveLiveJob} (hclosed : job.producerClosed = true)
    (hinFlight : job.inFlight = 0) (hidle : job.vadInFlight = false)
    (hspoken : ∀ config, ¬ job.Silent config) :
    job.isComplete = true ∨ job.hasVadReady = true ∨ ∃ plan, job.nextDispatchPlan = some plan := by
  by_cases hbuffer : job.audioBuffer = []
  · refine .inl ?_
    rw [ActiveLiveJob.isComplete, hclosed, hbuffer, hinFlight, hidle]
    rfl
  by_cases hready : job.hasVadReady = true
  · exact .inr (.inl hready)
  refine .inr (.inr (ActiveLiveJob.exists_plan_of_closed hclosed hbuffer ?_))
  intro config hconfig hsegments
  apply hspoken config
  refine ⟨hconfig, hbuffer, hsegments, hclosed, hidle, ?_⟩
  by_contra hscanned
  exact hready (ActiveLiveJob.hasVadReady_iff.mpr
    ⟨config, hconfig, hidle, not_le.mp hscanned, .inr hclosed⟩)

theorem not_silent_refreshSpeechState (job : ActiveLiveJob) (config : VadConfig) :
    ¬ job.refreshSpeechState.Silent config := by
  intro hsilent
  by_cases h : ∃ config', job.Silent config'
  · obtain ⟨config', h⟩ := h
    have hnonempty := hsilent.nonempty
    rw [ActiveLiveJob.refreshSpeechState_of_silent h] at hnonempty
    exact hnonempty rfl
  · obtain hsame | hexists := job.refreshSpeechState_cases
    · rw [hsame] at hsilent
      exact h ⟨config, hsilent⟩
    · exact h hexists

theorem refreshSpeechState_frame (job : ActiveLiveJob) :
    job.refreshSpeechState.producerClosed = job.producerClosed ∧
      job.refreshSpeechState.inFlight = job.inFlight ∧
      job.refreshSpeechState.vadInFlight = job.vadInFlight := by
  obtain hsame | ⟨config, hsilent⟩ := job.refreshSpeechState_cases
  · rw [hsame]
    exact ⟨rfl, rfl, rfl⟩
  · rw [ActiveLiveJob.refreshSpeechState_of_silent hsilent]
    exact ⟨rfl, rfl, rfl⟩

/-- **As long as a closed job is there, a step advances it.** What is awaited can be answered. -/
theorem exists_advancing {vad : Option VadConfig} (hinv : AudioInvariant vad run)
    (hdelivery : Delivery maxInFlight run) (hmax : 1 ≤ maxInFlight)
    (hclosed : run.job.producerClosed = true) (hremoved : run.removed = false) :
    ∃ event run', Step maxInFlight run event run' ∧ run.Advancing event := by
  have hstep : ∀ event, run.Enabled maxInFlight event →
      Step maxInFlight run event (run.next maxInFlight event) :=
    fun event henabled => step_eq_some_iff.mpr ⟨⟨hremoved, henabled⟩, rfl⟩
  cases hjob : run.vadJob with
  | some vadJob =>
      have henabled : run.Enabled maxInFlight (.vadResult
          { jobId := vadJob.jobId, windowIndex := vadJob.windowIndex,
            startSample := vadJob.startSample, probability := ⟨0⟩, state := vadJob.state }) := by
        simp only [Enabled, hjob]
        exact ⟨rfl, rfl, rfl⟩
      exact ⟨_, _, hstep _ henabled, .inl trivial⟩
  | none =>
      cases hawaited : run.awaited with
      | cons index rest =>
          have henabled : run.Enabled maxInFlight (.whisperResult
              { windowIndex := index, absoluteStartSec := ⟨0⟩, text := "", segments := [] }) := by
            simp only [Enabled, hawaited]
            exact List.mem_cons_self
          exact ⟨_, _, hstep _ henabled, .inl trivial⟩
      | nil =>
          have hinFlight : run.job.inFlight = 0 := by
            rw [hdelivery.inFlight, hawaited]
            rfl
          have hidle : run.job.vadInFlight = false := by
            rw [hinv.slot, hjob]
            rfl
          by_cases hsilent : ∃ config, run.job.Silent config
          · exact ⟨.refresh, _, hstep .refresh trivial, .inl hsilent⟩
          by_cases hready : run.job.hasVadReady = true
          · exact ⟨.sendVad true, _, hstep (.sendVad true) hready, .inl rfl⟩
          obtain hcomplete | hnow | hplan :=
            complete_or_ready hclosed hinFlight hidle (not_exists.mp hsilent)
          · exact ⟨.finish, _, hstep .finish hcomplete, .inr rfl⟩
          · exact absurd hnow hready
          · have hmay : run.job.mayDispatch maxInFlight = true :=
              ActiveLiveJob.mayDispatch_iff.mpr ⟨by omega, hidle, hplan⟩
            exact ⟨.dispatch true, _, hstep (.dispatch true)
              ⟨Bool.eq_false_of_not_eq_true hready, hmay⟩, .inl trivial⟩

/-- A job is removed with its terminal response. -/
theorem finished_of_removed {jobId : Nat} {header : RequestHeader} {chunkRx : ChunkReceiver}
    {vadEnabled : Bool} {events : List Event}
    (h : Run (Step maxInFlight) (start jobId header chunkRx vadEnabled) events run)
    (hremoved : run.removed = true) :
    ∃ front result, run.job.responseTx = front ++ [.finished result] := by
  cases h with
  | refl => cases hremoved
  | snoc hrun hstep =>
      obtain ⟨⟨hbefore, henabled⟩, rfl⟩ := step_eq_some_iff.mp hstep
      rename_i event
      cases event with
      | finish =>
          have hcomplete : ActiveLiveJob.isComplete _ = true := henabled
          simp only [next, ActiveLiveJob.finishIfComplete, if_pos hcomplete]
          exact ⟨_, _, rfl⟩
      | abort error => exact ⟨_, _, rfl⟩
      | _ => exact absurd (hremoved.symm.trans hbefore) (by decide)

/-- What holds in every reachable state of a closed job. -/
structure Closed (maxInFlight : Nat) (vad : Option VadConfig) (run : LiveRun) : Prop where
  audio : AudioInvariant vad run
  delivery : Delivery maxInFlight run
  closed : run.job.producerClosed = true

theorem Closed.step {vad : Option VadConfig} {event : Event} (h : Closed maxInFlight vad run)
    (hwindow : ∀ config ∈ vad, 1 ≤ config.windowSamples)
    (hstep : Step maxInFlight run event run') : Closed maxInFlight vad run' where
  audio := h.audio.step hwindow (audioStep hstep)
  delivery := h.delivery.step hstep
  closed := producerClosed_of_step hstep h.closed

/-- A run of a closed job pays for all its dispatches and answers out of the work it began with. -/
theorem Closed.of_run {vad : Option VadConfig} {events : List Event} (h : Closed maxInFlight vad run)
    (hwindow : ∀ config ∈ vad, 1 ≤ config.windowSamples)
    (hrun : Run (Step maxInFlight) run events run') :
    Closed maxInFlight vad run' ∧ work run' + (events.map Event.cost).sum ≤ work run :=
  hrun.cost_le h fun _ _ _ hclosed hstep =>
    ⟨hclosed.step hwindow hstep,
      work_add_cost_le hclosed.audio hwindow hclosed.delivery hclosed.closed hstep⟩

/-- **A closed job always terminates and never gets stuck.** Refreshed and with nothing in flight it
is complete, or ready for VAD, or has a window to dispatch. The work it has left goes down with every
step that works, and bounds the dispatches and answers of every run; and a run that is as long as
possible has ended in the terminal response. -/
theorem closed_job_terminates {jobId : Nat} {header : RequestHeader} {chunkRx : ChunkReceiver}
    {vadEnabled : Bool} {events : List Event}
    (hwindow : vadEnabled = true → 1 ≤ (VadConfig.ofHeader header).windowSamples)
    (hmax : 1 ≤ maxInFlight)
    (h : Run (Step maxInFlight) (start jobId header chunkRx vadEnabled) events run)
    (hclosed : run.job.producerClosed = true) :
    (run.job.inFlight = 0 → run.job.vadInFlight = false →
      run.job.refreshSpeechState.isComplete = true ∨
        run.job.refreshSpeechState.hasVadReady = true ∨
        ∃ plan, run.job.refreshSpeechState.nextDispatchPlan = some plan) ∧
      (∀ event run', Step maxInFlight run event run' → run.Working event → work run' < work run) ∧
      (∀ more run', Run (Step maxInFlight) run more run' →
        (more.map Event.cost).sum ≤ work run) ∧
      ∀ more run', Run (Step maxInFlight) run more run' →
        (∃ event run'', Step maxInFlight run' event run'' ∧ run'.Advancing event) ∨
          (run'.removed = true ∧
            ∃ front result, run'.job.responseTx = front ++ [.finished result]) := by
  have hpos := windowSamples_pos hwindow
  have hstart : Closed maxInFlight
      (if vadEnabled then some (VadConfig.ofHeader header) else none) run :=
    ⟨audioInvariant hwindow h, .of_run h, hclosed⟩
  refine ⟨?_, ?_, ?_, ?_⟩
  · intro hinFlight hidle
    obtain ⟨hclosed', hinFlight', hidle'⟩ := refreshSpeechState_frame run.job
    exact complete_or_ready (hclosed'.trans hclosed) (hinFlight'.trans hinFlight)
      (hidle'.trans hidle) (not_silent_refreshSpeechState run.job)
  · intro event run' hstep hworking
    exact work_lt_of_working hstart.audio hpos hstart.delivery hclosed hstep hworking
  · intro more run' hrun
    have hwork := (hstart.of_run hpos hrun).2
    omega
  · intro more run' hrun
    have hend := (hstart.of_run hpos hrun).1
    cases hremoved : run'.removed with
    | true => exact .inr ⟨rfl, finished_of_removed (h.trans hrun) hremoved⟩
    | false => exact .inl (exists_advancing hend.audio hend.delivery hmax hend.closed hremoved)

/-- The three samples, closed and scanned by nobody yet: the job is ready for VAD. -/
theorem closed_job_terminates_word : ∃ run,
    Run (Step 3) (start 7 wordHeader {} true) (wordEvents.take 3) run ∧ work run = 13 ∧
      (run.job.refreshSpeechState.isComplete = true ∨
        run.job.refreshSpeechState.hasVadReady = true ∨
        ∃ plan, run.job.refreshSpeechState.nextDispatchPlan = some plan) ∧
      (∀ event run', Step 3 run event run' → run.Working event → work run' < 13) ∧
      (∀ more run', Run (Step 3) run more run' → (more.map Event.cost).sum ≤ 13) ∧
      ∀ more run', Run (Step 3) run more run' →
        (∃ event run'', Step 3 run' event run'' ∧ run'.Advancing event) ∨
          (run'.removed = true ∧
            ∃ front result, run'.job.responseTx = front ++ [.finished result]) := by
  have hrun : (((wordEvents.take 3).foldlM (step 3) (start 7 wordHeader {} true)).map fun run =>
      (run.job.producerClosed, run.job.inFlight, run.job.vadInFlight, work run)) =
        some (true, 0, false, 13) := by
    decide +kernel
  obtain ⟨run, hfold, hview⟩ := Option.map_eq_some_iff.mp hrun
  simp only [Prod.mk.injEq] at hview
  obtain ⟨hclosed, hinFlight, hidle, hwork⟩ := hview
  have h : Run (Step 3) (start 7 wordHeader {} true) (wordEvents.take 3) run :=
    Run.of_foldlM (fun _ _ _ hstep => hstep) hfold
  obtain ⟨hready, hlower, hcost, hend⟩ :=
    closed_job_terminates (fun _ => by decide) (by decide) h hclosed
  rw [hwork] at hlower hcost
  exact ⟨run, h, hwork, hready hinFlight hidle, hlower, hcost, hend⟩

end LiveRun

end RkWhisper
