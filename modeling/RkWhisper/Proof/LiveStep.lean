import RkWhisper.Proof.LiveJob

/-!
# What a step does to the audio of a job

Every step of a run is one of six: it leaves the audio alone, accepts samples, drops silence, sends
or records a VAD window, or cuts off a Whisper window. The invariants of the timeline are proved for
these six.
-/

namespace RkWhisper

namespace LiveRun

/-- Nothing of the audio differs. -/
structure SameAudio (run run' : LiveRun) : Prop where
  vadConfig : run'.job.vadConfig = run.job.vadConfig
  audioBuffer : run'.job.audioBuffer = run.job.audioBuffer
  offset : run'.job.absoluteOffsetSamples = run.job.absoluteOffsetSamples
  processed : run'.job.vadProcessedSamples = run.job.vadProcessedSamples
  vadInFlight : run'.job.vadInFlight = run.job.vadInFlight
  probs : run'.job.probs = run.job.probs
  producerClosed : run'.job.producerClosed = run.job.producerClosed
  vadJob : run'.vadJob = run.vadJob
  accepted : run'.accepted = run.accepted
  recorded : run'.recorded = run.recorded
  dispatched : run'.dispatched = run.dispatched

def accept (run : LiveRun) (samples : List F32) (closed : Bool) : LiveRun :=
  { run with
    job := { run.job with
      audioBuffer := run.job.audioBuffer ++ samples
      producerClosed := closed }
    accepted := run.accepted ++ samples }

def clear (run : LiveRun) : LiveRun := { run with job := run.job.clear }

def scan (run : LiveRun) (config : VadConfig) (sent : Bool) : LiveRun :=
  { run with
    job := { run.job with
      vadInFlight := sent
      nextVadWindowIndex := run.job.nextVadWindowIndex + 1 }
    vadJob := if sent then some (run.job.vadJobAt config) else none }

def record (run : LiveRun) (result : VadResult) : LiveRun :=
  { run with
    job := run.job.handleVadResult result
    vadJob := none
    recorded := run.recorded ++
      [(run.job.absoluteOffsetSamples + result.startSample, result.probability)] }

/-- The window that a plan makes of the stream. -/
def window (run : LiveRun) (plan : DispatchPlan) : DispatchedWindow :=
  { startSample := run.job.absoluteOffsetSamples + plan.startSample
    stopSample := run.job.absoluteOffsetSamples + plan.endSample
    whisperJob := run.job.whisperJob plan }

def cut (run : LiveRun) (plan : DispatchPlan) (sent : Bool) : LiveRun :=
  { run with
    job := run.job.cut plan
    dispatched := run.dispatched ++ if sent then [run.window plan] else [] }

/-- **The six kinds of steps.** -/
inductive AudioStep (event : Event) (run run' : LiveRun) : Prop where
  | same (h : SameAudio run run')
  | accept (samples : List F32) (closed : Bool)
      (hclosed : run.job.producerClosed = true → samples = [] ∧ closed = true)
      (h : SameAudio (run.accept samples closed) run')
  | clear (config : VadConfig) (hsilent : run.job.Silent config) (h : SameAudio run.clear run')
  | scan (config : VadConfig) (sent : Bool) (hconfig : run.job.vadConfig = some config)
      (hready : run.job.hasVadReady = true) (h : SameAudio (run.scan config sent) run')
  | record (vadJob : VadJob) (result : VadResult) (hjob : run.vadJob = some vadJob)
      (hstart : result.startSample = vadJob.startSample) (h : SameAudio (run.record result) run')
  | cut (plan : DispatchPlan) (sent : Bool) (hevent : event = .dispatch sent)
      (hready : run.job.hasVadReady = false) (hidle : run.job.vadInFlight = false)
      (hplan : run.job.nextDispatchPlan = some plan)
      (h : SameAudio (run.cut plan sent) run')

variable {maxInFlight : Nat} {run run' : LiveRun} {event : Event}

theorem step_eq_some_iff : run.step maxInFlight event = some run' ↔
    (run.removed = false ∧ run.Enabled maxInFlight event) ∧ run.next maxInFlight event = run' := by
  rw [step, Option.ite_none_right_eq_some, Option.some.injEq]

theorem SameAudio.refl (run : LiveRun) : SameAudio run run := by
  constructor <;> rfl

theorem sameAudio_drain (maxInFlight : Nat) (run : LiveRun) : ∃ closed,
    (run.job.producerClosed = true →
      audioOf (run.job.drainedChunks maxInFlight) = [] ∧ closed = true) ∧
    SameAudio (run.accept (audioOf (run.job.drainedChunks maxInFlight)) closed)
      (run.next maxInFlight .drain) := by
  obtain ⟨chunkRx, closed, hdrain, hclosed, -⟩ := run.job.drainLiveChunks_spec maxInFlight
  refine ⟨closed, ?_, ?_⟩
  · intro h
    rw [ActiveLiveJob.drainedChunks_of_closed h]
    exact ⟨rfl, hclosed h⟩
  · simp only [next, hdrain]
    constructor <;> rfl

theorem sameAudio_whisperResult (run : LiveRun) (result : WindowTranscription) :
    SameAudio run (run.next maxInFlight (.whisperResult result)) := by
  obtain ⟨emitted, pending, hjob, -⟩ := run.job.handleResult_spec result
  simp only [next, hjob]
  constructor <;> rfl

theorem dispatchedNow_eq {plan : DispatchPlan} (hplan : run.job.nextDispatchPlan = some plan)
    (sent : Bool) : run.dispatchedNow sent = if sent then [run.window plan] else [] := by
  rw [dispatchedNow, ActiveLiveJob.dispatchToWorker_eq hplan, hplan]
  cases sent <;> rfl

/-- A dispatch cuts its plan off, whether or not the window can be sent. -/
theorem sameAudio_dispatch {plan : DispatchPlan} (hplan : run.job.nextDispatchPlan = some plan)
    (sent : Bool) : SameAudio (run.cut plan sent) (run.next maxInFlight (.dispatch sent)) := by
  simp only [next, ActiveLiveJob.dispatchToWorker_eq hplan, dispatchedNow_eq hplan]
  cases sent <;> constructor <;> rfl

theorem sameAudio_arrive (run : LiveRun) (chunk : Except Error LiveChunk) :
    SameAudio run (run.next maxInFlight (.arrive chunk)) := by
  constructor <;> rfl

theorem sameAudio_hangUp (run : LiveRun) : SameAudio run (run.next maxInFlight .hangUp) := by
  constructor <;> rfl

theorem sameAudio_finish (run : LiveRun) : SameAudio run (run.next maxInFlight .finish) := by
  simp only [next, ActiveLiveJob.finishIfComplete]
  split <;> constructor <;> rfl

theorem sameAudio_abort (run : LiveRun) (error : Error) :
    SameAudio run (run.next maxInFlight (.abort error)) := by
  constructor <;> rfl

theorem audioStep (h : Step maxInFlight run event run') : AudioStep event run run' := by
  obtain ⟨⟨-, henabled⟩, rfl⟩ := step_eq_some_iff.mp h
  cases event with
  | arrive chunk => exact .same (sameAudio_arrive run chunk)
  | hangUp => exact .same (sameAudio_hangUp run)
  | drain =>
      obtain ⟨closed, hclosed, hsame⟩ := sameAudio_drain maxInFlight run
      exact .accept _ closed hclosed hsame
  | refresh =>
      obtain hsame | ⟨config, hsilent⟩ := run.job.refreshSpeechState_cases
      · apply AudioStep.same
        simp only [next, hsame]
        exact .refl run
      · apply AudioStep.clear config hsilent
        simp only [next, ActiveLiveJob.refreshSpeechState_of_silent hsilent]
        exact .refl run.clear
  | sendVad sent =>
      obtain ⟨config, hconfig, -⟩ := ActiveLiveJob.hasVadReady_iff.mp henabled
      apply AudioStep.scan config sent hconfig henabled
      simp only [next, ActiveLiveJob.sendVadJob_of_ready hconfig henabled]
      exact .refl _
  | vadResult result =>
      simp only [Enabled] at henabled
      split at henabled
      · rename_i vadJob hjob
        exact .record vadJob result hjob henabled.2.2 (.refl _)
      · exact henabled.elim
  | dispatch sent =>
      obtain ⟨hready, hmay⟩ := henabled
      obtain ⟨-, hidle, plan, hplan⟩ := ActiveLiveJob.mayDispatch_iff.mp hmay
      exact .cut plan sent rfl hready hidle hplan (sameAudio_dispatch hplan sent)
  | whisperResult result => exact .same (sameAudio_whisperResult run result)
  | finish => exact .same (sameAudio_finish run)
  | abort error => exact .same (sameAudio_abort run error)

end LiveRun

end RkWhisper
