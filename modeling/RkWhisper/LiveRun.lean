import RkWhisper.LiveJob

/-!
# The runs of one live job

One job between the reader that feeds it and the workers that answer it. A run is any order of
arrivals, drains, refreshes, dispatches and answers in which the job only dispatches what
`dispatch_ready_live_window` would let it dispatch. Beside the job stands what an observer has noted:
the samples accepted, the probabilities recorded, the windows dispatched, the answers handled.
-/

namespace RkWhisper

/-- The samples of the chunks that are not errors. -/
def audioOf (chunks : List (Except Error LiveChunk)) : List F32 :=
  chunks.flatMap fun
    | .ok chunk => chunk.samples
    | .error _ => []

namespace ActiveLiveJob

/-- The branch of `dispatch_ready_live_window` for Whisper windows. -/
def mayDispatch (maxInFlight : Nat) (job : ActiveLiveJob) : Bool :=
  decide (job.inFlight < maxInFlight) && !job.vadInFlight && job.nextDispatchPlan.isSome

/-- What `drainLiveChunks` takes from the channel. -/
def drainedChunks (maxInFlight : Nat) (job : ActiveLiveJob) : List (Except Error LiveChunk) :=
  if job.producerClosed ∨ maxInFlight ≤ job.inFlight then [] else job.chunkRx.queue

end ActiveLiveJob

/-- A window that a worker has received: the samples `[startSample, stopSample)` of the stream. -/
structure DispatchedWindow where
  startSample : Nat
  stopSample : Nat
  whisperJob : WhisperJob

/-- `vadJob` and `awaited` are at the workers or on their way back. -/
structure LiveRun where
  job : ActiveLiveJob
  vadJob : Option VadJob := none
  awaited : List Nat := []
  accepted : List F32 := []
  recorded : List (Nat × F32) := []
  dispatched : List DispatchedWindow := []
  answers : List WindowTranscription := []
  removed : Bool := false

namespace LiveRun

inductive Event where
  | arrive (chunk : Except Error LiveChunk)
  | hangUp
  | drain
  | refresh
  | sendVad (sent : Bool)
  | vadResult (result : VadResult)
  | dispatch (sent : Bool)
  | whisperResult (result : WindowTranscription)
  | finish
  | abort (error : Error)

def start (jobId : Nat) (header : RequestHeader) (chunkRx : ChunkReceiver) (vadEnabled : Bool) :
    LiveRun :=
  { job := .new jobId header chunkRx vadEnabled }

/-- What a worker makes of a VAD job. -/
def Answers (result : VadResult) (vadJob : VadJob) : Prop :=
  result.jobId = vadJob.jobId ∧ result.windowIndex = vadJob.windowIndex ∧
    result.startSample = vadJob.startSample

instance (result : VadResult) (vadJob : VadJob) : Decidable (Answers result vadJob) :=
  inferInstanceAs (Decidable (_ ∧ _ ∧ _))

variable (maxInFlight : Nat)

def Enabled (run : LiveRun) : Event → Prop
  | .arrive _ => run.job.chunkRx.disconnected = false
  | .hangUp => True
  | .drain => True
  | .refresh => True
  | .sendVad _ => run.job.hasVadReady = true
  | .vadResult result =>
      match run.vadJob with
      | some vadJob => Answers result vadJob
      | none => False
  | .dispatch _ => run.job.hasVadReady = false ∧ run.job.mayDispatch maxInFlight = true
  | .whisperResult result => result.windowIndex ∈ run.awaited
  | .finish => run.job.isComplete = true
  | .abort _ => True

instance (run : LiveRun) (event : Event) : Decidable (run.Enabled maxInFlight event) :=
  match event with
  | .arrive _ => inferInstanceAs (Decidable (_ = _))
  | .hangUp => inferInstanceAs (Decidable True)
  | .drain => inferInstanceAs (Decidable True)
  | .refresh => inferInstanceAs (Decidable True)
  | .sendVad _ => inferInstanceAs (Decidable (_ = _))
  | .vadResult result =>
      match hjob : run.vadJob with
      | some vadJob => decidable_of_iff (Answers result vadJob) (by simp [Enabled, hjob])
      | none => isFalse (by simp [Enabled, hjob])
  | .dispatch _ => inferInstanceAs (Decidable (_ ∧ _))
  | .whisperResult _ => inferInstanceAs (Decidable (_ ∈ _))
  | .finish => inferInstanceAs (Decidable (_ = _))
  | .abort _ => inferInstanceAs (Decidable True)

/-- The window that a successful dispatch adds to the notes. -/
def dispatchedNow (run : LiveRun) (sent : Bool) : List DispatchedWindow :=
  match run.job.nextDispatchPlan, (run.job.dispatchToWorker sent).1 with
  | some plan, some whisperJob =>
      [{ startSample := run.job.absoluteOffsetSamples + plan.startSample
         stopSample := run.job.absoluteOffsetSamples + plan.endSample
         whisperJob }]
  | _, _ => []

def next (run : LiveRun) : Event → LiveRun
  | .arrive chunk =>
      { run with
        job := { run.job with
          chunkRx := { run.job.chunkRx with queue := run.job.chunkRx.queue ++ [chunk] } } }
  | .hangUp =>
      { run with
        job := { run.job with chunkRx := { run.job.chunkRx with disconnected := true } } }
  | .drain =>
      { run with
        job := run.job.drainLiveChunks maxInFlight
        accepted := run.accepted ++ audioOf (run.job.drainedChunks maxInFlight) }
  | .refresh => { run with job := run.job.refreshSpeechState }
  | .sendVad sent =>
      { run with
        job := (run.job.sendVadJob sent).2
        vadJob := (run.job.sendVadJob sent).1 }
  | .vadResult result =>
      { run with
        job := run.job.handleVadResult result
        vadJob := none
        recorded := run.recorded ++
          [(run.job.absoluteOffsetSamples + result.startSample, result.probability)] }
  | .dispatch sent =>
      { run with
        job := (run.job.dispatchToWorker sent).2
        awaited := run.awaited ++
          (run.job.dispatchToWorker sent).1.toList.map WhisperJob.windowIndex
        dispatched := run.dispatched ++ run.dispatchedNow sent }
  | .whisperResult result =>
      { run with
        job := run.job.handleResult result
        awaited := run.awaited.erase result.windowIndex
        answers := run.answers ++ [result] }
  | .finish => { run with job := run.job.finishIfComplete.2, removed := true }
  | .abort error => { run with job := run.job.send [.finished (.error error)], removed := true }

/-- A job that has been removed takes no step. -/
def step (run : LiveRun) (event : Event) : Option LiveRun :=
  if run.removed = false ∧ run.Enabled maxInFlight event then some (run.next maxInFlight event)
  else none

abbrev Step (run : LiveRun) (event : Event) (run' : LiveRun) : Prop :=
  run.step maxInFlight event = some run'

end LiveRun

end RkWhisper
