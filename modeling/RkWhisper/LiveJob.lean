import Mathlib.Tactic
import RkWhisper.DaemonStream
import RkWhisper.Options
import RkWhisper.Vad

/-!
# A live transcription job

`ActiveLiveJob` and its methods. `responseTx` is everything the job has sent to its session; a send
that fails is ignored by the source, and here it is part of that list. What a job hands to a worker
is returned. A method that sends to a worker takes whether the send succeeds. All jobs of a scheduler
carry the same tokenizer, which is left to the workers.
-/

namespace RkWhisper

structure RequestHeader where
  model : String := ""
  lang : String := "en"
  task : String := "transcribe"
  maxNewTokens : UInt64 := 128
  beamSize : UInt64 := 5
  notimestamps : Bool := false
  suppressTokens : String := "default"
  vadThreshold : Option F32 := none
  vadMinSpeechMs : Option UInt32 := none
  vadMinSilenceMs : Option UInt32 := none
  vadSpeechPadMs : Option UInt32 := none
  vadWindowSamples : Option UInt64 := none
deriving DecidableEq

def requestHeaderFromHello (hello : ClientHello) : RequestHeader :=
  { model := hello.model
    lang := hello.lang
    task := hello.task
    maxNewTokens := hello.maxNewTokens
    beamSize := hello.beamSize
    notimestamps := hello.notimestamps
    suppressTokens := hello.suppressTokens
    vadThreshold := hello.vad.threshold
    vadMinSpeechMs := hello.vad.minSpeechMs
    vadMinSilenceMs := hello.vad.minSilenceMs
    vadSpeechPadMs := hello.vad.speechPadMs
    vadWindowSamples := hello.vad.windowSamples }

structure LiveTranscriptionStats where
  windowsDispatched : Nat := 0
  windowsCompleted : Nat := 0
deriving DecidableEq

structure TranscriptSegment where
  startSec : F32
  endSec : F32
  text : String
  tokens : List UInt32
  windowIndex : Nat
deriving DecidableEq

structure WindowTranscription where
  windowIndex : Nat
  absoluteStartSec : F32
  text : String
  segments : List TranscriptSegment
deriving DecidableEq

structure WhisperJob where
  jobId : Nat
  windowIndex : Nat
  absoluteStartSec : F32
  startSample : Nat
  endSample : Nat
  samples : List F32
  options : TranscribeOptions
deriving DecidableEq

structure VadJob where
  jobId : Nat
  windowIndex : Nat
  startSample : Nat
  samples : List F32
  state : List F32
  windowSamples : Nat
deriving DecidableEq

structure VadResult where
  jobId : Nat
  windowIndex : Nat
  startSample : Nat
  probability : F32
  state : List F32
deriving DecidableEq

inductive JobResponse where
  | segment (text : String) (begin_ end_ : F32)
  | speechStarted (begin_ : F32)
  | speechEnded (end_ : F32)
  | finished (result : Except Error LiveTranscriptionStats)

/-- The receiving end of the channel of chunks: what is waiting in it, and whether the reader has
dropped its sender. -/
structure ChunkReceiver where
  queue : List (Except Error LiveChunk) := []
  disconnected : Bool := false

structure ActiveLiveJob where
  jobId : Nat
  chunkRx : ChunkReceiver
  responseTx : List JobResponse := []
  audioBuffer : List F32 := []
  absoluteOffsetSamples : Nat := 0
  vadConfig : Option VadConfig
  vadState : List F32 := List.replicate (2 * 128) (F32.ofNat 0)
  vadProcessedSamples : Nat := 0
  vadInFlight : Bool := false
  nextVadWindowIndex : Nat := 0
  probs : List (Nat × F32) := []
  stats : LiveTranscriptionStats := {}
  inFlight : Nat := 0
  nextWindowIndex : Nat := 0
  producerClosed : Bool := false
  pendingResults : Std.TreeMap Nat WindowTranscription := ∅
  nextResultIndex : Nat := 0
  options : TranscribeOptions

structure DispatchPlan where
  startSample : Nat
  endSample : Nat
  speechEvents : List (Nat × Nat)
deriving DecidableEq

def VadConfig.ofHeader (header : RequestHeader) : VadConfig :=
  let defaults : VadConfig := {}
  { threshold := header.vadThreshold.getD defaults.threshold
    minSpeechMs := header.vadMinSpeechMs.getD defaults.minSpeechMs
    minSilenceMs := header.vadMinSilenceMs.getD defaults.minSilenceMs
    speechPadMs := header.vadSpeechPadMs.getD defaults.speechPadMs
    windowSamples := (header.vadWindowSamples.map UInt64.toNat).getD defaults.windowSamples }

def TranscribeOptions.ofHeader (header : RequestHeader) : TranscribeOptions :=
  { lang := header.lang
    task := header.task
    notimestamps := header.notimestamps
    maxNewTokens := header.maxNewTokens.toNat
    beamSize := header.beamSize.toNat
    suppressTokens := (SuppressTokens.parse header.suppressTokens).toOption.getD .default }

/-- The responses of one window. -/
def WindowTranscription.responses (result : WindowTranscription) : List JobResponse :=
  result.segments.map fun segment => .segment segment.text segment.startSec segment.endSec

namespace ActiveLiveJob

def new (jobId : Nat) (header : RequestHeader) (chunkRx : ChunkReceiver) (vadEnabled : Bool) :
    ActiveLiveJob :=
  { jobId, chunkRx
    vadConfig := if vadEnabled then some (VadConfig.ofHeader header) else none
    options := .ofHeader header }

def send (job : ActiveLiveJob) (responses : List JobResponse) : ActiveLiveJob :=
  { job with responseTx := job.responseTx ++ responses }

def isComplete (job : ActiveLiveJob) : Bool :=
  job.producerClosed && job.audioBuffer.isEmpty && job.inFlight == 0 && !job.vadInFlight

def finishIfComplete (job : ActiveLiveJob) : Bool × ActiveLiveJob :=
  if job.isComplete then (true, job.send [.finished (.ok job.stats)]) else (false, job)

def acceptChunk (job : ActiveLiveJob) : Option (Except Error LiveChunk) → ActiveLiveJob
  | some (.ok chunk) => { job with audioBuffer := job.audioBuffer ++ chunk.samples }
  | some (.error error) =>
      { job.send [.finished (.error error)] with producerClosed := true }
  | none => { job with producerClosed := true }

/-- One job's share of `drain_live_chunks`: the loop of `try_recv` ends at an empty channel, or at a
disconnected one. -/
def drainLiveChunks (maxInFlight : Nat) (job : ActiveLiveJob) : ActiveLiveJob :=
  if job.producerClosed ∨ maxInFlight ≤ job.inFlight then job
  else
    let drained := job.chunkRx.queue.foldl (fun job chunk => job.acceptChunk (some chunk))
      { job with chunkRx := { job.chunkRx with queue := [] } }
    if job.chunkRx.disconnected then drained.acceptChunk none else drained

def segments (job : ActiveLiveJob) (config : VadConfig) : List VadSegment :=
  segmentsFromProbs job.audioBuffer.length job.probs config

/-- Speech has ended: the rest of the buffer is silence. -/
def refreshSpeechState (job : ActiveLiveJob) : ActiveLiveJob :=
  if job.audioBuffer = [] then job
  else
    match job.vadConfig with
    | none => job
    | some config =>
        if (job.segments config).isEmpty ∧ job.producerClosed ∧ ¬ job.vadInFlight ∧
            job.audioBuffer.length ≤ job.vadProcessedSamples then
          { job with
            absoluteOffsetSamples := job.absoluteOffsetSamples + job.audioBuffer.length
            audioBuffer := []
            probs := [] }
        else job

/-- The loop over the segments ends at the first that does not fit; when that is the first of all,
the index is `0` nevertheless. -/
def lastFittingIdx (firstStart : Nat) (segments : List VadSegment) : Nat :=
  (segments.takeWhile fun segment => decide (segment.endSample - firstStart ≤ 480000)).length - 1

/-- Where the audio is cut, for segments beginning with `first`. -/
def planOfSegments (job : ActiveLiveJob) (first : VadSegment) (segments : List VadSegment) :
    Option DispatchPlan :=
  let lastFittingIdx := lastFittingIdx first.startSample segments
  let lastFitting := segments.getD lastFittingIdx first
  let silenceTimeoutSamples := 32000
  let isTimeout : Bool := silenceTimeoutSamples ≤ job.audioBuffer.length - lastFitting.endSample
  let hasOverflowingSegment : Bool := lastFittingIdx + 1 < segments.length
  let isFullWindow : Bool := 480000 ≤ lastFitting.endSample - first.startSample
  if hasOverflowingSegment || isFullWindow || isTimeout ||
      (job.producerClosed && !job.audioBuffer.isEmpty) then
    let dispatchEnd := if isFullWindow then first.startSample + 480000 else lastFitting.endSample
    some
      { startSample := first.startSample
        endSample := dispatchEnd
        speechEvents := (segments.take (lastFittingIdx + 1)).map fun segment =>
          (segment.startSample, min segment.endSample dispatchEnd) }
  else none

def nextDispatchPlan (job : ActiveLiveJob) : Option DispatchPlan :=
  match job.vadConfig with
  | some config =>
      match job.segments config with
      | [] => none
      | first :: rest => job.planOfSegments first (first :: rest)
  | none =>
      if 480000 ≤ job.audioBuffer.length ∨ (job.producerClosed ∧ ¬ job.audioBuffer.isEmpty) then
        some
          { startSample := 0
            endSample := min 480000 job.audioBuffer.length
            speechEvents := [] }
      else none

def hasVadReady (job : ActiveLiveJob) : Bool :=
  match job.vadConfig with
  | none => false
  | some config =>
      if job.vadInFlight then false
      else if job.audioBuffer.length ≤ job.vadProcessedSamples then false
      else if job.audioBuffer.length - job.vadProcessedSamples < config.windowSamples ∧
          ¬ job.producerClosed then false
      else true

def nextVadJob (job : ActiveLiveJob) : Option VadJob × ActiveLiveJob :=
  match job.vadConfig with
  | none => (none, job)
  | some config =>
      if job.hasVadReady then
        let start := job.vadProcessedSamples
        let end_ := min (start + config.windowSamples) job.audioBuffer.length
        (some
          { jobId := job.jobId
            windowIndex := job.nextVadWindowIndex
            startSample := start
            samples := (job.audioBuffer.take end_).drop start
            state := job.vadState
            windowSamples := config.windowSamples },
          { job with
            vadInFlight := true
            nextVadWindowIndex := job.nextVadWindowIndex + 1 })
      else (none, job)

/-- The VAD branch of `dispatch_ready_live_window`: a failed send takes the job back. -/
def sendVadJob (job : ActiveLiveJob) (sent : Bool) : Option VadJob × ActiveLiveJob :=
  match job.nextVadJob with
  | (none, job) => (none, job)
  | (some vadJob, job) =>
      if sent then (some vadJob, job) else (none, { job with vadInFlight := false })

def handleVadResult (job : ActiveLiveJob) (result : VadResult) : ActiveLiveJob :=
  let windowSamples := (job.vadConfig.map VadConfig.windowSamples).getD 0
  { job with
    vadInFlight := false
    vadState := result.state
    vadProcessedSamples := min (result.startSample + windowSamples) job.audioBuffer.length
    probs := job.probs ++ [(result.startSample, result.probability)] }

def speechResponses (job : ActiveLiveJob) (plan : DispatchPlan) : List JobResponse :=
  plan.speechEvents.flatMap fun (start, end_) =>
    [.speechStarted (samplesToSec (job.absoluteOffsetSamples + start)),
      .speechEnded (samplesToSec (job.absoluteOffsetSamples + end_))]

/-- What `dispatch_to_worker` cuts off the front of the buffer. -/
def cut (job : ActiveLiveJob) (plan : DispatchPlan) : ActiveLiveJob :=
  { job.send (job.speechResponses plan) with
    audioBuffer := job.audioBuffer.drop plan.endSample
    absoluteOffsetSamples := job.absoluteOffsetSamples + plan.endSample
    probs := (job.probs.filter fun recorded => decide (plan.endSample ≤ recorded.1)).map
      fun recorded => (recorded.1 - plan.endSample, recorded.2)
    vadProcessedSamples := job.vadProcessedSamples - plan.endSample }

def whisperJob (job : ActiveLiveJob) (plan : DispatchPlan) : WhisperJob :=
  let segmentSamples := (job.audioBuffer.take plan.endSample).drop plan.startSample
  { jobId := job.jobId
    windowIndex := job.nextWindowIndex
    absoluteStartSec := samplesToSec (job.absoluteOffsetSamples + plan.startSample)
    startSample := 0
    endSample := segmentSamples.length
    samples := segmentSamples
    options := job.options }

def countDispatch (job : ActiveLiveJob) : ActiveLiveJob :=
  { job with
    inFlight := job.inFlight + 1
    stats := { job.stats with windowsDispatched := job.stats.windowsDispatched + 1 }
    nextWindowIndex := job.nextWindowIndex + 1 }

/-- The audio is cut off whether or not the send succeeds. -/
def dispatchToWorker (job : ActiveLiveJob) (sent : Bool) : Option WhisperJob × ActiveLiveJob :=
  match job.nextDispatchPlan with
  | none => (none, job)
  | some plan =>
      if sent then (some (job.whisperJob plan), (job.cut plan).countDispatch)
      else (none, job.cut plan)

/-- One round of the loop of `handle_result`. -/
def emitResult (job : ActiveLiveJob) (result : WindowTranscription) : ActiveLiveJob :=
  { job with
    responseTx := job.responseTx ++ result.responses
    pendingResults := job.pendingResults.erase job.nextResultIndex
    nextResultIndex := job.nextResultIndex + 1 }

/-- The loop `while let Some(result) = self.pending_results.remove(&self.next_result_index)`; every
round takes one result out, so that as many rounds as there are results are enough. -/
def emitResults : Nat → ActiveLiveJob → ActiveLiveJob
  | 0, job => job
  | rounds + 1, job =>
      match job.pendingResults[job.nextResultIndex]? with
      | none => job
      | some result => emitResults rounds (job.emitResult result)

def handleResult (job : ActiveLiveJob) (result : WindowTranscription) : ActiveLiveJob :=
  let pendingResults := job.pendingResults.insert result.windowIndex result
  emitResults pendingResults.size
    { job with
      inFlight := job.inFlight - 1
      stats := { job.stats with windowsCompleted := job.stats.windowsCompleted + 1 }
      pendingResults }

end ActiveLiveJob

end RkWhisper
