import RkWhisper.Lib.ReorderBuffer
import RkWhisper.Windows
import RkWhisper.WorkerPool

/-!
# Transcribing a whole recording

Two drivers go over the windows of a recording. `transcribe_audio_with_options` takes one after the
other; `ParallelTranscriberPool` sends them to its workers and puts the results back in order. What
the models make of one window is a parameter.
-/

namespace RkWhisper

structure Transcription where
  text : String
  segments : List TranscriptSegment
  vadSegments : List VadSegment
deriving DecidableEq

/-- What the models make of the samples, the index and the start of a window, with these options. -/
abbrev WindowModel :=
  TranscribeOptions → List F32 → Nat → F32 → Nat → Nat →
    Except Error (String × List TranscriptSegment)

def transcribeWindowSamples (model : WindowModel) (wave : List F32) (windowIndex : Nat)
    (absoluteStartSec : F32) (windowStartSample windowEndSample : Nat)
    (options : TranscribeOptions) : Except Error WindowTranscription :=
  (model options wave windowIndex absoluteStartSec windowStartSample windowEndSample).map
    fun (text, segments) => { windowIndex, absoluteStartSec, text, segments }

/-! ### One window after the other -/

def transcribeAudioWindow (model : WindowModel) (audio : List F32) (window : AudioWindow)
    (absoluteStartSec : F32) (options : TranscribeOptions) : Except Error WindowTranscription :=
  transcribeWindowSamples model (window.samples audio) window.index absoluteStartSec
    window.startSample window.endSample options

def transcribeAudioWithOptions (model : WindowModel) (audio : List F32)
    (vadSegments : List VadSegment) (options : TranscribeOptions) : Except Error Transcription :=
  let windows := if ¬ vadSegments.isEmpty then vadAudioWindows vadSegments
    else fixedAudioWindows audio.length
  let transcribed := windows.foldlM (m := Except Error) (fun (fullText, segments) window =>
    let absoluteStartSec := samplesToSec window.startSample
    (transcribeAudioWindow model audio window absoluteStartSec options).map fun result =>
      (fullText ++ result.text ++ " ", segments ++ result.segments)) ("", [])
  transcribed.map fun (fullText, segments) => { text := trim fullText, segments, vadSegments }

/-! ### Windows for the workers -/

/-- The job that `dispatch_windows` makes of a window. -/
def AudioWindow.whisperJob (window : AudioWindow) (audio : List F32)
    (options : TranscribeOptions) : WhisperJob :=
  { jobId := 0
    windowIndex := window.index
    absoluteStartSec := samplesToSec window.startSample
    startSample := window.startSample
    endSample := window.endSample
    samples := window.samples audio
    options }

/-- `dispatch_windows`, as one announcement after the other comes in. -/
def dispatchWindows (audio : List F32) (options : TranscribeOptions) :
    List AudioWindow → List (Fin npuWorkers) → List (Fin npuWorkers × WhisperJob)
  | window :: pending, workerId :: ready =>
      (workerId, window.whisperJob audio options) :: dispatchWindows audio options pending ready
  | _, _ => []

/-- `transcribe_window`, and what the loop of the worker makes of its result. -/
def WhisperJob.transcribeWindow (model : WindowModel) (workerId : Fin npuWorkers)
    (job : WhisperJob) : Except Error NpuResult :=
  match transcribeWindowSamples model job.samples job.windowIndex job.absoluteStartSec
      job.startSample job.endSample job.options with
  | .ok transcription => .ok (.whisper { jobId := job.jobId, transcription })
  | .error error => .error (WorkerOutcome.failure workerId error (.whisper job))

/-! ### Results in order -/

/-- A callback may remember what it has been called with. -/
abbrev SegmentCallback := List TranscriptSegment → TranscriptSegment → Except Error Unit

/-- The locals of `collect_ordered_with_callback`; `notified` is what `on_segment` has been called
with, and `failed` is the error it returns. -/
structure Collector extends ReorderBuffer WindowTranscription where
  fullText : String := ""
  segments : List TranscriptSegment := []
  notified : List TranscriptSegment := []
  failed : Option Error := none

namespace Collector

variable (onSegment : SegmentCallback)

/-- The loop over the segments of a window, which a failing callback ends. -/
def notify : List TranscriptSegment → List TranscriptSegment →
    List TranscriptSegment × Option Error
  | notified, [] => (notified, none)
  | notified, segment :: segments =>
      match onSegment notified segment with
      | .ok () => notify (notified ++ [segment]) segments
      | .error error => (notified ++ [segment], some error)

/-- One round of the loop `while let Some(result) = pending.remove(&next)`. -/
def emitResult (collector : Collector) (result : WindowTranscription) : Collector :=
  let fullText := collector.fullText ++ result.text ++ " "
  match notify onSegment collector.notified result.segments with
  | (notified, some error) =>
      { collector with
        pending := collector.pending.erase collector.next
        fullText, notified
        failed := some error }
  | (notified, none) =>
      { collector with
        toReorderBuffer := collector.advance
        fullText, notified
        segments := collector.segments ++ result.segments }

/-- Every round takes one result out, so that as many rounds as there are results are enough. -/
def emitResults : Nat → Collector → Collector
  | 0, collector => collector
  | rounds + 1, collector =>
      match collector.pending[collector.next]? with
      | none => collector
      | some result =>
          let collector := collector.emitResult onSegment result
          if collector.failed.isSome then collector else emitResults rounds collector

/-- One round of the loop `while next < total_windows`. -/
def receive (collector : Collector) : Except Error NpuResult → Collector
  | .error error => { collector with failed := some error }
  | .ok (.vad _) => collector
  | .ok (.whisper result) =>
      let buffer := collector.insert result.transcription.windowIndex result.transcription
      emitResults onSegment buffer.pending.size { collector with toReorderBuffer := buffer }

/-- The function has returned. -/
def done (totalWindows : Nat) (collector : Collector) : Bool :=
  collector.failed.isSome || decide (totalWindows ≤ collector.next)

def result (vadSegments : List VadSegment) (collector : Collector) : Except Error Transcription :=
  match collector.failed with
  | some error => .error error
  | none => .ok { text := trim collector.fullText, segments := collector.segments, vadSegments }

def closed (collector : Collector) : Collector :=
  { collector with failed := some (.other "result channel closed before all windows completed") }

end Collector

/-- `collect_ordered_with_callback` on a channel in which these results come in, and no more. -/
def collectOrdered (onSegment : SegmentCallback) (totalWindows : Nat) :
    List (Except Error NpuResult) → Collector → Collector
  | [], collector => if collector.done totalWindows then collector else collector.closed
  | result :: resultRx, collector =>
      if collector.done totalWindows then collector
      else collectOrdered onSegment totalWindows resultRx (collector.receive onSegment result)

/-- `transcribe_audio_with_segment_callback` when these results come in: what it returns, and what it
calls `on_segment` with. -/
def transcribeAudioWithSegmentCallback (onSegment : SegmentCallback) (audio : List F32)
    (vadSegments : List VadSegment) (resultRx : List (Except Error NpuResult)) :
    Except Error Transcription × List TranscriptSegment :=
  let windows := transcriptionWindows audio.length vadSegments
  if windows.isEmpty then (.ok { text := "", segments := [], vadSegments }, [])
  else
    let collector := collectOrdered onSegment windows.length resultRx {}
    (collector.result vadSegments, collector.notified)

/-! ### Calls on one pool -/

/-- A call of `transcribe_audio_with_segment_callback`: `pending` belongs to `dispatch_windows`. -/
structure PoolCall where
  audio : List F32
  vadSegments : List VadSegment
  options : TranscribeOptions
  onSegment : SegmentCallback
  pending : List AudioWindow
  totalWindows : Nat
  collector : Collector := {}

structure ReturnedCall where
  audio : List F32
  vadSegments : List VadSegment
  options : TranscribeOptions
  result : Except Error Transcription

structure ParallelTranscriberPool where
  pool : WorkerPool := {}
  call : Option PoolCall := none
  returned : List ReturnedCall := []

namespace ParallelTranscriberPool

inductive Event where
  | call (audio : List F32) (vadSegments : List VadSegment) (options : TranscribeOptions)
      (onSegment : SegmentCallback)
  | dispatch
  | receive
  | join
  | worker (workerId : Fin npuWorkers) (event : WorkerEvent)

/-- All threads have ended, and the channels are closed. -/
def stopped (s : ParallelTranscriberPool) : Bool :=
  decide (∀ workerId, (s.pool.workers workerId).phase.receives = false)

def returnCall (s : ParallelTranscriberPool) (call : PoolCall)
    (result : Except Error Transcription) : ParallelTranscriberPool :=
  { s with
    call := none
    returned := s.returned ++
      [{ audio := call.audio, vadSegments := call.vadSegments, options := call.options, result }] }

/-- `transcribe_audio_with_segment_callback` up to `try_join!`. -/
def startCall (s : ParallelTranscriberPool) (audio : List F32) (vadSegments : List VadSegment)
    (options : TranscribeOptions) (onSegment : SegmentCallback) : ParallelTranscriberPool :=
  let windows := transcriptionWindows audio.length vadSegments
  let call : PoolCall :=
    { audio, vadSegments, options, onSegment, pending := windows, totalWindows := windows.length }
  if windows.isEmpty then s.returnCall call (.ok { text := "", segments := [], vadSegments })
  else { s with call := some call }

/-- One round of the loop of `dispatch_windows`. -/
def dispatch (s : ParallelTranscriberPool) (call : PoolCall) : Option ParallelTranscriberPool :=
  match call.pending, s.pool.readyRx with
  | [], _ => none
  | _ :: _, [] =>
      if s.stopped then some (s.returnCall call (.error (.other "all NPU workers stopped")))
      else none
  | window :: pending, workerId :: readyRx =>
      if (s.pool.workers workerId).phase.receives then
        let job := window.whisperJob call.audio call.options
        ({ s.pool with readyRx }.send workerId (.whisper job)).map fun pool =>
          { s with pool, call := some { call with pending } }
      else
        some ({ s with pool := { s.pool with readyRx } }.returnCall call
          (.error (.other s!"worker {workerId} stopped before accepting a job")))

/-- One round of the loop of `collect_ordered_with_callback`. -/
def receive (s : ParallelTranscriberPool) (call : PoolCall) : Option ParallelTranscriberPool :=
  if call.collector.done call.totalWindows then none
  else
    match s.pool.resultRx with
    | [] =>
        if s.stopped then
          some { s with call := some { call with collector := call.collector.closed } }
        else none
    | result :: resultRx =>
        some { s with
          pool := { s.pool with resultRx }
          call := some { call with collector := call.collector.receive call.onSegment result } }

/-- `try_join!` returns when one has failed or both are done. -/
def step (s : ParallelTranscriberPool) : Event → Option ParallelTranscriberPool
  | .call audio vadSegments options onSegment =>
      match s.call with
      | none => some (s.startCall audio vadSegments options onSegment)
      | some _ => none
  | .dispatch => s.call.bind fun call => if call.collector.failed.isSome then none else s.dispatch call
  | .receive => s.call.bind s.receive
  | .join =>
      s.call.bind fun call =>
        if call.collector.failed.isSome ∨
            (call.collector.done call.totalWindows ∧ call.pending = []) then
          some (s.returnCall call (call.collector.result call.vadSegments))
        else none
  | .worker workerId event =>
      (s.pool.step workerId event).map fun pool => { s with pool }

abbrev Step (s : ParallelTranscriberPool) (event : Event) (s' : ParallelTranscriberPool) : Prop :=
  s.step event = some s'

end ParallelTranscriberPool

/-! ### Dropping a pool -/

/-- `drop`: the senders of the jobs are gone, and one thread after the other is joined, whether it has
returned or panicked. The receivers of the pool live until all are. -/
structure PoolDrop where
  pool : WorkerPool
  joined : Nat := 0

namespace PoolDrop

inductive Event where
  | worker (workerId : Fin npuWorkers) (event : WorkerEvent)
  | closed (workerId : Fin npuWorkers)
  | join

/-- A thread that waits for a job and finds its queue empty finds it closed, and ends. -/
def step (s : PoolDrop) : Event → Option PoolDrop
  | .worker workerId event => (s.pool.step workerId event).map fun pool => { s with pool }
  | .closed workerId =>
      match (s.pool.workers workerId).phase, (s.pool.workers workerId).jobRx with
      | .waiting, none => some { s with pool := s.pool.setPhase workerId .stopped }
      | _, _ => none
  | .join =>
      if hlt : s.joined < npuWorkers then
        if (s.pool.workers ⟨s.joined, hlt⟩).phase.receives then none
        else some { s with joined := s.joined + 1 }
      else none

abbrev Step (s : PoolDrop) (event : Event) (s' : PoolDrop) : Prop :=
  s.step event = some s'

/-- All threads have been joined. -/
def Returned (s : PoolDrop) : Prop :=
  s.joined = npuWorkers

end PoolDrop

end RkWhisper
