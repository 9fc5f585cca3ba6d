import RkWhisper.Handshake
import RkWhisper.Scheduler

/-!
# One live session

The daemon's side of a session once its job is admitted: the reader thread, the model's scheduler
with this job alone, and the loop of `handle_connection` that writes the responses. The chunk channel
and the response channel are bounded, and so are the two directions of the socket; whoever finds its
channel full takes no step. The client is anyone who has the ring and the socket.
-/

namespace RkWhisper

/-- The last two are the send buffers of the socket, on either side. -/
structure SessionConfig extends ConcurrencyConfig where
  clientWindowQueueDepth : Nat
  clientResponseQueueDepth : Nat
  clientSendBuffer : Nat
  daemonSendBuffer : Nat

/-- Where the loop over `response_rx` stands: with `rest` still to write, after which the connection
is through if this was the last response, or waiting for the reader to return. -/
inductive WriterPhase where
  | receiving
  | writing (rest : Bytes) (last : Bool)
  | joining (result : Except Error LiveTranscriptionStats)
  | returned

def WriterPhase.isReturned : WriterPhase → Bool
  | .returned => true
  | _ => false

/-- The first `handed` responses of the job have been sent on `response_tx`; the scheduler is in the
middle of sending the others. `written` is what an observer has noted. -/
structure LiveSession where
  ring : SharedAudioRing
  toDaemon : Bytes := []
  toClient : Bytes := []
  clientClosed : Bool := false
  reader : LiveReader := {}
  readerPhase : ReaderPhase := .reading
  run : LiveRun
  loop : LoopPhase := .head
  handed : Nat := 0
  responseRx : List JobResponse := []
  writer : WriterPhase := .receiving
  written : List Response := []

/-- `Error::to_string` of what `read_live_chunks` returns: its own messages carry no kind. -/
def Error.readText : Error → String
  | .other message => message
  | error => error.display

/-- The response to one that is not `Finished`. -/
def JobResponse.toResponse : JobResponse → Option Response
  | .segment text begin_ end_ => some (.segment text begin_ end_)
  | .speechStarted begin_ => some (.speechStarted begin_)
  | .speechEnded end_ => some (.speechEnded end_)
  | .finished _ => none

def ReadOutcome.stats : ReadOutcome → StreamReadStats
  | .completed stats => stats
  | .cancelled stats => stats

/-- `daemon::real_time_factor`; `factor` is the time that has passed over the length of the audio. -/
def realTimeFactor (factor audioS : F32) : F32 :=
  if zeroF32.ge audioS then zeroF32 else factor

/-- The response of `write_final_response`. -/
def finalResponse (factor : F32) (readResult : Except Error ReadOutcome)
    (transcribeResult : Except Error LiveTranscriptionStats) : Response :=
  match readResult with
  | .error error =>
      if "client window queue full".toList <:+: error.readText.toList then
        .backOff error.readText 250
      else .error error.readText
  | .ok outcome =>
      match transcribeResult with
      | .error error => .error error.text
      | .ok liveStats =>
          let audioS := samplesToSec outcome.stats.totalSamples
          let rtf := realTimeFactor factor audioS
          match outcome with
          | .completed _ => .done audioS rtf
          | .cancelled _ =>
              .cancelled audioS rtf (UInt64.ofNat liveStats.windowsDispatched)
                (UInt64.ofNat liveStats.windowsCompleted)

/-- The guards of the branches of the `select!` that concern the job. -/
def LiveRun.mayBranch (run : LiveRun) : LiveRun.Event → Bool
  | .sendVad _ => true
  | .dispatch _ => true
  | .vadResult _ => decide (0 < run.job.inFlight) || run.job.vadInFlight
  | .whisperResult _ => decide (0 < run.job.inFlight) || run.job.vadInFlight
  | .abort _ => decide (0 < run.job.inFlight) || run.job.vadInFlight
  | _ => false

/-- Whether a round without a branch would find anything to do for the job. -/
def ActiveLiveJob.stirs (maxInFlight : Nat) (job : ActiveLiveJob) : Bool :=
  (!job.producerClosed && decide (job.inFlight < maxInFlight) &&
      (!job.chunkRx.queue.isEmpty || job.chunkRx.disconnected)) ||
    decide (job.refreshSpeechState.audioBuffer.length ≠ job.audioBuffer.length) || job.isComplete

namespace LiveSession

inductive ClientAction where
  | push (data : Bytes)
  | signal (signal : UInt8)
  | receive
  | close

inductive SchedulerEvent where
  | handOver
  | head
  | branch (event : LiveRun.Event)
  | sleep
  | tail

inductive Event where
  | client (action : ClientAction)
  | reader
  | scheduler (event : SchedulerEvent)
  | writer (factor : F32)

def start (capacity : UInt64) (memory : Nat → UInt8) (jobId : Nat) (header : RequestHeader)
    (vadEnabled : Bool) : LiveSession :=
  { ring := SharedAudioRing.initHeader { capacity, data := memory, writeOffset := 0, readOffset := 0 }
    run := .start jobId header {} vadEnabled }

/-- The responses the scheduler is still sending. -/
def pending (s : LiveSession) : List JobResponse := s.run.job.responseTx.drop s.handed

variable (config : SessionConfig)

def clientStep (s : LiveSession) : ClientAction → Option LiveSession
  | .push data => if s.clientClosed then none else some { s with ring := (s.ring.pushAvailable data).2 }
  | .signal signal =>
      if !s.clientClosed ∧ s.toDaemon.length < config.clientSendBuffer then
        some { s with toDaemon := s.toDaemon ++ [signal] }
      else none
  | .receive =>
      match s.toClient with
      | [] => none
      | _ :: toClient => some { s with toClient }
  | .close => some { s with clientClosed := true }

/-! ### The reader -/

def chunkRoom (s : LiveSession) : Bool :=
  s.run.job.chunkRx.queue.length < config.clientWindowQueueDepth

/-- The reader returns and drops its sender. -/
def returnReader (s : LiveSession) (result : Except Error ReadOutcome) : LiveSession :=
  { s with
    readerPhase := .returned result
    run := if s.run.removed then s.run else s.run.next config.maxInFlight .hangUp }

def moveReader (s : LiveSession) : ReaderPhase → LiveSession
  | .returned result => s.returnReader config result
  | phase => { s with readerPhase := phase }

/-- `blocking_send` of one chunk: a job that is gone has dropped its receiver. -/
def sendChunk (s : LiveSession) (reader : LiveReader) (chunk : Bytes) : Option LiveSession :=
  match reader.sendChunk chunk with
  | (.error error, reader) => some ({ s with reader }.returnReader config (.error error))
  | (.ok (), sent) =>
      if s.run.removed then
        some ({ s with reader }.returnReader config
          (.error (.other "live stream scheduler stopped")))
      else if s.chunkRoom config then
        some { s with
          reader := sent
          run := s.run.next config.maxInFlight (.arrive (.ok { samples := samplesOfPcm chunk })) }
      else none

/-- The `match` on a signal. For one that is not one of the three an error goes to the scheduler first;
whether it arrives is ignored. -/
def takeSignal (s : LiveSession) (signal : UInt8) : Option LiveSession :=
  let (phase, reader) := s.reader.onRead (some signal)
  match phase with
  | .returned (.error error) =>
      if s.run.removed then some ({ s with reader }.moveReader config phase)
      else if s.chunkRoom config then
        some ({ s with
          reader
          run := s.run.next config.maxInFlight (.arrive (.error error)) }.moveReader config phase)
      else none
  | _ => some ({ s with reader }.moveReader config phase)

/-- One round of the loops of `flush_pcm_chunks`, or the step behind them. -/
def flushStep (s : LiveSession) (finalFlush : Bool) : Option LiveSession :=
  let pcm := s.reader.pcm
  if LiveReader.chunkBytes ≤ pcm.length then
    s.sendChunk config { s.reader with pcm := pcm.drop LiveReader.chunkBytes }
      (pcm.take LiveReader.chunkBytes)
  else if finalFlush ∧ pcm ≠ [] then s.sendChunk config { s.reader with pcm := [] } pcm
  else some (s.moveReader config (s.reader.onFlushed finalFlush (.ok ())).1)

def readerStep (s : LiveSession) : Option LiveSession :=
  match s.readerPhase with
  | .reading =>
      match s.toDaemon with
      | [] => if s.clientClosed then some (s.moveReader config (s.reader.onRead none).1) else none
      | signal :: toDaemon => { s with toDaemon }.takeSignal config signal
  | .draining finalFlush =>
      let (result, ring, pcm) := s.ring.drainAvailable s.reader.pcm
      let reader := { s.reader with pcm }
      some ({ s with ring, reader }.moveReader config (reader.onDrained finalFlush result).1)
  | .flushing finalFlush => s.flushStep config finalFlush
  | .returned _ => none

/-! ### The scheduler -/

/-- The sends of one method go out one by one before the scheduler goes on; the other parties see no
difference between a job that has changed before them and one that changes behind them. -/
def handOver (s : LiveSession) : Option LiveSession :=
  match s.pending with
  | [] => none
  | response :: _ =>
      if s.writer.isReturned then some { s with handed := s.handed + 1 }
      else if s.responseRx.length < config.clientResponseQueueDepth then
        some { s with handed := s.handed + 1, responseRx := s.responseRx ++ [response] }
      else none

/-- `remove_completed_jobs`; without its job the loop ends. -/
def removeCompleted (s : LiveSession) (loop : LoopPhase) : LiveSession :=
  if s.run.job.isComplete then
    { s with run := s.run.next config.maxInFlight .finish, loop := .exited }
  else { s with loop }

def headStep (s : LiveSession) : LiveSession :=
  { s with run := s.run.next config.maxInFlight .drain }.removeCompleted config .select

def tailStep (s : LiveSession) : LiveSession :=
  let drained := s.run.next config.maxInFlight .drain
  { s with run := drained.next config.maxInFlight .refresh }.removeCompleted config .head

/-- The loop of `run_live_jobs`. A sleep after which nothing has changed is no step. -/
def schedulerStep (s : LiveSession) : SchedulerEvent → Option LiveSession
  | .handOver => s.handOver config
  | .head => if s.pending = [] ∧ s.loop = .head then some (s.headStep config) else none
  | .branch event =>
      if s.pending = [] ∧ s.loop = .select ∧ s.run.mayBranch event then
        (s.run.step config.maxInFlight event).map fun run =>
          { s with run, loop := if run.removed then .exited else .tail }
      else none
  | .sleep =>
      if s.pending = [] ∧ s.loop = .select ∧ s.run.job.stirs config.maxInFlight then
        some { s with loop := .tail }
      else none
  | .tail => if s.pending = [] ∧ s.loop = .tail then some (s.tailStep config) else none

/-! ### The writer -/

/-- `write_response`; a response that does not fit a frame ends the connection. -/
def startWrite (s : LiveSession) (response : Response) (last : Bool) : LiveSession :=
  match writeResponse [] response with
  | (.error _, _) => { s with writer := .returned }
  | (.ok (), frame) => { s with writer := .writing frame last, written := s.written ++ [response] }

def writerStep (s : LiveSession) (factor : F32) : Option LiveSession :=
  match s.writer with
  | .receiving =>
      match s.responseRx with
      | .finished result :: responseRx => some { s with responseRx, writer := .joining result }
      | response :: responseRx =>
          response.toResponse.map fun response =>
            { s with responseRx }.startWrite response false
      | [] =>
          if s.run.removed ∧ s.pending = [] then
            some (s.startWrite (.error "model scheduler thread exited unexpectedly") true)
          else none
  | .writing rest last =>
      if rest = [] then some { s with writer := if last then .returned else .receiving }
      else if s.clientClosed then some { s with writer := .returned }
      else
        let room := config.daemonSendBuffer - s.toClient.length
        if room = 0 then none
        else
          some { s with
            toClient := s.toClient ++ rest.take room
            writer := .writing (rest.drop room) last }
  | .joining result =>
      match s.readerPhase with
      | .returned readResult => some (s.startWrite (finalResponse factor readResult result) true)
      | _ => none
  | .returned => none

def step (s : LiveSession) : Event → Option LiveSession
  | .client action => s.clientStep config action
  | .reader => s.readerStep config
  | .scheduler event => s.schedulerStep config event
  | .writer factor => s.writerStep config factor

abbrev Step (s : LiveSession) (event : Event) (s' : LiveSession) : Prop :=
  s.step config event = some s'

end LiveSession

end RkWhisper
