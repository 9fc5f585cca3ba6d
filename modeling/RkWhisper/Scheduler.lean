import RkWhisper.LiveRun

/-!
# The scheduler of one model

`run_live_jobs`: the loop that feeds the workers of a model from all jobs that are active. A round is
draining, one branch of the `select!`, draining again, refreshing, and removing what is complete.
Which worker a job goes to does not matter here: `atWorkers` is the pool, and its results come back
in any order. What an observer has noted is `sent`, `answered` and `removedJobs`.
-/

namespace RkWhisper

structure ConcurrencyConfig where
  maxActiveJobsPerModel : Nat
  maxInFlightWindowsPerJob : Nat

namespace ConcurrencyConfig

/-- `max_in_flight_windows_per_job` of `run_live_jobs`. -/
def maxInFlight (config : ConcurrencyConfig) : Nat :=
  min config.maxInFlightWindowsPerJob npuWorkers

end ConcurrencyConfig

inductive NpuJob where
  | vad (job : VadJob)
  | whisper (job : WhisperJob)
deriving DecidableEq

structure WorkerTranscription where
  jobId : Nat
  transcription : WindowTranscription

inductive NpuResult where
  | vad (result : VadResult)
  | whisper (result : WorkerTranscription)

def NpuJob.jobId : NpuJob → Nat
  | .vad job => job.jobId
  | .whisper job => job.jobId

def NpuResult.jobId : NpuResult → Nat
  | .vad result => result.jobId
  | .whisper result => result.jobId

/-- What a worker makes of its job. -/
def WhisperJob.answer (job : WhisperJob) (text : String) (segments : List TranscriptSegment) :
    WorkerTranscription :=
  { jobId := job.jobId
    transcription :=
      { windowIndex := job.windowIndex
        absoluteStartSec := job.absoluteStartSec
        text, segments } }

def VadJob.answer (job : VadJob) (probability : F32) (state : List F32) : VadResult :=
  { jobId := job.jobId
    windowIndex := job.windowIndex
    startSample := job.startSample
    probability, state }

/-- `ModelJob::Live`; its `response_tx` is the log that the active job begins. -/
structure ModelJob where
  header : RequestHeader
  chunkRx : ChunkReceiver

/-- `format!("{error:#}")`. -/
def Error.text : Error → String
  | .io message => message
  | .proto message => message
  | .ring message => message
  | .invalid message => message
  | .other message => message

inductive LoopPhase where
  | head
  | select
  | tail
  | exited
deriving DecidableEq

structure Scheduler where
  activeJobs : List ActiveLiveJob
  dispatchCursor : Nat := 0
  nextJobId : Nat
  phase : LoopPhase := .head
  atWorkers : List NpuJob
  resultRx : List (Except Error NpuResult)
  sent : List WhisperJob := []
  answered : List WorkerTranscription := []
  removedJobs : List ActiveLiveJob := []

/-- What earlier calls of `run_live_jobs` have left behind: work of older jobs. -/
structure Leftover (jobId : Nat) where
  atWorkers : List NpuJob := []
  resultRx : List (Except Error NpuResult) := []
  atWorkers_older : ∀ job ∈ atWorkers, job.jobId < jobId := by simp
  resultRx_older : ∀ result, .ok result ∈ resultRx → result.jobId < jobId := by simp

namespace Scheduler

inductive Event where
  | head
  | newJob (job : ModelJob)
  | ready (sent : Bool)
  | result
  | sleep
  | tail
  | arrive (jobId : Nat) (chunk : Except Error LiveChunk)
  | hangUp (jobId : Nat)
  | answerVad (job : VadJob) (probability : F32) (state : List F32)
  | answerWhisper (job : WhisperJob) (text : String) (segments : List TranscriptSegment)
  | fail (failed : Option NpuJob) (error : Error)

def start (jobId : Nat) (job : ModelJob) (vadEnabled : Bool) (leftover : Leftover jobId) :
    Scheduler :=
  { activeJobs := [.new jobId job.header job.chunkRx vadEnabled]
    nextJobId := jobId + 1
    atWorkers := leftover.atWorkers
    resultRx := leftover.resultRx }

/-- The jobs that stay, and those that are removed. -/
def removeCompletedJobs : List ActiveLiveJob → List ActiveLiveJob × List ActiveLiveJob
  | [] => ([], [])
  | job :: jobs =>
      match job.finishIfComplete with
      | (true, job) => ((removeCompletedJobs jobs).1, job :: (removeCompletedJobs jobs).2)
      | (false, job) => (job :: (removeCompletedJobs jobs).1, (removeCompletedJobs jobs).2)

/-- `iter_mut().find`, and what is done with the job found. -/
def updateJob (jobId : Nat) (update : ActiveLiveJob → ActiveLiveJob) :
    List ActiveLiveJob → List ActiveLiveJob
  | [] => []
  | job :: jobs =>
      if job.jobId = jobId then update job :: jobs else job :: updateJob jobId update jobs

/-- At most `rounds` positions from the cursor on, round about, for a job that `suits`. -/
def scanJobs (suits : ActiveLiveJob → Bool) (jobs : List ActiveLiveJob) :
    Nat → Nat → Option Nat × Nat
  | 0, cursor => (none, cursor)
  | rounds + 1, cursor =>
      let idx := cursor % jobs.length
      let cursor := (cursor + 1) % jobs.length
      if (jobs[idx]?.map suits).getD false then (some idx, cursor)
      else scanJobs suits jobs rounds cursor

def hasDispatchableLiveWork (maxInFlight : Nat) (jobs : List ActiveLiveJob) : Bool :=
  jobs.any fun job => job.hasVadReady || job.mayDispatch maxInFlight

/-- The job at `idx` sends a VAD job, a whisper job, or nothing. -/
def sendVadAt (s : Scheduler) (idx : Nat) (job : ActiveLiveJob) (sent : Bool) : Scheduler :=
  { s with
    activeJobs := s.activeJobs.set idx (job.sendVadJob sent).2
    atWorkers := s.atWorkers ++ (job.sendVadJob sent).1.toList.map .vad }

def dispatchAt (s : Scheduler) (idx : Nat) (job : ActiveLiveJob) (sent : Bool) : Scheduler :=
  { s with
    activeJobs := s.activeJobs.set idx (job.dispatchToWorker sent).2
    atWorkers := s.atWorkers ++ (job.dispatchToWorker sent).1.toList.map .whisper
    sent := s.sent ++ (job.dispatchToWorker sent).1.toList }

def dispatchReadyLiveWindow (maxInFlight : Nat) (s : Scheduler) (sent : Bool) : Scheduler :=
  match scanJobs ActiveLiveJob.hasVadReady s.activeJobs s.activeJobs.length s.dispatchCursor with
  | (some idx, cursor) =>
      match s.activeJobs[idx]? with
      | some job => { s with dispatchCursor := cursor }.sendVadAt idx job sent
      | none => { s with dispatchCursor := cursor }
  | (none, cursor) =>
      match scanJobs (ActiveLiveJob.mayDispatch maxInFlight) s.activeJobs s.activeJobs.length
          cursor with
      | (some idx, cursor) =>
          match s.activeJobs[idx]? with
          | some job => { s with dispatchCursor := cursor }.dispatchAt idx job sent
          | none => { s with dispatchCursor := cursor }
      | (none, cursor) => { s with dispatchCursor := cursor }

/-- The branch of `result_rx.recv()`; an error of a worker ends all jobs and the loop. -/
def receiveResult (s : Scheduler) : Except Error NpuResult → Scheduler
  | .ok (.whisper result) =>
      { s with
        activeJobs := updateJob result.jobId
          (fun job => job.handleResult result.transcription) s.activeJobs
        phase := .tail }
  | .ok (.vad result) =>
      { s with
        activeJobs := updateJob result.jobId (fun job => job.handleVadResult result) s.activeJobs
        phase := .tail }
  | .error error =>
      { s with
        activeJobs := []
        removedJobs := s.removedJobs ++ s.activeJobs.map fun job =>
          job.send [.finished (.error (.other error.text))]
        phase := .exited }

def headStep (maxInFlight : Nat) (s : Scheduler) : Scheduler :=
  let jobs := removeCompletedJobs (s.activeJobs.map (ActiveLiveJob.drainLiveChunks maxInFlight))
  { s with
    activeJobs := jobs.1
    removedJobs := s.removedJobs ++ jobs.2
    phase := if jobs.1.isEmpty then .exited else .select }

def tailStep (maxInFlight : Nat) (s : Scheduler) : Scheduler :=
  let jobs := removeCompletedJobs ((s.activeJobs.map
    (ActiveLiveJob.drainLiveChunks maxInFlight)).map ActiveLiveJob.refreshSpeechState)
  { s with
    activeJobs := jobs.1
    removedJobs := s.removedJobs ++ jobs.2
    phase := .head }

def addJob (s : Scheduler) (job : ModelJob) : Scheduler :=
  let vadEnabled := (s.activeJobs.head?.bind ActiveLiveJob.vadConfig).isSome
  { s with
    activeJobs := s.activeJobs ++ [.new s.nextJobId job.header job.chunkRx vadEnabled]
    nextJobId := s.nextJobId + 1
    phase := .tail }

variable (config : ConcurrencyConfig)

def step (s : Scheduler) : Event → Option Scheduler
  | .head => if s.phase = .head then some (s.headStep config.maxInFlight) else none
  | .newJob job =>
      if s.phase = .select ∧ s.activeJobs.length < config.maxActiveJobsPerModel then
        some (s.addJob job)
      else none
  | .ready sent =>
      if s.phase = .select ∧ hasDispatchableLiveWork config.maxInFlight s.activeJobs then
        some { s.dispatchReadyLiveWindow config.maxInFlight sent with phase := .tail }
      else none
  | .result =>
      if s.phase = .select ∧ s.activeJobs.any fun job => 0 < job.inFlight || job.vadInFlight then
        match s.resultRx with
        | [] => none
        | result :: resultRx => some ({ s with resultRx }.receiveResult result)
      else none
  | .sleep => if s.phase = .select then some { s with phase := .tail } else none
  | .tail => if s.phase = .tail then some (s.tailStep config.maxInFlight) else none
  | .arrive jobId chunk =>
      if s.activeJobs.any fun job => job.jobId = jobId && !job.chunkRx.disconnected then
        some { s with
          activeJobs := updateJob jobId (fun job =>
            { job with chunkRx := { job.chunkRx with queue := job.chunkRx.queue ++ [chunk] } })
            s.activeJobs }
      else none
  | .hangUp jobId =>
      some { s with
        activeJobs := updateJob jobId (fun job =>
          { job with chunkRx := { job.chunkRx with disconnected := true } }) s.activeJobs }
  | .answerVad job probability state =>
      if .vad job ∈ s.atWorkers then
        some { s with
          atWorkers := s.atWorkers.erase (.vad job)
          resultRx := s.resultRx ++ [.ok (.vad (job.answer probability state))] }
      else none
  | .answerWhisper job text segments =>
      if .whisper job ∈ s.atWorkers then
        some { s with
          atWorkers := s.atWorkers.erase (.whisper job)
          resultRx := s.resultRx ++ [.ok (.whisper (job.answer text segments))]
          answered := s.answered ++ [job.answer text segments] }
      else none
  | .fail failed error =>
      if ∀ job ∈ failed, job ∈ s.atWorkers then
        some { s with
          atWorkers := s.atWorkers.diff failed.toList
          resultRx := s.resultRx ++ [.error error] }
      else none

abbrev Step (s : Scheduler) (event : Event) (s' : Scheduler) : Prop :=
  s.step config event = some s'

end Scheduler

end RkWhisper
