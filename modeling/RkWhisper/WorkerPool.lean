import RkWhisper.Scheduler

/-!
# The workers and the thread that feeds them

`spawn_npu_worker`: a thread that loads its model, announces that it is ready, and from then on takes
a job out of a queue of one, answers it and announces itself again. Nothing catches a panic of a job:
the thread ends, with neither a result nor an announcement. `spawn_model_scheduler` calls
`run_live_jobs` again and again with the same workers, so that a call finds them as the call before
has left them.
-/

namespace RkWhisper

instance : NeZero npuWorkers := ⟨by decide⟩

/-- What comes of a job. -/
inductive WorkerOutcome where
  | transcribed (job : WhisperJob) (text : String) (segments : List TranscriptSegment)
  | classified (job : VadJob) (probability : F32) (state : List F32)
  | failed (job : NpuJob) (error : Error)

/-- Where the thread stands: `starting` is before the first announcement, `announcing` before any
other. A thread that has `panicked` has ended over this job. -/
inductive WorkerPhase where
  | loading
  | refusing (error : Error)
  | stopped
  | starting
  | waiting
  | running (job : NpuJob)
  | answering (outcome : WorkerOutcome)
  | announcing
  | panicked (job : NpuJob)

structure NpuWorker where
  phase : WorkerPhase := .loading
  jobRx : Option NpuJob := none

structure WorkerPool where
  workers : Fin npuWorkers → NpuWorker := fun _ => {}
  readyRx : List (Fin npuWorkers) := []
  resultRx : List (Except Error NpuResult) := []

inductive WorkerEvent where
  | load (loaded : Except Error Unit)
  | refuse
  | announce
  | take
  | transcribe (text : String) (segments : List TranscriptSegment)
  | classify (probability : F32) (state : List F32)
  | fail (error : Error)
  | panic
  | answer

namespace WorkerOutcome

def job : WorkerOutcome → NpuJob
  | .transcribed job _ _ => .whisper job
  | .classified job _ _ => .vad job
  | .failed job _ => job

/-- The error of a job under the text that `with_context` puts before it. -/
def failure (workerId : Fin npuWorkers) (error : Error) : NpuJob → Error
  | .whisper job =>
      .other s!"worker {workerId} failed on Whisper window {job.windowIndex}: {error.text}"
  | .vad job => .other s!"worker {workerId} failed on VAD window {job.windowIndex}: {error.text}"

def result (workerId : Fin npuWorkers) : WorkerOutcome → Except Error NpuResult
  | .transcribed job text segments => .ok (.whisper (job.answer text segments))
  | .classified job probability state => .ok (.vad (job.answer probability state))
  | .failed job error => .error (failure workerId error job)

end WorkerOutcome

namespace WorkerPhase

/-- Inside the loop over the jobs. -/
def initialised : WorkerPhase → Bool
  | .waiting | .running _ | .answering _ | .announcing => true
  | .loading | .refusing _ | .stopped | .starting | .panicked _ => false

/-- Between taking a job and announcing the worker again. -/
def executing : WorkerPhase → Bool
  | .running _ | .answering _ | .announcing => true
  | .loading | .refusing _ | .stopped | .starting | .waiting | .panicked _ => false

/-- The thread still holds the receiver of its jobs and the senders of both channels. -/
def receives : WorkerPhase → Bool
  | .stopped | .panicked _ => false
  | .loading | .refusing _ | .starting | .waiting | .running _ | .answering _ | .announcing => true

end WorkerPhase

/-- How many jobs the worker has, in its queue or at work. -/
def NpuWorker.jobs (worker : NpuWorker) : Nat :=
  worker.jobRx.isSome.toNat + worker.phase.executing.toNat

namespace WorkerPool

def put (pool : WorkerPool) (workerId : Fin npuWorkers) (worker : NpuWorker) : WorkerPool :=
  { pool with workers := Function.update pool.workers workerId worker }

def setPhase (pool : WorkerPool) (workerId : Fin npuWorkers) (phase : WorkerPhase) : WorkerPool :=
  pool.put workerId { pool.workers workerId with phase }

def initFailure (workerId : Fin npuWorkers) (error : Error) : Error :=
  .other s!"worker {workerId} failed to initialize: {error.text}"

/-- Both channels hold `NPU_WORKERS` messages; a thread that finds its channel full waits. -/
def step (pool : WorkerPool) (workerId : Fin npuWorkers) : WorkerEvent → Option WorkerPool
  | .load loaded =>
      match (pool.workers workerId).phase, loaded with
      | .loading, .ok () => some (pool.setPhase workerId .starting)
      | .loading, .error error => some (pool.setPhase workerId (.refusing error))
      | _, _ => none
  | .refuse =>
      match (pool.workers workerId).phase with
      | .refusing error =>
          if pool.resultRx.length < npuWorkers then
            some { pool.setPhase workerId .stopped with
              resultRx := pool.resultRx ++ [.error (initFailure workerId error)] }
          else none
      | _ => none
  | .announce =>
      match (pool.workers workerId).phase with
      | .starting | .announcing =>
          if pool.readyRx.length < npuWorkers then
            some { pool.setPhase workerId .waiting with readyRx := pool.readyRx ++ [workerId] }
          else none
      | _ => none
  | .take =>
      match (pool.workers workerId).phase, (pool.workers workerId).jobRx with
      | .waiting, some job => some (pool.put workerId { phase := .running job, jobRx := none })
      | _, _ => none
  | .transcribe text segments =>
      match (pool.workers workerId).phase with
      | .running (.whisper job) =>
          some (pool.setPhase workerId (.answering (.transcribed job text segments)))
      | _ => none
  | .classify probability state =>
      match (pool.workers workerId).phase with
      | .running (.vad job) =>
          some (pool.setPhase workerId (.answering (.classified job probability state)))
      | _ => none
  | .fail error =>
      match (pool.workers workerId).phase with
      | .running job => some (pool.setPhase workerId (.answering (.failed job error)))
      | _ => none
  | .panic =>
      match (pool.workers workerId).phase with
      | .running job => some (pool.setPhase workerId (.panicked job))
      | _ => none
  | .answer =>
      match (pool.workers workerId).phase with
      | .answering outcome =>
          if pool.resultRx.length < npuWorkers then
            some { pool.setPhase workerId .announcing with
              resultRx := pool.resultRx ++ [outcome.result workerId] }
          else none
      | _ => none

/-- `worker_txs[worker_id].send(job).await` goes on when the queue of the worker is empty. -/
def send (pool : WorkerPool) (workerId : Fin npuWorkers) (job : NpuJob) : Option WorkerPool :=
  match (pool.workers workerId).jobRx with
  | none => some (pool.put workerId { pool.workers workerId with jobRx := some job })
  | some _ => none

/-- How many messages say that the worker is ready. -/
def tokens (pool : WorkerPool) (workerId : Fin npuWorkers) : Nat :=
  pool.readyRx.count workerId

end WorkerPool

/-- `scheduler.atWorkers` and `scheduler.resultRx` are what the loop can know of the pool. -/
structure ModelScheduler where
  hasVad : Bool
  scheduler : Scheduler
  pool : WorkerPool := {}

namespace ModelScheduler

inductive Event where
  | loop (event : Scheduler.Event)
  | result
  | ready
  | call (job : ModelJob)
  | worker (workerId : Fin npuWorkers) (event : WorkerEvent)

/-- The thread before its first job. -/
def start (hasVad : Bool) : ModelScheduler :=
  { hasVad
    scheduler :=
      { activeJobs := [], nextJobId := 1, phase := .exited, atWorkers := [], resultRx := [] } }

/-- `run_live_jobs` is called with the next job. -/
def called (s : ModelScheduler) (job : ModelJob) : Scheduler :=
  { activeJobs := [.new s.scheduler.nextJobId job.header job.chunkRx s.hasVad]
    nextJobId := s.scheduler.nextJobId + 1
    atWorkers := s.scheduler.atWorkers
    resultRx := s.scheduler.resultRx }

/-- The events of the loop that have nothing to do with the workers. -/
def ownEvent : Scheduler.Event → Bool
  | .head | .newJob _ | .sleep | .tail | .arrive _ _ | .hangUp _ => true
  | _ => false

/-- How the scheduler alone sees an event of a worker, if at all. -/
def seen (s : ModelScheduler) (workerId : Fin npuWorkers) : WorkerEvent → Option Scheduler.Event
  | .refuse =>
      match (s.pool.workers workerId).phase with
      | .refusing error => some (.fail none (WorkerPool.initFailure workerId error))
      | _ => none
  | .answer =>
      match (s.pool.workers workerId).phase with
      | .answering (.transcribed job text segments) => some (.answerWhisper job text segments)
      | .answering (.classified job probability state) => some (.answerVad job probability state)
      | .answering (.failed job error) =>
          some (.fail (some job) (WorkerOutcome.failure workerId error job))
      | _ => none
  | _ => none

/-- The jobs that a round of the loop hands to a worker. -/
def sendAll (pool : WorkerPool) (workerId : Fin npuWorkers) : List NpuJob → Option WorkerPool :=
  List.foldlM (fun pool job => pool.send workerId job) pool

variable (config : ConcurrencyConfig)

def step (s : ModelScheduler) : Event → Option ModelScheduler
  | .loop event =>
      if ownEvent event then
        (s.scheduler.step config event).map fun scheduler => { s with scheduler }
      else none
  | .result =>
      match s.pool.resultRx with
      | [] => none
      | _ :: resultRx =>
          (s.scheduler.step config .result).map fun scheduler =>
            { s with scheduler, pool := { s.pool with resultRx } }
  | .ready =>
      match s.pool.readyRx with
      | [] => none
      | workerId :: readyRx =>
          (s.scheduler.step config (.ready (s.pool.workers workerId).phase.receives)).bind
            fun scheduler =>
              (sendAll { s.pool with readyRx } workerId
                (scheduler.atWorkers.drop s.scheduler.atWorkers.length)).map fun pool =>
                  { s with scheduler, pool }
  | .call job =>
      if s.scheduler.phase = .exited then some { s with scheduler := s.called job } else none
  | .worker workerId event =>
      (s.pool.step workerId event).bind fun pool =>
        match s.seen workerId event with
        | none => some { s with pool }
        | some event =>
            (s.scheduler.step config event).map fun scheduler => { s with scheduler, pool }

abbrev Step (s : ModelScheduler) (event : Event) (s' : ModelScheduler) : Prop :=
  s.step config event = some s'

end ModelScheduler

end RkWhisper
