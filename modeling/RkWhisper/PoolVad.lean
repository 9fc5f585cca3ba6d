import RkWhisper.ParallelTranscriber

/-!
# Voice activity by the workers

`vad_segments_with_config` of the pool: the windows go to the workers one at a time, because each of
them needs the recurrent state that the one before leaves. The offline loop of `VadModel` runs the
network itself. The network may fail; what it makes of a window and a state is a parameter.
-/

namespace RkWhisper

/-- From a window and the recurrent state, a probability and the next state. -/
abbrev VadNetwork := List F32 → List F32 → Except Error (F32 × List F32)

structure VadModel where
  network : VadNetwork
  config : VadConfig := {}

namespace VadModel

/-- `window_to_use`. -/
def paddedWindow (window : List F32) (windowSamples : Nat) : List F32 :=
  if window.length ≠ windowSamples then
    window.take windowSamples ++ List.replicate (windowSamples - window.length) (F32.ofNat 0)
  else window

def speechProbabilityWithWindowSamples (model : VadModel) (window state : List F32)
    (windowSamples : Nat) : Except Error (F32 × List F32) :=
  model.network (paddedWindow window windowSamples) state

def speechProbability (model : VadModel) (window state : List F32) : Except Error (F32 × List F32) :=
  model.speechProbabilityWithWindowSamples window state model.config.windowSamples

/-- The loop of `segments_with_config`: what it has and the state it goes on with. -/
def tryProbs (model : VadModel) (audio : List F32) (config : VadConfig) (starts : List Nat) :
    Except Error (List (Nat × F32) × List F32) :=
  starts.foldlM (m := Except Error) (fun (probs, state) start =>
    (model.speechProbability (window audio config.windowSamples start) state).map
      fun (probability, state) => (probs ++ [(start, probability)], state)) ([], initialState)

/-- `segments_with_config`, which fails when the network does. -/
def trySegmentsWithConfig (model : VadModel) (audio : List F32) (config : VadConfig) :
    Except Error (List VadSegment) :=
  (model.tryProbs audio config (Stride.starts config.windowSamples audio.length)).map
    fun (probs, _) => segmentsFromProbs audio.length probs config

/-- `run_vad` of a worker. -/
def runVad (vad : Option VadModel) (job : VadJob) : Except Error (F32 × List F32) :=
  match vad with
  | none => .error (.other "VAD model is not loaded")
  | some model => model.speechProbabilityWithWindowSamples job.samples job.state job.windowSamples

end VadModel

/-- The locals of `vad_segments_with_config`; `starts` are the windows to come, and it is `waiting`
in the loop over the results. -/
structure VadCall where
  audio : List F32
  config : VadConfig
  starts : List Nat
  windowIndex : Nat := 0
  state : List F32 := VadModel.initialState
  probs : List (Nat × F32) := []
  waiting : Bool := false
  returned : Option (Except Error (List VadSegment)) := none

structure PoolVad where
  pool : WorkerPool
  call : VadCall

namespace PoolVad

inductive Event where
  | dispatch
  | receive
  | finish
  | worker (workerId : Fin npuWorkers) (event : WorkerEvent)

/-- `step_by` panics at a window of no samples. -/
def start (pool : WorkerPool) (audio : List F32) (config : VadConfig) : Option PoolVad :=
  if config.windowSamples = 0 then none
  else
    some
      { pool
        call := { audio, config, starts := Stride.starts config.windowSamples audio.length } }

/-- All threads have ended, and the channels are closed. -/
def stopped (s : PoolVad) : Bool :=
  decide (∀ workerId, (s.pool.workers workerId).phase.receives = false)

def returnCall (s : PoolVad) (result : Except Error (List VadSegment)) : PoolVad :=
  { s with call := { s.call with returned := some result } }

def vadJob (call : VadCall) (start : Nat) : VadJob :=
  { jobId := 0
    windowIndex := call.windowIndex
    startSample := start
    samples := VadModel.window call.audio call.config.windowSamples start
    state := call.state
    windowSamples := call.config.windowSamples }

/-- One round of the loop over the windows, up to its inner loop. -/
def dispatch (s : PoolVad) : Option PoolVad :=
  match s.call.starts, s.pool.readyRx with
  | [], _ => none
  | _ :: _, [] =>
      if s.stopped then some (s.returnCall (.error (.other "all NPU workers stopped"))) else none
  | start :: starts, workerId :: readyRx =>
      if (s.pool.workers workerId).phase.receives then
        ({ s.pool with readyRx }.send workerId (.vad (vadJob s.call start))).map
          fun pool => { s with pool, call := { s.call with starts, waiting := true } }
      else
        some ({ s with pool := { s.pool with readyRx } }.returnCall
          (.error (.other s!"worker {workerId} stopped before accepting a VAD job")))

/-- One round of the loop over the results. Those of an earlier transcription are passed over. -/
def receive (s : PoolVad) : Option PoolVad :=
  match s.pool.resultRx with
  | [] =>
      if s.stopped then
        some (s.returnCall (.error (.other "result channel closed before VAD completed")))
      else none
  | result :: resultRx =>
      let s := { s with pool := { s.pool with resultRx } }
      match result with
      | .error error => some (s.returnCall (.error error))
      | .ok (.whisper _) => some s
      | .ok (.vad result) =>
          some { s with
            call := { s.call with
              state := result.state
              probs := s.call.probs ++ [(result.startSample, result.probability)]
              windowIndex := s.call.windowIndex + 1
              waiting := false } }

def step (s : PoolVad) : Event → Option PoolVad
  | .dispatch => if s.call.returned.isNone ∧ s.call.waiting = false then s.dispatch else none
  | .receive => if s.call.returned.isNone ∧ s.call.waiting = true then s.receive else none
  | .finish =>
      if s.call.returned.isNone ∧ s.call.waiting = false ∧ s.call.starts = [] then
        some (s.returnCall (.ok (segmentsFromProbs s.call.audio.length s.call.probs s.call.config)))
      else none
  | .worker workerId event =>
      (s.pool.step workerId event).map fun pool => { s with pool }

abbrev Step (s : PoolVad) (event : Event) (s' : PoolVad) : Prop :=
  s.step event = some s'

end PoolVad

end RkWhisper
