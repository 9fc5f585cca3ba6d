import RkWhisper.CheckedRing

/-!
# The handshake

`handle_connection` up to the live reader it starts, and the client's `connect` against it. What the
operating system answers during one attempt is part of the attempt; a call that fails carries the
text of its error. The queues of the models are what they are when `submit` is called.
-/

namespace RkWhisper

/-- `Display`. -/
def Error.display : Error → String
  | .io message => s!"IO error: {message}"
  | .proto message => s!"protobuf error: {message}"
  | .ring message => s!"ring buffer error: {message}"
  | .invalid message => s!"invalid argument: {message}"
  | .other message => s!"other error: {message}"

/-! ### Admission -/

/-- The bounded channel a model's scheduler takes its jobs from. -/
structure JobQueue where
  depth : Nat
  queued : Nat
  stopped : Bool := false
deriving DecidableEq

inductive TrySendError where
  | full
  | closed
deriving DecidableEq

def JobQueue.trySend (queue : JobQueue) : Except TrySendError JobQueue :=
  if queue.stopped then .error .closed
  else if queue.depth ≤ queue.queued then .error .full
  else .ok { queue with queued := queue.queued + 1 }

inductive SubmitError where
  | queueFull (reason : String)
  | unknownModel
  | schedulerStopped (reason : String)
deriving DecidableEq

/-- The queue of every enabled model. -/
structure ModelSchedulers where
  schedulers : String → Option JobQueue

namespace ModelSchedulers

def containsModel (models : ModelSchedulers) (model : String) : Bool :=
  (models.schedulers model).isSome

/-- The queue with the job in it, where the job is taken. -/
def submit (models : ModelSchedulers) (model : String) : Except SubmitError JobQueue :=
  match models.schedulers model with
  | none => .error .unknownModel
  | some queue =>
      match queue.trySend with
      | .ok queue => .ok queue
      | .error .full => .error (.queueFull "model queue full")
      | .error .closed => .error (.schedulerStopped "model scheduler stopped")

end ModelSchedulers

/-! ### One attempt -/

/-- The calls of one attempt that leave the program. A write that fails has sent some bytes before;
an ancillary buffer that was cut short brings no descriptor along. The last three are the Tokio
client's way to a blocking socket and back. -/
structure Attempt where
  schedulers : ModelSchedulers
  connectError : Option String := none
  writeError : Option (Nat × String) := none
  createError : Option Error := none
  sendError : Option Error := none
  cloneError : Option String := none
  recvError : Option Error := none
  fdLost : Bool := false
  mmapError : Option String := none
  joinError : Option String := none
  intoStdError : Option String := none
  fromStdError : Option String := none

/-- A frame on the socket and the descriptor that came with it. -/
structure Message where
  frame : Bytes
  fd : Option SharedAudioRing := none

/-- The messages a connection sent in its handshake, and the answer of `submit` if it was asked. -/
structure Connection where
  sent : List Message := []
  submitted : Option (Except SubmitError JobQueue) := none

def sendResponseWithFd (response : Response) (fd : Option SharedAudioRing) :
    Except Error (List Message) :=
  match writeResponse [] response with
  | (.error error, _) => .error error
  | (.ok (), frame) => .ok [{ frame, fd }]

/-- A message that cannot be sent is not there; the caller only logs it. -/
def writeError (error : String) : List Message :=
  ((sendResponseWithFd (.error error) none).toOption).getD []

/-- The kernel hands out zeroed memory. -/
def SharedAudioRing.create (capacity : UInt64) : Except Error MappedRing :=
  (initHeader { capacity, data := fun _ => 0, writeOffset := 0, readOffset := 0 }).attach

def submitRefusal : SubmitError → Response
  | .queueFull reason => .backOff reason 250
  | .unknownModel => .error "model not found"
  | .schedulerStopped reason => .error reason

/-- The greeting of `handle_connection`, once the hello is in order and its model is enabled. -/
def greet (attempt : Attempt) (model : String) (ring : MappedRing) : Connection :=
  let server : ServerHello :=
    { audioFormat := supportedAudioFormat
      ringCapacityBytes := ring.capacity
      ringHeaderBytes := UInt32.ofNat ringHeaderBytes }
  match attempt.sendError, sendResponseWithFd (.serverHello server) (some ring.toSharedAudioRing) with
  | some _, _ | none, .error _ => {}
  | none, .ok sent =>
      if attempt.cloneError.isSome then { sent }
      else
        match attempt.schedulers.submit model with
        | .ok queue => { sent, submitted := some (.ok queue) }
        | .error error =>
            { sent := sent ++ ((sendResponseWithFd (submitRefusal error) none).toOption).getD []
              submitted := some (.error error) }

def handleConnection (attempt : Attempt) (reader : Bytes) : Connection :=
  match readClientHello reader with
  | .error error => { sent := writeError error.display }
  | .ok (hello, _) =>
      match validateClientHello hello with
      | .error error => { sent := writeError error.display }
      | .ok () =>
          if !attempt.schedulers.containsModel hello.model then
            { sent := writeError "model not found" }
          else
            match attempt.createError, SharedAudioRing.create (UInt64.ofNat ringDataBytes) with
            | some error, _ | none, .error error => { sent := writeError error.display }
            | none, .ok ring => greet attempt hello.model ring

/-! ### The client -/

inductive ClientError where
  | connection (message : String)
  | protocol (error : Error)
  | handshake (message : String)
  | daemon (message : String)
  | cancelled
  | other (message : String)
deriving DecidableEq

structure Session where
  ring : MappedRing

/-- The result of `write_frame` on the hello, and the bytes of it that reach the daemon. -/
def Attempt.writeHello (attempt : Attempt) (hello : ClientHello) : Except Error Unit × Bytes :=
  match writeFrame [] (encodeClientHello hello), attempt.writeError with
  | (.ok (), bytes), some (count, text) => (.error (.io text), bytes.take count)
  | written, _ => written

/-- The first `recvmsg` takes the length, and with it the descriptor of the frame it belongs to. -/
def recvResponseWithFd (attempt : Attempt) (sent : List Message) :
    Except Error (Response × Option SharedAudioRing) :=
  match attempt.recvError, sent with
  | some error, _ => .error error
  | none, [] => .error (.proto "failed to receive full response frame length")
  | none, message :: _ => do
      let (body, _) ← readFrame message.frame
      let response ← decodeResponse body
      return (response, if attempt.fdLost then none else message.fd)

/-- How a client receives the response of one attempt. -/
abbrev Receive := Attempt → List Message → Except ClientError (Response × Option SharedAudioRing)

/-- What `submit` answered in one attempt, and the response `connect` saw. -/
structure Exchange where
  submitted : Option (Except SubmitError JobQueue) := none
  response : Option Response := none

/-- One attempt up to the `match` on the response. -/
def exchange (receive : Receive) (hello : ClientHello) (attempt : Attempt) :
    Except ClientError (Response × Option SharedAudioRing) × Exchange :=
  match attempt.connectError with
  | some text => (.error (.connection text), {})
  | none =>
      let (written, bytes) := attempt.writeHello hello
      let connection := handleConnection attempt bytes
      match written with
      | .error error => (.error (.protocol error), { submitted := connection.submitted })
      | .ok () =>
          match receive attempt connection.sent with
          | .error error => (.error error, { submitted := connection.submitted })
          | .ok (response, fd) =>
              (.ok (response, fd), { submitted := connection.submitted, response := some response })

def attachSession (attempt : Attempt) (server : ServerHello) (fd : Option SharedAudioRing) :
    Except ClientError Session :=
  match fd with
  | none => .error (.handshake "no file descriptor received")
  | some memory =>
      match { memory with capacity := server.ringCapacityBytes }.attach, attempt.mmapError with
      | .error error, _ => .error (.protocol error)
      | .ok _, some text => .error (.protocol (.ring s!"failed to map audio memfd: {text}"))
      | .ok ring, none => .ok { ring }

structure ConnectRun where
  result : Except ClientError Session
  exchanges : List Exchange

/-- The loop of `connect` with so many retries left; `debug` is the `Debug` text of a response. -/
def connectLoop (receive : Receive) (debug : Response → String) (hello : ClientHello) :
    Nat → (Nat → Attempt) → ConnectRun
  | retries, attempts =>
      match exchange receive hello (attempts 0) with
      | (.error error, seen) => { result := .error error, exchanges := [seen] }
      | (.ok (.serverHello server, fd), seen) =>
          { result := attachSession (attempts 0) server fd, exchanges := [seen] }
      | (.ok (.backOff reason _, _), seen) =>
          match retries with
          | 0 =>
              { result := .error (.handshake s!"too many retries after backoff: {reason}")
                exchanges := [seen] }
          | retries + 1 =>
              let rest := connectLoop receive debug hello retries fun i => attempts (i + 1)
              { rest with exchanges := seen :: rest.exchanges }
      | (.ok (.error error, _), seen) =>
          { result := .error (.handshake error), exchanges := [seen] }
      | (.ok (other, _), seen) =>
          { result := .error (.handshake ("unexpected response: " ++ debug other))
            exchanges := [seen] }

def maxRetries : Nat := 5

namespace Sync

def receive : Receive := fun attempt sent =>
  match recvResponseWithFd attempt sent with
  | .error error => .error (.protocol error)
  | .ok received => .ok received

def connect (debug : Response → String) (hello : ClientHello) (attempts : Nat → Attempt) :
    ConnectRun :=
  connectLoop receive debug hello maxRetries attempts

end Sync

namespace Asynchronous

/-- The socket leaves the Tokio runtime for a blocking `recvmsg`; a socket that cannot come back
takes the response with it. -/
def receive : Receive := fun attempt sent =>
  match attempt.joinError, attempt.intoStdError with
  | some text, _ => .error (.other text)
  | none, some text => .error (.connection text)
  | none, none =>
      match recvResponseWithFd attempt sent, attempt.fromStdError with
      | .error error, _ => .error (.protocol error)
      | .ok _, some text => .error (.connection text)
      | .ok received, none => .ok received

def connect (debug : Response → String) (hello : ClientHello) (attempts : Nat → Attempt) :
    ConnectRun :=
  connectLoop receive debug hello maxRetries attempts

end Asynchronous

end RkWhisper
