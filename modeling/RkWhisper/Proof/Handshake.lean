import RkWhisper.Handshake
import RkWhisper.Proof.ResponseStream

/-!
# Who is admitted

The daemon greets a client before it asks the queue of the model, so the first message on the socket
is the `ServerHello` or an error, never a `BackOff`. A client that has been greeted stops there: it
holds a session, whatever `submit` answers afterwards.
-/

namespace RkWhisper

/-! ### What the daemon sends first -/

/-- The ring every connection starts from. -/
def daemonRing : MappedRing where
  capacity := UInt64.ofNat ringDataBytes
  data := fun _ => 0
  writeOffset := 0
  readOffset := 0
  mapped := by decide

theorem create_ringDataBytes :
    SharedAudioRing.create (UInt64.ofNat ringDataBytes) = .ok daemonRing := by
  unfold SharedAudioRing.create SharedAudioRing.attach
  exact dif_pos daemonRing.mapped

def daemonHello : ServerHello where
  audioFormat := supportedAudioFormat
  ringCapacityBytes := daemonRing.capacity
  ringHeaderBytes := UInt32.ofNat ringHeaderBytes

theorem fitsFrame_daemonHello : FitsFrame (.serverHello daemonHello) := by
  decide +kernel

theorem sendResponseWithFd_of_fits {response : Response} (hfits : FitsFrame response)
    (fd : Option SharedAudioRing) :
    sendResponseWithFd response fd = .ok [⟨frameBytes (encodeResponse response), fd⟩] := by
  unfold sendResponseWithFd writeResponse
  rw [writeFrame_of_le [] hfits]
  rfl

theorem sendResponseWithFd_of_not_fits {response : Response} (hfits : ¬ FitsFrame response)
    (fd : Option SharedAudioRing) :
    sendResponseWithFd response fd = .error frameTooLong := by
  have hlong : frameMaxBytes < (encodeResponse response).length := by
    simpa [FitsFrame] using hfits
  unfold sendResponseWithFd writeResponse
  rw [writeFrame_of_lt [] hlong]

theorem writeError_cases (text : String) :
    writeError text = [] ∨ FitsFrame (.error text) ∧
      writeError text = [⟨frameBytes (encodeResponse (.error text)), none⟩] := by
  by_cases hfits : FitsFrame (.error text)
  · right
    refine ⟨hfits, ?_⟩
    unfold writeError
    rw [sendResponseWithFd_of_fits hfits]
    rfl
  · left
    unfold writeError
    rw [sendResponseWithFd_of_not_fits hfits]
    rfl

/-- The whole hello went out. -/
def Attempt.Written (attempt : Attempt) (hello : ClientHello) : Prop :=
  attempt.writeError = none ∧ (encodeClientHello hello).length ≤ frameMaxBytes

theorem Attempt.writeHello_of_written {attempt : Attempt} {hello : ClientHello}
    (h : attempt.Written hello) :
    attempt.writeHello hello = (.ok (), frameBytes (encodeClientHello hello)) := by
  unfold writeHello
  rw [writeFrame_of_le [] h.2, h.1]
  rfl

theorem Attempt.written_of_writeHello {attempt : Attempt} {hello : ClientHello}
    (h : (attempt.writeHello hello).1 = .ok ()) : attempt.Written hello := by
  unfold writeHello at h
  by_cases hlength : (encodeClientHello hello).length ≤ frameMaxBytes
  · rw [writeFrame_of_le [] hlength] at h
    cases herror : attempt.writeError with
    | none => exact ⟨herror, hlength⟩
    | some failure =>
        rw [herror] at h
        cases h
  · rw [writeFrame_of_lt [] (by omega)] at h
    cases h

theorem readClientHello_frameBytes {hello : ClientHello}
    (hlength : (encodeClientHello hello).length ≤ frameMaxBytes) :
    readClientHello (frameBytes (encodeClientHello hello)) =
      if hello.model.isEmpty then .error (.proto "client hello missing model")
      else .ok (hello, []) := by
  have hmax : frameMaxBytes < usizeModulus := by decide
  have hread := readFrame_frameBytes hlength []
  rw [List.append_nil] at hread
  have hdecode := decodeMessage_clientHello hello (lt_of_le_of_lt hlength hmax)
  simp only [readClientHello, hread, decodeClientHello, hdecode, bind, Except.bind]
  by_cases hmodel : hello.model.isEmpty = true
  · simp only [hmodel, if_true]
  · simp only [hmodel]
    rfl

/-- Every check of the connection passes, and the queue of the model is `queue`. -/
structure Attempt.InOrder (attempt : Attempt) (hello : ClientHello) (queue : JobQueue) : Prop where
  model : hello.model.isEmpty = false
  valid : validateClientHello hello = .ok ()
  enabled : attempt.schedulers.schedulers hello.model = some queue
  create : attempt.createError = none
  send : attempt.sendError = none

/-- What the connection knows of `submit` when it stops. -/
def Attempt.answer (attempt : Attempt) (hello : ClientHello) :
    Option (Except SubmitError JobQueue) :=
  if attempt.cloneError.isSome then none else some (attempt.schedulers.submit hello.model)

theorem Attempt.answer_eq_some_iff {attempt : Attempt} {hello : ClientHello}
    {result : Except SubmitError JobQueue} :
    attempt.answer hello = some result ↔
      attempt.cloneError = none ∧ attempt.schedulers.submit hello.model = result := by
  unfold answer
  cases attempt.cloneError with
  | none => simp
  | some text => simp

theorem greet_of_send {attempt : Attempt} (model : String) (hsend : attempt.sendError = none) :
    ∃ rest, greet attempt model daemonRing =
      { sent := ⟨frameBytes (encodeResponse (.serverHello daemonHello)),
          some daemonRing.toSharedAudioRing⟩ :: rest
        submitted := if attempt.cloneError.isSome then none
          else some (attempt.schedulers.submit model) } := by
  have hgreeting := sendResponseWithFd_of_fits fitsFrame_daemonHello
    (some daemonRing.toSharedAudioRing)
  unfold greet
  rw [hsend]
  simp only [daemonHello] at hgreeting ⊢
  rw [hgreeting]
  by_cases hclone : attempt.cloneError.isSome
  · exact ⟨[], by simp [hclone]⟩
  · simp only [hclone]
    cases attempt.schedulers.submit model with
    | ok queue => exact ⟨[], rfl⟩
    | error error => exact ⟨_, rfl⟩

theorem handleConnection_of_inOrder {attempt : Attempt} {hello : ClientHello} {queue : JobQueue}
    (hlength : (encodeClientHello hello).length ≤ frameMaxBytes)
    (h : attempt.InOrder hello queue) :
    ∃ rest, handleConnection attempt (frameBytes (encodeClientHello hello)) =
      { sent := ⟨frameBytes (encodeResponse (.serverHello daemonHello)),
          some daemonRing.toSharedAudioRing⟩ :: rest
        submitted := attempt.answer hello } := by
  have hmodel : attempt.schedulers.containsModel hello.model = true := by
    rw [ModelSchedulers.containsModel, h.enabled]
    rfl
  unfold handleConnection
  rw [readClientHello_frameBytes hlength, h.model]
  simp only [Bool.false_eq_true, if_false, h.valid, hmodel, Bool.not_true, h.create,
    create_ringDataBytes]
  exact greet_of_send hello.model h.send

/-- A connection whose checks do not pass says so, or says nothing. -/
theorem handleConnection_of_not_inOrder {attempt : Attempt} {hello : ClientHello}
    (hlength : (encodeClientHello hello).length ≤ frameMaxBytes)
    (h : ∀ queue, ¬ attempt.InOrder hello queue) :
    handleConnection attempt (frameBytes (encodeClientHello hello)) = {} ∨
      ∃ text, handleConnection attempt (frameBytes (encodeClientHello hello)) =
        { sent := writeError text } := by
  unfold handleConnection
  rw [readClientHello_frameBytes hlength, create_ringDataBytes]
  by_cases hmodel : hello.model.isEmpty = true
  · rw [if_pos hmodel]
    exact .inr ⟨_, rfl⟩
  rw [if_neg hmodel]
  dsimp only
  cases hvalid : validateClientHello hello with
  | error error => exact .inr ⟨_, rfl⟩
  | ok valid =>
      dsimp only
      cases hqueue : attempt.schedulers.schedulers hello.model with
      | none =>
          have hmissing : attempt.schedulers.containsModel hello.model = false := by
            simp [ModelSchedulers.containsModel, hqueue]
          simp only [hmissing, Bool.not_false, if_true]
          exact .inr ⟨_, rfl⟩
      | some queue =>
          have hfound : attempt.schedulers.containsModel hello.model = true := by
            simp [ModelSchedulers.containsModel, hqueue]
          simp only [hfound, Bool.not_true, Bool.false_eq_true, if_false]
          cases hcreate : attempt.createError with
          | some error => exact .inr ⟨_, rfl⟩
          | none =>
              cases hsend : attempt.sendError with
              | none =>
                  exact absurd ⟨by simpa using hmodel, hvalid, hqueue, hcreate, hsend⟩ (h queue)
              | some error =>
                  left
                  simp [greet, hsend]

/-! ### What the client sees first -/

theorem recvResponseWithFd_cons {attempt : Attempt} {response : Response}
    (hfits : FitsFrame response) (hrecv : attempt.recvError = none)
    (fd : Option SharedAudioRing) (rest : List Message) :
    recvResponseWithFd attempt (⟨frameBytes (encodeResponse response), fd⟩ :: rest) =
      .ok (response, if attempt.fdLost then none else fd) := by
  have hmax : frameMaxBytes < usizeModulus := by decide
  have hread := readFrame_frameBytes hfits []
  rw [List.append_nil] at hread
  have hdecode := decodeResponse_encodeResponse response (lt_of_le_of_lt hfits hmax)
  simp only [recvResponseWithFd, hrecv, hread, hdecode, bind, Except.bind, pure, Except.pure]

/-- Only an error is seen of a connection that does not get to its greeting. -/
theorem eq_error_of_recv_writeError {attempt : Attempt} {text : String} {response : Response}
    {fd : Option SharedAudioRing}
    (h : recvResponseWithFd attempt (writeError text) = .ok (response, fd)) :
    response = .error text := by
  have hrecv : attempt.recvError = none := by
    cases herror : attempt.recvError with
    | none => rfl
    | some error => simp [recvResponseWithFd, herror] at h
  obtain hnone | ⟨hfits, hone⟩ := writeError_cases text
  · simp [hnone, recvResponseWithFd, hrecv] at h
  · rw [hone, recvResponseWithFd_cons hfits hrecv] at h
    injection h with h
    exact (congrArg Prod.fst h).symm

/-- The client has the `ServerHello`: the connection is in order and nothing was lost between. -/
structure Attempt.Greeted (attempt : Attempt) (hello : ClientHello) (queue : JobQueue) : Prop
    extends attempt.InOrder hello queue where
  connect : attempt.connectError = none
  written : attempt.Written hello
  recv : attempt.recvError = none

/-- The descriptor arrived and its memory can be mapped. -/
def Attempt.Attaches (attempt : Attempt) : Prop :=
  attempt.fdLost = false ∧ attempt.mmapError = none

theorem attachSession_daemonHello (attempt : Attempt) :
    (∃ session, attachSession attempt daemonHello
        (if attempt.fdLost then none else some daemonRing.toSharedAudioRing) = .ok session) ↔
      attempt.Attaches := by
  have hattach : ({ daemonRing.toSharedAudioRing with
      capacity := daemonHello.ringCapacityBytes } : SharedAudioRing).attach = .ok daemonRing :=
    dif_pos daemonRing.mapped
  unfold Attempt.Attaches
  by_cases hlost : attempt.fdLost = true
  · simp [hlost, attachSession]
  · cases hmmap : attempt.mmapError with
    | none => simp [hlost, attachSession, hattach, hmmap]
    | some text => simp [hlost, attachSession, hattach, hmmap]

/-! ### Admission -/

def JobQueue.Full (queue : JobQueue) : Prop :=
  queue.stopped = false ∧ queue.depth ≤ queue.queued

theorem ModelSchedulers.submit_eq {models : ModelSchedulers} {model : String} {queue : JobQueue}
    (h : models.schedulers model = some queue) :
    models.submit model =
      if queue.stopped then .error (.schedulerStopped "model scheduler stopped")
      else if queue.depth ≤ queue.queued then .error (.queueFull "model queue full")
      else .ok { queue with queued := queue.queued + 1 } := by
  unfold submit JobQueue.trySend
  rw [h]
  by_cases hstopped : queue.stopped = true
  · simp only [hstopped, if_true]
  · by_cases hfull : queue.depth ≤ queue.queued
    · simp [hstopped, hfull]
    · simp [hstopped, hfull]

/-- The three answers, of which one is an admission. -/
theorem ModelSchedulers.submit_cases {models : ModelSchedulers} {model : String}
    {queue : JobQueue} (h : models.schedulers model = some queue) :
    (queue.stopped = true ∧
        models.submit model = .error (.schedulerStopped "model scheduler stopped")) ∨
      (queue.Full ∧ models.submit model = .error (.queueFull "model queue full")) ∨
      (queue.stopped = false ∧ ¬ queue.Full ∧
        models.submit model = .ok { queue with queued := queue.queued + 1 }) := by
  rw [submit_eq h]
  unfold JobQueue.Full
  by_cases hstopped : queue.stopped = true
  · simp [hstopped]
  · by_cases hfull : queue.depth ≤ queue.queued
    · simp [hstopped, hfull]
    · simp [hstopped, hfull]

theorem ModelSchedulers.submit_eq_ok_iff {models : ModelSchedulers} {model : String}
    {queue : JobQueue} (h : models.schedulers model = some queue) :
    (∃ taken, models.submit model = .ok taken) ↔ queue.stopped = false ∧ ¬ queue.Full := by
  obtain ⟨hstopped, hsubmit⟩ | ⟨hfull, hsubmit⟩ | ⟨hrunning, hroom, hsubmit⟩ := submit_cases h
  · simp [hsubmit, hstopped]
  · simp [hsubmit, hfull]
  · simp [hsubmit, hrunning, hroom]

theorem ModelSchedulers.submit_eq_queueFull_iff {models : ModelSchedulers} {model : String}
    {queue : JobQueue} (h : models.schedulers model = some queue) :
    (∃ reason, models.submit model = .error (.queueFull reason)) ↔ queue.Full := by
  obtain ⟨hstopped, hsubmit⟩ | ⟨hfull, hsubmit⟩ | ⟨-, hroom, hsubmit⟩ := submit_cases h
  · simp [hsubmit, hstopped, JobQueue.Full]
  · simp [hsubmit, hfull]
  · simp [hsubmit, hroom]

/-- A session is handed out for an admitted job only; a full queue is seen as a `BackOff`, and
while there are retries left the next attempt follows. -/
structure ConnectRun.Admitted (run : ConnectRun) : Prop where
  admitted : ∀ session, run.result = .ok session →
    ∃ seen queue, run.exchanges.getLast? = some seen ∧ seen.submitted = some (.ok queue)
  backsOff : ∀ seen ∈ run.exchanges, ∀ reason,
    seen.submitted = some (.error (.queueFull reason)) →
      ∀ response, seen.response = some response → ∃ ms, response = .backOff reason ms
  retried : ∀ i < maxRetries, ∀ seen reason, run.exchanges[i]? = some seen →
    seen.submitted = some (.error (.queueFull reason)) → seen.response.isSome →
      i + 1 < run.exchanges.length
  bounded : run.exchanges.length ≤ maxRetries + 1

/-- The queue behind a greeting has room; and where the client goes on to map the ring, the daemon
goes on to ask a scheduler that is still there. -/
def Attempt.Admits (attempt : Attempt) (hello : ClientHello) : Prop :=
  ∀ queue, attempt.Greeted hello queue →
    (attempt.cloneError = none → ¬ queue.Full) ∧
      (attempt.Attaches → attempt.cloneError = none ∧ queue.stopped = false)

section Exchange

/- A client receives through `recv_response_with_fd`, and passes on what it got as long as its socket
comes back to it. -/
variable {receive : Receive} {Returns : Attempt → Prop}
  (hreceive : ∀ attempt sent received, receive attempt sent = .ok received ↔
    Returns attempt ∧ recvResponseWithFd attempt sent = .ok received)

include hreceive

theorem exchange_of_greeted {attempt : Attempt} {hello : ClientHello} {queue : JobQueue}
    (h : attempt.Greeted hello queue) (hreturns : Returns attempt) :
    exchange receive hello attempt =
      (.ok (.serverHello daemonHello,
          if attempt.fdLost then none else some daemonRing.toSharedAudioRing),
        { submitted := attempt.answer hello, response := some (.serverHello daemonHello) }) := by
  obtain ⟨rest, hconnection⟩ := handleConnection_of_inOrder h.written.2 h.toInOrder
  have hseen := recvResponseWithFd_cons fitsFrame_daemonHello h.recv
    (some daemonRing.toSharedAudioRing) rest
  have hreceived := (hreceive attempt _ _).mpr ⟨hreturns, hseen⟩
  unfold exchange
  simp only [h.connect, Attempt.writeHello_of_written h.written, hconnection, hreceived]

/-- An attempt without a greeting ends in an error, and no queue has refused it. -/
theorem exchange_of_not_greeted {attempt : Attempt} {hello : ClientHello}
    (h : ∀ queue, Returns attempt → ¬ attempt.Greeted hello queue) :
    (∃ error seen, exchange receive hello attempt = (.error error, seen) ∧
        seen.response = none) ∨
      ∃ text fd, exchange receive hello attempt =
        (.ok (.error text, fd), { submitted := none, response := some (.error text) }) := by
  unfold exchange
  cases hconnect : attempt.connectError with
  | some text => exact .inl ⟨_, _, rfl, rfl⟩
  | none =>
      dsimp only
      cases hwritten : (attempt.writeHello hello).1 with
      | error error => exact .inl ⟨_, _, rfl, rfl⟩
      | ok done =>
          have hwrote := Attempt.written_of_writeHello hwritten
          dsimp only
          rw [Attempt.writeHello_of_written hwrote]
          cases hgot : receive attempt
              (handleConnection attempt (frameBytes (encodeClientHello hello))).sent with
          | error error => exact .inl ⟨_, _, rfl, rfl⟩
          | ok received =>
              obtain ⟨response, fd⟩ := received
              obtain ⟨hreturns, hrecv⟩ := (hreceive _ _ _).mp hgot
              have hnone : attempt.recvError = none := by
                cases herror : attempt.recvError with
                | none => rfl
                | some error => simp [recvResponseWithFd, herror] at hrecv
              have hout : ∀ queue, ¬ attempt.InOrder hello queue := by
                intro queue hin
                exact h queue hreturns
                  { toInOrder := hin, connect := hconnect, written := hwrote, recv := hnone }
              obtain hempty | ⟨text, herror⟩ := handleConnection_of_not_inOrder hwrote.2 hout
              · rw [hempty] at hrecv
                simp [recvResponseWithFd, hnone] at hrecv
              · rw [herror] at hrecv
                obtain rfl := eq_error_of_recv_writeError hrecv
                right
                refine ⟨text, fd, ?_⟩
                dsimp only
                rw [herror]

/-- The first attempt is the only one: no response asks for another. -/
theorem connectLoop_eq (debug : Response → String) (hello : ClientHello) (retries : Nat)
    (attempts : Nat → Attempt) :
    (connectLoop receive debug hello retries attempts).exchanges =
      [(exchange receive hello (attempts 0)).2] := by
  by_cases hgreeted : ∃ queue, (attempts 0).Greeted hello queue ∧ Returns (attempts 0)
  · obtain ⟨queue, hqueue, hreturns⟩ := hgreeted
    unfold connectLoop
    rw [exchange_of_greeted hreceive hqueue hreturns]
  · have hout : ∀ queue, Returns (attempts 0) → ¬ (attempts 0).Greeted hello queue :=
      fun queue hreturns hqueue => hgreeted ⟨queue, hqueue, hreturns⟩
    obtain ⟨error, seen, hexchange, -⟩ | ⟨text, fd, hexchange⟩ :=
      exchange_of_not_greeted hreceive hout
    · unfold connectLoop
      rw [hexchange]
    · unfold connectLoop
      rw [hexchange]

/-- A session is in the caller's hands only after a greeting whose ring could be mapped. -/
theorem result_connectLoop_eq_ok_iff (debug : Response → String) (hello : ClientHello)
    (retries : Nat) (attempts : Nat → Attempt) :
    (∃ session, (connectLoop receive debug hello retries attempts).result = .ok session) ↔
      (∃ queue, (attempts 0).Greeted hello queue ∧ Returns (attempts 0)) ∧
        (attempts 0).Attaches := by
  by_cases hgreeted : ∃ queue, (attempts 0).Greeted hello queue ∧ Returns (attempts 0)
  · obtain ⟨queue, hqueue, hreturns⟩ := hgreeted
    unfold connectLoop
    rw [exchange_of_greeted hreceive hqueue hreturns]
    simp only [attachSession_daemonHello]
    exact ⟨fun h => ⟨⟨queue, hqueue, hreturns⟩, h⟩, fun h => h.2⟩
  · have hout : ∀ queue, Returns (attempts 0) → ¬ (attempts 0).Greeted hello queue :=
      fun queue hreturns hqueue => hgreeted ⟨queue, hqueue, hreturns⟩
    refine ⟨fun hsession => absurd hsession ?_, fun h => absurd h.1 hgreeted⟩
    obtain ⟨error, seen, hexchange, -⟩ | ⟨text, fd, hexchange⟩ :=
      exchange_of_not_greeted hreceive hout
    · unfold connectLoop
      rw [hexchange]
      simp
    · unfold connectLoop
      rw [hexchange]
      simp

section Greeted

variable {hello : ClientHello} {attempts : Nat → Attempt} {queue : JobQueue}
  (hqueue : (attempts 0).Greeted hello queue) (hreturns : Returns (attempts 0))

include hqueue hreturns

/-- An admitted greeting has found room, and a scheduler to ask. -/
theorem admits_of_admitted {debug : Response → String}
    (h : (connectLoop receive debug hello maxRetries attempts).Admitted) :
    ((attempts 0).cloneError = none → ¬ queue.Full) ∧
      ((attempts 0).Attaches → (attempts 0).cloneError = none ∧ queue.stopped = false) := by
  have hexchanges := connectLoop_eq hreceive debug hello maxRetries attempts
  rw [exchange_of_greeted hreceive hqueue hreturns] at hexchanges
  refine ⟨fun hclone hfull => ?_, fun hattaches => ?_⟩
  · obtain ⟨reason, hsubmit⟩ := (ModelSchedulers.submit_eq_queueFull_iff hqueue.enabled).mpr hfull
    obtain ⟨ms, hbackOff⟩ := h.backsOff _ (by rw [hexchanges]; exact List.mem_singleton_self _)
      reason (Attempt.answer_eq_some_iff.mpr ⟨hclone, hsubmit⟩) _ rfl
    cases hbackOff
  · obtain ⟨session, hsession⟩ :=
      (result_connectLoop_eq_ok_iff hreceive debug hello maxRetries attempts).mpr
        ⟨⟨queue, hqueue, hreturns⟩, hattaches⟩
    obtain ⟨seen, taken, hlast, hsubmitted⟩ := h.admitted session hsession
    rw [hexchanges] at hlast
    obtain rfl : _ = seen := by simpa using hlast
    obtain ⟨hclone, htaken⟩ := Attempt.answer_eq_some_iff.mp hsubmitted
    exact ⟨hclone, ((ModelSchedulers.submit_eq_ok_iff hqueue.enabled).mp ⟨taken, htaken⟩).1⟩

/-- A greeting that finds both is admitted. -/
theorem admitted_of_greeted (debug : Response → String)
    (hroom : (attempts 0).cloneError = none → ¬ queue.Full)
    (hasked : (attempts 0).Attaches → (attempts 0).cloneError = none ∧ queue.stopped = false) :
    (connectLoop receive debug hello maxRetries attempts).Admitted := by
  have hexchanges := connectLoop_eq hreceive debug hello maxRetries attempts
  rw [exchange_of_greeted hreceive hqueue hreturns] at hexchanges
  -- The queue has room, so a refusal for want of it is no answer of this attempt.
  have hnot : ∀ seen ∈ (connectLoop receive debug hello maxRetries attempts).exchanges,
      ∀ reason, seen.submitted ≠ some (.error (.queueFull reason)) := by
    intro seen hmem reason hanswer
    rw [hexchanges, List.mem_singleton] at hmem
    subst hmem
    obtain ⟨hclone, hsubmit⟩ := Attempt.answer_eq_some_iff.mp hanswer
    exact hroom hclone
      ((ModelSchedulers.submit_eq_queueFull_iff hqueue.enabled).mp ⟨reason, hsubmit⟩)
  refine ⟨fun session hsession => ?_, fun seen hmem reason hfull => ?_,
    fun i _ seen reason hseen hfull => ?_, by simp [hexchanges]⟩
  · obtain ⟨-, hattaches⟩ :=
      (result_connectLoop_eq_ok_iff hreceive debug hello maxRetries attempts).mp
        ⟨session, hsession⟩
    obtain ⟨hclone, hrunning⟩ := hasked hattaches
    obtain ⟨taken, htaken⟩ := (ModelSchedulers.submit_eq_ok_iff hqueue.enabled).mpr
      ⟨hrunning, hroom hclone⟩
    refine ⟨_, taken, by rw [hexchanges]; rfl, ?_⟩
    exact Attempt.answer_eq_some_iff.mpr ⟨hclone, htaken⟩
  · exact absurd hfull (hnot seen hmem reason)
  · exact absurd hfull (hnot seen (List.mem_of_getElem? hseen) reason)

end Greeted

/-- Without a greeting nothing was seen, or the daemon stopped before it asked. -/
theorem admitted_of_not_greeted {hello : ClientHello} {attempts : Nat → Attempt}
    (hgreeted : ¬ ∃ queue, (attempts 0).Greeted hello queue ∧ Returns (attempts 0))
    (debug : Response → String) :
    (connectLoop receive debug hello maxRetries attempts).Admitted := by
  have hexchanges := connectLoop_eq hreceive debug hello maxRetries attempts
  have hout : ∀ queue, Returns (attempts 0) → ¬ (attempts 0).Greeted hello queue :=
    fun queue hreturns hqueue => hgreeted ⟨queue, hqueue, hreturns⟩
  have hquiet : ∀ seen ∈ (connectLoop receive debug hello maxRetries attempts).exchanges,
      seen.response = none ∨ seen.submitted = none := by
    intro seen hmem
    rw [hexchanges, List.mem_singleton] at hmem
    subst hmem
    obtain ⟨error, seen, hexchange, hnone⟩ | ⟨text, fd, hexchange⟩ :=
      exchange_of_not_greeted hreceive hout
    · exact .inl (by rw [hexchange]; exact hnone)
    · exact .inr (by rw [hexchange])
  refine ⟨fun session hsession => ?_, fun seen hmem reason hfull response hresponse => ?_,
    fun i _ seen reason hseen hfull hresponse => ?_, by simp [hexchanges]⟩
  · have hresult := result_connectLoop_eq_ok_iff hreceive debug hello maxRetries attempts
    exact absurd (hresult.mp ⟨session, hsession⟩).1 hgreeted
  · obtain hnone | hnone := hquiet seen hmem
    · simp [hnone] at hresponse
    · simp [hnone] at hfull
  · obtain hnone | hnone := hquiet seen (List.mem_of_getElem? hseen)
    · simp [hnone] at hresponse
    · simp [hnone] at hfull

theorem connectLoop_admitted_iff (debug : Response → String) (hello : ClientHello)
    (attempts : Nat → Attempt) :
    (connectLoop receive debug hello maxRetries attempts).Admitted ↔
      (Returns (attempts 0) → (attempts 0).Admits hello) := by
  constructor
  · intro h hreturns queue hqueue
    exact admits_of_admitted hreceive hqueue hreturns h
  · intro h
    by_cases hgreeted : ∃ queue, (attempts 0).Greeted hello queue ∧ Returns (attempts 0)
    · obtain ⟨queue, hqueue, hreturns⟩ := hgreeted
      obtain ⟨hroom, hasked⟩ := h hreturns queue hqueue
      exact admitted_of_greeted hreceive hqueue hreturns debug hroom hasked
    · exact admitted_of_not_greeted hreceive hgreeted debug

end Exchange

/-- The socket of the Tokio client is still there after the blocking `recvmsg`. -/
def Attempt.ComesBack (attempt : Attempt) : Prop :=
  attempt.joinError = none ∧ attempt.intoStdError = none ∧ attempt.fromStdError = none

theorem Sync.receive_eq_ok_iff (attempt : Attempt) (sent : List Message)
    (received : Response × Option SharedAudioRing) :
    Sync.receive attempt sent = .ok received ↔
      True ∧ recvResponseWithFd attempt sent = .ok received := by
  unfold Sync.receive
  cases recvResponseWithFd attempt sent with
  | error error => simp
  | ok value => simp

theorem Asynchronous.receive_eq_ok_iff (attempt : Attempt) (sent : List Message)
    (received : Response × Option SharedAudioRing) :
    Asynchronous.receive attempt sent = .ok received ↔
      attempt.ComesBack ∧ recvResponseWithFd attempt sent = .ok received := by
  unfold Asynchronous.receive Attempt.ComesBack
  cases attempt.joinError with
  | some text => simp
  | none =>
      cases attempt.intoStdError with
      | some text => simp
      | none =>
          cases recvResponseWithFd attempt sent with
          | error error => simp
          | ok value => cases attempt.fromStdError <;> simp

/-- **When a session stands for an admitted job.** Neither client ever retries, so the first
attempt decides: its greeting must not be followed by a refusal. -/
theorem connect_admitted_iff (debug : Response → String) (hello : ClientHello)
    (attempts : Nat → Attempt) :
    ((Sync.connect debug hello attempts).Admitted ↔ (attempts 0).Admits hello) ∧
    ((Asynchronous.connect debug hello attempts).Admitted ↔
      ((attempts 0).ComesBack → (attempts 0).Admits hello)) := by
  have hsync := connectLoop_admitted_iff Sync.receive_eq_ok_iff debug hello attempts
  have hasync := connectLoop_admitted_iff Asynchronous.receive_eq_ok_iff debug hello attempts
  rw [true_imp_iff] at hsync
  exact ⟨hsync, hasync⟩

/-- A queue of one job that holds one, whatever model is asked for. -/
def fullQueue : Attempt where
  schedulers := ⟨fun _ => some { depth := 1, queued := 1 }⟩

theorem fullQueue_greeted :
    fullQueue.Greeted { model := "whisper" } { depth := 1, queued := 1 } where
  model := by decide
  valid := rfl
  enabled := rfl
  create := rfl
  send := rfl
  connect := rfl
  written := ⟨rfl, by decide +kernel⟩
  recv := rfl

/-- Both clients return a session for a job the full queue refuses, and see no `BackOff`. -/
theorem not_admitted_fullQueue :
    ¬ (Sync.connect (fun _ => "") { model := "whisper" } fun _ => fullQueue).Admitted ∧
    ¬ (Asynchronous.connect (fun _ => "") { model := "whisper" } fun _ => fullQueue).Admitted := by
  have hfull : ¬ fullQueue.Admits { model := "whisper" } := by
    intro h
    exact (h _ fullQueue_greeted).1 rfl ⟨rfl, le_rfl⟩
  constructor
  · intro h
    exact hfull ((connectLoop_admitted_iff Sync.receive_eq_ok_iff _ _ _).mp h trivial)
  · intro h
    exact hfull ((connectLoop_admitted_iff Asynchronous.receive_eq_ok_iff _ _ _).mp h
      ⟨rfl, rfl, rfl⟩)

end RkWhisper
