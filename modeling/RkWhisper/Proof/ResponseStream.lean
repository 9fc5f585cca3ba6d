import RkWhisper.Proof.ProtocolRoundTrip

/-!
# The response stream

Every variant of a response survives its encoder and its decoder, a frame survives the frame writer
and the frame reader whatever follows it, and so a whole stream of responses does. A response that
does not fit a frame leaves no byte behind and so cannot shift the frames around it.
-/

namespace RkWhisper

/-! ### The bodies -/

/-- The field of a response and the message it carries in it. -/
def responseBody : Response → UInt32 × Bytes
  | .serverHello server => (1, encodeServerHello server)
  | .segment text begin_ end_ =>
      (2, fieldString 1 text ++ fieldFixed32 2 begin_ ++ fieldFixed32 3 end_)
  | .done audioS rtf => (3, fieldFixed32 1 audioS ++ fieldFixed32 2 rtf)
  | .error error => (4, fieldString 1 error)
  | .cancelled audioS rtf windowsDispatched windowsCompleted =>
      (5, fieldFixed32 1 audioS ++ fieldFixed32 2 rtf ++ fieldVarint 3 windowsDispatched ++
        fieldVarint 4 windowsCompleted)
  | .backOff reason retryAfterMs =>
      (6, fieldString 1 reason ++ fieldVarint 2 retryAfterMs.toUInt64)
  | .speechStarted begin_ => (7, fieldVarint 1 1 ++ fieldFixed32 2 begin_)
  | .speechEnded end_ => (7, fieldVarint 1 2 ++ fieldFixed32 2 end_)

theorem encodeResponse_eq (response : Response) :
    encodeResponse response = fieldMessage (responseBody response).1 (responseBody response).2 := by
  cases response <;> rfl

/-- The field numbers of a response, and no others, reach a body decoder. -/
def decodeBody (field : UInt32) (body : Bytes) : Except Error Response :=
  match field with
  | 1 => return .serverHello (← decodeServerHello body)
  | 2 => decodeSegment body
  | 3 => decodeDone body
  | 4 => return .error (← decodeError body)
  | 5 => decodeCancelled body
  | 6 => decodeBackOff body
  | 7 => decodeSpeechEvent body
  | _ => .error (.proto s!"unknown response field {field}")

theorem decodeServerHello_encode (server : ServerHello)
    (hfits : (encodeServerHello server).length < usizeModulus) :
    decodeServerHello (encodeServerHello server) = .ok server := by
  have hlen := hfits
  simp only [encodeServerHello, List.length_append] at hlen
  have hformat := decodeAudioFormat_encode server.audioFormat
    (length_lt_of_fieldMessage 1 (by omega))
  have heq : encodeServerHello server = Wire.encode
      [⟨1, .bytes (encodeAudioFormat server.audioFormat)⟩, ⟨2, .varint server.ringCapacityBytes⟩,
        ⟨3, .varint server.ringHeaderBytes.toUInt64⟩] := by
    simp only [encodeServerHello, Wire.encode_cons, Wire.encode_nil, List.append_assoc,
      List.append_nil]
    rw [fieldMessage_eq_of_fits _ (by omega), fieldVarint_eq, fieldVarint_eq]
  rw [heq] at hfits ⊢
  rw [decodeServerHello, decodeMessage_encode _ _ hfits]
  simp [applyField, serverHelloArms, Wire.Value.wire, FieldArm.apply, hformat, bind, Except.bind,
    pure, Except.pure]

theorem decodeSegment_encode (text : String) (begin_ end_ : F32)
    (hfits : (fieldString 1 text ++ fieldFixed32 2 begin_ ++ fieldFixed32 3 end_).length
      < usizeModulus) :
    decodeSegment (fieldString 1 text ++ fieldFixed32 2 begin_ ++ fieldFixed32 3 end_) =
      .ok (.segment text begin_ end_) := by
  have heq : fieldString 1 text ++ fieldFixed32 2 begin_ ++ fieldFixed32 3 end_ = Wire.encode
      [⟨1, .bytes (asBytes text)⟩, ⟨2, .fixed32 begin_.bits⟩, ⟨3, .fixed32 end_.bits⟩] := by
    simp only [List.length_append] at hfits
    simp only [Wire.encode_cons, Wire.encode_nil, List.append_assoc, List.append_nil]
    rw [fieldString_eq_of_fits _ (by omega), fieldFixed32_eq, fieldFixed32_eq]
  rw [heq] at hfits ⊢
  rw [decodeSegment, decodeMessage_encode _ _ hfits]
  simp [applyField, segmentArms, Wire.Value.wire, FieldArm.apply, bind, Except.bind, pure,
    Except.pure]

theorem decodeDone_encode (audioS rtf : F32)
    (hfits : (fieldFixed32 1 audioS ++ fieldFixed32 2 rtf).length < usizeModulus) :
    decodeDone (fieldFixed32 1 audioS ++ fieldFixed32 2 rtf) = .ok (.done audioS rtf) := by
  have heq : fieldFixed32 1 audioS ++ fieldFixed32 2 rtf = Wire.encode
      [⟨1, .fixed32 audioS.bits⟩, ⟨2, .fixed32 rtf.bits⟩] := by
    simp [fieldFixed32_eq]
  rw [heq] at hfits ⊢
  rw [decodeDone, decodeMessage_encode _ _ hfits]
  simp [applyField, doneArms, Wire.Value.wire, FieldArm.apply, bind, Except.bind, pure,
    Except.pure]

theorem decodeError_encode (error : String)
    (hfits : (fieldString 1 error).length < usizeModulus) :
    decodeError (fieldString 1 error) = .ok error := by
  have heq : fieldString 1 error = Wire.encode [⟨1, .bytes (asBytes error)⟩] := by
    simp [fieldString_eq_of_fits _ hfits]
  rw [heq] at hfits ⊢
  rw [decodeError, decodeMessage_encode _ _ hfits]
  simp [applyField, errorArms, Wire.Value.wire, FieldArm.apply, bind, Except.bind, pure,
    Except.pure]

theorem decodeCancelled_encode (audioS rtf : F32) (windowsDispatched windowsCompleted : UInt64)
    (hfits : (fieldFixed32 1 audioS ++ fieldFixed32 2 rtf ++ fieldVarint 3 windowsDispatched ++
      fieldVarint 4 windowsCompleted).length < usizeModulus) :
    decodeCancelled (fieldFixed32 1 audioS ++ fieldFixed32 2 rtf ++
        fieldVarint 3 windowsDispatched ++ fieldVarint 4 windowsCompleted) =
      .ok (.cancelled audioS rtf windowsDispatched windowsCompleted) := by
  have heq : fieldFixed32 1 audioS ++ fieldFixed32 2 rtf ++ fieldVarint 3 windowsDispatched ++
      fieldVarint 4 windowsCompleted = Wire.encode
      [⟨1, .fixed32 audioS.bits⟩, ⟨2, .fixed32 rtf.bits⟩, ⟨3, .varint windowsDispatched⟩,
        ⟨4, .varint windowsCompleted⟩] := by
    simp [fieldFixed32_eq, fieldVarint_eq]
  rw [heq] at hfits ⊢
  rw [decodeCancelled, decodeMessage_encode _ _ hfits]
  simp [applyField, cancelledArms, Wire.Value.wire, FieldArm.apply, bind, Except.bind, pure,
    Except.pure]

theorem decodeBackOff_encode (reason : String) (retryAfterMs : UInt32)
    (hfits : (fieldString 1 reason ++ fieldVarint 2 retryAfterMs.toUInt64).length
      < usizeModulus) :
    decodeBackOff (fieldString 1 reason ++ fieldVarint 2 retryAfterMs.toUInt64) =
      .ok (.backOff reason retryAfterMs) := by
  have heq : fieldString 1 reason ++ fieldVarint 2 retryAfterMs.toUInt64 = Wire.encode
      [⟨1, .bytes (asBytes reason)⟩, ⟨2, .varint retryAfterMs.toUInt64⟩] := by
    simp only [List.length_append] at hfits
    rw [fieldString_eq_of_fits _ (by omega), fieldVarint_eq]
    simp
  rw [heq] at hfits ⊢
  rw [decodeBackOff, decodeMessage_encode _ _ hfits]
  simp [applyField, backOffArms, Wire.Value.wire, FieldArm.apply, bind, Except.bind, pure,
    Except.pure]

/-- The event type, not the field, tells the two speech events apart. -/
theorem decodeSpeechEvent_encode (eventType : UInt64) (timestamp : F32)
    (hfits : (fieldVarint 1 eventType ++ fieldFixed32 2 timestamp).length < usizeModulus) :
    decodeSpeechEvent (fieldVarint 1 eventType ++ fieldFixed32 2 timestamp) =
      if eventType = 1 then .ok (.speechStarted timestamp)
      else if eventType = 2 then .ok (.speechEnded timestamp)
      else .error (.proto s!"unknown speech event type {eventType}") := by
  have heq : fieldVarint 1 eventType ++ fieldFixed32 2 timestamp = Wire.encode
      [⟨1, .varint eventType⟩, ⟨2, .fixed32 timestamp.bits⟩] := by
    simp [fieldFixed32_eq, fieldVarint_eq]
  rw [heq] at hfits ⊢
  rw [decodeSpeechEvent, decodeMessage_encode _ _ hfits]
  simp [applyField, speechEventArms, Wire.Value.wire, FieldArm.apply, bind, Except.bind, pure,
    Except.pure]

theorem decodeBody_responseBody (response : Response)
    (hfits : (responseBody response).2.length < usizeModulus) :
    decodeBody (responseBody response).1 (responseBody response).2 = .ok response := by
  cases response with
  | serverHello server =>
      simp [decodeBody, responseBody, decodeServerHello_encode server hfits, bind, Except.bind,
        pure, Except.pure]
  | segment text begin_ end_ => exact decodeSegment_encode text begin_ end_ hfits
  | done audioS rtf => exact decodeDone_encode audioS rtf hfits
  | error error =>
      simp [decodeBody, responseBody, decodeError_encode error hfits, bind, Except.bind, pure,
        Except.pure]
  | cancelled audioS rtf windowsDispatched windowsCompleted =>
      exact decodeCancelled_encode audioS rtf windowsDispatched windowsCompleted hfits
  | backOff reason retryAfterMs => exact decodeBackOff_encode reason retryAfterMs hfits
  | speechStarted begin_ => exact decodeSpeechEvent_encode 1 begin_ hfits
  | speechEnded end_ => exact decodeSpeechEvent_encode 2 end_ hfits

/-- **One response survives its encoding.** -/
theorem decodeResponse_encodeResponse (response : Response)
    (hfits : (encodeResponse response).length < usizeModulus) :
    decodeResponse (encodeResponse response) = .ok response := by
  rw [encodeResponse_eq] at hfits ⊢
  have hbody := length_lt_of_fieldMessage _ hfits
  have hdecoded := decodeBody_responseBody response hbody
  generalize responseBody response = parts at hfits hbody hdecoded ⊢
  obtain ⟨field, body⟩ := parts
  rw [fieldMessage_eq field hbody] at hfits ⊢
  have hrest : (ProtoInput.new (Wire.Field.mk field (.bytes body)).encode).rest =
      Wire.base128 (Wire.Field.mk field (.bytes body)).key ++
        (Wire.base128 body.length ++ body ++ []) := by
    simp [Wire.Field.encode, Wire.Value.encode]
  have hkey := ProtoInput.key_of_rest (Wire.isVarint_base128 (Wire.Field.key_lt _)) hrest
  have hread := ProtoInput.takeBytes_of_rest (Wire.isVarint_base128 hbody)
    (ProtoInput.rest_advance_of_append hrest) hfits
  have hwire : (Wire.Value.bytes body).wire = 2 := rfl
  simp only [decodeResponse, hkey, hread, hwire, bind, Except.bind, ne_eq, not_true_eq_false,
    if_false]
  exact hdecoded

/-! ### Frames -/

/-- The bytes a frame takes on the socket. -/
def frameBytes (frame : Bytes) : Bytes :=
  LittleEndian.ofUInt32 (UInt32.ofNat frame.length) ++ frame

theorem writeFrame_of_le (writer : Bytes) {frame : Bytes} (h : frame.length ≤ frameMaxBytes) :
    writeFrame writer frame = (.ok (), writer ++ frameBytes frame) := by
  have hnot : ¬ frameMaxBytes < frame.length := by omega
  simp [writeFrame, frameBytes, hnot]

theorem writeFrame_of_lt (writer : Bytes) {frame : Bytes} (h : frameMaxBytes < frame.length) :
    writeFrame writer frame = (.error frameTooLong, writer) := by
  simp [writeFrame, h]

theorem readExact_append (front tail : Bytes) :
    readExact front.length (front ++ tail) = .ok (front, tail) := by
  simp [readExact]

theorem toNat_ofUInt32_length {frame : Bytes} (h : frame.length ≤ frameMaxBytes) :
    LittleEndian.toNat (LittleEndian.ofUInt32 (UInt32.ofNat frame.length)) = frame.length := by
  have hmax : frameMaxBytes < 2 ^ 32 := by decide
  have hlen : (UInt32.ofNat frame.length).toNat = frame.length := by
    rw [UInt32.toNat_ofNat']
    omega
  have hbits := congrArg UInt32.toNat
    (LittleEndian.toUInt32_ofUInt32 (UInt32.ofNat frame.length))
  have hlt := LittleEndian.toNat_ofUInt32_lt (UInt32.ofNat frame.length)
  rw [LittleEndian.toUInt32, UInt32.toNat_ofNat', hlen, Nat.mod_eq_of_lt hlt] at hbits
  exact hbits

theorem readFrame_frameBytes {frame : Bytes} (h : frame.length ≤ frameMaxBytes) (tail : Bytes) :
    readFrame (frameBytes frame ++ tail) = .ok (frame, tail) := by
  have hlen := readExact_append (LittleEndian.ofUInt32 (UInt32.ofNat frame.length))
    (frame ++ tail)
  rw [LittleEndian.length_ofUInt32] at hlen
  have hnot : ¬ frameMaxBytes < frame.length := by omega
  simp only [readFrame, frameBytes, List.append_assoc, hlen, bind, Except.bind,
    toNat_ofUInt32_length h, hnot, if_false]
  exact readExact_append frame tail

/-! ### The stream -/

/-- `write_response` for each response in turn: the results and what the writer holds at the end. -/
def writeResponses : Bytes → List Response → List (Except Error Unit) × Bytes
  | writer, [] => ([], writer)
  | writer, response :: responses =>
      let (result, writer) := writeResponse writer response
      let (results, writer) := writeResponses writer responses
      (result :: results, writer)

/-- `read_frame` and `decode_response` until the stream is used up. Each frame takes four bytes or
more, so the length of the stream bounds the rounds. -/
def readResponses : Nat → Bytes → Except Error (List Response)
  | _, [] => .ok []
  | 0, _ :: _ => .error (.other "unreachable: every frame takes bytes")
  | rounds + 1, byte :: reader => do
      let (frame, reader) ← readFrame (byte :: reader)
      let response ← decodeResponse frame
      return response :: (← readResponses rounds reader)

def FitsFrame (response : Response) : Prop := (encodeResponse response).length ≤ frameMaxBytes

instance : DecidablePred FitsFrame := fun response =>
  inferInstanceAs (Decidable ((encodeResponse response).length ≤ frameMaxBytes))

/-- What the responses that fit a frame put on the socket. -/
def streamBytes (responses : List Response) : Bytes :=
  responses.flatMap fun response => frameBytes (encodeResponse response)

theorem writeResponses_snd (writer : Bytes) (responses : List Response) :
    (writeResponses writer responses).2 =
      writer ++ streamBytes (responses.filter (FitsFrame ·)) := by
  induction responses generalizing writer with
  | nil => simp [writeResponses, streamBytes]
  | cons response responses ih =>
      by_cases hfits : FitsFrame response
      · simp only [writeResponses, writeResponse, writeFrame_of_le writer hfits, ih]
        simp [hfits, streamBytes]
      · have hlong : frameMaxBytes < (encodeResponse response).length := by
          simpa [FitsFrame] using hfits
        simp only [writeResponses, writeResponse, writeFrame_of_lt writer hlong, ih]
        simp [hfits]

theorem writeResponses_fst (writer : Bytes) (responses : List Response) :
    (writeResponses writer responses).1 = responses.map fun response =>
      if FitsFrame response then .ok () else .error frameTooLong := by
  induction responses generalizing writer with
  | nil => rfl
  | cons response responses ih =>
      by_cases hfits : FitsFrame response
      · simp [writeResponses, writeResponse, writeFrame_of_le writer hfits, ih, hfits]
      · have hlong : frameMaxBytes < (encodeResponse response).length := by
          simpa [FitsFrame] using hfits
        simp [writeResponses, writeResponse, writeFrame_of_lt writer hlong, ih, hfits]

theorem frameBytes_eq_cons (frame : Bytes) :
    ∃ byte tail, frameBytes frame = byte :: tail :=
  ⟨_, _, rfl⟩

theorem readResponses_streamBytes (responses : List Response)
    (hfits : ∀ response ∈ responses, FitsFrame response) :
    ∀ rounds, (streamBytes responses).length ≤ rounds →
      readResponses rounds (streamBytes responses) = .ok responses := by
  induction responses with
  | nil =>
      intro rounds _
      cases rounds <;> rfl
  | cons response responses ih =>
      intro rounds hrounds
      rw [List.forall_mem_cons] at hfits
      have hsplit : streamBytes (response :: responses) =
          frameBytes (encodeResponse response) ++ streamBytes responses := rfl
      have hread := readFrame_frameBytes hfits.1 (streamBytes responses)
      have hmax : frameMaxBytes < usizeModulus := by decide
      have hdecode := decodeResponse_encodeResponse response (lt_of_le_of_lt hfits.1 hmax)
      obtain ⟨byte, tail, hcons⟩ := frameBytes_eq_cons (encodeResponse response)
      rw [hsplit, hcons, List.cons_append] at hrounds ⊢
      rw [hcons, List.cons_append] at hread
      simp only [List.length_cons, List.length_append] at hrounds
      obtain ⟨rounds, rfl⟩ : ∃ left, rounds = left + 1 := ⟨rounds - 1, by omega⟩
      have hrest := ih hfits.2 rounds (by omega)
      simp only [readResponses, hread, hdecode, hrest, bind, Except.bind, pure, Except.pure]

/-- **The stream round trip.** The responses that fit a frame are written with success and read
back in order, and reading them uses up the stream; a response that does not fit is refused and
leaves the writer as it was, so the frames around it are read as if it had never been tried. -/
theorem readResponses_writeResponses (responses : List Response) :
    (∀ rounds, (writeResponses [] responses).2.length ≤ rounds →
      readResponses rounds (writeResponses [] responses).2 =
        .ok (responses.filter (FitsFrame ·))) ∧
    (writeResponses [] responses).1 = (responses.map fun response =>
      if FitsFrame response then .ok () else .error frameTooLong) ∧
    ((∀ response ∈ responses, FitsFrame response) →
      readResponses (writeResponses [] responses).2.length (writeResponses [] responses).2 =
        .ok responses) ∧
    (∀ writer frame : Bytes, frameMaxBytes < frame.length →
      writeFrame writer frame = (.error frameTooLong, writer)) := by
  have hread : ∀ rounds, (writeResponses [] responses).2.length ≤ rounds →
      readResponses rounds (writeResponses [] responses).2 =
        .ok (responses.filter (FitsFrame ·)) := by
    rw [writeResponses_snd, List.nil_append]
    apply readResponses_streamBytes
    intro response hmem
    simpa using (List.mem_filter.mp hmem).2
  refine ⟨hread, writeResponses_fst [] responses, fun hall => ?_, fun writer frame hlong =>
    writeFrame_of_lt writer hlong⟩
  have hfilter : responses.filter (FitsFrame ·) = responses := by
    rw [List.filter_eq_self]
    intro response hmem
    simpa using hall response hmem
  rw [hread _ le_rfl, hfilter]

end RkWhisper
