import RkWhisper.Proof.ForwardCompatible
import RkWhisper.Proof.ResponseStream

/-!
# The responses of a later daemon

A response with fields that this decoder does not know, in its message or in the audio format of a
hello, is decoded as if they were not there, and so it is with any bytes behind it. A response that
is broken off is refused. Not so in front of the message: the first field decides, and a field that is
not known is an error there.
-/

namespace RkWhisper

/-! ### The parts of a response -/

def serverHelloNumbers : List UInt32 := [1, 2, 3]

/-- The numbers that the message of a response uses. -/
def responseNumbers : Response → List UInt32
  | .serverHello _ => serverHelloNumbers
  | .segment .. => [1, 2, 3]
  | .done .. => [1, 2]
  | .error _ => [1]
  | .cancelled .. => [1, 2, 3, 4]
  | .backOff .. | .speechStarted _ | .speechEnded _ => [1, 2]

/-- The fields of a response; `audio` is the nested message of a hello. -/
def responseParts (response : Response) (audio : Bytes) : List Bytes :=
  match response with
  | .serverHello server =>
      [fieldMessage 1 audio, fieldVarint 2 server.ringCapacityBytes,
        fieldVarint 3 server.ringHeaderBytes.toUInt64]
  | .segment text begin_ end_ => [fieldString 1 text, fieldFixed32 2 begin_, fieldFixed32 3 end_]
  | .done audioS rtf => [fieldFixed32 1 audioS, fieldFixed32 2 rtf]
  | .error error => [fieldString 1 error]
  | .cancelled audioS rtf windowsDispatched windowsCompleted =>
      [fieldFixed32 1 audioS, fieldFixed32 2 rtf, fieldVarint 3 windowsDispatched,
        fieldVarint 4 windowsCompleted]
  | .backOff reason retryAfterMs => [fieldString 1 reason, fieldVarint 2 retryAfterMs.toUInt64]
  | .speechStarted begin_ => [fieldVarint 1 1, fieldFixed32 2 begin_]
  | .speechEnded end_ => [fieldVarint 1 2, fieldFixed32 2 end_]

def responseFields (response : Response) (audio : Bytes) : List Wire.Field :=
  match response with
  | .serverHello server =>
      [⟨1, .bytes audio⟩, ⟨2, .varint server.ringCapacityBytes⟩,
        ⟨3, .varint server.ringHeaderBytes.toUInt64⟩]
  | .segment text begin_ end_ =>
      [⟨1, .bytes (asBytes text)⟩, ⟨2, .fixed32 begin_.bits⟩, ⟨3, .fixed32 end_.bits⟩]
  | .done audioS rtf => [⟨1, .fixed32 audioS.bits⟩, ⟨2, .fixed32 rtf.bits⟩]
  | .error error => [⟨1, .bytes (asBytes error)⟩]
  | .cancelled audioS rtf windowsDispatched windowsCompleted =>
      [⟨1, .fixed32 audioS.bits⟩, ⟨2, .fixed32 rtf.bits⟩, ⟨3, .varint windowsDispatched⟩,
        ⟨4, .varint windowsCompleted⟩]
  | .backOff reason retryAfterMs =>
      [⟨1, .bytes (asBytes reason)⟩, ⟨2, .varint retryAfterMs.toUInt64⟩]
  | .speechStarted begin_ => [⟨1, .varint 1⟩, ⟨2, .fixed32 begin_.bits⟩]
  | .speechEnded end_ => [⟨1, .varint 2⟩, ⟨2, .fixed32 end_.bits⟩]

/-- The audio format in a response. -/
def responseFormat : Response → Option AudioFormat
  | .serverHello server => some server.audioFormat
  | _ => none

/-- The message of `response`, with unknown fields in it and in its audio format. -/
structure ExtendsResponse (response : Response) (audio body : Bytes) : Prop where
  inAudio : ∀ format ∈ responseFormat response,
    Wire.Interleaved (IsUnknown audioFormatNumbers) (audioFormatParts format) audio
  inBody : Wire.Interleaved (IsUnknown (responseNumbers response)) (responseParts response audio) body

theorem responseParts_eq {response : Response} {audio : Bytes}
    (hfits : ∀ part ∈ responseParts response audio, part.length < usizeModulus) :
    responseParts response audio = (responseFields response audio).map Wire.Field.encode := by
  cases response with
  | serverHello server =>
      have hmessage := hfits _ List.mem_cons_self
      simp [responseParts, responseFields, fieldVarint_eq, fieldMessage_eq_of_fits 1 hmessage]
  | segment | error | backOff =>
      have hstring := hfits _ List.mem_cons_self
      simp [responseParts, responseFields, fieldVarint_eq, fieldFixed32_eq,
        fieldString_eq_of_fits 1 hstring]
  | done | cancelled | speechStarted | speechEnded =>
      simp [responseParts, responseFields, fieldVarint_eq, fieldFixed32_eq]

/-! ### Unknown fields in a message -/

section Message

variable {α : Type} {arms : FieldArms α} {numbers : List UInt32}

theorem decodeMessage_of_interleaved
    (hunused : ∀ number ∉ numbers, ∀ wire, arms.arm number wire = none) (initial : α)
    {fields : List Wire.Field} {bytes : Bytes}
    (h : Wire.Interleaved (IsUnknown numbers) (fields.map Wire.Field.encode) bytes)
    (hfits : bytes.length < usizeModulus) :
    decodeMessage arms initial bytes = fields.foldlM (applyField arms) initial := by
  have hparts : List.Forall₂ (fun part fields => part = Wire.encode fields)
      (fields.map Wire.Field.encode) (fields.map ([·])) := by
    rw [List.forall₂_map_left_iff, List.forall₂_map_right_iff, List.forall₂_same]
    intro field _
    exact (List.append_nil _).symm
  have hflatten : (fields.map ([·])).flatten = fields := by
    rw [← List.flatMap_def, List.flatMap_singleton']
  obtain ⟨message, rfl, hfold⟩ := exists_written_of_interleaved hunused h hparts hfits
  rw [decodeMessage_written _ _ hfits, hfold, hflatten]

end Message

theorem serverHelloArms_of_unused {number : UInt32} (h : number ∉ serverHelloNumbers)
    (wire : UInt8) : serverHelloArms.arm number wire = none := by
  simp only [serverHelloArms]
  split <;> simp_all [serverHelloNumbers]

theorem segmentArms_of_unused {number : UInt32} (h : number ∉ [1, 2, 3]) (wire : UInt8) :
    segmentArms.arm number wire = none := by
  simp only [segmentArms]
  split <;> simp_all

theorem doneArms_of_unused {number : UInt32} (h : number ∉ [1, 2]) (wire : UInt8) :
    doneArms.arm number wire = none := by
  simp only [doneArms]
  split <;> simp_all

theorem errorArms_of_unused {number : UInt32} (h : number ∉ [1]) (wire : UInt8) :
    errorArms.arm number wire = none := by
  simp only [errorArms]
  split <;> simp_all

theorem cancelledArms_of_unused {number : UInt32} (h : number ∉ [1, 2, 3, 4]) (wire : UInt8) :
    cancelledArms.arm number wire = none := by
  simp only [cancelledArms]
  split <;> simp_all

theorem backOffArms_of_unused {number : UInt32} (h : number ∉ [1, 2]) (wire : UInt8) :
    backOffArms.arm number wire = none := by
  simp only [backOffArms]
  split <;> simp_all

theorem speechEventArms_of_unused {number : UInt32} (h : number ∉ [1, 2]) (wire : UInt8) :
    speechEventArms.arm number wire = none := by
  simp only [speechEventArms]
  split <;> simp_all

/-- **Every message is decoded as if the unknown fields were not there.** -/
theorem decodeBody_of_extendsResponse {response : Response} {audio body : Bytes}
    (h : ExtendsResponse response audio body) (hfits : body.length < usizeModulus) :
    decodeBody (responseBody response).1 body = .ok response := by
  have hle := length_le_of_interleaved h.inBody
  have hbody := h.inBody
  rw [responseParts_eq fun part hmem => (hle part hmem).trans_lt hfits] at hbody
  cases response with
  | serverHello server =>
      have hformat := decodeAudioFormat_of_interleaved (h.inAudio _ rfl)
        (length_lt_of_fieldMessage 1 ((hle _ List.mem_cons_self).trans_lt hfits))
      have hmessage : decodeMessage serverHelloArms _ body = .ok server :=
        (decodeMessage_of_interleaved (fun _ => serverHelloArms_of_unused)
          { audioFormat := {}, ringCapacityBytes := 0, ringHeaderBytes := 0 } hbody hfits).trans (by
            simp [responseFields, applyField, serverHelloArms, Wire.Value.wire, FieldArm.apply,
              hformat, bind, Except.bind, pure, Except.pure])
      change (decodeServerHello body).bind _ = _
      rw [decodeServerHello, hmessage]
      rfl
  | segment text begin_ end_ =>
      have hmessage : decodeMessage segmentArms _ body = .ok (text, begin_, end_) :=
        (decodeMessage_of_interleaved (fun _ => segmentArms_of_unused)
          ("", zeroF32, zeroF32) hbody hfits).trans (by
            simp [responseFields, applyField, segmentArms, Wire.Value.wire, FieldArm.apply, bind,
              Except.bind, pure, Except.pure])
      change decodeSegment body = _
      rw [decodeSegment, hmessage]
      rfl
  | done audioS rtf =>
      have hmessage : decodeMessage doneArms _ body = .ok (audioS, rtf) :=
        (decodeMessage_of_interleaved (fun _ => doneArms_of_unused)
          (zeroF32, zeroF32) hbody hfits).trans (by
            simp [responseFields, applyField, doneArms, Wire.Value.wire, FieldArm.apply, bind,
              Except.bind, pure, Except.pure])
      change decodeDone body = _
      rw [decodeDone, hmessage]
      rfl
  | error error =>
      have hmessage : decodeMessage errorArms _ body = .ok error :=
        (decodeMessage_of_interleaved (fun _ => errorArms_of_unused) "" hbody hfits).trans (by
            simp [responseFields, applyField, errorArms, Wire.Value.wire, FieldArm.apply, bind,
              Except.bind, pure, Except.pure])
      change (decodeError body).bind _ = _
      rw [decodeError, hmessage]
      rfl
  | cancelled audioS rtf windowsDispatched windowsCompleted =>
      have hmessage : decodeMessage cancelledArms _ body =
          .ok (audioS, rtf, windowsDispatched, windowsCompleted) :=
        (decodeMessage_of_interleaved (fun _ => cancelledArms_of_unused)
          (zeroF32, zeroF32, 0, 0) hbody hfits).trans (by
            simp [responseFields, applyField, cancelledArms, Wire.Value.wire, FieldArm.apply, bind,
              Except.bind, pure, Except.pure])
      change decodeCancelled body = _
      rw [decodeCancelled, hmessage]
      rfl
  | backOff reason retryAfterMs =>
      have hmessage : decodeMessage backOffArms _ body = .ok (reason, retryAfterMs) :=
        (decodeMessage_of_interleaved (fun _ => backOffArms_of_unused)
          ("", 0) hbody hfits).trans (by
            simp [responseFields, applyField, backOffArms, Wire.Value.wire, FieldArm.apply, bind,
              Except.bind, pure, Except.pure])
      change decodeBackOff body = _
      rw [decodeBackOff, hmessage]
      rfl
  | speechStarted timestamp =>
      have hmessage : decodeMessage speechEventArms _ body = .ok (1, timestamp) :=
        (decodeMessage_of_interleaved (fun _ => speechEventArms_of_unused)
          (0, zeroF32) hbody hfits).trans (by
            simp [responseFields, applyField, speechEventArms, Wire.Value.wire, FieldArm.apply,
              bind, Except.bind, pure, Except.pure])
      change decodeSpeechEvent body = _
      rw [decodeSpeechEvent, hmessage]
      rfl
  | speechEnded timestamp =>
      have hmessage : decodeMessage speechEventArms _ body = .ok (2, timestamp) :=
        (decodeMessage_of_interleaved (fun _ => speechEventArms_of_unused)
          (0, zeroF32) hbody hfits).trans (by
            simp [responseFields, applyField, speechEventArms, Wire.Value.wire, FieldArm.apply,
              bind, Except.bind, pure, Except.pure])
      change decodeSpeechEvent body = _
      rw [decodeSpeechEvent, hmessage]
      rfl

/-! ### The field of a response -/

/-- The key that the decoder reads first, and what is behind it. -/
theorem key_of_new {written : Wire.WrittenField} {bytes tail : Bytes}
    (hbytes : bytes = written.key ++ tail) :
    (ProtoInput.new bytes).key = .ok ((written.field.number, written.field.value.wire),
        (ProtoInput.new bytes).advance written.key.length) ∧
      ((ProtoInput.new bytes).advance written.key.length).rest = tail := by
  have hrest := (ProtoInput.rest_new bytes).trans hbytes
  exact ⟨ProtoInput.key_of_rest written.isKey hrest, ProtoInput.rest_advance_of_append hrest⟩

/-- What the decoder makes of a field and whatever is behind it. -/
theorem decodeResponse_written {written : Wire.WrittenField} {field : UInt32} {body : Bytes}
    (hfield : written.field = ⟨field, .bytes body⟩) {tail : Bytes}
    (hfits : (written.encode ++ tail).length < usizeModulus) :
    decodeResponse (written.encode ++ tail) = decodeBody field body := by
  have hbytes : written.encode ++ tail = written.key ++ (written.payload ++ tail) :=
    List.append_assoc ..
  obtain ⟨hkey, hvalue⟩ := key_of_new hbytes
  have hpayload := written.isPayload
  rw [hfield] at hkey hpayload
  obtain ⟨length, hlength, heq⟩ := hpayload
  rw [heq] at hvalue
  have hread := ProtoInput.takeBytes_of_rest hlength hvalue hfits
  have hwire : (Wire.Value.bytes body).wire = 2 := rfl
  simp only [decodeResponse, hkey, hread, hwire, bind, Except.bind, ne_eq, not_true_eq_false,
    if_false]
  rfl

/-- A field of another wire type is refused, whatever its number. -/
theorem decodeResponse_of_wire {written : Wire.WrittenField}
    (hwire : written.field.value.wire ≠ 2) (tail : Bytes) :
    decodeResponse (written.encode ++ tail) =
      .error (.proto s!"invalid response wire type {written.field.value.wire}") := by
  have hbytes : written.encode ++ tail = written.key ++ (written.payload ++ tail) :=
    List.append_assoc ..
  obtain ⟨hkey, -⟩ := key_of_new hbytes
  simp only [decodeResponse, hkey, bind, Except.bind, ne_eq, hwire, not_false_eq_true, if_true]

theorem decodeBody_of_unknown {field : UInt32} (h : field ∉ [1, 2, 3, 4, 5, 6, 7]) (body : Bytes) :
    decodeBody field body = .error (.proto s!"unknown response field {field}") := by
  simp only [decodeBody]
  split <;> simp_all

/-- A broken off field is refused. -/
theorem exists_error_decodeResponse {written : Wire.WrittenField} {field : UInt32} {body : Bytes}
    (hfield : written.field = ⟨field, .bytes body⟩) {count : Nat}
    (hcount : count < written.encode.length) :
    ∃ error, decodeResponse (written.encode.take count) = .error error := by
  by_cases hkey : count < written.key.length
  · have htake : written.encode.take count = written.key.take count :=
      List.take_append_of_le_length hkey.le
    have hrest := (ProtoInput.rest_new (written.encode.take count)).trans htake
    obtain ⟨error, hread⟩ := ProtoInput.exists_error_varint written.isKey hkey hrest
    exact ⟨error, by simp only [decodeResponse, ProtoInput.key, hread, bind, Except.bind]⟩
  · have htake : written.encode.take count =
        written.key ++ written.payload.take (count - written.key.length) := by
      rw [Wire.WrittenField.encode, List.take_append, List.take_of_length_le (not_lt.mp hkey)]
    obtain ⟨hread, hvalue⟩ := key_of_new htake
    have hpayload := written.isPayload
    rw [hfield] at hread hpayload
    obtain ⟨length, hlength, heq⟩ := hpayload
    rw [Wire.WrittenField.encode, List.length_append, heq] at hcount
    rw [heq] at hvalue
    obtain ⟨error, hbroken⟩ := ProtoInput.exists_error_takeBytes hlength (by omega) hvalue
    have hwire : (Wire.Value.bytes body).wire = 2 := rfl
    refine ⟨error, ?_⟩
    simp only [decodeResponse, hread, hwire, hbroken, bind, Except.bind, ne_eq, not_true_eq_false,
      if_false]

theorem exists_bytes_of_wire {field : Wire.Field} (h : field.value.wire = 2) :
    ∃ bytes, field = ⟨field.number, .bytes bytes⟩ := by
  obtain ⟨number, value⟩ := field
  cases value with
  | bytes bytes => exact ⟨bytes, rfl⟩
  | _ => cases h

/-- **The response decoder is forward compatible and rejects truncation.** However the field of a
response and the unknown fields in it are written, the response comes out, with anything behind it; no
strict prefix of it is accepted, and neither is an unknown field in front of it. -/
theorem decodeResponse_of_extendsResponse {response : Response} {audio body tail : Bytes}
    {written : Wire.WrittenField} (h : ExtendsResponse response audio body)
    (hfield : written.field = ⟨(responseBody response).1, .bytes body⟩)
    (hfits : (written.encode ++ tail).length ≤ isizeMax) :
    decodeResponse (written.encode ++ tail) = .ok response ∧
    (∀ count < written.encode.length,
      ∃ error, decodeResponse (written.encode.take count) = .error error) ∧
    ∀ unknown : Wire.WrittenField, IsUnknown [1, 2, 3, 4, 5, 6, 7] unknown →
      (unknown.encode ++ (written.encode ++ tail)).length ≤ isizeMax →
      ∃ error, decodeResponse (unknown.encode ++ (written.encode ++ tail)) = .error error := by
  have hmodulus : isizeMax < usizeModulus := by decide
  have hlimit := hfits.trans_lt hmodulus
  refine ⟨?_, fun count => exists_error_decodeResponse hfield, fun unknown hunknown htotal => ?_⟩
  · rw [decodeResponse_written hfield hlimit]
    refine decodeBody_of_extendsResponse h (lt_of_le_of_lt ?_ hlimit)
    obtain ⟨length, -, heq⟩ := hfield ▸ written.isPayload
    rw [List.length_append, Wire.WrittenField.encode, List.length_append, heq, List.length_append]
    omega
  · by_cases hwire : unknown.field.value.wire = 2
    · obtain ⟨bytes, hbytes⟩ := exists_bytes_of_wire hwire
      rw [decodeResponse_written hbytes (htotal.trans_lt hmodulus)]
      exact ⟨_, decodeBody_of_unknown hunknown.unused bytes⟩
    · exact ⟨_, decodeResponse_of_wire hwire _⟩

/-- An error with a field behind its text that is not known. -/
def laterBody : Bytes := [0x0a, 2, 110, 111] ++ laterField.encode

def laterResponse : Wire.WrittenField where
  field := ⟨4, .bytes laterBody⟩
  key := [0x22]
  payload := [8] ++ laterBody
  isKey := ⟨show (0x22 : UInt8).toNat < 128 by decide, by decide, by decide⟩
  isPayload := ⟨[8], ⟨show (8 : UInt8).toNat < 128 by decide, by decide, by decide⟩, rfl⟩

theorem decodeResponse_of_extendsResponse_later :
    decodeResponse (laterResponse.encode ++ [0xff]) = .ok (.error "no") ∧
    (∀ count < laterResponse.encode.length,
      ∃ error, decodeResponse (laterResponse.encode.take count) = .error error) := by
  have htext : fieldString 1 "no" = [0x0a, 2, 110, 111] := by
    have hvarint : ∀ value < 0x80, varint value = [value.toUInt8] := fun value hlt => by
      rw [varint, if_pos hlt]
    rw [fieldString, fieldMessage, hvarint _ (by decide), hvarint _ (by decide)]
    decide
  have hextends : ExtendsResponse (.error "no") [] laterBody := by
    refine ⟨?_, ?_⟩
    · rintro format ⟨⟩
    · rw [laterBody, ← htext]
      exact .part _ (.other laterField ⟨by decide, by decide, by decide⟩ .nil)
  have hlength : (laterResponse.encode ++ [0xff]).length ≤ isizeMax := by decide
  have hdecode := decodeResponse_of_extendsResponse hextends rfl hlength
  exact ⟨hdecode.1, hdecode.2.1⟩

end RkWhisper
