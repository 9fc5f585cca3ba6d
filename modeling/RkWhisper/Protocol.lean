import RkWhisper.Lib.Binary32
import RkWhisper.Lib.LittleEndian
import RkWhisper.Parameters

/-!
# The wire protocol

The messages of the daemon protocol, their hand-written protobuf encoders and decoders, and the
length-prefixed frames they travel in. A `Vec<u8>` that is appended to is a byte list, and the
cursor `ProtoInput` is passed along explicitly. On the 64-bit target a `usize` field is a `UInt64`.
-/

namespace RkWhisper

inductive Error where
  | io (message : String)
  | proto (message : String)
  | ring (message : String)
  | invalid (message : String)
  | other (message : String)
deriving DecidableEq

abbrev Bytes := List UInt8

def sampleFormatS16le : Int32 := 1

structure AudioFormat where
  sampleRate : UInt32 := 0
  channels : UInt32 := 0
  sampleFormat : Int32 := 0
deriving DecidableEq

structure VadOptions where
  threshold : Option F32 := none
  minSpeechMs : Option UInt32 := none
  minSilenceMs : Option UInt32 := none
  speechPadMs : Option UInt32 := none
  windowSamples : Option UInt64 := none
deriving DecidableEq

def supportedAudioFormat : AudioFormat :=
  { sampleRate := UInt32.ofNat sampleRate, channels := 1, sampleFormat := sampleFormatS16le }

structure ClientHello where
  model : String := ""
  lang : String := "en"
  task : String := "transcribe"
  maxNewTokens : UInt64 := 128
  beamSize : UInt64 := 5
  notimestamps : Bool := false
  suppressTokens : String := "default"
  audioFormat : AudioFormat := supportedAudioFormat
  vad : VadOptions := {}
  clientId : String := "rkwhisper-rust-client"
deriving DecidableEq

structure ServerHello where
  audioFormat : AudioFormat
  ringCapacityBytes : UInt64
  ringHeaderBytes : UInt32
deriving DecidableEq

inductive Response where
  | serverHello (server : ServerHello)
  | segment (text : String) (begin_ end_ : F32)
  | done (audioS rtf : F32)
  | error (error : String)
  | cancelled (audioS rtf : F32) (windowsDispatched windowsCompleted : UInt64)
  | backOff (reason : String) (retryAfterMs : UInt32)
  | speechStarted (begin_ : F32)
  | speechEnded (end_ : F32)
deriving DecidableEq

def validateClientHello (hello : ClientHello) : Except Error Unit :=
  if hello.beamSize = 0 then .error (.invalid "beam_size must be at least 1")
  else if hello.audioFormat.sampleRate ≠ UInt32.ofNat sampleRate
      ∨ hello.audioFormat.channels ≠ 1
      ∨ hello.audioFormat.sampleFormat ≠ sampleFormatS16le then
    .error (.invalid "unsupported audio format; expected 16 kHz mono s16le")
  else .ok ()

/-! ### Encoding -/

def varint (value : UInt64) : Bytes :=
  if value < 0x80 then [value.toUInt8] else (value.toUInt8 ||| 0x80) :: varint (value >>> 7)
termination_by value.toNat
decreasing_by
  rename_i hlarge
  have hle : 128 ≤ value.toNat := by
    simpa [UInt64.lt_iff_toNat_lt] using hlarge
  simp only [UInt64.toNat_shiftRight, UInt64.reduceToNat, Nat.reduceMod,
    Nat.shiftRight_eq_div_pow]
  omega

def fieldVarint (field : UInt32) (value : UInt64) : Bytes :=
  varint (field.toUInt64 <<< 3) ++ varint value

def fieldFixed32 (field : UInt32) (value : F32) : Bytes :=
  varint (field.toUInt64 <<< 3 ||| 5) ++ LittleEndian.ofUInt32 value.bits

def fieldMessage (field : UInt32) (value : Bytes) : Bytes :=
  varint (field.toUInt64 <<< 3 ||| 2) ++ (varint (UInt64.ofNat value.length) ++ value)

/-- `str::as_bytes`. -/
def asBytes (value : String) : Bytes := value.toByteArray.data.toList

def fieldString (field : UInt32) (value : String) : Bytes :=
  fieldMessage field (asBytes value)

/-- `as u64` on an `i32` extends the sign. -/
def encodeAudioFormat (format : AudioFormat) : Bytes :=
  fieldVarint 1 format.sampleRate.toUInt64 ++
  fieldVarint 2 format.channels.toUInt64 ++
  fieldVarint 3 format.sampleFormat.toInt64.toUInt64

/-- `if let Some(value) = … { field(…) }`. -/
def fieldIfSome {α : Type} (field : α → Bytes) : Option α → Bytes
  | some value => field value
  | none => []

def encodeVadOptions (vad : VadOptions) : Bytes :=
  fieldIfSome (fieldFixed32 1) vad.threshold ++
  fieldIfSome (fun ms => fieldVarint 2 ms.toUInt64) vad.minSpeechMs ++
  fieldIfSome (fun ms => fieldVarint 3 ms.toUInt64) vad.minSilenceMs ++
  fieldIfSome (fun ms => fieldVarint 4 ms.toUInt64) vad.speechPadMs ++
  fieldIfSome (fieldVarint 5) vad.windowSamples

def encodeClientHello (hello : ClientHello) : Bytes :=
  fieldString 1 hello.model ++
  fieldString 3 hello.lang ++
  fieldString 4 hello.task ++
  fieldVarint 5 hello.maxNewTokens ++
  fieldVarint 6 hello.beamSize ++
  fieldVarint 7 (if hello.notimestamps then 1 else 0) ++
  fieldString 8 hello.suppressTokens ++
  fieldMessage 9 (encodeAudioFormat hello.audioFormat) ++
  fieldMessage 10 (encodeVadOptions hello.vad) ++
  fieldString 11 hello.clientId

def encodeServerHello (server : ServerHello) : Bytes :=
  fieldMessage 1 (encodeAudioFormat server.audioFormat) ++
  fieldVarint 2 server.ringCapacityBytes ++
  fieldVarint 3 server.ringHeaderBytes.toUInt64

/-- Both speech events share field 7 and differ in the event type they put in its first field. -/
def encodeResponse : Response → Bytes
  | .serverHello server => fieldMessage 1 (encodeServerHello server)
  | .segment text begin_ end_ =>
      fieldMessage 2 (fieldString 1 text ++ fieldFixed32 2 begin_ ++ fieldFixed32 3 end_)
  | .done audioS rtf => fieldMessage 3 (fieldFixed32 1 audioS ++ fieldFixed32 2 rtf)
  | .error error => fieldMessage 4 (fieldString 1 error)
  | .cancelled audioS rtf windowsDispatched windowsCompleted =>
      fieldMessage 5 (fieldFixed32 1 audioS ++ fieldFixed32 2 rtf ++
        fieldVarint 3 windowsDispatched ++ fieldVarint 4 windowsCompleted)
  | .backOff reason retryAfterMs =>
      fieldMessage 6 (fieldString 1 reason ++ fieldVarint 2 retryAfterMs.toUInt64)
  | .speechStarted begin_ => fieldMessage 7 (fieldVarint 1 1 ++ fieldFixed32 2 begin_)
  | .speechEnded end_ => fieldMessage 7 (fieldVarint 1 2 ++ fieldFixed32 2 end_)

/-! ### The decoding cursor -/

structure ProtoInput where
  bytes : Bytes
  pos : Nat

namespace ProtoInput

def new (bytes : Bytes) : ProtoInput := { bytes, pos := 0 }

def isEmpty (input : ProtoInput) : Bool := input.bytes.length ≤ input.pos

/-- The loop `for shift in (0..64).step_by(7)` over the shifts still to come. -/
def varintFrom : List UInt64 → UInt64 → ProtoInput → Except Error (UInt64 × ProtoInput)
  | [], _, _ => .error (.proto "protobuf varint too long")
  | shift :: shifts, value, input =>
      match input.bytes[input.pos]? with
      | none => .error (.proto "truncated protobuf varint")
      | some byte =>
          let input := { input with pos := input.pos + 1 }
          let value := value ||| ((byte &&& 0x7f).toUInt64 <<< shift)
          if byte &&& 0x80 = 0 then .ok (value, input) else varintFrom shifts value input

def varintShifts : List UInt64 := [0, 7, 14, 21, 28, 35, 42, 49, 56, 63]

def varint (input : ProtoInput) : Except Error (UInt64 × ProtoInput) :=
  varintFrom varintShifts 0 input

def key (input : ProtoInput) : Except Error ((UInt32 × UInt8) × ProtoInput) := do
  let (key, input) ← input.varint
  return (((key >>> 3).toUInt32, (key &&& 0x7).toUInt8), input)

/-- `usize::checked_add` on the cursor comes first: a length past the address space has its own
error. -/
def takeBytes (input : ProtoInput) : Except Error (Bytes × ProtoInput) := do
  let (len, input) ← input.varint
  let stop := input.pos + len.toNat
  if usizeModulus ≤ stop then .error (.proto "protobuf length overflow")
  else if input.bytes.length < stop then
    .error (.proto "truncated protobuf length-delimited field")
  else return ((input.bytes.drop input.pos).take len.toNat, { input with pos := stop })

/-- `std::str::from_utf8`. -/
def fromUtf8 (bytes : Bytes) : Option String := String.fromUTF8? ⟨bytes.toArray⟩

def string (input : ProtoInput) : Except Error (String × ProtoInput) := do
  let (bytes, input) ← input.takeBytes
  match fromUtf8 bytes with
  | some value => return (value, input)
  | none => .error (.proto "protobuf string is not valid UTF-8")

def fixed32 (input : ProtoInput) : Except Error (F32 × ProtoInput) :=
  let stop := input.pos + 4
  if input.bytes.length < stop then .error (.proto "truncated protobuf fixed32")
  else .ok (⟨LittleEndian.toUInt32 ((input.bytes.drop input.pos).take 4)⟩,
    { input with pos := stop })

/-- The cursor may stand past the end after a fixed-width field; the last check turns that into an
error. -/
def skip (wire : UInt8) (input : ProtoInput) : Except Error ProtoInput := do
  let input ←
    match wire with
    | 0 => (·.2) <$> input.varint
    | 1 => pure { input with pos := input.pos + 8 }
    | 2 => (·.2) <$> input.takeBytes
    | 5 => pure { input with pos := input.pos + 4 }
    | _ => .error (.proto s!"unsupported protobuf wire type {wire}")
  if input.bytes.length < input.pos then .error (.proto "truncated protobuf field")
  else return input

end ProtoInput

/-- One arm of a decoder's `match (field, wire)`: how the value is read and where it is stored. -/
inductive FieldArm (α : Type) where
  | varint (store : α → UInt64 → α)
  | fixed32 (store : α → F32 → α)
  | string (store : α → String → α)
  | message (store : α → Bytes → Except Error α)

namespace FieldArm

variable {α : Type}

/-- The wire type of the values an arm reads. -/
def wire : FieldArm α → UInt8
  | varint _ => 0
  | fixed32 _ => 5
  | string _ => 2
  | message _ => 2

def run (arm : FieldArm α) (message : α) (input : ProtoInput) :
    Except Error (α × ProtoInput) :=
  match arm with
  | .varint store => do
      let (value, input) ← input.varint
      return (store message value, input)
  | .fixed32 store => do
      let (value, input) ← input.fixed32
      return (store message value, input)
  | .string store => do
      let (value, input) ← input.string
      return (store message value, input)
  | .message store => do
      let (bytes, input) ← input.takeBytes
      let message ← store message bytes
      return (message, input)

end FieldArm

/-- The arms of one decoder. Each is filed under the wire type it reads, so that a field on the wire
either meets an arm that consumes it or is skipped. -/
structure FieldArms (α : Type) where
  arm : UInt32 → UInt8 → Option (FieldArm α)
  wellTyped : ∀ field wire a, arm field wire = some a → a.wire = wire := by
    intro field wire a h
    split at h <;> simp at h <;> subst h <;> rfl

/-- The loop `while !input.is_empty()` every decoder runs over its own arms; a field without an arm
is skipped. Each round reads a key, so the length of the input bounds the rounds. -/
def decodeFields {α : Type} (arms : FieldArms α) : Nat → α → ProtoInput → Except Error α
  | rounds, message, input =>
      if input.isEmpty then .ok message
      else
        match rounds with
        | 0 => .error (.other "unreachable: every field advances the input")
        | rounds + 1 => do
            let ((field, wire), input) ← input.key
            match arms.arm field wire with
            | some arm =>
                let (message, input) ← arm.run message input
                decodeFields arms rounds message input
            | none =>
                let input ← input.skip wire
                decodeFields arms rounds message input

def decodeMessage {α : Type} (arms : FieldArms α) (initial : α) (bytes : Bytes) :
    Except Error α :=
  decodeFields arms bytes.length initial (.new bytes)

/-! ### Decoding -/

def audioFormatArms : FieldArms AudioFormat where
  arm
    | 1, 0 => some (.varint fun format value => { format with sampleRate := value.toUInt32 })
    | 2, 0 => some (.varint fun format value => { format with channels := value.toUInt32 })
    | 3, 0 => some (.varint fun format value =>
        { format with sampleFormat := value.toUInt32.toInt32 })
    | _, _ => none

def decodeAudioFormat (bytes : Bytes) : Except Error AudioFormat :=
  decodeMessage audioFormatArms {} bytes

def vadOptionsArms : FieldArms VadOptions where
  arm
    | 1, 5 => some (.fixed32 fun vad value => { vad with threshold := some value })
    | 2, 0 => some (.varint fun vad value => { vad with minSpeechMs := some value.toUInt32 })
    | 3, 0 => some (.varint fun vad value => { vad with minSilenceMs := some value.toUInt32 })
    | 4, 0 => some (.varint fun vad value => { vad with speechPadMs := some value.toUInt32 })
    | 5, 0 => some (.varint fun vad value => { vad with windowSamples := some value })
    | _, _ => none

def decodeVadOptions (bytes : Bytes) : Except Error VadOptions :=
  decodeMessage vadOptionsArms {} bytes

def clientHelloArms : FieldArms ClientHello where
  arm
    | 1, 2 => some (.string fun hello model => { hello with model })
    | 3, 2 => some (.string fun hello lang => { hello with lang })
    | 4, 2 => some (.string fun hello task => { hello with task })
    | 5, 0 => some (.varint fun hello maxNewTokens => { hello with maxNewTokens })
    | 6, 0 => some (.varint fun hello beamSize => { hello with beamSize })
    | 7, 0 => some (.varint fun hello value => { hello with notimestamps := value != 0 })
    | 8, 2 => some (.string fun hello suppressTokens => { hello with suppressTokens })
    | 9, 2 => some (.message fun hello bytes => do
        return { hello with audioFormat := ← decodeAudioFormat bytes })
    | 10, 2 => some (.message fun hello bytes => do
        return { hello with vad := ← decodeVadOptions bytes })
    | 11, 2 => some (.string fun hello clientId => { hello with clientId })
    | _, _ => none

def decodeClientHello (bytes : Bytes) : Except Error ClientHello := do
  let hello ← decodeMessage clientHelloArms {} bytes
  if hello.model.isEmpty then .error (.proto "client hello missing model")
  else return hello

def serverHelloArms : FieldArms ServerHello where
  arm
    | 1, 2 => some (.message fun server bytes => do
        return { server with audioFormat := ← decodeAudioFormat bytes })
    | 2, 0 => some (.varint fun server ringCapacityBytes => { server with ringCapacityBytes })
    | 3, 0 => some (.varint fun server value => { server with ringHeaderBytes := value.toUInt32 })
    | _, _ => none

def decodeServerHello (bytes : Bytes) : Except Error ServerHello :=
  decodeMessage serverHelloArms
    { audioFormat := {}, ringCapacityBytes := 0, ringHeaderBytes := 0 } bytes

/-- The `0.0` every decoder starts a float from. -/
def zeroF32 : F32 := ⟨0⟩

def segmentArms : FieldArms (String × F32 × F32) where
  arm
    | 1, 2 => some (.string fun segment text => (text, segment.2))
    | 2, 5 => some (.fixed32 fun segment begin_ => (segment.1, begin_, segment.2.2))
    | 3, 5 => some (.fixed32 fun segment end_ => (segment.1, segment.2.1, end_))
    | _, _ => none

def decodeSegment (bytes : Bytes) : Except Error Response := do
  let (text, begin_, end_) ← decodeMessage segmentArms ("", zeroF32, zeroF32) bytes
  return .segment text begin_ end_

def doneArms : FieldArms (F32 × F32) where
  arm
    | 1, 5 => some (.fixed32 fun done audioS => (audioS, done.2))
    | 2, 5 => some (.fixed32 fun done rtf => (done.1, rtf))
    | _, _ => none

def decodeDone (bytes : Bytes) : Except Error Response := do
  let (audioS, rtf) ← decodeMessage doneArms (zeroF32, zeroF32) bytes
  return .done audioS rtf

def errorArms : FieldArms String where
  arm
    | 1, 2 => some (.string fun _ error => error)
    | _, _ => none

def decodeError (bytes : Bytes) : Except Error String :=
  decodeMessage errorArms "" bytes

def cancelledArms : FieldArms (F32 × F32 × UInt64 × UInt64) where
  arm
    | 1, 5 => some (.fixed32 fun (_, rest) audioS => (audioS, rest))
    | 2, 5 => some (.fixed32 fun (audioS, _, rest) rtf => (audioS, rtf, rest))
    | 3, 0 => some (.varint fun (audioS, rtf, _, completed) dispatched =>
        (audioS, rtf, dispatched, completed))
    | 4, 0 => some (.varint fun (audioS, rtf, dispatched, _) completed =>
        (audioS, rtf, dispatched, completed))
    | _, _ => none

def decodeCancelled (bytes : Bytes) : Except Error Response := do
  let (audioS, rtf, windowsDispatched, windowsCompleted) ←
    decodeMessage cancelledArms (zeroF32, zeroF32, 0, 0) bytes
  return .cancelled audioS rtf windowsDispatched windowsCompleted

def backOffArms : FieldArms (String × UInt32) where
  arm
    | 1, 2 => some (.string fun backOff reason => (reason, backOff.2))
    | 2, 0 => some (.varint fun backOff value => (backOff.1, value.toUInt32))
    | _, _ => none

def decodeBackOff (bytes : Bytes) : Except Error Response := do
  let (reason, retryAfterMs) ← decodeMessage backOffArms ("", 0) bytes
  return .backOff reason retryAfterMs

def speechEventArms : FieldArms (UInt64 × F32) where
  arm
    | 1, 0 => some (.varint fun event eventType => (eventType, event.2))
    | 2, 5 => some (.fixed32 fun event timestamp => (event.1, timestamp))
    | _, _ => none

def decodeSpeechEvent (bytes : Bytes) : Except Error Response := do
  let (eventType, timestamp) ← decodeMessage speechEventArms (0, zeroF32) bytes
  if eventType = 1 then return .speechStarted timestamp
  else if eventType = 2 then return .speechEnded timestamp
  else .error (.proto s!"unknown speech event type {eventType}")

def decodeResponse (bytes : Bytes) : Except Error Response := do
  let ((field, wire), input) ← (ProtoInput.new bytes).key
  if wire ≠ 2 then .error (.proto s!"invalid response wire type {wire}")
  else
    let (body, _) ← input.takeBytes
    match field with
    | 1 => return .serverHello (← decodeServerHello body)
    | 2 => decodeSegment body
    | 3 => decodeDone body
    | 4 => return .error (← decodeError body)
    | 5 => decodeCancelled body
    | 6 => decodeBackOff body
    | 7 => decodeSpeechEvent body
    | _ => .error (.proto s!"unknown response field {field}")

/-! ### Frames

A reader is the byte stream still to come and a writer is the bytes written so far. -/

def frameTooLong : Error := .proto s!"protobuf frame exceeds {frameMaxBytes} bytes"

/-- `Read::read_exact`. -/
def readExact (count : Nat) (reader : Bytes) : Except Error (Bytes × Bytes) :=
  if reader.length < count then .error (.io "failed to fill whole buffer")
  else .ok (reader.take count, reader.drop count)

def readFrame (reader : Bytes) : Except Error (Bytes × Bytes) := do
  let (len, reader) ← readExact 4 reader
  let len := LittleEndian.toNat len
  if frameMaxBytes < len then .error frameTooLong
  else readExact len reader

/-- The result and what the writer holds afterwards, on a writer that accepts every byte. -/
def writeFrame (writer : Bytes) (frame : Bytes) : Except Error Unit × Bytes :=
  if frameMaxBytes < frame.length then (.error frameTooLong, writer)
  else (.ok (), writer ++ LittleEndian.ofUInt32 (UInt32.ofNat frame.length) ++ frame)

def writeResponse (writer : Bytes) (response : Response) : Except Error Unit × Bytes :=
  writeFrame writer (encodeResponse response)

def readClientHello (reader : Bytes) : Except Error (ClientHello × Bytes) := do
  let (frame, reader) ← readFrame reader
  return (← decodeClientHello frame, reader)

end RkWhisper
