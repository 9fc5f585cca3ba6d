import RkWhisper.Proof.Cursor

/-!
# Codec round trips

Each encoder is given the message it writes, a list of wire fields, and each decoder is then a fold
over that list. The round trips follow by running the fold, without looking at a byte.
-/

namespace RkWhisper

@[simp]
theorem fromUtf8_asBytes (value : String) : ProtoInput.fromUtf8 (asBytes value) = some value := by
  have hbytes : (⟨(asBytes value).toArray⟩ : ByteArray) = value.toByteArray := by
    simp [asBytes]
  simp [ProtoInput.fromUtf8, hbytes, String.fromUTF8?, String.fromUTF8, value.isValidUTF8]

/-- The length prefix of a field whose encoding fits in memory is not truncated. -/
theorem length_lt_of_fieldMessage (field : UInt32) {value : Bytes}
    (hfits : (fieldMessage field value).length < usizeModulus) : value.length < usizeModulus := by
  simp only [fieldMessage, List.length_append] at hfits
  omega

theorem fieldMessage_eq_of_fits (field : UInt32) {value : Bytes}
    (hfits : (fieldMessage field value).length < usizeModulus) :
    fieldMessage field value = (Wire.Field.mk field (.bytes value)).encode :=
  fieldMessage_eq field (length_lt_of_fieldMessage field hfits)

theorem fieldString_eq_of_fits (field : UInt32) {value : String}
    (hfits : (fieldString field value).length < usizeModulus) :
    fieldString field value = (Wire.Field.mk field (.bytes (asBytes value))).encode :=
  fieldMessage_eq_of_fits field hfits

/-! ### The nested messages of a hello -/

def audioFormatFields (format : AudioFormat) : List Wire.Field :=
  [⟨1, .varint format.sampleRate.toUInt64⟩, ⟨2, .varint format.channels.toUInt64⟩,
    ⟨3, .varint format.sampleFormat.toInt64.toUInt64⟩]

theorem encodeAudioFormat_eq (format : AudioFormat) :
    encodeAudioFormat format = Wire.encode (audioFormatFields format) := by
  simp [encodeAudioFormat, audioFormatFields, fieldVarint_eq]

theorem toInt32_toUInt64 (value : Int32) : value.toInt64.toUInt64.toUInt32.toInt32 = value := by
  apply Int32.toBitVec.inj
  change (value.toBitVec.signExtend 64).setWidth 32 = value.toBitVec
  apply BitVec.eq_of_getLsbD_eq
  intro bit hbit
  have hwide : bit < 64 := by omega
  simp only [BitVec.getLsbD_setWidth, BitVec.getLsbD_signExtend, hbit, hwide, decide_true,
    Bool.true_and, if_true]

theorem foldlM_audioFormatFields (format : AudioFormat) :
    (audioFormatFields format).foldlM (applyField audioFormatArms) {} = .ok format := by
  simp [audioFormatFields, applyField, audioFormatArms, Wire.Value.wire, FieldArm.apply,
    toInt32_toUInt64, bind, Except.bind, pure, Except.pure]

theorem decodeAudioFormat_encode (format : AudioFormat)
    (hfits : (encodeAudioFormat format).length < usizeModulus) :
    decodeAudioFormat (encodeAudioFormat format) = .ok format := by
  rw [encodeAudioFormat_eq] at hfits ⊢
  rw [decodeAudioFormat, decodeMessage_encode _ _ hfits, foldlM_audioFormatFields]

def vadOptionsFields (vad : VadOptions) : List Wire.Field :=
  (vad.threshold.map fun value => ⟨1, .fixed32 value.bits⟩).toList ++
  (vad.minSpeechMs.map fun value => ⟨2, .varint value.toUInt64⟩).toList ++
  (vad.minSilenceMs.map fun value => ⟨3, .varint value.toUInt64⟩).toList ++
  (vad.speechPadMs.map fun value => ⟨4, .varint value.toUInt64⟩).toList ++
  (vad.windowSamples.map fun value => ⟨5, .varint value⟩).toList

theorem fieldIfSome_eq {β : Type} {encode : β → Bytes} {toField : β → Wire.Field}
    (hencode : ∀ value, encode value = (toField value).encode) (value : Option β) :
    fieldIfSome encode value = Wire.encode (value.map toField).toList := by
  cases value <;> simp [fieldIfSome, hencode]

theorem encodeVadOptions_eq (vad : VadOptions) :
    encodeVadOptions vad = Wire.encode (vadOptionsFields vad) := by
  simp only [encodeVadOptions, vadOptionsFields, Wire.encode_append]
  rw [fieldIfSome_eq (fun value => fieldFixed32_eq 1 value),
    fieldIfSome_eq (fun value : UInt32 => fieldVarint_eq 2 value.toUInt64),
    fieldIfSome_eq (fun value : UInt32 => fieldVarint_eq 3 value.toUInt64),
    fieldIfSome_eq (fun value : UInt32 => fieldVarint_eq 4 value.toUInt64),
    fieldIfSome_eq (fun value => fieldVarint_eq 5 value)]

theorem foldlM_vadOptionsFields (vad : VadOptions) :
    (vadOptionsFields vad).foldlM (applyField vadOptionsArms) {} = .ok vad := by
  obtain ⟨threshold, minSpeechMs, minSilenceMs, speechPadMs, windowSamples⟩ := vad
  cases threshold <;> cases minSpeechMs <;> cases minSilenceMs <;> cases speechPadMs <;>
    cases windowSamples <;>
    simp [vadOptionsFields, applyField, vadOptionsArms, Wire.Value.wire, FieldArm.apply, bind,
      Except.bind, pure, Except.pure]

theorem decodeVadOptions_encode (vad : VadOptions)
    (hfits : (encodeVadOptions vad).length < usizeModulus) :
    decodeVadOptions (encodeVadOptions vad) = .ok vad := by
  rw [encodeVadOptions_eq] at hfits ⊢
  rw [decodeVadOptions, decodeMessage_encode _ _ hfits, foldlM_vadOptionsFields]

/-! ### The hello -/

def clientHelloFields (hello : ClientHello) : List Wire.Field :=
  [⟨1, .bytes (asBytes hello.model)⟩, ⟨3, .bytes (asBytes hello.lang)⟩,
    ⟨4, .bytes (asBytes hello.task)⟩, ⟨5, .varint hello.maxNewTokens⟩,
    ⟨6, .varint hello.beamSize⟩, ⟨7, .varint (if hello.notimestamps then 1 else 0)⟩,
    ⟨8, .bytes (asBytes hello.suppressTokens)⟩,
    ⟨9, .bytes (encodeAudioFormat hello.audioFormat)⟩,
    ⟨10, .bytes (encodeVadOptions hello.vad)⟩, ⟨11, .bytes (asBytes hello.clientId)⟩]

theorem encodeClientHello_eq (hello : ClientHello)
    (hfits : (encodeClientHello hello).length < usizeModulus) :
    encodeClientHello hello = Wire.encode (clientHelloFields hello) := by
  have hlen := hfits
  simp only [encodeClientHello, List.length_append] at hlen
  simp only [encodeClientHello, clientHelloFields, Wire.encode_cons, Wire.encode_nil,
    List.append_assoc, List.append_nil]
  rw [fieldString_eq_of_fits 1 (by omega), fieldString_eq_of_fits 3 (by omega),
    fieldString_eq_of_fits 4 (by omega), fieldString_eq_of_fits 8 (by omega),
    fieldString_eq_of_fits 11 (by omega),
    fieldMessage_eq_of_fits 9 (by omega),
    fieldMessage_eq_of_fits 10 (by omega), fieldVarint_eq, fieldVarint_eq,
    fieldVarint_eq]

/-- The fields of a hello whose nested messages take the bytes `audio` and `vad`. -/
def clientHelloFieldsWith (hello : ClientHello) (audio vad : Bytes) : List Wire.Field :=
  [⟨1, .bytes (asBytes hello.model)⟩, ⟨3, .bytes (asBytes hello.lang)⟩,
    ⟨4, .bytes (asBytes hello.task)⟩, ⟨5, .varint hello.maxNewTokens⟩,
    ⟨6, .varint hello.beamSize⟩, ⟨7, .varint (if hello.notimestamps then 1 else 0)⟩,
    ⟨8, .bytes (asBytes hello.suppressTokens)⟩, ⟨9, .bytes audio⟩, ⟨10, .bytes vad⟩,
    ⟨11, .bytes (asBytes hello.clientId)⟩]

theorem foldlM_clientHelloFieldsWith {hello : ClientHello} {audio vad : Bytes}
    (haudio : decodeAudioFormat audio = .ok hello.audioFormat)
    (hvad : decodeVadOptions vad = .ok hello.vad) :
    (clientHelloFieldsWith hello audio vad).foldlM (applyField clientHelloArms) {} = .ok hello := by
  have hflag : ((if hello.notimestamps then 1 else 0 : UInt64) != 0) = hello.notimestamps := by
    cases hello.notimestamps <;> rfl
  simp [clientHelloFieldsWith, applyField, clientHelloArms, Wire.Value.wire, FieldArm.apply, haudio,
    hvad, hflag, bind, Except.bind, pure, Except.pure]

/-- The loop of `decode_client_hello`, before the check on the model. -/
theorem decodeMessage_clientHello (hello : ClientHello)
    (hfits : (encodeClientHello hello).length < usizeModulus) :
    decodeMessage clientHelloArms {} (encodeClientHello hello) = .ok hello := by
  have hlen := hfits
  simp only [encodeClientHello, List.length_append] at hlen
  have hformat := decodeAudioFormat_encode hello.audioFormat
    (length_lt_of_fieldMessage 9 (by omega))
  have hvad := decodeVadOptions_encode hello.vad
    (length_lt_of_fieldMessage 10 (by omega))
  have heq := encodeClientHello_eq hello hfits
  rw [heq] at hfits ⊢
  rw [decodeMessage_encode _ _ hfits]
  exact foldlM_clientHelloFieldsWith hformat hvad

/-! ### Lengths -/

theorem length_varint_le (value : UInt64) : (varint value).length ≤ 10 := by
  rw [varint_eq_base128]
  exact Wire.length_base128_le 9 _ (value.toNat_lt.trans (by norm_num))

theorem length_fieldVarint_le (field : UInt32) (value : UInt64) :
    (fieldVarint field value).length ≤ 20 := by
  have hkey := length_varint_le (field.toUInt64 <<< 3)
  have hvalue := length_varint_le value
  simp only [fieldVarint, List.length_append]
  omega

theorem length_fieldFixed32_le (field : UInt32) (value : F32) :
    (fieldFixed32 field value).length ≤ 14 := by
  have hkey := length_varint_le (field.toUInt64 <<< 3 ||| 5)
  simp only [fieldFixed32, List.length_append, LittleEndian.length_ofUInt32]
  omega

theorem length_fieldMessage_le (field : UInt32) (value : Bytes) :
    (fieldMessage field value).length ≤ value.length + 20 := by
  have hkey := length_varint_le (field.toUInt64 <<< 3 ||| 2)
  have hlen := length_varint_le (UInt64.ofNat value.length)
  simp only [fieldMessage, List.length_append]
  omega

theorem length_fieldString_le (field : UInt32) (value : String) :
    (fieldString field value).length ≤ (asBytes value).length + 20 :=
  length_fieldMessage_le field (asBytes value)

theorem length_fieldIfSome_le {α : Type} {field : α → Bytes} {bound : Nat}
    (hfield : ∀ value, (field value).length ≤ bound) (value : Option α) :
    (fieldIfSome field value).length ≤ bound := by
  cases value with
  | none => exact Nat.zero_le _
  | some value => exact hfield value

theorem length_encodeAudioFormat_le (format : AudioFormat) :
    (encodeAudioFormat format).length ≤ 60 := by
  have hrate := length_fieldVarint_le 1 format.sampleRate.toUInt64
  have hchannels := length_fieldVarint_le 2 format.channels.toUInt64
  have hformat := length_fieldVarint_le 3 format.sampleFormat.toInt64.toUInt64
  simp only [encodeAudioFormat, List.length_append]
  omega

theorem length_encodeVadOptions_le (vad : VadOptions) : (encodeVadOptions vad).length ≤ 94 := by
  have hthreshold := length_fieldIfSome_le (length_fieldFixed32_le 1) vad.threshold
  have hspeech := length_fieldIfSome_le
    (fun ms : UInt32 => length_fieldVarint_le 2 ms.toUInt64) vad.minSpeechMs
  have hsilence := length_fieldIfSome_le
    (fun ms : UInt32 => length_fieldVarint_le 3 ms.toUInt64) vad.minSilenceMs
  have hpad := length_fieldIfSome_le
    (fun ms : UInt32 => length_fieldVarint_le 4 ms.toUInt64) vad.speechPadMs
  have hwindow := length_fieldIfSome_le (length_fieldVarint_le 5) vad.windowSamples
  simp only [encodeVadOptions, List.length_append]
  omega

/-- Only the strings of a hello are unbounded. -/
theorem length_encodeClientHello_le (hello : ClientHello) :
    (encodeClientHello hello).length ≤
      (asBytes hello.model).length + (asBytes hello.lang).length + (asBytes hello.task).length +
        (asBytes hello.suppressTokens).length + (asBytes hello.clientId).length + 354 := by
  have hmodel := length_fieldString_le 1 hello.model
  have hlang := length_fieldString_le 3 hello.lang
  have htask := length_fieldString_le 4 hello.task
  have htokens := length_fieldVarint_le 5 hello.maxNewTokens
  have hbeam := length_fieldVarint_le 6 hello.beamSize
  have hflag := length_fieldVarint_le 7 (if hello.notimestamps then 1 else 0)
  have hsuppress := length_fieldString_le 8 hello.suppressTokens
  have hformat := length_fieldMessage_le 9 (encodeAudioFormat hello.audioFormat)
  have hvad := length_fieldMessage_le 10 (encodeVadOptions hello.vad)
  have hclient := length_fieldString_le 11 hello.clientId
  have hformatBody := length_encodeAudioFormat_le hello.audioFormat
  have hvadBody := length_encodeVadOptions_le hello.vad
  simp only [encodeClientHello, List.length_append]
  omega

/-- **The hello round trip.** A hello with a model is decoded to itself, whatever its strings,
integers and optional fields are; a hello without one is refused. The bound is the one every
`Vec<u8>` obeys. -/
theorem decodeClientHello_encodeClientHello (hello : ClientHello)
    (hfits : (encodeClientHello hello).length ≤ isizeMax) :
    (hello.model ≠ "" → decodeClientHello (encodeClientHello hello) = .ok hello) ∧
      (hello.model = "" → decodeClientHello (encodeClientHello hello) =
        .error (.proto "client hello missing model")) := by
  have hloop := decodeMessage_clientHello hello (lt_of_le_of_lt hfits (by decide))
  constructor
  · intro hmodel
    simp [decodeClientHello, hloop, hmodel, bind, Except.bind, pure, Except.pure]
  · intro hmodel
    simp [decodeClientHello, hloop, hmodel, bind, Except.bind]

/-- A sign-extended sample format, the widest integers and a quiet NaN threshold survive. -/
theorem decodeClientHello_encodeClientHello_wide :
    let hello : ClientHello :=
      { model := "whisper-small-30s"
        maxNewTokens := 0xffffffffffffffff
        audioFormat := { sampleRate := 16000, channels := 1, sampleFormat := -7 }
        vad := { threshold := some ⟨0x7fc00000⟩, windowSamples := some 0xffffffffffffffff } }
    decodeClientHello (encodeClientHello hello) = .ok hello := by
  intro hello
  have hlen := length_encodeClientHello_le hello
  have hmodel : (asBytes hello.model).length = 17 := by decide
  have hlang : (asBytes hello.lang).length = 2 := by decide
  have htask : (asBytes hello.task).length = 10 := by decide
  have hsuppress : (asBytes hello.suppressTokens).length = 7 := by decide
  have hclient : (asBytes hello.clientId).length = 21 := by decide
  have hmax : 411 ≤ isizeMax := by decide
  exact (decodeClientHello_encodeClientHello hello (by omega)).1 (by decide)

end RkWhisper
