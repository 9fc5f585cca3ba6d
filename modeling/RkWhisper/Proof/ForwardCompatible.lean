import RkWhisper.Proof.ProtocolRoundTrip

/-!
# The hello of a later client

A hello with fields this decoder does not know, in it or in its nested messages, is decoded as if
they were not there; a hello with a broken off field behind it is refused. Fields may be written in
any way that stands for them.
-/

namespace RkWhisper

/-! ### Fields that are not known -/

/-- The numbers a message uses. -/
def audioFormatNumbers : List UInt32 := [1, 2, 3]

def vadOptionsNumbers : List UInt32 := [1, 2, 3, 4, 5]

def clientHelloNumbers : List UInt32 := [1, 3, 4, 5, 6, 7, 8, 9, 10, 11]

/-- A field with a number a message does not use, out of those protobuf has. -/
structure IsUnknown (numbers : List UInt32) (written : Wire.WrittenField) : Prop where
  number_pos : 1 ≤ written.field.number.toNat
  number_lt : written.field.number.toNat < 2 ^ 29
  unused : written.field.number ∉ numbers

theorem audioFormatArms_of_unused {number : UInt32} (h : number ∉ audioFormatNumbers)
    (wire : UInt8) : audioFormatArms.arm number wire = none := by
  simp only [audioFormatArms]
  split <;> simp_all [audioFormatNumbers]

theorem vadOptionsArms_of_unused {number : UInt32} (h : number ∉ vadOptionsNumbers)
    (wire : UInt8) : vadOptionsArms.arm number wire = none := by
  simp only [vadOptionsArms]
  split <;> simp_all [vadOptionsNumbers]

theorem clientHelloArms_of_unused {number : UInt32} (h : number ∉ clientHelloNumbers)
    (wire : UInt8) : clientHelloArms.arm number wire = none := by
  simp only [clientHelloArms]
  split <;> simp_all [clientHelloNumbers]

section Unknown

variable {α : Type} {arms : FieldArms α} {numbers : List UInt32}

theorem applyField_of_unused
    (hunused : ∀ number ∉ numbers, ∀ wire, arms.arm number wire = none)
    {written : Wire.WrittenField} (h : IsUnknown numbers written) (state : α) :
    applyField arms state written.field = .ok state := by
  rw [applyField, hunused _ h.unused]

/-- Fields that are not known change nothing of what the fold makes of the others. -/
theorem exists_written_of_interleaved
    (hunused : ∀ number ∉ numbers, ∀ wire, arms.arm number wire = none)
    {parts : List Bytes} {bytes : Bytes} (h : Wire.Interleaved (IsUnknown numbers) parts bytes)
    {fields : List (List Wire.Field)}
    (hparts : List.Forall₂ (fun part fields => part = Wire.encode fields) parts fields)
    (hfits : bytes.length < usizeModulus) :
    ∃ message : List Wire.WrittenField, message.flatMap Wire.WrittenField.encode = bytes ∧
      ∀ state, (message.map Wire.WrittenField.field).foldlM (applyField arms) state =
        fields.flatten.foldlM (applyField arms) state := by
  induction h generalizing fields with
  | nil =>
      cases hparts
      exact ⟨[], rfl, fun _ => rfl⟩
  | part part h ih =>
      obtain ⟨first, fields, rfl, hrest, rfl⟩ := List.forall₂_cons_left_iff.mp hparts
      rw [List.length_append] at hfits
      obtain ⟨message, hbytes, hfold⟩ := ih hrest (by omega)
      obtain ⟨written, hwritten, hfields⟩ := Wire.exists_written first
        (lt_of_le_of_lt (Nat.le_add_right _ _) hfits)
      refine ⟨written ++ message, ?_, fun state => ?_⟩
      · rw [List.flatMap_append, hwritten, hbytes]
      · rw [List.map_append, hfields, List.flatten_cons, List.foldlM_append, List.foldlM_append]
        exact congrArg (bind _) (funext hfold)
  | other written hother h ih =>
      rw [List.length_append] at hfits
      obtain ⟨message, hbytes, hfold⟩ := ih hparts (by omega)
      refine ⟨written :: message, ?_, fun state => ?_⟩
      · rw [List.flatMap_cons, hbytes]
      · rw [List.map_cons, List.foldlM_cons, applyField_of_unused hunused hother]
        exact hfold state

end Unknown

/-! ### The parts of a hello -/

def audioFormatParts (format : AudioFormat) : List Bytes :=
  [fieldVarint 1 format.sampleRate.toUInt64, fieldVarint 2 format.channels.toUInt64,
    fieldVarint 3 format.sampleFormat.toInt64.toUInt64]

def vadOptionsParts (vad : VadOptions) : List Bytes :=
  [fieldIfSome (fieldFixed32 1) vad.threshold,
    fieldIfSome (fun ms => fieldVarint 2 ms.toUInt64) vad.minSpeechMs,
    fieldIfSome (fun ms => fieldVarint 3 ms.toUInt64) vad.minSilenceMs,
    fieldIfSome (fun ms => fieldVarint 4 ms.toUInt64) vad.speechPadMs,
    fieldIfSome (fieldVarint 5) vad.windowSamples]

/-- The fields of a hello whose nested messages are `audio` and `vad`. -/
def clientHelloParts (hello : ClientHello) (audio vad : Bytes) : List Bytes :=
  [fieldString 1 hello.model, fieldString 3 hello.lang, fieldString 4 hello.task,
    fieldVarint 5 hello.maxNewTokens, fieldVarint 6 hello.beamSize,
    fieldVarint 7 (if hello.notimestamps then 1 else 0), fieldString 8 hello.suppressTokens,
    fieldMessage 9 audio, fieldMessage 10 vad, fieldString 11 hello.clientId]

theorem flatten_audioFormatParts (format : AudioFormat) :
    (audioFormatParts format).flatten = encodeAudioFormat format := by
  simp [audioFormatParts, encodeAudioFormat]

theorem flatten_vadOptionsParts (vad : VadOptions) :
    (vadOptionsParts vad).flatten = encodeVadOptions vad := by
  simp [vadOptionsParts, encodeVadOptions]

theorem flatten_clientHelloParts (hello : ClientHello) :
    (clientHelloParts hello (encodeAudioFormat hello.audioFormat)
      (encodeVadOptions hello.vad)).flatten = encodeClientHello hello := by
  simp [clientHelloParts, encodeClientHello]

/-- The encoding of `hello`, with unknown fields in it and in its nested messages. -/
structure ExtendsHello (hello : ClientHello) (audio vad bytes : Bytes) : Prop where
  inAudio : Wire.Interleaved (IsUnknown audioFormatNumbers) (audioFormatParts hello.audioFormat) audio
  inVad : Wire.Interleaved (IsUnknown vadOptionsNumbers) (vadOptionsParts hello.vad) vad
  inHello : Wire.Interleaved (IsUnknown clientHelloNumbers) (clientHelloParts hello audio vad) bytes

theorem length_le_of_interleaved {other : Wire.WrittenField → Prop} {parts : List Bytes}
    {bytes : Bytes} (h : Wire.Interleaved other parts bytes) :
    ∀ part ∈ parts, part.length ≤ bytes.length := by
  induction h with
  | nil => exact fun _ hmem => absurd hmem List.not_mem_nil
  | part part h ih =>
      rw [List.length_append]
      refine List.forall_mem_cons.mpr ⟨Nat.le_add_right _ _, fun other hmem => ?_⟩
      exact (ih other hmem).trans (Nat.le_add_left _ _)
  | other written hother h ih =>
      rw [List.length_append]
      exact fun part hmem => (ih part hmem).trans (Nat.le_add_left _ _)

theorem decodeAudioFormat_of_interleaved {format : AudioFormat} {bytes : Bytes}
    (h : Wire.Interleaved (IsUnknown audioFormatNumbers) (audioFormatParts format) bytes)
    (hfits : bytes.length < usizeModulus) : decodeAudioFormat bytes = .ok format := by
  have hparts : List.Forall₂ (fun part fields => part = Wire.encode fields)
      (audioFormatParts format) ((audioFormatFields format).map ([·])) := by
    simp [audioFormatParts, audioFormatFields, fieldVarint_eq]
  obtain ⟨message, rfl, hfold⟩ :=
    exists_written_of_interleaved (fun _ => audioFormatArms_of_unused) h hparts hfits
  have hflatten : ((audioFormatFields format).map ([·])).flatten = audioFormatFields format := rfl
  rw [decodeAudioFormat, decodeMessage_written _ _ hfits, hfold, hflatten, foldlM_audioFormatFields]

theorem decodeVadOptions_of_interleaved {vad : VadOptions} {bytes : Bytes}
    (h : Wire.Interleaved (IsUnknown vadOptionsNumbers) (vadOptionsParts vad) bytes)
    (hfits : bytes.length < usizeModulus) : decodeVadOptions bytes = .ok vad := by
  have hparts : List.Forall₂ (fun part fields => part = Wire.encode fields) (vadOptionsParts vad)
      [(vad.threshold.map fun value => ⟨1, .fixed32 value.bits⟩).toList,
        (vad.minSpeechMs.map fun value => ⟨2, .varint value.toUInt64⟩).toList,
        (vad.minSilenceMs.map fun value => ⟨3, .varint value.toUInt64⟩).toList,
        (vad.speechPadMs.map fun value => ⟨4, .varint value.toUInt64⟩).toList,
        (vad.windowSamples.map fun value => ⟨5, .varint value⟩).toList] := by
    refine .cons ?_ (.cons ?_ (.cons ?_ (.cons ?_ (.cons ?_ .nil))))
    · exact fieldIfSome_eq (fun value => fieldFixed32_eq 1 value) _
    · exact fieldIfSome_eq (fun value : UInt32 => fieldVarint_eq 2 value.toUInt64) _
    · exact fieldIfSome_eq (fun value : UInt32 => fieldVarint_eq 3 value.toUInt64) _
    · exact fieldIfSome_eq (fun value : UInt32 => fieldVarint_eq 4 value.toUInt64) _
    · exact fieldIfSome_eq (fun value => fieldVarint_eq 5 value) _
  obtain ⟨message, rfl, hfold⟩ :=
    exists_written_of_interleaved (fun _ => vadOptionsArms_of_unused) h hparts hfits
  have hfields := foldlM_vadOptionsFields vad
  simp only [vadOptionsFields, List.append_assoc] at hfields
  rw [decodeVadOptions, decodeMessage_written _ _ hfits, hfold]
  simpa only [List.flatten_cons, List.flatten_nil, List.append_nil] using hfields

/-- The loop over a hello with unknown fields, up to what it has made of them. -/
theorem exists_written_of_extendsHello {hello : ClientHello} {audio vad bytes : Bytes}
    (h : ExtendsHello hello audio vad bytes) (hfits : bytes.length < usizeModulus) :
    ∃ message : List Wire.WrittenField, message.flatMap Wire.WrittenField.encode = bytes ∧
      (message.map Wire.WrittenField.field).foldlM (applyField clientHelloArms) {} = .ok hello := by
  have hle := length_le_of_interleaved h.inHello
  simp only [clientHelloParts, List.forall_mem_cons] at hle
  obtain ⟨hmodel, hlang, htask, -, -, -, hsuppress, haudio, hvad, hclient, -⟩ := hle
  have hparts : List.Forall₂ (fun part fields => part = Wire.encode fields)
      (clientHelloParts hello audio vad) ((clientHelloFieldsWith hello audio vad).map ([·])) := by
    rw [clientHelloParts, fieldString_eq_of_fits 1 (by omega), fieldString_eq_of_fits 3 (by omega),
      fieldString_eq_of_fits 4 (by omega), fieldString_eq_of_fits 8 (by omega),
      fieldString_eq_of_fits 11 (by omega), fieldMessage_eq_of_fits 9 (by omega),
      fieldMessage_eq_of_fits 10 (by omega)]
    simp [clientHelloFieldsWith, fieldVarint_eq]
  obtain ⟨message, hbytes, hfold⟩ :=
    exists_written_of_interleaved (fun _ => clientHelloArms_of_unused) h.inHello hparts hfits
  have hflatten : ((clientHelloFieldsWith hello audio vad).map ([·])).flatten =
      clientHelloFieldsWith hello audio vad := rfl
  have hformat := decodeAudioFormat_of_interleaved h.inAudio
    (length_lt_of_fieldMessage 9 (by omega))
  have hoptions := decodeVadOptions_of_interleaved h.inVad
    (length_lt_of_fieldMessage 10 (by omega))
  refine ⟨message, hbytes, ?_⟩
  rw [hfold, hflatten, foldlM_clientHelloFieldsWith hformat hoptions]

/-! ### Broken off fields -/

namespace ProtoInput

/-- A numeral without an end is refused, by the end of the bytes or by the limit on the groups. -/
theorem exists_error_varintFrom (front : Bytes) :
    ∀ (shifts : List UInt64) (acc : UInt64) (input : ProtoInput),
      (∀ byte ∈ front, 128 ≤ byte.toNat) → input.rest = front →
      ∃ error, varintFrom shifts acc input = .error error := by
  induction front with
  | nil =>
      intro shifts acc input _ hrest
      cases shifts with
      | nil => exact ⟨_, rfl⟩
      | cons shift shifts =>
          have hnone : input.bytes[input.pos]? = none := by
            rw [List.getElem?_eq_none_iff, ← Nat.sub_eq_zero_iff_le, ← List.length_drop]
            exact congrArg List.length hrest
          rw [varintFrom]
          simp only [hnone]
          exact ⟨_, rfl⟩
  | cons byte front ih =>
      intro shifts acc input hmore hrest
      obtain ⟨hbyte, hmore⟩ := List.forall_mem_cons.mp hmore
      cases shifts with
      | nil => exact ⟨_, rfl⟩
      | cons shift shifts =>
          have hhigh : ¬ byte &&& 0x80 = 0 := by
            rw [and_continuation_eq_zero_iff]
            omega
          rw [varintFrom]
          simp only [getElem?_pos_of_rest hrest, hhigh, if_false]
          exact ih shifts _ (input.advance 1) hmore
            (@rest_advance_of_append _ [byte] front hrest)

theorem exists_error_varint {input : ProtoInput} {value : Nat} {bytes : Bytes} {count : Nat}
    (h : Wire.IsVarint value bytes) (hcount : count < bytes.length)
    (hrest : input.rest = bytes.take count) : ∃ error, input.varint = .error error :=
  exists_error_varintFrom _ _ _ _ (h.terminated.le_of_mem_take hcount) hrest

theorem length_rest (input : ProtoInput) : input.rest.length = input.bytes.length - input.pos :=
  List.length_drop

theorem exists_error_takeBytes {input : ProtoInput} {length payload : Bytes} {count : Nat}
    (hlength : Wire.IsVarint payload.length length) (hcount : count < (length ++ payload).length)
    (hrest : input.rest = (length ++ payload).take count) :
    ∃ error, input.takeBytes = .error error := by
  by_cases hshort : count < length.length
  · rw [List.take_append_of_le_length hshort.le] at hrest
    obtain ⟨error, hread⟩ := exists_error_varint hlength hshort hrest
    exact ⟨error, by simp only [takeBytes, hread, bind, Except.bind]⟩
  · rw [List.length_append] at hcount
    rw [List.take_append, List.take_of_length_le (not_lt.mp hshort)] at hrest
    have hword : (UInt64.ofNat payload.length).toNat = payload.length := by
      rw [UInt64.toNat_ofNat']
      exact Nat.mod_eq_of_lt (hlength.value_eq ▸ Nat.mod_lt _ (by decide))
    have hread : input.varint = .ok (UInt64.ofNat payload.length, input.advance length.length) := by
      rw [← hword] at hlength
      exact varint_of_rest hlength hrest
    have htotal := input.length_rest
    rw [hrest, List.length_append, List.length_take] at htotal
    have hpos := List.length_pos_iff.mpr hlength.terminated.ne_nil
    have hpast : input.bytes.length < input.pos + length.length + payload.length := by omega
    by_cases hoverflow : usizeModulus ≤ input.pos + length.length + payload.length
    · simp only [takeBytes, hread, bind, Except.bind, hword, pos_advance, hoverflow, if_true]
      exact ⟨_, rfl⟩
    · simp only [takeBytes, hread, bind, Except.bind, hword, pos_advance, bytes_advance, hoverflow,
        hpast, if_true, if_false]
      exact ⟨_, rfl⟩

theorem exists_error_fixed32 {input : ProtoInput} {value : UInt32} {count : Nat}
    (hcount : count < (LittleEndian.ofUInt32 value).length)
    (hrest : input.rest = (LittleEndian.ofUInt32 value).take count) :
    ∃ error, input.fixed32 = .error error := by
  have htotal := input.length_rest
  rw [LittleEndian.length_ofUInt32] at hcount
  rw [hrest, List.length_take, LittleEndian.length_ofUInt32] at htotal
  have hpast : input.bytes.length < input.pos + 4 := by omega
  simp only [fixed32, hpast, if_true]
  exact ⟨_, rfl⟩

theorem exists_error_skip {input : ProtoInput} {value : Wire.Value} {payload : Bytes} {count : Nat}
    (hwrites : value.Writes payload) (hcount : count < payload.length)
    (hrest : input.rest = payload.take count) :
    ∃ error, input.skip value.wire = .error error := by
  have htotal := input.length_rest
  rw [hrest, List.length_take] at htotal
  cases value with
  | varint value =>
      obtain ⟨error, hread⟩ := exists_error_varint hwrites hcount hrest
      exact ⟨error, by simp [skip, Wire.Value.wire, hread, bind, Except.bind, Functor.map,
        Except.map]⟩
  | fixed64 bytes =>
      obtain rfl : payload = bytes.toList := hwrites
      have hlength : bytes.toList.length = 8 := by simp
      have hpast : input.bytes.length < input.pos + 8 := by omega
      simp only [skip, Wire.Value.wire, bind, Except.bind, pure, Except.pure, hpast, if_true]
      exact ⟨_, rfl⟩
  | bytes bytes =>
      obtain ⟨length, hlength, rfl⟩ := hwrites
      obtain ⟨error, hread⟩ := exists_error_takeBytes hlength hcount hrest
      exact ⟨error, by simp only [skip, Wire.Value.wire, hread, bind, Except.bind, Functor.map,
        Except.map]⟩
  | fixed32 value =>
      obtain rfl : payload = LittleEndian.ofUInt32 value := hwrites
      rw [LittleEndian.length_ofUInt32] at htotal hcount
      have hpast : input.bytes.length < input.pos + 4 := by omega
      simp only [skip, Wire.Value.wire, bind, Except.bind, pure, Except.pure, hpast, if_true]
      exact ⟨_, rfl⟩

end ProtoInput

theorem FieldArm.exists_error_run {α : Type} {arm : FieldArm α} (state : α) {input : ProtoInput}
    {value : Wire.Value} {payload : Bytes} {count : Nat} (hwire : arm.wire = value.wire)
    (hwrites : value.Writes payload) (hcount : count < payload.length)
    (hrest : input.rest = payload.take count) :
    ∃ error, arm.run state input = .error error := by
  cases arm <;> cases value <;> simp [wire, Wire.Value.wire] at hwire
  case varint.varint store value =>
    obtain ⟨error, hread⟩ := ProtoInput.exists_error_varint hwrites hcount hrest
    exact ⟨error, by simp only [run, hread, bind, Except.bind]⟩
  case fixed32.fixed32 store value =>
    obtain rfl : payload = LittleEndian.ofUInt32 value := hwrites
    obtain ⟨error, hread⟩ := ProtoInput.exists_error_fixed32 hcount hrest
    exact ⟨error, by simp only [run, hread, bind, Except.bind]⟩
  case string.bytes store bytes =>
    obtain ⟨length, hlength, rfl⟩ := hwrites
    obtain ⟨error, hread⟩ := ProtoInput.exists_error_takeBytes hlength hcount hrest
    exact ⟨error, by simp only [run, ProtoInput.string, hread, bind, Except.bind]⟩
  case message.bytes store bytes =>
    obtain ⟨length, hlength, rfl⟩ := hwrites
    obtain ⟨error, hread⟩ := ProtoInput.exists_error_takeBytes hlength hcount hrest
    exact ⟨error, by simp only [run, hread, bind, Except.bind]⟩

/-- **A broken off field is refused**, wherever it breaks off. -/
theorem exists_error_decodeFields {α : Type} {arms : FieldArms α} (rounds : Nat) (state : α)
    {input : ProtoInput} {written : Wire.WrittenField} {count : Nat} (hpos : 0 < count)
    (hcount : count < written.encode.length) (hrest : input.rest = written.encode.take count) :
    ∃ error, decodeFields arms rounds state input = .error error := by
  have hmore : input.isEmpty = false := by
    have htotal := input.length_rest
    rw [hrest, List.length_take] at htotal
    simp only [ProtoInput.isEmpty, decide_eq_false_iff_not]
    omega
  cases rounds with
  | zero =>
      rw [decodeFields]
      simp only [hmore, Bool.false_eq_true, if_false]
      exact ⟨_, rfl⟩
  | succ rounds =>
      rw [decodeFields]
      simp only [hmore, Bool.false_eq_true, if_false, bind, Except.bind]
      rw [Wire.WrittenField.encode] at hrest
      by_cases hkey : count < written.key.length
      · rw [List.take_append_of_le_length hkey.le] at hrest
        obtain ⟨error, hread⟩ := ProtoInput.exists_error_varint written.isKey hkey hrest
        exact ⟨error, by simp only [ProtoInput.key, hread, bind, Except.bind]⟩
      · rw [Wire.WrittenField.encode, List.length_append] at hcount
        rw [List.take_append, List.take_of_length_le (not_lt.mp hkey)] at hrest
        have hread := ProtoInput.key_of_rest written.isKey hrest
        have hvalue := ProtoInput.rest_advance_of_append hrest
        have hshort : count - written.key.length < written.payload.length := by omega
        simp only [hread]
        cases harm : arms.arm written.field.number written.field.value.wire with
        | none =>
            obtain ⟨error, hskip⟩ :=
              ProtoInput.exists_error_skip written.isPayload hshort hvalue
            exact ⟨error, by simp only [hskip]⟩
        | some arm =>
            obtain ⟨error, hrun⟩ := FieldArm.exists_error_run state (arms.wellTyped _ _ _ harm)
              written.isPayload hshort hvalue
            exact ⟨error, by simp only [hrun]⟩

/-- **The hello decoder is forward compatible and rejects truncation.** -/
theorem decodeClientHello_of_extendsHello {hello : ClientHello} {audio vad bytes : Bytes}
    (hmodel : hello.model ≠ "") (h : ExtendsHello hello audio vad bytes)
    (hfits : bytes.length ≤ isizeMax) :
    decodeClientHello bytes = .ok hello ∧
      ∀ (written : Wire.WrittenField) (count : Nat), 0 < count → count < written.encode.length →
        (bytes ++ written.encode.take count).length ≤ isizeMax →
        ∃ error, decodeClientHello (bytes ++ written.encode.take count) = .error error := by
  have hmodulus : isizeMax < usizeModulus := by decide
  obtain ⟨message, rfl, hfold⟩ := exists_written_of_extendsHello h (hfits.trans_lt hmodulus)
  constructor
  · have hloop : decodeMessage clientHelloArms {} (message.flatMap Wire.WrittenField.encode) =
        .ok hello := (decodeMessage_written _ message (hfits.trans_lt hmodulus)).trans hfold
    simp [decodeClientHello, hloop, hmodel, bind, Except.bind, pure, Except.pure]
  · intro written count hpos hcount htotal
    have hlimit := htotal.trans_lt hmodulus
    obtain ⟨rounds, hrounds⟩ := Nat.exists_eq_add_of_le
      ((Wire.length_le_length_flatMap_encode message).trans (Nat.le_add_right _
        (written.encode.take count).length))
    have hrest := ProtoInput.rest_new
      (message.flatMap Wire.WrittenField.encode ++ written.encode.take count)
    obtain ⟨error, hbroken⟩ : ∃ error, decodeFields clientHelloArms rounds hello _ = .error error :=
      exists_error_decodeFields rounds hello hpos hcount (ProtoInput.rest_advance_of_append hrest)
    have hloop : decodeFields clientHelloArms (message.length + rounds) {} _ = _ :=
      decodeFields_append message rounds _ _ _ hrest hlimit
    rw [hfold] at hloop
    refine ⟨error, ?_⟩
    rw [decodeClientHello, decodeMessage, List.length_append, hrounds, hloop]
    simp only [Except.bind, hbroken, bind]

/-- Field 2 with the value 5, key and value both longer than they need to be. -/
def laterField : Wire.WrittenField where
  field := ⟨2, .varint 5⟩
  key := [0x90, 0x00]
  payload := [0x85, 0x00]
  isKey := ⟨⟨by decide, show (0x00 : UInt8).toNat < 128 by decide⟩, by decide, by decide⟩
  isPayload := ⟨⟨by decide, show (0x00 : UInt8).toNat < 128 by decide⟩, by decide, by decide⟩

theorem decodeClientHello_of_extendsHello_laterField :
    let hello : ClientHello := { model := "whisper-small-30s" }
    let bytes := laterField.encode ++ encodeClientHello hello
    decodeClientHello bytes = .ok hello ∧
      ∃ error, decodeClientHello (bytes ++ laterField.encode.take 1) = .error error := by
  intro hello bytes
  have hlen := length_encodeClientHello_le hello
  have hmodel : (asBytes hello.model).length = 17 := by decide
  have hlang : (asBytes hello.lang).length = 2 := by decide
  have htask : (asBytes hello.task).length = 10 := by decide
  have hsuppress : (asBytes hello.suppressTokens).length = 7 := by decide
  have hclient : (asBytes hello.clientId).length = 21 := by decide
  have hmax : 420 ≤ isizeMax := by decide
  have hlater : laterField.encode.length = 4 := by decide
  have hbytes : bytes.length = laterField.encode.length + (encodeClientHello hello).length :=
    List.length_append
  have hextends : ExtendsHello hello (encodeAudioFormat hello.audioFormat)
      (encodeVadOptions hello.vad) bytes := by
    refine ⟨?_, ?_, .other laterField ⟨by decide, by decide, by decide⟩ ?_⟩
    · exact flatten_audioFormatParts hello.audioFormat ▸ .flatten _ _
    · exact flatten_vadOptionsParts hello.vad ▸ .flatten _ _
    · exact flatten_clientHelloParts hello ▸ .flatten _ _
  have hdecode := decodeClientHello_of_extendsHello (by decide) hextends (by omega)
  refine ⟨hdecode.1, hdecode.2 laterField 1 (by decide) (by decide) ?_⟩
  rw [List.length_append, List.length_take]
  omega

end RkWhisper
