import RkWhisper.Lib.Wire
import RkWhisper.Protocol

/-!
# What the cursor reads

The hand-written encoders produce wire messages, and a decoder's loop over the bytes of a message
is a fold over its fields. Every later fact about a codec is a fact about that fold.
-/

namespace RkWhisper

/-! ### Encoders write wire fields -/

theorem toNat_shiftRight_seven (value : UInt64) : (value >>> 7).toNat = value.toNat / 128 := by
  simp [UInt64.toNat_shiftRight, Nat.shiftRight_eq_div_pow]

theorem toNat_or_continuation (byte : UInt8) : (byte ||| 0x80).toNat = byte.toNat % 128 + 128 := by
  have htable : ∀ b : Fin 256, b.val ||| 128 = b.val % 128 + 128 := by decide +kernel
  simpa using htable ⟨byte.toNat, byte.toNat_lt⟩

theorem toNat_and_payload (byte : UInt8) : (byte &&& 0x7f).toNat = byte.toNat % 128 := by
  have htable : ∀ b : Fin 256, b.val &&& 127 = b.val % 128 := by decide +kernel
  simpa using htable ⟨byte.toNat, byte.toNat_lt⟩

theorem and_continuation_eq_zero_iff (byte : UInt8) : byte &&& 0x80 = 0 ↔ byte.toNat < 128 := by
  have htable : ∀ b : Fin 256, b.val &&& 128 = 0 ↔ b.val < 128 := by decide +kernel
  rw [← UInt8.toNat_inj]
  simpa using htable ⟨byte.toNat, byte.toNat_lt⟩

theorem varint_eq_base128 (value : UInt64) : varint value = Wire.base128 value.toNat := by
  induction value using varint.induct with
  | case1 value hsmall =>
      have hlt : value.toNat < 128 := by simpa [UInt64.lt_iff_toNat_lt] using hsmall
      rw [varint, if_pos hsmall, Wire.base128_of_lt hlt, UInt8.ofNat_uInt64ToNat]
  | case2 value hlarge ih =>
      have hle : 128 ≤ value.toNat := by simpa [UInt64.lt_iff_toNat_lt] using hlarge
      have hbyte : value.toUInt8 ||| 0x80 = UInt8.ofNat (value.toNat % 128 + 128) := by
        apply UInt8.toNat_inj.mp
        rw [toNat_or_continuation, UInt64.toNat_toUInt8, UInt8.toNat_ofNat']
        omega
      rw [varint, if_neg hlarge, ih, Wire.base128_of_le hle, toNat_shiftRight_seven, hbyte]

theorem toNat_key (field : UInt32) : (field.toUInt64 <<< 3).toNat = field.toNat * 8 := by
  have hlt := field.toNat_lt
  have hshift : (3 : UInt64).toNat % 64 = 3 := rfl
  rw [UInt64.toNat_shiftLeft, UInt32.toNat_toUInt64, Nat.shiftLeft_eq, hshift]
  omega

theorem toNat_key_or (field : UInt32) (wire : UInt64) (hwire : wire.toNat < 8) :
    (field.toUInt64 <<< 3 ||| wire).toNat = field.toNat * 8 + wire.toNat := by
  rw [UInt64.toNat_or, toNat_key, Nat.mul_comm]
  exact (Nat.two_pow_add_eq_or_of_lt (i := 3) hwire field.toNat).symm

theorem fieldVarint_eq (field : UInt32) (value : UInt64) :
    fieldVarint field value = (Wire.Field.mk field (.varint value)).encode := by
  simp only [fieldVarint, varint_eq_base128, toNat_key, Wire.Field.encode, Wire.Field.key,
    Wire.Value.wire, Wire.Value.encode]
  rfl

theorem fieldFixed32_eq (field : UInt32) (value : F32) :
    fieldFixed32 field value = (Wire.Field.mk field (.fixed32 value.bits)).encode := by
  have hkey := toNat_key_or field 5 (by decide)
  simp only [fieldFixed32, varint_eq_base128, hkey, Wire.Field.encode, Wire.Field.key,
    Wire.Value.wire, Wire.Value.encode]
  rfl

theorem fieldMessage_eq (field : UInt32) {value : Bytes} (hlen : value.length < 2 ^ 64) :
    fieldMessage field value = (Wire.Field.mk field (.bytes value)).encode := by
  have hkey := toNat_key_or field 2 (by decide)
  have hlength : (UInt64.ofNat value.length).toNat = value.length := by
    rw [UInt64.toNat_ofNat']
    exact Nat.mod_eq_of_lt hlen
  simp only [fieldMessage, varint_eq_base128, hkey, hlength, Wire.Field.encode, Wire.Field.key,
    Wire.Value.wire, Wire.Value.encode]
  rfl

/-! ### Reading at a position -/

namespace ProtoInput

/-- The bytes still to be read. -/
def rest (input : ProtoInput) : Bytes := input.bytes.drop input.pos

def advance (input : ProtoInput) (count : Nat) : ProtoInput :=
  { input with pos := input.pos + count }

@[simp]
theorem bytes_advance (input : ProtoInput) (count : Nat) :
    (input.advance count).bytes = input.bytes := rfl

@[simp]
theorem pos_advance (input : ProtoInput) (count : Nat) :
    (input.advance count).pos = input.pos + count := rfl

@[simp]
theorem advance_advance (input : ProtoInput) (first second : Nat) :
    (input.advance first).advance second = input.advance (first + second) := by
  simp [advance, Nat.add_assoc]

@[simp]
theorem rest_new (bytes : Bytes) : (ProtoInput.new bytes).rest = bytes := by
  simp [rest, ProtoInput.new]

theorem rest_advance_of_append {input : ProtoInput} {front tail : Bytes}
    (h : input.rest = front ++ tail) : (input.advance front.length).rest = tail := by
  have hdrop : (input.advance front.length).rest = input.rest.drop front.length := by
    simp [rest, advance, List.drop_drop]
  rw [hdrop, h, List.drop_left]

theorem length_of_rest {input : ProtoInput} {rest : Bytes} (h : input.rest = rest)
    (hne : rest ≠ []) : input.pos + rest.length = input.bytes.length := by
  have hlen := congrArg List.length h
  have hpos := List.length_pos_iff.mpr hne
  simp only [ProtoInput.rest, List.length_drop] at hlen
  omega

theorem getElem?_pos_of_rest {input : ProtoInput} {byte : UInt8} {tail : Bytes}
    (h : input.rest = byte :: tail) : input.bytes[input.pos]? = some byte := by
  have hhead := congrArg (fun bytes => bytes[0]?) h
  simpa [rest, List.getElem?_drop] using hhead

/-! ### Varints -/

theorem varintShifts_drop {group : Nat} (h : group < 10) :
    varintShifts.drop group = UInt64.ofNat (7 * group) :: varintShifts.drop (group + 1) := by
  have hall : ∀ i : Fin 10, varintShifts.drop i.val =
      UInt64.ofNat (7 * i.val) :: varintShifts.drop (i.val + 1) := by decide
  exact hall ⟨group, h⟩

/-- Or-ing in the group at `7 * group` adds it to the value read so far, as far as the word reaches. -/
theorem toNat_or_group {acc : UInt64} {group : Nat} (byte : UInt8) (hgroup : group < 10)
    (hacc : acc.toNat < 2 ^ (7 * group)) :
    (acc ||| ((byte &&& 0x7f).toUInt64 <<< UInt64.ofNat (7 * group))).toNat =
      (acc.toNat + byte.toNat % 128 * 2 ^ (7 * group)) % 2 ^ 64 := by
  have hshift : (UInt64.ofNat (7 * group)).toNat % 64 = 7 * group := by
    rw [UInt64.toNat_ofNat']
    omega
  have hword : 2 ^ 64 = 2 ^ (64 - 7 * group) * 2 ^ (7 * group) := by
    rw [← Nat.pow_add]
    congr 1
    omega
  have hmul : byte.toNat % 128 * 2 ^ (7 * group) % 2 ^ 64 =
      2 ^ (7 * group) * (byte.toNat % 128 % 2 ^ (64 - 7 * group)) := by
    rw [hword, Nat.mul_mod_mul_right, Nat.mul_comm]
  have hhigh : byte.toNat % 128 % 2 ^ (64 - 7 * group) + 1 ≤ 2 ^ (64 - 7 * group) :=
    Nat.mod_lt _ (Nat.two_pow_pos _)
  have hroom := Nat.mul_le_mul_left (2 ^ (7 * group)) hhigh
  rw [Nat.mul_add, Nat.mul_one, Nat.mul_comm _ (2 ^ (64 - 7 * group)), ← hword] at hroom
  have hsum : 2 ^ (7 * group) * (byte.toNat % 128 % 2 ^ (64 - 7 * group)) + acc.toNat < 2 ^ 64 := by
    omega
  rw [UInt64.toNat_or, UInt64.toNat_shiftLeft, hshift, UInt8.toNat_toUInt64, toNat_and_payload,
    Nat.shiftLeft_eq, hmul, Nat.or_comm, ← Nat.two_pow_add_eq_or_of_lt hacc, Nat.add_mod, hmul,
    Nat.mod_eq_of_lt acc.toNat_lt, Nat.add_comm acc.toNat, Nat.mod_eq_of_lt hsum]

/-- The induction runs down the groups still to read; `acc` holds the groups already read. -/
theorem varintFrom_of_rest {value : UInt64} (bytes : List UInt8) :
    ∀ (group : Nat) (acc : UInt64) (input : ProtoInput) (tail : Bytes),
      Wire.Terminated bytes → group + bytes.length ≤ 10 → acc.toNat < 2 ^ (7 * group) →
      (acc.toNat + 2 ^ (7 * group) * Wire.numeral bytes) % 2 ^ 64 = value.toNat →
      input.rest = bytes ++ tail →
      varintFrom (varintShifts.drop group) acc input = .ok (value, input.advance bytes.length) := by
  induction bytes with
  | nil => exact fun _ _ _ _ hterminated => hterminated.elim
  | cons byte bytes ih =>
      intro group acc input tail hterminated hlength hacc hvalue hrest
      rw [List.length_cons] at hlength
      have hnext := toNat_or_group byte (by omega) hacc
      rw [varintShifts_drop (by omega), varintFrom]
      simp only [getElem?_pos_of_rest hrest]
      by_cases hlast : bytes = []
      · subst hlast
        have hdone : byte &&& 0x80 = 0 := (and_continuation_eq_zero_iff byte).mpr hterminated
        rw [if_pos hdone]
        refine congrArg Except.ok (Prod.ext ?_ rfl)
        apply UInt64.toNat_inj.mp
        rw [hnext, ← hvalue, Wire.numeral, Wire.numeral, Nat.mul_zero, Nat.add_zero, Nat.mul_comm]
      · obtain ⟨hbyte, hrestTerminated⟩ := (Wire.terminated_cons hlast).mp hterminated
        have hpos := List.length_pos_iff.mpr hlast
        have hmore : ¬ byte &&& 0x80 = 0 := by
          rw [and_continuation_eq_zero_iff]
          omega
        have hsplit : 2 ^ (7 * (group + 1)) = 2 ^ (7 * group) * 128 := by
          rw [Nat.mul_add, Nat.pow_add]
        have hgroup : byte.toNat % 128 * 2 ^ (7 * group) ≤ 127 * 2 ^ (7 * group) :=
          Nat.mul_le_mul_right _ (by omega)
        have hword : 2 ^ (7 * (group + 1)) ≤ 2 ^ 64 := Nat.pow_le_pow_right (by decide) (by omega)
        rw [Nat.mod_eq_of_lt (by omega)] at hnext
        have hread := ih (group + 1) _ (input.advance 1) tail hrestTerminated (by omega)
          (by rw [hnext]; omega) ?_ (@rest_advance_of_append _ [_] _ hrest)
        · rw [if_neg hmore, List.length_cons, Nat.add_comm bytes.length, ← advance_advance]
          exact hread
        · rw [hnext, ← hvalue, hsplit, Wire.numeral, Nat.mul_add, ← Nat.mul_assoc,
            Nat.mul_comm (byte.toNat % 128), Nat.add_assoc]

theorem varint_of_rest {input : ProtoInput} {value : UInt64} {bytes tail : Bytes}
    (hvarint : Wire.IsVarint value.toNat bytes) (hrest : input.rest = bytes ++ tail) :
    input.varint = .ok (value, input.advance bytes.length) := by
  apply varintFrom_of_rest bytes 0 0 input tail hvarint.terminated _ (by decide) _ hrest
  · rw [Nat.zero_add]
    exact hvarint.length_le
  · rw [Nat.mul_zero, Nat.pow_zero, Nat.one_mul, UInt64.toNat_zero, Nat.zero_add]
    exact hvarint.value_eq

/-! ### Values -/

theorem key_of_rest {input : ProtoInput} {field : Wire.Field} {bytes tail : Bytes}
    (hkey : Wire.IsVarint field.key bytes) (hrest : input.rest = bytes ++ tail) :
    input.key = .ok ((field.number, field.value.wire), input.advance bytes.length) := by
  have hword : (UInt64.ofNat field.key).toNat = field.key := by
    rw [UInt64.toNat_ofNat', Nat.mod_eq_of_lt field.key_lt]
  have hread : input.varint = .ok (UInt64.ofNat field.key, input.advance bytes.length) := by
    rw [← hword] at hkey
    exact varint_of_rest hkey hrest
  have hnumber : (UInt64.ofNat field.key >>> 3).toUInt32 = field.number := by
    have hlt := field.number.toNat_lt
    have hwire := field.value.wire_lt
    have hshift : (3 : UInt64).toNat % 64 = 3 := rfl
    apply UInt32.toNat_inj.mp
    rw [UInt64.toNat_toUInt32, UInt64.toNat_shiftRight, hword, hshift, Nat.shiftRight_eq_div_pow,
      Wire.Field.key]
    omega
  have hwire : (UInt64.ofNat field.key &&& 0x7).toUInt8 = field.value.wire := by
    have hlt := field.value.wire_lt
    have hmask : (7 : UInt64).toNat = 2 ^ 3 - 1 := rfl
    apply UInt8.toNat_inj.mp
    rw [UInt64.toNat_toUInt8, UInt64.toNat_and, hword, hmask, Nat.and_two_pow_sub_one_eq_mod,
      Wire.Field.key]
    omega
  simp only [key, hread, bind, Except.bind, pure, Except.pure, hnumber, hwire]

theorem takeBytes_of_rest {input : ProtoInput} {length payload tail : Bytes}
    (hlength : Wire.IsVarint payload.length length)
    (hrest : input.rest = length ++ payload ++ tail)
    (hfits : input.bytes.length < usizeModulus) :
    input.takeBytes = .ok (payload, input.advance (length ++ payload).length) := by
  have hne : length ++ payload ++ tail ≠ [] := by
    simp [hlength.terminated.ne_nil]
  have htotal := length_of_rest hrest hne
  simp only [List.length_append] at htotal
  have hword : (UInt64.ofNat payload.length).toNat = payload.length := by
    rw [UInt64.toNat_ofNat']
    apply Nat.mod_eq_of_lt
    simp only [usizeModulus] at hfits
    omega
  rw [List.append_assoc] at hrest
  have hread : input.varint = .ok (UInt64.ofNat payload.length, input.advance length.length) := by
    rw [← hword] at hlength
    exact varint_of_rest hlength hrest
  have hpayload := rest_advance_of_append hrest
  simp only [rest, bytes_advance, pos_advance] at hpayload
  have hstop : ¬ usizeModulus ≤ input.pos + length.length + payload.length := by omega
  have hinside : ¬ input.bytes.length < input.pos + length.length + payload.length := by omega
  simp only [takeBytes, hread, bind, Except.bind, hword, pos_advance, bytes_advance, hpayload,
    hstop, hinside, if_false, pure, Except.pure, List.take_left, List.length_append]
  simp [advance, Nat.add_assoc]

theorem fixed32_of_rest {input : ProtoInput} {value : UInt32} {tail : Bytes}
    (hrest : input.rest = LittleEndian.ofUInt32 value ++ tail) :
    input.fixed32 = .ok (⟨value⟩, input.advance (LittleEndian.ofUInt32 value).length) := by
  have hne : LittleEndian.ofUInt32 value ++ tail ≠ [] := by
    simp [LittleEndian.ofUInt32]
  have htotal := length_of_rest hrest hne
  simp only [List.length_append, LittleEndian.length_ofUInt32] at htotal
  have hinside : ¬ input.bytes.length < input.pos + 4 := by omega
  have htake : (input.bytes.drop input.pos).take 4 = LittleEndian.ofUInt32 value := by
    change input.rest.take 4 = _
    rw [hrest, ← LittleEndian.length_ofUInt32 value, List.take_left]
  simp only [fixed32, hinside, if_false, htake, LittleEndian.toUInt32_ofUInt32,
    LittleEndian.length_ofUInt32]
  rfl

/-- A skipped field is passed over whole, whatever its wire type. -/
theorem skip_of_rest {input : ProtoInput} {value : Wire.Value} {payload tail : Bytes}
    (hwrites : value.Writes payload) (hrest : input.rest = payload ++ tail)
    (hfits : input.bytes.length < usizeModulus) :
    input.skip value.wire = .ok (input.advance payload.length) := by
  have htotal := length_of_rest hrest (by simp [hwrites.ne_nil])
  rw [List.length_append] at htotal
  have hinside : ¬ input.bytes.length < input.pos + payload.length := by omega
  cases value with
  | varint value =>
      have hread := varint_of_rest hwrites hrest
      simp [skip, Wire.Value.wire, hread, hinside, bind, Except.bind, Functor.map, Except.map, pure,
        Except.pure]
  | fixed64 bytes =>
      obtain rfl : payload = bytes.toList := hwrites
      have hlength : bytes.toList.length = 8 := by simp
      rw [hlength] at hinside ⊢
      simp only [skip, Wire.Value.wire, bind, Except.bind, pure, Except.pure, hinside, if_false]
      rfl
  | bytes bytes =>
      obtain ⟨length, hlength, rfl⟩ := hwrites
      have hread := takeBytes_of_rest hlength hrest hfits
      simp only [skip, Wire.Value.wire, hread, bind, Except.bind, Functor.map, Except.map, pure,
        Except.pure, pos_advance, bytes_advance, hinside, if_false]
  | fixed32 value =>
      obtain rfl : payload = LittleEndian.ofUInt32 value := hwrites
      rw [LittleEndian.length_ofUInt32] at hinside ⊢
      simp only [skip, Wire.Value.wire, bind, Except.bind, pure, Except.pure, hinside, if_false]
      rfl

end ProtoInput

/-! ### A decoder is a fold over the fields -/

namespace FieldArm

variable {α : Type}

/-- What an arm stores for a value of its own wire type. -/
def apply (arm : FieldArm α) (state : α) (value : Wire.Value) : Except Error α :=
  match arm, value with
  | varint store, .varint value => .ok (store state value)
  | fixed32 store, .fixed32 value => .ok (store state ⟨value⟩)
  | string store, .bytes payload =>
      match ProtoInput.fromUtf8 payload with
      | some value => .ok (store state value)
      | none => .error (.proto "protobuf string is not valid UTF-8")
  | message store, .bytes payload => store state payload
  | _, _ => .ok state

theorem run_of_rest {arm : FieldArm α} (state : α) {input : ProtoInput} {value : Wire.Value}
    {payload tail : Bytes} (hwire : arm.wire = value.wire) (hwrites : value.Writes payload)
    (hrest : input.rest = payload ++ tail) (hfits : input.bytes.length < usizeModulus) :
    arm.run state input =
      (arm.apply state value).map fun state => (state, input.advance payload.length) := by
  cases arm <;> cases value <;> simp [wire, Wire.Value.wire] at hwire
  case varint.varint store value =>
    have hread := ProtoInput.varint_of_rest hwrites hrest
    simp [run, apply, hread, bind, Except.bind, pure, Except.pure, Except.map]
  case fixed32.fixed32 store value =>
    obtain rfl : payload = LittleEndian.ofUInt32 value := hwrites
    have hread := ProtoInput.fixed32_of_rest hrest
    simp [run, apply, hread, bind, Except.bind, pure, Except.pure, Except.map]
  case string.bytes store bytes =>
    obtain ⟨length, hlength, rfl⟩ := hwrites
    have hread := ProtoInput.takeBytes_of_rest hlength hrest hfits
    cases hvalue : ProtoInput.fromUtf8 bytes <;>
      simp [run, apply, ProtoInput.string, hread, hvalue, bind, Except.bind, pure, Except.pure,
        Except.map]
  case message.bytes store bytes =>
    obtain ⟨length, hlength, rfl⟩ := hwrites
    have hread := ProtoInput.takeBytes_of_rest hlength hrest hfits
    cases hstore : store state bytes <;>
      simp [run, apply, hread, hstore, bind, Except.bind, pure, Except.pure, Except.map]

end FieldArm

section Fold

variable {α : Type} (arms : FieldArms α)

/-- The effect of one field on the message under construction. -/
def applyField (state : α) (field : Wire.Field) : Except Error α :=
  match arms.arm field.number field.value.wire with
  | some arm => arm.apply state field.value
  | none => .ok state

variable {arms}

/-- One round of the loop consumes exactly one field. -/
theorem decodeFields_succ {rounds : Nat} {state : α} {input : ProtoInput}
    {written : Wire.WrittenField} {tail : Bytes} (hrest : input.rest = written.encode ++ tail)
    (hfits : input.bytes.length < usizeModulus) :
    decodeFields arms (rounds + 1) state input =
      (applyField arms state written.field).bind fun state =>
        decodeFields arms rounds state (input.advance written.encode.length) := by
  have hpos := written.length_encode_pos
  have htotal := ProtoInput.length_of_rest hrest (by
    intro hnil
    have hlen := congrArg List.length hnil
    simp only [List.length_append, List.length_nil] at hlen
    omega)
  have hmore : input.isEmpty = false := by
    simp only [List.length_append] at htotal
    simp only [ProtoInput.isEmpty, decide_eq_false_iff_not]
    omega
  have hsplit : input.rest = written.key ++ (written.payload ++ tail) := by
    rw [hrest, Wire.WrittenField.encode, List.append_assoc]
  have hkey := ProtoInput.key_of_rest written.isKey hsplit
  have hvalue := ProtoInput.rest_advance_of_append hsplit
  have hadvance : (input.advance written.key.length).advance written.payload.length =
      input.advance written.encode.length := by
    rw [ProtoInput.advance_advance, Wire.WrittenField.encode, List.length_append]
  rw [decodeFields]
  simp only [hmore, Bool.false_eq_true, if_false, hkey, bind, Except.bind, applyField]
  cases harm : arms.arm written.field.number written.field.value.wire with
  | none =>
      have hskip := ProtoInput.skip_of_rest written.isPayload hvalue hfits
      rw [hadvance] at hskip
      simp only [hskip]
  | some arm =>
      have hrun := FieldArm.run_of_rest state (arms.wellTyped _ _ _ harm) written.isPayload hvalue
        hfits
      rw [hadvance] at hrun
      simp only [hrun]
      cases arm.apply state written.field.value <;> rfl

/-- The loop over whole fields, with more bytes behind them. -/
theorem decodeFields_append (message : List Wire.WrittenField) :
    ∀ (rounds : Nat) (state : α) (input : ProtoInput) (tail : Bytes),
      input.rest = message.flatMap Wire.WrittenField.encode ++ tail →
      input.bytes.length < usizeModulus →
      decodeFields arms (message.length + rounds) state input =
        ((message.map Wire.WrittenField.field).foldlM (applyField arms) state).bind fun state =>
          decodeFields arms rounds state
            (input.advance (message.flatMap Wire.WrittenField.encode).length) := by
  induction message with
  | nil =>
      intro rounds state input tail _ _
      rw [List.length_nil, Nat.zero_add]
      rfl
  | cons written message ih =>
      intro rounds state input tail hrest hfits
      rw [List.flatMap_cons, List.append_assoc] at hrest
      rw [List.length_cons, Nat.add_right_comm, decodeFields_succ hrest hfits, List.map_cons,
        List.foldlM_cons, List.flatMap_cons, List.length_append, ← ProtoInput.advance_advance]
      cases applyField arms state written.field with
      | error error => rfl
      | ok state =>
          exact ih rounds state _ tail (ProtoInput.rest_advance_of_append hrest) hfits

/-- The loop ends where the bytes do. -/
theorem decodeFields_end (rounds : Nat) (state : α) {input : ProtoInput} (hrest : input.rest = []) :
    decodeFields arms rounds state input = .ok state := by
  have hempty : input.isEmpty = true := by
    simpa [ProtoInput.isEmpty, ProtoInput.rest] using hrest
  rw [decodeFields.eq_def]
  simp [hempty]

/-- **A decoder run on the bytes of a message folds its arms over the fields**, however the fields
are written. -/
theorem decodeMessage_written (initial : α) (message : List Wire.WrittenField)
    (hfits : (message.flatMap Wire.WrittenField.encode).length < usizeModulus) :
    decodeMessage arms initial (message.flatMap Wire.WrittenField.encode) =
      (message.map Wire.WrittenField.field).foldlM (applyField arms) initial := by
  obtain ⟨rounds, hrounds⟩ :=
    Nat.exists_eq_add_of_le (Wire.length_le_length_flatMap_encode message)
  have hrest : (ProtoInput.new (message.flatMap Wire.WrittenField.encode)).rest =
      message.flatMap Wire.WrittenField.encode ++ [] := by
    rw [ProtoInput.rest_new, List.append_nil]
  have hend := ProtoInput.rest_advance_of_append hrest
  rw [decodeMessage, hrounds, decodeFields_append message rounds initial _ [] hrest hfits]
  cases (message.map Wire.WrittenField.field).foldlM (applyField arms) initial with
  | error error => rfl
  | ok state => exact decodeFields_end rounds state hend

theorem decodeMessage_encode (initial : α) (message : List Wire.Field)
    (hfits : (Wire.encode message).length < usizeModulus) :
    decodeMessage arms initial (Wire.encode message) =
      message.foldlM (applyField arms) initial := by
  obtain ⟨written, hencode, hfields⟩ := Wire.exists_written message hfits
  rw [← hencode] at hfits ⊢
  rw [decodeMessage_written initial written hfits, hfields]

end Fold

end RkWhisper
