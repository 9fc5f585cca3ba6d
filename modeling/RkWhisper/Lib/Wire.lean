import RkWhisper.Lib.LittleEndian

/-!
# Protobuf wire format

A message on the wire is a list of fields, a field a number with a value of one of four wire types.
A field has one shortest encoding, and others: a numeral may have more groups than it needs. This
module fixes the bytes of a message and no reader: what is to hold of any reader is that it computes
a fold over the fields, however they are written.
-/

namespace Wire

/-- Base-128 numerals, least significant group first, with the high bit on every byte but the
last. -/
def base128 (value : Nat) : List UInt8 :=
  if value < 128 then [UInt8.ofNat value]
  else UInt8.ofNat (value % 128 + 128) :: base128 (value / 128)

theorem base128_of_lt {value : Nat} (h : value < 128) : base128 value = [UInt8.ofNat value] := by
  rw [base128, if_pos h]

theorem base128_of_le {value : Nat} (h : 128 ≤ value) :
    base128 value = UInt8.ofNat (value % 128 + 128) :: base128 (value / 128) := by
  rw [base128, if_neg (by omega)]

theorem base128_ne_nil (value : Nat) : base128 value ≠ [] := by
  rw [base128]
  split <;> simp

theorem length_base128_pos (value : Nat) : 0 < (base128 value).length :=
  List.length_pos_iff.mpr (base128_ne_nil value)

/-! ### Numerals -/

/-- What the groups say, the high bits left out. -/
def numeral : List UInt8 → Nat
  | [] => 0
  | byte :: bytes => byte.toNat % 128 + 128 * numeral bytes

/-- The high bit is on every byte but the last. -/
def Terminated : List UInt8 → Prop
  | [] => False
  | [last] => last.toNat < 128
  | byte :: bytes => 128 ≤ byte.toNat ∧ Terminated bytes

/-- A numeral of at most ten groups. It may be longer than it needs to be, and of what the tenth group
says beyond the word only the word counts. -/
structure IsVarint (value : Nat) (bytes : List UInt8) : Prop where
  terminated : Terminated bytes
  length_le : bytes.length ≤ 10
  value_eq : numeral bytes % 2 ^ 64 = value

theorem terminated_cons {byte : UInt8} {bytes : List UInt8} (hne : bytes ≠ []) :
    Terminated (byte :: bytes) ↔ 128 ≤ byte.toNat ∧ Terminated bytes := by
  cases bytes with
  | nil => exact absurd rfl hne
  | cons next bytes => rfl

theorem Terminated.ne_nil {bytes : List UInt8} (h : Terminated bytes) : bytes ≠ [] := by
  rintro rfl
  exact h

/-- A numeral that is broken off goes on. -/
theorem Terminated.le_of_mem_take {bytes : List UInt8} (h : Terminated bytes) {count : Nat}
    (hcount : count < bytes.length) : ∀ byte ∈ bytes.take count, 128 ≤ byte.toNat := by
  induction bytes generalizing count with
  | nil => exact h.elim
  | cons byte bytes ih =>
      cases count with
      | zero => exact fun _ hmem => absurd hmem List.not_mem_nil
      | succ count =>
          have hrest : count < bytes.length := Nat.lt_of_succ_lt_succ hcount
          have hne : bytes ≠ [] := List.length_pos_iff.mp (Nat.zero_lt_of_lt hrest)
          obtain ⟨hbyte, hterminated⟩ := (terminated_cons hne).mp h
          exact List.forall_mem_cons.mpr ⟨hbyte, ih hterminated hrest⟩

theorem toNat_group (value : Nat) : (UInt8.ofNat (value % 128 + 128)).toNat = value % 128 + 128 := by
  rw [UInt8.toNat_ofNat']
  omega

theorem terminated_base128 (value : Nat) : Terminated (base128 value) := by
  induction value using base128.induct with
  | case1 value hsmall =>
      rw [base128_of_lt hsmall]
      change (UInt8.ofNat value).toNat < 128
      rw [UInt8.toNat_ofNat']
      omega
  | case2 value hlarge ih =>
      rw [base128_of_le (not_lt.mp hlarge), terminated_cons (base128_ne_nil _), toNat_group]
      exact ⟨Nat.le_add_left _ _, ih⟩

theorem numeral_base128 (value : Nat) : numeral (base128 value) = value := by
  induction value using base128.induct with
  | case1 value hsmall =>
      rw [base128_of_lt hsmall, numeral, numeral, UInt8.toNat_ofNat']
      omega
  | case2 value hlarge ih =>
      rw [base128_of_le (not_lt.mp hlarge), numeral, ih, toNat_group]
      omega

theorem length_base128_le (groups value : Nat) (h : value < 2 ^ (7 * (groups + 1))) :
    (base128 value).length ≤ groups + 1 := by
  induction groups generalizing value with
  | zero =>
      rw [base128_of_lt (by simpa using h)]
      simp
  | succ groups ih =>
      by_cases hsmall : value < 128
      · rw [base128_of_lt hsmall]
        simp
      · rw [base128_of_le (by omega), List.length_cons]
        have hnext : value / 128 < 2 ^ (7 * (groups + 1)) := by
          rw [Nat.div_lt_iff_lt_mul (by decide)]
          calc value < 2 ^ (7 * (groups + 1 + 1)) := h
            _ = 2 ^ (7 * (groups + 1)) * 128 := by rw [Nat.mul_add 7 (groups + 1), Nat.pow_add]
        have hle := ih (value / 128) hnext
        omega

theorem isVarint_base128 {value : Nat} (h : value < 2 ^ 64) : IsVarint value (base128 value) where
  terminated := terminated_base128 value
  length_le := length_base128_le 9 value (h.trans (by norm_num))
  value_eq := by rw [numeral_base128, Nat.mod_eq_of_lt h]

/-! ### Fields -/

inductive Value where
  | varint (value : UInt64)
  | fixed64 (payload : Vector UInt8 8)
  | bytes (payload : List UInt8)
  | fixed32 (value : UInt32)

namespace Value

def wire : Value → UInt8
  | varint _ => 0
  | fixed64 _ => 1
  | bytes _ => 2
  | fixed32 _ => 5

def encode : Value → List UInt8
  | varint value => base128 value.toNat
  | fixed64 payload => payload.toList
  | bytes payload => base128 payload.length ++ payload
  | fixed32 value => LittleEndian.ofUInt32 value

/-- The bytes stand for the value. -/
def Writes : Value → List UInt8 → Prop
  | varint value, written => IsVarint value.toNat written
  | fixed64 payload, written => written = payload.toList
  | bytes payload, written =>
      ∃ length, IsVarint payload.length length ∧ written = length ++ payload
  | fixed32 value, written => written = LittleEndian.ofUInt32 value

theorem writes_encode (value : Value) (hfits : value.encode.length < 2 ^ 64) :
    value.Writes value.encode := by
  cases value with
  | varint value => exact isVarint_base128 value.toNat_lt
  | fixed64 payload => rfl
  | bytes payload =>
      refine ⟨base128 payload.length, isVarint_base128 ?_, rfl⟩
      simp only [encode, List.length_append] at hfits
      omega
  | fixed32 value => rfl

theorem Writes.ne_nil {value : Value} {payload : List UInt8} (h : value.Writes payload) :
    payload ≠ [] := by
  cases value with
  | varint value => exact h.terminated.ne_nil
  | fixed64 bytes =>
      rintro rfl
      have hlength := congrArg List.length h
      simp at hlength
  | bytes bytes =>
      obtain ⟨length, hlength, rfl⟩ := h
      exact fun hnil => hlength.terminated.ne_nil (List.append_eq_nil_iff.mp hnil).1
  | fixed32 value =>
      rintro rfl
      cases h

theorem wire_lt (value : Value) : value.wire.toNat < 8 := by
  cases value <;> simp [wire]

end Value

structure Field where
  number : UInt32
  value : Value

namespace Field

def key (field : Field) : Nat := field.number.toNat * 8 + field.value.wire.toNat

def encode (field : Field) : List UInt8 := base128 field.key ++ field.value.encode

theorem key_lt (field : Field) : field.key < 2 ^ 64 := by
  have hnumber := field.number.toNat_lt
  have hwire := field.value.wire_lt
  unfold key
  omega

theorem length_encode_pos (field : Field) : 0 < field.encode.length := by
  have hkey := length_base128_pos field.key
  simp only [encode, List.length_append]
  omega

end Field

/-- A field as it is written. -/
structure WrittenField where
  field : Field
  key : List UInt8
  payload : List UInt8
  isKey : IsVarint field.key key
  isPayload : field.value.Writes payload

namespace WrittenField

def encode (written : WrittenField) : List UInt8 := written.key ++ written.payload

theorem length_encode_pos (written : WrittenField) : 0 < written.encode.length := by
  have hkey := List.length_pos_iff.mpr written.isKey.terminated.ne_nil
  simp only [encode, List.length_append]
  omega

end WrittenField

/-- The shortest way to write a field. -/
def Field.written (field : Field) (hfits : field.encode.length < 2 ^ 64) : WrittenField where
  field
  key := base128 field.key
  payload := field.value.encode
  isKey := isVarint_base128 field.key_lt
  isPayload := field.value.writes_encode (by
    simp only [encode, List.length_append] at hfits
    omega)

def encode (message : List Field) : List UInt8 := message.flatMap Field.encode

@[simp]
theorem encode_nil : encode [] = [] := rfl

@[simp]
theorem encode_cons (field : Field) (message : List Field) :
    encode (field :: message) = field.encode ++ encode message := rfl

@[simp]
theorem encode_append (left right : List Field) :
    encode (left ++ right) = encode left ++ encode right := by
  simp [encode]

/-- A message that fits in memory is written, field by field. -/
theorem exists_written (message : List Field) (hfits : (encode message).length < 2 ^ 64) :
    ∃ written : List WrittenField, written.flatMap WrittenField.encode = encode message ∧
      written.map WrittenField.field = message := by
  induction message with
  | nil => exact ⟨[], rfl, rfl⟩
  | cons field message ih =>
      rw [encode_cons, List.length_append] at hfits
      obtain ⟨written, hencode, hfields⟩ := ih (by omega)
      refine ⟨field.written (by omega) :: written, ?_, ?_⟩
      · rw [List.flatMap_cons, hencode]
        rfl
      · rw [List.map_cons, hfields]
        rfl

/-- Every field takes at least one byte. -/
theorem length_le_length_flatMap_encode (message : List WrittenField) :
    message.length ≤ (message.flatMap WrittenField.encode).length := by
  induction message with
  | nil => simp
  | cons written message ih =>
      have hpos := written.length_encode_pos
      simp only [List.length_cons, List.flatMap_cons, List.length_append]
      omega

/-- The bytes are the parts in order, with other fields before, between and behind them. -/
inductive Interleaved (other : WrittenField → Prop) : List (List UInt8) → List UInt8 → Prop where
  | nil : Interleaved other [] []
  | part {parts : List (List UInt8)} {bytes : List UInt8} (part : List UInt8)
      (h : Interleaved other parts bytes) : Interleaved other (part :: parts) (part ++ bytes)
  | other {parts : List (List UInt8)} {bytes : List UInt8} (written : WrittenField)
      (hother : other written) (h : Interleaved other parts bytes) :
      Interleaved other parts (written.encode ++ bytes)

theorem Interleaved.flatten (other : WrittenField → Prop) (parts : List (List UInt8)) :
    Interleaved other parts parts.flatten := by
  induction parts with
  | nil => exact .nil
  | cons part parts ih => exact .part part ih

end Wire
