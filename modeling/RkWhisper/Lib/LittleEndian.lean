import Mathlib.Tactic

/-!
# Little-endian integers

Fixed-width integers as byte lists, least significant byte first.
-/

namespace LittleEndian

/-- The four bytes of a 32-bit integer. -/
def ofUInt32 (value : UInt32) : List UInt8 :=
  [UInt8.ofNat value.toNat, UInt8.ofNat (value.toNat / 2 ^ 8), UInt8.ofNat (value.toNat / 2 ^ 16),
    UInt8.ofNat (value.toNat / 2 ^ 24)]

/-- The integer a byte list stands for. -/
def toNat : List UInt8 → Nat
  | [] => 0
  | byte :: bytes => byte.toNat + 256 * toNat bytes

def toUInt32 (bytes : List UInt8) : UInt32 := UInt32.ofNat (toNat bytes)

@[simp]
theorem length_ofUInt32 (value : UInt32) : (ofUInt32 value).length = 4 := rfl

@[simp]
theorem toUInt32_ofUInt32 (value : UInt32) : toUInt32 (ofUInt32 value) = value := by
  have hlt := value.toNat_lt
  apply UInt32.toNat_inj.mp
  simp only [toUInt32, ofUInt32, toNat, UInt32.toNat_ofNat', UInt8.toNat_ofNat']
  omega

theorem toNat_ofUInt32_lt (value : UInt32) : toNat (ofUInt32 value) < 2 ^ 32 := by
  have hlt := value.toNat_lt
  simp only [ofUInt32, toNat, UInt8.toNat_ofNat']
  omega

end LittleEndian
