import Mathlib.Tactic

/-!
# Binary32 numbers as bit patterns

A value is its 32 bits, so that NaN payloads and signed zeros are kept apart. Only what exact
integer arithmetic can state is here: the order, with its unordered NaNs, and the correctly rounded
(to nearest, ties to even) quotient of two integers, from which the conversion of an integer and
the division of finite numbers follow.
-/

structure F32 where
  bits : UInt32
deriving DecidableEq

namespace F32

def signBit (x : F32) : Bool := 2 ^ 31 ≤ x.bits.toNat

/-- Exponent and fraction fields together: the magnitudes are ordered as these integers are. -/
def magnitude (x : F32) : Nat := x.bits.toNat % 2 ^ 31

def infinityMagnitude : Nat := 0x7f800000

def isNaN (x : F32) : Bool := infinityMagnitude < x.magnitude

/-- The order key of a number that is not a NaN; both zeros have key `0`. -/
def key (x : F32) : Int := if x.signBit then -(x.magnitude : Int) else x.magnitude

/-- `x >= y` as the processor decides it: false as soon as one side is a NaN. -/
def ge (x y : F32) : Bool := !x.isNaN && !y.isNaN && decide (y.key ≤ x.key)

def ofMagnitude (negative : Bool) (magnitude : Nat) : F32 :=
  ⟨UInt32.ofNat ((if negative then 2 ^ 31 else 0) + magnitude % 2 ^ 31)⟩

/-- The integer nearest to `num / den`, the even one of two equally near. -/
def roundHalfEven (num den : Nat) : Nat :=
  let quotient := num / den
  let remainder := num % den
  if den < 2 * remainder ∨ (2 * remainder = den ∧ quotient % 2 = 1) then quotient + 1 else quotient

/-- The exponent `e` with `2 ^ e ≤ num / den < 2 ^ (e + 1)`. -/
def binaryExponent (num den : Nat) : Int :=
  let estimate : Int := (Nat.log2 num : Int) - Nat.log2 den
  let fits : Bool :=
    if 0 ≤ estimate then den * 2 ^ estimate.toNat ≤ num else den ≤ num * 2 ^ (-estimate).toNat
  if fits then estimate else estimate - 1

/-- The binary32 number nearest to `± num / den`. A carry out of the 24-bit significand moves into
the exponent field by itself, and a magnitude past the largest finite number is the infinity. -/
def ofRatio (negative : Bool) (num den : Nat) : F32 :=
  if num = 0 then ofMagnitude negative 0
  else
    let exponent := max (binaryExponent num den) (-126)
    let scale := 23 - exponent
    let significand :=
      if 0 ≤ scale then roundHalfEven (num * 2 ^ scale.toNat) den
      else roundHalfEven num (den * 2 ^ (-scale).toNat)
    ofMagnitude negative (min ((exponent + 126).toNat * 2 ^ 23 + significand) infinityMagnitude)

/-- `n as f32`. -/
def ofNat (n : Nat) : F32 := ofRatio false n 1

def ofInt (n : Int) : F32 := ofRatio (n < 0) n.natAbs 1

/-- The significand and the exponent of a finite number: its magnitude is `m * 2 ^ (e - 149)`. -/
def significand (x : F32) : Nat × Nat :=
  let exponentField := x.magnitude / 2 ^ 23
  let fraction := x.magnitude % 2 ^ 23
  if exponentField = 0 then (fraction, 0) else (fraction + 2 ^ 23, exponentField - 1)

/-- `x / y` for finite `x` and finite nonzero `y`. -/
def divFinite (x y : F32) : F32 :=
  ofRatio (x.signBit != y.signBit) (x.significand.1 * 2 ^ x.significand.2)
    (y.significand.1 * 2 ^ y.significand.2)

end F32
