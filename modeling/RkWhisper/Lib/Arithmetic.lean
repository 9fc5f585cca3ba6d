import Mathlib.Tactic

/-!
# Arithmetic left open

The operations of a number format that a program computes with. What they round to, and how the
numbers compare that are no numbers, is a parameter; `exact` is the arithmetic of an ordered field.
-/

structure Arithmetic (F : Type) where
  /-- The number nearest to a literal or an integer. -/
  literal : ℚ → F
  negInfinity : F
  add : F → F → F
  sub : F → F → F
  mul : F → F → F
  div : F → F → F
  max : F → F → F
  powf : F → F → F
  exp : F → F
  ln : F → F
  sum : List F → F
  /-- The cast, which saturates. -/
  toU32 : F → UInt32
  partialCmp : F → F → Option Ordering

namespace Arithmetic

variable {F : Type}

/-- What cannot be compared counts as equal. -/
def compare (A : Arithmetic F) (a b : F) : Ordering := (A.partialCmp a b).getD .eq

def gt (A : Arithmetic F) (a b : F) : Bool := A.partialCmp a b = some .gt

/-- The functions that a field does not have. -/
structure Functions (F : Type) where
  negInfinity : F
  powf : F → F → F
  exp : F → F
  ln : F → F
  toU32 : F → UInt32

variable [Field F] [LinearOrder F]

def exact (functions : Functions F) : Arithmetic F where
  literal q := q
  negInfinity := functions.negInfinity
  add a b := a + b
  sub a b := a - b
  mul a b := a * b
  div a b := a / b
  max a b := a ⊔ b
  powf := functions.powf
  exp := functions.exp
  ln := functions.ln
  sum := List.sum
  toU32 := functions.toU32
  partialCmp a b := some (Ord.compare a b)

variable (functions : Functions F) (a b : F)

@[simp]
theorem exact_compare : (exact functions).compare a b = Ord.compare a b := rfl

theorem exact_compare_isLE : ((exact functions).compare a b).isLE ↔ a ≤ b := by
  rw [exact_compare, Ordering.isLE_iff_ne_gt]
  exact compare_le_iff_le

theorem exact_gt : (exact functions).gt a b = true ↔ b < a := by
  rw [gt, decide_eq_true_iff]
  exact Option.some_inj.trans compare_gt_iff_gt

instance : Std.TransCmp (exact functions).compare :=
  inferInstanceAs (Std.TransCmp (Ord.compare : F → F → Ordering))

end Arithmetic
