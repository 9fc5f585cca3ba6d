import Mathlib.Tactic

/-!
# Strides

The stretch `[0, length)` cut into pieces of `step`, of which the last may be shorter.
-/

namespace Stride

variable {step length : Nat}

/-- The number of pieces. -/
def count (step length : Nat) : Nat := (length + step - 1) / step

/-- Where the pieces begin. -/
def starts (step length : Nat) : List Nat := (List.range (count step length)).map (· * step)

def piece (step length index : Nat) : Nat × Nat :=
  (index * step, min (index * step + step) length)

@[simp]
theorem length_starts (step length : Nat) : (starts step length).length = count step length := by
  rw [starts, List.length_map, List.length_range]

theorem getElem?_starts {index : Nat} (h : index < count step length) :
    (starts step length)[index]? = some (index * step) := by
  rw [starts, List.getElem?_map, List.getElem?_range h, Option.map_some]

theorem lt_count_iff (hstep : 0 < step) {index : Nat} :
    index < count step length ↔ index * step < length := by
  rw [count, Nat.lt_iff_add_one_le, Nat.le_div_iff_mul_le hstep, Nat.add_mul, Nat.one_mul]
  omega

/-- As many pieces as it takes to reach the end, none of them empty. -/
theorem count_eq (hstep : 0 < step) {n : Nat} (hinside : ∀ index < n, index * step < length)
    (hend : length ≤ n * step) : count step length = n := by
  apply Nat.le_antisymm
  · by_contra hlt
    have hbegin := (lt_count_iff hstep).mp (not_le.mp hlt)
    omega
  · cases n with
    | zero => exact Nat.zero_le _
    | succ n =>
        have hlast := (lt_count_iff hstep).mpr (hinside n n.lt_succ_self)
        omega

/-- A piece that is whole does not change when the stretch gets longer. -/
theorem piece_of_le {index more : Nat} (h : index * step + step ≤ length) :
    piece step (length + more) index = piece step length index := by
  rw [piece, piece, min_eq_left h, min_eq_left (by omega)]

end Stride
