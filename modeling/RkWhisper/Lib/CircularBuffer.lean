import Mathlib.Tactic

/-!
# Circular buffers

A memory is a function from addresses to cells. A circular buffer of `capacity` cells is addressed
by offsets that only grow: the cell of offset `i` is `i % capacity`. `slice` is what a program
reads from consecutive addresses and `overwrite` what it writes there; `window` is the logical view,
a stretch of consecutive offsets.
-/

namespace CircularBuffer

variable {α : Type*}

/-- The cells at the addresses `[offset, offset + count)`. -/
def slice (memory : Nat → α) (offset count : Nat) : List α :=
  (List.range count).map fun i => memory (offset + i)

/-- The memory after `data` has been copied to the addresses from `offset` on. -/
def overwrite (memory : Nat → α) (offset : Nat) (data : List α) : Nat → α :=
  fun address =>
    if h : offset ≤ address ∧ address - offset < data.length then
      data.get ⟨address - offset, h.2⟩
    else memory address

/-- The cells of the offsets `[low, low + count)`. -/
def window (memory : Nat → α) (capacity low count : Nat) : List α :=
  (List.range count).map fun i => memory ((low + i) % capacity)

variable {memory : Nat → α} {capacity low high count : Nat} {data : List α}

@[simp]
theorem length_slice (memory : Nat → α) (offset count : Nat) :
    (slice memory offset count).length = count := by
  simp [slice]

@[simp]
theorem length_window (memory : Nat → α) (capacity low count : Nat) :
    (window memory capacity low count).length = count := by
  simp [window]

@[simp]
theorem window_zero (memory : Nat → α) (capacity low : Nat) :
    window memory capacity low 0 = [] := rfl

@[simp]
theorem slice_zero (memory : Nat → α) (offset : Nat) : slice memory offset 0 = [] := rfl

theorem window_add (memory : Nat → α) (capacity low count more : Nat) :
    window memory capacity low (count + more) =
      window memory capacity low count ++ window memory capacity (low + count) more := by
  simp [window, List.range_add, Nat.add_assoc, Function.comp_def]

theorem take_window (memory : Nat → α) (capacity low : Nat) {some count : Nat}
    (h : some ≤ count) :
    (window memory capacity low count).take some = window memory capacity low some := by
  obtain ⟨rest, rfl⟩ := Nat.exists_eq_add_of_le h
  rw [window_add, List.take_left' (length_window ..)]

theorem drop_window (memory : Nat → α) (capacity low : Nat) {some count : Nat}
    (h : some ≤ count) :
    (window memory capacity low count).drop some =
      window memory capacity (low + some) (count - some) := by
  obtain ⟨rest, rfl⟩ := Nat.exists_eq_add_of_le h
  rw [window_add, List.drop_left' (length_window ..), Nat.add_sub_cancel_left]

theorem add_mod_of_lt {i : Nat} (h : low % capacity + i < capacity) :
    (low + i) % capacity = low % capacity + i := by
  have hi : i % capacity = i := Nat.mod_eq_of_lt (by omega)
  rw [Nat.add_mod, hi, Nat.mod_eq_of_lt h]

/-- A stretch that does not reach the end of the memory is consecutive there. -/
theorem slice_mod (h : low % capacity + count ≤ capacity) :
    slice memory (low % capacity) count = window memory capacity low count := by
  apply List.map_congr_left
  intro i hi
  rw [List.mem_range] at hi
  rw [add_mod_of_lt (by omega)]

theorem add_sub_mod_mod (hcapacity : 0 < capacity) (low : Nat) :
    (low + (capacity - low % capacity)) % capacity = 0 := by
  have hlt := Nat.mod_lt low hcapacity
  have hsplit := Nat.mod_add_div low capacity
  have hround : low + (capacity - low % capacity) = capacity * (low / capacity + 1) := by
    rw [Nat.mul_add]
    omega
  rw [hround, Nat.mul_mod_right]

/-- **Reading in two pieces.** A stretch of at most `capacity` offsets is what the slice up to the
end of the memory and the slice from its start hold. -/
theorem slice_append_slice (hcapacity : 0 < capacity) (hcount : count ≤ capacity) :
    slice memory (low % capacity) (min count (capacity - low % capacity)) ++
        slice memory 0 (count - min count (capacity - low % capacity)) =
      window memory capacity low count := by
  have hlt := Nat.mod_lt low hcapacity
  by_cases hwrap : count ≤ capacity - low % capacity
  · rw [min_eq_left hwrap, Nat.sub_self, slice_zero, List.append_nil, slice_mod (by omega)]
  · have hfirst : min count (capacity - low % capacity) = capacity - low % capacity := by omega
    have hstart := add_sub_mod_mod hcapacity low
    have hsecond : slice memory 0 (count - (capacity - low % capacity)) =
        window memory capacity (low + (capacity - low % capacity))
          (count - (capacity - low % capacity)) := by
      rw [← hstart]
      exact slice_mod (by omega)
    rw [hfirst, hsecond, slice_mod (by omega), ← window_add]
    congr 1
    omega

theorem overwrite_of_lt {address offset : Nat} (h : address < offset) :
    overwrite memory offset data address = memory address := by
  simp only [overwrite]
  rw [dif_neg (by omega)]

theorem overwrite_of_le {address offset : Nat} (h : offset + data.length ≤ address) :
    overwrite memory offset data address = memory address := by
  simp only [overwrite]
  rw [dif_neg (by omega)]

theorem overwrite_add {offset i : Nat} (h : i < data.length) :
    overwrite memory offset data (offset + i) = data[i] := by
  simp [overwrite, h]

/-- Offsets less than a round apart have different cells. -/
theorem mod_ne_mod {i j : Nat} (hlt : i < j) (hround : j < i + capacity) :
    i % capacity ≠ j % capacity := by
  intro heq
  have hdvd : capacity ∣ j - i := (Nat.modEq_iff_dvd' hlt.le).mp heq
  have hle := Nat.le_of_dvd (by omega) hdvd
  omega

/-- **Writing a piece.** A write that does not pass the end of the memory is what the view shows
from there on. -/
theorem window_overwrite (memory : Nat → α) (data : List α)
    (hend : high % capacity + data.length ≤ capacity) :
    window (overwrite memory (high % capacity) data) capacity high data.length = data := by
  apply List.ext_getElem (length_window ..)
  intro i _ hi
  simp only [window, List.getElem_map, List.getElem_range]
  rw [add_mod_of_lt (by omega)]
  exact overwrite_add hi

/-- A write that ends within a round of `low` leaves the view from `low` up to it as it was. -/
theorem window_overwrite_before (memory : Nat → α) (data : List α)
    (hlow : low + count ≤ high)
    (hround : high + data.length ≤ low + capacity)
    (hend : high % capacity + data.length ≤ capacity) :
    window (overwrite memory (high % capacity) data) capacity low count =
      window memory capacity low count := by
  apply List.map_congr_left
  intro i hi
  rw [List.mem_range] at hi
  by_cases hempty : data.length = 0
  · exact dif_neg (by omega)
  -- No offset of the view shares its cell with an offset that is written.
  have hother : ∀ k < data.length, (low + i) % capacity ≠ high % capacity + k := by
    intro k hk heq
    rw [← add_mod_of_lt (by omega)] at heq
    exact mod_ne_mod (by omega) (by omega) heq
  by_cases hbefore : (low + i) % capacity < high % capacity
  · exact overwrite_of_lt hbefore
  · apply overwrite_of_le
    by_contra hinside
    exact hother ((low + i) % capacity - high % capacity) (by omega) (by omega)

end CircularBuffer
