import Mathlib.Tactic

/-!
# Taking turns

A cursor goes round the positions below `size` and stops behind the first that suits. A position that
suits all the while is passed over at most once by each of the others.
-/

namespace RoundRobin

variable {size cursor position : ℕ}

/-- How many positions are looked at before `position`. -/
def distance (size cursor position : ℕ) : ℕ := (position + size - cursor % size) % size

theorem distance_eq (hlt : position < size) : distance size cursor position =
    if cursor % size ≤ position then position - cursor % size
    else position + size - cursor % size := by
  have hcursor : cursor % size < size := Nat.mod_lt _ (by omega)
  rw [distance]
  split
  · have hwrap : position + size - cursor % size = position - cursor % size + size := by omega
    rw [hwrap, Nat.add_mod_right, Nat.mod_eq_of_lt (by omega)]
  · rw [Nat.mod_eq_of_lt (by omega)]

theorem distance_lt (hlt : position < size) : distance size cursor position < size :=
  Nat.mod_lt _ (by omega)

theorem succ_mod (hpos : 0 < size) : (cursor + 1) % size =
    if cursor % size + 1 = size then 0 else cursor % size + 1 := by
  have hcursor : cursor % size < size := Nat.mod_lt _ hpos
  rw [← Nat.mod_add_mod]
  split
  · rename_i hend
    rw [hend, Nat.mod_self]
  · rw [Nat.mod_eq_of_lt (by omega)]

/-- The cursor comes nearer to every position but the one it leaves. -/
theorem distance_succ (hlt : position < size) (hne : cursor % size ≠ position) :
    distance size ((cursor + 1) % size) position + 1 = distance size cursor position := by
  have hcursor : cursor % size < size := Nat.mod_lt _ (by omega)
  rw [distance_eq hlt, distance_eq hlt, Nat.mod_mod, succ_mod (by omega)]
  split_ifs <;> omega

/-- At most `rounds` positions from the cursor on, round about, for one that suits. -/
def scan (suits : ℕ → Bool) (size : ℕ) : ℕ → ℕ → Option ℕ × ℕ
  | 0, cursor => (none, cursor)
  | rounds + 1, cursor =>
      if suits (cursor % size) then (some (cursor % size), (cursor + 1) % size)
      else scan suits size rounds ((cursor + 1) % size)

/-- **A turn.** Where `position` suits, something is found: `position` itself, or another, and then
the cursor is nearer to `position` than before. -/
theorem scan_of_suits {suits : ℕ → Bool} (hlt : position < size)
    (hsuits : suits position = true) {rounds : ℕ} (hrounds : distance size cursor position < rounds) :
    ∃ idx cursor', scan suits size rounds cursor = (some idx, cursor') ∧ suits idx = true ∧
      cursor' < size ∧
      (idx ≠ position → distance size cursor' position < distance size cursor position) := by
  have hpos : 0 < size := by omega
  induction rounds generalizing cursor with
  | zero => exact absurd hrounds (Nat.not_lt_zero _)
  | succ rounds ih =>
      rw [scan]
      split
      · rename_i hfound
        refine ⟨_, _, rfl, hfound, Nat.mod_lt _ hpos, fun hne => ?_⟩
        have hnearer := distance_succ hlt hne
        omega
      · rename_i hmissed
        have hne : cursor % size ≠ position := by
          rintro rfl
          exact hmissed hsuits
        have hnearer := distance_succ hlt hne
        obtain ⟨idx, cursor', hscan, hidx, hcursor', hcloser⟩ :=
          @ih ((cursor + 1) % size) (by omega)
        refine ⟨idx, cursor', hscan, hidx, hcursor', fun hother => ?_⟩
        have hless := hcloser hother
        omega

/-! ### Positions that come and go -/

/-- A bound on the distance that goes on holding when positions are added; once positions have gone,
the cursor may lie past all of them, and nothing is known until the next turn. -/
def wait (size cursor position : ℕ) : ℕ :=
  if cursor ≤ size then distance size cursor position else size - 1

theorem distance_le_wait (hlt : position < size) :
    distance size cursor position ≤ wait size cursor position := by
  have hbelow : distance size cursor position < size := distance_lt hlt
  rw [wait]
  split <;> omega

theorem wait_lt (hlt : position < size) : wait size cursor position < size := by
  have hbelow : distance size cursor position < size := distance_lt hlt
  rw [wait]
  split <;> omega

theorem wait_of_lt (hcursor : cursor < size) :
    wait size cursor position = distance size cursor position :=
  if_pos hcursor.le

theorem wait_grow (hlt : position < size) :
    wait (size + 1) cursor position ≤ wait size cursor position + 1 := by
  by_cases hcursor : cursor ≤ size
  · have hgrown : position < size + 1 := by omega
    have hmod : cursor % (size + 1) = cursor := Nat.mod_eq_of_lt (by omega)
    rw [wait, if_pos (by omega), wait, if_pos hcursor, distance_eq hgrown, distance_eq hlt, hmod]
    obtain hbelow | rfl := hcursor.lt_or_eq
    · rw [Nat.mod_eq_of_lt hbelow]
      split <;> omega
    · rw [Nat.mod_self, if_neg (by omega), if_pos (Nat.zero_le _)]
      omega
  · have hbelow : wait (size + 1) cursor position < size + 1 := wait_lt (by omega)
    have hpast : wait size cursor position = size - 1 := if_neg hcursor
    omega

end RoundRobin
