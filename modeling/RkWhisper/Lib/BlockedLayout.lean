import Mathlib.Tactic

/-!
# Blocked layouts

A table of channels, rows and columns whose channels are stored in blocks: the lanes of a block lie
side by side, and the last block is padded. Distinct entries have distinct cells, and each cell
belongs to an entry or to a lane of padding. A loop that writes to distinct cells leaves in each of
them what it wrote there, and the other cells as they were.
-/

namespace BlockedLayout

variable {lanes channels rows cols channel row col : Nat}

/-! ### Cells -/

/-- The number of blocks. -/
def blocks (lanes channels : Nat) : Nat := (channels + lanes - 1) / lanes

/-- The number of cells. -/
def size (lanes channels rows cols : Nat) : Nat := blocks lanes channels * rows * cols * lanes

/-- The cell of an entry. -/
def address (lanes rows cols channel row col : Nat) : Nat :=
  ((channel / lanes * rows + row) * cols + col) * lanes + channel % lanes

theorem lt_blocks_mul (hlanes : 0 < lanes) (h : channel < channels) :
    channel < blocks lanes channels * lanes := by
  have hdiv := Nat.div_add_mod (channels + lanes - 1) lanes
  have hmod := Nat.mod_lt (channels + lanes - 1) hlanes
  rw [blocks, Nat.mul_comm]
  omega

theorem mul_add_lt {m n i j : Nat} (hi : i < m) (hj : j < n) : i * n + j < m * n := by
  calc i * n + j < i * n + n := Nat.add_lt_add_left hj _
    _ = (i + 1) * n := (Nat.succ_mul i n).symm
    _ ≤ m * n := Nat.mul_le_mul_right n hi

theorem address_lt (hlanes : 0 < lanes) (hchannel : channel < blocks lanes channels * lanes)
    (hrow : row < rows) (hcol : col < cols) :
    address lanes rows cols channel row col < size lanes channels rows cols := by
  have hblock : channel / lanes < blocks lanes channels := (Nat.div_lt_iff_lt_mul hlanes).mpr hchannel
  exact mul_add_lt (mul_add_lt (mul_add_lt hblock hrow) hcol) (Nat.mod_lt _ hlanes)

theorem mul_add_inj {n i j i' j' : Nat} (hj : j < n) (hj' : j' < n)
    (h : i * n + j = i' * n + j') : i = i' ∧ j = j' := by
  have hn : 0 < n := by omega
  have hdiv := congrArg (· / n) h
  simp only [Nat.mul_comm _ n, Nat.mul_add_div hn, Nat.div_eq_of_lt hj, Nat.div_eq_of_lt hj',
    Nat.add_zero] at hdiv
  subst hdiv
  exact ⟨rfl, Nat.add_left_cancel h⟩

/-- **No two entries share a cell.** -/
theorem address_inj {channel' row' col' : Nat} (hlanes : 0 < lanes) (hrow : row < rows)
    (hcol : col < cols) (hrow' : row' < rows) (hcol' : col' < cols)
    (h : address lanes rows cols channel row col = address lanes rows cols channel' row' col') :
    channel = channel' ∧ row = row' ∧ col = col' := by
  obtain ⟨hcell, hlane⟩ := mul_add_inj (Nat.mod_lt _ hlanes) (Nat.mod_lt _ hlanes) h
  obtain ⟨hline, hcolumn⟩ := mul_add_inj hcol hcol' hcell
  obtain ⟨hblock, hrows⟩ := mul_add_inj hrow hrow' hline
  refine ⟨?_, hrows, hcolumn⟩
  rw [← Nat.div_add_mod channel lanes, hblock, hlane, Nat.div_add_mod]

/-! ### Writing -/

section Writing

variable {ι κ α : Type*} {n : Nat}

/-- A loop over `indices` that writes one cell a round. -/
def scatter (cell : ι → Fin n) (value : ι → α) (indices : List ι) (cells : Vector α n) :
    Vector α n :=
  indices.foldl (fun cells i => cells.set (cell i) (value i)) cells

/-- A loop in a loop is one loop over the pairs. -/
theorem foldl_foldl_eq_scatter (cell : ι × κ → Fin n) (value : ι × κ → α) (outer : List ι)
    (inner : List κ) (cells : Vector α n) :
    outer.foldl (fun cells i => inner.foldl (fun cells k => cells.set (cell (i, k)) (value (i, k)))
      cells) cells = scatter cell value (outer ×ˢ inner) cells := by
  induction outer generalizing cells with
  | nil => rfl
  | cons i outer ih =>
      rw [List.foldl_cons, ih, List.product_cons, scatter, scatter, List.foldl_append,
        List.foldl_map]

variable {cell : ι → Fin n} {value : ι → α} {indices : List ι}

theorem get_set (cells : Vector α n) (i j : Fin n) (x : α) :
    (cells.set i x).get j = if i = j then x else cells.get j :=
  (Vector.getElem_set i.isLt j.isLt).trans (if_congr Fin.ext_iff.symm rfl rfl)

theorem get_scatter_of_forall_ne {j : Fin n} (h : ∀ i ∈ indices, cell i ≠ j) (cells : Vector α n) :
    (scatter cell value indices cells).get j = cells.get j := by
  induction indices generalizing cells with
  | nil => rfl
  | cons i indices ih =>
      rw [List.forall_mem_cons] at h
      rw [scatter, List.foldl_cons, ← scatter, ih h.2, get_set, if_neg h.1]

theorem get_scatter_of_mem (hinj : Function.Injective cell) {i : ι} (h : i ∈ indices)
    (cells : Vector α n) : (scatter cell value indices cells).get (cell i) = value i := by
  induction indices generalizing cells with
  | nil => cases h
  | cons first indices ih =>
      rw [scatter, List.foldl_cons, ← scatter]
      by_cases hmem : i ∈ indices
      · exact ih hmem _
      · obtain rfl : i = first := (List.mem_cons.mp h).resolve_right hmem
        have hne : ∀ k ∈ indices, cell k ≠ cell i := by
          intro k hk heq
          exact hmem (hinj heq ▸ hk)
        rw [get_scatter_of_forall_ne hne, get_set, if_pos rfl]

end Writing

end BlockedLayout
