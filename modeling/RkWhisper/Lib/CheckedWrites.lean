import RkWhisper.Lib.BlockedLayout
import RkWhisper.Lib.CheckedArithmetic

/-!
# Loops of checked copies

A program that copies the entries of one slice to the cells of another, one a round. Where every
entry and every cell is in range the loop goes through, and it is a scatter. So is the loop that
reads a table column by column, which is stored row by row.
-/

namespace Checked

open BlockedLayout

variable {ι κ α : Type} {n : Nat}

/-- `cells[index] = x`. -/
def write (cells : Vector α n) (index : Nat) (x : α) : Except Fault (Vector α n) :=
  if h : index < n then .ok (cells.set index x) else .error .outOfRange

/-- `cells[target] = data[source]`. -/
def copy (data : List α) (cells : Vector α n) (source target : Nat) :
    Except Fault (Vector α n) := do
  write cells target (← index data source)

theorem copy_eq_ok {data : List α} {source : Nat} {x : α} (h : data[source]? = some x)
    (cell : Fin n) (cells : Vector α n) :
    copy data cells source cell = .ok (cells.set cell x cell.isLt) := by
  rw [copy, index_of_getElem? h, Except.ok_bind_eq]
  exact dif_pos cell.isLt

/-- A loop in a loop is one loop over the pairs. -/
theorem foldlM_foldlM {ε σ : Type} (step : σ → ι × κ → Except ε σ) (outer : List ι)
    (inner : List κ) (s : σ) :
    outer.foldlM (fun s i => inner.foldlM (fun s k => step s (i, k)) s) s =
      (outer ×ˢ inner).foldlM step s := by
  induction outer generalizing s with
  | nil => rfl
  | cons i outer ih =>
      rw [List.foldlM_cons, List.product_cons, List.foldlM_append, List.foldlM_map]
      simp only [ih]

/-- **A loop of copies that are all in range is a scatter.** -/
theorem foldlM_copy_eq_ok {data : List α} {indices : List ι} {source target : ι → Nat}
    {cell : ι → Fin n} {value : ι → α}
    (hsource : ∀ i ∈ indices, data[source i]? = some (value i))
    (htarget : ∀ i ∈ indices, target i = cell i) (cells : Vector α n) :
    indices.foldlM (fun cells i => copy data cells (source i) (target i)) cells =
      .ok (scatter cell value indices cells) := by
  apply Except.foldlM_eq_ok
  intro i hi cells
  rw [htarget i hi]
  exact copy_eq_ok (hsource i hi) (cell i) cells

/-! ### Columns of a table -/

/-- Column by column, `data[row * cols + col]` is moved to `col * rows + row`. -/
def transpose (rows cols : Nat) (data : List α) (cells : Vector α n) : Except Fault (Vector α n) :=
  (List.finRange cols).foldlM (fun cells (col : Fin cols) =>
    (List.finRange rows).foldlM (fun cells (row : Fin rows) =>
      copy data cells (row * cols + col) (col * rows + row)) cells) cells

variable {rows cols : Nat}

/-- Where an entry is moved to. -/
def columnCell (hn : n = rows * cols) (entry : Fin cols × Fin rows) : Fin n :=
  ⟨entry.1 * rows + entry.2, by
    calc (entry.1 * rows + entry.2 : Nat) < cols * rows := mul_add_lt entry.1.isLt entry.2.isLt
      _ = n := (Nat.mul_comm cols rows).trans hn.symm⟩

theorem columnCell_injective (hn : n = rows * cols) :
    Function.Injective (columnCell hn) := by
  rintro ⟨col, row⟩ ⟨col', row'⟩ heq
  obtain ⟨hcol, hrow⟩ := mul_add_inj row.isLt row'.isLt (Fin.ext_iff.mp heq)
  exact Prod.ext (Fin.ext hcol) (Fin.ext hrow)

/-- **A transposition is in range, and loses no entry.** -/
theorem exists_transpose {data : List α} (hdata : data.length = rows * cols) (hn : n = rows * cols)
    (cells : Vector α n) : ∃ moved, transpose rows cols data cells = .ok moved ∧
      ∀ row < rows, ∀ col < cols, moved[col * rows + row]? = data[row * cols + col]? := by
  have hentry (row : Fin rows) (col : Fin cols) : row * cols + col < data.length := by
    rw [hdata]
    exact mul_add_lt row.isLt col.isLt
  let value (entry : Fin cols × Fin rows) : α := data.get ⟨entry.2 * cols + entry.1, hentry _ _⟩
  let indices := List.finRange cols ×ˢ List.finRange rows
  have hcopies : transpose rows cols data cells =
      .ok (scatter (columnCell hn) value indices cells) := by
    refine (foldlM_foldlM (fun cells (entry : Fin cols × Fin rows) =>
      copy data cells (entry.2 * cols + entry.1) (entry.1 * rows + entry.2)) _ _ cells).trans ?_
    apply foldlM_copy_eq_ok
    · exact fun entry _ => List.getElem?_eq_getElem (hentry _ _)
    · exact fun _ _ => rfl
  refine ⟨_, hcopies, fun row hrow col hcol => ?_⟩
  let entry : Fin cols × Fin rows := (⟨col, hcol⟩, ⟨row, hrow⟩)
  have hmem : entry ∈ indices :=
    List.mem_product.mpr ⟨List.mem_finRange _, List.mem_finRange _⟩
  rw [List.getElem?_eq_getElem (hentry entry.2 entry.1), Vector.getElem?_eq_some_iff]
  exact ⟨(columnCell hn entry).isLt, get_scatter_of_mem (columnCell_injective hn) hmem cells⟩

end Checked
