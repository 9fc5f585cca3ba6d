import RkWhisper.Lib.Exceptions

/-!
# Tables that a program fills in

Lists of lists under the indices of a language that counts a negative index from the end. Here such
an index is a fault, as is one past the end. A table of fixed size is filled cell by cell with the
values of a function; what is known of it grows with each write.
-/

namespace Tables

variable {α : Type}

inductive Fault where
  | belowZero
  | outOfRange
deriving DecidableEq, Repr

/-- `xs[i]`. -/
def item (xs : List α) (i : Int) : Except Fault α :=
  if i < 0 then .error .belowZero
  else
    match xs[i.toNat]? with
    | some x => .ok x
    | none => .error .outOfRange

/-- `xs[i] = x`. -/
def setItem (xs : List α) (i : Int) (x : α) : Except Fault (List α) :=
  if i < 0 then .error .belowZero
  else if i.toNat < xs.length then .ok (xs.set i.toNat x)
  else .error .outOfRange

/-- `table[i][j]`. -/
def cell (table : List (List α)) (i j : Int) : Except Fault α := do
  item (← item table i) j

/-- `table[i][j] = x`. -/
def setCell (table : List (List α)) (i j : Int) (x : α) : Except Fault (List (List α)) := do
  setItem table i (← setItem (← item table i) j x)

def entry (table : List (List α)) (i j : Nat) : Option α := table[i]?.bind (·[j]?)

variable {table : List (List α)} {i j : Nat} {x : α}

theorem item_natCast {xs : List α} (h : xs[i]? = some x) : item xs i = .ok x := by
  rw [item, if_neg (Int.not_lt.mpr (Int.natCast_nonneg i)), Int.toNat_natCast, h]

theorem setItem_natCast {xs : List α} (h : i < xs.length) (x : α) :
    setItem xs i x = .ok (xs.set i x) := by
  rw [setItem, if_neg (Int.not_lt.mpr (Int.natCast_nonneg i)), Int.toNat_natCast, if_pos h]

theorem cell_natCast (h : entry table i j = some x) : cell table i j = .ok x := by
  obtain ⟨row, hrow, hitem⟩ := Option.bind_eq_some_iff.mp h
  rw [cell, item_natCast hrow, Except.ok_bind_eq, item_natCast hitem]

/-- A write changes one cell. -/
theorem exists_setCell (h : (entry table i j).isSome) (x : α) :
    ∃ table', setCell table i j x = .ok table' ∧
      ∀ a b, entry table' a b = if a = i ∧ b = j then some x else entry table a b := by
  obtain ⟨y, hy⟩ := Option.isSome_iff_exists.mp h
  obtain ⟨row, hrow, hitem⟩ := Option.bind_eq_some_iff.mp hy
  obtain ⟨hi, -⟩ := List.getElem?_eq_some_iff.mp hrow
  obtain ⟨hj, -⟩ := List.getElem?_eq_some_iff.mp hitem
  refine ⟨table.set i (row.set j x), ?_, fun a b => ?_⟩
  · rw [setCell, item_natCast hrow, Except.ok_bind_eq, setItem_natCast hj, Except.ok_bind_eq,
      setItem_natCast hi]
  · by_cases ha : a = i
    · subst ha
      rw [entry, List.getElem?_set_self hi, Option.bind_some, entry, hrow, Option.bind_some]
      by_cases hb : b = j
      · subst hb
        rw [List.getElem?_set_self hj, if_pos ⟨rfl, rfl⟩]
      · rw [List.getElem?_set_ne (Ne.symm hb), if_neg fun h => hb h.2]
    · rw [entry, List.getElem?_set_ne (Ne.symm ha), if_neg fun h => ha h.1, entry]

/-- A table of `rows` and `cols` that holds `value` in the cells that are known. -/
def Filled (rows cols : Nat) (value : Nat → Nat → α) (known : Nat → Nat → Prop)
    (table : List (List α)) : Prop :=
  ∀ i < rows, ∀ j < cols, ∃ x, entry table i j = some x ∧ (known i j → x = value i j)

variable {rows cols : Nat} {value : Nat → Nat → α} {known known' : Nat → Nat → Prop}

theorem Filled.mono (h : Filled rows cols value known table)
    (hknown : ∀ i < rows, ∀ j < cols, known' i j → known i j) :
    Filled rows cols value known' table := by
  intro i hi j hj
  obtain ⟨x, hx, hvalue⟩ := h i hi j hj
  exact ⟨x, hx, fun h => hvalue (hknown i hi j hj h)⟩

theorem filled_replicate (x : α) : Filled rows cols value (fun _ _ => False)
    (List.replicate rows (List.replicate cols x)) := by
  intro i hi j hj
  refine ⟨x, ?_, False.elim⟩
  rw [entry, List.getElem?_replicate, if_pos hi, Option.bind_some, List.getElem?_replicate,
    if_pos hj]

/-- A known cell can be read. -/
theorem Filled.cell (h : Filled rows cols value known table) (hi : i < rows) (hj : j < cols)
    (hknown : known i j) : cell table i j = .ok (value i j) := by
  obtain ⟨x, hx, hvalue⟩ := h i hi j hj
  rw [cell_natCast hx, hvalue hknown]

/-- **A cell that is filled in is known, and nothing is forgotten.** -/
theorem Filled.set (h : Filled rows cols value known table) (hi : i < rows) (hj : j < cols) :
    ∃ table', setCell table i j (value i j) = .ok table' ∧
      Filled rows cols value (fun a b => known a b ∨ a = i ∧ b = j) table' := by
  obtain ⟨y, hy, -⟩ := h i hi j hj
  obtain ⟨table', hset, hentry⟩ := exists_setCell (Option.isSome_of_eq_some hy) (value i j)
  refine ⟨table', hset, fun a ha b hb => ?_⟩
  rw [hentry]
  by_cases hcell : a = i ∧ b = j
  · obtain ⟨rfl, rfl⟩ := hcell
    exact ⟨value a b, if_pos ⟨rfl, rfl⟩, fun _ => rfl⟩
  · obtain ⟨x, hx, hvalue⟩ := h a ha b hb
    rw [if_neg hcell]
    exact ⟨x, hx, fun hknown => hvalue (hknown.resolve_right hcell)⟩

end Tables
