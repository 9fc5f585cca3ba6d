import RkWhisper.Lib.Arithmetic
import RkWhisper.Lib.SliceSort

/-!
# Laws of a number format

What a format with infinities and with values that are no numbers promises: its numbers are ordered,
rounding never takes a result across zero or across an operand, and an infinity is beyond every
finite number. Every ordered field keeps the laws, where it has the functions.
-/

namespace Arithmetic

variable {F : Type}

/-- The comparison of numbers. It is false at what is no number. -/
def le (A : Arithmetic F) (a b : F) : Prop :=
  A.partialCmp a b = some .lt ∨ A.partialCmp a b = some .eq

/-- A number compares with itself. -/
def Number (A : Arithmetic F) (a : F) : Prop := A.le a a

structure Lawful (A : Arithmetic F) (Finite : F → Prop) : Prop where
  partialCmp_swap : ∀ a b, A.partialCmp a b = (A.partialCmp b a).map Ordering.swap
  comparable : ∀ a b, A.Number a → A.Number b → A.partialCmp a b ≠ none
  number_of_le : ∀ a b, A.le a b → A.Number a ∧ A.Number b
  le_trans : ∀ a b c, A.le a b → A.le b c → A.le a c
  finite : ∀ a, Finite a → A.Number a
  zero : A.Number (A.literal 0)
  negInfinity_le : ∀ a, Finite a → A.le A.negInfinity a
  not_le_negInfinity : ∀ a, Finite a → ¬ A.le a A.negInfinity
  max_eq : ∀ a b, A.Number a → A.Number b → A.max a b = a ∨ A.max a b = b
  le_max_left : ∀ a b, A.Number a → A.Number b → A.le a (A.max a b)
  le_max_right : ∀ a b, A.Number a → A.Number b → A.le b (A.max a b)
  /-- A finite number in between keeps two equal infinities from being subtracted. -/
  sub_nonpos : ∀ a m b, Finite m → A.le a m → A.le m b → A.le (A.sub a b) (A.literal 0)
  exp_nonneg : ∀ a, A.le a (A.literal 0) → A.le (A.literal 0) (A.exp a)
  one_le_exp : ∀ m, Finite m → A.le (A.literal 1) (A.exp (A.sub m m))
  one_le_sum : ∀ xs, (∀ x ∈ xs, A.le (A.literal 0) x) → (∃ x ∈ xs, A.le (A.literal 1) x) →
    A.le (A.literal 1) (A.sum xs)
  ln_nonneg : ∀ a, A.le (A.literal 1) a → A.le (A.literal 0) (A.ln a)
  le_add : ∀ m a, Finite m → A.le (A.literal 0) a → A.le m (A.add m a)
  add_nonpos : ∀ a b, A.le a (A.literal 0) → A.le b (A.literal 0) →
    A.le (A.add a b) (A.literal 0)

/-- A row of scores: nothing in it is greater than every finite number, and some of it is finite. -/
structure Row (A : Arithmetic F) (Finite : F → Prop) (xs : List F) : Prop where
  elements : ∀ x ∈ xs, Finite x ∨ x = A.negInfinity
  exists_finite : ∃ x ∈ xs, Finite x

namespace Lawful

variable {A : Arithmetic F} {Finite : F → Prop} (h : A.Lawful Finite)

include h

/-! ### The order of numbers -/

theorem number_of_nonpos {a : F} (hle : A.le a (A.literal 0)) : A.Number a :=
  (h.number_of_le _ _ hle).1

theorem compare_swap (a b : F) : A.compare a b = (A.compare b a).swap := by
  unfold compare
  rw [h.partialCmp_swap a b]
  cases A.partialCmp b a <;> rfl

theorem compare_isLE_iff {a b : F} (ha : A.Number a) (hb : A.Number b) :
    (A.compare a b).isLE ↔ A.le a b := by
  obtain ⟨order, horder⟩ := Option.ne_none_iff_exists'.mp (h.comparable a b ha hb)
  unfold compare le
  rw [horder]
  cases order <;> simp

/-- Numbers are sorted by a total order. -/
theorem totalOn {α : Type} {key : α → F} {slice : List α}
    (hnumber : ∀ a ∈ slice, A.Number (key a)) :
    SliceSort.TotalOn (fun a b => A.compare (key b) (key a)) slice where
  eq_swap := fun {a b} => h.compare_swap (key b) (key a)
  isLE_trans := by
    intro a b c hab hbc
    have ha := hnumber a a.2
    have hb := hnumber b b.2
    have hc := hnumber c c.2
    rw [h.compare_isLE_iff hb ha] at hab
    rw [h.compare_isLE_iff hc hb] at hbc
    rw [h.compare_isLE_iff hc ha]
    exact h.le_trans _ _ _ hbc hab

/-! ### The greatest element of a row -/

theorem number_of_finite_or {x : F} (hnegInfinity : A.Number A.negInfinity)
    (hx : Finite x ∨ x = A.negInfinity) : A.Number x := by
  rcases hx with hfinite | rfl
  · exact h.finite x hfinite
  · exact hnegInfinity

theorem foldl_max {xs : List F} (hxs : ∀ x ∈ xs, A.Number x) {first : F} (hfirst : A.Number first) :
    (xs.foldl A.max first = first ∨ xs.foldl A.max first ∈ xs) ∧
      ∀ x ∈ first :: xs, A.le x (xs.foldl A.max first) := by
  induction xs generalizing first with
  | nil =>
      rw [List.forall_mem_singleton]
      exact ⟨.inl rfl, hfirst⟩
  | cons second xs ih =>
      rw [List.forall_mem_cons] at hxs
      obtain ⟨hsecond, hxs⟩ := hxs
      have hleft := h.le_max_left first second hfirst hsecond
      have hright := h.le_max_right first second hfirst hsecond
      obtain ⟨hmem, hle⟩ := ih hxs (h.number_of_le _ _ hleft).2
      rw [List.foldl_cons]
      rw [List.forall_mem_cons] at hle
      constructor
      · rcases hmem with heq | hmem
        · rw [heq]
          rcases h.max_eq first second hfirst hsecond with heq | heq
          · exact .inl heq
          · rw [heq]
            exact .inr List.mem_cons_self
        · exact .inr (List.mem_cons_of_mem second hmem)
      · rw [List.forall_mem_cons, List.forall_mem_cons]
        exact ⟨h.le_trans _ _ _ hleft hle.1, h.le_trans _ _ _ hright hle.1, hle.2⟩

/-- The greatest element of a row is one of it that is finite. -/
theorem foldl_max_row {xs : List F} (hrow : A.Row Finite xs) :
    let greatest := xs.foldl A.max A.negInfinity
    greatest ∈ xs ∧ Finite greatest ∧ ∀ x ∈ xs, A.le x greatest := by
  obtain ⟨x, hx, hfinite⟩ := hrow.exists_finite
  have hnegInfinity := (h.number_of_le _ _ (h.negInfinity_le x hfinite)).1
  have hnumbers : ∀ y ∈ xs, A.Number y := fun y hy =>
    h.number_of_finite_or hnegInfinity (hrow.elements y hy)
  obtain ⟨hmem, hle⟩ := h.foldl_max hnumbers hnegInfinity
  rw [List.forall_mem_cons] at hle
  have hne : xs.foldl A.max A.negInfinity ≠ A.negInfinity := by
    intro heq
    have hbeyond := hle.2 x hx
    rw [heq] at hbeyond
    exact h.not_le_negInfinity x hfinite hbeyond
  have hmem' := hmem.resolve_left hne
  exact ⟨hmem', (hrow.elements _ hmem').resolve_right hne, hle.2⟩

/-- The logarithm of a sum of exponentials is at least the greatest element it is taken from. -/
theorem le_logSumExp {xs : List F} {m : F} (hfinite : Finite m) (hmem : m ∈ xs)
    (hle : ∀ x ∈ xs, A.le x m) :
    A.le m (A.add m (A.ln (A.sum (xs.map fun x => A.exp (A.sub x m))))) := by
  apply h.le_add m _ hfinite
  apply h.ln_nonneg
  apply h.one_le_sum
  · intro y hy
    obtain ⟨x, hx, rfl⟩ := List.mem_map.mp hy
    exact h.exp_nonneg _ (h.sub_nonpos x m m hfinite (hle x hx) (h.finite m hfinite))
  · exact ⟨_, List.mem_map_of_mem hmem, h.one_le_exp m hfinite⟩

end Lawful

/-! ### Ordered fields -/

section Exact

variable [Field F] [LinearOrder F] (functions : Functions F)

theorem exact_le {a b : F} : (exact functions).le a b ↔ a ≤ b := by
  change some (Ord.compare a b) = some .lt ∨ some (Ord.compare a b) = some .eq ↔ a ≤ b
  rw [Option.some_inj, Option.some_inj, compare_lt_iff_lt, compare_eq_iff_eq, le_iff_lt_or_eq]

theorem exact_number (a : F) : (exact functions).Number a :=
  (exact_le functions).mpr (le_refl a)

variable [IsStrictOrderedRing F]

/-- An ordered field, whose finite numbers are those above its least one. -/
theorem exact_lawful (hexp : ∀ a : F, a ≤ 0 → 0 ≤ functions.exp a) (hone : 1 ≤ functions.exp 0)
    (hln : ∀ a : F, 1 ≤ a → 0 ≤ functions.ln a) :
    (exact functions).Lawful (functions.negInfinity < ·) where
  partialCmp_swap a b := by
    change some (Ord.compare a b) = some (Ord.compare b a).swap
    rw [← Std.OrientedOrd.eq_swap]
  comparable _ _ _ _ h := by cases h
  number_of_le a b _ := ⟨exact_number functions a, exact_number functions b⟩
  le_trans a b c := by
    simp only [exact_le]
    exact fun hab hbc => hab.trans hbc
  finite a _ := exact_number functions a
  zero := exact_number functions _
  negInfinity_le a h := (exact_le functions).mpr h.le
  not_le_negInfinity a h hle := absurd h (not_lt.mpr ((exact_le functions).mp hle))
  max_eq a b _ _ := max_choice a b
  le_max_left a b _ _ := (exact_le functions).mpr (le_max_left a b)
  le_max_right a b _ _ := (exact_le functions).mpr (le_max_right a b)
  sub_nonpos a m b _ := by
    simp only [exact_le]
    intro ham hmb
    change a - b ≤ ((0 : ℚ) : F)
    rw [Rat.cast_zero]
    exact sub_nonpos.mpr (ham.trans hmb)
  exp_nonneg a := by
    simp only [exact_le]
    change a ≤ ((0 : ℚ) : F) → ((0 : ℚ) : F) ≤ functions.exp a
    rw [Rat.cast_zero]
    exact hexp a
  one_le_exp m _ := by
    rw [exact_le]
    change ((1 : ℚ) : F) ≤ functions.exp (m - m)
    rw [Rat.cast_one, sub_self]
    exact hone
  one_le_sum xs := by
    simp only [exact_le]
    change (∀ x ∈ xs, ((0 : ℚ) : F) ≤ x) → (∃ x ∈ xs, ((1 : ℚ) : F) ≤ x) → ((1 : ℚ) : F) ≤ xs.sum
    rw [Rat.cast_zero, Rat.cast_one]
    rintro hnonneg ⟨x, hx, hle⟩
    exact hle.trans (List.single_le_sum hnonneg x hx)
  ln_nonneg a := by
    simp only [exact_le]
    change ((1 : ℚ) : F) ≤ a → ((0 : ℚ) : F) ≤ functions.ln a
    rw [Rat.cast_zero, Rat.cast_one]
    exact hln a
  le_add m a _ := by
    simp only [exact_le]
    change ((0 : ℚ) : F) ≤ a → m ≤ m + a
    rw [Rat.cast_zero]
    exact le_add_of_nonneg_right
  add_nonpos a b := by
    simp only [exact_le]
    change a ≤ ((0 : ℚ) : F) → b ≤ ((0 : ℚ) : F) → a + b ≤ ((0 : ℚ) : F)
    rw [Rat.cast_zero]
    exact add_nonpos

end Exact

end Arithmetic
