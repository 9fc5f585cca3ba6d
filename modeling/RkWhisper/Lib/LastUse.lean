import Mathlib.Data.List.Basic
import Mathlib.Data.List.Count

/-!
# Moving a value out at its last use

Values lie in slots, and a loop goes through a list of uses, each the number of a slot. The uses of
every slot have been counted before. The loop counts down; it copies a value while there are more
uses to come and moves it out at the last one. `Held` is the invariant that lets every use find the
value it names.
-/

namespace LastUse

variable {α : Type*} {values : List α} {uses : List Nat} {slots : List (Option α)}
  {counts : List Nat} {i : Nat}

/-- Every slot that is still to be used holds its value, and the number of its uses is known. -/
structure Held (values : List α) (uses : List Nat) (slots : List (Option α)) (counts : List Nat) :
    Prop where
  counted : ∀ i ∈ uses, counts[i]? = some (uses.count i)
  held : ∀ i ∈ uses, ∃ value, values[i]? = some value ∧ slots[i]? = some (some value)

theorem Held.count_head (h : Held values (i :: uses) slots counts) :
    counts[i]? = some (uses.count i + 1) := by
  rw [h.counted i List.mem_cons_self, List.count_cons_self]

/-- One use of slot `i`, which takes the value along if it is the last. -/
theorem Held.tail (h : Held values (i :: uses) slots counts) :
    Held values uses (if uses.count i = 0 then slots.set i none else slots)
      (counts.set i (uses.count i)) where
  counted := by
    intro j hj
    by_cases heq : i = j
    · subst heq
      obtain ⟨hlt, -⟩ := List.getElem?_eq_some_iff.mp h.count_head
      rw [List.getElem?_set_self hlt]
    · rw [List.getElem?_set_ne heq, h.counted j (List.mem_cons_of_mem i hj),
        List.count_cons_of_ne heq]
  held := by
    intro j hj
    obtain ⟨value, hvalue, hslot⟩ := h.held j (List.mem_cons_of_mem i hj)
    refine ⟨value, hvalue, ?_⟩
    split
    · next hlast =>
      have hne : i ≠ j := by
        rintro rfl
        exact absurd hj (List.count_eq_zero.mp hlast)
      rw [List.getElem?_set_ne hne, hslot]
    · exact hslot

/-- One use more of slot `i`, of the first `n`. -/
theorem getElem?_count_snoc {n : Nat} (h : ∀ j < n, counts[j]? = some (uses.count j)) (hi : i < n) :
    ∀ j < n, (counts.set i (uses.count i + 1))[j]? = some ((uses ++ [i]).count j) := by
  intro j hj
  rw [List.count_append]
  by_cases heq : i = j
  · subst heq
    obtain ⟨hlt, -⟩ := List.getElem?_eq_some_iff.mp (h i hi)
    rw [List.getElem?_set_self hlt, List.count_singleton_self]
  · rw [List.getElem?_set_ne heq, h j hj, List.count_singleton, if_neg (by simpa using heq),
      Nat.add_zero]

end LastUse
