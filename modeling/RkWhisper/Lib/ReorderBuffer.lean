import Mathlib.Order.Compare
import Mathlib.Data.List.Basic
import Mathlib.Data.Nat.Basic
import Mathlib.Logic.Function.Basic
import Std.Data.TreeMap.Lemmas

/-!
# Reorder buffers

Messages with the numbers `0, 1, 2, …` arrive in any order and are handed on in the order of their
numbers. The buffer keeps those that are ahead. `arrived` stands for what has come in so far, and
`inOrder arrived count` for the messages handed on when the next number is `count`.
-/

structure ReorderBuffer (β : Type*) where
  pending : Std.TreeMap Nat β := ∅
  next : Nat := 0

namespace ReorderBuffer

variable {β : Type*}

def insert (buffer : ReorderBuffer β) (index : Nat) (message : β) : ReorderBuffer β :=
  { buffer with pending := buffer.pending.insert index message }

/-- The message that is next in order has been taken out. -/
def advance (buffer : ReorderBuffer β) : ReorderBuffer β :=
  { pending := buffer.pending.erase buffer.next
    next := buffer.next + 1 }

def inOrder (arrived : Nat → Option β) (count : Nat) : List β :=
  (List.range count).filterMap arrived

/-- All messages before `next` have arrived and have been handed on; the others are kept. -/
structure Holds (arrived : Nat → Option β) (buffer : ReorderBuffer β) : Prop where
  handedOn : ∀ index < buffer.next, (arrived index).isSome = true
  kept : ∀ index, buffer.pending[index]? = if index < buffer.next then none else arrived index

variable {arrived : Nat → Option β} {buffer : ReorderBuffer β} {index : Nat} {message : β}

theorem holds_empty : Holds (fun _ => none) ({} : ReorderBuffer β) where
  handedOn _ h := absurd h (Nat.not_lt_zero _)
  kept index := by
    rw [if_neg (Nat.not_lt_zero index)]
    exact Std.TreeMap.getElem?_emptyc

theorem Holds.next (h : Holds arrived buffer) : buffer.pending[buffer.next]? = arrived buffer.next := by
  rw [h.kept, if_neg (lt_irrefl _)]

/-- A number that has not arrived is not behind the next one. -/
theorem Holds.next_le (h : Holds arrived buffer) (hfresh : arrived index = none) :
    buffer.next ≤ index := by
  by_contra hlt
  have hsome := h.handedOn index (not_le.mp hlt)
  rw [hfresh] at hsome
  cases hsome

theorem Holds.insert (h : Holds arrived buffer) (hfresh : arrived index = none) (message : β) :
    Holds (Function.update arrived index (some message)) (buffer.insert index message) := by
  have hle := h.next_le hfresh
  refine ⟨?_, ?_⟩
  · intro other hother
    have hother : other < buffer.next := hother
    rw [Function.update_of_ne (by omega)]
    exact h.handedOn other hother
  · intro other
    rw [ReorderBuffer.insert, Std.TreeMap.getElem?_insert]
    simp only [compare_eq_iff_eq]
    by_cases hother : index = other
    · subst hother
      rw [if_pos rfl, if_neg (by omega), Function.update_self]
    · rw [if_neg hother, Function.update_of_ne (Ne.symm hother)]
      exact h.kept other

theorem Holds.advance (h : Holds arrived buffer)
    (hnext : buffer.pending[buffer.next]? = some message) : Holds arrived buffer.advance := by
  have harrived : arrived buffer.next = some message := h.next.symm.trans hnext
  refine ⟨?_, ?_⟩
  · intro other hother
    obtain hlt | rfl := Nat.lt_succ_iff_lt_or_eq.mp hother
    · exact h.handedOn other hlt
    · rw [harrived]
      rfl
  · intro other
    rw [ReorderBuffer.advance, Std.TreeMap.getElem?_erase, h.kept]
    simp only [compare_eq_iff_eq]
    by_cases hother : buffer.next = other
    · rw [if_pos hother, if_pos (by omega)]
    · rw [if_neg hother]
      exact if_congr (by omega) rfl rfl

/-- The message taken out is handed on. -/
theorem inOrder_succ {count : Nat} (hcount : arrived count = some message) :
    inOrder arrived (count + 1) = inOrder arrived count ++ [message] := by
  rw [inOrder, List.range_succ, List.filterMap_append, inOrder]
  congr 1
  simp [hcount]

/-- What arrives later does not change what has been handed on. -/
theorem Holds.inOrder_update (h : Holds arrived buffer) (hfresh : arrived index = none)
    (message : β) :
    inOrder (Function.update arrived index (some message)) buffer.next =
      inOrder arrived buffer.next := by
  have hle := h.next_le hfresh
  apply List.filterMap_congr
  intro other hother
  have hlt := List.mem_range.mp hother
  exact Function.update_of_ne (by omega) ..

/-- Taking out makes the buffer smaller. -/
theorem size_advance (hnext : buffer.pending[buffer.next]? = some message) :
    buffer.advance.pending.size + 1 = buffer.pending.size := by
  have hmem : buffer.next ∈ buffer.pending :=
    Std.TreeMap.mem_iff_isSome_getElem?.mpr (by rw [hnext]; rfl)
  have hpos : 0 < buffer.pending.size := by
    rw [Nat.pos_iff_ne_zero]
    intro hzero
    have hempty : buffer.pending.isEmpty = true := by
      rw [Std.TreeMap.isEmpty_eq_size_eq_zero, hzero]
      rfl
    rw [Std.TreeMap.getElem?_of_isEmpty hempty] at hnext
    cases hnext
  rw [advance, Std.TreeMap.size_erase, if_pos (Std.TreeMap.contains_iff_mem.mpr hmem)]
  omega

theorem getElem?_of_size_eq_zero (h : buffer.pending.size = 0) (index : Nat) :
    buffer.pending[index]? = none := by
  apply Std.TreeMap.getElem?_of_isEmpty
  rw [Std.TreeMap.isEmpty_eq_size_eq_zero, h]
  rfl

/-! ### Numbers that come twice

Nothing above holds of a buffer into which some number comes again; it still knows of every number
whether it has come.
-/

/-- The number has come: it has been handed on, or it is kept. -/
def Knows (buffer : ReorderBuffer β) (index : Nat) : Prop :=
  index < buffer.next ∨ (buffer.pending[index]?).isSome = true

theorem knows_insert (buffer : ReorderBuffer β) (index : Nat) (message : β) :
    (buffer.insert index message).Knows index := by
  refine .inr ?_
  rw [insert, Std.TreeMap.getElem?_insert_self]
  rfl

theorem Knows.insert {other : Nat} (h : buffer.Knows other) (index : Nat) (message : β) :
    (buffer.insert index message).Knows other := by
  refine h.imp_right fun hkept => ?_
  rw [ReorderBuffer.insert, Std.TreeMap.getElem?_insert]
  split
  · rfl
  · exact hkept

theorem Knows.advance (h : buffer.Knows index) : buffer.advance.Knows index := by
  obtain hbefore | hkept := h
  · exact .inl (Nat.lt_succ_of_lt hbefore)
  · by_cases hnext : buffer.next = index
    · exact .inl (hnext ▸ Nat.lt_succ_self _)
    · refine .inr ?_
      rw [ReorderBuffer.advance, Std.TreeMap.getElem?_erase]
      simp only [compare_eq_iff_eq, if_neg hnext, hkept]

/-- A number that comes makes the buffer larger by one, or is known. -/
theorem size_insert_le (buffer : ReorderBuffer β) (index : Nat) (message : β) :
    (buffer.insert index message).pending.size ≤ buffer.pending.size + 1 :=
  Std.TreeMap.size_insert_le

end ReorderBuffer
