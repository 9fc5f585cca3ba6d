import Mathlib.Tactic

/-!
# Alignments of two sequences

An alignment is a list of edits: the words that the edits consume make up one sequence, and those
that they produce the other. `distance` is the usual recurrence, with the shortcut that equal heads
are matched at once; no alignment costs less.
-/

namespace EditDistance

variable {α : Type}

inductive Edit (α : Type) where
  | hit (x : α)
  | substitute (x y : α)
  | delete (x : α)
  | insert (y : α)

namespace Edit

def source : Edit α → Option α
  | hit x => some x
  | substitute x _ => some x
  | delete x => some x
  | insert _ => none

def target : Edit α → Option α
  | hit x => some x
  | substitute _ y => some y
  | delete _ => none
  | insert y => some y

/-- A hit is free. -/
def cost : Edit α → Nat
  | hit _ => 0
  | substitute _ _ => 1
  | delete _ => 1
  | insert _ => 1

end Edit

/-- The edits turn `xs` into `ys`. -/
def Aligns (edits : List (Edit α)) (xs ys : List α) : Prop :=
  edits.filterMap Edit.source = xs ∧ edits.filterMap Edit.target = ys

def cost (edits : List (Edit α)) : Nat := (edits.map Edit.cost).sum

/-- What the alignments of two sequences cost. -/
def costs (xs ys : List α) : Set Nat := {n | ∃ edits, Aligns edits xs ys ∧ cost edits = n}

theorem cost_cons (edit : Edit α) (edits : List (Edit α)) :
    cost (edit :: edits) = edit.cost + cost edits := by
  rw [cost, List.map_cons, List.sum_cons, cost]

theorem cost_add_mem_costs {n : Nat} {xs ys : List α} (h : n ∈ costs xs ys) (edit : Edit α) :
    edit.cost + n ∈ costs (edit.source.toList ++ xs) (edit.target.toList ++ ys) := by
  obtain ⟨edits, ⟨rfl, rfl⟩, rfl⟩ := h
  refine ⟨edit :: edits, ?_, cost_cons edit edits⟩
  cases edit <;> exact ⟨rfl, rfl⟩

theorem aligns_reverse {edits : List (Edit α)} {xs ys : List α} (h : Aligns edits xs ys) :
    Aligns edits.reverse xs.reverse ys.reverse := by
  rw [Aligns, List.filterMap_reverse, List.filterMap_reverse, h.1, h.2]
  exact ⟨rfl, rfl⟩

/-- Read backwards, an alignment costs the same. -/
theorem costs_reverse_subset (xs ys : List α) : costs xs ys ⊆ costs xs.reverse ys.reverse := by
  rintro n ⟨edits, haligns, rfl⟩
  refine ⟨edits.reverse, aligns_reverse haligns, ?_⟩
  rw [cost, List.map_reverse, List.sum_reverse, cost]

theorem costs_reverse (xs ys : List α) : costs xs.reverse ys.reverse = costs xs ys := by
  apply Set.Subset.antisymm
  · calc costs xs.reverse ys.reverse
        ⊆ costs xs.reverse.reverse ys.reverse.reverse := costs_reverse_subset _ _
      _ = costs xs ys := by rw [List.reverse_reverse, List.reverse_reverse]
  · exact costs_reverse_subset xs ys

/-! ### The recurrence -/

variable [DecidableEq α]

def distance : List α → List α → Nat
  | [], ys => ys.length
  | xs, [] => xs.length
  | x :: xs, y :: ys =>
      if x = y then distance xs ys
      else 1 + min (distance xs ys) (min (distance xs (y :: ys)) (distance (x :: xs) ys))

@[simp]
theorem distance_nil_left (ys : List α) : distance [] ys = ys.length := by
  rw [distance]

@[simp]
theorem distance_nil_right (xs : List α) : distance xs [] = xs.length := by
  cases xs with
  | nil => exact distance_nil_left []
  | cons x xs =>
      rw [distance]
      exact List.cons_ne_nil x xs

theorem distance_cons_self (x : α) (xs ys : List α) :
    distance (x :: xs) (x :: ys) = distance xs ys := by
  rw [distance, if_pos rfl]

theorem distance_cons_of_ne {x y : α} (h : x ≠ y) (xs ys : List α) :
    distance (x :: xs) (y :: ys) =
      1 + min (distance xs ys) (min (distance xs (y :: ys)) (distance (x :: xs) ys)) := by
  rw [distance, if_neg h]

theorem distance_comm (xs ys : List α) : distance xs ys = distance ys xs := by
  induction xs generalizing ys with
  | nil => rw [distance_nil_left, distance_nil_right]
  | cons x xs ih =>
      induction ys with
      | nil => rw [distance_nil_left, distance_nil_right]
      | cons y ys ihy =>
          by_cases h : x = y
          · subst h
            rw [distance_cons_self, distance_cons_self, ih]
          · rw [distance_cons_of_ne h, distance_cons_of_ne (Ne.symm h), ih, ih, ihy,
              min_comm (distance (y :: ys) xs)]

/-- One word more on the left costs at most a deletion, if one word less on the right costs at most
an insertion. -/
theorem distance_cons_le_of_drop {xs : List α}
    (hdrop : ∀ ys y, distance xs ys ≤ 1 + distance xs (y :: ys)) (x : α) (ys : List α) :
    distance (x :: xs) ys ≤ 1 + distance xs ys := by
  cases ys with
  | nil =>
      rw [distance_nil_right, distance_nil_right, List.length_cons, Nat.add_comm]
  | cons y ys =>
      by_cases h : x = y
      · subst h
        rw [distance_cons_self]
        exact hdrop ys x
      · rw [distance_cons_of_ne h]
        omega

theorem distance_le_cons_right (xs ys : List α) (y : α) :
    distance xs ys ≤ 1 + distance xs (y :: ys) := by
  induction xs generalizing ys y with
  | nil =>
      rw [distance_nil_left, distance_nil_left, List.length_cons]
      omega
  | cons x xs ih =>
      have hadd : distance (x :: xs) ys ≤ 1 + distance xs ys := distance_cons_le_of_drop ih x ys
      by_cases h : x = y
      · subst h
        rw [distance_cons_self]
        exact hadd
      · have hdrop := ih ys y
        rw [distance_cons_of_ne h]
        omega

theorem distance_cons_left_le (x : α) (xs ys : List α) :
    distance (x :: xs) ys ≤ 1 + distance xs ys :=
  distance_cons_le_of_drop (distance_le_cons_right xs) x ys

theorem distance_cons_right_le (xs : List α) (y : α) (ys : List α) :
    distance xs (y :: ys) ≤ 1 + distance xs ys := by
  rw [distance_comm xs, distance_comm xs]
  exact distance_cons_left_le y ys xs

theorem distance_cons_cons_le (x y : α) (xs ys : List α) :
    distance (x :: xs) (y :: ys) ≤ 1 + distance xs ys := by
  by_cases h : x = y
  · subst h
    rw [distance_cons_self]
    omega
  · rw [distance_cons_of_ne h]
    omega

/-! ### The minimum -/

/-- No alignment costs less than the distance: its edits account for it one by one. -/
theorem distance_le_cost (edits : List (Edit α)) :
    distance (edits.filterMap Edit.source) (edits.filterMap Edit.target) ≤ cost edits := by
  induction edits with
  | nil => exact (distance_nil_left []).le
  | cons edit edits ih =>
      rw [cost_cons]
      set xs := edits.filterMap Edit.source
      set ys := edits.filterMap Edit.target
      cases edit with
      | hit x =>
          calc distance (x :: xs) (x :: ys) = distance xs ys := distance_cons_self x xs ys
            _ ≤ 0 + cost edits := by rwa [Nat.zero_add]
      | substitute x y =>
          calc distance (x :: xs) (y :: ys) ≤ 1 + distance xs ys := distance_cons_cons_le x y xs ys
            _ ≤ 1 + cost edits := Nat.add_le_add_left ih 1
      | delete x =>
          calc distance (x :: xs) ys ≤ 1 + distance xs ys := distance_cons_left_le x xs ys
            _ ≤ 1 + cost edits := Nat.add_le_add_left ih 1
      | insert y =>
          calc distance xs (y :: ys) ≤ 1 + distance xs ys := distance_cons_right_le xs y ys
            _ ≤ 1 + cost edits := Nat.add_le_add_left ih 1

/-- **The distance is the least cost of an alignment**, also when both are read backwards. -/
theorem isLeast_costs {xs ys : List α} {n : Nat} (hattained : n ∈ costs xs ys)
    (hdistance : distance xs.reverse ys.reverse = n) : IsLeast (costs xs ys) n := by
  refine ⟨hattained, ?_⟩
  rw [← costs_reverse]
  rintro m ⟨edits, ⟨hxs, hys⟩, rfl⟩
  rw [← hdistance, ← hxs, ← hys]
  exact distance_le_cost edits

end EditDistance
