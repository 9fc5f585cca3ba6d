import Mathlib.Data.List.DropRight

/-!
# Runs between marks

A list is cut at its marked items. A piece is what lies between two marks, or between a mark and an
end of the list; it knows what comes before and after it, and may be empty. The pieces together hold
every item without a mark once, at its own position.
-/

namespace MarkedRuns

variable {α : Type*}

structure Piece (α : Type*) where
  before : List α
  run : List α
  after : List α

namespace Piece

def whole (piece : Piece α) : List α := piece.before ++ piece.run ++ piece.after

/-- The items of the run with their positions. -/
def items (piece : Piece α) : List (α × Nat) := piece.run.zipIdx piece.before.length

/-- Nothing marked inside, and nothing unmarked next to it. -/
structure Maximal (mark : α → Prop) (piece : Piece α) : Prop where
  free : ∀ x ∈ piece.run, ¬ mark x
  left : ∀ x ∈ piece.before.getLast?, mark x
  right : ∀ x ∈ piece.after.head?, mark x

@[simp]
theorem map_items (piece : Piece α) : piece.items.map Prod.fst = piece.run :=
  List.zipIdx_map_fst _ _

end Piece

variable (mark : α → Prop) [DecidablePred mark]

/-- The piece that is open after `before`, and those that follow. -/
def piecesFrom (before run : List α) : List α → List (Piece α)
  | [] => [⟨before, run, []⟩]
  | x :: after =>
      if mark x then ⟨before, run, x :: after⟩ :: piecesFrom (before ++ run ++ [x]) [] after
      else piecesFrom before (run ++ [x]) after

def pieces (l : List α) : List (Piece α) := piecesFrom mark [] [] l

/-- The items without a mark, with their positions. -/
def unmarked (l : List α) : List (α × Nat) := l.zipIdx.filter fun item => ¬ mark item.1

variable {mark} {before run l : List α} {piece : Piece α}

theorem whole_of_mem_piecesFrom {after : List α} (h : piece ∈ piecesFrom mark before run after) :
    piece.whole = before ++ run ++ after := by
  induction after generalizing before run with
  | nil => rw [List.mem_singleton.mp h, Piece.whole]
  | cons x after ih =>
      unfold piecesFrom at h
      split at h
      · rcases List.mem_cons.mp h with rfl | hlater
        · rfl
        · simpa using ih hlater
      · simpa using ih h

theorem maximal_of_mem_piecesFrom {after : List α} (hfree : ∀ x ∈ run, ¬ mark x)
    (hleft : ∀ x ∈ before.getLast?, mark x) (h : piece ∈ piecesFrom mark before run after) :
    piece.Maximal mark := by
  induction after generalizing before run with
  | nil =>
      rw [List.mem_singleton.mp h]
      exact ⟨hfree, hleft, fun x hx => absurd hx (Option.not_mem_none x)⟩
  | cons x after ih =>
      unfold piecesFrom at h
      split at h
      · next hmark =>
        rcases List.mem_cons.mp h with rfl | hlater
        · refine ⟨hfree, hleft, fun y hy => ?_⟩
          cases hy
          exact hmark
        · refine ih (fun y hy => absurd hy List.not_mem_nil) (fun y hy => ?_) hlater
          rw [List.getLast?_concat] at hy
          cases hy
          exact hmark
      · next hmark =>
        refine ih ?_ hleft h
        rw [List.forall_mem_append, List.forall_mem_singleton]
        exact ⟨hfree, hmark⟩

/-- **The pieces hold what has no mark.** -/
theorem flatMap_items_piecesFrom (before run after : List α) :
    (piecesFrom mark before run after).flatMap Piece.items =
      run.zipIdx before.length ++
        (after.zipIdx (before ++ run).length).filter fun item => ¬ mark item.1 := by
  induction after generalizing before run with
  | nil => simp [piecesFrom, Piece.items]
  | cons x after ih =>
      unfold piecesFrom
      rw [List.zipIdx_cons]
      split
      · next hmark =>
        rw [List.flatMap_cons, ih, List.filter_cons_of_neg (by simpa using hmark)]
        simp [Piece.items, Nat.add_assoc]
      · next hmark =>
        rw [ih, List.filter_cons_of_pos (by simpa using hmark), List.zipIdx_append]
        simp [Nat.add_assoc]

theorem whole_of_mem_pieces (h : piece ∈ pieces mark l) : piece.whole = l :=
  whole_of_mem_piecesFrom h

theorem maximal_of_mem_pieces (h : piece ∈ pieces mark l) : piece.Maximal mark := by
  have hleft : ∀ x ∈ ([] : List α).getLast?, mark x := fun x hx => absurd hx (Option.not_mem_none x)
  exact maximal_of_mem_piecesFrom (fun _ hx => absurd hx List.not_mem_nil) hleft h

theorem flatMap_items_pieces (l : List α) :
    (pieces mark l).flatMap Piece.items = unmarked mark l :=
  flatMap_items_piecesFrom [] [] l

theorem map_unmarked (l : List α) :
    (unmarked mark l).map Prod.fst = l.filter fun x => ¬ mark x := by
  calc (unmarked mark l).map Prod.fst
      = (l.zipIdx.map Prod.fst).filter fun x => ¬ mark x := by
        rw [List.filter_map]
        rfl
    _ = l.filter fun x => ¬ mark x := by rw [List.zipIdx_map_fst]

/-! ### The last piece -/

theorem rtakeWhile_append {p : α → Bool} (before : List α) (h : ∀ x ∈ run, p x = true) :
    (before ++ run).rtakeWhile p = before.rtakeWhile p ++ run := by
  induction run using List.reverseRecOn with
  | nil => rw [List.append_nil, List.append_nil]
  | append_singleton run x ih =>
      rw [List.forall_mem_append, List.forall_mem_singleton] at h
      rw [← List.append_assoc, List.rtakeWhile_concat_pos _ _ _ h.2, ih h.1, List.append_assoc]

/-- What comes after the last mark. -/
theorem Piece.Maximal.run_eq (h : piece.Maximal mark) (hafter : piece.after = []) :
    piece.run = piece.whole.rtakeWhile fun x => ¬ mark x := by
  have hbefore : piece.before.rtakeWhile (fun x => decide (¬ mark x)) = [] := by
    rw [List.rtakeWhile_eq_nil_iff]
    intro hne hlast
    exact of_decide_eq_true hlast (h.left _ (List.getLast?_eq_some_getLast hne))
  rw [Piece.whole, hafter, List.append_nil,
    rtakeWhile_append _ fun x hx => decide_eq_true (h.free x hx), hbefore, List.nil_append]

variable (mark) in
theorem exists_last_piece (before run after : List α) :
    ∃ piece ∈ piecesFrom mark before run after, piece.after = [] := by
  induction after generalizing before run with
  | nil => exact ⟨_, List.mem_singleton_self _, rfl⟩
  | cons x after ih =>
      unfold piecesFrom
      split
      · obtain ⟨piece, hpiece, hlast⟩ := ih (before ++ run ++ [x]) []
        exact ⟨piece, List.mem_cons_of_mem _ hpiece, hlast⟩
      · exact ih before (run ++ [x])

end MarkedRuns
