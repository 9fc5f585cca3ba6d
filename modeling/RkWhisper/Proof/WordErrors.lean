import RkWhisper.Lib.EditDistance
import RkWhisper.WordErrors

/-!
# Word errors are counted along a minimal alignment

The table holds the distances of the prefixes. From its last cell the backtrace follows, edit by
edit, an alignment of what it has left behind, and whatever branch it takes pays for the step in the
table. The last branch is taken without a test, where only an insertion can explain the cell.
-/

namespace RkWhisper

open EditDistance Tables

variable {α : Type} [DecidableEq α] {ref hyp : List α} {i j : Nat}

/-! ### The table -/

/-- The distance of the first `i` words to the first `j`. -/
def prefixDistance (ref hyp : List α) (i j : Nat) : Nat :=
  distance (ref.take i).reverse (hyp.take j).reverse

theorem prefixDistance_zero_left (hj : j ≤ hyp.length) : prefixDistance ref hyp 0 j = j := by
  rw [prefixDistance, List.take_zero, List.reverse_nil, distance_nil_left, List.length_reverse,
    List.length_take_of_le hj]

theorem prefixDistance_zero_right (hi : i ≤ ref.length) : prefixDistance ref hyp i 0 = i := by
  rw [prefixDistance, List.take_zero, List.reverse_nil, distance_nil_right, List.length_reverse,
    List.length_take_of_le hi]

omit [DecidableEq α] in
theorem reverse_take_succ {xs : List α} {x : α} (h : xs[i]? = some x) :
    (xs.take (i + 1)).reverse = x :: (xs.take i).reverse := by
  rw [List.take_add_one, h, List.reverse_append]
  rfl

theorem prefixDistance_succ_self {x : α} (hx : ref[i]? = some x) (hy : hyp[j]? = some x) :
    prefixDistance ref hyp (i + 1) (j + 1) = prefixDistance ref hyp i j := by
  rw [prefixDistance, reverse_take_succ hx, reverse_take_succ hy, distance_cons_self,
    prefixDistance]

theorem prefixDistance_succ_of_ne {x y : α} (hx : ref[i]? = some x) (hy : hyp[j]? = some y)
    (h : x ≠ y) : prefixDistance ref hyp (i + 1) (j + 1) =
      1 + min (prefixDistance ref hyp i j)
        (min (prefixDistance ref hyp i (j + 1)) (prefixDistance ref hyp (i + 1) j)) := by
  simp only [prefixDistance, reverse_take_succ hx, reverse_take_succ hy, distance_cons_of_ne h]

/-- The table of the distances, as far as it is known. -/
abbrev FilledTo (ref hyp : List α) (known : Nat → Nat → Prop) (mat : List (List Nat)) : Prop :=
  Filled (ref.length + 1) (hyp.length + 1) (prefixDistance ref hyp) known mat

variable {known : Nat → Nat → Prop} {mat : List (List Nat)}

theorem cast_succ_sub_one (n : Nat) : ((n + 1 : Nat) : Int) - 1 = n := by
  rw [Nat.cast_succ, Int.add_sub_cancel]

theorem natCast_succ_pos (n : Nat) : (0 : Int) < (n + 1 : Nat) :=
  Int.natCast_pos.mpr (Nat.succ_pos n)

/-- A cell is computed from the three before it. -/
theorem exists_fillCell (h : FilledTo ref hyp known mat) (hi : i < ref.length)
    (hj : j < hyp.length) (hdiagonal : known i j) (habove : known i (j + 1))
    (hleft : known (i + 1) j) :
    ∃ mat', fillCell ref hyp mat (i + 1) (j + 1) = .ok mat' ∧
      FilledTo ref hyp (fun a b => known a b ∨ a = i + 1 ∧ b = j + 1) mat' := by
  have hx : ref[i]? = some ref[i] := List.getElem?_eq_getElem hi
  have hy : hyp[j]? = some hyp[j] := List.getElem?_eq_getElem hj
  have hset := h.set (Nat.succ_lt_succ hi) (Nat.succ_lt_succ hj)
  unfold fillCell
  simp only [cast_succ_sub_one, item_natCast hx, item_natCast hy, Except.ok_bind_eq,
    h.cell (Nat.lt_succ_of_lt hi) (Nat.lt_succ_of_lt hj) hdiagonal,
    h.cell (Nat.lt_succ_of_lt hi) (Nat.succ_lt_succ hj) habove,
    h.cell (Nat.succ_lt_succ hi) (Nat.lt_succ_of_lt hj) hleft]
  by_cases hword : ref[i] = hyp[j]
  · rw [if_pos hword]
    rwa [prefixDistance_succ_self hx (hword ▸ hy)] at hset
  · rw [if_neg hword]
    rwa [prefixDistance_succ_of_ne hx hy hword] at hset

/-- The loop over a row, when the rows above are known. -/
theorem exists_fillRow (h : FilledTo ref hyp (fun a b => a = 0 ∨ b = 0 ∨ a ≤ i) mat)
    (hi : i < ref.length) :
    ∃ mat', fillRow ref hyp mat (i + 1) = .ok mat' ∧
      FilledTo ref hyp (fun a b => a = 0 ∨ b = 0 ∨ a ≤ i + 1) mat' := by
  let known (j a b : Nat) : Prop := a = 0 ∨ b = 0 ∨ a ≤ i ∨ a = i + 1 ∧ b ≤ j
  have hround : ∀ j < hyp.length, ∀ mat, FilledTo ref hyp (known j) mat →
      ∃ mat', fillCell ref hyp mat (i + 1) (1 + j) = .ok mat' ∧
        FilledTo ref hyp (known (j + 1)) mat' := by
    intro j hj mat hfilled
    obtain ⟨mat', hcell, hfilled'⟩ := exists_fillCell hfilled hi hj (by simp [known])
      (by simp [known]) (by simp [known])
    rw [Nat.add_comm 1 j]
    refine ⟨mat', hcell, hfilled'.mono fun a _ b _ => ?_⟩
    simp only [known]
    omega
  have hstart : FilledTo ref hyp (known 0) mat := by
    refine h.mono fun a _ b _ => ?_
    simp only [known]
    omega
  obtain ⟨mat', hloop, hfilled⟩ := Except.exists_foldlM_range' _ hround hstart
  refine ⟨mat', hloop, hfilled.mono fun a _ b hb => ?_⟩
  simp only [known]
  omega

/-- **The table holds the distance of all prefixes.** -/
theorem exists_distanceTable (ref hyp : List α) : ∃ mat, distanceTable ref hyp = .ok mat ∧
    ∀ i ≤ ref.length, ∀ j ≤ hyp.length, cell mat i j = .ok (prefixDistance ref hyp i j) := by
  let firstRow (j a b : Nat) : Prop := a = 0 ∧ b < j
  let firstColumn (i a b : Nat) : Prop := a = 0 ∨ b = 0 ∧ a < i
  let rows (i a b : Nat) : Prop := a = 0 ∨ b = 0 ∨ a ≤ i
  have hrow : ∀ j < hyp.length + 1, ∀ mat, FilledTo ref hyp (firstRow j) mat →
      ∃ mat', setCell mat 0 (0 + j : Nat) (0 + j) = .ok mat' ∧
        FilledTo ref hyp (firstRow (j + 1)) mat' := by
    intro j hj mat hfilled
    obtain ⟨mat', hset, hfilled'⟩ := hfilled.set (Nat.succ_pos _) hj
    rw [prefixDistance_zero_left (Nat.le_of_lt_succ hj)] at hset
    rw [Nat.zero_add]
    exact ⟨mat', hset, hfilled'.mono (by omega)⟩
  have hcolumn : ∀ i < ref.length + 1, ∀ mat, FilledTo ref hyp (firstColumn i) mat →
      ∃ mat', setCell mat (0 + i : Nat) 0 (0 + i) = .ok mat' ∧
        FilledTo ref hyp (firstColumn (i + 1)) mat' := by
    intro i hi mat hfilled
    obtain ⟨mat', hset, hfilled'⟩ := hfilled.set hi (Nat.succ_pos _)
    rw [prefixDistance_zero_right (Nat.le_of_lt_succ hi)] at hset
    rw [Nat.zero_add]
    exact ⟨mat', hset, hfilled'.mono (by omega)⟩
  have hrows : ∀ i < ref.length, ∀ mat, FilledTo ref hyp (rows i) mat →
      ∃ mat', fillRow ref hyp mat (1 + i) = .ok mat' ∧
        FilledTo ref hyp (rows (i + 1)) mat' := by
    intro i hi mat hfilled
    rw [Nat.add_comm 1 i]
    exact exists_fillRow hfilled hi
  obtain ⟨first, hfirst, hfilled⟩ := Except.exists_foldlM_range'
    (fun mat (j : Nat) => setCell mat 0 j j) (P := fun j => FilledTo ref hyp (firstRow j)) hrow
    ((filled_replicate 0).mono (by omega))
  obtain ⟨second, hsecond, hfilled⟩ := Except.exists_foldlM_range'
    (fun mat (i : Nat) => setCell mat i 0 i) (P := fun i => FilledTo ref hyp (firstColumn i))
    hcolumn (hfilled.mono (by omega))
  obtain ⟨mat, hmat, hfilled⟩ := Except.exists_foldlM_range' _
    (P := fun i => FilledTo ref hyp (rows i)) hrows (hfilled.mono (by omega))
  refine ⟨mat, ?_, fun i hi j hj => ?_⟩
  · rw [← List.range_eq_range'] at hfirst hsecond
    rw [distanceTable, hfirst, Except.ok_bind_eq, hsecond, Except.ok_bind_eq, hmat]
  · exact hfilled.cell (Nat.lt_succ_of_le hi) (Nat.lt_succ_of_le hj) (.inr (.inr hi))

/-! ### The backtrace -/

/-- One more edit. -/
def WerResult.count (result : WerResult) : Edit α → WerResult
  | .hit _ => { result with hits := result.hits + 1 }
  | .substitute _ _ => { result with substitutions := result.substitutions + 1 }
  | .delete _ => { result with deletions := result.deletions + 1 }
  | .insert _ => { result with insertions := result.insertions + 1 }

def WerResult.errors (result : WerResult) : Nat :=
  result.substitutions + result.deletions + result.insertions

/-- What has been counted when `i` and `j` words are left: the edits of an alignment of the others,
which together with the distance of what is left cost as much as the whole. -/
structure Traced (ref hyp : List α) (i j : Nat) (result : WerResult) : Prop where
  i_le : i ≤ ref.length
  j_le : j ≤ hyp.length
  ref_eq : result.hits + result.substitutions + result.deletions + i = ref.length
  hyp_eq : result.hits + result.substitutions + result.insertions + j = hyp.length
  total : result.errors + prefixDistance ref hyp i j =
    prefixDistance ref hyp ref.length hyp.length
  aligned : result.errors ∈ costs (ref.drop i) (hyp.drop j)

variable {result : WerResult}

theorem traced_start (ref hyp : List α) : Traced ref hyp ref.length hyp.length {} where
  i_le := Nat.le_refl _
  j_le := Nat.le_refl _
  ref_eq := Nat.zero_add _
  hyp_eq := Nat.zero_add _
  total := Nat.zero_add _
  aligned := by
    rw [List.drop_length, List.drop_length]
    exact ⟨[], ⟨rfl, rfl⟩, rfl⟩

/-- An edit goes on with the trace if the table pays for it. -/
theorem Traced.edit (h : Traced ref hyp i j result) (edit : Edit α) {i' j' : Nat}
    (hi : i' + edit.source.toList.length = i) (hj : j' + edit.target.toList.length = j)
    (hsource : ref.drop i' = edit.source.toList ++ ref.drop i)
    (htarget : hyp.drop j' = edit.target.toList ++ hyp.drop j)
    (hcost : prefixDistance ref hyp i j = edit.cost + prefixDistance ref hyp i' j') :
    Traced ref hyp i' j' (result.count edit) := by
  have herrors : (result.count edit).errors = edit.cost + result.errors := by
    cases edit <;> simp only [WerResult.count, WerResult.errors, Edit.cost] <;> omega
  have hi_le := h.i_le
  have hj_le := h.j_le
  have hrefs := h.ref_eq
  have hhyps := h.hyp_eq
  have htotal := h.total
  refine ⟨by omega, by omega, ?_, ?_, by omega, ?_⟩
  · cases edit <;> simp [WerResult.count, Edit.source] at hi ⊢ <;> omega
  · cases edit <;> simp [WerResult.count, Edit.target] at hj ⊢ <;> omega
  · rw [herrors, hsource, htarget]
    exact cost_add_mem_costs h.aligned edit

omit [DecidableEq α] in
theorem drop_eq_cons {xs : List α} {x : α} (h : xs[i]? = some x) :
    xs.drop i = x :: xs.drop (i + 1) := by
  obtain ⟨hi, rfl⟩ := List.getElem?_eq_some_iff.mp h
  exact List.drop_eq_getElem_cons hi

/-- The cells of the table. -/
def HoldsDistances (ref hyp : List α) (mat : List (List Nat)) : Prop :=
  ∀ i ≤ ref.length, ∀ j ≤ hyp.length, cell mat i j = .ok (prefixDistance ref hyp i j)

namespace Backtrace

variable {x y : α}

theorem isHit_succ (hx : ref[i]? = some x) (hy : hyp[j]? = some y) :
    isHit ref hyp ⟨(i + 1 : Nat), (j + 1 : Nat), result⟩ = .ok (decide (x = y)) := by
  rw [isHit, if_pos ⟨natCast_succ_pos i, natCast_succ_pos j⟩]
  simp only [cast_succ_sub_one, item_natCast hx, item_natCast hy, Except.ok_bind_eq]
  rfl

theorem isHit_of_zero (h : i = 0 ∨ j = 0) : isHit ref hyp ⟨i, j, result⟩ = .ok false := by
  rw [isHit, if_neg (by dsimp only; omega)]
  rfl

theorem isSubstitution_succ (hmat : HoldsDistances ref hyp mat) (hi : i < ref.length)
    (hj : j < hyp.length) :
    isSubstitution mat ⟨(i + 1 : Nat), (j + 1 : Nat), result⟩ =
      .ok (prefixDistance ref hyp (i + 1) (j + 1) == prefixDistance ref hyp i j + 1) := by
  rw [isSubstitution, if_pos ⟨natCast_succ_pos i, natCast_succ_pos j⟩]
  simp only [cast_succ_sub_one, hmat (i + 1) hi (j + 1) hj, hmat i hi.le j hj.le,
    Except.ok_bind_eq]
  rfl

theorem isSubstitution_of_zero (h : i = 0 ∨ j = 0) :
    isSubstitution mat ⟨i, j, result⟩ = .ok false := by
  rw [isSubstitution, if_neg (by dsimp only; omega)]
  rfl

theorem isDeletion_succ (hmat : HoldsDistances ref hyp mat) (hi : i < ref.length)
    (hj : j ≤ hyp.length) :
    isDeletion mat ⟨(i + 1 : Nat), j, result⟩ =
      .ok (prefixDistance ref hyp (i + 1) j == prefixDistance ref hyp i j + 1) := by
  rw [isDeletion, if_pos (natCast_succ_pos i)]
  simp only [cast_succ_sub_one, hmat (i + 1) hi j hj, hmat i hi.le j hj, Except.ok_bind_eq]
  rfl

theorem isDeletion_zero : isDeletion mat ⟨(0 : Nat), j, result⟩ = .ok false := rfl

/-- The branch that a round takes, when no test faults. -/
theorem step_eq {state : Backtrace} {hit substitution deletion : Bool}
    (hhit : isHit ref hyp state = .ok hit)
    (hsubstitution : isSubstitution mat state = .ok substitution)
    (hdeletion : isDeletion mat state = .ok deletion) :
    step ref hyp mat state = .ok
      (if hit then
        ⟨state.i - 1, state.j - 1, { state.result with hits := state.result.hits + 1 }⟩
      else if substitution then
        ⟨state.i - 1, state.j - 1,
          { state.result with substitutions := state.result.substitutions + 1 }⟩
      else if deletion then
        ⟨state.i - 1, state.j, { state.result with deletions := state.result.deletions + 1 }⟩
      else ⟨state.i, state.j - 1,
        { state.result with insertions := state.result.insertions + 1 }⟩) := by
  rw [step]
  simp only [hhit, hsubstitution, hdeletion, Except.ok_bind_eq]
  cases hit <;> cases substitution <;> cases deletion <;> rfl

/-- A round goes on with the trace. -/
def GoesOn (ref hyp : List α) (mat : List (List Nat)) (i j : Nat) (result : WerResult) : Prop :=
  ∃ (i' j' : Nat) (result' : WerResult), i' + j' < i + j ∧
    step ref hyp mat ⟨i, j, result⟩ = .ok ⟨i', j', result'⟩ ∧ Traced ref hyp i' j' result'

/-- Without words of the reference there are only insertions. -/
theorem goesOn_zero_succ (h : Traced ref hyp 0 (j + 1) result) :
    GoesOn ref hyp mat 0 (j + 1) result := by
  have hj : j < hyp.length := h.j_le
  have hhit : isHit ref hyp ⟨(0 : Nat), (j + 1 : Nat), result⟩ = .ok false :=
    isHit_of_zero (.inl rfl)
  have hsubstitution : isSubstitution mat ⟨(0 : Nat), (j + 1 : Nat), result⟩ = .ok false :=
    isSubstitution_of_zero (.inl rfl)
  refine ⟨0, j, result.count (.insert hyp[j]), by omega, ?_, ?_⟩
  · rw [step_eq hhit hsubstitution isDeletion_zero]
    simp only [Bool.false_eq_true, if_false, cast_succ_sub_one]
    rfl
  · apply h.edit (.insert hyp[j]) rfl rfl rfl (drop_eq_cons (List.getElem?_eq_getElem hj))
    rw [prefixDistance_zero_left h.j_le, prefixDistance_zero_left hj.le, Nat.add_comm]
    rfl

/-- Without words of the hypothesis there are only deletions, which the table shows. -/
theorem goesOn_succ_zero (hmat : HoldsDistances ref hyp mat) (h : Traced ref hyp (i + 1) 0 result) :
    GoesOn ref hyp mat (i + 1) 0 result := by
  have hi : i < ref.length := h.i_le
  have hcost : prefixDistance ref hyp (i + 1) 0 = prefixDistance ref hyp i 0 + 1 := by
    rw [prefixDistance_zero_right h.i_le, prefixDistance_zero_right hi.le]
  have hhit : isHit ref hyp ⟨(i + 1 : Nat), (0 : Nat), result⟩ = .ok false :=
    isHit_of_zero (.inr rfl)
  have hsubstitution : isSubstitution mat ⟨(i + 1 : Nat), (0 : Nat), result⟩ = .ok false :=
    isSubstitution_of_zero (.inr rfl)
  refine ⟨i, 0, result.count (.delete ref[i]), by omega, ?_, ?_⟩
  · rw [step_eq hhit hsubstitution (isDeletion_succ hmat hi (Nat.zero_le _)), hcost]
    simp only [Bool.false_eq_true, if_false, BEq.rfl, if_true, cast_succ_sub_one]
    rfl
  · apply h.edit (.delete ref[i]) rfl rfl (drop_eq_cons (List.getElem?_eq_getElem hi)) rfl
    rw [hcost, Nat.add_comm]
    rfl

/-- Two words that differ cost one more than the cheapest of the three cells before them. -/
theorem goesOn_of_ne (hmat : HoldsDistances ref hyp mat)
    (h : Traced ref hyp (i + 1) (j + 1) result) (hi : i < ref.length) (hj : j < hyp.length)
    (hword : ref[i] ≠ hyp[j]) : GoesOn ref hyp mat (i + 1) (j + 1) result := by
  have hx : ref[i]? = some ref[i] := List.getElem?_eq_getElem hi
  have hy : hyp[j]? = some hyp[j] := List.getElem?_eq_getElem hj
  have hstep := step_eq (isHit_succ hx hy) (isSubstitution_succ hmat hi hj)
    (@isDeletion_succ _ _ _ _ _ _ _ result hmat hi h.j_le)
  rw [decide_eq_false hword] at hstep
  by_cases hsubstitution :
      prefixDistance ref hyp (i + 1) (j + 1) = prefixDistance ref hyp i j + 1
  · refine ⟨i, j, result.count (.substitute ref[i] hyp[j]), by omega, ?_, ?_⟩
    · rw [hstep, hsubstitution]
      simp only [Bool.false_eq_true, if_false, BEq.rfl, if_true, cast_succ_sub_one]
      rfl
    · apply h.edit (.substitute ref[i] hyp[j]) rfl rfl (drop_eq_cons hx) (drop_eq_cons hy)
      rw [hsubstitution, Nat.add_comm]
      rfl
  rw [beq_eq_false_iff_ne.mpr hsubstitution] at hstep
  by_cases hdeletion :
      prefixDistance ref hyp (i + 1) (j + 1) = prefixDistance ref hyp i (j + 1) + 1
  · refine ⟨i, j + 1, result.count (.delete ref[i]), by omega, ?_, ?_⟩
    · rw [hstep, hdeletion]
      simp only [Bool.false_eq_true, if_false, BEq.rfl, if_true, cast_succ_sub_one]
      rfl
    · apply h.edit (.delete ref[i]) rfl rfl (drop_eq_cons hx) rfl
      rw [hdeletion, Nat.add_comm]
      rfl
  · have hinsertion :
        prefixDistance ref hyp (i + 1) (j + 1) = 1 + prefixDistance ref hyp (i + 1) j := by
      have hmin := prefixDistance_succ_of_ne hx hy hword
      omega
    refine ⟨i + 1, j, result.count (.insert hyp[j]), by omega, ?_, ?_⟩
    · rw [hstep, beq_eq_false_iff_ne.mpr hdeletion]
      simp only [Bool.false_eq_true, if_false, cast_succ_sub_one]
      rfl
    · exact h.edit (.insert hyp[j]) rfl rfl rfl (drop_eq_cons hy) hinsertion

theorem goesOn_of_eq (hmat : HoldsDistances ref hyp mat)
    (h : Traced ref hyp (i + 1) (j + 1) result) (hi : i < ref.length) (hj : j < hyp.length)
    (hword : ref[i] = hyp[j]) : GoesOn ref hyp mat (i + 1) (j + 1) result := by
  have hx : ref[i]? = some ref[i] := List.getElem?_eq_getElem hi
  have hy : hyp[j]? = some hyp[j] := List.getElem?_eq_getElem hj
  refine ⟨i, j, result.count (.hit ref[i]), by omega, ?_, ?_⟩
  · rw [step_eq (isHit_succ hx hy) (isSubstitution_succ hmat hi hj)
      (isDeletion_succ hmat hi h.j_le), decide_eq_true hword]
    simp only [if_true, cast_succ_sub_one]
    rfl
  · apply h.edit (.hit ref[i]) rfl rfl (drop_eq_cons hx)
    · rw [hword]
      exact drop_eq_cons hy
    · rw [prefixDistance_succ_self hx (hword ▸ hy)]
      exact (Nat.zero_add _).symm

/-- **No round faults, and each explains the cell it leaves.** -/
theorem goesOn (hmat : HoldsDistances ref hyp mat) (h : Traced ref hyp i j result)
    (hleft : 0 < i ∨ 0 < j) : GoesOn ref hyp mat i j result := by
  cases i with
  | zero =>
      obtain ⟨j, rfl⟩ := Nat.exists_eq_succ_of_ne_zero (hleft.resolve_left (Nat.lt_irrefl 0)).ne'
      exact goesOn_zero_succ h
  | succ i =>
      cases j with
      | zero => exact goesOn_succ_zero hmat h
      | succ j =>
          have hi : i < ref.length := h.i_le
          have hj : j < hyp.length := h.j_le
          by_cases hword : ref[i] = hyp[j]
          · exact goesOn_of_eq hmat h hi hj hword
          · exact goesOn_of_ne hmat h hi hj hword

/-- The loop ends after at most one round for each word, having traced everything. -/
theorem exists_run (hmat : HoldsDistances ref hyp mat) {enough : Nat} (henough : i + j ≤ enough)
    (h : Traced ref hyp i j result) :
    ∃ final, (∀ rounds, enough ≤ rounds →
      run ref hyp mat rounds ⟨i, j, result⟩ = .ok (some final)) ∧ Traced ref hyp 0 0 final := by
  induction enough generalizing i j result with
  | zero =>
      obtain ⟨rfl, rfl⟩ : i = 0 ∧ j = 0 := by omega
      refine ⟨result, fun rounds _ => ?_, h⟩
      cases rounds <;> rfl
  | succ enough ih =>
      by_cases hleft : 0 < i ∨ 0 < j
      · obtain ⟨i', j', result', hless, hstep, htraced⟩ := goesOn hmat h hleft
        obtain ⟨final, hrun, hfinal⟩ := ih (by omega) htraced
        refine ⟨final, fun rounds hrounds => ?_, hfinal⟩
        obtain ⟨more, rfl⟩ := Nat.exists_eq_add_of_le' (Nat.one_le_of_lt hrounds)
        rw [run, if_pos (hleft.imp Int.natCast_pos.mpr Int.natCast_pos.mpr), hstep,
          Except.ok_bind_eq, hrun more (by omega)]
      · obtain ⟨rfl, rfl⟩ : i = 0 ∧ j = 0 := by omega
        refine ⟨result, fun rounds _ => ?_, h⟩
        cases rounds <;> rfl

end Backtrace

/-- **The word errors are those of a minimal alignment**, for all words: the table is filled and the
backtrace ends without a fault, its hits and errors account for every word, and no alignment has
fewer errors. -/
theorem processWords_minimal (lower : String → String) (ref hyp : List String) :
    ∃ result : WerResult,
      (∀ rounds, ref.length + hyp.length ≤ rounds →
        countErrors rounds ref hyp = .ok (some result) ∧
          ∀ reference hypothesis, normalize lower reference = ref →
            normalize lower hypothesis = hyp →
              processWords lower rounds reference hypothesis = .ok (some result)) ∧
      result.hits + result.substitutions + result.deletions = ref.length ∧
      result.hits + result.substitutions + result.insertions = hyp.length ∧
      IsLeast (costs ref hyp) (result.substitutions + result.deletions + result.insertions) := by
  obtain ⟨mat, htable, hmat⟩ := exists_distanceTable ref hyp
  obtain ⟨final, hrun, hfinal⟩ :=
    Backtrace.exists_run hmat (Nat.le_refl _) (traced_start ref hyp)
  have hcount : ∀ rounds, ref.length + hyp.length ≤ rounds →
      countErrors rounds ref hyp = .ok (some final) := by
    intro rounds hrounds
    rw [countErrors, htable, Except.ok_bind_eq]
    exact hrun rounds hrounds
  have htotal : distance ref.reverse hyp.reverse = final.errors := by
    have hall := hfinal.total
    rw [prefixDistance_zero_left (Nat.zero_le _), Nat.add_zero, prefixDistance,
      List.take_length, List.take_length] at hall
    exact hall.symm
  refine ⟨final, fun rounds hrounds => ⟨hcount rounds hrounds, ?_⟩, hfinal.ref_eq, hfinal.hyp_eq,
    isLeast_costs hfinal.aligned htotal⟩
  rintro reference hypothesis rfl rfl
  exact hcount rounds hrounds

end RkWhisper
