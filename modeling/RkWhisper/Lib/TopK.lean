import Mathlib.Tactic

/-!
# The best of a list

`IsTop score k all kept` says that `kept` are `k` of the best elements of `all`, whichever where
several score the same, and all of them where there are no more than `k`. Which scores are kept is
determined, and the best of the best of the parts are the best of the whole.
-/

namespace TopK

variable {α β ι F : Type*} [LinearOrder F] {score : α → F} {k : Nat} {all kept : List α}

structure IsTop (score : α → F) (k : Nat) (all kept : List α) : Prop where
  length_eq : kept.length = min k all.length
  exists_rest : ∃ rest, (kept ++ rest).Perm all ∧ ∀ x ∈ rest, ∀ y ∈ kept, score x ≤ score y

theorem IsTop.subset (h : IsTop score k all kept) : kept ⊆ all := by
  obtain ⟨rest, hperm, -⟩ := h.exists_rest
  exact fun x hx => hperm.subset (List.mem_append_left rest hx)

/-- Nothing is better than all that is kept. -/
theorem IsTop.exists_best (h : IsTop score k all kept) (hk : 0 < k) {x : α} (hx : x ∈ all) :
    ∃ y ∈ kept, score x ≤ score y := by
  obtain ⟨rest, hperm, hle⟩ := h.exists_rest
  rcases List.mem_append.mp (hperm.mem_iff.mpr hx) with hkept | hrest
  · exact ⟨x, hkept, le_rfl⟩
  · have hpos : 0 < kept.length := by
      rw [h.length_eq, lt_min_iff]
      exact ⟨hk, List.length_pos_of_mem hx⟩
    obtain ⟨y, hy⟩ := List.exists_mem_of_length_pos hpos
    exact ⟨y, hy, hle x hrest y hy⟩

theorem IsTop.congr_perm {all' : List α} (h : IsTop score k all kept) (hperm : all.Perm all') :
    IsTop score k all' kept where
  length_eq := by rw [h.length_eq, hperm.length_eq]
  exists_rest := by
    obtain ⟨rest, hrest, hle⟩ := h.exists_rest
    exact ⟨rest, hrest.trans hperm, hle⟩

theorem IsTop.map {f : β → α} {all kept : List β} (h : IsTop (score ∘ f) k all kept) :
    IsTop score k (all.map f) (kept.map f) where
  length_eq := by rw [List.length_map, List.length_map, h.length_eq]
  exists_rest := by
    obtain ⟨rest, hperm, hle⟩ := h.exists_rest
    refine ⟨rest.map f, ?_, ?_⟩
    · rw [← List.map_append]
      exact hperm.map f
    · intro x hx y hy
      obtain ⟨a, ha, rfl⟩ := List.mem_map.mp hx
      obtain ⟨b, hb, rfl⟩ := List.mem_map.mp hy
      exact hle a ha b hb

/-- Another score that orders the elements in the same way. -/
theorem IsTop.congr_score {G : Type*} [LinearOrder G] {score' : α → G} (h : IsTop score k all kept)
    (hscore : ∀ x ∈ all, ∀ y ∈ all, score x ≤ score y → score' x ≤ score' y) :
    IsTop score' k all kept where
  length_eq := h.length_eq
  exists_rest := by
    obtain ⟨rest, hperm, hle⟩ := h.exists_rest
    refine ⟨rest, hperm, fun x hx y hy => ?_⟩
    exact hscore x (hperm.subset (List.mem_append_right kept hx)) y
      (hperm.subset (List.mem_append_left rest hy)) (hle x hx y hy)

/-- Where none of the first `k` elements scores less than one of the others. -/
theorem isTop_take (h : ∀ x ∈ all.drop k, ∀ y ∈ all.take k, score x ≤ score y) :
    IsTop score k all (all.take k) where
  length_eq := List.length_take
  exists_rest := by
    refine ⟨all.drop k, ?_, h⟩
    rw [List.take_append_drop]

theorem isTop_nil : IsTop score k [] [] :=
  ⟨(Nat.min_zero k).symm, [], List.Perm.refl _, fun _ hx => absurd hx List.not_mem_nil⟩

theorem isTop_take_of_pairwise (h : all.Pairwise fun x y => score y ≤ score x) :
    IsTop score k all (all.take k) := by
  apply isTop_take
  rw [← List.take_append_drop k all, List.pairwise_append] at h
  exact fun x hx y hy => h.2.2 y hy x hx

/-! ### The scores -/

def descending (scores : List F) : List F := scores.insertionSort (· ≥ ·)

theorem descending_perm (scores : List F) : (descending scores).Perm scores :=
  List.perm_insertionSort _ _

theorem pairwise_descending (scores : List F) : (descending scores).Pairwise (· ≥ ·) :=
  List.pairwise_insertionSort _ _

/-- A sorted list of scores is determined by its elements. -/
theorem eq_descending {scores sorted : List F} (hsorted : sorted.Pairwise (· ≥ ·))
    (hperm : sorted.Perm scores) : sorted = descending scores :=
  (hperm.trans (descending_perm scores).symm).eq_of_pairwise
    (fun _ _ _ _ hab hba => le_antisymm hba hab) hsorted (pairwise_descending scores)

/-- The scores that are kept are the first `k` of all scores in descending order. -/
theorem IsTop.scores_perm (h : IsTop score k all kept) :
    (kept.map score).Perm ((descending (all.map score)).take k) := by
  obtain ⟨rest, hperm, hle⟩ := h.exists_rest
  have hsplit : descending (kept.map score) ++ descending (rest.map score) =
      descending (all.map score) := by
    apply eq_descending
    · refine List.pairwise_append.mpr ⟨pairwise_descending _, pairwise_descending _, ?_⟩
      intro a ha b hb
      obtain ⟨y, hy, rfl⟩ := List.mem_map.mp ((descending_perm _).subset ha)
      obtain ⟨x, hx, rfl⟩ := List.mem_map.mp ((descending_perm _).subset hb)
      exact hle x hx y hy
    · refine ((descending_perm _).append (descending_perm _)).trans ?_
      rw [← List.map_append]
      exact hperm.map score
  -- With fewer than `k` kept there is no rest, so the first `k` are those that are kept.
  have htake : (descending (all.map score)).take k = descending (kept.map score) := by
    have hkept := h.length_eq
    have hall := hperm.length_eq
    rw [List.length_append] at hall
    have hlength : (descending (kept.map score)).length = kept.length := by
      rw [(descending_perm _).length_eq, List.length_map]
    rcases Nat.lt_or_ge kept.length k with hlt | hge
    · have hrest : rest = [] := List.length_eq_zero_iff.mp (by omega)
      have hnil : descending ([] : List F) = [] := rfl
      rw [hrest, List.map_nil, hnil, List.append_nil] at hsplit
      rw [← hsplit, List.take_of_length_le (by omega)]
    · rw [← hsplit, List.take_left' (by omega)]
  rw [htake]
  exact (descending_perm _).symm

/-! ### Parts -/

theorem min_length_flatMap {all kept : ι → List α} {parts : List ι}
    (h : ∀ i ∈ parts, (kept i).length = min k (all i).length) :
    min k (parts.flatMap kept).length = min k (parts.flatMap all).length := by
  induction parts with
  | nil => rfl
  | cons i parts ih =>
      rw [List.forall_mem_cons] at h
      have := ih h.2
      rw [List.flatMap_cons, List.flatMap_cons, List.length_append, List.length_append, h.1]
      omega

/-- Where `k` elements score at least `a`, each of the best `k` does. -/
theorem IsTop.le_of_crowd (h : IsTop score k all kept) {crowd : List α} (hcrowd : crowd.Sublist all)
    (hlength : k ≤ crowd.length) {a : F} (ha : ∀ x ∈ crowd, a ≤ score x) :
    ∀ y ∈ kept, a ≤ score y := by
  obtain ⟨rest, hperm, hle⟩ := h.exists_rest
  by_contra hworse
  push Not at hworse
  obtain ⟨y, hy, hlt⟩ := hworse
  let good : α → Bool := fun x => decide (a ≤ score x)
  have hrest : rest.countP good = 0 := by
    rw [List.countP_eq_zero]
    intro x hx hgood
    exact absurd (of_decide_eq_true hgood) (not_le.mpr ((hle x hx y hy).trans_lt hlt))
  have hall : crowd.length ≤ all.countP good := by
    rw [← List.countP_eq_length.mpr fun x hx => decide_eq_true (ha x hx)]
    exact hcrowd.countP_le
  rw [← hperm.countP_eq, List.countP_append, hrest] at hall
  -- So there is no room for `y` among what is kept.
  have hkept : kept.countP good < kept.length := by
    rw [List.countP_lt_length_iff]
    exact ⟨y, hy, decide_eq_false (not_le.mpr hlt)⟩
  have := h.length_eq
  omega

/-- The best `k` of the parts' own best `k` are the best of the whole. An element that its part left
out has `k` better ones in its part alone. -/
theorem IsTop.flatMap {all kept : ι → List α} {parts : List ι} {final : List α}
    (h : ∀ i ∈ parts, IsTop score k (all i) (kept i))
    (hfinal : IsTop score k (parts.flatMap kept) final) :
    IsTop score k (parts.flatMap all) final where
  length_eq := by rw [hfinal.length_eq, min_length_flatMap fun i hi => (h i hi).length_eq]
  exists_rest := by
    choose! rest hrest hle using fun i hi => (h i hi).exists_rest
    obtain ⟨lost, hlost, hlostLe⟩ := hfinal.exists_rest
    refine ⟨lost ++ parts.flatMap rest, ?_, ?_⟩
    · rw [← List.append_assoc]
      refine (hlost.append_right _).trans ?_
      refine (List.flatMap_append_perm parts kept rest).trans ?_
      exact List.Perm.flatMap_left parts hrest
    · intro x hx
      rcases List.mem_append.mp hx with hx | hx
      · exact hlostLe x hx
      · obtain ⟨i, hi, hx⟩ := List.mem_flatMap.mp hx
        have hsub : (kept i).Sublist (parts.flatMap kept) := by
          rw [List.flatMap_def]
          exact List.sublist_flatten_of_mem (List.mem_map_of_mem hi)
        apply hfinal.le_of_crowd hsub
        · have hlength := (hrest i hi).length_eq
          have hpos := List.length_pos_of_mem hx
          rw [List.length_append] at hlength
          have := (h i hi).length_eq
          omega
        · exact hle i hi x hx

end TopK
