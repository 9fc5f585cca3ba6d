import Mathlib.Tactic

/-!
# Sorting slices with a comparison

A selection and a stable sort, as a library offers them that takes the comparison from its caller.
Where the comparison is no total order on the elements they may fault, or leave the elements in any
order; they never lose one.
-/

namespace SliceSort

inductive Fault where
  | outOfRange
  | noTotalOrder
deriving DecidableEq, Repr

variable {α : Type} {cmp : α → α → Ordering} {slice : List α}

/-- The comparison is a total order on the elements of the slice, with ties. -/
def TotalOn (cmp : α → α → Ordering) (slice : List α) : Prop :=
  Std.TransCmp fun a b : { a // a ∈ slice } => cmp a b

namespace TotalOn

theorem of_transCmp [Std.TransCmp cmp] : TotalOn cmp slice where
  eq_swap := Std.OrientedCmp.eq_swap
  isLE_trans := Std.TransCmp.isLE_trans

theorem eq_swap (h : TotalOn cmp slice) {a b : α} (ha : a ∈ slice) (hb : b ∈ slice) :
    cmp a b = (cmp b a).swap :=
  @Std.OrientedCmp.eq_swap _ _ h.toOrientedCmp ⟨a, ha⟩ ⟨b, hb⟩

theorem isLE_trans (h : TotalOn cmp slice) {a b c : α} (ha : a ∈ slice) (hb : b ∈ slice)
    (hc : c ∈ slice) (hab : (cmp a b).isLE) (hbc : (cmp b c).isLE) : (cmp a c).isLE :=
  @Std.TransCmp.isLE_trans _ _ h ⟨a, ha⟩ ⟨b, hb⟩ ⟨c, hc⟩ hab hbc

theorem isLE_or_isLE (h : TotalOn cmp slice) {a b : α} (ha : a ∈ slice) (hb : b ∈ slice) :
    (cmp a b).isLE ∨ (cmp b a).isLE := by
  rw [h.eq_swap ha hb]
  cases cmp b a <;> simp

theorem mono (h : TotalOn cmp slice) {slice' : List α} (hsub : slice' ⊆ slice) :
    TotalOn cmp slice' where
  eq_swap := fun {a b} => h.eq_swap (hsub a.2) (hsub b.2)
  isLE_trans := fun {a b c} => h.isLE_trans (hsub a.2) (hsub b.2) (hsub c.2)

end TotalOn

/-- The stable sort. -/
def sorted (cmp : α → α → Ordering) (slice : List α) : List α :=
  slice.insertionSort fun a b => (cmp a b).isLE = true

theorem sorted_perm (cmp : α → α → Ordering) (slice : List α) : (sorted cmp slice).Perm slice :=
  List.perm_insertionSort _ _

theorem pairwise_sorted (h : TotalOn cmp slice) :
    (sorted cmp slice).Pairwise fun a b => (cmp a b).isLE := by
  -- The library asks for an order on the whole type, which the elements themselves have.
  let le : { a // a ∈ slice } → { a // a ∈ slice } → Prop := fun a b => (cmp a b).isLE = true
  have htotal : Std.Total le := ⟨fun a b => h.isLE_or_isLE a.2 b.2⟩
  have htrans : IsTrans _ le := ⟨fun a b c hab hbc => h.isLE_trans a.2 b.2 c.2 hab hbc⟩
  have hattach : sorted cmp slice = (slice.attach.insertionSort le).map Subtype.val := by
    unfold sorted
    rw [List.map_insertionSort le (fun a b => (cmp a b).isLE = true) _ _ fun _ _ _ _ => Iff.rfl,
      List.attach_map_subtype_val]
  rw [hattach, List.pairwise_map]
  exact List.pairwise_insertionSort le slice.attach

theorem partition_sorted (h : TotalOn cmp slice) {index : Nat} {pivot : α}
    (hpivot : (sorted cmp slice)[index]? = some pivot) :
    (∀ a ∈ (sorted cmp slice).take index, (cmp a pivot).isLE) ∧
      ∀ b ∈ (sorted cmp slice).drop (index + 1), (cmp pivot b).isLE := by
  obtain ⟨hlength, hget⟩ := List.getElem?_eq_some_iff.mp hpivot
  have hsorted := pairwise_sorted h
  rw [← List.take_append_drop index (sorted cmp slice), List.drop_eq_getElem_cons hlength, hget,
    List.pairwise_append, List.pairwise_cons] at hsorted
  exact ⟨fun a ha => hsorted.2.2 a ha pivot List.mem_cons_self, hsorted.2.1.1⟩

/-! ### What comes first -/

theorem sorted_cons {first : α} {rest : List α} (h : ∀ a ∈ rest, (cmp first a).isLE) :
    sorted cmp (first :: rest) = first :: sorted cmp rest :=
  List.insertionSort_cons_of_forall_rel _ h

theorem head?_orderedInsert {first a : α} {rest : List α}
    (h : (rest.orderedInsert (fun a b => (cmp a b).isLE = true) first).head? = some a) :
    a = first ∨ rest.head? = some a ∧ ¬ (cmp first a).isLE := by
  cases rest with
  | nil => exact .inl (Option.some.inj h).symm
  | cons second rest =>
      rw [List.orderedInsert] at h
      split at h
      · exact .inl (Option.some.inj h).symm
      · next hle =>
        obtain rfl := Option.some.inj h
        exact .inr ⟨rfl, hle⟩

theorem head?_sorted_append {before rest : List α} {a : α}
    (h : (sorted cmp (before ++ rest)).head? = some a) :
    a ∈ before ∨ (sorted cmp rest).head? = some a := by
  induction before with
  | nil => exact .inr h
  | cons first before ih =>
      rcases head?_orderedInsert h with rfl | ⟨hhead, -⟩
      · exact .inl List.mem_cons_self
      · exact (ih hhead).imp_left (List.mem_cons_of_mem first)

/-- Where nothing in a part is less than its first element, such an element comes first of all. -/
theorem head?_sorted_flatten {parts : List (List α)}
    (hparts : ∀ part ∈ parts, ∀ first ∈ part.head?, ∀ a ∈ part, (cmp first a).isLE) {a : α}
    (h : (sorted cmp parts.flatten).head? = some a) : ∃ part ∈ parts, part.head? = some a := by
  induction parts with
  | nil => cases h
  | cons part parts ih =>
      rw [List.forall_mem_cons] at hparts
      obtain ⟨hpart, hparts⟩ := hparts
      rw [List.flatten_cons] at h
      cases part with
      | nil =>
          obtain ⟨part, hmem, hhead⟩ := ih hparts h
          exact ⟨part, List.mem_cons_of_mem _ hmem, hhead⟩
      | cons first rest =>
          rcases head?_orderedInsert h with rfl | ⟨hhead, hle⟩
          · exact ⟨_, List.mem_cons_self, rfl⟩
          · -- What comes before the first element of this part is in none of it.
            have hother := (head?_sorted_append hhead).resolve_left fun hmem =>
              hle (hpart first rfl a (List.mem_cons_of_mem first hmem))
            obtain ⟨part, hmem, hhead⟩ := ih hparts hother
            exact ⟨part, List.mem_cons_of_mem _ hmem, hhead⟩

/-- A library of the two sorts. The element that a selection leaves at its index is the one that the
sorted slice has there, with none after it less and none before it greater. -/
structure Sorter where
  selectNthUnstableBy : {α : Type} → List α → Nat → (α → α → Ordering) → Except Fault (List α)
  sortBy : {α : Type} → List α → (α → α → Ordering) → Except Fault (List α)
  select_outOfRange : ∀ {α : Type} (slice : List α) (index : Nat) (cmp : α → α → Ordering),
    slice.length ≤ index → selectNthUnstableBy slice index cmp = .error .outOfRange
  select_error : ∀ {α : Type} (slice : List α) (index : Nat) (cmp : α → α → Ordering)
    (fault : Fault), index < slice.length → selectNthUnstableBy slice index cmp = .error fault →
    fault = .noTotalOrder ∧ ¬ TotalOn cmp slice
  select_perm : ∀ {α : Type} (slice : List α) (index : Nat) (cmp : α → α → Ordering)
    (slice' : List α), selectNthUnstableBy slice index cmp = .ok slice' → slice'.Perm slice
  select_partition : ∀ {α : Type} (slice : List α) (index : Nat) (cmp : α → α → Ordering)
    (slice' : List α) (pivot : α), TotalOn cmp slice →
    selectNthUnstableBy slice index cmp = .ok slice' → slice'[index]? = some pivot →
    (∀ a ∈ slice'.take index, (cmp a pivot).isLE) ∧
      ∀ b ∈ slice'.drop (index + 1), (cmp pivot b).isLE
  sort_error : ∀ {α : Type} (slice : List α) (cmp : α → α → Ordering) (fault : Fault),
    sortBy slice cmp = .error fault → fault = .noTotalOrder ∧ ¬ TotalOn cmp slice
  sort_perm : ∀ {α : Type} (slice : List α) (cmp : α → α → Ordering) (slice' : List α),
    sortBy slice cmp = .ok slice' → slice'.Perm slice
  sort_sorted : ∀ {α : Type} (slice : List α) (cmp : α → α → Ordering) (slice' : List α),
    TotalOn cmp slice → sortBy slice cmp = .ok slice' → slice' = sorted cmp slice

namespace Sorter

variable (sorter : Sorter) {index : Nat} {fault : Fault} {slice' : List α}

theorem select_length (h : sorter.selectNthUnstableBy slice index cmp = .ok slice') :
    index < slice.length := by
  by_contra hout
  rw [sorter.select_outOfRange _ _ _ (Nat.le_of_not_lt hout)] at h
  cases h

/-- What a selection puts before the index compares with everything from the index on. -/
theorem select_isLE (htotal : TotalOn cmp slice)
    (h : sorter.selectNthUnstableBy slice index cmp = .ok slice') {a b : α}
    (ha : a ∈ slice'.take index) (hb : b ∈ slice'.drop index) : (cmp a b).isLE := by
  have hperm := sorter.select_perm _ _ _ _ h
  have hlength : index < slice'.length := by
    rw [hperm.length_eq]
    exact sorter.select_length h
  have hpivot := List.getElem?_eq_getElem hlength
  obtain ⟨hbefore, hafter⟩ := sorter.select_partition _ _ _ _ _ htotal h hpivot
  rw [List.drop_eq_getElem_cons hlength, List.mem_cons] at hb
  rcases hb with heq | hb
  · rw [heq]
    exact hbefore a ha
  · exact htotal.isLE_trans (hperm.subset (List.mem_of_mem_take ha))
      (hperm.subset (List.getElem_mem hlength)) (hperm.subset (List.mem_of_mem_drop hb))
      (hbefore a ha) (hafter b hb)

theorem exists_select (htotal : TotalOn cmp slice) (hindex : index < slice.length) :
    ∃ slice', sorter.selectNthUnstableBy slice index cmp = .ok slice' := by
  cases h : sorter.selectNthUnstableBy slice index cmp with
  | ok slice' => exact ⟨slice', rfl⟩
  | error fault => exact absurd htotal (sorter.select_error _ _ _ _ hindex h).2

theorem sortBy_of_totalOn (htotal : TotalOn cmp slice) :
    sorter.sortBy slice cmp = .ok (sorted cmp slice) := by
  cases h : sorter.sortBy slice cmp with
  | ok slice' => rw [sorter.sort_sorted _ _ _ htotal h]
  | error fault => exact absurd htotal (sorter.sort_error _ _ _ h).2

open Classical in
/-- The library that refuses every slice its comparison does not order. -/
noncomputable def strict : Sorter where
  selectNthUnstableBy slice index cmp :=
    if index < slice.length ∧ ¬ TotalOn cmp slice then .error .noTotalOrder
    else sorter.selectNthUnstableBy slice index cmp
  sortBy slice cmp := if TotalOn cmp slice then sorter.sortBy slice cmp else .error .noTotalOrder
  select_outOfRange slice index cmp h := by
    rw [if_neg fun hrefused => Nat.not_lt.mpr h hrefused.1]
    exact sorter.select_outOfRange slice index cmp h
  select_error slice index cmp fault hindex h := by
    split at h
    · next hrefused =>
      cases h
      exact ⟨rfl, hrefused.2⟩
    · exact sorter.select_error slice index cmp fault hindex h
  select_perm slice index cmp slice' h := by
    split at h
    · cases h
    · exact sorter.select_perm slice index cmp slice' h
  select_partition slice index cmp slice' pivot htotal h hpivot := by
    split at h
    · cases h
    · exact sorter.select_partition slice index cmp slice' pivot htotal h hpivot
  sort_error slice cmp fault h := by
    split at h
    · exact sorter.sort_error slice cmp fault h
    · next hrefused =>
      cases h
      exact ⟨rfl, hrefused⟩
  sort_perm slice cmp slice' h := by
    split at h
    · exact sorter.sort_perm slice cmp slice' h
    · cases h
  sort_sorted slice cmp slice' htotal h := by
    rw [if_pos htotal] at h
    exact sorter.sort_sorted slice cmp slice' htotal h

theorem strict_select_eq_ok (h : sorter.strict.selectNthUnstableBy slice index cmp = .ok slice') :
    TotalOn cmp slice ∧ sorter.selectNthUnstableBy slice index cmp = .ok slice' := by
  have hindex := sorter.strict.select_length h
  unfold strict at h
  dsimp only at h
  split at h
  · cases h
  · next hnot => exact ⟨by_contra fun hrefused => hnot ⟨hindex, hrefused⟩, h⟩

theorem strict_sort_eq_ok (h : sorter.strict.sortBy slice cmp = .ok slice') :
    TotalOn cmp slice ∧ sorter.sortBy slice cmp = .ok slice' := by
  unfold strict at h
  dsimp only at h
  split at h
  · next htotal => exact ⟨htotal, h⟩
  · cases h

/-- A selection that sorts what it has arranged in another order, so that ties may come anywhere. -/
def arranged (arrange : {α : Type} → List α → List α)
    (harrange : ∀ {α : Type} (slice : List α), (arrange slice).Perm slice) : Sorter where
  selectNthUnstableBy slice index cmp :=
    if index < slice.length then .ok (sorted cmp (arrange slice)) else .error .outOfRange
  sortBy slice cmp := .ok (sorted cmp slice)
  select_outOfRange _ _ _ h := if_neg (Nat.not_lt.mpr h)
  select_error _ _ _ _ hindex h := by
    rw [if_pos hindex] at h
    cases h
  select_perm slice index cmp slice' h := by
    split at h
    · cases h
      exact (sorted_perm cmp _).trans (harrange slice)
    · cases h
  select_partition slice index cmp slice' pivot htotal h hpivot := by
    split at h
    · cases h
      exact partition_sorted (htotal.mono (harrange slice).subset) hpivot
    · cases h
  sort_error _ _ _ h := by cases h
  sort_perm slice cmp slice' h := by
    cases h
    exact sorted_perm cmp slice
  sort_sorted _ _ _ _ h := by
    cases h
    rfl

/-- The selection that sorts. -/
def stable : Sorter := arranged (fun slice => slice) fun _ => .refl _

end Sorter

/-! ### The greatest element -/

/-- The greatest element of a list, the last one where several are. -/
def maxBy (cmp : α → α → Ordering) : List α → Option α
  | [] => none
  | a :: rest => some (rest.foldl (fun a b => if cmp a b = .gt then a else b) a)

theorem foldl_max_mem (first : α) (rest : List α) :
    rest.foldl (fun a b => if cmp a b = .gt then a else b) first ∈ first :: rest := by
  induction rest generalizing first with
  | nil => exact List.mem_singleton_self first
  | cons second rest ih =>
      rw [List.foldl_cons]
      split
      · exact List.cons_subset_cons first (List.subset_cons_self second rest) (ih first)
      · exact List.mem_cons_of_mem first (ih second)

theorem isLE_foldl_max [Std.TransCmp cmp] (first : α) (rest : List α) :
    ∀ a ∈ first :: rest,
      (cmp a (rest.foldl (fun a b => if cmp a b = .gt then a else b) first)).isLE := by
  induction rest generalizing first with
  | nil =>
      rw [List.forall_mem_singleton, List.foldl_nil]
      exact Std.ReflCmp.isLE_rfl
  | cons second rest ih =>
      rw [List.foldl_cons]
      specialize ih (if cmp first second = .gt then first else second)
      have hmiddle := ih _ List.mem_cons_self
      have hfirst : (cmp first (if cmp first second = .gt then first else second)).isLE := by
        split
        · exact Std.ReflCmp.isLE_rfl
        · next hle => exact Ordering.isLE_iff_ne_gt.mpr hle
      have hsecond : (cmp second (if cmp first second = .gt then first else second)).isLE := by
        split
        · next hgt =>
          rw [Std.OrientedCmp.gt_iff_lt.mp hgt]
          rfl
        · exact Std.ReflCmp.isLE_rfl
      rw [List.forall_mem_cons, List.forall_mem_cons]
      exact ⟨Std.TransCmp.isLE_trans hfirst hmiddle, Std.TransCmp.isLE_trans hsecond hmiddle,
        fun a ha => ih a (List.mem_cons_of_mem _ ha)⟩

theorem foldl_max_eq_or_mem (first : α) (rest : List α) :
    (∀ a ∈ rest, cmp first a = .gt) ∨
      rest.foldl (fun a b => if cmp a b = .gt then a else b) first ∈ rest := by
  induction rest generalizing first with
  | nil => exact .inl fun _ hmem => absurd hmem List.not_mem_nil
  | cons second rest ih =>
      rw [List.foldl_cons, List.forall_mem_cons]
      by_cases hgt : cmp first second = .gt
      · rw [if_pos hgt]
        exact (ih first).imp (fun hrest => ⟨hgt, hrest⟩) (List.mem_cons_of_mem second)
      · rw [if_neg hgt]
        exact .inr (foldl_max_mem second rest)

theorem exists_maxBy (cmp : α → α → Ordering) {a : α} (ha : a ∈ slice) :
    ∃ b, maxBy cmp slice = some b := by
  cases slice with
  | nil => exact absurd ha List.not_mem_nil
  | cons first rest => exact ⟨_, rfl⟩

theorem maxBy_mem {a : α} (h : maxBy cmp slice = some a) : a ∈ slice := by
  cases slice with
  | nil => cases h
  | cons first rest =>
      cases h
      exact foldl_max_mem first rest

/-- Of two lists, the later one has the greatest element where it has one as great as each of the
earlier list. -/
theorem maxBy_append_mem {before after : List α} {a : α}
    (hle : ∀ b ∈ before, ∃ c ∈ after, (cmp b c).isLE)
    (h : maxBy cmp (before ++ after) = some a) : a ∈ after := by
  cases before with
  | nil => exact maxBy_mem h
  | cons first rest =>
      rw [List.cons_append, maxBy, List.foldl_append] at h
      obtain rfl := Option.some.inj h
      refine (foldl_max_eq_or_mem _ after).resolve_left fun hgt => ?_
      obtain ⟨c, hc, hisLE⟩ := hle _ (foldl_max_mem first rest)
      rw [hgt c hc] at hisLE
      cases hisLE

theorem maxBy_isLE [Std.TransCmp cmp] {a b : α} (h : maxBy cmp slice = some a) (hb : b ∈ slice) :
    (cmp b a).isLE := by
  cases slice with
  | nil => cases h
  | cons first rest =>
      cases h
      exact isLE_foldl_max first rest b hb

end SliceSort
