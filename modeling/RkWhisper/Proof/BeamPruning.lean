import RkWhisper.Lib.TopK
import RkWhisper.Proof.BeamTotal

/-!
# Pruning in two stages

A step keeps the best tokens of every beam, in whatever order the selection leaves them, and only
then ranks what is left. Where scores are numbers of an ordered field, this loses nothing: what it
keeps are the best of all the beams' extensions, and every one of them becomes a beam.
-/

namespace RkWhisper

open TopK

variable {spec : WhisperSpec} {ε σ F : Type}

namespace BeamSearch

variable [Field F] [LinearOrder F] {functions : Arithmetic.Functions F} {sorter : SliceSort.Sorter}
  {suppress : Suppressor F} {size : Nat}

/-! ### Numbers that compare -/

instance {α : Type} (key : α → F) : Std.TransCmp (descendingBy (.exact functions) key) :=
  inferInstanceAs (Std.TransCmp fun a b => compareOn key b a)

theorem descendingBy_isLE {α : Type} {key : α → F} {a b : α} :
    (descendingBy (.exact functions) key a b).isLE ↔ key b ≤ key a :=
  Arithmetic.exact_compare_isLE functions (key b) (key a)

theorem comparable_exact (beams : List (Beam σ F)) :
    Comparable (.exact functions) suppress beams where
  tokens := fun _ _ _ => .of_transCmp
  scores := .of_transCmp

/-! ### The stages -/

theorem isTop_select {α : Type} {key : α → F} {slice selected : List α}
    (h : sorter.selectNthUnstableBy slice size (descendingBy (.exact functions) key) =
      .ok selected) : IsTop key size slice (selected.take size) := by
  have htop : IsTop key size selected (selected.take size) := by
    apply isTop_take
    intro x hx y hy
    exact descendingBy_isLE.mp (sorter.select_isLE .of_transCmp h hy hx)
  exact htop.congr_perm (sorter.select_perm _ _ _ _ h)

theorem isTop_sort {α : Type} {key : α → F} {slice sorted : List α}
    (h : sorter.sortBy slice (descendingBy (.exact functions) key) = .ok sorted) :
    IsTop key size slice (sorted.take size) := by
  have hsorted : sorted.Pairwise fun x y => key y ≤ key x := by
    rw [sorter.sort_sorted _ _ _ .of_transCmp h]
    exact (SliceSort.pairwise_sorted .of_transCmp).imp descendingBy_isLE.mp
  exact (isTop_take_of_pairwise hsorted).congr_perm (sorter.sort_perm _ _ _ h)

variable [IsStrictOrderedRing F]

/-- What one beam keeps. Under one parent, tokens rank as their extensions do. -/
theorem isTop_beamCandidates {beam : Beam σ F} {beamIdx : Nat} {candidates : List (Candidate F)}
    (h : beamCandidates sorter (.exact functions) suppress size beamIdx beam = .ok candidates) :
    IsTop (Candidate.score (.exact functions)) size
      (beamExtensions (.exact functions) suppress beamIdx beam) candidates := by
  unfold beamCandidates at h
  unfold beamExtensions
  by_cases hfinished : beam.finished
  · rw [if_pos hfinished] at h ⊢
    cases h
    exact isTop_nil
  · rw [if_neg hfinished] at h ⊢
    obtain ⟨selected, hselected, heq⟩ := Except.bind_eq_ok_iff.mp h
    rw [Except.mapError_eq_ok_iff] at hselected
    cases heq
    apply IsTop.map
    apply (isTop_select hselected).congr_score
    intro x _ y _ hle
    exact add_le_add_right hle beam.logProb

/-- Both stages together keep the best of all. -/
theorem isTop_keptCandidates {beams : List (Beam σ F)} {kept : List (Candidate F)}
    (h : keptCandidates sorter (.exact functions) suppress size (beams.map some) = .ok kept) :
    IsTop (Candidate.score (.exact functions)) size (extensions (.exact functions) suppress beams)
      kept := by
  obtain ⟨result, sorted, hresult, hsorted, rfl⟩ := keptCandidates_eq_ok h
  apply IsTop.flatMap ?_ (isTop_sort hsorted)
  rintro ⟨beam, beamIdx⟩ hentry
  exact isTop_beamCandidates (hresult _ hentry)

variable (functions sorter suppress) in
/-- **Pruning in two stages is global selection.** The candidates a step keeps score what the best
of all extensions score, none of the others scores more, and the step adds a beam for each. -/
theorem pruning_global (decoder : StepDecoder spec ε σ F) (search : BeamSearch σ F)
    (hsize : search.size < spec.vocab)
    (hlogits : ∀ beam ∈ search.beams, beam.finished = false →
      beam.lastLogits.length = spec.vocab) :
    ∃ kept rest, keptCandidates sorter (.exact functions) suppress search.size
        (search.beams.map some) = .ok kept ∧
      (kept ++ rest).Perm (extensions (.exact functions) suppress search.beams) ∧
      kept.length =
        min search.size (extensions (.exact functions) suppress search.beams).length ∧
      (kept.map (Candidate.score (.exact functions))).Perm
        ((descending ((extensions (.exact functions) suppress search.beams).map
          (Candidate.score (.exact functions)))).take search.size) ∧
      (∀ left ∈ rest, ∀ candidate ∈ kept,
        left.score (.exact functions) ≤ candidate.score (.exact functions)) ∧
      ∀ next, step sorter (.exact functions) decoder suppress search = .ok next →
        next.beams.length + next.finishedBeams.length =
          (search.finishedBeams ++ search.beams.filter Beam.finished).length + kept.length := by
  have hlonger : ∀ beam ∈ search.beams, beam.finished = false →
      search.size < beam.lastLogits.length := by
    intro beam hbeam hlive
    rw [hlogits beam hbeam hlive]
    exact hsize
  have hcomparable : Comparable (.exact functions) suppress search.beams :=
    comparable_exact search.beams
  obtain ⟨kept, hkept⟩ := exists_keptCandidates sorter hcomparable hlonger
  have htop := isTop_keptCandidates hkept
  obtain ⟨rest, hperm, hle⟩ := htop.exists_rest
  refine ⟨kept, rest, hkept, hperm, htop.length_eq, htop.scores_perm, hle, ?_⟩
  intro next hnext
  obtain ⟨candidates, hcandidates, hexpand⟩ := step_eq_ok_iff.mp hnext
  rw [hkept] at hcandidates
  cases hcandidates
  exact (length_of_expand hkept hexpand).1

/-- Two beams, of which each has an extension among the best two. -/
def rivalSearch : BeamSearch Nat ℚ where
  size := 2
  beams :=
    [{ tokens := [0, 1], logProb := 0, state := 2, lastLogits := [0, -4, -6, -8] },
      { tokens := [0, 2], logProb := -3, state := 2, lastLogits := [-2, 0, -7, -9] }]
  finishedBeams := []
  alpha := 1

theorem pruning_global_counting :
    ∃ kept, keptCandidates .stable (.exact pointFunctions) countingSearch.suppress 2
        (rivalSearch.beams.map some) = .ok kept ∧ kept.length = 2 ∧
      (kept.map (Candidate.score (.exact pointFunctions))).Perm [0, -3] := by
  obtain ⟨kept, rest, hkept, -, hlength, hscores, -⟩ :=
    pruning_global pointFunctions .stable countingSearch.suppress countingDecoder rivalSearch
      (by decide) (by decide)
  have hdescending : ((descending ((extensions (.exact pointFunctions) countingSearch.suppress
      rivalSearch.beams).map (Candidate.score (.exact pointFunctions)))).take 2) = [0, -3] := by
    decide +kernel
  rw [← hdescending]
  exact ⟨kept, hkept, hlength, hscores⟩

end BeamSearch

end RkWhisper
