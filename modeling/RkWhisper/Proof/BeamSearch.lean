import RkWhisper.BeamSearch
import RkWhisper.Lib.Exceptions
import RkWhisper.Lib.LastUse
import RkWhisper.Lib.Transition

/-!
# Beams and their parents

Several candidates of a step share a parent, which is cloned for all of them but the last. However
they are chosen, each is extended from the beam it names, so that a step is the plain one: extend
every kept candidate, in order. The beams of a search therefore carry the decoder's state and the
score of their own tokens.
-/

namespace RkWhisper

open LastUse

variable {spec : WhisperSpec} {ε σ F : Type}

namespace BeamSearch

/-! ### The candidates -/

section Candidates

variable {sorter : SliceSort.Sorter} {A : Arithmetic F} {suppress : Suppressor F} {size : Nat}
  {beams : List (Beam σ F)} {candidates : List (Candidate F)}

/-- A candidate names a beam that is not finished, and scores what the beam gives its token. -/
structure ChildOf (A : Arithmetic F) (suppress : Suppressor F) (beams : List (Beam σ F))
    (candidate : Candidate F) (parent : Beam σ F) : Prop where
  parent_eq : beams[candidate.beamIdx]? = some parent
  live : parent.finished = false
  parentLogProb_eq : candidate.parentLogProb = parent.logProb
  token_mem : (candidate.tokenLogProb, candidate.tokenId) ∈ tokenCandidates A suppress parent

theorem keptCandidates_map_some (beams : List (Beam σ F)) :
    keptCandidates sorter A suppress size (beams.map some) = do
      let candidates ← beams.zipIdx.mapM fun (beam, beamIdx) =>
        beamCandidates sorter A suppress size beamIdx beam
      let sorted ← (sorter.sortBy candidates.flatten
        (descendingBy A (Candidate.score A))).mapError .sort
      return sorted.take size := by
  unfold keptCandidates
  rw [List.zipIdx_map, List.mapM_map]
  rfl

theorem mem_of_beamCandidates {beamIdx : Nat} {beam : Beam σ F}
    (h : beamCandidates sorter A suppress size beamIdx beam = .ok candidates)
    (hparent : beams[beamIdx]? = some beam) :
    ∀ candidate ∈ candidates, ChildOf A suppress beams candidate beam := by
  intro candidate hmem
  unfold beamCandidates at h
  split at h
  · cases h
    cases hmem
  · next hlive =>
    obtain ⟨selected, hselected, heq⟩ := Except.bind_eq_ok_iff.mp h
    rw [Except.mapError_eq_ok_iff] at hselected
    cases heq
    obtain ⟨⟨logP, tokenId⟩, htoken, rfl⟩ := List.mem_map.mp hmem
    exact
      { parent_eq := hparent
        live := by simpa using hlive
        parentLogProb_eq := rfl
        token_mem := (sorter.select_perm _ _ _ _ hselected).subset (List.mem_of_mem_take htoken) }

/-- The candidates of each beam, sorted together. -/
theorem keptCandidates_eq_ok
    (h : keptCandidates sorter A suppress size (beams.map some) = .ok candidates) :
    ∃ result sorted, (∀ entry ∈ beams.zipIdx,
        beamCandidates sorter A suppress size entry.2 entry.1 = .ok (result entry)) ∧
      sorter.sortBy (beams.zipIdx.flatMap result) (descendingBy A (Candidate.score A)) =
        .ok sorted ∧ candidates = sorted.take size := by
  rw [keptCandidates_map_some] at h
  obtain ⟨parts, hparts, h⟩ := Except.bind_eq_ok_iff.mp h
  obtain ⟨sorted, hsorted, heq⟩ := Except.bind_eq_ok_iff.mp h
  rw [Except.mapError_eq_ok_iff] at hsorted
  cases heq
  obtain ⟨result, rfl, hresult⟩ := Except.exists_of_mapM_eq_ok hparts
  rw [← List.flatMap_def] at hsorted
  exact ⟨result, sorted, hresult, hsorted, rfl⟩

theorem childOf_of_mem_keptCandidates
    (h : keptCandidates sorter A suppress size (beams.map some) = .ok candidates) :
    ∀ candidate ∈ candidates, ∃ parent, ChildOf A suppress beams candidate parent := by
  intro candidate hmem
  obtain ⟨result, sorted, hresult, hsorted, rfl⟩ := keptCandidates_eq_ok h
  have hflat := (sorter.sort_perm _ _ _ hsorted).subset (List.mem_of_mem_take hmem)
  obtain ⟨⟨beam, beamIdx⟩, hbeam, hcandidate⟩ := List.mem_flatMap.mp hflat
  exact ⟨beam, mem_of_beamCandidates (hresult _ hbeam)
    (List.mem_zipIdx_iff_getElem?.mp hbeam) candidate hcandidate⟩

theorem beamCandidates_eq_error {beamIdx : Nat} {beam : Beam σ F} {panic : Panic}
    (h : beamCandidates sorter A suppress size beamIdx beam = .error panic) :
    ∃ fault, panic = .sort fault ∧ beam.finished = false ∧ sorter.selectNthUnstableBy
      (tokenCandidates A suppress beam) size (descendingBy A Prod.fst) = .error fault := by
  unfold beamCandidates at h
  split at h
  · cases h
  · next hlive =>
    rcases Except.bind_eq_error_iff.mp h with hselect | ⟨selected, -, hpure⟩
    · obtain ⟨fault, hfault, rfl⟩ := Except.mapError_eq_error_iff.mp hselect
      exact ⟨fault, rfl, by simpa using hlive, hfault⟩
    · cases hpure

/-- Only the sorts can panic while candidates are chosen. -/
theorem keptCandidates_eq_error {panic : Panic}
    (h : keptCandidates sorter A suppress size (beams.map some) = .error panic) :
    ∃ fault, panic = .sort fault ∧
      ((∃ beam ∈ beams, beam.finished = false ∧ sorter.selectNthUnstableBy
          (tokenCandidates A suppress beam) size (descendingBy A Prod.fst) = .error fault) ∨
        ∃ slice, sorter.sortBy slice (descendingBy A (Candidate.score A)) = .error fault) := by
  rw [keptCandidates_map_some] at h
  rcases Except.bind_eq_error_iff.mp h with hparts | ⟨parts, -, h⟩
  · obtain ⟨⟨beam, beamIdx⟩, hentry, hbeam⟩ := Except.exists_of_mapM_eq_error hparts
    obtain ⟨fault, rfl, hlive, hfault⟩ := beamCandidates_eq_error hbeam
    have hmem := List.mem_of_getElem? (List.mem_zipIdx_iff_getElem?.mp hentry)
    exact ⟨fault, rfl, .inl ⟨beam, hmem, hlive, hfault⟩⟩
  · rcases Except.bind_eq_error_iff.mp h with hsort | ⟨sorted, -, hpure⟩
    · obtain ⟨fault, hfault, rfl⟩ := Except.mapError_eq_error_iff.mp hsort
      exact ⟨fault, rfl, .inr ⟨_, hfault⟩⟩
    · cases hpure

end Candidates

/-! ### The loop over the candidates -/

theorem push_of_finished (search : BeamSearch σ F) {beam : Beam σ F} (h : beam.finished = true) :
    search.push beam = { search with finishedBeams := search.finishedBeams ++ [beam] } :=
  if_pos h

theorem push_of_live (search : BeamSearch σ F) {beam : Beam σ F} (h : beam.finished = false) :
    search.push beam = { search with beams := search.beams ++ [beam] } := by
  apply if_neg
  rw [h]
  exact Bool.false_ne_true

theorem mem_push_iff {search : BeamSearch σ F} {beam beam' : Beam σ F} :
    beam' ∈ (search.push beam).beams ++ (search.push beam).finishedBeams ↔
      beam' ∈ search.beams ++ search.finishedBeams ∨ beam' = beam := by
  cases hfinished : beam.finished with
  | true =>
      rw [push_of_finished search hfinished]
      simp only [List.mem_append, List.mem_singleton, or_assoc]
  | false =>
      rw [push_of_live search hfinished]
      simp only [List.mem_append, List.mem_singleton, or_right_comm]

theorem child_fields {A : Arithmetic F} {decoder : StepDecoder spec ε σ F} {parent beam : Beam σ F}
    {candidate : Candidate F} (h : child A decoder parent candidate = .ok beam) :
    beam.logProb = candidate.score A ∧ beam.tokens = parent.tokens ++ [candidate.tokenId] := by
  unfold child at h
  split at h
  · cases h
    exact ⟨rfl, rfl⟩
  · obtain ⟨⟨logits, state⟩, -, heq⟩ := Except.bind_eq_ok_iff.mp h
    cases heq
    exact ⟨rfl, rfl⟩

theorem exists_child_eq_ok {decoder : StepDecoder spec ε σ F}
    (hdecoder : ∀ state id, ∃ answer, decoder.step state id = .ok answer) (A : Arithmetic F)
    (parent : Beam σ F) (candidate : Candidate F) :
    ∃ beam, child A decoder parent candidate = .ok beam := by
  unfold child
  dsimp only
  split
  · exact ⟨_, rfl⟩
  · obtain ⟨answer, hanswer⟩ := hdecoder parent.state candidate.tokenId
    rw [hanswer]
    exact ⟨_, rfl⟩

section Expansion

variable {A : Arithmetic F} {decoder : StepDecoder spec ε σ F} {parents : List (Beam σ F)}
  {candidates : List (Candidate F)}

theorem refCounts_eq (h : ∀ candidate ∈ candidates, candidate.beamIdx < parents.length) :
    ∃ counts, refCounts parents.length candidates = .ok counts ∧
      ∀ i < parents.length, counts[i]? = some ((candidates.map Candidate.beamIdx).count i) := by
  induction candidates using List.reverseRecOn with
  | nil =>
      refine ⟨_, rfl, fun i hi => ?_⟩
      rw [List.getElem?_replicate, if_pos hi]
      rfl
  | append_singleton candidates candidate ih =>
      rw [List.forall_mem_append, List.forall_mem_singleton] at h
      obtain ⟨counts, hcounts, hcount⟩ := ih h.1
      have hcandidate := hcount candidate.beamIdx h.2
      refine ⟨counts.set candidate.beamIdx
        ((candidates.map Candidate.beamIdx).count candidate.beamIdx + 1), ?_, ?_⟩
      · unfold refCounts at hcounts ⊢
        rw [List.foldlM_append, hcounts, Except.ok_bind_eq, List.foldlM_cons,
          Checked.index_of_getElem? hcandidate]
        rfl
      · rw [List.map_append, List.map_singleton]
        exact getElem?_count_snoc hcount h.2

/-- The parent of the next candidate is found, and those of the others stay. -/
theorem takeParent_of_held {slots : List (Option (Beam σ F))} {counts : List Nat} {beamIdx : Nat}
    {uses : List Nat} (h : Held parents (beamIdx :: uses) slots counts) :
    ∃ parent slots' counts', parents[beamIdx]? = some parent ∧
      takeParent slots counts beamIdx = .ok (parent, slots', counts') ∧
      Held parents uses slots' counts' := by
  obtain ⟨parent, hparent, hslot⟩ := h.held beamIdx List.mem_cons_self
  refine ⟨parent, _, _, hparent, ?_, h.tail⟩
  unfold takeParent
  rw [Checked.index_of_getElem? h.count_head, Checked.index_of_getElem? hslot]
  rfl

/-- One candidate, extended from the beam it names. A candidate that names none does not occur. -/
def extendFrom (A : Arithmetic F) (decoder : StepDecoder spec ε σ F) (parents : List (Beam σ F))
    (search : BeamSearch σ F) (candidate : Candidate F) : Except ε (BeamSearch σ F) :=
  match parents[candidate.beamIdx]? with
  | none => .ok search
  | some parent => do return search.push (← child A decoder parent candidate)

/-- Moved or cloned, every candidate has the beam it names for its parent. -/
theorem expand_eq {slots : List (Option (Beam σ F))} {counts : List Nat}
    (h : Held parents (candidates.map Candidate.beamIdx) slots counts) (search : BeamSearch σ F) :
    (do
      let (search, _) ← candidates.foldlM (expandOne A decoder) (search, slots, counts)
      return search) =
    (candidates.foldlM (extendFrom A decoder parents) search).mapError .error := by
  induction candidates generalizing search slots counts with
  | nil => rfl
  | cons candidate candidates ih =>
      rw [List.map_cons] at h
      obtain ⟨parent, slots', counts', hparent, htake, hheld⟩ := takeParent_of_held h
      rw [List.foldlM_cons, List.foldlM_cons]
      have hone : expandOne A decoder (search, slots, counts) candidate =
          (child A decoder parent candidate).mapError .error >>= fun beam =>
            .ok (search.push beam, slots', counts') := by
        unfold expandOne
        simp only [htake, Except.mapError_ok, Except.ok_bind_eq, Except.pure_eq_ok]
      have hextend : extendFrom A decoder parents search candidate =
          child A decoder parent candidate >>= fun beam => .ok (search.push beam) := by
        unfold extendFrom
        rw [hparent]
        rfl
      rw [hone, hextend]
      cases child A decoder parent candidate with
      | error e => rfl
      | ok beam => exact ih hheld (search.push beam)

end Expansion

/-! ### The step -/

section Step

variable {sorter : SliceSort.Sorter} {A : Arithmetic F} {decoder : StepDecoder spec ε σ F}
  {suppress : Suppressor F} {candidates : List (Candidate F)}

/-- The search with its beams taken out, those that were finished among its results. -/
def drained (search : BeamSearch σ F) : BeamSearch σ F :=
  { search with
    beams := []
    finishedBeams := search.finishedBeams ++ search.beams.filter Beam.finished }

theorem filterMap_finished (beams : List (Beam σ F)) :
    ((beams.map some).filterMap fun slot => slot.filter Beam.finished) =
      beams.filter Beam.finished := by
  rw [List.filterMap_map, ← List.filterMap_eq_filter]
  apply List.filterMap_congr
  intro beam _
  rw [Function.comp_apply, Option.filter_some, Option.guard_def]

theorem held_of_childOf {parents : List (Beam σ F)} {counts : List Nat}
    (hchild : ∀ candidate ∈ candidates, ∃ parent, ChildOf A suppress parents candidate parent)
    (hcounts : ∀ i < parents.length,
      counts[i]? = some ((candidates.map Candidate.beamIdx).count i)) :
    Held parents (candidates.map Candidate.beamIdx)
      ((parents.map some).map fun slot => slot.filter fun beam => !beam.finished) counts where
  counted := by
    intro i hi
    obtain ⟨candidate, hmem, rfl⟩ := List.mem_map.mp hi
    obtain ⟨parent, hparent⟩ := hchild candidate hmem
    exact hcounts _ (List.getElem?_eq_some_iff.mp hparent.parent_eq).1
  held := by
    intro i hi
    obtain ⟨candidate, hmem, rfl⟩ := List.mem_map.mp hi
    obtain ⟨parent, hparent⟩ := hchild candidate hmem
    refine ⟨parent, hparent.parent_eq, ?_⟩
    rw [List.getElem?_map, List.getElem?_map, hparent.parent_eq, Option.map_some, Option.map_some,
      Option.filter_some, hparent.live]
    rfl

/-- **A step is the plain one**: it chooses candidates and extends each from the beam it names. -/
theorem step_eq (search : BeamSearch σ F) : step sorter A decoder suppress search =
    ((keptCandidates sorter A suppress search.size (search.beams.map some)).mapError .panic >>=
      fun candidates =>
        (candidates.foldlM (extendFrom A decoder search.beams) search.drained).mapError .error) := by
  unfold step
  cases hkept : keptCandidates sorter A suppress search.size (search.beams.map some) with
  | error panic => simp only [hkept, Except.mapError_error, Except.error_bind_eq]
  | ok candidates =>
      have hchild := childOf_of_mem_keptCandidates hkept
      have hinside : ∀ candidate ∈ candidates, candidate.beamIdx < search.beams.length := by
        intro candidate hmem
        obtain ⟨parent, hparent⟩ := hchild candidate hmem
        exact (List.getElem?_eq_some_iff.mp hparent.parent_eq).1
      obtain ⟨counts, hcounts, hcount⟩ := refCounts_eq hinside
      simp only [hkept, Except.mapError_ok, Except.ok_bind_eq, filterMap_finished, List.length_map,
        hcounts]
      exact expand_eq (held_of_childOf hchild hcount) search.drained

/-- No reference is counted wrong, and no parent is missing: only the sorts can panic. -/
theorem step_eq_panic {search : BeamSearch σ F} {panic : Panic}
    (h : step sorter A decoder suppress search = .error (.panic panic)) :
    keptCandidates sorter A suppress search.size (search.beams.map some) = .error panic := by
  rw [step_eq] at h
  rcases Except.bind_eq_error_iff.mp h with hkept | ⟨candidates, -, hexpand⟩
  · obtain ⟨panic', hpanic, heq⟩ := Except.mapError_eq_error_iff.mp hkept
    cases heq
    exact hpanic
  · obtain ⟨e, -, heq⟩ := Except.mapError_eq_error_iff.mp hexpand
    cases heq

theorem step_eq_ok_iff {search next : BeamSearch σ F} :
    step sorter A decoder suppress search = .ok next ↔ ∃ candidates,
      keptCandidates sorter A suppress search.size (search.beams.map some) = .ok candidates ∧
        candidates.foldlM (extendFrom A decoder search.beams) search.drained = .ok next := by
  simp only [step_eq, Except.bind_eq_ok_iff, Except.mapError_eq_ok_iff]

section Expand

variable {parents : List (Beam σ F)} {start final : BeamSearch σ F}
  (hparents : ∀ candidate ∈ candidates, ∃ parent, ChildOf A suppress parents candidate parent)

include hparents in
theorem exists_expand (hdecoder : ∀ state id, ∃ answer, decoder.step state id = .ok answer)
    (start : BeamSearch σ F) :
    ∃ final, candidates.foldlM (extendFrom A decoder parents) start = .ok final := by
  apply Except.exists_foldlM_eq_ok
  intro reached candidate hmem
  obtain ⟨parent, hparent⟩ := hparents candidate hmem
  obtain ⟨beam, hbeam⟩ := exists_child_eq_ok hdecoder A parent candidate
  refine ⟨reached.push beam, ?_⟩
  unfold extendFrom
  rw [hparent.parent_eq]
  simp only [hbeam, Except.ok_bind_eq, Except.pure_eq_ok]

variable (h : candidates.foldlM (extendFrom A decoder parents) start = .ok final)

include hparents h

/-- **Expansion rule.** What every child of a kept candidate keeps holds when all are pushed. -/
theorem expand_invariant {P : List (Candidate F) → BeamSearch σ F → Prop} (hstart : P [] start)
    (hpush : ∀ done candidate parent beam reached, P done reached →
      ChildOf A suppress parents candidate parent → child A decoder parent candidate = .ok beam →
      P (done ++ [candidate]) (reached.push beam)) : P candidates final := by
  apply Except.foldlM_invariant (P := P) ?_ h hstart
  intro done candidate reached reached' hreached hextend hmem
  obtain ⟨parent, hparent⟩ := hparents candidate hmem
  unfold extendFrom at hextend
  rw [hparent.parent_eq] at hextend
  obtain ⟨beam, hbeam, heq⟩ := Except.bind_eq_ok_iff.mp hextend
  cases heq
  exact hpush done candidate parent beam reached hreached hparent hbeam

/-- Every kept candidate becomes a beam. -/
theorem exists_beam_of_candidate : ∀ candidate ∈ candidates,
    ∃ beam ∈ final.beams ++ final.finishedBeams, beam.logProb = candidate.score A := by
  apply expand_invariant hparents h (P := fun done reached => ∀ candidate ∈ done,
    ∃ beam ∈ reached.beams ++ reached.finishedBeams, beam.logProb = candidate.score A)
  · exact fun _ hmem => absurd hmem List.not_mem_nil
  · intro done candidate parent beam reached hreached _ hbeam
    rw [List.forall_mem_append, List.forall_mem_singleton]
    constructor
    · intro earlier hearlier
      obtain ⟨beam', hbeam', hscore⟩ := hreached earlier hearlier
      exact ⟨beam', mem_push_iff.mpr (.inl hbeam'), hscore⟩
    · exact ⟨beam, mem_push_iff.mpr (.inr rfl), (child_fields hbeam).1⟩

end Expand

/-- A property of the live beams of a search, and one of its results. -/
structure Beams (live ended : Beam σ F → Prop) (search : BeamSearch σ F) : Prop where
  live : ∀ beam ∈ search.beams, beam.finished = false ∧ live beam
  ended : ∀ beam ∈ search.finishedBeams, ended beam

variable {live ended : Beam σ F → Prop} {search next : BeamSearch σ F}

/-- Live beams are not finished, so that none is moved to the results. -/
theorem Beams.drained (h : Beams live ended search) : Beams live ended search.drained where
  live := fun _ hbeam => absurd hbeam List.not_mem_nil
  ended := by
    have hnone : search.beams.filter Beam.finished = [] := by
      rw [List.filter_eq_nil_iff]
      intro beam hbeam
      rw [(h.live beam hbeam).1]
      exact Bool.false_ne_true
    intro beam hbeam
    rw [BeamSearch.drained, hnone, List.append_nil] at hbeam
    exact h.ended beam hbeam

theorem Beams.push (h : Beams live ended search) {beam : Beam σ F}
    (hlive : beam.finished = false → live beam) (hended : beam.finished = true → ended beam) :
    Beams live ended (search.push beam) := by
  cases hfinished : beam.finished with
  | true =>
      rw [push_of_finished search hfinished]
      refine ⟨h.live, ?_⟩
      rw [List.forall_mem_append, List.forall_mem_singleton]
      exact ⟨h.ended, hended hfinished⟩
  | false =>
      rw [push_of_live search hfinished]
      refine ⟨?_, h.ended⟩
      rw [List.forall_mem_append, List.forall_mem_singleton]
      exact ⟨h.live, hfinished, hlive hfinished⟩

/-- **Step rule.** Live beams are extended, and results stay. -/
theorem Beams.step {live' ended' : Beam σ F → Prop} (h : Beams live ended search)
    (hchild : ∀ parent candidate beam, live parent →
      ChildOf A suppress search.beams candidate parent →
      child A decoder parent candidate = .ok beam →
      (beam.finished = false → live' beam) ∧ (beam.finished = true → ended' beam))
    (hended : ∀ beam, ended beam → ended' beam)
    (hstep : step sorter A decoder suppress search = .ok next) : Beams live' ended' next := by
  obtain ⟨candidates, hkept, hexpand⟩ := step_eq_ok_iff.mp hstep
  apply expand_invariant (childOf_of_mem_keptCandidates hkept) hexpand
    (P := fun _ reached => Beams live' ended' reached)
  · exact ⟨fun _ hbeam => absurd hbeam List.not_mem_nil,
      fun beam hbeam => hended beam (h.drained.ended beam hbeam)⟩
  · intro done candidate parent beam reached hreached hparent hbeam
    have hlive := (h.live parent (List.mem_of_getElem? hparent.parent_eq)).2
    obtain ⟨hlive', hended⟩ := hchild parent candidate beam hlive hparent hbeam
    exact hreached.push hlive' hended

end Step

end BeamSearch

/-! ### Whole searches -/

/-- What a search starts with and runs against. -/
structure SearchInput (spec : WhisperSpec) (ε σ F : Type) where
  arithmetic : Arithmetic F
  decoder : StepDecoder spec ε σ F
  suppress : Suppressor F
  size : Nat
  initialState : σ
  initialLogits : List F
  initialTokens : List UInt32
  alpha : F

namespace SearchInput

variable (input : SearchInput spec ε σ F) (sorter : SliceSort.Sorter) (g : List UInt32)

def start : BeamSearch σ F :=
  BeamSearch.new input.arithmetic input.size input.initialState input.initialLogits
    input.initialTokens input.alpha

def step (search : BeamSearch σ F) : Except (Failure ε) (BeamSearch σ F) :=
  BeamSearch.step sorter input.arithmetic input.decoder input.suppress search

/-- Any number of steps. -/
abbrev Run : List Unit → BeamSearch σ F → Prop :=
  Transition.Run (fun search _ next => input.step sorter search = .ok next) input.start

/-- The decoder stepped through `g`: the logits of the last step, and the state. -/
def decodeThrough : Except ε (List F × σ) :=
  g.foldlM (fun decoded tokenId => input.decoder.step decoded.2 tokenId)
    (input.initialLogits, input.initialState)

/-- The log-softmax, after `g`, of the suppressed logits at a token. -/
def tokenLogProb (tokenId : UInt32) : Option F := do
  let (logits, _) ← (input.decodeThrough g).toOption
  (logSoftmax input.arithmetic
    (input.suppress.apply (input.initialTokens ++ g) logits))[tokenId.toNat]?

/-- That of every token of `g`, at the prefix before it. -/
def tokenLogProbs : List (Option F) :=
  g.zipIdx.map fun (tokenId, i) => input.tokenLogProb (g.take i) tokenId

/-- Their sum. -/
def logProb : Option F :=
  (input.tokenLogProbs g).foldlM (fun sum logP => input.arithmetic.add sum <$> logP)
    (input.arithmetic.literal 0)

/-- A live beam that has generated `g`. -/
structure Live (beam : Beam σ F) : Prop where
  tokens_eq : beam.tokens = input.initialTokens ++ g
  eot_notMem : spec.tokenEot ∉ g
  decoded : input.decodeThrough g = .ok (beam.lastLogits, beam.state)
  logProb_eq : input.logProb g = some beam.logProb

/-- A live beam that has generated `g`, with the end of the text after it. -/
def Ended (beam : Beam σ F) : Prop :=
  ∃ parent, input.Live g parent ∧ beam.tokens = parent.tokens ++ [spec.tokenEot] ∧
    beam.state = parent.state ∧ ∃ logP, input.tokenLogProb g spec.tokenEot = some logP ∧
      beam.logProb = input.arithmetic.add parent.logProb logP

variable {input sorter g}

theorem decodeThrough_snoc (tokenId : UInt32) : input.decodeThrough (g ++ [tokenId]) =
    (input.decodeThrough g >>= fun decoded => input.decoder.step decoded.2 tokenId) := by
  unfold decodeThrough
  rw [List.foldlM_append]
  congr 1
  funext decoded
  rw [List.foldlM_cons]
  exact bind_pure _

theorem tokenLogProbs_snoc (tokenId : UInt32) : input.tokenLogProbs (g ++ [tokenId]) =
    input.tokenLogProbs g ++ [input.tokenLogProb g tokenId] := by
  unfold tokenLogProbs
  rw [List.zipIdx_append, List.map_append]
  congr 1
  · apply List.map_congr_left
    rintro ⟨id, i⟩ hmem
    obtain ⟨hlt, -⟩ := List.getElem?_eq_some_iff.mp (List.mem_zipIdx_iff_getElem?.mp hmem)
    change input.tokenLogProb ((g ++ [tokenId]).take i) id = input.tokenLogProb (g.take i) id
    rw [List.take_append_of_le_length hlt.le]
  · change [input.tokenLogProb ((g ++ [tokenId]).take (0 + g.length)) tokenId] = _
    rw [Nat.zero_add, List.take_left]

theorem logProb_snoc {sum logP : F} {tokenId : UInt32} (hsum : input.logProb g = some sum)
    (hlogP : input.tokenLogProb g tokenId = some logP) :
    input.logProb (g ++ [tokenId]) = some (input.arithmetic.add sum logP) := by
  unfold logProb at hsum ⊢
  rw [tokenLogProbs_snoc, List.foldlM_append, hsum, hlogP]
  rfl

theorem length_decodeThrough {limit : Nat} (hvocab : spec.vocab ≤ limit)
    (hinitial : input.initialLogits.length ≤ limit) {logits : List F} {state : σ}
    (h : input.decodeThrough g = .ok (logits, state)) : logits.length ≤ limit := by
  apply Except.foldlM_invariant (P := fun _ decoded => decoded.1.length ≤ limit) ?_ h hinitial
  intro done tokenId decoded decoded' _ hstep _
  rw [input.decoder.length_step hstep]
  exact hvocab

/-- The number of a token in the list of candidates is its id. -/
theorem tokenLogProb_of_mem {beam : Beam σ F} {logP : F} {tokenId : UInt32}
    (hids : beam.lastLogits.length ≤ 2 ^ 32) (htokens : beam.tokens = input.initialTokens ++ g)
    (hdecoded : input.decodeThrough g = .ok (beam.lastLogits, beam.state))
    (hmem : (logP, tokenId) ∈ BeamSearch.tokenCandidates input.arithmetic input.suppress beam) :
    input.tokenLogProb g tokenId = some logP := by
  obtain ⟨⟨logP, id⟩, hid, heq⟩ := List.mem_map.mp hmem
  obtain ⟨rfl, rfl⟩ := Prod.mk.inj heq
  have hget := List.mem_zipIdx_iff_getElem?.mp hid
  obtain ⟨hlt, -⟩ := List.getElem?_eq_some_iff.mp hget
  unfold logSoftmax at hlt
  rw [List.length_map, input.suppress.length_apply] at hlt
  unfold tokenLogProb
  rw [hdecoded, ← htokens, UInt32.toNat_ofNat_of_lt' (hlt.trans_le hids)]
  exact hget

/-- A child of a live beam has generated one token more, or has ended. -/
theorem child_of_live {parent beam : Beam σ F} {beams : List (Beam σ F)} {candidate : Candidate F}
    (hids : parent.lastLogits.length ≤ 2 ^ 32) (hlive : input.Live g parent)
    (hchild : BeamSearch.ChildOf input.arithmetic input.suppress beams candidate parent)
    (h : BeamSearch.child input.arithmetic input.decoder parent candidate = .ok beam) :
    (beam.finished = false → input.Live (g ++ [candidate.tokenId]) beam) ∧
      (beam.finished = true → input.Ended g beam) := by
  have hlogP := tokenLogProb_of_mem hids hlive.tokens_eq hlive.decoded hchild.token_mem
  have hscore : candidate.score input.arithmetic =
      input.arithmetic.add parent.logProb candidate.tokenLogProb := by
    rw [Candidate.score, hchild.parentLogProb_eq]
  unfold BeamSearch.child at h
  split at h
  · next heot =>
    cases h
    rw [heot] at hlogP
    refine ⟨fun hlive' => absurd hlive'.symm Bool.false_ne_true, fun _ => ?_⟩
    exact ⟨parent, hlive, by rw [heot], rfl, _, hlogP, hscore⟩
  · next hne =>
    obtain ⟨⟨logits, state⟩, hstep, heq⟩ := Except.bind_eq_ok_iff.mp h
    cases heq
    refine ⟨fun _ => ⟨?_, ?_, ?_, ?_⟩, fun hended => absurd hended Bool.false_ne_true⟩
    · rw [hlive.tokens_eq, List.append_assoc]
    · rw [List.mem_append, List.mem_singleton, not_or]
      exact ⟨hlive.eot_notMem, fun heq => hne heq.symm⟩
    · rw [decodeThrough_snoc, hlive.decoded]
      exact hstep
    · rw [hscore]
      exact logProb_snoc hlive.logProb_eq hlogP

/-! ### The invariant -/

/-- Every beam of the search carries what its own tokens say. -/
abbrev Consistent (input : SearchInput spec ε σ F) : BeamSearch σ F → Prop :=
  BeamSearch.Beams (fun beam => ∃ g, input.Live g beam)
    (fun beam => beam.finished = true ∧ ∃ g, input.Ended g beam)

theorem consistent_start : input.Consistent input.start where
  live := by
    intro beam hbeam
    cases List.mem_singleton.mp hbeam
    exact ⟨rfl, [], (List.append_nil _).symm, List.not_mem_nil, rfl, rfl⟩
  ended := by
    intro beam hbeam
    cases hbeam

section Ids

variable (hids : spec.vocab ≤ 2 ^ 32) (hinitial : input.initialLogits.length ≤ 2 ^ 32)

include hids hinitial

theorem consistent_of_run {steps : List Unit} {search : BeamSearch σ F}
    (hrun : input.Run sorter steps search) : input.Consistent search := by
  apply hrun.invariant (P := fun _ search => input.Consistent search) consistent_start
  intro _ search _ next hconsistent hstep
  refine hconsistent.step ?_ (fun _ => id) hstep
  rintro parent candidate beam ⟨g, hlive⟩ hparent hbeam
  have hlength := length_decodeThrough hids hinitial hlive.decoded
  obtain ⟨hchild, hended⟩ := child_of_live hlength hlive hparent hbeam
  exact ⟨fun hfinished => ⟨_, hchild hfinished⟩,
    fun hfinished => ⟨hfinished, g, hended hfinished⟩⟩

/-- **Beam bookkeeping.** In every search, a live beam carries the state, the logits and the score
of the tokens it has generated, an ended one those of such a beam and one final end of the text, and
no step takes a parent that is gone or counts a reference below zero. -/
theorem beams_consistent {steps : List Unit} {search : BeamSearch σ F}
    (hrun : input.Run sorter steps search) :
    (∀ beam ∈ search.beams, beam.finished = false ∧ ∃ g, input.Live g beam) ∧
      (∀ beam ∈ search.finishedBeams, beam.finished = true ∧ ∃ g, input.Ended g beam) ∧
      ∀ panic, input.step sorter search = .error (.panic panic) →
        ∃ fault, panic = .sort fault := by
  have hconsistent := consistent_of_run hids hinitial hrun
  refine ⟨hconsistent.live, hconsistent.ended, fun panic hpanic => ?_⟩
  obtain ⟨fault, hfault, -⟩ :=
    BeamSearch.keptCandidates_eq_error (BeamSearch.step_eq_panic hpanic)
  exact ⟨fault, hfault⟩

end Ids

end SearchInput

/-! ### A small vocabulary -/

/-- The functions where every number is zero or far below: there is one greatest logit, and the
others have no probability. -/
def pointFunctions : Arithmetic.Functions ℚ where
  negInfinity := -1000000
  powf x _ := x
  exp x := if x = 0 then 1 else 0
  ln x := x - 1
  toU32 x := UInt32.ofNat x.floor.toNat

/-- Logits that leave one token. -/
def pointLogits (vocab tokenId : Nat) : List ℚ :=
  (List.range vocab).map fun id => if id = tokenId then 0 else -10000

def fourTokens : WhisperSpec where
  encSeq := 1
  nLayers := 1
  nHeads := 1
  dHead := 1
  tCache := 8
  vocab := 4
  tokenEot := 3

/-- Every token is followed by the next one, up to the end of the text. -/
def countingDecoder : StepDecoder fourTokens Empty Nat ℚ where
  step state tokenId := .ok (pointLogits 4 (tokenId.toNat + 1), state + 1)
  length_step := by
    intro _ _ _ _ h
    cases h
    rfl

def countingSearch : SearchInput fourTokens Empty Nat ℚ where
  arithmetic := .exact pointFunctions
  decoder := countingDecoder
  suppress := ⟨fun _ logits => logits, fun _ _ => rfl⟩
  size := 2
  initialState := 1
  initialLogits := pointLogits 4 1
  initialTokens := [0]
  alpha := 1

theorem countingSearch_run : ∃ search, countingSearch.Run .stable [(), (), ()] search := by
  have hsome : ([(), (), ()].foldlM (fun search _ => (countingSearch.step .stable search).toOption)
      countingSearch.start).isSome = true := by decide +kernel
  obtain ⟨search, hsearch⟩ := Option.isSome_iff_exists.mp hsome
  refine ⟨search, Transition.Run.of_foldlM (fun _ _ _ hnext => ?_) hsearch⟩
  exact Except.toOption_eq_some_iff.mp hnext

theorem SearchInput.beams_consistent_counting :
    ∃ search, countingSearch.Run .stable [(), (), ()] search ∧
      (∀ beam ∈ search.beams, beam.finished = false ∧ ∃ g, countingSearch.Live g beam) ∧
      (∀ beam ∈ search.finishedBeams, beam.finished = true ∧ ∃ g, countingSearch.Ended g beam) ∧
      ∀ panic, countingSearch.step .stable search = .error (.panic panic) →
        ∃ fault, panic = .sort fault := by
  obtain ⟨search, hrun⟩ := countingSearch_run
  exact ⟨search, hrun, SearchInput.beams_consistent (by decide) (by decide) hrun⟩

end RkWhisper
