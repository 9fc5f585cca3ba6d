import RkWhisper.Proof.CertainText
import RkWhisper.Proof.GreedySuppression

/-!
# Who hands the end of the text on

Suppression takes every forbidden token down to one floor, and the end of the text is never seen in
a live beam, so that it is never penalized. A decoder whose logits all lie on that floor leaves the
end of the text among the greatest at every step. A selection that breaks ties in its favour then
ends a hypothesis that no other one overtakes, whatever the options suppress.
-/

namespace RkWhisper

variable {spec : WhisperSpec} {ε σ F : Type}

/-! ### Logits on the floor -/

section Floor

variable [Field F]

variable (F) in
/-- Logits that suppression does not change. -/
def floorLogits (vocab : Nat) : List F := List.replicate vocab (TokenSuppressor.exactFloor F)

theorem length_floorLogits (vocab : Nat) : (floorLogits F vocab).length = vocab :=
  List.length_replicate

variable [LinearOrder F]

/-- One of the greatest elements of a list stands at an index. -/
def LeadsAt (index : Nat) (xs : List F) : Prop :=
  ∃ greatest, xs[index]? = some greatest ∧ ∀ x ∈ xs, x ≤ greatest

variable [IsStrictOrderedRing F] {functions : Arithmetic.Functions F}

theorem TokenSuppressor.leadsAt_apply {suppressor : TokenSuppressor} {vocab : Nat}
    {prompt generated : List UInt32} {token : UInt32}
    (hprompt : suppressor.promptLen = prompt.length) (hvocab : token.toNat < vocab)
    (htoken : token ∉ generated) :
    LeadsAt token.toNat
      (suppressor.apply (.exact functions) (prompt ++ generated) (floorLogits F vocab)) := by
  let before := floored (.exact functions) suppressor (prompt ++ generated) (floorLogits F vocab)
  have hfloors : Floors (.exact functions) (suppressor.ForbidsAt generated) (floorLogits F vocab)
    before := floors_floored hprompt (floorLogits F vocab)
  have hbefore : ∀ i < vocab, before[i]? = some (exactFloor F) := by
    intro i hi
    by_cases hforbidden : suppressor.ForbidsAt generated i
    · exact hfloors.floor i (by rwa [length_floorLogits]) hforbidden
    · refine (hfloors.keep i hforbidden).trans ?_
      exact List.getElem?_replicate_of_lt hi
  have hlength : before.length = vocab := hfloors.length_eq.trans (length_floorLogits vocab)
  rw [apply_eq, hprompt, List.drop_left]
  refine ⟨exactFloor F, (kept_of_notMem htoken before).trans (hbefore _ hvocab), ?_⟩
  intro x hx
  obtain ⟨i, hi⟩ := List.getElem?_of_mem hx
  have hlt : i < vocab := by
    rw [← hlength, ← length_foldl_penalizeSeen (.exact functions) suppressor.sot generated
      ([], before)]
    exact (List.getElem?_eq_some_iff.mp hi).1
  rcases penalized_or_kept suppressor.sot generated before i with hkept | hpenalized
  · rw [hkept, hbefore i hlt] at hi
    exact (Option.some.inj hi).ge
  · rw [hpenalized, hbefore i hlt] at hi
    exact (Option.some.inj hi).symm.trans_le penalize_exactFloor

end Floor

/-! ### The end of the text comes first -/

variable (spec) in
/-- Of tokens with one score, a selection that takes the end of the text before any other. -/
def eotFirst : SliceSort.Sorter :=
  .arranged (fun slice => slice.rotate spec.tokenEot.toNat) fun slice =>
    List.rotate_perm slice spec.tokenEot.toNat

namespace BeamSearch

section Candidates

variable [Field F] [LinearOrder F] {functions : Arithmetic.Functions F} {suppress : Suppressor F}
  {size : Nat} {beams : List (Beam σ F)} {beam : Beam σ F}

/-- The end of the text has one of the greatest logits of the beam. -/
def FavoursEot (spec : WhisperSpec) (suppress : Suppressor F) (beam : Beam σ F) : Prop :=
  LeadsAt spec.tokenEot.toNat (suppress.apply beam.tokens beam.lastLogits)

theorem eotFirst_select {slice selected : List (F × UInt32)} {best : F × UInt32} {index : Nat}
    (hget : slice[spec.tokenEot.toNat]? = some best) (hle : ∀ entry ∈ slice, entry.1 ≤ best.1)
    (h : (eotFirst spec).selectNthUnstableBy slice index
      (descendingBy (.exact functions) Prod.fst) = .ok selected) :
    ∃ rest, selected = best :: rest := by
  obtain ⟨hlt, hget⟩ := List.getElem?_eq_some_iff.mp hget
  change (if _ then _ else _) = _ at h
  split at h
  · cases h
    have hmem : ∀ entry ∈ slice.rotate spec.tokenEot.toNat, entry.1 ≤ best.1 := by
      intro entry hentry
      exact hle entry (List.mem_rotate.mp hentry)
    change ∃ rest, SliceSort.sorted _ (slice.rotate spec.tokenEot.toNat) = best :: rest
    rw [List.rotate_eq_drop_append_take hlt.le, List.drop_eq_getElem_cons hlt, hget,
      List.cons_append] at hmem ⊢
    refine ⟨_, SliceSort.sorted_cons fun entry hentry => descendingBy_isLE.mpr ?_⟩
    exact hmem entry (List.mem_cons_of_mem best hentry)
  · cases h

variable [IsStrictOrderedRing F]

variable (functions) in
theorem LeadsAt.logSoftmax {index : Nat} {logits : List F} (h : LeadsAt index logits) :
    LeadsAt index (logSoftmax (.exact functions) logits) := by
  obtain ⟨greatest, hget, hle⟩ := h
  unfold RkWhisper.logSoftmax
  rw [LeadsAt, List.getElem?_map, hget]
  refine ⟨_, rfl, fun logP hlogP => ?_⟩
  obtain ⟨l, hl, rfl⟩ := List.mem_map.mp hlogP
  exact sub_le_sub_right (hle l hl) _

variable (functions) in
theorem FavoursEot.exists_candidate (h : FavoursEot spec suppress beam) :
    ∃ logP, (tokenCandidates (.exact functions) suppress beam)[spec.tokenEot.toNat]? =
        some (logP, spec.tokenEot) ∧
      ∀ candidate ∈ tokenCandidates (.exact functions) suppress beam, candidate.1 ≤ logP := by
  obtain ⟨logP, hget, hle⟩ := LeadsAt.logSoftmax functions h
  refine ⟨logP, ?_, ?_⟩
  · unfold tokenCandidates
    rw [List.getElem?_map, List.getElem?_zipIdx, hget]
    simp only [Option.map_some, Nat.zero_add, UInt32.ofNat_toNat]
  · intro candidate hmem
    obtain ⟨⟨logP', id⟩, hid, rfl⟩ := List.mem_map.mp hmem
    exact hle logP' (List.mem_of_getElem? (List.mem_zipIdx_iff_getElem?.mp hid))

/-- What a beam keeps starts with the end of the text, which scores as much as the others. -/
theorem beamCandidates_eotFirst {beamIdx : Nat} {part : List (Candidate F)}
    (hlive : beam.finished = false) (hfavours : FavoursEot spec suppress beam) (hpos : 0 < size)
    (h : beamCandidates (eotFirst spec) (.exact functions) suppress size beamIdx beam = .ok part) :
    ∃ first rest, part = first :: rest ∧ first.tokenId = spec.tokenEot ∧
      ∀ candidate ∈ part, candidate.score (.exact functions) ≤ first.score (.exact functions) := by
  obtain ⟨logP, hget, hle⟩ := hfavours.exists_candidate functions
  unfold beamCandidates at h
  rw [if_neg (hlive ▸ Bool.false_ne_true)] at h
  obtain ⟨selected, hselected, heq⟩ := Except.bind_eq_ok_iff.mp h
  rw [Except.mapError_eq_ok_iff] at hselected
  have hperm := (eotFirst spec).select_perm _ _ _ _ hselected
  obtain ⟨rest, rfl⟩ := eotFirst_select hget hle hselected
  obtain ⟨left, rfl⟩ := Nat.exists_eq_succ_of_ne_zero hpos.ne'
  cases heq
  refine ⟨_, _, rfl, rfl, fun candidate hcandidate => ?_⟩
  obtain ⟨⟨tokenLogProb, tokenId⟩, htoken, rfl⟩ := List.mem_map.mp hcandidate
  have hkept := hperm.subset (List.mem_of_mem_take htoken)
  exact add_le_add_right (hle _ hkept) beam.logProb

/-- The candidates of a step start with an end of the text, which scores as much as the others. -/
theorem keptCandidates_eotFirst {kept : List (Candidate F)} (hne : beams ≠ [])
    (hbeams : ∀ beam ∈ beams, beam.finished = false ∧ FavoursEot spec suppress beam)
    (hpos : 0 < size)
    (h : keptCandidates (eotFirst spec) (.exact functions) suppress size (beams.map some) =
      .ok kept) :
    ∃ first ∈ kept, first.tokenId = spec.tokenEot ∧
      ∀ candidate ∈ kept, candidate.score (.exact functions) ≤ first.score (.exact functions) := by
  obtain ⟨result, sorted, hresult, hsort, rfl⟩ := keptCandidates_eq_ok h
  have hpart : ∀ entry ∈ beams.zipIdx, ∃ first rest, result entry = first :: rest ∧
      first.tokenId = spec.tokenEot ∧ ∀ candidate ∈ result entry,
        candidate.score (.exact functions) ≤ first.score (.exact functions) := by
    rintro ⟨beam, beamIdx⟩ hentry
    have hbeam := List.mem_of_getElem? (List.mem_zipIdx_iff_getElem?.mp hentry)
    exact beamCandidates_eotFirst (hbeams beam hbeam).1 (hbeams beam hbeam).2 hpos
      (hresult _ hentry)
  have hsorted := (eotFirst spec).sort_sorted _ _ _ .of_transCmp hsort
  have hpairwise := @SliceSort.pairwise_sorted _ (descendingBy (.exact functions)
    (Candidate.score (.exact functions))) (beams.zipIdx.flatMap result) .of_transCmp
  rw [← hsorted] at hpairwise
  cases sorted with
  | nil =>
      obtain ⟨beam, others, rfl⟩ := List.exists_cons_of_ne_nil hne
      obtain ⟨first, rest, hpart, -⟩ := hpart (beam, 0) List.mem_cons_self
      have hperm := (eotFirst spec).sort_perm _ _ _ hsort
      rw [List.zipIdx_cons, List.flatMap_cons, hpart] at hperm
      cases hperm.symm.eq_nil
  | cons first rest =>
      -- The head of all is the head of what one of the beams keeps.
      have hhead : (SliceSort.sorted (descendingBy (.exact functions)
          (Candidate.score (.exact functions))) (beams.zipIdx.map result).flatten).head? =
            some first := by
        rw [← List.flatMap_def, ← hsorted]
        rfl
      have hparts : ∀ part ∈ beams.zipIdx.map result, ∀ head ∈ part.head?, ∀ candidate ∈ part,
          (descendingBy (.exact functions) (Candidate.score (.exact functions)) head
            candidate).isLE := by
        intro part hmem head hhead candidate hcandidate
        obtain ⟨entry, hentry, rfl⟩ := List.mem_map.mp hmem
        obtain ⟨first', rest', heq, -, hle⟩ := hpart entry hentry
        rw [heq] at hhead
        obtain rfl := Option.some.inj hhead
        exact descendingBy_isLE.mpr (hle candidate hcandidate)
      obtain ⟨part, hmem, hfirst⟩ := SliceSort.head?_sorted_flatten hparts hhead
      obtain ⟨entry, hentry, rfl⟩ := List.mem_map.mp hmem
      obtain ⟨first', rest', heq, heot, -⟩ := hpart entry hentry
      rw [heq] at hfirst
      obtain rfl := Option.some.inj hfirst
      obtain ⟨left, rfl⟩ := Nat.exists_eq_succ_of_ne_zero hpos.ne'
      refine ⟨first', List.mem_cons_self, heot, fun candidate hcandidate => ?_⟩
      rcases List.mem_cons.mp (List.mem_of_mem_take hcandidate) with rfl | hrest
      · exact le_rfl
      · exact descendingBy_isLE.mp ((List.pairwise_cons.mp hpairwise).1 candidate hrest)

end Candidates

/-! ### Steps -/

section Step

variable [Field F] [LinearOrder F]

/-- No live beam scores more than all that have ended. -/
structure Overtaken (functions : Arithmetic.Functions F) (search : BeamSearch σ F) : Prop where
  exists_ended : ∃ beam, beam ∈ search.finishedBeams
  ended : ∀ beam ∈ search.finishedBeams, beam.finished = true
  exists_ge : ∀ beam ∈ search.beams, ∃ ended ∈ search.finishedBeams,
    beam.score (.exact functions) search.alpha ≤ ended.score (.exact functions) search.alpha

variable {functions : Arithmetic.Functions F} {search : BeamSearch σ F}

theorem Overtaken.exists_best (h : Overtaken functions search) :
    ∃ beam, search.best (.exact functions) = some beam ∧ beam.finished = true := by
  obtain ⟨ended, hended⟩ := h.exists_ended
  obtain ⟨beam, hbeam⟩ := SliceSort.exists_maxBy
    (fun a b => (Arithmetic.exact functions).compare (a.score (.exact functions) search.alpha)
      (b.score (.exact functions) search.alpha))
    (List.mem_append_right search.beams hended)
  refine ⟨beam, hbeam, h.ended beam (SliceSort.maxBy_append_mem ?_ hbeam)⟩
  intro live hlive
  obtain ⟨ended, hmem, hle⟩ := h.exists_ge live hlive
  exact ⟨ended, hmem, (Arithmetic.exact_compare_isLE functions _ _).mpr hle⟩

variable (spec) in
/-- A live beam of so many tokens, with the logits that the decoder always leaves. -/
structure Answered (prompt : List UInt32) (logits : List F) (length : Nat) (beam : Beam σ F) :
    Prop where
  length_eq : beam.tokens.length = length
  continues : ∃ g, spec.tokenEot ∉ g ∧ beam.tokens = prompt ++ g
  lastLogits_eq : beam.lastLogits = logits

variable (spec) in
/-- A search all of whose live beams have come equally far. -/
structure Level (prompt : List UInt32) (logits : List F) (length : Nat) (search : BeamSearch σ F) :
    Prop where
  size_pos : 0 < search.size
  size_lt : search.size < logits.length
  beams : Beams (Answered spec prompt logits length) (fun beam => beam.finished = true) search

variable {decoder : StepDecoder spec ε σ F} {suppress : Suppressor F} {prompt : List UInt32}
  {logits : List F} {length : Nat}

/-- What a step leaves of its candidates. -/
theorem scores_of_expand {kept : List (Candidate F)} {next : BeamSearch σ F}
    (h : Level spec prompt logits length search)
    (hparents : ∀ candidate ∈ kept, ∃ parent,
      ChildOf (.exact functions) suppress search.beams candidate parent)
    (hexpand : kept.foldlM (extendFrom (.exact functions) decoder search.beams) search.drained =
      .ok next) :
    (∀ beam ∈ next.beams, beam.tokens.length = length + 1 ∧
        ∃ candidate ∈ kept, beam.logProb = candidate.score (.exact functions)) ∧
      ∀ candidate ∈ kept, candidate.tokenId = spec.tokenEot → ∃ ended ∈ next.finishedBeams,
        ended.tokens.length = length + 1 ∧
          ended.logProb = candidate.score (.exact functions) := by
  apply expand_invariant hparents hexpand (P := fun done reached =>
    (∀ beam ∈ reached.beams, beam.tokens.length = length + 1 ∧
        ∃ candidate ∈ done, beam.logProb = candidate.score (.exact functions)) ∧
      ∀ candidate ∈ done, candidate.tokenId = spec.tokenEot → ∃ ended ∈ reached.finishedBeams,
        ended.tokens.length = length + 1 ∧ ended.logProb = candidate.score (.exact functions))
  · exact ⟨fun _ hmem => absurd hmem List.not_mem_nil, fun _ hmem => absurd hmem List.not_mem_nil⟩
  · rintro done candidate parent beam reached ⟨hlive, hended⟩ hparent hbeam
    obtain ⟨hlogProb, htokens⟩ := child_fields hbeam
    have hlength : beam.tokens.length = length + 1 := by
      rw [htokens, List.length_append, List.length_singleton,
        (h.beams.live parent (List.mem_of_getElem? hparent.parent_eq)).2.length_eq]
    have hbefore : ∀ beam ∈ reached.beams, beam.tokens.length = length + 1 ∧
        ∃ earlier ∈ done ++ [candidate], beam.logProb = earlier.score (.exact functions) := by
      intro beam hmem
      obtain ⟨hlength, earlier, hearlier, heq⟩ := hlive beam hmem
      exact ⟨hlength, earlier, List.mem_append_left _ hearlier, heq⟩
    cases hfinished : beam.finished with
    | true =>
        rw [push_of_finished reached hfinished]
        refine ⟨hbefore, fun earlier hearlier heot => ?_⟩
        rcases List.mem_append.mp hearlier with hdone | hlast
        · obtain ⟨ended, hmem, heq⟩ := hended earlier hdone heot
          exact ⟨ended, List.mem_append_left _ hmem, heq⟩
        · obtain rfl := List.mem_singleton.mp hlast
          exact ⟨beam, List.mem_append_right _ (List.mem_singleton_self beam), hlength, hlogProb⟩
    | false =>
        rw [push_of_live reached hfinished, List.forall_mem_append, List.forall_mem_append,
          List.forall_mem_singleton, List.forall_mem_singleton]
        refine ⟨⟨hbefore, hlength, candidate, ?_, hlogProb⟩, hended, fun heot => ?_⟩
        · exact List.mem_append_right _ (List.mem_singleton_self candidate)
        · rw [child, if_pos heot] at hbeam
          cases hbeam
          cases hfinished

theorem Answered.child {parent beam : Beam σ F} {candidate : Candidate F}
    (h : Answered spec prompt logits length parent)
    (hdecoder : ∀ state id, ∃ state', decoder.step state id = .ok (logits, state'))
    (hbeam : BeamSearch.child (.exact functions) decoder parent candidate = .ok beam)
    (hlive : beam.finished = false) : Answered spec prompt logits (length + 1) beam := by
  obtain ⟨-, htokens⟩ := child_fields hbeam
  obtain ⟨g, hg, hcontinues⟩ := h.continues
  unfold BeamSearch.child at hbeam
  split at hbeam
  · cases hbeam
    cases hlive
  · next hne =>
    obtain ⟨⟨answer, state⟩, hanswer, heq⟩ := Except.bind_eq_ok_iff.mp hbeam
    obtain ⟨state', hstep⟩ := hdecoder parent.state candidate.tokenId
    rw [hstep] at hanswer
    cases hanswer
    cases heq
    refine ⟨?_, ⟨g ++ [candidate.tokenId], ?_, ?_⟩, rfl⟩
    · rw [htokens, List.length_append, List.length_singleton, h.length_eq]
    · rw [List.mem_append, List.mem_singleton, not_or]
      exact ⟨hg, fun heq => hne heq.symm⟩
    · rw [htokens, hcontinues, List.append_assoc]

variable [IsStrictOrderedRing F]

theorem score_le_score (hpowf : ∀ x y, 0 < x → 0 < functions.powf x y) (alpha : F)
    {beam ended : Beam σ F} (hlength : beam.tokens.length = ended.tokens.length)
    (hle : beam.logProb ≤ ended.logProb) :
    beam.score (.exact functions) alpha ≤ ended.score (.exact functions) alpha := by
  unfold Beam.score
  rw [hlength]
  split
  · exact hle
  · next hne =>
    have hpos : (0 : F) < ((ended.tokens.length : ℚ) : F) := by
      exact_mod_cast Nat.pos_of_ne_zero hne
    exact div_le_div_of_nonneg_right hle (hpowf _ alpha hpos).le

/-- A step: an end of the text is kept that scores as much as any other candidate. -/
theorem Level.step (h : Level spec prompt logits length search)
    (hpowf : ∀ x y, 0 < x → 0 < functions.powf x y)
    (hdecoder : ∀ state id, ∃ state', decoder.step state id = .ok (logits, state'))
    (hleads : ∀ g, spec.tokenEot ∉ g →
      LeadsAt spec.tokenEot.toNat (suppress.apply (prompt ++ g) logits))
    (hne : search.beams ≠ []) :
    ∃ next, BeamSearch.step (eotFirst spec) (.exact functions) decoder suppress search = .ok next ∧
      Level spec prompt logits (length + 1) next ∧ Overtaken functions next := by
  have hlogits : ∀ beam ∈ search.beams, beam.finished = false →
      search.size < beam.lastLogits.length := by
    intro beam hbeam _
    rw [(h.beams.live beam hbeam).2.lastLogits_eq]
    exact h.size_lt
  have hcomparable : Comparable (.exact functions) suppress search.beams :=
    comparable_exact search.beams
  obtain ⟨kept, hkept⟩ := exists_keptCandidates (eotFirst spec) hcomparable hlogits
  have hparents := childOf_of_mem_keptCandidates hkept
  have hanswers : ∀ state id, ∃ answer, decoder.step state id = .ok answer := by
    intro state id
    obtain ⟨state', hstep⟩ := hdecoder state id
    exact ⟨_, hstep⟩
  obtain ⟨next, hexpand⟩ := exists_expand hparents hanswers search.drained
  have hstep := step_eq_ok_iff.mpr ⟨kept, hkept, hexpand⟩
  have hbeams : Beams (Answered spec prompt logits (length + 1))
      (fun beam => beam.finished = true) next := by
    refine h.beams.step ?_ (fun _ => id) hstep
    intro parent candidate beam hparent _ hbeam
    exact ⟨hparent.child hdecoder hbeam, id⟩
  have hsize := (length_of_expand hkept hexpand).2.2
  refine ⟨next, hstep, ⟨hsize ▸ h.size_pos, hsize ▸ h.size_lt, hbeams⟩, ?_⟩
  have hfavours : ∀ beam ∈ search.beams, beam.finished = false ∧
      FavoursEot spec suppress beam := by
    intro beam hbeam
    obtain ⟨hlive, -, ⟨g, hg, htokens⟩, hlast⟩ := h.beams.live beam hbeam
    refine ⟨hlive, ?_⟩
    rw [FavoursEot, htokens, hlast]
    exact hleads g hg
  obtain ⟨first, hfirst, heot, hle⟩ :=
    keptCandidates_eotFirst hne hfavours h.size_pos hkept
  obtain ⟨hlive, hended⟩ := scores_of_expand h hparents hexpand
  obtain ⟨ended, hmem, hlength, hlogProb⟩ := hended first hfirst heot
  refine ⟨⟨ended, hmem⟩, hbeams.ended, fun beam hbeam => ⟨ended, hmem, ?_⟩⟩
  obtain ⟨hlength', candidate, hcandidate, hlogProb'⟩ := hlive beam hbeam
  apply score_le_score hpowf _ (hlength'.trans hlength.symm)
  rw [hlogProb', hlogProb]
  exact hle candidate hcandidate

end Step

end BeamSearch

namespace SeekLoop

/-! ### Passes that hand nothing on -/

/-- One beam decodes greedily, without a budget there is no step, and with as many beams as tokens
the first step panics. -/
def Narrow (spec : WhisperSpec) (options : TranscribeOptions) : Prop :=
  options.beamSize ≤ 1 ∨ options.maxNewTokens = 0 ∨ spec.vocab ≤ options.beamSize

theorem length_prime {loop : SeekLoop spec σ F} {prompt : List UInt32} {logits : List F} {state : σ}
    (h : loop.prime prompt = .ok (logits, state)) : logits.length = spec.vocab := by
  apply Except.foldlM_invariant (P := fun _ decoded => decoded.1.length = spec.vocab) ?_ h
    List.length_replicate
  rintro done ⟨id, i⟩ decoded decoded' - hstep -
  exact loop.decoder.length_step (Except.mapError_eq_ok_iff.mp hstep)

theorem Narrow.not_endsFinished {loop : SeekLoop spec σ F} {sorter : SliceSort.Sorter}
    {prompt : List UInt32} (h : Narrow spec loop.options) : ¬ loop.EndsFinished sorter prompt := by
  rintro ⟨hsize, search, beam, hsearch, hbest, hfinished⟩
  obtain ⟨⟨logits, state⟩, hprime, hsteps⟩ := Except.bind_eq_ok_iff.mp hsearch
  cases hbudget : loop.options.maxNewTokens with
  | zero =>
      rw [hbudget] at hsteps
      cases hsteps
      obtain rfl := List.mem_singleton.mp (SliceSort.maxBy_mem hbest)
      cases hfinished
  | succ steps =>
      rw [hbudget] at hsteps
      obtain ⟨next, hnext, -⟩ := Except.bind_eq_ok_iff.mp hsteps
      have hwide : spec.vocab ≤ loop.options.beamSize := by
        rcases h with hone | hnone | hwide
        · omega
        · omega
        · exact hwide
      let input : SearchInput spec String σ F :=
        { arithmetic := loop.arithmetic, decoder := loop.decoder
          suppress := loop.passSuppressor prompt, size := loop.options.beamSize
          initialState := state, initialLogits := logits, initialTokens := prompt
          alpha := loop.arithmetic.literal 1 }
      have hpanic := input.step_start_outOfRange sorter ((length_prime hprime).trans_le hwide)
      cases hpanic.symm.trans hnext

/-! ### A decoder that leaves the choice open -/

section Floor

variable [Field F]

/-- The loop with another decoder. -/
def withDecoder {τ : Type} (loop : SeekLoop spec σ F) (decoder : StepDecoder spec String τ F)
    (resetState : τ) : SeekLoop spec τ F where
  arithmetic := loop.arithmetic
  decoder := decoder
  resetState := resetState
  tokenToId := loop.tokenToId
  options := loop.options
  windowIndex := loop.windowIndex
  basePrompt := loop.basePrompt
  timestampBegin := loop.timestampBegin
  windowEndToken := loop.windowEndToken

variable (spec F) in
/-- Every answer lies on the floor. -/
def floorDecoder : StepDecoder spec String Unit F where
  step := fun _ _ => .ok (floorLogits F spec.vocab, ())
  length_step := by
    intro _ _ _ _ h
    cases h
    exact length_floorLogits spec.vocab

theorem prime_floorDecoder (loop : SeekLoop spec σ F) {prompt : List UInt32} (hne : prompt ≠ []) :
    (loop.withDecoder (floorDecoder spec F) ()).prime prompt =
      .ok (floorLogits F spec.vocab, ()) := by
  have hsame : ∀ entries : List (UInt32 × Nat), entries.foldlM
      (fun (_ : List F × Unit) _ => (.ok (floorLogits F spec.vocab, ()) :
        Except (Failure String) (List F × Unit))) (floorLogits F spec.vocab, ()) =
      .ok (floorLogits F spec.vocab, ()) := by
    intro entries
    induction entries with
    | nil => rfl
    | cons entry entries ih => exact ih
  obtain ⟨first, rest, rfl⟩ := List.exists_cons_of_ne_nil hne
  exact hsame (rest.zipIdx 1)

variable [LinearOrder F] [IsStrictOrderedRing F]

variable {loop : SeekLoop spec σ F} {functions : Arithmetic.Functions F} {suppress : Suppressor F}
  {prompt : List UInt32} {logits : List F}

/-- After one step or more, no live beam scores more than all that have ended. -/
theorem exists_beamSteps (harithmetic : loop.arithmetic = .exact functions)
    (hpowf : ∀ x y, 0 < x → 0 < functions.powf x y)
    (hdecoder : ∀ state id, ∃ state', loop.decoder.step state id = .ok (logits, state'))
    (hleads : ∀ g, spec.tokenEot ∉ g →
      LeadsAt spec.tokenEot.toNat (suppress.apply (prompt ++ g) logits))
    (steps : Nat) {length : Nat} {search : BeamSearch σ F}
    (h : BeamSearch.Level spec prompt logits length search) (hne : search.beams ≠ []) :
    ∃ final, loop.beamSteps (eotFirst spec) suppress (steps + 1) search = .ok final ∧
      BeamSearch.Overtaken functions final := by
  induction steps generalizing length search with
  | zero =>
      obtain ⟨next, hstep, -, hovertaken⟩ := h.step hpowf hdecoder hleads hne
      refine ⟨next, ?_, hovertaken⟩
      unfold beamSteps
      rw [harithmetic, hstep, Except.ok_bind_eq]
      split <;> rfl
  | succ steps ih =>
      obtain ⟨next, hstep, hlevel, hovertaken⟩ := h.step hpowf hdecoder hleads hne
      unfold beamSteps
      rw [harithmetic, hstep, Except.ok_bind_eq]
      by_cases hempty : next.beams = []
      · rw [hempty]
        exact ⟨next, rfl, hovertaken⟩
      · rw [if_neg (by simpa using hempty)]
        exact ih hlevel hempty

theorem length_controlPrompt {tokenToId : String → Option UInt32} {lang task : String}
    {notimestamps : Bool}
    (h : controlPrompt tokenToId lang task notimestamps = .ok prompt) :
    3 ≤ prompt.length ∧ prompt.length ≤ 4 := by
  obtain ⟨start, -, h⟩ := Except.bind_eq_ok_iff.mp h
  obtain ⟨langTok, -, h⟩ := Except.bind_eq_ok_iff.mp h
  obtain ⟨taskTok, -, h⟩ := Except.bind_eq_ok_iff.mp h
  obtain ⟨nots, -, h⟩ := Except.bind_eq_ok_iff.mp h
  cases h
  split <;> simp

/-- The first pass of a loop that is not narrow hands the end of the text on. -/
theorem endsFinished_floorDecoder (harithmetic : loop.arithmetic = .exact functions)
    (hpowf : ∀ x y, 0 < x → 0 < functions.powf x y) (heot : spec.tokenEot.toNat < spec.vocab)
    (hne : prompt ≠ []) (hwide : ¬ Narrow spec loop.options) :
    (loop.withDecoder (floorDecoder spec F) ()).EndsFinished (eotFirst spec) prompt := by
  obtain ⟨hsize, hbudget, hvocab⟩ : 1 < loop.options.beamSize ∧ loop.options.maxNewTokens ≠ 0 ∧
      loop.options.beamSize < spec.vocab := by
    unfold Narrow at hwide
    omega
  obtain ⟨steps, hsteps⟩ := Nat.exists_eq_succ_of_ne_zero hbudget
  let floorLoop := loop.withDecoder (floorDecoder spec F) ()
  have hfloor : floorLoop.arithmetic = .exact functions := harithmetic
  have hleads : ∀ g, spec.tokenEot ∉ g → LeadsAt spec.tokenEot.toNat
      ((floorLoop.passSuppressor prompt).apply (prompt ++ g) (floorLogits F spec.vocab)) := by
    intro g hg
    change LeadsAt _ (TokenSuppressor.apply floorLoop.arithmetic _ _ _)
    rw [hfloor]
    exact TokenSuppressor.leadsAt_apply rfl heot hg
  have hlevel : BeamSearch.Level spec prompt (floorLogits F spec.vocab) prompt.length
      (BeamSearch.new floorLoop.arithmetic loop.options.beamSize ()
        (floorLogits F spec.vocab) prompt (floorLoop.arithmetic.literal 1)) := by
    refine ⟨Nat.zero_lt_of_lt hsize, hvocab.trans_eq (length_floorLogits spec.vocab).symm, ?_, ?_⟩
    · intro beam hbeam
      cases List.mem_singleton.mp hbeam
      exact ⟨rfl, rfl, ⟨[], List.not_mem_nil, (List.append_nil prompt).symm⟩, rfl⟩
    · exact fun _ hbeam => absurd hbeam List.not_mem_nil
  obtain ⟨final, hfinal, hovertaken⟩ := exists_beamSteps hfloor hpowf
    (fun _ _ => ⟨(), rfl⟩) hleads steps hlevel (List.cons_ne_nil _ _)
  obtain ⟨beam, hbest, hfinished⟩ := hovertaken.exists_best
  refine ⟨hsize, final, beam, ?_, ?_, hfinished⟩
  · unfold beamSearch
    rw [prime_floorDecoder loop hne]
    change floorLoop.beamSteps _ _ loop.options.maxNewTokens _ = _
    rw [hsteps]
    exact hfinal
  · rw [← hbest]
    exact congrArg final.best harithmetic

end Floor

variable [Field F] [LinearOrder F] [IsStrictOrderedRing F]

/-- **When the seek loop carries no end of the text.** Under the options that are narrow, whatever
the arithmetic, the decoder and the sorts; and under no others, for there is a decoder then that
has it handed on. -/
theorem clean_iff :
    (∀ (G τ : Type) (loop : SeekLoop spec τ G) (sorter : SliceSort.Sorter) (passes : Nat),
      Narrow spec loop.options → loop.Clean sorter passes) ∧
    ∀ (loop : SeekLoop spec σ F) (functions : Arithmetic.Functions F) (passes : Nat),
      loop.arithmetic = .exact functions → (∀ x y, 0 < x → 0 < functions.powf x y) →
      controlPrompt loop.tokenToId loop.options.lang loop.options.task
        loop.options.notimestamps = .ok loop.basePrompt →
      spec.tokenEot.toNat < spec.vocab → 20 < spec.tCache → 0 < passes →
      ((∀ (sorter : SliceSort.Sorter) (τ : Type) (decoder : StepDecoder spec String τ F)
          (resetState : τ), (loop.withDecoder decoder resetState).Clean sorter passes) ↔
        Narrow spec loop.options) := by
  have hnarrow : ∀ (G τ : Type) (loop : SeekLoop spec τ G) (sorter : SliceSort.Sorter)
      (passes : Nat), Narrow spec loop.options → loop.Clean sorter passes :=
    fun _ _ _ _ passes hnarrow => clean_of_never (fun _ => hnarrow.not_endsFinished) passes
  refine ⟨hnarrow, ?_⟩
  intro loop functions passes harithmetic hpowf hprompt heot hcache hpasses
  refine ⟨fun hclean => ?_, fun h sorter τ decoder resetState => hnarrow _ _ _ sorter passes h⟩
  by_contra hwide
  obtain ⟨hthree, hfour⟩ := length_controlPrompt hprompt
  have hne : loop.basePrompt ≠ [] := List.ne_nil_of_length_pos (by omega)
  let floorLoop := loop.withDecoder (floorDecoder spec F) ()
  have hfirst : floorLoop.prompt [] = loop.basePrompt := by
    unfold prompt
    simp only [List.drop_nil, List.append_nil]
    rfl
  obtain ⟨new, hnew, hmem⟩ :=
    eot_mem_of_endsFinished (endsFinished_floorDecoder harithmetic hpowf heot hne hwide)
  have hpass := (hclean (eotFirst spec) Unit (floorDecoder spec F) ()).newTokens [] [] new .refl
    hpasses
  rw [hfirst] at hpass
  refine (hpass ?_ hnew).1 hmem
  unfold HasRoom
  omega

/-- Two beams of two tokens, and one beam. -/
theorem clean_iff_certain :
    (¬ ∀ (sorter : SliceSort.Sorter) (τ : Type) (decoder : StepDecoder whisperTiny String τ ℚ)
        (resetState : τ), ((certainLoop [100]).withDecoder decoder resetState).Clean sorter 16) ∧
      ∀ sorter, SeekLoop.Clean
        { certainLoop [100] with options := { certainOptions [100] with beamSize := 1 } }
          sorter 16 := by
  obtain ⟨hnarrow, hiff⟩ := @clean_iff whisperTiny Nat ℚ _ _ _
  constructor
  · rw [hiff (certainLoop [100]) pointFunctions 16 rfl (fun _ _ => id) rfl (by decide) (by decide)
      (by decide)]
    rintro (hone | hbudget | hwide)
    · exact absurd hone (by decide)
    · exact absurd hbudget (by decide)
    · exact absurd hwide (by decide)
  · intro sorter
    exact hnarrow _ _ _ sorter 16 (.inl le_rfl)

end SeekLoop

end RkWhisper
