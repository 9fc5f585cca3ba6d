import RkWhisper.Lib.LawfulArithmetic
import RkWhisper.Proof.BeamSearch
import RkWhisper.Protocol

/-!
# When a step goes through

The sorts can panic in two ways: a selection at an index that its slice does not have, and scores
that do not compare. A hello may ask for as many beams as it likes, and the search selects at that
index among the logits of every beam. Logits that are ordinary numbers have scores that compare.
-/

namespace RkWhisper

variable {spec : WhisperSpec} {ε σ F : Type}

namespace BeamSearch

section Candidates

variable {sorter : SliceSort.Sorter} {A : Arithmetic F} {suppress : Suppressor F} {size : Nat}
  {beams : List (Beam σ F)} {candidates : List (Candidate F)}

/-- The extensions of one beam. -/
def beamExtensions (A : Arithmetic F) (suppress : Suppressor F) (beamIdx : Nat) (beam : Beam σ F) :
    List (Candidate F) :=
  if beam.finished then []
  else (tokenCandidates A suppress beam).map fun (tokenLogProb, tokenId) =>
    { beamIdx, tokenId, parentLogProb := beam.logProb, tokenLogProb }

/-- Every token after every beam that is not finished. -/
def extensions (A : Arithmetic F) (suppress : Suppressor F) (beams : List (Beam σ F)) :
    List (Candidate F) :=
  beams.zipIdx.flatMap fun (beam, beamIdx) => beamExtensions A suppress beamIdx beam

/-- All scores of a step compare with one another: none is a NaN beside a number. -/
structure Comparable (A : Arithmetic F) (suppress : Suppressor F) (beams : List (Beam σ F)) :
    Prop where
  tokens : ∀ beam ∈ beams, beam.finished = false →
    SliceSort.TotalOn (descendingBy A Prod.fst) (tokenCandidates A suppress beam)
  scores : SliceSort.TotalOn (descendingBy A (Candidate.score A)) (extensions A suppress beams)

/-- The scores that a step hands to its two sorts compare with one another. -/
structure Orderly (sorter : SliceSort.Sorter) (A : Arithmetic F) (suppress : Suppressor F)
    (size : Nat) (beams : List (Beam σ F)) : Prop where
  tokens : ∀ beam ∈ beams, beam.finished = false →
    SliceSort.TotalOn (descendingBy A Prod.fst) (tokenCandidates A suppress beam)
  scores : ∀ parts, (beams.zipIdx.mapM fun (beam, beamIdx) =>
      beamCandidates sorter A suppress size beamIdx beam) = .ok parts →
    SliceSort.TotalOn (descendingBy A (Candidate.score A)) parts.flatten

theorem length_tokenCandidates (A : Arithmetic F) (suppress : Suppressor F) (beam : Beam σ F) :
    (tokenCandidates A suppress beam).length = beam.lastLogits.length := by
  unfold tokenCandidates logSoftmax
  rw [List.length_map, List.length_zipIdx, List.length_map, suppress.length_apply]

theorem mem_extensions_of_childOf {candidate : Candidate F} {parent : Beam σ F}
    (h : ChildOf A suppress beams candidate parent) : candidate ∈ extensions A suppress beams := by
  refine List.mem_flatMap.mpr ⟨(parent, candidate.beamIdx),
    List.mem_zipIdx_iff_getElem?.mpr h.parent_eq, ?_⟩
  change candidate ∈ beamExtensions A suppress candidate.beamIdx parent
  unfold beamExtensions
  rw [h.live]
  refine List.mem_map.mpr ⟨(candidate.tokenLogProb, candidate.tokenId), h.token_mem, ?_⟩
  rw [← h.parentLogProb_eq]

theorem exists_beamCandidates {beam : Beam σ F} (beamIdx : Nat)
    (htotal : beam.finished = false →
      SliceSort.TotalOn (descendingBy A Prod.fst) (tokenCandidates A suppress beam))
    (hlogits : beam.finished = false → size < beam.lastLogits.length) :
    ∃ candidates, beamCandidates sorter A suppress size beamIdx beam = .ok candidates := by
  unfold beamCandidates
  by_cases hfinished : beam.finished
  · exact ⟨[], if_pos hfinished⟩
  · have hlive : beam.finished = false := by simpa using hfinished
    have hlength := hlogits hlive
    rw [← length_tokenCandidates A suppress] at hlength
    obtain ⟨selected, hselected⟩ := sorter.exists_select (htotal hlive) hlength
    rw [if_neg hfinished, hselected]
    exact ⟨_, rfl⟩

theorem Comparable.orderly (h : Comparable A suppress beams) :
    Orderly sorter A suppress size beams where
  tokens := h.tokens
  scores := by
    intro parts hparts
    apply h.scores.mono
    obtain ⟨result, rfl, hresult⟩ := Except.exists_of_mapM_eq_ok hparts
    intro candidate hmem
    rw [← List.flatMap_def] at hmem
    obtain ⟨⟨beam, beamIdx⟩, hentry, hcandidate⟩ := List.mem_flatMap.mp hmem
    exact mem_extensions_of_childOf (mem_of_beamCandidates (hresult _ hentry)
      (List.mem_zipIdx_iff_getElem?.mp hentry) candidate hcandidate)

/-- The choice of candidates goes through where the logits are more than the beams and the scores
that are sorted compare. -/
theorem Orderly.exists_keptCandidates (h : Orderly sorter A suppress size beams)
    (hlogits : ∀ beam ∈ beams, beam.finished = false → size < beam.lastLogits.length) :
    ∃ kept, keptCandidates sorter A suppress size (beams.map some) = .ok kept := by
  have hparts : ∃ parts, (beams.zipIdx.mapM fun (beam, beamIdx) =>
      beamCandidates sorter A suppress size beamIdx beam) = .ok parts := by
    apply Except.exists_mapM_eq_ok
    rintro ⟨beam, beamIdx⟩ hentry
    have hbeam := List.mem_of_getElem? (List.mem_zipIdx_iff_getElem?.mp hentry)
    exact exists_beamCandidates beamIdx (h.tokens beam hbeam) (hlogits beam hbeam)
  obtain ⟨parts, hparts⟩ := hparts
  rw [keptCandidates_map_some, hparts]
  simp only [Except.ok_bind_eq, sorter.sortBy_of_totalOn (h.scores parts hparts),
    Except.mapError_ok]
  exact ⟨_, rfl⟩

variable (sorter) in
theorem exists_keptCandidates (hcomparable : Comparable A suppress beams)
    (hlogits : ∀ beam ∈ beams, beam.finished = false → size < beam.lastLogits.length) :
    ∃ kept, keptCandidates sorter A suppress size (beams.map some) = .ok kept :=
  hcomparable.orderly.exists_keptCandidates hlogits

theorem beamCandidates_strict {beamIdx : Nat} {beam : Beam σ F}
    (h : beamCandidates sorter.strict A suppress size beamIdx beam = .ok candidates) :
    (beam.finished = false →
        SliceSort.TotalOn (descendingBy A Prod.fst) (tokenCandidates A suppress beam)) ∧
      beamCandidates sorter A suppress size beamIdx beam = .ok candidates := by
  unfold beamCandidates at h ⊢
  by_cases hfinished : beam.finished = true
  · rw [if_pos hfinished] at h ⊢
    exact ⟨fun hlive => absurd (hlive.symm.trans hfinished) Bool.false_ne_true, h⟩
  · rw [if_neg hfinished] at h ⊢
    obtain ⟨selected, hselected, heq⟩ := Except.bind_eq_ok_iff.mp h
    rw [Except.mapError_eq_ok_iff] at hselected
    obtain ⟨htotal, hselected⟩ := sorter.strict_select_eq_ok hselected
    refine ⟨fun _ => htotal, ?_⟩
    rw [hselected]
    exact heq

/-- Where the strict library chooses, the scores compare, and any library chooses the same. -/
theorem keptCandidates_strict
    (h : keptCandidates sorter.strict A suppress size (beams.map some) = .ok candidates) :
    Orderly sorter A suppress size beams ∧
      keptCandidates sorter A suppress size (beams.map some) = .ok candidates := by
  rw [keptCandidates_map_some] at h
  obtain ⟨parts, hparts, h⟩ := Except.bind_eq_ok_iff.mp h
  obtain ⟨sorted, hsorted, heq⟩ := Except.bind_eq_ok_iff.mp h
  rw [Except.mapError_eq_ok_iff] at hsorted
  obtain ⟨htotal, hsorted⟩ := sorter.strict_sort_eq_ok hsorted
  obtain ⟨result, rfl, hresult⟩ := Except.exists_of_mapM_eq_ok hparts
  have hsame := Except.mapM_eq_ok fun entry hentry =>
    (beamCandidates_strict (hresult entry hentry)).2
  refine ⟨⟨fun beam hbeam => ?_, fun parts hparts' => ?_⟩, ?_⟩
  · obtain ⟨beamIdx, hget⟩ := List.mem_iff_getElem?.mp hbeam
    exact (beamCandidates_strict
      (hresult (beam, beamIdx) (List.mem_zipIdx_iff_getElem?.mpr hget))).1
  · cases hsame.symm.trans hparts'
    exact htotal
  · rw [keptCandidates_map_some, hsame]
    simp only [Except.ok_bind_eq, hsorted, Except.mapError_ok]
    exact heq

theorem length_keptCandidates
    (h : keptCandidates sorter A suppress size (beams.map some) = .ok candidates) :
    candidates.length ≤ size := by
  rw [keptCandidates_map_some] at h
  obtain ⟨parts, -, h⟩ := Except.bind_eq_ok_iff.mp h
  obtain ⟨sorted, -, heq⟩ := Except.bind_eq_ok_iff.mp h
  cases heq
  exact List.length_take_le size sorted

end Candidates

/-! ### Ordinary logits -/

section Ordinary

variable {A : Arithmetic F} {Finite : F → Prop} {suppress : Suppressor F} {beams : List (Beam σ F)}

/-- The logarithm of a probability is at most zero. -/
theorem logSoftmax_nonpos (hlawful : A.Lawful Finite) {logits : List F}
    (hrow : A.Row Finite logits) :
    ∀ logP ∈ logSoftmax A logits, A.le logP (A.literal 0) := by
  obtain ⟨hmem, hfinite, hle⟩ := hlawful.foldl_max_row hrow
  intro logP hlogP
  obtain ⟨l, hl, rfl⟩ := List.mem_map.mp hlogP
  exact hlawful.sub_nonpos l _ _ hfinite (hle l hl) (hlawful.le_logSumExp hfinite hmem hle)

theorem tokenCandidates_nonpos (hlawful : A.Lawful Finite) {beam : Beam σ F}
    (hrow : A.Row Finite (suppress.apply beam.tokens beam.lastLogits)) :
    ∀ candidate ∈ tokenCandidates A suppress beam, A.le candidate.1 (A.literal 0) := by
  intro candidate hmem
  obtain ⟨⟨logP, id⟩, hid, rfl⟩ := List.mem_map.mp hmem
  have hget := List.mem_zipIdx_iff_getElem?.mp hid
  exact logSoftmax_nonpos hlawful hrow logP (List.mem_of_getElem? hget)

/-- A beam whose scores are numbers, whatever its tokens suppress. -/
structure OrdinaryBeam (A : Arithmetic F) (Finite : F → Prop) (suppress : Suppressor F)
    (beam : Beam σ F) : Prop where
  logProb_nonpos : A.le beam.logProb (A.literal 0)
  row : ∀ tokens, A.Row Finite (suppress.apply tokens beam.lastLogits)

theorem score_nonpos (hlawful : A.Lawful Finite) {parent : Beam σ F} {candidate : Candidate F}
    (hparent : OrdinaryBeam A Finite suppress parent)
    (hchild : ChildOf A suppress beams candidate parent) :
    A.le (candidate.score A) (A.literal 0) := by
  unfold Candidate.score
  rw [hchild.parentLogProb_eq]
  exact hlawful.add_nonpos _ _ hparent.logProb_nonpos
    (tokenCandidates_nonpos hlawful (hparent.row parent.tokens) _ hchild.token_mem)

theorem exists_childOf_of_mem_extensions {candidate : Candidate F}
    (h : candidate ∈ extensions A suppress beams) :
    ∃ parent, ChildOf A suppress beams candidate parent := by
  obtain ⟨⟨beam, beamIdx⟩, hentry, hmem⟩ := List.mem_flatMap.mp h
  change candidate ∈ beamExtensions A suppress beamIdx beam at hmem
  unfold beamExtensions at hmem
  split at hmem
  · cases hmem
  · next hlive =>
    obtain ⟨⟨tokenLogProb, tokenId⟩, htoken, rfl⟩ := List.mem_map.mp hmem
    exact ⟨beam,
      { parent_eq := List.mem_zipIdx_iff_getElem?.mp hentry
        live := by simpa using hlive
        parentLogProb_eq := rfl
        token_mem := htoken }⟩

theorem comparable_of_ordinary (hlawful : A.Lawful Finite)
    (hbeams : ∀ beam ∈ beams, OrdinaryBeam A Finite suppress beam) :
    Comparable A suppress beams where
  tokens := by
    intro beam hbeam _
    apply hlawful.totalOn
    intro candidate hmem
    exact hlawful.number_of_nonpos
      (tokenCandidates_nonpos hlawful ((hbeams beam hbeam).row beam.tokens) candidate hmem)
  scores := by
    apply hlawful.totalOn
    intro candidate hmem
    obtain ⟨parent, hchild⟩ := exists_childOf_of_mem_extensions hmem
    have hparent := hbeams parent (List.mem_of_getElem? hchild.parent_eq)
    exact hlawful.number_of_nonpos (score_nonpos hlawful hparent hchild)

end Ordinary

/-! ### What a step adds -/

section Step

variable {sorter : SliceSort.Sorter} {A : Arithmetic F} {decoder : StepDecoder spec ε σ F}
  {suppress : Suppressor F} {search next : BeamSearch σ F} {candidates : List (Candidate F)}

theorem length_push (search : BeamSearch σ F) (beam : Beam σ F) :
    (search.push beam).beams.length + (search.push beam).finishedBeams.length =
      search.beams.length + search.finishedBeams.length + 1 := by
  unfold push
  split <;> simp only [List.length_append, List.length_singleton] <;> omega

theorem length_finishedBeams_le_push (search : BeamSearch σ F) (beam : Beam σ F) :
    search.finishedBeams.length ≤ (search.push beam).finishedBeams.length := by
  unfold push
  split <;> simp

/-- Every candidate is extended to a live beam or a finished one. -/
theorem length_of_expand
    (hkept : keptCandidates sorter A suppress search.size (search.beams.map some) = .ok candidates)
    (h : candidates.foldlM (extendFrom A decoder search.beams) search.drained = .ok next) :
    next.beams.length + next.finishedBeams.length =
        search.drained.finishedBeams.length + candidates.length ∧
      search.drained.finishedBeams.length ≤ next.finishedBeams.length ∧ next.size = search.size := by
  apply expand_invariant (childOf_of_mem_keptCandidates hkept) h (P := fun done reached =>
    reached.beams.length + reached.finishedBeams.length =
        search.drained.finishedBeams.length + done.length ∧
      search.drained.finishedBeams.length ≤ reached.finishedBeams.length ∧
        reached.size = search.size)
  · simp [drained]
  · rintro done candidate parent beam reached ⟨hcount, hle, hsize⟩ - -
    refine ⟨?_, hle.trans (length_finishedBeams_le_push reached beam), ?_⟩
    · rw [length_push, hcount, List.length_append, List.length_singleton, Nat.add_assoc]
    · rw [← hsize]
      unfold push
      split <;> rfl

theorem length_lastLogits_child {parent beam : Beam σ F} {candidate : Candidate F}
    (h : child A decoder parent candidate = .ok beam) (hlive : beam.finished = false) :
    beam.lastLogits.length = spec.vocab := by
  unfold child at h
  split at h
  · cases h
    cases hlive
  · obtain ⟨⟨logits, state⟩, hstep, heq⟩ := Except.bind_eq_ok_iff.mp h
    cases heq
    exact decoder.length_step hstep

end Step

end BeamSearch

/-! ### Whole searches -/

namespace SearchInput

variable {input : SearchInput spec ε σ F} {sorter : SliceSort.Sorter} {search next : BeamSearch σ F}

/-- What every step of a search finds. -/
structure Ready (input : SearchInput spec ε σ F) (search : BeamSearch σ F) : Prop where
  size_eq : search.size = input.size
  length_le : search.beams.length ≤ input.size
  beams : BeamSearch.Beams (fun beam => beam.lastLogits.length = spec.vocab) (fun _ => True) search

theorem Ready.step (h : input.Ready search) (hstep : input.step sorter search = .ok next) :
    input.Ready next := by
  obtain ⟨candidates, hkept, hexpand⟩ := BeamSearch.step_eq_ok_iff.mp hstep
  obtain ⟨hcount, hle, hsize⟩ := BeamSearch.length_of_expand hkept hexpand
  refine ⟨hsize.trans h.size_eq, ?_, h.beams.step ?_ (fun _ => id) hstep⟩
  · have hlength := BeamSearch.length_keptCandidates hkept
    have := h.size_eq
    omega
  · intro parent candidate beam _ _ hbeam
    exact ⟨BeamSearch.length_lastLogits_child hbeam, fun _ => trivial⟩

theorem ready_of_run (hsize : 0 < input.size) (hlogits : input.initialLogits.length = spec.vocab)
    {steps : List Unit} (hrun : input.Run sorter steps search) : input.Ready search := by
  apply hrun.invariant (P := fun _ search => input.Ready search)
  · refine ⟨rfl, hsize, fun beam hbeam => ?_, fun beam hbeam => absurd hbeam List.not_mem_nil⟩
    cases List.mem_singleton.mp hbeam
    exact ⟨rfl, hlogits⟩
  · intro _ _ _ _ hready hstep
    exact hready.step hstep

/-- A step that does not panic, and no more live beams than wanted. -/
structure Total (input : SearchInput spec ε σ F) (sorter : SliceSort.Sorter)
    (search : BeamSearch σ F) : Prop where
  noPanic : ∀ panic, input.step sorter search ≠ .error (.panic panic)
  length_le : search.beams.length ≤ input.size

/-- The scores that the next step sorts compare with one another. -/
def Orderly (input : SearchInput spec ε σ F) (sorter : SliceSort.Sorter)
    (search : BeamSearch σ F) : Prop :=
  BeamSearch.Orderly sorter input.arithmetic input.suppress search.size search.beams

/-- Of the logits that are left after suppression none is a NaN or greater than every finite number,
and one at least is finite. -/
structure Ordinary (input : SearchInput spec ε σ F) (Finite : F → Prop) : Prop where
  initial : ∀ tokens,
    input.arithmetic.Row Finite (input.suppress.apply tokens input.initialLogits)
  answers : ∀ state tokenId logits state',
    input.decoder.step state tokenId = .ok (logits, state') →
      ∀ tokens, input.arithmetic.Row Finite (input.suppress.apply tokens logits)

theorem Ready.total (h : input.Ready search) (hsize : input.size < spec.vocab)
    (horderly : input.Orderly sorter search) : input.Total sorter search where
  noPanic := by
    intro panic hpanic
    have hlogits : ∀ beam ∈ search.beams, beam.finished = false →
        search.size < beam.lastLogits.length := by
      intro beam hbeam _
      rw [h.size_eq, (h.beams.live beam hbeam).2]
      exact hsize
    obtain ⟨kept, hkept⟩ := horderly.exists_keptCandidates hlogits
    rw [BeamSearch.step_eq_panic hpanic] at hkept
    cases hkept
  length_le := h.length_le

/-! ### Scores that compare -/

/-- What the strict library lets through, every library does. -/
theorem orderly_of_total (h : input.Total sorter.strict search) :
    input.Orderly sorter search ∧ input.step sorter.strict search = input.step sorter search := by
  cases hkept : BeamSearch.keptCandidates sorter.strict input.arithmetic input.suppress search.size
      (search.beams.map some) with
  | error panic =>
      refine absurd ?_ (h.noPanic panic)
      rw [step, BeamSearch.step_eq, hkept]
      rfl
  | ok kept =>
      obtain ⟨horderly, hsame⟩ := BeamSearch.keptCandidates_strict hkept
      refine ⟨horderly, ?_⟩
      rw [step, step, BeamSearch.step_eq, BeamSearch.step_eq, hkept, hsame]

/-- A library that never panics sorts what compares only, if it is to be any library. -/
theorem orderly_of_run (h : ∀ sorter steps search, input.Run sorter steps search →
      input.Total sorter search) {steps : List Unit} (hrun : input.Run sorter steps search) :
    input.Orderly sorter search := by
  have hstrict : input.Run sorter.strict steps search := by
    apply hrun.invariant (P := fun steps search => input.Run sorter.strict steps search) .refl
    intro steps search _ next hreached hstep
    refine hreached.snoc ?_
    rw [(orderly_of_total (h _ _ _ hreached)).2]
    exact hstep
  exact (orderly_of_total (h _ _ _ hstrict)).1

/-- The invariant of ordinary logits: every live beam scores numbers. -/
theorem orderly_of_ordinary {Finite : F → Prop} (hlawful : input.arithmetic.Lawful Finite)
    (hordinary : input.Ordinary Finite) {steps : List Unit}
    (hrun : input.Run sorter steps search) : input.Orderly sorter search := by
  let ordinary := @BeamSearch.OrdinaryBeam σ _ input.arithmetic Finite input.suppress
  have hbeams : BeamSearch.Beams ordinary (fun _ => True) search := by
    apply hrun.invariant (P := fun _ search => BeamSearch.Beams ordinary (fun _ => True) search)
    · refine ⟨fun beam hbeam => ?_, fun beam hbeam => absurd hbeam List.not_mem_nil⟩
      cases List.mem_singleton.mp hbeam
      exact ⟨rfl, hlawful.zero, hordinary.initial⟩
    · intro _ _ _ _ hreached hstep
      refine hreached.step ?_ (fun _ => id) hstep
      intro parent candidate beam hparent hchild hbeam
      refine ⟨fun hlive => ⟨?_, fun tokens => ?_⟩, fun _ => trivial⟩
      · rw [(BeamSearch.child_fields hbeam).1]
        exact BeamSearch.score_nonpos hlawful hparent hchild
      · unfold BeamSearch.child at hbeam
        split at hbeam
        · cases hbeam
          cases hlive
        · obtain ⟨⟨logits, state⟩, hstep, heq⟩ := Except.bind_eq_ok_iff.mp hbeam
          cases heq
          exact hordinary.answers _ _ _ _ hstep tokens
  exact (BeamSearch.comparable_of_ordinary hlawful fun beam hbeam =>
    (hbeams.live beam hbeam).2).orderly

variable (sorter) in
/-- A selection that is out of range in the first step. -/
theorem step_start_outOfRange (hsize : input.initialLogits.length ≤ input.size) :
    input.step sorter input.start = .error (.panic (.sort .outOfRange)) := by
  let first : Beam σ F :=
    { tokens := input.initialTokens, logProb := input.arithmetic.literal 0
      state := input.initialState, lastLogits := input.initialLogits }
  have hfirst : BeamSearch.beamCandidates sorter input.arithmetic input.suppress input.size 0 first =
      .error (.sort .outOfRange) := by
    have hselect := sorter.select_outOfRange
      (BeamSearch.tokenCandidates input.arithmetic input.suppress first) input.size
      (descendingBy input.arithmetic Prod.fst) (by rwa [BeamSearch.length_tokenCandidates])
    rw [BeamSearch.beamCandidates, if_neg Bool.false_ne_true, hselect]
    rfl
  have hkept : BeamSearch.keptCandidates sorter input.arithmetic input.suppress input.size
      ([first].map some) = .error (.sort .outOfRange) := by
    rw [BeamSearch.keptCandidates_map_some, List.zipIdx_singleton, List.mapM_cons]
    simp only [hfirst, Except.error_bind_eq]
  have hstart : input.start.beams = [first] := rfl
  have hinput : input.start.size = input.size := rfl
  rw [step, BeamSearch.step_eq, hstart, hinput, hkept]
  rfl

theorem beamSize_pos {hello : ClientHello} (haccepted : validateClientHello hello = .ok ()) :
    0 < hello.beamSize.toNat := by
  rw [Nat.pos_iff_ne_zero]
  intro hzero
  rw [validateClientHello, if_pos (UInt64.toNat_inj.mp hzero)] at haccepted
  cases haccepted

/-- **Beam search is total below the size of the vocabulary, where the scores it sorts compare**,
and for no other accepted number of beams: from there on the very first step panics. Ordinary logits
have scores that compare. -/
theorem total_iff {hello : ClientHello} (haccepted : validateClientHello hello = .ok ())
    (hbeams : input.size = hello.beamSize.toNat)
    (hlogits : input.initialLogits.length = spec.vocab) :
    ((∀ sorter steps search, input.Run sorter steps search → input.Total sorter search) ↔
      hello.beamSize.toNat < spec.vocab ∧
        ∀ sorter steps search, input.Run sorter steps search → input.Orderly sorter search) ∧
    ∀ Finite, input.arithmetic.Lawful Finite → input.Ordinary Finite → ∀ sorter,
      ((∀ steps search, input.Run sorter steps search → input.Total sorter search) ↔
        hello.beamSize.toNat < spec.vocab) := by
  have hpos : 0 < input.size := by
    rw [hbeams]
    exact beamSize_pos haccepted
  have hwide : ∀ sorter, (∀ steps search, input.Run sorter steps search →
      input.Total sorter search) → input.size < spec.vocab := by
    intro sorter htotal
    by_contra hsize
    rw [Nat.not_lt, ← hlogits] at hsize
    exact (htotal [] input.start .refl).noPanic _ (step_start_outOfRange sorter hsize)
  rw [← hbeams]
  refine ⟨⟨fun htotal => ?_, ?_⟩, fun Finite hlawful hordinary sorter => ⟨hwide sorter, ?_⟩⟩
  · exact ⟨hwide .stable (htotal .stable), fun _ _ _ => orderly_of_run htotal⟩
  · rintro ⟨hsize, horderly⟩ sorter steps search hrun
    exact (ready_of_run hpos hlogits hrun).total hsize (horderly sorter steps search hrun)
  · intro hsize steps search hrun
    exact (ready_of_run hpos hlogits hrun).total hsize (orderly_of_ordinary hlawful hordinary hrun)

theorem pointFunctions_lawful :
    (Arithmetic.exact pointFunctions).Lawful (pointFunctions.negInfinity < ·) := by
  apply Arithmetic.exact_lawful
  · intro a _
    change 0 ≤ if a = 0 then (1 : ℚ) else 0
    split <;> decide
  · exact le_refl (1 : ℚ)
  · intro a ha
    exact sub_nonneg.mpr ha

theorem pointLogits_row (tokenId : Nat) :
    (Arithmetic.exact pointFunctions).Row (pointFunctions.negInfinity < ·)
      (pointLogits 4 tokenId) := by
  have hfinite : ∀ x ∈ pointLogits 4 tokenId, pointFunctions.negInfinity < x := by
    intro x hx
    obtain ⟨id, -, rfl⟩ := List.mem_map.mp hx
    split <;> decide
  have hmem : (if 0 = tokenId then 0 else -10000) ∈ pointLogits 4 tokenId :=
    List.mem_map_of_mem (List.mem_range.mpr (by decide : 0 < 4))
  exact ⟨fun x hx => .inl (hfinite x hx), _, hmem, hfinite _ hmem⟩

theorem total_iff_counting :
    validateClientHello { model := "tiny", beamSize := 2 } = .ok () ∧
      (∀ sorter steps search, countingSearch.Run sorter steps search →
        countingSearch.Total sorter search) ∧
      ∀ sorter steps search, countingSearch.Run sorter steps search →
        countingSearch.Orderly sorter search := by
  have haccepted : validateClientHello { model := "tiny", beamSize := 2 } = .ok () := by decide
  have hordinary : countingSearch.Ordinary (pointFunctions.negInfinity < ·) := by
    refine ⟨fun _ => pointLogits_row 1, ?_⟩
    intro state tokenId logits state' hstep _
    cases hstep
    exact pointLogits_row (tokenId.toNat + 1)
  obtain ⟨hiff, hordinaryIff⟩ := @total_iff _ _ _ _ countingSearch _ haccepted rfl (by decide)
  have htotal : ∀ sorter steps search, countingSearch.Run sorter steps search →
      countingSearch.Total sorter search := fun sorter =>
    (hordinaryIff _ pointFunctions_lawful hordinary sorter).mpr (by decide)
  exact ⟨haccepted, htotal, (hiff.mp htotal).2⟩

end SearchInput

/-! ### As many beams as tokens -/

def wideHello : ClientHello := { model := "tiny", beamSize := 51865 }

def wideSearch : SearchInput whisperTiny Empty Unit ℚ where
  arithmetic := .exact pointFunctions
  decoder :=
    { step := fun _ _ => .ok (List.replicate 51865 0, ())
      length_step := by
        intro _ _ _ _ h
        cases h
        exact List.length_replicate }
  suppress := countingSearch.suppress
  size := wideHello.beamSize.toNat
  initialState := ()
  initialLogits := List.replicate 51865 0
  initialTokens := [50258, 50259, 50359]
  alpha := 1

/-- The hello is in order, and its search panics. -/
theorem not_total_wideHello : validateClientHello wideHello = .ok () ∧
    wideSearch.initialLogits.length = whisperTiny.vocab ∧
      wideSearch.step .stable wideSearch.start = .error (.panic (.sort .outOfRange)) := by
  have hlength : wideSearch.initialLogits.length = 51865 := List.length_replicate
  refine ⟨by decide, hlength, SearchInput.step_start_outOfRange .stable ?_⟩
  rw [hlength]
  exact Nat.le_refl _

end RkWhisper
