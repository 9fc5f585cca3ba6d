import RkWhisper.Proof.BeamPruning
import RkWhisper.Proof.SeekLoop

/-!
# A decoder that is certain

Where the suppressed logits leave one token at every prefix, the search follows these tokens: one
beam has lost no probability, every other has lost some, and the best result is that beam. When the
last of the tokens is the end of the text, it is a finished one.
-/

namespace RkWhisper

open TokenSuppressor

variable {spec : WhisperSpec} {ε σ : Type}

/-- The arithmetic of `pointFunctions`. -/
abbrev pointArithmetic : Arithmetic ℚ := .exact pointFunctions

theorem length_pointLogits (vocab tokenId : Nat) : (pointLogits vocab tokenId).length = vocab := by
  unfold pointLogits
  rw [List.length_map, List.length_range]

/-- One token has the logit zero, and the others are far below. -/
structure Pointed (tokenId : Nat) (logits : List ℚ) : Prop where
  zero : logits[tokenId]? = some 0
  far : ∀ i x, logits[i]? = some x → i ≠ tokenId → x ≤ -10000

namespace Pointed

variable {t : Nat} {logits : List ℚ}

theorem pointLogits {vocab : Nat} (h : t < vocab) : Pointed t (pointLogits vocab t) where
  zero := by
    unfold RkWhisper.pointLogits
    rw [List.getElem?_map, List.getElem?_range h, Option.map_some, if_pos rfl]
  far := by
    intro i x hx hne
    unfold RkWhisper.pointLogits at hx
    rw [List.getElem?_map, Option.map_eq_some_iff] at hx
    obtain ⟨j, hj, rfl⟩ := hx
    obtain ⟨hlt, rfl⟩ := List.getElem?_eq_some_iff.mp hj
    rw [List.getElem_range, if_neg hne]

/-! ### Suppression -/

theorem suppressId (h : Pointed t logits) {tokenId : UInt32} (hne : tokenId.toNat ≠ t) :
    Pointed t (suppressId pointArithmetic logits tokenId) where
  zero := by
    unfold TokenSuppressor.suppressId
    rw [List.getElem?_set_ne hne, h.zero]
  far := by
    intro i x hx hi
    unfold TokenSuppressor.suppressId at hx
    rw [List.getElem?_set] at hx
    split at hx
    · rw [Option.ite_none_right_eq_some, Option.some.injEq] at hx
      rw [← hx.2]
      exact le_of_eq (Rat.cast_id _)
    · exact h.far i x hx hi

theorem suppressIds (h : Pointed t logits) {ids : List UInt32} (hne : ∀ id ∈ ids, id.toNat ≠ t) :
    Pointed t (ids.foldl (TokenSuppressor.suppressId pointArithmetic) logits) := by
  induction ids generalizing logits with
  | nil => exact h
  | cons id ids ih =>
      rw [List.forall_mem_cons] at hne
      exact ih (h.suppressId hne.1) hne.2

theorem suppressFrom (h : Pointed t logits) {begin_ : Nat} (hlt : t < begin_) :
    Pointed t (suppressFrom pointArithmetic begin_ logits) where
  zero := by
    unfold TokenSuppressor.suppressFrom
    rw [List.getElem?_mapIdx, h.zero, Option.map_some, if_neg (by omega)]
  far := by
    intro i x hx hi
    unfold TokenSuppressor.suppressFrom at hx
    rw [List.getElem?_mapIdx, Option.map_eq_some_iff] at hx
    obtain ⟨y, hy, rfl⟩ := hx
    split
    · exact le_of_eq (Rat.cast_id _)
    · exact h.far i y hy hi

theorem penalize_of_le {x : ℚ} (h : x ≤ 0) : penalize pointArithmetic x = x * 1.1 := by
  rw [penalize_exact, if_neg h.not_gt, Rat.cast_id]

theorem penalize (h : Pointed t logits) (j : Nat) :
    Pointed t (logits.modify j (penalize pointArithmetic)) where
  zero := by
    rw [List.getElem?_modify, h.zero, Option.map_eq_map, Option.map_some]
    split
    · rw [penalize_of_le le_rfl, zero_mul]
    · rfl
  far := by
    intro i x hx hi
    rw [List.getElem?_modify, Option.map_eq_map, Option.map_eq_some_iff] at hx
    obtain ⟨y, hy, rfl⟩ := hx
    have hfar := h.far i y hy hi
    split
    · rw [penalize_of_le (by linarith)]
      linarith
    · exact hfar

theorem penalizeSeen (h : Pointed t logits) (sot : UInt32) (ids seen : List UInt32) :
    Pointed t (ids.foldl (penalizeSeen pointArithmetic sot) (seen, logits)).2 := by
  induction ids generalizing seen logits with
  | nil => exact h
  | cons id ids ih =>
      rw [List.foldl_cons]
      unfold TokenSuppressor.penalizeSeen
      dsimp only
      split
      · exact ih (h.penalize id.toNat) _
      · exact ih h _

/-- A token below the special ones stays, unless it is the end of the text and comes first. -/
theorem apply (h : Pointed t logits) {suppressor : TokenSuppressor} {tokens : List UInt32}
    (heot : tokens.length ≤ suppressor.promptLen → suppressor.eot.toNat ≠ t)
    (hids : suppressor.ids = []) (hsot : t < suppressor.sot.toNat)
    (hbegin : t < suppressor.timestampBegin.toNat) (hmode : suppressor.notimestamps = false) :
    Pointed t (suppressor.apply pointArithmetic tokens logits) := by
  have hrange : ∀ id ∈ idRange suppressor.sot suppressor.notimestampsId, id.toNat ≠ t := by
    intro id hid
    obtain ⟨n, hn, rfl⟩ := List.mem_map.mp hid
    rw [List.mem_range'_1] at hn
    have hlast : suppressor.notimestampsId.toNat < UInt32.size :=
      suppressor.notimestampsId.toNat_lt
    rw [UInt32.toNat_ofNat_of_lt' (by omega)]
    omega
  unfold TokenSuppressor.apply
  simp only [hids, hmode, List.foldl_nil, Bool.false_eq_true, if_false]
  apply penalizeSeen
  have hfirst : Pointed t (if tokens.length ≤ suppressor.promptLen then
      TokenSuppressor.suppressId pointArithmetic logits suppressor.eot else logits) := by
    split
    · next hle => exact h.suppressId (heot hle)
    · exact h
  split
  · exact (hfirst.suppressIds hrange).suppressFrom hbegin
  · exact hfirst.suppressIds hrange

/-! ### Probabilities -/

theorem le_zero (h : Pointed t logits) : ∀ x ∈ logits, x ≤ 0 := by
  intro x hx
  obtain ⟨i, hi⟩ := List.getElem?_of_mem hx
  by_cases heq : i = t
  · rw [heq, h.zero, Option.some.injEq] at hi
    exact hi.ge
  · exact (h.far i x hi heq).trans (by norm_num)

theorem foldl_max {logits : List ℚ} {a : ℚ} (ha : a ≤ 0) (hle : ∀ x ∈ logits, x ≤ 0)
    (hmem : a = 0 ∨ 0 ∈ logits) : logits.foldl (fun a b => a ⊔ b) a = 0 := by
  induction logits generalizing a with
  | nil => simpa using hmem
  | cons x logits ih =>
      rw [List.forall_mem_cons] at hle
      rw [List.foldl_cons]
      apply ih (sup_le ha hle.1) hle.2
      rcases hmem with rfl | hmem
      · exact .inl (sup_of_le_left hle.1)
      · rcases List.mem_cons.mp hmem with rfl | hmem
        · exact .inl (sup_of_le_right ha)
        · exact .inr hmem

theorem sum_exp (h : Pointed t logits) :
    (logits.map fun x => pointFunctions.exp (x - 0)).sum = 1 := by
  obtain ⟨hlt, hzero⟩ := List.getElem?_eq_some_iff.mp h.zero
  have hnone {l : List ℚ} (hl : ∀ x ∈ l, x ≤ -10000) :
      (l.map fun x => pointFunctions.exp (x - 0)).sum = 0 := by
    apply List.sum_eq_zero
    intro y hy
    obtain ⟨x, hx, rfl⟩ := List.mem_map.mp hy
    apply if_neg
    have := hl x hx
    rw [sub_zero]
    linarith
  have hone : pointFunctions.exp 0 = 1 := by decide +kernel
  have hfront : ∀ x ∈ logits.take t, x ≤ -10000 := by
    intro x hx
    obtain ⟨i, hi⟩ := List.getElem?_of_mem hx
    rw [List.getElem?_take, Option.ite_none_right_eq_some] at hi
    exact h.far i x hi.2 hi.1.ne
  have hback : ∀ x ∈ logits.drop (t + 1), x ≤ -10000 := by
    intro x hx
    obtain ⟨i, hi⟩ := List.getElem?_of_mem hx
    rw [List.getElem?_drop] at hi
    exact h.far _ x hi (by omega)
  calc (logits.map fun x => pointFunctions.exp (x - 0)).sum
      = ((logits.take t ++ 0 :: logits.drop (t + 1)).map fun x =>
          pointFunctions.exp (x - 0)).sum := by
        rw [← hzero, ← List.drop_eq_getElem_cons hlt, List.take_append_drop]
    _ = 0 + (1 + 0) := by
        rw [List.map_append, List.sum_append, List.map_cons, List.sum_cons, hnone hfront,
          hnone hback, sub_zero, hone]
    _ = 1 := by norm_num

/-- The probability is all at one token, so that the logits are the log-probabilities. -/
theorem logSoftmax_eq (h : Pointed t logits) : logSoftmax pointArithmetic logits = logits := by
  have hmax : logits.foldl pointArithmetic.max pointArithmetic.negInfinity = 0 :=
    foldl_max (by decide) h.le_zero (.inr (List.mem_of_getElem? h.zero))
  have hsum : pointArithmetic.sum (logits.map fun x =>
      pointArithmetic.exp (pointArithmetic.sub x 0)) = 1 := h.sum_exp
  have hzero : pointArithmetic.add 0 (pointArithmetic.ln 1) = 0 := by
    change (0 : ℚ) + (1 - 1) = 0
    norm_num
  unfold logSoftmax
  simp only [hmax, hsum, hzero]
  exact (List.map_congr_left fun x _ => sub_zero x).trans (List.map_id _)

/-! ### Candidates -/

section Candidates

variable {suppress : Suppressor ℚ} {beam : Beam σ ℚ} {token : UInt32}

theorem mem_tokenCandidates
    (h : Pointed token.toNat (suppress.apply beam.tokens beam.lastLogits)) :
    (0, token) ∈ BeamSearch.tokenCandidates pointArithmetic suppress beam := by
  unfold BeamSearch.tokenCandidates
  rw [h.logSoftmax_eq]
  refine List.mem_map.mpr ⟨(0, token.toNat), List.mem_zipIdx_iff_getElem?.mpr h.zero, ?_⟩
  exact congrArg (Prod.mk 0) UInt32.ofNat_toNat

/-- Only that token has a chance. -/
theorem of_mem_tokenCandidates
    (h : Pointed token.toNat (suppress.apply beam.tokens beam.lastLogits)) {logP : ℚ}
    {tokenId : UInt32}
    (hmem : (logP, tokenId) ∈ BeamSearch.tokenCandidates pointArithmetic suppress beam) :
    logP ≤ 0 ∧ (logP = 0 → tokenId = token) := by
  unfold BeamSearch.tokenCandidates at hmem
  rw [h.logSoftmax_eq] at hmem
  obtain ⟨⟨logP, id⟩, hid, heq⟩ := List.mem_map.mp hmem
  obtain ⟨rfl, rfl⟩ := Prod.mk.inj heq
  have hget := List.mem_zipIdx_iff_getElem?.mp hid
  refine ⟨h.le_zero logP (List.mem_of_getElem? hget), fun hzero => ?_⟩
  by_cases heq : id = token.toNat
  · rw [heq, UInt32.ofNat_toNat]
  · have hfar := h.far id logP hget heq
    rw [hzero] at hfar
    norm_num at hfar

end Candidates

end Pointed

/-! ### The search -/

/-- Answers that follow a script, whatever the tokens are. -/
def scriptDecoder (spec : WhisperSpec) (script : Nat → UInt32) :
    StepDecoder spec String Nat ℚ where
  step state _ := .ok (pointLogits spec.vocab (script state).toNat, state + 1)
  length_step := by
    intro _ _ _ _ h
    cases h
    exact length_pointLogits _ _

namespace BeamSearch

/-- After so many tokens, the suppressor spares one that is certain. -/
def Spares (suppress : Suppressor ℚ) (length : Nat) (token : UInt32) : Prop :=
  ∀ tokens logits, tokens.length = length → Pointed token.toNat logits →
    Pointed token.toNat (suppress.apply tokens logits)

/-- No token of the beam was ever in doubt, or it has lost some probability. -/
structure Follows (tokens : List UInt32) (beam : Beam σ ℚ) : Prop where
  logProb_le : beam.logProb ≤ 0
  tokens_eq : beam.logProb = 0 → beam.tokens = tokens

/-- A live beam, about to be followed by one token. -/
structure Before (spec : WhisperSpec) (script : Nat → UInt32) (tokens : List UInt32)
    (state : Nat) (beam : Beam Nat ℚ) : Prop extends Follows tokens beam where
  length_eq : beam.tokens.length = tokens.length
  state_eq : beam.state = state + 1
  lastLogits_eq : beam.lastLogits = pointLogits spec.vocab (script state).toNat

/-- Where the search is when the next token of the script is to come. -/
structure Stage (spec : WhisperSpec) (script : Nat → UInt32) (tokens : List UInt32) (state : Nat)
    (search : BeamSearch Nat ℚ) : Prop where
  size_pos : 0 < search.size
  size_lt : search.size < spec.vocab
  beams : Beams (Before spec script tokens state) (fun beam => beam.logProb < 0) search
  exists_sure : ∃ beam ∈ search.beams, beam.logProb = 0

variable {script : Nat → UInt32} {tokens : List UInt32} {state : Nat} {sorter : SliceSort.Sorter}
  {suppress : Suppressor ℚ}

section Child

variable {parent : Beam σ ℚ} {beams : List (Beam σ ℚ)} {candidate : Candidate ℚ} {token : UInt32}
  (h : Follows tokens parent)
  (hpointed : Pointed token.toNat (suppress.apply parent.tokens parent.lastLogits))
  (hchild : ChildOf pointArithmetic suppress beams candidate parent)

include h hpointed hchild

theorem Follows.score_le : candidate.score pointArithmetic ≤ 0 := by
  have htoken := (hpointed.of_mem_tokenCandidates hchild.token_mem).1
  rw [Candidate.score, hchild.parentLogProb_eq]
  exact add_nonpos h.logProb_le htoken

/-- Only the next token of the script keeps a beam out of doubt. -/
theorem Follows.of_score_eq_zero (hzero : candidate.score pointArithmetic = 0) :
    parent.tokens = tokens ∧ candidate.tokenId = token := by
  obtain ⟨hle, htoken⟩ := hpointed.of_mem_tokenCandidates hchild.token_mem
  have hparent := h.logProb_le
  have hsum : parent.logProb + candidate.tokenLogProb = 0 := by
    rw [← hchild.parentLogProb_eq]
    exact hzero
  exact ⟨h.tokens_eq (by linarith), htoken (by linarith)⟩

theorem Follows.child {decoder : StepDecoder spec ε σ ℚ} {beam : Beam σ ℚ}
    (hbeam : BeamSearch.child pointArithmetic decoder parent candidate = .ok beam) :
    Follows (tokens ++ [token]) beam := by
  obtain ⟨hscore, htokens⟩ := child_fields hbeam
  refine ⟨?_, fun hzero => ?_⟩
  · rw [hscore]
    exact h.score_le hpointed hchild
  · rw [hscore] at hzero
    obtain ⟨hparent, htoken⟩ := h.of_score_eq_zero hpointed hchild hzero
    rw [htokens, hparent, htoken]

end Child

section Step

variable {decoder : StepDecoder spec ε σ ℚ} {search next : BeamSearch σ ℚ} {token : UInt32}

variable (sorter decoder) in
/-- A step whose decoder answers goes through, and keeps a beam that never was in doubt. -/
theorem exists_step (hdecoder : ∀ state id, ∃ answer, decoder.step state id = .ok answer)
    (hsize : 0 < search.size)
    (hlogits : ∀ beam ∈ search.beams, search.size < beam.lastLogits.length)
    (hpointed : ∀ beam ∈ search.beams,
      Pointed token.toNat (suppress.apply beam.tokens beam.lastLogits))
    (hfollows : Beams (Follows tokens) (fun _ => True) search)
    (hsure : ∃ beam ∈ search.beams, beam.logProb = 0) :
    ∃ next, step sorter pointArithmetic decoder suppress search = .ok next ∧
      ∃ beam ∈ next.beams ++ next.finishedBeams, beam.logProb = 0 := by
  have hcomparable : Comparable pointArithmetic suppress search.beams :=
    comparable_exact search.beams
  obtain ⟨kept, hkept⟩ := exists_keptCandidates sorter hcomparable fun beam hbeam _ =>
    hlogits beam hbeam
  have hparents := childOf_of_mem_keptCandidates hkept
  obtain ⟨next, hnext⟩ := exists_expand hparents hdecoder search.drained
  refine ⟨next, step_eq_ok_iff.mpr ⟨kept, hkept, hnext⟩, ?_⟩
  obtain ⟨parent, hparent, hzero⟩ := hsure
  obtain ⟨i, hi⟩ := List.getElem?_of_mem hparent
  have hextension : (⟨i, token, parent.logProb, 0⟩ : Candidate ℚ) ∈
      extensions pointArithmetic suppress search.beams :=
    mem_extensions_of_childOf ⟨hi, (hfollows.live parent hparent).1, rfl,
      (hpointed parent hparent).mem_tokenCandidates⟩
  obtain ⟨best, hbest, hle⟩ := (isTop_keptCandidates hkept).exists_best hsize hextension
  obtain ⟨beam, hbeam, hscore⟩ := exists_beam_of_candidate hparents hnext best hbest
  refine ⟨beam, hbeam, hscore.trans (le_antisymm ?_ ?_)⟩
  · obtain ⟨parent', hparent'⟩ := hparents best hbest
    have hmem := List.mem_of_getElem? hparent'.parent_eq
    exact (hfollows.live parent' hmem).2.score_le (hpointed parent' hmem) hparent'
  · refine le_trans (le_of_eq ?_) hle
    exact (add_eq_right.mpr hzero).symm

end Step

section Stage

variable {search : BeamSearch Nat ℚ} (hspares : Spares suppress tokens.length (script state))
  (hvocab : (script state).toNat < spec.vocab)

include hspares hvocab

theorem Before.pointed {beam : Beam Nat ℚ} (h : Before spec script tokens state beam) :
    Pointed (script state).toNat (suppress.apply beam.tokens beam.lastLogits) := by
  apply hspares _ _ h.length_eq
  rw [h.lastLogits_eq]
  exact .pointLogits hvocab

variable (sorter) in
/-- One token of the script: the beam that follows it is live, unless it has ended. -/
theorem Stage.step (h : Stage spec script tokens state search) :
    ∃ next, BeamSearch.step sorter pointArithmetic (scriptDecoder spec script) suppress search =
        .ok next ∧ next.size = search.size ∧
      (∃ beam ∈ next.beams ++ next.finishedBeams, beam.logProb = 0) ∧
      Beams (Before spec script (tokens ++ [script state]) (state + 1))
        (fun beam => Follows (tokens ++ [script state]) beam ∧
          (beam.logProb = 0 → script state = spec.tokenEot)) next := by
  have hpointed : ∀ beam ∈ search.beams,
      Pointed (script state).toNat (suppress.apply beam.tokens beam.lastLogits) :=
    fun beam hbeam => (h.beams.live beam hbeam).2.pointed hspares hvocab
  have hlogits : ∀ beam ∈ search.beams, search.size < beam.lastLogits.length := by
    intro beam hbeam
    rw [(h.beams.live beam hbeam).2.lastLogits_eq, length_pointLogits]
    exact h.size_lt
  have hfollows : Beams (Follows tokens) (fun _ => True) search :=
    ⟨fun beam hbeam => (h.beams.live beam hbeam).imp_right Before.toFollows, fun _ _ => trivial⟩
  obtain ⟨next, hnext, hsure⟩ := exists_step sorter (scriptDecoder spec script)
    (fun _ _ => ⟨_, rfl⟩) h.size_pos hlogits hpointed hfollows h.exists_sure
  obtain ⟨kept, hkept, hexpand⟩ := step_eq_ok_iff.mp hnext
  refine ⟨next, hnext, (length_of_expand hkept hexpand).2.2, hsure, h.beams.step ?_ ?_ hnext⟩
  · intro parent candidate beam hparent hchild hbeam
    have hpoint := hparent.pointed hspares hvocab
    have hfollows := hparent.toFollows.child hpoint hchild hbeam
    obtain ⟨hscore, htokens⟩ := child_fields hbeam
    unfold BeamSearch.child at hbeam
    split at hbeam
    · next heot =>
      cases hbeam
      refine ⟨fun hlive => absurd hlive.symm Bool.false_ne_true, fun _ => ⟨hfollows, ?_⟩⟩
      intro hzero
      rw [← (hparent.toFollows.of_score_eq_zero hpoint hchild hzero).2, heot]
    · obtain ⟨answer, hanswer, heq⟩ := Except.bind_eq_ok_iff.mp hbeam
      cases hanswer
      cases heq
      refine ⟨fun _ => ⟨hfollows, ?_, ?_, ?_⟩, fun hended => absurd hended Bool.false_ne_true⟩
      · rw [htokens, List.length_append, List.length_append, hparent.length_eq,
          List.length_singleton, List.length_singleton]
      · rw [hparent.state_eq]
      · rw [hparent.state_eq]
  · intro beam hneg
    exact ⟨⟨hneg.le, fun hzero => absurd hzero hneg.ne⟩, fun hzero => absurd hzero hneg.ne⟩

end Stage

/-- The next stage, unless the token is the end of the text. -/
theorem Stage.of_beams {search : BeamSearch Nat ℚ} {token : UInt32} (hpos : 0 < search.size)
    (hlt : search.size < spec.vocab)
    (hsure : ∃ beam ∈ search.beams ++ search.finishedBeams, beam.logProb = 0)
    (hbeams : Beams (Before spec script tokens state)
      (fun beam => Follows tokens beam ∧ (beam.logProb = 0 → token = spec.tokenEot)) search)
    (hne : token ≠ spec.tokenEot) : Stage spec script tokens state search where
  size_pos := hpos
  size_lt := hlt
  beams := by
    refine ⟨hbeams.live, fun beam hbeam => ?_⟩
    obtain ⟨hfollows, heot⟩ := hbeams.ended beam hbeam
    exact lt_of_le_of_ne hfollows.logProb_le fun hzero => hne (heot hzero)
  exists_sure := by
    obtain ⟨beam, hmem, hzero⟩ := hsure
    rcases List.mem_append.mp hmem with hlive | hended
    · exact ⟨beam, hlive, hzero⟩
    · exact absurd ((hbeams.ended beam hended).2 hzero) hne

/-! ### The result -/

theorem score_eq (alpha : ℚ) (beam : Beam σ ℚ) : beam.score pointArithmetic alpha =
    if beam.tokens.length = 0 then beam.logProb else beam.logProb / beam.tokens.length := by
  unfold Beam.score
  split
  · rfl
  · exact congrArg (beam.logProb / ·) (Rat.cast_id _)

theorem score_of_logProb_eq_zero (alpha : ℚ) {beam : Beam σ ℚ} (h : beam.logProb = 0) :
    beam.score pointArithmetic alpha = 0 := by
  rw [score_eq, h, zero_div, ite_self]

theorem score_of_logProb_neg (alpha : ℚ) {beam : Beam σ ℚ} (h : beam.logProb < 0) :
    beam.score pointArithmetic alpha < 0 := by
  rw [score_eq]
  split
  · exact h
  · next hlength =>
    apply div_neg_of_neg_of_pos h
    exact_mod_cast Nat.pos_of_ne_zero hlength

/-- The best result is the one that was never in doubt. -/
theorem bestResult_of_follows {search : BeamSearch σ ℚ}
    (hfollows : ∀ beam ∈ search.beams ++ search.finishedBeams, Follows tokens beam)
    (hsure : ∃ beam ∈ search.beams ++ search.finishedBeams, beam.logProb = 0) :
    search.bestResult pointArithmetic = some tokens := by
  obtain ⟨sure, hsure, hzero⟩ := hsure
  let score : Beam σ ℚ → ℚ := Beam.score pointArithmetic search.alpha
  have htrans : Std.TransCmp fun a b => pointArithmetic.compare (score a) (score b) :=
    inferInstanceAs (Std.TransCmp (compareOn score))
  obtain ⟨beam, hbest⟩ :=
    SliceSort.exists_maxBy (fun a b => pointArithmetic.compare (score a) (score b)) hsure
  have hisLE := SliceSort.maxBy_isLE hbest hsure
  have hle : score sure ≤ score beam :=
    (Arithmetic.exact_compare_isLE pointFunctions _ _).mp hisLE
  have hbeam := hfollows beam (SliceSort.maxBy_mem hbest)
  have hlogProb : beam.logProb = 0 := by
    apply le_antisymm hbeam.logProb_le
    by_contra hneg
    have hworse := score_of_logProb_neg search.alpha (not_le.mp hneg)
    rw [← score_of_logProb_eq_zero search.alpha hzero] at hworse
    exact absurd hle (not_le.mpr hworse)
  have hresult : search.best pointArithmetic = some beam := hbest
  rw [bestResult, hresult, Option.map_some, hbeam.tokens_eq hlogProb]

end BeamSearch

/-! ### The pass -/

/-- After three tokens of prompt, the decoder is certain of the text and then of its end. -/
def textScript (text : List UInt32) (state : Nat) : UInt32 :=
  (text ++ [whisperTiny.tokenEot]).getD (state - 2) 0

def tinyTokenToId (name : String) : Option UInt32 :=
  if name = "<|startoftranscript|>" then some 50258
  else if name = "<|en|>" then some 50259
  else if name = "<|transcribe|>" then some 50359
  else if name = "<|notimestamps|>" then some 50363
  else none

def certainOptions (text : List UInt32) : TranscribeOptions where
  lang := "en"
  task := "transcribe"
  notimestamps := false
  maxNewTokens := text.length + 1
  beamSize := 2
  suppressTokens := .none

/-- The loop over a window of thirty seconds, with two beams. -/
def certainLoop (text : List UInt32) : SeekLoop whisperTiny Nat ℚ where
  arithmetic := pointArithmetic
  decoder := scriptDecoder whisperTiny (textScript text)
  resetState := 0
  tokenToId := tinyTokenToId
  options := certainOptions text
  windowIndex := 0
  basePrompt := [50258, 50259, 50359]
  timestampBegin := 50364
  windowEndToken := 50364 + 1500

namespace SeekLoop

variable {text : List UInt32} {sorter : SliceSort.Sorter}

/-- No token of the text is suppressed, and its end only where nothing comes before it. -/
theorem spares_passSuppressor {length : Nat} {token : UInt32}
    (hle : token.toNat ≤ whisperTiny.tokenEot.toNat)
    (heot : length ≤ 3 → token ≠ whisperTiny.tokenEot) :
    BeamSearch.Spares ((certainLoop text).passSuppressor (certainLoop text).basePrompt) length
      token := by
  intro tokens logits hlength h
  change token.toNat ≤ 50257 at hle
  apply h.apply _ rfl
  · change token.toNat < 50258
    omega
  · change token.toNat < 50364
    omega
  · rfl
  · intro hfirst heq
    rw [← hlength] at heot
    exact heot hfirst (UInt32.toNat_inj.mp heq.symm)

theorem beamSteps_succ (loop : SeekLoop spec σ F) {suppress : Suppressor F} (steps : Nat)
    {search next : BeamSearch σ F}
    (h : search.step sorter loop.arithmetic loop.decoder suppress = .ok next) :
    loop.beamSteps sorter suppress (steps + 1) search =
      if next.beams.isEmpty then .ok next else loop.beamSteps sorter suppress steps next := by
  rw [beamSteps, h]
  rfl

variable (sorter) in
/-- One token of the text, or its end. -/
theorem certainLoop_step {tokens : List UInt32} {state : Nat} {search : BeamSearch Nat ℚ}
    {token : UInt32} (htoken : textScript text state = token)
    (hle : token.toNat ≤ whisperTiny.tokenEot.toNat)
    (heot : tokens.length ≤ 3 → token ≠ whisperTiny.tokenEot)
    (h : BeamSearch.Stage whisperTiny (textScript text) tokens state search) :
    ∃ next, search.step sorter (certainLoop text).arithmetic (certainLoop text).decoder
        ((certainLoop text).passSuppressor (certainLoop text).basePrompt) = .ok next ∧
      next.size = search.size ∧
      (∃ beam ∈ next.beams ++ next.finishedBeams, beam.logProb = 0) ∧
      BeamSearch.Beams
        (BeamSearch.Before whisperTiny (textScript text) (tokens ++ [token]) (state + 1))
        (fun beam => BeamSearch.Follows (tokens ++ [token]) beam ∧
          (beam.logProb = 0 → token = whisperTiny.tokenEot)) next := by
  subst htoken
  have hvocab : (textScript text state).toNat < whisperTiny.vocab := hle.trans_lt (by decide)
  exact h.step sorter (spares_passSuppressor hle heot) hvocab

variable (sorter) in
theorem certainLoop_beamSteps {rest tokens : List UInt32} {state : Nat} {search : BeamSearch Nat ℚ}
    (htext : ∀ token ∈ rest, token < whisperTiny.tokenEot)
    (hscript : ∀ i token, (rest ++ [whisperTiny.tokenEot])[i]? = some token →
      textScript text (state + i) = token)
    (hprompt : 3 ≤ tokens.length) (hlength : 3 < tokens.length + rest.length)
    (h : BeamSearch.Stage whisperTiny (textScript text) tokens state search) :
    ∃ final, (certainLoop text).beamSteps sorter
        ((certainLoop text).passSuppressor (certainLoop text).basePrompt) (rest.length + 1) search =
      .ok final ∧
      final.bestResult pointArithmetic = some (tokens ++ rest ++ [whisperTiny.tokenEot]) := by
  induction rest generalizing tokens state search with
  | nil =>
      have hlt : 3 < tokens.length := hlength
      obtain ⟨next, hnext, -, hsure, hbeams⟩ :=
        certainLoop_step sorter (hscript 0 _ rfl) le_rfl (by omega) h
      refine ⟨next, ?_, ?_⟩
      · rw [List.length_nil, beamSteps_succ (certainLoop text) 0 hnext]
        exact ite_self _
      · rw [List.append_nil]
        apply BeamSearch.bestResult_of_follows ?_ hsure
        intro beam hbeam
        rcases List.mem_append.mp hbeam with hlive | hended
        · exact (hbeams.live beam hlive).2.toFollows
        · exact (hbeams.ended beam hended).1
  | cons token rest ih =>
      rw [List.forall_mem_cons] at htext
      have hlt : token.toNat < whisperTiny.tokenEot.toNat := htext.1
      have hne : token ≠ whisperTiny.tokenEot := UInt32.ne_of_lt htext.1
      obtain ⟨next, hnext, hsize, hsure, hbeams⟩ :=
        certainLoop_step sorter (hscript 0 _ rfl) hlt.le (fun _ => hne) h
      have hstage : BeamSearch.Stage whisperTiny (textScript text) (tokens ++ [token]) (state + 1)
          next :=
        .of_beams (hsize ▸ h.size_pos) (hsize ▸ h.size_lt) hsure hbeams hne
      have hlive : next.beams.isEmpty = false := by
        obtain ⟨beam, hmem, -⟩ := hstage.exists_sure
        exact List.isEmpty_eq_false_iff_exists_mem.mpr ⟨beam, hmem⟩
      have hrest : ∀ i token', (rest ++ [whisperTiny.tokenEot])[i]? = some token' →
          textScript text (state + 1 + i) = token' := by
        intro i token' htoken'
        rw [Nat.add_assoc, Nat.add_comm 1 i]
        exact hscript (i + 1) token' htoken'
      have hdone : (tokens ++ [token]).length = tokens.length + 1 := List.length_append
      rw [List.length_cons] at hlength
      obtain ⟨final, hfinal, hresult⟩ := ih htext.2 hrest (by omega) (by omega) hstage
      refine ⟨final, ?_, ?_⟩
      · rw [List.length_cons, beamSteps_succ (certainLoop text) _ hnext, hlive]
        exact hfinal
      · rw [hresult, List.append_assoc tokens, List.singleton_append]

/-- The whole pass hands on the text with its end. -/
theorem certainLoop_newTokens (hne : text ≠ [])
    (htext : ∀ token ∈ text, token < whisperTiny.tokenEot) :
    (certainLoop text).newTokens sorter (certainLoop text).basePrompt =
      .ok (text ++ [whisperTiny.tokenEot]) := by
  have hscript : ∀ i token, (text ++ [whisperTiny.tokenEot])[i]? = some token →
      textScript text (2 + i) = token := by
    intro i token htoken
    unfold textScript
    rw [Nat.add_sub_cancel_left, List.getD_eq_getElem?_getD, htoken, Option.getD_some]
  have hprime : (certainLoop text).prime (certainLoop text).basePrompt =
      .ok (pointLogits whisperTiny.vocab (textScript text 2).toNat, 3) := rfl
  have hstart : BeamSearch.Stage whisperTiny (textScript text) (certainLoop text).basePrompt 2
      (BeamSearch.new pointArithmetic 2 3 (pointLogits whisperTiny.vocab (textScript text 2).toNat)
        (certainLoop text).basePrompt (pointArithmetic.literal 1)) := by
    have hzero : pointArithmetic.literal 0 = 0 := Rat.cast_id 0
    have hlt : 2 < whisperTiny.vocab := by decide
    refine ⟨Nat.zero_lt_two, hlt, ⟨?_, fun _ hbeam => absurd hbeam List.not_mem_nil⟩, ?_⟩
    · intro beam hbeam
      cases List.mem_singleton.mp hbeam
      refine ⟨rfl, ⟨hzero.le, fun _ => rfl⟩, rfl, rfl, ?_⟩
      dsimp only
    · exact ⟨_, List.mem_singleton_self _, hzero⟩
  have hlength : 3 < (certainLoop text).basePrompt.length + text.length := by
    have := List.length_pos_of_ne_nil hne
    change 3 < 3 + text.length
    omega
  have hprompt : 3 ≤ (certainLoop text).basePrompt.length := Nat.le_refl 3
  obtain ⟨final, hfinal, hresult⟩ :=
    certainLoop_beamSteps sorter htext hscript hprompt hlength hstart
  have hsearch : (certainLoop text).beamSearch sorter (certainLoop text).basePrompt =
      .ok final := by
    unfold beamSearch
    rw [hprime]
    exact hfinal
  rw [newTokens_beams Nat.one_lt_two hsearch]
  have hbest : final.bestResult (certainLoop text).arithmetic = some _ := hresult
  rw [hbest, Option.getD_some, List.append_assoc, List.drop_left]

theorem certainLoop_run (hne : text ≠ []) (htext : ∀ token ∈ text, token < whisperTiny.tokenEot) :
    (certainLoop text).run sorter 16 [] = .ok (text ++ [whisperTiny.tokenEot]) := by
  have hroom : HasRoom whisperTiny ((certainLoop text).prompt []) := by
    change 3 + 16 < 448
    decide
  have hstamp : (certainLoop text).lastTimestamp (text ++ [whisperTiny.tokenEot]) = none := by
    have hearly : ∀ token ∈ text ++ [whisperTiny.tokenEot],
        token.toNat < (certainLoop text).timestampBegin.toNat := by
      change ∀ token ∈ text ++ [whisperTiny.tokenEot], token.toNat < 50364
      rw [List.forall_mem_append, List.forall_mem_singleton]
      refine ⟨fun token hmem => ?_, by decide⟩
      have hlt : token.toNat < 50257 := htext token hmem
      omega
    unfold lastTimestamp
    rw [List.find?_eq_none]
    intro token hmem hstamp
    have hlt := hearly token (List.mem_reverse.mp hmem)
    exact absurd (of_decide_eq_true hstamp) (Nat.not_le.mpr hlt)
  have hpass : (certainLoop text).seekPass sorter [] =
      .ok (text ++ [whisperTiny.tokenEot], false) := by
    have hprompt : (certainLoop text).prompt [] = (certainLoop text).basePrompt := rfl
    have hsome : (text ++ [whisperTiny.tokenEot]).isEmpty = false :=
      List.isEmpty_eq_false_iff_exists_mem.mpr ⟨_, List.mem_concat_self⟩
    unfold seekPass
    rw [hprompt] at hroom ⊢
    simp only [if_pos hroom, certainLoop_newTokens hne htext, Except.ok_bind_eq, hsome, hstamp]
    rfl
  rw [run, hpass]
  rfl

end SeekLoop

/-- The loop is that of `transcribe_window_samples`. -/
theorem allOutputTokens_certain (sorter : SliceSort.Sorter) (text : List UInt32) :
    allOutputTokens pointArithmetic sorter (scriptDecoder whisperTiny (textScript text)) 0
        tinyTokenToId 0 0 480000 (certainOptions text) =
      (certainLoop text).run sorter 16 [] := by
  have hnotimestamps : tokenNamed tinyTokenToId "<|notimestamps|>"
      "tokenizer missing <|notimestamps|>" = .ok 50363 := rfl
  have hprompt : controlPrompt tinyTokenToId "en" "transcribe" false =
      .ok [50258, 50259, 50359] := rfl
  have hduration : pointArithmetic.toU32 (pointArithmetic.div (pointArithmetic.div
      (pointArithmetic.literal (480000 - 0 : Nat)) (pointArithmetic.literal sampleRate))
        (pointArithmetic.literal 0.02)) = 1500 := by decide +kernel
  have hbegin : (50363 : UInt32) + 1 = 50364 := by decide
  unfold allOutputTokens certainOptions
  simp only [hnotimestamps, hprompt, Except.ok_bind_eq, hduration, hbegin]
  unfold certainLoop certainOptions
  rfl

/-- One token of text, and the output of the window ends with the end of the text. -/
theorem allOutputTokens_eot :
    allOutputTokens pointArithmetic .stable (scriptDecoder whisperTiny (textScript [100])) 0
        tinyTokenToId 0 0 480000 (certainOptions [100]) = .ok [100, whisperTiny.tokenEot] ∧
      ¬ (certainLoop [100]).Clean .stable 16 := by
  have hrun : (certainLoop [100]).run .stable 16 [] = .ok [100, whisperTiny.tokenEot] :=
    SeekLoop.certainLoop_run (List.cons_ne_nil _ _) (List.forall_mem_singleton.mpr (by decide))
  constructor
  · rw [allOutputTokens_certain, hrun]
  · intro hclean
    exact hclean.output _ hrun (List.mem_cons_of_mem _ (List.mem_singleton_self _))

end RkWhisper
