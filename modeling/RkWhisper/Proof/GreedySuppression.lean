import RkWhisper.Proof.SeekLoop

/-!
# Greedy decoding obeys the suppression rules

Suppression puts a logit on a finite floor, and the repetition penalty that follows it moves a logit
once at most: what lies on the floor stays there or falls below it, and an allowed logit that starts
high enough stays above it. So the greatest logit is an allowed one, at each step of a pass.
-/

namespace RkWhisper

namespace TokenSuppressor

/-! ### The floor -/

section Floor

variable {F : Type} {A : Arithmetic F}

/-- The logits at `forbidden` are put on the floor, and the others are kept. -/
structure Floors (A : Arithmetic F) (forbidden : Nat → Prop) (logits out : List F) : Prop where
  length_eq : out.length = logits.length
  floor : ∀ i < logits.length, forbidden i → out[i]? = some (suppressed A)
  keep : ∀ i, ¬ forbidden i → out[i]? = logits[i]?

variable {forbidden forbidden' : Nat → Prop} {logits middle out : List F}

theorem floors_nothing (logits : List F) : Floors A (fun _ => False) logits logits :=
  ⟨rfl, fun _ _ => False.elim, fun _ _ => rfl⟩

theorem Floors.trans (h : Floors A forbidden logits middle) (h' : Floors A forbidden' middle out) :
    Floors A (fun i => forbidden i ∨ forbidden' i) logits out where
  length_eq := h'.length_eq.trans h.length_eq
  floor := by
    intro i hi hforbidden
    by_cases hlater : forbidden' i
    · exact h'.floor i (by rwa [h.length_eq]) hlater
    · rw [h'.keep i hlater]
      exact h.floor i hi (hforbidden.resolve_right hlater)
  keep := by
    intro i hallowed
    rw [not_or] at hallowed
    rw [h'.keep i hallowed.2, h.keep i hallowed.1]

theorem Floors.congr (h : Floors A forbidden logits out) (hsame : ∀ i, forbidden' i ↔ forbidden i) :
    Floors A forbidden' logits out :=
  ⟨h.length_eq, fun i hi hforbidden => h.floor i hi ((hsame i).mp hforbidden),
    fun i hallowed => h.keep i fun hforbidden => hallowed ((hsame i).mpr hforbidden)⟩

/-- A rule that applies only on a condition. -/
theorem Floors.ite (h : Floors A forbidden logits out) (c : Prop) [Decidable c] :
    Floors A (fun i => c ∧ forbidden i) logits (if c then out else logits) := by
  split
  · next hc => exact h.congr fun i => and_iff_right hc
  · next hc => exact (floors_nothing logits).congr fun i => iff_false_intro fun h => hc h.1

theorem floors_suppressId (tokenId : UInt32) (logits : List F) :
    Floors A (fun i => tokenId.toNat = i) logits (suppressId A logits tokenId) where
  length_eq := List.length_set
  floor := by
    rintro i hi rfl
    exact List.getElem?_set_self hi
  keep := fun _ hne => List.getElem?_set_ne hne

theorem floors_suppressIds (ids : List UInt32) (logits : List F) :
    Floors A (fun i => ∃ id ∈ ids, id.toNat = i) logits (ids.foldl (suppressId A) logits) := by
  induction ids generalizing logits with
  | nil => exact (floors_nothing logits).congr fun i => by simp
  | cons id ids ih =>
      exact ((floors_suppressId id logits).trans (ih _)).congr fun i => List.exists_mem_cons_iff ..

theorem floors_suppressFrom (begin_ : Nat) (logits : List F) :
    Floors A (begin_ ≤ ·) logits (suppressFrom A begin_ logits) where
  length_eq := List.length_mapIdx
  floor := by
    intro i hi hbegin
    rw [suppressFrom, List.getElem?_mapIdx, List.getElem?_eq_getElem hi, Option.map_some,
      if_pos hbegin]
  keep := by
    intro i hbegin
    rw [suppressFrom, List.getElem?_mapIdx]
    cases logits[i]? with
    | none => rfl
    | some logit => rw [Option.map_some, if_neg hbegin]

theorem exists_mem_idRange {first last : UInt32} {i : Nat} :
    (∃ id ∈ idRange first last, id.toNat = i) ↔ first.toNat ≤ i ∧ i ≤ last.toNat := by
  have hlast : last.toNat < UInt32.size := last.toNat_lt
  constructor
  · rintro ⟨id, hid, rfl⟩
    obtain ⟨n, hn, rfl⟩ := List.mem_map.mp hid
    rw [List.mem_range'_1] at hn
    rw [UInt32.toNat_ofNat_of_lt' (by omega)]
    omega
  · rintro ⟨hfirst, hle⟩
    refine ⟨UInt32.ofNat i, List.mem_map_of_mem (List.mem_range'_1.mpr (by omega)), ?_⟩
    exact UInt32.toNat_ofNat_of_lt' (by omega)

/-! ### The rules -/

/-- A token that may not come next. -/
def Forbids (suppressor : TokenSuppressor) (generated : List UInt32) (token : UInt32) : Prop :=
  token ∈ suppressor.ids ∨
    suppressor.sot ≤ token ∧ token ≤ suppressor.notimestampsId ∨
    generated = [] ∧ token = suppressor.eot ∨
    suppressor.notimestamps = true ∧ suppressor.notimestampsId < token ∨
    (∃ last ∈ generated.getLast?, suppressor.timestampBegin ≤ last) ∧
      suppressor.timestampBegin ≤ token

/-- The rules, by positions of the logits. -/
def ForbidsAt (suppressor : TokenSuppressor) (generated : List UInt32) (i : Nat) : Prop :=
  (∃ id ∈ suppressor.ids, id.toNat = i) ∨
    suppressor.sot.toNat ≤ i ∧ i ≤ suppressor.notimestampsId.toNat ∨
    generated = [] ∧ suppressor.eot.toNat = i ∨
    suppressor.notimestamps = true ∧ suppressor.notimestampsId.toNat + 1 ≤ i ∨
    (∃ last ∈ generated.getLast?, suppressor.timestampBegin ≤ last) ∧
      suppressor.timestampBegin.toNat ≤ i

variable {suppressor : TokenSuppressor} {prompt generated : List UInt32}

theorem forbids_iff {token : UInt32} :
    suppressor.Forbids generated token ↔ suppressor.ForbidsAt generated token.toNat := by
  have hids : (∃ id ∈ suppressor.ids, id.toNat = token.toNat) ↔ token ∈ suppressor.ids := by
    simp only [UInt32.toNat_inj, exists_eq_right]
  rw [Forbids, ForbidsAt, hids, UInt32.toNat_inj, UInt32.le_iff_toNat_le, UInt32.le_iff_toNat_le,
    UInt32.lt_iff_toNat_lt, UInt32.le_iff_toNat_le (b := token), Nat.succ_le_iff,
    eq_comm (a := token)]

/-- The logits before the repetition penalty. -/
def floored (A : Arithmetic F) (suppressor : TokenSuppressor) (tokens : List UInt32)
    (logits : List F) : List F :=
  let logits :=
    if tokens.length ≤ suppressor.promptLen then suppressId A logits suppressor.eot else logits
  let logits := (idRange suppressor.sot suppressor.notimestampsId).foldl (suppressId A) logits
  let logits := suppressor.ids.foldl (suppressId A) logits
  let logits :=
    if suppressor.notimestamps then
      suppressFrom A (suppressor.notimestampsId.toNat + 1) logits
    else logits
  if (tokens.drop suppressor.promptLen).getLast?.any (suppressor.timestampBegin ≤ ·) then
    suppressFrom A suppressor.timestampBegin.toNat logits
  else logits

theorem apply_eq (tokens : List UInt32) (logits : List F) : suppressor.apply A tokens logits =
    ((tokens.drop suppressor.promptLen).foldl (penalizeSeen A suppressor.sot)
      ([], floored A suppressor tokens logits)).2 := rfl

/-- The five rules, one after another. -/
theorem floors_floored (hprompt : suppressor.promptLen = prompt.length) (logits : List F) :
    Floors A (suppressor.ForbidsAt generated) logits
      (floored A suppressor (prompt ++ generated) logits) := by
  have hfirst : (prompt ++ generated).length ≤ suppressor.promptLen ↔ generated = [] := by
    rw [hprompt, List.length_append, ← List.length_eq_zero_iff]
    omega
  have hlast : ((prompt ++ generated).drop suppressor.promptLen).getLast?.any
      (suppressor.timestampBegin ≤ ·) = true ↔
        ∃ last ∈ generated.getLast?, suppressor.timestampBegin ≤ last := by
    simp only [hprompt, List.drop_left, Option.any_eq_true, decide_eq_true_eq, Option.mem_def]
  have heot := (floors_suppressId (A := A) suppressor.eot logits).ite
    ((prompt ++ generated).length ≤ suppressor.promptLen)
  have hspecial := heot.trans
    (floors_suppressIds (idRange suppressor.sot suppressor.notimestampsId) _)
  have hids := hspecial.trans (floors_suppressIds suppressor.ids _)
  have hnone := hids.trans
    ((floors_suppressFrom (suppressor.notimestampsId.toNat + 1) _).ite
      (suppressor.notimestamps = true))
  have hrules := hnone.trans
    ((floors_suppressFrom suppressor.timestampBegin.toNat _).ite
      (((prompt ++ generated).drop suppressor.promptLen).getLast?.any
        (suppressor.timestampBegin ≤ ·) = true))
  refine hrules.congr fun i => ?_
  rw [hfirst, hlast, exists_mem_idRange, ForbidsAt]
  generalize (∃ id ∈ suppressor.ids, id.toNat = i) = listed
  generalize (∃ last ∈ generated.getLast?, suppressor.timestampBegin ≤ last) = stamped
  grind

/-! ### The penalty -/

/-- A logit after the penalty, with the tokens that have been seen. -/
def AtMostOnce (A : Arithmetic F) (logits : List F) (loop : List UInt32 × List F) : Prop :=
  ∀ i, loop.2[i]? = logits[i]? ∨
    (∃ id ∈ loop.1, id.toNat = i) ∧ loop.2[i]? = logits[i]?.map (penalize A)

theorem AtMostOnce.penalizeSeen {sot id : UInt32} {loop : List UInt32 × List F}
    (h : AtMostOnce A logits loop) : AtMostOnce A logits (penalizeSeen A sot loop id) := by
  obtain ⟨seen, logits'⟩ := loop
  unfold TokenSuppressor.penalizeSeen
  dsimp only
  split
  · next hnew =>
    intro i
    rcases eq_or_ne id.toNat i with rfl | hne
    · have hkept := (h id.toNat).resolve_right fun ⟨⟨same, hsame, heq⟩, _⟩ =>
        hnew.2 (UInt32.toNat_inj.mp heq ▸ hsame)
      refine .inr ⟨⟨id, List.mem_cons_self, rfl⟩, ?_⟩
      exact (List.getElem?_modify_eq ..).trans (congrArg _ hkept)
    · rw [List.getElem?_modify_ne _ _ hne]
      exact (h i).imp_right (And.imp_left fun ⟨other, hother, heq⟩ =>
        ⟨other, List.mem_cons_of_mem id hother, heq⟩)
  · exact h

theorem atMostOnce_foldl (sot : UInt32) (ids : List UInt32) (logits : List F) :
    AtMostOnce A logits (ids.foldl (penalizeSeen A sot) ([], logits)) :=
  List.foldlRecOn ids (penalizeSeen A sot) (fun _ => .inl rfl) fun _ h _ _ => h.penalizeSeen

/-- Each logit is penalized once at most. -/
theorem penalized_or_kept (sot : UInt32) (ids : List UInt32) (logits : List F) (i : Nat) :
    (ids.foldl (penalizeSeen A sot) ([], logits)).2[i]? = logits[i]? ∨
      (ids.foldl (penalizeSeen A sot) ([], logits)).2[i]? = logits[i]?.map (penalize A) :=
  (atMostOnce_foldl sot ids logits i).imp_right And.right

/-- A token that was not generated is not penalized. -/
theorem kept_of_notMem {sot token : UInt32} {ids : List UInt32} (htoken : token ∉ ids)
    (logits : List F) :
    (ids.foldl (penalizeSeen A sot) ([], logits)).2[token.toNat]? = logits[token.toNat]? := by
  have hseen : (ids.foldl (penalizeSeen A sot) ([], logits)).1 ⊆ ids := by
    apply List.foldlRecOn (motive := fun loop : List UInt32 × List F => loop.1 ⊆ ids) ids
      (penalizeSeen A sot) (List.nil_subset ids)
    intro loop hloop id hid
    unfold penalizeSeen
    dsimp only
    split
    · exact List.cons_subset.mpr ⟨hid, hloop⟩
    · exact hloop
  refine (atMostOnce_foldl sot ids logits token.toNat).resolve_right ?_
  rintro ⟨⟨id, hid, heq⟩, -⟩
  rw [UInt32.toNat_inj] at heq
  rw [heq] at hid
  exact htoken (hseen hid)

end Floor

/-! ### Exact arithmetic -/

section Exact

variable {F : Type} [Field F] [LinearOrder F] {functions : Arithmetic.Functions F}

variable [IsStrictOrderedRing F] {suppressor : TokenSuppressor} {prompt generated : List UInt32}
  {logits : List F}

variable (F) in
/-- The raw logits above it stay above the floor. -/
abbrev rawBound : F := ((-10000 / 1.1 : ℚ) : F)

variable (F) in
abbrev exactFloor : F := ((-10000 : ℚ) : F)

theorem penalize_exactFloor : penalize (.exact functions) (exactFloor F) ≤ exactFloor F := by
  have hneg : exactFloor F < 0 := by norm_num
  rw [penalize_exact, if_neg hneg.not_gt]
  norm_num

theorem exactFloor_lt {x : F} (h : rawBound F < x) : exactFloor F < x := by
  refine lt_of_lt_of_le' h ?_
  norm_num

theorem exactFloor_lt_penalize {x : F} (h : rawBound F < x) :
    exactFloor F < penalize (.exact functions) x := by
  rw [penalize_exact]
  split
  · next hpos =>
    calc exactFloor F < 0 := by norm_num
      _ < x / ((1.1 : ℚ) : F) := by positivity
  · calc exactFloor F = rawBound F * ((1.1 : ℚ) : F) := by norm_num
      _ < x * ((1.1 : ℚ) : F) := by gcongr

/-! ### One step -/

variable (functions) in
/-- A forbidden logit ends on the floor or below it. -/
theorem apply_le (hprompt : suppressor.promptLen = prompt.length) {i : Nat}
    (hi : i < logits.length) (hforbidden : suppressor.ForbidsAt generated i) :
    ∃ v ≤ exactFloor F, (suppressor.apply (.exact functions) (prompt ++ generated) logits)[i]? =
      some v := by
  have hfloor := (floors_floored (A := .exact functions) hprompt logits).floor i hi hforbidden
  rw [apply_eq]
  rcases penalized_or_kept suppressor.sot _ (floored _ suppressor (prompt ++ generated) logits) i
    with hkept | hpenalized
  · exact ⟨_, le_rfl, hkept.trans hfloor⟩
  · rw [hfloor] at hpenalized
    exact ⟨_, penalize_exactFloor, hpenalized⟩

variable (functions) in
/-- An allowed logit stays above the floor. -/
theorem lt_apply (hprompt : suppressor.promptLen = prompt.length)
    (hraw : ∀ x ∈ logits, rawBound F < x) {i : Nat} (hi : i < logits.length)
    (hallowed : ¬ suppressor.ForbidsAt generated i) :
    ∃ v > exactFloor F, (suppressor.apply (.exact functions) (prompt ++ generated) logits)[i]? =
      some v := by
  have hkeep := (floors_floored (A := .exact functions) hprompt logits).keep i hallowed
  rw [List.getElem?_eq_getElem hi] at hkeep
  have habove := hraw _ (List.getElem_mem hi)
  rw [apply_eq]
  rcases penalized_or_kept suppressor.sot _ (floored _ suppressor (prompt ++ generated) logits) i
    with hkept | hpenalized
  · exact ⟨_, exactFloor_lt habove, hkept.trans hkeep⟩
  · rw [hkeep] at hpenalized
    exact ⟨_, exactFloor_lt_penalize habove, hpenalized⟩

end Exact

end TokenSuppressor

/-! ### The greatest logit -/

section Argmax

variable {F : Type} [Field F] [LinearOrder F] {functions : Arithmetic.Functions F}

/-- What the scan has found is above all that it has passed, and stands where it says. -/
theorem argmax_scan (functions : Arithmetic.Functions F) (values : List F) :
    let best := values.zipIdx.foldl (fun (bestI, bestV) (v, i) =>
      if (Arithmetic.exact functions).gt v bestV then (i, v) else (bestI, bestV))
        (0, (Arithmetic.exact functions).negInfinity)
    (∀ v ∈ values, v ≤ best.2) ∧
      (best = (0, (Arithmetic.exact functions).negInfinity) ∨ values[best.1]? = some best.2) := by
  induction values using List.reverseRecOn with
  | nil => exact ⟨fun _ h => absurd h List.not_mem_nil, .inl rfl⟩
  | append_singleton values v ih =>
      dsimp only at ih ⊢
      rw [List.zipIdx_append, List.foldl_append, Nat.zero_add]
      generalize values.zipIdx.foldl _ _ = best at ih ⊢
      obtain ⟨hle, hat⟩ := ih
      rw [List.zipIdx_singleton, List.foldl_cons, List.foldl_nil, List.forall_mem_append,
        List.forall_mem_singleton]
      dsimp only
      split
      · next hgt =>
        rw [Arithmetic.exact_gt] at hgt
        refine ⟨⟨fun w hw => (hle w hw).trans hgt.le, le_rfl⟩, .inr ?_⟩
        exact List.getElem?_concat_length
      · next hgt =>
        rw [Arithmetic.exact_gt, not_lt] at hgt
        refine ⟨⟨hle, hgt⟩, hat.imp_right fun hbest => ?_⟩
        have hlt := (List.getElem?_eq_some_iff.mp hbest).1
        rwa [List.getElem?_append_left hlt]

/-- The token of a greatest logit, where the logits have a token each and one is greater than what
the scan starts from. -/
theorem argmaxToken_spec {values : List F} (hlength : values.length ≤ UInt32.size) {v : F}
    (hv : v ∈ values) (hlt : functions.negInfinity < v) :
    ∃ best, values[(argmaxToken (.exact functions) values).toNat]? = some best ∧ v ≤ best := by
  obtain ⟨hle, hat⟩ := argmax_scan functions values
  unfold argmaxToken
  generalize values.zipIdx.foldl _ _ = best at hle hat ⊢
  have hbest : values[best.1]? = some best.2 := by
    refine hat.resolve_left fun hstart => ?_
    have := hle v hv
    rw [hstart] at this
    exact absurd hlt this.not_gt
  have hindex := (List.getElem?_eq_some_iff.mp hbest).1
  refine ⟨best.2, ?_, hle v hv⟩
  rwa [UInt32.toNat_ofNat_of_lt' (by omega)]

end Argmax

section Step

variable {F : Type} [Field F] [LinearOrder F] [IsStrictOrderedRing F]
  {functions : Arithmetic.Functions F} {suppressor : TokenSuppressor}
  {prompt generated : List UInt32} {logits : List F}

open TokenSuppressor

theorem argmaxToken_apply (hinfinity : functions.negInfinity ≤ exactFloor F)
    (hprompt : suppressor.promptLen = prompt.length) (hlength : logits.length ≤ UInt32.size)
    (hraw : ∀ x ∈ logits, rawBound F < x)
    (hallowed : ∃ token : UInt32, token.toNat < logits.length ∧
      ¬ suppressor.Forbids generated token) :
    (argmaxToken (.exact functions)
        (suppressor.apply (.exact functions) (prompt ++ generated) logits)).toNat < logits.length ∧
      ¬ suppressor.Forbids generated (argmaxToken (.exact functions)
        (suppressor.apply (.exact functions) (prompt ++ generated) logits)) := by
  obtain ⟨token, htoken, htokenAllowed⟩ := hallowed
  rw [forbids_iff] at htokenAllowed
  obtain ⟨v, hv, hat⟩ := lt_apply functions hprompt hraw htoken htokenAllowed
  have hlength' := suppressor.length_apply (.exact functions) (prompt ++ generated) logits
  obtain ⟨best, hbest, hle⟩ := argmaxToken_spec (hlength'.trans_le hlength)
    (List.mem_of_getElem? hat) (hinfinity.trans_lt hv)
  have hlt := (List.getElem?_eq_some_iff.mp hbest).1
  rw [hlength'] at hlt
  refine ⟨hlt, fun hforbidden => ?_⟩
  rw [forbids_iff] at hforbidden
  obtain ⟨w, hw, hfloor⟩ := apply_le functions hprompt hlt hforbidden
  rw [hbest, Option.some_inj] at hfloor
  have habove : exactFloor F < w := hfloor ▸ hv.trans_le hle
  exact absurd hw habove.not_ge

end Step

/-! ### A whole pass -/

namespace SeekLoop

variable {spec : WhisperSpec} {σ F : Type}

section Pass

variable (loop : SeekLoop spec σ F) (prompt : List UInt32)

abbrev rules : TokenSuppressor :=
  .new spec loop.tokenToId prompt.length loop.options.notimestamps loop.options.suppressTokens

/-- The decoder's answer to the prompt and what has been generated. -/
def Answers (generated : List UInt32) (answer : List F × σ) : Prop :=
  ∃ primed, loop.prime prompt = .ok primed ∧ Transition.Run (fun answer token next =>
    loop.decoder.step answer.2 token = .ok next) primed generated answer

/-- Each token is the one that the suppressed logits favour. -/
def Chosen (generated : List UInt32) : Prop :=
  ∀ g token, g ++ [token] <+: generated → ∃ answer, loop.Answers prompt g answer ∧
    token = argmaxToken loop.arithmetic
      ((loop.passSuppressor prompt).apply (prompt ++ g) answer.1)

end Pass

variable {loop : SeekLoop spec σ F} {prompt generated result : List UInt32} {answer : List F × σ}

theorem Answers.length_eq (h : loop.Answers prompt generated answer) :
    answer.1.length = spec.vocab := by
  obtain ⟨primed, hprime, hrun⟩ := h
  have hprimed : primed.1.length = spec.vocab := by
    refine Except.foldlM_invariant (P := fun _ answer => answer.1.length = spec.vocab) ?_ hprime
      List.length_replicate
    intro _ _ _ _ _ hstep _
    exact loop.decoder.length_step (Except.mapError_eq_ok_iff.mp hstep)
  exact hrun.invariant (P := fun _ answer => answer.1.length = spec.vocab) hprimed
    fun _ _ _ _ _ hstep => loop.decoder.length_step hstep

theorem Answers.snoc (h : loop.Answers prompt generated answer) {token : UInt32}
    {next : List F × σ} (hstep : loop.decoder.step answer.2 token = .ok next) :
    loop.Answers prompt (generated ++ [token]) next := by
  obtain ⟨primed, hprime, hrun⟩ := h
  exact ⟨primed, hprime, hrun.snoc hstep⟩

theorem Chosen.snoc (h : loop.Chosen prompt generated)
    (hanswer : loop.Answers prompt generated answer) :
    loop.Chosen prompt (generated ++ [argmaxToken loop.arithmetic
      ((loop.passSuppressor prompt).apply (prompt ++ generated) answer.1)]) := by
  intro g token hprefix
  rcases List.prefix_concat_iff.mp hprefix with heq | hbefore
  · obtain ⟨rfl, heq⟩ := List.append_inj' heq rfl
    exact ⟨answer, hanswer, List.singleton_inj.mp heq⟩
  · exact h g token hbefore

theorem chosen_greedySteps {steps : Nat} (h : loop.Chosen prompt generated)
    (hanswer : loop.Answers prompt generated answer)
    (hresult : loop.greedySteps (loop.passSuppressor prompt) steps generated (prompt ++ generated)
      answer.1 answer.2 = .ok result) : loop.Chosen prompt result := by
  induction steps generalizing generated answer with
  | zero =>
      cases hresult
      exact h
  | succ steps ih =>
      have hnext := h.snoc hanswer
      obtain ⟨token, rfl, ⟨-, rfl⟩ | ⟨-, rfl⟩ | ⟨-, answer', hstep, hrest⟩⟩ :=
        greedySteps_cases hresult
      · exact h
      · exact hnext
      · rw [List.append_assoc] at hrest
        exact ih hnext (hanswer.snoc hstep) hrest

theorem chosen_greedy (h : loop.greedy prompt = .ok generated) : loop.Chosen prompt generated := by
  obtain ⟨primed, hprime, hsteps⟩ := Except.bind_eq_ok_iff.mp h
  have hanswer : loop.Answers prompt [] primed := ⟨primed, hprime, .refl⟩
  have hnone : loop.Chosen prompt [] := fun g token hprefix =>
    absurd (List.prefix_nil.mp hprefix) (List.concat_ne_nil token g)
  have hsteps' : loop.greedySteps (loop.passSuppressor prompt) loop.options.maxNewTokens []
      (prompt ++ []) primed.1 primed.2 = .ok generated := by
    rwa [List.append_nil]
  exact chosen_greedySteps hnone hanswer hsteps'

/-- No token is a forbidden one, and no timestamp follows another. -/
structure Obeys (suppressor : TokenSuppressor) (generated : List UInt32) : Prop where
  allowed : ∀ g token, g ++ [token] <+: generated → ¬ suppressor.Forbids g token
  apart : generated.IsChain fun a b =>
    ¬ (suppressor.timestampBegin ≤ a ∧ suppressor.timestampBegin ≤ b)

theorem obeys_of_allowed {suppressor : TokenSuppressor}
    (h : ∀ g token, g ++ [token] <+: generated → ¬ suppressor.Forbids g token) :
    Obeys suppressor generated where
  allowed := h
  apart := by
    rw [List.isChain_iff_forall_rel_of_append_cons_cons]
    rintro a b before after rfl ⟨ha, hb⟩
    refine h (before ++ [a]) b ⟨after, by simp⟩ ?_
    iterate 4 right
    exact ⟨⟨a, List.getLast?_concat, ha⟩, hb⟩

section Exact

variable [Field F] [LinearOrder F] [IsStrictOrderedRing F]

variable (loop prompt) in
/-- After each of the prefixes some token is allowed, and no logit is as low as the floor. -/
def NeverStuck (generated : List UInt32) : Prop :=
  ∀ g token answer, g ++ [token] <+: generated → loop.Answers prompt g answer →
    (∀ x ∈ answer.1, TokenSuppressor.rawBound F < x) ∧
      ∃ token : UInt32, token.toNat < spec.vocab ∧ ¬ (loop.rules prompt).Forbids g token

end Exact

end SeekLoop

/-- **Suppression is obeyed.** The greatest logit after suppression is that of an allowed token
when there is one, and so is every token of a greedy pass that is never without one. -/
theorem greedy_obeys_suppression {F : Type} [Field F] [LinearOrder F] [IsStrictOrderedRing F]
    (functions : Arithmetic.Functions F)
    (hinfinity : functions.negInfinity ≤ TokenSuppressor.exactFloor F) :
    (∀ (suppressor : TokenSuppressor) (prompt generated : List UInt32) (logits : List F),
      suppressor.promptLen = prompt.length → logits.length ≤ UInt32.size →
      (∀ x ∈ logits, TokenSuppressor.rawBound F < x) →
      (∃ token : UInt32, token.toNat < logits.length ∧ ¬ suppressor.Forbids generated token) →
        ∃ token : UInt32, token = argmaxToken (.exact functions)
            (suppressor.apply (.exact functions) (prompt ++ generated) logits) ∧
          token.toNat < logits.length ∧ ¬ suppressor.Forbids generated token) ∧
    ∀ (spec : WhisperSpec) (σ : Type) (loop : SeekLoop spec σ F) (prompt generated : List UInt32),
      loop.arithmetic = .exact functions → spec.vocab ≤ UInt32.size →
      loop.greedy prompt = .ok generated → loop.NeverStuck prompt generated →
        SeekLoop.Obeys (loop.rules prompt) generated := by
  constructor
  · intro suppressor prompt generated logits hprompt hlength hraw hallowed
    exact ⟨_, rfl, argmaxToken_apply hinfinity hprompt hlength hraw hallowed⟩
  · intro spec σ loop prompt generated harithmetic hvocab hgreedy hstuck
    refine SeekLoop.obeys_of_allowed fun g token hprefix => ?_
    obtain ⟨answer, hanswer, rfl⟩ := SeekLoop.chosen_greedy hgreedy g token hprefix
    obtain ⟨hraw, hallowed⟩ := hstuck g _ answer hprefix hanswer
    rw [← hanswer.length_eq] at hvocab hallowed
    have hprompt : (loop.rules prompt).promptLen = prompt.length := rfl
    have htoken := argmaxToken_apply hinfinity hprompt hvocab hraw hallowed
    rw [← harithmetic] at htoken
    exact htoken.2

/-! ### A pass with timestamps -/

def nineTokens : WhisperSpec where
  encSeq := 1
  nLayers := 1
  nHeads := 1
  dHead := 1
  tCache := 12
  vocab := 9
  tokenEot := 3
  tokenSot := 4
  tokenNotimestamps := 6
  tokenTimestampBegin := 7

/-- The logits after every step. The greatest are those of special tokens, then of timestamps, then
of a token that is not wanted. -/
def risingLogits : List ℚ := [1, 2, 3, 0, 9, 9, 9, 8, 7]

def risingLoop : SeekLoop nineTokens Unit ℚ where
  arithmetic := .exact pointFunctions
  decoder :=
    { step := fun _ _ => .ok (risingLogits, ())
      length_step := by
        intro _ _ _ _ h
        cases h
        rfl }
  resetState := ()
  tokenToId _ := none
  options :=
    { lang := "en", task := "transcribe", notimestamps := false, maxNewTokens := 4, beamSize := 1
      suppressTokens := .ids [2] }
  windowIndex := 0
  basePrompt := []
  timestampBegin := 7
  windowEndToken := 9

theorem greedy_obeys_suppression_rising :
    (∃ token : UInt32, token = argmaxToken (.exact pointFunctions)
        ((risingLoop.rules [0]).apply (.exact pointFunctions) ([0] ++ [7]) risingLogits) ∧
      token.toNat < 9 ∧ ¬ (risingLoop.rules [0]).Forbids [7] token) ∧
    risingLoop.greedy [0] = .ok [7, 1, 7, 1] ∧
      SeekLoop.Obeys (risingLoop.rules [0]) [7, 1, 7, 1] := by
  have hinfinity : pointFunctions.negInfinity ≤ TokenSuppressor.exactFloor ℚ := by
    change (-1000000 : ℚ) ≤ _
    norm_num
  have hraw : ∀ x ∈ risingLogits, TokenSuppressor.rawBound ℚ < x := by
    intro x hx
    unfold risingLogits at hx
    fin_cases hx <;> norm_num
  have hallowed : ∀ g, ¬ (risingLoop.rules [0]).Forbids g 0 := by
    rintro g (hids | ⟨hsot, -⟩ | ⟨-, heot⟩ | ⟨hmode, -⟩ | ⟨-, hstamp⟩)
    · exact absurd hids (by decide)
    · exact absurd hsot (by decide)
    · exact absurd heot (by decide)
    · exact absurd hmode (by decide)
    · exact absurd hstamp (by decide)
  have hgreedy : risingLoop.greedy [0] = .ok [7, 1, 7, 1] := by
    have hsome : (risingLoop.greedy [0]).toOption = some [7, 1, 7, 1] := by decide +kernel
    exact Except.toOption_eq_some_iff.mp hsome
  obtain ⟨hstep, hpass⟩ := greedy_obeys_suppression pointFunctions hinfinity
  refine ⟨hstep _ _ _ _ rfl (by decide) hraw ⟨0, by decide, hallowed [7]⟩, hgreedy, ?_⟩
  refine hpass nineTokens Unit risingLoop _ _ rfl (by decide) hgreedy ?_
  intro g token answer _ hanswer
  have hlogits : answer.1 = risingLogits := by
    obtain ⟨primed, hprime, hrun⟩ := hanswer
    refine hrun.invariant (P := fun _ answer => answer.1 = risingLogits) ?_ ?_
    · cases hprime
      rfl
    · rintro _ _ _ _ - hstep
      cases hstep
      rfl
  rw [hlogits]
  exact ⟨hraw, 0, by decide, hallowed g⟩

end RkWhisper
