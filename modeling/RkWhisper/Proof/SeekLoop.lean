import RkWhisper.Proof.BeamSearch
import RkWhisper.SeekLoop

/-!
# What the seek loop carries

A greedy pass stops before it would push the end of the text. A beam search keeps the hypotheses
that have ended, each with its final token, and the best of all may be one of them: then the pass
hands that token on, to the next prompt and to the output. Nothing else brings it in.
-/

namespace RkWhisper

variable {spec : WhisperSpec} {σ F : Type}

namespace SeekLoop

variable {loop : SeekLoop spec σ F} {sorter : SliceSort.Sorter} {prompt : List UInt32}

/-! ### A greedy pass -/

section Greedy

variable {suppress : Suppressor F} {steps : Nat} {generated tokens result : List UInt32}
  {logits : List F} {state : σ}

/-- What one round of the greedy loop does with the token that it favours. -/
theorem greedySteps_cases
    (h : loop.greedySteps suppress (steps + 1) generated tokens logits state = .ok result) :
    ∃ token, token = argmaxToken loop.arithmetic (suppress.apply tokens logits) ∧
      (token = spec.tokenEot ∧ result = generated ∨
        token ≠ spec.tokenEot ∧ result = generated ++ [token] ∨
        token ≠ spec.tokenEot ∧ ∃ answer, loop.decoder.step state token = .ok answer ∧
          loop.greedySteps suppress steps (generated ++ [token]) (tokens ++ [token]) answer.1
            answer.2 = .ok result) := by
  refine ⟨_, rfl, ?_⟩
  unfold greedySteps at h
  dsimp only at h
  split at h
  · next heot =>
    cases h
    exact .inl ⟨heot, rfl⟩
  · next hne =>
    split at h
    · cases h
      exact .inr (.inl ⟨hne, rfl⟩)
    · obtain ⟨answer, hstep, hrest⟩ := Except.bind_eq_ok_iff.mp h
      exact .inr (.inr ⟨hne, answer, Except.mapError_eq_ok_iff.mp hstep, hrest⟩)

/-- What the greedy loop adds is no end of the text, and nothing only if the first token is. -/
theorem greedySteps_spec
    (h : loop.greedySteps suppress steps generated tokens logits state = .ok result) :
    ∃ more, result = generated ++ more ∧ spec.tokenEot ∉ more ∧ (more = [] ↔
      steps = 0 ∨ argmaxToken loop.arithmetic (suppress.apply tokens logits) = spec.tokenEot) := by
  induction steps generalizing generated tokens logits state with
  | zero =>
      cases h
      exact ⟨[], (List.append_nil _).symm, List.not_mem_nil, by simp⟩
  | succ steps ih =>
      obtain ⟨token, htoken, ⟨heot, rfl⟩ | ⟨hne, rfl⟩ | ⟨hne, answer, -, hrest⟩⟩ :=
        greedySteps_cases h
      · exact ⟨[], (List.append_nil _).symm, List.not_mem_nil, by simp [← htoken, heot]⟩
      · refine ⟨[token], rfl, ?_, by simp [← htoken, hne]⟩
        exact mt List.mem_singleton.mp hne.symm
      · obtain ⟨more, rfl, hmore, -⟩ := ih hrest
        refine ⟨token :: more, List.append_assoc _ [_] more, ?_, by simp [← htoken, hne]⟩
        rw [List.mem_cons, not_or]
        exact ⟨hne.symm, hmore⟩

end Greedy

/-! ### A pass with beams -/

variable (spec) in
/-- The beams of a pass have generated what comes after its prompt. -/
abbrev Continue (prompt : List UInt32) : BeamSearch σ F → Prop :=
  BeamSearch.Beams (fun beam => ∃ g, spec.tokenEot ∉ g ∧ beam.tokens = prompt ++ g)
    (fun beam => beam.finished = true ∧
      ∃ g, spec.tokenEot ∉ g ∧ beam.tokens = prompt ++ g ++ [spec.tokenEot])

theorem Continue.step {suppress : Suppressor F} {search next : BeamSearch σ F}
    (h : Continue spec prompt search)
    (hstep : search.step sorter loop.arithmetic loop.decoder suppress = .ok next) :
    Continue spec prompt next := by
  refine BeamSearch.Beams.step h ?_ (fun _ => id) hstep
  rintro parent candidate beam ⟨g, hg, htokens⟩ - hbeam
  unfold BeamSearch.child at hbeam
  split at hbeam
  · next heot =>
    cases hbeam
    refine ⟨fun hlive => absurd hlive.symm Bool.false_ne_true, fun _ => ⟨rfl, g, hg, ?_⟩⟩
    rw [heot, htokens]
  · next hne =>
    obtain ⟨⟨logits, state⟩, -, heq⟩ := Except.bind_eq_ok_iff.mp hbeam
    cases heq
    refine ⟨fun _ => ⟨g ++ [candidate.tokenId], ?_, ?_⟩, fun h => absurd h Bool.false_ne_true⟩
    · rw [List.mem_append, List.mem_singleton, not_or]
      exact ⟨hg, fun heq => hne heq.symm⟩
    · rw [htokens, List.append_assoc]

theorem continue_new (size : Nat) (state : σ) (logits : List F) (alpha : F) : Continue spec
    prompt (BeamSearch.new loop.arithmetic size state logits prompt alpha) where
  live := by
    intro beam hbeam
    cases List.mem_singleton.mp hbeam
    exact ⟨rfl, [], List.not_mem_nil, (List.append_nil _).symm⟩
  ended := fun _ hbeam => absurd hbeam List.not_mem_nil

theorem continue_beamSteps {suppress : Suppressor F} {steps : Nat} {search final : BeamSearch σ F}
    (h : Continue spec prompt search)
    (hsteps : loop.beamSteps sorter suppress steps search = .ok final) :
    Continue spec prompt final := by
  induction steps generalizing search with
  | zero =>
      cases hsteps
      exact h
  | succ steps ih =>
      obtain ⟨next, hnext, hrest⟩ := Except.bind_eq_ok_iff.mp hsteps
      split at hrest
      · cases hrest
        exact h.step hnext
      · exact ih (h.step hnext) hrest

/-- The best beam of a pass is live, or it has ended. -/
theorem best_cases {search : BeamSearch σ F} {beam : Beam σ F}
    (hsearch : loop.beamSearch sorter prompt = .ok search)
    (hbeam : search.best loop.arithmetic = some beam) :
    ∃ g, spec.tokenEot ∉ g ∧
      (beam.finished = false ∧ beam.tokens = prompt ++ g ∨
        beam.finished = true ∧ beam.tokens = prompt ++ g ++ [spec.tokenEot]) := by
  obtain ⟨⟨logits, state⟩, -, hsteps⟩ := Except.bind_eq_ok_iff.mp hsearch
  have hcontinue := continue_beamSteps (continue_new _ state logits _) hsteps
  rcases List.mem_append.mp (SliceSort.maxBy_mem hbeam) with hmem | hmem
  · obtain ⟨hlive, g, hg, htokens⟩ := hcontinue.live beam hmem
    exact ⟨g, hg, .inl ⟨hlive, htokens⟩⟩
  · obtain ⟨hended, g, hg, htokens⟩ := hcontinue.ended beam hmem
    exact ⟨g, hg, .inr ⟨hended, htokens⟩⟩

/-! ### A pass -/

section Pass

variable (loop sorter prompt)

/-- The best beam of the pass is one that has ended. -/
def EndsFinished : Prop :=
  1 < loop.options.beamSize ∧ ∃ search beam, loop.beamSearch sorter prompt = .ok search ∧
    search.best loop.arithmetic = some beam ∧ beam.finished = true

/-- The pass ends without a token before the end of the text. -/
def SaysNothing : Prop :=
  if 1 < loop.options.beamSize then
    ∀ search beam, loop.beamSearch sorter prompt = .ok search →
      search.best loop.arithmetic = some beam →
        beam.tokens = prompt ∨ beam.tokens = prompt ++ [spec.tokenEot]
  else
    ∀ logits state, loop.prime prompt = .ok (logits, state) → loop.options.maxNewTokens = 0 ∨
      argmaxToken loop.arithmetic ((loop.passSuppressor prompt).apply prompt logits) =
        spec.tokenEot

end Pass

variable {new : List UInt32}

theorem newTokens_greedy (hsize : ¬ 1 < loop.options.beamSize)
    (h : loop.newTokens sorter prompt = .ok new) :
    spec.tokenEot ∉ new ∧ (new = [] ↔ loop.SaysNothing sorter prompt) := by
  rw [newTokens, if_neg hsize] at h
  obtain ⟨⟨logits, state⟩, hprime, hsteps⟩ := Except.bind_eq_ok_iff.mp h
  obtain ⟨more, rfl, hmore, hnil⟩ := greedySteps_spec hsteps
  refine ⟨hmore, ?_⟩
  rw [hnil, SaysNothing, if_neg hsize]
  constructor
  · intro hnothing logits' state' hprime'
    rw [hprime] at hprime'
    cases hprime'
    exact hnothing
  · intro hnothing
    exact hnothing logits state hprime

theorem newTokens_beams (hsize : 1 < loop.options.beamSize) {search : BeamSearch σ F}
    (hsearch : loop.beamSearch sorter prompt = .ok search) :
    loop.newTokens sorter prompt =
      .ok (((search.bestResult loop.arithmetic).getD []).drop prompt.length) := by
  rw [newTokens, if_pos hsize, hsearch]
  rfl

/-- A pass whose best beam has ended hands its last token on. -/
theorem eot_mem_of_endsFinished (h : loop.EndsFinished sorter prompt) :
    ∃ new, loop.newTokens sorter prompt = .ok new ∧ spec.tokenEot ∈ new := by
  obtain ⟨hsize, search, beam, hsearch, hbest, hfinished⟩ := h
  obtain ⟨g, -, ⟨hlive, -⟩ | ⟨-, htokens⟩⟩ := best_cases hsearch hbest
  · rw [hlive] at hfinished
    cases hfinished
  · refine ⟨_, newTokens_beams hsize hsearch, ?_⟩
    rw [BeamSearch.bestResult, hbest, Option.map_some, Option.getD_some, htokens, List.append_assoc,
      List.drop_left]
    exact List.mem_append_right g (List.mem_singleton_self _)

/-- Every other pass with beams hands on what it generated. -/
theorem newTokens_of_live (hpass : ¬ loop.EndsFinished sorter prompt)
    (hsize : 1 < loop.options.beamSize) {search : BeamSearch σ F}
    (hsearch : loop.beamSearch sorter prompt = .ok search) :
    spec.tokenEot ∉ ((search.bestResult loop.arithmetic).getD []).drop prompt.length ∧
      (((search.bestResult loop.arithmetic).getD []).drop prompt.length = [] ↔
        loop.SaysNothing sorter prompt) := by
  have hnothing : loop.SaysNothing sorter prompt ↔ ∀ beam, search.best loop.arithmetic = some beam →
      beam.tokens = prompt ∨ beam.tokens = prompt ++ [spec.tokenEot] := by
    rw [SaysNothing, if_pos hsize]
    refine ⟨fun h beam => h search beam hsearch, fun h search' beam hsearch' => ?_⟩
    rw [hsearch] at hsearch'
    cases hsearch'
    exact h beam
  rw [hnothing, BeamSearch.bestResult]
  cases hbest : search.best loop.arithmetic with
  | none => simp
  | some beam =>
      obtain ⟨g, hg, ⟨-, htokens⟩ | ⟨hfinished, -⟩⟩ := best_cases hsearch hbest
      · rw [Option.map_some, Option.getD_some, htokens, List.drop_left]
        refine ⟨hg, ?_⟩
        constructor
        · rintro rfl beam' hbeam'
          cases hbeam'
          exact .inl (htokens.trans (List.append_nil prompt))
        · intro h
          rcases h beam rfl with heq | heq
          · rw [htokens] at heq
            exact List.append_right_eq_self.mp heq
          · rw [htokens, List.append_cancel_left_eq] at heq
            rw [heq] at hg
            exact absurd (List.mem_singleton_self _) hg
      · exact absurd ⟨hsize, search, beam, hsearch, hbest, hfinished⟩ hpass

theorem newTokens_of_not_endsFinished (hpass : ¬ loop.EndsFinished sorter prompt)
    (h : loop.newTokens sorter prompt = .ok new) :
    spec.tokenEot ∉ new ∧ (new = [] ↔ loop.SaysNothing sorter prompt) := by
  by_cases hsize : 1 < loop.options.beamSize
  · have hbeams := h
    rw [newTokens, if_pos hsize] at hbeams
    obtain ⟨search, hsearch, -⟩ := Except.bind_eq_ok_iff.mp hbeams
    rw [newTokens_beams hsize hsearch] at h
    cases h
    exact newTokens_of_live hpass hsize hsearch
  · exact newTokens_greedy hsize h

/-! ### The passes -/

variable (loop) in
theorem exists_tail (accumulated : List UInt32) :
    ∃ tail, tail <:+ accumulated ∧ loop.prompt accumulated = loop.basePrompt ++ tail :=
  ⟨_, List.drop_suffix _ accumulated, rfl⟩

/-- What a pass leaves is what there was, or the new tokens come after it. -/
theorem seekPass_cases {accumulated accumulated' : List UInt32} {again : Bool}
    (h : loop.seekPass sorter accumulated = .ok (accumulated', again)) :
    accumulated' = accumulated ∨ HasRoom spec (loop.prompt accumulated) ∧
      ∃ new, loop.newTokens sorter (loop.prompt accumulated) = .ok new ∧
        accumulated' = accumulated ++ new := by
  unfold seekPass at h
  dsimp only at h
  split at h
  · next hroom =>
    obtain ⟨new, hnew, hrest⟩ := Except.bind_eq_ok_iff.mp h
    split at hrest
    · cases hrest
      exact .inl rfl
    · cases hrest
      exact .inr ⟨hroom, new, hnew, rfl⟩
  · cases h
    exact .inl rfl

variable (loop sorter)

/-- The passes that were followed by another one, and the tokens after them. -/
abbrev Passes : List Unit → List UInt32 → Prop :=
  Transition.Run (fun accumulated _ next => loop.seekPass sorter accumulated = .ok (next, true)) []

/-- A loop of so many passes that carries no end of the text. -/
structure Clean (passes : Nat) : Prop where
  output : ∀ output, loop.run sorter passes [] = .ok output → spec.tokenEot ∉ output
  prompts : ∀ events accumulated, loop.Passes sorter events accumulated → events.length < passes →
    ∃ tail, tail <:+ accumulated ∧ spec.tokenEot ∉ tail ∧
      loop.prompt accumulated = loop.basePrompt ++ tail
  newTokens : ∀ events accumulated new, loop.Passes sorter events accumulated →
    events.length < passes → HasRoom spec (loop.prompt accumulated) →
    loop.newTokens sorter (loop.prompt accumulated) = .ok new →
      spec.tokenEot ∉ new ∧ (new = [] ↔ loop.SaysNothing sorter (loop.prompt accumulated))

variable {loop sorter} {passes : Nat}

section Never

variable (hnever : ∀ prompt, ¬ loop.EndsFinished sorter prompt)

include hnever

theorem seekPass_eot_notMem {accumulated accumulated' : List UInt32} {again : Bool}
    (heot : spec.tokenEot ∉ accumulated)
    (hpass : loop.seekPass sorter accumulated = .ok (accumulated', again)) :
    spec.tokenEot ∉ accumulated' := by
  rcases seekPass_cases hpass with rfl | ⟨-, new, hnew, rfl⟩
  · exact heot
  · rw [List.mem_append, not_or]
    exact ⟨heot, (newTokens_of_not_endsFinished (hnever _) hnew).1⟩

theorem accumulated_eot_notMem {events : List Unit} {accumulated : List UInt32}
    (hpasses : loop.Passes sorter events accumulated) : spec.tokenEot ∉ accumulated :=
  hpasses.invariant (P := fun _ accumulated => spec.tokenEot ∉ accumulated) List.not_mem_nil
    fun _ _ _ _ heot hpass => seekPass_eot_notMem hnever heot hpass

theorem run_eot_notMem {accumulated output : List UInt32} (heot : spec.tokenEot ∉ accumulated)
    (hrun : loop.run sorter passes accumulated = .ok output) : spec.tokenEot ∉ output := by
  induction passes generalizing accumulated with
  | zero =>
      cases hrun
      exact heot
  | succ passes ih =>
      obtain ⟨⟨accumulated', again⟩, hpass, hrest⟩ := Except.bind_eq_ok_iff.mp hrun
      have heot' := seekPass_eot_notMem hnever heot hpass
      cases again with
      | true => exact ih heot' hrest
      | false =>
          cases hrest
          exact heot'

/-- A loop whose passes never end with a finished hypothesis for their best. -/
theorem clean_of_never (passes : Nat) : loop.Clean sorter passes where
  output := fun output hrun => run_eot_notMem hnever List.not_mem_nil hrun
  prompts := by
    intro events accumulated hpasses _
    obtain ⟨tail, htail, hprompt⟩ := exists_tail loop accumulated
    refine ⟨tail, htail, fun heot => ?_, hprompt⟩
    exact accumulated_eot_notMem hnever hpasses (htail.subset heot)
  newTokens := fun _ _ _ _ _ _ hnew => newTokens_of_not_endsFinished (hnever _) hnew

end Never

end SeekLoop

end RkWhisper
