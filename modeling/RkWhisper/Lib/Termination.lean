import RkWhisper.Lib.Transition

/-!
# Runs that come to an end

A rank in a well-founded order that goes down with every step bounds the runs of a system: none of
them is infinite, and each of them can be continued to a state in which no step is left.
-/

namespace Transition

variable {σ α ι : Type*}

/-- No step is left. -/
def Final (step : σ → α → σ → Prop) (state : σ) : Prop :=
  ∀ event next, ¬ step state event next

/-- Every run from `state` is finite. -/
def Terminates (step : σ → α → σ → Prop) (state : σ) : Prop :=
  Acc (fun next state => ∃ event, step state event next) state

variable {step : σ → α → σ → Prop} {state next : σ}

theorem Terminates.of_step {event : α} (h : Terminates step state) (hstep : step state event next) :
    Terminates step next :=
  h.inv ⟨event, hstep⟩

theorem Terminates.of_run {events : List α} (h : Terminates step state)
    (hrun : Run step state events next) : Terminates step next :=
  hrun.invariant (P := fun _ => Terminates step) h fun _ _ _ _ hinv hstep => .of_step hinv hstep

/-- **Rank rule.** An invariant under which every step lowers the rank. -/
theorem terminates_of_rank [LT ι] [WellFoundedLT ι] {P : σ → Prop} (rank : σ → ι)
    (hkeep : ∀ state event next, P state → step state event next → P next)
    (hlower : ∀ state event next, P state → step state event next → rank next < rank state)
    (hstate : P state) : Terminates step state := by
  induction hrank : rank state using WellFoundedLT.induction generalizing state with
  | ind r ih =>
      refine Acc.intro state fun next hnext => ?_
      obtain ⟨event, hstep⟩ := hnext
      exact ih _ (hrank ▸ hlower state event next hstate hstep)
        (hkeep state event next hstate hstep) rfl

/-- **A run that goes on as long as it can gets to a final state.** -/
theorem Terminates.exists_final (h : Terminates step state) :
    ∃ events final, Run step state events final ∧ Final step final := by
  induction h with
  | intro state _ ih =>
      by_cases hfinal : Final step state
      · exact ⟨[], state, .refl, hfinal⟩
      · simp only [Final, not_forall, not_not] at hfinal
        obtain ⟨event, next, hstep⟩ := hfinal
        obtain ⟨events, final, hrun, hlast⟩ := ih next ⟨event, hstep⟩
        exact ⟨event :: events, final, .cons hstep hrun, hlast⟩

end Transition
