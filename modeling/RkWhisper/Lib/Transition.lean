import Mathlib.Tactic

/-!
# Labelled transition systems

A system is a step relation `step s event s'`. `Run` collects the events of a finite execution in
order, so that histories (what was sent, what was accepted) are functions of the event list and
need no ghost state. The rules below carry the inductions over runs: an invariant, a cost that the
steps use up, and a simulation.
-/

namespace Transition

variable {σ τ α β : Type*}

/-- A finite execution from `start`, with its events in order. -/
inductive Run (step : σ → α → σ → Prop) (start : σ) : List α → σ → Prop where
  | refl : Run step start [] start
  | snoc {events : List α} {state next : σ} {event : α} :
      Run step start events state → step state event next →
      Run step start (events ++ [event]) next

namespace Run

variable {step : σ → α → σ → Prop} {start state next : σ} {events more : List α} {event : α}

theorem single (h : step start event next) : Run step start [event] next :=
  .snoc .refl h

theorem trans (h : Run step start events state) (hmore : Run step state more next) :
    Run step start (events ++ more) next := by
  induction hmore with
  | refl => simpa using h
  | snoc _ hstep ih =>
      rw [← List.append_assoc]
      exact .snoc ih hstep

theorem cons (h : step start event state) (hmore : Run step state more next) :
    Run step start (event :: more) next :=
  (single h).trans hmore

/-- A run of a system is a run of every system that has its steps. -/
theorem mono {step' : σ → α → σ → Prop} (h : Run step start events state)
    (hstep : ∀ state event next, step state event next → step' state event next) :
    Run step' start events state := by
  induction h with
  | refl => exact .refl
  | snoc _ hs ih => exact .snoc ih (hstep _ _ _ hs)

/-- A system with at most one successor for each event is run by folding its step function. -/
theorem of_foldlM {f : σ → α → Option σ} (hstep : ∀ state event next,
    f state event = some next → step state event next) :
    ∀ {events : List α} {start state : σ}, events.foldlM f start = some state →
      Run step start events state
  | [], start, state, h => by
      cases h
      exact .refl
  | event :: events, start, state, h => by
      rw [List.foldlM_cons] at h
      obtain ⟨next, hnext, hrest⟩ := Option.bind_eq_some_iff.mp h
      exact .cons (hstep _ _ _ hnext) (of_foldlM hstep hrest)

/-- **Invariant rule.** What holds at the start and is kept by every step holds at the end. The
invariant may speak of the events so far. -/
theorem invariant {P : List α → σ → Prop} (h : Run step start events state)
    (hstart : P [] start)
    (hstep : ∀ events state event next, P events state → step state event next →
      P (events ++ [event]) next) : P events state := by
  induction h with
  | refl => exact hstart
  | snoc _ hs ih => exact hstep _ _ _ _ ih hs

/-- **Invariant rule, for the runs whose events are all good.** -/
theorem invariant_of_forall {P : List α → σ → Prop} {good : α → Prop}
    (h : Run step start events state) (hgood : ∀ event ∈ events, good event)
    (hstart : P [] start)
    (hstep : ∀ events state event next, P events state → good event → step state event next →
      P (events ++ [event]) next) : P events state := by
  induction h with
  | refl => exact hstart
  | snoc _ hs ih =>
      rw [List.forall_mem_append] at hgood
      exact hstep _ _ _ _ (ih hgood.1) (hgood.2 _ (List.mem_singleton_self _)) hs

/-- **Cost rule.** When every step keeps an invariant and pays its cost out of a measure, a run pays
for all of its events out of the measure it started with. -/
theorem cost_le {P : σ → Prop} {μ : σ → Nat} {cost : α → Nat} (h : Run step start events state)
    (hstart : P start)
    (hstep : ∀ state event next, P state → step state event next →
      P next ∧ μ next + cost event ≤ μ state) :
    P state ∧ μ state + (events.map cost).sum ≤ μ start := by
  induction h with
  | refl => exact ⟨hstart, le_rfl⟩
  | snoc _ hs ih =>
      obtain ⟨hnext, hpay⟩ := hstep _ _ _ ih.1 hs
      refine ⟨hnext, ?_⟩
      rw [List.map_append, List.sum_append, List.map_singleton, List.sum_singleton]
      omega

end Run

/-! ### Histories -/

/-- What an observer notes who sees every event together with the state before it. -/
def history {γ : Type*} (next : σ → α → σ) (observe : σ → α → List γ) : σ → List α → List γ
  | _, [] => []
  | state, event :: events => observe state event ++ history next observe (next state event) events

theorem history_append {γ : Type*} {next : σ → α → σ} {observe : σ → α → List γ} (start : σ)
    (events more : List α) : history next observe start (events ++ more) =
      history next observe start events ++ history next observe (events.foldl next start) more := by
  induction events generalizing start with
  | nil => rfl
  | cons first events ih =>
      rw [List.cons_append, history, ih, history, List.append_assoc, List.foldl_cons]

namespace Run

variable {γ : Type*} {step : σ → α → σ → Prop} {start state : σ} {events : List α}
  {next : σ → α → σ} {observe : σ → α → List γ}

theorem eq_foldl (h : Run step start events state)
    (hnext : ∀ state event state', step state event state' → state' = next state event) :
    state = events.foldl next start := by
  induction h with
  | refl => rfl
  | snoc _ hs ih => rw [List.foldl_append, ← ih, hnext _ _ _ hs, List.foldl_cons, List.foldl_nil]

theorem history_snoc (h : Run step start events state)
    (hnext : ∀ state event state', step state event state' → state' = next state event)
    (event : α) : history next observe start (events ++ [event]) =
      history next observe start events ++ observe state event := by
  rw [history_append, ← h.eq_foldl hnext, history, history, List.append_nil]

/-- **Invariant rule, with the history.** The invariant may speak of what has been noted. -/
theorem invariant_history {P : List α → List γ → σ → Prop} (h : Run step start events state)
    (hnext : ∀ state event state', step state event state' → state' = next state event)
    (hstart : P [] [] start)
    (hstep : ∀ events log state event state', P events log state → step state event state' →
      P (events ++ [event]) (log ++ observe state event) state') :
    P events (history next observe start events) state := by
  induction h with
  | refl => exact hstart
  | snoc hrun hs ih =>
      rw [hrun.history_snoc hnext]
      exact hstep _ _ _ _ _ ih hs

end Run

end Transition
