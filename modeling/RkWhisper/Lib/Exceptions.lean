import Mathlib.Data.List.Induction

/-!
# Programs that may fail

When a program of `Except` goes through and with what result, and which of its parts has failed when
it does not.
-/

namespace Except

variable {ε ε' α β : Type}

@[simp]
theorem ok_bind_eq (a : α) (f : α → Except ε β) : (Except.ok a >>= f) = f a := rfl

@[simp]
theorem error_bind_eq (e : ε) (f : α → Except ε β) : (Except.error e >>= f) = .error e := rfl

@[simp]
theorem pure_eq_ok (a : α) : (pure a : Except ε α) = .ok a := rfl

theorem bind_eq_ok_iff {x : Except ε α} {f : α → Except ε β} {b : β} :
    x >>= f = .ok b ↔ ∃ a, x = .ok a ∧ f a = .ok b := by
  cases x with
  | ok a => simp
  | error e => simp

theorem bind_eq_error_iff {x : Except ε α} {f : α → Except ε β} {e : ε} :
    x >>= f = .error e ↔ x = .error e ∨ ∃ a, x = .ok a ∧ f a = .error e := by
  cases x with
  | ok a => simp
  | error e' => simp

@[simp]
theorem mapError_ok (f : ε → ε') (a : α) : (Except.ok a).mapError f = .ok a := rfl

@[simp]
theorem mapError_error (f : ε → ε') (e : ε) :
    (Except.error e : Except ε α).mapError f = .error (f e) := rfl

theorem mapError_eq_ok_iff {x : Except ε α} {f : ε → ε'} {a : α} :
    x.mapError f = .ok a ↔ x = .ok a := by
  cases x with
  | ok a => simp
  | error e => simp

theorem mapError_eq_error_iff {x : Except ε α} {f : ε → ε'} {e' : ε'} :
    x.mapError f = .error e' ↔ ∃ e, x = .error e ∧ f e = e' := by
  cases x with
  | ok a => simp
  | error e => simp

theorem toOption_eq_some_iff {x : Except ε α} {a : α} : x.toOption = some a ↔ x = .ok a := by
  cases x with
  | ok a => simp [Except.toOption]
  | error e => simp [Except.toOption]

/-! ### Loops -/

variable {f : α → Except ε β} {xs : List α} {ys : List β} {e : ε}

/-- A loop each round of which goes through. -/
theorem foldlM_eq_ok {σ : Type} {step : σ → α → Except ε σ} {next : σ → α → σ}
    (h : ∀ x ∈ xs, ∀ s, step s x = .ok (next s x)) (s : σ) :
    xs.foldlM step s = .ok (xs.foldl next s) := by
  induction xs generalizing s with
  | nil => rfl
  | cons x xs ih =>
      rw [List.forall_mem_cons] at h
      rw [List.foldlM_cons, h.1 s, ok_bind_eq, ih h.2, List.foldl_cons]

theorem mapM_eq_ok {g : α → β} (h : ∀ x ∈ xs, f x = .ok (g x)) : xs.mapM f = .ok (xs.map g) := by
  induction xs with
  | nil => rfl
  | cons x xs ih =>
      rw [List.forall_mem_cons] at h
      rw [List.mapM_cons, h.1, ok_bind_eq, ih h.2, ok_bind_eq]
      rfl

/-- A loop that goes through has a result for each round. -/
theorem exists_of_mapM_eq_ok [Inhabited β] (h : xs.mapM f = .ok ys) :
    ∃ result : α → β, ys = xs.map result ∧ ∀ x ∈ xs, f x = .ok (result x) := by
  let result : α → β := fun x => (f x).toOption.getD default
  refine ⟨result, ?_⟩
  induction xs generalizing ys with
  | nil =>
      cases h
      exact ⟨rfl, by simp⟩
  | cons x xs ih =>
      rw [List.mapM_cons, bind_eq_ok_iff] at h
      obtain ⟨y, hy, hrest⟩ := h
      obtain ⟨ys, hys, heq⟩ := bind_eq_ok_iff.mp hrest
      cases heq
      obtain ⟨hmap, hall⟩ := ih hys
      have hresult : result x = y := by
        change (f x).toOption.getD default = y
        rw [hy]
        rfl
      refine ⟨?_, List.forall_mem_cons.mpr ⟨?_, hall⟩⟩
      · rw [List.map_cons, hresult, ← hmap]
      · rw [hresult, hy]

theorem exists_of_mapM_eq_error (h : xs.mapM f = .error e) : ∃ x ∈ xs, f x = .error e := by
  induction xs with
  | nil => cases h
  | cons x xs ih =>
      rw [List.mapM_cons, bind_eq_error_iff] at h
      rcases h with hx | ⟨y, -, hrest⟩
      · exact ⟨x, List.mem_cons_self, hx⟩
      · rcases bind_eq_error_iff.mp hrest with hxs | ⟨ys, -, hpure⟩
        · obtain ⟨x', hx', he⟩ := ih hxs
          exact ⟨x', List.mem_cons_of_mem x hx', he⟩
        · cases hpure

theorem exists_mapM_eq_ok (h : ∀ x ∈ xs, ∃ y, f x = .ok y) : ∃ ys, xs.mapM f = .ok ys := by
  cases hxs : xs.mapM f with
  | ok ys => exact ⟨ys, rfl⟩
  | error e =>
      obtain ⟨x, hx, he⟩ := exists_of_mapM_eq_error hxs
      obtain ⟨y, hy⟩ := h x hx
      rw [hy] at he
      cases he

theorem exists_foldlM_eq_ok {σ : Type} {step : σ → α → Except ε σ}
    (h : ∀ s, ∀ x ∈ xs, ∃ s', step s x = .ok s') (s : σ) : ∃ s', xs.foldlM step s = .ok s' := by
  induction xs generalizing s with
  | nil => exact ⟨s, rfl⟩
  | cons x xs ih =>
      obtain ⟨next, hnext⟩ := h s x List.mem_cons_self
      obtain ⟨last, hlast⟩ := ih (fun s y hy => h s y (List.mem_cons_of_mem x hy)) next
      refine ⟨last, ?_⟩
      rw [List.foldlM_cons, hnext, ok_bind_eq, hlast]

/-- **Invariant rule.** What holds at the start and is kept by every round holds at the end. -/
theorem foldlM_invariant {σ : Type} {step : σ → α → Except ε σ} {P : List α → σ → Prop}
    (hstep : ∀ done x s s', P done s → step s x = .ok s' → x ∈ xs → P (done ++ [x]) s')
    {s s' : σ} (h : xs.foldlM step s = .ok s') (hstart : P [] s) : P xs s' := by
  induction xs using List.reverseRecOn generalizing s' with
  | nil =>
      cases h
      exact hstart
  | append_singleton xs x ih =>
      rw [List.foldlM_append, bind_eq_ok_iff] at h
      obtain ⟨middle, hxs, hx⟩ := h
      rw [List.foldlM_cons, bind_eq_ok_iff] at hx
      obtain ⟨last, hlast, heq⟩ := hx
      rw [List.foldlM_nil] at heq
      cases heq
      refine hstep xs x middle _ (ih ?_ hxs) hlast (by simp)
      intro done y t t' hP ht hy
      exact hstep done y t t' hP ht (List.mem_append_left _ hy)

/-- **Counting rule.** A loop that counts goes through when each round does, after what the rounds
before it have established. -/
theorem exists_foldlM_range' {σ : Type} (step : σ → Nat → Except ε σ) {P : Nat → σ → Prop}
    {start count : Nat}
    (hstep : ∀ k < count, ∀ s, P k s → ∃ s', step s (start + k) = .ok s' ∧ P (k + 1) s') {s : σ}
    (hstart : P 0 s) : ∃ s', (List.range' start count).foldlM step s = .ok s' ∧ P count s' := by
  induction count with
  | zero => exact ⟨s, rfl, hstart⟩
  | succ count ih =>
      obtain ⟨middle, hmiddle, hP⟩ := ih fun k hk => hstep k (Nat.lt_succ_of_lt hk)
      obtain ⟨last, hlast, hP'⟩ := hstep count (Nat.lt_succ_self count) middle hP
      refine ⟨last, ?_, hP'⟩
      rw [List.range'_concat, Nat.one_mul, List.foldlM_append, hmiddle, ok_bind_eq,
        List.foldlM_cons, hlast, ok_bind_eq]
      rfl

end Except
