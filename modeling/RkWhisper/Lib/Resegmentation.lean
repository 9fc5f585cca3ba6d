import RkWhisper.Lib.Segmentation

/-!
# Segmenting what is left of a stream

A stream is cut between two windows, and what is behind the cut is segmented anew: the new scan knows
nothing of the runs that begin before the cut. A point behind the cut that was near a kept run is
near one again if each run the cut meets has ended before it, or goes on behind it as a kept run.
-/

namespace Segmentation

/-- In the run, or at most `amount` away from it. -/
def Near (amount x : Nat) (run : Interval) : Prop := run.1 ≤ x + amount ∧ x < run.2 + amount

def KeptNear (gap minLength amount : Nat) (windows : List Window) (x : Nat) : Prop :=
  ∃ run ∈ keptRuns gap minLength windows, Near amount x run

variable {gap minLength amount : Nat}

/-! ### Going on behind a part of the windows -/

theorem Ordered.following {low : Nat} {front more : List Window} (h : Ordered low (front ++ more)) :
    ∀ window ∈ front, Ordered window.stop more := by
  induction front generalizing low with
  | nil => exact fun _ hmem => absurd hmem List.not_mem_nil
  | cons first front ih =>
      obtain ⟨-, -, hrest⟩ := h
      exact List.forall_mem_cons.mpr ⟨hrest.of_append, ih hrest⟩

theorem Ordered.start_le {low : Nat} {windows : List Window} (h : Ordered low windows) :
    ∀ window ∈ windows, low ≤ window.start := by
  induction windows generalizing low with
  | nil => exact fun _ hmem => absurd hmem List.not_mem_nil
  | cons first windows ih =>
      obtain ⟨hlow, hne, hrest⟩ := h
      refine List.forall_mem_cons.mpr ⟨hlow, fun window hmem => ?_⟩
      exact (hlow.trans hne.le).trans (ih hrest window hmem)

theorem Follow.le_of_append {low : Nat} {front back : List Interval}
    (h : Follow low (front ++ back)) {left right : Interval} (hleft : left ∈ front)
    (hright : right ∈ back) : left.1 ≤ right.1 := by
  induction front generalizing low with
  | nil => cases hleft
  | cons first front ih =>
      obtain ⟨-, hne, hrest⟩ := h
      obtain rfl | hmem := List.mem_cons.mp hleft
      · exact hne.le.trans (hrest.of_mem (List.mem_append_right _ hright)).1
      · exact ih hrest hmem

theorem Ordered.front {low : Nat} {front more : List Window} (h : Ordered low (front ++ more)) :
    Ordered low front := by
  induction front generalizing low with
  | nil => trivial
  | cons first front ih => exact ⟨h.1, h.2.1, ih h.2.2⟩

theorem Ordered.append {low high : Nat} {front more : List Window} (h : Ordered low front)
    (hmore : Ordered high more) (hlow : low ≤ high) (hstop : ∀ window ∈ front, window.stop ≤ high) :
    Ordered low (front ++ more) := by
  induction front generalizing low with
  | nil => exact hmore.mono hlow
  | cons first front ih =>
      rw [List.forall_mem_cons] at hstop
      exact ⟨h.1, h.2.1, ih h.2.2 hstop.1 hstop.2⟩

/-- The open run ends before the windows to come. -/
theorem Ordered.open_run {low : Nat} {front more : List Window} (h : Ordered low (front ++ more)) :
    ∀ run ∈ (scan gap none front).2, Ordered run.2 more := by
  have hwindows : ∀ window ∈ front, True ∧ Ordered window.stop more :=
    fun window hmem => ⟨trivial, h.following window hmem⟩
  intro run hmem
  exact ((scan_forall gap (P := fun _ => True) (Q := fun stop => Ordered stop more) none front
    hwindows (by simp)).2 run hmem).2

theorem mem_runs_of_scan {windows : List Window} {run : Interval}
    (h : run ∈ (scan gap none windows).1 ∨ run ∈ (scan gap none windows).2) :
    run ∈ runs gap windows := by
  rw [runs, runsFrom, List.mem_append, Option.mem_toList]
  exact h

/-- An open run only grows, and the runs behind it are those of the windows to come. -/
theorem runsFrom_open (gap : Nat) (run : Interval) {windows : List Window} (h : Ordered run.2 windows) :
    ∃ stop rest, runsFrom gap (some run) windows = (run.1, stop) :: rest ∧ run.2 ≤ stop ∧
      rest ⊆ runs gap windows := by
  obtain ⟨stop, rest, hruns, ⟨rfl, hfresh⟩ | ⟨window, -, hfresh⟩⟩ :=
    runsFrom_restart gap run windows
  · refine ⟨run.2, rest, hruns, le_rfl, ?_⟩
    rw [runs, hfresh]
    exact List.Subset.refl _
  · have hfollow := follow_runs gap h
    rw [runs, hfresh] at hfollow
    obtain ⟨hlow, hne, -⟩ := hfollow
    refine ⟨stop, rest, hruns, hlow.trans hne.le, ?_⟩
    rw [runs, hfresh]
    exact List.subset_cons_self _ _

/-- Where the runs of a longer stream come from. -/
theorem mem_runs_append {low : Nat} {front more : List Window}
    (hordered : Ordered low (front ++ more)) {run : Interval} (h : run ∈ runs gap (front ++ more)) :
    run ∈ (scan gap none front).1 ∨
      (∃ first ∈ (scan gap none front).2, ∃ rest,
        runsFrom gap (some first) more = run :: rest ∧ run.1 = first.1) ∨
      run ∈ runs gap more := by
  rw [runs, runsFrom_append, List.mem_append] at h
  obtain hended | hlater := h
  · exact .inl hended
  · cases hopen : (scan gap none front).2 with
    | none =>
        rw [hopen] at hlater
        exact .inr (.inr hlater)
    | some first =>
        rw [hopen] at hlater
        obtain ⟨stop, rest, hruns, -, hrest⟩ :=
          runsFrom_open gap first (hordered.open_run first hopen)
        rw [hruns] at hlater
        obtain rfl | hmem := List.mem_cons.mp hlater
        · exact .inr (.inl ⟨first, rfl, rest, hruns, rfl⟩)
        · exact .inr (.inr (hrest hmem))

/-- A run is found again in a longer stream, perhaps with a later end. -/
theorem exists_longer_run {low : Nat} {front more : List Window}
    (hordered : Ordered low (front ++ more)) {run : Interval} (h : run ∈ runs gap front) :
    ∃ stop, run.2 ≤ stop ∧ (run.1, stop) ∈ runs gap (front ++ more) := by
  rw [runs, runsFrom, List.mem_append, Option.mem_toList] at h
  obtain hended | hopen := h
  · refine ⟨run.2, le_rfl, ?_⟩
    rw [runs, runsFrom_append]
    exact List.mem_append_left _ hended
  · obtain ⟨stop, rest, hruns, hle, -⟩ :=
      runsFrom_open gap run (hordered.open_run run hopen)
    refine ⟨stop, hle, ?_⟩
    rw [runs, runsFrom_append, hopen, hruns]
    exact List.mem_append_right _ List.mem_cons_self

theorem exists_longer_kept {low : Nat} {front more : List Window}
    (hordered : Ordered low (front ++ more)) {run : Interval}
    (h : run ∈ keptRuns gap minLength front) :
    ∃ stop, run.2 ≤ stop ∧ (run.1, stop) ∈ keptRuns gap minLength (front ++ more) := by
  obtain ⟨hrun, hlength⟩ := List.mem_filter.mp h
  obtain ⟨stop, hle, hmem⟩ := exists_longer_run hordered hrun
  refine ⟨stop, hle, List.mem_filter.mpr ⟨hmem, ?_⟩⟩
  rw [decide_eq_true_eq] at hlength ⊢
  simp only
  omega

/-! ### Restarting in an open run -/

theorem scan_some_same_end {first second stop stop' : Nat} {windows : List Window}
    (h : scan gap (some (first, stop)) windows = ([], some (first, stop'))) :
    scan gap (some (second, stop)) windows = ([], some (second, stop')) := by
  induction windows generalizing stop with
  | nil =>
      cases h
      rfl
  | cons window windows ih =>
      unfold scan at h ⊢
      split at h
      · rw [if_pos ‹_›]
        exact ih h
      · rw [if_neg ‹_›]
        split at h
        · cases h
        · rw [if_neg ‹_›]
          exact ih h

/-- The scan goes on in its open run, or that one has ended and a later window has opened another. -/
theorem scan_some (gap : Nat) (run : Interval) (windows : List Window) :
    (∃ stop, scan gap (some run) windows = ([], some (run.1, stop))) ∨
      ∀ later ∈ (scan gap (some run) windows).2, later.1 ∈ windows.map Window.start := by
  induction windows generalizing run with
  | nil => exact .inl ⟨run.2, rfl⟩
  | cons window windows ih =>
      have hmore : ∀ later : Interval, later.1 ∈ windows.map Window.start →
          later.1 ∈ (window :: windows).map Window.start :=
        fun _ hmem => List.mem_cons_of_mem _ hmem
      unfold scan
      split
      · exact (ih (run.1, window.stop)).imp_right fun h later hmem => hmore later (h later hmem)
      · split
        · right
          intro later hmem
          have hstarts := (scan_forall gap (P := (· ∈ windows.map Window.start))
            (Q := fun _ => True) none windows
            (fun w hw => ⟨List.mem_map_of_mem hw, trivial⟩) (by simp)).2
          exact hmore later (hstarts later hmem).1
        · exact (ih run).imp_right fun h later hmem => hmore later (h later hmem)

/-- A scan that restarts in a run finds nothing of it, or a later part that is open as well. -/
theorem scan_restart_open {run : Interval} {stop : Nat} {windows : List Window}
    (h : scan gap (some run) windows = ([], some (run.1, stop))) :
    scan gap none windows = ([], none) ∨
      ∃ window ∈ windows, scan gap none windows = ([], some (window.start, stop)) := by
  induction windows generalizing run with
  | nil => exact .inl rfl
  | cons window windows ih =>
      unfold scan at h ⊢
      split at h
      · rw [if_pos ‹_›]
        exact .inr ⟨window, List.mem_cons_self, scan_some_same_end h⟩
      · rw [if_neg ‹_›]
        split at h
        · cases h
        · obtain hnone | ⟨later, hmem, hopen⟩ := ih h
          · exact .inl hnone
          · exact .inr ⟨later, List.mem_cons_of_mem _ hmem, hopen⟩

/-! ### Cuts -/

def behind (cut : Nat) (windows : List Window) : List Window :=
  windows.filter fun window => decide (cut ≤ window.start)

/-- Behind the cut a kept run takes over from `run`, with its padding and to its end. -/
def GoesOn (gap minLength amount cut : Nat) (windows : List Window) (run : Interval) : Prop :=
  ∃ later ∈ keptRuns gap minLength (behind cut windows),
    later.1 ≤ cut + amount ∧ run.2 ≤ later.2

/-- A run that begins before the cut has ended there with its padding, or was not kept; or it goes
on behind the cut. -/
def Survives (gap minLength amount cut : Nat) (windows : List Window) (ended : Bool)
    (run : Interval) : Prop :=
  run.1 < cut → (ended = true ∧ (minLength ≤ run.2 - run.1 → run.2 + amount ≤ cut)) ∨
    GoesOn gap minLength amount cut windows run

/-- The cut harms no run of the windows; `closed` when there will be no more of them. -/
def CleanCut (gap minLength amount : Nat) (closed : Bool) (windows : List Window) (cut : Nat) :
    Prop :=
  (∀ run ∈ (scan gap none windows).1, Survives gap minLength amount cut windows true run) ∧
    ∀ run ∈ (scan gap none windows).2, Survives gap minLength amount cut windows closed run

instance (windows : List Window) (cut : Nat) (run : Interval) :
    Decidable (GoesOn gap minLength amount cut windows run) :=
  inferInstanceAs (Decidable (∃ later ∈ keptRuns gap minLength (behind cut windows), _ ∧ _))

instance (windows : List Window) (cut : Nat) (ended : Bool) (run : Interval) :
    Decidable (Survives gap minLength amount cut windows ended run) :=
  inferInstanceAs (Decidable (_ → (_ ∧ (_ → _)) ∨ _))

instance (closed : Bool) (windows : List Window) (cut : Nat) :
    Decidable (CleanCut gap minLength amount closed windows cut) :=
  inferInstanceAs (Decidable ((∀ run ∈ (scan gap none windows).1, _) ∧
    ∀ run ∈ (scan gap none windows).2, _))

theorem Ordered.split {low : Nat} {windows : List Window} (h : Ordered low windows) (cut : Nat) :
    windows = windows.filter (fun window => decide (window.start < cut)) ++ behind cut windows := by
  induction windows generalizing low with
  | nil => rfl
  | cons window windows ih =>
      obtain ⟨-, hne, hrest⟩ := h
      by_cases hcut : window.start < cut
      · rw [behind, List.filter_cons_of_pos (by simpa using hcut),
          List.filter_cons_of_neg (by simpa using hcut), List.cons_append]
        exact congrArg _ (ih hrest)
      · -- All later windows are behind the cut as well.
        have hlater : ∀ w ∈ window :: windows, cut ≤ w.start := by
          rw [List.forall_mem_cons]
          refine ⟨not_lt.mp hcut, fun w hw => ?_⟩
          have hstart := hrest.start_le w hw
          omega
        have hnone : (window :: windows).filter (fun w => decide (w.start < cut)) = [] := by
          rw [List.filter_eq_nil_iff]
          intro w hw
          rw [decide_eq_true_eq, not_lt]
          exact hlater w hw
        have hall : behind cut (window :: windows) = window :: windows := by
          rw [behind, List.filter_eq_self]
          intro w hw
          exact decide_eq_true (hlater w hw)
        rw [hnone, hall, List.nil_append]

theorem start_lt_of_scan_front {cut : Nat} {windows : List Window} :
    (∀ run ∈ (scan gap none (windows.filter fun window => decide (window.start < cut))).1,
        run.1 < cut) ∧
      ∀ run ∈ (scan gap none (windows.filter fun window => decide (window.start < cut))).2,
        run.1 < cut := by
  obtain ⟨hended, hopen⟩ := scan_forall gap (P := (· < cut)) (Q := fun _ => True) none
    (windows.filter fun window => decide (window.start < cut))
    (fun window hmem => ⟨of_decide_eq_true (List.mem_filter.mp hmem).2, trivial⟩) (by simp)
  exact ⟨fun run hmem => (hended run hmem).1, fun run hmem => (hopen run hmem).1⟩

theorem start_ge_of_mem_behind {cut : Nat} {windows : List Window} :
    ∀ window ∈ behind cut windows, cut ≤ window.start :=
  fun _ hmem => of_decide_eq_true (List.mem_filter.mp hmem).2

theorem behind_behind {cut cut' : Nat} (hle : cut ≤ cut') (windows : List Window) :
    behind cut' (behind cut windows) = behind cut' windows := by
  rw [behind, behind, List.filter_filter, behind]
  apply List.filter_congr
  intro window _
  rw [← Bool.decide_and, decide_eq_decide]
  omega

theorem Ordered.behind_append {low : Nat} {windows more : List Window}
    (h : Ordered low (windows ++ more)) (cut : Nat) : Ordered low (behind cut windows ++ more) := by
  have hsplit := h.front.split cut
  rw [hsplit, List.append_assoc] at h
  exact h.of_append

/-- The run that takes over from an open run is open as well, and ends where that one does. -/
theorem GoesOn.exists_of_open {low cut : Nat} {windows more : List Window} {first run : Interval}
    {rest : List Interval} (hordered : Ordered low (windows ++ more))
    (hfirst : first ∈ (scan gap none windows).2) (hcut : first.1 < cut)
    (hruns : runsFrom gap (some first) more = run :: rest)
    (h : GoesOn gap minLength amount cut windows first) :
    ∃ later ∈ keptRuns gap minLength (behind cut windows ++ more),
      later.1 ≤ cut + amount ∧ run.2 ≤ later.2 := by
  obtain ⟨later, hlater, hnear, hstop⟩ := h
  obtain ⟨stop, restOpen, hgrown, hgrow, -⟩ :=
    runsFrom_open gap first (hordered.open_run first hfirst)
  obtain rfl : run = (first.1, stop) := (List.cons.inj (hruns.symm.trans hgrown)).1
  rw [hordered.front.split cut, scan_append] at hfirst
  cases hopen : (scan gap none (windows.filter fun window => decide (window.start < cut))).2 with
  | none =>
      rw [hopen] at hfirst
      have hstart := (scan_forall gap (P := (cut ≤ ·)) (Q := fun _ => True) none
        (behind cut windows) (fun w hw => ⟨start_ge_of_mem_behind w hw, trivial⟩)
        (by simp)).2 first hfirst
      exact absurd hcut (not_lt.mpr hstart.1)
  | some opened =>
      rw [hopen] at hfirst
      obtain ⟨stopSeen, hscan⟩ | hstarts := scan_some gap opened (behind cut windows)
      · rw [hscan] at hfirst
        obtain rfl : (opened.1, stopSeen) = first := Option.some.inj hfirst
        obtain hnone | ⟨window, -, hrestart⟩ := scan_restart_open hscan
        · have hempty : keptRuns gap minLength (behind cut windows) = [] := by
            rw [keptRuns, runs, runsFrom, hnone]
            rfl
          rw [hempty] at hlater
          cases hlater
        · have hruns : runs gap (behind cut windows) = [(window.start, stopSeen)] := by
            rw [runs, runsFrom, hrestart]
            rfl
          obtain ⟨hmem, hlength⟩ := List.mem_filter.mp hlater
          rw [hruns] at hmem
          obtain rfl := List.mem_singleton.mp hmem
          obtain ⟨stop', rest', hleft, hright⟩ :=
            runsFrom_some_same_end gap opened.1 window.start stopSeen more
          obtain ⟨-, rfl⟩ : opened.1 = opened.1 ∧ stop = stop' :=
            Prod.mk.inj (List.cons.inj (hgrown.symm.trans hleft)).1
          refine ⟨(window.start, stop), List.mem_filter.mpr ⟨?_, ?_⟩, hnear, le_rfl⟩
          · rw [runs, runsFrom_append, hrestart, hright]
            exact List.mem_cons_self
          · rw [decide_eq_true_eq] at hlength ⊢
            simp only at hlength hgrow ⊢
            omega
      · obtain ⟨window, hwindow, hstart⟩ := List.mem_map.mp (hstarts first hfirst)
        have hge := start_ge_of_mem_behind window hwindow
        omega

/-- **Cutting a stream.** A point behind a clean cut that is near a kept run of the whole stream is
near a kept run of what is left of it. -/
theorem KeptNear.of_cut {low cut x : Nat} {closed : Bool} {windows more : List Window}
    (hordered : Ordered low (windows ++ more)) (hmore : ∀ window ∈ more, cut ≤ window.start)
    (hclosed : closed = true → more = [])
    (hclean : CleanCut gap minLength amount closed windows cut) (hx : cut ≤ x)
    (h : KeptNear gap minLength amount (windows ++ more) x) :
    KeptNear gap minLength amount (behind cut windows ++ more) x := by
  obtain ⟨run, hkept, hnear⟩ := h
  obtain ⟨hrun, hlength⟩ := List.mem_filter.mp hkept
  have htakeOver : (∃ later ∈ keptRuns gap minLength (behind cut windows ++ more),
      later.1 ≤ cut + amount ∧ run.2 ≤ later.2) →
        KeptNear gap minLength amount (behind cut windows ++ more) x := by
    rintro ⟨later, hlater, hstart, hstop⟩
    exact ⟨later, hlater, hstart.trans (by omega), hnear.2.trans_le (by omega)⟩
  -- A run that has ended with its padding is not near a point behind the cut.
  have hgone : (minLength ≤ run.2 - run.1 → run.2 + amount ≤ cut) → False := by
    intro hend
    have hstop := hend (of_decide_eq_true hlength)
    have hlt := hnear.2
    omega
  by_cases hstart : cut ≤ run.1
  · refine ⟨run, List.mem_filter.mpr ⟨?_, hlength⟩, hnear⟩
    have hsplit := hordered.front.split cut
    rw [hsplit, List.append_assoc] at hordered hrun
    obtain hended | ⟨first, hfirst, rest, -, heq⟩ | hlater := mem_runs_append hordered hrun
    · exact absurd hstart (not_le.mpr (start_lt_of_scan_front.1 run hended))
    · have hlt := start_lt_of_scan_front.2 first hfirst
      omega
    · exact hlater
  · obtain hended | ⟨first, hfirst, rest, hruns, heq⟩ | hlater := mem_runs_append hordered hrun
    · obtain ⟨-, hend⟩ | ⟨later, hlater, hle, hstop⟩ := hclean.1 run hended (not_le.mp hstart)
      · exact (hgone hend).elim
      · obtain ⟨stop, hgrow, hmem⟩ := exists_longer_kept (hordered.behind_append cut) hlater
        exact htakeOver ⟨_, hmem, hle, hstop.trans hgrow⟩
    · have hfirstCut : first.1 < cut := by omega
      obtain ⟨hended, hend⟩ | hgoes := hclean.2 first hfirst hfirstCut
      · rw [hclosed hended, runsFrom_nil] at hruns
        obtain rfl : first = run := (List.cons.inj hruns).1
        exact (hgone hend).elim
      · exact htakeOver (hgoes.exists_of_open hordered hfirst hfirstCut hruns)
    · have hstarts : ∀ r ∈ runs gap more, cut ≤ r.1 ∧ True :=
        runsFrom_forall (P := (cut ≤ ·)) (Q := fun _ => True)
          (fun w hw => ⟨hmore w hw, trivial⟩) (by simp)
      exact absurd (hstarts run hlater).1 hstart

/-- Nothing that is near a kept run lies before the first one seen so far. -/
theorem KeptNear.head_le {low x : Nat} {windows more : List Window} {first : Interval}
    (hordered : Ordered low (windows ++ more))
    (hfirst : (keptRuns gap minLength windows).head? = some first)
    (h : KeptNear gap minLength amount (windows ++ more) x) : first.1 ≤ x + amount := by
  obtain ⟨run, hkept, hnear, -⟩ := h
  refine le_trans ?_ hnear
  obtain ⟨hrun, hlength⟩ := List.mem_filter.mp hkept
  have hfollow : Follow low (runs gap windows) := follow_runs gap hordered.front
  have hmem : first ∈ keptRuns gap minLength windows := List.mem_of_head? hfirst
  have hfirstRun : first ∈ runs gap windows := List.mem_of_mem_filter hmem
  obtain hended | ⟨opened, hopen, rest, -, heq⟩ | hlater := mem_runs_append hordered hrun
  · -- The run is one of those seen so far, and the first kept one heads their list.
    have hseen : run ∈ keptRuns gap minLength windows :=
      List.mem_filter.mpr ⟨mem_runs_of_scan (.inl hended), hlength⟩
    have hkeptFollow : Follow low (keptRuns gap minLength windows) := hfollow.filter _
    cases hkeptRuns : keptRuns gap minLength windows with
    | nil => simp [hkeptRuns] at hfirst
    | cons head tail =>
        rw [hkeptRuns] at hfirst hseen hkeptFollow
        obtain rfl : head = first := Option.some.inj hfirst
        obtain rfl | htail := List.mem_cons.mp hseen
        · exact le_rfl
        · have hbehind := (hkeptFollow.2.2.of_mem htail).1
          exact hkeptFollow.2.1.le.trans hbehind
  · rw [heq]
    have hlast : opened ∈ runs gap windows := mem_runs_of_scan (.inr hopen)
    rw [runs, runsFrom, hopen] at hfollow
    rw [runs, runsFrom, hopen, List.mem_append] at hfirstRun
    obtain hended | hsame := hfirstRun
    · exact hfollow.le_of_append hended (List.mem_singleton_self _)
    · exact (List.mem_singleton.mp hsame) ▸ le_rfl
  · have hstop : Ordered first.2 more := by
      obtain hended | hsame := List.mem_append.mp hfirstRun
      · exact ((scan_forall gap (P := fun _ => True) (Q := fun stop => Ordered stop more) none
          windows (fun w hw => ⟨trivial, hordered.following w hw⟩) (by simp)).1 first hended).2
      · exact hordered.open_run first (Option.mem_toList.mp hsame)
    have hbehind := ((follow_runs gap hstop).of_mem hlater).1
    exact (hfollow.of_mem hfirstRun).2.le.trans hbehind

theorem head_mergeFrom (pending : Interval) (intervals : List Interval) :
    ∃ stop rest, mergeFrom pending intervals = (pending.1, stop) :: rest := by
  induction intervals generalizing pending with
  | nil => exact ⟨pending.2, [], rfl⟩
  | cons next rest ih =>
      unfold mergeFrom
      split
      · exact ih (pending.1, max pending.2 next.2)
      · exact ⟨pending.2, _, rfl⟩

/-- The first segment begins with the first kept run. -/
theorem exists_head_of_segments {limit : Nat} {windows : List Window} {first : Interval}
    (h : (segments gap minLength amount limit windows).head? = some first) :
    ∃ run, (keptRuns gap minLength windows).head? = some run ∧ first.1 = run.1 - amount := by
  rw [segments] at h
  cases hkept : keptRuns gap minLength windows with
  | nil => simp [hkept, merge] at h
  | cons run rest =>
      obtain ⟨stop, merged, hmerged⟩ :=
        head_mergeFrom (pad amount limit run) (rest.map (pad amount limit))
      rw [hkept, List.map_cons, merge, hmerged] at h
      obtain rfl := Option.some.inj h
      exact ⟨run, rfl, rfl⟩

/-! ### Moving the origin -/

def Window.move (shift : Nat) (window : Window) : Window :=
  { window with start := window.start + shift, stop := window.stop + shift }

def moveInterval (shift : Nat) (interval : Interval) : Interval :=
  (interval.1 + shift, interval.2 + shift)

theorem Follow.move {low : Nat} {intervals : List Interval} (h : Follow low intervals)
    (shift : Nat) : Follow (low + shift) (intervals.map (moveInterval shift)) := by
  induction intervals generalizing low with
  | nil => trivial
  | cons first intervals ih =>
      obtain ⟨hlow, hne, hrest⟩ := h
      exact ⟨Nat.add_le_add_right hlow shift, Nat.add_lt_add_right hne shift, ih hrest⟩

/-- Intervals that begin at `high` or later follow each other from there. -/
theorem Follow.raise {low high : Nat} {intervals : List Interval} (h : Follow low intervals)
    (hhigh : ∀ interval ∈ intervals, high ≤ interval.1) : Follow high intervals := by
  cases intervals with
  | nil => trivial
  | cons first intervals => exact ⟨hhigh first List.mem_cons_self, h.2⟩

theorem Follow.of_append {low : Nat} {front back : List Interval}
    (h : Follow low (front ++ back)) : Follow 0 back := by
  induction front generalizing low with
  | nil => exact h.mono (Nat.zero_le low)
  | cons first front ih => exact ih h.2.2

def moveBack (shift : Nat) (interval : Interval) : Interval :=
  (interval.1 - shift, interval.2 - shift)

theorem Follow.moveBack {low shift : Nat} {intervals : List Interval} (h : Follow low intervals)
    (hle : shift ≤ low) : Follow (low - shift) (intervals.map (moveBack shift)) := by
  induction intervals generalizing low with
  | nil => trivial
  | cons first intervals ih =>
      obtain ⟨hlow, hne, hrest⟩ := h
      exact ⟨Nat.sub_le_sub_right hlow shift, Nat.sub_lt_sub_right (hle.trans hlow) hne,
        ih hrest (by omega)⟩

theorem scan_move (gap shift : Nat) (run : Option Interval) (windows : List Window) :
    scan gap (run.map (moveInterval shift)) (windows.map (Window.move shift)) =
      ((scan gap run windows).1.map (moveInterval shift),
        (scan gap run windows).2.map (moveInterval shift)) := by
  induction windows generalizing run with
  | nil => rfl
  | cons window windows ih =>
      have hnone := ih none
      have hopen := ih (some (window.start, window.stop))
      cases run with
      | none =>
          simp only [List.map_cons, Option.map_none, Option.map_some, scan, Window.move,
            moveInterval] at hnone hopen ⊢
          split
          · exact hopen
          · exact hnone
      | some run =>
          have hgrown := ih (some (run.1, window.stop))
          have hsame := ih (some run)
          simp only [List.map_cons, Option.map_none, Option.map_some, scan, Window.move,
            moveInterval, Nat.add_sub_add_right] at hnone hgrown hsame ⊢
          split
          · exact hgrown
          · split
            · rw [hnone, List.map_cons]
              rfl
            · exact hsame

theorem runs_move (shift : Nat) (windows : List Window) :
    runs gap (windows.map (Window.move shift)) = (runs gap windows).map (moveInterval shift) := by
  have hscan := scan_move gap shift none windows
  rw [Option.map_none] at hscan
  rw [runs, runsFrom, hscan, runs, runsFrom, List.map_append]
  cases (scan gap none windows).2 <;> rfl

theorem keptRuns_move (shift : Nat) (windows : List Window) :
    keptRuns gap minLength (windows.map (Window.move shift)) =
      (keptRuns gap minLength windows).map (moveInterval shift) := by
  have hlength : ∀ run : Interval, (run.2 + shift) - (run.1 + shift) = run.2 - run.1 :=
    fun run => Nat.add_sub_add_right run.2 shift run.1
  rw [keptRuns, runs_move, List.filter_map, keptRuns]
  congr 1
  apply List.filter_congr
  intro run _
  simp only [Function.comp_apply, moveInterval, hlength]

theorem behind_move (shift cut : Nat) (windows : List Window) :
    behind (cut + shift) (windows.map (Window.move shift)) =
      (behind cut windows).map (Window.move shift) := by
  rw [behind, List.filter_map, behind]
  congr 1
  apply List.filter_congr
  intro window _
  simp only [Function.comp_apply, Window.move, Nat.add_le_add_iff_right]

theorem GoesOn.move {cut : Nat} {windows : List Window} {run : Interval}
    (h : GoesOn gap minLength amount cut windows run) (shift : Nat) :
    GoesOn gap minLength amount (cut + shift) (windows.map (Window.move shift))
      (moveInterval shift run) := by
  obtain ⟨later, hlater, hstart, hstop⟩ := h
  refine ⟨moveInterval shift later, ?_, ?_, ?_⟩
  · rw [behind_move, keptRuns_move]
    exact List.mem_map_of_mem hlater
  · simp only [moveInterval]
    omega
  · exact Nat.add_le_add_right hstop shift

theorem Survives.move {cut : Nat} {windows : List Window} {ended : Bool} {run : Interval}
    (h : Survives gap minLength amount cut windows ended run) (shift : Nat) :
    Survives gap minLength amount (cut + shift) (windows.map (Window.move shift)) ended
      (moveInterval shift run) := by
  intro hstart
  obtain ⟨hended, hend⟩ | hgoes := h (Nat.lt_of_add_lt_add_right hstart)
  · refine .inl ⟨hended, ?_⟩
    simp only [moveInterval]
    omega
  · exact .inr (hgoes.move shift)

theorem CleanCut.move {closed : Bool} {cut : Nat} {windows : List Window}
    (h : CleanCut gap minLength amount closed windows cut) (shift : Nat) :
    CleanCut gap minLength amount closed (windows.map (Window.move shift)) (cut + shift) := by
  have hscan := scan_move gap shift none windows
  rw [Option.map_none] at hscan
  obtain ⟨hended, hopen⟩ := h
  unfold CleanCut
  rw [hscan]
  refine ⟨?_, ?_⟩
  · intro moved hmem
    obtain ⟨run, hrun, rfl⟩ := List.mem_map.mp hmem
    exact (hended run hrun).move shift
  · intro moved hmem
    obtain ⟨run, hrun, rfl⟩ := Option.mem_map.mp hmem
    exact (hopen run hrun).move shift

end Segmentation
