import Mathlib.Tactic

/-!
# Segmenting a sequence of windows

Marked windows of a stream are grouped into runs, a run ending at the first unmarked window that
starts far enough behind it; runs are padded, and intervals that touch are merged. Intervals are
half-open. The scan is a recursion whose argument is the run still open, so that a scan can be
resumed, and restarted in the middle.
-/

namespace Segmentation

/-- `[start, stop)`. -/
abbrev Interval := Nat × Nat

structure Window where
  start : Nat
  stop : Nat
  marked : Bool
deriving DecidableEq

def Within (x : Nat) (interval : Interval) : Prop := interval.1 ≤ x ∧ x < interval.2

/-! ### Runs -/

/-- The runs that end inside the windows, and the run that is open behind them. -/
def scan (gap : Nat) : Option Interval → List Window → List Interval × Option Interval
  | run, [] => ([], run)
  | none, window :: windows =>
      if window.marked then scan gap (some (window.start, window.stop)) windows
      else scan gap none windows
  | some run, window :: windows =>
      if window.marked then scan gap (some (run.1, window.stop)) windows
      else if gap ≤ window.start - run.2 then
        (run :: (scan gap none windows).1, (scan gap none windows).2)
      else scan gap (some run) windows

/-- The end of the windows ends the open run. -/
def runsFrom (gap : Nat) (run : Option Interval) (windows : List Window) : List Interval :=
  (scan gap run windows).1 ++ (scan gap run windows).2.toList

def runs (gap : Nat) (windows : List Window) : List Interval := runsFrom gap none windows

variable {gap : Nat}

theorem scan_append (run : Option Interval) (front back : List Window) :
    scan gap run (front ++ back) =
      ((scan gap run front).1 ++ (scan gap (scan gap run front).2 back).1,
        (scan gap (scan gap run front).2 back).2) := by
  induction front generalizing run with
  | nil => simp [scan]
  | cons window front ih =>
      cases run with
      | none =>
          simp only [List.cons_append, scan]
          split <;> rw [ih]
      | some run =>
          simp only [List.cons_append, scan]
          split
          · rw [ih]
          · split <;> rw [ih]
            rfl

/-- **Resuming a scan.** -/
theorem runsFrom_append (run : Option Interval) (front back : List Window) :
    runsFrom gap run (front ++ back) =
      (scan gap run front).1 ++ runsFrom gap (scan gap run front).2 back := by
  simp [runsFrom, scan_append]

@[simp]
theorem runsFrom_nil (run : Option Interval) : runsFrom gap run [] = run.toList := rfl

theorem runsFrom_none_cons (window : Window) (windows : List Window) :
    runsFrom gap none (window :: windows) =
      if window.marked then runsFrom gap (some (window.start, window.stop)) windows
      else runsFrom gap none windows := by
  simp only [runsFrom, scan]
  split <;> rfl

theorem runsFrom_some_cons (run : Interval) (window : Window) (windows : List Window) :
    runsFrom gap (some run) (window :: windows) =
      if window.marked then runsFrom gap (some (run.1, window.stop)) windows
      else if gap ≤ window.start - run.2 then run :: runsFrom gap none windows
      else runsFrom gap (some run) windows := by
  simp only [runsFrom, scan]
  split
  · rfl
  · split <;> rfl

/-- Two open runs with one end go on to the same end, and the runs behind them are the same. -/
theorem runsFrom_some_same_end (gap : Nat) (first second stop : Nat) (windows : List Window) :
    ∃ stop' rest, runsFrom gap (some (first, stop)) windows = (first, stop') :: rest ∧
      runsFrom gap (some (second, stop)) windows = (second, stop') :: rest := by
  induction windows generalizing stop with
  | nil => exact ⟨stop, [], rfl, rfl⟩
  | cons window windows ih =>
      simp only [runsFrom_some_cons]
      split
      · exact ih window.stop
      · split
        · exact ⟨stop, _, rfl, rfl⟩
        · exact ih stop

/-- **Restarting a scan.** A scan that has forgotten the open run finds the same runs behind it; of
the open run it finds nothing, or a later part that begins at one of the windows. -/
theorem runsFrom_restart (gap : Nat) (run : Interval) (windows : List Window) :
    ∃ stop rest, runsFrom gap (some run) windows = (run.1, stop) :: rest ∧
      ((stop = run.2 ∧ runsFrom gap none windows = rest) ∨
        ∃ window ∈ windows, runsFrom gap none windows = (window.start, stop) :: rest) := by
  induction windows with
  | nil => exact ⟨run.2, [], rfl, .inl ⟨rfl, rfl⟩⟩
  | cons window windows ih =>
      simp only [runsFrom_some_cons, runsFrom_none_cons]
      by_cases hmarked : window.marked
      · simp only [hmarked, if_true]
        obtain ⟨stop, rest, hrun, hfresh⟩ :=
          runsFrom_some_same_end gap run.1 window.start window.stop windows
        exact ⟨stop, rest, hrun, .inr ⟨window, List.mem_cons_self, hfresh⟩⟩
      · simp only [hmarked]
        by_cases hgap : gap ≤ window.start - run.2
        · rw [if_pos hgap]
          exact ⟨run.2, _, rfl, .inl ⟨rfl, rfl⟩⟩
        · obtain ⟨stop, rest, hrun, hfresh | ⟨later, hmem, hfresh⟩⟩ := ih
          · rw [if_neg hgap]
            exact ⟨stop, rest, hrun, .inl hfresh⟩
          · rw [if_neg hgap]
            exact ⟨stop, rest, hrun, .inr ⟨later, List.mem_cons_of_mem _ hmem, hfresh⟩⟩

/-! ### Windows in order -/

/-- The windows are not empty, follow each other and begin at `low` or later. -/
def Ordered : Nat → List Window → Prop
  | _, [] => True
  | low, window :: windows =>
      low ≤ window.start ∧ window.start < window.stop ∧ Ordered window.stop windows

/-- The intervals are not empty, follow each other and begin at `low` or later. -/
def Follow : Nat → List Interval → Prop
  | _, [] => True
  | low, interval :: intervals =>
      low ≤ interval.1 ∧ interval.1 < interval.2 ∧ Follow interval.2 intervals

theorem Ordered.mono {low low' : Nat} {windows : List Window} (h : Ordered low windows)
    (hle : low' ≤ low) : Ordered low' windows := by
  cases windows with
  | nil => trivial
  | cons window windows => exact ⟨hle.trans h.1, h.2⟩

theorem Follow.mono {low low' : Nat} {intervals : List Interval} (h : Follow low intervals)
    (hle : low' ≤ low) : Follow low' intervals := by
  cases intervals with
  | nil => trivial
  | cons interval intervals => exact ⟨hle.trans h.1, h.2⟩

theorem Follow.of_mem {low : Nat} {intervals : List Interval} (h : Follow low intervals)
    {interval : Interval} (hmem : interval ∈ intervals) :
    low ≤ interval.1 ∧ interval.1 < interval.2 := by
  induction intervals generalizing low with
  | nil => cases hmem
  | cons first intervals ih =>
      obtain ⟨hlow, hne, hrest⟩ := h
      obtain rfl | hmem := List.mem_cons.mp hmem
      · exact ⟨hlow, hne⟩
      · have hlater := ih hrest hmem
        exact ⟨by omega, hlater.2⟩

theorem Follow.pairwise {low : Nat} {intervals : List Interval} (h : Follow low intervals) :
    intervals.Pairwise fun interval later => interval.2 ≤ later.1 := by
  induction intervals generalizing low with
  | nil => exact List.Pairwise.nil
  | cons first intervals ih =>
      obtain ⟨-, -, hrest⟩ := h
      exact List.pairwise_cons.mpr ⟨fun later hmem => (hrest.of_mem hmem).1, ih hrest⟩

theorem Follow.append {low high : Nat} {front back : List Interval} (h : Follow low front)
    (hback : Follow high back) (hlow : low ≤ high)
    (hbehind : ∀ interval ∈ front, interval.2 ≤ high) : Follow low (front ++ back) := by
  induction front generalizing low with
  | nil => exact hback.mono hlow
  | cons first front ih =>
      obtain ⟨hfirst, hne, hrest⟩ := h
      rw [List.forall_mem_cons] at hbehind
      exact ⟨hfirst, hne, ih hrest hbehind.1 hbehind.2⟩

theorem Follow.concat {low : Nat} {intervals : List Interval} (h : Follow low intervals)
    {last : Interval} (hlow : low ≤ last.1) (hne : last.1 < last.2)
    (hbehind : ∀ interval ∈ intervals, interval.2 ≤ last.1) : Follow low (intervals ++ [last]) :=
  h.append ⟨le_rfl, hne, trivial⟩ hlow hbehind

theorem Follow.front {low : Nat} {front back : List Interval} (h : Follow low (front ++ back)) :
    Follow low front := by
  induction front generalizing low with
  | nil => trivial
  | cons first front ih => exact ⟨h.1, h.2.1, ih h.2.2⟩

theorem Follow.from_head {low : Nat} {intervals : List Interval} {first : Interval}
    (h : Follow low intervals) (hhead : intervals.head? = some first) : Follow first.1 intervals := by
  cases intervals with
  | nil => trivial
  | cons head intervals =>
      obtain rfl := Option.some.inj hhead
      exact ⟨le_rfl, h.2⟩

/-- What comes before the last interval lies before its end. -/
theorem Follow.stop_le_last {low : Nat} {front : List Interval} {last : Interval}
    (h : Follow low (front ++ [last])) : ∀ interval ∈ front ++ [last], interval.2 ≤ last.2 := by
  induction front generalizing low with
  | nil => exact List.forall_mem_singleton.mpr le_rfl
  | cons first front ih =>
      obtain ⟨-, -, hrest⟩ := h
      have hlast := hrest.of_mem (List.mem_append_right _ (List.mem_singleton_self last))
      exact List.forall_mem_cons.mpr ⟨by omega, ih hrest⟩

theorem Follow.filter {low : Nat} {intervals : List Interval} (h : Follow low intervals)
    (keep : Interval → Bool) : Follow low (intervals.filter keep) := by
  induction intervals generalizing low with
  | nil => trivial
  | cons first intervals ih =>
      obtain ⟨hlow, hne, hrest⟩ := h
      rw [List.filter_cons]
      split
      · exact ⟨hlow, hne, ih hrest⟩
      · exact ih (hrest.mono (by omega))

/-- Runs follow each other as their windows do. -/
theorem follow_runsFrom_some (run : Interval) (windows : List Window) (hne : run.1 < run.2)
    (h : Ordered run.2 windows) : Follow run.1 (runsFrom gap (some run) windows) := by
  have hboth : ∀ windows low, Ordered low windows →
      Follow low (runsFrom gap none windows) ∧
        ∀ run : Interval, run.1 < run.2 → run.2 ≤ low →
          Follow run.1 (runsFrom gap (some run) windows) := by
    intro windows
    induction windows with
    | nil => exact fun low _ => ⟨trivial, fun run hne _ => ⟨le_rfl, hne, trivial⟩⟩
    | cons window windows ih =>
        intro low hordered
        obtain ⟨hlow, hwindow, hrest⟩ := hordered
        obtain ⟨hfresh, hopen⟩ := ih window.stop hrest
        constructor
        · rw [runsFrom_none_cons]
          split
          · exact (hopen (window.start, window.stop) hwindow le_rfl).mono hlow
          · exact hfresh.mono (by omega)
        · intro run hne hle
          rw [runsFrom_some_cons]
          split
          · exact hopen (run.1, window.stop) (by simp only; omega) le_rfl
          · split
            · exact ⟨le_rfl, hne, hfresh.mono (by omega)⟩
            · exact hopen run hne (by omega)
  exact (hboth windows run.2 h).2 run hne le_rfl

theorem follow_runs (gap : Nat) {low : Nat} {windows : List Window} (h : Ordered low windows) :
    Follow low (runs gap windows) := by
  rw [runs]
  induction windows generalizing low with
  | nil => trivial
  | cons window windows ih =>
      obtain ⟨hlow, hwindow, hrest⟩ := h
      rw [runsFrom_none_cons]
      split
      · exact (follow_runsFrom_some (window.start, window.stop) windows hwindow hrest).mono hlow
      · exact ih (hrest.mono (by omega))

/-- Runs begin and end where windows do. -/
theorem scan_forall (gap : Nat) {P Q : Nat → Prop} (run : Option Interval) (windows : List Window)
    (hwindows : ∀ window ∈ windows, P window.start ∧ Q window.stop)
    (hrun : ∀ r ∈ run, P r.1 ∧ Q r.2) :
    (∀ r ∈ (scan gap run windows).1, P r.1 ∧ Q r.2) ∧
      ∀ r ∈ (scan gap run windows).2, P r.1 ∧ Q r.2 := by
  induction windows generalizing run with
  | nil => exact ⟨by simp [scan], by simpa [scan] using hrun⟩
  | cons window windows ih =>
      rw [List.forall_mem_cons] at hwindows
      have hnone := ih none hwindows.2 (by simp)
      cases run with
      | none =>
          simp only [scan]
          split
          · exact ih _ hwindows.2 (by simpa using hwindows.1)
          · exact hnone
      | some run =>
          have hopen := hrun run rfl
          simp only [scan]
          split
          · exact ih _ hwindows.2 (by simpa using ⟨hopen.1, hwindows.1.2⟩)
          · split
            · exact ⟨List.forall_mem_cons.mpr ⟨hopen, hnone.1⟩, hnone.2⟩
            · exact ih _ hwindows.2 (by simpa using hopen)

theorem runsFrom_forall {P Q : Nat → Prop} {run : Option Interval} {windows : List Window}
    (hwindows : ∀ window ∈ windows, P window.start ∧ Q window.stop)
    (hrun : ∀ r ∈ run, P r.1 ∧ Q r.2) : ∀ r ∈ runsFrom gap run windows, P r.1 ∧ Q r.2 := by
  obtain ⟨hclosed, hopen⟩ := scan_forall gap run windows hwindows hrun
  intro r hmem
  rw [runsFrom, List.mem_append, Option.mem_toList] at hmem
  exact hmem.elim (hclosed r) (hopen r)

theorem Ordered.of_append {low : Nat} {front back : List Window} (h : Ordered low (front ++ back)) :
    Ordered low back := by
  induction front generalizing low with
  | nil => exact h
  | cons window front ih => exact ih (h.2.2.mono (h.1.trans h.2.1.le))

/-! ### Padding and merging -/

/-- `amount` more on both sides, inside `[0, limit)`. -/
def pad (amount limit : Nat) (interval : Interval) : Interval :=
  (interval.1 - amount, min (interval.2 + amount) limit)

/-- Merging with the last interval so far still pending. -/
def mergeFrom (pending : Interval) : List Interval → List Interval
  | [] => [pending]
  | next :: rest =>
      if next.1 ≤ pending.2 then mergeFrom (pending.1, max pending.2 next.2) rest
      else pending :: mergeFrom next rest

def merge : List Interval → List Interval
  | [] => []
  | first :: rest => mergeFrom first rest

/-- Intervals with their starts in order, none of them empty. -/
def Sorted : Nat → List Interval → Prop
  | _, [] => True
  | low, interval :: intervals =>
      low ≤ interval.1 ∧ interval.1 < interval.2 ∧ Sorted interval.1 intervals

theorem Sorted.mono {low low' : Nat} {intervals : List Interval} (h : Sorted low intervals)
    (hle : low' ≤ low) : Sorted low' intervals := by
  cases intervals with
  | nil => trivial
  | cons interval intervals => exact ⟨hle.trans h.1, h.2⟩

theorem Follow.sorted_pad {low limit : Nat} (amount : Nat) {intervals : List Interval}
    (h : Follow low intervals) (hlimit : ∀ interval ∈ intervals, interval.2 ≤ limit) :
    Sorted (low - amount) (intervals.map (pad amount limit)) := by
  induction intervals generalizing low with
  | nil => trivial
  | cons interval intervals ih =>
      obtain ⟨hlow, hne, hrest⟩ := h
      rw [List.forall_mem_cons] at hlimit
      refine ⟨Nat.sub_le_sub_right hlow _, ?_, ih (hrest.mono hne.le) hlimit.2⟩
      simp only [pad]
      omega

theorem follow_mergeFrom {pending : Interval} (intervals : List Interval)
    (hne : pending.1 < pending.2) (h : Sorted pending.1 intervals) :
    Follow pending.1 (mergeFrom pending intervals) := by
  induction intervals generalizing pending with
  | nil => exact ⟨le_rfl, hne, trivial⟩
  | cons next rest ih =>
      obtain ⟨hlow, hnext, hrest⟩ := h
      have hmono : Sorted pending.1 rest := hrest.mono hlow
      rw [mergeFrom]
      split
      · have hjoined : pending.1 < max pending.2 next.2 := lt_max_of_lt_left hne
        exact @ih (pending.1, max pending.2 next.2) hjoined hmono
      · exact ⟨le_rfl, hne, (ih hnext hrest).mono (by omega)⟩

theorem follow_merge {low : Nat} {intervals : List Interval} (h : Sorted low intervals) :
    Follow low (merge intervals) := by
  cases intervals with
  | nil => trivial
  | cons first rest => exact (follow_mergeFrom rest h.2.1 h.2.2).mono h.1

/-- Merged intervals do not even touch. -/
theorem pairwise_mergeFrom {pending : Interval} (intervals : List Interval)
    (hne : pending.1 < pending.2) (h : Sorted pending.1 intervals) :
    (mergeFrom pending intervals).Pairwise fun merged later => merged.2 < later.1 := by
  induction intervals generalizing pending with
  | nil => exact List.pairwise_singleton _ _
  | cons next rest ih =>
      obtain ⟨hlow, hnext, hrest⟩ := h
      rw [mergeFrom]
      split
      · have hmono : Sorted pending.1 rest := hrest.mono hlow
        have hjoined : pending.1 < max pending.2 next.2 := lt_max_of_lt_left hne
        exact @ih (pending.1, max pending.2 next.2) hjoined hmono
      · rename_i hgap
        refine List.pairwise_cons.mpr ⟨?_, ih hnext hrest⟩
        intro later hmem
        have hbehind := ((follow_mergeFrom rest hnext hrest).of_mem hmem).1
        omega

theorem pairwise_merge {low : Nat} {intervals : List Interval} (h : Sorted low intervals) :
    (merge intervals).Pairwise fun merged later => merged.2 < later.1 := by
  cases intervals with
  | nil => exact List.Pairwise.nil
  | cons first rest => exact pairwise_mergeFrom rest h.2.1 h.2.2

/-- Merging adds no point. -/
theorem exists_within_of_within_mergeFrom {pending : Interval} {intervals : List Interval} {x : Nat}
    (h : ∃ merged ∈ mergeFrom pending intervals, Within x merged) :
    ∃ interval ∈ pending :: intervals, Within x interval := by
  induction intervals generalizing pending with
  | nil => simpa [mergeFrom] using h
  | cons next rest ih =>
      rw [mergeFrom] at h
      split at h
      · rename_i htouch
        obtain ⟨interval, hmem, hx⟩ := ih h
        obtain rfl | hmem := List.mem_cons.mp hmem
        · obtain ⟨hlow, hhigh⟩ := hx
          by_cases hfirst : x < pending.2
          · exact ⟨pending, List.mem_cons_self, hlow, hfirst⟩
          · refine ⟨next, List.mem_cons_of_mem _ List.mem_cons_self, ?_, ?_⟩
            · omega
            · rw [lt_max_iff] at hhigh
              exact hhigh.resolve_left hfirst
        · exact ⟨interval, List.mem_cons_of_mem _ (List.mem_cons_of_mem _ hmem), hx⟩
      · obtain ⟨merged, hmem, hx⟩ := h
        obtain rfl | hmem := List.mem_cons.mp hmem
        · exact ⟨merged, List.mem_cons_self, hx⟩
        · obtain ⟨interval, hmem, hx⟩ := ih ⟨merged, hmem, hx⟩
          exact ⟨interval, List.mem_cons_of_mem _ hmem, hx⟩

theorem exists_within_of_within_merge {intervals : List Interval} {x : Nat}
    (h : ∃ merged ∈ merge intervals, Within x merged) :
    ∃ interval ∈ intervals, Within x interval := by
  cases intervals with
  | nil => simp [merge] at h
  | cons first rest => exact exists_within_of_within_mergeFrom h

/-- Merging loses no interval. -/
theorem exists_mergeFrom_of_mem {pending : Interval} {intervals : List Interval}
    (h : Sorted pending.1 intervals) {interval : Interval} (hmem : interval ∈ pending :: intervals) :
    ∃ merged ∈ mergeFrom pending intervals, merged.1 ≤ interval.1 ∧ interval.2 ≤ merged.2 := by
  induction intervals generalizing pending interval with
  | nil =>
      obtain rfl : interval = pending := by simpa using hmem
      exact ⟨interval, List.mem_cons_self, le_rfl, le_rfl⟩
  | cons next rest ih =>
      obtain ⟨hlow, hnext, hrest⟩ := h
      rw [mergeFrom]
      split
      · have hmono : Sorted pending.1 rest := hrest.mono hlow
        have hjoined : ∀ {r : Interval}, r ∈ (pending.1, max pending.2 next.2) :: rest →
            ∃ merged ∈ mergeFrom (pending.1, max pending.2 next.2) rest,
              merged.1 ≤ r.1 ∧ r.2 ≤ merged.2 := fun hr =>
          @ih (pending.1, max pending.2 next.2) hmono _ hr
        simp only [List.mem_cons] at hmem
        obtain rfl | rfl | hmem := hmem
        · obtain ⟨merged, hmerged, hstart, hstop⟩ := hjoined List.mem_cons_self
          exact ⟨merged, hmerged, hstart, (le_max_left _ _).trans hstop⟩
        · obtain ⟨merged, hmerged, hstart, hstop⟩ := hjoined List.mem_cons_self
          exact ⟨merged, hmerged, hstart.trans hlow, (le_max_right _ _).trans hstop⟩
        · exact hjoined (List.mem_cons_of_mem _ hmem)
      · obtain rfl | hmem := List.mem_cons.mp hmem
        · exact ⟨interval, List.mem_cons_self, le_rfl, le_rfl⟩
        · obtain ⟨merged, hmerged, hcovers⟩ := ih hrest hmem
          exact ⟨merged, List.mem_cons_of_mem _ hmerged, hcovers⟩

theorem exists_merge_of_mem {low : Nat} {intervals : List Interval} (h : Sorted low intervals)
    {interval : Interval} (hmem : interval ∈ intervals) :
    ∃ merged ∈ merge intervals, merged.1 ≤ interval.1 ∧ interval.2 ≤ merged.2 := by
  cases intervals with
  | nil => cases hmem
  | cons first rest => exact exists_mergeFrom_of_mem h.2.2 hmem

/-- **Merging keeps the set of points.** -/
theorem exists_within_merge_iff {low x : Nat} {intervals : List Interval} (h : Sorted low intervals) :
    (∃ merged ∈ merge intervals, Within x merged) ↔ ∃ interval ∈ intervals, Within x interval := by
  refine ⟨exists_within_of_within_merge, ?_⟩
  rintro ⟨interval, hmem, hstart, hstop⟩
  obtain ⟨merged, hmerged, hbegin, hend⟩ := exists_merge_of_mem h hmem
  exact ⟨merged, hmerged, hbegin.trans hstart, hstop.trans_le hend⟩

/-- What holds of all starts and of all stops still does after merging. -/
theorem mergeFrom_forall {P Q : Nat → Prop} {pending : Interval} {intervals : List Interval}
    (h : ∀ interval ∈ pending :: intervals, P interval.1 ∧ Q interval.2) :
    ∀ merged ∈ mergeFrom pending intervals, P merged.1 ∧ Q merged.2 := by
  induction intervals generalizing pending with
  | nil => simpa [mergeFrom] using h
  | cons next rest ih =>
      simp only [List.forall_mem_cons] at h
      obtain ⟨hpending, hnext, hrest⟩ := h
      rw [mergeFrom]
      split
      · refine ih (List.forall_mem_cons.mpr ⟨⟨hpending.1, ?_⟩, hrest⟩)
        obtain hmax | hmax := max_choice pending.2 next.2
        · rw [hmax]
          exact hpending.2
        · rw [hmax]
          exact hnext.2
      · exact List.forall_mem_cons.mpr ⟨hpending, ih (List.forall_mem_cons.mpr ⟨hnext, hrest⟩)⟩

theorem merge_forall {P Q : Nat → Prop} {intervals : List Interval}
    (h : ∀ interval ∈ intervals, P interval.1 ∧ Q interval.2) :
    ∀ merged ∈ merge intervals, P merged.1 ∧ Q merged.2 := by
  cases intervals with
  | nil => simp [merge]
  | cons first rest => exact mergeFrom_forall h

theorem merge_eq_nil_iff {intervals : List Interval} : merge intervals = [] ↔ intervals = [] := by
  cases intervals with
  | nil => simp [merge]
  | cons first rest =>
      have hne : ∀ pending, mergeFrom pending rest ≠ [] := by
        induction rest with
        | nil => simp [mergeFrom]
        | cons next rest ih =>
            intro pending
            rw [mergeFrom]
            split
            · exact ih _
            · exact List.cons_ne_nil _ _
      simp [merge, hne]

/-! ### Segments -/

/-- The runs of at least `minLength`. -/
def keptRuns (gap minLength : Nat) (windows : List Window) : List Interval :=
  (runs gap windows).filter fun run => decide (minLength ≤ run.2 - run.1)

def segments (gap minLength amount limit : Nat) (windows : List Window) : List Interval :=
  merge ((keptRuns gap minLength windows).map (pad amount limit))

variable {minLength amount limit : Nat} {windows : List Window}

theorem follow_keptRuns {low : Nat} (h : Ordered low windows) :
    Follow low (keptRuns gap minLength windows) :=
  (follow_runs gap h).filter _

theorem runs_stop_le (hlimit : ∀ window ∈ windows, window.stop ≤ limit) :
    ∀ run ∈ runs gap windows, run.2 ≤ limit := by
  have hwindows : ∀ window ∈ windows, True ∧ window.stop ≤ limit :=
    fun window hwindow => ⟨trivial, hlimit window hwindow⟩
  have hruns : ∀ r ∈ runsFrom gap none windows, True ∧ r.2 ≤ limit :=
    runsFrom_forall (P := fun _ => True) (Q := (· ≤ limit)) hwindows (by simp)
  exact fun run hmem => (hruns run hmem).2

theorem keptRuns_stop_le (hlimit : ∀ window ∈ windows, window.stop ≤ limit) :
    ∀ run ∈ keptRuns gap minLength windows, run.2 ≤ limit :=
  fun run hmem => runs_stop_le hlimit run (List.mem_of_mem_filter hmem)

theorem sorted_padded (h : Ordered 0 windows) (hlimit : ∀ window ∈ windows, window.stop ≤ limit) :
    Sorted 0 ((keptRuns gap minLength windows).map (pad amount limit)) := by
  have hfollow : Follow 0 (keptRuns gap minLength windows) := follow_keptRuns h
  have hsorted := hfollow.sorted_pad amount (keptRuns_stop_le hlimit)
  rwa [Nat.zero_sub] at hsorted

/-- Segments are not empty, follow each other and lie inside `[0, limit)`. -/
theorem follow_segments (h : Ordered 0 windows)
    (hlimit : ∀ window ∈ windows, window.stop ≤ limit) :
    Follow 0 (segments gap minLength amount limit windows) :=
  follow_merge (sorted_padded h hlimit)

theorem segments_stop_le : ∀ segment ∈ segments gap minLength amount limit windows,
    segment.2 ≤ limit := by
  intro segment hmem
  refine (merge_forall (P := fun _ => True) (Q := (· ≤ limit)) ?_ segment hmem).2
  intro padded hpadded
  obtain ⟨run, -, rfl⟩ := List.mem_map.mp hpadded
  exact ⟨trivial, min_le_right _ _⟩

/-- A point of a segment is a point of a kept run with its padding. -/
theorem exists_keptRun_of_within {x : Nat}
    (h : ∃ segment ∈ segments gap minLength amount limit windows, Within x segment) :
    ∃ run ∈ keptRuns gap minLength windows, Within x (pad amount limit run) := by
  obtain ⟨interval, hmem, hx⟩ := exists_within_of_within_merge h
  obtain ⟨run, hrun, rfl⟩ := List.mem_map.mp hmem
  exact ⟨run, hrun, hx⟩

theorem segments_eq_nil_iff :
    segments gap minLength amount limit windows = [] ↔ keptRuns gap minLength windows = [] := by
  rw [segments, merge_eq_nil_iff, List.map_eq_nil_iff]

end Segmentation
