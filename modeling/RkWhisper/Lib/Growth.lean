import RkWhisper.Lib.Resegmentation

/-!
# Segments of a stream that grows

When a stream goes on, the intervals found so far stay as they are, the last one apart: it begins
where it began and may end later. This holds of the runs, and dropping the short ones, padding and
merging all keep it.
-/

namespace Segmentation

/-- The intervals of a stream, and those of a stream that goes on behind it. -/
inductive Grows : List Interval → List Interval → Prop
  | nil (intervals) : Grows [] intervals
  | last {start stop stop'} (later) (hle : stop ≤ stop') :
      Grows [(start, stop)] ((start, stop') :: later)
  | cons (first) {intervals intervals'} (hrest : Grows intervals intervals') :
      Grows (first :: intervals) (first :: intervals')

namespace Grows

variable {gap minLength amount : Nat} {intervals intervals' : List Interval}

theorem append (front : List Interval) (h : Grows intervals intervals') :
    Grows (front ++ intervals) (front ++ intervals') := by
  induction front with
  | nil => exact h
  | cons first front ih => exact ih.cons first

/-- All but the last are final, and the last keeps its start. -/
theorem exists_later {front : List Interval} {last : Interval}
    (h : Grows (front ++ [last]) intervals') :
    ∃ stop later, intervals' = front ++ (last.1, stop) :: later ∧ last.2 ≤ stop := by
  induction front generalizing intervals' with
  | nil =>
      cases h with
      | last later hle => exact ⟨_, later, rfl, hle⟩
      | cons first hrest => exact ⟨last.2, _, rfl, le_rfl⟩
  | cons first front ih =>
      rw [List.cons_append] at h
      cases hback : front ++ [last] with
      | nil => exact absurd hback (List.concat_ne_nil _ _)
      | cons second rest =>
          rw [hback] at h ih
          cases h with
          | cons _ hrest =>
              obtain ⟨stop, later, rfl, hle⟩ := ih hrest
              exact ⟨stop, later, rfl, hle⟩

/-- What was long enough stays long enough. -/
theorem filter (h : Grows intervals intervals') (minLength : Nat) :
    Grows (intervals.filter fun run => decide (minLength ≤ run.2 - run.1))
      (intervals'.filter fun run => decide (minLength ≤ run.2 - run.1)) := by
  induction h with
  | nil intervals => exact nil _
  | @last start stop stop' later hle =>
      by_cases hkept : minLength ≤ stop - start
      · rw [List.filter_cons_of_pos (by simpa using hkept),
          List.filter_cons_of_pos (by simpa using hkept.trans (Nat.sub_le_sub_right hle _))]
        exact last _ hle
      · rw [List.filter_cons_of_neg (by simpa using hkept)]
        exact nil _
  | cons first hrest ih =>
      rw [List.filter_cons, List.filter_cons]
      split
      · exact ih.cons first
      · exact ih

theorem map_pad (h : Grows intervals intervals') (amount limit : Nat) :
    Grows (intervals.map (pad amount limit)) (intervals'.map (pad amount limit)) := by
  induction h with
  | nil intervals => exact nil _
  | last later hle => exact last _ (min_le_min_right _ (Nat.add_le_add_right hle amount))
  | cons first hrest ih => exact ih.cons _

/-- The interval that is pending only grows. -/
theorem single_mergeFrom {start stop stop' : Nat} (hle : stop ≤ stop') (intervals : List Interval) :
    Grows [(start, stop)] (mergeFrom (start, stop') intervals) := by
  induction intervals generalizing stop' with
  | nil => exact last [] hle
  | cons next rest ih =>
      rw [mergeFrom]
      split
      · exact ih (hle.trans (le_max_left _ _))
      · exact last _ hle

theorem mergeFrom (h : Grows intervals intervals') (pending : Interval) :
    Grows (Segmentation.mergeFrom pending intervals) (Segmentation.mergeFrom pending intervals') := by
  induction h generalizing pending with
  | nil intervals => exact single_mergeFrom le_rfl intervals
  | @last start stop stop' later hle =>
      simp only [Segmentation.mergeFrom]
      split
      · exact single_mergeFrom (max_le_max_left _ hle) later
      · exact (single_mergeFrom hle later).cons pending
  | cons first hrest ih =>
      simp only [Segmentation.mergeFrom]
      split
      · exact ih _
      · exact (ih first).cons pending

theorem merge (h : Grows intervals intervals') :
    Grows (Segmentation.merge intervals) (Segmentation.merge intervals') := by
  cases h with
  | nil intervals => exact nil _
  | last later hle => exact single_mergeFrom hle later
  | cons first hrest => exact hrest.mergeFrom first

/-- An open run grows, whatever comes. -/
theorem runsFrom {run : Interval} {stop : Nat} {windows : List Window} (hle : run.2 ≤ stop)
    (h : Ordered stop windows) : Grows [run] (runsFrom gap (some (run.1, stop)) windows) := by
  obtain ⟨stop', later, hruns, hgrow, -⟩ := runsFrom_open gap (run.1, stop) h
  rw [hruns]
  exact last later (hle.trans hgrow)

/-- **The runs of a stream that grows.** The last window may have been cut short by the end of the
stream. -/
theorem runs {low : Nat} {front more : List Window} {window window' : Window}
    (hmarked : window.marked = window'.marked) (hstart : window.start = window'.start)
    (hstop : window.stop ≤ window'.stop) (hordered : Ordered low (front ++ window' :: more)) :
    Grows (runs gap (front ++ [window])) (runs gap (front ++ window' :: more)) := by
  rw [Segmentation.runs, Segmentation.runs, runsFrom_append, runsFrom_append]
  apply append
  have hmore : Ordered window'.stop more := hordered.of_append.2.2
  have hopen : ∀ run ∈ (scan gap none front).2, Ordered run.2 (window' :: more) :=
    hordered.open_run
  cases hscan : (scan gap none front).2 with
  | none =>
      rw [runsFrom_none_cons, runsFrom_none_cons, ← hmarked, ← hstart]
      split
      · exact runsFrom hstop hmore
      · exact nil _
  | some run =>
      have hrun : Ordered run.2 more := (hopen run hscan).2.2.mono
        ((hopen run hscan).1.trans (hopen run hscan).2.1.le)
      rw [runsFrom_some_cons, runsFrom_some_cons, ← hmarked, ← hstart]
      split
      · exact runsFrom hstop hmore
      · split
        · exact (nil _).cons run
        · exact runsFrom le_rfl hrun

end Grows

/-! ### The limit -/

/-- What is left of the interval below `limit`. -/
def clip (limit : Nat) (interval : Interval) : Interval := (interval.1, min interval.2 limit)

variable {amount limit limit' : Nat}

theorem pad_eq_clip (hle : limit ≤ limit') (interval : Interval) :
    pad amount limit interval = clip limit (pad amount limit' interval) := by
  simp only [pad, clip, min_assoc, min_eq_right hle]

/-- Intervals that begin below the limit touch each other below it or not at all. -/
theorem mergeFrom_map_clip (pending : Interval) {intervals : List Interval}
    (h : ∀ interval ∈ intervals, interval.1 ≤ limit) :
    mergeFrom (clip limit pending) (intervals.map (clip limit)) =
      (mergeFrom pending intervals).map (clip limit) := by
  induction intervals generalizing pending with
  | nil => rfl
  | cons next rest ih =>
      obtain ⟨hnext, hrest⟩ := List.forall_mem_cons.mp h
      have htouch : (clip limit next).1 ≤ (clip limit pending).2 ↔ next.1 ≤ pending.2 := by
        simp only [clip, le_min_iff, hnext, and_true]
      have hjoined : max (clip limit pending).2 (clip limit next).2 =
          (clip limit (pending.1, max pending.2 next.2)).2 := by
        simp only [clip, min_max_distrib_right]
      rw [List.map_cons, mergeFrom, mergeFrom]
      by_cases htouches : next.1 ≤ pending.2
      · rw [if_pos (htouch.mpr htouches), if_pos htouches, hjoined]
        exact ih (pending.1, max pending.2 next.2) hrest
      · rw [if_neg (htouch.not.mpr htouches), if_neg htouches, List.map_cons, ih next hrest]

theorem merge_map_clip {intervals : List Interval} (h : ∀ interval ∈ intervals, interval.1 ≤ limit) :
    merge (intervals.map (clip limit)) = (merge intervals).map (clip limit) := by
  cases intervals with
  | nil => rfl
  | cons first rest => exact mergeFrom_map_clip first (List.forall_mem_cons.mp h).2

/-- **Padded and merged intervals of a stream that grows.** All but the last end before it, so that
the old limit does not reach them. -/
theorem exists_later_of_merge {low : Nat} {runs runs' front : List Interval} {last : Interval}
    (hle : limit ≤ limit') (hgrows : Grows runs runs') (hfollow : Follow low runs)
    (hlimit : ∀ run ∈ runs, run.2 ≤ limit)
    (h : merge (runs.map (pad amount limit)) = front ++ [last]) :
    ∃ stop later, merge (runs'.map (pad amount limit')) = front ++ (last.1, stop) :: later ∧
      last.2 ≤ stop := by
  have hpad : runs.map (pad amount limit) = (runs.map (pad amount limit')).map (clip limit) := by
    rw [List.map_map]
    exact List.map_congr_left fun run _ => pad_eq_clip hle run
  have hstarts : ∀ interval ∈ runs.map (pad amount limit'), interval.1 ≤ limit := by
    intro interval hmem
    obtain ⟨run, hrun, rfl⟩ := List.mem_map.mp hmem
    have hbegin := (hfollow.of_mem hrun).2
    have hend := hlimit run hrun
    simp only [pad]
    omega
  have hsorted : Sorted (low - amount) (runs.map (pad amount limit')) :=
    hfollow.sorted_pad amount fun run hrun => (hlimit run hrun).trans hle
  rw [hpad, merge_map_clip hstarts] at h
  obtain ⟨whole, tail, hsplit, hfront, htail⟩ := List.map_eq_append_iff.mp h
  obtain ⟨lastWhole, rfl, rfl⟩ := List.map_eq_singleton_iff.mp htail
  have hbegin : lastWhole.1 ≤ limit := by
    have hlast : lastWhole ∈ merge (runs.map (pad amount limit')) := by
      rw [hsplit]
      exact List.mem_append_right _ (List.mem_singleton_self _)
    exact (merge_forall (P := (· ≤ limit)) (Q := fun _ => True)
      (fun interval hmem => ⟨hstarts interval hmem, trivial⟩) lastWhole hlast).1
  -- What lies before the last one ends before it begins.
  have hsame : front = whole := by
    have hpairwise := pairwise_merge hsorted
    rw [hsplit, List.pairwise_append] at hpairwise
    rw [← hfront]
    refine Eq.trans (List.map_congr_left fun interval hmem => ?_) (List.map_id whole)
    have hbefore := hpairwise.2.2 interval hmem lastWhole (List.mem_singleton_self _)
    exact Prod.ext rfl (min_eq_left (by omega))
  have hgrown := (hgrows.map_pad amount limit').merge
  rw [hsplit] at hgrown
  obtain ⟨stop, later, hlater, hstop⟩ := hgrown.exists_later
  rw [hsame]
  exact ⟨stop, later, hlater, (min_le_left _ _).trans hstop⟩

end Segmentation
