import Mathlib.Data.List.SplitBy
import RkWhisper.Lib.Segmentation

/-!
# Windows side by side

When windows of one width follow each other without a gap, what the scan does with the unmarked ones
can be said of the marked ones alone: two of them that come one after the other are in one run if and
only if there are too few unmarked windows between them to close it.
-/

namespace Segmentation

/-- The windows from `start` on, one for each mark. -/
def sideBySide (width limit : Nat) : Nat → List Bool → List Window
  | _, [] => []
  | start, marked :: marks =>
      { start, stop := min (start + width) limit, marked } ::
        sideBySide width limit (start + width) marks

/-- Where the marked windows begin. -/
def markedStarts (windows : List Window) : List Nat :=
  (windows.filter Window.marked).map Window.start

/-- Marked windows that begin at `a` and next at `b` are in one run. -/
def shareRun (gap width a b : Nat) : Bool := decide (b - (a + width) < gap + width)

/-- From the first window of the group to the end of its last. -/
def span (width limit : Nat) (group : List Nat) : Interval :=
  (group.headD 0, min (group.getLastD 0 + width) limit)

/-- The runs in terms of the marked windows. -/
def groupedRuns (gap width limit : Nat) (starts : List Nat) : List Interval :=
  (starts.splitBy (shareRun gap width)).map (span width limit)

variable {gap width limit start : Nat}

theorem start_le_of_mem_sideBySide {marks : List Bool} :
    ∀ window ∈ sideBySide width limit start marks, start ≤ window.start := by
  induction marks generalizing start with
  | nil => exact fun _ hmem => absurd hmem List.not_mem_nil
  | cons marked marks ih =>
      refine List.forall_mem_cons.mpr ⟨le_rfl, fun window hmem => ?_⟩
      exact (Nat.le_add_right _ _).trans (ih window hmem)

theorem le_of_mem_markedStarts {marks : List Bool} :
    ∀ b ∈ markedStarts (sideBySide width limit start marks), start ≤ b := by
  intro b hmem
  obtain ⟨window, hwindow, rfl⟩ := List.mem_map.mp hmem
  exact start_le_of_mem_sideBySide window (List.mem_of_mem_filter hwindow)

theorem markedStarts_cons (marked : Bool) (marks : List Bool) :
    markedStarts (sideBySide width limit start (marked :: marks)) =
      if marked then start :: markedStarts (sideBySide width limit (start + width) marks)
      else markedStarts (sideBySide width limit (start + width) marks) := by
  cases marked <;> rfl

theorem span_concat (front : List Nat) (a : Nat) :
    span width limit (front ++ [a]) = ((front ++ [a]).headD 0, min (a + width) limit) := by
  rw [span, List.getLastD_concat]

/-- A group that cannot grow any more is the first of the groups. -/
theorem groupedRuns_append {front : List Nat} {a : Nat} {later : List Nat}
    (hchain : (front ++ [a]).IsChain fun b c => shareRun gap width b c = true)
    (hfar : ∀ b ∈ later.head?, shareRun gap width a b = false) :
    groupedRuns gap width limit (front ++ a :: later) =
      span width limit (front ++ [a]) :: groupedRuns gap width limit later := by
  have hsplit : front ++ a :: later = (front ++ [a]) ++ later := (List.append_cons ..)
  have hlast : ∀ b ∈ (front ++ [a]).getLast?, ∀ c ∈ later.head?, shareRun gap width b c = false := by
    intro b hb c hc
    rw [List.getLast?_concat] at hb
    obtain rfl := Option.some.inj hb
    exact hfar c hc
  rw [groupedRuns, hsplit, List.splitBy_append hlast,
    List.splitBy_of_isChain (List.concat_ne_nil _ _) hchain, List.map_append]
  rfl

/-- What the scan finds from `start` on: with no run open, the groups of the marked windows to come;
with the run of `front` and `a` open, the groups that begin with these. -/
theorem runsFrom_sideBySide (hwidth : 0 < width) (marks : List Bool) (start : Nat)
    (hlimit : ∀ window ∈ sideBySide width limit start marks, window.start < limit) :
    runsFrom gap none (sideBySide width limit start marks) =
        groupedRuns gap width limit (markedStarts (sideBySide width limit start marks)) ∧
      ∀ (front : List Nat) (a : Nat),
        (front ++ [a]).IsChain (fun b c => shareRun gap width b c = true) →
        a + width ≤ start → start < a + width + (gap + width) →
        runsFrom gap (some (span width limit (front ++ [a])))
            (sideBySide width limit start marks) =
          groupedRuns gap width limit
            (front ++ a :: markedStarts (sideBySide width limit start marks)) := by
  induction marks generalizing start with
  | nil =>
      refine ⟨rfl, fun front a hchain _ _ => ?_⟩
      exact (@groupedRuns_append gap width limit front a [] hchain nofun).symm
  | cons marked marks ih =>
      rw [sideBySide, List.forall_mem_cons] at hlimit
      obtain ⟨hstart, hlimit⟩ := hlimit
      obtain ⟨hfresh, hopen⟩ := ih (start + width) hlimit
      have hsingle := hopen [] start (List.isChain_singleton _) le_rfl (by omega)
      rw [markedStarts_cons]
      refine ⟨?_, fun front a hchain hbehind hnear => ?_⟩
      · rw [sideBySide, runsFrom_none_cons]
        split
        · exact hsingle
        · exact hfresh
      · rw [sideBySide, runsFrom_some_cons]
        have hstop : min (a + width) limit = a + width := min_eq_left (by simp only at hstart; omega)
        split
        · -- The window goes on with the run.
          have hshare : shareRun gap width a start = true := decide_eq_true (by omega)
          have hchain' : (front ++ [a] ++ [start]).IsChain
              fun b c => shareRun gap width b c = true := by
            refine hchain.append (List.isChain_singleton _) ?_
            intro b hb c hc
            rw [List.getLast?_concat] at hb
            obtain rfl := Option.some.inj hb
            obtain rfl := Option.some.inj hc
            exact hshare
          have hgrown := hopen (front ++ [a]) start hchain' le_rfl (by omega)
          have hhead : (front ++ [a] ++ [start]).headD 0 = (front ++ [a]).headD 0 := by
            cases front <;> rfl
          rw [span_concat, hhead, List.append_assoc, List.singleton_append] at hgrown
          rw [span_concat]
          exact hgrown
        · rw [span_concat]
          simp only [hstop]
          split
          · -- The window closes the run: what comes is too far away to be in it.
            rename_i hgap
            rw [groupedRuns_append hchain, span_concat, hstop, hfresh]
            intro b hb
            have hlater := le_of_mem_markedStarts b (List.mem_of_mem_head? hb)
            exact decide_eq_false (by omega)
          · rename_i hgap
            have hsame := hopen front a hchain (by omega) (by omega)
            rw [span_concat, hstop] at hsame
            exact hsame

/-- **The runs are the groups of the marked windows.** -/
theorem runs_sideBySide (hwidth : 0 < width) (marks : List Bool)
    (hlimit : ∀ window ∈ sideBySide width limit 0 marks, window.start < limit) :
    runs gap (sideBySide width limit 0 marks) =
      groupedRuns gap width limit (markedStarts (sideBySide width limit 0 marks)) :=
  (runsFrom_sideBySide hwidth marks 0 hlimit).1

end Segmentation
