import RkWhisper.Proof.LiveJob

/-!
# A failed hand-over

A worker may be gone when a job is sent to it. For a Whisper window the audio has then been cut off
and its speech announced already; for a VAD window the job is marked as waiting no more, but its
number is used up. So an attempt that fails always leaves a trace.
-/

namespace RkWhisper

namespace ActiveLiveJob

variable {job : ActiveLiveJob} {plan : DispatchPlan}

/-- What a failed attempt has to leave as it was. A retry then does what the attempt would have done:
it hands over the same window, and nothing is announced twice. -/
structure Undone {α : Type} (attempt : ActiveLiveJob → Bool → Option α × ActiveLiveJob)
    (job : ActiveLiveJob) : Prop where
  audioBuffer : (attempt job false).2.audioBuffer = job.audioBuffer
  absoluteOffsetSamples : (attempt job false).2.absoluteOffsetSamples = job.absoluteOffsetSamples
  probs : (attempt job false).2.probs = job.probs
  vadProcessedSamples : (attempt job false).2.vadProcessedSamples = job.vadProcessedSamples
  nextWindowIndex : (attempt job false).2.nextWindowIndex = job.nextWindowIndex
  nextVadWindowIndex : (attempt job false).2.nextVadWindowIndex = job.nextVadWindowIndex
  inFlight : (attempt job false).2.inFlight = job.inFlight
  vadInFlight : (attempt job false).2.vadInFlight = job.vadInFlight
  stats : (attempt job false).2.stats = job.stats
  retry : attempt (attempt job false).2 true = attempt job true

theorem Undone.of_eq {α : Type} {attempt : ActiveLiveJob → Bool → Option α × ActiveLiveJob}
    (h : (attempt job false).2 = job) : Undone attempt job := by
  constructor <;> rw [h]

/-- Every plan cuts something off or announces something. -/
theorem cuts_or_announces (h : job.nextDispatchPlan = some plan) :
    0 < plan.endSample ∨ plan.speechEvents ≠ [] := by
  unfold nextDispatchPlan at h
  split at h
  · split at h
    · cases h
    · next first rest _ =>
      unfold planOfSegments at h
      dsimp only at h
      split at h
      · cases h
        right
        simp
      · cases h
  · split at h
    · next hready =>
      cases h
      left
      obtain hfull | ⟨-, hrest⟩ := hready
      · exact lt_min (by decide) (by omega)
      · rw [List.isEmpty_iff] at hrest
        exact lt_min (by decide) (List.length_pos_iff.mpr hrest)
    · cases h

/-- A cut at the very beginning only announces. -/
theorem cut_of_end_eq_zero (h : plan.endSample = 0) :
    job.cut plan = job.send (job.speechResponses plan) := by
  unfold cut
  rw [h]
  simp [send]

theorem not_undone_of_plan (h : job.nextDispatchPlan = some plan) :
    ¬ Undone dispatchToWorker job := by
  intro hundone
  have hcut (job : ActiveLiveJob) (hplan : job.nextDispatchPlan = some plan) :
      (job.dispatchToWorker false).2 = job.cut plan := by
    rw [dispatchToWorker_eq hplan]
    rfl
  have hend : plan.endSample = 0 := by
    have hoffset := hundone.absoluteOffsetSamples
    rw [hcut job h] at hoffset
    exact Nat.add_eq_left.mp hoffset
  -- The retry announces the same segments once more.
  have hretry := congrArg (fun attempt => attempt.2.responseTx.length) hundone.retry
  rw [hcut job h, cut_of_end_eq_zero hend] at hretry
  have hsame : (job.send (job.speechResponses plan)).nextDispatchPlan = some plan := h
  rw [dispatchToWorker_eq hsame, dispatchToWorker_eq h] at hretry
  have hevents : (job.speechResponses plan).length = 0 := by
    have hlength : ((job.responseTx ++ job.speechResponses plan) ++
        job.speechResponses plan).length = (job.responseTx ++ job.speechResponses plan).length :=
      hretry
    rw [List.length_append] at hlength
    exact Nat.add_eq_left.mp hlength
  rcases cuts_or_announces h with hpos | hannounces
  · omega
  · apply hannounces
    rw [List.length_eq_zero_iff, speechResponses, List.flatMap_eq_nil_iff] at hevents
    rw [List.eq_nil_iff_forall_not_mem]
    intro event hmem
    cases hevents event hmem

theorem not_undone_of_ready (h : job.hasVadReady = true) : ¬ Undone sendVadJob job := by
  intro hundone
  obtain ⟨config, hconfig, -⟩ := hasVadReady_iff.mp h
  have hindex := hundone.nextVadWindowIndex
  rw [sendVadJob_of_ready hconfig h] at hindex
  exact Nat.succ_ne_self _ hindex

/-- **A failed hand-over is undone only where there was nothing to hand over**, of either kind. -/
theorem handOver_undone_iff (job : ActiveLiveJob) :
    (Undone dispatchToWorker job ↔ job.nextDispatchPlan = none) ∧
      (Undone sendVadJob job ↔ job.hasVadReady = false) := by
  constructor
  · refine ⟨fun h => ?_, fun h => .of_eq ?_⟩
    · by_contra hplan
      obtain ⟨plan, hplan⟩ := Option.ne_none_iff_exists'.mp hplan
      exact not_undone_of_plan hplan h
    · rw [dispatchToWorker, h]
  · refine ⟨fun h => ?_, fun h => .of_eq ?_⟩
    · by_contra hready
      exact not_undone_of_ready (Bool.eq_true_of_not_eq_false hready) h
    · rw [sendVadJob, nextVadJob]
      cases hconfig : job.vadConfig with
      | none => rfl
      | some config => simp [h]

/-- The last sample of a recording without VAD. -/
def lastSample : ActiveLiveJob where
  jobId := 0
  chunkRx := { disconnected := true }
  audioBuffer := [F32.ofNat 0]
  vadConfig := none
  producerClosed := true
  options := .ofHeader {}

/-- Nobody has the sample then. -/
theorem not_undone_lastSample : lastSample.nextDispatchPlan = some ⟨0, 1, []⟩ ∧
    (lastSample.dispatchToWorker false).1 = none ∧
    (lastSample.dispatchToWorker false).2.audioBuffer = [] ∧
    ¬ Undone dispatchToWorker lastSample := by
  refine ⟨rfl, rfl, rfl, fun h => ?_⟩
  cases h.audioBuffer

end ActiveLiveJob

end RkWhisper
