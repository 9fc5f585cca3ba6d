import RkWhisper.CheckedLiveJob
import RkWhisper.Proof.Timeline

/-!
# No position is out of range

What a live job computes with positions goes through in every state it can reach: no subtraction
falls below zero, no sum leaves the word, and no index, drain or slice lies outside of its data.
-/

namespace RkWhisper

open Checked Segmentation Transition
open Except (foldlM_eq_ok mapM_eq_ok ok_bind_eq)

/-! ### Segments -/

section Segments

variable {audioLen : Nat} {config : VadConfig} {probs : List (Nat × F32)}

/-- No duration in milliseconds is longer than this. -/
theorem msToSamples_lt (ms : UInt32) : msToSamples ms < 2 ^ 36 := by
  have hms := ms.toNat_lt
  rw [msToSamples, sampleRate]
  omega

theorem SpeechScan.nextChecked_eq (scan : SpeechScan) {recorded : Nat × F32}
    (h : recorded.1 + config.windowSamples < 2 ^ 64) :
    scan.nextChecked audioLen config recorded = .ok (scan.next audioLen config recorded) := by
  obtain ⟨start, prob⟩ := recorded
  simp only [nextChecked, next, addNat_of_lt h, ok_bind_eq]
  split
  · rfl
  · cases scan.currentStart with
    | none => rfl
    | some segmentStart =>
        simp only
        split <;> rfl

theorem mergeSpeechChecked_eq (merged : List (Nat × Nat)) {run : Nat × Nat}
    (h : run.2 + msToSamples config.speechPadMs < 2 ^ 64) :
    mergeSpeechChecked audioLen config merged run = .ok (mergeSpeech audioLen config merged run) := by
  obtain ⟨start, end_⟩ := run
  simp only [mergeSpeechChecked, mergeSpeech, addNat_of_lt h, ok_bind_eq]
  split
  · rfl
  · cases merged.getLast? with
    | none => rfl
    | some last =>
        simp only
        split <;> rfl

/-- The scan and the merge go through when no window leaves the word. -/
theorem segmentsFromProbsChecked_eq (haudio : audioLen < 2 ^ 63)
    (hordered : Ordered 0 (config.windows audioLen probs))
    (hprobs : ∀ r ∈ probs, r.1 + config.windowSamples < 2 ^ 64) :
    segmentsFromProbsChecked audioLen probs config =
      .ok (segmentsFromProbs audioLen probs config) := by
  have hscan : probs.foldlM (SpeechScan.nextChecked audioLen config) {} =
      .ok (probs.foldl (SpeechScan.next audioLen config) {}) :=
    foldlM_eq_ok (fun r hmem scan => scan.nextChecked_eq (hprobs r hmem)) _
  have hruns : ∀ run ∈ (probs.foldl (SpeechScan.next audioLen config) {}).close,
      run.2 + msToSamples config.speechPadMs < 2 ^ 64 := by
    rw [SpeechScan.close_foldl_next hordered]
    intro run hmem
    have hpad := msToSamples_lt config.speechPadMs
    have hstop := runs_stop_le VadConfig.windows_stop_le run hmem
    omega
  rw [segmentsFromProbsChecked, hscan, ok_bind_eq,
    foldlM_eq_ok (fun run hmem merged => mergeSpeechChecked_eq merged (hruns run hmem)) [], ok_bind_eq]
  rfl

end Segments

namespace ActiveLiveJob

variable {job : ActiveLiveJob} {config : VadConfig}

/-! ### The methods of a job -/

theorem lastFittingIdxChecked_eq {firstStart : Nat} {segments : List VadSegment}
    (h : ∀ segment ∈ segments, firstStart ≤ segment.endSample) (i lastFittingIdx : Nat) :
    lastFittingIdxChecked firstStart i lastFittingIdx segments =
      .ok (match segments.takeWhile fun segment =>
          decide (segment.endSample - firstStart ≤ 480000) with
        | [] => lastFittingIdx
        | _ :: fitting => i + fitting.length) := by
  induction segments generalizing i lastFittingIdx with
  | nil => rfl
  | cons segment segments ih =>
      rw [List.forall_mem_cons] at h
      rw [lastFittingIdxChecked, subNat_of_le h.1, ok_bind_eq, List.takeWhile_cons]
      split
      · rename_i hfits
        rw [ih h.2, decide_eq_true hfits]
        simp only [if_true]
        cases segments.takeWhile fun segment =>
            decide (segment.endSample - firstStart ≤ 480000) with
        | nil => rfl
        | cons _ fitting =>
            simp only [List.length_cons]
            congr 1
            omega
      · rename_i hlong
        rw [decide_eq_false hlong]
        rfl

theorem lastFittingIdxChecked_eq_ok {firstStart : Nat} {segments : List VadSegment}
    (h : ∀ segment ∈ segments, firstStart ≤ segment.endSample) :
    lastFittingIdxChecked firstStart 0 0 segments = .ok (lastFittingIdx firstStart segments) := by
  rw [lastFittingIdxChecked_eq h, lastFittingIdx]
  cases segments.takeWhile fun segment => decide (segment.endSample - firstStart ≤ 480000) with
  | nil => rfl
  | cons _ fitting => simp

/-- The segments of a plan end behind the first one's start and inside the buffer. -/
theorem planOfSegmentsChecked_eq {first : VadSegment} {rest : List VadSegment}
    (hlength : job.audioBuffer.length < 2 ^ 63)
    (hinside : ∀ segment ∈ first :: rest,
      first.startSample ≤ segment.endSample ∧ segment.endSample ≤ job.audioBuffer.length) :
    job.planOfSegmentsChecked first (first :: rest) =
      .ok (job.planOfSegments first (first :: rest)) := by
  obtain ⟨front, last, htake, hlast, -⟩ := take_lastFittingIdx first.startSample first rest
  have hmem : last ∈ first :: rest := by
    apply List.mem_of_mem_take
    rw [htake]
    exact List.mem_concat_self
  have hindex : (first :: rest)[lastFittingIdx first.startSample (first :: rest)]? = some last := by
    have hsplit := congrArg List.getLast? htake
    rw [List.getLast?_concat] at hsplit
    rw [List.getD_eq_getElem?_getD] at hlast
    cases hget : (first :: rest)[lastFittingIdx first.startSample (first :: rest)]? with
    | some segment =>
        rw [hget] at hlast
        exact congrArg some hlast
    | none =>
        -- The index lies in the list.
        have hlen := congrArg List.length htake
        rw [List.getElem?_eq_none_iff] at hget
        have hshort := (List.takeWhile_prefix (fun segment : VadSegment =>
          decide (segment.endSample - first.startSample ≤ 480000)) (l := first :: rest)).length_le
        rw [lastFittingIdx] at hget
        rw [List.length_cons] at hget hshort
        omega
  have hbounds := hinside last hmem
  have hfirst := hinside first List.mem_cons_self
  simp only [planOfSegmentsChecked, planOfSegments,
    lastFittingIdxChecked_eq_ok fun segment hsegment => (hinside segment hsegment).1, ok_bind_eq,
    index_of_getElem? hindex, subNat_of_le hbounds.1, subNat_of_le hbounds.2, hlast]
  by_cases hfull : 480000 ≤ last.endSample - first.startSample
  · have hend : first.startSample + 480000 < 2 ^ 64 := by omega
    simp only [hfull, decide_true, if_true, addNat_of_lt hend, ok_bind_eq]
    split <;> rfl
  · simp only [hfull, decide_false, Bool.false_eq_true, if_false]
    split <;> rfl

/-- What the positions of a job with VAD obey. -/
structure Positions (config : VadConfig) (job : ActiveLiveJob) : Prop where
  vadConfig : job.vadConfig = some config
  spaced : job.probs.Pairwise fun r r' => r.1 < r'.1 ∧ r.1 + config.windowSamples ≤ r'.1
  inside : ∀ r ∈ job.probs, r.1 < job.audioBuffer.length
  processed : job.vadProcessedSamples ≤ job.audioBuffer.length ∨
    (job.producerClosed = true ∧ job.audioBuffer = [])

theorem Positions.ordered (h : job.Positions config) (hwindow : 1 ≤ config.windowSamples) :
    Ordered 0 (job.windows config) :=
  VadConfig.ordered_windows hwindow (fun _ _ => Nat.zero_le _) (h.spaced.imp And.right) h.inside

/-- The segments of the buffer begin and end inside it. -/
theorem Positions.segment_bounds (h : job.Positions config) (hwindow : 1 ≤ config.windowSamples) :
    ∀ interval ∈ job.intervals config,
      interval.1 < interval.2 ∧ interval.2 ≤ job.audioBuffer.length := by
  intro interval hmem
  have hfollow : Follow 0 (job.intervals config) :=
    follow_segments (h.ordered hwindow) VadConfig.windows_stop_le
  exact ⟨(hfollow.of_mem hmem).2, segments_stop_le interval hmem⟩

theorem segmentsChecked_eq (h : job.Positions config) (hwindow : 1 ≤ config.windowSamples)
    (hlength : job.audioBuffer.length < 2 ^ 63)
    (hprobs : ∀ r ∈ job.probs, r.1 + config.windowSamples < 2 ^ 64) :
    segmentsFromProbsChecked job.audioBuffer.length job.probs config =
      .ok (job.segments config) :=
  segmentsFromProbsChecked_eq hlength (h.ordered hwindow) hprobs

theorem nextDispatchPlanChecked_eq (h : job.Positions config) (hwindow : 1 ≤ config.windowSamples)
    (hlength : job.audioBuffer.length < 2 ^ 63)
    (hprobs : ∀ r ∈ job.probs, r.1 + config.windowSamples < 2 ^ 64) :
    job.nextDispatchPlanChecked = .ok job.nextDispatchPlan := by
  unfold nextDispatchPlanChecked nextDispatchPlan
  simp only [h.vadConfig, segmentsChecked_eq h hwindow hlength hprobs, ok_bind_eq]
  rw [segments_eq (h.ordered hwindow)]
  have hbounds := h.segment_bounds hwindow
  have hfollow : Follow 0 (job.intervals config) :=
    follow_segments (h.ordered hwindow) VadConfig.windows_stop_le
  cases hintervals : job.intervals config with
  | nil => rfl
  | cons first rest =>
      rw [hintervals] at hbounds hfollow
      refine planOfSegmentsChecked_eq hlength ?_
      intro segment hmem
      rw [← List.map_cons (f := VadSegment.ofInterval)] at hmem
      obtain ⟨interval, hinterval, rfl⟩ := List.mem_map.mp hmem
      refine ⟨?_, (hbounds interval hinterval).2⟩
      have hbehind := ((hfollow.from_head rfl).of_mem hinterval)
      exact (hbehind.1.trans hbehind.2.le)

theorem hasVadReadyChecked_eq (job : ActiveLiveJob) :
    job.hasVadReadyChecked = .ok job.hasVadReady := by
  unfold hasVadReadyChecked hasVadReady
  cases job.vadConfig with
  | none => rfl
  | some config =>
      simp only
      split
      · rfl
      · split
        · rfl
        · rename_i hbehind
          have hle : job.vadProcessedSamples ≤ job.audioBuffer.length := by omega
          simp only [subNat_of_le hle, ok_bind_eq]
          cases job.producerClosed <;> simp

/-- Events lie in the buffer, as the plan does. -/
structure PlanInside (job : ActiveLiveJob) (plan : DispatchPlan) : Prop where
  start_le : plan.startSample ≤ plan.endSample
  end_le : plan.endSample ≤ job.audioBuffer.length
  events : ∀ event ∈ plan.speechEvents,
    event.1 ≤ job.audioBuffer.length ∧ event.2 ≤ job.audioBuffer.length

theorem Positions.planInside (h : job.Positions config) (hwindow : 1 ≤ config.windowSamples)
    {plan : DispatchPlan} (hplan : job.nextDispatchPlan = some plan) : job.PlanInside plan := by
  have hordered := h.ordered hwindow
  have hbounds := h.segment_bounds hwindow
  obtain ⟨first, front, last, hpacks⟩ := exists_packs h.vadConfig hordered hplan
  have hcut := (hpacks.cutBehind hordered VadConfig.windows_stop_le).bounds hordered
    VadConfig.windows_stop_le
  refine ⟨hcut.1.le, hcut.2.2, ?_⟩
  rw [hpacks.events_eq]
  intro event hmem
  obtain ⟨interval, hinterval, rfl⟩ := List.mem_map.mp hmem
  have hinside := hbounds interval (hpacks.taken.subset hinterval)
  simp only
  omega

theorem planInside_of_vad_off (hconfig : job.vadConfig = none) {plan : DispatchPlan}
    (hplan : job.nextDispatchPlan = some plan) : job.PlanInside plan := by
  obtain ⟨hstart, hend, -⟩ := nextDispatchPlan_of_vad_off hconfig hplan
  refine ⟨by omega, by omega, ?_⟩
  rw [nextDispatchPlan, hconfig, Option.ite_none_right_eq_some, Option.some.injEq] at hplan
  obtain ⟨-, rfl⟩ := hplan
  exact fun _ hmem => absurd hmem List.not_mem_nil

theorem nextVadJobChecked_eq (hready : ∀ config ∈ job.vadConfig, job.hasVadReady = true →
      job.vadProcessedSamples + config.windowSamples < 2 ^ 64) :
    job.nextVadJobChecked = .ok job.nextVadJob := by
  unfold nextVadJobChecked nextVadJob
  cases hconfig : job.vadConfig with
  | none => rfl
  | some config =>
      simp only [hasVadReadyChecked_eq, ok_bind_eq]
      cases hvad : job.hasVadReady with
      | false => rfl
      | true =>
          obtain ⟨_, -, -, hlt, -⟩ := hasVadReady_iff.mp hvad
          simp only [if_true, addNat_of_lt (hready config hconfig hvad), ok_bind_eq]
          rw [slice_of_le (by omega) (min_le_right _ _), ok_bind_eq]
          rfl

theorem handleVadResultChecked_eq {result : VadResult}
    (h : result.startSample + (job.vadConfig.map VadConfig.windowSamples).getD 0 < 2 ^ 64) :
    job.handleVadResultChecked result = .ok (job.handleVadResult result) := by
  simp only [handleVadResultChecked, addNat_of_lt h, ok_bind_eq]
  rfl

theorem speechResponsesChecked_eq {plan : DispatchPlan} (h : job.PlanInside plan)
    (hlength : job.absoluteOffsetSamples + job.audioBuffer.length < 2 ^ 64) :
    job.speechResponsesChecked plan = .ok (job.speechResponses plan) := by
  unfold speechResponsesChecked
  rw [mapM_eq_ok (g := fun event : Nat × Nat =>
    [.speechStarted (samplesToSec (job.absoluteOffsetSamples + event.1)),
      .speechEnded (samplesToSec (job.absoluteOffsetSamples + event.2))]), ok_bind_eq]
  · rfl
  · intro event hmem
    obtain ⟨hstart, hend⟩ := h.events event hmem
    have hfirst : job.absoluteOffsetSamples + event.1 < 2 ^ 64 := by omega
    have hsecond : job.absoluteOffsetSamples + event.2 < 2 ^ 64 := by omega
    simp only [addNat_of_lt hfirst, addNat_of_lt hsecond, ok_bind_eq]
    rfl

/-- **A dispatch stays inside the buffer.** -/
theorem dispatchToWorkerChecked_eq (hplans : job.nextDispatchPlanChecked = .ok job.nextDispatchPlan)
    (hinside : ∀ plan, job.nextDispatchPlan = some plan → job.PlanInside plan)
    (hlength : job.absoluteOffsetSamples + job.audioBuffer.length < 2 ^ 64) (sent : Bool) :
    job.dispatchToWorkerChecked sent = .ok (job.dispatchToWorker sent) := by
  unfold dispatchToWorkerChecked dispatchToWorker
  rw [hplans, ok_bind_eq]
  cases hplan : job.nextDispatchPlan with
  | none => rfl
  | some plan =>
      have hbounds := hinside plan hplan
      have hend := hbounds.end_le
      have hstart := hbounds.start_le
      have htaken : (job.audioBuffer.take plan.endSample).length = plan.endSample :=
        List.length_take_of_le hend
      have hoffset : job.absoluteOffsetSamples + plan.startSample < 2 ^ 64 := by omega
      have hcut : job.absoluteOffsetSamples + plan.endSample < 2 ^ 64 := by omega
      have hprobs : (job.probs.filter fun recorded => decide (plan.endSample ≤ recorded.1)).mapM
          (fun recorded => do return (← subNat recorded.1 plan.endSample, recorded.2)) =
          .ok ((job.probs.filter fun recorded => decide (plan.endSample ≤ recorded.1)).map
            fun recorded => (recorded.1 - plan.endSample, recorded.2)) := by
        apply mapM_eq_ok
        intro recorded hmem
        rw [subNat_of_le (of_decide_eq_true (List.mem_filter.mp hmem).2), ok_bind_eq]
        rfl
      simp only [speechResponsesChecked_eq hbounds hlength, drainTo_of_le hend,
        slice_of_le (htaken.symm ▸ hstart) le_rfl, List.take_length, addNat_of_lt hoffset,
        addNat_of_lt hcut, hprobs, ok_bind_eq]
      cases sent <;> rfl

/-- All the computations with positions go through, with the result of the unchecked ones. -/
structure InRange (job : ActiveLiveJob) : Prop where
  segments : ∀ config ∈ job.vadConfig,
    segmentsFromProbsChecked job.audioBuffer.length job.probs config = .ok (job.segments config)
  nextDispatchPlan : job.nextDispatchPlanChecked = .ok job.nextDispatchPlan
  hasVadReady : job.hasVadReadyChecked = .ok job.hasVadReady
  nextVadJob : job.nextVadJobChecked = .ok job.nextVadJob
  dispatchToWorker : ∀ sent, job.dispatchToWorkerChecked sent = .ok (job.dispatchToWorker sent)

theorem Positions.inRange (h : job.Positions config) (hwindow : 1 ≤ config.windowSamples)
    (hlimit : config.windowSamples ≤ 2 ^ 32)
    (hlength : job.absoluteOffsetSamples + job.audioBuffer.length < 2 ^ 60) : job.InRange := by
  have hprobs : ∀ r ∈ job.probs, r.1 + config.windowSamples < 2 ^ 64 := by
    intro r hmem
    have hinside := h.inside r hmem
    omega
  have hplans := nextDispatchPlanChecked_eq h hwindow (by omega) hprobs
  refine ⟨?_, hplans, hasVadReadyChecked_eq job, nextVadJobChecked_eq ?_,
    dispatchToWorkerChecked_eq hplans (fun plan hplan => h.planInside hwindow hplan) (by omega)⟩
  · intro config' hconfig
    obtain rfl := Option.some.inj (h.vadConfig.symm.trans hconfig)
    exact segmentsChecked_eq h hwindow (by omega) hprobs
  · intro config' hconfig hready
    obtain rfl := Option.some.inj (h.vadConfig.symm.trans hconfig)
    obtain ⟨_, -, -, hlt, -⟩ := hasVadReady_iff.mp hready
    omega

/-- Without VAD there is less to go wrong. -/
theorem inRange_of_vad_off (hconfig : job.vadConfig = none)
    (hlength : job.absoluteOffsetSamples + job.audioBuffer.length < 2 ^ 60) : job.InRange := by
  have hplans : job.nextDispatchPlanChecked = .ok job.nextDispatchPlan := by
    rw [nextDispatchPlanChecked, hconfig]
    rfl
  refine ⟨?_, hplans, hasVadReadyChecked_eq job, nextVadJobChecked_eq ?_,
    dispatchToWorkerChecked_eq hplans (fun plan hplan => planInside_of_vad_off hconfig hplan)
      (by omega)⟩ <;>
  · intro config hsome
    rw [hconfig] at hsome
    cases hsome

end ActiveLiveJob

namespace LiveRun

variable {maxInFlight : Nat} {config : VadConfig} {run : LiveRun}

/-- The buffer's own positions, from those of the stream. -/
theorem Recording.positions (hwindow : 1 ≤ config.windowSamples) (htime : Timeline run)
    (h : Recording config run) : run.job.Positions config := by
  have hlength := htime.length_eq
  refine ⟨h.vadConfig, ?_, h.probs_inside htime, ?_⟩
  · apply h.probs_spaced.imp
    intro r r' hspaced
    exact ⟨by omega, hspaced⟩
  · refine h.cursor_le.imp_left fun hle => ?_
    rw [cursor] at hle
    omega

/-- **The indices of a live job never underflow or run out of bounds.** -/
theorem indices_in_range {jobId : Nat} {header : RequestHeader} {chunkRx : ChunkReceiver}
    {vadEnabled : Bool} {events : List Event}
    (hwindow : 1 ≤ (VadConfig.ofHeader header).windowSamples)
    (hlimit : (VadConfig.ofHeader header).windowSamples ≤ 2 ^ 32)
    (h : Run (Step maxInFlight) (start jobId header chunkRx vadEnabled) events run)
    (htotal : run.accepted.length < 2 ^ 60) :
    (vadEnabled = true →
      (run.job.probs.Pairwise fun r r' => r.1 < r'.1 ∧
        r.1 + (VadConfig.ofHeader header).windowSamples ≤ r'.1) ∧
      (∀ r ∈ run.job.probs, r.1 < run.job.audioBuffer.length) ∧
      (run.job.vadProcessedSamples ≤ run.job.audioBuffer.length ∨
        (run.job.producerClosed = true ∧ run.job.audioBuffer = []))) ∧
    run.job.InRange := by
  have hinv := audioInvariant (fun _ => hwindow) h
  have hlength : run.job.absoluteOffsetSamples + run.job.audioBuffer.length < 2 ^ 60 := by
    rw [hinv.timeline.length_eq]
    exact htotal
  cases vadEnabled with
  | false =>
      exact ⟨nofun, ActiveLiveJob.inRange_of_vad_off hinv.vadConfig hlength⟩
  | true =>
      have hpositions := (hinv.recording _ rfl).positions hwindow hinv.timeline
      exact ⟨fun _ => ⟨hpositions.spaced, hpositions.inside, hpositions.processed⟩,
        hpositions.inRange hwindow hlimit hlength⟩

/-- Three samples in windows of two: a whole window and the half one at the end. -/
def twoWindowEvents : List Event :=
  [.arrive (.ok { samples := [F32.ofNat 1, F32.ofNat 2, F32.ofNat 3] }), .hangUp, .drain,
    .sendVad true,
    .vadResult { jobId := 7, windowIndex := 0, startSample := 0, probability := F32.ofNat 1
                 state := [] },
    .sendVad true,
    .vadResult { jobId := 7, windowIndex := 1, startSample := 2, probability := F32.ofNat 0
                 state := [] }]

theorem indices_in_range_twoWindows : ∃ run,
    Run (Step 3) (start 7 { vadWindowSamples := some 2 } {} true) twoWindowEvents run ∧
      run.job.probs.map Prod.fst = [0, 2] ∧ run.job.InRange := by
  have hfold : ((twoWindowEvents.foldlM (step 3)
      (start 7 { vadWindowSamples := some 2 } {} true)).map fun run =>
        (run.accepted.length, run.job.probs.map Prod.fst)) = some (3, [0, 2]) := by
    decide +kernel
  obtain ⟨run, hstate, hview⟩ := Option.map_eq_some_iff.mp hfold
  obtain ⟨hlength, hprobs⟩ := Prod.mk.inj hview
  have hrun : Run (Step 3) (start 7 { vadWindowSamples := some 2 } {} true) twoWindowEvents run :=
    Run.of_foldlM (fun _ _ _ hstep => hstep) hstate
  exact ⟨run, hrun, hprobs, (indices_in_range (by decide) (by decide) hrun (by omega)).2⟩

end LiveRun

end RkWhisper
