import RkWhisper.Lib.SideBySide
import RkWhisper.Proof.Timeline

/-!
# The segments are the padded runs of speech

When there is a probability for each window of the audio, `segments_from_probs` computes a set that
can be said without its loops: the windows of speech are grouped by the silence between them, the
groups that are long enough are padded, and the segments are the union of these.
-/

namespace RkWhisper

open Segmentation

namespace VadConfig

variable {config : VadConfig} {audioLen : Nat} {probs : List (Nat × F32)}

/-- Where the windows of speech begin. -/
def speechStarts (config : VadConfig) (probs : List (Nat × F32)) : List Nat :=
  (probs.filter fun recorded => recorded.2.ge config.threshold).map Prod.fst

/-- The windows of speech in groups: `a` and the next one `b` are in one run when
`b - (a + window_samples) < min_silence + window_samples`. -/
def speechRuns (config : VadConfig) (audioLen : Nat) (probs : List (Nat × F32)) : List Interval :=
  groupedRuns config.minSilence config.windowSamples audioLen (config.speechStarts probs)

/-- The runs that are long enough. -/
def qualifyingRuns (config : VadConfig) (audioLen : Nat) (probs : List (Nat × F32)) :
    List Interval :=
  (config.speechRuns audioLen probs).filter fun run => decide (config.minSpeech ≤ run.2 - run.1)

theorem windows_eq_sideBySide {start : Nat}
    (hstarts : probs.map Prod.fst = List.range' start probs.length config.windowSamples) :
    config.windows audioLen probs = sideBySide config.windowSamples audioLen start
      (probs.map fun recorded => recorded.2.ge config.threshold) := by
  induction probs generalizing start with
  | nil => rfl
  | cons recorded probs ih =>
      rw [List.map_cons, List.length_cons, List.range'_succ, List.cons.injEq] at hstarts
      obtain ⟨hfirst, hrest⟩ := hstarts
      have hlater := ih hrest
      rw [windows] at hlater
      rw [windows, List.map_cons, List.map_cons, sideBySide, hlater, window, hfirst]

theorem markedStarts_windows :
    markedStarts (config.windows audioLen probs) = config.speechStarts probs := by
  rw [markedStarts, windows, List.filter_map, List.map_map]
  rfl

theorem pairwise_of_range' {start : Nat}
    (hstarts : probs.map Prod.fst = List.range' start probs.length config.windowSamples) :
    (probs.Pairwise fun r r' => r.1 + config.windowSamples ≤ r'.1) ∧
      ∀ r ∈ probs, start ≤ r.1 := by
  induction probs generalizing start with
  | nil => exact ⟨List.Pairwise.nil, nofun⟩
  | cons recorded probs ih =>
      rw [List.map_cons, List.length_cons, List.range'_succ, List.cons.injEq] at hstarts
      obtain ⟨hfirst, hrest⟩ := hstarts
      obtain ⟨hspaced, hlow⟩ := ih hrest
      refine ⟨List.pairwise_cons.mpr ⟨?_, hspaced⟩, List.forall_mem_cons.mpr ⟨hfirst.ge, ?_⟩⟩
      · intro r hmem
        rw [hfirst]
        exact hlow r hmem
      · intro r hmem
        exact (Nat.le_add_right _ _).trans (hlow r hmem)

/-- The scan keeps the qualifying runs. -/
theorem speech_eq_qualifyingRuns (hwindow : 1 ≤ config.windowSamples)
    (hstarts : probs.map Prod.fst = List.range' 0 probs.length config.windowSamples)
    (hinside : ∀ r ∈ probs, r.1 < audioLen) :
    config.speech (config.windows audioLen probs) = config.qualifyingRuns audioLen probs := by
  have hwindows := @windows_eq_sideBySide config audioLen probs 0 hstarts
  have hlimit : ∀ window ∈ config.windows audioLen probs, window.start < audioLen := by
    intro window hmem
    obtain ⟨recorded, hrecorded, rfl⟩ := List.mem_map.mp hmem
    exact hinside recorded hrecorded
  rw [hwindows] at hlimit
  rw [speech, keptRuns, qualifyingRuns, speechRuns, ← @markedStarts_windows config audioLen,
    hwindows, runs_sideBySide hwindow _ hlimit]

end VadConfig

theorem exists_ofInterval_iff {intervals : List Interval} {x : Nat} :
    (∃ segment ∈ intervals.map VadSegment.ofInterval,
        segment.startSample ≤ x ∧ x < segment.endSample) ↔
      ∃ interval ∈ intervals, Within x interval := by
  constructor
  · rintro ⟨segment, hmem, hx⟩
    obtain ⟨interval, hinterval, rfl⟩ := List.mem_map.mp hmem
    exact ⟨interval, hinterval, hx⟩
  · rintro ⟨interval, hinterval, hx⟩
    exact ⟨.ofInterval interval, List.mem_map_of_mem hinterval, hx⟩

/-- **`segments_from_probs` computes the padded qualifying runs of speech**, in segments that are not
empty, lie in the audio and do not touch. -/
theorem segmentsFromProbs_exact {config : VadConfig} {audioLen : Nat} {probs : List (Nat × F32)}
    (hwindow : 1 ≤ config.windowSamples)
    (hstarts : probs.map Prod.fst = List.range' 0 probs.length config.windowSamples)
    (hinside : ∀ recorded ∈ probs, recorded.1 < audioLen) :
    (∀ x, (∃ segment ∈ segmentsFromProbs audioLen probs config,
        segment.startSample ≤ x ∧ x < segment.endSample) ↔
      ∃ run ∈ config.qualifyingRuns audioLen probs,
        run.1 - config.speechPad ≤ x ∧ x < min (run.2 + config.speechPad) audioLen) ∧
    (∀ segment ∈ segmentsFromProbs audioLen probs config,
      segment.startSample < segment.endSample ∧ segment.endSample ≤ audioLen) ∧
    (segmentsFromProbs audioLen probs config).Pairwise
      fun segment later => segment.endSample < later.startSample := by
  have hspaced := (VadConfig.pairwise_of_range' hstarts).1
  have hordered : Ordered 0 (config.windows audioLen probs) :=
    VadConfig.ordered_windows hwindow (fun _ _ => Nat.zero_le _) hspaced hinside
  have hlimit : ∀ window ∈ config.windows audioLen probs, window.stop ≤ audioLen :=
    VadConfig.windows_stop_le
  have hsorted : Sorted 0 ((config.speech (config.windows audioLen probs)).map
      (pad config.speechPad audioLen)) := sorted_padded hordered hlimit
  have hkept := VadConfig.speech_eq_qualifyingRuns hwindow hstarts hinside
  rw [segmentsFromProbs_eq hordered]
  refine ⟨fun x => ?_, ?_, ?_⟩
  · calc (∃ segment ∈ (config.padded audioLen (config.windows audioLen probs)).map
            VadSegment.ofInterval, segment.startSample ≤ x ∧ x < segment.endSample)
        ↔ ∃ interval ∈ config.padded audioLen (config.windows audioLen probs), Within x interval :=
          exists_ofInterval_iff
      _ ↔ ∃ interval ∈ (config.speech (config.windows audioLen probs)).map
            (pad config.speechPad audioLen), Within x interval := exists_within_merge_iff hsorted
      _ ↔ ∃ run ∈ config.speech (config.windows audioLen probs),
            Within x (pad config.speechPad audioLen run) := by
          simp only [List.mem_map, exists_exists_and_eq_and]
      _ ↔ ∃ run ∈ config.qualifyingRuns audioLen probs,
            run.1 - config.speechPad ≤ x ∧ x < min (run.2 + config.speechPad) audioLen := by
          rw [hkept]
          rfl
  · intro segment hmem
    obtain ⟨interval, hinterval, rfl⟩ := List.mem_map.mp hmem
    have hfollow : Follow 0 (config.padded audioLen (config.windows audioLen probs)) :=
      follow_segments hordered hlimit
    exact ⟨(hfollow.of_mem hinterval).2, segments_stop_le interval hinterval⟩
  · rw [List.pairwise_map]
    exact pairwise_merge hsorted

/-- A burst of speech, the silence that closes it and not a sample more, and a window that the end
of the audio cuts short. -/
def twoBursts : List (Nat × F32) :=
  [(0, F32.ofNat 1), (512, F32.ofNat 0), (1024, F32.ofNat 0), (1536, F32.ofNat 0),
    (2048, F32.ofNat 1)]

def twoBurstsConfig : VadConfig := { minSpeechMs := 0, minSilenceMs := 64, speechPadMs := 10 }

theorem segmentsFromProbs_exact_twoBursts :
    (segmentsFromProbs 2300 twoBursts twoBurstsConfig).map
        (fun segment => (segment.startSample, segment.endSample)) = [(0, 672), (1888, 2300)] ∧
      (segmentsFromProbs 2300 twoBursts twoBurstsConfig).Pairwise
        fun segment later => segment.endSample < later.startSample :=
  ⟨by decide +kernel,
    (@segmentsFromProbs_exact twoBurstsConfig 2300 twoBursts (by decide) rfl (by decide)).2.2⟩

end RkWhisper
