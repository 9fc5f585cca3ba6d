import RkWhisper.Lib.Growth
import RkWhisper.Proof.Timeline

/-!
# More audio does not change the earlier segments

A live job segments the windows it has, and segments them again when there are more. All segments but
the last are then found again as they were; the last begins where it did and may end later.
-/

namespace RkWhisper

open Segmentation

namespace VadConfig

variable {config : VadConfig} {audioLen audioLen' : Nat} {probs : List (Nat × F32)}

theorem windows_append (more : List (Nat × F32)) :
    config.windows audioLen (probs ++ more) =
      config.windows audioLen probs ++ config.windows audioLen more :=
  List.map_append

/-- Windows that end before the end of the audio do not depend on it. -/
theorem windows_congr (hle : audioLen ≤ audioLen')
    (h : ∀ r ∈ probs, r.1 + config.windowSamples ≤ audioLen) :
    config.windows audioLen probs = config.windows audioLen' probs := by
  apply List.map_congr_left
  intro r hmem
  have hwhole := h r hmem
  rw [window, window, min_eq_left hwhole, min_eq_left (hwhole.trans hle)]

/-- The runs of speech when the audio goes on. -/
theorem grows_runs (hwindow : 1 ≤ config.windowSamples) {more : List (Nat × F32)}
    (hspaced : (probs ++ more).Pairwise fun r r' => r.1 + config.windowSamples ≤ r'.1)
    (hinside : ∀ r ∈ probs, r.1 < audioLen) (hinside' : ∀ r ∈ probs ++ more, r.1 < audioLen')
    (hle : audioLen ≤ audioLen') (gap : Nat) :
    Grows (runs gap (config.windows audioLen probs))
      (runs gap (config.windows audioLen' (probs ++ more))) := by
  obtain rfl | ⟨front, last, rfl⟩ := List.eq_nil_or_concat' probs
  · exact .nil _
  · have hlast : last.1 < audioLen := hinside last (List.mem_concat_self)
    have hordered : Ordered 0 (config.windows audioLen' (front ++ [last] ++ more)) :=
      ordered_windows hwindow (fun _ _ => Nat.zero_le _) hspaced hinside'
    -- Of the windows up to here only the last one may have met the end of the audio.
    have hwhole : ∀ r ∈ front, r.1 + config.windowSamples ≤ audioLen := by
      intro r hmem
      rw [List.append_assoc, List.pairwise_append] at hspaced
      have hbefore := hspaced.2.2 r hmem last List.mem_cons_self
      omega
    rw [windows_append, windows_append, List.append_assoc] at hordered
    rw [windows_append, windows_append, windows_append, List.append_assoc,
      windows_congr hle hwhole]
    exact Grows.runs rfl rfl (min_le_min_left _ hle) hordered

end VadConfig

/-- **Segmentation is stable under more audio.** -/
theorem segmentsFromProbs_stable {config : VadConfig} {audioLen audioLen' : Nat}
    {probs more : List (Nat × F32)} {front : List VadSegment} {last : VadSegment}
    (hwindow : 1 ≤ config.windowSamples)
    (hspaced : (probs ++ more).Pairwise fun r r' => r.1 + config.windowSamples ≤ r'.1)
    (hinside : ∀ r ∈ probs, r.1 < audioLen) (hinside' : ∀ r ∈ probs ++ more, r.1 < audioLen')
    (hle : audioLen ≤ audioLen')
    (h : segmentsFromProbs audioLen probs config = front ++ [last]) :
    ∃ last' later, segmentsFromProbs audioLen' (probs ++ more) config = front ++ last' :: later ∧
      last'.startSample = last.startSample ∧ last.endSample ≤ last'.endSample := by
  have hordered : Ordered 0 (config.windows audioLen probs) :=
    VadConfig.ordered_windows hwindow (fun _ _ => Nat.zero_le _)
      (List.pairwise_append.mp hspaced).1 hinside
  have hordered' : Ordered 0 (config.windows audioLen' (probs ++ more)) :=
    VadConfig.ordered_windows hwindow (fun _ _ => Nat.zero_le _) hspaced hinside'
  have hgrows : Grows (config.speech (config.windows audioLen probs))
      (config.speech (config.windows audioLen' (probs ++ more))) :=
    (VadConfig.grows_runs hwindow hspaced hinside hinside' hle _).filter _
  rw [segmentsFromProbs_eq hordered] at h
  rw [segmentsFromProbs_eq hordered']
  obtain ⟨intervals, tail, hsplit, rfl, htail⟩ := List.map_eq_append_iff.mp h
  obtain ⟨interval, rfl, rfl⟩ := List.map_eq_singleton_iff.mp htail
  obtain ⟨stop, later, hlater, hstop⟩ := exists_later_of_merge hle hgrows (follow_keptRuns hordered)
    (keptRuns_stop_le VadConfig.windows_stop_le) hsplit
  refine ⟨.ofInterval (interval.1, stop), later.map .ofInterval, ?_, rfl, hstop⟩
  rw [VadConfig.padded, segments]
  exact (congrArg (List.map VadSegment.ofInterval) hlater).trans (by simp)

/-- One segment is final, and the last, which the end of the audio had cut short, grows. -/
theorem segmentsFromProbs_stable_sample : ∃ last' later,
    segmentsFromProbs 3000 [(0, F32.ofNat 1), (512, F32.ofNat 0), (1024, F32.ofNat 1),
      (1536, F32.ofNat 1)] { minSpeechMs := 0, minSilenceMs := 0, speechPadMs := 0 } =
        [.ofInterval (0, 512)] ++ last' :: later ∧ last'.startSample = 1024 ∧
      1200 ≤ last'.endSample :=
  @segmentsFromProbs_stable { minSpeechMs := 0, minSilenceMs := 0, speechPadMs := 0 } 1200 3000
    [(0, F32.ofNat 1), (512, F32.ofNat 0), (1024, F32.ofNat 1)] [(1536, F32.ofNat 1)]
    [.ofInterval (0, 512)] (.ofInterval (1024, 1200)) (by decide) (by decide) (by decide)
    (by decide) (by decide) (by decide +kernel)

end RkWhisper
