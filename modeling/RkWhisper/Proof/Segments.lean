import RkWhisper.Lib.Segmentation
import RkWhisper.Vad

/-!
# `segments_from_probs` segments the windows

The two loops of `segments_from_probs` are the scan and the merge of `Segmentation`, run on the
windows of the recorded probabilities.
-/

namespace RkWhisper

open Segmentation

namespace VadConfig

def minSilence (config : VadConfig) : Nat := msToSamples config.minSilenceMs

def minSpeech (config : VadConfig) : Nat := msToSamples config.minSpeechMs

def speechPad (config : VadConfig) : Nat := msToSamples config.speechPadMs

/-- The window that begins at `start`, in a buffer of `audioLen` samples. -/
def window (config : VadConfig) (audioLen start : Nat) (prob : F32) : Window :=
  { start, stop := min (start + config.windowSamples) audioLen
    marked := prob.ge config.threshold }

def windows (config : VadConfig) (audioLen : Nat) (probs : List (Nat × F32)) : List Window :=
  probs.map fun recorded => config.window audioLen recorded.1 recorded.2

/-- The runs of speech that are long enough. -/
def speech (config : VadConfig) (windows : List Window) : List Interval :=
  keptRuns config.minSilence config.minSpeech windows

def padded (config : VadConfig) (audioLen : Nat) (windows : List Window) : List Interval :=
  segments config.minSilence config.minSpeech config.speechPad audioLen windows

end VadConfig

namespace SpeechScan

variable {audioLen : Nat} {config : VadConfig}

/-- The open run. -/
def run (scan : SpeechScan) : Option Interval :=
  scan.currentStart.map fun segmentStart => (segmentStart, scan.lastSpeechEnd)

/-- One round is one window of the scan. -/
theorem next_spec (scan : SpeechScan) (recorded : Nat × F32) :
    (scan.next audioLen config recorded).raw = scan.raw ++
        (Segmentation.scan config.minSilence scan.run
          [config.window audioLen recorded.1 recorded.2]).1 ∧
      (scan.next audioLen config recorded).run =
        (Segmentation.scan config.minSilence scan.run
          [config.window audioLen recorded.1 recorded.2]).2 := by
  obtain ⟨start, prob⟩ := recorded
  obtain ⟨raw, currentStart, lastSpeechEnd⟩ := scan
  cases currentStart with
  | none =>
      simp only [next, run, Segmentation.scan, VadConfig.window, Option.map_none]
      split <;> simp
  | some segmentStart =>
      simp only [next, run, Segmentation.scan, VadConfig.window, VadConfig.minSilence,
        Option.map_some]
      split
      · simp
      · split <;> simp

theorem foldl_next (probs : List (Nat × F32)) (scan : SpeechScan) :
    (probs.foldl (next audioLen config) scan).raw = scan.raw ++
        (Segmentation.scan config.minSilence scan.run (config.windows audioLen probs)).1 ∧
      (probs.foldl (next audioLen config) scan).run =
        (Segmentation.scan config.minSilence scan.run (config.windows audioLen probs)).2 := by
  induction probs generalizing scan with
  | nil => simp [VadConfig.windows, Segmentation.scan]
  | cons recorded probs ih =>
      obtain ⟨hraw, hrun⟩ := @next_spec audioLen config scan recorded
      obtain ⟨hraws, hruns⟩ := ih (scan.next audioLen config recorded)
      have hwindows : config.windows audioLen (recorded :: probs) =
          [config.window audioLen recorded.1 recorded.2] ++ config.windows audioLen probs := rfl
      rw [List.foldl_cons, hraws, hruns, hraw, hrun, hwindows, scan_append]
      exact ⟨List.append_assoc .., rfl⟩

/-- **The first loop finds the runs.** -/
theorem close_foldl_next {probs : List (Nat × F32)}
    (h : Ordered 0 (config.windows audioLen probs)) :
    (probs.foldl (next audioLen config) {}).close =
      runs config.minSilence (config.windows audioLen probs) := by
  obtain ⟨hraw, hrun⟩ := @foldl_next audioLen config probs {}
  have hfollow := follow_runs config.minSilence h
  rw [runs, runsFrom] at hfollow ⊢
  have hnone : (({} : SpeechScan)).run = none := rfl
  rw [hnone] at hraw hrun
  rw [close]
  rw [← hrun] at hfollow ⊢
  rw [List.nil_append] at hraw
  rw [← hraw] at hfollow ⊢
  generalize probs.foldl (next audioLen config) {} = scan at hfollow ⊢
  obtain ⟨raw, currentStart, lastSpeechEnd⟩ := scan
  cases currentStart with
  | none => simp [run]
  | some segmentStart =>
      -- A run is not empty, so that its end is behind its start anyway.
      have hne := (hfollow.of_mem (List.mem_append_right _ (List.mem_singleton_self _))).2
      have hmax : max lastSpeechEnd segmentStart = lastSpeechEnd := max_eq_left hne.le
      simp [run, hmax]

end SpeechScan

section Merge

variable {audioLen : Nat} {config : VadConfig} {run : Interval}

theorem mergeSpeech_of_lt (merged : List Interval) (h : run.2 - run.1 < config.minSpeech) :
    mergeSpeech audioLen config merged run = merged :=
  if_pos h

theorem mergeSpeech_concat (front : List Interval) (pending : Interval)
    (h : ¬ run.2 - run.1 < config.minSpeech) :
    mergeSpeech audioLen config (front ++ [pending]) run =
      if (pad config.speechPad audioLen run).1 ≤ pending.2 then
        front ++ [(pending.1, max pending.2 (pad config.speechPad audioLen run).2)]
      else (front ++ [pending]) ++ [pad config.speechPad audioLen run] := by
  rw [VadConfig.minSpeech] at h
  simp [mergeSpeech, h, pad, VadConfig.speechPad]

theorem mergeSpeech_nil (h : ¬ run.2 - run.1 < config.minSpeech) :
    mergeSpeech audioLen config [] run = [pad config.speechPad audioLen run] := by
  rw [VadConfig.minSpeech] at h
  simp [mergeSpeech, h, pad, VadConfig.speechPad]

end Merge

/-- The second loop, with a last interval that later ones may still touch. -/
theorem foldl_mergeSpeech_concat (audioLen : Nat) (config : VadConfig) (raw front : List Interval)
    (pending : Interval) :
    raw.foldl (mergeSpeech audioLen config) (front ++ [pending]) =
      front ++ mergeFrom pending
        ((raw.filter fun run => decide (config.minSpeech ≤ run.2 - run.1)).map
          (pad config.speechPad audioLen)) := by
  induction raw generalizing front pending with
  | nil => simp [mergeFrom]
  | cons run raw ih =>
      rw [List.foldl_cons]
      by_cases hshort : run.2 - run.1 < config.minSpeech
      · rw [mergeSpeech_of_lt _ hshort, ih, List.filter_cons_of_neg (by simpa using hshort)]
      · rw [mergeSpeech_concat _ _ hshort,
          List.filter_cons_of_pos (by simpa using not_lt.mp hshort), List.map_cons, mergeFrom]
        split
        · exact ih front _
        · rw [ih, List.append_assoc]
          rfl

/-- **The second loop pads and merges what is long enough.** -/
theorem foldl_mergeSpeech (audioLen : Nat) (config : VadConfig) (raw : List Interval) :
    raw.foldl (mergeSpeech audioLen config) [] =
      merge ((raw.filter fun run => decide (config.minSpeech ≤ run.2 - run.1)).map
        (pad config.speechPad audioLen)) := by
  induction raw with
  | nil => rfl
  | cons run raw ih =>
      rw [List.foldl_cons]
      by_cases hshort : run.2 - run.1 < config.minSpeech
      · rw [mergeSpeech_of_lt _ hshort, ih, List.filter_cons_of_neg (by simpa using hshort)]
      · rw [mergeSpeech_nil hshort,
          List.filter_cons_of_pos (by simpa using not_lt.mp hshort), List.map_cons, merge]
        exact foldl_mergeSpeech_concat audioLen config raw [] _

def VadSegment.ofInterval (interval : Interval) : VadSegment :=
  { startSample := interval.1
    endSample := interval.2
    startSec := samplesToSec interval.1
    endSec := samplesToSec interval.2 }

/-- **`segments_from_probs` is the segmentation of the windows.** -/
theorem segmentsFromProbs_eq {audioLen : Nat} {config : VadConfig} {probs : List (Nat × F32)}
    (h : Ordered 0 (config.windows audioLen probs)) :
    segmentsFromProbs audioLen probs config =
      (config.padded audioLen (config.windows audioLen probs)).map VadSegment.ofInterval := by
  rw [segmentsFromProbs, SpeechScan.close_foldl_next h, foldl_mergeSpeech]
  rfl

end RkWhisper
