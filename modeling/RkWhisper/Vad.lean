import RkWhisper.Lib.Binary32
import RkWhisper.Lib.Stride
import RkWhisper.Parameters

/-!
# Voice activity

The probability of each window, in the order of the windows, becomes a list of speech segments of
the buffer. Sample positions are `Nat`: a window begins behind the first one only when the buffer
has held a whole window before, so `start + windowSamples` stays far below `usize::MAX`.
-/

namespace RkWhisper

structure VadConfig where
  threshold : F32 := ⟨0x3f000000⟩
  minSpeechMs : UInt32 := 250
  minSilenceMs : UInt32 := 100
  speechPadMs : UInt32 := 100
  windowSamples : Nat := 512
deriving DecidableEq

structure VadSegment where
  startSample : Nat
  endSample : Nat
  startSec : F32
  endSec : F32
deriving DecidableEq

def samplesToSec (samples : Nat) : F32 :=
  (F32.ofNat samples).divFinite (F32.ofNat sampleRate)

def msToSamples (ms : UInt32) : Nat := ms.toNat * sampleRate / 1000

/-- The locals of the loop over the probabilities. -/
structure SpeechScan where
  raw : List (Nat × Nat) := []
  currentStart : Option Nat := none
  lastSpeechEnd : Nat := 0

namespace SpeechScan

def next (audioLen : Nat) (config : VadConfig) (scan : SpeechScan) :
    Nat × F32 → SpeechScan
  | (start, prob) =>
      if prob.ge config.threshold then
        { scan with
          currentStart := some (scan.currentStart.getD start)
          lastSpeechEnd := min (start + config.windowSamples) audioLen }
      else
        match scan.currentStart with
        | some segmentStart =>
            if msToSamples config.minSilenceMs ≤ start - scan.lastSpeechEnd then
              { scan with
                raw := scan.raw ++ [(segmentStart, scan.lastSpeechEnd)]
                currentStart := none }
            else scan
        | none => scan

/-- The speech that goes on to the end of the windows. -/
def close (scan : SpeechScan) : List (Nat × Nat) :=
  match scan.currentStart with
  | some segmentStart => scan.raw ++ [(segmentStart, max scan.lastSpeechEnd segmentStart)]
  | none => scan.raw

end SpeechScan

/-- One round of the loop over the raw segments: a short one is left out, one that touches the last
of `merged` is joined to it. -/
def mergeSpeech (audioLen : Nat) (config : VadConfig) (merged : List (Nat × Nat)) :
    Nat × Nat → List (Nat × Nat)
  | (start, end_) =>
      if end_ - start < msToSamples config.minSpeechMs then merged
      else
        let paddedStart := start - msToSamples config.speechPadMs
        let paddedEnd := min (end_ + msToSamples config.speechPadMs) audioLen
        match merged.getLast? with
        | some (prevStart, prevEnd) =>
            if paddedStart ≤ prevEnd then
              merged.dropLast ++ [(prevStart, max prevEnd paddedEnd)]
            else merged ++ [(paddedStart, paddedEnd)]
        | none => [(paddedStart, paddedEnd)]

def segmentsFromProbs (audioLen : Nat) (probs : List (Nat × F32)) (config : VadConfig) :
    List VadSegment :=
  let raw := (probs.foldl (SpeechScan.next audioLen config) {}).close
  (raw.foldl (mergeSpeech audioLen config) []).map fun (startSample, endSample) =>
    { startSample, endSample
      startSec := samplesToSec startSample
      endSec := samplesToSec endSample }

/-! ### The offline loop

`speech_probability` is a parameter: from a window and the recurrent state it makes a probability and
the next state. -/

namespace VadModel

/-- `vec![0.0f32; 2 * 128]`. -/
def initialState : List F32 := List.replicate (2 * 128) (F32.ofNat 0)

/-- `audio[start..end]`. -/
def window (audio : List F32) (windowSamples start : Nat) : List F32 :=
  (audio.take (min (start + windowSamples) audio.length)).drop start

variable (speechProbability : List F32 → List F32 → F32 × List F32)

/-- The loop of `segments_with_config` over the windows still to come. -/
def probsFrom (audio : List F32) (windowSamples : Nat) : List Nat → List F32 → List (Nat × F32)
  | [], _ => []
  | start :: starts, state =>
      let (probability, state) := speechProbability (window audio windowSamples start) state
      (start, probability) :: probsFrom audio windowSamples starts state

def probs (audio : List F32) (config : VadConfig) : List (Nat × F32) :=
  probsFrom speechProbability audio config.windowSamples
    (Stride.starts config.windowSamples audio.length) initialState

def segmentsWithConfig (audio : List F32) (config : VadConfig) : List VadSegment :=
  segmentsFromProbs audio.length (probs speechProbability audio config) config

end VadModel

end RkWhisper
