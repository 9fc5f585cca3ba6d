import RkWhisper.Lib.Stride
import RkWhisper.LiveJob

/-!
# Windows of a whole recording

How the offline drivers cut a recording: into pieces of thirty seconds, or along its speech segments.
-/

namespace RkWhisper

structure AudioWindow where
  index : Nat
  startSample : Nat
  endSample : Nat
deriving DecidableEq

def fixedAudioWindows (audioLen : Nat) : List AudioWindow :=
  (Stride.starts nSamples audioLen).zipIdx.map fun (startSample, index) =>
    { index, startSample, endSample := min (startSample + nSamples) audioLen }

/-- The locals of `vad_audio_windows`. -/
structure WindowGroup where
  windows : List AudioWindow := []
  groupStart : Option Nat := none
  groupEnd : Nat := 0
  groupSpeech : Nat := 0

namespace WindowGroup

/-- `index: windows.len()`. -/
def pushWindow (windows : List AudioWindow) (startSample endSample : Nat) : List AudioWindow :=
  windows ++ [{ index := windows.length, startSample, endSample }]

/-- `if let Some(start) = group_start.take()`. -/
def flush (group : WindowGroup) : WindowGroup :=
  match group.groupStart with
  | some start =>
      { group with
        windows := pushWindow group.windows start group.groupEnd
        groupStart := none
        groupSpeech := 0 }
  | none => group

/-- The loop over an oversized segment. Each round moves by a sample at least, so that the length of
the segment bounds the rounds. -/
def split (stop : Nat) : Nat → Nat → List AudioWindow → List AudioWindow
  | 0, _, windows => windows
  | rounds + 1, start, windows =>
      if start < stop then
        let end_ := min (start + nSamples) stop
        split stop rounds end_ (pushWindow windows start end_)
      else windows

/-- One round of the loop over the segments. -/
def next (group : WindowGroup) (segment : VadSegment) : WindowGroup :=
  let segLen := segment.endSample - segment.startSample
  if nSamples < segLen then
    let group := group.flush
    { group with
      windows := split segment.endSample segLen segment.startSample group.windows }
  else
    let wallClockOverflow := group.groupStart.any fun start =>
      decide (nSamples < segment.endSample - start)
    let speechOverflow := decide (nSamples < group.groupSpeech + segLen)
    let group := if wallClockOverflow || speechOverflow then group.flush else group
    { group with
      groupStart := some (group.groupStart.getD segment.startSample)
      groupEnd := segment.endSample
      groupSpeech := group.groupSpeech + segLen }

end WindowGroup

def vadAudioWindows (vadSegments : List VadSegment) : List AudioWindow :=
  (vadSegments.foldl WindowGroup.next {}).flush.windows

def transcriptionWindows (audioLen : Nat) (vadSegments : List VadSegment) : List AudioWindow :=
  if vadSegments.isEmpty then fixedAudioWindows audioLen else vadAudioWindows vadSegments

/-- `audio[window.start_sample..window.end_sample]`. -/
def AudioWindow.samples (window : AudioWindow) (audio : List F32) : List F32 :=
  (audio.take window.endSample).drop window.startSample

end RkWhisper
