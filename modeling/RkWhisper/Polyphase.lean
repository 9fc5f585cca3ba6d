import RkWhisper.Lib.Binary32
import RkWhisper.Lib.CheckedWrites

/-!
# Polyphase preprocessing

`polyphase_pre_process`, which pads the samples of a window by reflection, aligns them to whole
steps of eighty channels, and stores the channels one after another. Each access is checked here,
also those that the source leaves unchecked.
-/

namespace RkWhisper

open Checked

namespace Polyphase

def padLen : Nat := 200

/-- The source computes it as a `gcd`. -/
def numChannels : Nat := 80

def alignPad (paddedLen : Nat) : Nat :=
  let rem := paddedLen % numChannels
  if 0 < rem then numChannels - rem else 0

/-- The sample that is mirrored to `i` places before the first. -/
def leftIndex (originalLen i : Nat) : Except Fault Nat :=
  if i < originalLen then .ok i else subNat originalLen 1

/-- The sample that is mirrored to `i + 1` places after the last. -/
def rightIndex (originalLen i : Nat) : Except Fault Nat := do
  if 1 + i < originalLen then subNat (← subNat originalLen 2) i else return 0

def xPadded (input : List F32) : Except Fault (List F32) := do
  let originalLen := input.length
  let left ← (List.range' 1 padLen).reverse.mapM fun i => do
    index input (← leftIndex originalLen i)
  let right ← (List.range padLen).mapM fun i => do
    index input (← rightIndex originalLen i)
  return left ++ input ++ right ++
    List.replicate (alignPad (padLen + originalLen + padLen)) (F32.ofNat 0)

/-- The loops over the channels and the time steps. -/
def transposed (xPadded : List F32) : Except Fault (Vector F32 xPadded.length) :=
  let numTimeSteps := xPadded.length / numChannels
  (List.finRange numChannels).foldlM (fun output (c : Fin numChannels) =>
    let destOffset := c * numTimeSteps
    (List.finRange numTimeSteps).foldlM (fun output (t : Fin numTimeSteps) =>
      let srcIdx := t * numChannels + c
      let destIdx := destOffset + t
      copy xPadded output srcIdx destIdx) output) (Vector.replicate _ (F32.ofNat 0))

end Polyphase

def polyphasePreProcess (input : List F32) : Except Fault (List F32) := do
  let padded ← Polyphase.xPadded input
  return (← Polyphase.transposed padded).toList

end RkWhisper
