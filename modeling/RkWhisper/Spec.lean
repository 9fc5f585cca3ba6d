import Mathlib.Data.UInt

/-!
# The models

The constants of `WhisperSpec` that the decoder and the search use, and the models there are. Every
position of the decoder is taken modulo the length of its cache, which therefore is not zero.
-/

namespace RkWhisper

structure WhisperSpec where
  encSeq : Nat
  nLayers : Nat
  nHeads : Nat
  dHead : Nat
  tCache : Nat
  vocab : Nat
  tokenEot : UInt32
  tokenSot : UInt32 := 50258
  tokenNotimestamps : UInt32 := 50363
  tokenTimestampBegin : UInt32 := 50364
  tCache_pos : 0 < tCache := by decide

def whisperTiny : WhisperSpec where
  encSeq := 1500
  nLayers := 4
  nHeads := 6
  dHead := 64
  tCache := 448
  vocab := 51865
  tokenEot := 50257

def whisperBase : WhisperSpec where
  encSeq := 1500
  nLayers := 6
  nHeads := 8
  dHead := 64
  tCache := 448
  vocab := 51865
  tokenEot := 50257

def whisperLargeV3Turbo : WhisperSpec where
  encSeq := 1500
  nLayers := 4
  nHeads := 20
  dHead := 64
  tCache := 400
  vocab := 51866
  tokenEot := 50257

def whisperMedium : WhisperSpec where
  encSeq := 1500
  nLayers := 24
  nHeads := 16
  dHead := 64
  tCache := 448
  vocab := 51865
  tokenEot := 50257

def whisperSmall : WhisperSpec where
  encSeq := 1500
  nLayers := 12
  nHeads := 12
  dHead := 64
  tCache := 448
  vocab := 51865
  tokenEot := 50257

end RkWhisper
