import Mathlib.Tactic

/-!
# Constants

The numbers the protocol and the audio pipeline are built on, under the source's names. The target
is a 64-bit Linux, so `usize` is 64 bits wide and no allocation is longer than `isize::MAX`.
-/

namespace RkWhisper

def sampleRate : Nat := 16000

/-- One encoder window: thirty seconds. -/
def nSamples : Nat := sampleRate * 30

def frameMaxBytes : Nat := 1024 * 1024

def ringHeaderBytes : Nat := 32

def ringDataBytes : Nat := sampleRate * 2 * 120

def signalDataReady : UInt8 := 0x01

def signalEndOfStream : UInt8 := 0x02

def signalCancel : UInt8 := 0x03

/-- `2 ^ 64`, the number of values of a `usize` or a `u64`. -/
def usizeModulus : Nat := 2 ^ 64

def isizeMax : Nat := 2 ^ 63 - 1

def npuWorkers : Nat := 3

end RkWhisper
