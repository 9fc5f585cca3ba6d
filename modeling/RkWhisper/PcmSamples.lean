import RkWhisper.DaemonStream
import RkWhisper.Lib.Binary32Rounding

/-!
# Samples as PCM

`samples_to_pcm` of the client, which the daemon takes back with `pcm_s16le_to_f32`.
-/

namespace RkWhisper

/-- `i16::to_le_bytes`. -/
def toLeBytes (value : Int16) : Bytes :=
  [UInt8.ofNat value.toUInt16.toNat, UInt8.ofNat (value.toUInt16.toNat / 2 ^ 8)]

/-- `(s.clamp(-1.0, 1.0) * 32767.0) as i16`. A NaN stays one under the product, and the cast makes it
zero. -/
def pcmSample (s : F32) : Int16 :=
  let s := s.clamp (F32.ofInt (-1)) (F32.ofNat 1)
  if s.isNaN then s.toInt16 else (s.mulFinite (F32.ofNat 32767)).toInt16

def samplesToPcm (samples : List F32) : Bytes :=
  samples.flatMap fun s => toLeBytes (pcmSample s)

end RkWhisper
