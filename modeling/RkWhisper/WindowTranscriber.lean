import RkWhisper.SeekLoop
import RkWhisper.Transcript

/-!
# One window

`transcribe_window_samples` from the samples to the segments. The networks, the tokenizer and the
arithmetic are parameters. The traces it writes are left out.
-/

namespace RkWhisper

/-- What a worker transcribes with; `mel`, `encoded` and `encKv` are tensors. -/
structure WindowTranscriber (spec : WhisperSpec) (mel encoded encKv σ : Type) where
  arithmetic : Arithmetic F32
  sorter : SliceSort.Sorter
  /-- Panics when a window is longer than thirty seconds. -/
  logMelSpectrogram : List F32 → Except (Failure String) mel
  encode : mel → Except String encoded
  compute : encoded → Except String encKv
  /-- The decoder after `set_enc_kv`. -/
  setEncKv : encKv → StepDecoder spec String σ F32
  resetState : σ
  tokenToId : String → Option UInt32
  decode : List UInt32 → Option String

namespace WindowTranscriber

variable {spec : WhisperSpec} {mel encoded encKv σ : Type}

/-- The text and the segments of the result. -/
def transcribeWindowSamples (transcriber : WindowTranscriber spec mel encoded encKv σ)
    (wave : List F32) (windowIndex : Nat) (absoluteStartSec : F32)
    (windowStartSample windowEndSample : Nat) (options : TranscribeOptions) :
    Except (Failure String) (String × List TranscriptSegment) := do
  let A := transcriber.arithmetic
  let mels ← transcriber.logMelSpectrogram wave
  let encoded ← (transcriber.encode mels).mapError fun e =>
    .error s!"encoder failed on window {windowIndex}: {e}"
  let encKv ← (transcriber.compute encoded).mapError fun e =>
    .error s!"enc-kv failed on window {windowIndex}: {e}"
  let decoder := transcriber.setEncKv encKv
  let tokNotimestamps ← tokenNamed transcriber.tokenToId "<|notimestamps|>"
    "tokenizer missing <|notimestamps|>"
  let windowDurationSec :=
    A.div (A.literal (windowEndSample - windowStartSample : Nat)) (A.literal sampleRate)
  let allOutputTokens ← allOutputTokens A transcriber.sorter decoder transcriber.resetState
    transcriber.tokenToId windowIndex windowStartSample windowEndSample options
  let text ← match transcriber.decode allOutputTokens with
    | some text => .ok text
    | none => .error (.panic .unwrapNone)
  let window : TokenWindow F32 :=
    { decode := transcriber.decode
      windowIndex
      windowStartSec := absoluteStartSec
      windowEndSec := A.add absoluteStartSec windowDurationSec
      timestampBegin := tokNotimestamps + 1 }
  let segments := window.tokensToSegments A allOutputTokens
  return (text, segments.map TimedSegment.toTranscriptSegment)

/-- A panic ends the thread, so that no caller sees what `onPanic` says of it. -/
def windowModel (transcriber : WindowTranscriber spec mel encoded encKv σ)
    (onPanic : Panic → Error) : WindowModel :=
  fun options wave windowIndex absoluteStartSec windowStartSample windowEndSample =>
    (transcriber.transcribeWindowSamples wave windowIndex absoluteStartSec windowStartSample
      windowEndSample options).mapError fun
        | .panic panic => onPanic panic
        | .error message => .other message

end WindowTranscriber

end RkWhisper
