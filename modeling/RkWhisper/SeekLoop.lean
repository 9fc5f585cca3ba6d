import RkWhisper.Decoder
import RkWhisper.Parameters
import RkWhisper.Suppression

/-!
# The seek loop

`transcribe_window_samples` from the moment the decoder has a window's keys and values up to the
tokens of the window. Each pass primes the decoder with the control prompt and the end of what there
is already, and generates what comes next. The traces it writes are left out.
-/

namespace RkWhisper

variable {spec : WhisperSpec} {σ F : Type}

def tokenNamed (tokenToId : String → Option UInt32) (name missing : String) :
    Except (Failure String) UInt32 :=
  match tokenToId name with
  | some id => .ok id
  | none => .error (.error missing)

def controlPrompt (tokenToId : String → Option UInt32) (lang task : String) (notimestamps : Bool) :
    Except (Failure String) (List UInt32) := do
  let start ← tokenNamed tokenToId "<|startoftranscript|>"
    "tokenizer missing <|startoftranscript|>"
  let langTok ← tokenNamed tokenToId s!"<|{lang}|>" s!"tokenizer missing language token <|{lang}|>"
  let taskTok ← tokenNamed tokenToId s!"<|{task}|>" s!"tokenizer missing task token <|{task}|>"
  let nots ← tokenNamed tokenToId "<|notimestamps|>" "tokenizer missing <|notimestamps|>"
  return [start, langTok, taskTok] ++ if notimestamps then [nots] else []

/-- The first of the greatest logits. -/
def argmaxToken (A : Arithmetic F) (logits : List F) : UInt32 :=
  let (bestI, _) := logits.zipIdx.foldl
    (fun (bestI, bestV) (v, i) => if A.gt v bestV then (i, v) else (bestI, bestV))
    (0, A.negInfinity)
  UInt32.ofNat bestI

/-- The last eight tokens are four tokens twice. -/
def repeats (generated : List UInt32) : Bool :=
  let tail := generated.drop (generated.length - 8)
  8 ≤ generated.length && tail.take 4 == tail.drop 4

/-- What the loop has at hand. `resetState` is what `state.reset()` leaves, whatever was before. -/
structure SeekLoop (spec : WhisperSpec) (σ F : Type) where
  arithmetic : Arithmetic F
  decoder : StepDecoder spec String σ F
  resetState : σ
  tokenToId : String → Option UInt32
  options : TranscribeOptions
  windowIndex : Nat
  basePrompt : List UInt32
  timestampBegin : UInt32
  windowEndToken : UInt32

namespace SeekLoop

variable (loop : SeekLoop spec σ F)

/-- The base prompt and the tail of `accumulated`, of which at most `budget` tokens. -/
def prompt (accumulated : List UInt32) : List UInt32 :=
  let budget := spec.tCache - (loop.basePrompt.length + 64)
  let accStart := accumulated.length - budget
  loop.basePrompt ++ accumulated.drop accStart

/-- The decoder's answer to the whole prompt. -/
def prime (prompt : List UInt32) : Except (Failure String) (List F × σ) :=
  prompt.zipIdx.foldlM (fun (_, state) (id, i) =>
      (loop.decoder.step state id).mapError fun e =>
        .error s!"prime step {i} failed on window {loop.windowIndex}: {e}")
    (List.replicate spec.vocab (loop.arithmetic.literal 0), loop.resetState)

def passSuppressor (prompt : List UInt32) : Suppressor F :=
  (TokenSuppressor.new spec loop.tokenToId prompt.length loop.options.notimestamps
    loop.options.suppressTokens).toSuppressor loop.arithmetic

/-! ### The two ways to decode -/

/-- `for _ in 0..steps`, until no beam is live. -/
def beamSteps (sorter : SliceSort.Sorter) (suppress : Suppressor F) :
    Nat → BeamSearch σ F → Except (Failure String) (BeamSearch σ F)
  | 0, search => .ok search
  | steps + 1, search => do
      let search ← search.step sorter loop.arithmetic loop.decoder suppress
      if search.beams.isEmpty then return search else beamSteps sorter suppress steps search

def beamSearch (sorter : SliceSort.Sorter) (prompt : List UInt32) :
    Except (Failure String) (BeamSearch σ F) := do
  let (lastLogits, state) ← loop.prime prompt
  loop.beamSteps sorter (loop.passSuppressor prompt) loop.options.maxNewTokens
    (BeamSearch.new loop.arithmetic loop.options.beamSize state lastLogits prompt
      (loop.arithmetic.literal 1))

/-- The greedy loop, with the steps that are left. -/
def greedySteps (suppress : Suppressor F) : Nat → (generated tokensWithPrompt : List UInt32) →
    (currentLogits : List F) → (state : σ) → Except (Failure String) (List UInt32)
  | 0, generated, _, _, _ => .ok generated
  | steps + 1, generated, tokensWithPrompt, currentLogits, state =>
      let tokenId := argmaxToken loop.arithmetic (suppress.apply tokensWithPrompt currentLogits)
      if tokenId = spec.tokenEot then .ok generated
      else
        let generated := generated ++ [tokenId]
        let tokensWithPrompt := tokensWithPrompt ++ [tokenId]
        if repeats generated then .ok generated
        else do
          let (currentLogits, state) ← (loop.decoder.step state tokenId).mapError fun e =>
            .error s!"decoder step failed on window {loop.windowIndex}: {e}"
          greedySteps suppress steps generated tokensWithPrompt currentLogits state

def greedy (prompt : List UInt32) : Except (Failure String) (List UInt32) := do
  let (lastLogits, state) ← loop.prime prompt
  loop.greedySteps (loop.passSuppressor prompt) loop.options.maxNewTokens [] prompt lastLogits state

/-- The new tokens of one pass. -/
def newTokens (sorter : SliceSort.Sorter) (prompt : List UInt32) :
    Except (Failure String) (List UInt32) :=
  if 1 < loop.options.beamSize then do
    let search ← loop.beamSearch sorter prompt
    let full := (search.bestResult loop.arithmetic).getD []
    return full.drop prompt.length
  else loop.greedy prompt

/-! ### The passes -/

variable (spec) in
/-- There is room left for a meaningful pass. -/
def HasRoom (prompt : List UInt32) : Prop := prompt.length + 16 < spec.tCache

instance (prompt : List UInt32) : Decidable (HasRoom spec prompt) :=
  inferInstanceAs (Decidable (_ < _))

def lastTimestamp (tokens : List UInt32) : Option UInt32 :=
  tokens.reverse.find? (loop.timestampBegin ≤ ·)

/-- One pass: the tokens accumulated after it, and whether there is another. -/
def seekPass (sorter : SliceSort.Sorter) (accumulated : List UInt32) :
    Except (Failure String) (List UInt32 × Bool) :=
  let prompt := loop.prompt accumulated
  if HasRoom spec prompt then do
    let new ← loop.newTokens sorter prompt
    if new.isEmpty then return (accumulated, false)
    else
      let prevLastTs := loop.lastTimestamp accumulated
      let again :=
        match loop.lastTimestamp new with
        | none => false
        | some lastTs => !prevLastTs.any (lastTs ≤ ·) && lastTs < loop.windowEndToken
      return (accumulated ++ new, again)
  else .ok (accumulated, false)

def run (sorter : SliceSort.Sorter) : Nat → List UInt32 → Except (Failure String) (List UInt32)
  | 0, accumulated => .ok accumulated
  | passes + 1, accumulated => do
      let (accumulated, again) ← loop.seekPass sorter accumulated
      if again then run sorter passes accumulated else return accumulated

end SeekLoop

/-- The output tokens of a window. -/
def allOutputTokens (A : Arithmetic F) (sorter : SliceSort.Sorter)
    (decoder : StepDecoder spec String σ F) (resetState : σ)
    (tokenToId : String → Option UInt32) (windowIndex windowStartSample windowEndSample : Nat)
    (options : TranscribeOptions) : Except (Failure String) (List UInt32) := do
  let tokNotimestamps ← tokenNamed tokenToId "<|notimestamps|>" "tokenizer missing <|notimestamps|>"
  let timestampBegin := tokNotimestamps + 1
  let windowDurationSec :=
    A.div (A.literal (windowEndSample - windowStartSample : Nat)) (A.literal sampleRate)
  let basePrompt ← controlPrompt tokenToId options.lang options.task options.notimestamps
  let loop : SeekLoop spec σ F :=
    { arithmetic := A, decoder, resetState, tokenToId, options, windowIndex, basePrompt
      timestampBegin
      windowEndToken := timestampBegin + A.toU32 (A.div windowDurationSec (A.literal 0.02)) }
  loop.run sorter 16 []

/-- The decoder of a worker. A step sets all masks anew, so that it depends on no step before it
except through the state. -/
def WhisperDecoder.stepDecoder {ε : Type} (npu : DecoderInputs spec → Except ε (DecoderOutputs spec))
    (decoder : WhisperDecoder spec) : StepDecoder spec ε (WhisperDecoderState spec) F32 where
  step state tokenId :=
    match decoder.step npu state tokenId with
    | (.ok logits, _, state) => .ok (logits, state)
    | (.error error, _, _) => .error error
  length_step := by
    intro state tokenId logits state' h
    unfold WhisperDecoder.step at h
    cases hanswer : npu (decoder.inputs state tokenId) with
    | error e =>
        rw [hanswer] at h
        cases h
    | ok outputs =>
        rw [hanswer] at h
        cases h
        rw [List.length_map, Vector.length_toList]

end RkWhisper
