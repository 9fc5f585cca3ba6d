import RkWhisper.Lib.CheckedArithmetic
import RkWhisper.LiveJob

/-!
# A live job, with every operation on positions checked

`segments_from_probs` and the methods of `ActiveLiveJob` that compute with sample positions once
more, line by line: each subtraction, addition, index, drain and slice on a bare `usize` may fault.
-/

namespace RkWhisper

open Checked

namespace SpeechScan

def nextChecked (audioLen : Nat) (config : VadConfig) (scan : SpeechScan) :
    Nat × F32 → Except Fault SpeechScan
  | (start, prob) => do
      let end_ := min (← addNat start config.windowSamples) audioLen
      if prob.ge config.threshold then
        return { scan with
          currentStart := some (scan.currentStart.getD start)
          lastSpeechEnd := end_ }
      else
        match scan.currentStart with
        | some segmentStart =>
            if msToSamples config.minSilenceMs ≤ start - scan.lastSpeechEnd then
              return { scan with
                raw := scan.raw ++ [(segmentStart, scan.lastSpeechEnd)]
                currentStart := none }
            else return scan
        | none => return scan

end SpeechScan

/-- `saturating_sub` needs no check. -/
def mergeSpeechChecked (audioLen : Nat) (config : VadConfig) (merged : List (Nat × Nat)) :
    Nat × Nat → Except Fault (List (Nat × Nat))
  | (start, end_) => do
      if end_ - start < msToSamples config.minSpeechMs then return merged
      let paddedStart := start - msToSamples config.speechPadMs
      let paddedEnd := min (← addNat end_ (msToSamples config.speechPadMs)) audioLen
      match merged.getLast? with
      | some (prevStart, prevEnd) =>
          if paddedStart ≤ prevEnd then
            return merged.dropLast ++ [(prevStart, max prevEnd paddedEnd)]
          else return merged ++ [(paddedStart, paddedEnd)]
      | none => return [(paddedStart, paddedEnd)]

def segmentsFromProbsChecked (audioLen : Nat) (probs : List (Nat × F32)) (config : VadConfig) :
    Except Fault (List VadSegment) := do
  let scan ← probs.foldlM (SpeechScan.nextChecked audioLen config) {}
  let merged ← scan.close.foldlM (mergeSpeechChecked audioLen config) []
  return merged.map fun (startSample, endSample) =>
    { startSample, endSample
      startSec := samplesToSec startSample
      endSec := samplesToSec endSample }

namespace ActiveLiveJob

/-- The loop over the segments from number `i` on. -/
def lastFittingIdxChecked (firstStart : Nat) : Nat → Nat → List VadSegment → Except Fault Nat
  | _, lastFittingIdx, [] => .ok lastFittingIdx
  | i, lastFittingIdx, segment :: segments => do
      if (← subNat segment.endSample firstStart) ≤ 480000 then
        lastFittingIdxChecked firstStart (i + 1) i segments
      else return lastFittingIdx

def planOfSegmentsChecked (job : ActiveLiveJob) (first : VadSegment) (segments : List VadSegment) :
    Except Fault (Option DispatchPlan) := do
  let lastFittingIdx ← lastFittingIdxChecked first.startSample 0 0 segments
  let lastFitting ← index segments lastFittingIdx
  let silenceTimeoutSamples := 32000
  let isTimeout : Bool :=
    silenceTimeoutSamples ≤ (← subNat job.audioBuffer.length lastFitting.endSample)
  let hasOverflowingSegment : Bool := lastFittingIdx + 1 < segments.length
  let isFullWindow : Bool := 480000 ≤ (← subNat lastFitting.endSample first.startSample)
  if hasOverflowingSegment || isFullWindow || isTimeout ||
      (job.producerClosed && !job.audioBuffer.isEmpty) then
    let dispatchEnd ←
      if isFullWindow then addNat first.startSample 480000 else pure lastFitting.endSample
    return some
      { startSample := first.startSample
        endSample := dispatchEnd
        speechEvents := (segments.take (lastFittingIdx + 1)).map fun segment =>
          (segment.startSample, min segment.endSample dispatchEnd) }
  else return none

def nextDispatchPlanChecked (job : ActiveLiveJob) : Except Fault (Option DispatchPlan) :=
  match job.vadConfig with
  | some config => do
      match ← segmentsFromProbsChecked job.audioBuffer.length job.probs config with
      | [] => return none
      | first :: rest => job.planOfSegmentsChecked first (first :: rest)
  | none => return job.nextDispatchPlan

def hasVadReadyChecked (job : ActiveLiveJob) : Except Fault Bool :=
  match job.vadConfig with
  | none => .ok false
  | some config => do
      if job.vadInFlight then return false
      if job.audioBuffer.length ≤ job.vadProcessedSamples then return false
      let available ← subNat job.audioBuffer.length job.vadProcessedSamples
      return !(decide (available < config.windowSamples) && !job.producerClosed)

def nextVadJobChecked (job : ActiveLiveJob) : Except Fault (Option VadJob × ActiveLiveJob) :=
  match job.vadConfig with
  | none => .ok (none, job)
  | some config => do
      if ← job.hasVadReadyChecked then
        let start := job.vadProcessedSamples
        let end_ := min (← addNat start config.windowSamples) job.audioBuffer.length
        let samples ← slice job.audioBuffer start end_
        return (some
          { jobId := job.jobId
            windowIndex := job.nextVadWindowIndex
            startSample := start
            samples
            state := job.vadState
            windowSamples := config.windowSamples },
          { job with
            vadInFlight := true
            nextVadWindowIndex := job.nextVadWindowIndex + 1 })
      else return (none, job)

def handleVadResultChecked (job : ActiveLiveJob) (result : VadResult) :
    Except Fault ActiveLiveJob := do
  let windowSamples := (job.vadConfig.map VadConfig.windowSamples).getD 0
  let processed ← addNat result.startSample windowSamples
  return { job with
    vadInFlight := false
    vadState := result.state
    vadProcessedSamples := min processed job.audioBuffer.length
    probs := job.probs ++ [(result.startSample, result.probability)] }

def speechResponsesChecked (job : ActiveLiveJob) (plan : DispatchPlan) :
    Except Fault (List JobResponse) := do
  let responses ← plan.speechEvents.mapM fun (start, end_) => do
    let begin_ := samplesToSec (← addNat job.absoluteOffsetSamples start)
    let end_ := samplesToSec (← addNat job.absoluteOffsetSamples end_)
    return [.speechStarted begin_, .speechEnded end_]
  return responses.flatten

def dispatchToWorkerChecked (job : ActiveLiveJob) (sent : Bool) :
    Except Fault (Option WhisperJob × ActiveLiveJob) := do
  match ← job.nextDispatchPlanChecked with
  | none => return (none, job)
  | some plan =>
      let responses ← job.speechResponsesChecked plan
      let (samples, audioBuffer) ← drainTo job.audioBuffer plan.endSample
      let segmentSamples ← slice samples plan.startSample samples.length
      let windowStartSec :=
        samplesToSec (← addNat job.absoluteOffsetSamples plan.startSample)
      let absoluteOffsetSamples ← addNat job.absoluteOffsetSamples plan.endSample
      let probs ← (job.probs.filter fun recorded => decide (plan.endSample ≤ recorded.1)).mapM
        fun recorded => do return (← subNat recorded.1 plan.endSample, recorded.2)
      let cut : ActiveLiveJob :=
        { job.send responses with
          audioBuffer
          absoluteOffsetSamples
          probs
          vadProcessedSamples := job.vadProcessedSamples - plan.endSample }
      let whisperJob : WhisperJob :=
        { jobId := job.jobId
          windowIndex := job.nextWindowIndex
          absoluteStartSec := windowStartSec
          startSample := 0
          endSample := segmentSamples.length
          samples := segmentSamples
          options := job.options }
      if sent then return (some whisperJob, cut.countDispatch) else return (none, cut)

end ActiveLiveJob

end RkWhisper
