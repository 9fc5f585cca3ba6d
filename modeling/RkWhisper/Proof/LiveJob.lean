import RkWhisper.LiveRun
import RkWhisper.Proof.Segments

/-!
# What the methods of a live job do

One lemma for each method; the proofs about runs use these and do not unfold the methods again.
-/

namespace RkWhisper

open Segmentation

/-- What a job sends when it meets the errors among `chunks`. -/
def errorResponses (chunks : List (Except Error LiveChunk)) : List JobResponse :=
  chunks.flatMap fun
    | .ok _ => []
    | .error error => [.finished (.error error)]

namespace ActiveLiveJob

variable {job : ActiveLiveJob} {maxInFlight : Nat}

/-! ### Accepting chunks -/

theorem foldl_acceptChunk (chunks : List (Except Error LiveChunk)) (job : ActiveLiveJob) :
    ∃ closed, chunks.foldl (fun job chunk => job.acceptChunk (some chunk)) job =
        { job with
          responseTx := job.responseTx ++ errorResponses chunks
          audioBuffer := job.audioBuffer ++ audioOf chunks
          producerClosed := closed } ∧
      (job.producerClosed = true → closed = true) := by
  induction chunks generalizing job with
  | nil => exact ⟨job.producerClosed, by simp [errorResponses, audioOf], id⟩
  | cons chunk chunks ih =>
      obtain ⟨closed, hfold, hclosed⟩ := ih (job.acceptChunk (some chunk))
      refine ⟨closed, ?_, ?_⟩
      · rw [List.foldl_cons, hfold]
        cases chunk <;> simp [acceptChunk, send, errorResponses, audioOf]
      · intro h
        apply hclosed
        cases chunk with
        | ok chunk => exact h
        | error error => rfl

/-- Chunks that are not errors go to the buffer. -/
theorem foldl_acceptChunk_of_ok {chunks : List (Except Error LiveChunk)}
    (hchunks : ∀ error, .error error ∉ chunks) (job : ActiveLiveJob) :
    chunks.foldl (fun job chunk => job.acceptChunk (some chunk)) job =
      { job with audioBuffer := job.audioBuffer ++ audioOf chunks } := by
  induction chunks generalizing job with
  | nil => simp [audioOf]
  | cons chunk chunks ih =>
      have hrest : ∀ error, .error error ∉ chunks :=
        fun error hmem => hchunks error (List.mem_cons_of_mem _ hmem)
      rw [List.foldl_cons, ih hrest]
      cases chunk with
      | ok chunk => simp [acceptChunk, audioOf]
      | error error => exact absurd List.mem_cons_self (hchunks error)

/-- An open job with room takes all chunks there are, and hears that no more will come. -/
theorem drainLiveChunks_of_open (hopen : job.producerClosed = false)
    (hroom : job.inFlight < maxInFlight) (hchunks : ∀ error, .error error ∉ job.chunkRx.queue) :
    job.drainLiveChunks maxInFlight =
      { job with
        chunkRx := { job.chunkRx with queue := [] }
        audioBuffer := job.audioBuffer ++ audioOf job.chunkRx.queue
        producerClosed := job.chunkRx.disconnected } := by
  have hskip : ¬ (job.producerClosed = true ∨ maxInFlight ≤ job.inFlight) := by
    simp [hopen, hroom]
  simp only [drainLiveChunks, if_neg hskip, foldl_acceptChunk_of_ok hchunks]
  cases job.chunkRx.disconnected with
  | false => simp [hopen]
  | true => simp [acceptChunk]

/-- A closed job takes nothing from its channel. -/
theorem drainedChunks_of_closed (h : job.producerClosed = true) :
    job.drainedChunks maxInFlight = [] :=
  if_pos (.inl h)

theorem drainLiveChunks_spec (maxInFlight : Nat) (job : ActiveLiveJob) :
    ∃ chunkRx closed, job.drainLiveChunks maxInFlight =
        { job with
          chunkRx
          responseTx := job.responseTx ++ errorResponses (job.drainedChunks maxInFlight)
          audioBuffer := job.audioBuffer ++ audioOf (job.drainedChunks maxInFlight)
          producerClosed := closed } ∧
      (job.producerClosed = true → closed = true) ∧
      job.drainedChunks maxInFlight ++ chunkRx.queue = job.chunkRx.queue := by
  rw [drainLiveChunks, drainedChunks]
  split
  · exact ⟨job.chunkRx, job.producerClosed, by simp [errorResponses, audioOf], id, rfl⟩
  · obtain ⟨closed, hfold, hclosed⟩ := foldl_acceptChunk job.chunkRx.queue
      { job with chunkRx := { job.chunkRx with queue := [] } }
    simp only [hfold]
    split
    · exact ⟨_, true, rfl, fun _ => rfl, List.append_nil _⟩
    · exact ⟨_, closed, rfl, hclosed, List.append_nil _⟩

theorem drainLiveChunks_of_empty {job : ActiveLiveJob} {maxInFlight : Nat}
    (hqueue : job.chunkRx.queue = []) (hopen : job.chunkRx.disconnected = false) :
    job.drainLiveChunks maxInFlight = job := by
  obtain ⟨_, ⟨queue, disconnected⟩, _⟩ := job
  obtain rfl : queue = [] := hqueue
  obtain rfl : disconnected = false := hopen
  exact ite_self _

/-! ### Silence -/

/-- The condition under which the rest of the buffer is dropped as silence. -/
structure Silent (job : ActiveLiveJob) (config : VadConfig) : Prop where
  config_eq : job.vadConfig = some config
  nonempty : job.audioBuffer ≠ []
  segments_eq : job.segments config = []
  closed : job.producerClosed = true
  idle : job.vadInFlight = false
  scanned : job.audioBuffer.length ≤ job.vadProcessedSamples

def clear (job : ActiveLiveJob) : ActiveLiveJob :=
  { job with
    absoluteOffsetSamples := job.absoluteOffsetSamples + job.audioBuffer.length
    audioBuffer := []
    probs := [] }

theorem refreshSpeechState_of_silent {config : VadConfig} (h : job.Silent config) :
    job.refreshSpeechState = job.clear := by
  simp [refreshSpeechState, clear, h.config_eq, h.nonempty, h.segments_eq, h.closed, h.idle,
    h.scanned]

theorem refreshSpeechState_cases (job : ActiveLiveJob) :
    job.refreshSpeechState = job ∨ ∃ config, job.Silent config := by
  rw [refreshSpeechState]
  split
  · exact .inl rfl
  · rename_i hbuffer
    split
    · exact .inl rfl
    · rename_i config hconfig
      split
      · rename_i hcond
        obtain ⟨hsegments, hclosed, hidle, hscanned⟩ := hcond
        exact .inr ⟨config, hconfig, hbuffer, List.isEmpty_iff.mp hsegments, hclosed,
          Bool.eq_false_of_not_eq_true hidle, hscanned⟩
      · exact .inl rfl

/-! ### VAD windows -/

theorem hasVadReady_iff : job.hasVadReady = true ↔
    ∃ config, job.vadConfig = some config ∧ job.vadInFlight = false ∧
      job.vadProcessedSamples < job.audioBuffer.length ∧
      (job.vadProcessedSamples + config.windowSamples ≤ job.audioBuffer.length ∨
        job.producerClosed = true) := by
  rw [hasVadReady]
  cases hconfig : job.vadConfig with
  | none => simp
  | some config =>
      cases hbusy : job.vadInFlight with
      | true => simp
      | false =>
          by_cases hscanned : job.audioBuffer.length ≤ job.vadProcessedSamples
          · simp [hscanned]
          · cases hclosed : job.producerClosed with
            | true => simp [hscanned, not_le.mp hscanned]
            | false =>
                simp only [hscanned, Bool.false_eq_true, if_false, not_false_eq_true, and_true,
                  Bool.if_true_right, Option.some.injEq, exists_eq_left', true_and, or_false,
                  Bool.or_eq_true, Bool.not_eq_true', decide_eq_false_iff_not]
                omega

/-- The job that `next_vad_job` hands out. -/
def vadJobAt (job : ActiveLiveJob) (config : VadConfig) : VadJob :=
  { jobId := job.jobId
    windowIndex := job.nextVadWindowIndex
    startSample := job.vadProcessedSamples
    samples := (job.audioBuffer.take
      (min (job.vadProcessedSamples + config.windowSamples) job.audioBuffer.length)).drop
        job.vadProcessedSamples
    state := job.vadState
    windowSamples := config.windowSamples }

theorem nextVadJob_of_ready {config : VadConfig} (hconfig : job.vadConfig = some config)
    (h : job.hasVadReady = true) : job.nextVadJob = (some (job.vadJobAt config),
      { job with
        vadInFlight := true
        nextVadWindowIndex := job.nextVadWindowIndex + 1 }) := by
  rw [nextVadJob, hconfig]
  exact if_pos h

theorem sendVadJob_of_ready {config : VadConfig} (hconfig : job.vadConfig = some config)
    (h : job.hasVadReady = true) (sent : Bool) :
    job.sendVadJob sent =
      (if sent then some (job.vadJobAt config) else none,
        { job with
          vadInFlight := sent
          nextVadWindowIndex := job.nextVadWindowIndex + 1 }) := by
  rw [sendVadJob, nextVadJob_of_ready hconfig h]
  cases sent <;> rfl

/-! ### Whisper windows -/

theorem mayDispatch_iff : job.mayDispatch maxInFlight = true ↔
    job.inFlight < maxInFlight ∧ job.vadInFlight = false ∧
      ∃ plan, job.nextDispatchPlan = some plan := by
  simp [mayDispatch, Option.isSome_iff_exists, and_assoc]

theorem dispatchToWorker_eq {plan : DispatchPlan} (h : job.nextDispatchPlan = some plan)
    (sent : Bool) : job.dispatchToWorker sent =
      (if sent then some (job.whisperJob plan) else none,
        if sent then (job.cut plan).countDispatch else job.cut plan) := by
  rw [dispatchToWorker, h]
  cases sent <;> rfl

/-- The windows recorded for the samples in the buffer. -/
def windows (job : ActiveLiveJob) (config : VadConfig) : List Window :=
  config.windows job.audioBuffer.length job.probs

/-- The segments of the buffer, as intervals. -/
def intervals (job : ActiveLiveJob) (config : VadConfig) : List Interval :=
  config.padded job.audioBuffer.length (job.windows config)

theorem segments_eq {config : VadConfig} (h : Ordered 0 (job.windows config)) :
    job.segments config = (job.intervals config).map VadSegment.ofInterval :=
  segmentsFromProbs_eq h

/-- The segments up to the last that fits, all of which fit, unless that is the first. -/
theorem take_lastFittingIdx (firstStart : Nat) (first : VadSegment) (rest : List VadSegment) :
    ∃ front last, (first :: rest).take (lastFittingIdx firstStart (first :: rest) + 1) =
        front ++ [last] ∧
      (first :: rest).getD (lastFittingIdx firstStart (first :: rest)) first = last ∧
      ((front = [] ∧ last = first) ∨
        ∀ segment ∈ front ++ [last], segment.endSample - firstStart ≤ 480000) := by
  rw [lastFittingIdx]
  generalize hfitting : (first :: rest).takeWhile
    (fun segment => decide (segment.endSample - firstStart ≤ 480000)) = fitting
  have hpre : fitting <+: first :: rest := hfitting ▸ List.takeWhile_prefix _
  by_cases hnone : fitting = []
  · subst hnone
    exact ⟨[], first, rfl, rfl, .inl ⟨rfl, rfl⟩⟩
  · have hpos : 0 < fitting.length := List.length_pos_iff.mpr hnone
    have hidx : fitting.length - 1 < (first :: rest).length := by
      have hle := hpre.length_le
      omega
    have hsplit := List.take_append_getElem hidx
    rw [Nat.sub_add_cancel hpos] at hsplit ⊢
    refine ⟨_, _, hsplit.symm, ?_, .inr ?_⟩
    · rw [List.getD_eq_getElem?_getD, List.getElem?_eq_getElem hidx, Option.getD_some]
    · rw [hsplit, ← List.prefix_iff_eq_take.mp hpre]
      intro segment hmem
      have hall := List.all_eq_true.mp (@List.all_takeWhile _ _ (first :: rest)) segment
        (hfitting.symm ▸ hmem)
      exact of_decide_eq_true hall

/-- A plan takes the segments `front` and `last`, which fit into thirty seconds, or `last` alone. -/
structure Packs (plan : DispatchPlan) (intervals : List Interval) (first : Interval)
    (front : List Interval) (last : Interval) : Prop where
  taken : front ++ [last] <+: intervals
  head : (front ++ [last]).head? = some first
  fits : (front = [] ∧ last = first) ∨
    ∀ interval ∈ front ++ [last], interval.2 - first.1 ≤ 480000
  start_eq : plan.startSample = first.1
  end_eq : plan.endSample = if 480000 ≤ last.2 - first.1 then first.1 + 480000 else last.2
  events_eq : plan.speechEvents =
    (front ++ [last]).map fun interval => (interval.1, min interval.2 plan.endSample)

theorem planOfSegments_spec {first : Interval} {rest : List Interval} {plan : DispatchPlan}
    (h : job.planOfSegments (.ofInterval first) ((first :: rest).map .ofInterval) = some plan) :
    ∃ front last, Packs plan (first :: rest) first front last := by
  obtain ⟨front, last, htake, hlast, hfits⟩ := take_lastFittingIdx
    (VadSegment.ofInterval first).startSample (.ofInterval first) (rest.map .ofInterval)
  rw [← List.map_cons] at htake hlast
  simp only [planOfSegments, hlast, htake] at h
  split at h
  · have hplan := Option.some.inj h
    rw [← List.map_take] at htake
    obtain ⟨front, back, hfront, rfl, hback⟩ := List.map_eq_append_iff.mp htake
    obtain ⟨last, rfl, rfl⟩ := List.map_eq_singleton_iff.mp hback
    refine ⟨front, last, ?_, ?_, ?_, ?_, ?_, ?_⟩
    · rw [← hfront]
      exact List.take_prefix _ _
    · rw [← hfront]
      rfl
    · refine hfits.imp ?_ ?_
      · rintro ⟨hnil, hsame⟩
        have hstart := congrArg VadSegment.startSample hsame
        have hend := congrArg VadSegment.endSample hsame
        exact ⟨List.map_eq_nil_iff.mp hnil, Prod.ext hstart hend⟩
      · intro hall interval hmem
        refine hall (.ofInterval interval) ?_
        rw [← List.map_singleton, ← List.map_append]
        exact List.mem_map_of_mem hmem
    · rw [← hplan]
      rfl
    · rw [← hplan]
      exact if_congr decide_eq_true_iff rfl rfl
    · rw [← hplan, ← List.map_singleton, ← List.map_append, List.map_map]
      rfl
  · cases h

/-- The audio is cut behind `last`, or when that is too far, thirty seconds behind `first`. -/
structure CutBehind (job : ActiveLiveJob) (config : VadConfig) (plan : DispatchPlan)
    (first last : Interval) : Prop where
  head : (job.intervals config).head? = some first
  mem : last ∈ job.intervals config
  fits : last = first ∨ last.2 - first.1 ≤ 480000
  start_eq : plan.startSample = first.1
  end_eq : plan.endSample = min (first.1 + 480000) last.2

theorem exists_packs {config : VadConfig} (hconfig : job.vadConfig = some config)
    (hordered : Ordered 0 (job.windows config)) {plan : DispatchPlan}
    (h : job.nextDispatchPlan = some plan) :
    ∃ first front last, Packs plan (job.intervals config) first front last := by
  rw [nextDispatchPlan, hconfig] at h
  simp only [segments_eq hordered] at h
  cases hintervals : job.intervals config with
  | nil => simp [hintervals] at h
  | cons first rest =>
      rw [hintervals] at h
      exact ⟨first, planOfSegments_spec h⟩

theorem Packs.cutBehind {config : VadConfig} (hordered : Ordered 0 (job.windows config))
    (hlimit : ∀ window ∈ job.windows config, window.stop ≤ job.audioBuffer.length)
    {plan : DispatchPlan} {first last : Interval} {front : List Interval}
    (h : Packs plan (job.intervals config) first front last) :
    job.CutBehind config plan first last := by
  have hfollow : Follow 0 (job.intervals config) := follow_segments hordered hlimit
  obtain ⟨back, hsplit⟩ := h.taken
  have hlast : last ∈ front ++ [last] := List.mem_append_right _ (List.mem_singleton_self last)
  have horder : first.1 ≤ last.2 := by
    rw [← hsplit] at hfollow
    have hfirst := hfollow.of_mem (List.mem_append_left _ (List.mem_of_head? h.head))
    have hbehind := hfollow.front.stop_le_last first (List.mem_of_head? h.head)
    omega
  refine ⟨?_, h.taken.subset hlast, h.fits.imp And.right fun hall => hall last hlast, h.start_eq, ?_⟩
  · rw [← hsplit, List.head?_append, h.head]
    rfl
  · rw [h.end_eq]
    split <;> omega

theorem exists_cutBehind {config : VadConfig} (hconfig : job.vadConfig = some config)
    (hordered : Ordered 0 (job.windows config)) (hlimit : ∀ window ∈ job.windows config,
      window.stop ≤ job.audioBuffer.length) {plan : DispatchPlan}
    (h : job.nextDispatchPlan = some plan) : ∃ first last, job.CutBehind config plan first last := by
  obtain ⟨first, front, last, hpacks⟩ := exists_packs hconfig hordered h
  exact ⟨first, last, hpacks.cutBehind hordered hlimit⟩

theorem CutBehind.bounds {config : VadConfig} (hordered : Ordered 0 (job.windows config))
    (hlimit : ∀ window ∈ job.windows config, window.stop ≤ job.audioBuffer.length)
    {plan : DispatchPlan} {first last : Interval} (h : job.CutBehind config plan first last) :
    plan.startSample < plan.endSample ∧ plan.endSample ≤ plan.startSample + 480000 ∧
      plan.endSample ≤ job.audioBuffer.length := by
  have hfollow : Follow 0 (job.intervals config) := follow_segments hordered hlimit
  have hlast := segments_stop_le last h.mem
  obtain ⟨rest, hrest⟩ : ∃ rest, job.intervals config = first :: rest := by
    have hhead := h.head
    cases hintervals : job.intervals config with
    | nil => simp [hintervals] at hhead
    | cons segment rest =>
        rw [hintervals] at hhead
        obtain rfl := Option.some.inj hhead
        exact ⟨rest, rfl⟩
  have hmem := h.mem
  rw [hrest] at hfollow hmem
  obtain ⟨-, hne, hbehind⟩ := hfollow
  have horder : first.1 < last.2 := by
    obtain rfl | hmem := List.mem_cons.mp hmem
    · exact hne
    · have hlater := hbehind.of_mem hmem
      omega
  rw [h.start_eq, h.end_eq]
  omega

theorem nextDispatchPlan_of_vad_off (hconfig : job.vadConfig = none) {plan : DispatchPlan}
    (h : job.nextDispatchPlan = some plan) :
    plan.startSample = 0 ∧ plan.endSample = min 480000 job.audioBuffer.length ∧
      0 < job.audioBuffer.length := by
  rw [nextDispatchPlan, hconfig] at h
  simp only at h
  split at h
  · rename_i hready
    obtain rfl := Option.some.inj h
    refine ⟨rfl, rfl, ?_⟩
    obtain hfull | ⟨-, hnonempty⟩ := hready
    · omega
    · rw [List.isEmpty_iff] at hnonempty
      exact List.length_pos_iff.mpr hnonempty
  · cases h

theorem nextDispatchPlan_of_segments {config : VadConfig} {first : VadSegment}
    {rest : List VadSegment} (hconfig : job.vadConfig = some config)
    (hsegments : job.segments config = first :: rest) :
    job.nextDispatchPlan = job.planOfSegments first (first :: rest) := by
  rw [nextDispatchPlan, hconfig]
  simp only [hsegments]

/-- A closed job with audio is dispatched, unless VAD finds no speech in it. -/
theorem exists_plan_of_closed (hclosed : job.producerClosed = true) (hbuffer : job.audioBuffer ≠ [])
    (hspeech : ∀ config, job.vadConfig = some config → job.segments config ≠ []) :
    ∃ plan, job.nextDispatchPlan = some plan := by
  rw [nextDispatchPlan]
  cases hconfig : job.vadConfig with
  | none => simp [hclosed, hbuffer]
  | some config =>
      have hne := hspeech config hconfig
      cases hsegments : job.segments config with
      | nil => exact absurd hsegments hne
      | cons first rest => simp [planOfSegments, hclosed, hbuffer, hsegments]

/-! ### Emitting results -/

theorem emitResults_spec (rounds : Nat) (job : ActiveLiveJob) :
    ∃ (emitted : List WindowTranscription) (pending : Std.TreeMap Nat WindowTranscription),
      emitResults rounds job =
        { job with
          responseTx := job.responseTx ++ emitted.flatMap WindowTranscription.responses
          pendingResults := pending
          nextResultIndex := job.nextResultIndex + emitted.length } ∧
      (∀ i, i < emitted.length → job.pendingResults[job.nextResultIndex + i]? = emitted[i]?) ∧
      (∀ k, pending[k]? =
        if job.nextResultIndex ≤ k ∧ k < job.nextResultIndex + emitted.length then none
        else job.pendingResults[k]?) ∧
      (job.pendingResults.size ≤ rounds → pending[job.nextResultIndex + emitted.length]? = none) := by
  induction rounds generalizing job with
  | zero =>
      refine ⟨[], job.pendingResults, by simp [emitResults], by simp, by simp, ?_⟩
      intro hsize
      have hempty : job.pendingResults.isEmpty := by
        rw [Std.TreeMap.isEmpty_eq_size_eq_zero]
        simpa using hsize
      exact Std.TreeMap.getElem?_of_isEmpty hempty
  | succ rounds ih =>
      rw [emitResults]
      cases hnext : job.pendingResults[job.nextResultIndex]? with
      | none =>
          refine ⟨[], job.pendingResults, by simp, by simp, by simp, ?_⟩
          intro _
          exact hnext
      | some result =>
          obtain ⟨emitted, pending, hjob, hemitted, hpending, hlast⟩ := ih (job.emitResult result)
          simp only [emitResult, Std.TreeMap.getElem?_erase, compare_eq_iff_eq]
            at hemitted hpending hlast
          refine ⟨result :: emitted, pending, ?_, ?_, ?_, ?_⟩
          · refine hjob.trans ?_
            simp only [emitResult, List.flatMap_cons, List.length_cons, List.append_assoc,
              Nat.add_assoc, Nat.add_comm 1]
          · intro i hi
            cases i with
            | zero => simpa using hnext
            | succ i =>
                have hlater := hemitted i (by simpa using hi)
                rw [if_neg (by omega)] at hlater
                rw [List.getElem?_cons_succ, ← hlater]
                congr 1
                omega
          · intro k
            rw [hpending k]
            simp only [List.length_cons]
            by_cases hk : k = job.nextResultIndex
            · rw [if_neg (by omega), if_pos hk.symm, if_pos (by omega)]
            · by_cases hin : job.nextResultIndex + 1 ≤ k ∧
                  k < job.nextResultIndex + 1 + emitted.length
              · rw [if_pos hin, if_pos (by omega)]
              · rw [if_neg hin, if_neg (Ne.symm hk), if_neg (by omega)]
          · intro hsize
            have hmem : job.nextResultIndex ∈ job.pendingResults :=
              Std.TreeMap.mem_iff_isSome_getElem?.mpr (by rw [hnext]; rfl)
            have hcontains : job.pendingResults.contains job.nextResultIndex = true :=
              Std.TreeMap.contains_iff_mem.mpr hmem
            have hend := hlast (by
              rw [Std.TreeMap.size_erase, if_pos hcontains]
              omega)
            rw [List.length_cons, ← hend]
            congr 1
            omega

/-- **A result joins those that are pending, and what is next in order is emitted.** -/
theorem handleResult_spec (job : ActiveLiveJob) (result : WindowTranscription) :
    ∃ (emitted : List WindowTranscription) (pending : Std.TreeMap Nat WindowTranscription),
      job.handleResult result =
        { job with
          responseTx := job.responseTx ++ emitted.flatMap WindowTranscription.responses
          stats := ⟨job.stats.windowsDispatched, job.stats.windowsCompleted + 1⟩
          inFlight := job.inFlight - 1
          pendingResults := pending
          nextResultIndex := job.nextResultIndex + emitted.length } ∧
      (∀ i, i < emitted.length → (job.pendingResults.insert result.windowIndex
        result)[job.nextResultIndex + i]? = emitted[i]?) ∧
      (∀ k, pending[k]? =
        if job.nextResultIndex ≤ k ∧ k < job.nextResultIndex + emitted.length then none
        else (job.pendingResults.insert result.windowIndex result)[k]?) ∧
      pending[job.nextResultIndex + emitted.length]? = none := by
  obtain ⟨emitted, pending, hjob, hemitted, hpending, hlast⟩ := emitResults_spec
    (job.pendingResults.insert result.windowIndex result).size
    { job with
      inFlight := job.inFlight - 1
      stats := { job.stats with windowsCompleted := job.stats.windowsCompleted + 1 }
      pendingResults := job.pendingResults.insert result.windowIndex result }
  exact ⟨emitted, pending, hjob, hemitted, hpending, hlast le_rfl⟩

end ActiveLiveJob

end RkWhisper
