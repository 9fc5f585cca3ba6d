import RkWhisper.Proof.JobIndices

/-!
# VAD goes on, unless its window is empty

The window size that a client may ask for is any number of 64 bits, and `validate_client_hello` does
not look at it. As long as it is not zero, every VAD job has samples, no sum of a position and the
window size leaves the word, and every result moves the cursor. With zero the first job is empty and
its result changes nothing.
-/

namespace RkWhisper

open Checked Segmentation Transition

namespace LiveRun

variable {maxInFlight : Nat} {config : VadConfig} {run run' : LiveRun} {event : Event}

/-- VAD has something to do and gets on with it: what is ready has samples, the result of what is at
the worker moves the cursor, and the recorded windows can be segmented. -/
structure VadProgresses (run : LiveRun) : Prop where
  window : run.job.hasVadReady = true → ∃ vadJob job,
    run.job.nextVadJobChecked = .ok (some vadJob, job) ∧ vadJob.samples ≠ []
  result : ∀ vadJob ∈ run.vadJob, ∀ result, Answers result vadJob →
    ∃ job, run.job.handleVadResultChecked result = .ok job ∧
      run.job.vadProcessedSamples < job.vadProcessedSamples
  segments : ∀ config ∈ run.job.vadConfig, ∃ segments,
    segmentsFromProbsChecked run.job.audioBuffer.length run.job.probs config = .ok segments

/-- The steps that memory has room for: a `Vec<f32>` is no longer than `isize::MAX` bytes. -/
def RoomyStep (maxInFlight : Nat) (run : LiveRun) (event : Event) (run' : LiveRun) : Prop :=
  Step maxInFlight run event run' ∧ 4 * run'.job.audioBuffer.length ≤ isizeMax

/-- A window that no buffer can hold is only filled up to the end of a closed stream, so that there
is one window, and it is the first. -/
structure Oversized (config : VadConfig) (run : LiveRun) : Prop where
  short : run.job.audioBuffer.length < config.windowSamples
  cursor : run.job.vadProcessedSamples = 0 ∨
    (run.job.producerClosed = true ∧ run.job.audioBuffer.length ≤ run.job.vadProcessedSamples)
  probs : ∀ r ∈ run.job.probs, r.1 = 0

theorem Oversized.congr (hsame : SameAudio run run') (h : Oversized config run) :
    Oversized config run' where
  short := by
    rw [hsame.audioBuffer]
    exact h.short
  cursor := by
    rw [hsame.processed, hsame.producerClosed, hsame.audioBuffer]
    exact h.cursor
  probs := by
    rw [hsame.probs]
    exact h.probs

theorem Oversized.step (hinv : AudioInvariant (some config) run) (h : Oversized config run)
    (hstep : AudioStep event run run')
    (hshort : run'.job.audioBuffer.length < config.windowSamples) : Oversized config run' := by
  have hrecording := hinv.recording config rfl
  cases hstep with
  | same hsame => exact h.congr hsame
  | accept samples closed hclosed hsame =>
      rw [hsame.audioBuffer] at hshort
      refine Oversized.congr hsame ⟨hshort, ?_, h.probs⟩
      obtain hzero | ⟨hold, hle⟩ := h.cursor
      · exact .inl hzero
      · obtain ⟨rfl, rfl⟩ := hclosed hold
        exact .inr ⟨rfl, by simpa [LiveRun.accept] using hle⟩
  | clear config' hsilent hsame =>
      rw [hsame.audioBuffer] at hshort
      refine Oversized.congr hsame ⟨hshort, ?_, fun _ hmem => absurd hmem List.not_mem_nil⟩
      exact .inr ⟨hsilent.closed, Nat.zero_le _⟩
  | scan config' sent hconfig hready hsame =>
      rw [hsame.audioBuffer] at hshort
      exact Oversized.congr hsame ⟨hshort, h.cursor, h.probs⟩
  | record vadJob result hjob hstart hsame =>
      rw [hsame.audioBuffer] at hshort
      obtain ⟨hprocessed, hlt, hwhole⟩ := hrecording.atWorker vadJob hjob
      -- The cursor is inside the buffer: this is the first window, and the last.
      have hzero : run.job.vadProcessedSamples = 0 :=
        h.cursor.resolve_right fun hclosed => absurd hclosed.2 (not_le.mpr hlt)
      have hclosed : run.job.producerClosed = true := by
        refine hwhole.resolve_left fun hwindow => ?_
        have hsmall := h.short
        omega
      refine Oversized.congr hsame ⟨hshort, .inr ⟨hclosed, ?_⟩, ?_⟩
      · simp only [record, ActiveLiveJob.handleVadResult, hrecording.vadConfig, Option.map_some,
          Option.getD_some]
        have hsmall := h.short
        omega
      · simp only [record, ActiveLiveJob.handleVadResult]
        refine List.forall_mem_append.mpr ⟨h.probs, List.forall_mem_singleton.mpr ?_⟩
        simp only
        omega
  | cut plan sent hevent hready hidle hplan hsame =>
      rw [hsame.audioBuffer] at hshort
      refine Oversized.congr hsame ⟨hshort, ?_, ?_⟩
      · obtain hzero | ⟨hclosed, hle⟩ := h.cursor
        · left
          simp only [LiveRun.cut, ActiveLiveJob.cut, hzero, Nat.zero_sub]
        · refine .inr ⟨hclosed, ?_⟩
          simp only [LiveRun.cut, ActiveLiveJob.cut, List.length_drop]
          omega
      · simp only [LiveRun.cut, ActiveLiveJob.cut]
        intro moved hmoved
        obtain ⟨r, hfilter, rfl⟩ := List.mem_map.mp hmoved
        have hstart := h.probs r (List.mem_of_mem_filter hfilter)
        simp only [hstart, Nat.zero_sub]

/-- **No sum of a position and the window size leaves the word**, whatever the window size is. -/
theorem add_windowSamples_lt (hinv : AudioInvariant (some config) run)
    (hwindow : config.windowSamples < 2 ^ 64) (hroom : 4 * run.job.audioBuffer.length ≤ isizeMax)
    (hoversized : isizeMax < config.windowSamples → Oversized config run) :
    (run.job.vadProcessedSamples < run.job.audioBuffer.length →
        run.job.vadProcessedSamples + config.windowSamples < 2 ^ 64) ∧
      ∀ r ∈ run.job.probs, r.1 + config.windowSamples < 2 ^ 64 := by
  have hinside := (hinv.recording config rfl).probs_inside hinv.timeline
  rw [isizeMax] at hroom hoversized
  by_cases hlarge : 2 ^ 63 - 1 < config.windowSamples
  · have hover := hoversized hlarge
    refine ⟨fun hlt => ?_, fun r hmem => ?_⟩
    · have hzero := hover.cursor.resolve_right fun hclosed => absurd hclosed.2 (not_le.mpr hlt)
      omega
    · have hzero := hover.probs r hmem
      omega
  · refine ⟨fun hlt => by omega, fun r hmem => ?_⟩
    have hlt := hinside r hmem
    omega

theorem vadProgresses_of_invariant (hinv : AudioInvariant (some config) run)
    (hpos : 1 ≤ config.windowSamples) (hwindow : config.windowSamples < 2 ^ 64)
    (hroom : 4 * run.job.audioBuffer.length ≤ isizeMax)
    (hoversized : isizeMax < config.windowSamples → Oversized config run) : VadProgresses run := by
  have hrecording := hinv.recording config rfl
  have hconfig := hinv.vadConfig
  obtain ⟨hcursor, hprobs⟩ := add_windowSamples_lt hinv hwindow hroom hoversized
  have hlength : run.job.audioBuffer.length < 2 ^ 63 := by
    rw [isizeMax] at hroom
    omega
  refine ⟨fun hready => ?_, fun vadJob hjob result hanswers => ?_, fun config' hconfig' => ?_⟩
  · obtain ⟨_, -, -, hlt, -⟩ := ActiveLiveJob.hasVadReady_iff.mp hready
    have hchecked : run.job.nextVadJobChecked = .ok run.job.nextVadJob := by
      apply ActiveLiveJob.nextVadJobChecked_eq
      intro config' hconfig' _
      obtain rfl := Option.some.inj (hconfig.symm.trans hconfig')
      exact hcursor hlt
    refine ⟨_, _, hchecked.trans (congrArg _ (ActiveLiveJob.nextVadJob_of_ready hconfig hready)), ?_⟩
    apply List.ne_nil_of_length_pos
    simp only [ActiveLiveJob.vadJobAt, List.length_drop, List.length_take]
    omega
  · obtain ⟨hstart, hlt, -⟩ := hrecording.atWorker vadJob hjob
    have hresult : result.startSample = run.job.vadProcessedSamples := hanswers.2.2.trans hstart
    have hgetD : (run.job.vadConfig.map VadConfig.windowSamples).getD 0 = config.windowSamples := by
      rw [hconfig]
      rfl
    refine ⟨run.job.handleVadResult result, ActiveLiveJob.handleVadResultChecked_eq ?_, ?_⟩
    · rw [hgetD, hresult]
      exact hcursor hlt
    · simp only [ActiveLiveJob.handleVadResult, hgetD, hresult]
      omega
  · obtain rfl := Option.some.inj (hconfig.symm.trans hconfig')
    exact ⟨_, ActiveLiveJob.segmentsChecked_eq (hrecording.positions hpos hinv.timeline) hpos hlength
      hprobs⟩

theorem RoomyStep.invariant {jobId : Nat} {header : RequestHeader} {chunkRx : ChunkReceiver}
    {events : List Event} (hpos : 1 ≤ (VadConfig.ofHeader header).windowSamples)
    (h : Run (RoomyStep maxInFlight) (start jobId header chunkRx true) events run) :
    AudioInvariant (some (VadConfig.ofHeader header)) run ∧
      4 * run.job.audioBuffer.length ≤ isizeMax ∧
      (isizeMax < (VadConfig.ofHeader header).windowSamples →
        Oversized (VadConfig.ofHeader header) run) := by
  refine h.invariant (P := fun _ run => AudioInvariant (some (VadConfig.ofHeader header)) run ∧
    4 * run.job.audioBuffer.length ≤ isizeMax ∧
    (isizeMax < (VadConfig.ofHeader header).windowSamples →
      Oversized (VadConfig.ofHeader header) run)) ?_ ?_
  · refine ⟨AudioInvariant.start jobId header chunkRx true, Nat.zero_le _, fun hlarge => ?_⟩
    exact ⟨hpos, .inl rfl, nofun⟩
  · rintro _ state event next ⟨hinv, -, hoversized⟩ ⟨hstep, hroom⟩
    have haudio := audioStep hstep
    refine ⟨hinv.step (fun config hconfig => ?_) haudio, hroom, fun hlarge => ?_⟩
    · obtain rfl := Option.some.inj hconfig
      exact hpos
    · exact (hoversized hlarge).step hinv haudio (by omega)

theorem windowSamples_lt (header : RequestHeader) :
    (VadConfig.ofHeader header).windowSamples < 2 ^ 64 := by
  simp only [VadConfig.ofHeader]
  cases header.vadWindowSamples with
  | none => decide
  | some windowSamples => exact windowSamples.toNat_lt

/-! ### A window of no samples -/

/-- One sample arrives and is taken in. -/
def oneSample : List Event := [.arrive (.ok { samples := [F32.ofNat 0] }), .drain]

/-- The run of a job with an empty window to the state in which it asks for VAD. -/
theorem exists_stalled {header : RequestHeader}
    (hzero : (VadConfig.ofHeader header).windowSamples = 0) : ∃ run,
      Run (RoomyStep 1) (start 0 header {} true) oneSample run ∧ ¬ VadProgresses run := by
  have hready : ∀ run : LiveRun, run.job.vadConfig = some (VadConfig.ofHeader header) →
      run.job.vadInFlight = false → run.job.audioBuffer = [F32.ofNat 0] →
      run.job.vadProcessedSamples = 0 → ¬ VadProgresses run := by
    intro run hconfig hidle hbuffer hprocessed hprogress
    have hvad : run.job.hasVadReady = true := by
      rw [ActiveLiveJob.hasVadReady_iff]
      refine ⟨_, hconfig, hidle, ?_, .inl ?_⟩
      · rw [hbuffer, hprocessed]
        decide
      · rw [hbuffer, hprocessed, hzero]
        decide
    obtain ⟨vadJob, job, hnext, hsamples⟩ := hprogress.window hvad
    have hchecked : run.job.nextVadJobChecked = .ok run.job.nextVadJob := by
      apply ActiveLiveJob.nextVadJobChecked_eq
      intro config hconfig' _
      obtain rfl := Option.some.inj (hconfig.symm.trans hconfig')
      rw [hprocessed, hzero]
      decide
    rw [hchecked, ActiveLiveJob.nextVadJob_of_ready hconfig hvad] at hnext
    have hjob := Option.some.inj (congrArg Prod.fst (Except.ok.inj hnext))
    apply hsamples
    rw [← hjob]
    simp only [ActiveLiveJob.vadJobAt, hprocessed, hzero, Nat.zero_add, Nat.zero_min, List.take_zero,
      List.drop_nil]
  refine ⟨_, .snoc (.single ⟨rfl, ?_⟩) ⟨rfl, ?_⟩, hready _ rfl rfl rfl rfl⟩
  · exact (by decide : 4 * 1 ≤ isizeMax)
  · exact Nat.zero_le isizeMax

theorem windowSamples_eq_zero {hello : ClientHello} (hzero : hello.vad.windowSamples = some 0) :
    (VadConfig.ofHeader (requestHeaderFromHello hello)).windowSamples = 0 := by
  simp only [VadConfig.ofHeader, requestHeaderFromHello, hzero]
  rfl

/-- **VAD goes on in every run of the job of a hello, if and only if the hello does not ask for a
window of no samples.** -/
theorem vadProgresses_iff (hello : ClientHello) :
    (∀ maxInFlight jobId chunkRx events run,
      Run (RoomyStep maxInFlight) (start jobId (requestHeaderFromHello hello) chunkRx true) events
        run → VadProgresses run) ↔ hello.vad.windowSamples ≠ some 0 := by
  constructor
  · intro hall hzero
    obtain ⟨run, hrun, hstalled⟩ := exists_stalled (windowSamples_eq_zero hzero)
    exact hstalled (hall 1 0 {} oneSample run hrun)
  · intro hne maxInFlight jobId chunkRx events run hrun
    have hpos : 1 ≤ (VadConfig.ofHeader (requestHeaderFromHello hello)).windowSamples := by
      simp only [VadConfig.ofHeader, requestHeaderFromHello]
      cases hwindow : hello.vad.windowSamples with
      | none => decide
      | some windowSamples =>
          rw [hwindow] at hne
          have hnat : windowSamples.toNat ≠ 0 := fun hnat =>
            hne (congrArg some (UInt64.toNat_inj.mp hnat))
          exact Nat.pos_of_ne_zero hnat
    obtain ⟨hinv, hroom, hoversized⟩ := RoomyStep.invariant hpos hrun
    exact vadProgresses_of_invariant hinv hpos (windowSamples_lt _) hroom hoversized

/-- A hello that is decoded and accepted: model `m`, and a window of no samples. -/
def emptyWindowHello : Bytes := [10, 1, 109, 82, 2, 40, 0]

theorem not_vadProgresses_emptyWindowHello :
    ¬ ∀ bytes hello, decodeClientHello bytes = .ok hello → validateClientHello hello = .ok () →
      ∀ maxInFlight jobId chunkRx events run,
        Run (RoomyStep maxInFlight) (start jobId (requestHeaderFromHello hello) chunkRx true) events
          run → VadProgresses run := by
  intro hall
  have hdecode : ((decodeClientHello emptyWindowHello).toOption.map fun hello =>
      (hello.vad.windowSamples, (validateClientHello hello).toOption)) =
        some (some 0, some ()) := by
    decide +kernel
  cases hhello : decodeClientHello emptyWindowHello with
  | error error => simp [hhello, Except.toOption] at hdecode
  | ok hello =>
      rw [hhello] at hdecode
      obtain ⟨hzero, hvalid⟩ := Prod.mk.inj (Option.some.inj hdecode)
      have haccepted : validateClientHello hello = .ok () := by
        cases hresult : validateClientHello hello with
        | error error => simp [hresult, Except.toOption] at hvalid
        | ok accepted => rfl
      obtain ⟨run, hrun, hstalled⟩ := exists_stalled (windowSamples_eq_zero hzero)
      exact hstalled (hall emptyWindowHello hello hhello haccepted 1 0 {} oneSample run hrun)

end LiveRun

end RkWhisper
