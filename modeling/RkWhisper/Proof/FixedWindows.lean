import RkWhisper.Proof.Delivery
import RkWhisper.Proof.Timeline
import RkWhisper.Windows

/-!
# Without VAD the live windows are the fixed ones

A job without VAD is cut at every thirty seconds, and once more when it is closed. However late it is
cut, the pieces are those the offline driver would cut.
-/

namespace RkWhisper

open Segmentation Transition

/-- The job a worker gets for a window of the whole recording. -/
def AudioWindow.liveJob (window : AudioWindow) (jobId : Nat) (audio : List F32)
    (options : TranscribeOptions) : WhisperJob :=
  { jobId
    windowIndex := window.index
    absoluteStartSec := samplesToSec window.startSample
    startSample := 0
    endSample := (window.samples audio).length
    samples := window.samples audio
    options }

theorem length_fixedAudioWindows (audioLen : Nat) :
    (fixedAudioWindows audioLen).length = Stride.count nSamples audioLen := by
  rw [fixedAudioWindows, List.length_map, List.length_zipIdx, Stride.length_starts]

theorem getElem?_fixedAudioWindows {audioLen i : Nat} (h : i < Stride.count nSamples audioLen) :
    (fixedAudioWindows audioLen)[i]? = some
      { index := i
        startSample := (Stride.piece nSamples audioLen i).1
        endSample := (Stride.piece nSamples audioLen i).2 } := by
  rw [fixedAudioWindows, List.getElem?_map, List.getElem?_zipIdx, Stride.starts, List.getElem?_map,
    List.getElem?_range h]
  simp [Stride.piece]

namespace LiveRun

variable {maxInFlight : Nat} {run run' : LiveRun} {event : Event}

/-- The windows dispatched are the first pieces of the stream, and the offset is where the next
begins. Only the last piece of a closed stream may be shorter. -/
structure Striding (run : LiveRun) : Prop where
  intervals : run.dispatched.map DispatchedWindow.interval =
    (List.range run.dispatched.length).map (Stride.piece nSamples run.accepted.length)
  offset : run.job.absoluteOffsetSamples =
    min (run.dispatched.length * nSamples) run.accepted.length
  whole : run.dispatched.length * nSamples ≤ run.accepted.length ∨ run.job.producerClosed = true
  jobs : ∀ window ∈ run.dispatched, window.whisperJob.startSample = 0 ∧
    window.whisperJob.endSample = window.whisperJob.samples.length

theorem Striding.start (jobId : Nat) (header : RequestHeader) (chunkRx : ChunkReceiver)
    (vadEnabled : Bool) : Striding (start jobId header chunkRx vadEnabled) where
  intervals := rfl
  offset := by
    simp only [LiveRun.start, ActiveLiveJob.new, List.length_nil]
    omega
  whole := by simp [LiveRun.start]
  jobs := by simp [LiveRun.start]

theorem Striding.congr (hsame : SameAudio run run') (h : Striding run) : Striding run' where
  intervals := by
    rw [hsame.dispatched, hsame.accepted]
    exact h.intervals
  offset := by
    rw [hsame.dispatched, hsame.accepted, hsame.offset]
    exact h.offset
  whole := by
    rw [hsame.dispatched, hsame.accepted, hsame.producerClosed]
    exact h.whole
  jobs := by
    rw [hsame.dispatched]
    exact h.jobs

theorem Striding.accept (h : Striding run) (samples : List F32) (closed : Bool)
    (hclosed : run.job.producerClosed = true → samples = [] ∧ closed = true) :
    Striding (run.accept samples closed) := by
  obtain hwhole | hold := h.whole
  · have hpos : 0 < nSamples := by decide
    refine ⟨?_, ?_, .inl ?_, h.jobs⟩
    · rw [LiveRun.accept, h.intervals, List.length_append]
      apply List.map_congr_left
      intro i hi
      rw [List.mem_range] at hi
      have hinside : (i + 1) * nSamples ≤ run.dispatched.length * nSamples :=
        Nat.mul_le_mul_right _ hi
      rw [Nat.add_mul, Nat.one_mul] at hinside
      exact (Stride.piece_of_le (hinside.trans hwhole)).symm
    · have hoffset := h.offset
      simp only [LiveRun.accept, List.length_append]
      omega
    · simp only [LiveRun.accept, List.length_append]
      omega
  · obtain ⟨rfl, rfl⟩ := hclosed hold
    have hsame : run.accepted ++ [] = run.accepted := List.append_nil _
    exact ⟨by rw [LiveRun.accept, hsame]; exact h.intervals,
      by rw [LiveRun.accept, hsame]; exact h.offset, .inr rfl, h.jobs⟩

/-- What a job without VAD dispatches is the next piece. -/
theorem piece_of_plan (htime : Timeline run) (h : Striding run) (hoff : run.job.vadConfig = none)
    {plan : DispatchPlan} (hplan : run.job.nextDispatchPlan = some plan) :
    (run.window plan).interval =
        Stride.piece nSamples run.accepted.length run.dispatched.length ∧
      run.dispatched.length * nSamples < run.accepted.length ∧
      (run.dispatched.length * nSamples + nSamples ≤ run.accepted.length ∨
        run.job.producerClosed = true) := by
  have hlength := htime.length_eq
  have hoffset := h.offset
  have hlimit : nSamples = 480000 := rfl
  obtain ⟨hstart, hend, hpos⟩ := ActiveLiveJob.nextDispatchPlan_of_vad_off hoff hplan
  have hready : 480000 ≤ run.job.audioBuffer.length ∨ run.job.producerClosed = true := by
    rw [ActiveLiveJob.nextDispatchPlan, hoff] at hplan
    by_contra hnot
    push Not at hnot
    simp [not_le.mpr hnot.1, hnot.2] at hplan
  have hbegin : run.job.absoluteOffsetSamples = run.dispatched.length * nSamples := by omega
  refine ⟨?_, by omega, hready.imp_left (by omega)⟩
  simp only [window, DispatchedWindow.interval, Stride.piece, hstart, hend, hbegin]
  rw [Prod.mk.injEq]
  constructor <;> omega

theorem Striding.cut (htime : Timeline run) (h : Striding run) (hoff : run.job.vadConfig = none)
    {plan : DispatchPlan} (hplan : run.job.nextDispatchPlan = some plan) :
    Striding (run.cut plan true) := by
  obtain ⟨hpiece, hbegin, hwhole⟩ := piece_of_plan htime h hoff hplan
  have hinterval := hpiece
  simp only [window, DispatchedWindow.interval, Stride.piece, Prod.mk.injEq] at hinterval
  have hlength : (run.cut plan true).dispatched.length = run.dispatched.length + 1 := by
    simp only [LiveRun.cut, if_true, List.length_append, List.length_singleton]
  have hnext : (run.dispatched.length + 1) * nSamples = run.dispatched.length * nSamples + nSamples := by
    rw [Nat.add_mul, Nat.one_mul]
  refine ⟨?_, ?_, ?_, ?_⟩
  · rw [hlength, List.range_succ, List.map_append, List.map_singleton]
    simp only [LiveRun.cut, if_true, List.map_append, List.map_singleton, h.intervals, hpiece]
  · rw [hlength, hnext]
    exact hinterval.2
  · rw [hlength, hnext]
    exact hwhole
  · simp only [LiveRun.cut, if_true]
    exact List.forall_mem_append.mpr ⟨h.jobs, List.forall_mem_singleton.mpr ⟨rfl, rfl⟩⟩

/-- Every dispatch of the run is accepted by a worker. -/
def Sends (event : Event) : Prop := event ≠ .dispatch false

theorem Striding.step (htime : Timeline run) (h : Striding run) (hoff : run.job.vadConfig = none)
    (hsends : Sends event) (hstep : AudioStep event run run') : Striding run' := by
  cases hstep with
  | same hsame => exact h.congr hsame
  | accept samples closed hclosed hsame => exact (h.accept samples closed hclosed).congr hsame
  | clear config hsilent hsame =>
      have hconfig := hsilent.config_eq
      rw [hoff] at hconfig
      cases hconfig
  | scan config sent hconfig hready hsame =>
      rw [hoff] at hconfig
      cases hconfig
  | record vadJob result hjob hstart hsame =>
      exact Striding.congr hsame ⟨h.intervals, h.offset, h.whole, h.jobs⟩
  | cut plan sent hevent hready hidle hplan hsame =>
      cases sent with
      | false => exact absurd hevent hsends
      | true => exact (h.cut htime hoff hplan).congr hsame

theorem eq_liveJob {whisperJob : WhisperJob} {window : AudioWindow} {jobId : Nat}
    {audio : List F32} {options : TranscribeOptions}
    (hcarries : Carries audio (window.startSample, window.endSample) whisperJob)
    (howner : whisperJob.jobId = jobId) (hindex : whisperJob.windowIndex = window.index)
    (hstart : whisperJob.startSample = 0)
    (hend : whisperJob.endSample = whisperJob.samples.length)
    (hoptions : whisperJob.options = options) :
    whisperJob = window.liveJob jobId audio options := by
  obtain ⟨owner, index, absoluteStartSec, startSample, endSample, samples, _⟩ := whisperJob
  have hsamples := hcarries.samples_eq
  have hsec := hcarries.start_eq
  simp only at howner hindex hstart hend hsamples hsec hoptions
  subst howner hindex hstart hend hsamples hsec hoptions
  rfl

/-- The windows dispatched, numbered as they go out, are the first of the fixed windows. -/
theorem Striding.eq_fixedAudioWindows (h : Striding run) (hcarries : Dispatching run) {jobId : Nat}
    (howner : ∀ window ∈ run.dispatched, window.whisperJob.jobId = jobId)
    {options : TranscribeOptions}
    (hoptions : ∀ window ∈ run.dispatched, window.whisperJob.options = options) {count : Nat}
    (hindices : (run.dispatched.map fun window => window.whisperJob.windowIndex) =
      List.range count) :
    run.dispatched.length ≤ Stride.count nSamples run.accepted.length ∧
      run.dispatched.map DispatchedWindow.whisperJob =
        ((fixedAudioWindows run.accepted.length).take run.dispatched.length).map
          fun window => window.liveJob jobId run.accepted options := by
  have hinterval : ∀ i (hi : i < run.dispatched.length), run.dispatched[i].interval =
      Stride.piece nSamples run.accepted.length i := by
    intro i hi
    have hentry := congrArg (·[i]?) h.intervals
    simpa [hi] using hentry
  have hcount : ∀ i < run.dispatched.length, i < Stride.count nSamples run.accepted.length := by
    intro i hi
    rw [Stride.lt_count_iff (by decide)]
    have hnonempty := (hcarries.carries _ (List.getElem_mem hi)).nonempty
    rw [hinterval i hi, Stride.piece] at hnonempty
    simp only at hnonempty
    omega
  refine ⟨le_of_forall_lt hcount, ?_⟩
  apply List.ext_getElem?
  intro i
  by_cases hi : i < run.dispatched.length
  · have hcarry := hcarries.carries _ (List.getElem_mem hi)
    obtain ⟨hstart, hend⟩ := h.jobs _ (List.getElem_mem hi)
    have howner' := howner _ (List.getElem_mem hi)
    have hindex : run.dispatched[i].whisperJob.windowIndex = i := by
      have hentry := congrArg (·[i]?) hindices
      have hlength := congrArg List.length hindices
      rw [List.length_map, List.length_range] at hlength
      simpa [hi, hlength ▸ hi] using hentry
    rw [hinterval i hi] at hcarry
    rw [List.getElem?_map, List.getElem?_map, List.getElem?_take_of_lt hi,
      getElem?_fixedAudioWindows (hcount i hi), List.getElem?_eq_getElem hi, Option.map_some,
      Option.map_some]
    have hoptions' := hoptions _ (List.getElem_mem hi)
    exact congrArg some (eq_liveJob hcarry howner' hindex hstart hend hoptions')
  · have hlength := length_fixedAudioWindows run.accepted.length
    rw [List.getElem?_eq_none (by simpa using hi), List.getElem?_eq_none]
    rw [List.length_map, List.length_take]
    omega

/-- Nothing is left to dispatch of a stream whose buffer is empty. -/
theorem Striding.all_dispatched (h : Striding run) (htime : Timeline run)
    (hempty : run.job.audioBuffer = []) :
    Stride.count nSamples run.accepted.length ≤ run.dispatched.length := by
  have hlength := htime.length_eq
  have hoffset := h.offset
  rw [hempty, List.length_nil] at hlength
  by_contra hmore
  have hbegin := (Stride.lt_count_iff (by decide)).mp (not_le.mp hmore)
  omega

/-- The windows dispatched are the first of the fixed windows. -/
theorem Striding.dispatched_eq (h : Striding run) (hcarries : Dispatching run)
    (hdelivery : Delivery maxInFlight run) :
    run.dispatched.length ≤ Stride.count nSamples run.accepted.length ∧
      run.dispatched.map DispatchedWindow.whisperJob =
        ((fixedAudioWindows run.accepted.length).take run.dispatched.length).map
          fun window => window.liveJob run.job.jobId run.accepted run.job.options :=
  h.eq_fixedAudioWindows hcarries hdelivery.owner hdelivery.options hdelivery.dispatched

/-! ### A recording of two windows -/

section TwoWindows

/-- The recording arrives in one chunk; a first window is full, a second goes out when the stream
ends, and the second is answered first. -/
def outOfOrderEvents (samples : List F32) (first second : WindowTranscription) : List Event :=
  [.arrive (.ok { samples }), .drain, .dispatch true, .hangUp, .drain, .dispatch true,
    .whisperResult second, .whisperResult first, .finish]

variable (jobId : Nat) (header : RequestHeader)

/-- A job without VAD that has accepted `samples`. -/
def holding (samples : List F32) : LiveRun :=
  { start jobId header {} false with
    job := { (start jobId header {} false).job with audioBuffer := samples }
    accepted := samples }

/-- The whole stream is in the buffer. -/
def ended (samples : List F32) : LiveRun :=
  { holding jobId header samples with
    job :=
      { (holding jobId header samples).job with
        chunkRx := { disconnected := true }
        producerClosed := true } }

/-- The first window is on its way, the stream has ended, and `rest` is left of it. -/
def firstSent (samples rest : List F32) : LiveRun :=
  { ended jobId header samples with
    job :=
      { ((ended jobId header samples).job.cut ⟨0, 480000, []⟩).countDispatch with
        audioBuffer := rest }
    awaited := [0]
    dispatched := [(ended jobId header samples).window ⟨0, 480000, []⟩] }

/-- Both windows are on their way. -/
def bothSent (samples rest : List F32) : LiveRun :=
  { firstSent jobId header samples rest with
    job :=
      { ((firstSent jobId header samples rest).job.cut ⟨0, rest.length, []⟩).countDispatch with
        audioBuffer := [] }
    awaited := [0, 1]
    dispatched := (firstSent jobId header samples rest).dispatched ++
      [(firstSent jobId header samples rest).window ⟨0, rest.length, []⟩] }

variable {jobId header} {samples rest : List F32} {first second : WindowTranscription}

theorem next_drain_of_open {run : LiveRun} (hopen : run.job.producerClosed = false)
    (hroom : run.job.inFlight < maxInFlight)
    (hchunks : ∀ error, .error error ∉ run.job.chunkRx.queue) : run.next maxInFlight .drain =
      { run with
        job :=
          { run.job with
            chunkRx := { run.job.chunkRx with queue := [] }
            audioBuffer := run.job.audioBuffer ++ audioOf run.job.chunkRx.queue
            producerClosed := run.job.chunkRx.disconnected }
        accepted := run.accepted ++ audioOf run.job.chunkRx.queue } := by
  have hdrained : run.job.drainedChunks maxInFlight = run.job.chunkRx.queue :=
    if_neg (not_or.mpr ⟨by simp [hopen], hroom.not_ge⟩)
  simp only [next, ActiveLiveJob.drainLiveChunks_of_open hopen hroom hchunks, hdrained]

/-- Nothing has come since the channel was closed. -/
theorem next_drain_of_hungUp {run : LiveRun} (hopen : run.job.producerClosed = false)
    (hroom : run.job.inFlight < maxInFlight) (hchunks : run.job.chunkRx = { disconnected := true }) :
    run.next maxInFlight .drain = { run with job := { run.job with producerClosed := true } } := by
  have hfree : ∀ error, .error error ∉ run.job.chunkRx.queue := by
    rw [hchunks]
    exact fun _ => List.not_mem_nil
  have hnone : audioOf [] = [] := rfl
  simp only [next_drain_of_open hopen hroom hfree, hchunks, hnone, List.append_nil]

/-- A job without VAD takes the chunks that have arrived before it begins. -/
theorem next_drain_start {chunkRx : ChunkReceiver} (hroom : 0 < maxInFlight)
    (hchunks : ∀ error, .error error ∉ chunkRx.queue) :
    (start jobId header chunkRx false).next maxInFlight .drain =
      { holding jobId header (audioOf chunkRx.queue) with
        job :=
          { (holding jobId header (audioOf chunkRx.queue)).job with
            chunkRx := { disconnected := chunkRx.disconnected }
            producerClosed := chunkRx.disconnected } } := by
  rw [@next_drain_of_open maxInFlight (start jobId header chunkRx false) rfl hroom hchunks]
  rfl

theorem run_holding (hroom : 0 < maxInFlight) :
    Run (Step maxInFlight) (start jobId header {} false) [.arrive (.ok { samples }), .drain]
      (holding jobId header samples) := by
  have harrive : Step maxInFlight (start jobId header {} false) (.arrive (.ok { samples })) _ := rfl
  refine .snoc (.single harrive) (step_eq_some_iff.mpr ⟨⟨rfl, trivial⟩, ?_⟩)
  have hdrain := @next_drain_start maxInFlight jobId header { queue := [.ok { samples }] } hroom
    (by simp)
  have haudio : audioOf [.ok { samples }] = samples := List.append_nil samples
  rw [haudio] at hdrain
  exact hdrain

/-- A full window at the front of the buffer. -/
theorem nextDispatchPlan_full {job : ActiveLiveJob} (hvad : job.vadConfig = none)
    (h : 480000 < job.audioBuffer.length) : job.nextDispatchPlan = some ⟨0, 480000, []⟩ := by
  rw [ActiveLiveJob.nextDispatchPlan, hvad]
  simp only
  rw [if_pos (.inl h.le), min_eq_left h.le]

theorem step_firstSent (hroom : 0 < maxInFlight) (h : 480000 < samples.length) :
    Step maxInFlight (ended jobId header samples) (.dispatch true)
      (firstSent jobId header samples (samples.drop 480000)) := by
  have hplan : (ended jobId header samples).job.nextDispatchPlan = some ⟨0, 480000, []⟩ :=
    nextDispatchPlan_full rfl h
  have hmay : (ended jobId header samples).job.mayDispatch maxInFlight = true :=
    ActiveLiveJob.mayDispatch_iff.mpr ⟨hroom, rfl, _, hplan⟩
  refine step_eq_some_iff.mpr ⟨⟨rfl, rfl, hmay⟩, ?_⟩
  simp only [next, ActiveLiveJob.dispatchToWorker_eq hplan, dispatchedNow_eq hplan]
  rfl

theorem run_firstSent (hroom : 1 < maxInFlight) (h : 480000 < samples.length) :
    Run (Step maxInFlight) (holding jobId header samples) [.dispatch true, .hangUp, .drain]
      (firstSent jobId header samples (samples.drop 480000)) := by
  have hplan : (holding jobId header samples).job.nextDispatchPlan = some ⟨0, 480000, []⟩ :=
    nextDispatchPlan_full rfl h
  have hmay : (holding jobId header samples).job.mayDispatch maxInFlight = true :=
    ActiveLiveJob.mayDispatch_iff.mpr ⟨Nat.zero_lt_of_lt hroom, rfl, _, hplan⟩
  have hdispatch : Step maxInFlight (holding jobId header samples) (.dispatch true) _ :=
    step_eq_some_iff.mpr ⟨⟨rfl, rfl, hmay⟩, rfl⟩
  have hsent : (holding jobId header samples).next maxInFlight (.dispatch true) =
      { firstSent jobId header samples (samples.drop 480000) with
        job :=
          { (firstSent jobId header samples (samples.drop 480000)).job with
            chunkRx := {}
            producerClosed := false } } := by
    simp only [next, ActiveLiveJob.dispatchToWorker_eq hplan, dispatchedNow_eq hplan]
    rfl
  have hstate : (((holding jobId header samples).next maxInFlight (.dispatch true)).next maxInFlight
      .hangUp).next maxInFlight .drain = firstSent jobId header samples (samples.drop 480000) := by
    rw [hsent, next_drain_of_hungUp rfl hroom rfl]
    rfl
  rw [← hstate]
  exact .snoc (.snoc (.single hdispatch) rfl) rfl

theorem step_bothSent (hroom : 1 < maxInFlight) (hpos : 0 < rest.length)
    (hle : rest.length ≤ 480000) :
    Step maxInFlight (firstSent jobId header samples rest) (.dispatch true)
      (bothSent jobId header samples rest) := by
  have hplan : (firstSent jobId header samples rest).job.nextDispatchPlan =
      some ⟨0, rest.length, []⟩ := by
    have hvad : (firstSent jobId header samples rest).job.vadConfig = none := rfl
    have hbuffer : (firstSent jobId header samples rest).job.audioBuffer = rest := rfl
    have hnonempty : rest.isEmpty = false := by
      rw [List.isEmpty_eq_false_iff_exists_mem]
      exact List.exists_mem_of_length_pos hpos
    rw [ActiveLiveJob.nextDispatchPlan, hvad]
    simp only [hbuffer, hnonempty]
    rw [if_pos (.inr ⟨rfl, Bool.false_ne_true⟩), min_eq_right hle]
  have hmay : (firstSent jobId header samples rest).job.mayDispatch maxInFlight = true :=
    ActiveLiveJob.mayDispatch_iff.mpr ⟨hroom, rfl, _, hplan⟩
  refine step_eq_some_iff.mpr ⟨⟨rfl, rfl, hmay⟩, ?_⟩
  simp only [next, ActiveLiveJob.dispatchToWorker_eq hplan, dispatchedNow_eq hplan]
  have hempty : rest.drop rest.length = [] := List.drop_length
  exact congrArg (fun audioBuffer => { bothSent jobId header samples rest with
    job := { (bothSent jobId header samples rest).job with audioBuffer } }) hempty

theorem step_second (hsecond : second.windowIndex = 1) :
    Step maxInFlight (bothSent jobId header samples rest) (.whisperResult second)
      ((bothSent jobId header samples rest).next maxInFlight (.whisperResult second)) := by
  have hmem : second.windowIndex ∈ [0, 1] := by
    rw [hsecond]
    decide
  exact step_eq_some_iff.mpr ⟨⟨rfl, hmem⟩, rfl⟩

theorem step_first (hsecond : second.windowIndex = 1) (hfirst : first.windowIndex = 0) :
    Step maxInFlight ((bothSent jobId header samples rest).next maxInFlight (.whisperResult second))
      (.whisperResult first) (((bothSent jobId header samples rest).next maxInFlight
        (.whisperResult second)).next maxInFlight (.whisperResult first)) := by
  have hmem : first.windowIndex ∈ [0, 1].erase second.windowIndex := by
    rw [hfirst, hsecond]
    decide
  exact step_eq_some_iff.mpr ⟨⟨rfl, hmem⟩, rfl⟩

theorem isComplete_finishIfComplete (job : ActiveLiveJob) :
    job.finishIfComplete.2.isComplete = job.isComplete := by
  unfold ActiveLiveJob.finishIfComplete
  split <;> rfl

/-- The worker of the second window is the faster one. -/
theorem run_answered (hsecond : second.windowIndex = 1) (hfirst : first.windowIndex = 0) :
    ∃ run, Run (Step maxInFlight) (bothSent jobId header samples rest)
        [.whisperResult second, .whisperResult first, .finish] run ∧
      run.accepted = samples ∧ run.job.isComplete = true := by
  have hcomplete : (((bothSent jobId header samples rest).job.handleResult second).handleResult
      first).isComplete = true := by
    obtain ⟨emitted, pending, hjob, -⟩ :=
      (bothSent jobId header samples rest).job.handleResult_spec second
    obtain ⟨emitted', pending', hjob', -⟩ := ((bothSent jobId header samples rest).job.handleResult
      second).handleResult_spec first
    rw [hjob', hjob]
    rfl
  refine ⟨_, .snoc (.snoc (.single (step_second hsecond)) (step_first hsecond hfirst))
    (step_eq_some_iff.mpr ⟨⟨rfl, hcomplete⟩, rfl⟩), rfl, ?_⟩
  exact (isComplete_finishIfComplete _).trans hcomplete

theorem run_twoWindows (hroom : 1 < maxInFlight) (hmore : 480000 < samples.length)
    (hle : samples.length ≤ 960000) (hsecond : second.windowIndex = 1)
    (hfirst : first.windowIndex = 0) :
    ∃ run, Run (Step maxInFlight) (start jobId header {} false)
        (outOfOrderEvents samples first second) run ∧
      run.accepted = samples ∧ run.job.isComplete = true := by
  have hlength : (samples.drop 480000).length = samples.length - 480000 := List.length_drop
  have hboth : Step maxInFlight (firstSent jobId header samples (samples.drop 480000))
      (.dispatch true) _ := step_bothSent hroom (by omega) (by omega)
  obtain ⟨run, hanswered, hdone⟩ := @run_answered maxInFlight jobId header samples _ _ _ hsecond hfirst
  exact ⟨run, (run_holding (Nat.zero_lt_of_lt hroom)).trans ((run_firstSent hroom hmore).trans
    ((Run.single hboth).trans hanswered)), hdone⟩

end TwoWindows

def silentAnswer (windowIndex : Nat) : WindowTranscription :=
  { windowIndex, absoluteStartSec := F32.ofNat 0, text := "", segments := [] }

/-- One sample more than a window holds. -/
def twoWindowSamples : List F32 := List.replicate 480001 (F32.ofNat 1)

theorem length_twoWindowSamples : twoWindowSamples.length = 480001 := List.length_replicate

/-! ### The windows -/

theorem striding_of_run {jobId : Nat} {header : RequestHeader} {chunkRx : ChunkReceiver}
    {events : List Event}
    (hrun : Run (Step maxInFlight) (start jobId header chunkRx false) events run)
    (hsends : ∀ event ∈ events, Sends event) : AudioInvariant none run ∧ Striding run := by
  refine hrun.invariant_of_forall (P := fun _ run => AudioInvariant none run ∧ Striding run)
    hsends ⟨AudioInvariant.start jobId header chunkRx false,
      Striding.start jobId header chunkRx false⟩ ?_
  intro _ state event next hinv hsent hstep
  have haudioStep := audioStep hstep
  exact ⟨hinv.1.step (by simp) haudioStep,
    hinv.2.step hinv.1.timeline hinv.1.vadConfig hsent haudioStep⟩

/-- The jobs dispatched, by their number. -/
theorem dispatched_eq_take {jobId : Nat} {header : RequestHeader} {chunkRx : ChunkReceiver}
    {events : List Event}
    (hrun : Run (Step maxInFlight) (start jobId header chunkRx false) events run)
    (hsends : ∀ event ∈ events, Sends event) :
    run.dispatched.map DispatchedWindow.whisperJob =
      ((fixedAudioWindows run.accepted.length).take run.dispatched.length).map
        fun window => window.liveJob run.job.jobId run.accepted (.ofHeader header) := by
  obtain ⟨haudio, hstriding⟩ := striding_of_run hrun hsends
  obtain ⟨-, hdispatched⟩ := hstriding.dispatched_eq haudio.dispatching (.of_run hrun)
  rwa [options_of_run hrun] at hdispatched

/-- The offset of a complete job has reached the end, so that no fixed window is left. -/
theorem dispatched_of_complete {jobId : Nat} {header : RequestHeader} {chunkRx : ChunkReceiver}
    {events : List Event}
    (hrun : Run (Step maxInFlight) (start jobId header chunkRx false) events run)
    (hsends : ∀ event ∈ events, Sends event) (hcomplete : run.job.isComplete = true) :
    run.dispatched.map DispatchedWindow.whisperJob =
      (fixedAudioWindows run.accepted.length).map
        fun window => window.liveJob run.job.jobId run.accepted (.ofHeader header) := by
  obtain ⟨haudio, hstriding⟩ := striding_of_run hrun hsends
  have hempty : run.job.audioBuffer = [] := by
    simp only [ActiveLiveJob.isComplete, Bool.and_eq_true, List.isEmpty_iff] at hcomplete
    exact hcomplete.1.1.2
  rw [dispatched_eq_take hrun hsends, List.take_of_length_le]
  rw [length_fixedAudioWindows]
  exact hstriding.all_dispatched haudio.timeline hempty

/-- **Without VAD, live windowing is offline windowing.** The jobs dispatched are at every time the
first of those for the fixed windows, and when the job is complete they are all of them. -/
theorem dispatched_eq_fixedAudioWindows {jobId : Nat} {header : RequestHeader}
    {chunkRx : ChunkReceiver} {events : List Event}
    (hrun : Run (Step maxInFlight) (start jobId header chunkRx false) events run)
    (hsends : ∀ event ∈ events, Sends event) :
    (∃ count, run.dispatched.map DispatchedWindow.whisperJob =
      ((fixedAudioWindows run.accepted.length).take count).map
        fun window => window.liveJob run.job.jobId run.accepted (.ofHeader header)) ∧
      (run.job.isComplete = true → run.dispatched.map DispatchedWindow.whisperJob =
        (fixedAudioWindows run.accepted.length).map
          fun window => window.liveJob run.job.jobId run.accepted (.ofHeader header)) :=
  ⟨⟨_, dispatched_eq_take hrun hsends⟩, dispatched_of_complete hrun hsends⟩

theorem dispatched_eq_fixedAudioWindows_two : ∃ run,
    Run (Step 3) (start 7 {} {} false)
        (outOfOrderEvents twoWindowSamples (silentAnswer 0) (silentAnswer 1)) run ∧
      run.accepted.length = 480001 ∧
      run.dispatched.map DispatchedWindow.whisperJob =
        (fixedAudioWindows run.accepted.length).map
          fun window => window.liveJob run.job.jobId run.accepted (.ofHeader {}) := by
  have hlength := length_twoWindowSamples
  obtain ⟨run, hrun, haccepted, hcomplete⟩ :=
    @run_twoWindows 3 7 {} twoWindowSamples (silentAnswer 0) (silentAnswer 1) (by decide) (by omega)
      (by omega) rfl rfl
  have hsends : ∀ event ∈ outOfOrderEvents twoWindowSamples (silentAnswer 0) (silentAnswer 1),
      Sends event := by
    simp [outOfOrderEvents, Sends]
  exact ⟨run, hrun, haccepted ▸ hlength,
    (dispatched_eq_fixedAudioWindows hrun hsends).2 hcomplete⟩

end LiveRun

end RkWhisper
