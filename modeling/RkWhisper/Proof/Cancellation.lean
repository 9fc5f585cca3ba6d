import RkWhisper.Lib.Resegmentation
import RkWhisper.Proof.LiveSession
import RkWhisper.Proof.Progress

/-!
# What a cancellation stops

The signal ends the reader, and with it the audio: what the reader had not sent is dropped. The
scheduler sees no more than the end of the channel, as after the last chunk of a whole stream, and so
the audio that the job holds by then is transcribed before the client hears of the cancellation.
-/

namespace RkWhisper

open Segmentation Transition

namespace LiveRun

variable {maxInFlight : Nat} {config : VadConfig} {run run' : LiveRun} {event : Event}

/-! ### VAD windows of no samples -/

/-- With VAD windows of no samples VAD stays where it is, and nothing is dispatched. -/
structure Halted (config : VadConfig) (run : LiveRun) : Prop where
  vadConfig : run.job.vadConfig = some config
  timeline : Timeline run
  slot : VadSlot run
  processed : run.job.vadProcessedSamples = 0
  probs : run.job.audioBuffer = [] → run.job.probs = []
  atWorker : ∀ vadJob, run.vadJob = some vadJob →
    vadJob.startSample = 0 ∧ run.job.audioBuffer ≠ []
  dispatched : run.dispatched = []

theorem Halted.congr (hsame : SameAudio run run') (h : Halted config run) : Halted config run' where
  vadConfig := hsame.vadConfig.trans h.vadConfig
  timeline := h.timeline.congr hsame
  slot := h.slot.congr hsame
  processed := hsame.processed.trans h.processed
  probs := by
    rw [hsame.audioBuffer, hsame.probs]
    exact h.probs
  atWorker := by
    rw [hsame.vadJob, hsame.audioBuffer]
    exact h.atWorker
  dispatched := hsame.dispatched.trans h.dispatched

/-- An empty buffer has no speech in it. -/
theorem Halted.nextDispatchPlan (h : Halted config run) (hready : run.job.hasVadReady = false)
    (hidle : run.job.vadInFlight = false) (hzero : config.windowSamples = 0) :
    run.job.nextDispatchPlan = none := by
  have hbuffer : run.job.audioBuffer = [] := by
    by_contra hne
    have hsome : run.job.hasVadReady = true := by
      rw [ActiveLiveJob.hasVadReady_iff]
      refine ⟨config, h.vadConfig, hidle, ?_, .inl ?_⟩
      · rw [h.processed]
        exact List.length_pos_iff.mpr hne
      · rw [h.processed, hzero]
        exact Nat.zero_le _
    rw [hready] at hsome
    cases hsome
  have hsegments : run.job.segments config = [] := by
    rw [ActiveLiveJob.segments, h.probs hbuffer, hbuffer]
    rfl
  simp only [ActiveLiveJob.nextDispatchPlan, h.vadConfig, hsegments]

theorem Halted.step (h : Halted config run) (hzero : config.windowSamples = 0)
    (hstep : AudioStep event run run') : Halted config run' := by
  have hnoPlan : ∀ plan, run.job.hasVadReady = false → run.job.vadInFlight = false →
      run.job.nextDispatchPlan ≠ some plan := by
    intro plan hready hidle hplan
    rw [h.nextDispatchPlan hready hidle hzero] at hplan
    cases hplan
  have htimeline : Timeline run' := h.timeline.step
    (fun plan hready hidle hplan => absurd hplan (hnoPlan plan hready hidle)) hstep
  have hslot := h.slot.step hstep
  have hconfig := hstep.vadConfig_eq.trans h.vadConfig
  cases hstep with
  | same hsame => exact h.congr hsame
  | accept samples closed hclosed hsame =>
      refine ⟨hconfig, htimeline, hslot, hsame.processed.trans h.processed, ?_, ?_,
        hsame.dispatched.trans h.dispatched⟩
      · rw [hsame.audioBuffer, hsame.probs]
        exact fun hempty => h.probs (List.append_eq_nil_iff.mp hempty).1
      · rw [hsame.vadJob, hsame.audioBuffer]
        intro vadJob hjob
        obtain ⟨hstart, hne⟩ := h.atWorker vadJob hjob
        exact ⟨hstart, List.append_ne_nil_of_left_ne_nil hne samples⟩
  | clear other hsilent hsame =>
      have hscanned := hsilent.scanned
      rw [h.processed, Nat.le_zero] at hscanned
      exact absurd (List.length_eq_zero_iff.mp hscanned) hsilent.nonempty
  | scan other sent _ hready hsame =>
      refine ⟨hconfig, htimeline, hslot, hsame.processed.trans h.processed, ?_, ?_,
        hsame.dispatched.trans h.dispatched⟩
      · rw [hsame.audioBuffer, hsame.probs]
        exact h.probs
      · rw [hsame.vadJob, hsame.audioBuffer]
        intro vadJob hjob
        obtain ⟨-, -, -, hlt, -⟩ := ActiveLiveJob.hasVadReady_iff.mp hready
        obtain ⟨-, rfl⟩ := Option.ite_some_none_eq_some.mp hjob
        exact ⟨h.processed, List.length_pos_iff.mp (Nat.zero_lt_of_lt hlt)⟩
  | record vadJob result hjob hstart hsame =>
      obtain ⟨hzeroStart, hne⟩ := h.atWorker vadJob hjob
      refine ⟨hconfig, htimeline, hslot, ?_, ?_, ?_, hsame.dispatched.trans h.dispatched⟩
      · rw [hsame.processed]
        simp only [record, ActiveLiveJob.handleVadResult, h.vadConfig, Option.map_some,
          Option.getD_some, hzero, hstart, hzeroStart, Nat.add_zero, Nat.zero_min]
      · rw [hsame.audioBuffer]
        exact fun hempty => absurd hempty hne
      · rw [hsame.vadJob]
        intro other hother
        cases hother
  | cut plan sent _ hready hidle hplan hsame => exact absurd hplan (hnoPlan plan hready hidle)

/-- What is known of the timeline of a job does not depend on the length of its VAD windows. -/
theorem timeline_of_run {jobId : Nat} {header : RequestHeader} {chunkRx : ChunkReceiver}
    {vadEnabled : Bool} {events : List Event}
    (h : Run (Step maxInFlight) (start jobId header chunkRx vadEnabled) events run) :
    Timeline run ∧ Dispatching run := by
  by_cases hwindow : vadEnabled = true → 1 ≤ (VadConfig.ofHeader header).windowSamples
  · have hinv := audioInvariant hwindow h
    exact ⟨hinv.timeline, hinv.dispatching⟩
  · obtain ⟨rfl, hzero⟩ := Classical.not_imp.mp hwindow
    rw [Nat.not_le, Nat.lt_one_iff] at hzero
    have hhalted : Halted (VadConfig.ofHeader header) run := by
      refine h.invariant (P := fun _ run => Halted (VadConfig.ofHeader header) run) ?_
        fun _ _ _ _ hinv hstep => hinv.step hzero (audioStep hstep)
      refine ⟨rfl, ⟨le_rfl, rfl⟩, rfl, rfl, fun _ => rfl, ?_, rfl⟩
      intro vadJob hjob
      cases hjob
    refine ⟨hhalted.timeline, ?_, ?_, ?_⟩
    · rw [hhalted.dispatched]
      trivial
    all_goals
      rw [hhalted.dispatched]
      exact List.forall_mem_nil _

/-! ### After the channel is closed -/

/-- A closed job takes nothing more in, and cuts its windows off the front of its buffer. -/
structure Draws (run run' : LiveRun) : Prop where
  closed : run'.job.producerClosed = true
  accepted : run'.accepted = run.accepted
  offset_le : run.job.absoluteOffsetSamples ≤ run'.job.absoluteOffsetSamples
  windows : ∃ windows, run'.dispatched = run.dispatched ++ windows ∧
    ∀ window ∈ windows, run.job.absoluteOffsetSamples ≤ window.startSample

theorem Draws.refl (hclosed : run.job.producerClosed = true) : Draws run run :=
  ⟨hclosed, rfl, le_rfl, [], (List.append_nil _).symm, List.forall_mem_nil _⟩

theorem Draws.trans {run'' : LiveRun} (h : Draws run run') (h' : Draws run' run'') :
    Draws run run'' := by
  obtain ⟨windows, hwindows, hbehind⟩ := h.windows
  obtain ⟨more, hmore, hrest⟩ := h'.windows
  refine ⟨h'.closed, h'.accepted.trans h.accepted, h.offset_le.trans h'.offset_le,
    windows ++ more, ?_, ?_⟩
  · rw [hmore, hwindows, List.append_assoc]
  · exact List.forall_mem_append.mpr
      ⟨hbehind, fun window hmem => h.offset_le.trans (hrest window hmem)⟩

theorem draws_of_step (hclosed : run.job.producerClosed = true)
    (hstep : Step maxInFlight run event run') : Draws run run' := by
  have hclosed' := producerClosed_of_step hstep hclosed
  cases audioStep hstep with
  | same h =>
      exact ⟨hclosed', h.accepted, h.offset.ge, [], by simp [h.dispatched], List.forall_mem_nil _⟩
  | accept samples closed hempty h =>
      exact ⟨hclosed', by simp [h.accepted, accept, (hempty hclosed).1], h.offset.ge, [],
        by simp [h.dispatched, accept], List.forall_mem_nil _⟩
  | clear config hsilent h =>
      refine ⟨hclosed', h.accepted, ?_, [], by simp [h.dispatched, clear], List.forall_mem_nil _⟩
      rw [h.offset]
      exact Nat.le_add_right _ _
  | scan config sent hconfig hready h =>
      exact ⟨hclosed', h.accepted, h.offset.ge, [], by simp [h.dispatched, scan],
        List.forall_mem_nil _⟩
  | record vadJob result hjob hstart h =>
      exact ⟨hclosed', h.accepted, h.offset.ge, [], by simp [h.dispatched, record],
        List.forall_mem_nil _⟩
  | cut plan sent hevent hready hidle hplan h =>
      refine ⟨hclosed', h.accepted, ?_, if sent then [run.window plan] else [], h.dispatched, ?_⟩
      · rw [h.offset]
        exact Nat.le_add_right _ _
      · cases sent with
        | false => exact List.forall_mem_nil _
        | true => exact List.forall_mem_singleton.mpr (Nat.le_add_right _ _)

theorem draws_of_run {events : List Event} (hclosed : run.job.producerClosed = true)
    (h : Run (Step maxInFlight) run events run') : Draws run run' :=
  h.invariant (P := fun _ run' => Draws run run') (.refl hclosed)
    fun _ _ _ _ hinv hstep => hinv.trans (draws_of_step hinv.closed hstep)

/-- The job carries this piece of the buffer. -/
structure CutOut (buffer : List F32) (interval : Interval) (whisperJob : WhisperJob) : Prop where
  inside : interval.2 ≤ buffer.length
  samples_eq : whisperJob.samples = (buffer.take interval.2).drop interval.1

/-- What a closed job still dispatches are pieces of the buffer it had, none of them empty, each
behind the one before; what is left of the buffer lies behind the last of them. -/
structure UsesUp (run run' : LiveRun) : Prop where
  closed : run'.job.producerClosed = true
  accepted : run'.accepted = run.accepted
  windows : ∃ windows intervals rest, run'.dispatched = run.dispatched ++ windows ∧
    List.Forall₂ (CutOut run.job.audioBuffer) intervals
      (windows.map DispatchedWindow.whisperJob) ∧
    Follow 0 intervals ∧ (∀ interval ∈ intervals, interval.2 ≤ rest) ∧
    run'.job.audioBuffer = run.job.audioBuffer.drop rest

/-- A piece of the stream behind the offset is a piece of the buffer. -/
theorem Carries.cutOut {interval : Interval} {whisperJob : WhisperJob} (htime : Timeline run)
    (h : Carries run.accepted interval whisperJob)
    (hbehind : run.job.absoluteOffsetSamples ≤ interval.1) : CutOut run.job.audioBuffer
      (moveBack run.job.absoluteOffsetSamples interval) whisperJob := by
  have hne := h.nonempty
  have hinside := h.inside
  have hlength := htime.length_eq
  constructor
  · simp only [moveBack]
    omega
  · have hstop : run.job.absoluteOffsetSamples +
        (interval.2 - run.job.absoluteOffsetSamples) = interval.2 := by omega
    have hstart : run.job.absoluteOffsetSamples +
        (interval.1 - run.job.absoluteOffsetSamples) = interval.1 := by omega
    rw [h.samples_eq, htime.buffer]
    simp only [moveBack]
    rw [List.take_drop, List.drop_drop, hstop, hstart]

theorem Draws.usesUp (h : Draws run run') (hbefore : Timeline run) (hafter : Timeline run')
    (hdispatching : Dispatching run') : UsesUp run run' := by
  obtain ⟨windows, hwindows, hbehind⟩ := h.windows
  refine ⟨h.closed, h.accepted, windows,
    windows.map fun window => moveBack run.job.absoluteOffsetSamples window.interval,
    run'.job.absoluteOffsetSamples - run.job.absoluteOffsetSamples, hwindows, ?_, ?_, ?_, ?_⟩
  · rw [List.forall₂_map_left_iff, List.forall₂_map_right_iff, List.forall₂_same]
    intro window hmem
    have hcarries := hdispatching.carries window
      (hwindows ▸ List.mem_append_right _ hmem)
    rw [h.accepted] at hcarries
    exact hcarries.cutOut hbefore (hbehind window hmem)
  · have hfollow := hdispatching.follow
    rw [hwindows, List.map_append] at hfollow
    have hraised : Follow run.job.absoluteOffsetSamples (windows.map DispatchedWindow.interval) := by
      apply hfollow.of_append.raise
      intro interval hmem
      obtain ⟨window, hwindow, rfl⟩ := List.mem_map.mp hmem
      exact hbehind window hwindow
    have hmoved := hraised.moveBack le_rfl
    rwa [Nat.sub_self, List.map_map] at hmoved
  · intro interval hmem
    obtain ⟨window, hwindow, rfl⟩ := List.mem_map.mp hmem
    exact Nat.sub_le_sub_right (hdispatching.stop_le window
      (hwindows ▸ List.mem_append_right _ hwindow)) _
  · rw [hafter.buffer, h.accepted, hbefore.buffer, List.drop_drop,
      Nat.add_sub_cancel' h.offset_le]

theorem responseTx_run {events : List Event} (h : Run (Step maxInFlight) run events run') :
    run.job.responseTx <+: run'.job.responseTx :=
  h.invariant (P := fun _ run' => run.job.responseTx <+: run'.job.responseTx) List.prefix_rfl
    fun _ _ _ _ hinv hstep => hinv.trans (responseTx_step hstep)

end LiveRun

namespace LiveSession

variable {config : SessionConfig} {s s' : LiveSession}

/-! ### The responses on their way out -/

/-- What lies between the scheduler and the socket. -/
def outbox (s : LiveSession) : List JobResponse × WriterPhase × List Response :=
  (s.responseRx, s.writer, s.written)

theorem outbox_moveReader (s : LiveSession) (phase : ReaderPhase) :
    (s.moveReader config phase).outbox = s.outbox := by
  cases phase <;> rfl

theorem outbox_sendChunk {reader : LiveReader} {chunk : Bytes}
    (hstep : s.sendChunk config reader chunk = some s') : s'.outbox = s.outbox := by
  unfold LiveSession.sendChunk at hstep
  split at hstep
  · obtain rfl := Option.some.inj hstep
    rfl
  · split at hstep
    · obtain rfl := Option.some.inj hstep
      rfl
    · split at hstep
      · obtain rfl := Option.some.inj hstep
        rfl
      · cases hstep

theorem outbox_takeSignal {signal : UInt8} (hstep : s.takeSignal config signal = some s') :
    s'.outbox = s.outbox := by
  unfold LiveSession.takeSignal at hstep
  split at hstep
  split at hstep
  · split at hstep
    · obtain rfl := Option.some.inj hstep
      exact outbox_moveReader _ _
    · split at hstep
      · obtain rfl := Option.some.inj hstep
        exact outbox_moveReader _ _
      · cases hstep
  · obtain rfl := Option.some.inj hstep
    exact outbox_moveReader _ _

theorem outbox_readerStep (hstep : s.readerStep config = some s') : s'.outbox = s.outbox := by
  unfold LiveSession.readerStep at hstep
  split at hstep
  · split at hstep
    · split at hstep
      · obtain rfl := Option.some.inj hstep
        exact outbox_moveReader _ _
      · cases hstep
    · rw [outbox_takeSignal hstep]
      rfl
  · obtain rfl := Option.some.inj hstep
    exact outbox_moveReader _ _
  · simp only [LiveSession.flushStep] at hstep
    split at hstep
    · exact outbox_sendChunk hstep
    · split at hstep
      · exact outbox_sendChunk hstep
      · obtain rfl := Option.some.inj hstep
        exact outbox_moveReader _ _
  · cases hstep

theorem outbox_clientStep {action : ClientAction} (hstep : s.clientStep config action = some s') :
    s'.outbox = s.outbox := by
  obtain ⟨ring, toDaemon, toClient, clientClosed, rfl⟩ := clientStep_frame hstep
  rfl

theorem outbox_removeCompleted (s : LiveSession) (loop : LoopPhase) :
    (s.removeCompleted config loop).outbox = s.outbox := by
  unfold removeCompleted
  split <;> rfl

/-- Every response in the outbox is one the job has sent; a cancellation is written for a job that
has finished, with its numbers. -/
structure Reports (s : LiveSession) : Prop where
  received : ∀ response ∈ s.responseRx, response ∈ s.run.job.responseTx
  joining : ∀ result, s.writer = .joining result → .finished result ∈ s.run.job.responseTx
  cancelled : ∀ audioS rtf dispatched completed,
    .cancelled audioS rtf dispatched completed ∈ s.written → ∃ stats : LiveTranscriptionStats,
      .finished (.ok stats) ∈ s.run.job.responseTx ∧
        dispatched = UInt64.ofNat stats.windowsDispatched ∧
        completed = UInt64.ofNat stats.windowsCompleted

theorem Reports.keep (h : s.Reports) (hsent : s.run.job.responseTx <+: s'.run.job.responseTx)
    (houtbox : s'.outbox = s.outbox) : s'.Reports := by
  simp only [outbox, Prod.mk.injEq] at houtbox
  obtain ⟨hresponseRx, hwriter, hwritten⟩ := houtbox
  constructor
  · rw [hresponseRx]
    exact fun response hmem => hsent.subset (h.received response hmem)
  · rw [hwriter]
    exact fun result hresult => hsent.subset (h.joining result hresult)
  · rw [hwritten]
    intro audioS rtf dispatched completed hmem
    obtain ⟨stats, hfinished, hcounts⟩ := h.cancelled audioS rtf dispatched completed hmem
    exact ⟨stats, hsent.subset hfinished, hcounts⟩

theorem Reports.startWrite (h : s.Reports) {response : Response} (last : Bool)
    (hresponse : ∀ audioS rtf dispatched completed,
      response = .cancelled audioS rtf dispatched completed → ∃ stats : LiveTranscriptionStats,
        .finished (.ok stats) ∈ s.run.job.responseTx ∧
          dispatched = UInt64.ofNat stats.windowsDispatched ∧
          completed = UInt64.ofNat stats.windowsCompleted) :
    (s.startWrite response last).Reports := by
  unfold LiveSession.startWrite
  split
  · exact ⟨h.received, by simp, h.cancelled⟩
  · refine ⟨h.received, by simp, ?_⟩
    intro audioS rtf dispatched completed hmem
    obtain hold | hnew := List.mem_append.mp hmem
    · exact h.cancelled audioS rtf dispatched completed hold
    · exact hresponse _ _ _ _ (List.mem_singleton.mp hnew).symm

theorem Reports.handOver (h : s.Reports) (hstep : s.handOver config = some s') : s'.Reports := by
  unfold LiveSession.handOver at hstep
  split at hstep
  · cases hstep
  · rename_i response rest hpending
    split at hstep
    · obtain rfl := Option.some.inj hstep
      exact ⟨h.received, h.joining, h.cancelled⟩
    · simp only [Option.ite_none_right_eq_some, Option.some.injEq] at hstep
      obtain ⟨-, rfl⟩ := hstep
      refine ⟨?_, h.joining, h.cancelled⟩
      intro other hmem
      obtain hold | hnew := List.mem_append.mp hmem
      · exact h.received other hold
      · have hsent : response ∈ s.run.job.responseTx := by
          apply List.mem_of_mem_drop (i := s.handed)
          change response ∈ s.pending
          rw [hpending]
          exact List.mem_cons_self
        rwa [List.mem_singleton.mp hnew]

/-- The final response of a cancelled session carries the numbers of its job. -/
theorem finalResponse_eq_cancelled {factor : F32} {readResult : Except Error ReadOutcome}
    {result : Except Error LiveTranscriptionStats} {audioS rtf : F32}
    {dispatched completed : UInt64}
    (h : finalResponse factor readResult result = .cancelled audioS rtf dispatched completed) :
    ∃ stats, result = .ok stats ∧ dispatched = UInt64.ofNat stats.windowsDispatched ∧
      completed = UInt64.ofNat stats.windowsCompleted := by
  unfold finalResponse at h
  split at h
  · split at h <;> cases h
  · split at h
    · cases h
    · rename_i stats
      simp only at h
      split at h
      · cases h
      · cases h
        exact ⟨stats, rfl, rfl, rfl⟩

theorem Reports.writerStep (h : s.Reports) {factor : F32}
    (hstep : s.writerStep config factor = some s') : s'.Reports := by
  unfold LiveSession.writerStep at hstep
  split at hstep
  · split at hstep
    · rename_i result rest hqueue
      obtain rfl := Option.some.inj hstep
      have hreceived := h.received
      rw [hqueue, List.forall_mem_cons] at hreceived
      refine ⟨hreceived.2, ?_, h.cancelled⟩
      intro other hother
      obtain rfl := WriterPhase.joining.inj hother
      exact hreceived.1
    · rename_i response rest hfinished hqueue
      obtain ⟨written, hwritten, rfl⟩ := Option.map_eq_some_iff.mp hstep
      have hreceived := h.received
      rw [hqueue, List.forall_mem_cons] at hreceived
      have htaken : { s with responseRx := rest }.Reports := ⟨hreceived.2, h.joining, h.cancelled⟩
      apply htaken.startWrite false
      rintro audioS rtf dispatched completed rfl
      cases response <;> cases hwritten
    · simp only [Option.ite_none_right_eq_some, Option.some.injEq] at hstep
      obtain ⟨-, rfl⟩ := hstep
      apply h.startWrite true
      intro audioS rtf dispatched completed hsame
      cases hsame
  · split at hstep
    · obtain rfl := Option.some.inj hstep
      refine ⟨h.received, ?_, h.cancelled⟩
      intro result hresult
      simp only at hresult
      split at hresult <;> cases hresult
    · split at hstep
      · obtain rfl := Option.some.inj hstep
        exact ⟨h.received, by simp, h.cancelled⟩
      · simp only [Option.ite_none_left_eq_some, Option.some.injEq] at hstep
        obtain ⟨-, rfl⟩ := hstep
        exact ⟨h.received, by simp, h.cancelled⟩
  · rename_i result hjoining
    split at hstep
    · obtain rfl := Option.some.inj hstep
      apply h.startWrite true
      intro audioS rtf dispatched completed hsame
      obtain ⟨stats, rfl, hcounts⟩ := finalResponse_eq_cancelled hsame
      exact ⟨stats, h.joining _ hjoining, hcounts⟩
    · cases hstep
  · cases hstep

theorem Reports.step (h : s.Reports) (hattached : s.Attached) {event : Event}
    (hstep : Step config s event s') : s'.Reports := by
  obtain ⟨-, events, hrun⟩ := hattached.of_run (.single hstep)
  have hsent := LiveRun.responseTx_run hrun
  cases event with
  | client action => exact h.keep hsent (outbox_clientStep hstep)
  | reader => exact h.keep hsent (outbox_readerStep hstep)
  | scheduler event =>
      have hscheduler : s.schedulerStep config event = some s' := hstep
      unfold schedulerStep at hscheduler
      cases event with
      | handOver => exact h.handOver hscheduler
      | head =>
          simp only [Option.ite_none_right_eq_some, Option.some.injEq] at hscheduler
          obtain ⟨-, rfl⟩ := hscheduler
          exact h.keep hsent (outbox_removeCompleted _ _)
      | branch event =>
          simp only [Option.ite_none_right_eq_some, Option.map_eq_some_iff] at hscheduler
          obtain ⟨-, run, -, rfl⟩ := hscheduler
          exact h.keep hsent rfl
      | sleep =>
          simp only [Option.ite_none_right_eq_some, Option.some.injEq] at hscheduler
          obtain ⟨-, rfl⟩ := hscheduler
          exact h.keep hsent rfl
      | tail =>
          simp only [Option.ite_none_right_eq_some, Option.some.injEq] at hscheduler
          obtain ⟨-, rfl⟩ := hscheduler
          exact h.keep hsent (outbox_removeCompleted _ _)
  | writer factor => exact h.writerStep hstep

theorem reports_start (capacity : UInt64) (memory : Nat → UInt8) (jobId : Nat)
    (header : RequestHeader) (vadEnabled : Bool) :
    (start capacity memory jobId header vadEnabled).Reports where
  received := fun _ hmem => absurd hmem List.not_mem_nil
  joining := fun _ h => WriterPhase.noConfusion h
  cancelled := fun _ _ _ _ hmem => absurd hmem List.not_mem_nil

theorem reports_of_run {capacity : UInt64} {memory : Nat → UInt8} {jobId : Nat}
    {header : RequestHeader} {vadEnabled : Bool} {events : List Event}
    (hrun : Run (Step config) (start capacity memory jobId header vadEnabled) events s) :
    s.Attached ∧ s.Reports :=
  hrun.invariant (P := fun _ s => s.Attached ∧ s.Reports)
    ⟨attached_start .., reports_start ..⟩
    fun _ _ _ _ hinv hstep => ⟨(hinv.1.of_run (.single hstep)).1, hinv.2.step hinv.1 hstep⟩

theorem delivery_of_run {capacity : UInt64} {memory : Nat → UInt8} {jobId : Nat}
    {header : RequestHeader} {vadEnabled : Bool} {events : List Event}
    (hrun : Run (Step config) (start capacity memory jobId header vadEnabled) events s) :
    s.run.Delivery config.maxInFlight := by
  obtain ⟨-, more, hjob⟩ := (attached_start capacity memory jobId header vadEnabled).of_run hrun
  exact .of_run hjob

theorem timeline_of_run {capacity : UInt64} {memory : Nat → UInt8} {jobId : Nat}
    {header : RequestHeader} {vadEnabled : Bool} {events : List Event}
    (hrun : Run (Step config) (start capacity memory jobId header vadEnabled) events s) :
    LiveRun.Timeline s.run ∧ LiveRun.Dispatching s.run := by
  obtain ⟨-, more, hjob⟩ := (attached_start capacity memory jobId header vadEnabled).of_run hrun
  exact LiveRun.timeline_of_run hjob

/-! ### After the cancellation -/

/-- A reader that has returned stays as it is. -/
theorem reader_of_returned {event : Event} (hreturned : s.readerPhase.Returned)
    (hstep : Step config s event s') : s'.reader = s.reader ∧ s'.readerPhase = s.readerPhase := by
  cases event with
  | client action => exact (clientStep_run hstep).2.2
  | reader =>
      obtain ⟨result, hresult⟩ := hreturned
      have hreader : s.readerStep config = some s' := hstep
      simp only [LiveSession.readerStep, hresult] at hreader
      cases hreader
  | scheduler event =>
      have hintake := intake_schedulerStep hstep
      exact ⟨reader_of_intake hintake, readerPhase_of_intake hintake⟩
  | writer factor =>
      obtain ⟨-, -, hintake⟩ := writerStep_run hstep
      exact ⟨reader_of_intake hintake, readerPhase_of_intake hintake⟩

/-- A job whose cancellation has been written has dispatched and completed all its windows. -/
theorem Reports.finished_of_cancelled (h : s.Reports) (hdelivery : s.run.Delivery config.maxInFlight)
    {audioS rtf : F32} {dispatched completed : UInt64}
    (hmem : .cancelled audioS rtf dispatched completed ∈ s.written) :
    s.run.removed = true ∧ s.run.job.isComplete = true ∧ s.run.awaited = [] ∧
      (s.run.answers.map WindowTranscription.windowIndex).Perm
        (s.run.dispatched.map fun window => window.whisperJob.windowIndex) ∧
      dispatched = UInt64.ofNat s.run.dispatched.length ∧
      completed = UInt64.ofNat s.run.dispatched.length := by
  obtain ⟨stats, hfinished, rfl, rfl⟩ := h.cancelled audioS rtf dispatched completed hmem
  obtain ⟨hremoved, hcomplete, rfl⟩ := hdelivery.finished stats hfinished
  have hidle : s.run.job.inFlight = 0 := by
    simp only [ActiveLiveJob.isComplete, Bool.and_eq_true, beq_iff_eq] at hcomplete
    exact hcomplete.1.2
  have hawaited : s.run.awaited = [] := List.length_eq_zero_iff.mp (hdelivery.inFlight ▸ hidle)
  have hindices := hdelivery.indices
  rw [hawaited, List.nil_append, ← hdelivery.dispatched] at hindices
  have hcount : s.run.job.nextWindowIndex = s.run.dispatched.length := by
    rw [← List.length_range (n := s.run.job.nextWindowIndex), ← hdelivery.dispatched,
      List.length_map]
  have hanswers : s.run.answers.length = s.run.dispatched.length := by
    simpa using hindices.length_eq
  refine ⟨hremoved, hcomplete, hawaited, hindices, ?_, ?_⟩
  · rw [hdelivery.windowsDispatched, hcount]
  · rw [hdelivery.windowsCompleted, hanswers]

/-- **What a cancellation stops.** The reader sends nothing after it. From the moment the scheduler
has seen the channel closed, the job accepts no audio: the windows it still dispatches are pieces of
the buffer it held then, one behind the other. The client hears of the cancellation after the last of
all windows has been answered. -/
theorem cancelled_uses_up {capacity : UInt64} {memory : Nat → UInt8} {jobId : Nat}
    {header : RequestHeader} {vadEnabled : Bool} {events : List Event} {stats : StreamReadStats}
    (hrun : Run (Step config) (start capacity memory jobId header vadEnabled) events s)
    (hcancel : s.readerPhase = .returned (.ok (.cancelled stats)))
    {more : List Event} (hmore : Run (Step config) s more s') :
    (s'.reader.chunkTx = s.reader.chunkTx ∧
      s'.readerPhase = .returned (.ok (.cancelled stats))) ∧
    (s.run.job.producerClosed = true → LiveRun.UsesUp s.run s'.run) ∧
    ∀ audioS rtf dispatched completed,
      .cancelled audioS rtf dispatched completed ∈ s'.written →
        s'.run.removed = true ∧ s'.run.job.isComplete = true ∧ s'.run.awaited = [] ∧
          (s'.run.answers.map WindowTranscription.windowIndex).Perm
            (s'.run.dispatched.map fun window => window.whisperJob.windowIndex) ∧
          dispatched = UInt64.ofNat s'.run.dispatched.length ∧
          completed = UInt64.ofNat s'.run.dispatched.length := by
  obtain ⟨hattached, -⟩ := reports_of_run hrun
  obtain ⟨-, hreports⟩ := reports_of_run (hrun.trans hmore)
  have hreader : s'.reader = s.reader ∧ s'.readerPhase = s.readerPhase := by
    refine hmore.invariant (P := fun _ s' => s'.reader = s.reader ∧ s'.readerPhase = s.readerPhase)
      ⟨rfl, rfl⟩ ?_
    intro events state event next hinv hstep
    have hreturned : state.readerPhase.Returned := ⟨_, hinv.2.trans hcancel⟩
    obtain ⟨hsame, hphase⟩ := reader_of_returned hreturned hstep
    exact ⟨hsame.trans hinv.1, hphase.trans hinv.2⟩
  refine ⟨⟨by rw [hreader.1], hreader.2.trans hcancel⟩, fun hclosed => ?_, ?_⟩
  · obtain ⟨-, steps, hsteps⟩ := hattached.of_run hmore
    obtain ⟨hafter, hdispatching⟩ := timeline_of_run (hrun.trans hmore)
    exact (LiveRun.draws_of_run hclosed hsteps).usesUp (timeline_of_run hrun).1 hafter hdispatching
  · intro audioS rtf dispatched completed hmem
    exact hreports.finished_of_cancelled (delivery_of_run (hrun.trans hmore)) hmem

/-- A channel of four chunks and one of sixteen responses. -/
def cancelConfig : SessionConfig where
  maxActiveJobsPerModel := 1
  maxInFlightWindowsPerJob := 3
  clientWindowQueueDepth := 4
  clientResponseQueueDepth := 16
  clientSendBuffer := 4096
  daemonSendBuffer := 4096

def cancelStart : LiveSession := start 2048 (fun _ => 0) 7 {} false

/-- One chunk of audio reaches the job before the cancellation does, and the channel is closed. -/
def cancelEvents : List Event :=
  [.client (.push (List.replicate 1024 0)), .client (.signal signalDataReady), .reader, .reader,
    .reader, .reader, .scheduler .head, .client (.signal signalCancel), .reader, .scheduler .sleep,
    .scheduler .tail, .scheduler .head]

/-- The chunk is transcribed before the response goes out. -/
def afterCancel : List Event :=
  [.scheduler (.branch (.dispatch true)), .scheduler .tail, .scheduler .head,
    .scheduler (.branch (.whisperResult
      { windowIndex := 0, absoluteStartSec := ⟨0⟩, text := "", segments := [] })),
    .scheduler .tail, .scheduler .handOver, .writer ⟨0⟩, .writer ⟨0⟩]

theorem exists_cancelled : ∃ s s', Run (Step cancelConfig) cancelStart cancelEvents s ∧
    Run (Step cancelConfig) s afterCancel s' ∧
    s.readerPhase = .returned (.ok (.cancelled { totalSamples := 512, totalWindows := 1 })) ∧
    s.run.job.producerClosed = true ∧ s.run.awaited = [] ∧ s.run.dispatched.length = 0 ∧
    s'.run.dispatched.length = 1 ∧ s'.written = [.cancelled (samplesToSec 512) ⟨0⟩ 1 1] := by
  have hbefore : ((cancelEvents.foldlM (step cancelConfig) cancelStart).map fun s =>
      (s.readerPhase, s.run.job.producerClosed, s.run.awaited, s.run.dispatched.length)) =
      some (.returned (.ok (.cancelled { totalSamples := 512, totalWindows := 1 })), true, [], 0) := by
    decide +kernel
  have hafter : (((cancelEvents ++ afterCancel).foldlM (step cancelConfig) cancelStart).map fun s =>
      (s.run.dispatched.length, s.written)) =
      some (1, [.cancelled (samplesToSec 512) ⟨0⟩ 1 1]) := by
    decide +kernel
  obtain ⟨s, hs, hview⟩ := Option.map_eq_some_iff.mp hbefore
  obtain ⟨s', hs', hview'⟩ := Option.map_eq_some_iff.mp hafter
  rw [List.foldlM_append, hs] at hs'
  simp only [Prod.mk.injEq] at hview hview'
  obtain ⟨hphase, hclosed, hawaited, hnone⟩ := hview
  exact ⟨s, s', Run.of_foldlM (fun _ _ _ h => h) hs, Run.of_foldlM (fun _ _ _ h => h) hs', hphase,
    hclosed, hawaited, hnone, hview'⟩

/-- The chunk that the job held is used up, and no window is missing from the response. -/
theorem cancelled_uses_up_chunk : ∃ s s', Run (Step cancelConfig) cancelStart cancelEvents s ∧
    Run (Step cancelConfig) s afterCancel s' ∧ s'.reader.chunkTx = s.reader.chunkTx ∧
    LiveRun.UsesUp s.run s'.run ∧ s'.run.awaited = [] ∧ s'.run.dispatched.length = 1 := by
  obtain ⟨s, s', hrun, hmore, hphase, hclosed, -, -, hone, hwritten⟩ := exists_cancelled
  obtain ⟨hreader, husesUp, hfinished⟩ := cancelled_uses_up hrun hphase hmore
  have hmem : .cancelled (samplesToSec 512) ⟨0⟩ 1 1 ∈ s'.written := by
    rw [hwritten]
    exact List.mem_singleton_self _
  exact ⟨s, s', hrun, hmore, hreader.1, husesUp hclosed, (hfinished _ _ _ _ hmem).2.2.1, hone⟩

/-- With nothing in flight and the channel closed behind a cancellation, a window is dispatched, and
the client has to wait for it. -/
theorem not_stopped_by_cancel :
    ¬ ∀ (config : SessionConfig) (capacity : UInt64) (memory : Nat → UInt8) (jobId : Nat)
      (header : RequestHeader) (vadEnabled : Bool) (events more : List Event) (s s' : LiveSession)
      (stats : StreamReadStats),
      Run (Step config) (start capacity memory jobId header vadEnabled) events s →
      s.readerPhase = .returned (.ok (.cancelled stats)) → s.run.job.producerClosed = true →
      Run (Step config) s more s' → s'.run.dispatched = s.run.dispatched := by
  intro h
  obtain ⟨s, s', hrun, hmore, hphase, hclosed, -, hnone, hone, -⟩ := exists_cancelled
  have hsame := h cancelConfig 2048 (fun _ => 0) 7 {} false _ _ s s' _ hrun hphase hclosed hmore
  rw [hsame, hnone] at hone
  cases hone

end LiveSession

end RkWhisper
