import RkWhisper.Lib.Transition
import RkWhisper.LiveSession
import RkWhisper.Proof.Delivery

/-!
# What a session does to its job

Whatever the four parties do, the job goes through a run of a live job, so that all that is known of
those holds in a session. The reader's return is what the job sees as the end of its channel.
-/

namespace RkWhisper

open Transition

namespace LiveRun

variable {maxInFlight : Nat} {run run' : LiveRun}

/-- No error of the reader arrives, and no worker fails. -/
def Event.Regular : Event → Prop
  | .arrive (.error _) => False
  | .abort _ => False
  | _ => True

/-- The job's ends of its two channels: nothing has come in, and what was sent stays sent. -/
structure KeepsChannels (run run' : LiveRun) : Prop where
  chunkRx : run'.job.chunkRx = run.job.chunkRx
  producerClosed : run'.job.producerClosed = run.job.producerClosed
  responseTx : run.job.responseTx <+: run'.job.responseTx

/-- Only arrivals, hanging up and draining touch the channel. -/
theorem keepsChannels_of_step {event : Event} (hstep : Step maxInFlight run event run')
    (harrive : ∀ chunk, event ≠ .arrive chunk) (hhangUp : event ≠ .hangUp)
    (hdrain : event ≠ .drain) : KeepsChannels run run' := by
  obtain ⟨⟨-, henabled⟩, rfl⟩ := step_eq_some_iff.mp hstep
  cases event with
  | arrive chunk => exact absurd rfl (harrive chunk)
  | hangUp => exact absurd rfl hhangUp
  | drain => exact absurd rfl hdrain
  | refresh =>
      simp only [next]
      obtain hsame | ⟨config, hsilent⟩ := run.job.refreshSpeechState_cases
      · rw [hsame]
        exact ⟨rfl, rfl, List.prefix_rfl⟩
      · rw [ActiveLiveJob.refreshSpeechState_of_silent hsilent]
        exact ⟨rfl, rfl, List.prefix_rfl⟩
  | sendVad sent =>
      obtain ⟨config, hconfig, -⟩ := ActiveLiveJob.hasVadReady_iff.mp henabled
      simp only [next, ActiveLiveJob.sendVadJob_of_ready hconfig henabled]
      exact ⟨rfl, rfl, List.prefix_rfl⟩
  | vadResult result => exact ⟨rfl, rfl, List.prefix_rfl⟩
  | dispatch sent =>
      obtain ⟨-, -, plan, hplan⟩ := ActiveLiveJob.mayDispatch_iff.mp henabled.2
      simp only [next, ActiveLiveJob.dispatchToWorker_eq hplan]
      cases sent with
      | false => exact ⟨rfl, rfl, List.prefix_append _ _⟩
      | true => exact ⟨rfl, rfl, List.prefix_append _ _⟩
  | whisperResult result =>
      obtain ⟨emitted, pending, hjob, -⟩ := run.job.handleResult_spec result
      simp only [next, hjob]
      exact ⟨rfl, rfl, List.prefix_append _ _⟩
  | finish =>
      have hcomplete : run.job.isComplete = true := henabled
      simp only [next, ActiveLiveJob.finishIfComplete, if_pos hcomplete]
      exact ⟨rfl, rfl, List.prefix_append _ _⟩
  | abort error => exact ⟨rfl, rfl, List.prefix_append _ _⟩

/-- Draining either does nothing, or takes all there is and sees the end behind it. -/
theorem drain_spec (maxInFlight : Nat) (run : LiveRun) :
    run.job.responseTx <+: (run.next maxInFlight .drain).job.responseTx ∧
      (run.next maxInFlight .drain).job.chunkRx.disconnected = run.job.chunkRx.disconnected := by
  have hsplit := run.job.drainLiveChunks_spec maxInFlight
  obtain ⟨chunkRx, closed, hdrain, -⟩ := hsplit
  constructor
  · simp only [next, hdrain]
    exact List.prefix_append _ _
  · simp only [next, ActiveLiveJob.drainLiveChunks]
    by_cases hskip : run.job.producerClosed = true ∨ maxInFlight ≤ run.job.inFlight
    · rw [if_pos hskip]
    · obtain ⟨closed, hfold, -⟩ := ActiveLiveJob.foldl_acceptChunk run.job.chunkRx.queue
        { run.job with chunkRx := { run.job.chunkRx with queue := [] } }
      rw [if_neg hskip]
      simp only [hfold]
      by_cases hend : run.job.chunkRx.disconnected = true
      · rw [if_pos hend]
        rfl
      · rw [if_neg hend]

theorem responseTx_step {event : Event} (hstep : Step maxInFlight run event run') :
    run.job.responseTx <+: run'.job.responseTx := by
  by_cases hdrain : event = .drain
  · obtain ⟨-, rfl⟩ := step_eq_some_iff.mp hstep
    subst hdrain
    exact (drain_spec maxInFlight run).1
  · cases event with
    | arrive chunk =>
        obtain ⟨-, rfl⟩ := step_eq_some_iff.mp hstep
        exact List.prefix_rfl
    | hangUp =>
        obtain ⟨-, rfl⟩ := step_eq_some_iff.mp hstep
        exact List.prefix_rfl
    | _ => exact (keepsChannels_of_step hstep (by simp) (by simp) hdrain).responseTx

theorem disconnected_step {event : Event} (hstep : Step maxInFlight run event run')
    (hevent : event ≠ .hangUp) :
    run'.job.chunkRx.disconnected = run.job.chunkRx.disconnected := by
  by_cases hdrain : event = .drain
  · obtain ⟨-, rfl⟩ := step_eq_some_iff.mp hstep
    subst hdrain
    exact (drain_spec maxInFlight run).2
  · cases event with
    | arrive chunk =>
        obtain ⟨-, rfl⟩ := step_eq_some_iff.mp hstep
        rfl
    | _ => exact congrArg _ (keepsChannels_of_step hstep (by simp) hevent hdrain).chunkRx

theorem removed_step {event : Event} (hstep : Step maxInFlight run event run') :
    run'.removed = true ↔ event = .finish ∨ ∃ error, event = .abort error := by
  obtain ⟨⟨hremoved, -⟩, rfl⟩ := step_eq_some_iff.mp hstep
  cases event <;> simp [next, hremoved]

end LiveRun

namespace ReaderPhase

def Returned (phase : ReaderPhase) : Prop := ∃ result, phase = .returned result

end ReaderPhase

namespace LiveSession

variable {config : SessionConfig} {regular : Prop} {s s' : LiveSession}

/-- The job is there as long as the loop runs, and its channel is open as long as the reader does. -/
structure Attached (s : LiveSession) : Prop where
  exited : s.run.removed = true ↔ s.loop = .exited
  hungUp : s.run.job.chunkRx.disconnected = true → s.readerPhase.Returned
  connected : s.run.removed = false → s.readerPhase.Returned →
    s.run.job.chunkRx.disconnected = true

/-- No signal is out of the three, and no worker fails. -/
def Regular (s : LiveSession) : Event → Prop
  | .reader => s.readerPhase = .reading → ∀ signal ∈ s.toDaemon.head?,
      signal = signalDataReady ∨ signal = signalEndOfStream ∨ signal = signalCancel
  | .scheduler (.branch event) => event.Regular
  | _ => True

/-- The job has gone through some steps of its own, and where `regular` holds, through regular ones. -/
def Advances (config : SessionConfig) (regular : Prop) (s s' : LiveSession) : Prop :=
  ∃ events, Run (LiveRun.Step config.maxInFlight) s.run events s'.run ∧
    (regular → ∀ event ∈ events, event.Regular)

theorem Advances.of_eq (hrun : s'.run = s.run) : Advances config regular s s' :=
  ⟨[], by rw [hrun]; exact .refl, fun _ _ hmem => absurd hmem List.not_mem_nil⟩

theorem Advances.single {event : LiveRun.Event}
    (hstep : LiveRun.Step config.maxInFlight s.run event s'.run)
    (hregular : regular → event.Regular) : Advances config regular s s' := by
  refine ⟨[event], .single hstep, fun h event' hmem => ?_⟩
  rw [List.mem_singleton.mp hmem]
  exact hregular h

theorem Attached.keep (h : s.Attached) (hrun : s'.run = s.run) (hloop : s'.loop = s.loop)
    (hphase : s'.readerPhase.Returned ↔ s.readerPhase.Returned) :
    s'.Attached ∧ Advances config regular s s' := by
  refine ⟨⟨?_, ?_, ?_⟩, .of_eq hrun⟩
  · rw [hrun, hloop]
    exact h.exited
  · rw [hrun, hphase]
    exact h.hungUp
  · rw [hrun, hphase]
    exact h.connected

theorem Attached.step_run {event : LiveRun.Event} (h : s.Attached)
    (hstep : LiveRun.Step config.maxInFlight s.run event s'.run) (hevent : event ≠ .hangUp)
    (hloop : s'.run.removed = true ↔ s'.loop = .exited)
    (hphase : s'.readerPhase.Returned ↔ s.readerPhase.Returned)
    (hregular : regular → event.Regular) :
    s'.Attached ∧ Advances config regular s s' := by
  have hremoved := (LiveRun.step_eq_some_iff.mp hstep).1.1
  have hsame := LiveRun.disconnected_step hstep hevent
  refine ⟨⟨hloop, ?_, fun _ => ?_⟩, .single hstep hregular⟩
  · rw [hsame, hphase]
    exact h.hungUp
  · rw [hsame, hphase]
    exact h.connected hremoved

theorem Advances.trans {s'' : LiveSession} (h : Advances config regular s s')
    (h' : Advances config regular s' s'') : Advances config regular s s'' := by
  obtain ⟨events, hrun, hregular⟩ := h
  obtain ⟨more, hmore, hregular'⟩ := h'
  refine ⟨_, hrun.trans hmore, fun hall event hmem => ?_⟩
  obtain hfront | hback := List.mem_append.mp hmem
  · exact hregular hall event hfront
  · exact hregular' hall event hback

/-- The reader's return is the end of the channel. -/
theorem Attached.returnReader (h : s.Attached) (result : Except Error ReadOutcome) :
    (s.returnReader config result).Attached ∧
      Advances config regular s (s.returnReader config result) := by
  cases hremoved : s.run.removed with
  | true =>
      simp only [LiveSession.returnReader, hremoved, if_true]
      exact ⟨⟨h.exited, fun _ => ⟨result, rfl⟩, by simp [hremoved]⟩, .of_eq rfl⟩
  | false =>
      have hstep : LiveRun.Step config.maxInFlight s.run .hangUp
          (s.run.next config.maxInFlight .hangUp) :=
        LiveRun.step_eq_some_iff.mpr ⟨⟨hremoved, trivial⟩, rfl⟩
      simp only [LiveSession.returnReader, hremoved]
      exact ⟨⟨h.exited, fun _ => ⟨result, rfl⟩, fun _ _ => rfl⟩, .single hstep fun _ => trivial⟩

theorem Attached.arrive (h : s.Attached) (hremoved : s.run.removed = false)
    (hreading : ¬ s.readerPhase.Returned) (chunk : Except Error LiveChunk) (reader : LiveReader)
    (hregular : regular → (LiveRun.Event.arrive chunk).Regular) :
    { s with reader := reader, run := s.run.next config.maxInFlight (.arrive chunk) }.Attached ∧
      Advances config regular s
        { s with reader := reader, run := s.run.next config.maxInFlight (.arrive chunk) } := by
  have hopen : s.run.job.chunkRx.disconnected = false := by
    rw [← Bool.not_eq_true]
    exact fun hend => hreading (h.hungUp hend)
  have hstep : LiveRun.Step config.maxInFlight s.run (.arrive chunk)
      (s.run.next config.maxInFlight (.arrive chunk)) :=
    LiveRun.step_eq_some_iff.mpr ⟨⟨hremoved, hopen⟩, rfl⟩
  exact h.step_run hstep (by simp) h.exited Iff.rfl hregular

theorem Attached.moveReader (h : s.Attached) (hreading : ¬ s.readerPhase.Returned)
    (phase : ReaderPhase) :
    (s.moveReader config phase).Attached ∧
      Advances config regular s (s.moveReader config phase) := by
  have hquiet : ∀ phase : ReaderPhase, ¬ phase.Returned →
      { s with readerPhase := phase }.Attached ∧
        Advances config regular s { s with readerPhase := phase } := by
    intro phase hphase
    exact h.keep rfl rfl (iff_of_false hphase hreading)
  cases phase with
  | reading => exact hquiet _ (by simp [ReaderPhase.Returned])
  | draining finalFlush => exact hquiet _ (by simp [ReaderPhase.Returned])
  | flushing finalFlush => exact hquiet _ (by simp [ReaderPhase.Returned])
  | returned result => exact h.returnReader result

theorem Attached.sendChunk (h : s.Attached) (hreading : ¬ s.readerPhase.Returned)
    {reader : LiveReader} {chunk : Bytes} (hstep : s.sendChunk config reader chunk = some s') :
    s'.Attached ∧ Advances config regular s s' := by
  have hreader : ∀ reader, { s with reader := reader }.Attached :=
    fun reader => ⟨h.exited, h.hungUp, h.connected⟩
  unfold LiveSession.sendChunk at hstep
  split at hstep
  · obtain rfl := Option.some.inj hstep
    exact (hreader _).returnReader _
  · cases hremoved : s.run.removed with
    | true =>
        rw [hremoved, if_pos rfl] at hstep
        obtain rfl := Option.some.inj hstep
        exact (hreader _).returnReader _
    | false =>
        rw [hremoved, if_neg Bool.false_ne_true] at hstep
        split at hstep
        · obtain rfl := Option.some.inj hstep
          exact h.arrive hremoved hreading _ _ fun _ => trivial
        · cases hstep

theorem Attached.takeSignal (h : s.Attached) (hreading : ¬ s.readerPhase.Returned)
    {signal : UInt8} (hsignal : regular →
      signal = signalDataReady ∨ signal = signalEndOfStream ∨ signal = signalCancel)
    (hstep : s.takeSignal config signal = some s') :
    s'.Attached ∧ Advances config regular s s' := by
  have hreader : ∀ reader, { s with reader := reader }.Attached :=
    fun reader => ⟨h.exited, h.hungUp, h.connected⟩
  unfold LiveSession.takeSignal at hstep
  split at hstep
  rename_i phase reader hread
  split at hstep
  · rename_i error
    have hunknown : regular → (LiveRun.Event.arrive (.error error)).Regular := by
      intro hall
      obtain rfl | rfl | rfl := hsignal hall <;> cases hread
    split at hstep
    · obtain rfl := Option.some.inj hstep
      exact (hreader reader).moveReader hreading _
    · rename_i hremoved
      split at hstep
      · obtain rfl := Option.some.inj hstep
        obtain ⟨hattached, hadvances⟩ :=
          h.arrive (Bool.eq_false_of_not_eq_true hremoved) hreading _ reader hunknown
        obtain ⟨hreturned, hmore⟩ := hattached.moveReader hreading _
        exact ⟨hreturned, hadvances.trans hmore⟩
      · cases hstep
  · obtain rfl := Option.some.inj hstep
    exact (hreader reader).moveReader hreading _

theorem Attached.readerStep (h : s.Attached) (hregular : regular → s.Regular .reader)
    (hstep : s.readerStep config = some s') :
    s'.Attached ∧ Advances config regular s s' := by
  unfold LiveSession.readerStep at hstep
  split at hstep
  · rename_i hphase
    have hreading : ¬ s.readerPhase.Returned := by simp [hphase, ReaderPhase.Returned]
    split at hstep
    · split at hstep
      · obtain rfl := Option.some.inj hstep
        exact h.moveReader hreading _
      · cases hstep
    · rename_i toDaemon hsocket
      have htaken : { s with toDaemon := toDaemon }.Attached := ⟨h.exited, h.hungUp, h.connected⟩
      refine htaken.takeSignal hreading (fun hall => ?_) hstep
      exact hregular hall hphase _ (by simp [hsocket])
  · rename_i hphase
    have hreading : ¬ s.readerPhase.Returned := by simp [hphase, ReaderPhase.Returned]
    obtain rfl := Option.some.inj hstep
    have hdrained : { s with
        ring := (s.ring.drainAvailable s.reader.pcm).2.1
        reader := { s.reader with pcm := (s.ring.drainAvailable s.reader.pcm).2.2 } }.Attached :=
      ⟨h.exited, h.hungUp, h.connected⟩
    exact hdrained.moveReader hreading _
  · rename_i hphase
    have hreading : ¬ s.readerPhase.Returned := by simp [hphase, ReaderPhase.Returned]
    simp only [LiveSession.flushStep] at hstep
    split at hstep
    · exact h.sendChunk hreading hstep
    · split at hstep
      · exact h.sendChunk hreading hstep
      · obtain rfl := Option.some.inj hstep
        exact h.moveReader hreading _
  · cases hstep

theorem Attached.removeCompleted (h : s.Attached) (hremoved : s.run.removed = false)
    {loop : LoopPhase} (hloop : loop ≠ .exited) :
    (s.removeCompleted config loop).Attached ∧
      Advances config regular s (s.removeCompleted config loop) := by
  unfold LiveSession.removeCompleted
  by_cases hcomplete : s.run.job.isComplete = true
  · rw [if_pos hcomplete]
    have hstep : LiveRun.Step config.maxInFlight s.run .finish
        (s.run.next config.maxInFlight .finish) :=
      LiveRun.step_eq_some_iff.mpr ⟨⟨hremoved, hcomplete⟩, rfl⟩
    exact h.step_run hstep (by simp) (iff_of_true rfl rfl) Iff.rfl fun _ => trivial
  · rw [if_neg hcomplete]
    exact ⟨⟨iff_of_false (by simp [hremoved]) hloop, h.hungUp, h.connected⟩, .of_eq rfl⟩

/-- A step of the job that is always possible and does not end it. -/
theorem Attached.advance (h : s.Attached) (hremoved : s.run.removed = false)
    {event : LiveRun.Event} (henabled : s.run.Enabled config.maxInFlight event)
    (hevent : event ≠ .hangUp)
    (hkeeps : (s.run.next config.maxInFlight event).removed = false)
    (hregular : regular → event.Regular) :
    { s with run := s.run.next config.maxInFlight event }.Attached ∧
      Advances config regular s { s with run := s.run.next config.maxInFlight event } := by
  have hstep : LiveRun.Step config.maxInFlight s.run event (s.run.next config.maxInFlight event) :=
    LiveRun.step_eq_some_iff.mpr ⟨⟨hremoved, henabled⟩, rfl⟩
  have hloop : s.loop ≠ .exited := by
    rw [ne_eq, ← h.exited, hremoved]
    exact Bool.false_ne_true
  exact h.step_run hstep hevent (iff_of_false (by simp [hkeeps]) hloop) Iff.rfl hregular

variable (config regular) in
theorem Attached.drain (h : s.Attached) (hremoved : s.run.removed = false) :
    { s with run := s.run.next config.maxInFlight .drain }.Attached ∧
      Advances config regular s { s with run := s.run.next config.maxInFlight .drain } := by
  have henabled : s.run.Enabled config.maxInFlight .drain := trivial
  have hevent : LiveRun.Event.drain ≠ .hangUp := by simp
  exact h.advance hremoved henabled hevent hremoved fun _ => trivial

theorem Attached.schedulerStep (h : s.Attached) {event : SchedulerEvent}
    (hregular : regular → s.Regular (.scheduler event))
    (hstep : s.schedulerStep config event = some s') : s'.Attached ∧ Advances config regular s s' := by
  have hrunning : s.loop ≠ .exited → s.run.removed = false := by
    intro hloop
    rw [← Bool.not_eq_true, h.exited]
    exact hloop
  unfold LiveSession.schedulerStep at hstep
  cases event with
  | handOver =>
      simp only [LiveSession.handOver] at hstep
      split at hstep
      · cases hstep
      · split at hstep
        · obtain rfl := Option.some.inj hstep
          exact h.keep rfl rfl Iff.rfl
        · split at hstep
          · obtain rfl := Option.some.inj hstep
            exact h.keep rfl rfl Iff.rfl
          · cases hstep
  | head =>
      simp only [Option.ite_none_right_eq_some, Option.some.injEq] at hstep
      obtain ⟨⟨-, hloop⟩, rfl⟩ := hstep
      have hremoved := hrunning (by simp [hloop])
      obtain ⟨hdrained, hadvances⟩ := h.drain config regular hremoved
      have hselect : LoopPhase.select ≠ .exited := by decide
      obtain ⟨hattached, hmore⟩ := hdrained.removeCompleted hremoved hselect
      exact ⟨hattached, hadvances.trans hmore⟩
  | branch event =>
      simp only at hstep
      split at hstep
      · rename_i hguard
        obtain ⟨run, hrun, rfl⟩ := Option.map_eq_some_iff.mp hstep
        have hevent : event ≠ .hangUp := by
          rintro rfl
          simp [LiveRun.mayBranch] at hguard
        refine h.step_run hrun hevent ?_ Iff.rfl hregular
        cases run.removed <;> simp
      · cases hstep
  | sleep =>
      simp only [Option.ite_none_right_eq_some, Option.some.injEq] at hstep
      obtain ⟨⟨-, hloop, -⟩, rfl⟩ := hstep
      have hremoved := hrunning (by simp [hloop])
      exact ⟨⟨iff_of_false (by simp [hremoved]) (by simp), h.hungUp, h.connected⟩, .of_eq rfl⟩
  | tail =>
      simp only [Option.ite_none_right_eq_some, Option.some.injEq] at hstep
      obtain ⟨⟨-, hloop⟩, rfl⟩ := hstep
      have hremoved := hrunning (by simp [hloop])
      obtain ⟨hdrained, hadvances⟩ := h.drain config regular hremoved
      obtain ⟨hrefreshed, hmore⟩ :=
        @Attached.advance config regular _ hdrained hremoved .refresh trivial (by simp) hremoved
          fun _ => trivial
      have hhead : LoopPhase.head ≠ .exited := by decide
      obtain ⟨hattached, hrest⟩ := hrefreshed.removeCompleted hremoved hhead
      exact ⟨hattached, (hadvances.trans hmore).trans hrest⟩

/-- The side of the session that audio comes in from. -/
def intake (s : LiveSession) : SharedAudioRing × Bytes × Bool × LiveReader × ReaderPhase :=
  (s.ring, s.toDaemon, s.clientClosed, s.reader, s.readerPhase)

theorem reader_of_intake (h : s'.intake = s.intake) : s'.reader = s.reader :=
  congrArg (fun intake => intake.2.2.2.1) h

theorem readerPhase_of_intake (h : s'.intake = s.intake) : s'.readerPhase = s.readerPhase :=
  congrArg (fun intake => intake.2.2.2.2) h

theorem intake_schedulerStep {event : SchedulerEvent}
    (hstep : s.schedulerStep config event = some s') : s'.intake = s.intake := by
  have hcompleted : ∀ (s : LiveSession) loop,
      (s.removeCompleted config loop).intake = s.intake := by
    intro s loop
    unfold LiveSession.removeCompleted
    split <;> rfl
  unfold LiveSession.schedulerStep at hstep
  cases event with
  | handOver =>
      simp only [LiveSession.handOver] at hstep
      split at hstep
      · cases hstep
      · split at hstep
        · obtain rfl := Option.some.inj hstep
          rfl
        · simp only [Option.ite_none_right_eq_some, Option.some.injEq] at hstep
          obtain ⟨-, rfl⟩ := hstep
          rfl
  | head =>
      simp only [Option.ite_none_right_eq_some, Option.some.injEq] at hstep
      obtain ⟨-, rfl⟩ := hstep
      exact hcompleted _ _
  | branch event =>
      simp only [Option.ite_none_right_eq_some, Option.map_eq_some_iff] at hstep
      obtain ⟨-, run, -, rfl⟩ := hstep
      rfl
  | sleep =>
      simp only [Option.ite_none_right_eq_some, Option.some.injEq] at hstep
      obtain ⟨-, rfl⟩ := hstep
      rfl
  | tail =>
      simp only [Option.ite_none_right_eq_some, Option.some.injEq] at hstep
      obtain ⟨-, rfl⟩ := hstep
      exact hcompleted _ _

theorem startWrite_run (s : LiveSession) (response : Response) (last : Bool) :
    (s.startWrite response last).run = s.run ∧ (s.startWrite response last).loop = s.loop ∧
      (s.startWrite response last).intake = s.intake := by
  unfold startWrite
  split <;> exact ⟨rfl, rfl, rfl⟩

theorem writerStep_run {factor : F32} (hstep : s.writerStep config factor = some s') :
    s'.run = s.run ∧ s'.loop = s.loop ∧ s'.intake = s.intake := by
  unfold writerStep at hstep
  split at hstep
  · split at hstep
    · obtain rfl := Option.some.inj hstep
      exact ⟨rfl, rfl, rfl⟩
    · obtain ⟨response, -, rfl⟩ := Option.map_eq_some_iff.mp hstep
      exact startWrite_run _ response false
    · simp only [Option.ite_none_right_eq_some, Option.some.injEq] at hstep
      obtain ⟨-, rfl⟩ := hstep
      exact startWrite_run s _ true
  · split at hstep
    · obtain rfl := Option.some.inj hstep
      exact ⟨rfl, rfl, rfl⟩
    · split at hstep
      · obtain rfl := Option.some.inj hstep
        exact ⟨rfl, rfl, rfl⟩
      · simp only [Option.ite_none_left_eq_some, Option.some.injEq] at hstep
        obtain ⟨-, rfl⟩ := hstep
        exact ⟨rfl, rfl, rfl⟩
  · split at hstep
    · obtain rfl := Option.some.inj hstep
      exact startWrite_run s _ true
    · cases hstep
  · cases hstep

/-- A step of the client leaves the daemon's side alone. -/
theorem clientStep_frame {action : ClientAction} (hstep : s.clientStep config action = some s') :
    ∃ ring toDaemon toClient clientClosed,
      s' = { s with ring, toDaemon, toClient, clientClosed } := by
  unfold clientStep at hstep
  cases action with
  | push data =>
      simp only [Option.ite_none_left_eq_some, Option.some.injEq] at hstep
      obtain ⟨-, rfl⟩ := hstep
      exact ⟨_, s.toDaemon, s.toClient, s.clientClosed, rfl⟩
  | signal signal =>
      simp only [Option.ite_none_right_eq_some, Option.some.injEq] at hstep
      obtain ⟨-, rfl⟩ := hstep
      exact ⟨s.ring, _, s.toClient, s.clientClosed, rfl⟩
  | receive =>
      simp only at hstep
      split at hstep
      · cases hstep
      · obtain rfl := Option.some.inj hstep
        exact ⟨s.ring, s.toDaemon, _, s.clientClosed, rfl⟩
  | close =>
      obtain rfl := Option.some.inj hstep
      exact ⟨s.ring, s.toDaemon, s.toClient, _, rfl⟩

theorem clientStep_run {action : ClientAction} (hstep : s.clientStep config action = some s') :
    s'.run = s.run ∧ s'.loop = s.loop ∧ s'.reader = s.reader ∧ s'.readerPhase = s.readerPhase := by
  obtain ⟨ring, toDaemon, toClient, clientClosed, rfl⟩ := clientStep_frame hstep
  exact ⟨rfl, rfl, rfl, rfl⟩

/-- **Every step of a session is some steps of its job.** -/
theorem Attached.step (h : s.Attached) {event : Event} (hregular : regular → s.Regular event)
    (hstep : Step config s event s') : s'.Attached ∧ Advances config regular s s' := by
  cases event with
  | client action =>
      obtain ⟨hrun, hloop, -, hphase⟩ := clientStep_run hstep
      exact h.keep hrun hloop (by rw [hphase])
  | reader => exact h.readerStep hregular hstep
  | scheduler event => exact h.schedulerStep hregular hstep
  | writer factor =>
      obtain ⟨hrun, hloop, hintake⟩ := writerStep_run hstep
      exact h.keep hrun hloop (by rw [readerPhase_of_intake hintake])

theorem attached_start (capacity : UInt64) (memory : Nat → UInt8) (jobId : Nat)
    (header : RequestHeader) (vadEnabled : Bool) :
    (start capacity memory jobId header vadEnabled).Attached where
  exited := iff_of_false Bool.false_ne_true (fun h => LoopPhase.noConfusion h)
  hungUp h := absurd h Bool.false_ne_true
  connected _ h := by
    obtain ⟨result, hresult⟩ := h
    cases hresult

/-- **A run of a session is a run of its job.** -/
theorem Attached.of_run (h : s.Attached) {events : List Event}
    (hrun : Run (Step config) s events s') :
    s'.Attached ∧ ∃ more, Run (LiveRun.Step config.maxInFlight) s.run more s'.run := by
  refine hrun.invariant (P := fun _ s' => s'.Attached ∧
    ∃ more, Run (LiveRun.Step config.maxInFlight) s.run more s'.run) ⟨h, [], .refl⟩ ?_
  intro events state event next hinv hstep
  obtain ⟨hattached, more, hjob⟩ := hinv
  obtain ⟨hnext, rest, hrest, -⟩ := @Attached.step config False state next hattached event
    False.elim hstep
  exact ⟨hnext, _, hjob.trans hrest⟩

end LiveSession

end RkWhisper
