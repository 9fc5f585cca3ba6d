import RkWhisper.Proof.Cancellation
import RkWhisper.Proof.ResponseStream
import RkWhisper.Proof.Undisturbed

/-!
# The responses of a session

Whatever the client sends and however the reader and the workers fare, what a session writes are the
responses of its job up to the first terminal one, and behind them at most one final response. A job
may send a second terminal response; the writer has gone by then.
-/

namespace RkWhisper

open Transition

namespace LiveRun

variable {maxInFlight : Nat} {run run' : LiveRun}

/-- A job that completes sends nothing more. -/
def CompletesLast (run : LiveRun) : Prop :=
  ∀ front stats back, run.job.responseTx = front ++ .finished (.ok stats) :: back → back = []

theorem CompletesLast.step {event : Event} (hdelivery : Delivery maxInFlight run)
    (hstep : Step maxInFlight run event run') : CompletesLast run' := by
  have hdelivery' := hdelivery.step hstep
  have hremoved := (step_eq_some_iff.mp hstep).1.1
  intro front stats back hsplit
  have hmem : .finished (.ok stats) ∈ run'.job.responseTx := by
    rw [hsplit]
    exact List.mem_append_right _ List.mem_cons_self
  have hended := (hdelivery'.finished stats hmem).1
  have hbefore : ∀ stats, .finished (.ok stats) ∉ run.job.responseTx := by
    intro stats hmem
    have hgone := (hdelivery.finished stats hmem).1
    rw [hremoved] at hgone
    cases hgone
  obtain rfl | ⟨error, rfl⟩ := (removed_step hstep).mp hended
  · obtain ⟨⟨-, hcomplete⟩, rfl⟩ := step_eq_some_iff.mp hstep
    have hjob : run.job.isComplete = true := hcomplete
    simp only [next, ActiveLiveJob.finishIfComplete, if_pos hjob] at hsplit
    exact eq_nil_of_concat_eq (hbefore stats) hsplit
  · obtain ⟨-, rfl⟩ := step_eq_some_iff.mp hstep
    simp only [next] at hmem
    obtain hold | hnew := List.mem_append.mp hmem
    · exact absurd hold (hbefore stats)
    · cases List.mem_singleton.mp hnew

theorem completesLast_of_run {jobId : Nat} {header : RequestHeader} {chunkRx : ChunkReceiver}
    {vadEnabled : Bool} {events : List Event}
    (h : Run (Step maxInFlight) (start jobId header chunkRx vadEnabled) events run) :
    CompletesLast run := by
  cases h with
  | refl =>
      intro front stats back hsplit
      exact absurd hsplit.symm (List.append_ne_nil_of_right_ne_nil front (List.cons_ne_nil _ _))
  | snoc hrun hstep => exact .step (.of_run hrun) hstep

end LiveRun

namespace LiveSession

variable {config : SessionConfig} {s s' : LiveSession}

/-! ### What the reader leaves alone -/

theorem moveReader_frame (config : SessionConfig) (s : LiveSession) (phase : ReaderPhase) :
    ∃ run, s.moveReader config phase = { s with readerPhase := phase, run } := by
  cases phase with
  | returned result => exact ⟨_, rfl⟩
  | _ => exact ⟨s.run, rfl⟩

theorem sendChunk_frame {reader : LiveReader} {chunk : Bytes}
    (hstep : s.sendChunk config reader chunk = some s') :
    ∃ reader readerPhase run, s' = { s with reader, readerPhase, run } := by
  unfold LiveSession.sendChunk at hstep
  split at hstep
  · obtain rfl := Option.some.inj hstep
    exact ⟨_, _, _, rfl⟩
  · split at hstep
    · obtain rfl := Option.some.inj hstep
      exact ⟨_, _, _, rfl⟩
    · split at hstep
      · obtain rfl := Option.some.inj hstep
        exact ⟨_, s.readerPhase, _, rfl⟩
      · cases hstep

theorem takeSignal_frame {signal : UInt8} (hstep : s.takeSignal config signal = some s') :
    ∃ reader readerPhase run, s' = { s with reader, readerPhase, run } := by
  unfold LiveSession.takeSignal at hstep
  split at hstep
  rename_i phase reader hread
  have hmove : ∀ run : LiveRun, ∃ reader' readerPhase run',
      { s with reader := reader, run := run }.moveReader config phase =
        { s with reader := reader', readerPhase := readerPhase, run := run' } := by
    intro run
    obtain ⟨run', hmoved⟩ := moveReader_frame config { s with reader := reader, run := run } phase
    exact ⟨reader, phase, run', hmoved⟩
  split at hstep
  · split at hstep
    · obtain rfl := Option.some.inj hstep
      exact hmove s.run
    · split at hstep
      · obtain rfl := Option.some.inj hstep
        exact hmove _
      · cases hstep
  · obtain rfl := Option.some.inj hstep
    exact hmove s.run

theorem readerStep_frame (hstep : s.readerStep config = some s') :
    ∃ ring toDaemon reader readerPhase run,
      s' = { s with ring, toDaemon, reader, readerPhase, run } := by
  have hmove : ∀ (s : LiveSession) phase, ∃ reader readerPhase run,
      s.moveReader config phase = { s with reader, readerPhase, run } := by
    intro s phase
    obtain ⟨run, hmoved⟩ := moveReader_frame config s phase
    exact ⟨s.reader, phase, run, hmoved⟩
  unfold LiveSession.readerStep at hstep
  split at hstep
  · split at hstep
    · split at hstep
      · obtain rfl := Option.some.inj hstep
        exact ⟨s.ring, s.toDaemon, hmove s _⟩
      · cases hstep
    · rename_i toDaemon _
      exact ⟨s.ring, toDaemon, takeSignal_frame hstep⟩
  · obtain rfl := Option.some.inj hstep
    obtain ⟨reader, readerPhase, run, hmoved⟩ := hmove { s with
      ring := (s.ring.drainAvailable s.reader.pcm).2.1
      reader := { s.reader with pcm := (s.ring.drainAvailable s.reader.pcm).2.2 } } _
    exact ⟨_, s.toDaemon, reader, readerPhase, run, hmoved⟩
  · refine ⟨s.ring, s.toDaemon, ?_⟩
    simp only [LiveSession.flushStep] at hstep
    split at hstep
    · exact sendChunk_frame hstep
    · split at hstep
      · exact sendChunk_frame hstep
      · obtain rfl := Option.some.inj hstep
        exact hmove s _
  · cases hstep

/-- A client that has closed its end does not come back. -/
theorem clientClosed_step {event : Event} (hstep : Step config s event s')
    (hclosed : s.clientClosed = true) : s'.clientClosed = true := by
  cases event with
  | client action =>
      have hclient : s.clientStep config action = some s' := hstep
      unfold clientStep at hclient
      cases action with
      | push data => simp [hclosed] at hclient
      | signal signal => simp [hclosed] at hclient
      | receive =>
          simp only at hclient
          split at hclient
          · cases hclient
          · obtain rfl := Option.some.inj hclient
            exact hclosed
      | close =>
          obtain rfl := Option.some.inj hclient
          rfl
  | reader =>
      obtain ⟨ring, toDaemon, reader, readerPhase, run, rfl⟩ := readerStep_frame hstep
      exact hclosed
  | scheduler event =>
      have hintake := intake_schedulerStep hstep
      exact (congrArg (fun intake => intake.2.2.1) hintake).trans hclosed
  | writer factor =>
      have hintake := (writerStep_run hstep).2.2
      exact (congrArg (fun intake => intake.2.2.1) hintake).trans hclosed

/-! ### The responses on their way -/

/-- The response that is to be written for what the writer has taken. -/
def Due (readerPhase : ReaderPhase) (taken : List JobResponse) (response : Response) : Prop :=
  (∃ next, taken = [next] ∧ next.toResponse = some response) ∨
    ∃ result readResult factor, taken = [.finished result] ∧ readerPhase = .returned readResult ∧
      response = finalResponse factor readResult result

/-- Where the writer stands, with the response of the job that it has taken and not written, and the
final response if it has begun to write it. -/
inductive WriterStage (closed : Bool) (readerPhase : ReaderPhase) :
    WriterPhase → List JobResponse → List Response → Prop where
  | receiving : WriterStage closed readerPhase .receiving [] []
  | writing (rest : Bytes) : WriterStage closed readerPhase (.writing rest false) [] []
  | joining (result : Except Error LiveTranscriptionStats) :
      WriterStage closed readerPhase (.joining result) [.finished result] []
  | ending (rest : Bytes) (result : Except Error LiveTranscriptionStats)
      (readResult : Except Error ReadOutcome) (factor : F32)
      (hreturned : readerPhase = .returned readResult) :
      WriterStage closed readerPhase (.writing rest true) [.finished result]
        [finalResponse factor readResult result]
  | broken (taken : List JobResponse)
      (hbroken : closed = true ∨ ∃ response, Due readerPhase taken response ∧ ¬ FitsFrame response) :
      WriterStage closed readerPhase .returned taken []
  | ended (result : Except Error LiveTranscriptionStats) (readResult : Except Error ReadOutcome)
      (factor : F32) (hreturned : readerPhase = .returned readResult) :
      WriterStage closed readerPhase .returned [.finished result]
        [finalResponse factor readResult result]

/-- `front` has been written, and `taken` comes behind it. -/
structure Outgoing (s : LiveSession) (front taken : List JobResponse) (final : List Response) :
    Prop where
  handed : s.handed ≤ s.run.job.responseTx.length
  sent : front ++ taken <+: s.run.job.responseTx
  order : s.writer.isReturned = false →
    s.run.job.responseTx.take s.handed = front ++ taken ++ s.responseRx
  running : ∀ result, .finished result ∉ front
  written : s.written = front.filterMap JobResponse.toResponse ++ final
  fits : ∀ response ∈ s.written, FitsFrame response
  stage : WriterStage s.clientClosed s.readerPhase s.writer taken final

variable {front taken : List JobResponse} {final : List Response}

theorem WriterStage.keep {closed closed' : Bool} {phase phase' : ReaderPhase} {writer : WriterPhase}
    (h : WriterStage closed phase writer taken final) (hclosed : closed = true → closed' = true)
    (hphase : phase.Returned → phase' = phase) : WriterStage closed' phase' writer taken final := by
  cases h with
  | receiving => exact .receiving
  | writing rest => exact .writing rest
  | joining result => exact .joining result
  | ending rest result readResult factor hreturned =>
      exact .ending rest result readResult factor ((hphase ⟨_, hreturned⟩).trans hreturned)
  | broken taken hbroken =>
      refine .broken taken (hbroken.imp hclosed ?_)
      rintro ⟨response, hnext | ⟨result, readResult, factor, htaken, hreturned, rfl⟩, hlong⟩
      · exact ⟨response, .inl hnext, hlong⟩
      · exact ⟨_, .inr ⟨result, readResult, factor, htaken,
          (hphase ⟨_, hreturned⟩).trans hreturned, rfl⟩, hlong⟩
  | ended result readResult factor hreturned =>
      exact .ended result readResult factor ((hphase ⟨_, hreturned⟩).trans hreturned)

/-- A step of another party: the job may have sent more. -/
theorem Outgoing.keep (h : s.Outgoing front taken final)
    (hsent : s.run.job.responseTx <+: s'.run.job.responseTx) (hhanded : s'.handed = s.handed)
    (houtbox : s'.outbox = s.outbox) (hclosed : s.clientClosed = true → s'.clientClosed = true)
    (hphase : s.readerPhase.Returned → s'.readerPhase = s.readerPhase) :
    s'.Outgoing front taken final := by
  simp only [outbox, Prod.mk.injEq] at houtbox
  obtain ⟨hresponseRx, hwriter, hwritten⟩ := houtbox
  exact {
    handed := by
      rw [hhanded]
      exact h.handed.trans hsent.length_le
    sent := h.sent.trans hsent
    order := by
      intro hwriting
      rw [hwriter] at hwriting
      obtain ⟨more, hmore⟩ := hsent
      rw [hhanded, ← hmore, List.take_append_of_le_length h.handed, hresponseRx]
      exact h.order hwriting
    running := h.running
    written := hwritten.trans h.written
    fits := by
      rw [hwritten]
      exact h.fits
    stage := by
      rw [hwriter]
      exact h.stage.keep hclosed hphase }

theorem Outgoing.handOver (h : s.Outgoing front taken final)
    (hstep : s.handOver config = some s') : s'.Outgoing front taken final := by
  unfold LiveSession.handOver at hstep
  split at hstep
  · cases hstep
  · rename_i response rest hpending
    have htake : s.run.job.responseTx.take (s.handed + 1) =
        s.run.job.responseTx.take s.handed ++ [response] := by
      have hdrop : s.run.job.responseTx.drop s.handed = response :: rest := hpending
      rw [List.take_add, hdrop]
      rfl
    have hlt : s.handed + 1 ≤ s.run.job.responseTx.length := by
      have hlength := congrArg List.length hpending
      simp only [LiveSession.pending, List.length_drop, List.length_cons] at hlength
      omega
    split at hstep
    · rename_i hreturned
      obtain rfl := Option.some.inj hstep
      exact ⟨hlt, h.sent, fun hwriting => absurd (hreturned.symm.trans hwriting) (by decide),
        h.running, h.written, h.fits, h.stage⟩
    · rename_i hwriting
      simp only [Option.ite_none_right_eq_some, Option.some.injEq] at hstep
      obtain ⟨-, rfl⟩ := hstep
      refine ⟨hlt, h.sent, fun _ => ?_, h.running, h.written, h.fits, h.stage⟩
      simp only
      rw [htake, h.order (Bool.eq_false_of_not_eq_true hwriting), List.append_assoc]

theorem handed_removeCompleted (s : LiveSession) (loop : LoopPhase) :
    (s.removeCompleted config loop).handed = s.handed := by
  unfold LiveSession.removeCompleted
  split <;> rfl

/-! ### The writer -/

/-- A response is written whole or the connection ends. -/
theorem startWrite_cases (s : LiveSession) (response : Response) (last : Bool) :
    (¬ FitsFrame response ∧ s.startWrite response last = { s with writer := .returned }) ∨
      (FitsFrame response ∧ s.startWrite response last =
        { s with
          writer := .writing (frameBytes (encodeResponse response)) last
          written := s.written ++ [response] }) := by
  by_cases hfits : FitsFrame response
  · have hwrite : writeResponse [] response = (.ok (), frameBytes (encodeResponse response)) :=
      (writeFrame_of_le [] hfits).trans (by rw [List.nil_append])
    exact .inr ⟨hfits, by simp only [startWrite, hwrite]⟩
  · have hlong : frameMaxBytes < (encodeResponse response).length := not_le.mp hfits
    have hwrite : writeResponse [] response = (.error frameTooLong, []) := writeFrame_of_lt [] hlong
    exact .inl ⟨hfits, by simp only [startWrite, hwrite]⟩

/-- The next response of the queue comes behind those written. -/
theorem Outgoing.receive (h : s.Outgoing front [] []) (hwriting : s.writer.isReturned = false)
    {response : JobResponse} {rest : List JobResponse} (hqueue : s.responseRx = response :: rest) :
    s.run.job.responseTx.take s.handed = front ++ [response] ++ rest ∧
      front ++ [response] <+: s.run.job.responseTx := by
  have htaken : s.run.job.responseTx.take s.handed = front ++ [response] ++ rest := by
    rw [h.order hwriting, hqueue, List.append_nil, List.append_assoc, List.singleton_append]
  refine ⟨htaken, List.IsPrefix.trans ?_ (List.take_prefix s.handed _)⟩
  rw [htaken]
  exact List.prefix_append _ _

/-- The connection ends before the next response is on it whole. -/
theorem Outgoing.stop (h : s.Outgoing front taken final) {more : List JobResponse}
    {final' : List Response} {responseRx : List JobResponse}
    (hsent : front ++ more <+: s.run.job.responseTx)
    (hstage : WriterStage s.clientClosed s.readerPhase .returned more final')
    (hfinal : s.written = front.filterMap JobResponse.toResponse ++ final') :
    { s with responseRx, writer := .returned }.Outgoing front more final' where
  handed := h.handed
  sent := hsent
  order hwriting := by cases hwriting
  running := h.running
  written := hfinal
  fits := h.fits
  stage := hstage

theorem fits_concat {responses : List Response} (h : ∀ response ∈ responses, FitsFrame response)
    {last : Response} (hlast : FitsFrame last) :
    ∀ response ∈ responses ++ [last], FitsFrame response := by
  intro response hmem
  obtain hold | hnew := List.mem_append.mp hmem
  · exact h response hold
  · rwa [List.mem_singleton.mp hnew]

theorem Outgoing.forward (h : s.Outgoing front [] []) (hwriting : s.writer.isReturned = false)
    {response : JobResponse} {rest : List JobResponse} (hqueue : s.responseRx = response :: rest)
    {next : Response} (hnext : response.toResponse = some next) :
    ∃ front taken final,
      ({ s with responseRx := rest }.startWrite next false).Outgoing front taken final := by
  obtain ⟨htaken, hinitial⟩ := h.receive hwriting hqueue
  obtain ⟨hlong, hstart⟩ | ⟨hfit, hstart⟩ := startWrite_cases { s with responseRx := rest } next false
  · rw [hstart]
    have hdue : Due s.readerPhase [response] next := .inl ⟨response, rfl, hnext⟩
    exact ⟨front, [response], [], h.stop hinitial (.broken _ (.inr ⟨next, hdue, hlong⟩)) h.written⟩
  · rw [hstart]
    refine ⟨front ++ [response], [], [], h.handed, ?_, fun _ => ?_, ?_, ?_, fits_concat h.fits hfit,
      .writing _⟩
    · rwa [List.append_nil]
    · rwa [List.append_nil]
    · intro result hmem
      obtain hold | hnew := List.mem_append.mp hmem
      · exact h.running result hold
      · rw [← List.mem_singleton.mp hnew] at hnext
        cases hnext
    · have hlast : [response].filterMap JobResponse.toResponse = [next] := by
        rw [List.filterMap_cons_some hnext, List.filterMap_nil]
      rw [List.filterMap_append, hlast, h.written, List.append_nil, List.append_nil]

theorem Outgoing.writeFinal {result : Except Error LiveTranscriptionStats}
    (h : s.Outgoing front [.finished result] []) (hwriting : s.writer.isReturned = false)
    {readResult : Except Error ReadOutcome} (hphase : s.readerPhase = .returned readResult)
    (factor : F32) :
    ∃ front taken final, (s.startWrite (finalResponse factor readResult result) true).Outgoing
      front taken final := by
  obtain ⟨hlong, hstart⟩ | ⟨hfit, hstart⟩ :=
    startWrite_cases s (finalResponse factor readResult result) true
  · rw [hstart]
    have hdue : Due s.readerPhase [.finished result] (finalResponse factor readResult result) :=
      .inr ⟨result, readResult, factor, rfl, hphase, rfl⟩
    exact ⟨front, _, [], h.stop h.sent (.broken _ (.inr ⟨_, hdue, hlong⟩)) h.written⟩
  · rw [hstart]
    refine ⟨front, [.finished result], [finalResponse factor readResult result], h.handed, h.sent,
      fun _ => h.order hwriting, h.running, ?_, fits_concat h.fits hfit, .ending _ _ _ _ hphase⟩
    rw [h.written, List.append_nil]

/-- A step of the writer. A job that is gone has sent its terminal response, so that the loop over the
responses never finds its channel closed. -/
theorem Outgoing.writerStep (h : s.Outgoing front taken final)
    (hended : s.run.removed = true → ∃ init result,
      s.run.job.responseTx = init ++ [.finished result])
    {factor : F32} (hstep : s.writerStep config factor = some s') :
    ∃ front taken final, s'.Outgoing front taken final := by
  have hstage := h.stage
  unfold LiveSession.writerStep at hstep
  split at hstep
  · rename_i hwriter
    have hwriting : s.writer.isReturned = false := by rw [hwriter]; rfl
    rw [hwriter] at hstage
    cases hstage
    split at hstep
    · rename_i result rest hqueue
      obtain ⟨htaken, hinitial⟩ := h.receive hwriting hqueue
      obtain rfl := Option.some.inj hstep
      exact ⟨front, [.finished result], [], h.handed, hinitial, fun _ => htaken, h.running, h.written,
        h.fits, .joining result⟩
    · rename_i response rest hnot hqueue
      obtain ⟨next, hnext, rfl⟩ := Option.map_eq_some_iff.mp hstep
      exact h.forward hwriting hqueue hnext
    · rename_i hqueue
      simp only [Option.ite_none_right_eq_some] at hstep
      obtain ⟨⟨hremoved, hpending⟩, -⟩ := hstep
      obtain ⟨init, result, hlast⟩ := hended hremoved
      have hall := h.order hwriting
      rw [List.take_of_length_le (List.drop_eq_nil_iff.mp hpending), hqueue, List.append_nil,
        List.append_nil, hlast] at hall
      refine absurd ?_ (h.running result)
      rw [← hall]
      exact List.mem_append_right _ (List.mem_singleton_self _)
  · rename_i rest last hwriter
    have hwriting : s.writer.isReturned = false := by rw [hwriter]; rfl
    rw [hwriter] at hstage
    have hstop : last = true ∨ s.clientClosed = true →
        ∃ front taken final, { s with writer := .returned }.Outgoing front taken final := by
      intro hend
      cases hstage with
      | writing rest =>
          have hclosed := hend.resolve_left Bool.false_ne_true
          exact ⟨front, _, _, h.stop h.sent (.broken _ (.inl hclosed)) h.written⟩
      | ending rest result readResult factor hreturned =>
          exact ⟨front, _, _, h.stop h.sent (.ended result readResult factor hreturned) h.written⟩
    split at hstep
    · obtain rfl := Option.some.inj hstep
      cases last with
      | true => exact hstop (.inl rfl)
      | false =>
          cases hstage
          exact ⟨front, [], [], h.handed, h.sent, fun _ => h.order hwriting, h.running, h.written,
            h.fits, .receiving⟩
    · split at hstep
      · rename_i hclosed
        obtain rfl := Option.some.inj hstep
        exact hstop (.inr hclosed)
      · simp only [Option.ite_none_left_eq_some, Option.some.injEq] at hstep
        obtain ⟨-, rfl⟩ := hstep
        refine ⟨front, taken, final, h.handed, h.sent, fun _ => h.order hwriting, h.running, h.written,
          h.fits, ?_⟩
        cases hstage with
        | writing rest => exact .writing _
        | ending rest result readResult factor hreturned =>
            exact .ending _ result readResult factor hreturned
  · rename_i result hwriter
    have hwriting : s.writer.isReturned = false := by rw [hwriter]; rfl
    rw [hwriter] at hstage
    cases hstage
    split at hstep
    · rename_i readResult hphase
      obtain rfl := Option.some.inj hstep
      exact h.writeFinal hwriting hphase factor
    · cases hstep
  · cases hstep

/-- **What is written is in front of what the job sends.** A step lets it grow at its end. -/
theorem Outgoing.step (h : s.Outgoing front taken final) (hattached : s.Attached)
    (hended : s.run.removed = true → ∃ init result,
      s.run.job.responseTx = init ++ [.finished result])
    {event : Event} (hstep : Step config s event s') :
    ∃ front taken final, s'.Outgoing front taken final := by
  obtain ⟨-, events, hjob⟩ := hattached.of_run (.single hstep)
  have hsent := LiveRun.responseTx_run hjob
  have hphase : s.readerPhase.Returned → s'.readerPhase = s.readerPhase :=
    fun hreturned => (reader_of_returned hreturned hstep).2
  have hclosed := clientClosed_step hstep
  have hkeep : s'.handed = s.handed → s'.outbox = s.outbox →
      ∃ front taken final, s'.Outgoing front taken final :=
    fun hhanded houtbox => ⟨front, taken, final, h.keep hsent hhanded houtbox hclosed hphase⟩
  cases event with
  | client action =>
      refine hkeep ?_ (outbox_clientStep hstep)
      obtain ⟨ring, toDaemon, toClient, clientClosed, rfl⟩ := clientStep_frame hstep
      rfl
  | reader =>
      refine hkeep ?_ (outbox_readerStep hstep)
      obtain ⟨ring, toDaemon, reader, readerPhase, run, rfl⟩ := readerStep_frame hstep
      rfl
  | scheduler event =>
      have hscheduler : s.schedulerStep config event = some s' := hstep
      unfold schedulerStep at hscheduler
      cases event with
      | handOver => exact ⟨front, taken, final, h.handOver hscheduler⟩
      | head =>
          simp only [Option.ite_none_right_eq_some, Option.some.injEq] at hscheduler
          obtain ⟨-, rfl⟩ := hscheduler
          exact hkeep (handed_removeCompleted _ _) (outbox_removeCompleted _ _)
      | branch event =>
          simp only [Option.ite_none_right_eq_some, Option.map_eq_some_iff] at hscheduler
          obtain ⟨-, run, -, rfl⟩ := hscheduler
          exact hkeep rfl rfl
      | sleep =>
          simp only [Option.ite_none_right_eq_some, Option.some.injEq] at hscheduler
          obtain ⟨-, rfl⟩ := hscheduler
          exact hkeep rfl rfl
      | tail =>
          simp only [Option.ite_none_right_eq_some, Option.some.injEq] at hscheduler
          obtain ⟨-, rfl⟩ := hscheduler
          exact hkeep (handed_removeCompleted _ _) (outbox_removeCompleted _ _)
  | writer factor => exact h.writerStep hended hstep

theorem outgoing_start (capacity : UInt64) (memory : Nat → UInt8) (jobId : Nat)
    (header : RequestHeader) (vadEnabled : Bool) :
    (start capacity memory jobId header vadEnabled).Outgoing [] [] [] where
  handed := le_rfl
  sent := List.prefix_rfl
  order _ := rfl
  running _ := List.not_mem_nil
  written := rfl
  fits _ hmem := absurd hmem List.not_mem_nil
  stage := .receiving

theorem exists_job_run {capacity : UInt64} {memory : Nat → UInt8} {jobId : Nat}
    {header : RequestHeader} {vadEnabled : Bool} {events : List Event}
    (hrun : Run (Step config) (start capacity memory jobId header vadEnabled) events s) :
    ∃ more, Run (LiveRun.Step config.maxInFlight) (.start jobId header {} vadEnabled) more s.run :=
  ((attached_start capacity memory jobId header vadEnabled).of_run hrun).2

theorem outgoing_of_run {capacity : UInt64} {memory : Nat → UInt8} {jobId : Nat}
    {header : RequestHeader} {vadEnabled : Bool} {events : List Event}
    (hrun : Run (Step config) (start capacity memory jobId header vadEnabled) events s) :
    ∃ front taken final, s.Outgoing front taken final := by
  induction hrun with
  | refl => exact ⟨[], [], [], outgoing_start ..⟩
  | snoc hrun hstep ih =>
      obtain ⟨front, taken, final, hout⟩ := ih
      obtain ⟨more, hjob⟩ := exists_job_run hrun
      exact hout.step ((attached_start ..).of_run hrun).1 (LiveRun.finished_of_removed hjob) hstep

/-! ### What the client may make of it -/

/-- The responses of the job that are no end. -/
theorem filterMap_toResponse_ne_done {responses : List JobResponse} {audioS rtf : F32} :
    .done audioS rtf ∉ responses.filterMap JobResponse.toResponse := by
  intro hmem
  obtain ⟨response, -, hresponse⟩ := List.mem_filterMap.mp hmem
  cases response <;> cases hresponse

theorem finalResponse_eq_done {factor : F32} {readResult : Except Error ReadOutcome}
    {result : Except Error LiveTranscriptionStats} {audioS rtf : F32}
    (h : finalResponse factor readResult result = .done audioS rtf) :
    ∃ read stats, readResult = .ok (.completed read) ∧ result = .ok stats ∧
      audioS = samplesToSec read.totalSamples := by
  unfold finalResponse at h
  split at h
  · split at h <;> cases h
  · rename_i outcome
    split at h
    · cases h
    · rename_i stats
      simp only at h
      split at h
      · rename_i read
        cases h
        exact ⟨read, stats, rfl, rfl, rfl⟩
      · cases h

/-- The final response is written behind the job's terminal one, and by a reader that has returned. -/
theorem WriterStage.final_cases {closed : Bool} {phase : ReaderPhase} {writer : WriterPhase}
    (h : WriterStage closed phase writer taken final) :
    final = [] ∨ ∃ result readResult factor, taken = [.finished result] ∧
      final = [finalResponse factor readResult result] ∧ phase = .returned readResult := by
  cases h with
  | ending rest result readResult factor hreturned =>
      exact .inr ⟨result, readResult, factor, rfl, rfl, hreturned⟩
  | ended result readResult factor hreturned =>
      exact .inr ⟨result, readResult, factor, rfl, rfl, hreturned⟩
  | _ => exact .inl rfl

/-- A job whose completion stands behind `front` has nothing at the workers, and `front` holds the
segments of all its windows. -/
theorem completed_of_prefix {capacity : UInt64} {memory : Nat → UInt8} {jobId : Nat}
    {header : RequestHeader} {vadEnabled : Bool} {events : List Event}
    (hrun : Run (Step config) (start capacity memory jobId header vadEnabled) events s)
    {stats : LiveTranscriptionStats}
    (hinitial : front ++ [.finished (.ok stats)] <+: s.run.job.responseTx) :
    s.run.removed = true ∧ s.run.job.isComplete = true ∧ s.run.awaited = [] ∧
      s.run.job.responseTx = front ++ [.finished (.ok stats)] ∧
      front.filter JobResponse.isSegment =
        segmentsOfAnswers s.run.answers s.run.dispatched.length := by
  obtain ⟨more, hjob⟩ := exists_job_run hrun
  have hdelivery := LiveRun.Delivery.of_run hjob
  obtain ⟨back, hback⟩ := hinitial
  rw [List.append_assoc, List.singleton_append] at hback
  obtain rfl : back = [] := LiveRun.completesLast_of_run hjob front stats back hback.symm
  have hmem : .finished (.ok stats) ∈ s.run.job.responseTx := by
    rw [← hback]
    exact List.mem_append_right _ List.mem_cons_self
  obtain ⟨hremoved, hcomplete, -⟩ := hdelivery.finished stats hmem
  have hidle : s.run.job.inFlight = 0 := by
    simp only [ActiveLiveJob.isComplete, Bool.and_eq_true, beq_iff_eq] at hcomplete
    exact hcomplete.1.2
  have hcount : s.run.job.nextWindowIndex = s.run.dispatched.length := by
    rw [← List.length_range (n := s.run.job.nextWindowIndex), ← hdelivery.dispatched,
      List.length_map]
  refine ⟨hremoved, hcomplete, List.length_eq_zero_iff.mp (hdelivery.inFlight ▸ hidle), hback.symm, ?_⟩
  have hsegments := hdelivery.segments
  rw [← hback, (hdelivery.idle hidle).1, hcount, List.filter_append] at hsegments
  rwa [show [JobResponse.finished (.ok stats)].filter JobResponse.isSegment = [] from rfl,
    List.append_nil] at hsegments

/-- The final response stands behind the terminal one of the job. -/
theorem Outgoing.final_cases (h : s.Outgoing front taken final) :
    final = [] ∨ ∃ result readResult factor, final = [finalResponse factor readResult result] ∧
      front ++ [.finished result] <+: s.run.job.responseTx ∧
      s.readerPhase = .returned readResult := by
  obtain hnone | ⟨result, readResult, factor, rfl, hone, hphase⟩ := h.stage.final_cases
  · exact .inl hnone
  · exact .inr ⟨result, readResult, factor, hone, h.sent, hphase⟩

/-- Why a writer ends. -/
theorem Outgoing.returned_cases (h : s.Outgoing front taken final) (hreturned : s.writer = .returned) :
    final ≠ [] ∨ s.clientClosed = true ∨ ∃ taken response,
      front ++ taken <+: s.run.job.responseTx ∧ Due s.readerPhase taken response ∧
        ¬ FitsFrame response := by
  have hstage := h.stage
  rw [hreturned] at hstage
  cases hstage with
  | broken taken hbroken =>
      refine .inr (hbroken.imp_right ?_)
      rintro ⟨response, hdue, hlong⟩
      exact ⟨taken, response, h.sent, hdue, hlong⟩
  | ended => exact .inl (List.cons_ne_nil _ _)

/-- A `done` is the final response, to a reader that has completed and a job that has. -/
theorem Outgoing.done {capacity : UInt64} {memory : Nat → UInt8} {jobId : Nat}
    {header : RequestHeader} {vadEnabled : Bool} {events : List Event}
    (h : s.Outgoing front taken final)
    (hrun : Run (Step config) (start capacity memory jobId header vadEnabled) events s)
    {audioS rtf : F32} (hmem : .done audioS rtf ∈ s.written) :
    ∃ read stats, s.readerPhase = .returned (.ok (.completed read)) ∧
      audioS = samplesToSec read.totalSamples ∧ final = [.done audioS rtf] ∧
      s.run.job.responseTx = front ++ [.finished (.ok stats)] ∧
      s.run.removed = true ∧ s.run.job.isComplete = true ∧ s.run.awaited = [] ∧
      front.filter JobResponse.isSegment =
        segmentsOfAnswers s.run.answers s.run.dispatched.length := by
  rw [h.written] at hmem
  have hlast := (List.mem_append.mp hmem).resolve_left filterMap_toResponse_ne_done
  obtain hnone | ⟨result, readResult, factor, hone, hsent, hphase⟩ := h.final_cases
  · rw [hnone] at hlast
    cases hlast
  · rw [hone, List.mem_singleton] at hlast
    obtain ⟨read, stats, rfl, rfl, haudio⟩ := finalResponse_eq_done hlast.symm
    obtain ⟨hremoved, hcomplete, hawaited, hall, hsegments⟩ := completed_of_prefix hrun hsent
    exact ⟨read, stats, hphase, haudio, hone.trans (congrArg (fun last => [last]) hlast.symm), hall,
      hremoved, hcomplete, hawaited, hsegments⟩

/-- **What a session writes.** In any run of the four parties the responses written are those of the
job up to its first terminal one, each of a size that fits a frame, and behind them at most one final
response, which is that of the reader's outcome and the job's; a writer that ends without it has lost
its client or met a response that does not fit. A `done` is written only for a reader that has
completed, with the length that this reader has counted, and behind the segments of every window of
the job in window order, when the job is gone and no window is at a worker. -/
theorem written_of_run {capacity : UInt64} {memory : Nat → UInt8} {jobId : Nat}
    {header : RequestHeader} {vadEnabled : Bool} {events : List Event}
    (hrun : Run (Step config) (start capacity memory jobId header vadEnabled) events s) :
    ∃ front final, s.written = front.filterMap JobResponse.toResponse ++ final ∧
      front <+: s.run.job.responseTx ∧ (∀ result, .finished result ∉ front) ∧
      (∀ response ∈ s.written, FitsFrame response) ∧
      (final = [] ∨ ∃ result readResult factor, final = [finalResponse factor readResult result] ∧
        front ++ [.finished result] <+: s.run.job.responseTx ∧
        s.readerPhase = .returned readResult) ∧
      (s.writer = .returned → final ≠ [] ∨ s.clientClosed = true ∨ ∃ taken response,
        front ++ taken <+: s.run.job.responseTx ∧ Due s.readerPhase taken response ∧
          ¬ FitsFrame response) ∧
      ∀ audioS rtf, .done audioS rtf ∈ s.written →
        ∃ read stats, s.readerPhase = .returned (.ok (.completed read)) ∧
          audioS = samplesToSec read.totalSamples ∧ final = [.done audioS rtf] ∧
          s.run.job.responseTx = front ++ [.finished (.ok stats)] ∧
          s.run.removed = true ∧ s.run.job.isComplete = true ∧ s.run.awaited = [] ∧
          front.filter JobResponse.isSegment =
            segmentsOfAnswers s.run.answers s.run.dispatched.length := by
  obtain ⟨front, taken, final, hout⟩ := outgoing_of_run hrun
  exact ⟨front, final, hout.written, (List.prefix_append _ _).trans hout.sent, hout.running,
    hout.fits, hout.final_cases, hout.returned_cases, fun _ _ hmem => hout.done hrun hmem⟩

/-- What a worker makes of one chunk. -/
def chunkAnswer : WindowTranscription where
  windowIndex := 0
  absoluteStartSec := ⟨0⟩
  text := "a"
  segments := [{ startSec := ⟨0⟩, endSec := ⟨0⟩, text := "a", tokens := [2], windowIndex := 0 }]

/-- One chunk and the end of the stream, up to the last response. -/
def completedEvents : List Event :=
  [.client (.push (List.replicate 1024 0)), .client (.signal signalDataReady), .reader, .reader,
    .reader, .reader, .scheduler .head, .client (.signal signalEndOfStream), .reader, .reader,
    .reader, .scheduler .sleep, .scheduler .tail, .scheduler .head,
    .scheduler (.branch (.dispatch true)), .scheduler .tail, .scheduler .head,
    .scheduler (.branch (.whisperResult chunkAnswer)), .scheduler .handOver, .scheduler .tail,
    .scheduler .handOver, .writer ⟨0⟩, .writer ⟨0⟩, .writer ⟨0⟩, .writer ⟨0⟩, .writer ⟨0⟩]

theorem written_of_run_completed : ∃ s : LiveSession,
    s.written = [.segment "a" ⟨0⟩ ⟨0⟩, .done (samplesToSec 512) ⟨0⟩] ∧
      s.readerPhase = .returned (.ok (.completed { totalSamples := 512, totalWindows := 1 })) ∧
      s.run.removed = true ∧ s.run.job.isComplete = true ∧ s.run.awaited = [] ∧
      ∃ front stats, s.run.job.responseTx = front ++ [.finished (.ok stats)] ∧
        front.filter JobResponse.isSegment =
          segmentsOfAnswers s.run.answers s.run.dispatched.length := by
  have hview : ((completedEvents.foldlM (step cancelConfig) cancelStart).map fun s =>
      (s.written, s.readerPhase)) =
      some ([.segment "a" ⟨0⟩ ⟨0⟩, .done (samplesToSec 512) ⟨0⟩],
        .returned (.ok (.completed { totalSamples := 512, totalWindows := 1 }))) := by
    decide +kernel
  obtain ⟨s, hs, hview⟩ := Option.map_eq_some_iff.mp hview
  obtain ⟨hwritten, hphase⟩ := Prod.mk.inj hview
  obtain ⟨front, final, -, -, -, -, -, -, hdone⟩ :=
    written_of_run (Run.of_foldlM (fun _ _ _ hstep => hstep) hs)
  obtain ⟨read, stats, -, -, -, hsent, hremoved, hcomplete, hawaited, hsegments⟩ :=
    hdone (samplesToSec 512) ⟨0⟩ (hwritten ▸ List.mem_cons_of_mem _ (List.mem_singleton_self _))
  exact ⟨s, hwritten, hphase, hremoved, hcomplete, hawaited, front, stats, hsent, hsegments⟩

end LiveSession

end RkWhisper
