import RkWhisper.Lib.Termination
import RkWhisper.Proof.Backlog
import RkWhisper.Proof.Deadlock
import RkWhisper.Proof.SessionResponses
import Mathlib.Data.Prod.Lex

/-!
# The daemon's side of a session comes to rest

Signals make the reader work, its bytes make the job work, the job's work makes responses, and these
are written: a rank in that order goes down with every step of the daemon. Behind a client that has
closed its end nothing is left of the session, whatever the client did before.
-/

namespace RkWhisper

open Transition

def ReaderPhase.rank : ReaderPhase → Nat
  | .reading => 2
  | .draining _ => 4
  | .flushing finalFlush => if finalFlush then 1 else 3
  | .returned _ => 0

theorem ReaderPhase.rank_le (phase : ReaderPhase) : phase.rank ≤ 4 := by
  cases phase with
  | flushing finalFlush => cases finalFlush <;> simp [rank]
  | _ => simp [rank]

theorem LiveReader.rank_onRead_none (reader : LiveReader) :
    (reader.onRead none).1.rank < ReaderPhase.reading.rank :=
  Nat.lt_succ_self 1

theorem LiveReader.rank_onDrained (reader : LiveReader) (finalFlush : Bool)
    (result : Except Error Unit) :
    (reader.onDrained finalFlush result).1.rank < (ReaderPhase.draining finalFlush).rank := by
  cases result <;> cases finalFlush <;> simp [onDrained, ReaderPhase.rank]

theorem LiveReader.rank_onFlushed (reader : LiveReader) (finalFlush : Bool)
    (result : Except Error Unit) :
    (reader.onFlushed finalFlush result).1.rank < (ReaderPhase.flushing finalFlush).rank := by
  cases result <;> cases finalFlush <;> simp [onFlushed, ReaderPhase.rank]

/-- How far the writer is from the end of its loop. -/
def WriterPhase.rank : WriterPhase → Nat
  | .receiving => 2
  | .writing _ last => if last then 0 else 2
  | .joining _ => 1
  | .returned => 0

/-- What it is still writing, each byte of which goes into the socket. -/
def WriterPhase.left : WriterPhase → Nat
  | .writing rest _ => 2 * rest.length + 1
  | _ => 0

/-- The bytes that a response of the job is written as. -/
def JobResponse.bytes (response : JobResponse) : Nat :=
  (response.toResponse.map fun response => (frameBytes (encodeResponse response)).length).getD 0

namespace LiveSession

variable {config : SessionConfig} {s s' : LiveSession}

namespace Event

/-- An event of the daemon in which no worker refuses a VAD window. -/
def served : Event → Bool
  | .client _ => false
  | .scheduler (.branch (.sendVad sent)) => sent
  | _ => true

end Event

/-- A step of the daemon. -/
def DaemonStep (config : SessionConfig) (s : LiveSession) (event : Event) (s' : LiveSession) : Prop :=
  event.served = true ∧ Step config s event s'

/-- A signal is read, and leads to a drain and a flush. -/
def intakeRank (s : LiveSession) : Nat :=
  3 * s.toDaemon.length + s.readerPhase.rank

def audioRank (s : LiveSession) : Nat :=
  4 * s.reader.pcm.length + s.run.backlog

/-- A response goes from the scheduler to the channel, to the writer and into the socket. -/
def responseRank (s : LiveSession) : Nat :=
  (s.pending.map fun response => 2 * response.bytes + 4).sum +
    (s.responseRx.map fun response => 2 * response.bytes + 3).sum + s.writer.left + s.toClient.length

/-- A round that finds something to do is about to do it. -/
def loopRank (config : SessionConfig) (s : LiveSession) : Nat :=
  match s.loop with
  | .head => 3
  | .select => if s.run.job.stirs config.maxInFlight then 2 else 0
  | .tail => if s.run.job.stirs config.maxInFlight then 1 else 4
  | .exited => 0

def rank (config : SessionConfig) (s : LiveSession) : Nat ×ₗ Nat ×ₗ Nat ×ₗ Nat :=
  toLex (s.intakeRank, toLex (s.audioRank, toLex (s.writer.rank, s.responseRank + s.loopRank config)))

theorem rank_lt_of_intake (h : s'.intakeRank < s.intakeRank) : s'.rank config < s.rank config :=
  Prod.Lex.toLex_lt_toLex.mpr (.inl h)

theorem rank_lt_of_audio (hintake : s'.intakeRank = s.intakeRank) (h : s'.audioRank < s.audioRank) :
    s'.rank config < s.rank config :=
  Prod.Lex.toLex_lt_toLex.mpr (.inr ⟨hintake, Prod.Lex.toLex_lt_toLex.mpr (.inl h)⟩)

theorem rank_lt_of_writer (hintake : s'.intakeRank = s.intakeRank)
    (haudio : s'.audioRank = s.audioRank) (h : s'.writer.rank < s.writer.rank) :
    s'.rank config < s.rank config :=
  Prod.Lex.toLex_lt_toLex.mpr (.inr ⟨hintake, Prod.Lex.toLex_lt_toLex.mpr
    (.inr ⟨haudio, Prod.Lex.toLex_lt_toLex.mpr (.inl h)⟩)⟩)

theorem rank_lt_of_response (hintake : s'.intakeRank = s.intakeRank)
    (haudio : s'.audioRank = s.audioRank) (hwriter : s'.writer.rank = s.writer.rank)
    (h : s'.responseRank + s'.loopRank config < s.responseRank + s.loopRank config) :
    s'.rank config < s.rank config :=
  Prod.Lex.toLex_lt_toLex.mpr (.inr ⟨hintake, Prod.Lex.toLex_lt_toLex.mpr
    (.inr ⟨haudio, Prod.Lex.toLex_lt_toLex.mpr (.inr ⟨hwriter, h⟩)⟩)⟩)

/-! ### The reader -/

theorem backlog_returnReader (s : LiveSession) (result : Except Error ReadOutcome) :
    (s.returnReader config result).run.backlog = s.run.backlog := by
  simp only [returnReader]
  split
  · rfl
  · exact LiveRun.backlog_hangUp s.run

theorem moveReader_ranks (s : LiveSession) (phase : ReaderPhase) :
    (s.moveReader config phase).intakeRank = 3 * s.toDaemon.length + phase.rank ∧
      (s.moveReader config phase).audioRank = s.audioRank := by
  cases phase with
  | returned result =>
      refine ⟨rfl, ?_⟩
      simp only [moveReader, audioRank, backlog_returnReader]
      rfl
  | _ => exact ⟨rfl, rfl⟩

theorem rank_sendChunk {finalFlush : Bool} (hphase : s.readerPhase = .flushing finalFlush)
    {reader : LiveReader} {chunk : Bytes} (hpos : 0 < chunk.length)
    (hlength : reader.pcm.length + chunk.length = s.reader.pcm.length)
    (hstep : s.sendChunk config reader chunk = some s') : s'.rank config < s.rank config := by
  have hflushing : 0 < s.readerPhase.rank := by
    rw [hphase]
    cases finalFlush <;> simp [ReaderPhase.rank]
  have hreturn : ∀ (reader : LiveReader) result,
      ({ s with reader := reader }.returnReader config result).intakeRank < s.intakeRank :=
    fun _ _ => Nat.add_lt_add_left hflushing _
  unfold LiveSession.sendChunk at hstep
  split at hstep
  · obtain rfl := Option.some.inj hstep
    exact rank_lt_of_intake (hreturn _ _)
  · rename_i sent hsend
    split at hstep
    · obtain rfl := Option.some.inj hstep
      exact rank_lt_of_intake (hreturn _ _)
    · split at hstep
      · obtain rfl := Option.some.inj hstep
        refine rank_lt_of_audio rfl ?_
        have hpcm : sent.pcm = reader.pcm := by
          rw [← LiveReader.sendChunk_pcm reader chunk, hsend]
        simp only [audioRank, LiveRun.backlog_arrive_ok, length_samplesOfPcm, hpcm]
        omega
      · cases hstep

theorem rank_readerStep (hstep : s.readerStep config = some s') : s'.rank config < s.rank config := by
  unfold LiveSession.readerStep at hstep
  split at hstep
  · rename_i hphase
    split at hstep
    · rename_i hsocket
      simp only [Option.ite_none_right_eq_some, Option.some.injEq] at hstep
      obtain ⟨-, rfl⟩ := hstep
      apply rank_lt_of_intake
      rw [(moveReader_ranks _ _).1, intakeRank, hphase]
      exact Nat.add_lt_add_left (s.reader.rank_onRead_none) _
    · rename_i signal toDaemon hsocket
      apply rank_lt_of_intake
      obtain ⟨reader, readerPhase, run, rfl⟩ := takeSignal_frame hstep
      have hrank := readerPhase.rank_le
      have hreading : s.readerPhase.rank = 2 := congrArg ReaderPhase.rank hphase
      simp only [intakeRank, hreading, hsocket, List.length_cons]
      omega
  · rename_i finalFlush hphase
    obtain rfl := Option.some.inj hstep
    apply rank_lt_of_intake
    rw [(moveReader_ranks _ _).1, intakeRank, hphase]
    exact Nat.add_lt_add_left (LiveReader.rank_onDrained _ finalFlush _) _
  · rename_i finalFlush hphase
    simp only [LiveSession.flushStep] at hstep
    split at hstep
    · rename_i hfull
      have htake : (s.reader.pcm.take LiveReader.chunkBytes).length = LiveReader.chunkBytes := by
        rw [List.length_take, min_eq_left hfull]
      refine rank_sendChunk hphase ?_ ?_ hstep
      · rw [htake]
        decide
      · rw [htake, List.length_drop, Nat.sub_add_cancel hfull]
    · split at hstep
      · rename_i hfinal
        exact rank_sendChunk hphase (List.length_pos_iff.mpr hfinal.2) (Nat.zero_add _) hstep
      · obtain rfl := Option.some.inj hstep
        apply rank_lt_of_intake
        rw [(moveReader_ranks _ _).1, intakeRank, hphase]
        exact Nat.add_lt_add_left (s.reader.rank_onFlushed finalFlush _) _
  · cases hstep

/-! ### The scheduler -/

theorem rank_lt_of_backlog (hintake : s'.intake = s.intake)
    (h : s'.run.backlog < s.run.backlog) : s'.rank config < s.rank config := by
  simp only [intake, Prod.mk.injEq] at hintake
  obtain ⟨-, hsocket, -, hreader, hphase⟩ := hintake
  apply rank_lt_of_audio
  · rw [intakeRank, intakeRank, hsocket, hphase]
  · rw [audioRank, audioRank, hreader]
    exact Nat.add_lt_add_left h _

theorem rank_lt_of_loop {loop : LoopPhase}
    (h : { s with loop }.loopRank config < s.loopRank config) :
    { s with loop }.rank config < s.rank config :=
  rank_lt_of_response rfl rfl rfl (Nat.add_lt_add_left h _)

/-- A job that is complete leaves nothing for the loop to do. -/
theorem backlog_removeCompleted (hremoved : s.run.removed = false) (loop : LoopPhase)
    (hcomplete : s.run.job.isComplete = true) :
    (s.removeCompleted config loop).run.backlog < s.run.backlog := by
  rw [removeCompleted, if_pos hcomplete]
  exact LiveRun.backlog_finish_lt config.maxInFlight hremoved hcomplete

theorem intake_removeCompleted (s : LiveSession) (loop : LoopPhase) :
    (s.removeCompleted config loop).intake = s.intake := by
  unfold removeCompleted
  split <;> rfl

theorem rank_handOver (hstep : s.handOver config = some s') : s'.rank config < s.rank config := by
  unfold LiveSession.handOver at hstep
  split at hstep
  · cases hstep
  · rename_i response rest hpending
    have hrest : s.run.job.responseTx.drop (s.handed + 1) = rest := by
      have hdrop : s.run.job.responseTx.drop s.handed = response :: rest := hpending
      rw [← List.tail_drop, hdrop, List.tail_cons]
    split at hstep
    · obtain rfl := Option.some.inj hstep
      refine rank_lt_of_response rfl rfl rfl (Nat.add_lt_add_right ?_ _)
      simp only [responseRank, pending, hrest]
      change _ < ((s.pending.map _).sum + _ + _ + _)
      rw [hpending, List.map_cons, List.sum_cons]
      omega
    · simp only [Option.ite_none_right_eq_some, Option.some.injEq] at hstep
      obtain ⟨-, rfl⟩ := hstep
      refine rank_lt_of_response rfl rfl rfl (Nat.add_lt_add_right ?_ _)
      simp only [responseRank, pending, hrest, List.map_append, List.map_singleton, List.sum_append,
        List.sum_singleton]
      change _ < ((s.pending.map _).sum + _ + _ + _)
      rw [hpending, List.map_cons, List.sum_cons]
      omega

theorem rank_headStep (hremoved : s.run.removed = false) (hloop : s.loop = .head) :
    (s.headStep config).rank config < s.rank config := by
  have hintake : (s.headStep config).intake = s.intake := intake_removeCompleted _ _
  have hdrained := s.run.next_drain_cases config.maxInFlight
  unfold headStep at hintake ⊢
  by_cases hcomplete : (s.run.next config.maxInFlight .drain).job.isComplete = true
  · apply rank_lt_of_backlog hintake
    have hless := @backlog_removeCompleted config
      { s with run := s.run.next config.maxInFlight .drain } hremoved .select hcomplete
    obtain hsame | hdrain := hdrained
    · exact hless.trans_eq (congrArg LiveRun.backlog hsame)
    · exact hless.trans hdrain
  · rw [removeCompleted, if_neg hcomplete] at hintake ⊢
    obtain hsame | hdrain := hdrained
    · simp only [hsame]
      apply rank_lt_of_loop
      simp only [loopRank, hloop]
      split <;> decide
    · exact rank_lt_of_backlog hintake hdrain

theorem rank_tailStep (hremoved : s.run.removed = false) (hloop : s.loop = .tail) :
    (s.tailStep config).rank config < s.rank config := by
  have hintake : (s.tailStep config).intake = s.intake := intake_removeCompleted _ _
  have hround := s.run.round_cases config.maxInFlight
  have htail : s.tailStep config =
      { s with run := s.run.round config.maxInFlight }.removeCompleted config .head := rfl
  rw [htail] at hintake ⊢
  by_cases hcomplete : (s.run.round config.maxInFlight).job.isComplete = true
  · apply rank_lt_of_backlog hintake
    have hless := @backlog_removeCompleted config
      { s with run := s.run.round config.maxInFlight } hremoved .head hcomplete
    obtain hsame | hround := hround
    · exact hless.trans_eq (congrArg LiveRun.backlog hsame)
    · exact hless.trans hround
  · rw [removeCompleted, if_neg hcomplete] at hintake ⊢
    cases hstirs : s.run.job.stirs config.maxInFlight with
    | true =>
        apply rank_lt_of_backlog hintake
        exact LiveRun.backlog_round_lt hstirs (Bool.eq_false_of_not_eq_true hcomplete)
    | false =>
        obtain hsame | hround := hround
        · simp only [hsame]
          apply rank_lt_of_loop
          simp only [loopRank, hloop, hstirs]
          decide
        · exact rank_lt_of_backlog hintake hround

theorem rank_schedulerStep {vad : Option VadConfig} (hattached : s.Attached)
    (haudio : s.run.AudioInvariant vad) (hwindow : ∀ config ∈ vad, 1 ≤ config.windowSamples)
    (hdelivery : s.run.Delivery config.maxInFlight) {event : SchedulerEvent}
    (hserved : (Event.scheduler event).served = true)
    (hstep : s.schedulerStep config event = some s') : s'.rank config < s.rank config := by
  have hrunning : s.loop ≠ .exited → s.run.removed = false := by
    intro hloop
    rw [← Bool.not_eq_true, hattached.exited]
    exact hloop
  have hintake := intake_schedulerStep hstep
  unfold schedulerStep at hstep
  cases event with
  | handOver => exact rank_handOver hstep
  | head =>
      simp only [Option.ite_none_right_eq_some, Option.some.injEq] at hstep
      obtain ⟨⟨-, hloop⟩, rfl⟩ := hstep
      exact rank_headStep (hrunning (by simp [hloop])) hloop
  | branch event =>
      simp only [Option.ite_none_right_eq_some, Option.map_eq_some_iff] at hstep
      obtain ⟨⟨-, hloop, hmay⟩, run, hrun, rfl⟩ := hstep
      apply rank_lt_of_backlog hintake
      have hserves : event.Serves → run.backlog < s.run.backlog := fun hserves =>
        LiveRun.backlog_lt_of_serves haudio hwindow hdelivery hserves hrun
      cases event with
      | sendVad sent => exact hserves hserved
      | vadResult result => exact hserves trivial
      | dispatch sent => exact hserves trivial
      | whisperResult result => exact hserves trivial
      | abort error =>
          obtain ⟨-, rfl⟩ := LiveRun.step_eq_some_iff.mp hrun
          exact LiveRun.backlog_abort_lt config.maxInFlight (hrunning (by simp [hloop])) error
      | _ => cases hmay
  | sleep =>
      simp only [Option.ite_none_right_eq_some, Option.some.injEq] at hstep
      obtain ⟨⟨-, hloop, hstirs⟩, rfl⟩ := hstep
      apply rank_lt_of_loop
      simp only [loopRank, hloop, hstirs]
      decide
  | tail =>
      simp only [Option.ite_none_right_eq_some, Option.some.injEq] at hstep
      obtain ⟨⟨-, hloop⟩, rfl⟩ := hstep
      exact rank_tailStep (hrunning (by simp [hloop])) hloop

/-! ### The writer -/

theorem rank_startWrite_last (hwriter : 0 < s.writer.rank) (response : Response) :
    (s.startWrite response true).rank config < s.rank config := by
  obtain ⟨-, hstart⟩ | ⟨-, hstart⟩ := startWrite_cases s response true
  · rw [hstart]
    exact rank_lt_of_writer rfl rfl hwriter
  · rw [hstart]
    exact rank_lt_of_writer rfl rfl hwriter

/-- The bytes of a response were weighed before it was taken. -/
theorem rank_startWrite (hwriter : s.writer = .receiving) {response : JobResponse}
    {rest : List JobResponse} (hqueue : s.responseRx = response :: rest) {next : Response}
    (hnext : response.toResponse = some next) :
    ({ s with responseRx := rest }.startWrite next false).rank config < s.rank config := by
  have hrank : s.writer.rank = 2 := congrArg WriterPhase.rank hwriter
  obtain ⟨-, hstart⟩ | ⟨-, hstart⟩ := startWrite_cases { s with responseRx := rest } next false
  · rw [hstart]
    refine rank_lt_of_writer rfl rfl ?_
    rw [hrank]
    exact Nat.zero_lt_two
  · rw [hstart]
    refine rank_lt_of_response rfl rfl hrank.symm (Nat.add_lt_add_right ?_ _)
    have hbytes : response.bytes = (frameBytes (encodeResponse next)).length := by
      rw [JobResponse.bytes, hnext]
      rfl
    have hleft : s.writer.left = 0 := congrArg WriterPhase.left hwriter
    rw [responseRank, responseRank, hleft]
    simp only [hqueue, hbytes, List.map_cons, List.sum_cons, WriterPhase.left, pending]
    omega

theorem rank_writerStep {factor : F32} (hstep : s.writerStep config factor = some s') :
    s'.rank config < s.rank config := by
  unfold LiveSession.writerStep at hstep
  split at hstep
  · rename_i hwriter
    have hrank : s.writer.rank = 2 := congrArg WriterPhase.rank hwriter
    split at hstep
    · obtain rfl := Option.some.inj hstep
      refine rank_lt_of_writer rfl rfl ?_
      rw [hrank]
      exact Nat.one_lt_two
    · rename_i response rest hnot hqueue
      obtain ⟨next, hnext, rfl⟩ := Option.map_eq_some_iff.mp hstep
      exact rank_startWrite hwriter hqueue hnext
    · simp only [Option.ite_none_right_eq_some, Option.some.injEq] at hstep
      obtain ⟨-, rfl⟩ := hstep
      exact rank_startWrite_last (by rw [hrank]; decide) _
  · rename_i rest last hwriter
    have hleft : s.writer.left = 2 * rest.length + 1 := congrArg WriterPhase.left hwriter
    have hreturn : { s with writer := .returned }.rank config < s.rank config := by
      cases last with
      | true =>
          refine rank_lt_of_response rfl rfl (congrArg WriterPhase.rank hwriter).symm
            (Nat.add_lt_add_right ?_ _)
          rw [responseRank, responseRank, hleft]
          simp only [WriterPhase.left, pending]
          omega
      | false =>
          refine rank_lt_of_writer rfl rfl ?_
          rw [hwriter]
          exact Nat.zero_lt_two
    split at hstep
    · obtain rfl := Option.some.inj hstep
      cases last with
      | true => exact hreturn
      | false =>
          refine rank_lt_of_response rfl rfl (congrArg WriterPhase.rank hwriter).symm
            (Nat.add_lt_add_right ?_ _)
          rw [responseRank, responseRank, hleft]
          simp only [WriterPhase.left, pending, Bool.false_eq_true, if_false]
          omega
    · rename_i hrest
      split at hstep
      · obtain rfl := Option.some.inj hstep
        exact hreturn
      · simp only [Option.ite_none_left_eq_some, Option.some.injEq] at hstep
        obtain ⟨hroom, rfl⟩ := hstep
        have hpos := List.length_pos_iff.mpr hrest
        refine rank_lt_of_response rfl rfl (congrArg WriterPhase.rank hwriter).symm
          (Nat.add_lt_add_right ?_ _)
        rw [responseRank, responseRank, hleft]
        simp only [WriterPhase.left, pending, List.length_append, List.length_take, List.length_drop]
        omega
  · rename_i result hwriter
    have hrank : s.writer.rank = 1 := congrArg WriterPhase.rank hwriter
    split at hstep
    · obtain rfl := Option.some.inj hstep
      exact rank_startWrite_last (by rw [hrank]; decide) _
    · cases hstep
  · cases hstep

/-! ### Runs of the daemon -/

/-- **Every step of the daemon lowers the rank.** -/
theorem rank_step {vad : Option VadConfig} (hattached : s.Attached)
    (haudio : s.run.AudioInvariant vad) (hwindow : ∀ config ∈ vad, 1 ≤ config.windowSamples)
    (hdelivery : s.run.Delivery config.maxInFlight) {event : Event}
    (hstep : DaemonStep config s event s') : s'.rank config < s.rank config := by
  obtain ⟨hserved, hstep⟩ := hstep
  cases event with
  | client action => cases hserved
  | reader => exact rank_readerStep hstep
  | scheduler event => exact rank_schedulerStep hattached haudio hwindow hdelivery hserved hstep
  | writer factor => exact rank_writerStep hstep

variable {capacity : UInt64} {memory : Nat → UInt8} {jobId : Nat} {header : RequestHeader}
  {vadEnabled : Bool} {events : List Event}

/-- A job that goes wrong has lost its workers or its reader. -/
def Excused (config : SessionConfig) (s : LiveSession) : Prop :=
  s.readerPhase.Returned ∨ s.run.removed = true ∨ s.run.Undisturbed config.maxInFlight

theorem irregular_cases {event : Event} (hirregular : ¬ s.Regular event)
    (hstep : Step config s event s') : s'.readerPhase.Returned ∨ s'.run.removed = true := by
  cases event with
  | client action => exact absurd trivial hirregular
  | reader =>
      simp only [Regular, not_forall, not_or] at hirregular
      obtain ⟨hphase, signal, hsignal, hready, hend, hcancel⟩ := hirregular
      obtain ⟨toDaemon, hsocket⟩ := List.head?_eq_some_iff.mp hsignal
      have hreader : s.readerStep config = some s' := hstep
      simp only [LiveSession.readerStep, hphase, hsocket, takeSignal, LiveReader.onRead, if_neg hready,
        if_neg hend, if_neg hcancel] at hreader
      refine .inl ?_
      split at hreader
      · obtain rfl := Option.some.inj hreader
        exact ⟨_, rfl⟩
      · simp only [Option.ite_none_right_eq_some, Option.some.injEq] at hreader
        obtain ⟨-, rfl⟩ := hreader
        exact ⟨_, rfl⟩
  | scheduler event =>
      cases event with
      | branch event =>
          have hscheduler : s.schedulerStep config (.branch event) = some s' := hstep
          simp only [LiveSession.schedulerStep, Option.ite_none_right_eq_some,
            Option.map_eq_some_iff] at hscheduler
          obtain ⟨⟨-, -, hmay⟩, run, hrun, rfl⟩ := hscheduler
          refine .inr ((LiveRun.removed_step hrun).mpr ?_)
          cases event with
          | abort error => exact .inr ⟨error, rfl⟩
          | arrive chunk => cases hmay
          | _ => exact absurd trivial hirregular
      | _ => exact absurd trivial hirregular
  | writer factor => exact absurd trivial hirregular

theorem removed_of_run {maxInFlight : Nat} {run run' : LiveRun} {events : List LiveRun.Event}
    (hremoved : run.removed = true) (h : Run (LiveRun.Step maxInFlight) run events run') :
    run'.removed = true :=
  h.invariant (P := fun _ run => run.removed = true) hremoved fun _ _ _ _ hinv hstep => by
    have hthere := (LiveRun.step_eq_some_iff.mp hstep).1.1
    rw [hinv] at hthere
    cases hthere

theorem Excused.step (h : s.Excused config) (hattached : s.Attached) {event : Event}
    (hstep : Step config s event s') : s'.Excused config := by
  obtain ⟨-, steps, hsteps⟩ := hattached.of_run (.single hstep)
  obtain hreturned | hremoved | hjob := h
  · have hphase := (reader_of_returned hreturned hstep).2
    exact .inl (hphase ▸ hreturned)
  · exact .inr (.inl (removed_of_run hremoved hsteps))
  · by_cases hregular : s.Regular event
    · obtain ⟨-, events, hrun, hall⟩ :=
        @Attached.step config True _ _ hattached event (fun _ => hregular) hstep
      exact .inr (.inr (hjob.of_run (hall trivial) hrun))
    · exact (irregular_cases hregular hstep).imp_right .inl

/-- A worker that would refuse a VAD window could take it. -/
theorem schedulerStep_of_served (hnone : ∀ event, (Event.scheduler event).served = true →
      (Event.scheduler event).answered = true → s.schedulerStep config event = none)
    {event : SchedulerEvent} (hanswered : (Event.scheduler event).answered = true) :
    s.schedulerStep config event = none := by
  cases event with
  | branch event =>
      cases event with
      | sendVad sent =>
          rw [Option.eq_none_iff_forall_not_mem]
          intro next hnext
          simp only [schedulerStep, Option.mem_def, Option.ite_none_right_eq_some,
            Option.map_eq_some_iff] at hnext
          obtain ⟨⟨hpending, hloop, -⟩, run, hrun, -⟩ := hnext
          obtain ⟨⟨hremoved, hready⟩, -⟩ := LiveRun.step_eq_some_iff.mp hrun
          have htaken : s.run.step config.maxInFlight (.sendVad true) = some _ :=
            LiveRun.step_eq_some_iff.mpr ⟨⟨hremoved, hready⟩, rfl⟩
          have hsent := hnone (.branch (.sendVad true)) rfl rfl
          rw [schedulerStep, if_pos ⟨hpending, hloop, rfl⟩, htaken] at hsent
          cases hsent
      | _ => exact hnone _ rfl hanswered
  | _ => exact hnone _ rfl rfl

/-- **Nothing is left of the session.** -/
structure Over (s : LiveSession) : Prop where
  removed : s.run.removed = true
  pending : s.pending = []
  reader : s.readerPhase.Returned
  writer : s.writer = .returned

/-- The daemon is at rest. -/
theorem Over.step_eq_none (h : s.Over) (hattached : s.Attached) {event : Event}
    (hdaemon : ∀ action, event ≠ .client action) : s.step config event = none := by
  obtain ⟨result, hphase⟩ := h.reader
  have hloop := hattached.exited.mp h.removed
  cases event with
  | client action => exact absurd rfl (hdaemon action)
  | reader => simp only [LiveSession.step, LiveSession.readerStep, hphase]
  | scheduler event =>
      cases event <;> simp [LiveSession.step, LiveSession.schedulerStep, LiveSession.handOver, h.pending,
        hloop]
  | writer factor => simp only [LiveSession.step, LiveSession.writerStep, h.writer]

end LiveSession

end RkWhisper
