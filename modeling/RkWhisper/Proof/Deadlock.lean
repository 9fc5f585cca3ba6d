import RkWhisper.Proof.OneShot

/-!
# When one-shot transcription deadlocks

The client reads no response before all of its audio is in the ring, and the daemon reads no audio
while it cannot write its responses. Whenever the four parties wait for each other, they wait in this
circle and in no other; and from every state in which the circle is closed the client runs into its
end of it.
-/

namespace RkWhisper

open Transition

namespace OneShotPhase

/-- The signals still to come if one push takes all that is left. -/
def signalsLeft : OneShotPhase → Nat
  | .sending rest => if rest = [] then 1 else 2
  | .signalling rest => if rest = [] then 2 else 3
  | _ => 0

theorem signalsLeft_of_not_sends {client : OneShotPhase} (h : ¬ client.Sends) :
    client.signalsLeft = 0 := by
  cases client with
  | sending rest => exact absurd trivial h
  | signalling rest => exact absurd trivial h
  | _ => rfl

theorem signalsLeft_pos {client : OneShotPhase} (h : client.Sends) : 1 ≤ client.signalsLeft := by
  cases client with
  | sending rest =>
      simp only [signalsLeft]
      split <;> omega
  | signalling rest =>
      simp only [signalsLeft]
      split <;> omega
  | _ => exact h.elim

/-- Twice the pushes that are left, at most one byte each, and the signal for the last one. -/
def work : OneShotPhase → Nat
  | .sending rest => 2 * rest.length
  | .signalling rest => 2 * rest.length + 1
  | _ => 0

end OneShotPhase

/-! ### What each party waits for -/

/-- Every queue has room for something. -/
structure SessionConfig.Positive (config : SessionConfig) : Prop where
  maxInFlightWindowsPerJob : 1 ≤ config.maxInFlightWindowsPerJob
  clientWindowQueueDepth : 1 ≤ config.clientWindowQueueDepth
  clientResponseQueueDepth : 1 ≤ config.clientResponseQueueDepth
  clientSendBuffer : 1 ≤ config.clientSendBuffer
  daemonSendBuffer : 1 ≤ config.daemonSendBuffer

theorem SessionConfig.Positive.maxInFlight {config : SessionConfig} (h : config.Positive) :
    1 ≤ config.maxInFlight :=
  le_min h.maxInFlightWindowsPerJob (by decide)

namespace LiveSession

variable {config : SessionConfig} {s : LiveSession}

/-- The reader, the scheduler and the writer each hold something for a queue that is full. -/
structure Jammed (config : SessionConfig) (s : LiveSession) : Prop where
  running : s.run.removed = false
  flushing : s.readerPhase = .flushing false
  chunk : LiveReader.chunkBytes ≤ s.reader.pcm.length
  chunks : config.clientWindowQueueDepth ≤ s.run.job.chunkRx.queue.length
  pending : s.pending ≠ []
  responses : config.clientResponseQueueDepth ≤ s.responseRx.length
  writing : ∃ rest last, s.writer = .writing rest last ∧ rest ≠ []
  socket : config.daemonSendBuffer ≤ s.toClient.length

theorem sendChunk_eq_none {reader : LiveReader} {chunk : Bytes}
    (h : s.sendChunk config reader chunk = none) :
    config.clientWindowQueueDepth ≤ s.run.job.chunkRx.queue.length := by
  unfold sendChunk at h
  split at h
  · cases h
  · simp only [chunkRoom, decide_eq_true_eq] at h
    split at h
    · cases h
    · simpa using h

theorem flushStep_eq_none {finalFlush : Bool} (h : s.flushStep config finalFlush = none) :
    config.clientWindowQueueDepth ≤ s.run.job.chunkRx.queue.length ∧
      (finalFlush = false → LiveReader.chunkBytes ≤ s.reader.pcm.length) := by
  simp only [flushStep] at h
  split at h
  · rename_i hfull
    exact ⟨sendChunk_eq_none h, fun _ => hfull⟩
  · split at h
    · rename_i hfinal
      refine ⟨sendChunk_eq_none h, fun hfalse => ?_⟩
      rw [hfinal.1] at hfalse
      cases hfalse
    · cases h

theorem handOver_eq_none (hpending : s.pending ≠ []) (h : s.handOver config = none) :
    config.clientResponseQueueDepth ≤ s.responseRx.length ∧ s.writer ≠ .returned := by
  unfold handOver at h
  split at h
  · rename_i hnil
    exact absurd hnil hpending
  · split at h
    · cases h
    · rename_i hwriter
      split at h
      · cases h
      · rename_i hfull
        refine ⟨not_lt.mp hfull, ?_⟩
        rintro hreturned
        rw [hreturned] at hwriter
        exact hwriter rfl

/-- A scheduler that takes no step has ended, has a response in hand, or has nothing to do. -/
theorem schedulerStep_eq_none (hattached : s.Attached)
    (h : ∀ event, (Event.scheduler event).answered = true → s.schedulerStep config event = none) :
    (s.pending ≠ [] ∧ config.clientResponseQueueDepth ≤ s.responseRx.length ∧
        s.writer ≠ .returned) ∨
      (s.pending = [] ∧ s.run.removed = true) ∨
      (s.pending = [] ∧ s.run.Blocked config.maxInFlight ∧
        s.run.job.stirs config.maxInFlight = false) := by
  by_cases hpending : s.pending = []
  · refine .inr ?_
    cases hloop : s.loop with
    | head =>
        have hhead := h .head rfl
        simp [schedulerStep, hpending, hloop] at hhead
    | tail =>
        have htail := h .tail rfl
        simp [schedulerStep, hpending, hloop] at htail
    | exited => exact .inl ⟨hpending, hattached.exited.mpr hloop⟩
    | select =>
        have hremoved : s.run.removed = false := by
          rw [← Bool.not_eq_true, hattached.exited, hloop]
          exact fun hexited => LoopPhase.noConfusion hexited
        refine .inr ⟨hpending, ?_, ?_⟩
        · intro event hregular hmay henabled
          have hanswered : (Event.scheduler (.branch event)).answered = true := by
            cases event with
            | abort error => exact hregular.elim
            | _ => rfl
          have hbranch := h (.branch event) hanswered
          simp [schedulerStep, hpending, hloop, hmay, LiveRun.step, hremoved, henabled] at hbranch
        · have hsleep := h .sleep rfl
          simpa [schedulerStep, hpending, hloop] using hsleep
  · obtain ⟨hfull, hwriter⟩ := handOver_eq_none hpending (h .handOver rfl)
    exact .inl ⟨hpending, hfull, hwriter⟩

/-- What a writer that takes no step waits for. -/
theorem writerStep_eq_none (hconnected : s.clientClosed = false) {factor : F32}
    (h : s.writerStep config factor = none) :
    (s.writer = .receiving ∧ s.responseRx = [] ∧ ¬ (s.run.removed = true ∧ s.pending = [])) ∨
      (∃ rest last, s.writer = .writing rest last ∧ rest ≠ [] ∧
        config.daemonSendBuffer ≤ s.toClient.length) ∨
      (∃ result, s.writer = .joining result ∧ ¬ s.readerPhase.Returned) ∨ s.writer = .returned := by
  unfold writerStep at h
  split at h
  · rename_i hwriter
    refine .inl ⟨hwriter, ?_⟩
    split at h
    · cases h
    · rename_i response responseRx hfinished _
      cases response with
      | finished result => exact absurd rfl (hfinished result)
      | _ => cases h
    · rename_i hempty
      refine ⟨hempty, fun hended => ?_⟩
      rw [if_pos hended] at h
      cases h
  · rename_i rest last hwriter
    refine .inr (.inl ⟨rest, last, hwriter, ?_⟩)
    simp only [hconnected, Bool.false_eq_true, if_false] at h
    split at h
    · cases h
    · rename_i hrest
      split at h
      · rename_i hroom
        exact ⟨hrest, Nat.sub_eq_zero_iff_le.mp hroom⟩
      · cases h
  · rename_i result hwriter
    refine .inr (.inr (.inl ⟨result, hwriter, ?_⟩))
    rintro ⟨readResult, hreturned⟩
    rw [hreturned] at h
    cases h
  · rename_i hwriter
    exact .inr (.inr (.inr hwriter))

/-- The daemon cannot move before the client reads. -/
theorem Jammed.step_eq_none (h : s.Jammed config) (hconnected : s.clientClosed = false)
    (event : Event) (hanswered : event.answered = true) : s.step config event = none := by
  obtain ⟨hremoved, hphase, hchunk, hchunks, hpending, hresponses, ⟨rest, last, hwriter, hrest⟩,
    hsocket⟩ := h
  cases event with
  | client action => cases hanswered
  | reader =>
      have heven : (s.reader.pcm.take LiveReader.chunkBytes).length % 2 = 0 := by
        rw [List.length_take, min_eq_left hchunk]
        rfl
      simp only [step, readerStep, hphase, flushStep, if_pos hchunk, sendChunk,
        LiveReader.sendChunk, pcmS16leToF32_of_even heven, hremoved, chunkRoom]
      simp [not_lt.mpr hchunks]
  | scheduler event =>
      cases event with
      | handOver =>
          obtain ⟨response, more, hlist⟩ := List.exists_cons_of_ne_nil hpending
          simp [step, schedulerStep, handOver, hlist, hwriter, WriterPhase.isReturned,
            not_lt.mpr hresponses]
      | _ => simp [step, schedulerStep, hpending]
  | writer factor =>
      simp [step, writerStep, hwriter, hrest, hconnected, Nat.sub_eq_zero_of_le hsocket]

end LiveSession

namespace OneShot

open LiveSession

variable {config : SessionConfig} {total : Nat} {c c' : OneShot}

/-- No party can take a step. -/
def Stuck (config : SessionConfig) (c : OneShot) : Prop :=
  ∀ event, c.step config event = none

/-- The ring and the socket to the daemon do not hold what the client has left to send. -/
def Overflows (config : SessionConfig) (c : OneShot) : Prop :=
  c.session.ring.free < c.client.unsent.length ∨
    config.clientSendBuffer < c.session.toDaemon.length + c.client.signalsLeft

/-- The daemon waits for the client to read, and the client will not get to reading. -/
structure Deadlocked (config : SessionConfig) (c : OneShot) : Prop where
  jammed : c.session.Jammed config
  sends : c.client.Sends
  overflows : c.Overflows config

theorem Invariant.reader_blocked (h : c.Invariant config total)
    (hstep : c.session.readerStep config = none) :
    c.session.readerPhase.Returned ∨
      (c.session.readerPhase = .reading ∧ c.session.toDaemon = []) ∨
      ∃ finalFlush, c.session.readerPhase = .flushing finalFlush ∧
        config.clientWindowQueueDepth ≤ c.session.run.job.chunkRx.queue.length ∧
        (finalFlush = false → LiveReader.chunkBytes ≤ c.session.reader.pcm.length) := by
  cases hphase : c.session.readerPhase with
  | reading =>
      refine .inr (.inl ⟨rfl, ?_⟩)
      obtain ⟨count, hcount⟩ := h.signals (by rw [hphase]; rfl)
      cases count with
      | zero =>
          cases hsocket : c.session.toDaemon with
          | nil => rfl
          | cons signal toDaemon =>
              have hmem : signal ∈ c.client.lastSignal := by
                rw [hsocket, List.replicate_zero, List.nil_append] at hcount
                rw [← hcount]
                exact List.mem_cons_self
              obtain rfl := OneShotPhase.mem_lastSignal hmem
              simp only [LiveSession.readerStep, hphase, hsocket, takeSignal_endOfStream] at hstep
              cases hstep
      | succ count =>
          rw [List.replicate_succ, List.cons_append] at hcount
          simp only [LiveSession.readerStep, hphase, hcount, takeSignal_dataReady] at hstep
          cases hstep
  | draining finalFlush =>
      simp only [LiveSession.readerStep, hphase] at hstep
      cases hstep
  | flushing finalFlush =>
      simp only [LiveSession.readerStep, hphase] at hstep
      exact .inr (.inr ⟨finalFlush, rfl, flushStep_eq_none hstep⟩)
  | returned result => exact .inl ⟨result, rfl⟩

/-- What a client that takes no step waits for. -/
theorem Invariant.client_blocked (h : c.Invariant config total) (hmax : total < 2 ^ 64)
    (hstep : c.clientStep config = none) :
    (c.client.Sends ∧ config.clientSendBuffer ≤ c.session.toDaemon.length) ∨
      (∃ rest, c.client = .sending rest ∧ rest ≠ [] ∧ c.session.ring.free = 0) ∨
      (¬ c.client.Sends ∧ ¬ c.client.Returned ∧ c.session.toClient = [] ∧
        c.session.hungUp = false) ∨ c.client.Returned := by
  have hsignal : ∀ (signal : UInt8) (client : LiveSession → OneShot),
      (c.session.clientStep config (.signal signal)).map client = none →
        config.clientSendBuffer ≤ c.session.toDaemon.length := by
    intro signal client hnone
    by_contra hroom
    have hsome : c.session.clientStep config (.signal signal) = some _ :=
      (clientStep_signal h.connected).mpr ⟨not_le.mp hroom, rfl⟩
    rw [hsome] at hnone
    cases hnone
  cases hclient : c.client with
  | sending rest =>
      cases rest with
      | nil =>
          simp only [OneShot.clientStep, hclient] at hstep
          exact .inl ⟨trivial, hsignal _ _ hstep⟩
      | cons byte rest =>
          obtain ⟨pushed, hpush, -⟩ := h.push hmax hclient
          simp only [OneShot.clientStep, hclient, hpush] at hstep
          split at hstep
          · rename_i hzero
            refine .inr (.inl ⟨_, rfl, List.cons_ne_nil byte rest, ?_⟩)
            rw [List.length_cons] at hzero
            omega
          · have hsome : c.session.clientStep config (.push (byte :: rest)) = some _ :=
              (clientStep_push h.connected).mpr rfl
            rw [hsome] at hstep
            cases hstep
  | signalling rest =>
      simp only [OneShot.clientStep, hclient] at hstep
      exact .inl ⟨trivial, hsignal _ _ hstep⟩
  | receiving frame text segments =>
      simp only [OneShot.clientStep, hclient] at hstep
      refine .inr (.inr (.inl ⟨id, id, ?_⟩))
      split at hstep
      · rename_i hsocket
        refine ⟨hsocket, ?_⟩
        rw [← Bool.not_eq_true]
        intro hhungUp
        rw [if_pos hhungUp] at hstep
        cases hstep
      · rename_i byte toClient hsocket
        simp only [LiveSession.clientStep, hsocket] at hstep
        cases hstep
  | returned result => exact .inr (.inr (.inr trivial))

theorem Stuck.daemon (h : c.Stuck config) (event : LiveSession.Event)
    (hanswered : event.answered = true) : c.session.step config event = none := by
  have hnone := h (.daemon event)
  rwa [OneShot.step, if_pos hanswered, Option.map_eq_none_iff] at hnone

/-- Without an end of its audio, no terminal response has reached the writer. -/
theorem Invariant.not_joining (h : c.Invariant config total)
    (hremoved : c.session.run.removed = false) (result : Except Error LiveTranscriptionStats) :
    c.session.writer ≠ .joining result := fun hwriter =>
  h.job.ending.running hremoved result (h.reports.joining result hwriter)

/-- A scheduler that waits for the reader has an open channel. -/
theorem Invariant.not_returned_of_waits (h : c.Invariant config total)
    (hremoved : c.session.run.removed = false)
    (hopen : c.session.run.job.chunkRx.disconnected = false) :
    ¬ c.session.readerPhase.Returned := fun hreturned => by
  rw [h.attached.connected hremoved hreturned] at hopen
  cases hopen

/-- Once the reader has returned, the others get the client its answer. -/
theorem Invariant.not_stuck_of_returned (h : c.Invariant config total) (hmax : total < 2 ^ 64)
    (hpositive : config.Positive) (hclient : ¬ c.client.Returned)
    (hreturned : c.session.readerPhase.Returned) : ¬ c.Stuck config := by
  intro hstuck
  have hfinal : c.session.readerPhase.final = true := by
    obtain ⟨result, hresult⟩ := hreturned
    rw [hresult]
    rfl
  have hsends := (h.ended hfinal).1
  obtain ⟨hyes, -⟩ | ⟨rest, hsending, -⟩ | ⟨-, -, hsocket, hhungUp⟩ | hdone :=
    h.client_blocked hmax (hstuck .client)
  · exact hsends hyes
  · rw [hsending] at hsends
    exact hsends trivial
  · -- The client is reading, so that the writer has nothing to write.
    have hwriter : c.session.writer ≠ .returned := by
      obtain ⟨result, hresult⟩ := hreturned
      intro hwriter
      simp [hungUp, hwriter, hresult, WriterPhase.isReturned] at hhungUp
    have hempty : c.session.responseRx = [] ∧
        ¬ (c.session.run.removed = true ∧ c.session.pending = []) := by
      obtain ⟨-, hwaits⟩ | ⟨rest, last, -, -, hfull⟩ | ⟨result, -, hjoin⟩ | hgone :=
        writerStep_eq_none h.connected (hstuck.daemon (.writer ⟨0⟩) rfl)
      · exact hwaits
      · have hroom := hpositive.daemonSendBuffer
        rw [hsocket, List.length_nil] at hfull
        omega
      · exact absurd hreturned hjoin
      · exact absurd hgone hwriter
    obtain ⟨-, hfull, -⟩ | ⟨hpending, hremoved⟩ | ⟨hpending, hblocked, hstirs⟩ :=
      schedulerStep_eq_none h.attached fun event => hstuck.daemon (.scheduler event)
    · have hroom := hpositive.clientResponseQueueDepth
      rw [hempty.1, List.length_nil] at hfull
      omega
    · exact hempty.2 ⟨hremoved, hpending⟩
    · have hremoved : c.session.run.removed = false := by
        rw [← Bool.not_eq_true]
        exact fun hremoved => hempty.2 ⟨hremoved, hpending⟩
      obtain ⟨-, -, hopen⟩ := h.job.waits_for_reader hpositive.maxInFlight hblocked hstirs
      exact h.not_returned_of_waits hremoved hopen hreturned
  · exact hclient hdone

/-- A reader that waits for a signal gets one. -/
theorem Invariant.not_stuck_of_reading (h : c.Invariant config total) (hmax : total < 2 ^ 64)
    (hpositive : config.Positive) (hclient : ¬ c.client.Returned)
    (hreading : c.session.readerPhase = .reading) (hsocket : c.session.toDaemon = []) :
    ¬ c.Stuck config := by
  intro hstuck
  obtain ⟨-, hfull⟩ | ⟨rest, hsending, -, hfree⟩ | ⟨hsends, -, -, -⟩ | hdone :=
    h.client_blocked hmax (hstuck .client)
  · have hroom := hpositive.clientSendBuffer
    rw [hsocket, List.length_nil] at hfull
    omega
  · have hcontents : c.session.ring.contents ≠ [] := by
      rw [← List.length_pos_iff, SharedAudioRing.length_contents]
      have hcapacity := h.valid.capacity_pos
      rw [SharedAudioRing.free] at hfree
      omega
    obtain hsignal | howes | hdrains := h.pending hcontents
    · exact hsignal hsocket
    · simp [hsending, OneShotPhase.OwesSignal] at howes
    · simp [hreading, ReaderPhase.Drains] at hdrains
  · -- The end of the audio is signalled before the client reads.
    obtain ⟨count, hcount⟩ := h.signals (by rw [hreading]; rfl)
    rw [hsocket, (OneShotPhase.of_not_sends hsends).1] at hcount
    simp at hcount
  · exact hclient hdone

/-- **Whoever waits, waits in the circle.** -/
theorem Invariant.deadlocked_of_stuck (h : c.Invariant config total) (hmax : total < 2 ^ 64)
    (hpositive : config.Positive) (hclient : ¬ c.client.Returned) (hstuck : c.Stuck config) :
    c.Deadlocked config := by
  obtain hreturned | ⟨hreading, hsocket⟩ | ⟨finalFlush, hphase, hchunks, hchunk⟩ :=
    h.reader_blocked (hstuck.daemon .reader rfl)
  · exact absurd hstuck (h.not_stuck_of_returned hmax hpositive hclient hreturned)
  · exact absurd hstuck (h.not_stuck_of_reading hmax hpositive hclient hreading hsocket)
  · have hflushing : ¬ c.session.readerPhase.Returned := by
      simp [hphase, ReaderPhase.Returned]
    have hremoved := h.running hflushing
    have hdepth := hpositive.clientWindowQueueDepth
    have hresponses := hpositive.clientResponseQueueDepth
    have hsocket := hpositive.daemonSendBuffer
    -- With a chunk in the channel, the scheduler would go on if it had nothing in hand.
    obtain ⟨hpending, hfull, hwriter⟩ : c.session.pending ≠ [] ∧
        config.clientResponseQueueDepth ≤ c.session.responseRx.length ∧
        c.session.writer ≠ .returned := by
      obtain hwaits | ⟨-, hgone⟩ | ⟨-, hblocked, hstirs⟩ :=
        schedulerStep_eq_none h.attached fun event => hstuck.daemon (.scheduler event)
      · exact hwaits
      · rw [hremoved] at hgone
        cases hgone
      · obtain ⟨-, hempty, -⟩ := h.job.waits_for_reader hpositive.maxInFlight hblocked hstirs
        rw [hempty, List.length_nil] at hchunks
        omega
    obtain ⟨rest, last, hwriting, hrest, hsocketFull⟩ : ∃ rest last,
        c.session.writer = .writing rest last ∧ rest ≠ [] ∧
          config.daemonSendBuffer ≤ c.session.toClient.length := by
      obtain ⟨-, hempty, -⟩ | hwaits | ⟨result, hjoining, -⟩ | hgone :=
        writerStep_eq_none h.connected (hstuck.daemon (.writer ⟨0⟩) rfl)
      · rw [hempty, List.length_nil] at hfull
        omega
      · exact hwaits
      · exact absurd hjoining (h.not_joining hremoved result)
      · exact absurd hgone hwriter
    obtain ⟨hsends, hoverflows⟩ : c.client.Sends ∧ c.Overflows config := by
      obtain ⟨hsends, hfull⟩ | ⟨rest, hsending, hne, hfree⟩ | ⟨-, -, hempty, -⟩ | hdone :=
        h.client_blocked hmax (hstuck .client)
      · refine ⟨hsends, .inr ?_⟩
        have hleft := OneShotPhase.signalsLeft_pos hsends
        omega
      · refine ⟨by rw [hsending]; trivial, .inl ?_⟩
        rw [hfree, hsending]
        exact List.length_pos_iff.mpr hne
      · rw [hempty, List.length_nil] at hsocketFull
        omega
      · exact absurd hdone hclient
    have hfinal : finalFlush = false := by
      have hfinal := h.final_eq_false hsends
      rwa [hphase] at hfinal
    subst hfinal
    exact ⟨⟨hremoved, hphase, hchunk rfl, hchunks, hpending, hfull, ⟨rest, last, hwriting, hrest⟩,
      hsocketFull⟩, hsends, hoverflows⟩

theorem Deadlocked.stuck (h : c.Deadlocked config) (hinv : c.Invariant config total)
    (hclient : c.clientStep config = none) : c.Stuck config := by
  intro event
  cases event with
  | client => exact hclient
  | daemon event =>
      simp only [OneShot.step]
      by_cases hanswered : event.answered = true
      · rw [if_pos hanswered, h.jammed.step_eq_none hinv.connected event hanswered]
        rfl
      · rw [if_neg hanswered]

/-- What the client pushes and signals does not get it to reading. -/
theorem Deadlocked.clientStep (h : c.Deadlocked config) (hinv : c.Invariant config total)
    (hmax : total < 2 ^ 64) (hstep : c.clientStep config = some c') :
    c'.Deadlocked config ∧ c'.client.work < c.client.work := by
  have hover := h.overflows
  have hjammed := h.jammed
  cases hinv.clientMove hmax hstep with
  | finish hclient hroom =>
      simp only [Overflows, hclient, OneShotPhase.unsent, OneShotPhase.signalsLeft, if_true,
        List.length_nil] at hover
      omega
  | push rest pushed hclient hne hpush hpos =>
      obtain ⟨pushed', hpush', -, -, hfree, -⟩ := hinv.push hmax hclient
      obtain ⟨-, rfl⟩ := Prod.mk.inj (hpush.symm.trans hpush')
      refine ⟨⟨⟨hjammed.running, hjammed.flushing, hjammed.chunk, hjammed.chunks, hjammed.pending,
        hjammed.responses, hjammed.writing, hjammed.socket⟩, trivial, ?_⟩, ?_⟩
      · simp only [Overflows, hclient, OneShotPhase.unsent, OneShotPhase.signalsLeft, if_neg hne,
          List.length_drop, hfree] at hover ⊢
        by_cases hfits : rest.length ≤ c.session.ring.free
        · have hnil : rest.drop (min rest.length c.session.ring.free) = [] :=
            List.drop_eq_nil_of_le (by omega)
          rw [if_pos hnil]
          exact .inr (hover.resolve_left (by omega))
        · exact .inl (by omega)
      · simp only [hclient, OneShotPhase.work, List.length_drop]
        omega
  | signal rest hclient =>
      refine ⟨⟨⟨hjammed.running, hjammed.flushing, hjammed.chunk, hjammed.chunks, hjammed.pending,
        hjammed.responses, hjammed.writing, hjammed.socket⟩, trivial, ?_⟩, ?_⟩
      · simp only [Overflows, hclient, OneShotPhase.unsent, OneShotPhase.signalsLeft,
          List.length_append, List.length_singleton] at hover ⊢
        refine hover.imp_right fun hover => ?_
        split at hover <;> rename_i hrest <;> simp only [hrest, if_true, if_false] <;> omega
      · simp only [hclient, OneShotPhase.work]
        omega
  | hungUp frame text segments hclient =>
      have hsends := h.sends
      rw [hclient] at hsends
      exact hsends.elim
  | receive frame text segments byte toClient hclient =>
      have hsends := h.sends
      rw [hclient] at hsends
      exact hsends.elim

/-- **A closed circle stays closed**, until the client cannot move either. -/
theorem Deadlocked.reaches_stuck (h : c.Deadlocked config) (hinv : c.Invariant config total)
    (hmax : total < 2 ^ 64) : ∃ events c', Run (Step config) c events c' ∧
      ¬ c'.client.Returned ∧ c'.Stuck config := by
  induction hwork : c.client.work using Nat.strong_induction_on generalizing c with
  | _ work ih =>
      cases hstep : c.clientStep config with
      | none =>
          refine ⟨[], c, .refl, fun hreturned => ?_, h.stuck hinv hstep⟩
          have hsends := h.sends
          cases hclient : c.client <;> simp_all [OneShotPhase.Sends, OneShotPhase.Returned]
      | some next =>
          have hclient : Step config c .client next := hstep
          obtain ⟨hnext, hless⟩ := h.clientStep hinv hmax hstep
          obtain ⟨events, c', hrun, hc'⟩ :=
            ih _ (hwork ▸ hless) hnext (hinv.step hmax hclient) rfl
          exact ⟨_, c', .cons hclient hrun, hc'⟩

/-! ### Audio that fits -/

theorem not_overflows_iff : ¬ c.Overflows config ↔
    c.client.unsent.length ≤ c.session.ring.free ∧
      c.session.toDaemon.length + c.client.signalsLeft ≤ config.clientSendBuffer := by
  rw [Overflows, not_or, not_lt, not_lt]

/-- The reader only makes room. -/
theorem Invariant.readerStep_room (h : c.Invariant config total) {session : LiveSession}
    (hstep : c.session.readerStep config = some session) :
    c.session.ring.free ≤ session.ring.free ∧
      session.toDaemon.length ≤ c.session.toDaemon.length := by
  cases hphase : c.session.readerPhase with
  | reading =>
      obtain ⟨toDaemon, finalFlush, hless, rfl, -, -⟩ := h.read_cases hphase hstep
      exact ⟨le_rfl, hless⟩
  | draining finalFlush =>
      simp only [LiveSession.readerStep, hphase, SharedAudioRing.drainAvailable_eq h.valid] at hstep
      obtain rfl := Option.some.inj hstep
      refine ⟨?_, le_rfl⟩
      simp only [moveReader, LiveReader.onDrained, SharedAudioRing.free, Nat.sub_self]
      omega
  | flushing finalFlush =>
      have hremoved := h.running (by simp [hphase, ReaderPhase.Returned])
      have hflush : c.session.flushStep config finalFlush = some session := by
        simpa only [LiveSession.readerStep, hphase] using hstep
      obtain ⟨hring, hsocket, -, -⟩ := flushStep_cases hphase hremoved hflush
      rw [hring, hsocket]
      exact ⟨le_rfl, le_rfl⟩
  | returned result =>
      simp only [LiveSession.readerStep, hphase] at hstep
      cases hstep

theorem Invariant.fits_clientStep (h : c.Invariant config total) (hmax : total < 2 ^ 64)
    (hstep : c.clientStep config = some c') (hfits : ¬ c.Overflows config) :
    ¬ c'.Overflows config := by
  rw [not_overflows_iff] at hfits ⊢
  obtain ⟨hring, hsocket⟩ := hfits
  cases h.clientMove hmax hstep with
  | finish hclient hroom =>
      refine ⟨Nat.zero_le _, ?_⟩
      simp only [OneShotPhase.signalsLeft, List.length_append, List.length_singleton]
      omega
  | push rest pushed hclient hne =>
      simp only [hclient, OneShotPhase.unsent, OneShotPhase.signalsLeft, if_neg hne]
        at hring hsocket
      have hnil : rest.drop (min rest.length c.session.ring.free) = [] :=
        List.drop_eq_nil_of_le (by omega)
      simp only [OneShotPhase.unsent, OneShotPhase.signalsLeft, hnil, if_true]
      exact ⟨Nat.zero_le _, hsocket⟩
  | signal rest hclient =>
      simp only [hclient, OneShotPhase.unsent, OneShotPhase.signalsLeft] at hring hsocket
      refine ⟨hring, ?_⟩
      simp only [OneShotPhase.signalsLeft, List.length_append, List.length_singleton]
      split at hsocket <;> rename_i hrest <;> simp only [hrest, if_true, if_false] <;> omega
  | hungUp frame text segments hclient =>
      simp only [hclient, OneShotPhase.signalsLeft] at hsocket
      exact ⟨Nat.zero_le _, hsocket⟩
  | receive frame text segments byte toClient hclient =>
      simp only [hclient, OneShotPhase.signalsLeft] at hsocket
      have hsends := OneShotPhase.not_sends_onByte (frame ++ [byte]) text segments
      rw [(OneShotPhase.of_not_sends hsends).2.1, OneShotPhase.signalsLeft_of_not_sends hsends]
      exact ⟨Nat.zero_le _, hsocket⟩

/-- **What fits keeps fitting.** -/
theorem Invariant.fits_step (h : c.Invariant config total) (hmax : total < 2 ^ 64) {event : Event}
    (hstep : Step config c event c') (hfits : ¬ c.Overflows config) : ¬ c'.Overflows config := by
  cases event with
  | client => exact h.fits_clientStep hmax hstep hfits
  | daemon event =>
      obtain ⟨hanswered, session, hsession, rfl⟩ := exists_of_daemon_step hstep
      have hroom : c.session.ring.free ≤ session.ring.free ∧
          session.toDaemon.length ≤ c.session.toDaemon.length := by
        have hsame : session.intake = c.session.intake → c.session.ring.free ≤ session.ring.free ∧
            session.toDaemon.length ≤ c.session.toDaemon.length := by
          intro hintake
          simp only [intake, Prod.mk.injEq] at hintake
          rw [hintake.1, hintake.2.1]
          exact ⟨le_rfl, le_rfl⟩
        cases event with
        | client action => cases hanswered
        | reader => exact h.readerStep_room hsession
        | scheduler event => exact hsame (intake_schedulerStep hsession)
        | writer factor => exact hsame (writerStep_run hsession).2.2
      rw [not_overflows_iff] at hfits ⊢
      obtain ⟨hring, hsocket⟩ := hfits
      exact ⟨hring.trans hroom.1, by simp only; omega⟩

/-- Audio that fits into the ring is sent without waiting for the daemon. -/
theorem not_overflows_of_run {capacity : UInt64} (hcapacity : 0 < capacity)
    (memory : Nat → UInt8) (jobId : Nat) (header : RequestHeader)
    (vadEnabled : Bool) {pcm : Bytes} (hfits : pcm.length ≤ capacity.toNat)
    (hsignals : 2 ≤ config.clientSendBuffer) {events : List Event}
    (hrun : Run (Step config) (start capacity memory jobId header vadEnabled pcm) events c) :
    ¬ c.Overflows config := by
  have hmax : pcm.length < 2 ^ 64 := hfits.trans_lt capacity.toNat_lt
  have hstart := @invariant_start config capacity hcapacity memory jobId header vadEnabled pcm
  have hroom : ¬ (start capacity memory jobId header vadEnabled pcm).Overflows config := by
    rw [not_overflows_iff]
    refine ⟨hfits, ?_⟩
    have hleft : (OneShotPhase.sending pcm).signalsLeft ≤ 2 := by
      simp only [OneShotPhase.signalsLeft]
      split <;> omega
    exact (Nat.zero_add _).le.trans (hleft.trans hsignals)
  exact (hrun.invariant (P := fun _ c => c.Invariant config pcm.length ∧ ¬ c.Overflows config)
    ⟨hstart, hroom⟩ fun _ _ _ _ hinv hstep =>
      ⟨hinv.1.step hmax hstep, hinv.1.fits_step hmax hstep hinv.2⟩).2

/-- **When one-shot transcription deadlocks.** A state in which nobody can move before
`transcribe_all` has returned is one in which the circle is closed: the reader, the scheduler and the
writer each hold something for a full queue, and the client has more to send than the ring and the
socket take. Whenever the circle closes, such a state is reached; and it never closes for audio that
fits into the ring. -/
theorem never_stuck_iff (hpositive : config.Positive) {capacity : UInt64} (hcapacity : 0 < capacity)
    (memory : Nat → UInt8) (jobId : Nat) (header : RequestHeader) (vadEnabled : Bool) {pcm : Bytes}
    (hmax : pcm.length < 2 ^ 64) :
    (∀ events c, Run (Step config) (start capacity memory jobId header vadEnabled pcm) events c →
      ¬ c.client.Returned → c.Stuck config → c.Deadlocked config) ∧
    ((∀ events c, Run (Step config) (start capacity memory jobId header vadEnabled pcm) events c →
      ¬ c.client.Returned → ¬ c.Stuck config) ↔
     ∀ events c, Run (Step config) (start capacity memory jobId header vadEnabled pcm) events c →
      ¬ c.Deadlocked config) ∧
    (pcm.length ≤ capacity.toNat → 2 ≤ config.clientSendBuffer → ∀ events c,
      Run (Step config) (start capacity memory jobId header vadEnabled pcm) events c →
        ¬ c.Deadlocked config) := by
  have hinv : ∀ events c,
      Run (Step config) (start capacity memory jobId header vadEnabled pcm) events c →
        c.Invariant config pcm.length :=
    fun events c hrun =>
      (invariant_start hcapacity memory jobId header vadEnabled pcm).of_run hmax hrun
  have hwaits : ∀ events c,
      Run (Step config) (start capacity memory jobId header vadEnabled pcm) events c →
        ¬ c.client.Returned → c.Stuck config → c.Deadlocked config :=
    fun events c hrun hclient hstuck =>
      (hinv events c hrun).deadlocked_of_stuck hmax hpositive hclient hstuck
  refine ⟨hwaits, ⟨?_, ?_⟩, ?_⟩
  · intro hfree events c hrun hdead
    obtain ⟨more, c', hmore, hclient, hstuck⟩ := hdead.reaches_stuck (hinv events c hrun) hmax
    exact hfree _ c' (hrun.trans hmore) hclient hstuck
  · intro hopen events c hrun hclient hstuck
    exact hopen events c hrun (hwaits events c hrun hclient hstuck)
  · intro hfits hsignals events c hrun hdead
    exact not_overflows_of_run hcapacity _ _ _ _ hfits hsignals hrun hdead.overflows

/-- Room for one of everything, and for two signals. -/
def leastConfig : SessionConfig where
  maxActiveJobsPerModel := 1
  maxInFlightWindowsPerJob := 1
  clientWindowQueueDepth := 1
  clientResponseQueueDepth := 1
  clientSendBuffer := 2
  daemonSendBuffer := 1

/-- One sample in a ring of two bytes. -/
theorem never_stuck_iff_sample : leastConfig.Positive ∧ ∀ events c,
    Run (Step leastConfig) (start 2 (fun _ => 0) 7 {} true [0, 0]) events c →
      ¬ c.client.Returned → ¬ c.Stuck leastConfig := by
  have hpositive : leastConfig.Positive := by
    constructor <;> decide
  obtain ⟨-, hiff, hfits⟩ :=
    @never_stuck_iff leastConfig hpositive 2 (by decide) (fun _ => 0) 7 {} true [0, 0] (by decide)
  exact ⟨hpositive, hiff.mpr (hfits (by decide) (by decide))⟩

end OneShot

end RkWhisper
