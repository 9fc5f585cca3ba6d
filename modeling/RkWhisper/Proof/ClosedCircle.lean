import RkWhisper.Proof.Deadlock
import RkWhisper.Proof.FixedWindows
import RkWhisper.Proof.ResponseStream

/-!
# One-shot transcription deadlocks

The run that closes the circle, one party at a time: the client fills the ring and the reader the
chunk channel, the scheduler has a window transcribed, its answer fills the way back, and the client
has more audio.
-/

namespace RkWhisper

open Transition

namespace LiveRun

variable {maxInFlight : Nat} {run : LiveRun}

/-- More chunks have arrived. -/
def arriving (run : LiveRun) (chunks : List (Except Error LiveChunk)) : LiveRun :=
  { run with
    job := { run.job with
      chunkRx := { run.job.chunkRx with queue := run.job.chunkRx.queue ++ chunks } } }

theorem arriving_nil (run : LiveRun) : run.arriving [] = run := by
  simp only [arriving, List.append_nil]

theorem arriving_append (run : LiveRun) (chunks more : List (Except Error LiveChunk)) :
    (run.arriving chunks).arriving more = run.arriving (chunks ++ more) := by
  simp only [arriving, List.append_assoc]

theorem next_refresh_of_vad_off (hvad : run.job.vadConfig = none) :
    run.next maxInFlight .refresh = run := by
  have hjob : run.job.refreshSpeechState = run.job := by
    rw [ActiveLiveJob.refreshSpeechState, hvad]
    exact ite_self _
  simp only [next, hjob]

/-- The first window of a job without VAD, once half a minute of audio is there. -/
theorem step_dispatch_holding {jobId : Nat} {header : RequestHeader} {audio : List F32}
    (hmax : 1 ≤ maxInFlight) (hfull : 480000 ≤ audio.length) :
    ∃ run, Step maxInFlight (holding jobId header audio) (.dispatch true) run ∧
      run.awaited = [0] ∧ run.answers = [] ∧ run.removed = false ∧
      run.job.vadConfig = none ∧ run.job.responseTx = [] ∧ run.job.inFlight = 1 ∧
      run.job.nextResultIndex = 0 ∧
      KeepsChannels (holding jobId header audio) run := by
  have hplan : (holding jobId header audio).job.nextDispatchPlan =
      some { startSample := 0, endSample := min 480000 audio.length, speechEvents := [] } :=
    if_pos (.inl hfull)
  have hmay : (holding jobId header audio).job.mayDispatch maxInFlight = true :=
    ActiveLiveJob.mayDispatch_iff.mpr ⟨hmax, rfl, _, hplan⟩
  have hstep : Step maxInFlight (holding jobId header audio) (.dispatch true)
      ((holding jobId header audio).next maxInFlight (.dispatch true)) :=
    step_eq_some_iff.mpr ⟨⟨rfl, rfl, hmay⟩, rfl⟩
  refine ⟨_, hstep, ?_, ?_, ?_, ?_, ?_, ?_, ?_,
    keepsChannels_of_step hstep (by simp) (by simp) (by simp)⟩ <;>
    simp only [next, ActiveLiveJob.dispatchToWorker_eq hplan] <;> rfl

end LiveRun

namespace ActiveLiveJob

/-- A result that is next in order goes out at once. -/
theorem responseTx_handleResult {job : ActiveLiveJob} {result : WindowTranscription}
    (hnext : result.windowIndex = job.nextResultIndex) :
    job.responseTx ++ result.responses <+: (job.handleResult result).responseTx := by
  obtain ⟨emitted, pending, hjob, hemitted, hpending, hend⟩ := job.handleResult_spec result
  rw [hjob]
  cases emitted with
  | nil =>
      rw [hpending, if_neg (by simp)] at hend
      simp [hnext] at hend
  | cons first rest =>
      have hfirst := hemitted 0 (Nat.succ_pos _)
      simp only [Nat.add_zero, hnext, Std.TreeMap.getElem?_insert_self, List.getElem?_cons_zero,
        Option.some.injEq] at hfirst
      subst hfirst
      rw [List.flatMap_cons, ← List.append_assoc]
      exact List.prefix_append _ _

end ActiveLiveJob

namespace LiveSession

variable {config : SessionConfig} {s : LiveSession}

/-- One round of the flush: a whole chunk goes to the channel. -/
theorem flush_chunk (hphase : s.readerPhase = .flushing false) (hremoved : s.run.removed = false)
    (hfull : LiveReader.chunkBytes ≤ s.reader.pcm.length)
    (hfree : s.run.job.chunkRx.queue.length < config.clientWindowQueueDepth) :
    ∃ reader samples, reader.pcm = s.reader.pcm.drop LiveReader.chunkBytes ∧
      samples.length = 512 ∧
      Step config s .reader
        { s with reader := reader, run := s.run.arriving [.ok { samples }] } := by
  have hlength : (s.reader.pcm.take LiveReader.chunkBytes).length = LiveReader.chunkBytes := by
    rw [List.length_take, min_eq_left hfull]
  have heven : (s.reader.pcm.take LiveReader.chunkBytes).length % 2 = 0 := by
    rw [hlength]
    rfl
  refine ⟨({ s.reader with pcm := s.reader.pcm.drop LiveReader.chunkBytes }.sendChunk
    (s.reader.pcm.take LiveReader.chunkBytes)).2,
    samplesOfPcm (s.reader.pcm.take LiveReader.chunkBytes), LiveReader.sendChunk_pcm _ _, ?_, ?_⟩
  · rw [length_samplesOfPcm, hlength]
    rfl
  · simp only [Step, step, readerStep, hphase, flushStep, if_pos hfull, sendChunk,
      LiveReader.sendChunk, pcmS16leToF32_of_even heven, hremoved, chunkRoom, hfree, decide_true,
      Bool.false_eq_true, if_false, if_true]
    rfl

/-- The reader hands on what it holds, as long as there is room for it. -/
theorem flush_run (n : Nat) (hphase : s.readerPhase = .flushing false)
    (hremoved : s.run.removed = false) (hpcm : s.reader.pcm.length = LiveReader.chunkBytes * n)
    (hroom : s.run.job.chunkRx.queue.length + n ≤ config.clientWindowQueueDepth) :
    ∃ reader chunks, reader.pcm = [] ∧ chunks.length = n ∧ (audioOf chunks).length = 512 * n ∧
      Run (Step config) s (List.replicate (n + 1) .reader)
        { s with reader := reader, readerPhase := .reading, run := s.run.arriving chunks } := by
  induction n generalizing s with
  | zero =>
      have hnil : s.reader.pcm = [] := List.length_eq_zero_iff.mp hpcm
      have hshort : ¬ LiveReader.chunkBytes ≤ s.reader.pcm.length := by
        rw [hpcm]
        decide
      refine ⟨s.reader, [], hnil, rfl, rfl, .single ?_⟩
      rw [LiveRun.arriving_nil]
      simp [Step, step, readerStep, hphase, flushStep, hshort, LiveReader.onFlushed, moveReader]
  | succ n ih =>
      have hfull : LiveReader.chunkBytes ≤ s.reader.pcm.length := by
        rw [hpcm]
        exact Nat.le_mul_of_pos_right _ n.succ_pos
      obtain ⟨reader, samples, hreader, hsamples, hstep⟩ :=
        @flush_chunk config s hphase hremoved hfull (by omega)
      have hrest : reader.pcm.length = LiveReader.chunkBytes * n := by
        rw [hreader, List.length_drop, hpcm, Nat.mul_succ, Nat.add_sub_cancel]
      have hmore : (s.run.arriving [.ok { samples }]).job.chunkRx.queue.length + n ≤
          config.clientWindowQueueDepth := by
        simp only [LiveRun.arriving, List.length_append, List.length_singleton]
        omega
      obtain ⟨last, chunks, hlast, hcount, haudio, hrun⟩ :=
        @ih { s with reader := reader, run := s.run.arriving [.ok { samples }] } hphase hremoved
          hrest hmore
      have hcons : audioOf (.ok { samples } :: chunks) = samples ++ audioOf chunks := rfl
      refine ⟨last, .ok { samples } :: chunks, hlast, by rw [List.length_cons, hcount], ?_, ?_⟩
      · rw [hcons, List.length_append, hsamples, haudio]
        omega
      · rw [List.replicate_succ]
        refine .cons hstep ?_
        simp only [LiveRun.arriving_append, List.singleton_append] at hrun
        exact hrun

/-- A round of the loop in which the job waits for its answers. -/
theorem round_run (hpending : s.pending = []) (hloop : s.loop = .tail)
    (hdrain : s.run.next config.maxInFlight .drain = s.run)
    (hcomplete : s.run.job.isComplete = false) (hvad : s.run.job.vadConfig = none) :
    Run (Step config) s [.scheduler .tail, .scheduler .head] { s with loop := .select } := by
  have hrefresh : ∀ maxInFlight, s.run.next maxInFlight .refresh = s.run :=
    fun _ => LiveRun.next_refresh_of_vad_off hvad
  have htail : Step config s (.scheduler .tail) { s with loop := .head } := by
    simp [Step, step, schedulerStep, tailStep, removeCompleted, hpending, hloop, hdrain, hrefresh,
      hcomplete]
  have hhead : Step config { s with loop := .head } (.scheduler .head)
      { s with loop := .select } := by
    have hpending' : { s with loop := LoopPhase.head }.pending = [] := hpending
    simp [Step, step, schedulerStep, headStep, removeCompleted, hpending', hdrain, hcomplete]
  exact .cons htail (.single hhead)

/-- The first window of a job without VAD goes to a worker. -/
theorem dispatch_run {jobId : Nat} {header : RequestHeader} {chunks : List (Except Error LiveChunk)}
    (hmax : 1 ≤ config.maxInFlight)
    (hrun : s.run = (LiveRun.start jobId header {} false).arriving chunks)
    (hchunks : ∀ error, .error error ∉ chunks) (haudio : 480000 ≤ (audioOf chunks).length)
    (hloop : s.loop = .head) :
    ∃ run, run.awaited = [0] ∧ run.answers = [] ∧ run.removed = false ∧
      run.job.responseTx = [] ∧ run.job.inFlight = 1 ∧ run.job.nextResultIndex = 0 ∧
      run.job.chunkRx.queue = [] ∧
      Run (Step config) s
        [.scheduler .head, .scheduler (.branch (.dispatch true)), .scheduler .tail, .scheduler .head]
        { s with run := run, loop := .select } := by
  obtain ⟨run, hdispatch, hawaited, hanswers, hremoved, hvad, hsent, hinFlight, hnext, hkeeps⟩ :=
    @LiveRun.step_dispatch_holding config.maxInFlight jobId header (audioOf chunks) hmax haudio
  have hpending : ∀ run : LiveRun, run.job.responseTx = [] → ∀ loop,
      { s with run := run, loop := loop }.pending = [] := by
    intro run hnone loop
    simp [pending, hnone]
  have hhead : Step config s (.scheduler .head)
      { s with run := LiveRun.holding jobId header (audioOf chunks), loop := .select } := by
    have hnone : s.pending = [] := by
      simp only [pending, hrun]
      exact List.drop_nil
    have hopen : (LiveRun.holding jobId header (audioOf chunks)).job.isComplete = false := rfl
    have hdrain : ((LiveRun.start jobId header {} false).arriving chunks).next config.maxInFlight
        .drain = LiveRun.holding jobId header (audioOf chunks) :=
      @LiveRun.next_drain_start _ jobId header { queue := chunks } hmax hchunks
    simp [Step, step, schedulerStep, headStep, removeCompleted, hnone, hloop, hrun,
      hdrain, hopen]
  have hbranch : Step config
      { s with run := LiveRun.holding jobId header (audioOf chunks), loop := .select }
      (.scheduler (.branch (.dispatch true))) { s with run := run, loop := .tail } := by
    have hnone := hpending (LiveRun.holding jobId header (audioOf chunks)) rfl .select
    simp [Step, step, schedulerStep, hnone, LiveRun.mayBranch, hdispatch, hremoved]
  refine ⟨run, hawaited, hanswers, hremoved, hsent, hinFlight, hnext, ?_,
    .cons hhead (.cons hbranch ?_)⟩
  · rw [hkeeps.chunkRx]
    rfl
  · have hqueue : run.job.chunkRx.queue = [] := by
      rw [hkeeps.chunkRx]
      rfl
    have hopen : run.job.chunkRx.disconnected = false := by
      rw [hkeeps.chunkRx]
      rfl
    have hcomplete : run.job.isComplete = false := by
      rw [ActiveLiveJob.isComplete, hkeeps.producerClosed]
      rfl
    exact @round_run config { s with run := run, loop := .tail } (hpending run hsent .tail) rfl
      (LiveRun.next_drain_of_empty hqueue hopen) hcomplete hvad

/-- Three segments without a word. -/
def threeSegments : WindowTranscription where
  windowIndex := 0
  absoluteStartSec := ⟨0⟩
  text := ""
  segments := List.replicate 3
    { startSec := ⟨0⟩, endSec := ⟨0⟩, text := "", tokens := [], windowIndex := 0 }

theorem exists_frame : ∃ frame, writeResponse [] (.segment "" ⟨0⟩ ⟨0⟩) = (.ok (), frame) ∧
    2 ≤ frame.length := by
  have hfits : (encodeResponse (.segment "" ⟨0⟩ ⟨0⟩)).length ≤ frameMaxBytes := by decide +kernel
  exact ⟨_, writeFrame_of_le [] hfits, by decide +kernel⟩

/-- With room for one response and for one byte, the third segment does not get out of the
scheduler's hands. -/
theorem respond_run (hresponses : config.clientResponseQueueDepth = 1)
    (hsocket : config.daemonSendBuffer = 1) (hawaited : s.run.awaited = [0])
    (hremoved : s.run.removed = false) (hsent : s.run.job.responseTx = [])
    (hinFlight : s.run.job.inFlight = 1) (hnext : s.run.job.nextResultIndex = 0)
    (hqueue : s.run.job.chunkRx.queue = []) (hloop : s.loop = .select) (hhanded : s.handed = 0)
    (hrx : s.responseRx = []) (hwriter : s.writer = .receiving) (hclient : s.toClient = [])
    (hconnected : s.clientClosed = false) :
    ∃ s', Run (Step config) s [.scheduler (.branch (.whisperResult threeSegments)),
        .scheduler .handOver, .writer ⟨0⟩, .writer ⟨0⟩, .scheduler .handOver] s' ∧
      s'.intake = s.intake ∧ s'.run.removed = false ∧ s'.run.job.chunkRx.queue = [] ∧
      s'.pending ≠ [] ∧ s'.responseRx.length = 1 ∧ s'.toClient.length = 1 ∧
      ∃ rest last, s'.writer = .writing rest last ∧ rest ≠ [] := by
  have hanswer : LiveRun.Step config.maxInFlight s.run (.whisperResult threeSegments)
      (s.run.next config.maxInFlight (.whisperResult threeSegments)) := by
    refine LiveRun.step_eq_some_iff.mpr ⟨⟨hremoved, ?_⟩, rfl⟩
    rw [LiveRun.Enabled, hawaited]
    exact List.mem_singleton_self 0
  have hkeeps := LiveRun.keepsChannels_of_step hanswer (by simp) (by simp) (by simp)
  obtain ⟨more, hmore⟩ : ∃ more,
      [.segment "" ⟨0⟩ ⟨0⟩, .segment "" ⟨0⟩ ⟨0⟩, .segment "" ⟨0⟩ ⟨0⟩] ++ more =
        (s.run.next config.maxInFlight (.whisperResult threeSegments)).job.responseTx := by
    have hout : s.run.job.responseTx ++ threeSegments.responses <+:
        (s.run.job.handleResult threeSegments).responseTx :=
      ActiveLiveJob.responseTx_handleResult hnext.symm
    rw [hsent, List.nil_append] at hout
    exact hout
  obtain ⟨frame, hframe, hlong⟩ := exists_frame
  set run := s.run.next config.maxInFlight (.whisperResult threeSegments) with hrun
  have hbranch : Step config s (.scheduler (.branch (.whisperResult threeSegments)))
      { s with run := run, loop := .tail } := by
    have hnone : s.pending = [] := by
      rw [pending, hsent, List.drop_nil]
    have hstays : run.removed = false := hremoved
    simp [Step, step, schedulerStep, hnone, hloop, LiveRun.mayBranch, hinFlight, hanswer, hstays]
  have hfirst : Step config { s with run := run, loop := .tail } (.scheduler .handOver)
      { s with run := run, loop := .tail, handed := 1, responseRx := [.segment "" ⟨0⟩ ⟨0⟩] } := by
    simp [Step, step, schedulerStep, handOver, pending, hhanded, ← hmore, hwriter,
      WriterPhase.isReturned, hrx, hresponses]
  have htake : Step config
      { s with run := run, loop := .tail, handed := 1, responseRx := [.segment "" ⟨0⟩ ⟨0⟩] }
      (.writer ⟨0⟩)
      { s with
        run := run, loop := .tail, handed := 1, responseRx := [], writer := .writing frame false
        written := s.written ++ [.segment "" ⟨0⟩ ⟨0⟩] } := by
    simp [Step, step, writerStep, hwriter, JobResponse.toResponse, startWrite, hframe]
  have hwrite : Step config
      { s with
        run := run, loop := .tail, handed := 1, responseRx := [], writer := .writing frame false
        written := s.written ++ [.segment "" ⟨0⟩ ⟨0⟩] }
      (.writer ⟨0⟩)
      { s with
        run := run, loop := .tail, handed := 1, responseRx := [], toClient := frame.take 1
        writer := .writing (frame.drop 1) false
        written := s.written ++ [.segment "" ⟨0⟩ ⟨0⟩] } := by
    have hne : frame ≠ [] := List.ne_nil_of_length_pos (by omega)
    simp [Step, step, writerStep, hne, hconnected, hclient, hsocket]
  have hsecond : Step config
      { s with
        run := run, loop := .tail, handed := 1, responseRx := [], toClient := frame.take 1
        writer := .writing (frame.drop 1) false
        written := s.written ++ [.segment "" ⟨0⟩ ⟨0⟩] }
      (.scheduler .handOver)
      { s with
        run := run, loop := .tail, handed := 2, responseRx := [.segment "" ⟨0⟩ ⟨0⟩]
        toClient := frame.take 1, writer := .writing (frame.drop 1) false
        written := s.written ++ [.segment "" ⟨0⟩ ⟨0⟩] } := by
    simp [Step, step, schedulerStep, handOver, pending, ← hmore, WriterPhase.isReturned, hresponses]
  refine ⟨_, .cons hbranch (.cons hfirst (.cons htake (.cons hwrite (.single hsecond)))), rfl,
    hremoved, ?_, ?_, rfl, ?_, _, _, rfl, ?_⟩
  · simp only [hkeeps.chunkRx]
    exact hqueue
  · simp [pending, ← hmore]
  · simp only [List.length_take]
    omega
  · apply List.ne_nil_of_length_pos
    rw [List.length_drop]
    omega

end LiveSession

namespace OneShot

open LiveSession

variable {config : SessionConfig} {total : Nat} {c c' : OneShot}

theorem run_daemon {s s' : LiveSession} {events : List LiveSession.Event} (client : OneShotPhase)
    (hrun : Run (LiveSession.Step config) s events s')
    (hanswered : ∀ event ∈ events, event.answered = true) :
    Run (Step config) { session := s, client } (events.map .daemon) { session := s', client } := by
  induction hrun with
  | refl => exact .refl
  | snoc _ hstep ih =>
      rw [List.forall_mem_append] at hanswered
      rw [List.map_append, List.map_singleton]
      refine .snoc (ih hanswered.1) ?_
      rw [Step, OneShot.step, if_pos (hanswered.2 _ (List.mem_singleton_self _)), hstep]
      rfl

/-- The client fills the ring, and the reader empties it. -/
theorem Invariant.feed (h : c.Invariant config total) (hmax : total < 2 ^ 64)
    (hsignals : 1 ≤ config.clientSendBuffer) {rest : Bytes} (hclient : c.client = .sending rest)
    (hphase : c.session.readerPhase = .reading) (hsocket : c.session.toDaemon = [])
    (hcontents : c.session.ring.contents = [])
    (hrest : c.session.ring.capacity.toNat ≤ rest.length) :
    ∃ ring, ring.capacity = c.session.ring.capacity ∧ ring.contents = [] ∧
      Run (Step config) c [.client, .client, .daemon .reader, .daemon .reader]
        { session := { c.session with
            ring := ring
            toDaemon := []
            reader := { c.session.reader with
              pcm := c.session.reader.pcm ++ rest.take c.session.ring.capacity.toNat }
            readerPhase := .flushing false }
          client := .sending (rest.drop c.session.ring.capacity.toNat) } := by
  obtain ⟨pushed, hpush, hcapacity, hpushed, -, hnext⟩ := h.push hmax hclient
  have hcount : min rest.length c.session.ring.free = c.session.ring.capacity.toNat := by
    have hlength := c.session.ring.length_contents
    rw [hcontents, List.length_nil] at hlength
    rw [SharedAudioRing.free, ← hlength, Nat.sub_zero, min_eq_right hrest]
  have hpos := h.valid.capacity_pos
  rw [hcontents, List.nil_append] at hpushed
  rw [hcount] at hpush hpushed hnext
  set count := c.session.ring.capacity.toNat with hcapacityNat
  refine ⟨{ pushed with readOffset := pushed.writeOffset }, hcapacity, ?_, ?_⟩
  · rw [← List.length_eq_zero_iff, SharedAudioRing.length_contents, Nat.sub_self]
  have hsend : Step config c .client
      { session := { c.session with ring := pushed }, client := .signalling (rest.drop count) } := by
    have hpushStep : c.session.clientStep config (.push rest) =
        some { c.session with ring := pushed } :=
      (clientStep_push h.connected).mpr (by rw [hpush])
    have hne : count ≠ 0 := by omega
    cases rest with
    | nil => exact absurd hrest (by simpa using hpos.ne')
    | cons byte rest =>
        simp only [Step, OneShot.step, OneShot.clientStep, hclient, hpush, if_neg hne, hpushStep,
          Option.map_some]
  have hsignal : Step config
      { session := { c.session with ring := pushed }, client := .signalling (rest.drop count) }
      .client
      { session := { c.session with ring := pushed, toDaemon := [signalDataReady] }
        client := .sending (rest.drop count) } := by
    have hroom : LiveSession.clientStep config { c.session with ring := pushed }
        (.signal signalDataReady) =
        some { c.session with ring := pushed, toDaemon := [signalDataReady] } := by
      have hpositive : 0 < config.clientSendBuffer := hsignals
      simp [LiveSession.clientStep, h.connected, hsocket, hpositive]
    simp only [Step, OneShot.step, OneShot.clientStep, hroom, Option.map_some]
  have hread : Step config
      { session := { c.session with ring := pushed, toDaemon := [signalDataReady] }
        client := .sending (rest.drop count) }
      (.daemon .reader)
      { session := { c.session with
          ring := pushed, toDaemon := [], readerPhase := .draining false }
        client := .sending (rest.drop count) } := by
    simp only [Step, OneShot.step, LiveSession.Event.answered, if_true, LiveSession.step,
      LiveSession.readerStep, hphase, takeSignal_dataReady, Option.map_some]
  have hdrain : Step config
      { session := { c.session with
          ring := pushed, toDaemon := [], readerPhase := .draining false }
        client := .sending (rest.drop count) }
      (.daemon .reader)
      { session := { c.session with
          ring := { pushed with readOffset := pushed.writeOffset }
          toDaemon := []
          reader := { c.session.reader with pcm := c.session.reader.pcm ++ rest.take count }
          readerPhase := .flushing false }
        client := .sending (rest.drop count) } := by
    simp only [Step, OneShot.step, LiveSession.Event.answered, if_true, LiveSession.step,
      LiveSession.readerStep, SharedAudioRing.drainAvailable_eq hnext.valid, hpushed, moveReader,
      LiveReader.onDrained, Option.map_some]
  exact .cons hsend (.cons hsignal (.cons hread (.single hdrain)))

/-- What the client has filled the ring with goes to the chunk channel, if that has room for it. -/
theorem Invariant.fill (h : c.Invariant config total) (hmax : total < 2 ^ 64)
    (hsignals : 1 ≤ config.clientSendBuffer) {rest : Bytes} (hclient : c.client = .sending rest)
    (hphase : c.session.readerPhase = .reading) (hsocket : c.session.toDaemon = [])
    (hcontents : c.session.ring.contents = []) (hpcm : c.session.reader.pcm = [])
    (hrest : c.session.ring.capacity.toNat ≤ rest.length) {count : Nat}
    (hcapacity : c.session.ring.capacity.toNat = LiveReader.chunkBytes * count)
    (hroom : c.session.run.job.chunkRx.queue.length + count ≤ config.clientWindowQueueDepth) :
    ∃ events ring reader chunks, ring.capacity = c.session.ring.capacity ∧ ring.contents = [] ∧
      reader.pcm = [] ∧ chunks.length = count ∧ (audioOf chunks).length = 512 * count ∧
      (∀ event ∈ events, event = .client ∨ event = .daemon .reader) ∧
      Run (Step config) c events
        { session := { c.session with
            ring := ring
            toDaemon := []
            reader := reader
            readerPhase := .reading
            run := c.session.run.arriving chunks }
          client := .sending (rest.drop c.session.ring.capacity.toNat) } := by
  obtain ⟨ring, hsame, hempty, hfeed⟩ :=
    h.feed hmax hsignals hclient hphase hsocket hcontents hrest
  have hrunning : c.session.run.removed = false :=
    h.running (by simp [hphase, ReaderPhase.Returned])
  have hlength : (c.session.reader.pcm ++ rest.take c.session.ring.capacity.toNat).length =
      LiveReader.chunkBytes * count := by
    rw [hpcm, List.nil_append, List.length_take, min_eq_left hrest, hcapacity]
  obtain ⟨reader, chunks, hreader, hcount, haudio, hflush⟩ :=
    @flush_run config { c.session with
      ring := ring
      toDaemon := []
      reader := { c.session.reader with
        pcm := c.session.reader.pcm ++ rest.take c.session.ring.capacity.toNat }
      readerPhase := .flushing false } count rfl hrunning hlength hroom
  refine ⟨_, ring, reader, chunks, hsame, hempty, hreader, hcount, haudio, ?_,
    hfeed.trans (run_daemon _ hflush ?_)⟩
  · simp
  · intro event hmem
    rw [List.eq_of_mem_replicate hmem]
    rfl

/-- The scheduler has a window of the audio transcribed, and the answer fills the way back. -/
theorem Invariant.answer (h : c.Invariant config total) (hmaxInFlight : 1 ≤ config.maxInFlight)
    (hresponses : config.clientResponseQueueDepth = 1) (hsocket : config.daemonSendBuffer = 1)
    {jobId : Nat} {header : RequestHeader} {chunks : List (Except Error LiveChunk)}
    (hrun : c.session.run = (LiveRun.start jobId header {} false).arriving chunks)
    (haudio : 480000 ≤ (audioOf chunks).length) (hloop : c.session.loop = .head)
    (hhanded : c.session.handed = 0) (hrx : c.session.responseRx = [])
    (hwriter : c.session.writer = .receiving) (hclient : c.session.toClient = []) :
    ∃ events session, Run (Step config) c events { c with session } ∧
      session.intake = c.session.intake ∧ session.run.job.chunkRx.queue = [] ∧
      session.pending ≠ [] ∧ session.responseRx.length = 1 ∧ session.toClient.length = 1 ∧
      ∃ rest last, session.writer = .writing rest last ∧ rest ≠ [] := by
  have hchunks : ∀ error, .error error ∉ chunks := by
    intro error hmem
    apply h.job.chunks error
    rw [hrun]
    exact hmem
  obtain ⟨run, hawaited, -, hremoved, hsent, hinFlight, hnext, hqueue, hdispatch⟩ :=
    dispatch_run hmaxInFlight hrun hchunks haudio hloop
  obtain ⟨session, hrespond, hintake, -, hdrained, hpending, hresponse, hbyte, hwriting⟩ :=
    @respond_run config { c.session with run := run, loop := .select } hresponses hsocket hawaited
      hremoved hsent hinFlight hnext hqueue rfl hhanded hrx hwriter hclient h.connected
  refine ⟨_, session, run_daemon c.client (hdispatch.trans hrespond) ?_, hintake, hdrained, hpending,
    hresponse, hbyte, hwriting⟩
  decide

/-- **The circle closes.** Without VAD, with a ring and a chunk channel of half a minute or more, and
with room for one response and one byte on the way back: a window with three segments is answered
before the client has filled the ring for the fourth time. -/
theorem exists_deadlocked {chunks : Nat} {capacity : UInt64} (hchunks : 938 ≤ chunks)
    (hcapacity : capacity.toNat = LiveReader.chunkBytes * chunks)
    (hmaxInFlight : 1 ≤ config.maxInFlight) (hdepth : config.clientWindowQueueDepth = chunks)
    (hresponses : config.clientResponseQueueDepth = 1) (hsocket : config.daemonSendBuffer = 1)
    (hsignals : 1 ≤ config.clientSendBuffer)
    (memory : Nat → UInt8) (jobId : Nat) (header : RequestHeader) {pcm : Bytes}
    (hmax : pcm.length < 2 ^ 64) (hpcm : 3 * capacity.toNat < pcm.length)
    (hover : 4 * capacity.toNat < pcm.length ∨ config.clientSendBuffer = 1) :
    ∃ events c, Run (Step config) (start capacity memory jobId header false pcm) events c ∧
      c.Deadlocked config := by
  have hpositive : 0 < capacity := by
    rw [UInt64.lt_iff_toNat_lt, hcapacity, LiveReader.chunkBytes]
    exact Nat.mul_pos (by decide) (by omega)
  have hinv := @invariant_start config capacity hpositive memory jobId header false pcm
  have hstart : (start capacity memory jobId header false pcm).session.ring.capacity = capacity := rfl
  have hone : LiveReader.chunkBytes ≤ capacity.toNat := by
    rw [hcapacity]
    exact Nat.le_mul_of_pos_right _ (by omega)
  -- The audio of the first window goes to the scheduler.
  obtain ⟨events₁, ring₁, reader₁, chunks₁, hring₁, hempty₁, hreader₁, -, haudio, -, hfill₁⟩ :=
    hinv.fill hmax hsignals rfl rfl rfl (SharedAudioRing.contents_initHeader _) rfl
      (by rw [hstart]; omega) (hstart ▸ hcapacity) (by rw [hdepth]; exact (Nat.zero_add chunks).le)
  have hinv₁ := hinv.of_run hmax hfill₁
  obtain ⟨events₂, s, hanswer, hintake, hqueue, hpending, hresponse, hbyte, hwriter⟩ :=
    hinv₁.answer hmaxInFlight hresponses hsocket rfl (by omega) rfl rfl rfl rfl rfl
  have hinv₂ := hinv₁.of_run hmax hanswer
  simp only [intake, Prod.mk.injEq] at hintake
  obtain ⟨hring₂, hsocket₂, -, hreader₂, hphase₂⟩ := hintake
  -- More audio fills the chunk channel, as the scheduler does not come back to it.
  obtain ⟨events₃, ring₃, reader₃, chunks₃, hring₃, hempty₃, hreader₃, hcount, -, -, hfill₃⟩ :=
    hinv₂.fill hmax hsignals rfl hphase₂ hsocket₂ (hring₂ ▸ hempty₁) (hreader₂ ▸ hreader₁)
      (by rw [hring₂, hring₁, hstart, List.length_drop]; omega)
      (by rw [hring₂, hring₁, hstart, hcapacity])
      (by rw [hqueue, hdepth]; exact (Nat.zero_add chunks).le)
  have hinv₃ := hinv₂.of_run hmax hfill₃
  have hcapacity₃ : ring₃.capacity = capacity := hring₃.trans (hring₂ ▸ hring₁)
  obtain ⟨ring₄, hring₄, hempty₄, hfeed₄⟩ :=
    hinv₃.feed hmax hsignals rfl rfl rfl hempty₃
      (by simp only [hcapacity₃, hring₂, hring₁, hstart, List.length_drop]; omega)
  have hlength : ((pcm.drop capacity.toNat).drop capacity.toNat).length =
      pcm.length - 2 * capacity.toNat := by
    rw [List.length_drop, List.length_drop]
    omega
  refine ⟨_, _, ((hfill₁.trans hanswer).trans hfill₃).trans hfeed₄, ⟨⟨?_, rfl, ?_, ?_, hpending, ?_,
    hwriter, ?_⟩, trivial, ?_⟩⟩
  · exact hinv₃.running (by simp [ReaderPhase.Returned])
  · simp only [hcapacity₃, hring₂, hring₁, hstart, hreader₃, List.nil_append, List.length_take,
      hlength]
    omega
  · simp only [LiveRun.arriving, hqueue, List.nil_append, hcount, hdepth]
    exact le_rfl
  · simp only [hresponse, hresponses]
    exact le_rfl
  · simp only [hbyte, hsocket]
    exact le_rfl
  · have hfree : ring₄.free ≤ capacity.toNat := by
      rw [SharedAudioRing.free, hring₄, hcapacity₃]
      exact Nat.sub_le _ _
    have hrest : (((pcm.drop capacity.toNat).drop capacity.toNat).drop capacity.toNat).length =
        pcm.length - 3 * capacity.toNat := by
      rw [List.length_drop, hlength]
      omega
    simp only [Overflows, OneShotPhase.unsent, OneShotPhase.signalsLeft, hcapacity₃, hring₂, hring₁,
      hstart]
    obtain hlong | hone := hover
    · exact .inl (by omega)
    · have hne : ((pcm.drop capacity.toNat).drop capacity.toNat).drop capacity.toNat ≠ [] :=
        List.ne_nil_of_length_pos (by omega)
      rw [if_neg hne, hone]
      exact .inr (by decide)

/-- A ring and a chunk channel of half a minute, and room for one response and for one byte in either
direction of the socket. -/
def narrowConfig : SessionConfig where
  maxActiveJobsPerModel := 1
  maxInFlightWindowsPerJob := 1
  clientWindowQueueDepth := 938
  clientResponseQueueDepth := 1
  clientSendBuffer := 1
  daemonSendBuffer := 1

/-- Three rings of audio and one sample more. The signal behind that sample fills the socket, so that
the client waits to write the one that ends the audio. -/
theorem not_deadlock_free :
    ¬ ∀ (config : SessionConfig) (capacity : UInt64) (memory : Nat → UInt8) (jobId : Nat)
      (header : RequestHeader) (vadEnabled : Bool) (pcm : Bytes) (events : List Event) (c : OneShot),
      config.Positive → 0 < capacity → pcm.length % 2 = 0 → pcm.length < 2 ^ 63 →
      Run (Step config) (start capacity memory jobId header vadEnabled pcm) events c →
      ¬ c.client.Returned → ¬ c.Stuck config := by
  intro h
  have hpositive : narrowConfig.Positive := by
    constructor <;> decide
  have hcapacity : (960512 : UInt64).toNat = LiveReader.chunkBytes * 938 := by decide
  have hlength : (List.replicate 2881538 (0 : UInt8)).length = 2881538 := List.length_replicate
  obtain ⟨events, c, hrun, hdead⟩ := @exists_deadlocked narrowConfig 938 960512 le_rfl hcapacity
    (by decide) rfl rfl rfl le_rfl (fun _ => 0) 7 {} (List.replicate 2881538 0)
    (by rw [hlength]; decide) (by rw [hlength]; decide) (.inr rfl)
  have hinv := (@invariant_start narrowConfig 960512 (by decide) (fun _ => 0) 7 {} false
    (List.replicate 2881538 0)).of_run (by rw [hlength]; decide) hrun
  obtain ⟨more, c', hmore, hclient, hstuck⟩ := hdead.reaches_stuck hinv (by rw [hlength]; decide)
  exact h narrowConfig 960512 (fun _ => 0) 7 {} false (List.replicate 2881538 0) _ c' hpositive
    (by decide) (by rw [hlength]) (by rw [hlength]; decide) (hrun.trans hmore) hclient hstuck

end OneShot

end RkWhisper
