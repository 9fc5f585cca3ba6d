import RkWhisper.Proof.ClosedCircle
import RkWhisper.Proof.OneShotTermination
import RkWhisper.Proof.SessionJob

/-!
# Two windows, the second answered first

Audio of more than one window and of no more than two goes to two workers, and the second may be the
faster one. One party after the other takes its steps: the client sends everything, the reader hands it
on and returns, the scheduler gives both windows away, and then the answers come.
-/

namespace RkWhisper

open Transition

namespace LiveRun

variable {maxInFlight : Nat} {run run' : LiveRun}

/-- A job without VAD that has its whole stream and no window left, to send or at a worker. -/
structure Spent (run : LiveRun) : Prop where
  vadConfig : run.job.vadConfig = none
  closed : run.job.producerClosed = true
  buffer : run.job.audioBuffer = []
  awaited : run.awaited = []

/-- Nothing more is sent to a worker or answered. -/
theorem Spent.step {event : Event} (h : Spent run) (hstep : Step maxInFlight run event run') :
    Spent run' ∧ run'.answers = run.answers ∧ ∀ sent, event ≠ .dispatch sent := by
  obtain ⟨⟨-, henabled⟩, rfl⟩ := step_eq_some_iff.mp hstep
  cases event with
  | drain =>
      rw [next_drain_of_closed h.closed]
      exact ⟨h, rfl, fun _ hsent => by cases hsent⟩
  | refresh =>
      rw [next_refresh_of_vad_off h.vadConfig]
      exact ⟨h, rfl, fun _ hsent => by cases hsent⟩
  | sendVad sent =>
      have hready : run.job.hasVadReady = true := henabled
      rw [ActiveLiveJob.hasVadReady, h.vadConfig] at hready
      cases hready
  | dispatch sent =>
      obtain ⟨-, -, plan, hplan⟩ := ActiveLiveJob.mayDispatch_iff.mp henabled.2
      rw [ActiveLiveJob.nextDispatchPlan, h.vadConfig, h.buffer] at hplan
      simp at hplan
  | whisperResult result =>
      have hmem : result.windowIndex ∈ run.awaited := henabled
      rw [h.awaited] at hmem
      cases hmem
  | finish =>
      have hcomplete : run.job.isComplete = true := henabled
      refine ⟨?_, rfl, fun _ hsent => by cases hsent⟩
      simp only [next, ActiveLiveJob.finishIfComplete, if_pos hcomplete]
      exact ⟨h.vadConfig, h.closed, h.buffer, h.awaited⟩
  | _ => exact ⟨⟨h.vadConfig, h.closed, h.buffer, h.awaited⟩, rfl, fun _ hsent => by cases hsent⟩

theorem Spent.of_run {events : List Event} (h : Spent run)
    (hrun : Run (Step maxInFlight) run events run') : Spent run' ∧ run'.answers = run.answers := by
  induction hrun with
  | refl => exact ⟨h, rfl⟩
  | snoc _ hstep ih =>
      obtain ⟨hspent, hanswers⟩ := ih
      obtain ⟨hspent', hanswers', -⟩ := hspent.step hstep
      exact ⟨hspent', hanswers'.trans hanswers⟩

/-- A job that waits for an answer is not complete. -/
theorem isComplete_of_inFlight {job : ActiveLiveJob} (h : 0 < job.inFlight) :
    job.isComplete = false := by
  have hbusy : (job.inFlight == 0) = false := beq_eq_false_iff_ne.mpr h.ne'
  simp [ActiveLiveJob.isComplete, hbusy]

/-- A result that is not next waits. -/
theorem handleResult_of_later {job : ActiveLiveJob} {result : WindowTranscription}
    (hnone : job.pendingResults = ∅) (hlater : job.nextResultIndex ≠ result.windowIndex) :
    (job.handleResult result).responseTx = job.responseTx ∧
      (job.handleResult result).inFlight = job.inFlight - 1 := by
  obtain ⟨emitted, pending, hjob, hemitted, -⟩ := job.handleResult_spec result
  cases emitted with
  | nil =>
      rw [hjob]
      exact ⟨List.append_nil _, rfl⟩
  | cons first rest =>
      have hfirst := hemitted 0 (Nat.succ_pos _)
      rw [hnone, Nat.add_zero, Std.TreeMap.getElem?_insert] at hfirst
      simp [hlater.symm] at hfirst

theorem answered_job (run : LiveRun) (result : WindowTranscription) :
    (run.next maxInFlight (.whisperResult result)).job.vadConfig = run.job.vadConfig ∧
      (run.next maxInFlight (.whisperResult result)).job.producerClosed = run.job.producerClosed ∧
      (run.next maxInFlight (.whisperResult result)).job.audioBuffer = run.job.audioBuffer := by
  obtain ⟨emitted, pending, hjob, -⟩ := run.job.handleResult_spec result
  simp only [next, hjob, and_self]

/-- Both windows have been answered. -/
theorem spent_bothSent {jobId : Nat} {header : RequestHeader} {samples rest : List F32}
    {first second : WindowTranscription} (hsecond : second.windowIndex = 1)
    (hfirst : first.windowIndex = 0) :
    Spent (((bothSent jobId header samples rest).next maxInFlight (.whisperResult second)).next
      maxInFlight (.whisperResult first)) := by
  obtain ⟨hvad, hclosed, hbuffer⟩ :=
    @answered_job maxInFlight (bothSent jobId header samples rest) second
  obtain ⟨hvad', hclosed', hbuffer'⟩ := @answered_job maxInFlight
    ((bothSent jobId header samples rest).next maxInFlight (.whisperResult second)) first
  refine ⟨hvad'.trans hvad, hclosed'.trans hclosed, hbuffer'.trans hbuffer, ?_⟩
  have hnone : ([0, 1].erase second.windowIndex).erase first.windowIndex = [] := by
    rw [hsecond, hfirst]
    decide
  exact hnone

end LiveRun

namespace LiveSession

variable {config : SessionConfig} {s : LiveSession}

theorem branch_step {event : LiveRun.Event} {run : LiveRun} (hpending : s.pending = [])
    (hloop : s.loop = .select) (hmay : s.run.mayBranch event = true)
    (hstep : LiveRun.Step config.maxInFlight s.run event run) (hremoved : run.removed = false) :
    Step config s (.scheduler (.branch event)) { s with run := run, loop := .tail } := by
  simp [Step, step, schedulerStep, hpending, hloop, hmay, hstep, hremoved]

/-- A branch of the `select!`, and the round of the loop behind it. -/
theorem branch_run {event : LiveRun.Event} {run : LiveRun} (hpending : s.pending = [])
    (hloop : s.loop = .select) (hmay : s.run.mayBranch event = true)
    (hstep : LiveRun.Step config.maxInFlight s.run event run) (hremoved : run.removed = false)
    (hquiet : run.job.responseTx = []) (hclosed : run.job.producerClosed = true)
    (hcomplete : run.job.isComplete = false) (hvad : run.job.vadConfig = none) :
    Run (Step config) s [.scheduler (.branch event), .scheduler .tail, .scheduler .head]
      { s with run := run, loop := .select } := by
  have hnone : { s with run := run, loop := LoopPhase.tail }.pending = [] := by
    simp [pending, hquiet]
  exact .cons (branch_step hpending hloop hmay hstep hremoved)
    (@round_run config { s with run := run, loop := .tail } hnone rfl
      (LiveRun.next_drain_of_closed hclosed) hcomplete hvad)

/-- The scheduler of a job whose audio has all arrived gives two windows away, and the second comes
back first. -/
theorem answers_run {jobId : Nat} {header : RequestHeader} {chunks : List (Except Error LiveChunk)}
    {first second : WindowTranscription} (hroom : 1 < config.maxInFlight)
    (hrun : s.run = .start jobId header { queue := chunks, disconnected := true } false)
    (hchunks : ∀ error, .error error ∉ chunks) (hmore : 480000 < (audioOf chunks).length)
    (hle : (audioOf chunks).length ≤ 960000) (hsecond : second.windowIndex = 1)
    (hfirst : first.windowIndex = 0) (hloop : s.loop = .head) :
    ∃ events run, Run (Step config) s events { s with run := run, loop := .tail } ∧ run.Spent ∧
      run.answers = [second, first] ∧ ∀ event ∈ events, event.answered = true ∧
        event ≠ .scheduler (.branch (.dispatch false)) := by
  set audio := audioOf chunks with haudio
  have hlength : (audio.drop 480000).length = audio.length - 480000 := List.length_drop
  have hpending : ∀ run : LiveRun, run.job.responseTx = [] → ∀ loop,
      { s with run := run, loop := loop }.pending = [] := by
    intro run hnone loop
    simp [pending, hnone]
  have hhead : Step config s (.scheduler .head)
      { s with run := .ended jobId header audio, loop := .select } := by
    have hnone : s.pending = [] := by
      simp only [pending, hrun]
      exact List.drop_nil
    have hdrain := @LiveRun.next_drain_start config.maxInFlight jobId header
      { queue := chunks, disconnected := true } (Nat.zero_lt_of_lt hroom) hchunks
    have hopen : (LiveRun.ended jobId header audio).job.isComplete = false := by
      have hbuffer : audio.isEmpty = false := by
        rw [List.isEmpty_eq_false_iff_exists_mem]
        exact List.exists_mem_of_length_pos (by omega)
      simp [ActiveLiveJob.isComplete, LiveRun.ended, LiveRun.holding, hbuffer]
    have hdrained : s.run.next config.maxInFlight .drain = .ended jobId header audio := by
      rw [hrun]
      exact hdrain
    simp [Step, step, schedulerStep, headStep, removeCompleted, hnone, hloop, hdrained, hopen]
  have hone := @branch_run config { s with run := .ended jobId header audio, loop := .select }
    (.dispatch true) _ (hpending _ rfl _) rfl rfl
    (LiveRun.step_firstSent (Nat.zero_lt_of_lt hroom) hmore) rfl rfl rfl
    (LiveRun.isComplete_of_inFlight Nat.one_pos) rfl
  have hboth := @branch_run config
    { s with run := .firstSent jobId header audio (audio.drop 480000), loop := .select }
    (.dispatch true) _ (hpending _ rfl _) rfl rfl
    (LiveRun.step_bothSent hroom (by omega) (by omega)) rfl rfl rfl
    (LiveRun.isComplete_of_inFlight Nat.two_pos) rfl
  set sent := LiveRun.bothSent jobId header audio (audio.drop 480000) with hsent
  obtain ⟨hquiet, hinFlight⟩ := @LiveRun.handleResult_of_later sent.job second rfl
    (by rw [hsecond]; exact Nat.zero_ne_one)
  obtain ⟨hvad, hclosed, -⟩ := @LiveRun.answered_job config.maxInFlight sent second
  have hwaits : 0 < (sent.next config.maxInFlight (.whisperResult second)).job.inFlight :=
    lt_of_lt_of_eq Nat.one_pos hinFlight.symm
  have hlater := @branch_run config { s with run := sent, loop := .select } (.whisperResult second)
    _ (hpending _ rfl _) rfl rfl (LiveRun.step_second hsecond) rfl hquiet hclosed
    (LiveRun.isComplete_of_inFlight hwaits) hvad
  have hlast := @branch_step config
    { s with run := sent.next config.maxInFlight (.whisperResult second), loop := .select }
    (.whisperResult first) _ (hpending _ hquiet _) rfl
    (by simp [LiveRun.mayBranch, hwaits]) (LiveRun.step_first hsecond hfirst) rfl
  refine ⟨_, _, .cons hhead (((hone.trans hboth).trans hlater).trans (.single hlast)),
    LiveRun.spent_bothSent hsecond hfirst, rfl, ?_⟩
  simp [Event.answered]

end LiveSession

namespace OneShot

open LiveSession

variable {config : SessionConfig} {total : Nat} {c c' : OneShot}

/-- A client that has sent everything says so, and the reader has nothing left to hand on. -/
theorem Invariant.finish (h : c.Invariant config total) (hsignals : 1 ≤ config.clientSendBuffer)
    (hclient : c.client = .sending []) (hphase : c.session.readerPhase = .reading)
    (hsocket : c.session.toDaemon = []) (hcontents : c.session.ring.contents = [])
    (hpcm : c.session.reader.pcm = []) :
    ∃ session, Run (Step config) c (.client :: List.replicate 3 (.daemon .reader))
        { session, client := .receiving [] "" [] } ∧
      session.run = c.session.run.next config.maxInFlight .hangUp ∧
      session.loop = c.session.loop := by
  have hrunning : c.session.run.removed = false :=
    h.running (by simp [hphase, ReaderPhase.Returned])
  have hsignal : c.session.clientStep config (.signal signalEndOfStream) =
      some { c.session with toDaemon := [signalEndOfStream] } :=
    (clientStep_signal h.connected).mpr ⟨by rw [hsocket]; exact hsignals, by rw [hsocket]; rfl⟩
  have hsend : Step config c .client
      { session := { c.session with toDaemon := [signalEndOfStream] }
        client := .receiving [] "" [] } := by
    simp only [Step, OneShot.step, OneShot.clientStep, hclient, hsignal, Option.map_some]
  have hread : LiveSession.Step config { c.session with toDaemon := [signalEndOfStream] } .reader
      { c.session with toDaemon := [], readerPhase := .draining true } := by
    simp only [LiveSession.Step, LiveSession.step, LiveSession.readerStep, hphase,
      takeSignal_endOfStream]
  have hdrain : LiveSession.Step config
      { c.session with toDaemon := [], readerPhase := .draining true } .reader
      { c.session with
        toDaemon := []
        ring := { c.session.ring with readOffset := c.session.ring.writeOffset }
        readerPhase := .flushing true } := by
    have hnone : c.session.reader.pcm ++ c.session.ring.contents = c.session.reader.pcm := by
      rw [hcontents, List.append_nil]
    simp only [LiveSession.Step, LiveSession.step, LiveSession.readerStep,
      SharedAudioRing.drainAvailable_eq h.valid, hnone, moveReader, LiveReader.onDrained]
  have hflush : LiveSession.Step config
      { c.session with
        toDaemon := []
        ring := { c.session.ring with readOffset := c.session.ring.writeOffset }
        readerPhase := .flushing true } .reader
      { c.session with
        toDaemon := []
        ring := { c.session.ring with readOffset := c.session.ring.writeOffset }
        readerPhase := .returned (.ok (.completed c.session.reader.stats))
        run := c.session.run.next config.maxInFlight .hangUp } := by
    have hshort : ¬ LiveReader.chunkBytes ≤ 0 := by decide
    simp [LiveSession.Step, LiveSession.step, LiveSession.readerStep, flushStep, hpcm, hshort,
      moveReader, LiveReader.onFlushed, returnReader, hrunning]
  have hreader := run_daemon (.receiving [] "" []) (.cons hread (.cons hdrain (.single hflush)))
    (by simp [LiveSession.Event.answered])
  exact ⟨_, .cons hsend hreader, rfl, rfl⟩

/-- Behind a spent job nothing more is sent to a worker or answered. -/
theorem Invariant.spent_step (h : c.Invariant config total) (hmax : total < 2 ^ 64)
    (hspent : c.session.run.Spent) {event : Event} (hstep : Step config c event c') :
    c'.session.run.Spent ∧ c'.session.run.answers = c.session.run.answers ∧ event.Sends := by
  cases event with
  | client =>
      have hrun : c'.session.run = c.session.run := by
        cases h.clientMove hmax hstep <;> rfl
      rw [hrun]
      exact ⟨hspent, rfl, by simp [Event.Sends]⟩
  | daemon event =>
      obtain ⟨-, session, hsession, rfl⟩ := exists_of_daemon_step hstep
      obtain ⟨events, hrun, -⟩ := moves_step h.attached hsession
      obtain ⟨hspent', hanswers⟩ := hspent.of_run hrun
      refine ⟨hspent', hanswers, ?_⟩
      rintro ⟨⟩
      simp only [LiveSession.step, schedulerStep, Option.ite_none_right_eq_some,
        Option.map_eq_some_iff] at hsession
      obtain ⟨-, run, hdispatch, -⟩ := hsession
      exact (hspent.step hdispatch).2.2 false rfl

theorem Invariant.spent_run (h : c.Invariant config total) (hmax : total < 2 ^ 64)
    (hspent : c.session.run.Spent) {more : List Event} (hrun : Run (Step config) c more c') :
    c'.session.run.Spent ∧ c'.session.run.answers = c.session.run.answers ∧
      ∀ event ∈ more, event.Sends := by
  induction hrun with
  | refl => exact ⟨hspent, rfl, List.forall_mem_nil _⟩
  | snoc hrun hstep ih =>
      obtain ⟨hspent', hanswers, hevents⟩ := ih
      obtain ⟨hspent'', hanswers', hevent⟩ := (h.of_run hmax hrun).spent_step hmax hspent' hstep
      exact ⟨hspent'', hanswers'.trans hanswers,
        List.forall_mem_append.mpr ⟨hevents, List.forall_mem_singleton.mpr hevent⟩⟩

variable {capacity : UInt64} {count : Nat} {pcm : Bytes} {first second : WindowTranscription}

/-- **Windows may be answered out of order.** Audio of more than one window and of at most two, in
whole chunks that fill the ring once, goes to two workers, and in some run the second is the faster. -/
theorem exists_out_of_order (hlow : 938 ≤ count) (hhigh : count ≤ 1875)
    (hcapacity : capacity.toNat = LiveReader.chunkBytes * count)
    (hlength : pcm.length = LiveReader.chunkBytes * count) (hroom : 1 < config.maxInFlight)
    (hdepth : count ≤ config.clientWindowQueueDepth) (hsignals : 1 ≤ config.clientSendBuffer)
    (hsecond : second.windowIndex = 1) (hfirst : first.windowIndex = 0) (memory : Nat → UInt8)
    (jobId : Nat) (header : RequestHeader) :
    ∃ events c, Run (Step config) (start capacity memory jobId header false pcm) events c ∧
      c.session.run.Spent ∧ c.session.run.answers = [second, first] ∧
      ∀ event ∈ events, event.Sends := by
  have hpositive : 0 < capacity := by
    rw [UInt64.lt_iff_toNat_lt, hcapacity, LiveReader.chunkBytes]
    exact Nat.mul_pos (by decide) (by omega)
  have hmax : pcm.length < 2 ^ 64 := by
    rw [hlength, ← hcapacity]
    exact capacity.toNat_lt
  have hstart : (start capacity memory jobId header false pcm).session.ring.capacity = capacity := rfl
  have hinv := @invariant_start config capacity hpositive memory jobId header false pcm
  obtain ⟨events₁, ring, reader, chunks, -, hempty, hreader, -, haudio, hfed, hfill⟩ :=
    hinv.fill hmax hsignals rfl rfl rfl (SharedAudioRing.contents_initHeader _) rfl
      (by rw [hstart, hcapacity, hlength]) (hstart ▸ hcapacity) ((Nat.zero_add count).trans_le hdepth)
  have hsent : pcm.drop capacity.toNat = [] := by
    rw [List.drop_eq_nil_iff, hcapacity, hlength]
  have hinv₁ := hinv.of_run hmax hfill
  obtain ⟨session, hfinish, hrun, hloop⟩ :=
    hinv₁.finish hsignals (congrArg _ hsent) rfl rfl hempty hreader
  have hchunks : ∀ error, .error error ∉ chunks := by
    intro error hmem
    apply hinv₁.job.chunks error
    exact hmem
  obtain ⟨events₃, run, hanswers, hspent, hanswered, hevents⟩ :=
    @answers_run config session jobId header chunks first second hroom hrun hchunks (by omega)
      (by omega) hsecond hfirst hloop
  refine ⟨_, _, (hfill.trans hfinish).trans (run_daemon _ hanswers fun event hmem =>
    (hevents event hmem).1), hspent, hanswered, ?_⟩
  intro event hmem
  obtain hmem | hmem := List.mem_append.mp hmem
  · obtain hmem | hmem := List.mem_append.mp hmem
    · obtain rfl | rfl := hfed event hmem <;> simp [Event.Sends]
    · obtain rfl | rfl : event = .client ∨ event = .daemon .reader := by simpa using hmem
      all_goals simp [Event.Sends]
  · obtain ⟨event', hmem', rfl⟩ := List.mem_map.mp hmem
    simpa [Event.Sends] using (hevents event' hmem').2

/-- Such a run goes on until no step is left. -/
theorem exists_final_out_of_order (hlow : 938 ≤ count) (hhigh : count ≤ 1875)
    (hcapacity : capacity.toNat = LiveReader.chunkBytes * count)
    (hlength : pcm.length = LiveReader.chunkBytes * count) (hroom : 1 < config.maxInFlight)
    (hdepth : count ≤ config.clientWindowQueueDepth) (hsignals : 1 ≤ config.clientSendBuffer)
    (hsecond : second.windowIndex = 1) (hfirst : first.windowIndex = 0) (memory : Nat → UInt8)
    (jobId : Nat) (header : RequestHeader) :
    ∃ events c, Run (Step config) (start capacity memory jobId header false pcm) events c ∧
      Final (ServedStep config) c ∧ c.session.run.answers = [second, first] ∧
      ∀ event ∈ events, event.Sends := by
  obtain ⟨events, c, hrun, hspent, hanswers, hevents⟩ := exists_out_of_order hlow hhigh hcapacity
    hlength hroom hdepth hsignals hsecond hfirst memory jobId header
  have hpositive : 0 < capacity := by
    rw [UInt64.lt_iff_toNat_lt, hcapacity, LiveReader.chunkBytes]
    exact Nat.mul_pos (by decide) (by omega)
  have hmax : pcm.length < 2 ^ 64 := by
    rw [hlength, ← hcapacity]
    exact capacity.toNat_lt
  have hinv := (invariant_start hpositive memory jobId header false pcm).of_run hmax hrun
  have hterminates : Terminates (ServedStep config) c :=
    oneShot_terminates hpositive (fun h => by cases h) hmax hrun
  obtain ⟨more, last, hmore, hfinal⟩ := hterminates.exists_final
  have hsteps : Run (Step config) c more last := hmore.mono fun _ _ _ hstep => hstep.2
  obtain ⟨-, hsame, hmoreSends⟩ := hinv.spent_run hmax hspent hsteps
  exact ⟨_, last, hrun.trans hsteps, hfinal, hsame.trans hanswers,
    List.forall_mem_append.mpr ⟨hevents, hmoreSends⟩⟩

/-! ### A recording of two windows -/

/-- As many chunks as half a minute takes, and room for them. -/
def twoWindowConfig : SessionConfig where
  maxActiveJobsPerModel := 1
  maxInFlightWindowsPerJob := 3
  clientWindowQueueDepth := 938
  clientResponseQueueDepth := 16
  clientSendBuffer := 4096
  daemonSendBuffer := 4096

def recording : Bytes := List.replicate (LiveReader.chunkBytes * 938) 0

theorem length_recording : recording.length = LiveReader.chunkBytes * 938 := List.length_replicate

/-- One beam and that many tokens for each window. -/
def wordHeader (maxNewTokens : UInt64) : RequestHeader :=
  { maxNewTokens, beamSize := 1, suppressTokens := "none" }

/-- One word at the beginning of a window. -/
def wordAnswer (windowIndex : Nat) (begin_ : F32) : WindowTranscription where
  windowIndex
  absoluteStartSec := begin_
  text := "a"
  segments := [{ startSec := begin_, endSec := begin_, text := "a", tokens := [2], windowIndex }]

/-- The first window's word comes behind that of the second. -/
def lateAnswers : List WindowTranscription :=
  [wordAnswer 1 (samplesToSec 480000), wordAnswer 0 (samplesToSec 0)]

theorem exists_recording : ∃ events c,
    Run (Step twoWindowConfig) (start 960512 (fun _ => 0) 7 (wordHeader 1) false recording) events c ∧
      Final (ServedStep twoWindowConfig) c ∧ c.session.run.answers = lateAnswers ∧
      ∀ event ∈ events, event.Sends :=
  exists_final_out_of_order (@le_rfl _ _ 938) (by decide) (by decide) length_recording (by decide)
    (by decide) (by decide) rfl rfl _ _ _

end OneShot

end RkWhisper
