import RkWhisper.Proof.Ending
import RkWhisper.Proof.Timeline
import RkWhisper.Scheduler

/-!
# The scheduler runs every job as a live run

The scheduler's jobs are tracked by runs of their own. What links them is the work at the workers and
on its way back: a ticket for each piece of it says which job and which window it belongs to, and the
tickets of a job are among those its run waits for.
-/

namespace RkWhisper

open Transition

/-- What identifies a piece of work from its dispatch to its result. -/
inductive Ticket where
  | vad (jobId windowIndex startSample : Nat)
  | whisper (jobId windowIndex : Nat)
deriving DecidableEq

def Ticket.jobId : Ticket → Nat
  | .vad jobId _ _ => jobId
  | .whisper jobId _ => jobId

def NpuJob.ticket : NpuJob → Ticket
  | .vad job => .vad job.jobId job.windowIndex job.startSample
  | .whisper job => .whisper job.jobId job.windowIndex

def NpuResult.ticket : NpuResult → Ticket
  | .vad result => .vad result.jobId result.windowIndex result.startSample
  | .whisper result => .whisper result.jobId result.transcription.windowIndex

def resultTicket : Except Error NpuResult → Option Ticket
  | .ok result => some result.ticket
  | .error _ => none

theorem NpuJob.jobId_ticket (job : NpuJob) : job.ticket.jobId = job.jobId := by
  cases job <;> rfl

theorem NpuResult.jobId_ticket (result : NpuResult) : result.ticket.jobId = result.jobId := by
  cases result <;> rfl

namespace LiveRun

/-- The tickets a run waits for. -/
def tickets (run : LiveRun) : Multiset Ticket :=
  Multiset.map (Ticket.whisper run.job.jobId) run.awaited +
    Multiset.map (fun vadJob => (NpuJob.vad vadJob).ticket) run.vadJob.toList

/-- Nothing has been dispatched or answered. -/
structure SameBooks (run run' : LiveRun) : Prop where
  jobId : run'.job.jobId = run.job.jobId
  awaited : run'.awaited = run.awaited
  vadJob : run'.vadJob = run.vadJob
  dispatched : run'.dispatched = run.dispatched
  answers : run'.answers = run.answers

variable {maxInFlight : Nat} {run run' : LiveRun}

theorem SameBooks.tickets (h : SameBooks run run') : run'.tickets = run.tickets := by
  rw [LiveRun.tickets, h.jobId, h.awaited, h.vadJob, LiveRun.tickets]

theorem sameBooks_drain (maxInFlight : Nat) (run : LiveRun) :
    SameBooks run (run.next maxInFlight .drain) := by
  obtain ⟨chunkRx, closed, hdrain, -, -⟩ := run.job.drainLiveChunks_spec maxInFlight
  simp only [next, hdrain]
  constructor <;> rfl

theorem sameBooks_refresh (maxInFlight : Nat) (run : LiveRun) :
    SameBooks run (run.next maxInFlight .refresh) := by
  simp only [next]
  obtain hsame | ⟨config, hsilent⟩ := run.job.refreshSpeechState_cases
  · rw [hsame]
    constructor <;> rfl
  · rw [ActiveLiveJob.refreshSpeechState_of_silent hsilent]
    constructor <;> rfl

theorem sameBooks_finish (maxInFlight : Nat) (run : LiveRun) :
    SameBooks run (run.next maxInFlight .finish) := by
  simp only [next, ActiveLiveJob.finishIfComplete]
  split <;> constructor <;> rfl

/-- A VAD job that is sent adds its ticket; a failed send adds nothing. -/
theorem tickets_sendVad (hslot : VadSlot run) {config : VadConfig}
    (hconfig : run.job.vadConfig = some config) (hready : run.job.hasVadReady = true)
    (sent : Bool) : (run.next maxInFlight (.sendVad sent)).tickets =
      run.tickets + Multiset.map NpuJob.ticket
        ((run.job.sendVadJob sent).1.toList.map NpuJob.vad) := by
  obtain ⟨-, -, hidle, -⟩ := ActiveLiveJob.hasVadReady_iff.mp hready
  have hnone := hslot.vadJob_eq_none hidle
  simp only [tickets, next, ActiveLiveJob.sendVadJob_of_ready hconfig hready, hnone]
  cases sent <;> simp

/-- A window that is dispatched adds its ticket. -/
theorem tickets_dispatch {plan : DispatchPlan} (hplan : run.job.nextDispatchPlan = some plan)
    (sent : Bool) : (run.next maxInFlight (.dispatch sent)).tickets =
      run.tickets + Multiset.map NpuJob.ticket
        ((run.job.dispatchToWorker sent).1.toList.map NpuJob.whisper) := by
  simp only [tickets, next, ActiveLiveJob.dispatchToWorker_eq hplan]
  cases sent with
  | false => simp [ActiveLiveJob.cut, ActiveLiveJob.send]
  | true =>
      simp only [if_true, Option.toList_some, List.map_singleton, ← Multiset.coe_add,
        Multiset.map_add, ActiveLiveJob.countDispatch, ActiveLiveJob.cut, ActiveLiveJob.send]
      rw [add_right_comm]
      rfl

theorem tickets_whisperResult {result : WindowTranscription}
    (hmem : result.windowIndex ∈ run.awaited) :
    run.tickets = Ticket.whisper run.job.jobId result.windowIndex ::ₘ
      (run.next maxInFlight (.whisperResult result)).tickets := by
  have hjob : (run.next maxInFlight (.whisperResult result)).job.jobId = run.job.jobId := by
    obtain ⟨emitted, pending, hjob, -⟩ := run.job.handleResult_spec result
    simp only [next, hjob]
  rw [tickets, tickets, hjob]
  have hcons : (run.awaited : Multiset Nat) =
      result.windowIndex ::ₘ (run.awaited.erase result.windowIndex : List Nat) := by
    rw [← Multiset.coe_erase, Multiset.cons_erase (Multiset.mem_coe.mpr hmem)]
  rw [hcons, Multiset.map_cons, Multiset.cons_add]
  rfl

theorem tickets_vadResult {vadJob : VadJob} (hjob : run.vadJob = some vadJob)
    (result : VadResult) : run.tickets = (NpuJob.vad vadJob).ticket ::ₘ
      (run.next maxInFlight (.vadResult result)).tickets := by
  simp only [tickets, next, ActiveLiveJob.handleVadResult, hjob, Option.toList_some,
    Option.toList_none, Multiset.coe_singleton, Multiset.map_singleton, Multiset.coe_nil,
    Multiset.map_zero, add_zero]
  rw [add_comm, Multiset.singleton_add]

theorem mem_tickets_whisper {index : Nat} (h : Ticket.whisper run.job.jobId index ∈ run.tickets) :
    index ∈ run.awaited := by
  rw [tickets, Multiset.mem_add] at h
  obtain hwhisper | hvad := h
  · obtain ⟨index', hmem, heq⟩ := Multiset.mem_map.mp hwhisper
    cases heq
    exact hmem
  · obtain ⟨vadJob, -, heq⟩ := Multiset.mem_map.mp hvad
    cases heq

theorem mem_tickets_vad {jobId windowIndex startSample : Nat}
    (h : Ticket.vad jobId windowIndex startSample ∈ run.tickets) :
    ∃ vadJob, run.vadJob = some vadJob ∧
      (NpuJob.vad vadJob).ticket = Ticket.vad jobId windowIndex startSample := by
  rw [tickets, Multiset.mem_add] at h
  obtain hwhisper | hvad := h
  · obtain ⟨index, -, heq⟩ := Multiset.mem_map.mp hwhisper
    cases heq
  · obtain ⟨vadJob, hmem, heq⟩ := Multiset.mem_map.mp hvad
    exact ⟨vadJob, Option.mem_toList.mp hmem, heq⟩

/-! ### Genuine runs -/

/-- A step of one job; where `errorFree` holds, one that meets no error of the reader. -/
def JobStep (errorFree : Prop) (maxInFlight : Nat) (run : LiveRun) (event : Event)
    (run' : LiveRun) : Prop :=
  Step maxInFlight run event run' ∧ (errorFree → ErrorFree maxInFlight run event)

def Genuine (errorFree : Prop) (maxInFlight : Nat) (run : LiveRun) : Prop :=
  ∃ jobId header chunkRx vadEnabled events,
    Run (JobStep errorFree maxInFlight) (start jobId header chunkRx vadEnabled) events run

variable {errorFree : Prop}

theorem Genuine.start (jobId : Nat) (header : RequestHeader) (chunkRx : ChunkReceiver)
    (vadEnabled : Bool) :
    Genuine errorFree maxInFlight (start jobId header chunkRx vadEnabled) :=
  ⟨jobId, header, chunkRx, vadEnabled, [], .refl⟩

theorem Genuine.next (h : Genuine errorFree maxInFlight run) (hremoved : run.removed = false)
    {event : Event} (henabled : run.Enabled maxInFlight event)
    (hfree : errorFree → ErrorFree maxInFlight run event) :
    Genuine errorFree maxInFlight (run.next maxInFlight event) := by
  obtain ⟨jobId, header, chunkRx, vadEnabled, events, hrun⟩ := h
  exact ⟨jobId, header, chunkRx, vadEnabled, events ++ [event],
    .snoc hrun ⟨step_eq_some_iff.mpr ⟨⟨hremoved, henabled⟩, rfl⟩, hfree⟩⟩

/-- What every step keeps holds in a genuine run. -/
theorem Genuine.invariant {P : LiveRun → Prop} (h : Genuine errorFree maxInFlight run)
    (hstart : ∀ jobId header chunkRx vadEnabled, P (LiveRun.start jobId header chunkRx vadEnabled))
    (hstep : ∀ run event run', P run → JobStep errorFree maxInFlight run event run' → P run') :
    P run := by
  obtain ⟨jobId, header, chunkRx, vadEnabled, events, hrun⟩ := h
  exact hrun.invariant (P := fun _ run => P run) (hstart ..) fun _ _ _ _ hP hs => hstep _ _ _ hP hs

theorem Genuine.delivery (h : Genuine errorFree maxInFlight run) : Delivery maxInFlight run :=
  h.invariant (.start maxInFlight) fun _ _ _ hinv hstep => hinv.step hstep.1

theorem Genuine.slot (h : Genuine errorFree maxInFlight run) : VadSlot run :=
  h.invariant (fun _ _ _ _ => rfl) fun _ _ _ hinv hstep => hinv.step (audioStep hstep.1)

theorem Genuine.ending (h : Genuine errorFree maxInFlight run) (hfree : errorFree) : Ending run :=
  h.invariant
    (fun _ _ _ _ => ⟨fun _ _ => List.not_mem_nil, endsOnce_of_not_mem fun _ => List.not_mem_nil⟩)
    fun _ _ _ hinv hstep => hinv.step (hstep.2 hfree) hstep.1

/-- A terminal response without an error is the last of all. -/
theorem Genuine.finished (h : Genuine errorFree maxInFlight run) {stats : LiveTranscriptionStats}
    {front back : List JobResponse}
    (hsplit : run.job.responseTx = front ++ .finished (.ok stats) :: back) : back = [] := by
  refine (h.invariant (P := fun run => Delivery maxInFlight run ∧ ∀ front back,
    run.job.responseTx = front ++ .finished (.ok stats) :: back → back = []) ?_ ?_).2 _ _ hsplit
  · intro jobId header chunkRx vadEnabled
    refine ⟨.start maxInFlight .., ?_⟩
    intro front back hnil
    exact absurd hnil.symm (List.append_ne_nil_of_right_ne_nil _ (List.cons_ne_nil _ _))
  · intro run event run' hinv hstep
    have hdelivery := hinv.1.step hstep.1
    obtain ⟨⟨hbefore, henabled⟩, rfl⟩ := step_eq_some_iff.mp hstep.1
    have hnone := hinv.1.not_finished hbefore stats
    refine ⟨hdelivery, ?_⟩
    intro front back hsplit
    have hmem : .finished (.ok stats) ∈ (run.next maxInFlight event).job.responseTx := by
      rw [hsplit]
      exact List.mem_append_right _ List.mem_cons_self
    have hremoved := (hdelivery.finished stats hmem).1
    cases event with
    | finish =>
        have hcomplete : run.job.isComplete = true := henabled
        simp only [LiveRun.next, ActiveLiveJob.finishIfComplete, if_pos hcomplete] at hsplit
        exact eq_nil_of_concat_eq hnone hsplit
    | abort error => exact eq_nil_of_concat_eq hnone hsplit
    | _ => exact absurd (hremoved.symm.trans hbefore) (by decide)

end LiveRun

/-! ### The books of the scheduler -/

namespace Scheduler

def tickets (s : Scheduler) : Multiset Ticket :=
  Multiset.map NpuJob.ticket s.atWorkers + (s.resultRx.filterMap resultTicket : List Ticket)

def ticketsOf (s : Scheduler) (jobId : Nat) : Multiset Ticket :=
  s.tickets.filter fun ticket => ticket.jobId = jobId

def sentTo (s : Scheduler) (jobId : Nat) : List WhisperJob :=
  s.sent.filter fun job => decide (job.jobId = jobId)

/-- What the workers have made of the windows of one job. -/
def answersTo (s : Scheduler) (jobId : Nat) : List WindowTranscription :=
  (s.answered.filter fun answer => decide (answer.jobId = jobId)).map
    WorkerTranscription.transcription

/-- The books of one job, as another scheduler state keeps them: no new tickets, the same windows
sent, no answer forgotten. -/
structure Frame (s s' : Scheduler) (jobId : Nat) : Prop where
  tickets : s'.ticketsOf jobId ≤ s.ticketsOf jobId
  sent : s'.sentTo jobId = s.sentTo jobId
  answers : s.answersTo jobId ⊆ s'.answersTo jobId

variable {errorFree : Prop} {maxInFlight : Nat} {s s' s'' : Scheduler}

theorem Frame.refl (s : Scheduler) (jobId : Nat) : Frame s s jobId :=
  ⟨le_rfl, rfl, List.Subset.refl _⟩

/-- The run stands for one job of the scheduler. -/
structure Tracks (errorFree : Prop) (maxInFlight : Nat) (s : Scheduler) (run : LiveRun) :
    Prop where
  genuine : run.Genuine errorFree maxInFlight
  tickets : s.ticketsOf run.job.jobId ≤ run.tickets
  sent : run.dispatched.map DispatchedWindow.whisperJob = s.sentTo run.job.jobId
  answers : run.answers ⊆ s.answersTo run.job.jobId

theorem Tracks.frame {run : LiveRun} (h : Tracks errorFree maxInFlight s run)
    (hframe : Frame s s' run.job.jobId) : Tracks errorFree maxInFlight s' run where
  genuine := h.genuine
  tickets := hframe.tickets.trans h.tickets
  sent := h.sent.trans hframe.sent.symm
  answers := fun _ hmem => hframe.answers (h.answers hmem)

theorem Tracks.sameBooks {run run' : LiveRun} (h : Tracks errorFree maxInFlight s run)
    (hsame : run.SameBooks run') (hgenuine : run'.Genuine errorFree maxInFlight) :
    Tracks errorFree maxInFlight s run' where
  genuine := hgenuine
  tickets := by
    rw [hsame.jobId, hsame.tickets]
    exact h.tickets
  sent := by
    rw [hsame.jobId, hsame.dispatched]
    exact h.sent
  answers := by
    rw [hsame.jobId, hsame.answers]
    exact h.answers

/-- Whatever run stands for `job` goes on to one that stands for `job'`, which is `removed`. -/
def Continues (errorFree : Prop) (maxInFlight : Nat) (s s' : Scheduler) (removed : Bool)
    (job job' : ActiveLiveJob) : Prop :=
  ∀ run, run.job = job → run.removed = false → Tracks errorFree maxInFlight s run →
    ∃ run', run'.job = job' ∧ run'.removed = removed ∧ Tracks errorFree maxInFlight s' run'

theorem Continues.trans {removed : Bool} {job job' job'' : ActiveLiveJob}
    (h : Continues errorFree maxInFlight s s' false job job')
    (h' : Continues errorFree maxInFlight s' s'' removed job' job'') :
    Continues errorFree maxInFlight s s'' removed job job'' := by
  intro run hjob hremoved htracks
  obtain ⟨run', hjob', hremoved', htracks'⟩ := h run hjob hremoved htracks
  exact h' run' hjob' hremoved' htracks'

variable {job : ActiveLiveJob}

theorem continues_frame (hframe : Frame s s' job.jobId) :
    Continues errorFree maxInFlight s s' false job job := by
  rintro run rfl hremoved htracks
  exact ⟨run, rfl, hremoved, htracks.frame hframe⟩

/-- A step of the job itself, which leaves the books alone. -/
theorem continues_step (event : LiveRun.Event)
    (henabled : ∀ run : LiveRun, run.job = job → run.Enabled maxInFlight event)
    (hfree : ∀ run : LiveRun, run.job = job → errorFree → run.ErrorFree maxInFlight event)
    (hsame : ∀ run : LiveRun, run.SameBooks (run.next maxInFlight event)) {removed : Bool}
    {job' : ActiveLiveJob} (hnext : ∀ run : LiveRun, run.job = job → run.removed = false →
      (run.next maxInFlight event).job = job' ∧ (run.next maxInFlight event).removed = removed) :
    Continues errorFree maxInFlight s s removed job job' := by
  intro run hjob hremoved htracks
  obtain ⟨hjob', hremoved'⟩ := hnext run hjob hremoved
  exact ⟨_, hjob', hremoved', htracks.sameBooks (hsame run)
    (htracks.genuine.next hremoved (henabled run hjob) (hfree run hjob))⟩

theorem continues_drain (hfree : errorFree → ∀ error, .error error ∉ job.drainedChunks maxInFlight) :
    Continues errorFree maxInFlight s s false job (job.drainLiveChunks maxInFlight) := by
  refine continues_step .drain (fun _ _ => trivial) ?_ (LiveRun.sameBooks_drain maxInFlight) ?_
  · rintro run rfl herrorFree -
    exact hfree herrorFree
  · rintro run rfl hremoved
    exact ⟨rfl, hremoved⟩

theorem continues_refresh :
    Continues errorFree maxInFlight s s false job job.refreshSpeechState := by
  refine continues_step .refresh (fun _ _ => trivial) ?_ (LiveRun.sameBooks_refresh maxInFlight) ?_
  · rintro run rfl - hevent
    cases hevent
  · rintro run rfl hremoved
    exact ⟨rfl, hremoved⟩

theorem continues_finish (hcomplete : job.isComplete = true) :
    Continues errorFree maxInFlight s s true job (job.send [.finished (.ok job.stats)]) := by
  refine continues_step .finish ?_ ?_ (LiveRun.sameBooks_finish maxInFlight) ?_
  · rintro run rfl
    exact hcomplete
  · rintro run rfl - hevent
    cases hevent
  · rintro run rfl -
    refine ⟨?_, rfl⟩
    simp only [LiveRun.next, ActiveLiveJob.finishIfComplete, if_pos hcomplete]

theorem continues_abort (error : Error) :
    Continues errorFree maxInFlight s s true job (job.send [.finished (.error error)]) := by
  refine continues_step (.abort error) (fun _ _ => trivial) ?_ (fun _ => by constructor <;> rfl) ?_
  · rintro run rfl - hevent
    cases hevent
  · rintro run rfl -
    exact ⟨rfl, rfl⟩

theorem continues_arrive (chunk : Except Error LiveChunk)
    (hopen : job.chunkRx.disconnected = false) :
    Continues errorFree maxInFlight s s false job
      { job with chunkRx := { job.chunkRx with queue := job.chunkRx.queue ++ [chunk] } } := by
  refine continues_step (.arrive chunk) ?_ ?_ (fun _ => by constructor <;> rfl) ?_
  · rintro run rfl
    exact hopen
  · rintro run rfl - hevent
    cases hevent
  · rintro run rfl hremoved
    exact ⟨rfl, hremoved⟩

theorem continues_hangUp :
    Continues errorFree maxInFlight s s false job
      { job with chunkRx := { job.chunkRx with disconnected := true } } := by
  refine continues_step .hangUp (fun _ _ => trivial) ?_ (fun _ => by constructor <;> rfl) ?_
  · rintro run rfl - hevent
    cases hevent
  · rintro run rfl hremoved
    exact ⟨rfl, hremoved⟩

/-! ### Dispatches and results -/

theorem jobId_sendVadJob (job : ActiveLiveJob) (sent : Bool) :
    (job.sendVadJob sent).2.jobId = job.jobId := by
  rw [ActiveLiveJob.sendVadJob, ActiveLiveJob.nextVadJob]
  split
  · rename_i hnext
    split at hnext
    · cases hnext
      rfl
    · split at hnext <;> cases hnext
      rfl
  · rename_i hnext
    split at hnext
    · cases hnext
    · split at hnext
      · cases hnext
        cases sent <;> rfl
      · cases hnext

theorem jobId_dispatchToWorker (job : ActiveLiveJob) (sent : Bool) :
    (job.dispatchToWorker sent).2.jobId = job.jobId := by
  rw [ActiveLiveJob.dispatchToWorker]
  split
  · rfl
  · cases sent <;> rfl

theorem jobId_handleResult (job : ActiveLiveJob) (result : WindowTranscription) :
    (job.handleResult result).jobId = job.jobId := by
  obtain ⟨emitted, pending, hjob, -⟩ := job.handleResult_spec result
  rw [hjob]

theorem continues_sendVad (hready : job.hasVadReady = true) (sent : Bool)
    (htickets : s'.ticketsOf job.jobId ≤ s.ticketsOf job.jobId +
      Multiset.map NpuJob.ticket ((job.sendVadJob sent).1.toList.map NpuJob.vad))
    (hsent : s'.sentTo job.jobId = s.sentTo job.jobId)
    (hanswers : s.answersTo job.jobId ⊆ s'.answersTo job.jobId) :
    Continues errorFree maxInFlight s s' false job (job.sendVadJob sent).2 := by
  rintro run rfl hremoved htracks
  obtain ⟨config, hconfig, -⟩ := ActiveLiveJob.hasVadReady_iff.mp hready
  have henabled : run.Enabled maxInFlight (.sendVad sent) := hready
  have hgenuine := htracks.genuine.next hremoved henabled (fun _ hevent => by cases hevent)
  have hid : (run.next maxInFlight (.sendVad sent)).job.jobId = run.job.jobId :=
    jobId_sendVadJob run.job sent
  refine ⟨run.next maxInFlight (.sendVad sent), rfl, hremoved, hgenuine, ?_, ?_, ?_⟩
  · rw [hid, LiveRun.tickets_sendVad htracks.genuine.slot hconfig hready]
    exact htickets.trans (add_le_add_left htracks.tickets _)
  · rw [hid, hsent]
    exact htracks.sent
  · rw [hid]
    exact fun _ hmem => hanswers (htracks.answers hmem)

theorem continues_dispatch (hready : job.hasVadReady = false)
    (hmay : job.mayDispatch maxInFlight = true) (sent : Bool)
    (htickets : s'.ticketsOf job.jobId ≤ s.ticketsOf job.jobId +
      Multiset.map NpuJob.ticket ((job.dispatchToWorker sent).1.toList.map NpuJob.whisper))
    (hsent : s'.sentTo job.jobId = s.sentTo job.jobId ++ (job.dispatchToWorker sent).1.toList)
    (hanswers : s.answersTo job.jobId ⊆ s'.answersTo job.jobId) :
    Continues errorFree maxInFlight s s' false job (job.dispatchToWorker sent).2 := by
  rintro run rfl hremoved htracks
  obtain ⟨-, -, plan, hplan⟩ := ActiveLiveJob.mayDispatch_iff.mp hmay
  have henabled : run.Enabled maxInFlight (.dispatch sent) := ⟨hready, hmay⟩
  have hgenuine := htracks.genuine.next hremoved henabled (fun _ hevent => by cases hevent)
  have hid : (run.next maxInFlight (.dispatch sent)).job.jobId = run.job.jobId :=
    jobId_dispatchToWorker run.job sent
  refine ⟨run.next maxInFlight (.dispatch sent), rfl, hremoved, hgenuine, ?_, ?_, ?_⟩
  · rw [hid, LiveRun.tickets_dispatch hplan]
    exact htickets.trans (add_le_add_left htracks.tickets _)
  · rw [hid, hsent, ← htracks.sent]
    simp only [LiveRun.next, List.map_append, LiveRun.dispatchedNow_eq hplan,
      ActiveLiveJob.dispatchToWorker_eq hplan]
    cases sent <;> rfl
  · rw [hid]
    exact fun _ hmem => hanswers (htracks.answers hmem)

theorem continues_whisperResult {result : WindowTranscription}
    (htickets : s.ticketsOf job.jobId =
      Ticket.whisper job.jobId result.windowIndex ::ₘ s'.ticketsOf job.jobId)
    (hsent : s'.sentTo job.jobId = s.sentTo job.jobId)
    (hanswers : s.answersTo job.jobId ⊆ s'.answersTo job.jobId)
    (hanswer : result ∈ s'.answersTo job.jobId) :
    Continues errorFree maxInFlight s s' false job (job.handleResult result) := by
  rintro run rfl hremoved htracks
  have hle := htracks.tickets
  rw [htickets] at hle
  have hawaited : result.windowIndex ∈ run.awaited :=
    LiveRun.mem_tickets_whisper (Multiset.mem_of_le hle (Multiset.mem_cons_self _ _))
  have henabled : run.Enabled maxInFlight (.whisperResult result) := hawaited
  have hgenuine := htracks.genuine.next hremoved henabled (fun _ hevent => by cases hevent)
  have hid : (run.next maxInFlight (.whisperResult result)).job.jobId = run.job.jobId :=
    jobId_handleResult run.job result
  refine ⟨run.next maxInFlight (.whisperResult result), rfl, hremoved, hgenuine, ?_, ?_, ?_⟩
  · rw [@LiveRun.tickets_whisperResult maxInFlight run result hawaited,
      Multiset.cons_le_cons_iff] at hle
    rw [hid]
    exact hle
  · rw [hid, hsent]
    exact htracks.sent
  · rw [hid]
    refine List.append_subset.mpr ⟨fun _ hmem => hanswers (htracks.answers hmem), ?_⟩
    intro answer hmem
    obtain rfl := List.mem_singleton.mp hmem
    exact hanswer

theorem continues_vadResult {result : VadResult}
    (htickets : s.ticketsOf job.jobId = (NpuResult.vad result).ticket ::ₘ s'.ticketsOf job.jobId)
    (hsent : s'.sentTo job.jobId = s.sentTo job.jobId)
    (hanswers : s.answersTo job.jobId ⊆ s'.answersTo job.jobId) :
    Continues errorFree maxInFlight s s' false job (job.handleVadResult result) := by
  rintro run rfl hremoved htracks
  have hle := htracks.tickets
  rw [htickets] at hle
  obtain ⟨vadJob, hvadJob, heq⟩ :=
    LiveRun.mem_tickets_vad (Multiset.mem_of_le hle (Multiset.mem_cons_self _ _))
  have henabled : run.Enabled maxInFlight (.vadResult result) := by
    simp only [NpuJob.ticket, Ticket.vad.injEq] at heq
    simp only [LiveRun.Enabled, hvadJob]
    exact ⟨heq.1.symm, heq.2.1.symm, heq.2.2.symm⟩
  have hgenuine := htracks.genuine.next hremoved henabled (fun _ hevent => by cases hevent)
  refine ⟨run.next maxInFlight (.vadResult result), rfl, hremoved, hgenuine, ?_, ?_, ?_⟩
  · have hsame : (NpuResult.vad result).ticket = (NpuJob.vad vadJob).ticket := heq.symm
    rw [@LiveRun.tickets_vadResult maxInFlight run vadJob hvadJob result, hsame,
      Multiset.cons_le_cons_iff] at hle
    exact hle
  · exact htracks.sent.trans hsent.symm
  · exact fun _ hmem => hanswers (htracks.answers hmem)

end Scheduler

end RkWhisper
