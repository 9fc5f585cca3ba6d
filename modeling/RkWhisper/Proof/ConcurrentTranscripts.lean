import RkWhisper.Proof.OfflineTranscript
import RkWhisper.Proof.VadTurns

/-!
# Concurrent clients get the offline transcripts

One scheduler serves many jobs, in any order and with windows of all of them at the workers. Without
VAD what becomes of a job depends on its own audio alone: each job that is finished has sent the
segments that the offline driver makes of the audio that has arrived for it.
-/

namespace RkWhisper

open Transition

namespace Scheduler

variable {maxInFlight : Nat} {s s' : Scheduler}

/-! ### What arrives for a job -/

/-- What an event puts into the channel of the job with this id; `next` is the id of a new job. -/
def Event.chunksFor (jobId next : Nat) : Event → List (Except Error LiveChunk)
  | .newJob job => if next = jobId then job.chunkRx.queue else []
  | .arrive owner chunk => if owner = jobId then [chunk] else []
  | _ => []

def Event.newJobs : Event → Nat
  | .newJob _ => 1
  | _ => 0

def arrivedFor (jobId : Nat) : Nat → List Event → List (Except Error LiveChunk)
  | _, [] => []
  | next, event :: events =>
      event.chunksFor jobId next ++ arrivedFor jobId (next + event.newJobs) events

/-- The chunks of a job of a run that began with `first`. -/
def chunksOf (firstId : Nat) (first : ModelJob) (events : List Event) (jobId : Nat) :
    List (Except Error LiveChunk) :=
  (if firstId = jobId then first.chunkRx.queue else []) ++ arrivedFor jobId (firstId + 1) events

def Event.client : Event → Option ModelJob
  | .newJob job => some job
  | _ => none

/-- The jobs of a run, in the order of their ids. -/
def clientsOf (first : ModelJob) (events : List Event) : List ModelJob :=
  first :: events.filterMap Event.client

theorem arrivedFor_snoc (jobId : Nat) (events : List Event) (event : Event) (next : Nat) :
    arrivedFor jobId next (events ++ [event]) = arrivedFor jobId next events ++
      event.chunksFor jobId (next + (events.map Event.newJobs).sum) := by
  induction events generalizing next with
  | nil => exact List.append_nil _
  | cons first events ih =>
      rw [List.cons_append, arrivedFor, arrivedFor, ih, List.append_assoc, List.map_cons,
        List.sum_cons, Nat.add_assoc]

theorem chunksOf_snoc (firstId : Nat) (first : ModelJob) (events : List Event) (event : Event)
    (jobId : Nat) : chunksOf firstId first (events ++ [event]) jobId =
      chunksOf firstId first events jobId ++
        event.chunksFor jobId (firstId + 1 + (events.map Event.newJobs).sum) := by
  rw [chunksOf, arrivedFor_snoc, ← List.append_assoc, chunksOf]

theorem length_clientsOf (first : ModelJob) (events : List Event) :
    (clientsOf first events).length = (events.map Event.newJobs).sum + 1 := by
  rw [clientsOf, List.length_cons]
  congr 1
  induction events with
  | nil => rfl
  | cons event events ih =>
      rw [List.map_cons, List.sum_cons, ← ih, List.filterMap_cons]
      cases event <;> simp [Event.client, Event.newJobs, Nat.add_comm]

theorem clientsOf_snoc (first : ModelJob) (events : List Event) (event : Event) :
    clientsOf first (events ++ [event]) = clientsOf first events ++ event.client.toList := by
  rw [clientsOf, List.filterMap_append, List.filterMap_cons, List.filterMap_nil]
  cases event.client <;> rfl

/-! ### The stream of one job -/

/-- A run of one job has the same windows and the same audio as this job of the scheduler; which of
its windows have been answered is left open. -/
structure Follows (s : Scheduler) (arrived : List (Except Error LiveChunk))
    (options : TranscribeOptions) (run : LiveRun) : Prop where
  requested : run.job.options = options
  audio : LiveRun.AudioInvariant none run
  striding : LiveRun.Striding run
  sent : run.dispatched.map DispatchedWindow.whisperJob = s.sentTo run.job.jobId
  stream : run.accepted ++ audioOf run.job.chunkRx.queue = audioOf arrived
  waiting : ∀ chunk ∈ run.job.chunkRx.queue, chunk ∈ arrived
  closed : run.job.producerClosed = true → (∀ error, .error error ∉ arrived) →
    run.job.chunkRx.queue = [] ∧ run.job.chunkRx.disconnected = true

def Followed (s : Scheduler) (arrived : List (Except Error LiveChunk)) (options : TranscribeOptions)
    (job : ActiveLiveJob) : Prop :=
  ∃ run : LiveRun, run.job = job ∧ Follows s arrived options run

variable {arrived : List (Except Error LiveChunk)} {options : TranscribeOptions}
  {job job' : ActiveLiveJob}

theorem Follows.frame {run : LiveRun} (h : Follows s arrived options run)
    (hsent : s'.sentTo run.job.jobId = s.sentTo run.job.jobId) : Follows s' arrived options run :=
  { h with sent := h.sent.trans hsent.symm }

theorem Followed.frame (h : Followed s arrived options job)
    (hsent : s'.sentTo job.jobId = s.sentTo job.jobId) : Followed s' arrived options job := by
  obtain ⟨run, rfl, hfollows⟩ := h
  exact ⟨run, rfl, hfollows.frame hsent⟩

/-- The answers that are awaited and the removal are of no account. -/
theorem Follows.reset {run : LiveRun} (h : Follows s arrived options run) (awaited : List Nat) :
    Follows s arrived options { run with awaited, removed := false } where
  requested := h.requested
  audio :=
    { vadConfig := h.audio.vadConfig
      timeline := ⟨h.audio.timeline.offset_le, h.audio.timeline.buffer⟩
      recording := fun _ hconfig => absurd hconfig (Option.not_mem_none _)
      slot := h.audio.slot
      vadOff := h.audio.vadOff
      dispatching := ⟨h.audio.dispatching.follow, h.audio.dispatching.stop_le,
        h.audio.dispatching.carries⟩ }
  striding := ⟨h.striding.intervals, h.striding.offset, h.striding.whole, h.striding.jobs⟩
  sent := h.sent
  stream := h.stream
  waiting := h.waiting
  closed := h.closed

/-- What is in the channel has been in it, or arrives now. -/
theorem mem_queue_step {run run' : LiveRun} {event : LiveRun.Event}
    (hstep : LiveRun.Step maxInFlight run event run') {chunk : Except Error LiveChunk}
    (hmem : chunk ∈ run'.job.chunkRx.queue) :
    chunk ∈ run.job.chunkRx.queue ∨ chunk ∈ LiveRun.arrivals [event] := by
  by_cases hdrain : event = .drain
  · obtain ⟨-, rfl⟩ := LiveRun.step_eq_some_iff.mp hstep
    subst hdrain
    obtain ⟨chunkRx, closed, hjob, -, hqueue⟩ := run.job.drainLiveChunks_spec maxInFlight
    simp only [LiveRun.next, hjob] at hmem
    exact .inl (hqueue ▸ List.mem_append_right _ hmem)
  · cases event with
    | arrive arriving =>
        obtain ⟨-, rfl⟩ := LiveRun.step_eq_some_iff.mp hstep
        exact List.mem_append.mp hmem
    | hangUp =>
        obtain ⟨-, rfl⟩ := LiveRun.step_eq_some_iff.mp hstep
        exact .inl hmem
    | _ =>
        rw [(LiveRun.keepsChannels_of_step hstep (by simp) (by simp) hdrain).chunkRx] at hmem
        exact .inl hmem

/-- A drain that closes the job has found the channel closed, and has taken everything. -/
theorem closed_drain {run : LiveRun} (hopen : ¬ run.job.producerClosed = true)
    (hchunks : ∀ error, .error error ∉ run.job.chunkRx.queue)
    (hclosed : (run.next maxInFlight .drain).job.producerClosed = true) :
    (run.next maxInFlight .drain).job.chunkRx.queue = [] ∧
      (run.next maxInFlight .drain).job.chunkRx.disconnected = true := by
  obtain hbefore | hend := ActiveLiveJob.closed_of_drainLiveChunks hchunks hclosed
  · exact absurd hbefore hopen
  refine ⟨?_, (LiveRun.drain_spec maxInFlight run).2.trans hend⟩
  have hskip : ¬ (run.job.producerClosed = true ∨ maxInFlight ≤ run.job.inFlight) := by
    intro hskip
    simp only [LiveRun.next, ActiveLiveJob.drainLiveChunks, if_pos hskip] at hclosed
    exact hopen hclosed
  obtain ⟨chunkRx, closed, hdrained, -, hqueue⟩ := run.job.drainLiveChunks_spec maxInFlight
  rw [ActiveLiveJob.drainedChunks, if_neg hskip] at hqueue
  simp only [LiveRun.next, hdrained]
  exact List.append_right_eq_self.mp hqueue

/-- **One step of the job.** -/
theorem Follows.next {run run' : LiveRun} {event : LiveRun.Event} (h : Follows s arrived options run)
    (hstep : LiveRun.Step maxInFlight run event run') (hsends : LiveRun.Sends event)
    (hsent : run'.dispatched.map DispatchedWindow.whisperJob = s'.sentTo run'.job.jobId) :
    Follows s' (arrived ++ LiveRun.arrivals [event]) options run' := by
  have hwindow : ∀ config ∈ (none : Option VadConfig), 1 ≤ config.windowSamples := by simp
  have haudio := LiveRun.audioStep hstep
  refine ⟨(LiveRun.options_step hstep).trans h.requested, h.audio.step hwindow haudio,
    h.striding.step h.audio.timeline h.audio.vadConfig hsends haudio, hsent,
    LiveRun.accepted_step h.stream hstep, ?_, ?_⟩
  · intro chunk hmem
    obtain hold | hnew := mem_queue_step hstep hmem
    · exact List.mem_append_left _ (h.waiting chunk hold)
    · exact List.mem_append_right _ hnew
  · intro hclosed hfree
    have hbefore : ∀ error, .error error ∉ arrived :=
      fun error hmem => hfree error (List.mem_append_left _ hmem)
    by_cases hdrain : event = .drain
    · obtain ⟨-, rfl⟩ := LiveRun.step_eq_some_iff.mp hstep
      subst hdrain
      by_cases hopen : run.job.producerClosed = true
      · have hsame : run.job.drainLiveChunks maxInFlight = run.job :=
          if_pos (.inl hopen)
        simp only [LiveRun.next, hsame]
        exact h.closed hopen hbefore
      · exact closed_drain hopen (fun error hmem => hbefore error (h.waiting _ hmem)) hclosed
    · cases event with
      | arrive chunk =>
          obtain ⟨⟨-, hopen⟩, rfl⟩ := LiveRun.step_eq_some_iff.mp hstep
          obtain ⟨-, hend⟩ := h.closed hclosed hbefore
          exact absurd (hend.symm.trans hopen) (by decide)
      | hangUp =>
          obtain ⟨-, rfl⟩ := LiveRun.step_eq_some_iff.mp hstep
          exact ⟨(h.closed hclosed hbefore).1, rfl⟩
      | _ =>
          have hkeeps := LiveRun.keepsChannels_of_step hstep (by simp) (by simp) hdrain
          rw [hkeeps.chunkRx]
          exact h.closed (hkeeps.producerClosed ▸ hclosed) hbefore

/-- A step of the job that sends nothing. -/
theorem Followed.next {event : LiveRun.Event} (h : Followed s arrived options job) (awaited : List Nat)
    (hsends : LiveRun.Sends event)
    (henabled : ∀ run : LiveRun, run.job = job → run.awaited = awaited →
      run.Enabled maxInFlight event)
    (hnext : ∀ run : LiveRun, run.job = job → (run.next maxInFlight event).job = job' ∧
      (run.next maxInFlight event).dispatched = run.dispatched)
    (hid : job'.jobId = job.jobId) (hsent : s'.sentTo job.jobId = s.sentTo job.jobId) :
    Followed s' (arrived ++ LiveRun.arrivals [event]) options job' := by
  obtain ⟨run, rfl, hfollows⟩ := h
  obtain ⟨hjob, hdispatched⟩ := hnext { run with awaited, removed := false } rfl
  have hstep : LiveRun.Step maxInFlight { run with awaited, removed := false } event
      (LiveRun.next maxInFlight { run with awaited, removed := false } event) :=
    LiveRun.step_eq_some_iff.mpr ⟨⟨rfl, henabled _ rfl rfl⟩, rfl⟩
  refine ⟨_, hjob, (hfollows.reset awaited).next hstep hsends ?_⟩
  rw [hdispatched, hjob, hid, hsent]
  exact hfollows.sent

/-- Those of these steps that bring nothing. -/
theorem Followed.quiet {event : LiveRun.Event} (h : Followed s arrived options job) (awaited : List Nat)
    (hsends : LiveRun.Sends event) (hnone : LiveRun.arrivals [event] = [])
    (henabled : ∀ run : LiveRun, run.job = job → run.awaited = awaited →
      run.Enabled maxInFlight event)
    (hnext : ∀ run : LiveRun, run.job = job → (run.next maxInFlight event).job = job' ∧
      (run.next maxInFlight event).dispatched = run.dispatched)
    (hid : job'.jobId = job.jobId) (hsent : s'.sentTo job.jobId = s.sentTo job.jobId) :
    Followed s' arrived options job' := by
  have hfollowed := h.next awaited hsends henabled hnext hid hsent
  rwa [hnone, List.append_nil] at hfollowed

theorem Followed.drain (h : Followed s arrived options job) (maxInFlight : Nat)
    (hsent : s'.sentTo job.jobId = s.sentTo job.jobId) :
    Followed s' arrived options (job.drainLiveChunks maxInFlight) := by
  refine @Followed.quiet maxInFlight _ _ _ _ _ _ .drain h [] ?_ rfl (fun _ _ _ => trivial) ?_
    (jobId_drainLiveChunks maxInFlight job) hsent
  · intro hevent
    cases hevent
  · rintro run rfl
    exact ⟨rfl, rfl⟩

theorem Followed.refresh (h : Followed s arrived options job)
    (hsent : s'.sentTo job.jobId = s.sentTo job.jobId) :
    Followed s' arrived options job.refreshSpeechState := by
  refine @Followed.quiet 0 _ _ _ _ _ _ .refresh h [] ?_ rfl (fun _ _ _ => trivial) ?_
    (jobId_refreshSpeechState job) hsent
  · intro hevent
    cases hevent
  · rintro run rfl
    exact ⟨rfl, rfl⟩

theorem Followed.finish (h : Followed s arrived options job) (hcomplete : job.isComplete = true)
    (hsent : s'.sentTo job.jobId = s.sentTo job.jobId) :
    Followed s' arrived options (job.send [.finished (.ok job.stats)]) := by
  refine @Followed.quiet 0 _ _ _ _ _ _ .finish h [] ?_ rfl ?_ ?_ rfl hsent
  · intro hevent
    cases hevent
  · rintro run rfl -
    exact hcomplete
  · rintro run rfl
    refine ⟨?_, rfl⟩
    simp only [LiveRun.next, ActiveLiveJob.finishIfComplete, if_pos hcomplete]

theorem Followed.abort (h : Followed s arrived options job) (error : Error)
    (hsent : s'.sentTo job.jobId = s.sentTo job.jobId) :
    Followed s' arrived options (job.send [.finished (.error error)]) := by
  refine @Followed.quiet 0 _ _ _ _ _ _ (.abort error) h [] ?_ rfl (fun _ _ _ => trivial) ?_ rfl hsent
  · intro hevent
    cases hevent
  · rintro run rfl
    exact ⟨rfl, rfl⟩

theorem Followed.arrive (h : Followed s arrived options job) (chunk : Except Error LiveChunk)
    (hopen : job.chunkRx.disconnected = false)
    (hsent : s'.sentTo job.jobId = s.sentTo job.jobId) :
    Followed s' (arrived ++ [chunk]) options
      { job with chunkRx := { job.chunkRx with queue := job.chunkRx.queue ++ [chunk] } } := by
  refine @Followed.next 0 _ _ _ _ _ _ (.arrive chunk) h [] ?_ ?_ ?_ rfl hsent
  · intro hevent
    cases hevent
  · rintro run rfl -
    exact hopen
  · rintro run rfl
    exact ⟨rfl, rfl⟩

theorem Followed.hangUp (h : Followed s arrived options job)
    (hsent : s'.sentTo job.jobId = s.sentTo job.jobId) :
    Followed s' arrived options
      { job with chunkRx := { job.chunkRx with disconnected := true } } := by
  refine @Followed.quiet 0 _ _ _ _ _ _ .hangUp h [] ?_ rfl (fun _ _ _ => trivial) ?_ rfl hsent
  · intro hevent
    cases hevent
  · rintro run rfl
    exact ⟨rfl, rfl⟩

theorem Followed.whisperResult (h : Followed s arrived options job) (result : WindowTranscription)
    (hsent : s'.sentTo job.jobId = s.sentTo job.jobId) :
    Followed s' arrived options (job.handleResult result) := by
  refine @Followed.quiet 0 _ _ _ _ _ _ (.whisperResult result) h [result.windowIndex] ?_ rfl ?_ ?_
    (jobId_handleResult job result) hsent
  · intro hevent
    cases hevent
  · rintro run - hawaited
    simp only [LiveRun.Enabled, hawaited, List.mem_singleton]
  · rintro run rfl
    exact ⟨rfl, rfl⟩

/-- A window that goes to a worker. -/
theorem Followed.dispatch (h : Followed s arrived options job) (hready : job.hasVadReady = false)
    (hmay : job.mayDispatch maxInFlight = true)
    (hsent : s'.sentTo job.jobId =
      s.sentTo job.jobId ++ (job.dispatchToWorker true).1.toList) :
    Followed s' arrived options (job.dispatchToWorker true).2 := by
  obtain ⟨run, rfl, hfollows⟩ := h
  obtain ⟨-, -, plan, hplan⟩ := ActiveLiveJob.mayDispatch_iff.mp hmay
  have hstep : LiveRun.Step maxInFlight { run with awaited := [], removed := false } (.dispatch true)
      (LiveRun.next maxInFlight { run with awaited := [], removed := false } (.dispatch true)) :=
    LiveRun.step_eq_some_iff.mpr ⟨⟨rfl, hready, hmay⟩, rfl⟩
  have hsends : LiveRun.Sends (.dispatch true) := by
    intro hevent
    cases hevent
  have hid : (run.job.dispatchToWorker true).2.jobId = run.job.jobId :=
    jobId_dispatchToWorker run.job true
  have hwindows : (LiveRun.next maxInFlight { run with awaited := [], removed := false }
      (.dispatch true)).dispatched.map DispatchedWindow.whisperJob =
        s'.sentTo (run.job.dispatchToWorker true).2.jobId := by
    have hnow := @LiveRun.dispatchedNow_eq { run with awaited := [], removed := false } plan hplan
      true
    rw [hid, hsent, ← hfollows.sent]
    simp only [LiveRun.next, List.map_append, hnow, ActiveLiveJob.dispatchToWorker_eq hplan]
    rfl
  have hnext := (hfollows.reset []).next hstep hsends hwindows
  have hnone : LiveRun.arrivals [.dispatch true] = [] := rfl
  rw [hnone, List.append_nil] at hnext
  exact ⟨_, rfl, hnext⟩

/-! ### The jobs of a scheduler -/

/-- Whatever job of `s` this was, it has gone on, and the event has brought it its chunks. -/
def GoesOn (s s' : Scheduler) (event : Event) (job' : ActiveLiveJob) : Prop :=
  ∃ job ∈ s.jobs, job'.jobId = job.jobId ∧ ∀ arrived options, Followed s arrived options job →
    Followed s' (arrived ++ event.chunksFor job.jobId s.nextJobId) options job'

variable {event : Event}

theorem GoesOn.quiet (hnone : ∀ jobId next, event.chunksFor jobId next = []) (hjob : job ∈ s.jobs)
    (hid : job'.jobId = job.jobId)
    (h : ∀ arrived options, Followed s arrived options job → Followed s' arrived options job') :
    GoesOn s s' event job' := by
  refine ⟨job, hjob, hid, fun arrived options hfollowed => ?_⟩
  rw [hnone, List.append_nil]
  exact h arrived options hfollowed

/-- Only complete jobs are removed. -/
theorem goesOn_remove (hnone : ∀ jobId next, event.chunksFor jobId next = [])
    {change : ActiveLiveJob → ActiveLiveJob} (hid : ∀ job, (change job).jobId = job.jobId)
    (hchange : ∀ job arrived options, Followed s arrived options job →
      Followed s' arrived options (change job))
    (hsent : ∀ jobId, s'.sentTo jobId = s.sentTo jobId)
    (hactive : s'.activeJobs = (removeCompletedJobs (s.activeJobs.map change)).1)
    (hremoved : s'.removedJobs =
      s.removedJobs ++ (removeCompletedJobs (s.activeJobs.map change)).2) :
    ∀ job' ∈ s'.jobs, GoesOn s s' event job' := by
  obtain ⟨hkept, hgone⟩ := mem_removeCompletedJobs (s.activeJobs.map change)
  intro job' hmem
  rw [jobs, hactive, hremoved] at hmem
  obtain hactive | hremoved := List.mem_append.mp hmem
  · obtain ⟨job, hjob, rfl⟩ := List.mem_map.mp (hkept job' hactive)
    exact .quiet hnone (List.mem_append_left _ hjob) (hid job) (hchange job)
  · obtain hold | hnew := List.mem_append.mp hremoved
    · exact .quiet hnone (List.mem_append_right _ hold) rfl fun _ _ h => h.frame (hsent _)
    · obtain ⟨changed, hchanged, hcomplete, rfl⟩ := hgone job' hnew
      obtain ⟨job, hjob, rfl⟩ := List.mem_map.mp hchanged
      exact .quiet hnone (List.mem_append_left _ hjob) (hid job)
        fun arrived options h => (hchange job arrived options h).finish hcomplete rfl

/-- One active job changes. -/
theorem mem_jobs_update {errorFree : Prop} (h : Sim errorFree maxInFlight s) {owner : Nat}
    {change : ActiveLiveJob → ActiveLiveJob}
    (hactive : s'.activeJobs = updateJob owner change s.activeJobs)
    (hremoved : s'.removedJobs = s.removedJobs) {job' : ActiveLiveJob} (hmem : job' ∈ s'.jobs) :
    (∃ job ∈ s.activeJobs, job.jobId = owner ∧ job' = change job) ∨
      (job' ∈ s.activeJobs ∧ job'.jobId ≠ owner) ∨ job' ∈ s.removedJobs := by
  rw [jobs, hactive, hremoved] at hmem
  obtain hactive | hremoved := List.mem_append.mp hmem
  · obtain hchanged | hsame := mem_updateJob h.nodup_active hactive
    · exact .inl hchanged
    · exact .inr (.inl hsame)
  · exact .inr (.inr hremoved)

theorem goesOn_update {errorFree : Prop} (h : Sim errorFree maxInFlight s)
    (hnone : ∀ jobId next, event.chunksFor jobId next = []) {owner : Nat}
    {change : ActiveLiveJob → ActiveLiveJob} (hid : ∀ job, (change job).jobId = job.jobId)
    (hchange : ∀ job ∈ s.activeJobs, job.jobId = owner →
      ∀ arrived options, Followed s arrived options job →
      Followed s' arrived options (change job))
    (hsent : ∀ job ∈ s.jobs, job.jobId ≠ owner ∨ job ∈ s.removedJobs →
      s'.sentTo job.jobId = s.sentTo job.jobId)
    (hactive : s'.activeJobs = updateJob owner change s.activeJobs)
    (hremoved : s'.removedJobs = s.removedJobs) :
    ∀ job' ∈ s'.jobs, GoesOn s s' event job' := by
  intro job' hmem
  obtain ⟨job, hjob, howner, rfl⟩ | ⟨hjob, hne⟩ | hgone := mem_jobs_update h hactive hremoved hmem
  · exact .quiet hnone (List.mem_append_left _ hjob) (hid job) (hchange job hjob howner)
  · have hmem' := List.mem_append_left s.removedJobs hjob
    exact .quiet hnone hmem' rfl fun _ _ hfollowed => hfollowed.frame (hsent _ hmem' (.inl hne))
  · have hmem' := List.mem_append_right s.activeJobs hgone
    exact .quiet hnone hmem' rfl fun _ _ hfollowed => hfollowed.frame (hsent _ hmem' (.inr hgone))

theorem goesOn_same (hnone : ∀ jobId next, event.chunksFor jobId next = [])
    (hjobs : s'.jobs = s.jobs) (hsent : ∀ jobId, s'.sentTo jobId = s.sentTo jobId) :
    ∀ job' ∈ s'.jobs, GoesOn s s' event job' := by
  intro job' hmem
  rw [hjobs] at hmem
  exact .quiet hnone hmem rfl fun _ _ hfollowed => hfollowed.frame (hsent _)

/-- Without VAD an idle worker gets a window. -/
theorem goesOn_ready {errorFree : Prop} (h : Sim errorFree maxInFlight s)
    (hoff : ∀ job ∈ s.activeJobs, job.hasVadReady = false) : ∀ job' ∈
      ({ s.dispatchReadyLiveWindow maxInFlight true with phase := .tail } : Scheduler).jobs,
    GoesOn s { s.dispatchReadyLiveWindow maxInFlight true with phase := .tail } (.ready true) job' := by
  have hnone : ∀ jobId next, (Event.ready true).chunksFor jobId next = [] := fun _ _ => rfl
  rw [dispatchReadyLiveWindow]
  split
  · rename_i idx cursor hscan
    obtain ⟨job, hidx, hready⟩ := scanJobs_some hscan
    have hidle := hoff job (List.mem_of_getElem? hidx)
    exact absurd (hidle.symm.trans hready) (by decide)
  · split
    · rename_i idx cursor' hscan
      obtain ⟨job, hidx, hmay⟩ := scanJobs_some hscan
      have hjob : job ∈ s.activeJobs := List.mem_of_getElem? hidx
      have hwindow := jobId_of_dispatched hmay true
      have hset := @set_eq_updateJob (fun job => (job.dispatchToWorker true).2) _ h.nodup_active
        idx job hidx
      rw [hidx]
      have hsent : ∀ jobId, ({ s with dispatchCursor := cursor' }.dispatchAt idx job true).sentTo
          jobId = s.sentTo jobId ++ (job.dispatchToWorker true).1.toList.filter
            fun window => decide (window.jobId = jobId) := fun jobId => List.filter_append _ _
      refine goesOn_update h hnone (fun job => jobId_dispatchToWorker job true) ?_ ?_ hset rfl
      · intro other hother hid arrived options hfollowed
        obtain rfl := List.inj_on_of_nodup_map h.nodup_active hother hjob hid
        refine hfollowed.dispatch (hoff other hother) hmay ?_
        refine (hsent other.jobId).trans ?_
        rw [List.filter_eq_self.mpr]
        exact fun window hmem => decide_eq_true (hwindow window hmem)
      · intro other hother hne
        have hdiffers : other.jobId ≠ job.jobId := by
          obtain hne | hgone := hne
          · exact hne
          · intro heq
            have hnodup := h.nodup
            rw [jobs, List.map_append] at hnodup
            exact List.disjoint_of_nodup_append hnodup (List.mem_map_of_mem hjob)
              (heq ▸ List.mem_map_of_mem hgone)
        refine (hsent other.jobId).trans ?_
        rw [List.filter_eq_nil_iff.mpr, List.append_nil]
        intro window hmem
        rw [hwindow window hmem, decide_eq_true_eq]
        exact hdiffers.symm
    · exact goesOn_same hnone rfl fun _ => rfl

variable {config : ConcurrencyConfig}

theorem goesOn_step {errorFree : Prop} (h : Sim errorFree config.maxInFlight s)
    (hoff : ∀ job ∈ s.activeJobs, job.hasVadReady = false ∧ job.vadInFlight = false)
    (hsends : event ≠ .ready false) (hnew : event.newJobs = 0) (hstep : Step config s event s') :
    ∀ job' ∈ s'.jobs, GoesOn s s' event job' := by
  cases event with
  | head =>
      obtain ⟨-, hnext⟩ := Option.ite_some_none_eq_some.mp hstep
      subst hnext
      exact goesOn_remove (fun _ _ => rfl) (jobId_drainLiveChunks config.maxInFlight)
        (fun job arrived options hfollowed => hfollowed.drain config.maxInFlight rfl) (fun _ => rfl)
        rfl rfl
  | newJob job => exact absurd hnew Nat.one_ne_zero
  | ready sent =>
      obtain ⟨-, hnext⟩ := Option.ite_some_none_eq_some.mp hstep
      subst hnext
      cases sent with
      | true => exact goesOn_ready h fun job hjob => (hoff job hjob).1
      | false => exact absurd rfl hsends
  | result =>
      rw [Step, Scheduler.step] at hstep
      split at hstep
      · split at hstep
        · cases hstep
        · rename_i result resultRx hresults
          cases hstep
          cases result with
          | error error =>
              intro job' hmem
              rw [jobs] at hmem
              obtain hold | hended := List.mem_append.mp hmem
              · cases hold
              · obtain hold | hnow := List.mem_append.mp hended
                · exact .quiet (fun _ _ => rfl) (List.mem_append_right _ hold) rfl
                    fun _ _ hfollowed => hfollowed.frame rfl
                · obtain ⟨job, hjob, rfl⟩ := List.mem_map.mp hnow
                  exact .quiet (fun _ _ => rfl) (List.mem_append_left _ hjob) rfl
                    fun _ _ hfollowed => hfollowed.abort (.other error.text) rfl
          | ok result =>
              cases result with
              | whisper result =>
                  exact goesOn_update h (fun _ _ => rfl)
                    (fun job => jobId_handleResult job result.transcription)
                    (fun job _ _ arrived options hfollowed =>
                      hfollowed.whisperResult result.transcription rfl)
                    (fun _ _ _ => rfl) rfl rfl
              | vad result =>
                  refine goesOn_update h (fun _ _ => rfl) ?_ ?_ (fun _ _ _ => rfl) rfl rfl
                  · exact fun _ => rfl
                  · intro job hjob hid
                    have hmem : .ok (.vad result) ∈ s.resultRx := by
                      rw [hresults]
                      exact List.mem_cons_self
                    have hbusy := h.busy_of_vadResult hmem hjob hid
                    exact absurd (hbusy.symm.trans (hoff job hjob).2) (by decide)
      · cases hstep
  | sleep =>
      obtain ⟨-, hnext⟩ := Option.ite_some_none_eq_some.mp hstep
      subst hnext
      exact goesOn_same (fun _ _ => rfl) rfl fun _ => rfl
  | tail =>
      obtain ⟨-, hnext⟩ := Option.ite_some_none_eq_some.mp hstep
      subst hnext
      have hmap : (s.activeJobs.map (ActiveLiveJob.drainLiveChunks config.maxInFlight)).map
          ActiveLiveJob.refreshSpeechState = s.activeJobs.map fun job =>
            (job.drainLiveChunks config.maxInFlight).refreshSpeechState := List.map_map
      refine @goesOn_remove s (s.tailStep config.maxInFlight) .tail (fun _ _ => rfl)
        (fun job => (job.drainLiveChunks config.maxInFlight).refreshSpeechState) ?_ ?_
        (fun _ => rfl) ?_ ?_
      · intro job
        rw [jobId_refreshSpeechState, jobId_drainLiveChunks]
      · exact fun job arrived options hfollowed =>
          (@Followed.drain s s arrived options job hfollowed config.maxInFlight rfl).refresh rfl
      · rw [Scheduler.tailStep, hmap]
      · rw [Scheduler.tailStep, hmap]
  | arrive owner chunk =>
      obtain ⟨hany, hnext⟩ := Option.ite_some_none_eq_some.mp hstep
      obtain ⟨open_, hmemOpen, hopen⟩ := List.any_eq_true.mp hany
      simp only [Bool.and_eq_true, decide_eq_true_eq, Bool.not_eq_true'] at hopen
      have hsent : ∀ jobId, s'.sentTo jobId = s.sentTo jobId := fun jobId => hnext ▸ rfl
      -- The chunk goes to no other job, and to none that is removed.
      have hother : ∀ job ∈ s.jobs, job.jobId ≠ owner →
          GoesOn s s' (.arrive owner chunk) job := by
        intro job hjob hne
        refine ⟨job, hjob, rfl, fun arrived options hfollowed => ?_⟩
        rw [Event.chunksFor, if_neg hne.symm, List.append_nil]
        exact hfollowed.frame (hsent _)
      intro job' hmem
      obtain ⟨job, hjob, hid, rfl⟩ | ⟨hjob, hne⟩ | hgone :=
        mem_jobs_update h (congrArg activeJobs hnext).symm (congrArg removedJobs hnext).symm hmem
      · obtain rfl := List.inj_on_of_nodup_map h.nodup_active hjob hmemOpen (hid.trans hopen.1.symm)
        refine ⟨job, List.mem_append_left _ hjob, rfl, fun arrived options hfollowed => ?_⟩
        rw [Event.chunksFor, if_pos hid.symm]
        exact hfollowed.arrive chunk hopen.2 (hsent _)
      · exact hother job' (List.mem_append_left _ hjob) hne
      · refine hother job' (List.mem_append_right _ hgone) fun heq => ?_
        have hnodup := h.nodup
        rw [jobs, List.map_append] at hnodup
        exact List.disjoint_of_nodup_append hnodup (List.mem_map_of_mem hmemOpen)
          ((hopen.1.trans heq.symm) ▸ List.mem_map_of_mem hgone)
  | hangUp owner =>
      obtain rfl := Option.some.inj hstep
      refine goesOn_update h (fun _ _ => rfl) ?_ ?_ (fun _ _ _ => rfl) rfl rfl
      · exact fun _ => rfl
      · exact fun job _ _ arrived options hfollowed => hfollowed.hangUp rfl
  | answerVad job probability state =>
      obtain ⟨-, hnext⟩ := Option.ite_some_none_eq_some.mp hstep
      subst hnext
      exact goesOn_same (fun _ _ => rfl) rfl fun _ => rfl
  | answerWhisper job text segments =>
      obtain ⟨-, hnext⟩ := Option.ite_some_none_eq_some.mp hstep
      subst hnext
      exact goesOn_same (fun _ _ => rfl) rfl fun _ => rfl
  | fail failed error =>
      obtain ⟨-, hnext⟩ := Option.ite_some_none_eq_some.mp hstep
      subst hnext
      exact goesOn_same (fun _ _ => rfl) rfl fun _ => rfl

/-! ### The run -/

/-- Every job is followed by a run of its own, with the options of its request and on the audio that
has arrived for it. -/
structure Clients (config : ConcurrencyConfig) (firstId : Nat) (first : ModelJob)
    (events : List Event) (s : Scheduler) : Prop where
  sim : Sim False config.maxInFlight s
  next : s.nextJobId = firstId + 1 + (events.map Event.newJobs).sum
  ids : ∀ job ∈ s.jobs, firstId ≤ job.jobId
  fresh : ∀ jobId, s.nextJobId ≤ jobId → chunksOf firstId first events jobId = []
  followed : ∀ job ∈ s.jobs, ∃ client,
    (clientsOf first events)[job.jobId - firstId]? = some client ∧
      Followed s (chunksOf firstId first events job.jobId) (.ofHeader client.header) job

variable {firstId : Nat} {first : ModelJob} {events : List Event}

theorem followed_new {jobId : Nat} (hsent : s.sentTo jobId = []) (job : ModelJob) :
    Followed s job.chunkRx.queue (.ofHeader job.header)
      (.new jobId job.header job.chunkRx false) :=
  ⟨LiveRun.start jobId job.header job.chunkRx false, rfl,
    { requested := rfl
      audio := LiveRun.AudioInvariant.start jobId job.header job.chunkRx false
      striding := .start jobId job.header job.chunkRx false
      sent := hsent.symm
      stream := rfl
      waiting := fun _ hmem => hmem
      closed := fun hclosed => absurd hclosed Bool.false_ne_true }⟩

theorem Clients.start (leftover : Leftover firstId) :
    Clients config firstId first [] (start firstId first false leftover) where
  sim := .start ..
  next := rfl
  ids job hmem := by
    obtain rfl := List.mem_singleton.mp hmem
    exact le_rfl
  fresh jobId hle := by
    have hne : firstId ≠ jobId := by
      rintro rfl
      exact absurd hle (Nat.not_succ_le_self firstId)
    rw [chunksOf, if_neg hne, arrivedFor, List.append_nil]
  followed job hmem := by
    obtain rfl := List.mem_singleton.mp hmem
    have hchunks : chunksOf firstId first [] firstId = first.chunkRx.queue := by
      rw [chunksOf, if_pos rfl, arrivedFor, List.append_nil]
    have hfollowed := @followed_new (Scheduler.start firstId first false leftover) firstId rfl first
    rw [← hchunks] at hfollowed
    refine ⟨first, ?_, hfollowed⟩
    rw [ActiveLiveJob.new, Nat.sub_self]
    rfl

/-- Without VAD no job waits for it. -/
theorem Followed.vadOff (h : Followed s arrived options job) :
    job.vadConfig = none ∧ job.hasVadReady = false ∧ job.vadInFlight = false := by
  obtain ⟨run, rfl, hfollows⟩ := h
  have hconfig := hfollows.audio.vadConfig
  refine ⟨hconfig, by rw [ActiveLiveJob.hasVadReady, hconfig], ?_⟩
  rw [hfollows.audio.slot, hfollows.audio.vadOff rfl, Option.isSome_none]

/-- A new job takes the next id, and all others go on. -/
theorem Clients.addJob (h : Clients config firstId first events s) (job : ModelJob) :
    Clients config firstId first (events ++ [.newJob job]) (s.addJob job) := by
  have hid : firstId + 1 + (events.map Event.newJobs).sum = s.nextJobId := h.next.symm
  have hbound : firstId ≤ s.nextJobId := by
    rw [h.next]
    omega
  have hother : ∀ jobId, jobId ≠ s.nextJobId →
      chunksOf firstId first (events ++ [.newJob job]) jobId = chunksOf firstId first events jobId := by
    intro jobId hne
    rw [chunksOf_snoc, hid, Event.chunksFor, if_neg hne.symm, List.append_nil]
  have hnew : chunksOf firstId first (events ++ [.newJob job]) s.nextJobId = job.chunkRx.queue := by
    rw [chunksOf_snoc, hid, Event.chunksFor, if_pos rfl, h.fresh _ le_rfl, List.nil_append]
  have hoff : (s.activeJobs.head?.bind ActiveLiveJob.vadConfig).isSome = false := by
    cases hhead : s.activeJobs.head? with
    | none => rfl
    | some other =>
        have hmem : other ∈ s.jobs := List.mem_append_left _ (List.mem_of_head? hhead)
        obtain ⟨client, -, hfollowed⟩ := h.followed other hmem
        rw [Option.bind_some, hfollowed.vadOff.1, Option.isSome_none]
  have hjobs : ∀ job' ∈ (s.addJob job).jobs, job' ∈ s.jobs ∨
      job' = .new s.nextJobId job.header job.chunkRx false := by
    intro job' hmem
    simp only [jobs, Scheduler.addJob, hoff, List.mem_append, List.mem_singleton] at hmem ⊢
    tauto
  refine ⟨h.sim.addJob job, ?_, ?_, ?_, ?_⟩
  · rw [List.map_append, List.sum_append, Scheduler.addJob, h.next]
    rfl
  · intro job' hmem
    obtain hold | rfl := hjobs job' hmem
    · exact h.ids job' hold
    · exact hbound
  · intro jobId hle
    have hlt : s.nextJobId < jobId := hle
    rw [hother jobId hlt.ne', h.fresh jobId hlt.le]
  · intro job' hmem
    obtain hold | rfl := hjobs job' hmem
    · obtain ⟨client, hclient, hfollowed⟩ := h.followed job' hold
      rw [hother _ (h.sim.ids job' hold).ne, clientsOf_snoc]
      exact ⟨client, List.getElem?_append_left (List.getElem?_eq_some_iff.mp hclient).1 ▸ hclient,
        hfollowed.frame rfl⟩
    · have hfollowed := @followed_new (s.addJob job) s.nextJobId h.sim.older.sentTo job
      rw [← hnew] at hfollowed
      refine ⟨job, ?_, hfollowed⟩
      have hindex : s.nextJobId - firstId = (clientsOf first events).length := by
        rw [length_clientsOf, h.next]
        omega
      rw [ActiveLiveJob.new, clientsOf_snoc, List.getElem?_append_right hindex.ge, hindex,
        Nat.sub_self]
      rfl

/-- Where chunks arrive, their job is active. -/
theorem chunksFor_fresh {errorFree : Prop} (h : Sim errorFree config.maxInFlight s)
    (hnew : event.newJobs = 0) (hstep : Step config s event s') {jobId : Nat}
    (hle : s.nextJobId ≤ jobId) (next : Nat) : event.chunksFor jobId next = [] := by
  cases event with
  | newJob job => exact absurd hnew Nat.one_ne_zero
  | arrive owner chunk =>
      obtain ⟨hany, -⟩ := Option.ite_some_none_eq_some.mp hstep
      obtain ⟨job, hjob, hopen⟩ := List.any_eq_true.mp hany
      simp only [Bool.and_eq_true, decide_eq_true_eq] at hopen
      have hlt := h.ids job (List.mem_append_left _ hjob)
      refine if_neg fun howner => ?_
      omega
  | _ => rfl

theorem nextJobId_step (hnew : event.newJobs = 0) (hstep : Step config s event s') :
    s'.nextJobId = s.nextJobId := by
  cases event with
  | newJob job => exact absurd hnew Nat.one_ne_zero
  | ready sent =>
      obtain ⟨-, hnext⟩ := Option.ite_some_none_eq_some.mp hstep
      rw [← hnext, dispatchReadyLiveWindow]
      split
      · split <;> rfl
      · split
        · split <;> rfl
        · rfl
  | result =>
      rw [Step, Scheduler.step] at hstep
      split at hstep
      · split at hstep
        · cases hstep
        · rename_i result resultRx hresults
          cases hstep
          cases result with
          | error error => rfl
          | ok result => cases result <;> rfl
      · cases hstep
  | hangUp owner =>
      obtain rfl := Option.some.inj hstep
      rfl
  | head | sleep | tail | arrive | answerVad | answerWhisper | fail =>
      obtain ⟨-, hnext⟩ := Option.ite_some_none_eq_some.mp hstep
      exact hnext ▸ rfl

theorem Clients.step (h : Clients config firstId first events s) (hsends : event ≠ .ready false)
    (hstep : Step config s event s') : Clients config firstId first (events ++ [event]) s' := by
  have hnewJobs : (∃ job, event = .newJob job) ∨ event.newJobs = 0 := by
    cases event with
    | newJob job => exact .inl ⟨job, rfl⟩
    | _ => exact .inr rfl
  obtain ⟨job, rfl⟩ | hnew := hnewJobs
  · obtain ⟨-, hnext⟩ := Option.ite_some_none_eq_some.mp hstep
    subst hnext
    exact h.addJob job
  · have hoff : ∀ job ∈ s.activeJobs, job.hasVadReady = false ∧ job.vadInFlight = false :=
      fun job hjob =>
        let ⟨_, _, hfollowed⟩ := h.followed job (List.mem_append_left _ hjob)
        hfollowed.vadOff.2
    have hgoesOn := goesOn_step h.sim hoff hsends hnew hstep
    have hsame := nextJobId_step hnew hstep
    refine ⟨h.sim.step False.elim hstep, ?_, ?_, ?_, ?_⟩
    · rw [hsame, List.map_append, List.sum_append, List.map_singleton, List.sum_singleton, hnew,
        Nat.add_zero]
      exact h.next
    · intro job' hmem
      obtain ⟨job, hjob, hid, -⟩ := hgoesOn job' hmem
      exact hid ▸ h.ids job hjob
    · intro jobId hle
      rw [hsame] at hle
      rw [chunksOf_snoc, h.fresh jobId hle, chunksFor_fresh h.sim hnew hstep hle, List.nil_append]
    · intro job' hmem
      obtain ⟨job, hjob, hid, hfollows⟩ := hgoesOn job' hmem
      obtain ⟨client, hclient, hfollowed⟩ := h.followed job hjob
      have hnone : event.client = none := by
        cases event with
        | newJob job => exact absurd hnew Nat.one_ne_zero
        | _ => rfl
      rw [chunksOf_snoc, ← h.next, hid, clientsOf_snoc, hnone, Option.toList_none, List.append_nil]
      exact ⟨client, hclient, hfollows _ _ hfollowed⟩

/-! ### What the workers make of the windows -/

/-- The worker computes the model. -/
def Event.AnsweredBy (model : WindowModel) : Event → Prop
  | .answerWhisper job text segments =>
      job.transcribed model = .ok (job.answer text segments).transcription
  | _ => True

/-- The answers are what the model makes of windows sent, unless they are left from an earlier call. -/
structure Modelled (model : WindowModel) (firstId : Nat) (s : Scheduler) : Prop where
  atWorkers : ∀ job, .whisper job ∈ s.atWorkers → job ∈ s.sent ∨ job.jobId < firstId
  answered : ∀ answer ∈ s.answered, answer.jobId < firstId ∨
    ∃ job ∈ s.sent, job.jobId = answer.jobId ∧ job.transcribed model = .ok answer.transcription

variable {model : WindowModel}

/-- More windows sent, and no other answers. -/
theorem Modelled.mono (h : Modelled model firstId s) {new : List WhisperJob}
    (hsent : s'.sent = s.sent ++ new) (hanswered : s'.answered = s.answered)
    (hworkers : ∀ job, .whisper job ∈ s'.atWorkers → .whisper job ∈ s.atWorkers ∨ job ∈ new) :
    Modelled model firstId s' where
  atWorkers job hmem := by
    rw [hsent]
    obtain hold | hnew := hworkers job hmem
    · exact (h.atWorkers job hold).imp_left (List.mem_append_left _)
    · exact .inl (List.mem_append_right _ hnew)
  answered answer hmem := by
    rw [hanswered] at hmem
    obtain hold | ⟨job, hjob, hrest⟩ := h.answered answer hmem
    · exact .inl hold
    · exact .inr ⟨job, hsent ▸ List.mem_append_left _ hjob, hrest⟩

theorem Modelled.same (h : Modelled model firstId s) (hsent : s'.sent = s.sent)
    (hanswered : s'.answered = s.answered) (hworkers : s'.atWorkers ⊆ s.atWorkers) :
    Modelled model firstId s' :=
  h.mono (hsent.trans (List.append_nil _).symm) hanswered fun _ hmem => .inl (hworkers hmem)

theorem Modelled.ready (h : Modelled model firstId s) (maxInFlight : Nat) (sent : Bool) :
    Modelled model firstId
      { s.dispatchReadyLiveWindow maxInFlight sent with phase := .tail } := by
  rw [dispatchReadyLiveWindow]
  split
  · split
    · refine h.mono (List.append_nil _).symm rfl fun job hmem => .inl ?_
      obtain hold | hnew := List.mem_append.mp hmem
      · exact hold
      · obtain ⟨vadJob, -, heq⟩ := List.mem_map.mp hnew
        cases heq
    · exact h.same rfl rfl (List.Subset.refl _)
  · split
    · split
      · refine h.mono rfl rfl fun job hmem => ?_
        obtain hold | hnew := List.mem_append.mp hmem
        · exact .inl hold
        · obtain ⟨window, hwindow, heq⟩ := List.mem_map.mp hnew
          cases heq
          exact .inr hwindow
      · exact h.same rfl rfl (List.Subset.refl _)
    · exact h.same rfl rfl (List.Subset.refl _)

theorem Modelled.step (h : Modelled model firstId s) (hanswers : event.AnsweredBy model)
    (hstep : Step config s event s') : Modelled model firstId s' := by
  cases event with
  | ready sent =>
      obtain ⟨-, hnext⟩ := Option.ite_some_none_eq_some.mp hstep
      subst hnext
      exact h.ready config.maxInFlight sent
  | result =>
      rw [Step, Scheduler.step] at hstep
      split at hstep
      · split at hstep
        · cases hstep
        · rename_i result resultRx hresults
          cases hstep
          cases result with
          | error error => exact h.same rfl rfl (List.Subset.refl _)
          | ok result => cases result <;> exact h.same rfl rfl (List.Subset.refl _)
      · cases hstep
  | hangUp owner =>
      obtain rfl := Option.some.inj hstep
      exact h.same rfl rfl (List.Subset.refl _)
  | head | newJob | sleep | tail | arrive =>
      obtain ⟨-, hnext⟩ := Option.ite_some_none_eq_some.mp hstep
      subst hnext
      exact h.same rfl rfl (List.Subset.refl _)
  | answerVad job probability state =>
      obtain ⟨-, hnext⟩ := Option.ite_some_none_eq_some.mp hstep
      subst hnext
      exact h.same rfl rfl List.erase_subset
  | answerWhisper job text segments =>
      obtain ⟨hmem, hnext⟩ := Option.ite_some_none_eq_some.mp hstep
      subst hnext
      refine ⟨fun other hother => h.atWorkers other (List.erase_subset hother), ?_⟩
      intro answer hanswer
      obtain hold | hnew := List.mem_append.mp hanswer
      · exact h.answered answer hold
      · obtain rfl := List.mem_singleton.mp hnew
        obtain hsent | hold := h.atWorkers job hmem
        · exact .inr ⟨job, hsent, rfl, hanswers⟩
        · exact .inl hold
  | fail failed error =>
      obtain ⟨-, hnext⟩ := Option.ite_some_none_eq_some.mp hstep
      subst hnext
      exact h.same rfl rfl (List.diff_subset _ _)

/-! ### The transcripts -/

variable {jobId : Nat}

theorem modelled_of_run {leftover : Leftover firstId}
    (hmodelled : ∀ event ∈ events, event.AnsweredBy model)
    (h : Run (Step config) (start firstId first false leftover) events s) :
    Modelled model firstId s :=
  h.invariant_of_forall (P := fun _ s => Modelled model firstId s) hmodelled
    ⟨fun _ hmem => .inr (leftover.atWorkers_older _ hmem), fun _ hmem => absurd hmem List.not_mem_nil⟩
    fun _ _ _ _ hinv hanswers hstep => hinv.step hanswers hstep

theorem clients_of_run {leftover : Leftover firstId}
    (hsends : ∀ event ∈ events, event ≠ .ready false)
    (h : Run (Step config) (start firstId first false leftover) events s) :
    Clients config firstId first events s :=
  h.invariant_of_forall (P := fun events s => Clients config firstId first events s) hsends
    (.start leftover) fun _ _ _ _ hinv hsends hstep => hinv.step hsends hstep

/-- A complete job has sent all windows of its audio. -/
theorem Followed.sentTo_of_complete (h : Followed s arrived options job)
    (hoptions : ∀ window ∈ s.sentTo job.jobId, window.options = job.options)
    (hfree : ∀ error, .error error ∉ arrived) (hcomplete : job.isComplete = true)
    (hindices : (s.sentTo job.jobId).map WhisperJob.windowIndex =
      List.range job.stats.windowsDispatched) :
    s.sentTo job.jobId = (fixedAudioWindows (audioOf arrived).length).map
      fun window => window.liveJob job.jobId (audioOf arrived) options := by
  obtain ⟨run, rfl, hfollows⟩ := h
  simp only [ActiveLiveJob.isComplete, Bool.and_eq_true, List.isEmpty_iff] at hcomplete
  obtain ⟨⟨⟨hclosed, hempty⟩, -⟩, -⟩ := hcomplete
  have haccepted : run.accepted = audioOf arrived := by
    have hstream := hfollows.stream
    rw [(hfollows.closed hclosed hfree).1] at hstream
    exact (List.append_nil _).symm.trans hstream
  have howner : ∀ window ∈ run.dispatched, window.whisperJob.jobId = run.job.jobId := by
    intro window hmem
    have hsent : window.whisperJob ∈ s.sentTo run.job.jobId :=
      hfollows.sent ▸ List.mem_map_of_mem hmem
    exact of_decide_eq_true (List.mem_filter.mp hsent).2
  have hrequested : ∀ window ∈ run.dispatched, window.whisperJob.options = options := by
    intro window hmem
    rw [hoptions _ (hfollows.sent ▸ List.mem_map_of_mem hmem), hfollows.requested]
  have hnumbers : (run.dispatched.map fun window => window.whisperJob.windowIndex) =
      List.range run.job.stats.windowsDispatched := by
    rw [← hindices, ← hfollows.sent, List.map_map]
    rfl
  obtain ⟨-, hwindows⟩ :=
    hfollows.striding.eq_fixedAudioWindows hfollows.audio.dispatching howner hrequested hnumbers
  have hall := hfollows.striding.all_dispatched hfollows.audio.timeline hempty
  rw [← length_fixedAudioWindows] at hall
  rw [List.take_of_length_le hall, haccepted] at hwindows
  exact hfollows.sent.symm.trans hwindows

theorem exists_of_forall₂ {α β : Type} {R : α → β → Prop} {xs : List α} {ys : List β}
    (h : List.Forall₂ R xs ys) : ∀ x ∈ xs, ∃ y, R x y := by
  induction h with
  | nil => exact List.forall_mem_nil _
  | cons hhead _ ih => exact List.forall_mem_cons.mpr ⟨⟨_, hhead⟩, ih⟩

/-- The answers that a complete job has sent on are those of its windows, in order. -/
theorem forall₂_made (hmodel : model.LooksAtLength) {audio : List F32}
    (hmade : Modelled model firstId s) (hid : firstId ≤ jobId)
    (hsent : s.sentTo jobId = (fixedAudioWindows audio.length).map
      fun window => window.liveJob jobId audio options)
    {answers : List WindowTranscription} (hanswers : answers ⊆ s.answersTo jobId)
    (hindices : answers.map WindowTranscription.windowIndex =
      List.range (fixedAudioWindows audio.length).length) :
    List.Forall₂ (fun window result => made model options audio window = .ok result)
      (fixedAudioWindows audio.length) answers := by
  have hinside := @inside_transcriptionWindows audio.length [] List.Pairwise.nil
    (List.forall_mem_nil _)
  have hnumbered := numbered_fixedAudioWindows audio.length
  have hlength := congrArg List.length hindices
  rw [List.length_map, List.length_range] at hlength
  refine List.forall₂_iff_get.mpr ⟨hlength.symm, fun i hwindow hanswer => ?_⟩
  rw [List.get_eq_getElem, List.get_eq_getElem]
  have hindex : answers[i].windowIndex = i := by
    have hentry := congrArg (·[i]?) hindices
    simpa [hanswer, hwindow] using hentry
  -- The answer is what the model makes of some window of the job, and bears that window's index.
  obtain ⟨answer, hanswered, heq⟩ := List.mem_map.mp (hanswers (List.getElem_mem hanswer))
  obtain ⟨hmem, howner⟩ := List.mem_filter.mp hanswered
  rw [decide_eq_true_eq] at howner
  obtain hold | ⟨job, hjob, hjobId, htranscribed⟩ := hmade.answered answer hmem
  · exact absurd (howner ▸ hold) (not_lt.mpr hid)
  have hjobSent : job ∈ s.sentTo jobId :=
    List.mem_filter.mpr ⟨hjob, decide_eq_true (hjobId.trans howner)⟩
  rw [hsent] at hjobSent
  obtain ⟨window, hmemWindow, rfl⟩ := List.mem_map.mp hjobSent
  rw [transcribed_liveJob hmodel jobId (hinside window hmemWindow), heq] at htranscribed
  obtain ⟨j, hj⟩ := List.mem_iff_getElem?.mp hmemWindow
  have hsame := windowIndex_of_made htranscribed
  rw [hindex, hnumbered.index hj] at hsame
  rw [← hsame, List.getElem?_eq_getElem hwindow] at hj
  rw [Option.some.inj hj]
  exact htranscribed

/-- **Concurrent clients get the offline transcripts.** However many jobs one scheduler serves without
VAD, and in whatever order their chunks arrive, their windows go out and the answers come back: each
job that ends well has sent exactly the segments that the offline driver makes of all the audio that
has arrived for it, in their order, and nothing of another job. -/
theorem segments_eq_offline {spec : WhisperSpec} {mel encoded encKv σ : Type}
    (transcriber : WindowTranscriber spec mel encoded encKv σ) (onPanic : Panic → Error)
    {leftover : Leftover firstId}
    (h : Run (Step config) (start firstId first false leftover) events s)
    (hsends : ∀ event ∈ events, event ≠ .ready false)
    (hmodelled : ∀ event ∈ events, event.AnsweredBy (transcriber.windowModel onPanic)) :
    ∀ job ∈ s.jobs, ∃ client, (clientsOf first events)[job.jobId - firstId]? = some client ∧
      ∀ stats, .finished (.ok stats) ∈ job.responseTx →
        (∀ error, .error error ∉ chunksOf firstId first events job.jobId) →
        ∃ offline, transcribeAudioWithOptions (transcriber.windowModel onPanic)
            (audioOf (chunksOf firstId first events job.jobId)) [] (.ofHeader client.header) =
              .ok offline ∧
          job.responseTx.filter JobResponse.isSegment = offline.segments.map fun segment =>
            .segment segment.text segment.startSec segment.endSec := by
  intro job hjob
  have hclients := clients_of_run hsends h
  have hmade := modelled_of_run hmodelled h
  obtain ⟨client, hclient, hfollowed⟩ := hclients.followed job hjob
  refine ⟨client, hclient, ?_⟩
  intro stats hfinished hfree
  obtain ⟨run, rfl, htracks⟩ := hclients.sim.exists_run hjob
  obtain ⟨-, hcomplete, hstats⟩ := htracks.genuine.delivery.finished stats hfinished
  have hdelivered := htracks.delivered (hclients.sim.accounts run.job hjob)
  have hidle : run.job.inFlight = 0 := by
    simp only [ActiveLiveJob.isComplete, Bool.and_eq_true, beq_iff_eq] at hcomplete
    exact hcomplete.1.2
  have hoptions : ∀ window ∈ s.sentTo run.job.jobId, window.options = run.job.options := by
    intro window hmem
    have hsame : run.dispatched.map DispatchedWindow.whisperJob = s.sentTo run.job.jobId := htracks.sent
    rw [← hsame] at hmem
    obtain ⟨dispatched, hdispatched, rfl⟩ := List.mem_map.mp hmem
    exact htracks.genuine.delivery.options dispatched hdispatched
  have hwindows := hfollowed.sentTo_of_complete hoptions hfree hcomplete hdelivered.sent
  set audio := audioOf (chunksOf firstId first events run.job.jobId) with haudio
  obtain ⟨answers, hanswers, hindices, hsegments⟩ := hdelivered.emitted
  have hcount : run.job.nextResultIndex = (fixedAudioWindows audio.length).length := by
    have hlength := congrArg List.length hdelivered.sent
    rw [List.length_map, List.length_range, hwindows, List.length_map] at hlength
    rw [(hdelivered.idle hidle).1, hlength]
  rw [hcount] at hindices
  have hmadeAnswers :=
    forall₂_made (transcriber.looksAtLength onPanic) hmade (hclients.ids run.job hjob) hwindows
      hanswers hindices
  have hcases := transcribeAudioWithOptions_cases (transcriber.windowModel onPanic) audio []
    (.ofHeader client.header)
  rw [transcriptionWindows_nil] at hcases
  obtain ⟨results, hresults, hoffline⟩ | ⟨error, -, window, hwindow, herror⟩ := hcases
  · refine ⟨_, hoffline, ?_⟩
    have hunique : Relator.RightUnique fun window result =>
        made (transcriber.windowModel onPanic) (.ofHeader client.header) audio window = .ok result :=
      fun _ _ _ hfirst hsecond => Except.ok.inj (hfirst.symm.trans hsecond)
    rw [hsegments, ← List.right_unique_forall₂' hunique hresults hmadeAnswers]
    exact (List.map_flatMap ..).symm
  · obtain ⟨result, hresult⟩ := exists_of_forall₂ hmadeAnswers window hwindow
    rw [hresult] at herror
    cases herror

/-! ### Two clients with their own options -/

/-- One sample, and one beam with that many tokens for it. -/
def wordJob (maxNewTokens : UInt64) : ModelJob :=
  { sampleJob with header := OneShot.wordHeader maxNewTokens }

def wordWindow (jobId : Nat) (maxNewTokens : UInt64) : WhisperJob :=
  { sampleWindow jobId with options := .ofHeader (OneShot.wordHeader maxNewTokens) }

/-- Each client asks for another number of tokens, and the second is answered first. -/
def wordEvents : List Event :=
  [.head, .newJob (wordJob 2), .tail, .head, .ready true, .tail, .head, .ready true, .tail,
    .answerWhisper (wordWindow 6 2) "aa"
      [{ sampleSegment with endSec := ⟨0⟩, text := "aa", tokens := [2, 2] }],
    .answerWhisper (wordWindow 5 1) "a" [{ sampleSegment with endSec := ⟨0⟩ }],
    .head, .result, .tail, .head, .result, .tail, .head]

def endsWell (job : ActiveLiveJob) : Bool :=
  match job.responseTx.getLast? with
  | some (.finished (.ok _)) => true
  | _ => false

theorem exists_of_endsWell (h : endsWell job = true) :
    ∃ stats, .finished (.ok stats) ∈ job.responseTx := by
  unfold endsWell at h
  split at h
  · rename_i stats hlast
    exact ⟨stats, List.mem_of_getLast? hlast⟩
  · cases h

/-- The segments of a job. -/
def segmentTexts (job : ActiveLiveJob) : List String :=
  job.responseTx.filterMap fun response =>
    match response with
    | .segment text _ _ => some text
    | _ => none

theorem segments_eq_offline_pair : ∃ s,
    Run (Step pairConfig) (start 5 (wordJob 1) false {}) wordEvents s ∧
      s.jobs.map (fun job => (job.jobId, segmentTexts job)) = [(6, ["aa"]), (5, ["a"])] ∧
      ∀ job ∈ s.jobs, ∃ client offline,
        (clientsOf (wordJob 1) wordEvents)[job.jobId - 5]? = some client ∧
          transcribeAudioWithOptions (OneShot.wordTranscriber.windowModel fun _ => .other "")
            [F32.ofNat 1] [] (.ofHeader client.header) = .ok offline ∧
          job.responseTx.filter JobResponse.isSegment =
            offline.segments.map fun segment =>
              .segment segment.text segment.startSec segment.endSec := by
  have hruns : ((wordEvents.foldlM (step pairConfig) (start 5 (wordJob 1) false {})).map fun s =>
      (s.jobs.map fun job => (job.jobId, segmentTexts job), s.jobs.all endsWell)) =
        some ([(6, ["aa"]), (5, ["a"])], true) := by
    decide +kernel
  obtain ⟨s, hfold, hview⟩ := Option.map_eq_some_iff.mp hruns
  obtain ⟨hjobs, hends⟩ := Prod.mk.inj hview
  have h : Run (Step pairConfig) (start 5 (wordJob 1) false {}) wordEvents s :=
    Run.of_foldlM (fun _ _ _ hstep => hstep) hfold
  have hsends : ∀ event ∈ wordEvents, event ≠ .ready false := by simp [wordEvents]
  have hmodelled : ∀ event ∈ wordEvents,
      event.AnsweredBy (OneShot.wordTranscriber.windowModel fun _ => .other "") := by
    have hfirst : (wordWindow 5 1).transcribed (OneShot.wordTranscriber.windowModel fun _ =>
        .other "") = .ok ((wordWindow 5 1).answer "a"
          [{ sampleSegment with endSec := ⟨0⟩ }]).transcription := by
      decide +kernel
    have hsecond : (wordWindow 6 2).transcribed (OneShot.wordTranscriber.windowModel fun _ =>
        .other "") = .ok ((wordWindow 6 2).answer "aa"
          [{ sampleSegment with endSec := ⟨0⟩, text := "aa", tokens := [2, 2] }]).transcription := by
      decide +kernel
    simp [wordEvents, Event.AnsweredBy, hfirst, hsecond]
  refine ⟨s, h, hjobs, ?_⟩
  intro job hjob
  obtain ⟨stats, hfinished⟩ := exists_of_endsWell (List.all_eq_true.mp hends job hjob)
  obtain ⟨client, hclient, hoffline⟩ :=
    segments_eq_offline OneShot.wordTranscriber (fun _ => .other "") h hsends hmodelled job hjob
  have hchunks : ∀ jobId, jobId = 6 ∨ jobId = 5 →
      chunksOf 5 (wordJob 1) wordEvents jobId = [.ok { samples := [F32.ofNat 1] }] := by
    rintro jobId (rfl | rfl)
    · rfl
    · rfl
  have hid : job.jobId = 6 ∨ job.jobId = 5 := by
    have hmem := List.mem_map_of_mem (f := fun job => (job.jobId, segmentTexts job)) hjob
    rw [hjobs] at hmem
    simp only [List.mem_cons, Prod.mk.injEq, List.not_mem_nil, or_false] at hmem
    exact hmem.imp And.left And.left
  rw [hchunks job.jobId hid] at hoffline
  obtain ⟨offline, htranscribed, hsegments⟩ := hoffline stats hfinished (by simp)
  exact ⟨client, offline, hclient, htranscribed, hsegments⟩

end Scheduler

end RkWhisper
