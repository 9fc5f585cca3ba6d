import RkWhisper.Proof.SessionResponses

/-!
# What a session does to its job

Every step of a session is some steps of the job, and which steps of the job these may be is given by
who takes the step: the reader hands chunks over and hangs up, the scheduler does the rest, and the
client and the writer do nothing to the job.
-/

namespace RkWhisper

open Transition

namespace LiveRun

variable {maxInFlight : Nat} {run run' : LiveRun}

/-- The samples that have come in, with those in the channel. -/
def received (run : LiveRun) : List F32 := run.accepted ++ audioOf run.job.chunkRx.queue

theorem received_arrive (run : LiveRun) (samples : List F32) :
    (run.next maxInFlight (.arrive (.ok { samples }))).received = run.received ++ samples := by
  have haudio : audioOf [.ok { samples }] = samples := List.append_nil samples
  simp only [received, next, audioOf_append, haudio, List.append_assoc]

theorem received_step {event : Event} (hstep : Step maxInFlight run event run')
    (harrive : ∀ chunk, event ≠ .arrive chunk) : run'.received = run.received := by
  by_cases hdrain : event = .drain
  · obtain ⟨-, rfl⟩ := step_eq_some_iff.mp hstep
    subst hdrain
    obtain ⟨chunkRx, closed, hjob, -, hqueue⟩ := run.job.drainLiveChunks_spec maxInFlight
    simp only [received, next, hjob]
    rw [← hqueue, audioOf_append, List.append_assoc]
  · by_cases hhangUp : event = .hangUp
    · obtain ⟨-, rfl⟩ := step_eq_some_iff.mp hstep
      subst hhangUp
      rfl
    · have haccepted : run'.accepted = run.accepted := by
        obtain ⟨-, rfl⟩ := step_eq_some_iff.mp hstep
        cases event with
        | drain => exact absurd rfl hdrain
        | _ => rfl
      rw [received, received, haccepted, (keepsChannels_of_step hstep harrive hhangUp hdrain).chunkRx]

end LiveRun

namespace LiveSession

variable {config : SessionConfig} {s s' : LiveSession} {event : Event}

/-- The steps of the job that a step of the session may take. -/
def Causes : Event → LiveRun.Event → Prop
  | .reader, .arrive _ => True
  | .reader, .hangUp => True
  | .scheduler (.branch event), event' => event' = event ∧ ∀ chunk, event ≠ .arrive chunk
  | .scheduler .head, .drain | .scheduler .head, .finish => True
  | .scheduler .tail, .drain | .scheduler .tail, .refresh | .scheduler .tail, .finish => True
  | _, _ => False

/-- The job takes some of these steps. -/
def Moves (config : SessionConfig) (event : Event) (run run' : LiveRun) : Prop :=
  ∃ events, Run (LiveRun.Step config.maxInFlight) run events run' ∧
    ∀ jobEvent ∈ events, Causes event jobEvent

section Moves

variable {run run' : LiveRun} {jobEvent : LiveRun.Event}

theorem Moves.refl (run : LiveRun) : Moves config event run run :=
  ⟨[], .refl, List.forall_mem_nil _⟩

theorem Moves.single (hstep : LiveRun.Step config.maxInFlight run jobEvent run')
    (hcauses : Causes event jobEvent) : Moves config event run run' := by
  refine ⟨[jobEvent], .single hstep, fun other hmem => ?_⟩
  rwa [List.mem_singleton.mp hmem]

theorem Moves.trans {run'' : LiveRun} (h : Moves config event run run')
    (h' : Moves config event run' run'') : Moves config event run run'' := by
  obtain ⟨events, hrun, hcauses⟩ := h
  obtain ⟨more, hmore, hcauses'⟩ := h'
  exact ⟨_, hrun.trans hmore, List.forall_mem_append.mpr ⟨hcauses, hcauses'⟩⟩

theorem Moves.next (jobEvent : LiveRun.Event) (hremoved : run.removed = false)
    (henabled : run.Enabled config.maxInFlight jobEvent) (hcauses : Causes event jobEvent) :
    Moves config event run (run.next config.maxInFlight jobEvent) :=
  .single (LiveRun.step_eq_some_iff.mpr ⟨⟨hremoved, henabled⟩, rfl⟩) hcauses

/-- Only chunks that arrive add to what the job has been handed. -/
theorem Moves.received (h : Moves config event run run')
    (harrive : ∀ chunk, ¬ Causes event (.arrive chunk)) : run'.received = run.received := by
  obtain ⟨events, hrun, hcauses⟩ := h
  induction hrun with
  | refl => rfl
  | snoc _ hstep ih =>
      obtain ⟨hbefore, hlast⟩ := List.forall_mem_append.mp hcauses
      refine (LiveRun.received_step hstep fun chunk hchunk => ?_).trans (ih hbefore)
      exact harrive chunk (hchunk ▸ hlast _ (List.mem_singleton_self _))

end Moves

theorem moves_returnReader {t : LiveSession} {run : LiveRun} (hrun : t.run = run)
    (result : Except Error ReadOutcome) :
    Moves config .reader run (t.returnReader config result).run := by
  subst hrun
  unfold returnReader
  split
  · exact .refl _
  · rename_i hremoved
    exact .next .hangUp (Bool.eq_false_of_not_eq_true hremoved) trivial trivial

theorem moves_moveReader {t : LiveSession} {run : LiveRun} (hrun : t.run = run)
    (phase : ReaderPhase) : Moves config .reader run (t.moveReader config phase).run := by
  cases phase with
  | returned result => exact moves_returnReader hrun result
  | _ =>
      subst hrun
      exact .refl _

theorem moves_sendChunk {t : LiveSession} {run : LiveRun} (hrun : t.run = run)
    (hopen : run.job.chunkRx.disconnected = false) {reader : LiveReader} {chunk : Bytes}
    (hstep : t.sendChunk config reader chunk = some s') : Moves config .reader run s'.run := by
  unfold LiveSession.sendChunk at hstep
  split at hstep
  · obtain rfl := Option.some.inj hstep
    refine moves_returnReader ?_ _
    exact hrun
  · split at hstep
    · obtain rfl := Option.some.inj hstep
      refine moves_returnReader ?_ _
      exact hrun
    · rename_i hremoved
      subst hrun
      split at hstep
      · obtain rfl := Option.some.inj hstep
        exact .next (.arrive _) (Bool.eq_false_of_not_eq_true hremoved) hopen trivial
      · cases hstep

theorem moves_takeSignal {t : LiveSession} {run : LiveRun} (hrun : t.run = run)
    (hopen : run.job.chunkRx.disconnected = false) {signal : UInt8}
    (hstep : t.takeSignal config signal = some s') : Moves config .reader run s'.run := by
  unfold LiveSession.takeSignal at hstep
  split at hstep
  split at hstep
  · split at hstep
    · obtain rfl := Option.some.inj hstep
      refine moves_moveReader ?_ _
      exact hrun
    · rename_i error _ hremoved
      subst hrun
      split at hstep
      · obtain rfl := Option.some.inj hstep
        have harrive : Moves config .reader t.run
            (t.run.next config.maxInFlight (.arrive (.error error))) :=
          .next _ (Bool.eq_false_of_not_eq_true hremoved) hopen trivial
        refine harrive.trans (moves_moveReader ?_ _)
        rfl
      · cases hstep
  · obtain rfl := Option.some.inj hstep
    refine moves_moveReader ?_ _
    exact hrun

theorem moves_readerStep (hattached : s.Attached) (hstep : s.readerStep config = some s') :
    Moves config .reader s.run s'.run := by
  have hopen : ¬ s.readerPhase.Returned → s.run.job.chunkRx.disconnected = false := by
    intro hreading
    rw [← Bool.not_eq_true]
    exact fun hend => hreading (hattached.hungUp hend)
  unfold LiveSession.readerStep at hstep
  split at hstep
  · rename_i hphase
    split at hstep
    · split at hstep
      · obtain rfl := Option.some.inj hstep
        refine moves_moveReader ?_ _
        rfl
      · cases hstep
    · have hsignal := hopen (by simp [hphase, ReaderPhase.Returned])
      exact moves_takeSignal (by rfl) hsignal hstep
  · obtain rfl := Option.some.inj hstep
    refine moves_moveReader ?_ _
    rfl
  · rename_i hphase
    have hchunk := hopen (by simp [hphase, ReaderPhase.Returned])
    simp only [LiveSession.flushStep] at hstep
    split at hstep
    · exact moves_sendChunk rfl hchunk hstep
    · split at hstep
      · exact moves_sendChunk rfl hchunk hstep
      · obtain rfl := Option.some.inj hstep
        refine moves_moveReader ?_ _
        rfl
  · cases hstep

theorem moves_removeCompleted (hremoved : s.run.removed = false) (loop : LoopPhase)
    (hcauses : Causes event .finish) :
    Moves config event s.run (s.removeCompleted config loop).run := by
  unfold removeCompleted
  split
  · rename_i hcomplete
    exact .next .finish hremoved hcomplete hcauses
  · exact .refl _

theorem moves_schedulerStep (hattached : s.Attached) {event : SchedulerEvent}
    (hstep : s.schedulerStep config event = some s') :
    Moves config (.scheduler event) s.run s'.run := by
  have hrunning : s.loop ≠ .exited → s.run.removed = false := by
    intro hloop
    rw [← Bool.not_eq_true, hattached.exited]
    exact hloop
  unfold schedulerStep at hstep
  cases event with
  | handOver =>
      simp only [LiveSession.handOver] at hstep
      split at hstep
      · cases hstep
      · split at hstep
        · obtain rfl := Option.some.inj hstep
          exact .refl _
        · simp only [Option.ite_none_right_eq_some, Option.some.injEq] at hstep
          obtain ⟨-, rfl⟩ := hstep
          exact .refl _
  | head =>
      simp only [Option.ite_none_right_eq_some, Option.some.injEq] at hstep
      obtain ⟨⟨-, hloop⟩, rfl⟩ := hstep
      have hremoved := hrunning (by simp [hloop])
      have hdrained : Moves config (.scheduler .head) s.run (s.run.next config.maxInFlight .drain) :=
        .next .drain hremoved trivial trivial
      have hcompleted := @moves_removeCompleted config
        { s with run := s.run.next config.maxInFlight .drain } (.scheduler .head) hremoved .select
        trivial
      exact hdrained.trans hcompleted
  | branch event =>
      simp only [Option.ite_none_right_eq_some, Option.map_eq_some_iff] at hstep
      obtain ⟨⟨-, -, hmay⟩, run, hrun, rfl⟩ := hstep
      refine .single hrun ⟨rfl, ?_⟩
      rintro chunk rfl
      cases hmay
  | sleep =>
      simp only [Option.ite_none_right_eq_some, Option.some.injEq] at hstep
      obtain ⟨-, rfl⟩ := hstep
      exact .refl _
  | tail =>
      simp only [Option.ite_none_right_eq_some, Option.some.injEq] at hstep
      obtain ⟨⟨-, hloop⟩, rfl⟩ := hstep
      have hremoved := hrunning (by simp [hloop])
      have hdrained : Moves config (.scheduler .tail) s.run (s.run.next config.maxInFlight .drain) :=
        .next .drain hremoved trivial trivial
      have hrefreshed : Moves config (.scheduler .tail) (s.run.next config.maxInFlight .drain)
          ((s.run.next config.maxInFlight .drain).next config.maxInFlight .refresh) :=
        .next .refresh hremoved trivial trivial
      have hcompleted := @moves_removeCompleted config { s with
        run := (s.run.next config.maxInFlight .drain).next config.maxInFlight .refresh }
        (.scheduler .tail) hremoved .head trivial
      exact (hdrained.trans hrefreshed).trans hcompleted

/-- The scheduler takes no audio in from outside the job. -/
theorem received_schedulerStep (hattached : s.Attached) {event : SchedulerEvent}
    (hstep : s.schedulerStep config event = some s') : s'.run.received = s.run.received := by
  refine (moves_schedulerStep hattached hstep).received fun chunk hcauses => ?_
  cases event with
  | branch event => exact hcauses.2 chunk hcauses.1.symm
  | _ => exact hcauses

/-- **What a step of a session does to its job.** -/
theorem moves_step (hattached : s.Attached) (hstep : Step config s event s') :
    Moves config event s.run s'.run := by
  cases event with
  | client action =>
      obtain ⟨ring, toDaemon, toClient, clientClosed, rfl⟩ := clientStep_frame hstep
      exact .refl _
  | reader => exact moves_readerStep hattached hstep
  | scheduler event => exact moves_schedulerStep hattached hstep
  | writer factor =>
      rw [(writerStep_run hstep).1]
      exact .refl _

/-- The steps of a session are steps of its job, each caused by one of them. -/
theorem moves_of_run {capacity : UInt64} {memory : Nat → UInt8} {jobId : Nat}
    {header : RequestHeader} {vadEnabled : Bool} {events : List Event}
    (hrun : Run (Step config) (start capacity memory jobId header vadEnabled) events s) :
    ∃ more, Run (LiveRun.Step config.maxInFlight) (.start jobId header {} vadEnabled) more s.run ∧
      ∀ jobEvent ∈ more, ∃ event ∈ events, Causes event jobEvent := by
  induction hrun with
  | refl => exact ⟨[], .refl, List.forall_mem_nil _⟩
  | snoc hrun hstep ih =>
      rename_i events state next event
      obtain ⟨more, hmore, hcauses⟩ := ih
      obtain ⟨last, hlast, hevents⟩ := moves_step ((attached_start ..).of_run hrun).1 hstep
      refine ⟨more ++ last, hmore.trans hlast, fun jobEvent hmem => ?_⟩
      obtain hold | hnew := List.mem_append.mp hmem
      · obtain ⟨event', hevent, hcaused⟩ := hcauses jobEvent hold
        exact ⟨event', List.mem_append_left _ hevent, hcaused⟩
      · exact ⟨event, List.mem_append_right _ (List.mem_singleton_self _), hevents jobEvent hnew⟩

end LiveSession

end RkWhisper
