import RkWhisper.Proof.Scheduler

/-!
# Runs of the scheduler

Every event keeps the simulation of the jobs. What holds of each live run then holds of each job of
each scheduler run: its results are delivered in order and once, and, as long as no reader reports an
error, its terminal response is the last.
-/

namespace RkWhisper

open Transition

namespace Scheduler

variable {errorFree : Prop} {maxInFlight : Nat} {s s' : Scheduler}

/-- The drains of the step take no error of a reader. -/
def ErrorFree (maxInFlight : Nat) (s : Scheduler) (event : Event) : Prop :=
  event = .head ∨ event = .tail →
    ∀ job ∈ s.activeJobs, ∀ error, .error error ∉ job.drainedChunks maxInFlight

theorem jobId_drainLiveChunks (maxInFlight : Nat) (job : ActiveLiveJob) :
    (job.drainLiveChunks maxInFlight).jobId = job.jobId := by
  obtain ⟨chunkRx, closed, hdrain, -, -⟩ := job.drainLiveChunks_spec maxInFlight
  rw [hdrain]

theorem jobId_refreshSpeechState (job : ActiveLiveJob) :
    job.refreshSpeechState.jobId = job.jobId := by
  obtain hsame | ⟨config, hsilent⟩ := job.refreshSpeechState_cases
  · rw [hsame]
  · rw [ActiveLiveJob.refreshSpeechState_of_silent hsilent]
    rfl

theorem Sim.headStep (h : Sim errorFree maxInFlight s)
    (hfree : errorFree → ErrorFree maxInFlight s .head) :
    Sim errorFree maxInFlight (s.headStep maxInFlight) :=
  h.removeCompleted ⟨rfl, rfl, rfl, rfl, rfl⟩ (jobId_drainLiveChunks maxInFlight)
    (fun job hjob => continues_drain fun herrorFree => hfree herrorFree (.inl rfl) job hjob)
    rfl rfl

theorem Sim.tailStep (h : Sim errorFree maxInFlight s)
    (hfree : errorFree → ErrorFree maxInFlight s .tail) :
    Sim errorFree maxInFlight (s.tailStep maxInFlight) := by
  have hmoves : (s.activeJobs.map (ActiveLiveJob.drainLiveChunks maxInFlight)).map
      ActiveLiveJob.refreshSpeechState =
        s.activeJobs.map fun job => (job.drainLiveChunks maxInFlight).refreshSpeechState :=
    List.map_map
  refine @Sim.removeCompleted _ _ _ (s.tailStep maxInFlight) h ⟨rfl, rfl, rfl, rfl, rfl⟩
    (fun job => (job.drainLiveChunks maxInFlight).refreshSpeechState) ?_ ?_ ?_ ?_
  · intro job
    rw [jobId_refreshSpeechState, jobId_drainLiveChunks]
  · intro job hjob
    have hdrain := continues_drain (s := s) fun herrorFree =>
      hfree herrorFree (.inr rfl) job hjob
    exact hdrain.trans continues_refresh
  · rw [Scheduler.tailStep, hmoves]
  · rw [Scheduler.tailStep, hmoves]

/-! ### Jobs that are new -/

theorem Older.mono {bound bound' : Nat} (h : s.Older bound) (hle : bound ≤ bound') :
    s.Older bound' where
  tickets ticket hmem := (h.tickets ticket hmem).trans_le hle
  sent job hmem := (h.sent job hmem).trans_le hle
  answered answer hmem := (h.answered answer hmem).trans_le hle

theorem Older.sentTo {bound : Nat} (h : s.Older bound) : s.sentTo bound = [] := by
  rw [Scheduler.sentTo, List.filter_eq_nil_iff]
  intro job hmem hid
  exact (h.sent job hmem).ne (of_decide_eq_true hid)

theorem Older.answersTo {bound : Nat} (h : s.Older bound) : s.answersTo bound = [] := by
  rw [Scheduler.answersTo, List.map_eq_nil_iff, List.filter_eq_nil_iff]
  intro answer hmem hid
  exact (h.answered answer hmem).ne (of_decide_eq_true hid)

theorem Older.ticketsOf {bound : Nat} (h : s.Older bound) : s.ticketsOf bound = 0 := by
  rw [Scheduler.ticketsOf, Multiset.filter_eq_nil]
  exact fun ticket hmem => (h.tickets ticket hmem).ne

/-- There is nothing to account for yet. -/
theorem Older.accounts {bound : Nat} (h : s.Older bound) : s.Accounts bound := by
  refine ⟨?_, ?_⟩
  · intro answer hmem hid
    have hticket : (NpuResult.whisper answer).ticket ∈ s.tickets := by
      refine Multiset.mem_add.mpr (.inr (Multiset.mem_coe.mpr ?_))
      exact List.mem_filterMap.mpr ⟨_, hmem, rfl⟩
    exact absurd hid (h.tickets _ hticket).ne
  · have hnone : s.unanswered bound = 0 := by
      rw [unanswered, Multiset.filterMap_coe, Multiset.coe_eq_zero, List.filterMap_eq_nil_iff]
      intro job hmem
      cases job with
      | vad job => rfl
      | whisper job =>
          have hticket : (NpuJob.whisper job).ticket ∈ s.tickets :=
            Multiset.mem_add.mpr (.inl (Multiset.mem_map_of_mem _ (Multiset.mem_coe.mpr hmem)))
          exact if_neg (h.tickets _ hticket).ne
    rw [hnone, h.answersTo, h.sentTo]
    exact le_rfl

theorem Older.tracks {bound : Nat} (h : s.Older bound) (header : RequestHeader)
    (chunkRx : ChunkReceiver) (vadEnabled : Bool) :
    Tracks errorFree maxInFlight s (LiveRun.start bound header chunkRx vadEnabled) where
  genuine := .start ..
  tickets := h.ticketsOf.trans_le (Multiset.zero_le _)
  sent := h.sentTo.symm
  answers := List.nil_subset _

theorem Sim.start (jobId : Nat) (job : ModelJob) (vadEnabled : Bool) (leftover : Leftover jobId) :
    Sim errorFree maxInFlight (start jobId job vadEnabled leftover) := by
  have holder : (Scheduler.start jobId job vadEnabled leftover).Older jobId := by
    refine ⟨?_, fun _ hmem => absurd hmem List.not_mem_nil,
      fun _ hmem => absurd hmem List.not_mem_nil⟩
    intro ticket hmem
    obtain hworkers | hresults := Multiset.mem_add.mp hmem
    · obtain ⟨npuJob, hnpuJob, rfl⟩ := Multiset.mem_map.mp hworkers
      rw [NpuJob.jobId_ticket]
      exact leftover.atWorkers_older npuJob hnpuJob
    · obtain ⟨result, hresult, hticket⟩ := List.mem_filterMap.mp (Multiset.mem_coe.mp hresults)
      cases result with
      | error error => cases hticket
      | ok result =>
          cases hticket
          rw [NpuResult.jobId_ticket]
          exact leftover.resultRx_older result hresult
  refine ⟨holder.mono (Nat.le_succ jobId), ?_, List.nodup_singleton _, ?_, ?_,
    fun _ hmem => absurd hmem List.not_mem_nil⟩
  · intro job' hmem
    obtain rfl := List.mem_singleton.mp hmem
    exact Nat.lt_succ_self jobId
  · intro job' hmem
    obtain rfl := List.mem_singleton.mp hmem
    exact holder.accounts
  · intro job' hmem
    obtain rfl := List.mem_singleton.mp hmem
    exact ⟨_, rfl, rfl, holder.tracks job.header job.chunkRx vadEnabled⟩

theorem Sim.addJob (h : Sim errorFree maxInFlight s) (job : ModelJob) :
    Sim errorFree maxInFlight (s.addJob job) := by
  have hjobs : (s.addJob job).jobs.Perm (.new s.nextJobId job.header job.chunkRx
      (s.activeJobs.head?.bind ActiveLiveJob.vadConfig).isSome :: s.jobs) := by
    rw [jobs, Scheduler.addJob, jobs, List.append_assoc]
    exact List.perm_middle
  have hframe : ∀ jobId, Frame s (s.addJob job) jobId :=
    fun jobId => ⟨le_rfl, rfl, List.Subset.refl _⟩
  have haccounts : ∀ jobId, s.Accounts jobId → (s.addJob job).Accounts jobId :=
    fun _ haccounts => ⟨haccounts.received, haccounts.once⟩
  have holder : (s.addJob job).Older s.nextJobId :=
    ⟨h.older.tickets, h.older.sent, h.older.answered⟩
  refine ⟨holder.mono (Nat.le_succ _), ?_, ?_, ?_, ?_, ?_⟩
  · intro job' hmem
    obtain rfl | hold := List.mem_cons.mp (hjobs.subset hmem)
    · exact Nat.lt_succ_self s.nextJobId
    · exact (h.ids job' hold).trans (Nat.lt_succ_self _)
  · rw [(hjobs.map ActiveLiveJob.jobId).nodup_iff, List.map_cons, List.nodup_cons]
    refine ⟨?_, h.nodup⟩
    intro hmem
    obtain ⟨old, hold, heq⟩ := List.mem_map.mp hmem
    exact (h.ids old hold).ne heq
  · intro job' hmem
    obtain rfl | hold := List.mem_cons.mp (hjobs.subset hmem)
    · exact haccounts _ h.older.accounts
    · exact haccounts _ (h.accounts job' hold)
  · intro job' hmem
    obtain hold | hnew := List.mem_append.mp hmem
    · obtain ⟨run, rfl, hremoved, htracks⟩ := h.active job' hold
      exact ⟨run, rfl, hremoved, htracks.frame (hframe run.job.jobId)⟩
    · obtain rfl := List.mem_singleton.mp hnew
      exact ⟨_, rfl, rfl, (h.older.tracks job.header job.chunkRx _).frame (hframe _)⟩
  · intro job' hmem
    obtain ⟨run, rfl, hremoved, htracks⟩ := h.removed job' hmem
    exact ⟨run, rfl, hremoved, htracks.frame (hframe run.job.jobId)⟩

/-! ### Workers -/

/-- The work is less, or has got on, and no new window is sent. -/
theorem older_of_le {bound : Nat} (holder : s.Older bound) (htickets : s'.tickets ≤ s.tickets)
    (hsent : s'.sent = s.sent) (hanswered : ∀ answer ∈ s'.answered, answer.jobId < bound) :
    s'.Older bound := by
  refine ⟨fun ticket hmem => holder.tickets ticket (Multiset.mem_of_le htickets hmem), ?_,
    hanswered⟩
  rw [hsent]
  exact holder.sent

theorem frame_of_le (htickets : s'.tickets ≤ s.tickets) (hsent : s'.sent = s.sent)
    {answers : List WorkerTranscription} (hanswered : s'.answered = s.answered ++ answers)
    (jobId : Nat) : Frame s s' jobId := by
  refine ⟨Multiset.filter_le_filter _ htickets, ?_, ?_⟩
  · rw [sentTo, hsent, sentTo]
  · intro answer hmem
    rw [answersTo, hanswered, List.filter_append, List.map_append]
    exact List.mem_append_left _ hmem

/-- A worker that answers turns the ticket of its job into that of its result. -/
theorem tickets_answer {npuJob : NpuJob} {result : NpuResult} (hmem : npuJob ∈ s.atWorkers)
    (hticket : result.ticket = npuJob.ticket) (hworkers : s'.atWorkers = s.atWorkers.erase npuJob)
    (hresults : s'.resultRx = s.resultRx ++ [.ok result]) : s'.tickets = s.tickets := by
  have hcons : (s.atWorkers : Multiset NpuJob) =
      npuJob ::ₘ (s.atWorkers.erase npuJob : List NpuJob) := by
    rw [← Multiset.coe_erase, Multiset.cons_erase (Multiset.mem_coe.mpr hmem)]
  have hone : [Except.ok result].filterMap resultTicket = [npuJob.ticket] := by
    rw [← hticket]
    rfl
  rw [tickets, tickets, hworkers, hresults, hcons, Multiset.map_cons, List.filterMap_append, hone,
    ← Multiset.coe_add, Multiset.coe_singleton, Multiset.cons_add, ← Multiset.singleton_add,
    ← add_assoc, add_comm]

theorem unanswered_mono (hworkers : (s'.atWorkers : Multiset NpuJob) ≤ s.atWorkers) (jobId : Nat) :
    s'.unanswered jobId ≤ s.unanswered jobId :=
  Multiset.filterMap_le_filterMap _ hworkers

/-- Fewer windows at the workers, and no new answer. -/
theorem accounts_of_le {jobId : Nat} (h : s.Accounts jobId)
    (hworkers : (s'.atWorkers : Multiset NpuJob) ≤ s.atWorkers)
    (hresults : ∀ answer, .ok (.whisper answer) ∈ s'.resultRx →
      .ok (.whisper answer) ∈ s.resultRx)
    (hsent : s'.sent = s.sent) (hanswered : s'.answered = s.answered) : s'.Accounts jobId := by
  refine ⟨?_, ?_⟩
  · intro answer hmem hid
    rw [answersTo, hanswered]
    exact h.received answer (hresults answer hmem) hid
  · rw [answersTo, hanswered, sentTo, hsent]
    exact (add_le_add_left (unanswered_mono hworkers jobId) _).trans h.once

theorem Sim.answerVad (h : Sim errorFree maxInFlight s) {job : VadJob} {result : VadResult}
    (hmem : .vad job ∈ s.atWorkers) (hticket : (NpuResult.vad result).ticket = (NpuJob.vad job).ticket) :
    Sim errorFree maxInFlight
      { s with
        atWorkers := s.atWorkers.erase (.vad job)
        resultRx := s.resultRx ++ [.ok (.vad result)] } := by
  have htickets := @tickets_answer s
    { s with
      atWorkers := s.atWorkers.erase (.vad job)
      resultRx := s.resultRx ++ [.ok (.vad result)] } _ _ hmem hticket rfl rfl
  refine h.books rfl (older_of_le h.older htickets.le rfl h.older.answered) ?_
    (frame_of_le htickets.le rfl (List.append_nil _).symm) rfl rfl
  intro jobId haccounts
  refine accounts_of_le haccounts ?_ ?_ rfl rfl
  · rw [← Multiset.coe_erase]
    exact Multiset.erase_le _ _
  · intro answer hanswer
    obtain hold | hnew := List.mem_append.mp hanswer
    · exact hold
    · simp at hnew

/-- The window that is answered leaves the workers. -/
theorem unanswered_answer {job : WhisperJob} (hmem : .whisper job ∈ s.atWorkers)
    (hworkers : s'.atWorkers = s.atWorkers.erase (.whisper job)) (jobId : Nat) :
    s.unanswered jobId =
      s'.unanswered jobId + if job.jobId = jobId then {job.windowIndex} else 0 := by
  have hcons : (s.atWorkers : Multiset NpuJob) = .whisper job ::ₘ s'.atWorkers := by
    rw [hworkers, ← Multiset.coe_erase, Multiset.cons_erase (Multiset.mem_coe.mpr hmem)]
  rw [unanswered, hcons, unanswered]
  by_cases hid : job.jobId = jobId
  · have hwindow : windowOf jobId (.whisper job) = some job.windowIndex := if_pos hid
    rw [Multiset.filterMap_cons_some _ _ _ hwindow, if_pos hid, ← Multiset.singleton_add, add_comm]
  · have hwindow : windowOf jobId (.whisper job) = none := if_neg hid
    rw [Multiset.filterMap_cons_none _ _ hwindow, if_neg hid, add_zero]

theorem answersTo_answer {answer : WorkerTranscription}
    (hanswered : s'.answered = s.answered ++ [answer]) (jobId : Nat) :
    s'.answersTo jobId =
      s.answersTo jobId ++ if answer.jobId = jobId then [answer.transcription] else [] := by
  rw [answersTo, hanswered, List.filter_append, List.map_append, answersTo, List.filter_singleton]
  by_cases hid : answer.jobId = jobId
  · rw [if_pos hid, decide_eq_true hid]
    rfl
  · rw [if_neg hid, decide_eq_false hid]
    rfl

theorem Sim.answerWhisper (h : Sim errorFree maxInFlight s) {job : WhisperJob}
    (hmem : .whisper job ∈ s.atWorkers) (text : String) (segments : List TranscriptSegment) :
    Sim errorFree maxInFlight
      { s with
        atWorkers := s.atWorkers.erase (.whisper job)
        resultRx := s.resultRx ++ [.ok (.whisper (job.answer text segments))]
        answered := s.answered ++ [job.answer text segments] } := by
  set s' : Scheduler :=
    { s with
      atWorkers := s.atWorkers.erase (.whisper job)
      resultRx := s.resultRx ++ [.ok (.whisper (job.answer text segments))]
      answered := s.answered ++ [job.answer text segments] } with hs'
  have hticket : (NpuResult.whisper (job.answer text segments)).ticket =
      (NpuJob.whisper job).ticket := rfl
  have htickets := @tickets_answer s s' _ _ hmem hticket rfl rfl
  have hbound : job.jobId < s.nextJobId := by
    have hold : (NpuJob.whisper job).ticket ∈ s.tickets :=
      Multiset.mem_add.mpr (.inl (Multiset.mem_map_of_mem _ (Multiset.mem_coe.mpr hmem)))
    exact h.older.tickets _ hold
  refine @Sim.books _ _ _ s' h rfl (older_of_le h.older htickets.le rfl ?_) ?_
    (frame_of_le htickets.le rfl rfl) rfl rfl
  · exact List.forall_mem_append.mpr ⟨h.older.answered, List.forall_mem_singleton.mpr hbound⟩
  · intro jobId haccounts
    have hunanswered := @unanswered_answer s s' job hmem rfl jobId
    have hanswers := @answersTo_answer s s' _ rfl jobId
    refine ⟨?_, ?_⟩
    · intro received hreceived hid
      rw [hanswers]
      obtain hold | hnew := List.mem_append.mp hreceived
      · exact List.mem_append_left _ (haccounts.received received hold hid)
      · obtain rfl : received = job.answer text segments := by simpa using hnew
        rw [if_pos hid]
        exact List.mem_append_right _ (List.mem_singleton_self _)
    · have hbefore := haccounts.once
      have hnew : Multiset.map WindowTranscription.windowIndex
          (if job.jobId = jobId then [(job.answer text segments).transcription] else [] :
            List WindowTranscription) = if job.jobId = jobId then {job.windowIndex} else 0 := by
        by_cases hid : job.jobId = jobId
        · rw [if_pos hid, if_pos hid]
          rfl
        · rw [if_neg hid, if_neg hid]
          rfl
      have hid : (job.answer text segments).jobId = job.jobId := rfl
      rw [hanswers, hid, ← Multiset.coe_add, Multiset.map_add, hnew]
      rw [hunanswered, add_right_comm] at hbefore
      rw [← add_assoc]
      exact hbefore

theorem Sim.fail (h : Sim errorFree maxInFlight s) (failed : Option NpuJob) (error : Error) :
    Sim errorFree maxInFlight
      { s with
        atWorkers := s.atWorkers.diff failed.toList
        resultRx := s.resultRx ++ [.error error] } := by
  set s' : Scheduler :=
    { s with
      atWorkers := s.atWorkers.diff failed.toList
      resultRx := s.resultRx ++ [.error error] } with hs'
  have hworkers : (s'.atWorkers : Multiset NpuJob) ≤ s.atWorkers :=
    Multiset.coe_le.mpr (List.diff_sublist _ _).subperm
  have htickets : s'.tickets ≤ s.tickets := by
    have hsame : s'.resultRx.filterMap resultTicket = s.resultRx.filterMap resultTicket := by
      simp [hs', resultTicket]
    rw [tickets, hsame, tickets]
    exact add_le_add_left (Multiset.map_le_map hworkers) _
  refine @Sim.books _ _ _ s' h rfl (older_of_le h.older htickets rfl h.older.answered) ?_
    (frame_of_le htickets rfl (List.append_nil _).symm) rfl rfl
  intro jobId haccounts
  refine accounts_of_le haccounts hworkers ?_ rfl rfl
  intro answer hanswer
  obtain hold | hnew := List.mem_append.mp hanswer
  · exact hold
  · simp at hnew

/-! ### The run -/

variable {config : ConcurrencyConfig}

theorem Sim.step {event : Event} (h : Sim errorFree config.maxInFlight s)
    (hfree : errorFree → ErrorFree config.maxInFlight s event) (hstep : Step config s event s') :
    Sim errorFree config.maxInFlight s' := by
  have hphase : ∀ {s : Scheduler} (phase : LoopPhase), Sim errorFree config.maxInFlight s →
      Sim errorFree config.maxInFlight { s with phase } :=
    fun _ h => h.sameJobs ⟨rfl, rfl, rfl, rfl, rfl⟩ rfl rfl
  cases event with
  | head =>
      obtain ⟨-, hnext⟩ := Option.ite_some_none_eq_some.mp hstep
      subst hnext
      exact h.headStep hfree
  | newJob job =>
      obtain ⟨-, hnext⟩ := Option.ite_some_none_eq_some.mp hstep
      subst hnext
      exact h.addJob job
  | ready sent =>
      obtain ⟨-, hnext⟩ := Option.ite_some_none_eq_some.mp hstep
      subst hnext
      exact hphase .tail (h.dispatchReady sent)
  | result =>
      rw [Step, Scheduler.step] at hstep
      split at hstep
      · split at hstep
        · cases hstep
        · rename_i result resultRx hresults
          cases hstep
          exact h.receiveResult hresults
      · cases hstep
  | sleep =>
      obtain ⟨-, hnext⟩ := Option.ite_some_none_eq_some.mp hstep
      subst hnext
      exact hphase .tail h
  | tail =>
      obtain ⟨-, hnext⟩ := Option.ite_some_none_eq_some.mp hstep
      subst hnext
      exact h.tailStep hfree
  | arrive jobId chunk =>
      obtain ⟨hany, hnext⟩ := Option.ite_some_none_eq_some.mp hstep
      subst hnext
      obtain ⟨open_, hmem, hopen⟩ := List.any_eq_true.mp hany
      simp only [Bool.and_eq_true, decide_eq_true_eq, Bool.not_eq_true'] at hopen
      refine h.updateOne ⟨rfl, rfl, rfl, rfl, rfl⟩ ?_ ?_ rfl rfl
      · exact fun _ => rfl
      · intro job hjob hid
        obtain rfl := List.inj_on_of_nodup_map h.nodup_active hjob hmem (hid.trans hopen.1.symm)
        exact continues_arrive chunk hopen.2
  | hangUp jobId =>
      obtain rfl := Option.some.inj hstep
      refine h.updateOne ⟨rfl, rfl, rfl, rfl, rfl⟩ ?_ ?_ rfl rfl
      · exact fun _ => rfl
      · exact fun _ _ _ => continues_hangUp
  | answerVad job probability state =>
      obtain ⟨hmem, hnext⟩ := Option.ite_some_none_eq_some.mp hstep
      subst hnext
      exact h.answerVad hmem rfl
  | answerWhisper job text segments =>
      obtain ⟨hmem, hnext⟩ := Option.ite_some_none_eq_some.mp hstep
      subst hnext
      exact h.answerWhisper hmem text segments
  | fail failed error =>
      obtain ⟨-, hnext⟩ := Option.ite_some_none_eq_some.mp hstep
      subst hnext
      exact h.fail failed error

variable {jobId : Nat} {job : ModelJob} {vadEnabled : Bool} {leftover : Leftover jobId}
  {events : List Event}

/-- Every job of every run is tracked by a live run. -/
theorem Sim.of_run
    (h : Run (Step config) (Scheduler.start jobId job vadEnabled leftover) events s) :
    Sim False config.maxInFlight s :=
  h.invariant (P := fun _ s => Sim False config.maxInFlight s) (Sim.start ..)
    fun _ _ _ _ hsim hstep => hsim.step False.elim hstep

theorem Sim.exists_run (h : Sim errorFree maxInFlight s) {job : ActiveLiveJob}
    (hjob : job ∈ s.jobs) : ∃ run, run.job = job ∧ Tracks errorFree maxInFlight s run := by
  obtain hactive | hremoved := List.mem_append.mp hjob
  · obtain ⟨run, hrun, -, htracks⟩ := h.active job hactive
    exact ⟨run, hrun, htracks⟩
  · obtain ⟨run, hrun, -, htracks⟩ := h.removed job hremoved
    exact ⟨run, hrun, htracks⟩

/-! ### Delivery -/

/-- What one job has sent and counted, beside what its workers have made of its windows. -/
structure Delivered (config : ConcurrencyConfig) (s : Scheduler) (job : ActiveLiveJob) : Prop where
  sent : (s.sentTo job.jobId).map WhisperJob.windowIndex = List.range job.stats.windowsDispatched
  answeredOnce : ((s.answersTo job.jobId).map WindowTranscription.windowIndex).Nodup
  emitted : ∃ answers ⊆ s.answersTo job.jobId,
    answers.map WindowTranscription.windowIndex = List.range job.nextResultIndex ∧
      job.responseTx.filter JobResponse.isSegment =
        answers.flatMap WindowTranscription.responses
  inFlight : job.stats.windowsDispatched = job.stats.windowsCompleted + job.inFlight
  bound : job.inFlight ≤ config.maxInFlight
  idle : job.inFlight = 0 →
    job.nextResultIndex = job.stats.windowsDispatched ∧ job.pendingResults.isEmpty = true
  finished : ∀ front stats back, job.responseTx = front ++ .finished (.ok stats) :: back →
    back = [] ∧ job.inFlight = 0 ∧ stats = job.stats

/-- The answers whose segments have been sent. -/
theorem exists_emitted {answers : List WindowTranscription} {count : Nat}
    (hanswered : ∀ index < count, (answerTo answers index).isSome = true) :
    ∃ emitted ⊆ answers, emitted.map WindowTranscription.windowIndex = List.range count ∧
      segmentsOfAnswers answers count = emitted.flatMap WindowTranscription.responses := by
  induction count with
  | zero => exact ⟨[], List.nil_subset _, rfl, rfl⟩
  | succ count ih =>
      obtain ⟨emitted, hsubset, hindices, hsegments⟩ :=
        ih fun index hindex => hanswered index (hindex.trans (Nat.lt_succ_self _))
      obtain ⟨answer, hanswer⟩ := Option.isSome_iff_exists.mp (hanswered count (Nat.lt_succ_self _))
      have hindex : answer.windowIndex = count := by
        have hfound := List.find?_some (p := fun answer : WindowTranscription =>
          decide (answer.windowIndex = count)) hanswer
        exact of_decide_eq_true hfound
      refine ⟨emitted ++ [answer], ?_, ?_, ?_⟩
      · exact List.append_subset.mpr
          ⟨hsubset, List.cons_subset.mpr ⟨List.mem_of_find?_eq_some hanswer, List.nil_subset _⟩⟩
      · rw [List.map_append, hindices, List.range_succ, List.map_singleton, hindex]
      · rw [segmentsOfAnswers] at hsegments
        rw [segmentsOfAnswers, List.range_succ, List.flatMap_append, hsegments,
          List.flatMap_append, List.flatMap_singleton, hanswer, List.flatMap_singleton]
        rfl

theorem Tracks.delivered {run : LiveRun} (h : Tracks errorFree config.maxInFlight s run)
    (haccounts : s.Accounts run.job.jobId) : Delivered config s run.job := by
  have hdelivery := h.genuine.delivery
  refine ⟨?_, ?_, ?_, ?_, hdelivery.bound, ?_, ?_⟩
  · rw [← h.sent, List.map_map, hdelivery.windowsDispatched]
    exact hdelivery.dispatched
  · have hsent : (Multiset.map WhisperJob.windowIndex (s.sentTo run.job.jobId)).Nodup := by
      rw [← h.sent, Multiset.map_coe, List.map_map, Multiset.coe_nodup]
      exact hdelivery.dispatched ▸ List.nodup_range
    have hle := (Multiset.le_add_left _ _).trans haccounts.once
    exact Multiset.coe_nodup.mp (Multiset.nodup_of_le hle hsent)
  · obtain ⟨emitted, hsubset, hindices, hsegments⟩ := exists_emitted hdelivery.emitted
    refine ⟨emitted, fun _ hmem => h.answers (hsubset hmem), hindices, ?_⟩
    rw [hdelivery.segments, hsegments]
  · have hlength := hdelivery.indices.length_eq
    rw [List.length_append, List.length_map, List.length_range] at hlength
    rw [hdelivery.windowsDispatched, hdelivery.windowsCompleted, hdelivery.inFlight]
    omega
  · intro hidle
    obtain ⟨hnext, -, hpending⟩ := hdelivery.idle hidle
    exact ⟨hnext.trans hdelivery.windowsDispatched.symm, hpending⟩
  · intro front stats back hsplit
    have hmem : .finished (.ok stats) ∈ run.job.responseTx := by
      rw [hsplit]
      exact List.mem_append_right _ List.mem_cons_self
    obtain ⟨-, hcomplete, hstats⟩ := hdelivery.finished stats hmem
    simp only [ActiveLiveJob.isComplete, Bool.and_eq_true, beq_iff_eq] at hcomplete
    exact ⟨h.genuine.finished hsplit, hcomplete.1.2, hstats⟩

/-- **Results are delivered in order and exactly once.** The segments a job has sent are those of its
windows `0, 1, …`, each answered once and by a worker that had it from this job; nothing in flight
means that all of them are sent; and what comes back for a removed job reaches none. -/
theorem results_exactly_once
    (h : Run (Step config) (start jobId job vadEnabled leftover) events s) :
    (s.jobs.map ActiveLiveJob.jobId).Nodup ∧ (∀ job ∈ s.jobs, Delivered config s job) ∧
      ∀ removed ∈ s.removedJobs, ∀ result : NpuResult, result.jobId = removed.jobId →
        (s.receiveResult (.ok result)).activeJobs = s.activeJobs ∧
          (s.receiveResult (.ok result)).removedJobs = s.removedJobs := by
  have hsim := Sim.of_run h
  refine ⟨hsim.nodup, ?_, ?_⟩
  · intro job hjob
    obtain ⟨run, rfl, htracks⟩ := hsim.exists_run hjob
    exact htracks.delivered (hsim.accounts run.job hjob)
  · intro removed hremoved result hid
    have hne : ∀ job ∈ s.activeJobs, job.jobId ≠ result.jobId := by
      intro job hjob heq
      have hnodup := hsim.nodup
      rw [jobs, List.map_append] at hnodup
      have hshared := heq.trans hid
      exact List.disjoint_of_nodup_append hnodup (List.mem_map_of_mem hjob)
        (hshared ▸ List.mem_map_of_mem hremoved)
    cases result with
    | vad result => exact ⟨updateJob_of_forall_ne hne, rfl⟩
    | whisper result => exact ⟨updateJob_of_forall_ne hne, rfl⟩

def pairConfig : ConcurrencyConfig := { maxActiveJobsPerModel := 2, maxInFlightWindowsPerJob := 4 }

/-- A channel with one sample in it, and nobody to send more. -/
def sampleJob : ModelJob :=
  { header := {}
    chunkRx := { queue := [.ok { samples := [F32.ofNat 1] }], disconnected := true } }

def sampleWindow (jobId : Nat) : WhisperJob :=
  { jobId
    windowIndex := 0
    absoluteStartSec := samplesToSec 0
    startSample := 0
    endSample := 1
    samples := [F32.ofNat 1]
    options := .ofHeader {} }

def sampleSegment : TranscriptSegment :=
  { startSec := F32.ofNat 0, endSec := F32.ofNat 1, text := "a", tokens := [2], windowIndex := 0 }

/-- Two jobs with one window each, which is answered in the other order. -/
def pairEvents : List Event :=
  [.head, .newJob sampleJob, .tail, .head, .ready true, .tail, .head, .ready true, .tail,
    .answerWhisper (sampleWindow 6) "a" [sampleSegment],
    .answerWhisper (sampleWindow 5) "a" [sampleSegment],
    .head, .result, .tail, .head, .result, .tail, .head]

theorem results_exactly_once_pair : ∃ s,
    Run (Step pairConfig) (start 5 sampleJob false {}) pairEvents s ∧
      s.removedJobs.map (fun job => (job.jobId, job.nextResultIndex)) = [(6, 1), (5, 1)] ∧
      ∀ job ∈ s.jobs, Delivered pairConfig s job := by
  have hrun : ((pairEvents.foldlM (step pairConfig) (start 5 sampleJob false {})).map fun s =>
      s.removedJobs.map fun job => (job.jobId, job.nextResultIndex)) =
        some [(6, 1), (5, 1)] := by
    decide +kernel
  obtain ⟨s, hfold, hview⟩ := Option.map_eq_some_iff.mp hrun
  have h : Run (Step pairConfig) (start 5 sampleJob false {}) pairEvents s :=
    Run.of_foldlM (fun _ _ _ hstep => hstep) hfold
  exact ⟨s, h, hview, (results_exactly_once h).2.1⟩

/-! ### Terminal responses -/

/-- A step whose drains take no error of a reader. -/
def CleanStep (config : ConcurrencyConfig) (s : Scheduler) (event : Event) (s' : Scheduler) :
    Prop :=
  Step config s event s' ∧ ErrorFree config.maxInFlight s event

/-- **A terminal response is the only one, and the last**, as long as no reader reports an error. -/
theorem terminal_response_last
    (h : Run (CleanStep config) (start jobId job vadEnabled leftover) events s) :
    ∀ job ∈ s.jobs, EndsOnce job.responseTx := by
  have hsim : Sim True config.maxInFlight s :=
    h.invariant (P := fun _ s => Sim True config.maxInFlight s) (Sim.start ..)
      fun _ _ _ _ hsim hstep => hsim.step (fun _ => hstep.2) hstep.1
  intro job hjob
  obtain ⟨run, rfl, htracks⟩ := hsim.exists_run hjob
  exact (htracks.genuine.ending trivial).ended

/-- A step that can see that no reader has reported an error. -/
def checkedStep (config : ConcurrencyConfig) (s : Scheduler) (event : Event) : Option Scheduler :=
  if s.activeJobs.all fun job => (job.drainedChunks config.maxInFlight).all Except.isOk then
    s.step config event
  else none

theorem cleanStep_of_checkedStep {event : Event} (h : s.checkedStep config event = some s') :
    CleanStep config s event s' := by
  obtain ⟨hall, hstep⟩ := Option.ite_none_right_eq_some.mp h
  refine ⟨hstep, ?_⟩
  intro _ job hjob error hmem
  have hok := List.all_eq_true.mp (List.all_eq_true.mp hall job hjob) _ hmem
  cases hok

/-- The segment of the window comes before the end. -/
theorem terminal_response_last_pair : ∃ s,
    Run (CleanStep pairConfig) (start 5 sampleJob false {}) pairEvents s ∧
      s.removedJobs.map (fun job => job.responseTx.map JobResponse.isSegment) =
        [[true, false], [true, false]] ∧
      ∀ job ∈ s.jobs, EndsOnce job.responseTx := by
  have hrun : ((pairEvents.foldlM (checkedStep pairConfig) (start 5 sampleJob false {})).map fun s =>
      s.removedJobs.map fun job => job.responseTx.map JobResponse.isSegment) =
        some [[true, false], [true, false]] := by
    decide +kernel
  obtain ⟨s, hfold, hview⟩ := Option.map_eq_some_iff.mp hrun
  have h : Run (CleanStep pairConfig) (start 5 sampleJob false {}) pairEvents s :=
    Run.of_foldlM (fun _ _ _ => cleanStep_of_checkedStep) hfold
  exact ⟨s, h, hview, terminal_response_last h⟩

/-- What a reader leaves behind that meets an unknown signal. -/
def failedJob : ModelJob :=
  { header := {}
    chunkRx :=
      { queue := [.error (.other "unsupported shared-memory signal 7")], disconnected := true } }

/-- The drain that takes the error ends the responses; the removal in the same round ends them
again. -/
theorem not_endsOnce_failedJob :
    ¬ ∀ config jobId job vadEnabled (leftover : Leftover jobId) events s,
      Run (Step config) (start jobId job vadEnabled leftover) events s →
        ∀ job ∈ s.jobs, EndsOnce job.responseTx := by
  intro hall
  have h : Run (Step pairConfig) (start 5 failedJob false {}) [.head]
      (headStep 3 (start 5 failedJob false {})) := .single rfl
  have hends := hall pairConfig 5 failedJob false {} [.head] _ h
  have hresponses : (headStep 3 (start 5 failedJob false {})).jobs.map
      ActiveLiveJob.responseTx =
        [[.finished (.error (.other "unsupported shared-memory signal 7")), .finished (.ok {})]] := rfl
  obtain ⟨job, hjob, hjobResponses⟩ := List.mem_map.mp (hresponses ▸ List.mem_singleton_self _)
  have hback := hends job hjob [] _ _ hjobResponses
  exact absurd hback (List.cons_ne_nil _ _)

end Scheduler

end RkWhisper
