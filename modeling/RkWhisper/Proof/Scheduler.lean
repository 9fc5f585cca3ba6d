import RkWhisper.Proof.JobTracking

/-!
# Every run of the scheduler

A job keeps its id, and no two jobs have the same, so that a result reaches the job it belongs to or
none at all. Each step of the scheduler is then a step, or no step, of each of its jobs.
-/

namespace RkWhisper

open Transition

namespace Scheduler

/-! ### Lists of jobs -/

theorem mem_removeCompletedJobs (jobs : List ActiveLiveJob) :
    (∀ job ∈ (removeCompletedJobs jobs).1, job ∈ jobs) ∧
      ∀ job' ∈ (removeCompletedJobs jobs).2, ∃ job ∈ jobs, job.isComplete = true ∧
        job' = job.send [.finished (.ok job.stats)] := by
  induction jobs with
  | nil => exact ⟨fun _ hmem => hmem, fun _ hmem => absurd hmem List.not_mem_nil⟩
  | cons job jobs ih =>
      obtain ⟨hkept, hgone⟩ := ih
      rw [removeCompletedJobs, ActiveLiveJob.finishIfComplete]
      by_cases hcomplete : job.isComplete = true
      · rw [if_pos hcomplete]
        refine ⟨fun kept hmem => List.mem_cons_of_mem _ (hkept kept hmem), ?_⟩
        intro gone hmem
        obtain rfl | hmem := List.mem_cons.mp hmem
        · exact ⟨job, List.mem_cons_self, hcomplete, rfl⟩
        · obtain ⟨old, hold, hrest⟩ := hgone gone hmem
          exact ⟨old, List.mem_cons_of_mem _ hold, hrest⟩
      · rw [if_neg hcomplete]
        refine ⟨?_, ?_⟩
        · intro kept hmem
          obtain rfl | hmem := List.mem_cons.mp hmem
          · exact List.mem_cons_self
          · exact List.mem_cons_of_mem _ (hkept kept hmem)
        · intro gone hmem
          obtain ⟨old, hold, hrest⟩ := hgone gone hmem
          exact ⟨old, List.mem_cons_of_mem _ hold, hrest⟩

theorem perm_removeCompletedJobs (jobs : List ActiveLiveJob) :
    (((removeCompletedJobs jobs).1 ++ (removeCompletedJobs jobs).2).map ActiveLiveJob.jobId).Perm
      (jobs.map ActiveLiveJob.jobId) := by
  induction jobs with
  | nil => exact .refl _
  | cons job jobs ih =>
      rw [removeCompletedJobs, ActiveLiveJob.finishIfComplete]
      split
      · rename_i hfinish
        split at hfinish <;> cases hfinish
        rw [List.map_append, List.map_cons]
        rw [List.map_append] at ih
        exact List.perm_middle.trans (ih.cons _)
      · rename_i hfinish
        split at hfinish <;> cases hfinish
        exact ih.cons _

variable {jobId : Nat} {update : ActiveLiveJob → ActiveLiveJob}

theorem map_jobId_updateJob (hupdate : ∀ job, (update job).jobId = job.jobId)
    (jobs : List ActiveLiveJob) : (updateJob jobId update jobs).map ActiveLiveJob.jobId =
      jobs.map ActiveLiveJob.jobId := by
  induction jobs with
  | nil => rfl
  | cons job jobs ih =>
      rw [updateJob]
      split
      · rw [List.map_cons, hupdate, List.map_cons]
      · rw [List.map_cons, ih, List.map_cons]

/-- Only the job with this id is updated. -/
theorem mem_updateJob {jobs : List ActiveLiveJob}
    (hnodup : (jobs.map ActiveLiveJob.jobId).Nodup) {job' : ActiveLiveJob}
    (hmem : job' ∈ updateJob jobId update jobs) :
    (∃ job ∈ jobs, job.jobId = jobId ∧ job' = update job) ∨
      (job' ∈ jobs ∧ job'.jobId ≠ jobId) := by
  induction jobs with
  | nil => cases hmem
  | cons job jobs ih =>
      rw [List.map_cons, List.nodup_cons] at hnodup
      rw [updateJob] at hmem
      split at hmem
      · rename_i hid
        obtain rfl | hmem := List.mem_cons.mp hmem
        · exact .inl ⟨job, List.mem_cons_self, hid, rfl⟩
        · refine .inr ⟨List.mem_cons_of_mem _ hmem, ?_⟩
          rintro rfl
          rw [hid] at hnodup
          exact hnodup.1 (List.mem_map_of_mem hmem)
      · rename_i hid
        obtain rfl | hmem := List.mem_cons.mp hmem
        · exact .inr ⟨List.mem_cons_self, hid⟩
        · obtain ⟨old, hold, hrest⟩ | ⟨hold, hne⟩ := ih hnodup.2 hmem
          · exact .inl ⟨old, List.mem_cons_of_mem _ hold, hrest⟩
          · exact .inr ⟨List.mem_cons_of_mem _ hold, hne⟩

theorem set_eq_updateJob {jobs : List ActiveLiveJob}
    (hnodup : (jobs.map ActiveLiveJob.jobId).Nodup) {idx : Nat} {job : ActiveLiveJob}
    (hidx : jobs[idx]? = some job) :
    jobs.set idx (update job) = updateJob job.jobId update jobs := by
  induction jobs generalizing idx with
  | nil => cases hidx
  | cons first jobs ih =>
      rw [List.map_cons, List.nodup_cons] at hnodup
      cases idx with
      | zero =>
          obtain rfl := Option.some.inj hidx
          rw [List.set_cons_zero, updateJob, if_pos rfl]
      | succ idx =>
          rw [List.getElem?_cons_succ] at hidx
          have hmem : job ∈ jobs := List.mem_of_getElem? hidx
          have hne : first.jobId ≠ job.jobId := by
            intro heq
            exact hnodup.1 (heq ▸ List.mem_map_of_mem hmem)
          rw [List.set_cons_succ, updateJob, if_neg hne, ih hnodup.2 hidx]

theorem scanJobs_some {suits : ActiveLiveJob → Bool} {jobs : List ActiveLiveJob}
    {rounds cursor idx cursor' : Nat} (h : scanJobs suits jobs rounds cursor = (some idx, cursor')) :
    ∃ job, jobs[idx]? = some job ∧ suits job = true := by
  induction rounds generalizing cursor with
  | zero => cases h
  | succ rounds ih =>
      rw [scanJobs] at h
      split at h
      · rename_i hsuits
        cases h
        cases hjob : jobs[cursor % jobs.length]? with
        | none => simp [hjob] at hsuits
        | some job => exact ⟨job, rfl, by simpa [hjob] using hsuits⟩
      · exact ih h

/-- As many rounds as there are jobs meet every job. -/
theorem scanJobs_none {suits : ActiveLiveJob → Bool} {jobs : List ActiveLiveJob}
    {cursor cursor' : Nat} (h : scanJobs suits jobs jobs.length cursor = (none, cursor')) :
    ∀ job ∈ jobs, suits job = false := by
  have hrounds : ∀ rounds cursor, scanJobs suits jobs rounds cursor = (none, cursor') →
      ∀ i < rounds, (jobs[(cursor + i) % jobs.length]?.map suits).getD false = false := by
    intro rounds
    induction rounds with
    | zero => exact fun _ _ i hi => absurd hi (Nat.not_lt_zero i)
    | succ rounds ih =>
        intro cursor h i hi
        rw [scanJobs] at h
        split at h
        · cases h
        · rename_i hfirst
          cases i with
          | zero => exact Bool.eq_false_of_not_eq_true hfirst
          | succ i =>
              have hlater := ih _ h i (by omega)
              rwa [Nat.mod_add_mod, Nat.add_assoc, Nat.add_comm 1] at hlater
  intro job hmem
  obtain ⟨idx, hidx⟩ := List.mem_iff_getElem?.mp hmem
  have hlt : idx < jobs.length := (List.getElem?_eq_some_iff.mp hidx).1
  have hmod : cursor % jobs.length < jobs.length := Nat.mod_lt _ (by omega)
  have hmeet := hrounds jobs.length cursor h ((idx + jobs.length - cursor % jobs.length) % jobs.length)
    (Nat.mod_lt _ (by omega))
  have hpos : (cursor + (idx + jobs.length - cursor % jobs.length) % jobs.length) % jobs.length =
      idx := by
    rw [Nat.add_mod_mod, ← Nat.mod_add_mod]
    have hsum : cursor % jobs.length + (idx + jobs.length - cursor % jobs.length) =
        idx + jobs.length := by omega
    rw [hsum, Nat.add_mod_right, Nat.mod_eq_of_lt hlt]
  rw [hpos, hidx] at hmeet
  exact hmeet

/-! ### The invariant -/

def jobs (s : Scheduler) : List ActiveLiveJob := s.activeJobs ++ s.removedJobs

def windowOf (jobId : Nat) : NpuJob → Option Nat
  | .whisper job => if job.jobId = jobId then some job.windowIndex else none
  | .vad _ => none

/-- The windows of one job that are at the workers. -/
def unanswered (s : Scheduler) (jobId : Nat) : Multiset Nat :=
  Multiset.filterMap (windowOf jobId) s.atWorkers

/-- Each window sent is at a worker, or answered, and not twice; and what comes back was answered. -/
structure Accounts (s : Scheduler) (jobId : Nat) : Prop where
  received : ∀ answer, .ok (.whisper answer) ∈ s.resultRx → answer.jobId = jobId →
    answer.transcription ∈ s.answersTo jobId
  once : s.unanswered jobId + Multiset.map WindowTranscription.windowIndex (s.answersTo jobId) ≤
    Multiset.map WhisperJob.windowIndex (s.sentTo jobId)

/-- All the work there is belongs to jobs that have had their id. -/
structure Older (s : Scheduler) (bound : Nat) : Prop where
  tickets : ∀ ticket ∈ s.tickets, ticket.jobId < bound
  sent : ∀ job ∈ s.sent, job.jobId < bound
  answered : ∀ answer ∈ s.answered, answer.jobId < bound

structure Sim (errorFree : Prop) (maxInFlight : Nat) (s : Scheduler) : Prop where
  older : s.Older s.nextJobId
  ids : ∀ job ∈ s.jobs, job.jobId < s.nextJobId
  nodup : (s.jobs.map ActiveLiveJob.jobId).Nodup
  accounts : ∀ job ∈ s.jobs, s.Accounts job.jobId
  active : ∀ job ∈ s.activeJobs, ∃ run, run.job = job ∧ run.removed = false ∧
    Tracks errorFree maxInFlight s run
  removed : ∀ job ∈ s.removedJobs, ∃ run, run.job = job ∧ run.removed = true ∧
    Tracks errorFree maxInFlight s run

variable {errorFree : Prop} {maxInFlight : Nat} {s s' : Scheduler}

theorem Sim.nodup_active (h : Sim errorFree maxInFlight s) :
    (s.activeJobs.map ActiveLiveJob.jobId).Nodup := by
  have hnodup := h.nodup
  rw [jobs, List.map_append] at hnodup
  exact hnodup.of_append_left

/-- **What a step has to show.** The jobs are the same ones, each active job goes on, and the books
of the removed jobs stay as they are. -/
theorem Sim.next (h : Sim errorFree maxInFlight s) (hnext : s'.nextJobId = s.nextJobId)
    (hids : (s'.jobs.map ActiveLiveJob.jobId).Perm (s.jobs.map ActiveLiveJob.jobId))
    (holder : s'.Older s.nextJobId)
    (haccounts : ∀ job ∈ s.jobs, s.Accounts job.jobId → s'.Accounts job.jobId)
    (hframe : ∀ job ∈ s.removedJobs, Frame s s' job.jobId)
    (hactive : ∀ job' ∈ s'.activeJobs, ∃ job ∈ s.activeJobs,
      Continues errorFree maxInFlight s s' false job job')
    (hremoved : ∀ job' ∈ s'.removedJobs, job' ∈ s.removedJobs ∨ ∃ job ∈ s.activeJobs,
      Continues errorFree maxInFlight s s' true job job') : Sim errorFree maxInFlight s' := by
  have hold : ∀ job' ∈ s'.jobs, ∃ job ∈ s.jobs, job.jobId = job'.jobId := by
    intro job' hmem
    have hid := hids.subset (List.mem_map_of_mem hmem)
    obtain ⟨job, hjob, heq⟩ := List.mem_map.mp hid
    exact ⟨job, hjob, heq⟩
  refine ⟨hnext ▸ holder, ?_, hids.nodup_iff.mpr h.nodup, ?_, ?_, ?_⟩
  · intro job' hmem
    obtain ⟨job, hjob, heq⟩ := hold job' hmem
    rw [hnext, ← heq]
    exact h.ids job hjob
  · intro job' hmem
    obtain ⟨job, hjob, heq⟩ := hold job' hmem
    have hbefore := h.accounts job hjob
    rw [← heq]
    exact haccounts job hjob hbefore
  · intro job' hmem
    obtain ⟨job, hjob, hcontinues⟩ := hactive job' hmem
    obtain ⟨run, hrun, hremoved, htracks⟩ := h.active job hjob
    exact hcontinues run hrun hremoved htracks
  · intro job' hmem
    obtain hstays | ⟨job, hjob, hcontinues⟩ := hremoved job' hmem
    · obtain ⟨run, rfl, hgone, htracks⟩ := h.removed job' hstays
      exact ⟨run, rfl, hgone, htracks.frame (hframe run.job hstays)⟩
    · obtain ⟨run, hrun, hremoved, htracks⟩ := h.active job hjob
      exact hcontinues run hrun hremoved htracks

/-- Only the jobs differ, not the work there is. -/
structure SameWork (s s' : Scheduler) : Prop where
  nextJobId : s'.nextJobId = s.nextJobId
  atWorkers : s'.atWorkers = s.atWorkers
  resultRx : s'.resultRx = s.resultRx
  sent : s'.sent = s.sent
  answered : s'.answered = s.answered

theorem SameWork.tickets (h : SameWork s s') : s'.tickets = s.tickets := by
  rw [Scheduler.tickets, h.atWorkers, h.resultRx, Scheduler.tickets]

theorem SameWork.frame (h : SameWork s s') (jobId : Nat) : Frame s s' jobId := by
  refine ⟨?_, ?_, ?_⟩
  · rw [ticketsOf, h.tickets, ticketsOf]
  · rw [sentTo, h.sent, sentTo]
  · rw [answersTo, answersTo, h.answered]
    exact List.Subset.refl _

theorem SameWork.accounts (h : SameWork s s') {jobId : Nat} (haccounts : s.Accounts jobId) :
    s'.Accounts jobId := by
  refine ⟨?_, ?_⟩
  · rw [h.resultRx, answersTo, h.answered]
    exact haccounts.received
  · rw [unanswered, answersTo, sentTo, h.atWorkers, h.answered, h.sent]
    exact haccounts.once

theorem SameWork.older (h : SameWork s s') {bound : Nat} (holder : s.Older bound) :
    s'.Older bound := by
  refine ⟨?_, ?_, ?_⟩
  · rw [h.tickets]
    exact holder.tickets
  · rw [h.sent]
    exact holder.sent
  · rw [h.answered]
    exact holder.answered

/-- A step that only moves jobs on. -/
theorem Sim.sameWork (h : Sim errorFree maxInFlight s) (hsame : SameWork s s')
    (hids : (s'.jobs.map ActiveLiveJob.jobId).Perm (s.jobs.map ActiveLiveJob.jobId))
    (hactive : ∀ job' ∈ s'.activeJobs, ∃ job ∈ s.activeJobs,
      Continues errorFree maxInFlight s s false job job')
    (hremoved : ∀ job' ∈ s'.removedJobs, job' ∈ s.removedJobs ∨ ∃ job ∈ s.activeJobs,
      Continues errorFree maxInFlight s s true job job') : Sim errorFree maxInFlight s' := by
  refine h.next hsame.nextJobId hids (hsame.older h.older) (fun _ _ => hsame.accounts)
    (fun job _ => hsame.frame job.jobId) ?_ ?_
  · intro job' hmem
    obtain ⟨job, hjob, hcontinues⟩ := hactive job' hmem
    exact ⟨job, hjob, hcontinues.trans (continues_frame (hsame.frame job'.jobId))⟩
  · intro job' hmem
    obtain hstays | ⟨job, hjob, hcontinues⟩ := hremoved job' hmem
    · exact .inl hstays
    · refine .inr ⟨job, hjob, ?_⟩
      intro run hrun hfalse htracks
      obtain ⟨run', hrun', hgone, htracks'⟩ := hcontinues run hrun hfalse htracks
      exact ⟨run', hrun', hgone, htracks'.frame (hsame.frame run'.job.jobId)⟩

/-- Every job moves on by itself, and those that are complete then are removed. -/
theorem Sim.removeCompleted (h : Sim errorFree maxInFlight s) (hsame : SameWork s s')
    {move : ActiveLiveJob → ActiveLiveJob} (hmoveId : ∀ job, (move job).jobId = job.jobId)
    (hmove : ∀ job ∈ s.activeJobs, Continues errorFree maxInFlight s s false job (move job))
    (hactive : s'.activeJobs = (removeCompletedJobs (s.activeJobs.map move)).1)
    (hremoved : s'.removedJobs = s.removedJobs ++ (removeCompletedJobs (s.activeJobs.map move)).2) :
    Sim errorFree maxInFlight s' := by
  obtain ⟨hkept, hgone⟩ := mem_removeCompletedJobs (s.activeJobs.map move)
  refine h.sameWork hsame ?_ ?_ ?_
  · have hperm := perm_removeCompletedJobs (s.activeJobs.map move)
    have hsameIds : (s.activeJobs.map move).map ActiveLiveJob.jobId =
        s.activeJobs.map ActiveLiveJob.jobId := by
      rw [List.map_map]
      exact List.map_congr_left fun job _ => hmoveId job
    rw [hsameIds, List.map_append] at hperm
    simp only [jobs, hactive, hremoved, List.map_append]
    refine (List.Perm.append_left _ List.perm_append_comm).trans ?_
    rw [← List.append_assoc]
    exact hperm.append_right _
  · intro job' hmem
    rw [hactive] at hmem
    obtain ⟨job, hjob, rfl⟩ := List.mem_map.mp (hkept job' hmem)
    exact ⟨job, hjob, hmove job hjob⟩
  · intro job' hmem
    rw [hremoved] at hmem
    obtain hstays | hnew := List.mem_append.mp hmem
    · exact .inl hstays
    · obtain ⟨moved, hmoved, hcomplete, rfl⟩ := hgone job' hnew
      obtain ⟨job, hjob, rfl⟩ := List.mem_map.mp hmoved
      exact .inr ⟨job, hjob, (hmove job hjob).trans (continues_finish hcomplete)⟩

/-- One job is updated in a step of its own. -/
theorem Sim.updateOne (h : Sim errorFree maxInFlight s) (hsame : SameWork s s') {jobId : Nat}
    {update : ActiveLiveJob → ActiveLiveJob}
    (hupdateId : ∀ job, (update job).jobId = job.jobId)
    (hupdate : ∀ job ∈ s.activeJobs, job.jobId = jobId →
      Continues errorFree maxInFlight s s false job (update job))
    (hactive : s'.activeJobs = updateJob jobId update s.activeJobs)
    (hremoved : s'.removedJobs = s.removedJobs) : Sim errorFree maxInFlight s' := by
  refine h.sameWork hsame ?_ ?_ ?_
  · rw [jobs, hactive, hremoved, jobs, List.map_append, map_jobId_updateJob hupdateId,
      List.map_append]
  · intro job' hmem
    rw [hactive] at hmem
    obtain ⟨job, hjob, hid, rfl⟩ | ⟨hold, -⟩ := mem_updateJob h.nodup_active hmem
    · exact ⟨job, hjob, hupdate job hjob hid⟩
    · exact ⟨job', hold, continues_frame (.refl s job'.jobId)⟩
  · intro job' hmem
    rw [hremoved] at hmem
    exact .inl hmem

/-- One active job is updated, and only its books change. -/
theorem Sim.updateActive (h : Sim errorFree maxInFlight s) {job : ActiveLiveJob}
    (hjob : job ∈ s.activeJobs) {update : ActiveLiveJob → ActiveLiveJob}
    (hupdateId : ∀ job, (update job).jobId = job.jobId)
    (hupdate : Continues errorFree maxInFlight s s' false job (update job))
    (hnext : s'.nextJobId = s.nextJobId) (holder : s'.Older s.nextJobId)
    (haccounts : ∀ jobId, s.Accounts jobId → s'.Accounts jobId)
    (hframe : ∀ jobId, jobId ≠ job.jobId → Frame s s' jobId)
    (hactive : s'.activeJobs = updateJob job.jobId update s.activeJobs)
    (hremoved : s'.removedJobs = s.removedJobs) : Sim errorFree maxInFlight s' := by
  refine h.next hnext ?_ holder (fun _ _ => haccounts _) ?_ ?_ ?_
  · rw [jobs, hactive, hremoved, jobs, List.map_append, map_jobId_updateJob hupdateId,
      List.map_append]
  · intro gone hgone
    apply hframe
    intro heq
    have hnodup := h.nodup
    rw [jobs, List.map_append] at hnodup
    exact List.disjoint_of_nodup_append hnodup (List.mem_map_of_mem hjob)
      (heq ▸ List.mem_map_of_mem hgone)
  · intro job' hmem
    rw [hactive] at hmem
    obtain ⟨old, hold, hid, rfl⟩ | ⟨hold, hne⟩ := mem_updateJob h.nodup_active hmem
    · obtain rfl := List.inj_on_of_nodup_map h.nodup_active hold hjob hid
      exact ⟨old, hold, hupdate⟩
    · exact ⟨job', hold, continues_frame (hframe job'.jobId hne)⟩
  · intro job' hmem
    rw [hremoved] at hmem
    exact .inl hmem

/-- Only the books change. -/
theorem Sim.books (h : Sim errorFree maxInFlight s) (hnext : s'.nextJobId = s.nextJobId)
    (holder : s'.Older s.nextJobId) (haccounts : ∀ jobId, s.Accounts jobId → s'.Accounts jobId)
    (hframe : ∀ jobId, Frame s s' jobId) (hactive : s'.activeJobs = s.activeJobs)
    (hremoved : s'.removedJobs = s.removedJobs) : Sim errorFree maxInFlight s' := by
  refine h.next hnext ?_ holder (fun _ _ => haccounts _) (fun job _ => hframe job.jobId) ?_ ?_
  · rw [jobs, hactive, hremoved, jobs]
  · intro job hmem
    rw [hactive] at hmem
    exact ⟨job, hmem, continues_frame (hframe job.jobId)⟩
  · intro job hmem
    rw [hremoved] at hmem
    exact .inl hmem

theorem Sim.sameJobs (h : Sim errorFree maxInFlight s) (hsame : SameWork s s')
    (hactive : s'.activeJobs = s.activeJobs) (hremoved : s'.removedJobs = s.removedJobs) :
    Sim errorFree maxInFlight s' :=
  h.books hsame.nextJobId (hsame.older h.older) (fun _ => hsame.accounts) hsame.frame hactive
    hremoved

/-! ### Work that is sent -/

theorem tickets_append {new : List NpuJob} (hworkers : s'.atWorkers = s.atWorkers ++ new)
    (hresults : s'.resultRx = s.resultRx) :
    s'.tickets = s.tickets + Multiset.map NpuJob.ticket new := by
  rw [tickets, hworkers, hresults, ← Multiset.coe_add, Multiset.map_add, tickets]
  exact add_right_comm _ _ _

theorem ticketsOf_append {new : List NpuJob} (hworkers : s'.atWorkers = s.atWorkers ++ new)
    (hresults : s'.resultRx = s.resultRx) (jobId : Nat) : s'.ticketsOf jobId = s.ticketsOf jobId +
      (Multiset.map NpuJob.ticket new).filter fun ticket => ticket.jobId = jobId := by
  rw [ticketsOf, tickets_append hworkers hresults, Multiset.filter_add, ticketsOf]

theorem unanswered_append {new : List NpuJob} (hworkers : s'.atWorkers = s.atWorkers ++ new)
    (jobId : Nat) : s'.unanswered jobId =
      s.unanswered jobId + Multiset.filterMap (windowOf jobId) (new : Multiset NpuJob) := by
  rw [unanswered, hworkers, ← Multiset.coe_add, Multiset.filterMap_add, unanswered]

theorem filterMap_windowOf_vad (jobs : List VadJob) (jobId : Nat) :
    Multiset.filterMap (windowOf jobId) (jobs.map NpuJob.vad : List NpuJob) = 0 := by
  rw [Multiset.filterMap_coe]
  simp [windowOf]

theorem filterMap_windowOf_whisper (windows : List WhisperJob) (jobId : Nat) :
    Multiset.filterMap (windowOf jobId) (windows.map NpuJob.whisper : List NpuJob) =
      Multiset.map WhisperJob.windowIndex
        (windows.filter fun window => decide (window.jobId = jobId) : List WhisperJob) := by
  rw [Multiset.filterMap_coe, Multiset.map_coe]
  congr 1
  induction windows with
  | nil => rfl
  | cons window windows ih =>
      by_cases hid : window.jobId = jobId
      · simp [windowOf, hid, ih]
      · simp [windowOf, hid, ih]

/-- Work for one job adds no ticket of another. -/
theorem filter_tickets_eq_zero {new : List NpuJob} {jobId : Nat}
    (hnew : ∀ job ∈ new, job.jobId ≠ jobId) :
    (Multiset.map NpuJob.ticket new).filter (fun ticket => ticket.jobId = jobId) = 0 := by
  rw [Multiset.filter_eq_nil]
  intro ticket hmem
  obtain ⟨job, hjob, rfl⟩ := Multiset.mem_map.mp hmem
  rw [NpuJob.jobId_ticket]
  exact hnew job hjob

theorem older_append {bound : Nat} (holder : s.Older bound) {new : List NpuJob}
    {windows : List WhisperJob} (hworkers : s'.atWorkers = s.atWorkers ++ new)
    (hresults : s'.resultRx = s.resultRx) (hsent : s'.sent = s.sent ++ windows)
    (hanswered : s'.answered = s.answered) (hnew : ∀ job ∈ new, job.jobId < bound)
    (hwindows : ∀ job ∈ windows, job.jobId < bound) : s'.Older bound := by
  refine ⟨?_, ?_, ?_⟩
  · rw [tickets_append hworkers hresults]
    intro ticket hmem
    obtain hold | hmem := Multiset.mem_add.mp hmem
    · exact holder.tickets ticket hold
    · obtain ⟨job, hjob, rfl⟩ := Multiset.mem_map.mp hmem
      rw [NpuJob.jobId_ticket]
      exact hnew job hjob
  · rw [hsent]
    exact List.forall_mem_append.mpr ⟨holder.sent, hwindows⟩
  · rw [hanswered]
    exact holder.answered

theorem Sim.sendVadAt (h : Sim errorFree maxInFlight s) {idx : Nat} {job : ActiveLiveJob}
    (hidx : s.activeJobs[idx]? = some job) (hready : job.hasVadReady = true) (sent : Bool) :
    Sim errorFree maxInFlight (s.sendVadAt idx job sent) := by
  have hjob : job ∈ s.activeJobs := List.mem_of_getElem? hidx
  obtain ⟨config, hconfig, -⟩ := ActiveLiveJob.hasVadReady_iff.mp hready
  have hnew : ∀ npuJob ∈ (job.sendVadJob sent).1.toList.map NpuJob.vad,
      npuJob.jobId = job.jobId := by
    intro npuJob hmem
    obtain ⟨vadJob, hmem, rfl⟩ := List.mem_map.mp hmem
    rw [ActiveLiveJob.sendVadJob_of_ready hconfig hready] at hmem
    cases sent with
    | false => simp at hmem
    | true =>
        obtain rfl : vadJob = job.vadJobAt config := by simpa using hmem
        rfl
  have hbound : job.jobId < s.nextJobId := h.ids job (List.mem_append_left _ hjob)
  have hworkers : (s.sendVadAt idx job sent).atWorkers =
      s.atWorkers ++ (job.sendVadJob sent).1.toList.map NpuJob.vad := rfl
  refine @Sim.updateActive _ _ _ _ h _ hjob (fun job => (job.sendVadJob sent).2)
    (fun job => jobId_sendVadJob job sent) ?_ rfl ?_ ?_ ?_ ?_ rfl
  · refine continues_sendVad hready sent ?_ rfl (List.Subset.refl _)
    rw [ticketsOf_append hworkers rfl]
    exact add_le_add_right (Multiset.filter_le _ _) _
  · refine older_append h.older hworkers rfl (List.append_nil _).symm rfl ?_ ?_
    · intro npuJob hmem
      rw [hnew npuJob hmem]
      exact hbound
    · exact fun _ hmem => absurd hmem List.not_mem_nil
  · intro jobId haccounts
    refine ⟨haccounts.received, ?_⟩
    rw [unanswered_append hworkers, filterMap_windowOf_vad, add_zero]
    exact haccounts.once
  · intro jobId hne
    refine ⟨?_, rfl, List.Subset.refl _⟩
    rw [ticketsOf_append hworkers rfl, filter_tickets_eq_zero, add_zero]
    intro npuJob hmem
    rw [hnew npuJob hmem]
    exact hne.symm
  · exact @set_eq_updateJob (fun job => (job.sendVadJob sent).2) _ h.nodup_active _ _ hidx

theorem jobId_of_dispatched {job : ActiveLiveJob} (hmay : job.mayDispatch maxInFlight = true)
    (sent : Bool) :
    ∀ window ∈ (job.dispatchToWorker sent).1.toList, window.jobId = job.jobId := by
  obtain ⟨-, -, plan, hplan⟩ := ActiveLiveJob.mayDispatch_iff.mp hmay
  intro window hmem
  rw [ActiveLiveJob.dispatchToWorker_eq hplan] at hmem
  cases sent with
  | false => simp at hmem
  | true =>
      obtain rfl : window = job.whisperJob plan := by simpa using hmem
      rfl

theorem Sim.dispatchAt (h : Sim errorFree maxInFlight s) {idx : Nat} {job : ActiveLiveJob}
    (hidx : s.activeJobs[idx]? = some job) (hready : job.hasVadReady = false)
    (hmay : job.mayDispatch maxInFlight = true) (sent : Bool) :
    Sim errorFree maxInFlight (s.dispatchAt idx job sent) := by
  have hjob : job ∈ s.activeJobs := List.mem_of_getElem? hidx
  have hwindow := jobId_of_dispatched hmay sent
  have hnew : ∀ npuJob ∈ (job.dispatchToWorker sent).1.toList.map NpuJob.whisper,
      npuJob.jobId = job.jobId := by
    intro npuJob hmem
    obtain ⟨window, hmemWindow, rfl⟩ := List.mem_map.mp hmem
    exact hwindow window hmemWindow
  have hbound : job.jobId < s.nextJobId := h.ids job (List.mem_append_left _ hjob)
  have hworkers : (s.dispatchAt idx job sent).atWorkers =
      s.atWorkers ++ (job.dispatchToWorker sent).1.toList.map NpuJob.whisper := rfl
  have hsent : ∀ jobId, (s.dispatchAt idx job sent).sentTo jobId = s.sentTo jobId ++
      (job.dispatchToWorker sent).1.toList.filter fun window => decide (window.jobId = jobId) :=
    fun jobId => List.filter_append _ _
  refine @Sim.updateActive _ _ _ _ h _ hjob (fun job => (job.dispatchToWorker sent).2)
    (fun job => jobId_dispatchToWorker job sent) ?_ rfl ?_ ?_ ?_ ?_ rfl
  · refine continues_dispatch hready hmay sent ?_ ?_ (List.Subset.refl _)
    · rw [ticketsOf_append hworkers rfl]
      exact add_le_add_right (Multiset.filter_le _ _) _
    · rw [hsent, List.filter_eq_self.mpr]
      intro window hmem
      exact decide_eq_true (hwindow window hmem)
  · refine older_append h.older hworkers rfl rfl rfl ?_ ?_
    · intro npuJob hmem
      rw [hnew npuJob hmem]
      exact hbound
    · intro window hmem
      rw [hwindow window hmem]
      exact hbound
  · intro jobId haccounts
    refine ⟨haccounts.received, ?_⟩
    rw [unanswered_append hworkers, hsent, filterMap_windowOf_whisper, ← Multiset.coe_add,
      Multiset.map_add, add_right_comm]
    exact add_le_add_left haccounts.once _
  · intro jobId hne
    refine ⟨?_, ?_, List.Subset.refl _⟩
    · rw [ticketsOf_append hworkers rfl, filter_tickets_eq_zero, add_zero]
      intro npuJob hmem
      rw [hnew npuJob hmem]
      exact hne.symm
    · rw [hsent, List.filter_eq_nil_iff.mpr, List.append_nil]
      intro window hmem
      rw [hwindow window hmem, decide_eq_true_eq]
      exact hne.symm
  · exact @set_eq_updateJob (fun job => (job.dispatchToWorker sent).2) _ h.nodup_active _ _ hidx

theorem Sim.dispatchReady (h : Sim errorFree maxInFlight s) (sent : Bool) :
    Sim errorFree maxInFlight (s.dispatchReadyLiveWindow maxInFlight sent) := by
  -- Where the cursor stands is of no account here.
  have hcursor : ∀ cursor, Sim errorFree maxInFlight { s with dispatchCursor := cursor } :=
    fun _ => h.sameJobs ⟨rfl, rfl, rfl, rfl, rfl⟩ rfl rfl
  rw [dispatchReadyLiveWindow]
  split
  · rename_i idx cursor hscan
    obtain ⟨job, hidx, hready⟩ := scanJobs_some hscan
    rw [hidx]
    exact (hcursor cursor).sendVadAt hidx hready sent
  · rename_i cursor hnone
    split
    · rename_i idx cursor' hscan
      obtain ⟨job, hidx, hmay⟩ := scanJobs_some hscan
      rw [hidx]
      have hready := scanJobs_none hnone job (List.mem_of_getElem? hidx)
      exact (hcursor cursor').dispatchAt hidx hready hmay sent
    · exact hcursor _

/-! ### Results that come back -/

/-- The first result has been taken; the jobs may have moved on. -/
structure Received (s s' : Scheduler) (result : Except Error NpuResult) : Prop where
  nextJobId : s'.nextJobId = s.nextJobId
  atWorkers : s'.atWorkers = s.atWorkers
  resultRx : s.resultRx = result :: s'.resultRx
  sent : s'.sent = s.sent
  answered : s'.answered = s.answered

namespace Received

variable {result : Except Error NpuResult}

theorem tickets (h : Received s s' result) :
    s.tickets = ((resultTicket result).toList : Multiset Ticket) + s'.tickets := by
  rw [Scheduler.tickets, Scheduler.tickets, h.resultRx, h.atWorkers, add_left_comm]
  congr 1
  cases hticket : resultTicket result with
  | none => simp [hticket]
  | some ticket => simp [hticket]

theorem accounts (h : Received s s' result) {jobId : Nat} (haccounts : s.Accounts jobId) :
    s'.Accounts jobId := by
  refine ⟨?_, ?_⟩
  · intro answer hmem hid
    have hbefore := haccounts.received answer (h.resultRx ▸ List.mem_cons_of_mem _ hmem) hid
    rwa [answersTo, h.answered]
  · rw [unanswered, answersTo, sentTo, h.atWorkers, h.answered, h.sent]
    exact haccounts.once

theorem older (h : Received s s' result) {bound : Nat} (holder : s.Older bound) :
    s'.Older bound := by
  refine ⟨?_, ?_, ?_⟩
  · intro ticket hmem
    apply holder.tickets
    rw [h.tickets]
    exact Multiset.mem_add.mpr (.inr hmem)
  · rw [h.sent]
    exact holder.sent
  · rw [h.answered]
    exact holder.answered

theorem frame (h : Received s s' result) (jobId : Nat) : Frame s s' jobId := by
  refine ⟨?_, ?_, ?_⟩
  · rw [ticketsOf, ticketsOf, h.tickets, Multiset.filter_add]
    exact Multiset.le_add_left _ _
  · rw [sentTo, h.sent, sentTo]
  · rw [answersTo, answersTo, h.answered]
    exact List.Subset.refl _

theorem ticketsOf {result : NpuResult} (h : Received s s' (.ok result)) :
    s.ticketsOf result.jobId = result.ticket ::ₘ s'.ticketsOf result.jobId := by
  rw [Scheduler.ticketsOf, Scheduler.ticketsOf, h.tickets]
  have hticket : ((resultTicket (.ok result)).toList : Multiset Ticket) = {result.ticket} := rfl
  rw [hticket, Multiset.singleton_add, Multiset.filter_cons_of_pos]
  exact result.jobId_ticket

end Received

theorem updateJob_of_forall_ne {jobs : List ActiveLiveJob} (h : ∀ job ∈ jobs, job.jobId ≠ jobId) :
    updateJob jobId update jobs = jobs := by
  induction jobs with
  | nil => rfl
  | cons job jobs ih =>
      rw [List.forall_mem_cons] at h
      rw [updateJob, if_neg h.1, ih h.2]

/-- A result reaches the job it belongs to, or none. -/
theorem Sim.receiveOk (h : Sim errorFree maxInFlight s) {result : NpuResult}
    (hreceived : Received s s' (.ok result))
    {update : ActiveLiveJob → ActiveLiveJob} (hupdateId : ∀ job, (update job).jobId = job.jobId)
    (hupdate : ∀ job ∈ s.activeJobs, job.jobId = result.jobId →
      Continues errorFree maxInFlight s s' false job (update job))
    (hactive : s'.activeJobs = updateJob result.jobId update s.activeJobs)
    (hremoved : s'.removedJobs = s.removedJobs) : Sim errorFree maxInFlight s' := by
  by_cases howner : ∃ job ∈ s.activeJobs, job.jobId = result.jobId
  · obtain ⟨job, hjob, hid⟩ := howner
    rw [← hid] at hactive
    exact h.updateActive hjob hupdateId (hupdate job hjob hid) hreceived.nextJobId
      (hreceived.older h.older) (fun _ => hreceived.accounts) (fun jobId _ => hreceived.frame jobId)
      hactive hremoved
  · have hne : ∀ job ∈ s.activeJobs, job.jobId ≠ result.jobId :=
      fun job hjob hid => howner ⟨job, hjob, hid⟩
    rw [updateJob_of_forall_ne hne] at hactive
    exact h.books hreceived.nextJobId (hreceived.older h.older) (fun _ => hreceived.accounts)
      hreceived.frame hactive hremoved

/-- An error ends every active job. -/
theorem Sim.abortAll (h : Sim errorFree maxInFlight s) (hsame : SameWork s s') (error : Error)
    (hactive : s'.activeJobs = [])
    (hremoved : s'.removedJobs = s.removedJobs ++
      s.activeJobs.map fun job => job.send [.finished (.error error)]) :
    Sim errorFree maxInFlight s' := by
  refine h.sameWork hsame ?_ ?_ ?_
  · have hids : (s.activeJobs.map fun job => job.send [.finished (.error error)]).map
        ActiveLiveJob.jobId = s.activeJobs.map ActiveLiveJob.jobId := by
      rw [List.map_map]
      rfl
    simp only [jobs, hactive, hremoved, List.nil_append, List.map_append, hids]
    exact List.perm_append_comm
  · intro job' hmem
    rw [hactive] at hmem
    cases hmem
  · intro job' hmem
    rw [hremoved] at hmem
    obtain hstays | hnew := List.mem_append.mp hmem
    · exact .inl hstays
    · obtain ⟨job, hjob, rfl⟩ := List.mem_map.mp hnew
      exact .inr ⟨job, hjob, continues_abort error⟩

theorem Sim.receiveResult (h : Sim errorFree maxInFlight s) {result : Except Error NpuResult}
    {resultRx : List (Except Error NpuResult)} (hresults : s.resultRx = result :: resultRx) :
    Sim errorFree maxInFlight ({ s with resultRx }.receiveResult result) := by
  cases result with
  | error error =>
      have hreceived : Received s { s with resultRx } (.error error) :=
        ⟨rfl, rfl, hresults, rfl, rfl⟩
      have hrest : Sim errorFree maxInFlight { s with resultRx } :=
        h.books rfl (hreceived.older h.older) (fun _ => hreceived.accounts) hreceived.frame rfl rfl
      exact hrest.abortAll ⟨rfl, rfl, rfl, rfl, rfl⟩ (.other error.text) rfl rfl
  | ok result =>
      cases result with
      | whisper result =>
          have hreceived : Received s ({ s with resultRx }.receiveResult (.ok (.whisper result)))
              (.ok (.whisper result)) := ⟨rfl, rfl, hresults, rfl, rfl⟩
          refine h.receiveOk hreceived (fun job => jobId_handleResult job result.transcription) ?_
            rfl rfl
          intro job hjob hid
          have hid : job.jobId = result.jobId := hid
          have hanswer : result.transcription ∈ s.answersTo job.jobId :=
            (h.accounts job (List.mem_append_left _ hjob)).received result
              (hresults ▸ List.mem_cons_self) hid.symm
          refine continues_whisperResult ?_ rfl (List.Subset.refl _) hanswer
          rw [hid]
          exact hreceived.ticketsOf
      | vad result =>
          have hreceived : Received s ({ s with resultRx }.receiveResult (.ok (.vad result)))
              (.ok (.vad result)) := ⟨rfl, rfl, hresults, rfl, rfl⟩
          have hupdateId : ∀ job : ActiveLiveJob, (job.handleVadResult result).jobId = job.jobId :=
            fun _ => rfl
          refine h.receiveOk hreceived hupdateId ?_ rfl rfl
          intro job hjob hid
          have hid : job.jobId = result.jobId := hid
          refine continues_vadResult ?_ rfl (List.Subset.refl _)
          rw [hid]
          exact hreceived.ticketsOf

end Scheduler

end RkWhisper
