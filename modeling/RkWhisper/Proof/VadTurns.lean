import RkWhisper.Lib.RoundRobin
import RkWhisper.Proof.SchedulerRun

/-!
# Whose turn it is

`dispatch_ready_live_window` gives each idle worker to the next job in turn that waits for voice
activity detection. Jobs come and go meanwhile, and a job that goes moves the others under the cursor;
even so no job waits longer than a round for each job that goes, and a round more.
-/

namespace RkWhisper

open Transition RoundRobin

/-! ### What a job keeps while it waits -/

/-- The next VAD window of a job is not an earlier one, and while it is the same one, what waited for
it still does. -/
structure Keeps (job job' : ActiveLiveJob) : Prop where
  jobId : job'.jobId = job.jobId
  window : job'.nextVadWindowIndex = job.nextVadWindowIndex
  ready : job.hasVadReady = true → job'.hasVadReady = true

namespace Keeps

variable {job job' job'' : ActiveLiveJob} {maxInFlight : Nat}

theorem trans (h : Keeps job job') (h' : Keeps job' job'') : Keeps job job'' where
  jobId := h'.jobId.trans h.jobId
  window := h'.window.trans h.window
  ready := fun hready => h'.ready (h.ready hready)

/-- More audio, or the end of it, is no obstacle. -/
theorem of_grown (hid : job'.jobId = job.jobId)
    (hwindow : job'.nextVadWindowIndex = job.nextVadWindowIndex)
    (hconfig : job'.vadConfig = job.vadConfig) (hidle : job'.vadInFlight = job.vadInFlight)
    (hscanned : job'.vadProcessedSamples = job.vadProcessedSamples)
    (haudio : job.audioBuffer.length ≤ job'.audioBuffer.length)
    (hclosed : job.producerClosed = true → job'.producerClosed = true) : Keeps job job' := by
  refine ⟨hid, hwindow, fun hready => ?_⟩
  obtain ⟨config, hsome, hfree, hmore, hwhole⟩ := ActiveLiveJob.hasVadReady_iff.mp hready
  refine ActiveLiveJob.hasVadReady_iff.mpr ⟨config, hconfig.trans hsome, hidle.trans hfree, ?_, ?_⟩
  · omega
  · obtain hwindow | hend := hwhole
    · left
      omega
    · exact .inr (hclosed hend)

theorem drain (maxInFlight : Nat) (job : ActiveLiveJob) :
    Keeps job (job.drainLiveChunks maxInFlight) := by
  obtain ⟨chunkRx, closed, hdrain, hclosed, -⟩ := job.drainLiveChunks_spec maxInFlight
  rw [hdrain]
  refine of_grown rfl rfl rfl rfl rfl ?_ hclosed
  rw [List.length_append]
  omega

/-- A job that waits has audio that is not scanned, which is not dropped as silence. -/
theorem refresh (job : ActiveLiveJob) : Keeps job job.refreshSpeechState := by
  obtain hsame | ⟨config, hsilent⟩ := job.refreshSpeechState_cases
  · rw [hsame]
    exact ⟨rfl, rfl, id⟩
  · rw [ActiveLiveJob.refreshSpeechState_of_silent hsilent]
    refine ⟨rfl, rfl, fun hready => ?_⟩
    obtain ⟨-, -, -, hmore, -⟩ := ActiveLiveJob.hasVadReady_iff.mp hready
    exact absurd hmore (not_lt.mpr hsilent.scanned)

theorem whisperResult (job : ActiveLiveJob) (result : WindowTranscription) :
    Keeps job (job.handleResult result) := by
  obtain ⟨emitted, pending, hjob, -⟩ := job.handleResult_spec result
  rw [hjob]
  exact of_grown rfl rfl rfl rfl rfl le_rfl id

/-- Only a job with a VAD window at a worker takes a VAD result. -/
theorem vadResult (hbusy : job.vadInFlight = true) (result : VadResult) :
    Keeps job (job.handleVadResult result) := by
  refine ⟨rfl, rfl, fun hready => ?_⟩
  obtain ⟨-, -, hidle, -⟩ := ActiveLiveJob.hasVadReady_iff.mp hready
  exact absurd (hbusy.symm.trans hidle) (by decide)

/-- Whisper windows go out only when nobody waits. -/
theorem dispatch (hready : job.hasVadReady = false) (sent : Bool) :
    Keeps job (job.dispatchToWorker sent).2 := by
  have hnever : job.hasVadReady ≠ true := by
    rw [hready]
    exact Bool.false_ne_true
  cases hplan : job.nextDispatchPlan with
  | none =>
      rw [ActiveLiveJob.dispatchToWorker, hplan]
      exact ⟨rfl, rfl, id⟩
  | some plan =>
      rw [ActiveLiveJob.dispatchToWorker_eq hplan]
      cases sent with
      | true => exact ⟨rfl, rfl, fun h => absurd h hnever⟩
      | false => exact ⟨rfl, rfl, fun h => absurd h hnever⟩

/-- A job that waits has audio, and is not complete. -/
theorem not_complete (hready : job.hasVadReady = true) : job.isComplete = false := by
  obtain ⟨-, -, -, hmore, -⟩ := ActiveLiveJob.hasVadReady_iff.mp hready
  have hnonempty : job.audioBuffer.isEmpty = false := by
    rw [← Bool.not_eq_true, List.isEmpty_iff]
    rintro hnil
    rw [hnil] at hmore
    exact absurd hmore (Nat.not_lt_zero _)
  rw [ActiveLiveJob.isComplete, hnonempty, Bool.and_false, Bool.false_and, Bool.false_and]

end Keeps

namespace Scheduler

variable {config : ConcurrencyConfig} {maxInFlight : Nat} {s s' : Scheduler}

/-! ### Lists of jobs -/

theorem scanJobs_eq_scan (suits : ActiveLiveJob → Bool) (jobs : List ActiveLiveJob)
    (rounds cursor : Nat) : scanJobs suits jobs rounds cursor =
      scan (fun idx => (jobs[idx]?.map suits).getD false) jobs.length rounds cursor := by
  induction rounds generalizing cursor with
  | zero => rfl
  | succ rounds ih => rw [scanJobs, scan, ih]

theorem length_updateJob (jobId : Nat) (update : ActiveLiveJob → ActiveLiveJob)
    (jobs : List ActiveLiveJob) : (updateJob jobId update jobs).length = jobs.length := by
  induction jobs with
  | nil => rfl
  | cons job jobs ih =>
      rw [updateJob]
      split
      · rfl
      · rw [List.length_cons, ih, List.length_cons]

theorem getElem?_updateJob (jobId : Nat) (update : ActiveLiveJob → ActiveLiveJob)
    {jobs : List ActiveLiveJob} {position : Nat} {job : ActiveLiveJob}
    (hjob : jobs[position]? = some job) :
    (updateJob jobId update jobs)[position]? = some job ∨
      job.jobId = jobId ∧ (updateJob jobId update jobs)[position]? = some (update job) := by
  induction jobs generalizing position with
  | nil => cases hjob
  | cons first jobs ih =>
      rw [updateJob]
      split
      · rename_i hid
        cases position with
        | zero =>
            obtain rfl := Option.some.inj hjob
            exact .inr ⟨hid, rfl⟩
        | succ position => exact .inl hjob
      · cases position with
        | zero => exact .inl hjob
        | succ position => exact ih hjob

theorem length_removeCompletedJobs (jobs : List ActiveLiveJob) :
    (removeCompletedJobs jobs).1.length + (removeCompletedJobs jobs).2.length = jobs.length := by
  have hperm := (perm_removeCompletedJobs jobs).length_eq
  rwa [List.length_map, List.length_append, List.length_map] at hperm

/-- A job that is not complete stays, and where none is removed, it stays in its place. -/
theorem getElem?_removeCompletedJobs {jobs : List ActiveLiveJob} {position : Nat}
    {job : ActiveLiveJob} (hjob : jobs[position]? = some job) (hopen : job.isComplete = false) :
    ∃ position', (removeCompletedJobs jobs).1[position']? = some job ∧
      ((removeCompletedJobs jobs).2 = [] → position' = position) := by
  induction jobs generalizing position with
  | nil => cases hjob
  | cons first jobs ih =>
      rw [removeCompletedJobs, ActiveLiveJob.finishIfComplete]
      by_cases hcomplete : first.isComplete = true
      · rw [if_pos hcomplete]
        cases position with
        | zero =>
            obtain rfl := Option.some.inj hjob
            exact absurd (hcomplete.symm.trans hopen) (by decide)
        | succ position =>
            obtain ⟨position', hstays, -⟩ := ih hjob
            exact ⟨position', hstays, fun hnil => absurd hnil (List.cons_ne_nil _ _)⟩
      · rw [if_neg hcomplete]
        cases position with
        | zero => exact ⟨0, hjob, fun _ => rfl⟩
        | succ position =>
            obtain ⟨position', hstays, hplace⟩ := ih hjob
            exact ⟨position' + 1, hstays, fun hnil => congrArg Nat.succ (hplace hnil)⟩

/-! ### What a step does to the jobs -/

/-- `turns` counts the idle workers that the step gives away. -/
inductive Change (maxActive : Nat) (s s' : Scheduler) : Nat → Prop
  | update (jobId : Nat) (change : ActiveLiveJob → ActiveLiveJob)
      (hkeeps : ∀ job ∈ s.activeJobs, job.jobId = jobId → Keeps job (change job))
      (hactive : s'.activeJobs = updateJob jobId change s.activeJobs)
      (hremoved : s'.removedJobs = s.removedJobs) (hcursor : s'.dispatchCursor = s.dispatchCursor) :
      Change maxActive s s' 0
  | remove (change : ActiveLiveJob → ActiveLiveJob) (hkeeps : ∀ job, Keeps job (change job))
      (hactive : s'.activeJobs = (removeCompletedJobs (s.activeJobs.map change)).1)
      (hremoved : s'.removedJobs =
        s.removedJobs ++ (removeCompletedJobs (s.activeJobs.map change)).2)
      (hcursor : s'.dispatchCursor = s.dispatchCursor) : Change maxActive s s' 0
  | add (job : ActiveLiveJob) (hroom : s.activeJobs.length < maxActive)
      (hactive : s'.activeJobs = s.activeJobs ++ [job])
      (hremoved : s'.removedJobs = s.removedJobs) (hcursor : s'.dispatchCursor = s.dispatchCursor) :
      Change maxActive s s' 0
  | abort (error : Error) (hphase : s'.phase = .exited) (hactive : s'.activeJobs = [])
      (hremoved : s'.removedJobs = s.removedJobs ++
        s.activeJobs.map fun job => job.send [.finished (.error error)]) : Change maxActive s s' 0
  | vadTurn (idx : Nat) (job : ActiveLiveJob) (sent : Bool) (hjob : s.activeJobs[idx]? = some job)
      (hready : job.hasVadReady = true)
      (hscan : scanJobs ActiveLiveJob.hasVadReady s.activeJobs s.activeJobs.length
        s.dispatchCursor = (some idx, s'.dispatchCursor))
      (hactive : s'.activeJobs = s.activeJobs.set idx (job.sendVadJob sent).2)
      (hremoved : s'.removedJobs = s.removedJobs) : Change maxActive s s' 1
  | idle (hnobody : ∀ job ∈ s.activeJobs, job.hasVadReady = false)
      (hactive : s'.activeJobs = s.activeJobs) (hremoved : s'.removedJobs = s.removedJobs) :
      Change maxActive s s' 1
  | whisperTurn (jobId : Nat) (change : ActiveLiveJob → ActiveLiveJob)
      (hnobody : ∀ job ∈ s.activeJobs, job.hasVadReady = false)
      (hkeeps : ∀ job ∈ s.activeJobs, job.jobId = jobId → Keeps job (change job))
      (hactive : s'.activeJobs = updateJob jobId change s.activeJobs)
      (hremoved : s'.removedJobs = s.removedJobs) : Change maxActive s s' 1

def Event.turns : Event → Nat
  | .ready _ => 1
  | _ => 0

/-- A step that leaves the jobs alone. -/
theorem Change.same {maxActive : Nat} (hactive : s'.activeJobs = s.activeJobs)
    (hremoved : s'.removedJobs = s.removedJobs) (hcursor : s'.dispatchCursor = s.dispatchCursor) :
    Change maxActive s s' 0 := by
  refine .update 0 id (fun _ _ _ => ⟨rfl, rfl, id⟩) ?_ hremoved hcursor
  rw [hactive]
  induction s.activeJobs with
  | nil => rfl
  | cons job jobs ih =>
      rw [updateJob]
      split
      · rfl
      · rw [← ih]

/-- A VAD result goes to a job that has a VAD window at a worker. -/
theorem Sim.busy_of_vadResult {errorFree : Prop} (h : Sim errorFree maxInFlight s)
    {result : VadResult} (hresult : .ok (.vad result) ∈ s.resultRx) {job : ActiveLiveJob}
    (hjob : job ∈ s.activeJobs) (hid : job.jobId = result.jobId) : job.vadInFlight = true := by
  obtain ⟨run, rfl, -, htracks⟩ := h.active job hjob
  have hticket : (NpuResult.vad result).ticket ∈ s.ticketsOf run.job.jobId := by
    refine Multiset.mem_filter.mpr ⟨?_, hid.symm⟩
    refine Multiset.mem_add.mpr (.inr (Multiset.mem_coe.mpr ?_))
    exact List.mem_filterMap.mpr ⟨_, hresult, rfl⟩
  obtain ⟨vadJob, hvadJob, -⟩ :=
    LiveRun.mem_tickets_vad (Multiset.mem_of_le htracks.tickets hticket)
  rw [htracks.genuine.slot, hvadJob, Option.isSome_some]

theorem change_of_dispatch {maxActive : Nat} {errorFree : Prop} (h : Sim errorFree maxInFlight s)
    (sent : Bool) : Change maxActive s
      { s.dispatchReadyLiveWindow maxInFlight sent with phase := .tail } 1 := by
  rw [dispatchReadyLiveWindow]
  split
  · rename_i idx cursor hscan
    obtain ⟨job, hidx, hready⟩ := scanJobs_some hscan
    rw [hidx]
    exact .vadTurn idx job sent hidx hready hscan rfl rfl
  · rename_i cursor hnone
    have hnobody := scanJobs_none hnone
    split
    · rename_i idx cursor' hscan
      obtain ⟨job, hidx, -⟩ := scanJobs_some hscan
      rw [hidx]
      have hset := @set_eq_updateJob (fun job => (job.dispatchToWorker sent).2) _ h.nodup_active
        idx job hidx
      refine .whisperTurn job.jobId _ hnobody ?_ hset rfl
      exact fun job hjob _ => Keeps.dispatch (hnobody job hjob) sent
    · exact .idle hnobody rfl rfl

/-- **What one step does to the jobs.** -/
theorem Sim.change {errorFree : Prop} {event : Event} (h : Sim errorFree config.maxInFlight s)
    (hstep : Step config s event s') :
    Change config.maxActiveJobsPerModel s s' event.turns := by
  cases event with
  | head =>
      obtain ⟨-, hnext⟩ := Option.ite_some_none_eq_some.mp hstep
      subst hnext
      exact .remove _ (Keeps.drain config.maxInFlight) rfl rfl rfl
  | newJob job =>
      obtain ⟨⟨-, hroom⟩, hnext⟩ := Option.ite_some_none_eq_some.mp hstep
      subst hnext
      exact .add _ hroom rfl rfl rfl
  | ready sent =>
      obtain ⟨-, hnext⟩ := Option.ite_some_none_eq_some.mp hstep
      subst hnext
      exact change_of_dispatch h sent
  | result =>
      rw [Step, Scheduler.step] at hstep
      split at hstep
      · split at hstep
        · cases hstep
        · rename_i result resultRx hresults
          cases hstep
          cases result with
          | error error => exact .abort (.other error.text) rfl rfl rfl
          | ok result =>
              cases result with
              | whisper result =>
                  exact .update result.jobId _
                    (fun job _ _ => Keeps.whisperResult job result.transcription) rfl rfl rfl
              | vad result =>
                  have hmem : .ok (.vad result) ∈ s.resultRx := by
                    rw [hresults]
                    exact List.mem_cons_self
                  exact .update result.jobId _ (fun job hjob hid =>
                    Keeps.vadResult (h.busy_of_vadResult hmem hjob hid) result) rfl rfl rfl
      · cases hstep
  | sleep =>
      obtain ⟨-, hnext⟩ := Option.ite_some_none_eq_some.mp hstep
      subst hnext
      exact .same rfl rfl rfl
  | tail =>
      obtain ⟨-, hnext⟩ := Option.ite_some_none_eq_some.mp hstep
      subst hnext
      have hmap : (s.activeJobs.map (ActiveLiveJob.drainLiveChunks config.maxInFlight)).map
          ActiveLiveJob.refreshSpeechState = s.activeJobs.map fun job =>
            (job.drainLiveChunks config.maxInFlight).refreshSpeechState := List.map_map
      refine .remove _ (fun job => (Keeps.drain config.maxInFlight job).trans (Keeps.refresh _))
        ?_ ?_ rfl
      · rw [Scheduler.tailStep, hmap]
      · rw [Scheduler.tailStep, hmap]
  | arrive jobId chunk =>
      obtain ⟨-, hnext⟩ := Option.ite_some_none_eq_some.mp hstep
      subst hnext
      refine .update jobId _ ?_ rfl rfl rfl
      exact fun _ _ _ => .of_grown rfl rfl rfl rfl rfl le_rfl id
  | hangUp jobId =>
      obtain rfl := Option.some.inj hstep
      refine .update jobId _ ?_ rfl rfl rfl
      exact fun _ _ _ => .of_grown rfl rfl rfl rfl rfl le_rfl id
  | answerVad job probability state =>
      obtain ⟨-, hnext⟩ := Option.ite_some_none_eq_some.mp hstep
      subst hnext
      exact .same rfl rfl rfl
  | answerWhisper job text segments =>
      obtain ⟨-, hnext⟩ := Option.ite_some_none_eq_some.mp hstep
      subst hnext
      exact .same rfl rfl rfl
  | fail failed error =>
      obtain ⟨-, hnext⟩ := Option.ite_some_none_eq_some.mp hstep
      subst hnext
      exact .same rfl rfl rfl

/-! ### What follows for one job -/

section Changes

variable {maxActive turns bound : Nat} {jobId window : Nat}

theorem Change.length_le (h : Change maxActive s s' turns) (hmax : maxActive ≤ bound)
    (hlength : s.activeJobs.length ≤ bound) : s'.activeJobs.length ≤ bound := by
  cases h with
  | update jobId change hkeeps hactive => rwa [hactive, length_updateJob]
  | remove change hkeeps hactive =>
      have hsplit := length_removeCompletedJobs (s.activeJobs.map change)
      rw [List.length_map] at hsplit
      rw [hactive]
      omega
  | add job hroom hactive =>
      rw [hactive, List.length_append, List.length_singleton]
      omega
  | abort error hphase hactive =>
      rw [hactive]
      exact Nat.zero_le _
  | vadTurn idx job sent hjob hready hscan hactive => rwa [hactive, List.length_set]
  | idle hnobody hactive => rwa [hactive]
  | whisperTurn jobId change hnobody hkeeps hactive => rwa [hactive, length_updateJob]

/-- The job has been given a worker for this window or a later one. -/
def Served (jobId window : Nat) (s : Scheduler) : Prop :=
  ∃ job ∈ s.jobs, job.jobId = jobId ∧ window < job.nextVadWindowIndex

theorem exists_updateJob {change : ActiveLiveJob → ActiveLiveJob} {jobs : List ActiveLiveJob}
    (hkeeps : ∀ job ∈ jobs, job.jobId = jobId → Keeps job (change job)) {job : ActiveLiveJob}
    (hjob : job ∈ jobs) : ∃ job' ∈ updateJob jobId change jobs, Keeps job job' := by
  obtain ⟨position, hposition⟩ := List.mem_iff_getElem?.mp hjob
  obtain hsame | ⟨hid, hchanged⟩ := getElem?_updateJob jobId change hposition
  · exact ⟨job, List.mem_of_getElem? hsame, rfl, rfl, id⟩
  · exact ⟨change job, List.mem_of_getElem? hchanged, hkeeps job hjob hid⟩

theorem exists_removeCompletedJobs {jobs : List ActiveLiveJob} {job : ActiveLiveJob}
    (hjob : job ∈ jobs) : ∃ job' ∈ (removeCompletedJobs jobs).1 ++ (removeCompletedJobs jobs).2,
      job'.jobId = job.jobId ∧ job'.nextVadWindowIndex = job.nextVadWindowIndex := by
  induction jobs with
  | nil => cases hjob
  | cons first jobs ih =>
      rw [removeCompletedJobs, ActiveLiveJob.finishIfComplete]
      split
      · rename_i first' hfinish
        split at hfinish <;> cases hfinish
        obtain rfl | hjob := List.mem_cons.mp hjob
        · exact ⟨_, List.mem_append_right _ List.mem_cons_self, rfl, rfl⟩
        · obtain ⟨job', hmem, hsame⟩ := ih hjob
          refine ⟨job', ?_, hsame⟩
          obtain hkept | hgone := List.mem_append.mp hmem
          · exact List.mem_append_left _ hkept
          · exact List.mem_append_right _ (List.mem_cons_of_mem _ hgone)
      · rename_i first' hfinish
        split at hfinish <;> cases hfinish
        obtain rfl | hjob := List.mem_cons.mp hjob
        · exact ⟨_, List.mem_append_left _ List.mem_cons_self, rfl, rfl⟩
        · obtain ⟨job', hmem, hsame⟩ := ih hjob
          exact ⟨job', List.mem_cons_of_mem _ hmem, hsame⟩

/-- No job goes back to an earlier window. -/
theorem Served.change (h : Served jobId window s) (hchange : Change maxActive s s' turns) :
    Served jobId window s' := by
  obtain ⟨job, hjob, hid, hwindow⟩ := h
  -- It is enough that the job, if it is active, goes on as one with the same window or a later one.
  have hgoes : (∀ job ∈ s.removedJobs, job ∈ s'.jobs) →
      (∀ job ∈ s.activeJobs, ∃ job' ∈ s'.jobs, job'.jobId = job.jobId ∧
        job.nextVadWindowIndex ≤ job'.nextVadWindowIndex) → Served jobId window s' := by
    intro hremoved hactive
    obtain hmem | hmem := List.mem_append.mp hjob
    · obtain ⟨job', hmem', hid', hlater⟩ := hactive job hmem
      exact ⟨job', hmem', hid'.trans hid, hwindow.trans_le hlater⟩
    · exact ⟨job, hremoved job hmem, hid, hwindow⟩
  have hupdated : ∀ {owner : Nat} {change : ActiveLiveJob → ActiveLiveJob},
      (∀ job ∈ s.activeJobs, job.jobId = owner → Keeps job (change job)) →
      s'.activeJobs = updateJob owner change s.activeJobs → s'.removedJobs = s.removedJobs →
      Served jobId window s' := by
    intro owner change hkeeps hactive hremoved
    rw [jobs, hactive, hremoved] at hgoes
    refine hgoes (fun job hmem => List.mem_append_right _ hmem) fun job hmem => ?_
    obtain ⟨job', hmem', hkept⟩ := exists_updateJob hkeeps hmem
    exact ⟨job', List.mem_append_left _ hmem', hkept.jobId, hkept.window.ge⟩
  cases hchange with
  | update owner change hkeeps hactive hremoved => exact hupdated hkeeps hactive hremoved
  | whisperTurn owner change hnobody hkeeps hactive hremoved =>
      exact hupdated hkeeps hactive hremoved
  | remove change hkeeps hactive hremoved =>
      rw [jobs, hactive, hremoved] at hgoes
      refine hgoes (fun job hmem => ?_) fun job hmem => ?_
      · exact List.mem_append_right _ (List.mem_append_left _ hmem)
      · obtain ⟨job', hmem', hid', hsame⟩ := exists_removeCompletedJobs (List.mem_map_of_mem hmem)
        refine ⟨job', ?_, hid'.trans (hkeeps job).jobId, (hsame.trans (hkeeps job).window).ge⟩
        obtain hkept | hgone := List.mem_append.mp hmem'
        · exact List.mem_append_left _ hkept
        · exact List.mem_append_right _ (List.mem_append_right _ hgone)
  | add job hroom hactive hremoved =>
      rw [jobs, hactive, hremoved] at hgoes
      refine hgoes (fun job hmem => List.mem_append_right _ hmem) fun job hmem => ?_
      exact ⟨job, List.mem_append_left _ (List.mem_append_left _ hmem), rfl, le_rfl⟩
  | abort error hphase hactive hremoved =>
      rw [jobs, hactive, hremoved, List.nil_append] at hgoes
      refine hgoes (fun job hmem => List.mem_append_left _ hmem) fun job hmem => ?_
      exact ⟨_, List.mem_append_right _ (List.mem_map_of_mem hmem), rfl, le_rfl⟩
  | vadTurn idx first sent hfirst hready hscan hactive hremoved =>
      rw [jobs, hactive, hremoved] at hgoes
      refine hgoes (fun job hmem => List.mem_append_right _ hmem) fun job hmem => ?_
      obtain ⟨position, hposition⟩ := List.mem_iff_getElem?.mp hmem
      obtain ⟨config, hconfig, -⟩ := ActiveLiveJob.hasVadReady_iff.mp hready
      by_cases hsame : idx = position
      · subst hsame
        obtain rfl := Option.some.inj (hfirst.symm.trans hposition)
        have hlt := (List.getElem?_eq_some_iff.mp hfirst).1
        refine ⟨_, List.mem_append_left _ (List.mem_set hlt _), ?_⟩
        rw [ActiveLiveJob.sendVadJob_of_ready hconfig hready]
        exact ⟨rfl, Nat.le_succ _⟩
      · have hstays : (s.activeJobs.set idx (first.sendVadJob sent).2)[position]? = some job := by
          rw [List.getElem?_set_ne hsame, hposition]
        exact ⟨job, List.mem_append_left _ (List.mem_of_getElem? hstays), rfl, le_rfl⟩
  | idle hnobody hactive hremoved =>
      rw [jobs, hactive, hremoved] at hgoes
      refine hgoes (fun job hmem => List.mem_append_right _ hmem) fun job hmem => ?_
      exact ⟨job, List.mem_append_left _ hmem, rfl, le_rfl⟩

/-- The job at `position` waits for a worker for this window. -/
structure WaitsAt (jobId window : Nat) (s : Scheduler) (position : Nat) (job : ActiveLiveJob) :
    Prop where
  place : s.activeJobs[position]? = some job
  jobId : job.jobId = jobId
  window : job.nextVadWindowIndex = window
  ready : job.hasVadReady = true

theorem WaitsAt.lt {position : Nat} {job : ActiveLiveJob}
    (h : WaitsAt jobId window s position job) : position < s.activeJobs.length :=
  (List.getElem?_eq_some_iff.mp h.place).1

theorem WaitsAt.keeps {position position' : Nat} {job job' : ActiveLiveJob}
    (h : WaitsAt jobId window s position job) (hkeeps : Keeps job job')
    (hjob : s'.activeJobs[position']? = some job') : WaitsAt jobId window s' position' job' where
  place := hjob
  jobId := hkeeps.jobId.trans h.jobId
  window := hkeeps.window.trans h.window
  ready := hkeeps.ready h.ready

/-- While the job waits, `turns` workers have gone to others and `gone` jobs have gone. -/
structure InTurn (jobId window bound turns gone : Nat) (s : Scheduler) : Prop where
  within : ∃ position job, WaitsAt jobId window s position job ∧
    turns + 1 + wait s.activeJobs.length s.dispatchCursor position ≤
      gone * bound + s.activeJobs.length

/-- **One step while a job waits.** -/
theorem InTurn.change {past gone : Nat} (h : InTurn jobId window bound past gone s)
    (hchange : Change maxActive s s' turns) (hlength : s.activeJobs.length ≤ bound) :
    Served jobId window s' ∨ (s'.phase = .exited ∧ s'.activeJobs = []) ∨
      ∃ more, s'.removedJobs.length = s.removedJobs.length + more ∧
        InTurn jobId window bound (past + turns) (gone + more) s' := by
  obtain ⟨position, job, hwaits, hwithin⟩ := h.within
  have hlt := hwaits.lt
  cases hchange with
  | update owner change hkeeps hactive hremoved hcursor =>
      refine .inr (.inr ⟨0, by rw [hremoved, Nat.add_zero], ?_⟩)
      obtain hsame | ⟨hid, hchanged⟩ := getElem?_updateJob owner change hwaits.place
      · refine ⟨position, job, hwaits.keeps ⟨rfl, rfl, id⟩ (hactive ▸ hsame), ?_⟩
        rwa [hactive, length_updateJob, hcursor]
      · have hkept := hkeeps job (List.mem_of_getElem? hwaits.place) hid
        refine ⟨position, _, hwaits.keeps hkept (hactive ▸ hchanged), ?_⟩
        rwa [hactive, length_updateJob, hcursor]
  | remove change hkeeps hactive hremoved hcursor =>
      refine .inr (.inr ⟨_, by rw [hremoved, List.length_append], ?_⟩)
      have hchanged : (s.activeJobs.map change)[position]? = some (change job) := by
        rw [List.getElem?_map, hwaits.place, Option.map_some]
      have hopen := Keeps.not_complete ((hkeeps job).ready hwaits.ready)
      obtain ⟨position', hstays, hplace⟩ := getElem?_removeCompletedJobs hchanged hopen
      have hsplit := length_removeCompletedJobs (s.activeJobs.map change)
      rw [List.length_map] at hsplit
      have hwaits' : WaitsAt jobId window s' position' (change job) :=
        hwaits.keeps (hkeeps job) (hactive ▸ hstays)
      have hlt' := hwaits'.lt
      refine ⟨position', _, hwaits', ?_⟩
      rw [hactive] at hlt' ⊢
      cases hgone : (removeCompletedJobs (s.activeJobs.map change)).2 with
      | nil =>
          rw [hgone, List.length_nil, Nat.add_zero] at hsplit
          rw [hplace hgone, hsplit, hcursor]
          exact hwithin
      | cons first rest =>
          rw [hgone, List.length_cons] at hsplit
          have hbelow := @wait_lt _ s'.dispatchCursor _ hlt'
          have hround : bound ≤ (rest.length + 1) * bound :=
            Nat.le_mul_of_pos_left bound (Nat.succ_pos _)
          rw [List.length_cons, Nat.add_mul gone]
          generalize (rest.length + 1) * bound = rounds at hround ⊢
          omega
  | add new hroom hactive hremoved hcursor =>
      refine .inr (.inr ⟨0, by rw [hremoved, Nat.add_zero], ?_⟩)
      have hstays : s'.activeJobs[position]? = some job := by
        rw [hactive, List.getElem?_append_left hlt, hwaits.place]
      have hgrown := @wait_grow _ s.dispatchCursor _ hlt
      refine ⟨position, job, hwaits.keeps ⟨rfl, rfl, id⟩ hstays, ?_⟩
      rw [hactive, List.length_append, List.length_singleton, hcursor, Nat.add_zero gone]
      omega
  | abort error hphase hactive => exact .inr (.inl ⟨hphase, hactive⟩)
  | vadTurn idx first sent hfirst hready hscan hactive hremoved =>
      have hsuits : (s.activeJobs[position]?.map ActiveLiveJob.hasVadReady).getD false = true := by
        rw [hwaits.place]
        exact hwaits.ready
      have hnear := @distance_le_wait _ s.dispatchCursor _ hlt
      obtain ⟨idx', cursor', hscan', -, hcursor, hcloser⟩ :=
        @scan_of_suits s.activeJobs.length s.dispatchCursor position
          (fun idx => (s.activeJobs[idx]?.map ActiveLiveJob.hasVadReady).getD false) hlt hsuits _
          (distance_lt hlt)
      rw [scanJobs_eq_scan, hscan'] at hscan
      obtain ⟨hidx, rfl⟩ := Prod.mk.inj hscan
      obtain rfl := Option.some.inj hidx
      by_cases hmine : idx' = position
      · subst hmine
        obtain rfl := Option.some.inj (hfirst.symm.trans hwaits.place)
        obtain ⟨config, hconfig, -⟩ := ActiveLiveJob.hasVadReady_iff.mp hready
        refine .inl ⟨(first.sendVadJob sent).2, ?_, ?_⟩
        · exact List.mem_append_left _ (hactive ▸ List.mem_set hlt _)
        · rw [ActiveLiveJob.sendVadJob_of_ready hconfig hready]
          exact ⟨hwaits.jobId, hwaits.window ▸ Nat.lt_succ_self _⟩
      · refine .inr (.inr ⟨0, by rw [hremoved, Nat.add_zero], ?_⟩)
        have hstays : s'.activeJobs[position]? = some job := by
          rw [hactive, List.getElem?_set_ne hmine, hwaits.place]
        have hnearer := hcloser hmine
        refine ⟨position, job, hwaits.keeps ⟨rfl, rfl, id⟩ hstays, ?_⟩
        rw [hactive, List.length_set, wait_of_lt hcursor, Nat.add_zero gone]
        omega
  | idle hnobody =>
      have hready := hnobody job (List.mem_of_getElem? hwaits.place)
      exact absurd (hready.symm.trans hwaits.ready) Bool.false_ne_true
  | whisperTurn owner change hnobody =>
      have hready := hnobody job (List.mem_of_getElem? hwaits.place)
      exact absurd (hready.symm.trans hwaits.ready) Bool.false_ne_true

end Changes

/-! ### The run -/

/-- The workers that have gone to jobs in this run. -/
def turns (events : List Event) : Nat := (events.map Event.turns).sum

theorem turns_snoc (events : List Event) (event : Event) :
    turns (events ++ [event]) = turns events + event.turns := by
  rw [turns, List.map_append, List.sum_append, List.map_singleton, List.sum_singleton, turns]

/-- Where the loop has ended, nothing begins again. -/
theorem exited_step {event : Event} (hphase : s.phase = .exited) (hactive : s.activeJobs = [])
    (hstep : Step config s event s') : s'.phase = .exited ∧ s'.activeJobs = [] := by
  cases event with
  | hangUp jobId =>
      obtain rfl := Option.some.inj hstep
      refine ⟨hphase, ?_⟩
      simp only [hactive, updateJob]
  | arrive jobId chunk => simp [Step, step, hactive] at hstep
  | answerVad job probability state =>
      obtain ⟨-, hnext⟩ := Option.ite_some_none_eq_some.mp hstep
      exact hnext ▸ ⟨hphase, hactive⟩
  | answerWhisper job text segments =>
      obtain ⟨-, hnext⟩ := Option.ite_some_none_eq_some.mp hstep
      exact hnext ▸ ⟨hphase, hactive⟩
  | fail failed error =>
      obtain ⟨-, hnext⟩ := Option.ite_some_none_eq_some.mp hstep
      exact hnext ▸ ⟨hphase, hactive⟩
  | _ => simp [Step, step, hphase] at hstep

variable {jobId : Nat} {job : ModelJob} {vadEnabled : Bool} {leftover : Leftover jobId}
  {events more : List Event}

theorem length_activeJobs_le
    (h : Run (Step config) (start jobId job vadEnabled leftover) events s) :
    s.activeJobs.length ≤ max 1 config.maxActiveJobsPerModel := by
  have hinv := h.invariant (P := fun _ s => Sim False config.maxInFlight s ∧
    s.activeJobs.length ≤ max 1 config.maxActiveJobsPerModel)
    ⟨Sim.start .., le_max_left _ _⟩ fun _ _ _ _ hinv hstep =>
      ⟨hinv.1.step False.elim hstep, (hinv.1.change hstep).length_le (le_max_right _ _) hinv.2⟩
  exact hinv.2

/-- **Nobody is passed over for long.** From the moment that a job waits for a worker to detect
speech in its next window, in every run: the job has been given a worker for it, or a worker's error
has ended all jobs, or it still waits, and then fewer workers have been given away meanwhile than
there are jobs now, plus as many as there may be jobs for each job that has gone. -/
theorem vad_turn_of_run (h : Run (Step config) (start jobId job vadEnabled leftover) events s)
    {waiting : ActiveLiveJob} (hwaiting : waiting ∈ s.activeJobs)
    (hready : waiting.hasVadReady = true) (hmore : Run (Step config) s more s') :
    (∃ job ∈ s'.jobs, job.jobId = waiting.jobId ∧
        waiting.nextVadWindowIndex < job.nextVadWindowIndex) ∨
      (s'.phase = .exited ∧ s'.activeJobs = []) ∨
      ((∃ job ∈ s'.activeJobs, job.jobId = waiting.jobId ∧
          job.nextVadWindowIndex = waiting.nextVadWindowIndex ∧ job.hasVadReady = true) ∧
        ∃ gone, s'.removedJobs.length = s.removedJobs.length + gone ∧
          turns more <
            gone * max 1 config.maxActiveJobsPerModel + s'.activeJobs.length) := by
  have hinv := hmore.invariant (P := fun more s' =>
    Sim False config.maxInFlight s' ∧
    s'.activeJobs.length ≤ max 1 config.maxActiveJobsPerModel ∧
    (Served waiting.jobId waiting.nextVadWindowIndex s' ∨
      (s'.phase = .exited ∧ s'.activeJobs = []) ∨
      ∃ gone, s'.removedJobs.length = s.removedJobs.length + gone ∧
        InTurn waiting.jobId waiting.nextVadWindowIndex (max 1 config.maxActiveJobsPerModel)
          (turns more) gone s')) ?_ ?_
  · obtain ⟨-, -, hserved | hended | ⟨gone, hgone, ⟨position, job, hwaits, hwithin⟩⟩⟩ := hinv
    · exact .inl hserved
    · exact .inr (.inl hended)
    · refine .inr (.inr ⟨⟨job, List.mem_of_getElem? hwaits.place, hwaits.jobId, hwaits.window,
        hwaits.ready⟩, gone, hgone, ?_⟩)
      omega
  · obtain ⟨position, hposition⟩ := List.mem_iff_getElem?.mp hwaiting
    have hwaits : WaitsAt waiting.jobId waiting.nextVadWindowIndex s position waiting :=
      ⟨hposition, rfl, rfl, hready⟩
    have hbelow := @wait_lt _ s.dispatchCursor _ hwaits.lt
    refine ⟨Sim.of_run h, length_activeJobs_le h, .inr (.inr ⟨0, rfl, position, waiting, hwaits, ?_⟩)⟩
    rw [turns, List.map_nil, List.sum_nil]
    omega
  · rintro more s s' event ⟨hsim, hlength, hstate⟩ hstep
    have hchange := hsim.change hstep
    refine ⟨hsim.step False.elim hstep, hchange.length_le (le_max_right _ _) hlength, ?_⟩
    obtain hserved | ⟨hphase, hactive⟩ | ⟨gone, hgone, hturn⟩ := hstate
    · exact .inl (hserved.change hchange)
    · exact .inr (.inl (exited_step hphase hactive hstep))
    · obtain hserved | hended | ⟨new, hnew, hturn'⟩ := hturn.change hchange hlength
      · exact .inl hserved
      · exact .inr (.inl hended)
      · refine .inr (.inr ⟨gone + new, by omega, ?_⟩)
        rw [turns_snoc]
        exact hturn'

/-- Two jobs of one sample each. -/
def twoJobs : List Event := [.head, .newJob sampleJob, .tail, .head]

/-- The second job waits while the first is given a worker. -/
theorem vad_turn_of_run_pair : ∃ s s' waiting,
    Run (Step pairConfig) (start 5 sampleJob true {}) twoJobs s ∧ waiting ∈ s.activeJobs ∧
      waiting.jobId = 6 ∧ waiting.hasVadReady = true ∧
      Run (Step pairConfig) s [.ready true] s' ∧
      ((∃ job ∈ s'.jobs, job.jobId = 6 ∧
          waiting.nextVadWindowIndex < job.nextVadWindowIndex) ∨
        (s'.phase = .exited ∧ s'.activeJobs = []) ∨
        ((∃ job ∈ s'.activeJobs, job.jobId = 6 ∧
            job.nextVadWindowIndex = waiting.nextVadWindowIndex ∧ job.hasVadReady = true) ∧
          ∃ gone, s'.removedJobs.length = s.removedJobs.length + gone ∧
            turns [.ready true] < gone * 2 + s'.activeJobs.length)) := by
  have hruns : (((twoJobs.foldlM (step pairConfig) (start 5 sampleJob true {})).bind fun s =>
      (step pairConfig s (.ready true)).map fun _ =>
        s.activeJobs.map fun job => (job.jobId, job.hasVadReady))) =
          some [(5, true), (6, true)] := by
    decide +kernel
  obtain ⟨s, hfold, hrest⟩ := Option.bind_eq_some_iff.mp hruns
  obtain ⟨s', hstep, hview⟩ := Option.map_eq_some_iff.mp hrest
  have hmem : (6, true) ∈ s.activeJobs.map fun job => (job.jobId, job.hasVadReady) := by
    rw [hview]
    decide
  obtain ⟨waiting, hwaiting, heq⟩ := List.mem_map.mp hmem
  obtain ⟨hid, hready⟩ := Prod.mk.inj heq
  have h : Run (Step pairConfig) (start 5 sampleJob true {}) twoJobs s :=
    Run.of_foldlM (fun _ _ _ hstep => hstep) hfold
  have hmore : Run (Step pairConfig) s [.ready true] s' := .single hstep
  have hturn := vad_turn_of_run h hwaiting hready hmore
  rw [hid] at hturn
  exact ⟨s, s', waiting, h, hwaiting, hid, hready, hmore, hturn⟩

end Scheduler

end RkWhisper
