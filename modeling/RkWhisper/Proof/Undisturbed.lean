import RkWhisper.Proof.Ending
import RkWhisper.Proof.LiveSession
import RkWhisper.Proof.Progress

/-!
# An undisturbed job

As long as no worker fails and the reader sends no error, the job is closed by nothing but the end of
its channel, and removed only when it is closed. A scheduler that finds nothing to do for such a job
is waiting for its reader.
-/

namespace RkWhisper

namespace ActiveLiveJob

theorem closed_of_drainLiveChunks {job : ActiveLiveJob} {maxInFlight : Nat}
    (hchunks : ∀ error, .error error ∉ job.chunkRx.queue)
    (hclosed : (job.drainLiveChunks maxInFlight).producerClosed = true) :
    job.producerClosed = true ∨ job.chunkRx.disconnected = true := by
  by_cases hskip : job.producerClosed = true ∨ maxInFlight ≤ job.inFlight
  · rw [drainLiveChunks, if_pos hskip] at hclosed
    exact .inl hclosed
  · by_cases hend : job.chunkRx.disconnected = true
    · exact .inr hend
    · simp only [drainLiveChunks, if_neg hskip, if_neg hend] at hclosed
      rw [foldl_acceptChunk_of_ok hchunks] at hclosed
      exact .inl hclosed

end ActiveLiveJob

namespace LiveRun

variable {maxInFlight : Nat} {run run' : LiveRun}

structure Undisturbed (maxInFlight : Nat) (run : LiveRun) : Prop where
  delivery : Delivery maxInFlight run
  slot : VadSlot run
  ending : Ending run
  chunks : ∀ error, .error error ∉ run.job.chunkRx.queue
  hungUp : run.job.producerClosed = true → run.job.chunkRx.disconnected = true
  removed : run.removed = true → run.job.producerClosed = true

theorem undisturbed_start (maxInFlight jobId : Nat) (header : RequestHeader) (vadEnabled : Bool) :
    Undisturbed maxInFlight (start jobId header {} vadEnabled) where
  delivery := .start maxInFlight jobId header {} vadEnabled
  slot := rfl
  ending := ⟨fun _ _ => List.not_mem_nil, endsOnce_of_not_mem fun _ => List.not_mem_nil⟩
  chunks _ := List.not_mem_nil
  hungUp h := absurd h Bool.false_ne_true
  removed h := absurd h Bool.false_ne_true

theorem Undisturbed.errorFree (h : Undisturbed maxInFlight run) (event : Event) :
    ErrorFree maxInFlight run event := by
  intro _ error hmem
  obtain ⟨chunkRx, closed, -, -, hqueue⟩ := run.job.drainLiveChunks_spec maxInFlight
  apply h.chunks error
  rw [← hqueue]
  exact List.mem_append_left _ hmem

/-- What a step leaves in the channel was there before it, or arrives. -/
theorem Undisturbed.chunks_step {event : Event} (h : Undisturbed maxInFlight run)
    (hregular : event.Regular) (hstep : Step maxInFlight run event run') (error : Error) :
    .error error ∉ run'.job.chunkRx.queue := by
  by_cases hdrain : event = .drain
  · obtain ⟨-, rfl⟩ := step_eq_some_iff.mp hstep
    subst hdrain
    obtain ⟨chunkRx, closed, hjob, -, hqueue⟩ := run.job.drainLiveChunks_spec maxInFlight
    have hchunks := h.chunks error
    rw [← hqueue] at hchunks
    simp only [next, hjob]
    exact fun hmem => hchunks (List.mem_append_right _ hmem)
  · cases event with
    | arrive chunk =>
        obtain ⟨-, rfl⟩ := step_eq_some_iff.mp hstep
        cases chunk with
        | ok chunk => simpa [next] using h.chunks error
        | error error => exact hregular.elim
    | hangUp =>
        obtain ⟨-, rfl⟩ := step_eq_some_iff.mp hstep
        exact h.chunks error
    | _ =>
        rw [(keepsChannels_of_step hstep (by simp) (by simp) hdrain).chunkRx]
        exact h.chunks error

theorem Undisturbed.hungUp_step {event : Event} (h : Undisturbed maxInFlight run)
    (hstep : Step maxInFlight run event run') (hclosed : run'.job.producerClosed = true) :
    run'.job.chunkRx.disconnected = true := by
  by_cases hhangUp : event = .hangUp
  · obtain ⟨-, rfl⟩ := step_eq_some_iff.mp hstep
    subst hhangUp
    rfl
  · rw [disconnected_step hstep hhangUp]
    by_cases hdrain : event = .drain
    · obtain ⟨-, rfl⟩ := step_eq_some_iff.mp hstep
      subst hdrain
      exact (ActiveLiveJob.closed_of_drainLiveChunks h.chunks hclosed).elim h.hungUp id
    · apply h.hungUp
      cases event with
      | arrive chunk =>
          obtain ⟨-, rfl⟩ := step_eq_some_iff.mp hstep
          exact hclosed
      | hangUp => exact absurd rfl hhangUp
      | _ =>
          rw [← (keepsChannels_of_step hstep (by simp) (by simp) hdrain).producerClosed]
          exact hclosed

theorem producerClosed_of_removed {event : Event} (hregular : event.Regular)
    (hstep : Step maxInFlight run event run')
    (hremoved : run'.removed = true) : run'.job.producerClosed = true := by
  apply producerClosed_of_step hstep
  obtain rfl | ⟨error, rfl⟩ := (LiveRun.removed_step hstep).mp hremoved
  · obtain ⟨⟨-, hcomplete⟩, -⟩ := step_eq_some_iff.mp hstep
    simp only [Enabled, ActiveLiveJob.isComplete, Bool.and_eq_true] at hcomplete
    exact hcomplete.1.1.1
  · exact hregular.elim

theorem Undisturbed.step {event : Event} (h : Undisturbed maxInFlight run)
    (hregular : event.Regular) (hstep : Step maxInFlight run event run') :
    Undisturbed maxInFlight run' where
  delivery := h.delivery.step hstep
  slot := h.slot.step (audioStep hstep)
  ending := h.ending.step (h.errorFree event) hstep
  chunks := h.chunks_step hregular hstep
  hungUp := h.hungUp_step hstep
  removed := producerClosed_of_removed hregular hstep

theorem Undisturbed.of_run {events : List Event} (h : Undisturbed maxInFlight run)
    (hregular : ∀ event ∈ events, event.Regular)
    (hrun : Transition.Run (Step maxInFlight) run events run') : Undisturbed maxInFlight run' :=
  hrun.invariant_of_forall (P := fun _ run => Undisturbed maxInFlight run) hregular h
    fun _ _ _ _ hinv hgood hstep => hinv.step hgood hstep

/-! ### A scheduler with nothing to do -/

/-- No branch of the `select!` is ready, unless a worker fails. -/
def Blocked (maxInFlight : Nat) (run : LiveRun) : Prop :=
  ∀ event : Event, event.Regular → run.mayBranch event = true → ¬ run.Enabled maxInFlight event

/-- What is at the workers can come back, so that nothing is. -/
theorem Blocked.awaited_eq_nil (h : Blocked maxInFlight run) (hdelivery : Delivery maxInFlight run) :
    run.awaited = [] := by
  cases hawaited : run.awaited with
  | nil => rfl
  | cons index rest =>
      have hpos : 0 < run.job.inFlight := by simp [hdelivery.inFlight, hawaited]
      have hmem : index ∈ run.awaited := by
        rw [hawaited]
        exact List.mem_cons_self
      refine absurd ?_ (h (.whisperResult
        { windowIndex := index, absoluteStartSec := ⟨0⟩, text := "", segments := [] }) trivial ?_)
      · exact hmem
      · simp [mayBranch, hpos]

theorem Blocked.vadJob_eq_none (h : Blocked maxInFlight run) (hslot : VadSlot run) :
    run.vadJob = none := by
  cases hjob : run.vadJob with
  | none => rfl
  | some vadJob =>
      have hbusy : run.job.vadInFlight = true := by
        rw [hslot, hjob]
        rfl
      refine absurd ?_ (h (.vadResult
        { jobId := vadJob.jobId, windowIndex := vadJob.windowIndex,
          startSample := vadJob.startSample, probability := ⟨0⟩, state := vadJob.state }) trivial ?_)
      · simp only [Enabled, hjob]
        exact ⟨rfl, rfl, rfl⟩
      · simp [mayBranch, hbusy]

/-- A job at rest has nothing more to do. -/
theorem not_silent_of_not_stirs (h : run.job.stirs maxInFlight = false) (config : VadConfig) :
    ¬ run.job.Silent config := by
  intro hsilent
  have hpos : 0 < run.job.audioBuffer.length := List.length_pos_iff.mpr hsilent.nonempty
  simp only [ActiveLiveJob.stirs, Bool.or_eq_false_iff, decide_eq_false_iff_not, not_not] at h
  have hlength := h.1.2
  rw [ActiveLiveJob.refreshSpeechState_of_silent hsilent] at hlength
  simp only [ActiveLiveJob.clear, List.length_nil] at hlength
  omega

/-- **A scheduler with nothing to do is waiting for its reader.** -/
theorem Blocked.waits_for_reader (h : Blocked maxInFlight run) (hdelivery : Delivery maxInFlight run)
    (hslot : VadSlot run) (hmax : 1 ≤ maxInFlight) (hstirs : run.job.stirs maxInFlight = false) :
    run.job.producerClosed = false ∧ run.job.chunkRx.queue = [] ∧
      run.job.chunkRx.disconnected = false := by
  have hinFlight : run.job.inFlight = 0 := by
    rw [hdelivery.inFlight, h.awaited_eq_nil hdelivery]
    rfl
  have hidle : run.job.vadInFlight = false := by
    rw [hslot, h.vadJob_eq_none hslot]
    rfl
  have hready : run.job.hasVadReady ≠ true := h (.sendVad true) trivial rfl
  have hopen : run.job.producerClosed = false := by
    by_contra hclosed
    rw [Bool.not_eq_false] at hclosed
    obtain hcomplete | hnow | hplan :=
      complete_or_ready hclosed hinFlight hidle (not_silent_of_not_stirs hstirs)
    · simp [ActiveLiveJob.stirs, hcomplete] at hstirs
    · exact hready hnow
    · have hmay : run.job.mayDispatch maxInFlight = true :=
        ActiveLiveJob.mayDispatch_iff.mpr ⟨by omega, hidle, hplan⟩
      exact h (.dispatch true) trivial rfl ⟨Bool.eq_false_of_not_eq_true hready, hmay⟩
  refine ⟨hopen, ?_⟩
  simp only [ActiveLiveJob.stirs, hopen, hinFlight, Bool.or_eq_false_iff] at hstirs
  have hchannel := hstirs.1.1
  simp only [Bool.not_false, Bool.true_and, Bool.and_eq_false_iff, decide_eq_false_iff_not,
    not_lt, Bool.or_eq_false_iff, Bool.not_eq_false', List.isEmpty_iff] at hchannel
  exact hchannel.resolve_left (by omega)

theorem Undisturbed.waits_for_reader (h : Undisturbed maxInFlight run) (hmax : 1 ≤ maxInFlight)
    (hblocked : Blocked maxInFlight run) (hstirs : run.job.stirs maxInFlight = false) :
    run.job.producerClosed = false ∧ run.job.chunkRx.queue = [] ∧
      run.job.chunkRx.disconnected = false :=
  hblocked.waits_for_reader h.delivery h.slot hmax hstirs

end LiveRun

end RkWhisper
