import RkWhisper.Proof.Undisturbed

/-!
# The backlog of a job

What a job has still to do, with the chunks in its channel: every branch of the scheduler's `select!`
in which no worker refuses a job makes it smaller, and so does a round without a branch when there was
something to do. No step but an arrival makes it larger, whether the channel is closed or not.
-/

namespace RkWhisper

namespace LiveRun

variable {maxInFlight : Nat} {run run' : LiveRun}

/-- A sample in the channel will be in the buffer, and a chunk is taken out of the channel. -/
def backlog (run : LiveRun) : Nat :=
  run.work + 4 * (audioOf run.job.chunkRx.queue).length + run.job.chunkRx.queue.length +
    (!run.job.producerClosed).toNat + (!run.removed).toNat

/-- The branches in which a worker takes or answers a job. A failing Whisper dispatch drops audio. -/
def Event.Serves : Event → Prop
  | .sendVad sent => sent = true
  | .vadResult _ => True
  | .dispatch _ => True
  | .whisperResult _ => True
  | _ => False

theorem backlog_arrive_ok (run : LiveRun) (samples : List F32) :
    (run.next maxInFlight (.arrive (.ok { samples }))).backlog =
      run.backlog + 4 * samples.length + 1 := by
  have hwork : (run.next maxInFlight (.arrive (.ok { samples }))).work = run.work := rfl
  have haudio : audioOf [.ok { samples }] = samples := List.append_nil samples
  rw [backlog, backlog, hwork]
  simp only [next, audioOf_append, haudio, List.length_append, List.length_singleton]
  omega

theorem backlog_hangUp (run : LiveRun) :
    (run.next maxInFlight .hangUp).backlog = run.backlog :=
  rfl

/-- Samples that go from the channel to the buffer weigh the same; each chunk is one less, and so is
the end behind them. -/
theorem backlog_drain_add (maxInFlight : Nat) (run : LiveRun) :
    (run.next maxInFlight .drain).backlog + (run.job.drainedChunks maxInFlight).length +
        (!run.job.producerClosed).toNat ≤
      run.backlog + (!(run.next maxInFlight .drain).job.producerClosed).toNat := by
  obtain ⟨chunkRx, closed, hdrain, -, hqueue⟩ := run.job.drainLiveChunks_spec maxInFlight
  have hlength := congrArg List.length hqueue
  have haudio := congrArg (fun chunks => (audioOf chunks).length) hqueue
  simp only [audioOf_append, List.length_append] at hlength haudio
  simp only [backlog, next, work, hdrain, List.length_append]
  omega

theorem closed_of_disconnected
    (hskip : ¬ (run.job.producerClosed = true ∨ maxInFlight ≤ run.job.inFlight))
    (hend : run.job.chunkRx.disconnected = true) :
    (run.next maxInFlight .drain).job.producerClosed = true := by
  obtain ⟨closed, hfold, -⟩ := ActiveLiveJob.foldl_acceptChunk run.job.chunkRx.queue
    { run.job with chunkRx := { run.job.chunkRx with queue := [] } }
  simp only [next, ActiveLiveJob.drainLiveChunks, if_neg hskip, hfold, if_pos hend]
  rfl

/-- Draining does nothing at all, or takes from the backlog. -/
theorem next_drain_cases (maxInFlight : Nat) (run : LiveRun) :
    run.next maxInFlight .drain = run ∨ (run.next maxInFlight .drain).backlog < run.backlog := by
  have hadd := backlog_drain_add maxInFlight run
  by_cases hskip : run.job.producerClosed = true ∨ maxInFlight ≤ run.job.inFlight
  · refine .inl ?_
    simp only [next, ActiveLiveJob.drainLiveChunks, ActiveLiveJob.drainedChunks, if_pos hskip, audioOf,
      List.flatMap_nil, List.append_nil]
  have hopen : run.job.producerClosed = false := by
    rw [← Bool.not_eq_true]
    exact fun hclosed => hskip (.inl hclosed)
  cases hend : run.job.chunkRx.disconnected with
  | true =>
      have hclosed := closed_of_disconnected hskip hend
      rw [hclosed, hopen] at hadd
      simp only [Bool.not_true, Bool.not_false, Bool.toNat_true, Bool.toNat_false] at hadd
      exact .inr (by omega)
  | false =>
      cases hqueue : run.job.chunkRx.queue with
      | nil => exact .inl (next_drain_of_empty hqueue hend)
      | cons chunk rest =>
          have hdrained : (run.job.drainedChunks maxInFlight).length = rest.length + 1 := by
            rw [ActiveLiveJob.drainedChunks, if_neg hskip, hqueue, List.length_cons]
          have hflag := Bool.toNat_le (!(run.next maxInFlight .drain).job.producerClosed)
          rw [hopen] at hadd
          simp only [Bool.not_false, Bool.toNat_true] at hadd
          exact .inr (by omega)

theorem next_refresh_cases (maxInFlight : Nat) (run : LiveRun) :
    run.next maxInFlight .refresh = run ∨ (run.next maxInFlight .refresh).backlog < run.backlog := by
  obtain hsame | ⟨config, hsilent⟩ := run.job.refreshSpeechState_cases
  · refine .inl ?_
    rw [next, hsame]
  · refine .inr ?_
    have hless := work_clear_lt hsilent
    simp only [backlog, next, ActiveLiveJob.refreshSpeechState_of_silent hsilent,
      ActiveLiveJob.clear] at hless ⊢
    omega

theorem backlog_finish_lt (maxInFlight : Nat) (hremoved : run.removed = false)
    (hcomplete : run.job.isComplete = true) :
    (run.next maxInFlight .finish).backlog < run.backlog := by
  simp only [backlog, next, work, ActiveLiveJob.finishIfComplete, if_pos hcomplete, hremoved,
    ActiveLiveJob.send, Bool.not_true, Bool.not_false, Bool.toNat_true, Bool.toNat_false]
  omega

/-- A worker that takes or answers a job does some of the work. -/
theorem work_lt_of_serves {vad : Option VadConfig} {event : Event} (hinv : AudioInvariant vad run)
    (hwindow : ∀ config ∈ vad, 1 ≤ config.windowSamples) (hdelivery : Delivery maxInFlight run)
    (hserves : event.Serves) (hstep : Step maxInFlight run event run') : work run' < work run := by
  obtain ⟨⟨-, henabled⟩, rfl⟩ := step_eq_some_iff.mp hstep
  cases event with
  | sendVad sent =>
      obtain rfl : sent = true := hserves
      obtain ⟨config, hconfig, hidle, -⟩ := ActiveLiveJob.hasVadReady_iff.mp henabled
      simp only [work, next, ActiveLiveJob.sendVadJob_of_ready hconfig henabled, hidle]
      simp
  | vadResult result =>
      simp only [Enabled] at henabled
      split at henabled
      · rename_i vadJob hjob
        cases hconfig : run.job.vadConfig with
        | none =>
            have hnone := hinv.vadOff (hinv.vadConfig.symm.trans hconfig)
            rw [hnone] at hjob
            cases hjob
        | some config => exact work_record hinv hwindow hjob henabled.2.2 hconfig
      · exact henabled.elim
  | dispatch sent =>
      obtain ⟨-, -, plan, hplan⟩ := ActiveLiveJob.mayDispatch_iff.mp henabled.2
      exact work_cut hinv hwindow hplan sent
  | whisperResult result => exact work_whisperResult hdelivery henabled
  | arrive chunk => exact hserves.elim
  | hangUp => exact hserves.elim
  | drain => exact hserves.elim
  | refresh => exact hserves.elim
  | finish => exact hserves.elim
  | abort error => exact hserves.elim

theorem backlog_lt_of_serves {vad : Option VadConfig} {event : Event}
    (hinv : AudioInvariant vad run) (hwindow : ∀ config ∈ vad, 1 ≤ config.windowSamples)
    (hdelivery : Delivery maxInFlight run) (hserves : event.Serves)
    (hstep : Step maxInFlight run event run') : run'.backlog < run.backlog := by
  have hwork := work_lt_of_serves hinv hwindow hdelivery hserves hstep
  have hremoved := (step_eq_some_iff.mp hstep).1.1
  have hstays : run'.removed = false := by
    rw [← Bool.not_eq_true, removed_step hstep, not_or]
    constructor
    · rintro rfl
      exact hserves
    · rintro ⟨error, rfl⟩
      exact hserves
  have hkeeps : KeepsChannels run run' := by
    apply keepsChannels_of_step hstep
    · rintro chunk rfl
      exact hserves
    · rintro rfl
      exact hserves
    · rintro rfl
      exact hserves
  simp only [backlog, hkeeps.chunkRx, hkeeps.producerClosed, hstays, hremoved]
  omega

/-- A worker that fails takes the job with it. -/
theorem backlog_abort_lt (maxInFlight : Nat) (hremoved : run.removed = false) (error : Error) :
    (run.next maxInFlight (.abort error)).backlog < run.backlog := by
  have hwork : (run.next maxInFlight (.abort error)).work = run.work := rfl
  rw [backlog, backlog, hwork]
  simp only [next, ActiveLiveJob.send, hremoved, Bool.not_true, Bool.not_false, Bool.toNat_true,
    Bool.toNat_false]
  omega

/-! ### A round without a branch -/

/-- `tailStep` without the removal. -/
def round (maxInFlight : Nat) (run : LiveRun) : LiveRun :=
  (run.next maxInFlight .drain).next maxInFlight .refresh

theorem round_cases (maxInFlight : Nat) (run : LiveRun) :
    run.round maxInFlight = run ∨ (run.round maxInFlight).backlog < run.backlog := by
  obtain hdrain | hdrain := run.next_drain_cases maxInFlight
  · rw [round, hdrain]
    exact run.next_refresh_cases maxInFlight
  · obtain hrefresh | hrefresh := (run.next maxInFlight .drain).next_refresh_cases maxInFlight
    · rw [round, hrefresh]
      exact .inr hdrain
    · exact .inr (hrefresh.trans hdrain)

/-- **What a sleep is ended for.** A round after which a job that stirs is not complete takes from its
backlog. -/
theorem backlog_round_lt (hstirs : run.job.stirs maxInFlight = true)
    (hcomplete : (run.round maxInFlight).job.isComplete = false) :
    (run.round maxInFlight).backlog < run.backlog := by
  refine (run.round_cases maxInFlight).resolve_left fun hsame => ?_
  rw [hsame] at hcomplete
  have hdrain : run.next maxInFlight .drain = run := by
    refine (run.next_drain_cases maxInFlight).resolve_right fun hless => ?_
    obtain hrefresh | hrefresh := (run.next maxInFlight .drain).next_refresh_cases maxInFlight
    · rw [round, hrefresh] at hsame
      rw [hsame] at hless
      exact lt_irrefl _ hless
    · have hround := hrefresh.trans hless
      rw [← round, hsame] at hround
      exact lt_irrefl _ hround
  have hrefresh : run.job.refreshSpeechState = run.job := by
    rw [round, hdrain] at hsame
    exact congrArg LiveRun.job hsame
  simp only [ActiveLiveJob.stirs, hrefresh, hcomplete, ne_eq, not_true_eq_false, decide_false,
    Bool.or_false, Bool.and_eq_true, Bool.not_eq_true', decide_eq_true_eq, Bool.or_eq_true,
    Bool.not_eq_true', List.isEmpty_eq_false_iff] at hstirs
  obtain ⟨⟨hopen, hroom⟩, hchannel⟩ := hstirs
  have hskip : ¬ (run.job.producerClosed = true ∨ maxInFlight ≤ run.job.inFlight) := by
    rw [hopen]
    simp [hroom]
  obtain hqueue | hend := hchannel
  · have hadd := backlog_drain_add maxInFlight run
    rw [hdrain, ActiveLiveJob.drainedChunks, if_neg hskip] at hadd
    have hpos := List.length_pos_iff.mpr hqueue
    omega
  · have hclosed := closed_of_disconnected hskip hend
    rw [hdrain, hopen] at hclosed
    cases hclosed

end LiveRun

end RkWhisper
