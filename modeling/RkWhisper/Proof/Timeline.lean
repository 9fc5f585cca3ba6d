import RkWhisper.Lib.Transition
import RkWhisper.Proof.LiveStep

/-!
# The timeline of a live job is exact

Buffer, offset, probabilities and VAD cursor are rebased at every cut. In absolute positions none of
them moves: the buffer is what has been accepted from the offset on, the probabilities are those
recorded from the offset on, and the cursor never goes back.
-/

namespace RkWhisper

open Segmentation Transition

namespace VadConfig

variable {config : VadConfig} {audioLen : Nat} {probs : List (Nat × F32)}

theorem windows_stop_le : ∀ window ∈ config.windows audioLen probs, window.stop ≤ audioLen := by
  intro window hmem
  obtain ⟨recorded, -, rfl⟩ := List.mem_map.mp hmem
  exact min_le_right _ _

/-- Windows that keep their distance and begin in the buffer follow each other. -/
theorem ordered_windows (hwindow : 1 ≤ config.windowSamples) {low : Nat}
    (hlow : ∀ r ∈ probs, low ≤ r.1)
    (hspaced : probs.Pairwise fun r r' => r.1 + config.windowSamples ≤ r'.1)
    (hinside : ∀ r ∈ probs, r.1 < audioLen) : Ordered low (config.windows audioLen probs) := by
  induction probs generalizing low with
  | nil => trivial
  | cons recorded probs ih =>
      rw [List.forall_mem_cons] at hlow hinside
      rw [List.pairwise_cons] at hspaced
      refine ⟨hlow.1, ?_, ih ?_ hspaced.2 hinside.2⟩
      · have hstart := hinside.1
        simp only [window]
        omega
      · intro r hmem
        exact (min_le_left _ _).trans (hspaced.1 r hmem)

end VadConfig

namespace LiveRun

variable {maxInFlight : Nat} {config : VadConfig} {run run' : LiveRun} {event : Event}

structure Timeline (run : LiveRun) : Prop where
  offset_le : run.job.absoluteOffsetSamples ≤ run.accepted.length
  buffer : run.job.audioBuffer = run.accepted.drop run.job.absoluteOffsetSamples

/-- The position up to which VAD has seen the stream. -/
def cursor (run : LiveRun) : Nat :=
  run.job.absoluteOffsetSamples + run.job.vadProcessedSamples

theorem cursor_eq (run : LiveRun) :
    run.cursor = run.job.absoluteOffsetSamples + run.job.vadProcessedSamples := rfl

/-- A cut takes the cursor along. -/
theorem cursor_cut (run : LiveRun) (plan : DispatchPlan) (sent : Bool) :
    (run.cut plan sent).cursor =
      max run.cursor (run.job.absoluteOffsetSamples + plan.endSample) := by
  simp only [LiveRun.cut, cursor, ActiveLiveJob.cut]
  omega

/-- The windows begun so far lie behind each other and before the cursor; only the last window of a
closed stream may be a part of one. -/
structure Recording (config : VadConfig) (run : LiveRun) : Prop where
  vadConfig : run.job.vadConfig = some config
  spaced : run.recorded.Pairwise fun r r' => r.1 + config.windowSamples ≤ r'.1
  inside : ∀ r ∈ run.recorded, r.1 < run.accepted.length
  behind : ∀ r ∈ run.recorded, r.1 + config.windowSamples ≤ run.cursor ∨
    (run.job.producerClosed = true ∧ run.accepted.length ≤ run.cursor)
  probs : run.job.probs = (run.recorded.filter fun r =>
      decide (run.job.absoluteOffsetSamples ≤ r.1)).map
    fun r => (r.1 - run.job.absoluteOffsetSamples, r.2)
  cursor_le : run.cursor ≤ run.accepted.length ∨
    (run.job.producerClosed = true ∧ run.job.audioBuffer = [])
  atWorker : ∀ vadJob ∈ run.vadJob, vadJob.startSample = run.job.vadProcessedSamples ∧
    run.job.vadProcessedSamples < run.job.audioBuffer.length ∧
    (run.job.vadProcessedSamples + config.windowSamples ≤ run.job.audioBuffer.length ∨
      run.job.producerClosed = true)

theorem Timeline.length_eq (h : Timeline run) :
    run.job.absoluteOffsetSamples + run.job.audioBuffer.length = run.accepted.length := by
  have hle := h.offset_le
  rw [h.buffer, List.length_drop]
  omega

theorem Timeline.congr (hsame : SameAudio run run') (h : Timeline run) : Timeline run' where
  offset_le := by
    rw [hsame.offset, hsame.accepted]
    exact h.offset_le
  buffer := by
    rw [hsame.audioBuffer, hsame.offset, hsame.accepted]
    exact h.buffer

theorem cursor_congr (hsame : SameAudio run run') : run'.cursor = run.cursor := by
  rw [cursor, hsame.offset, hsame.processed, cursor]

theorem Recording.congr (hsame : SameAudio run run') (h : Recording config run) :
    Recording config run' where
  vadConfig := hsame.vadConfig.trans h.vadConfig
  spaced := by
    rw [hsame.recorded]
    exact h.spaced
  inside := by
    rw [hsame.recorded, hsame.accepted]
    exact h.inside
  behind := by
    rw [hsame.recorded, hsame.accepted, hsame.producerClosed, cursor_congr hsame]
    exact h.behind
  probs := by
    rw [hsame.probs, hsame.recorded, hsame.offset]
    exact h.probs
  cursor_le := by
    rw [cursor_congr hsame, hsame.accepted, hsame.producerClosed, hsame.audioBuffer]
    exact h.cursor_le
  atWorker := by
    rw [hsame.vadJob, hsame.processed, hsame.audioBuffer, hsame.producerClosed]
    exact h.atWorker

/-- The positions in the buffer keep the distance that those in the stream keep. -/
theorem Recording.probs_spaced (h : Recording config run) :
    run.job.probs.Pairwise fun r r' => r.1 + config.windowSamples ≤ r'.1 := by
  rw [h.probs, List.pairwise_map]
  apply List.Pairwise.imp_of_mem _ (h.spaced.filter _)
  intro r r' hmem _ hspaced
  have hoffset := of_decide_eq_true (List.mem_filter.mp hmem).2
  simp only
  omega

theorem Recording.probs_inside (htime : Timeline run) (h : Recording config run) :
    ∀ r ∈ run.job.probs, r.1 < run.job.audioBuffer.length := by
  have hlength := htime.length_eq
  rw [h.probs]
  intro moved hmoved
  obtain ⟨r, hfilter, rfl⟩ := List.mem_map.mp hmoved
  obtain ⟨hmem, hoffset⟩ := List.mem_filter.mp hfilter
  have hbegin := of_decide_eq_true hoffset
  have hinside := h.inside r hmem
  simp only
  omega

/-- The windows of the buffer follow each other. -/
theorem Recording.ordered (hwindow : 1 ≤ config.windowSamples) (htime : Timeline run)
    (h : Recording config run) : Ordered 0 (run.job.windows config) :=
  VadConfig.ordered_windows hwindow (fun _ _ => Nat.zero_le _) h.probs_spaced
    (h.probs_inside htime)

/-- **A plan lies in the buffer, and is at most thirty seconds long.** -/
theorem plan_bounds (htime : Timeline run) (hwindow : ∀ config,
      run.job.vadConfig = some config → 1 ≤ config.windowSamples ∧ Recording config run)
    {plan : DispatchPlan} (hplan : run.job.nextDispatchPlan = some plan) :
    plan.startSample < plan.endSample ∧ plan.endSample ≤ plan.startSample + 480000 ∧
      plan.endSample ≤ run.job.audioBuffer.length := by
  cases hconfig : run.job.vadConfig with
  | none =>
      obtain ⟨hstart, hend, hpos⟩ := ActiveLiveJob.nextDispatchPlan_of_vad_off hconfig hplan
      omega
  | some config =>
      obtain ⟨hpos, hrecording⟩ := hwindow config hconfig
      have hordered := hrecording.ordered hpos htime
      obtain ⟨first, last, hcut⟩ :=
        ActiveLiveJob.exists_cutBehind hconfig hordered VadConfig.windows_stop_le hplan
      exact hcut.bounds hordered VadConfig.windows_stop_le

theorem Timeline.cut (h : Timeline run) (plan : DispatchPlan) (sent : Bool)
    (hle : plan.endSample ≤ run.job.audioBuffer.length) : Timeline (run.cut plan sent) where
  offset_le := by
    have hlength := h.length_eq
    simp only [LiveRun.cut, ActiveLiveJob.cut]
    omega
  buffer := by
    simp only [LiveRun.cut, ActiveLiveJob.cut, h.buffer, List.drop_drop]

theorem Timeline.step (h : Timeline run)
    (hinside : ∀ plan, run.job.hasVadReady = false → run.job.vadInFlight = false →
      run.job.nextDispatchPlan = some plan → plan.endSample ≤ run.job.audioBuffer.length)
    (hstep : AudioStep event run run') : Timeline run' := by
  have hlength := h.length_eq
  cases hstep with
  | same hsame => exact h.congr hsame
  | accept samples closed hclosed hsame =>
      refine Timeline.congr hsame ⟨?_, ?_⟩
      · simp only [accept, List.length_append]
        omega
      · simp only [accept, h.buffer, List.drop_append_of_le_length h.offset_le]
  | clear config hsilent hsame =>
      refine Timeline.congr hsame ⟨?_, ?_⟩
      · simp only [clear, ActiveLiveJob.clear]
        omega
      · simp only [clear, ActiveLiveJob.clear, hlength, List.drop_length]
  | scan config sent hconfig hready hsame =>
      exact Timeline.congr hsame ⟨h.offset_le, h.buffer⟩
  | record vadJob result hjob hstart hsame =>
      exact Timeline.congr hsame ⟨h.offset_le, h.buffer⟩
  | cut plan sent _ hready hidle hplan hsame =>
      exact (h.cut plan sent (hinside plan hready hidle hplan)).congr hsame

/-! ### Recording -/

/-- A VAD job is in flight when it is at a worker. -/
def VadSlot (run : LiveRun) : Prop :=
  run.job.vadInFlight = run.vadJob.isSome

theorem VadSlot.vadJob_eq_none (h : VadSlot run) (hidle : run.job.vadInFlight = false) :
    run.vadJob = none := by
  rw [h] at hidle
  exact Option.not_isSome_iff_eq_none.mp (by rw [hidle]; exact Bool.false_ne_true)

theorem VadSlot.congr (hsame : SameAudio run run') (h : VadSlot run) : VadSlot run' := by
  rw [VadSlot, hsame.vadInFlight, hsame.vadJob]
  exact h

theorem VadSlot.step (h : VadSlot run) (hstep : AudioStep event run run') : VadSlot run' := by
  cases hstep with
  | same hsame => exact .congr hsame h
  | accept samples closed hclosed hsame => exact .congr hsame h
  | clear config hsilent hsame => exact .congr hsame h
  | scan config sent hconfig hready hsame =>
      refine .congr hsame ?_
      cases sent <;> rfl
  | record vadJob result hjob hstart hsame =>
      refine .congr hsame ?_
      rfl
  | cut plan sent _ hready hidle hplan hsame => exact .congr hsame h

theorem Recording.accept (h : Recording config run) (samples : List F32) (closed : Bool)
    (hclosed : run.job.producerClosed = true → samples = [] ∧ closed = true) :
    Recording config (run.accept samples closed) := by
  have hcursor : (run.accept samples closed).cursor = run.cursor := rfl
  refine ⟨h.vadConfig, h.spaced, ?_, ?_, h.probs, ?_, ?_⟩
  · intro r hmem
    have hinside := h.inside r hmem
    simp only [LiveRun.accept, List.length_append]
    omega
  · intro r hmem
    rw [hcursor]
    obtain hbehind | ⟨hold, hle⟩ := h.behind r hmem
    · exact .inl hbehind
    · obtain ⟨rfl, rfl⟩ := hclosed hold
      exact .inr ⟨rfl, by simpa [LiveRun.accept] using hle⟩
  · rw [hcursor]
    obtain hle | ⟨hold, hempty⟩ := h.cursor_le
    · refine .inl ?_
      simp only [LiveRun.accept, List.length_append]
      omega
    · obtain ⟨rfl, rfl⟩ := hclosed hold
      exact .inr ⟨rfl, by simp [LiveRun.accept, hempty]⟩
  · intro vadJob hmem
    obtain ⟨hstart, hlt, hwhole⟩ := h.atWorker vadJob hmem
    simp only [LiveRun.accept, List.length_append]
    refine ⟨hstart, by omega, ?_⟩
    obtain hwhole | hold := hwhole
    · exact .inl (by omega)
    · exact .inr (hclosed hold).2

theorem Recording.clear (htime : Timeline run) (hslot : VadSlot run) (h : Recording config run)
    (hsilent : run.job.Silent config) : Recording config run.clear := by
  have hlength := htime.length_eq
  have hnone := hslot.vadJob_eq_none hsilent.idle
  have hcursor : run.cursor ≤ run.clear.cursor := by
    simp only [LiveRun.clear, cursor, ActiveLiveJob.clear]
    omega
  refine ⟨h.vadConfig, h.spaced, h.inside, ?_, ?_, .inr ⟨hsilent.closed, rfl⟩, ?_⟩
  · intro r hmem
    obtain hbehind | ⟨hclosed, hle⟩ := h.behind r hmem
    · exact .inl (by omega)
    · exact .inr ⟨hclosed, hle.trans hcursor⟩
  · -- Every window recorded so far begins before the new offset.
    have hnil : run.recorded.filter (fun r => decide (run.accepted.length ≤ r.1)) = [] := by
      rw [List.filter_eq_nil_iff]
      intro r hmem
      have hinside := h.inside r hmem
      simpa using hinside
    simp only [LiveRun.clear, ActiveLiveJob.clear, hlength, hnil, List.map_nil]
  · simp [LiveRun.clear, hnone]

theorem Recording.scan (h : Recording config run) (sent : Bool)
    (hready : run.job.hasVadReady = true) : Recording config (run.scan config sent) := by
  obtain ⟨config', hconfig, -, hlt, hwhole⟩ := ActiveLiveJob.hasVadReady_iff.mp hready
  rw [h.vadConfig] at hconfig
  obtain rfl := Option.some.inj hconfig
  refine ⟨h.vadConfig, h.spaced, h.inside, h.behind, h.probs, h.cursor_le, ?_⟩
  intro vadJob hmem
  cases sent with
  | false => simp [LiveRun.scan] at hmem
  | true =>
      obtain rfl : run.job.vadJobAt config = vadJob := by simpa [LiveRun.scan] using hmem
      exact ⟨rfl, hlt, hwhole⟩

theorem Recording.record (htime : Timeline run) (h : Recording config run) {vadJob : VadJob}
    {result : VadResult} (hjob : run.vadJob = some vadJob)
    (hstart : result.startSample = vadJob.startSample) : Recording config (run.record result) := by
  have hlength := htime.length_eq
  obtain ⟨hprocessed, hlt, hwhole⟩ := h.atWorker vadJob hjob
  rw [← hstart] at hprocessed
  have hcursor : (run.record result).cursor = run.job.absoluteOffsetSamples +
      min (run.job.vadProcessedSamples + config.windowSamples) run.job.audioBuffer.length := by
    simp only [LiveRun.record, cursor, ActiveLiveJob.handleVadResult, h.vadConfig, hprocessed]
    rfl
  have hold := run.cursor_eq
  -- The cursor is inside the buffer, so that all windows recorded before are whole.
  have hbehind : ∀ r ∈ run.recorded, r.1 + config.windowSamples ≤ run.cursor := by
    intro r hmem
    obtain hbehind | ⟨-, hle⟩ := h.behind r hmem
    · exact hbehind
    · omega
  have haccepted : (run.record result).accepted = run.accepted := rfl
  refine ⟨h.vadConfig, ?_, ?_, ?_, ?_, .inl (by rw [hcursor, haccepted]; omega),
    by simp [LiveRun.record]⟩
  · simp only [LiveRun.record, hprocessed]
    refine List.pairwise_append.mpr ⟨h.spaced, List.pairwise_singleton _ _, ?_⟩
    intro r hmem r' hmem'
    obtain rfl := List.mem_singleton.mp hmem'
    exact hbehind r hmem
  · simp only [LiveRun.record, hprocessed]
    refine List.forall_mem_append.mpr ⟨h.inside, List.forall_mem_singleton.mpr ?_⟩
    simp only
    omega
  · rw [hcursor]
    simp only [LiveRun.record, hprocessed, ActiveLiveJob.handleVadResult]
    refine List.forall_mem_append.mpr ⟨?_, List.forall_mem_singleton.mpr ?_⟩
    · intro r hmem
      have hle := hbehind r hmem
      exact .inl (by omega)
    · obtain hwhole | hclosed := hwhole
      · exact .inl (by simp only; omega)
      · by_cases hle : run.job.vadProcessedSamples + config.windowSamples ≤
            run.job.audioBuffer.length
        · exact .inl (by simp only; omega)
        · exact .inr ⟨hclosed, by omega⟩
  · simp [LiveRun.record, ActiveLiveJob.handleVadResult, h.probs, hprocessed]

theorem Recording.cut (htime : Timeline run) (hslot : VadSlot run) (h : Recording config run)
    (plan : DispatchPlan) (sent : Bool) (hidle : run.job.vadInFlight = false) (hpos : 0 < plan.endSample)
    (hle : plan.endSample ≤ run.job.audioBuffer.length) :
    Recording config (run.cut plan sent) := by
  have hlength := htime.length_eq
  have hnone := hslot.vadJob_eq_none hidle
  have hold := run.cursor_eq
  refine ⟨h.vadConfig, h.spaced, h.inside, ?_, ?_, ?_, ?_⟩
  · intro r hmem
    rw [cursor_cut]
    obtain hbehind | ⟨hclosed, hle⟩ := h.behind r hmem
    · exact .inl (hbehind.trans (le_max_left _ _))
    · exact .inr ⟨hclosed, hle.trans (le_max_left _ _)⟩
  · have hbehind : ∀ r : Nat × F32,
        (decide (plan.endSample ≤ r.1 - run.job.absoluteOffsetSamples) &&
          decide (run.job.absoluteOffsetSamples ≤ r.1)) =
        decide (run.job.absoluteOffsetSamples + plan.endSample ≤ r.1) := by
      intro r
      rw [← Bool.decide_and, decide_eq_decide]
      omega
    simp only [LiveRun.cut, ActiveLiveJob.cut, h.probs, List.filter_map, List.filter_filter,
      List.map_map, Function.comp_def, hbehind, Nat.sub_sub]
  · rw [cursor_cut]
    obtain hcursorLe | ⟨-, hempty⟩ := h.cursor_le
    · exact .inl (by simp only [LiveRun.cut]; omega)
    · rw [hempty, List.length_nil] at hle
      omega
  · simp [LiveRun.cut, hnone]

theorem Recording.step (htime : Timeline run) (hslot : VadSlot run) (h : Recording config run)
    (hwindow : 1 ≤ config.windowSamples) (hstep : AudioStep event run run') : Recording config run' := by
  cases hstep with
  | same hsame => exact h.congr hsame
  | accept samples closed hclosed hsame => exact (h.accept samples closed hclosed).congr hsame
  | clear config' hsilent hsame =>
      have hconfig := hsilent.config_eq
      rw [h.vadConfig] at hconfig
      obtain rfl := Option.some.inj hconfig
      exact (h.clear htime hslot hsilent).congr hsame
  | scan config' sent hconfig hready hsame =>
      rw [h.vadConfig] at hconfig
      obtain rfl := Option.some.inj hconfig
      exact (h.scan sent hready).congr hsame
  | record vadJob result hjob hstart hsame => exact (h.record htime hjob hstart).congr hsame
  | cut plan sent _ hready hidle hplan hsame =>
      have hbounds := plan_bounds htime (fun config' hconfig => by
        rw [h.vadConfig] at hconfig
        obtain rfl := Option.some.inj hconfig
        exact ⟨hwindow, h⟩) hplan
      exact (h.cut htime hslot plan sent hidle (by omega) hbounds.2.2).congr hsame

/-! ### Windows dispatched -/

/-- The job carries the samples `interval` of the stream, under their time. -/
structure Carries (accepted : List F32) (interval : Interval) (whisperJob : WhisperJob) :
    Prop where
  nonempty : interval.1 < interval.2
  inside : interval.2 ≤ accepted.length
  length_le : interval.2 - interval.1 ≤ nSamples
  samples_eq : whisperJob.samples = (accepted.take interval.2).drop interval.1
  start_eq : whisperJob.absoluteStartSec = samplesToSec interval.1

theorem Carries.append {accepted : List F32} {interval : Interval} {whisperJob : WhisperJob}
    (h : Carries accepted interval whisperJob) (samples : List F32) :
    Carries (accepted ++ samples) interval whisperJob := by
  refine ⟨h.nonempty, ?_, h.length_le, ?_, h.start_eq⟩
  · rw [List.length_append]
    exact h.inside.trans (Nat.le_add_right _ _)
  · rw [List.take_append_of_le_length h.inside]
    exact h.samples_eq

end LiveRun

def DispatchedWindow.interval (window : DispatchedWindow) : Interval :=
  (window.startSample, window.stopSample)

namespace LiveRun

variable {maxInFlight : Nat} {config : VadConfig} {run run' : LiveRun} {event : Event}

/-- The windows dispatched so far, all of them before the offset. -/
structure Dispatching (run : LiveRun) : Prop where
  follow : Follow 0 (run.dispatched.map DispatchedWindow.interval)
  stop_le : ∀ window ∈ run.dispatched, window.stopSample ≤ run.job.absoluteOffsetSamples
  carries : ∀ window ∈ run.dispatched, Carries run.accepted window.interval window.whisperJob

theorem Dispatching.congr (hsame : SameAudio run run') (h : Dispatching run) :
    Dispatching run' where
  follow := by
    rw [hsame.dispatched]
    exact h.follow
  stop_le := by
    rw [hsame.dispatched, hsame.offset]
    exact h.stop_le
  carries := by
    rw [hsame.dispatched, hsame.accepted]
    exact h.carries

theorem carries_window (htime : Timeline run) {plan : DispatchPlan}
    (hstart : plan.startSample < plan.endSample)
    (hlength : plan.endSample ≤ plan.startSample + 480000)
    (hend : plan.endSample ≤ run.job.audioBuffer.length) :
    Carries run.accepted (run.window plan).interval (run.window plan).whisperJob := by
  have htotal := htime.length_eq
  refine ⟨?_, ?_, ?_, ?_, rfl⟩
  · simp only [window, DispatchedWindow.interval]
    omega
  · simp only [window, DispatchedWindow.interval]
    omega
  · have hlimit : nSamples = 480000 := rfl
    simp only [window, DispatchedWindow.interval, hlimit]
    omega
  · simp only [window, DispatchedWindow.interval, ActiveLiveJob.whisperJob, htime.buffer]
    rw [List.take_drop, List.drop_drop]

theorem Dispatching.cut (htime : Timeline run) (h : Dispatching run) {plan : DispatchPlan}
    (sent : Bool) (hstart : plan.startSample < plan.endSample)
    (hlength : plan.endSample ≤ plan.startSample + 480000)
    (hend : plan.endSample ≤ run.job.audioBuffer.length) : Dispatching (run.cut plan sent) := by
  have hoffset : ∀ window ∈ run.dispatched,
      window.stopSample ≤ run.job.absoluteOffsetSamples + plan.startSample :=
    fun window hmem => (h.stop_le window hmem).trans (Nat.le_add_right _ _)
  have hmono : ∀ window ∈ run.dispatched,
      window.stopSample ≤ run.job.absoluteOffsetSamples + plan.endSample :=
    fun window hmem => (h.stop_le window hmem).trans (Nat.le_add_right _ _)
  cases sent with
  | false =>
      simp only [LiveRun.cut, Bool.false_eq_true, if_false, List.append_nil]
      exact ⟨h.follow, hmono, h.carries⟩
  | true =>
      simp only [LiveRun.cut, if_true]
      refine ⟨?_, ?_, ?_⟩
      · rw [List.map_append, List.map_singleton]
        apply h.follow.concat
        · exact Nat.zero_le _
        · simp only [window, DispatchedWindow.interval]
          omega
        · intro interval hmem
          obtain ⟨window, hwindow, rfl⟩ := List.mem_map.mp hmem
          exact hoffset window hwindow
      · exact List.forall_mem_append.mpr ⟨hmono, List.forall_mem_singleton.mpr le_rfl⟩
      · exact List.forall_mem_append.mpr
          ⟨h.carries, List.forall_mem_singleton.mpr (carries_window htime hstart hlength hend)⟩

theorem Dispatching.step (htime : Timeline run) (h : Dispatching run) (hwindow : ∀ config,
      run.job.vadConfig = some config → 1 ≤ config.windowSamples ∧ Recording config run)
    (hstep : AudioStep event run run') : Dispatching run' := by
  cases hstep with
  | same hsame => exact h.congr hsame
  | accept samples closed hclosed hsame =>
      apply Dispatching.congr hsame
      exact ⟨h.follow, h.stop_le, fun window hmem => (h.carries window hmem).append samples⟩
  | clear config hsilent hsame =>
      apply Dispatching.congr hsame
      refine ⟨h.follow, ?_, h.carries⟩
      intro window hmem
      exact (h.stop_le window hmem).trans (Nat.le_add_right _ _)
  | scan config sent hconfig hready hsame =>
      exact Dispatching.congr hsame ⟨h.follow, h.stop_le, h.carries⟩
  | record vadJob result hjob hstart hsame =>
      exact Dispatching.congr hsame ⟨h.follow, h.stop_le, h.carries⟩
  | cut plan sent _ hready hidle hplan hsame =>
      obtain ⟨hstart, hlength, hend⟩ := plan_bounds htime hwindow hplan
      exact (h.cut htime sent hstart hlength hend).congr hsame

/-! ### Runs -/

/-- What holds of the audio of a job in every run. -/
structure AudioInvariant (vad : Option VadConfig) (run : LiveRun) : Prop where
  vadConfig : run.job.vadConfig = vad
  timeline : Timeline run
  recording : ∀ config ∈ vad, Recording config run
  slot : VadSlot run
  vadOff : vad = none → run.vadJob = none
  dispatching : Dispatching run

theorem AudioInvariant.start (jobId : Nat) (header : RequestHeader) (chunkRx : ChunkReceiver)
    (vadEnabled : Bool) : AudioInvariant
      (if vadEnabled then some (VadConfig.ofHeader header) else none)
      (start jobId header chunkRx vadEnabled) := by
  refine ⟨rfl, ⟨le_rfl, rfl⟩, ?_, rfl, fun _ => rfl, ⟨trivial, ?_, ?_⟩⟩
  · intro config hconfig
    refine ⟨hconfig, .nil, ?_, ?_, rfl, .inl le_rfl, ?_⟩ <;> simp [LiveRun.start]
  · simp [LiveRun.start]
  · simp [LiveRun.start]

theorem AudioStep.vadConfig_eq (h : AudioStep event run run') :
    run'.job.vadConfig = run.job.vadConfig := by
  cases h with
  | same hsame => exact hsame.vadConfig
  | accept samples closed hclosed hsame => exact hsame.vadConfig
  | clear config hsilent hsame => exact hsame.vadConfig
  | scan config sent hconfig hready hsame => exact hsame.vadConfig
  | record vadJob result hjob hstart hsame => exact hsame.vadConfig
  | cut plan sent _ hready hidle hplan hsame => exact hsame.vadConfig

theorem AudioStep.vadJob_eq_none (h : AudioStep event run run') (hoff : run.job.vadConfig = none)
    (hnone : run.vadJob = none) : run'.vadJob = none := by
  cases h with
  | same hsame => exact hsame.vadJob.trans hnone
  | accept samples closed hclosed hsame => exact hsame.vadJob.trans hnone
  | clear config hsilent hsame => exact hsame.vadJob.trans hnone
  | scan config sent hconfig hready hsame =>
      rw [hoff] at hconfig
      cases hconfig
  | record vadJob result hjob hstart hsame => exact hsame.vadJob
  | cut plan sent _ hready hidle hplan hsame => exact hsame.vadJob.trans hnone

theorem AudioInvariant.step {vad : Option VadConfig}
    (hwindow : ∀ config ∈ vad, 1 ≤ config.windowSamples) (h : AudioInvariant vad run)
    (hstep : AudioStep event run run') : AudioInvariant vad run' := by
  have hrecording : ∀ config, run.job.vadConfig = some config →
      1 ≤ config.windowSamples ∧ Recording config run := by
    intro config hconfig
    rw [h.vadConfig] at hconfig
    exact ⟨hwindow config hconfig, h.recording config hconfig⟩
  have hinside : ∀ plan, run.job.hasVadReady = false → run.job.vadInFlight = false →
      run.job.nextDispatchPlan = some plan → plan.endSample ≤ run.job.audioBuffer.length :=
    fun plan _ _ hplan => (plan_bounds h.timeline hrecording hplan).2.2
  refine ⟨hstep.vadConfig_eq.trans h.vadConfig, h.timeline.step hinside hstep, ?_,
    h.slot.step hstep, fun hoff => hstep.vadJob_eq_none (h.vadConfig.trans hoff) (h.vadOff hoff),
    h.dispatching.step h.timeline hrecording hstep⟩
  intro config hconfig
  exact (h.recording config hconfig).step h.timeline h.slot (hwindow config hconfig) hstep

theorem windowSamples_pos {header : RequestHeader} {vadEnabled : Bool}
    (hwindow : vadEnabled = true → 1 ≤ (VadConfig.ofHeader header).windowSamples) :
    ∀ config ∈ if vadEnabled then some (VadConfig.ofHeader header) else none,
      1 ≤ config.windowSamples := by
  intro config hmem
  cases vadEnabled with
  | false => cases hmem
  | true =>
      obtain rfl := Option.some.inj hmem
      exact hwindow rfl

theorem audioInvariant {jobId : Nat} {header : RequestHeader} {chunkRx : ChunkReceiver}
    {vadEnabled : Bool} {events : List Event}
    (hwindow : vadEnabled = true → 1 ≤ (VadConfig.ofHeader header).windowSamples)
    (h : Run (Step maxInFlight) (start jobId header chunkRx vadEnabled) events run) :
    AudioInvariant (if vadEnabled then some (VadConfig.ofHeader header) else none) run := by
  have hconfig := windowSamples_pos hwindow
  refine h.invariant (P := fun _ run => AudioInvariant _ run) (.start ..) ?_
  intro _ run event run' hinv hstep
  exact hinv.step hconfig (audioStep hstep)

/-- The chunks that arrive in a run. -/
def arrivals (events : List Event) : List (Except Error LiveChunk) :=
  events.flatMap fun
    | .arrive chunk => [chunk]
    | _ => []

theorem audioOf_append (front back : List (Except Error LiveChunk)) :
    audioOf (front ++ back) = audioOf front ++ audioOf back :=
  List.flatMap_append

/-- Only arrivals, hanging up and draining touch the channel. -/
theorem chunkRx_handleResult (job : ActiveLiveJob) (result : WindowTranscription) :
    (job.handleResult result).chunkRx = job.chunkRx := by
  obtain ⟨emitted, pending, hjob, -⟩ := job.handleResult_spec result
  rw [hjob]

/-- What is accepted and what waits in the channel is what has arrived. -/
theorem accepted_step {event : Event} {arrived : List (Except Error LiveChunk)}
    (h : run.accepted ++ audioOf run.job.chunkRx.queue = audioOf arrived)
    (hstep : Step maxInFlight run event run') :
    run'.accepted ++ audioOf run'.job.chunkRx.queue = audioOf (arrived ++ arrivals [event]) := by
  obtain ⟨⟨-, henabled⟩, rfl⟩ := step_eq_some_iff.mp hstep
  cases event with
  | arrive chunk =>
      simp only [next, arrivals, audioOf_append, List.flatMap_cons, List.flatMap_nil,
        List.append_nil, ← h, List.append_assoc]
  | hangUp => simpa [next, arrivals] using h
  | drain =>
      obtain ⟨rx, closed, hdrain, -, hqueue⟩ := run.job.drainLiveChunks_spec maxInFlight
      have hnone : arrivals [Event.drain] = [] := rfl
      rw [hnone, List.append_nil, ← h]
      simp only [next, hdrain]
      rw [← hqueue, audioOf_append, List.append_assoc]
  | refresh =>
      obtain hsame | ⟨config, hsilent⟩ := run.job.refreshSpeechState_cases
      · simpa [next, hsame, arrivals] using h
      · simpa [next, ActiveLiveJob.refreshSpeechState_of_silent hsilent, arrivals,
          ActiveLiveJob.clear] using h
  | sendVad sent =>
      obtain ⟨config, hconfig, -⟩ := ActiveLiveJob.hasVadReady_iff.mp henabled
      simpa [next, ActiveLiveJob.sendVadJob_of_ready hconfig henabled, arrivals] using h
  | vadResult result => simpa [next, ActiveLiveJob.handleVadResult, arrivals] using h
  | dispatch sent =>
      obtain ⟨-, -, plan, hplan⟩ := ActiveLiveJob.mayDispatch_iff.mp henabled.2
      simp only [next, ActiveLiveJob.dispatchToWorker_eq hplan]
      cases sent <;> simpa [arrivals, ActiveLiveJob.cut, ActiveLiveJob.send,
        ActiveLiveJob.countDispatch] using h
  | whisperResult result => simpa [next, chunkRx_handleResult, arrivals] using h
  | finish =>
      simp only [next, ActiveLiveJob.finishIfComplete]
      split <;> simpa [ActiveLiveJob.send, arrivals] using h
  | abort error => simpa [next, ActiveLiveJob.send, arrivals] using h

/-- **The timeline of a live job is exact.** What has been accepted is a front part of what has
arrived; the buffer is all of it from the offset on; and each window sent to a worker carries its own
piece of it, at most thirty seconds long and under its own time, behind the window before. -/
theorem timeline_exact {jobId : Nat} {header : RequestHeader} {chunkRx : ChunkReceiver}
    {vadEnabled : Bool} {events : List Event}
    (hwindow : vadEnabled = true → 1 ≤ (VadConfig.ofHeader header).windowSamples)
    (h : Run (Step maxInFlight) (start jobId header chunkRx vadEnabled) events run) :
    run.accepted ++ audioOf run.job.chunkRx.queue = audioOf (chunkRx.queue ++ arrivals events) ∧
      run.job.absoluteOffsetSamples + run.job.audioBuffer.length = run.accepted.length ∧
      run.job.audioBuffer = run.accepted.drop run.job.absoluteOffsetSamples ∧
      ∃ intervals, List.Forall₂ (Carries run.accepted) intervals
          (run.dispatched.map DispatchedWindow.whisperJob) ∧
        Follow 0 intervals := by
  have hinv := audioInvariant hwindow h
  refine ⟨?_, hinv.timeline.length_eq, hinv.timeline.buffer,
    run.dispatched.map DispatchedWindow.interval, ?_, hinv.dispatching.follow⟩
  · refine h.invariant (P := fun events run => run.accepted ++ audioOf run.job.chunkRx.queue =
      audioOf (chunkRx.queue ++ arrivals events)) ?_ ?_
    · have hnone : arrivals [] = [] := rfl
      rw [hnone, List.append_nil]
      rfl
    · intro events run event run' hrun hstep
      have hnext := accepted_step hrun hstep
      have harrivals : arrivals (events ++ [event]) = arrivals events ++ arrivals [event] :=
        List.flatMap_append
      rw [harrivals, ← List.append_assoc]
      exact hnext
  · rw [List.forall₂_map_left_iff, List.forall₂_map_right_iff, List.forall₂_same]
    exact hinv.dispatching.carries

/-- VAD windows of one sample, and every run of speech is kept as it is. -/
def wordHeader : RequestHeader :=
  { vadMinSpeechMs := some 0
    vadMinSilenceMs := some 0
    vadSpeechPadMs := some 0
    vadWindowSamples := some 1 }

def wordResult (index : Nat) (probability : F32) : VadResult :=
  { jobId := 7, windowIndex := index, startSample := index, probability, state := [] }

/-- Three samples, the middle one of them speech. -/
def wordEvents : List Event :=
  [.arrive (.ok { samples := [F32.ofNat 0, F32.ofNat 1, F32.ofNat 0] }), .hangUp, .drain,
    .sendVad true, .vadResult (wordResult 0 (F32.ofNat 0)),
    .sendVad true, .vadResult (wordResult 1 (F32.ofNat 1)),
    .sendVad true, .vadResult (wordResult 2 (F32.ofNat 0)), .refresh, .dispatch true, .refresh,
    .whisperResult { windowIndex := 0, absoluteStartSec := F32.ofNat 0, text := "", segments := [] },
    .finish]

theorem timeline_exact_word : ∃ run, Run (Step 3) (start 7 wordHeader {} true) wordEvents run ∧
    run.dispatched.map DispatchedWindow.interval = [(1, 2)] ∧ run.removed = true ∧
    run.job.absoluteOffsetSamples + run.job.audioBuffer.length = run.accepted.length := by
  have hrun : ((wordEvents.foldlM (step 3) (start 7 wordHeader {} true)).map fun run =>
      (run.dispatched.map DispatchedWindow.interval, run.removed)) = some ([(1, 2)], true) := by
    decide +kernel
  obtain ⟨run, hfold, hview⟩ := Option.map_eq_some_iff.mp hrun
  obtain ⟨hdispatched, hremoved⟩ := Prod.mk.inj hview
  have h : Run (Step 3) (start 7 wordHeader {} true) wordEvents run :=
    Run.of_foldlM (fun _ _ _ hstep => hstep) hfold
  exact ⟨run, h, hdispatched, hremoved, (timeline_exact (fun _ => by decide) h).2.1⟩

end LiveRun

end RkWhisper
