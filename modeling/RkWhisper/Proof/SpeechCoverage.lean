import RkWhisper.Lib.Resegmentation
import RkWhisper.Proof.Delivery
import RkWhisper.Proof.Timeline

/-!
# Which speech reaches a worker

A dispatch forgets the probabilities before its cut, and what is left of the stream is segmented
without them. As long as every cut is clean, speech of the whole stream has been dispatched or is
still speech of what is left.
-/

namespace RkWhisper

open Segmentation Transition

/-- In a run of speech that is long enough, or in the padding of one. -/
def VadConfig.InSpeech (config : VadConfig) (windows : List Window) (x : Nat) : Prop :=
  KeptNear config.minSilence config.minSpeech config.speechPad windows x

/-- A cut that leaves nothing of a closed stream, or harms no run of speech in the buffer. -/
def ActiveLiveJob.CutsCleanly (job : ActiveLiveJob) (config : VadConfig) (cut : Nat) : Prop :=
  (job.producerClosed = true ∧ job.audioBuffer.length ≤ cut) ∨
    CleanCut config.minSilence config.minSpeech config.speechPad job.producerClosed
      (job.windows config) cut

instance (job : ActiveLiveJob) (config : VadConfig) (cut : Nat) :
    Decidable (job.CutsCleanly config cut) :=
  inferInstanceAs (Decidable ((_ ∧ _) ∨ CleanCut ..))

namespace LiveRun

/-- A dispatch succeeds, and cuts cleanly. -/
def CleanDispatch (run : LiveRun) : Event → Prop
  | .dispatch sent => sent = true ∧ ∀ config ∈ run.job.vadConfig,
      ∀ plan ∈ run.job.nextDispatchPlan, run.job.CutsCleanly config plan.endSample
  | _ => True

instance (run : LiveRun) (event : Event) : Decidable (run.CleanDispatch event) :=
  match event with
  | .dispatch _ => inferInstanceAs (Decidable (_ ∧ ∀ config ∈ run.job.vadConfig,
      ∀ plan ∈ run.job.nextDispatchPlan, _))
  | .arrive _ | .hangUp | .drain | .refresh | .sendVad _ | .vadResult _ | .whisperResult _ |
    .finish | .abort _ => inferInstanceAs (Decidable True)

def CleanStep (maxInFlight : Nat) (run : LiveRun) (event : Event) (run' : LiveRun) : Prop :=
  Step maxInFlight run event run' ∧ run.CleanDispatch event

def IsDispatched (run : LiveRun) (x : Nat) : Prop :=
  ∃ window ∈ run.dispatched, Within x window.interval

/-- Every sample of a window of speech that lies in a segment of the whole stream is in a window
that was sent to a worker. -/
def SpeechCovered (config : VadConfig) (run : LiveRun) : Prop :=
  ∀ x, (∃ recorded ∈ run.recorded, recorded.2.ge config.threshold = true ∧
      recorded.1 ≤ x ∧ x < min (recorded.1 + config.windowSamples) run.accepted.length) →
    (∃ segment ∈ segmentsFromProbs run.accepted.length run.recorded config,
      segment.startSample ≤ x ∧ x < segment.endSample) → run.IsDispatched x

variable {maxInFlight : Nat} {config : VadConfig} {run run' : LiveRun} {event : Event}

/-! ### Windows of the whole stream -/

/-- All windows recorded so far, in the positions of the stream. -/
def streamWindows (config : VadConfig) (run : LiveRun) : List Window :=
  config.windows run.accepted.length run.recorded

/-- Windows that VAD may still find in the stream. -/
structure ToCome (run : LiveRun) (more : List Window) : Prop where
  ordered : Ordered run.cursor more
  closed : run.job.producerClosed = true → run.accepted.length ≤ run.cursor → more = []

theorem stop_le_cursor (h : Recording config run) :
    ∀ window ∈ run.streamWindows config, window.stop ≤ run.cursor := by
  intro window hmem
  obtain ⟨recorded, hrecorded, rfl⟩ := List.mem_map.mp hmem
  obtain hle | ⟨-, hle⟩ := h.behind recorded hrecorded
  · exact (min_le_left _ _).trans hle
  · exact (min_le_right _ _).trans hle

theorem ordered_streamWindows (hwindow : 1 ≤ config.windowSamples) (h : Recording config run) :
    Ordered 0 (run.streamWindows config) :=
  VadConfig.ordered_windows hwindow (fun _ _ => Nat.zero_le _) h.spaced h.inside

theorem ordered_toCome (hwindow : 1 ≤ config.windowSamples) (h : Recording config run)
    {more : List Window} (hmore : run.ToCome more) :
    Ordered 0 (run.streamWindows config ++ more) :=
  (ordered_streamWindows hwindow h).append hmore.ordered (Nat.zero_le _) (stop_le_cursor h)

/-- The windows of the buffer are those behind the offset. -/
theorem move_windows (htime : Timeline run) (h : Recording config run) :
    (run.job.windows config).map (Window.move run.job.absoluteOffsetSamples) =
      behind run.job.absoluteOffsetSamples (run.streamWindows config) := by
  have hlength := htime.length_eq
  rw [ActiveLiveJob.windows, h.probs, VadConfig.windows, List.map_map, List.map_map, behind,
    streamWindows, VadConfig.windows, List.filter_map]
  apply List.map_congr_left
  intro recorded hmem
  have hoffset := of_decide_eq_true (List.mem_filter.mp hmem).2
  simp only [Function.comp_apply, VadConfig.window, Window.move, Window.mk.injEq, and_true]
  omega

/-! ### The invariant -/

/-- Speech of the whole stream has been dispatched, or is speech of what is left: whatever windows
are still to come. -/
def Coverage (config : VadConfig) (run : LiveRun) : Prop :=
  ∀ more, run.ToCome more → ∀ x, (run.job.producerClosed = true → x < run.accepted.length) →
    config.InSpeech (run.streamWindows config ++ more) x → run.IsDispatched x ∨
      (run.job.absoluteOffsetSamples ≤ x ∧ config.InSpeech
        (behind run.job.absoluteOffsetSamples (run.streamWindows config) ++ more) x)

theorem Coverage.congr (hsame : SameAudio run run') (h : Coverage config run) :
    Coverage config run' := by
  intro more hmore x hx hspeech
  rw [hsame.producerClosed, hsame.accepted] at hx
  have hwindows : run'.streamWindows config = run.streamWindows config := by
    rw [streamWindows, hsame.accepted, hsame.recorded, streamWindows]
  have hmore : run.ToCome more := by
    refine ⟨cursor_congr hsame ▸ hmore.ordered, ?_⟩
    rw [← hsame.producerClosed, ← hsame.accepted, ← cursor_congr hsame]
    exact hmore.closed
  rw [hwindows] at hspeech
  rw [hwindows, hsame.offset, IsDispatched, hsame.dispatched]
  exact h more hmore x hx hspeech

theorem Coverage.accept (hrecording : Recording config run) (h : Coverage config run)
    (samples : List F32) (closed : Bool)
    (hclosed : run.job.producerClosed = true → samples = [] ∧ closed = true) :
    Coverage config (run.accept samples closed) := by
  intro more hmore x hx hspeech
  have hlength : run.job.producerClosed = true →
      (run.accept samples closed).accepted.length = run.accepted.length := by
    intro hrun
    simp only [LiveRun.accept, (hclosed hrun).1, List.append_nil]
  -- The windows recorded for a stream still open are whole, and stay as they are.
  have hwindows : (run.accept samples closed).streamWindows config = run.streamWindows config := by
    apply List.map_congr_left
    intro recorded hmem
    cases hrun : run.job.producerClosed with
    | true =>
        rw [hlength hrun]
    | false =>
        have hbehind := hrecording.behind recorded hmem
        have hcursor := hrecording.cursor_le
        simp only [hrun, Bool.false_eq_true, false_and, or_false] at hbehind hcursor
        simp only [VadConfig.window, LiveRun.accept, List.length_append, Window.mk.injEq, and_true,
          true_and]
        omega
  rw [hwindows] at hspeech ⊢
  refine h more ⟨hmore.ordered, ?_⟩ x ?_ hspeech
  · intro hrun hle
    exact hmore.closed (hclosed hrun).2 ((hlength hrun).trans_le hle)
  · intro hrun
    exact (hx (hclosed hrun).2).trans_eq (hlength hrun)

/-- Nothing is to come when a closed stream has been scanned. -/
theorem ToCome.eq_nil {more : List Window} (htime : Timeline run) (h : run.ToCome more)
    (hclosed : run.job.producerClosed = true)
    (hscanned : run.job.audioBuffer.length ≤ run.job.vadProcessedSamples) : more = [] := by
  have hlength := htime.length_eq
  apply h.closed hclosed
  unfold cursor
  omega

/-- So it is before a cut, which is made when VAD has no window to go on with. -/
theorem ToCome.eq_nil_of_idle {more : List Window} (htime : Timeline run) (h : run.ToCome more)
    (hconfig : run.job.vadConfig = some config) (hready : run.job.hasVadReady = false)
    (hidle : run.job.vadInFlight = false) (hclosed : run.job.producerClosed = true) :
    more = [] := by
  apply h.eq_nil htime hclosed
  by_contra hlt
  have hvad : run.job.hasVadReady = true :=
    ActiveLiveJob.hasVadReady_iff.mpr ⟨config, hconfig, hidle, not_le.mp hlt, .inr hclosed⟩
  rw [hready] at hvad
  cases hvad

theorem Coverage.clear (htime : Timeline run) (hrecording : Recording config run)
    (hwindow : 1 ≤ config.windowSamples) (h : Coverage config run)
    (hsilent : run.job.Silent config) : Coverage config run.clear := by
  intro more hmore x hx hspeech
  have hcursor : run.cursor ≤ run.clear.cursor := by
    simp only [LiveRun.clear, cursor, ActiveLiveJob.clear]
    omega
  have hcome : run.ToCome more :=
    ⟨hmore.ordered.mono hcursor, fun hclosed hle => hmore.closed hclosed (hle.trans hcursor)⟩
  obtain hdone | ⟨-, hleft⟩ := h more hcome x hx hspeech
  · exact .inl hdone
  · -- A buffer without segments holds no speech.
    have hnone : keptRuns config.minSilence config.minSpeech (run.job.windows config) = [] := by
      have hsegments := hsilent.segments_eq
      rw [ActiveLiveJob.segments_eq (hrecording.ordered hwindow htime), List.map_eq_nil_iff] at hsegments
      exact segments_eq_nil_iff.mp hsegments
    rw [hcome.eq_nil htime hsilent.closed hsilent.scanned, List.append_nil,
      ← move_windows htime hrecording] at hleft
    obtain ⟨speech, hmem, -⟩ := hleft
    rw [keptRuns_move, hnone] at hmem
    cases hmem

theorem Coverage.record (htime : Timeline run) (hrecording : Recording config run)
    (hwindow : 1 ≤ config.windowSamples) (h : Coverage config run) {vadJob : VadJob}
    {result : VadResult} (hjob : run.vadJob = some vadJob)
    (hstart : result.startSample = vadJob.startSample) : Coverage config (run.record result) := by
  intro more hmore x hx hspeech
  have hlength := htime.length_eq
  obtain ⟨hprocessed, hlt, -⟩ := hrecording.atWorker vadJob hjob
  rw [← hstart] at hprocessed
  set window := config.window run.accepted.length run.cursor result.probability with hnew
  have hcursor : (run.record result).cursor = window.stop := by
    simp only [LiveRun.record, cursor, ActiveLiveJob.handleVadResult, hrecording.vadConfig,
      Option.map_some, Option.getD_some, hprocessed, hnew, VadConfig.window]
    omega
  have hwindows : (run.record result).streamWindows config =
      run.streamWindows config ++ [window] := by
    simp only [streamWindows, LiveRun.record, VadConfig.windows, List.map_append, List.map_singleton,
      hprocessed, hnew, cursor]
  have hcome : run.ToCome (window :: more) := by
    refine ⟨⟨le_rfl, ?_, hcursor ▸ hmore.ordered⟩, ?_⟩
    · simp only [hnew, VadConfig.window, cursor]
      omega
    · intro _ hle
      unfold cursor at hle
      omega
  have hbehind : behind run.job.absoluteOffsetSamples [window] = [window] := by
    rw [behind, List.filter_eq_self]
    intro w hw
    obtain rfl := List.mem_singleton.mp hw
    exact decide_eq_true (Nat.le_add_right _ _)
  have hoffset : (run.record result).job.absoluteOffsetSamples = run.job.absoluteOffsetSamples := rfl
  rw [hwindows, List.append_assoc] at hspeech
  rw [hwindows, hoffset, behind, List.filter_append, ← behind, ← behind, hbehind, List.append_assoc]
  exact h (window :: more) hcome x hx hspeech

/-- The plan begins where the first speech of the buffer begins. -/
theorem startSample_le (htime : Timeline run) (hrecording : Recording config run)
    (hwindow : 1 ≤ config.windowSamples) {plan : DispatchPlan}
    (hplan : run.job.nextDispatchPlan = some plan) {more : List Window}
    (hordered : Ordered 0 (run.streamWindows config ++ more)) {x : Nat}
    (hoffset : run.job.absoluteOffsetSamples ≤ x)
    (h : config.InSpeech
      (behind run.job.absoluteOffsetSamples (run.streamWindows config) ++ more) x) :
    run.job.absoluteOffsetSamples + plan.startSample ≤ x := by
  obtain ⟨first, last, hcut⟩ := ActiveLiveJob.exists_cutBehind hrecording.vadConfig
    (hrecording.ordered hwindow htime) VadConfig.windows_stop_le hplan
  obtain ⟨speech, hspeech, hfirst⟩ := exists_head_of_segments hcut.head
  have hmoved : (keptRuns config.minSilence config.minSpeech
      (behind run.job.absoluteOffsetSamples (run.streamWindows config))).head? =
        some (moveInterval run.job.absoluteOffsetSamples speech) := by
    rw [← move_windows htime hrecording, keptRuns_move, List.head?_map, hspeech]
    rfl
  have hle := KeptNear.head_le (hordered.behind_append _) hmoved h
  simp only [moveInterval] at hle
  rw [hcut.start_eq, hfirst]
  omega

theorem isDispatched_cut (run : LiveRun) (plan : DispatchPlan) (x : Nat) :
    (run.cut plan true).IsDispatched x ↔
      run.IsDispatched x ∨ Within x (run.window plan).interval := by
  simp only [IsDispatched, LiveRun.cut, if_true, List.mem_append, List.mem_singleton,
    or_and_right, exists_or, exists_eq_left]

theorem Coverage.cut (htime : Timeline run) (hrecording : Recording config run)
    (hwindow : 1 ≤ config.windowSamples) (h : Coverage config run) {plan : DispatchPlan}
    (hready : run.job.hasVadReady = false) (hidle : run.job.vadInFlight = false)
    (hplan : run.job.nextDispatchPlan = some plan)
    (hclean : run.job.CutsCleanly config plan.endSample) : Coverage config (run.cut plan true) := by
  intro more hmore x hx hspeech
  have hlength := htime.length_eq
  have hwindows : (run.cut plan true).streamWindows config = run.streamWindows config := rfl
  have hoffset : (run.cut plan true).job.absoluteOffsetSamples =
      run.job.absoluteOffsetSamples + plan.endSample := rfl
  have hcursor := run.cursor_cut plan true
  have hcome : run.ToCome more := by
    refine ⟨hmore.ordered.mono (hcursor ▸ le_max_left _ _), fun hclosed hle => ?_⟩
    exact hmore.closed hclosed (hle.trans (hcursor ▸ le_max_left _ _))
  have hordered := ordered_toCome hwindow hrecording hcome
  rw [hwindows] at hspeech
  rw [hwindows, hoffset, isDispatched_cut]
  obtain hdone | ⟨hle, hleft⟩ := h more hcome x hx hspeech
  · exact .inl (.inl hdone)
  · by_cases hbefore : x < run.job.absoluteOffsetSamples + plan.endSample
    · exact .inl (.inr
        ⟨startSample_le htime hrecording hwindow hplan hordered hle hleft, hbefore⟩)
    · refine .inr ⟨not_lt.mp hbefore, ?_⟩
      obtain ⟨hclosed, hend⟩ | hcut := hclean
      · have hinside := hx hclosed
        have htotal : (run.cut plan true).accepted = run.accepted := rfl
        rw [htotal] at hinside
        omega
      · have hmoved := hcut.move run.job.absoluteOffsetSamples
        rw [move_windows htime hrecording, Nat.add_comm] at hmoved
        have hlater : ∀ window ∈ more,
            run.job.absoluteOffsetSamples + plan.endSample ≤ window.start := by
          intro window hmem
          have hstart := hmore.ordered.start_le window hmem
          rw [hcursor] at hstart
          exact (le_max_right _ _).trans hstart
        have hnext := KeptNear.of_cut (hordered.behind_append run.job.absoluteOffsetSamples) hlater
          (hcome.eq_nil_of_idle htime hrecording.vadConfig hready hidle) hmoved (not_lt.mp hbefore)
          hleft
        rwa [behind_behind (Nat.le_add_right _ _)] at hnext

theorem Coverage.step (htime : Timeline run) (hrecording : Recording config run)
    (hwindow : 1 ≤ config.windowSamples) (h : Coverage config run)
    (hstep : CleanStep maxInFlight run event run') : Coverage config run' := by
  obtain ⟨hstep, hclean⟩ := hstep
  have hconfig : ∀ config', run.job.vadConfig = some config' → config' = config := by
    intro config' hconfig'
    rw [hrecording.vadConfig] at hconfig'
    exact (Option.some.inj hconfig').symm
  cases audioStep hstep with
  | same hsame => exact h.congr hsame
  | accept samples closed hclosed hsame =>
      exact (h.accept hrecording samples closed hclosed).congr hsame
  | clear config' hsilent hsame =>
      obtain rfl := hconfig config' hsilent.config_eq
      exact (h.clear htime hrecording hwindow hsilent).congr hsame
  | scan config' sent hconfig' hready hsame =>
      exact Coverage.congr hsame fun more hmore => h more ⟨hmore.ordered, hmore.closed⟩
  | record vadJob result hjob hstart hsame =>
      exact (h.record htime hrecording hwindow hjob hstart).congr hsame
  | cut plan sent hevent hready hidle hplan hsame =>
      subst hevent
      obtain ⟨rfl, hcut⟩ := hclean
      exact (h.cut htime hrecording hwindow hready hidle hplan
        (hcut config hrecording.vadConfig plan hplan)).congr hsame

theorem coverage {jobId : Nat} {header : RequestHeader} {chunkRx : ChunkReceiver}
    {events : List Event} (hwindow : 1 ≤ (VadConfig.ofHeader header).windowSamples)
    (h : Run (CleanStep maxInFlight) (start jobId header chunkRx true) events run) :
    AudioInvariant (some (VadConfig.ofHeader header)) run ∧
      Coverage (VadConfig.ofHeader header) run := by
  have hpos : ∀ config ∈ some (VadConfig.ofHeader header), 1 ≤ config.windowSamples := by
    intro config hmem
    obtain rfl := Option.some.inj hmem
    exact hwindow
  refine h.invariant (P := fun _ run => AudioInvariant (some (VadConfig.ofHeader header)) run ∧
    Coverage (VadConfig.ofHeader header) run) ⟨.start jobId header chunkRx true, ?_⟩ ?_
  · intro more _ x _ hspeech
    exact .inr ⟨Nat.zero_le x, hspeech⟩
  · rintro _ run event run' ⟨haudio, hcoverage⟩ hstep
    exact ⟨haudio.step hpos (audioStep hstep.1),
      hcoverage.step haudio.timeline (haudio.recording _ rfl) hwindow hstep⟩

/-- **No speech of the whole stream is lost by clean cuts.** -/
theorem speech_covered {jobId : Nat} {header : RequestHeader} {chunkRx : ChunkReceiver}
    {events : List Event} (hwindow : 1 ≤ (VadConfig.ofHeader header).windowSamples)
    (h : Run (CleanStep maxInFlight) (start jobId header chunkRx true) events run)
    (hfinished : ∃ stats, .finished (.ok stats) ∈ run.job.responseTx) :
    SpeechCovered (VadConfig.ofHeader header) run := by
  have hrun := (h.mono fun _ _ _ hstep => hstep.1 : Run (Step maxInFlight) _ _ _)
  obtain ⟨haudio, hcoverage⟩ := coverage hwindow h
  have htime := haudio.timeline
  have hrecording := haudio.recording _ rfl
  intro x _ hsegment
  obtain ⟨stats, hmem⟩ := hfinished
  obtain ⟨-, hcomplete, -⟩ := (Delivery.of_run hrun).finished stats hmem
  have hbuffer : run.job.audioBuffer = [] := by
    simp only [ActiveLiveJob.isComplete, Bool.and_eq_true, List.isEmpty_iff] at hcomplete
    exact hcomplete.1.1.2
  have hlength := htime.length_eq
  rw [hbuffer, List.length_nil] at hlength
  have hordered := ordered_streamWindows hwindow hrecording
  rw [segmentsFromProbs_eq hordered] at hsegment
  obtain ⟨segment, hsegment, hstart, hstop⟩ := hsegment
  obtain ⟨interval, hinterval, rfl⟩ := List.mem_map.mp hsegment
  obtain ⟨speech, hspeech, hnear⟩ := exists_keptRun_of_within ⟨interval, hinterval, hstart, hstop⟩
  have hinside : x < run.accepted.length := hstop.trans_le (segments_stop_le interval hinterval)
  have hmore : run.ToCome [] := ⟨trivial, fun _ _ => rfl⟩
  have hspeechIn : (VadConfig.ofHeader header).InSpeech
      (run.streamWindows (VadConfig.ofHeader header) ++ []) x := by
    rw [List.append_nil]
    refine ⟨speech, hspeech, ?_, ?_⟩
    · exact Nat.le_add_of_sub_le hnear.1
    · exact hnear.2.trans_le (min_le_left _ _)
  obtain hdone | ⟨hoffset, -⟩ := hcoverage [] hmore x (fun _ => hinside) hspeechIn
  · exact hdone
  · omega

def cleanStep (maxInFlight : Nat) (run : LiveRun) (event : Event) : Option LiveRun :=
  if run.CleanDispatch event then run.step maxInFlight event else none

theorem cleanStep_of_eq_some (maxInFlight : Nat) (run : LiveRun) (event : Event)
    (run' : LiveRun) (h : run.cleanStep maxInFlight event = some run') :
    CleanStep maxInFlight run event run' := by
  obtain ⟨hclean, hstep⟩ := Option.ite_none_right_eq_some.mp h
  exact ⟨hstep, hclean⟩

/-- The job has ended well. -/
def endsOk : JobResponse → Bool
  | .finished (.ok _) => true
  | _ => false

theorem speech_covered_word : ∃ run,
    Run (CleanStep 3) (start 7 wordHeader {} true) wordEvents run ∧
      run.dispatched.map DispatchedWindow.interval = [(1, 2)] ∧
      SpeechCovered (VadConfig.ofHeader wordHeader) run := by
  have hrun : ((wordEvents.foldlM (cleanStep 3) (start 7 wordHeader {} true)).map fun run =>
      (run.dispatched.map DispatchedWindow.interval, run.job.responseTx.any endsOk)) =
        some ([(1, 2)], true) := by
    decide +kernel
  obtain ⟨run, hfold, hview⟩ := Option.map_eq_some_iff.mp hrun
  obtain ⟨hdispatched, hany⟩ := Prod.mk.inj hview
  have h : Run (CleanStep 3) (start 7 wordHeader {} true) wordEvents run :=
    Run.of_foldlM (cleanStep_of_eq_some 3) hfold
  obtain ⟨response, hmem, hok⟩ := List.any_eq_true.mp hany
  have hfinished : ∃ stats, .finished (.ok stats) ∈ run.job.responseTx := by
    unfold endsOk at hok
    split at hok
    · exact ⟨_, hmem⟩
    · cases hok
  exact ⟨run, h, hdispatched, speech_covered (by decide) h hfinished⟩

/-! ### A monologue -/

/-- The probabilities of `count` windows of speech. -/
def speechProbs (count : Nat) : List (Nat × F32) :=
  (List.range count).map fun i => (512 * i, F32.ofNat 1)

theorem speechProbs_succ (count : Nat) :
    speechProbs (count + 1) = speechProbs count ++ [(512 * count, F32.ofNat 1)] := by
  rw [speechProbs, List.range_succ, List.map_append]
  rfl

theorem mem_speechProbs {count i : Nat} (h : i < count) :
    (512 * i, F32.ofNat 1) ∈ speechProbs count :=
  List.mem_map.mpr ⟨i, List.mem_range.mpr h, rfl⟩

def speechResult (index : Nat) : VadResult :=
  { jobId := 0
    windowIndex := index
    startSample := 512 * index
    probability := F32.ofNat 1
    state := List.replicate (2 * 128) (F32.ofNat 0) }

/-- All of the stream has arrived, and `count` windows of it have been found to be speech. -/
def scanned (samples : List F32) (count : Nat) : LiveRun :=
  { job :=
      { jobId := 0
        chunkRx := { disconnected := true }
        audioBuffer := samples
        vadConfig := some (VadConfig.ofHeader {})
        vadProcessedSamples := 512 * count
        nextVadWindowIndex := count
        probs := speechProbs count
        producerClosed := true
        options := .ofHeader {} }
    accepted := samples
    recorded := speechProbs count }

def scanEvents : Nat → List Event
  | 0 => []
  | count + 1 => scanEvents count ++ [.sendVad true, .vadResult (speechResult count)]

theorem run_scanned (samples : List F32) :
    Run (Step 1) (start 0 {} {} true) [.arrive (.ok { samples }), .hangUp, .drain]
      (scanned samples 0) := by
  refine .snoc (.snoc (.single rfl) rfl) (step_eq_some_iff.mpr ⟨⟨rfl, trivial⟩, ?_⟩)
  have haudio : audioOf [.ok { samples }] = samples := List.append_nil samples
  exact congrArg (fun accepted => { scanned samples 0 with accepted }) haudio

theorem run_scan {samples : List F32} {count : Nat} (h : 512 * (count + 1) ≤ samples.length) :
    Run (Step 1) (scanned samples count) [.sendVad true, .vadResult (speechResult count)]
      (scanned samples (count + 1)) := by
  have hready : (scanned samples count).job.hasVadReady = true :=
    ActiveLiveJob.hasVadReady_iff.mpr
      ⟨_, rfl, rfl, by simp only [scanned]; omega, .inr rfl⟩
  have hsend : Step 1 (scanned samples count) (.sendVad true)
      ((scanned samples count).scan (VadConfig.ofHeader {}) true) := by
    refine step_eq_some_iff.mpr ⟨⟨rfl, hready⟩, ?_⟩
    simp only [next, ActiveLiveJob.sendVadJob_of_ready rfl hready]
    rfl
  refine .snoc (.single hsend) (step_eq_some_iff.mpr ⟨⟨rfl, ⟨rfl, rfl, rfl⟩⟩, ?_⟩)
  have hend : min (512 * count + 512) samples.length = 512 * (count + 1) := by omega
  have hzero : 0 + 512 * count = 512 * count := Nat.zero_add _
  simp only [scanned, speechProbs_succ, ← hend]
  simp only [next, LiveRun.scan, ActiveLiveJob.handleVadResult, speechResult, hzero]
  rfl

theorem run_scanEvents {samples : List F32} {count : Nat} (h : 512 * count ≤ samples.length) :
    Run (Step 1) (scanned samples 0) (scanEvents count) (scanned samples count) := by
  induction count with
  | zero => exact .refl
  | succ count ih => exact (ih (by omega)).trans (run_scan h)

theorem segments_scanned (samples : List F32) (count : Nat) :
    (scanned samples count).job.segments (VadConfig.ofHeader {}) =
      segmentsFromProbs samples.length (speechProbs count) (VadConfig.ofHeader {}) := rfl

theorem segmentsFromProbs_speech : segmentsFromProbs 481792 (speechProbs 941)
    (VadConfig.ofHeader {}) = [.ofInterval (0, 481792)] := by
  decide +kernel

/-- The segment is cut after thirty seconds. -/
theorem plan_scanned {samples : List F32} (h : samples.length = 481792) :
    (scanned samples 941).job.nextDispatchPlan = some ⟨0, 480000, [(0, 480000)]⟩ := by
  have hsegments := segments_scanned samples 941
  rw [h, segmentsFromProbs_speech] at hsegments
  rw [ActiveLiveJob.nextDispatchPlan_of_segments rfl hsegments]
  rfl

theorem run_cut {samples : List F32} {count : Nat} {plan : DispatchPlan}
    (hplan : (scanned samples count).job.nextDispatchPlan = some plan)
    (hend : samples.length ≤ 512 * count) :
    ∃ run, Run (Step 1) (scanned samples count) [.dispatch true] run ∧
      SameAudio ((scanned samples count).cut plan true) run ∧
      run.awaited = [0] ∧ run.job.inFlight = 1 ∧ run.removed = false := by
  have hready : (scanned samples count).job.hasVadReady = false := by
    rw [← Bool.not_eq_true, ActiveLiveJob.hasVadReady_iff]
    rintro ⟨config, -, -, hlt, -⟩
    simp only [scanned] at hlt
    omega
  have hmay : (scanned samples count).job.mayDispatch 1 = true :=
    ActiveLiveJob.mayDispatch_iff.mpr ⟨Nat.one_pos, rfl, _, hplan⟩
  refine ⟨_, .single (step_eq_some_iff.mpr ⟨⟨rfl, hready, hmay⟩, rfl⟩),
    sameAudio_dispatch hplan true, ?_, ?_, rfl⟩
  · simp only [next, ActiveLiveJob.dispatchToWorker_eq hplan]
    rfl
  · simp only [next, ActiveLiveJob.dispatchToWorker_eq hplan]
    rfl

theorem probs_cut (samples : List F32) (count : Nat) (plan : DispatchPlan) :
    ((scanned samples count).cut plan true).job.probs =
      ((speechProbs count).filter fun recorded => decide (plan.endSample ≤ recorded.1)).map
        fun recorded => (recorded.1 - plan.endSample, recorded.2) := rfl

theorem recorded_cut (samples : List F32) (count : Nat) (plan : DispatchPlan) :
    ((scanned samples count).cut plan true).recorded = speechProbs count := rfl

theorem dispatched_cut (samples : List F32) (count : Nat) (plan : DispatchPlan) :
    ((scanned samples count).cut plan true).dispatched.map DispatchedWindow.interval =
      [(plan.startSample, plan.endSample)] := by
  have hcut : ((scanned samples count).cut plan true).dispatched.map DispatchedWindow.interval =
      [(0 + plan.startSample, 0 + plan.endSample)] := rfl
  rw [hcut, Nat.zero_add, Nat.zero_add]

/-- What is left behind the cut is too short to be speech, and is dropped. -/
theorem silent_rest {samples : List F32} (h : samples.length = 481792)
    (hsame : SameAudio ((scanned samples 941).cut ⟨0, 480000, [(0, 480000)]⟩ true) run) :
    run.job.Silent (VadConfig.ofHeader {}) := by
  have hlength : run.job.audioBuffer.length = 1792 := by
    rw [hsame.audioBuffer]
    simp only [LiveRun.cut, ActiveLiveJob.cut, scanned, List.length_drop, h]
  refine ⟨hsame.vadConfig, ?_, ?_, hsame.producerClosed, hsame.vadInFlight, ?_⟩
  · intro hnil
    rw [hnil] at hlength
    cases hlength
  · rw [ActiveLiveJob.segments, hlength, hsame.probs, probs_cut]
    decide +kernel
  · rw [hlength, hsame.processed]
    simp only [LiveRun.cut, ActiveLiveJob.cut, scanned]
    omega

def emptyAnswer : WindowTranscription :=
  { windowIndex := 0, absoluteStartSec := F32.ofNat 0, text := "", segments := [] }

/-- A silent job with one window in flight ends when that is answered. -/
theorem run_answer (hsilent : run.job.Silent config) (hawaited : run.awaited = [0])
    (hinFlight : run.job.inFlight = 1) (hremoved : run.removed = false) :
    ∃ run', Run (Step maxInFlight) run [.refresh, .whisperResult emptyAnswer, .finish] run' ∧
      (∃ stats, .finished (.ok stats) ∈ run'.job.responseTx) ∧ run'.accepted = run.accepted ∧
      run'.recorded = run.recorded ∧ run'.dispatched = run.dispatched := by
  have hrefresh : Step maxInFlight run .refresh run.clear := by
    refine step_eq_some_iff.mpr ⟨⟨hremoved, trivial⟩, ?_⟩
    rw [next, ActiveLiveJob.refreshSpeechState_of_silent hsilent]
    rfl
  have hmem : emptyAnswer.windowIndex ∈ run.clear.awaited := by
    rw [LiveRun.clear, hawaited]
    exact List.mem_singleton_self 0
  have hanswer : Step maxInFlight run.clear (.whisperResult emptyAnswer)
      (run.clear.next maxInFlight (.whisperResult emptyAnswer)) :=
    step_eq_some_iff.mpr ⟨⟨hremoved, hmem⟩, rfl⟩
  have hcomplete :
      (run.clear.next maxInFlight (.whisperResult emptyAnswer)).job.isComplete = true := by
    obtain ⟨emitted, pending, hjob, -⟩ := run.clear.job.handleResult_spec emptyAnswer
    have hnext : (run.clear.next maxInFlight (.whisperResult emptyAnswer)).job =
        run.clear.job.handleResult emptyAnswer := rfl
    rw [hnext, hjob]
    simp only [ActiveLiveJob.isComplete, LiveRun.clear, ActiveLiveJob.clear, hsilent.closed,
      hsilent.idle, hinFlight]
    rfl
  refine ⟨_, .snoc (.snoc (.single hrefresh) hanswer)
    (step_eq_some_iff.mpr ⟨⟨hremoved, hcomplete⟩, rfl⟩), ?_, rfl, rfl, rfl⟩
  generalize run.clear.next maxInFlight (.whisperResult emptyAnswer) = run' at hcomplete
  refine ⟨run'.job.stats, ?_⟩
  simp only [next, ActiveLiveJob.finishIfComplete, if_pos hcomplete]
  exact List.mem_append_right _ (List.mem_singleton_self _)

def monologue : List F32 := List.replicate 481792 (F32.ofNat 1)

/-- Thirty seconds and a tenth of speech without a pause: the tenth is not sent to any worker. -/
theorem not_speechCovered_monologue :
    ¬ ∀ maxInFlight jobId (header : RequestHeader) chunkRx events run,
      1 ≤ (VadConfig.ofHeader header).windowSamples →
      Run (Step maxInFlight) (start jobId header chunkRx true) events run →
      (∃ stats, .finished (.ok stats) ∈ run.job.responseTx) →
        SpeechCovered (VadConfig.ofHeader header) run := by
  intro hall
  have hlength : monologue.length = 481792 := List.length_replicate
  obtain ⟨cutRun, hcut, hsame, hawaited, hinFlight, hremoved⟩ :=
    run_cut (plan_scanned hlength) (by omega)
  obtain ⟨run, hrest, hfinished, haccepted, hrecorded, hdispatched⟩ :=
    @run_answer 1 _ _ (silent_rest hlength hsame) hawaited hinFlight hremoved
  have hscan := @run_scanEvents monologue 941 (by omega)
  have hcovered := hall 1 0 {} {} _ run (by decide)
    ((((run_scanned monologue).trans hscan).trans hcut).trans hrest) hfinished
  have hlengthRun : run.accepted.length = 481792 := by
    rw [haccepted, hsame.accepted]
    exact hlength
  have hrecordedRun : run.recorded = speechProbs 941 := by
    rw [hrecorded, hsame.recorded, recorded_cut]
  have hdispatchedRun : run.dispatched.map DispatchedWindow.interval = [(0, 480000)] := by
    rw [hdispatched, hsame.dispatched, dispatched_cut]
  have hspeech : (512 * 939, F32.ofNat 1) ∈ run.recorded := by
    rw [hrecordedRun]
    exact mem_speechProbs (by omega)
  have hwindow : 512 * 939 ≤ 481000 ∧ 481000 < min (512 * 939 + 512) run.accepted.length := by
    rw [hlengthRun]
    omega
  have hsegment : VadSegment.ofInterval (0, 481792) ∈
      segmentsFromProbs run.accepted.length run.recorded (VadConfig.ofHeader {}) := by
    rw [hlengthRun, hrecordedRun, segmentsFromProbs_speech]
    exact List.mem_singleton_self _
  have hinside : (481000 : Nat) < 481792 := by omega
  obtain ⟨window, hmem, -, hlt⟩ := hcovered 481000
    ⟨_, hspeech, by decide +kernel, hwindow⟩ ⟨_, hsegment, Nat.zero_le _, hinside⟩
  have hinterval := List.mem_map_of_mem (f := DispatchedWindow.interval) hmem
  rw [hdispatchedRun, List.mem_singleton] at hinterval
  rw [hinterval] at hlt
  omega

end LiveRun

end RkWhisper
