import RkWhisper.Proof.SpeechCoverage

/-!
# The live VAD feed

Window after window of the stream is sent to VAD, with the state the last answer came with. A cut
moves the cursor along with the buffer, as long as it does not reach behind the cursor.
-/

namespace RkWhisper

open Transition

namespace LiveRun

variable {maxInFlight : Nat} {config : VadConfig} {run run' : LiveRun} {event : Event}

/-- The VAD job that a step hands to a worker. -/
def sentVadJob (run : LiveRun) : Event → List VadJob
  | .sendVad sent => (run.job.sendVadJob sent).1.toList
  | _ => []

/-- The VAD jobs of a run, in the order they were sent. -/
def vadJobs (maxInFlight : Nat) (start : LiveRun) (events : List Event) : List VadJob :=
  history (LiveRun.next maxInFlight) sentVadJob start events

/-- The answers of VAD, in the order they came. -/
def vadResults (events : List Event) : List VadResult :=
  events.flatMap fun
    | .vadResult result => [result]
    | _ => []

/-- The state after `results`. -/
def vadStateAfter (results : List VadResult) : List F32 :=
  (results.getLast?.map VadResult.state).getD VadModel.initialState

/-- A dispatch cuts off nothing that VAD has not seen. -/
def ScannedCut (run : LiveRun) : Event → Prop
  | .dispatch _ =>
      ∀ plan, run.job.nextDispatchPlan = some plan → plan.endSample ≤ run.job.vadProcessedSamples
  | _ => True

def ScannedStep (maxInFlight : Nat) (run : LiveRun) (event : Event) (run' : LiveRun) : Prop :=
  Step maxInFlight run event run' ∧ run.ScannedCut event

/-- The job carries the window `index` of the stream, and the state that follows `results`. -/
structure FeedsWindow (windowSamples : Nat) (accepted : List F32) (results : List VadResult)
    (index : Nat) (job : VadJob) : Prop where
  begins : index * windowSamples < accepted.length
  samples : job.samples = VadModel.window accepted windowSamples (index * windowSamples)
  state : job.state = vadStateAfter (results.take index)

/-- The windows sent are the first of the stream, and one of them at most is not answered yet. -/
structure Feeding (config : VadConfig) (run : LiveRun) (jobs : List VadJob)
    (results : List VadResult) : Prop where
  inFlight : jobs.length = results.length + if run.job.vadInFlight then 1 else 0
  cursor : run.cursor = min (results.length * config.windowSamples) run.accepted.length ∨
    (run.job.producerClosed = true ∧ run.job.audioBuffer = [] ∧
      run.accepted.length ≤ results.length * config.windowSamples)
  state : run.job.vadState = vadStateAfter results
  whole : jobs.length * config.windowSamples ≤ run.accepted.length ∨
    run.job.producerClosed = true
  windows : ∀ k job, jobs[k]? = some job →
    FeedsWindow config.windowSamples run.accepted results k job
  recorded : run.recorded = results.zipIdx.map fun (result, k) =>
    (k * config.windowSamples, result.probability)

/-! ### What a step does to the feed -/

theorem window_append {audio : List F32} {windowSamples start : Nat} (more : List F32)
    (h : start + windowSamples ≤ audio.length) :
    VadModel.window (audio ++ more) windowSamples start =
      VadModel.window audio windowSamples start := by
  have hlength : (audio ++ more).length = audio.length + more.length := List.length_append
  rw [VadModel.window, VadModel.window, min_eq_left h, min_eq_left (by omega),
    List.take_append_of_le_length h]

theorem Feeding.start (config : VadConfig) (jobId : Nat) (header : RequestHeader)
    (chunkRx : ChunkReceiver) (vadEnabled : Bool) :
    Feeding config (start jobId header chunkRx vadEnabled) [] [] where
  inFlight := rfl
  cursor := by
    rw [List.length_nil, Nat.zero_mul, Nat.zero_min]
    exact .inl rfl
  state := rfl
  whole := .inl (by simp)
  windows := by simp
  recorded := rfl

variable {jobs : List VadJob} {results : List VadResult}

theorem Feeding.congr (hsame : SameAudio run run') (hstate : run'.job.vadState = run.job.vadState)
    (h : Feeding config run jobs results) : Feeding config run' jobs results where
  inFlight := by
    rw [hsame.vadInFlight]
    exact h.inFlight
  cursor := by
    rw [cursor_congr hsame, hsame.accepted, hsame.producerClosed, hsame.audioBuffer]
    exact h.cursor
  state := hstate.trans h.state
  whole := by
    rw [hsame.accepted, hsame.producerClosed]
    exact h.whole
  windows := by
    rw [hsame.accepted]
    exact h.windows
  recorded := hsame.recorded.trans h.recorded

theorem Feeding.results_le (h : Feeding config run jobs results) :
    results.length * config.windowSamples ≤ jobs.length * config.windowSamples := by
  apply Nat.mul_le_mul_right
  have hcount := h.inFlight
  omega

theorem Feeding.accept (h : Feeding config run jobs results) (samples : List F32) (closed : Bool)
    (hclosed : run.job.producerClosed = true → samples = [] ∧ closed = true) :
    Feeding config (run.accept samples closed) jobs results := by
  have hcursor : (run.accept samples closed).cursor = run.cursor := rfl
  by_cases hold : run.job.producerClosed = true
  · obtain ⟨rfl, rfl⟩ := hclosed hold
    have haccepted : (run.accept [] true).accepted = run.accepted := List.append_nil _
    have hbuffer : (run.accept [] true).job.audioBuffer = run.job.audioBuffer := List.append_nil _
    refine ⟨h.inFlight, ?_, h.state, .inr rfl, ?_, h.recorded⟩
    · rw [hcursor, haccepted, hbuffer]
      exact h.cursor.imp_right fun ⟨_, hempty, hle⟩ => ⟨rfl, hempty, hle⟩
    · rw [haccepted]
      exact h.windows
  · -- An open stream holds every window sent as a whole.
    have hwhole := h.whole.resolve_right hold
    have hresults := h.results_le
    have haccepted : (run.accept samples closed).accepted.length =
        run.accepted.length + samples.length := List.length_append
    refine ⟨h.inFlight, ?_, h.state, ?_, ?_, h.recorded⟩
    · have hat := h.cursor.resolve_right fun hend => hold hend.1
      rw [hcursor, hat, haccepted]
      exact .inl (by omega)
    · rw [haccepted]
      exact .inl (by omega)
    · intro k job hjob
      have hfeeds := h.windows k job hjob
      have hk : (k + 1) * config.windowSamples ≤ jobs.length * config.windowSamples :=
        Nat.mul_le_mul_right _ (List.getElem?_eq_some_iff.mp hjob).1
      rw [Nat.add_mul, Nat.one_mul] at hk
      refine ⟨?_, ?_, hfeeds.state⟩
      · rw [haccepted]
        exact hfeeds.begins.trans_le (Nat.le_add_right _ _)
      · rw [LiveRun.accept, window_append samples (by omega)]
        exact hfeeds.samples

theorem Feeding.clear (htime : Timeline run) (h : Feeding config run jobs results)
    {config' : VadConfig} (hsilent : run.job.Silent config') :
    Feeding config run.clear jobs results := by
  have hlength := htime.length_eq
  have hscanned := hsilent.scanned
  have hcursor := run.cursor_eq
  have hat := h.cursor.resolve_right fun hend => hsilent.nonempty hend.2.1
  refine ⟨h.inFlight, .inr ⟨hsilent.closed, rfl, ?_⟩, h.state, .inr hsilent.closed, h.windows,
    h.recorded⟩
  simp only [LiveRun.clear]
  omega

/-- The next window to be sent begins at the cursor. -/
theorem Feeding.cursor_eq (htime : Timeline run) (h : Feeding config run jobs results)
    (hlt : run.job.vadProcessedSamples < run.job.audioBuffer.length) :
    run.cursor = results.length * config.windowSamples ∧
      results.length * config.windowSamples < run.accepted.length := by
  have hlength := htime.length_eq
  have hcursor := run.cursor_eq
  obtain hat | ⟨-, hempty, -⟩ := h.cursor
  · omega
  · rw [hempty, List.length_nil] at hlt
    omega

theorem feedsWindow_vadJobAt (htime : Timeline run) (h : Feeding config run jobs results)
    (hlt : run.job.vadProcessedSamples < run.job.audioBuffer.length) :
    FeedsWindow config.windowSamples run.accepted results results.length
      (run.job.vadJobAt config) := by
  have hlength := htime.length_eq
  obtain ⟨hat, hbegins⟩ := h.cursor_eq htime hlt
  have hcursor := run.cursor_eq
  refine ⟨hbegins, ?_, ?_⟩
  · simp only [ActiveLiveJob.vadJobAt, VadModel.window, htime.buffer]
    rw [List.take_drop, List.drop_drop, ← hcursor, hat]
    congr 2
    rw [List.length_drop]
    omega
  · rw [List.take_length]
    exact h.state

theorem Feeding.scan (htime : Timeline run) (h : Feeding config run jobs results)
    (hconfig : run.job.vadConfig = some config) (hready : run.job.hasVadReady = true)
    (sent : Bool) : Feeding config (run.scan config sent)
      (jobs ++ if sent then [run.job.vadJobAt config] else []) results := by
  obtain ⟨config', hconfig', hidle, hlt, hwhole⟩ := ActiveLiveJob.hasVadReady_iff.mp hready
  rw [hconfig] at hconfig'
  obtain rfl := Option.some.inj hconfig'
  have hcount : jobs.length = results.length := by
    rw [h.inFlight, hidle]
    rfl
  cases sent with
  | false =>
      rw [if_neg Bool.false_ne_true, List.append_nil]
      exact ⟨hcount, h.cursor, h.state, h.whole, h.windows, h.recorded⟩
  | true =>
      have hlength := htime.length_eq
      obtain ⟨hat, -⟩ := h.cursor_eq htime hlt
      have hcursor := run.cursor_eq
      rw [if_pos rfl]
      refine ⟨?_, h.cursor, h.state, ?_, ?_, h.recorded⟩
      · rw [List.length_append, List.length_singleton, hcount]
        rfl
      · rw [List.length_append, List.length_singleton, hcount, Nat.add_mul, Nat.one_mul]
        refine hwhole.imp_left fun hle => ?_
        simp only [LiveRun.scan]
        omega
      · intro k job hjob
        by_cases hk : k < jobs.length
        · rw [List.getElem?_append_left hk] at hjob
          exact h.windows k job hjob
        · obtain ⟨hlast, rfl⟩ : k = jobs.length ∧ run.job.vadJobAt config = job := by
            rw [List.getElem?_append_right (not_lt.mp hk)] at hjob
            have hsingle := List.getElem?_eq_some_iff.mp hjob
            obtain ⟨hin, heq⟩ := hsingle
            rw [List.length_singleton] at hin
            exact ⟨by omega, by simpa [Nat.lt_one_iff.mp hin] using heq⟩
          rw [hlast, hcount]
          exact feedsWindow_vadJobAt htime h hlt

theorem Feeding.record (htime : Timeline run) (hslot : VadSlot run)
    (hrecording : Recording config run) (h : Feeding config run jobs results) {vadJob : VadJob}
    {result : VadResult} (hjob : run.vadJob = some vadJob)
    (hstart : result.startSample = vadJob.startSample) :
    Feeding config (run.record result) jobs (results ++ [result]) := by
  have hlength := htime.length_eq
  obtain ⟨hprocessed, hlt, -⟩ := hrecording.atWorker vadJob hjob
  rw [← hstart] at hprocessed
  obtain ⟨hat, hbegins⟩ := h.cursor_eq htime hlt
  have hcursor := run.cursor_eq
  have hcount : jobs.length = results.length + 1 := by
    rw [h.inFlight, hslot, hjob]
    rfl
  refine ⟨?_, .inl ?_, ?_, h.whole, ?_, ?_⟩
  · rw [List.length_append, List.length_singleton, hcount]
    rfl
  · rw [List.length_append, List.length_singleton, Nat.add_mul, Nat.one_mul]
    simp only [LiveRun.record, LiveRun.cursor, ActiveLiveJob.handleVadResult, hrecording.vadConfig,
      hprocessed, Option.map_some, Option.getD_some]
    omega
  · rw [vadStateAfter, List.getLast?_concat]
    rfl
  · intro k job hjob
    have hfeeds := h.windows k job hjob
    have hk : k ≤ results.length := by
      have hin := (List.getElem?_eq_some_iff.mp hjob).1
      omega
    refine ⟨hfeeds.begins, hfeeds.samples, ?_⟩
    rw [List.take_append_of_le_length hk]
    exact hfeeds.state
  · simp only [LiveRun.record, List.zipIdx_append, List.map_append, h.recorded, Nat.zero_add]
    congr 1
    simp only [List.zipIdx_singleton, List.map_singleton]
    rw [hprocessed, ← hcursor, hat]

theorem Feeding.cut (h : Feeding config run jobs results) {plan : DispatchPlan} (sent : Bool)
    (hne : run.job.audioBuffer ≠ []) (hscanned : plan.endSample ≤ run.job.vadProcessedSamples) :
    Feeding config (run.cut plan sent) jobs results := by
  have hcursor : (run.cut plan sent).cursor = run.cursor := by
    rw [cursor_cut, max_eq_left]
    exact Nat.add_le_add_left hscanned _
  refine ⟨h.inFlight, .inl ?_, h.state, h.whole, h.windows, h.recorded⟩
  rw [hcursor]
  exact h.cursor.resolve_right fun hend => hne hend.2.1

/-- A step that sends nothing to VAD and brings no answer of it. -/
theorem Feeding.quiet (h : Feeding config run' jobs results) (hsent : run.sentVadJob event = [])
    (hresult : vadResults [event] = []) :
    Feeding config run' (jobs ++ run.sentVadJob event) (results ++ vadResults [event]) := by
  rw [hsent, hresult, List.append_nil, List.append_nil]
  exact h

theorem Feeding.step (hwindow : 1 ≤ config.windowSamples)
    (haudio : AudioInvariant (some config) run) (h : Feeding config run jobs results)
    (hstep : ScannedStep maxInFlight run event run') :
    Feeding config run' (jobs ++ run.sentVadJob event) (results ++ vadResults [event]) := by
  obtain ⟨hstep, hscanned⟩ := hstep
  obtain ⟨⟨-, henabled⟩, rfl⟩ := step_eq_some_iff.mp hstep
  have htime := haudio.timeline
  cases event with
  | arrive chunk =>
      exact .quiet (h.congr (sameAudio_arrive run chunk) rfl) rfl rfl
  | hangUp =>
      exact .quiet (h.congr (sameAudio_hangUp run) rfl) rfl rfl
  | drain =>
      obtain ⟨chunkRx, closed, hdrain, -, -⟩ := run.job.drainLiveChunks_spec maxInFlight
      obtain ⟨closed', hclosed, hsame⟩ := sameAudio_drain maxInFlight run
      refine .quiet ((h.accept _ closed' hclosed).congr hsame ?_) rfl rfl
      simp only [LiveRun.next, hdrain, LiveRun.accept]
  | refresh =>
      refine .quiet ?_ rfl rfl
      simp only [LiveRun.next]
      obtain hsame | ⟨config', hsilent⟩ := run.job.refreshSpeechState_cases
      · rw [hsame]
        exact h
      · rw [ActiveLiveJob.refreshSpeechState_of_silent hsilent]
        exact h.clear htime hsilent
  | sendVad sent =>
      have hconfig := haudio.vadConfig
      have hsend := ActiveLiveJob.sendVadJob_of_ready hconfig henabled sent
      have hscan := h.scan htime hconfig henabled sent
      have hresult : vadResults [.sendVad sent] = [] := rfl
      have hjobs : (if sent then some (run.job.vadJobAt config) else none).toList =
          if sent then [run.job.vadJobAt config] else [] := by
        cases sent <;> rfl
      rw [hresult, List.append_nil]
      simp only [sentVadJob, LiveRun.next, hsend, hjobs]
      exact hscan
  | vadResult result =>
      simp only [Enabled] at henabled
      split at henabled
      · rename_i vadJob hjob
        have hsent : run.sentVadJob (.vadResult result) = [] := rfl
        have hresult : vadResults [.vadResult result] = [result] := rfl
        rw [hsent, hresult, List.append_nil]
        exact h.record htime haudio.slot (haudio.recording config rfl) hjob henabled.2.2
      · exact henabled.elim
  | dispatch sent =>
      obtain ⟨-, -, plan, hplan⟩ := ActiveLiveJob.mayDispatch_iff.mp henabled.2
      have hbounds := plan_bounds htime (fun config' hconfig => by
        rw [haudio.vadConfig] at hconfig
        obtain rfl := Option.some.inj hconfig
        exact ⟨hwindow, haudio.recording config rfl⟩) hplan
      have hne : run.job.audioBuffer ≠ [] := by
        rw [← List.length_pos_iff]
        omega
      have hcut := h.cut sent hne (hscanned plan hplan)
      refine .quiet (hcut.congr (sameAudio_dispatch hplan sent) ?_) rfl rfl
      simp only [LiveRun.next, ActiveLiveJob.dispatchToWorker_eq hplan]
      cases sent <;> rfl
  | whisperResult result =>
      obtain ⟨emitted, pending, hjob, -⟩ := run.job.handleResult_spec result
      refine .quiet (h.congr (sameAudio_whisperResult run result) ?_) rfl rfl
      simp only [LiveRun.next, hjob]
  | finish =>
      refine .quiet (h.congr (sameAudio_finish run) ?_) rfl rfl
      simp only [LiveRun.next, ActiveLiveJob.finishIfComplete]
      split <;> rfl
  | abort error =>
      exact .quiet (h.congr (sameAudio_abort run error) rfl) rfl rfl

theorem feeding {jobId : Nat} {header : RequestHeader} {chunkRx : ChunkReceiver}
    {events : List Event} (hwindow : 1 ≤ (VadConfig.ofHeader header).windowSamples)
    (hrun : Run (ScannedStep maxInFlight) (start jobId header chunkRx true) events run) :
    AudioInvariant (some (VadConfig.ofHeader header)) run ∧
      Feeding (VadConfig.ofHeader header) run
        (vadJobs maxInFlight (start jobId header chunkRx true) events) (vadResults events) := by
  refine hrun.invariant_history (P := fun events jobs run =>
    AudioInvariant (some (VadConfig.ofHeader header)) run ∧
      Feeding (VadConfig.ofHeader header) run jobs (vadResults events)) ?_
    ⟨AudioInvariant.start jobId header chunkRx true, .start _ jobId header chunkRx true⟩ ?_
  · intro state event state' hstep
    exact (step_eq_some_iff.mp hstep.1).2.symm
  · intro events jobs state event state' hinv hstep
    have hresults : vadResults (events ++ [event]) = vadResults events ++ vadResults [event] :=
      List.flatMap_append
    rw [hresults]
    refine ⟨hinv.1.step ?_ (audioStep hstep.1), hinv.2.step hwindow hinv.1 hstep⟩
    intro config hconfig
    obtain rfl := Option.some.inj hconfig
    exact hwindow

/-! ### The offline loop -/

/-- Fed the same windows, with every state passed on, the offline loop records what was answered. -/
theorem probsFrom_eq {speechProbability : List F32 → List F32 → F32 × List F32}
    {audio : List F32} {windowSamples : Nat} (starts : List Nat) (results : List VadResult)
    (hlength : starts.length = results.length) :
    ∀ before : List VadResult, (∀ k start result, starts[k]? = some start →
        results[k]? = some result → (result.probability, result.state) =
          speechProbability (VadModel.window audio windowSamples start)
            (vadStateAfter (before ++ results.take k))) →
      VadModel.probsFrom speechProbability audio windowSamples starts (vadStateAfter before) =
        (starts.zip results).map fun (start, result) => (start, result.probability) := by
  induction starts generalizing results with
  | nil => intro _ _; rfl
  | cons start starts ih =>
      intro before hanswers
      cases results with
      | nil => cases hlength
      | cons result results =>
          have hfirst := hanswers 0 start result rfl rfl
          rw [List.take_zero, List.append_nil] at hfirst
          have hstate : vadStateAfter (before ++ [result]) = result.state := by
            rw [vadStateAfter, List.getLast?_concat]
            rfl
          have hrest := ih results (by simpa using hlength) (before ++ [result]) ?_
          · rw [hstate] at hrest
            rw [VadModel.probsFrom, ← hfirst]
            exact congrArg (List.cons _) hrest
          · intro k start' result' hstart' hresult'
            have hnext := hanswers (k + 1) start' result' hstart' hresult'
            rwa [List.take_succ_cons, List.append_cons] at hnext

/-- The answers are those of one model. -/
def AnsweredBy (speechProbability : List F32 → List F32 → F32 × List F32) (jobs : List VadJob)
    (results : List VadResult) : Prop :=
  ∀ (k : Nat) (job : VadJob) (result : VadResult), jobs[k]? = some job → results[k]? = some result →
    (result.probability, result.state) = speechProbability job.samples job.state

theorem Feeding.count_eq (hwindow : 1 ≤ config.windowSamples) (htime : Timeline run)
    (h : Feeding config run jobs results) (hcomplete : run.job.isComplete = true) :
    jobs.length = results.length ∧
      Stride.count config.windowSamples run.accepted.length = results.length := by
  have hlength := htime.length_eq
  have hcursor := run.cursor_eq
  simp only [ActiveLiveJob.isComplete, Bool.and_eq_true, List.isEmpty_iff, Bool.not_eq_true']
    at hcomplete
  obtain ⟨⟨⟨-, hempty⟩, -⟩, hidle⟩ := hcomplete
  have hcount : jobs.length = results.length := by
    rw [h.inFlight, hidle]
    rfl
  refine ⟨hcount, Stride.count_eq hwindow ?_ ?_⟩
  · intro k hk
    rw [← hcount] at hk
    exact (h.windows k _ (List.getElem?_eq_getElem hk)).begins
  · rw [hempty, List.length_nil] at hlength
    obtain hat | ⟨-, -, hle⟩ := h.cursor
    · omega
    · exact hle

/-- In the end the windows sent are all windows of the stream. -/
theorem Feeding.samples_eq (hwindow : 1 ≤ config.windowSamples) (htime : Timeline run)
    (h : Feeding config run jobs results) (hcomplete : run.job.isComplete = true) :
    jobs.map VadJob.samples =
      (Stride.starts config.windowSamples run.accepted.length).map
        (VadModel.window run.accepted config.windowSamples) := by
  obtain ⟨hjobs, hcount⟩ := h.count_eq hwindow htime hcomplete
  rw [← hjobs] at hcount
  apply List.ext_getElem?
  intro k
  rw [List.getElem?_map, List.getElem?_map]
  by_cases hk : k < jobs.length
  · have hjob := List.getElem?_eq_getElem hk
    have hfeeds := h.windows k _ hjob
    rw [Stride.getElem?_starts (hcount ▸ hk), hjob, Option.map_some, Option.map_some,
      hfeeds.samples]
  · have hstarts := Stride.length_starts config.windowSamples run.accepted.length
    rw [List.getElem?_eq_none (by omega), List.getElem?_eq_none (by omega)]
    rfl

/-- What is recorded are the answers, each at the start of its window. -/
theorem Feeding.recorded_eq (h : Feeding config run jobs results)
    (hcount : Stride.count config.windowSamples run.accepted.length = results.length) :
    run.recorded = ((Stride.starts config.windowSamples run.accepted.length).zip results).map
      fun (start, result) => (start, result.probability) := by
  rw [h.recorded]
  apply List.ext_getElem?
  intro k
  by_cases hk : k < results.length
  · have hresult := List.getElem?_eq_getElem hk
    have hpair : ((Stride.starts config.windowSamples run.accepted.length).zip results)[k]? =
        some (k * config.windowSamples, results[k]) :=
      List.getElem?_zip_eq_some.mpr ⟨Stride.getElem?_starts (hcount ▸ hk), hresult⟩
    rw [List.getElem?_map, List.getElem?_map, List.getElem?_zipIdx, hpair, hresult,
      Option.map_some, Option.map_some, Nat.zero_add, Option.map_some]
  · rw [List.getElem?_eq_none (by simp; omega), List.getElem?_eq_none (by simp; omega)]

/-- Then the offline loop, which is fed these windows, records the same. -/
theorem Feeding.offline (hwindow : 1 ≤ config.windowSamples) (htime : Timeline run)
    (h : Feeding config run jobs results) (hcomplete : run.job.isComplete = true)
    {speechProbability : List F32 → List F32 → F32 × List F32}
    (hanswers : AnsweredBy speechProbability jobs results) :
    run.recorded = VadModel.probs speechProbability run.accepted config := by
  obtain ⟨hjobs, hcount⟩ := h.count_eq hwindow htime hcomplete
  rw [h.recorded_eq hcount]
  symm
  apply probsFrom_eq _ results ((Stride.length_starts _ _).trans hcount) []
  intro k start result hstart hresult
  obtain ⟨hk, -⟩ := List.getElem?_eq_some_iff.mp hresult
  rw [Stride.getElem?_starts (hcount ▸ hk)] at hstart
  obtain rfl := Option.some.inj hstart
  have hjob := List.getElem?_eq_getElem (hjobs ▸ hk)
  have hfeeds := h.windows k _ hjob
  have hanswer := hanswers k _ result hjob hresult
  rw [hfeeds.samples, hfeeds.state] at hanswer
  exact hanswer

/-- What the offline loop would have been fed: window after window, each with the state of the one
before, and in the end all of them. -/
structure FeedsOffline (config : VadConfig) (run : LiveRun) (jobs : List VadJob)
    (results : List VadResult) : Prop where
  oneInFlight : jobs.length ≤ results.length + 1
  windows : ∀ k job, jobs[k]? = some job →
    FeedsWindow config.windowSamples run.accepted results k job
  complete : run.job.isComplete = true → jobs.map VadJob.samples =
    (Stride.starts config.windowSamples run.accepted.length).map
      (VadModel.window run.accepted config.windowSamples)
  offline : run.job.isComplete = true → ∀ speechProbability,
    AnsweredBy speechProbability jobs results →
      run.recorded = VadModel.probs speechProbability run.accepted config

/-- **The live VAD feed is the offline feed**, in every run that cuts off nothing VAD has not seen. -/
theorem vadFeed_eq_offline {jobId : Nat} {header : RequestHeader} {chunkRx : ChunkReceiver}
    {events : List Event} (hwindow : 1 ≤ (VadConfig.ofHeader header).windowSamples)
    (hrun : Run (ScannedStep maxInFlight) (start jobId header chunkRx true) events run) :
    FeedsOffline (VadConfig.ofHeader header) run
      (vadJobs maxInFlight (start jobId header chunkRx true) events) (vadResults events) := by
  obtain ⟨haudio, hfeeding⟩ := feeding hwindow hrun
  have hcount := hfeeding.inFlight
  refine ⟨?_, hfeeding.windows, ?_, ?_⟩
  · split at hcount <;> omega
  · intro hcomplete
    exact hfeeding.samples_eq hwindow haudio.timeline hcomplete
  · intro hcomplete speechProbability hanswers
    exact hfeeding.offline hwindow haudio.timeline hcomplete hanswers

instance (run : LiveRun) (event : Event) : Decidable (run.ScannedCut event) :=
  match event with
  | .dispatch _ => decidable_of_iff (∀ plan ∈ run.job.nextDispatchPlan,
      plan.endSample ≤ run.job.vadProcessedSamples) Iff.rfl
  | .arrive _ | .hangUp | .drain | .refresh | .sendVad _ | .vadResult _ | .whisperResult _
  | .finish | .abort _ => isTrue trivial

def scannedStep (maxInFlight : Nat) (run : LiveRun) (event : Event) : Option LiveRun :=
  if run.ScannedCut event then run.step maxInFlight event else none

theorem scannedStep_of_eq_some (maxInFlight : Nat) (run : LiveRun) (event : Event) (run' : LiveRun)
    (h : run.scannedStep maxInFlight event = some run') : ScannedStep maxInFlight run event run' := by
  rw [scannedStep, Option.ite_none_right_eq_some] at h
  exact ⟨h.2, h.1⟩

/-- The word of three samples: a cut behind the second, when VAD has seen all of them. -/
theorem vadFeed_eq_offline_word : ∃ run,
    Run (ScannedStep 3) (start 7 wordHeader {} true) wordEvents run ∧
      run.job.isComplete = true ∧ FeedsOffline (VadConfig.ofHeader wordHeader) run
        (vadJobs 3 (start 7 wordHeader {} true) wordEvents) (vadResults wordEvents) := by
  have hfold : ((wordEvents.foldlM (scannedStep 3) (start 7 wordHeader {} true)).map fun run =>
      run.job.isComplete) = some true := by
    decide +kernel
  obtain ⟨run, hstate, hcomplete⟩ := Option.map_eq_some_iff.mp hfold
  have hrun := Run.of_foldlM (scannedStep_of_eq_some 3) hstate
  exact ⟨run, hrun, hcomplete, vadFeed_eq_offline (by decide) hrun⟩

/-! ### A cut behind the cursor -/

/-- The stream is still open, and `count` windows of it have been found to be speech. -/
def heard (samples : List F32) (count : Nat) : LiveRun :=
  { job :=
      { jobId := 0
        chunkRx := {}
        audioBuffer := samples
        vadConfig := some (VadConfig.ofHeader {})
        vadProcessedSamples := 512 * count
        nextVadWindowIndex := count
        probs := speechProbs count
        options := .ofHeader {} }
    accepted := samples
    recorded := speechProbs count }

def hearEvents (samples : List F32) (count : Nat) : List Event :=
  [.arrive (.ok { samples }), .drain] ++ scanEvents count

theorem length_vadResults_hearEvents (samples : List F32) (count : Nat) :
    (vadResults (hearEvents samples count)).length = count := by
  have hscan : ∀ count, (vadResults (scanEvents count)).length = count := by
    intro count
    induction count with
    | zero => rfl
    | succ count ih =>
        have hround : vadResults (scanEvents (count + 1)) =
            vadResults (scanEvents count) ++ [speechResult count] := List.flatMap_append
        rw [hround, List.length_append, ih, List.length_singleton]
  exact hscan count

theorem run_heard {samples : List F32} {count : Nat} (h : 512 * count ≤ samples.length) :
    Run (ScannedStep 2) (start 0 {} {} true) (hearEvents samples count) (heard samples count) := by
  induction count with
  | zero =>
      have harrive : ScannedStep 2 (start 0 {} {} true) (.arrive (.ok { samples })) _ :=
        ⟨rfl, trivial⟩
      refine .snoc (.single harrive) ⟨step_eq_some_iff.mpr ⟨⟨rfl, trivial⟩, ?_⟩, trivial⟩
      have haudio : audioOf [.ok { samples }] = samples := List.append_nil samples
      exact congrArg (fun accepted => { heard samples 0 with accepted }) haudio
  | succ count ih =>
      have hready : (heard samples count).job.hasVadReady = true :=
        ActiveLiveJob.hasVadReady_iff.mpr ⟨_, rfl, rfl, by simp only [heard]; omega,
          .inl (show 512 * count + 512 ≤ samples.length by omega)⟩
      have hsend : ScannedStep 2 (heard samples count) (.sendVad true)
          ((heard samples count).scan (VadConfig.ofHeader {}) true) := by
        refine ⟨step_eq_some_iff.mpr ⟨⟨rfl, hready⟩, ?_⟩, trivial⟩
        simp only [next, ActiveLiveJob.sendVadJob_of_ready rfl hready]
        rfl
      have hanswer : ScannedStep 2 ((heard samples count).scan (VadConfig.ofHeader {}) true)
          (.vadResult (speechResult count)) (heard samples (count + 1)) := by
        refine ⟨step_eq_some_iff.mpr ⟨⟨rfl, ⟨rfl, rfl, rfl⟩⟩, ?_⟩, trivial⟩
        have hend : min (512 * count + 512) samples.length = 512 * (count + 1) := by omega
        have hzero : 0 + 512 * count = 512 * count := Nat.zero_add _
        simp only [heard, speechProbs_succ, ← hend]
        simp only [next, LiveRun.scan, ActiveLiveJob.handleVadResult, speechResult, hzero]
        rfl
      exact (ih (by omega)).trans (.snoc (.single hsend) hanswer)

theorem segmentsFromProbs_heard : segmentsFromProbs 480200 (speechProbs 937)
    (VadConfig.ofHeader {}) = [.ofInterval (0, 480200)] := by
  decide +kernel

theorem segments_heard (samples : List F32) (count : Nat) :
    (heard samples count).job.segments (VadConfig.ofHeader {}) =
      segmentsFromProbs samples.length (speechProbs count) (VadConfig.ofHeader {}) := rfl

/-- The padded end of the speech lies behind the cursor, and so does the thirtieth second. -/
theorem plan_heard {samples : List F32} (h : samples.length = 480200) :
    (heard samples 937).job.nextDispatchPlan = some ⟨0, 480000, [(0, 480000)]⟩ := by
  have hsegments := segments_heard samples 937
  rw [h, segmentsFromProbs_heard] at hsegments
  rw [ActiveLiveJob.nextDispatchPlan_of_segments rfl hsegments]
  rfl

/-- The job after a cut, closed and with one window in flight. -/
def cutAndClosed (samples : List F32) (count : Nat) (plan : DispatchPlan) : ActiveLiveJob :=
  { ((heard samples count).job.cut plan).countDispatch with
    chunkRx := { disconnected := true }
    producerClosed := true }

theorem run_cutAndClosed {samples : List F32} {count : Nat} {plan : DispatchPlan}
    (hlength : samples.length < 512 * (count + 1))
    (hplan : (heard samples count).job.nextDispatchPlan = some plan) :
    ∃ run, Run (Step 2) (heard samples count) [.dispatch true, .hangUp, .drain] run ∧
      run.job = cutAndClosed samples count plan ∧ run.accepted = samples ∧
      run.removed = false := by
  have hready : (heard samples count).job.hasVadReady = false := by
    rw [← Bool.not_eq_true, ActiveLiveJob.hasVadReady_iff]
    rintro ⟨config, hconfig, -, -, hle | hclosed⟩
    · obtain rfl : VadConfig.ofHeader {} = config := Option.some.inj hconfig
      have hwindow : (VadConfig.ofHeader {}).windowSamples = 512 := rfl
      simp only [heard, hwindow] at hle
      omega
    · cases hclosed
  have hmay : (heard samples count).job.mayDispatch 2 = true :=
    ActiveLiveJob.mayDispatch_iff.mpr ⟨Nat.two_pos, rfl, _, hplan⟩
  have hdispatch : Step 2 (heard samples count) (.dispatch true) _ :=
    step_eq_some_iff.mpr ⟨⟨rfl, hready, hmay⟩, rfl⟩
  refine ⟨_, .snoc (.snoc (.single hdispatch) rfl) rfl, ?_, ?_, rfl⟩
  · simp only [next, ActiveLiveJob.dispatchToWorker_eq hplan]
    rfl
  · simp only [next, ActiveLiveJob.dispatchToWorker_eq hplan]
    exact List.append_nil _

/-- The window that is sent next begins behind the cut, not where VAD has come to. -/
theorem sentVadJob_cutAndClosed {samples : List F32} {count : Nat} {plan : DispatchPlan}
    (hjob : run.job = cutAndClosed samples count plan) (hlt : plan.endSample < samples.length)
    (hcut : 512 * count ≤ plan.endSample) :
    run.job.hasVadReady = true ∧ ∃ job, run.sentVadJob (.sendVad true) = [job] ∧
      job.samples.length ≤ samples.length - plan.endSample := by
  have hconfig : run.job.vadConfig = some (VadConfig.ofHeader {}) := by
    rw [hjob]
    rfl
  have hprocessed : run.job.vadProcessedSamples = 0 := by
    rw [hjob]
    exact Nat.sub_eq_zero_of_le hcut
  have hbuffer : run.job.audioBuffer = samples.drop plan.endSample := by
    rw [hjob]
    rfl
  have hready : run.job.hasVadReady = true := by
    refine ActiveLiveJob.hasVadReady_iff.mpr ⟨_, hconfig, ?_, ?_, .inr ?_⟩
    · rw [hjob]
      rfl
    · rw [hprocessed, hbuffer, List.length_drop]
      omega
    · rw [hjob]
      rfl
  refine ⟨hready, run.job.vadJobAt (VadConfig.ofHeader {}), ?_, ?_⟩
  · rw [sentVadJob, ActiveLiveJob.sendVadJob_of_ready hconfig hready]
    rfl
  · rw [ActiveLiveJob.vadJobAt, hprocessed, List.drop_zero, List.length_take, hbuffer,
      List.length_drop]
    exact min_le_right _ _

theorem run_sendBehindCut {samples : List F32} {count : Nat} {plan : DispatchPlan}
    (hplan : (heard samples count).job.nextDispatchPlan = some plan)
    (hcut : 512 * count ≤ plan.endSample) (hlt : plan.endSample < samples.length)
    (hlast : samples.length < 512 * (count + 1)) :
    ∃ events run job, Run (Step 2) (start 0 {} {} true) events run ∧
      (vadJobs 2 (start 0 {} {} true) events)[count]? = some job ∧
      job.samples.length ≤ samples.length - plan.endSample ∧ run.accepted = samples := by
  have hheard := @run_heard samples count (by omega)
  have hcount := (feeding (by decide) hheard).2.inFlight
  have hidle : (heard samples count).job.vadInFlight = false := rfl
  rw [length_vadResults_hearEvents, hidle, if_neg Bool.false_ne_true, Nat.add_zero] at hcount
  obtain ⟨run, hrest, hjob, haccepted, hremoved⟩ := run_cutAndClosed hlast hplan
  have hrun := (hheard.mono fun _ _ _ hstep => hstep.1).trans hrest
  obtain ⟨hready, job, hsent, hshort⟩ := sentVadJob_cutAndClosed hjob hlt hcut
  have hstep : Step 2 run (.sendVad true) (run.next 2 (.sendVad true)) :=
    step_eq_some_iff.mpr ⟨⟨hremoved, hready⟩, rfl⟩
  have hnext : ∀ run event run', Step 2 run event run' → run' = run.next 2 event :=
    fun _ _ _ hstep => (step_eq_some_iff.mp hstep).2.symm
  have hsame : vadJobs 2 (start 0 {} {} true)
      (hearEvents samples count ++ [.dispatch true, .hangUp, .drain]) =
        vadJobs 2 (start 0 {} {} true) (hearEvents samples count) := by
    rw [vadJobs, history_append]
    exact List.append_nil _
  have hjobs : vadJobs 2 (start 0 {} {} true)
      (hearEvents samples count ++ [.dispatch true, .hangUp, .drain] ++ [.sendVad true]) =
        vadJobs 2 (start 0 {} {} true) (hearEvents samples count) ++ [job] := by
    rw [← hsame, ← hsent]
    exact hrun.history_snoc hnext _
  refine ⟨_, _, job, hrun.snoc hstep, ?_, hshort, haccepted⟩
  rw [hjobs, List.getElem?_append_right hcount.le, hcount, Nat.sub_self]
  rfl

/-- 480200 samples of speech: VAD has come to sample 479744 when the thirtieth second is cut off,
and goes on at sample 480000. -/
theorem not_feedsOffline_cutBehind : ¬ ∀ (maxInFlight jobId : Nat) (header : RequestHeader)
    (chunkRx : ChunkReceiver) (events : List Event) (run : LiveRun),
    1 ≤ (VadConfig.ofHeader header).windowSamples →
    Run (Step maxInFlight) (start jobId header chunkRx true) events run →
    FeedsOffline (VadConfig.ofHeader header) run
      (vadJobs maxInFlight (start jobId header chunkRx true) events) (vadResults events) := by
  intro hclaim
  obtain ⟨samples, hlength⟩ : ∃ samples : List F32, samples.length = 480200 :=
    ⟨List.replicate 480200 (F32.ofNat 1), List.length_replicate⟩
  obtain ⟨events, run, job, hrun, hjob, hshort, haccepted⟩ :=
    run_sendBehindCut (plan_heard hlength) (by decide) (by rw [hlength]; decide)
      (by rw [hlength]; decide)
  have hfeeds := (hclaim 2 0 {} {} events run (by decide) hrun).windows 937 job hjob
  have hwindow : (VadConfig.ofHeader {}).windowSamples = 512 := rfl
  have hsamples := congrArg List.length hfeeds.samples
  rw [haccepted, VadModel.window, List.length_drop, List.length_take, hlength, hwindow] at hsamples
  rw [hlength] at hshort
  have hcut : 480200 - (⟨0, 480000, [(0, 480000)]⟩ : DispatchPlan).endSample = 200 := rfl
  omega

end LiveRun

end RkWhisper
