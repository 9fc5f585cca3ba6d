import RkWhisper.Proof.Delivery
import RkWhisper.Lib.Resegmentation
import RkWhisper.Proof.Timeline

/-!
# The speech that a job announces

With each window that it cuts off, a job tells its session where speech begins and ends in it.
-/

namespace RkWhisper

open Transition Segmentation

def JobResponse.isSpeech : JobResponse → Bool
  | .speechStarted _ => true
  | .speechEnded _ => true
  | _ => false

/-- A window cut off, whether a worker received it, and the speech announced for it, all in samples
of the stream. -/
structure AnnouncedWindow where
  window : DispatchedWindow
  sent : Bool
  speech : List Interval

namespace AnnouncedWindow

def responses (announced : AnnouncedWindow) : List JobResponse :=
  announced.speech.flatMap fun interval =>
    [.speechStarted (samplesToSec interval.1), .speechEnded (samplesToSec interval.2)]

/-- The speech begins and ends with the window, and is inside it. -/
structure Spans (announced : AnnouncedWindow) : Prop where
  head : announced.speech.head?.map Prod.fst = some announced.window.startSample
  last : announced.speech.getLast?.map Prod.snd = some announced.window.stopSample
  inside : ∀ interval ∈ announced.speech,
    announced.window.startSample ≤ interval.1 ∧ interval.2 ≤ announced.window.stopSample

end AnnouncedWindow

/-! ### The speech of a plan -/

/-- The speech of a plan, each part behind the one before, from its start to its end. -/
structure DispatchPlan.Announces (plan : DispatchPlan) : Prop where
  follow : Follow plan.startSample plan.speechEvents
  head : plan.speechEvents.head?.map Prod.fst = some plan.startSample
  last : plan.speechEvents.getLast?.map Prod.snd = some plan.endSample

/-- The speech lies between the start of the plan and its end. -/
theorem DispatchPlan.Announces.inside {plan : DispatchPlan} (h : plan.Announces) :
    ∀ interval ∈ plan.speechEvents,
      plan.startSample ≤ interval.1 ∧ interval.2 ≤ plan.endSample := by
  obtain ⟨last, hlast, hend⟩ := Option.map_eq_some_iff.mp h.last
  obtain ⟨front, hevents⟩ := List.getLast?_eq_some_iff.mp hlast
  have hfollow := h.follow
  intro interval hmem
  rw [hevents] at hfollow hmem
  rw [← hend]
  exact ⟨(hfollow.of_mem hmem).1, hfollow.stop_le_last interval hmem⟩

namespace ActiveLiveJob

variable {job : ActiveLiveJob} {config : VadConfig} {plan : DispatchPlan} {first last : Interval}
  {intervals front : List Interval}

/-- Either the first segment is cut after thirty seconds, or what fits is announced as it is. -/
theorem Packs.announces (h : Packs plan intervals first front last) (hfollow : Follow 0 intervals) :
    plan.Announces := by
  have hstart := h.start_eq
  have hend := h.end_eq
  have hevents := h.events_eq
  obtain ⟨back, hsplit⟩ := h.taken
  rw [← hsplit] at hfollow
  have htaken := hfollow.front
  obtain ⟨rfl, hfirst⟩ | hfits := h.fits
  · have hne := (htaken.of_mem (List.mem_singleton_self last)).2
    have hmin : min last.2 plan.endSample = plan.endSample := by
      rw [hend]
      split <;> omega
    have hcut : plan.speechEvents = [(plan.startSample, plan.endSample)] := by
      rw [hevents, hstart, List.nil_append, List.map_singleton, hmin, hfirst]
    refine ⟨?_, ?_, ?_⟩ <;> rw [hcut]
    · refine ⟨le_rfl, ?_, trivial⟩
      rw [hstart, hend, ← hfirst]
      split <;> omega
    · rfl
    · rfl
  · have hlast : last ∈ front ++ [last] := List.mem_append_right _ (List.mem_singleton_self last)
    have hlength := hfits last hlast
    have hfirst := htaken.of_mem (List.mem_of_head? h.head)
    have hstop : plan.endSample = last.2 := by
      have hbehind := htaken.stop_le_last first (List.mem_of_head? h.head)
      rw [hend]
      split <;> omega
    have hsame : plan.speechEvents = front ++ [last] := by
      rw [hevents, hstop]
      apply (List.map_congr_left ?_).trans (List.map_id' _)
      intro interval hmem
      rw [min_eq_left (htaken.stop_le_last interval hmem)]
    refine ⟨?_, ?_, ?_⟩ <;> rw [hsame]
    · rw [hstart]
      exact htaken.from_head h.head
    · rw [h.head, hstart, Option.map_some]
    · rw [List.getLast?_concat, Option.map_some, hstop]

end ActiveLiveJob

namespace LiveRun

variable {maxInFlight : Nat} {config : VadConfig} {run run' : LiveRun} {event : Event}

/-- What a dispatch announces of the plan. -/
def announce (run : LiveRun) (sent : Bool) (plan : DispatchPlan) : AnnouncedWindow :=
  { window := run.window plan
    sent
    speech := plan.speechEvents.map (moveInterval run.job.absoluteOffsetSamples) }

def announcedNow (run : LiveRun) : Event → List AnnouncedWindow
  | .dispatch sent => run.job.nextDispatchPlan.toList.map (run.announce sent)
  | _ => []

/-- The windows of a run that were cut off, in their order. -/
def announcedWindows (maxInFlight : Nat) (start : LiveRun) (events : List Event) :
    List AnnouncedWindow :=
  history (LiveRun.next maxInFlight) announcedNow start events

theorem responses_announce (run : LiveRun) (sent : Bool) (plan : DispatchPlan) :
    (run.announce sent plan).responses = run.job.speechResponses plan := by
  unfold AnnouncedWindow.responses announce ActiveLiveJob.speechResponses
  rw [List.flatMap_map]
  apply List.flatMap_congr
  rintro ⟨start, stop⟩ -
  simp only [moveInterval, Nat.add_comm]

theorem spans_announce (run : LiveRun) (sent : Bool) {plan : DispatchPlan} (h : plan.Announces) :
    (run.announce sent plan).Spans := by
  have hmove : ∀ (f : Interval → Nat), (∀ shift interval,
      f (moveInterval shift interval) = f interval + shift) →
      f ∘ moveInterval run.job.absoluteOffsetSamples =
        (run.job.absoluteOffsetSamples + ·) ∘ f := by
    intro f hshift
    funext interval
    exact (hshift _ interval).trans (Nat.add_comm _ _)
  refine ⟨?_, ?_, ?_⟩
  · unfold announce window
    rw [List.head?_map, Option.map_map, hmove _ fun _ _ => rfl, ← Option.map_map, h.head,
      Option.map_some]
  · unfold announce window
    rw [List.getLast?_map, Option.map_map, hmove _ fun _ _ => rfl, ← Option.map_map, h.last,
      Option.map_some]
  · intro moved hmem
    obtain ⟨interval, hinterval, rfl⟩ := List.mem_map.mp hmem
    have hinside := h.inside interval hinterval
    simp only [announce, window, moveInterval]
    omega

theorem announces_plan (haudio : AudioInvariant (some config) run)
    (hwindow : 1 ≤ config.windowSamples) {plan : DispatchPlan}
    (hplan : run.job.nextDispatchPlan = some plan) : plan.Announces := by
  have hordered := (haudio.recording config rfl).ordered hwindow haudio.timeline
  obtain ⟨first, front, last, hpacks⟩ :=
    ActiveLiveJob.exists_packs haudio.vadConfig hordered hplan
  exact hpacks.announces (follow_segments hordered VadConfig.windows_stop_le)

/-- What has been announced lies in front of what is still in the buffer. -/
structure Announcing (run : LiveRun) (announced : List AnnouncedWindow) : Prop where
  responses : run.job.responseTx.filter JobResponse.isSpeech =
    announced.flatMap AnnouncedWindow.responses
  follow : Follow 0 (announced.flatMap AnnouncedWindow.speech)
  stop_le : ∀ interval ∈ announced.flatMap AnnouncedWindow.speech,
    interval.2 ≤ run.job.absoluteOffsetSamples
  spans : ∀ window ∈ announced, window.Spans
  dispatched : run.dispatched =
    (announced.filter AnnouncedWindow.sent).map AnnouncedWindow.window

variable {announced : List AnnouncedWindow}

/-- A step that announces nothing. -/
theorem Announcing.quiet {responses : List JobResponse} (h : Announcing run announced)
    (hresponses : run'.job.responseTx = run.job.responseTx ++ responses)
    (hsilent : ∀ response ∈ responses, response.isSpeech = false)
    (hoffset : run.job.absoluteOffsetSamples ≤ run'.job.absoluteOffsetSamples)
    (hdispatched : run'.dispatched = run.dispatched) : Announcing run' (announced ++ []) := by
  rw [List.append_nil]
  refine ⟨?_, h.follow, ?_, h.spans, hdispatched.trans h.dispatched⟩
  · have hnone : responses.filter JobResponse.isSpeech = [] := by
      rw [List.filter_eq_nil_iff]
      intro response hmem
      rw [hsilent response hmem]
      exact Bool.false_ne_true
    rw [hresponses, List.filter_append, hnone, List.append_nil]
    exact h.responses
  · intro interval hmem
    exact (h.stop_le interval hmem).trans hoffset

theorem isSpeech_of_mem_speechResponses {job : ActiveLiveJob} {plan : DispatchPlan}
    {response : JobResponse} (h : response ∈ job.speechResponses plan) :
    response.isSpeech = true := by
  obtain ⟨interval, -, hmem⟩ := List.mem_flatMap.mp h
  obtain rfl | hmem := List.mem_cons.mp hmem
  · rfl
  · obtain rfl := List.mem_singleton.mp hmem
    rfl

theorem Announcing.announce (h : Announcing run announced) {plan : DispatchPlan} (sent : Bool)
    (hannounces : plan.Announces)
    (hresponses : run'.job.responseTx = run.job.responseTx ++ run.job.speechResponses plan)
    (hoffset : run'.job.absoluteOffsetSamples = run.job.absoluteOffsetSamples + plan.endSample)
    (hdispatched : run'.dispatched = run.dispatched ++ if sent then [run.window plan] else []) :
    Announcing run' (announced ++ [run.announce sent plan]) := by
  have hspans := spans_announce run sent hannounces
  have hspeech : (announced ++ [run.announce sent plan]).flatMap AnnouncedWindow.speech =
      announced.flatMap AnnouncedWindow.speech ++ (run.announce sent plan).speech := by
    rw [List.flatMap_append, List.flatMap_singleton]
  refine ⟨?_, ?_, ?_, ?_, ?_⟩
  · have hall : (run.job.speechResponses plan).filter JobResponse.isSpeech =
        run.job.speechResponses plan :=
      List.filter_eq_self.mpr fun _ hmem => isSpeech_of_mem_speechResponses hmem
    rw [hresponses, List.filter_append, hall, h.responses, List.flatMap_append,
      List.flatMap_singleton, responses_announce]
  · rw [hspeech]
    apply h.follow.append (hannounces.follow.move run.job.absoluteOffsetSamples) (Nat.zero_le _)
    intro interval hmem
    exact (h.stop_le interval hmem).trans (Nat.le_add_left _ _)
  · rw [hspeech, List.forall_mem_append, hoffset]
    refine ⟨fun interval hmem => (h.stop_le interval hmem).trans (Nat.le_add_right _ _), ?_⟩
    exact fun interval hmem => (hspans.inside interval hmem).2
  · exact List.forall_mem_append.mpr ⟨h.spans, List.forall_mem_singleton.mpr hspans⟩
  · rw [hdispatched, h.dispatched, List.filter_append, List.map_append]
    cases sent <;> rfl

theorem Announcing.step (hwindow : 1 ≤ config.windowSamples)
    (haudio : AudioInvariant (some config) run) (h : Announcing run announced)
    (hstep : Step maxInFlight run event run') :
    Announcing run' (announced ++ run.announcedNow event) := by
  obtain ⟨⟨-, henabled⟩, rfl⟩ := step_eq_some_iff.mp hstep
  have hnone : ∀ response ∈ ([] : List JobResponse), response.isSpeech = false :=
    fun _ hmem => absurd hmem List.not_mem_nil
  cases event with
  | arrive chunk => exact h.quiet (List.append_nil _).symm hnone le_rfl rfl
  | hangUp => exact h.quiet (List.append_nil _).symm hnone le_rfl rfl
  | drain =>
      obtain ⟨chunkRx, closed, hdrain, -, -⟩ := run.job.drainLiveChunks_spec maxInFlight
      have hjob : (run.next maxInFlight .drain).job = run.job.drainLiveChunks maxInFlight := rfl
      rw [hdrain] at hjob
      refine h.quiet (congrArg ActiveLiveJob.responseTx hjob) ?_ ?_ rfl
      · intro response hmem
        obtain ⟨chunk, -, hchunk⟩ := List.mem_flatMap.mp hmem
        cases chunk with
        | ok chunk => cases hchunk
        | error error =>
            obtain rfl := List.mem_singleton.mp hchunk
            rfl
      · exact (congrArg ActiveLiveJob.absoluteOffsetSamples hjob).ge
  | refresh =>
      obtain hsame | ⟨config, hsilent⟩ := run.job.refreshSpeechState_cases
      · have hjob : (run.next maxInFlight .refresh).job = run.job := hsame
        refine h.quiet ?_ hnone ?_ rfl <;> rw [hjob]
        exact (List.append_nil _).symm
      · have hjob : (run.next maxInFlight .refresh).job = run.job.clear :=
          ActiveLiveJob.refreshSpeechState_of_silent hsilent
        refine h.quiet ?_ hnone ?_ rfl <;> rw [hjob]
        · exact (List.append_nil _).symm
        · exact Nat.le_add_right _ _
  | sendVad sent =>
      have hjob := congrArg Prod.snd
        (ActiveLiveJob.sendVadJob_of_ready haudio.vadConfig henabled sent)
      refine h.quiet ?_ hnone ?_ rfl
      · exact (congrArg ActiveLiveJob.responseTx hjob).trans (List.append_nil _).symm
      · exact (congrArg ActiveLiveJob.absoluteOffsetSamples hjob).ge
  | vadResult result => exact h.quiet (List.append_nil _).symm hnone le_rfl rfl
  | dispatch sent =>
      obtain ⟨-, -, plan, hplan⟩ := ActiveLiveJob.mayDispatch_iff.mp henabled.2
      have hannounces := announces_plan haudio hwindow hplan
      have hnow : run.announcedNow (.dispatch sent) = [run.announce sent plan] := by
        rw [announcedNow, hplan]
        rfl
      rw [hnow]
      apply h.announce sent hannounces ?_ (sameAudio_dispatch hplan sent).offset
        (sameAudio_dispatch hplan sent).dispatched
      simp only [LiveRun.next, ActiveLiveJob.dispatchToWorker_eq hplan]
      cases sent <;> rfl
  | whisperResult result =>
      obtain ⟨emitted, pending, hjob, -⟩ := run.job.handleResult_spec result
      refine h.quiet (congrArg ActiveLiveJob.responseTx hjob) ?_ ?_ rfl
      · intro response hmem
        obtain ⟨answer, -, hresponse⟩ := List.mem_flatMap.mp hmem
        obtain ⟨segment, -, rfl⟩ := List.mem_map.mp hresponse
        rfl
      · exact (congrArg ActiveLiveJob.absoluteOffsetSamples hjob).ge
  | finish =>
      have hcomplete : run.job.isComplete = true := henabled
      have hjob : (run.next maxInFlight .finish).job = run.job.send [.finished (.ok run.job.stats)] := by
        simp only [LiveRun.next, ActiveLiveJob.finishIfComplete, if_pos hcomplete]
      refine h.quiet (congrArg ActiveLiveJob.responseTx hjob) ?_ ?_ rfl
      · exact List.forall_mem_singleton.mpr rfl
      · exact (congrArg ActiveLiveJob.absoluteOffsetSamples hjob).ge
  | abort error =>
      have hresponses : (run.next maxInFlight (.abort error)).job.responseTx =
          run.job.responseTx ++ [.finished (.error error)] := rfl
      exact h.quiet hresponses (List.forall_mem_singleton.mpr rfl) le_rfl rfl

theorem announcing {jobId : Nat} {header : RequestHeader} {chunkRx : ChunkReceiver}
    {events : List Event} (hwindow : 1 ≤ (VadConfig.ofHeader header).windowSamples)
    (hrun : Run (Step maxInFlight) (start jobId header chunkRx true) events run) :
    Announcing run (announcedWindows maxInFlight (start jobId header chunkRx true) events) := by
  refine (hrun.invariant_history (P := fun _ announced run =>
    AudioInvariant (some (VadConfig.ofHeader header)) run ∧ Announcing run announced)
    ?_ ?_ ?_).2
  · intro state event state' hstep
    exact (step_eq_some_iff.mp hstep).2.symm
  · refine ⟨AudioInvariant.start jobId header chunkRx true, rfl, trivial, ?_, ?_, rfl⟩
    · exact fun _ hmem => absurd hmem List.not_mem_nil
    · exact fun _ hmem => absurd hmem List.not_mem_nil
  · intro events announced run event run' hinv hstep
    refine ⟨hinv.1.step ?_ (audioStep hstep), hinv.2.step hwindow hinv.1 hstep⟩
    intro config hconfig
    obtain rfl := Option.some.inj hconfig
    exact hwindow

/-- **Speech events form one timeline.** The responses about speech are those of the windows cut
off, a beginning and an end in turn; in samples of the stream each part of speech lies behind the one
before; and for each window they begin and end with it. -/
theorem speechEvents_timeline {jobId : Nat} {header : RequestHeader} {chunkRx : ChunkReceiver}
    {events : List Event} (hwindow : 1 ≤ (VadConfig.ofHeader header).windowSamples)
    (hrun : Run (Step maxInFlight) (start jobId header chunkRx true) events run) :
    let announced := announcedWindows maxInFlight (start jobId header chunkRx true) events
    run.job.responseTx.filter JobResponse.isSpeech =
        announced.flatMap AnnouncedWindow.responses ∧
      Follow 0 (announced.flatMap AnnouncedWindow.speech) ∧
      (∀ window ∈ announced, window.Spans) ∧
      run.dispatched = (announced.filter AnnouncedWindow.sent).map AnnouncedWindow.window := by
  have h := announcing hwindow hrun
  exact ⟨h.responses, h.follow, h.spans, h.dispatched⟩

theorem speechEvents_timeline_word : ∃ run,
    Run (Step 3) (start 7 wordHeader {} true) wordEvents run ∧
      (announcedWindows 3 (start 7 wordHeader {} true) wordEvents).flatMap
        AnnouncedWindow.speech = [(1, 2)] ∧
      run.job.responseTx.filter JobResponse.isSpeech =
        (announcedWindows 3 (start 7 wordHeader {} true) wordEvents).flatMap
          AnnouncedWindow.responses := by
  have hsome : (wordEvents.foldlM (step 3) (start 7 wordHeader {} true)).isSome = true := by
    decide +kernel
  obtain ⟨run, hfold⟩ := Option.isSome_iff_exists.mp hsome
  have hrun : Run (Step 3) (start 7 wordHeader {} true) wordEvents run :=
    Run.of_foldlM (fun _ _ _ hstep => hstep) hfold
  exact ⟨run, hrun, by decide +kernel, (speechEvents_timeline (by decide) hrun).1⟩

end LiveRun

end RkWhisper
