import RkWhisper.Lib.Transition
import RkWhisper.Proof.LiveStep

/-!
# Results are delivered in order and once

Window indices are given out in order, and each is awaited or answered. The segments sent are those
of the answers to the windows before `nextResultIndex`, in order; the answers behind it are pending.
-/

namespace RkWhisper

open Transition

def JobResponse.isSegment : JobResponse → Bool
  | .segment .. => true
  | _ => false

def answerTo (answers : List WindowTranscription) (index : Nat) : Option WindowTranscription :=
  answers.find? fun answer => decide (answer.windowIndex = index)

/-- The segments of the windows `0, …, count - 1`, in this order. -/
def segmentsOfAnswers (answers : List WindowTranscription) (count : Nat) : List JobResponse :=
  (List.range count).flatMap fun index =>
    ((answerTo answers index).map WindowTranscription.responses).getD []

theorem answerTo_append (answers : List WindowTranscription) (result : WindowTranscription)
    (index : Nat) : answerTo (answers ++ [result]) index =
      (answerTo answers index).or (if result.windowIndex = index then some result else none) := by
  rw [answerTo, List.find?_append, List.find?_singleton]
  simp only [decide_eq_true_eq]
  rfl

theorem answerTo_eq_none {answers : List WindowTranscription} {index : Nat} :
    answerTo answers index = none ↔ index ∉ answers.map WindowTranscription.windowIndex := by
  simp [answerTo]

theorem isSome_answerTo {answers : List WindowTranscription} {index : Nat} :
    (answerTo answers index).isSome = true ↔
      index ∈ answers.map WindowTranscription.windowIndex := by
  rw [← Option.ne_none_iff_isSome, ne_eq, answerTo_eq_none, not_not]

theorem isSegment_of_mem_responses {result : WindowTranscription} {response : JobResponse}
    (h : response ∈ result.responses) : response.isSegment = true := by
  obtain ⟨segment, -, rfl⟩ := List.mem_map.mp h
  rfl

theorem answerTo_append_of_isSome {answers : List WindowTranscription} {index : Nat}
    (result : WindowTranscription) (h : (answerTo answers index).isSome = true) :
    answerTo (answers ++ [result]) index = answerTo answers index := by
  rw [answerTo_append, Option.or_of_isSome h]

theorem filter_isSegment_responses (answers : List WindowTranscription) :
    (answers.flatMap WindowTranscription.responses).filter JobResponse.isSegment =
      answers.flatMap WindowTranscription.responses := by
  rw [List.filter_eq_self]
  intro response hmem
  obtain ⟨answer, -, hresponse⟩ := List.mem_flatMap.mp hmem
  exact isSegment_of_mem_responses hresponse

/-- Going through a list by position. -/
theorem flatMap_getElem? {α β : Type*} (f : α → List β) (l : List α) :
    ((List.range l.length).flatMap fun i => (l[i]?.map f).getD []) = l.flatMap f := by
  induction l with
  | nil => rfl
  | cons a l ih =>
      rw [List.length_cons, List.range_succ_eq_map, List.flatMap_cons, List.flatMap_map,
        List.flatMap_cons, ← ih]
      rfl

/-- The answers that follow the first `count` ones add their segments. -/
theorem segmentsOfAnswers_append {answers answers' emitted : List WindowTranscription} {count : Nat}
    (hold : ∀ index < count, answerTo answers' index = answerTo answers index)
    (hnew : ∀ i < emitted.length, answerTo answers' (count + i) = emitted[i]?) :
    segmentsOfAnswers answers' (count + emitted.length) =
      segmentsOfAnswers answers count ++ emitted.flatMap WindowTranscription.responses := by
  rw [segmentsOfAnswers, List.range_add, List.flatMap_append, List.flatMap_map]
  congr 1
  · apply List.flatMap_congr
    intro index hindex
    rw [hold index (List.mem_range.mp hindex)]
  · rw [← flatMap_getElem? WindowTranscription.responses emitted]
    apply List.flatMap_congr
    intro i hi
    rw [hnew i (List.mem_range.mp hi)]

namespace LiveRun

structure Delivery (maxInFlight : Nat) (run : LiveRun) : Prop where
  indices : (run.awaited ++ run.answers.map WindowTranscription.windowIndex).Perm
    (List.range run.job.nextWindowIndex)
  dispatched : run.dispatched.map (fun window => window.whisperJob.windowIndex) =
    List.range run.job.nextWindowIndex
  owner : ∀ window ∈ run.dispatched, window.whisperJob.jobId = run.job.jobId
  options : ∀ window ∈ run.dispatched, window.whisperJob.options = run.job.options
  inFlight : run.job.inFlight = run.awaited.length
  bound : run.job.inFlight ≤ maxInFlight
  windowsDispatched : run.job.stats.windowsDispatched = run.job.nextWindowIndex
  windowsCompleted : run.job.stats.windowsCompleted = run.answers.length
  emitted : ∀ index < run.job.nextResultIndex, (answerTo run.answers index).isSome = true
  next : answerTo run.answers run.job.nextResultIndex = none
  pending : ∀ index, run.job.pendingResults[index]? =
    if index < run.job.nextResultIndex then none else answerTo run.answers index
  segments : run.job.responseTx.filter JobResponse.isSegment =
    segmentsOfAnswers run.answers run.job.nextResultIndex
  finished : ∀ stats, .finished (.ok stats) ∈ run.job.responseTx →
    run.removed = true ∧ run.job.isComplete = true ∧ stats = run.job.stats

variable {maxInFlight : Nat} {run run' : LiveRun}

/-- Where nothing is awaited, every window has been answered. -/
theorem Delivery.length_dispatched (h : Delivery maxInFlight run) (hawaited : run.awaited = []) :
    run.dispatched.length = run.answers.length := by
  have hsent := congrArg List.length h.dispatched
  have hanswered := h.indices.length_eq
  rw [List.length_map] at hsent
  rw [hawaited, List.nil_append, List.length_map] at hanswered
  exact hsent.trans hanswered.symm

theorem Delivery.nodup (h : Delivery maxInFlight run) :
    (run.awaited ++ run.answers.map WindowTranscription.windowIndex).Nodup :=
  h.indices.nodup_iff.mpr List.nodup_range

/-- A window that is awaited is not answered. -/
theorem Delivery.answerTo_of_awaited (h : Delivery maxInFlight run) {index : Nat}
    (hmem : index ∈ run.awaited) : answerTo run.answers index = none := by
  rw [answerTo_eq_none]
  intro hanswered
  exact List.disjoint_of_nodup_append h.nodup hmem hanswered

/-- An answer not yet handled is still to be emitted. -/
theorem Delivery.nextResultIndex_le (h : Delivery maxInFlight run) {index : Nat}
    (hmem : index ∈ run.awaited) : run.job.nextResultIndex ≤ index := by
  by_contra hlt
  have hsome := h.emitted index (not_le.mp hlt)
  rw [h.answerTo_of_awaited hmem] at hsome
  cases hsome

theorem Delivery.not_finished (h : Delivery maxInFlight run) (hremoved : run.removed = false)
    (stats : LiveTranscriptionStats) : .finished (.ok stats) ∉ run.job.responseTx := by
  intro hmem
  have hdone := (h.finished stats hmem).1
  rw [hremoved] at hdone
  cases hdone

section Answered

variable {result : WindowTranscription}

/-- The index of an answer moves from the awaited ones to the answered ones. -/
theorem Delivery.indices_answered (h : Delivery maxInFlight run)
    (hmem : result.windowIndex ∈ run.awaited) :
    (run.awaited.erase result.windowIndex ++
      (run.answers ++ [result]).map WindowTranscription.windowIndex).Perm
        (List.range run.job.nextWindowIndex) := by
  have hperm := (List.perm_cons_erase hmem).symm
  rw [List.map_append, List.map_singleton]
  calc run.awaited.erase result.windowIndex ++
        (run.answers.map WindowTranscription.windowIndex ++ [result.windowIndex])
      |>.Perm (result.windowIndex :: run.awaited.erase result.windowIndex ++
          run.answers.map WindowTranscription.windowIndex) := by
        rw [← List.append_assoc]
        exact List.perm_append_singleton _ _
    _ |>.Perm (run.awaited ++ run.answers.map WindowTranscription.windowIndex) :=
        hperm.append_right _
    _ |>.Perm (List.range run.job.nextWindowIndex) := h.indices

/-- The new result joins those that are pending. -/
theorem Delivery.insert_pending (h : Delivery maxInFlight run)
    (hmem : result.windowIndex ∈ run.awaited) (index : Nat) :
    (run.job.pendingResults.insert result.windowIndex result)[index]? =
      if index < run.job.nextResultIndex then none
      else answerTo (run.answers ++ [result]) index := by
  have hlater := h.nextResultIndex_le hmem
  rw [Std.TreeMap.getElem?_insert, h.pending, answerTo_append]
  simp only [compare_eq_iff_eq]
  by_cases hindex : result.windowIndex = index
  · subst hindex
    rw [if_pos rfl, if_neg (by omega), h.answerTo_of_awaited hmem, if_pos rfl, Option.none_or]
  · rw [if_neg hindex, if_neg hindex, Option.or_none]

theorem Delivery.whisperResult (h : Delivery maxInFlight run)
    (hmem : result.windowIndex ∈ run.awaited) (hremoved : run.removed = false) :
    Delivery maxInFlight (run.next maxInFlight (.whisperResult result)) := by
  have hpos : 0 < run.awaited.length := List.length_pos_of_mem hmem
  obtain ⟨emitted, pending, hjob, hemitted, hpending, hend⟩ := run.job.handleResult_spec result
  simp only [h.insert_pending hmem] at hemitted hpending
  have hnow : ∀ i, i < emitted.length →
      answerTo (run.answers ++ [result]) (run.job.nextResultIndex + i) = emitted[i]? := by
    intro i hi
    have hi := hemitted i hi
    rwa [if_neg (by omega)] at hi
  have hold : ∀ index < run.job.nextResultIndex,
      answerTo (run.answers ++ [result]) index = answerTo run.answers index :=
    fun index hindex => answerTo_append_of_isSome result (h.emitted index hindex)
  rw [hpending, if_neg (by omega), if_neg (by omega)] at hend
  simp only [LiveRun.next, hjob]
  refine ⟨h.indices_answered hmem, h.dispatched, h.owner, h.options, ?_, ?_, h.windowsDispatched,
    ?_, ?_, hend, ?_, ?_, ?_⟩
  · simp only [h.inFlight, List.length_erase_of_mem hmem]
  · have hbound := h.bound
    simp only
    omega
  · simp only [h.windowsCompleted, List.length_append, List.length_singleton]
  · intro index hindex
    by_cases hlt : index < run.job.nextResultIndex
    · rw [hold index hlt]
      exact h.emitted index hlt
    · obtain ⟨i, rfl⟩ := Nat.exists_eq_add_of_le (not_lt.mp hlt)
      have hi : i < emitted.length := by simpa using hindex
      rw [hnow i hi, List.getElem?_eq_getElem hi]
      rfl
  · intro index
    rw [hpending]
    by_cases hindex : index < run.job.nextResultIndex + emitted.length
    · rw [if_pos hindex]
      by_cases hge : run.job.nextResultIndex ≤ index
      · rw [if_pos ⟨hge, hindex⟩]
      · rw [if_neg (fun hboth => hge hboth.1), if_pos (not_le.mp hge)]
    · rw [if_neg hindex, if_neg (fun hboth => hindex hboth.2), if_neg (by omega)]
  · rw [List.filter_append, h.segments, filter_isSegment_responses]
    exact (segmentsOfAnswers_append hold hnow).symm
  · intro stats hfinished
    obtain hbefore | hnew := List.mem_append.mp hfinished
    · exact absurd hbefore (h.not_finished hremoved stats)
    · obtain ⟨answer, -, hresponse⟩ := List.mem_flatMap.mp hnew
      cases isSegment_of_mem_responses hresponse

end Answered

theorem Delivery.dispatch (h : Delivery maxInFlight run) (hremoved : run.removed = false)
    {plan : DispatchPlan} (hplan : run.job.nextDispatchPlan = some plan)
    (hlt : run.job.inFlight < maxInFlight) (sent : Bool) :
    Delivery maxInFlight (run.next maxInFlight (.dispatch sent)) := by
  have hspeech : (run.job.speechResponses plan).filter JobResponse.isSegment = [] := by
    rw [List.filter_eq_nil_iff]
    intro response hmem
    obtain ⟨event, -, hmem⟩ := List.mem_flatMap.mp hmem
    simp only [List.mem_cons, List.not_mem_nil, or_false] at hmem
    obtain rfl | rfl := hmem <;> exact Bool.false_ne_true
  have hsegments : (run.job.responseTx ++ run.job.speechResponses plan).filter
      JobResponse.isSegment = segmentsOfAnswers run.answers run.job.nextResultIndex := by
    rw [List.filter_append, h.segments, hspeech, List.append_nil]
  have hfinished : ∀ stats, JobResponse.finished (.ok stats) ∉
      run.job.responseTx ++ run.job.speechResponses plan := by
    intro stats hmem
    obtain hold | hnew := List.mem_append.mp hmem
    · exact h.not_finished hremoved stats hold
    · obtain ⟨event, -, hevent⟩ := List.mem_flatMap.mp hnew
      simp at hevent
  simp only [LiveRun.next, ActiveLiveJob.dispatchToWorker_eq hplan, dispatchedNow_eq hplan]
  cases sent with
  | false =>
      simp only [Bool.false_eq_true, if_false, Option.toList_none, List.map_nil, List.append_nil]
      exact ⟨h.indices, h.dispatched, h.owner, h.options, h.inFlight, h.bound,
        h.windowsDispatched, h.windowsCompleted, h.emitted, h.next, h.pending, hsegments,
        fun stats hmem => absurd hmem (hfinished stats)⟩
  | true =>
      simp only [if_true, Option.toList_some, List.map_singleton]
      refine ⟨?_, ?_, ?_, ?_, ?_, ?_, ?_, h.windowsCompleted, h.emitted, h.next, h.pending, hsegments,
        fun stats hmem => absurd hmem (hfinished stats)⟩
      · have hrange : List.range (run.job.nextWindowIndex + 1) =
            List.range run.job.nextWindowIndex ++ [run.job.nextWindowIndex] := List.range_succ
        simp only [ActiveLiveJob.countDispatch, ActiveLiveJob.cut, ActiveLiveJob.send,
          ActiveLiveJob.whisperJob, hrange, List.append_assoc]
        refine List.Perm.trans ?_ (h.indices.append_right _)
        rw [List.append_assoc]
        exact List.Perm.append_left _ List.perm_append_comm
      · simp only [ActiveLiveJob.countDispatch, ActiveLiveJob.cut, ActiveLiveJob.send,
          List.map_append, h.dispatched, List.map_singleton, window, ActiveLiveJob.whisperJob,
          List.range_succ]
      · exact List.forall_mem_append.mpr ⟨h.owner, List.forall_mem_singleton.mpr rfl⟩
      · exact List.forall_mem_append.mpr ⟨h.options, List.forall_mem_singleton.mpr rfl⟩
      · simp only [ActiveLiveJob.countDispatch, ActiveLiveJob.cut, ActiveLiveJob.send, h.inFlight,
          List.length_append, List.length_singleton]
      · exact hlt
      · simp only [ActiveLiveJob.countDispatch, ActiveLiveJob.cut, ActiveLiveJob.send,
          h.windowsDispatched]

/-- Only the responses differ. -/
structure Responds (responses : List JobResponse) (run run' : LiveRun) : Prop where
  jobId : run'.job.jobId = run.job.jobId
  options : run'.job.options = run.job.options
  responseTx : run'.job.responseTx = run.job.responseTx ++ responses
  inFlight : run'.job.inFlight = run.job.inFlight
  stats : run'.job.stats = run.job.stats
  nextWindowIndex : run'.job.nextWindowIndex = run.job.nextWindowIndex
  pendingResults : run'.job.pendingResults = run.job.pendingResults
  nextResultIndex : run'.job.nextResultIndex = run.job.nextResultIndex
  awaited : run'.awaited = run.awaited
  dispatched : run'.dispatched = run.dispatched
  answers : run'.answers = run.answers

/-- A step that sends nothing but ends keeps the order of delivery. -/
theorem Delivery.responds {responses : List JobResponse} (h : Delivery maxInFlight run)
    (hsame : Responds responses run run')
    (hresponses : ∀ response ∈ responses, ∃ result, response = .finished result)
    (hfinished : ∀ stats, .finished (.ok stats) ∈ run.job.responseTx ++ responses →
      run'.removed = true ∧ run'.job.isComplete = true ∧ stats = run.job.stats) :
    Delivery maxInFlight run' := by
  have hnil : responses.filter JobResponse.isSegment = [] := by
    rw [List.filter_eq_nil_iff]
    intro response hmem
    obtain ⟨result, rfl⟩ := hresponses response hmem
    exact Bool.false_ne_true
  refine ⟨?_, ?_, ?_, ?_, ?_, ?_, ?_, ?_, ?_, ?_, ?_, ?_, ?_⟩
  · rw [hsame.awaited, hsame.answers, hsame.nextWindowIndex]
    exact h.indices
  · rw [hsame.dispatched, hsame.nextWindowIndex]
    exact h.dispatched
  · rw [hsame.dispatched, hsame.jobId]
    exact h.owner
  · rw [hsame.dispatched, hsame.options]
    exact h.options
  · rw [hsame.inFlight, hsame.awaited]
    exact h.inFlight
  · rw [hsame.inFlight]
    exact h.bound
  · rw [hsame.stats, hsame.nextWindowIndex]
    exact h.windowsDispatched
  · rw [hsame.stats, hsame.answers]
    exact h.windowsCompleted
  · rw [hsame.answers, hsame.nextResultIndex]
    exact h.emitted
  · rw [hsame.answers, hsame.nextResultIndex]
    exact h.next
  · rw [hsame.answers, hsame.nextResultIndex, hsame.pendingResults]
    exact h.pending
  · rw [hsame.responseTx, hsame.answers, hsame.nextResultIndex, List.filter_append, h.segments,
      hnil, List.append_nil]
  · rw [hsame.responseTx, hsame.stats]
    exact hfinished

theorem mem_errorResponses {chunks : List (Except Error LiveChunk)} {response : JobResponse}
    (h : response ∈ errorResponses chunks) : ∃ error, response = .finished (.error error) := by
  obtain ⟨chunk, -, hmem⟩ := List.mem_flatMap.mp h
  cases chunk with
  | ok chunk => cases hmem
  | error error => exact ⟨error, List.mem_singleton.mp hmem⟩

/-- A step that sends at most errors. -/
theorem Delivery.errors {responses : List JobResponse} (h : Delivery maxInFlight run)
    (hremoved : run.removed = false) (hsame : Responds responses run run')
    (hresponses : ∀ response ∈ responses, ∃ error, response = .finished (.error error)) :
    Delivery maxInFlight run' := by
  apply h.responds hsame
  · intro response hmem
    obtain ⟨error, rfl⟩ := hresponses response hmem
    exact ⟨.error error, rfl⟩
  · intro stats hmem
    obtain hold | hnew := List.mem_append.mp hmem
    · exact absurd hold (h.not_finished hremoved stats)
    · obtain ⟨error, herror⟩ := hresponses _ hnew
      cases herror

theorem Delivery.quiet (h : Delivery maxInFlight run) (hremoved : run.removed = false)
    (hsame : Responds [] run run') : Delivery maxInFlight run' :=
  h.errors hremoved hsame (fun _ hmem => absurd hmem List.not_mem_nil)

theorem Delivery.step {event : Event} (h : Delivery maxInFlight run)
    (hstep : Step maxInFlight run event run') : Delivery maxInFlight run' := by
  obtain ⟨⟨hremoved, henabled⟩, rfl⟩ := step_eq_some_iff.mp hstep
  have hnil := (List.append_nil run.job.responseTx).symm
  cases event with
  | arrive chunk => exact h.quiet hremoved ⟨rfl, rfl, hnil, rfl, rfl, rfl, rfl, rfl, rfl, rfl, rfl⟩
  | hangUp => exact h.quiet hremoved ⟨rfl, rfl, hnil, rfl, rfl, rfl, rfl, rfl, rfl, rfl, rfl⟩
  | drain =>
      obtain ⟨chunkRx, closed, hdrain, -, -⟩ := run.job.drainLiveChunks_spec maxInFlight
      apply h.errors hremoved _ (fun _ => mem_errorResponses)
      · exact run.job.drainedChunks maxInFlight
      · simp only [LiveRun.next, hdrain]
        constructor <;> rfl
  | refresh =>
      apply h.quiet hremoved
      simp only [LiveRun.next]
      obtain hsame | ⟨config, hsilent⟩ := run.job.refreshSpeechState_cases
      · rw [hsame]
        exact ⟨rfl, rfl, hnil, rfl, rfl, rfl, rfl, rfl, rfl, rfl, rfl⟩
      · rw [ActiveLiveJob.refreshSpeechState_of_silent hsilent]
        exact ⟨rfl, rfl, hnil, rfl, rfl, rfl, rfl, rfl, rfl, rfl, rfl⟩
  | sendVad sent =>
      apply h.quiet hremoved
      obtain ⟨config, hconfig, -⟩ := ActiveLiveJob.hasVadReady_iff.mp henabled
      simp only [LiveRun.next, ActiveLiveJob.sendVadJob_of_ready hconfig henabled]
      exact ⟨rfl, rfl, hnil, rfl, rfl, rfl, rfl, rfl, rfl, rfl, rfl⟩
  | vadResult result =>
      exact h.quiet hremoved ⟨rfl, rfl, hnil, rfl, rfl, rfl, rfl, rfl, rfl, rfl, rfl⟩
  | dispatch sent =>
      obtain ⟨hlt, -, plan, hplan⟩ := ActiveLiveJob.mayDispatch_iff.mp henabled.2
      exact h.dispatch hremoved hplan hlt sent
  | whisperResult result => exact h.whisperResult henabled hremoved
  | finish =>
      have hcomplete : run.job.isComplete = true := henabled
      simp only [LiveRun.next, ActiveLiveJob.finishIfComplete, if_pos hcomplete]
      refine @Delivery.responds _ _ _ [.finished (.ok run.job.stats)] h (by constructor <;> rfl) ?_ ?_
      · intro response hmem
        exact ⟨_, List.mem_singleton.mp hmem⟩
      · intro stats hmem
        obtain hold | hnew := List.mem_append.mp hmem
        · exact absurd hold (h.not_finished hremoved stats)
        · rw [List.mem_singleton] at hnew
          cases hnew
          exact ⟨rfl, hcomplete, rfl⟩
  | abort error =>
      refine @Delivery.errors _ _ _ [.finished (.error error)] h hremoved
        (by constructor <;> rfl) ?_
      intro response hmem
      exact ⟨error, List.mem_singleton.mp hmem⟩

theorem Delivery.start (maxInFlight jobId : Nat) (header : RequestHeader) (chunkRx : ChunkReceiver)
    (vadEnabled : Bool) : Delivery maxInFlight (start jobId header chunkRx vadEnabled) := by
  refine ⟨.refl _, rfl, ?_, ?_, rfl, Nat.zero_le _, rfl, rfl, ?_, rfl, ?_, rfl, ?_⟩
  · exact fun window hmem => absurd hmem List.not_mem_nil
  · exact fun window hmem => absurd hmem List.not_mem_nil
  · exact fun index hlt => absurd hlt (Nat.not_lt_zero index)
  · intro index
    have hnone : answerTo [] index = none := rfl
    exact Std.TreeMap.getElem?_emptyc.trans (by simp [hnone, LiveRun.start])
  · exact fun stats hmem => absurd hmem List.not_mem_nil

theorem Delivery.of_run {jobId : Nat} {header : RequestHeader} {chunkRx : ChunkReceiver}
    {vadEnabled : Bool} {events : List Event}
    (h : Run (Step maxInFlight) (LiveRun.start jobId header chunkRx vadEnabled) events run) :
    Delivery maxInFlight run :=
  h.invariant (P := fun _ run => Delivery maxInFlight run) (.start ..)
    fun _ _ _ _ hinv hstep => hinv.step hstep

/-- A job keeps the options of its request. -/
theorem options_step {event : Event} (hstep : Step maxInFlight run event run') :
    run'.job.options = run.job.options := by
  obtain ⟨⟨-, henabled⟩, rfl⟩ := step_eq_some_iff.mp hstep
  cases event with
  | arrive chunk => rfl
  | hangUp => rfl
  | drain =>
      obtain ⟨chunkRx, closed, hdrain, -, -⟩ := run.job.drainLiveChunks_spec maxInFlight
      simp only [LiveRun.next, hdrain]
  | refresh =>
      simp only [LiveRun.next]
      obtain hsame | ⟨config, hsilent⟩ := run.job.refreshSpeechState_cases
      · rw [hsame]
      · rw [ActiveLiveJob.refreshSpeechState_of_silent hsilent]
        rfl
  | sendVad sent =>
      obtain ⟨config, hconfig, -⟩ := ActiveLiveJob.hasVadReady_iff.mp henabled
      simp only [LiveRun.next, ActiveLiveJob.sendVadJob_of_ready hconfig henabled]
  | vadResult result => rfl
  | dispatch sent =>
      obtain ⟨-, -, plan, hplan⟩ := ActiveLiveJob.mayDispatch_iff.mp henabled.2
      simp only [LiveRun.next, ActiveLiveJob.dispatchToWorker_eq hplan]
      cases sent <;> rfl
  | whisperResult result =>
      obtain ⟨emitted, pending, hjob, -, -, -⟩ := run.job.handleResult_spec result
      simp only [LiveRun.next, hjob]
  | finish =>
      simp only [LiveRun.next, ActiveLiveJob.finishIfComplete]
      split <;> rfl
  | abort error => rfl

theorem options_of_run {jobId : Nat} {header : RequestHeader} {chunkRx : ChunkReceiver}
    {vadEnabled : Bool} {events : List Event}
    (h : Run (Step maxInFlight) (LiveRun.start jobId header chunkRx vadEnabled) events run) :
    run.job.options = .ofHeader header :=
  h.invariant (P := fun _ run => run.job.options = .ofHeader header) rfl
    fun _ _ _ _ hinv hstep => (options_step hstep).trans hinv

/-- **A job with nothing in flight has sent everything.** -/
theorem Delivery.idle (h : Delivery maxInFlight run) (hidle : run.job.inFlight = 0) :
    run.job.nextResultIndex = run.job.nextWindowIndex ∧
      run.job.stats.windowsDispatched = run.job.stats.windowsCompleted ∧
      run.job.pendingResults.isEmpty = true := by
  have hawaited : run.awaited = [] := List.length_eq_zero_iff.mp (h.inFlight ▸ hidle)
  have hindices := h.indices
  rw [hawaited, List.nil_append] at hindices
  have hanswered : ∀ index, (answerTo run.answers index).isSome = true ↔
      index < run.job.nextWindowIndex := by
    intro index
    rw [isSome_answerTo, hindices.mem_iff, List.mem_range]
  have hnext : run.job.nextResultIndex = run.job.nextWindowIndex := by
    apply le_antisymm
    · by_contra hlt
      have hsome := h.emitted run.job.nextWindowIndex (not_le.mp hlt)
      exact lt_irrefl _ ((hanswered _).mp hsome)
    · by_contra hlt
      have hsome := (hanswered _).mpr (not_le.mp hlt)
      rw [h.next] at hsome
      cases hsome
  refine ⟨hnext, ?_, ?_⟩
  · have hlength := hindices.length_eq
    rw [List.length_map, List.length_range] at hlength
    rw [h.windowsDispatched, h.windowsCompleted, hlength]
  · rw [Std.TreeMap.isEmpty_iff_forall_not_mem]
    intro index hmem
    have hsome := Std.TreeMap.mem_iff_isSome_getElem?.mp hmem
    rw [h.pending] at hsome
    split at hsome
    · cases hsome
    · have hlt := (hanswered index).mp hsome
      omega

end LiveRun

end RkWhisper
