import RkWhisper.Proof.ModelScheduler
import RkWhisper.Proof.OrderedCollection

/-!
# Calls on one pool

The result channel and the workers outlive a call, and nothing in a result says which call it belongs
to. A call that finds no window of an earlier one returns what becomes of its own windows; one that
finds a window takes it for its own.
-/

namespace RkWhisper

open Transition

/-! ### Windows in the pool -/

def windowIndexOf : NpuJob → Option Nat
  | .whisper job => some job.windowIndex
  | .vad _ => none

namespace WorkerPool

variable {pool pool' : WorkerPool} {workerId : Fin npuWorkers} {event : WorkerEvent}

/-- The windows whose results are in the channel. -/
def answered (pool : WorkerPool) : List WindowTranscription :=
  pool.resultRx.filterMap Collector.whisperOf

/-- The numbers of the windows that are at a worker or in the result channel. -/
def windowsInside (pool : WorkerPool) : Multiset Nat :=
  pool.held.filterMap windowIndexOf + (pool.answered.map WindowTranscription.windowIndex : List Nat)

theorem answered_append {result : Except Error NpuResult}
    (hresults : pool'.resultRx = pool.resultRx ++ [result]) :
    pool'.answered = pool.answered ++ (Collector.whisperOf result).toList := by
  rw [answered, hresults, List.filterMap_append, filterMap_whisperOf_cons, List.filterMap_nil,
    List.append_nil]
  rfl

/-- What a step of a worker does to the work inside: an answer moves a job, and a panic takes it
away. -/
theorem held_step (hstep : pool.step workerId event = some pool') :
    (pool'.held = pool.held ∧ pool'.answered = pool.answered) ∨
    (∃ outcome, (pool.workers workerId).phase = .answering outcome ∧
      pool'.held + {outcome.job} = pool.held ∧
      pool'.resultRx = pool.resultRx ++ [outcome.result workerId]) ∨
    ∃ job, (pool'.workers workerId).phase = .panicked job ∧ pool'.held + {job} = pool.held ∧
      pool'.answered = pool.answered := by
  obtain ⟨-, -, -, worker, hquiet, heq⟩ | ⟨-, hphase, heq⟩ | ⟨-, error, hphase, heq⟩ |
    ⟨-, outcome, hphase, heq⟩ | ⟨-, job, hphase, heq⟩ := step_cases hstep
  · refine .inl ⟨held_eq_of_eq (by rw [heq]) hquiet.held, ?_⟩
    rw [heq]
    rfl
  · have hheld : NpuWorker.held { pool.workers workerId with phase := .waiting } =
        (pool.workers workerId).held := by
      obtain hphase | hphase := hphase <;> simp [NpuWorker.held, hphase]
    refine .inl ⟨held_eq_of_eq (by rw [heq]; rfl) hheld, ?_⟩
    rw [heq]
    rfl
  · have hheld : NpuWorker.held { pool.workers workerId with phase := .stopped } =
        (pool.workers workerId).held := by
      simp [NpuWorker.held, hphase]
    refine .inl ⟨held_eq_of_eq (by rw [heq]; rfl) hheld, ?_⟩
    rw [heq, answered, List.filterMap_append]
    exact List.append_nil _
  · exact .inr (.inl ⟨outcome, hphase, held_answer hphase heq, by rw [heq]⟩)
  · refine .inr (.inr ⟨job, ?_, ?_, ?_⟩)
    · rw [heq, setPhase, put_self]
    · rw [heq, held_panic hphase]
    · rw [heq]
      rfl

/-- An answer is the answer to at most the window of its job. -/
theorem windowIndex_answer_le (workerId : Fin npuWorkers) (outcome : WorkerOutcome) :
    ((Collector.whisperOf (outcome.result workerId)).toList.map
        WindowTranscription.windowIndex : Multiset Nat) ≤
      Multiset.filterMap windowIndexOf {outcome.job} := by
  cases outcome with
  | transcribed job text segments => exact le_rfl
  | classified job probability state => exact Multiset.zero_le _
  | failed job error => exact Multiset.zero_le _

/-- Where a transcription comes from. -/
theorem transcribe_of_answering (hstep : pool.step workerId event = some pool') {job : WhisperJob}
    {text : String} {segments : List TranscriptSegment}
    (hphase : (pool'.workers workerId).phase = .answering (.transcribed job text segments)) :
    event = .transcribe text segments ∧
      (pool.workers workerId).phase = .running (.whisper job) := by
  cases event with
  | transcribe newText newSegments =>
      simp only [step] at hstep
      split at hstep
      · rename_i newJob hrunning
        cases hstep
        rw [setPhase, put_self] at hphase
        cases hphase
        exact ⟨rfl, hrunning⟩
      · cases hstep
  | load | take | classify | fail | panic =>
      simp only [step] at hstep
      split at hstep <;> cases hstep <;> simp [setPhase] at hphase
  | refuse | announce | answer =>
      simp only [step] at hstep
      repeat' split at hstep
      all_goals cases hstep
      all_goals simp [setPhase] at hphase

theorem held_send {job : NpuJob} (hsend : pool.send workerId job = some pool') :
    pool'.held = pool.held + {job} ∧ pool'.answered = pool.answered := by
  rw [send] at hsend
  split at hsend
  · rename_i hslot
    obtain rfl := Option.some.inj hsend
    refine ⟨?_, rfl⟩
    have hchange := @held_change pool (pool.put workerId
      { pool.workers workerId with jobRx := some job }) workerId _ rfl
    have hnew : NpuWorker.held { pool.workers workerId with jobRx := some job } =
        {job} + (pool.workers workerId).held := by
      simp [NpuWorker.held, hslot]
    rw [hnew, ← add_assoc] at hchange
    exact add_right_cancel hchange
  · cases hsend

theorem phase_send {job : NpuJob} (hsend : pool.send workerId job = some pool')
    (other : Fin npuWorkers) : (pool'.workers other).phase = (pool.workers other).phase := by
  rw [send] at hsend
  split at hsend
  · obtain rfl := Option.some.inj hsend
    by_cases hother : other = workerId
    · rw [hother, put_self]
    · rw [put_of_ne _ _ hother]
  · cases hsend

end WorkerPool

namespace ParallelTranscriberPool

variable {s s' : ParallelTranscriberPool}
  {answers : WhisperJob → String → List TranscriptSegment → Prop}

/-- What a worker may make of this window of a call. -/
def Result (answers : WhisperJob → String → List TranscriptSegment → Prop) (audio : List F32)
    (options : TranscribeOptions) (window : AudioWindow) (result : WindowTranscription) : Prop :=
  ∃ text segments, answers (window.whisperJob audio options) text segments ∧
    result = ((window.whisperJob audio options).answer text segments).transcription

/-- What a call has returned is made of what the workers made of its own windows. -/
def OwnResults (answers : WhisperJob → String → List TranscriptSegment → Prop)
    (returned : ReturnedCall) : Prop :=
  ∀ transcription, returned.result = .ok transcription →
    ∃ results, List.Forall₂ (Result answers returned.audio returned.options)
        (transcriptionWindows returned.audio.length returned.vadSegments) results ∧
      transcription = assemble returned.vadSegments results

/-- No window of an earlier call is in a queue, at work or in the result channel. -/
def NoWindowLeft (s : ParallelTranscriberPool) : Prop :=
  (∀ job, .whisper job ∉ s.pool.held) ∧ ∀ result, .ok (.whisper result) ∉ s.pool.resultRx

/-- The workers make of a window what they may. -/
structure AnswerStep (answers : WhisperJob → String → List TranscriptSegment → Prop)
    (s : ParallelTranscriberPool) (event : Event) (s' : ParallelTranscriberPool) : Prop where
  step : Step s event s'
  answers : ∀ workerId text segments job, event = .worker workerId (.transcribe text segments) →
    (s.pool.workers workerId).phase = .running (.whisper job) → answers job text segments

/-- And a call begins when no window of an earlier one is left. -/
structure SeparateStep (answers : WhisperJob → String → List TranscriptSegment → Prop)
    (s : ParallelTranscriberPool) (event : Event) (s' : ParallelTranscriberPool) : Prop extends
    AnswerStep answers s event s' where
  separate : ∀ audio vadSegments options onSegment,
    event = .call audio vadSegments options onSegment →
    NoWindowLeft s

/-- What a worker is about to answer it may answer. -/
def Truthful (answers : WhisperJob → String → List TranscriptSegment → Prop)
    (pool : WorkerPool) : Prop :=
  ∀ workerId job text segments,
    (pool.workers workerId).phase = .answering (.transcribed job text segments) →
      answers job text segments

/-- All the windows inside are windows of this call, those in `front`. -/
structure OwnWork (answers : WhisperJob → String → List TranscriptSegment → Prop)
    (pool : WorkerPool) (call : PoolCall) (front : List AudioWindow)
    (received : List WindowTranscription) : Prop where
  windows : transcriptionWindows call.audio.length call.vadSegments = front ++ call.pending
  total : call.totalWindows = (front ++ call.pending).length
  held : ∀ job, .whisper job ∈ pool.held →
    ∃ window ∈ front, job = window.whisperJob call.audio call.options
  results : ∀ result ∈ received ++ pool.answered, ∃ window ∈ front,
    Result answers call.audio call.options window result
  once : (pool.windowsInside +
    (received.map WindowTranscription.windowIndex : List Nat)).Nodup
  collector : call.collector.failed = none → Collector.Waits received call.collector

structure Separate (answers : WhisperJob → String → List TranscriptSegment → Prop)
    (s : ParallelTranscriberPool) : Prop where
  truthful : Truthful answers s.pool
  returned : ∀ returned ∈ s.returned, OwnResults answers returned
  call : ∀ call, s.call = some call → ∃ front received, OwnWork answers s.pool call front received

theorem windowIndex_of_result {audio : List F32} {options : TranscribeOptions}
    {window : AudioWindow} {result : WindowTranscription}
    (h : Result answers audio options window result) :
    result.windowIndex = window.index := by
  obtain ⟨text, segments, -, rfl⟩ := h
  rfl

/-- The call goes on in another pool that holds no more than before. -/
theorem OwnWork.mono {pool pool' : WorkerPool} {call : PoolCall} {front : List AudioWindow}
    {received : List WindowTranscription} (h : OwnWork answers pool call front received)
    (hheld : pool'.held ≤ pool.held)
    (hresults : ∀ result ∈ pool'.answered, result ∈ pool.answered ∨ ∃ window ∈ front,
      Result answers call.audio call.options window result)
    (hinside : pool'.windowsInside ≤ pool.windowsInside) :
    OwnWork answers pool' call front received where
  windows := h.windows
  total := h.total
  held job hjob := h.held job (Multiset.mem_of_le hheld hjob)
  results := by
    intro result hresult
    obtain hresult | hresult := List.mem_append.mp hresult
    · exact h.results result (List.mem_append_left _ hresult)
    · obtain hold | hnew := hresults result hresult
      · exact h.results result (List.mem_append_right _ hold)
      · exact hnew
  once := Multiset.nodup_of_le (add_le_add_left hinside _) h.once
  collector := h.collector

/-! ### What keeps the work apart -/

theorem Truthful.step {pool pool' : WorkerPool} {workerId : Fin npuWorkers} {event : WorkerEvent}
    (h : Truthful answers pool)
    (hanswers : ∀ text segments job, event = .transcribe text segments →
      (pool.workers workerId).phase = .running (.whisper job) → answers job text segments)
    (hstep : pool.step workerId event = some pool') : Truthful answers pool' := by
  intro other job text segments hphase
  by_cases hother : other = workerId
  · subst hother
    obtain ⟨hevent, hrunning⟩ := WorkerPool.transcribe_of_answering hstep hphase
    exact hanswers text segments job hevent hrunning
  · rw [WorkerPool.workers_of_ne hstep hother] at hphase
    exact h other job text segments hphase

/-- An answer stays with the call that its window belongs to. -/
theorem OwnWork.worker {pool pool' : WorkerPool} {workerId : Fin npuWorkers} {event : WorkerEvent}
    {call : PoolCall} {front : List AudioWindow} {received : List WindowTranscription}
    (h : OwnWork answers pool call front received) (htruthful : Truthful answers pool)
    (hstep : pool.step workerId event = some pool') :
    OwnWork answers pool' call front received := by
  obtain ⟨hheld, hanswered⟩ | ⟨outcome, hphase, hheld, hresults⟩ |
    ⟨job, -, hheld, hanswered⟩ := WorkerPool.held_step hstep
  · refine h.mono hheld.le ?_ ?_
    · intro result hresult
      exact .inl (hanswered ▸ hresult)
    · rw [WorkerPool.windowsInside, hheld, hanswered]
      exact le_rfl
  · have hanswered := WorkerPool.answered_append hresults
    have hmem : outcome.job ∈ pool.held := by
      rw [← hheld]
      exact Multiset.mem_add.mpr (.inr (Multiset.mem_singleton_self _))
    refine h.mono (hheld ▸ Multiset.le_add_right _ _) ?_ ?_
    · intro result hresult
      rw [hanswered] at hresult
      obtain hold | hnew := List.mem_append.mp hresult
      · exact .inl hold
      · cases outcome with
        | transcribed job text segments =>
            obtain rfl := List.mem_singleton.mp hnew
            obtain ⟨window, hwindow, rfl⟩ := h.held job hmem
            exact .inr ⟨window, hwindow, text, segments, htruthful _ _ _ _ hphase, rfl⟩
        | classified job probability state => cases hnew
        | failed job error => cases hnew
    · have hone := WorkerPool.windowIndex_answer_le workerId outcome
      calc pool'.windowsInside
          = pool'.held.filterMap windowIndexOf +
              ((pool.answered.map WindowTranscription.windowIndex : List Nat) +
                ((Collector.whisperOf (outcome.result workerId)).toList.map
                  WindowTranscription.windowIndex : List Nat)) := by
            rw [WorkerPool.windowsInside, hanswered, List.map_append, ← Multiset.coe_add]
        _ ≤ pool'.held.filterMap windowIndexOf +
              ((pool.answered.map WindowTranscription.windowIndex : List Nat) +
                Multiset.filterMap windowIndexOf {outcome.job}) := by gcongr
        _ = pool.windowsInside := by
            rw [WorkerPool.windowsInside, ← hheld, Multiset.filterMap_add, add_right_comm, add_assoc]
  · refine h.mono (hheld ▸ Multiset.le_add_right _ _) ?_ ?_
    · intro result hresult
      exact .inl (hanswered ▸ hresult)
    · rw [WorkerPool.windowsInside, WorkerPool.windowsInside, hanswered, ← hheld,
        Multiset.filterMap_add]
      gcongr
      exact Multiset.le_add_right _ _

theorem OwnWork.numbered {pool : WorkerPool} {call : PoolCall} {front : List AudioWindow}
    {received : List WindowTranscription} (h : OwnWork answers pool call front received) :
    Numbered (front ++ call.pending) :=
  h.windows ▸ numbered_transcriptionWindows ..

/-- The numbers of the windows that have been sent. -/
theorem OwnWork.index_lt {pool : WorkerPool} {call : PoolCall} {front : List AudioWindow}
    {received : List WindowTranscription} (h : OwnWork answers pool call front received)
    {window : AudioWindow} (hwindow : window ∈ front) : window.index < front.length := by
  obtain ⟨i, hi⟩ := List.mem_iff_getElem?.mp hwindow
  have hlt := (List.getElem?_eq_some_iff.mp hi).1
  rw [h.numbered.index ((List.getElem?_append_left hlt).trans hi)]
  exact hlt

/-- The next window to be sent has a number of its own. -/
theorem OwnWork.fresh {pool : WorkerPool} {call : PoolCall} {front : List AudioWindow}
    {received : List WindowTranscription} (h : OwnWork answers pool call front received) :
    front.length ∉ pool.windowsInside +
      (received.map WindowTranscription.windowIndex : List Nat) := by
  have hresult : ∀ result ∈ received ++ pool.answered, result.windowIndex < front.length := by
    intro result hmem
    obtain ⟨window, hwindow, hown⟩ := h.results result hmem
    rw [windowIndex_of_result hown]
    exact h.index_lt hwindow
  intro hmem
  rw [WorkerPool.windowsInside, Multiset.mem_add, Multiset.mem_add] at hmem
  obtain (hheld | hanswered) | hreceived := hmem
  · obtain ⟨npuJob, hjob, hindex⟩ := (Multiset.mem_filterMap _ _).mp hheld
    cases npuJob with
    | vad job => cases hindex
    | whisper job =>
        obtain ⟨window, hwindow, rfl⟩ := h.held job hjob
        exact (h.index_lt hwindow).ne (Option.some.inj hindex)
  · obtain ⟨result, hmem, hindex⟩ := List.mem_map.mp (Multiset.mem_coe.mp hanswered)
    exact (hresult result (List.mem_append_right _ hmem)).ne hindex
  · obtain ⟨result, hmem, hindex⟩ := List.mem_map.mp (Multiset.mem_coe.mp hreceived)
    exact (hresult result (List.mem_append_left _ hmem)).ne hindex

theorem OwnWork.send {pool pool' : WorkerPool} {call : PoolCall} {front : List AudioWindow}
    {received : List WindowTranscription} (h : OwnWork answers pool call front received)
    {window : AudioWindow} {pending : List AudioWindow} (hpending : call.pending = window :: pending)
    (hheld : pool'.held = pool.held + {.whisper (window.whisperJob call.audio call.options)})
    (hanswered : pool'.answered = pool.answered) :
    OwnWork answers pool' { call with pending } (front ++ [window]) received := by
  have hwindows : front ++ [window] ++ pending = front ++ call.pending := by
    rw [hpending, List.append_assoc]
    rfl
  have hindex : window.index = front.length := by
    refine h.numbered.index ?_
    rw [hpending, List.getElem?_append_right le_rfl, Nat.sub_self]
    rfl
  refine ⟨h.windows.trans hwindows.symm, h.total.trans (congrArg List.length hwindows.symm), ?_, ?_,
    ?_, h.collector⟩
  · intro job hjob
    rw [hheld] at hjob
    obtain hold | hnew := Multiset.mem_add.mp hjob
    · obtain ⟨other, hother, hjob⟩ := h.held job hold
      exact ⟨other, List.mem_append_left _ hother, hjob⟩
    · cases Multiset.mem_singleton.mp hnew
      exact ⟨window, List.mem_append_right _ (List.mem_singleton_self _), rfl⟩
  · intro result hresult
    rw [hanswered] at hresult
    obtain ⟨other, hother, hown⟩ := h.results result hresult
    exact ⟨other, List.mem_append_left _ hother, hown⟩
  · have hinside : pool'.windowsInside = {front.length} + pool.windowsInside := by
      rw [WorkerPool.windowsInside, WorkerPool.windowsInside, hheld, hanswered,
        Multiset.filterMap_add, ← hindex, add_comm (Multiset.filterMap _ pool.held), add_assoc]
      rfl
    rw [hinside, add_assoc, Multiset.singleton_add, Multiset.nodup_cons]
    exact ⟨h.fresh, h.once⟩

theorem OwnWork.receive {pool : WorkerPool} {call : PoolCall} {front : List AudioWindow}
    {received : List WindowTranscription} (h : OwnWork answers pool call front received)
    (hfailed : call.collector.failed = none) {result : Except Error NpuResult}
    {resultRx : List (Except Error NpuResult)} (hresults : pool.resultRx = result :: resultRx) :
    OwnWork answers { pool with resultRx }
      { call with collector := call.collector.receive call.onSegment result } front
      (received ++ (Collector.whisperOf result).toList) := by
  have hanswered : pool.answered =
      (Collector.whisperOf result).toList ++ WorkerPool.answered { pool with resultRx } := by
    rw [WorkerPool.answered, hresults, filterMap_whisperOf_cons]
    rfl
  have honce : WorkerPool.windowsInside { pool with resultRx } +
        ((received ++ (Collector.whisperOf result).toList).map WindowTranscription.windowIndex :
          List Nat) =
      pool.windowsInside + (received.map WindowTranscription.windowIndex : List Nat) := by
    rw [WorkerPool.windowsInside, WorkerPool.windowsInside, hanswered, List.map_append,
      List.map_append, ← Multiset.coe_add, ← Multiset.coe_add]
    change pool.held.filterMap windowIndexOf + _ + (_ + _) = _
    abel
  refine ⟨h.windows, h.total, h.held, ?_, ?_, ?_⟩
  · rw [List.append_assoc, ← hanswered]
    exact h.results
  · rw [honce]
    exact h.once
  · have hnodup : ((received ++ (Collector.whisperOf result).toList ++ []).map
        WindowTranscription.windowIndex).Nodup := by
      rw [List.append_nil]
      exact Multiset.coe_nodup.mp
        (Multiset.nodup_of_le (Multiset.le_add_left _ _) (honce ▸ h.once))
    exact ((h.collector hfailed).receive call.onSegment result (fresh_of_nodup hnodup)).2

/-- A call that has not failed returns what has become of its windows. -/
theorem OwnWork.result {pool : WorkerPool} {call : PoolCall} {front : List AudioWindow}
    {received : List WindowTranscription} (h : OwnWork answers pool call front received)
    (hfailed : call.collector.failed = none) (hpending : call.pending = [])
    (hdone : call.totalWindows ≤ call.collector.next) :
    OwnResults answers
      { audio := call.audio
        vadSegments := call.vadSegments
        options := call.options
        result := call.collector.result call.vadSegments } := by
  obtain ⟨hcollects, -⟩ := h.collector hfailed
  have hnumbered := h.numbered
  have hwindows := h.windows
  have htotal := h.total
  rw [hpending, List.append_nil] at hnumbered hwindows htotal
  have hwindow : ∀ index result, answerTo received index = some result →
      ∃ window, front[index]? = some window ∧ Result answers call.audio call.options window result := by
    intro index result hanswer
    have hindex : result.windowIndex = index := by
      simpa using List.find?_some hanswer
    obtain ⟨window, hmem, hown⟩ :=
      h.results result (List.mem_append_left _ (List.mem_of_find?_eq_some hanswer))
    obtain ⟨position, hposition⟩ := List.mem_iff_getElem?.mp hmem
    have heq : position = index := by
      rw [← hnumbered.index hposition, ← windowIndex_of_result hown, hindex]
    exact ⟨window, heq ▸ hposition, hown⟩
  obtain ⟨hle, hall⟩ := forall₂_inOrder hwindow hcollects.holds.handedOn
  have hnext : call.collector.next = front.length := le_antisymm hle (htotal ▸ hdone)
  rw [hnext, List.take_length, ← hnext] at hall
  intro transcription hok
  refine ⟨_, hwindows ▸ hall, ?_⟩
  rw [Collector.result, hfailed] at hok
  obtain rfl := Except.ok.inj hok
  rw [assemble, ← hcollects.fullText, ← hcollects.segments]

/-! ### The runs -/

variable {event : Event}

theorem Separate.returnCall (h : Separate answers s) (pool : WorkerPool)
    (htruthful : Truthful answers pool) (call : PoolCall) {result : Except Error Transcription}
    (hresult : OwnResults answers
      { audio := call.audio, vadSegments := call.vadSegments, options := call.options, result }) :
    Separate answers ({ s with pool }.returnCall call result) where
  truthful := htruthful
  returned := by
    intro returned hmem
    obtain hold | hnew := List.mem_append.mp hmem
    · exact h.returned returned hold
    · rw [List.mem_singleton.mp hnew]
      exact hresult
  call := nofun

theorem ownResults_error (audio : List F32) (vadSegments : List VadSegment)
    (options : TranscribeOptions) (error : Error) :
    OwnResults answers { audio, vadSegments, options, result := .error error } :=
  nofun

theorem NoWindowLeft.answered (h : NoWindowLeft s) : s.pool.answered = [] := by
  apply List.filterMap_eq_nil_iff.mpr
  intro result hresult
  match result with
  | .error _ | .ok (.vad _) => rfl
  | .ok (.whisper result) => exact absurd hresult (h.2 result)

theorem NoWindowLeft.windowsInside (h : NoWindowLeft s) : s.pool.windowsInside = 0 := by
  rw [WorkerPool.windowsInside, h.answered]
  apply Multiset.eq_zero_of_forall_notMem
  intro index hmem
  obtain hheld | hnone := Multiset.mem_add.mp hmem
  · obtain ⟨npuJob, hjob, hindex⟩ := (Multiset.mem_filterMap _ _).mp hheld
    cases npuJob with
    | vad job => cases hindex
    | whisper job => exact h.1 job hjob
  · exact absurd hnone (Multiset.notMem_zero _)

theorem Separate.startCall (h : Separate answers s) (hleft : NoWindowLeft s) (audio : List F32)
    (vadSegments : List VadSegment) (options : TranscribeOptions) (onSegment : SegmentCallback) :
    Separate answers (s.startCall audio vadSegments options onSegment) := by
  rw [ParallelTranscriberPool.startCall]
  split
  · rename_i hempty
    refine h.returnCall s.pool h.truthful _ ?_
    intro transcription hok
    obtain rfl := Except.ok.inj hok
    refine ⟨[], ?_, rfl⟩
    rw [List.isEmpty_iff.mp hempty]
    exact .nil
  · refine ⟨h.truthful, h.returned, ?_⟩
    rintro call ⟨⟩
    refine ⟨[], [], rfl, rfl, ?_, ?_, ?_, fun _ => waits_nil⟩
    · exact fun job hjob => absurd hjob (hleft.1 job)
    · intro result hresult
      rw [List.nil_append, hleft.answered] at hresult
      cases hresult
    · rw [hleft.windowsInside]
      exact Multiset.nodup_zero

theorem Separate.dispatch (h : Separate answers s) {call : PoolCall} (hcall : s.call = some call)
    (hstep : s.dispatch call = some s') : Separate answers s' := by
  obtain ⟨front, received, hown⟩ := h.call call hcall
  rw [ParallelTranscriberPool.dispatch] at hstep
  split at hstep
  · cases hstep
  · split at hstep
    · obtain rfl := Option.some.inj hstep
      exact h.returnCall s.pool h.truthful call (ownResults_error _ _ _ _)
    · cases hstep
  · rename_i window pending workerId readyRx hpending hready
    split at hstep
    · obtain ⟨pool, hsend, rfl⟩ := Option.map_eq_some_iff.mp hstep
      obtain ⟨hheld, hanswered⟩ := WorkerPool.held_send hsend
      refine ⟨?_, h.returned, ?_⟩
      · intro other job text segments hphase
        rw [WorkerPool.phase_send hsend] at hphase
        exact h.truthful other job text segments hphase
      · rintro _ ⟨⟩
        exact ⟨_, received, hown.send hpending hheld hanswered⟩
    · obtain rfl := Option.some.inj hstep
      exact h.returnCall { s.pool with readyRx } h.truthful call (ownResults_error _ _ _ _)

theorem Separate.receive (h : Separate answers s) {call : PoolCall} (hcall : s.call = some call)
    (hstep : s.receive call = some s') : Separate answers s' := by
  obtain ⟨front, received, hown⟩ := h.call call hcall
  rw [ParallelTranscriberPool.receive] at hstep
  split at hstep
  · cases hstep
  · rename_i hdone
    have hfailed : call.collector.failed = none := by
      by_contra hsome
      exact hdone (Collector.done_eq_true.mpr (.inl hsome))
    split at hstep
    · split at hstep
      · obtain rfl := Option.some.inj hstep
        refine ⟨h.truthful, h.returned, ?_⟩
        rintro _ ⟨⟩
        exact ⟨front, received, hown.windows, hown.total, hown.held, hown.results, hown.once, nofun⟩
      · cases hstep
    · rename_i result resultRx hresults
      obtain rfl := Option.some.inj hstep
      refine ⟨h.truthful, h.returned, ?_⟩
      rintro _ ⟨⟩
      exact ⟨front, _, hown.receive hfailed hresults⟩

theorem Separate.step (h : Separate answers s) (hstep : SeparateStep answers s event s') :
    Separate answers s' := by
  have hnext := hstep.step
  simp only [Step, ParallelTranscriberPool.step] at hnext
  cases event with
  | call audio vadSegments options onSegment =>
      simp only at hnext
      split at hnext
      · obtain rfl := Option.some.inj hnext
        exact h.startCall (hstep.separate audio vadSegments options onSegment rfl) ..
      · cases hnext
  | dispatch =>
      obtain ⟨call, hcall, hdispatch⟩ := Option.bind_eq_some_iff.mp hnext
      split at hdispatch
      · cases hdispatch
      · exact h.dispatch hcall hdispatch
  | receive =>
      obtain ⟨call, hcall, hreceive⟩ := Option.bind_eq_some_iff.mp hnext
      exact h.receive hcall hreceive
  | join =>
      obtain ⟨call, hcall, hjoin⟩ := Option.bind_eq_some_iff.mp hnext
      obtain ⟨hready, rfl⟩ := Option.ite_some_none_eq_some.mp hjoin
      obtain ⟨front, received, hown⟩ := h.call call hcall
      refine h.returnCall s.pool h.truthful call ?_
      cases hfailed : call.collector.failed with
      | some error =>
          rw [Collector.result, hfailed]
          exact ownResults_error _ _ _ _
      | none =>
          rw [hfailed] at hready
          obtain hsome | ⟨hdone, hpending⟩ := hready
          · cases hsome
          · obtain hsome | hle := Collector.done_eq_true.mp hdone
            · exact absurd hfailed hsome
            · exact hown.result hfailed hpending hle
  | worker workerId event =>
      obtain ⟨pool, hpool, rfl⟩ := Option.map_eq_some_iff.mp hnext
      refine ⟨h.truthful.step ?_ hpool, h.returned, ?_⟩
      · intro text segments job hevent hrunning
        exact hstep.answers workerId text segments job (hevent ▸ rfl) hrunning
      · intro call hcall
        obtain ⟨front, received, hown⟩ := h.call call hcall
        exact ⟨front, received, hown.worker h.truthful hpool⟩

/-- **Calls do not leak into each other** when each begins with no window of an earlier one left: what
a call returns is made of what the workers made of its own windows, in order. -/
theorem calls_separate {events : List Event}
    (h : Run (SeparateStep answers) ({} : ParallelTranscriberPool) events s) :
    ∀ returned ∈ s.returned, OwnResults answers returned := by
  have hseparate : Separate answers s := by
    refine h.invariant (P := fun _ s => Separate answers s) ⟨nofun, nofun, nofun⟩ ?_
    intro _ _ _ _ hbefore hstep
    exact hbefore.step hstep
  exact hseparate.returned

/-! ### Runs on given recordings -/

/-- The steps of `AnswerStep`, for answers that can be checked. -/
def answerStep (answers : WhisperJob → String → List TranscriptSegment → Bool)
    (s : ParallelTranscriberPool) (event : Event) : Option ParallelTranscriberPool :=
  match event with
  | .worker workerId (.transcribe text segments) =>
      match (s.pool.workers workerId).phase with
      | .running (.whisper job) => if answers job text segments then s.step event else none
      | _ => s.step event
  | _ => s.step event

/-- The steps of `SeparateStep`, for answers that can be checked. -/
def separateStep (answers : WhisperJob → String → List TranscriptSegment → Bool)
    (s : ParallelTranscriberPool) (event : Event) : Option ParallelTranscriberPool :=
  match event with
  | .call .. => if s.pool.windowsInside = 0 then answerStep answers s event else none
  | _ => answerStep answers s event

theorem answerStep_spec {answers : WhisperJob → String → List TranscriptSegment → Bool}
    (h : answerStep answers s event = some s') :
    AnswerStep (fun job text segments => answers job text segments = true) s event s' := by
  unfold answerStep at h
  split at h
  · rename_i workerId text segments
    split at h
    · rename_i job hphase
      obtain ⟨hanswers, hstep⟩ := Option.ite_none_right_eq_some.mp h
      refine ⟨hstep, ?_⟩
      rintro _ _ _ other ⟨⟩ hother
      rw [hphase] at hother
      cases hother
      exact hanswers
    · rename_i hphase
      refine ⟨h, ?_⟩
      rintro _ _ _ other ⟨⟩ hother
      exact absurd hother (hphase other)
  · rename_i hevent
    exact ⟨h, fun workerId text segments _ heq => absurd heq (hevent workerId text segments)⟩

theorem noWindowLeft_of_windowsInside (h : s.pool.windowsInside = 0) : NoWindowLeft s := by
  rw [WorkerPool.windowsInside, add_eq_zero] at h
  refine ⟨fun job hjob => ?_, fun result hresult => ?_⟩
  · have hmem : job.windowIndex ∈ s.pool.held.filterMap windowIndexOf :=
      (Multiset.mem_filterMap _ _).mpr ⟨.whisper job, hjob, rfl⟩
    rw [h.1] at hmem
    exact absurd hmem (Multiset.notMem_zero _)
  · have hmem : result.transcription.windowIndex ∈
        s.pool.answered.map WindowTranscription.windowIndex :=
      List.mem_map_of_mem (List.mem_filterMap.mpr ⟨_, hresult, rfl⟩)
    rw [(Multiset.coe_eq_zero _).mp h.2] at hmem
    cases hmem

theorem separateStep_spec {answers : WhisperJob → String → List TranscriptSegment → Bool}
    (h : separateStep answers s event = some s') :
    SeparateStep (fun job text segments => answers job text segments = true) s event s' := by
  unfold separateStep at h
  split at h
  · obtain ⟨hinside, hstep⟩ := Option.ite_none_right_eq_some.mp h
    exact ⟨answerStep_spec hstep, fun _ _ _ _ _ => noWindowLeft_of_windowsInside hinside⟩
  · rename_i hevent
    exact ⟨answerStep_spec h, fun audio vadSegments options onSegment heq =>
      absurd heq (hevent audio vadSegments options onSegment)⟩

/-- Two windows of a recording of ones, and one window of a recording that begins with a two. -/
def onesAudio : List F32 := List.replicate 480002 (F32.ofNat 1)

def sampleSegment : TranscriptSegment :=
  { startSec := F32.ofNat 0, endSec := F32.ofNat 0, text := "", tokens := [], windowIndex := 0 }

/-- Only windows that begin with a one have a segment. -/
def onesHaveSegments (job : WhisperJob) (_ : String) (segments : List TranscriptSegment) : Bool :=
  segments.isEmpty || job.samples.head? == some (F32.ofNat 1)

/-- The second window of the first call fails, while the first is still at its worker; its result
comes in during the second call. -/
def leakingEvents : List Event :=
  [.worker 0 (.load (.ok ())), .worker 1 (.load (.ok ())), .worker 0 .announce, .worker 1 .announce,
    .call onesAudio twoSegments (.ofHeader {}) fun _ _ => .ok (), .dispatch, .dispatch, .worker 0 .take,
    .worker 1 .take, .worker 1 (.fail (.other "")), .worker 1 .answer, .receive, .join,
    .worker 1 .announce, .call [F32.ofNat 2] [] (.ofHeader {}) fun _ _ => .ok (), .dispatch,
    .worker 0 (.transcribe "" [sampleSegment]), .worker 0 .answer, .receive, .join]

theorem not_calls_separate :
    ¬ ∀ answers events s, Run (AnswerStep answers) ({} : ParallelTranscriberPool) events s →
      ∀ returned ∈ s.returned, OwnResults answers returned := by
  intro hall
  have hrun : ((leakingEvents.foldlM (answerStep onesHaveSegments)
      ({} : ParallelTranscriberPool)).map fun s => (s.returned.drop 1).map fun returned =>
        (returned.audio, returned.vadSegments,
          returned.result.toOption.map Transcription.segments)) =
      some [([F32.ofNat 2], [], some [sampleSegment])] := by
    decide +kernel
  obtain ⟨s, hfold, hview⟩ := Option.map_eq_some_iff.mp hrun
  have h : Run (AnswerStep fun job text segments => onesHaveSegments job text segments = true)
      {} leakingEvents s :=
    Run.of_foldlM (f := answerStep onesHaveSegments) (fun _ _ _ => answerStep_spec) hfold
  obtain ⟨⟨audio, vadSegments, options, result⟩, hmem, heq⟩ :=
    List.mem_map.mp (hview ▸ List.mem_singleton_self _)
  simp only [Prod.mk.injEq] at heq
  obtain ⟨rfl, rfl, hsegments⟩ := heq
  have hown := hall _ _ s h _ (List.mem_of_mem_drop hmem)
  cases result with
  | error error => cases hsegments
  | ok transcription =>
      obtain ⟨results, hresults, hassembled⟩ := hown transcription rfl
      have hjoined : [sampleSegment] = joinSegments results := by
        rw [← Option.some.inj hsegments, hassembled]
        rfl
      have hwindows : transcriptionWindows [F32.ofNat 2].length [] =
          [{ index := 0, startSample := 0, endSample := 1 }] := by
        decide +kernel
      rw [hwindows] at hresults
      -- The one window of this call begins with a two, so that no answer to it has a segment.
      cases hresults with
      | cons hfirst hrest =>
          cases hrest
          obtain ⟨text, segments, hanswers, rfl⟩ := hfirst
          have htwo : ¬ (AudioWindow.samples ⟨0, 0, 1⟩ [F32.ofNat 2]).head? = some (F32.ofNat 1) := by
            decide +kernel
          have hempty : segments = [] := by
            simpa [onesHaveSegments, AudioWindow.whisperJob, htwo] using hanswers
          subst hempty
          cases hjoined

/-- A worker answers one call, and then another. -/
def separateEvents : List Event :=
  [.worker 0 (.load (.ok ())), .worker 0 .announce,
    .call [F32.ofNat 2] [] (.ofHeader {}) fun _ _ => .ok (),
    .dispatch, .worker 0 .take, .worker 0 (.transcribe "" []), .worker 0 .answer, .receive, .join,
    .worker 0 .announce, .call [F32.ofNat 1] [] (.ofHeader {}) fun _ _ => .ok (), .dispatch,
    .worker 0 .take,
    .worker 0 (.transcribe "" [sampleSegment]), .worker 0 .answer, .receive, .join]

theorem calls_separate_twice : ∃ s,
    Run (SeparateStep fun job text segments => onesHaveSegments job text segments = true)
        ({} : ParallelTranscriberPool) separateEvents s ∧
      s.returned.map (fun returned => returned.result.toOption.map Transcription.segments) =
        [some [], some [sampleSegment]] ∧
      ∀ returned ∈ s.returned,
        OwnResults (fun job text segments => onesHaveSegments job text segments = true)
          returned := by
  have hrun : ((separateEvents.foldlM (separateStep onesHaveSegments)
      ({} : ParallelTranscriberPool)).map fun s => s.returned.map fun returned =>
        returned.result.toOption.map Transcription.segments) =
      some [some [], some [sampleSegment]] := by
    decide +kernel
  obtain ⟨s, hfold, hview⟩ := Option.map_eq_some_iff.mp hrun
  have h : Run (SeparateStep fun job text segments => onesHaveSegments job text segments = true)
      {} separateEvents s :=
    Run.of_foldlM (f := separateStep onesHaveSegments) (fun _ _ _ => separateStep_spec) hfold
  exact ⟨s, h, hview, calls_separate h⟩

end ParallelTranscriberPool

end RkWhisper
