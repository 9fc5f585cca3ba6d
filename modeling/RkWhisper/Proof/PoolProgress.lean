import RkWhisper.Proof.PoolCalls
import RkWhisper.Proof.PoolDebt

/-!
# Calls on one pool return

A failed call leaves windows behind, and a later call takes their results for its own. It may then have
collected enough before it has sent its last window, and nobody reads the result channel any more. What
the workers owe bounds how far this goes: the channel and the workers together hold less than what it
takes to keep the last window from being sent, as long as more than one worker is alive. A window that
a worker has panicked over has no result, and a call waits for it until the last thread has ended.
-/

namespace RkWhisper

open Transition

namespace WorkerPool

variable {pool pool' : WorkerPool} {workerId : Fin npuWorkers} {event : WorkerEvent}

/-! ### Results that are under way -/

/-- A worker has died of this window. -/
def LostOver (pool : WorkerPool) (job : WhisperJob) : Prop :=
  ∃ workerId, (pool.workers workerId).phase = .panicked (.whisper job)

/-- The window is at a worker or its result in the channel, or an error is in the channel; or no result
will come. -/
def Awaited (pool : WorkerPool) (job : WhisperJob) : Prop :=
  .whisper job ∈ pool.held ∨ job.windowIndex ∈ pool.answered.map WindowTranscription.windowIndex ∨
    (∃ error, .error error ∈ pool.resultRx) ∨ pool.LostOver job

theorem LostOver.step {job : WhisperJob} (h : pool.LostOver job)
    (hstep : pool.step workerId event = some pool') : pool'.LostOver job := by
  obtain ⟨other, hphase⟩ := h
  refine ⟨other, ?_⟩
  by_cases hother : other = workerId
  · subst hother
    rw [step_of_panicked hphase] at hstep
    cases hstep
  · rw [workers_of_ne hstep hother, hphase]

theorem resultRx_step (hstep : pool.step workerId event = some pool') :
    pool.resultRx ⊆ pool'.resultRx := by
  obtain ⟨worker, told, sent, -, -, hresults, -⟩ := pays_step hstep
  rw [hresults]
  exact List.subset_append_left _ _

/-- An answer takes the place of its job, and so does a panic. -/
theorem Awaited.step {job : WhisperJob} (h : pool.Awaited job)
    (hstep : pool.step workerId event = some pool') : pool'.Awaited job := by
  have hkeep := resultRx_step hstep
  obtain hheld | hanswered | ⟨error, herror⟩ | hlost := h
  · obtain ⟨hsame, -⟩ | ⟨outcome, -, hchange, hresults⟩ | ⟨lost, hphase, hchange, -⟩ :=
      held_step hstep
    · exact .inl (hsame ▸ hheld)
    · rw [← hchange, Multiset.mem_add, Multiset.mem_singleton] at hheld
      obtain hkept | hjob := hheld
      · exact .inl hkept
      · have hsent : outcome.result workerId ∈ pool'.resultRx := by
          rw [hresults]
          exact List.mem_append_right _ (List.mem_singleton_self _)
        cases outcome with
        | transcribed own text segments =>
            obtain rfl := NpuJob.whisper.inj hjob
            refine .inr (.inl (List.mem_map.mpr ⟨_, List.mem_filterMap.mpr ⟨_, hsent, rfl⟩, rfl⟩))
        | classified other probability state => cases hjob
        | failed own error => exact .inr (.inr (.inl ⟨_, hsent⟩))
    · rw [← hchange, Multiset.mem_add, Multiset.mem_singleton] at hheld
      obtain hkept | rfl := hheld
      · exact .inl hkept
      · exact .inr (.inr (.inr ⟨workerId, hphase⟩))
  · obtain ⟨transcription, hmem, hindex⟩ := List.mem_map.mp hanswered
    exact .inr (.inl (List.mem_map.mpr
      ⟨transcription, List.filterMap_subset _ hkeep hmem, hindex⟩))
  · exact .inr (.inr (.inl ⟨error, hkeep herror⟩))
  · exact .inr (.inr (.inr (hlost.step hstep)))

/-- A window that is sent is under way, and the others stay so. -/
theorem awaited_send {sent job : WhisperJob}
    (hsend : pool.send workerId (.whisper sent) = some pool') :
    job = sent ∨ pool.Awaited job → pool'.Awaited job := by
  obtain ⟨hheld, hanswered⟩ := held_send hsend
  rintro (rfl | hbefore | hbefore | ⟨error, herror⟩ | ⟨other, hphase⟩)
  · left
    rw [hheld]
    exact Multiset.mem_add.mpr (.inr (Multiset.mem_singleton_self _))
  · left
    rw [hheld]
    exact Multiset.mem_add.mpr (.inl hbefore)
  · exact .inr (.inl (hanswered ▸ hbefore))
  · obtain ⟨-, rfl⟩ := eq_put_of_send hsend
    exact .inr (.inr (.inl ⟨error, herror⟩))
  · exact .inr (.inr (.inr ⟨other, (phase_send hsend other).trans hphase⟩))

/-- A result that is taken out of the channel is an error, or it is the result of one window. -/
theorem Awaited.receive {job : WhisperJob} (h : pool.Awaited job) {result : Except Error NpuResult}
    {resultRx : List (Except Error NpuResult)} (hresults : pool.resultRx = result :: resultRx)
    (hresult : ∀ error, result ≠ .error error) :
    Awaited { pool with resultRx } job ∨
      ∃ transcription ∈ Collector.whisperOf result, transcription.windowIndex = job.windowIndex := by
  obtain hheld | hinside | ⟨error, herror⟩ | hlost := h
  · exact .inl (.inl hheld)
  · have hanswered : pool.answered =
        (Collector.whisperOf result).toList ++ WorkerPool.answered { pool with resultRx } := by
      rw [answered, hresults, filterMap_whisperOf_cons]
      rfl
    rw [hanswered, List.map_append, List.mem_append] at hinside
    obtain hfirst | hlater := hinside
    · obtain ⟨transcription, hmem, hindex⟩ := List.mem_map.mp hfirst
      exact .inr ⟨transcription, Option.mem_toList.mp hmem, hindex⟩
    · exact .inl (.inr (.inl hlater))
  · rw [hresults] at herror
    obtain hfirst | hlater := List.mem_cons.mp herror
    · exact absurd hfirst.symm (hresult error)
    · exact .inl (.inr (.inr (.inl ⟨error, hlater⟩)))
  · exact .inl (.inr (.inr (.inr hlost)))

end WorkerPool

/-! ### The collector, whatever comes in -/

namespace Collector

variable {collector : Collector}

/-- The rounds end in front of a number that is missing, unless the callback fails. -/
theorem emitResults_stops (onSegment : SegmentCallback) {rounds : Nat}
    (hrounds : collector.pending.size ≤ rounds)
    (hnone : (emitResults onSegment rounds collector).failed = none) :
    (emitResults onSegment rounds collector).pending[
        (emitResults onSegment rounds collector).next]? = none ∧
      (∀ index, collector.Knows index → (emitResults onSegment rounds collector).Knows index) ∧
      (emitResults onSegment rounds collector).next +
          (emitResults onSegment rounds collector).pending.size =
        collector.next + collector.pending.size := by
  induction rounds generalizing collector with
  | zero =>
      exact ⟨ReorderBuffer.getElem?_of_size_eq_zero (Nat.le_zero.mp hrounds) _, fun _ h => h, rfl⟩
  | succ rounds ih =>
      rw [emitResults] at hnone ⊢
      cases hnext : collector.pending[collector.next]? with
      | none => exact ⟨hnext, fun _ h => h, rfl⟩
      | some result =>
          simp only [hnext] at hnone ⊢
          split at hnone
          · rename_i hfailed
            rw [hnone] at hfailed
            cases hfailed
          · rename_i hfailed
            have hbuffer : (collector.emitResult onSegment result).toReorderBuffer =
                collector.advance := by
              rw [emitResult] at hfailed ⊢
              split
              · rename_i hnotify
                rw [hnotify] at hfailed
                exact absurd rfl hfailed
              · rfl
            have hsize := ReorderBuffer.size_advance hnext
            rw [if_neg hfailed]
            obtain ⟨hmissing, hknows, hsum⟩ := ih (by rw [hbuffer]; omega) hnone
            refine ⟨hmissing, fun index h => hknows index ?_, ?_⟩
            · rw [hbuffer]
              exact h.advance
            · rw [hsum, hbuffer]
              change collector.next + 1 + _ = _
              omega

/-- A result that comes in makes a number known, and at most one. -/
theorem receive_knows {result : Except Error NpuResult} (onSegment : SegmentCallback)
    (hmissing : collector.pending[collector.next]? = none)
    (hnone : (collector.receive onSegment result).failed = none) :
    (∀ error, result ≠ .error error) ∧
      (collector.receive onSegment result).pending[
        (collector.receive onSegment result).next]? = none ∧
      (∀ index, (collector.Knows index ∨
        ∃ transcription ∈ whisperOf result, transcription.windowIndex = index) →
        (collector.receive onSegment result).Knows index) ∧
      (collector.receive onSegment result).next +
          (collector.receive onSegment result).pending.size ≤
        collector.next + collector.pending.size + 1 := by
  match result with
  | .error error => cases hnone
  | .ok (.vad result) =>
      refine ⟨nofun, hmissing, ?_, Nat.le_succ _⟩
      rintro index (hknows | ⟨transcription, ⟨⟩, -⟩)
      exact hknows
  | .ok (.whisper ⟨jobId, transcription⟩) =>
      obtain ⟨hnext, hknows, hsum⟩ := @emitResults_stops { collector with
        toReorderBuffer := collector.insert transcription.windowIndex transcription }
        onSegment _ le_rfl hnone
      refine ⟨nofun, hnext, ?_, ?_⟩
      · rintro index (hbefore | ⟨_, ⟨⟩, rfl⟩)
        · exact hknows index (hbefore.insert _ _)
        · exact hknows _ (ReorderBuffer.knows_insert ..)
      · have hsize :=
          collector.size_insert_le transcription.windowIndex transcription
        calc _ = collector.next + (collector.insert transcription.windowIndex
              transcription).pending.size := hsum
          _ ≤ collector.next + collector.pending.size + 1 := by omega

end Collector

namespace ParallelTranscriberPool

variable {s s' : ParallelTranscriberPool} {event : Event}

/-- The steps of the call and of the threads. -/
structure ServedStep (s : ParallelTranscriberPool) (event : Event) (s' : ParallelTranscriberPool) :
    Prop where
  step : Step s event s'
  served : ∀ audio vadSegments options onSegment,
    event ≠ .call audio vadSegments options onSegment

/-! ### What a call waits for -/

/-- Every window that has not come in is still to be sent, under way, or an error is, or a worker has
died of it; and what the pool owes above `bound` is paid for by what the call has sent and not
received. -/
structure Waiting (bound : Nat) (pool : WorkerPool) (call : PoolCall) : Prop where
  total : call.totalWindows =
    (transcriptionWindows call.audio.length call.vadSegments).length
  windows : ∀ window ∈ transcriptionWindows call.audio.length call.vadSegments,
    call.collector.Knows window.index ∨
      pool.Awaited (window.whisperJob call.audio call.options) ∨ window ∈ call.pending
  missing : call.collector.pending[call.collector.next]? = none
  credit : pool.debt + (call.collector.next + call.collector.pending.size) + call.pending.length ≤
    bound + call.totalWindows

/-- Between the calls, and behind the error of one, the pool owes less than it could. -/
structure Solvent (s : ParallelTranscriberPool) : Prop where
  conserves : s.pool.Conserves
  room : s.pool.resultRx.length ≤ npuWorkers
  call : ∀ call, s.call = some call → call.collector.failed = none →
    Waiting (2 * npuWorkers - 1) s.pool call
  idle : (∀ call, s.call = some call → call.collector.failed ≠ none) →
    s.pool.debt ≤ 2 * npuWorkers - 1

theorem solvent_start : Solvent {} where
  conserves _ := rfl
  room := Nat.zero_le _
  call _ h := nomatch h
  idle _ := by decide

/-- A call that has returned leaves a pool that owes no more than it may. -/
theorem Solvent.returnCall {pool : WorkerPool} (hconserves : pool.Conserves)
    (hroom : pool.resultRx.length ≤ npuWorkers) (hdebt : pool.debt ≤ 2 * npuWorkers - 1)
    (s : ParallelTranscriberPool) (call : PoolCall) (result : Except Error Transcription) :
    Solvent ({ s with pool }.returnCall call result) where
  conserves := hconserves
  room := hroom
  call _ h := nomatch h
  idle _ := hdebt

/-- A call begins with all of its windows still to be sent. -/
theorem waiting_start {bound : Nat} {pool : WorkerPool} (hdebt : pool.debt ≤ bound)
    (audio : List F32) (vadSegments : List VadSegment) (options : TranscribeOptions)
    (onSegment : SegmentCallback) :
    Waiting bound pool
      { audio, vadSegments, options, onSegment
        pending := transcriptionWindows audio.length vadSegments
        totalWindows := (transcriptionWindows audio.length vadSegments).length } where
  total := rfl
  windows _ hwindow := .inr (.inr hwindow)
  missing := Std.TreeMap.getElem?_emptyc
  credit := by
    change pool.debt + 0 + (transcriptionWindows audio.length vadSegments).length ≤ _
    exact Nat.add_le_add_right hdebt _

theorem Solvent.startCall (h : Solvent s) (hcall : s.call = none) (audio : List F32)
    (vadSegments : List VadSegment) (options : TranscribeOptions) (onSegment : SegmentCallback) :
    Solvent (s.startCall audio vadSegments options onSegment) := by
  have hidle : s.pool.debt ≤ 2 * npuWorkers - 1 := by
    refine h.idle fun call hsome => ?_
    rw [hcall] at hsome
    cases hsome
  rw [ParallelTranscriberPool.startCall]
  split
  · exact .returnCall h.conserves h.room hidle s _ _
  · refine ⟨h.conserves, h.room, ?_, ?_⟩
    · rintro call ⟨⟩ -
      exact waiting_start hidle ..
    · intro hfailed
      exact absurd rfl (hfailed _ rfl)

theorem Waiting.worker {bound : Nat} {pool pool' : WorkerPool} {call : PoolCall}
    {workerId : Fin npuWorkers} {event : WorkerEvent} (h : Waiting bound pool call)
    (hstep : pool.step workerId event = some pool') : Waiting bound pool' call where
  total := h.total
  windows window hwindow := by
    obtain hknows | hawaited | hpending := h.windows window hwindow
    · exact .inl hknows
    · exact .inr (.inl (hawaited.step hstep))
    · exact .inr (.inr hpending)
  missing := h.missing
  credit := by
    have hdebt := WorkerPool.debt_step hstep
    have hcredit := h.credit
    omega

theorem Waiting.send {bound : Nat} {pool pool' : WorkerPool} {call : PoolCall}
    (h : Waiting bound pool call) {window : AudioWindow} {pending : List AudioWindow}
    (hpending : call.pending = window :: pending) {workerId : Fin npuWorkers}
    (hsend : pool.send workerId (.whisper (window.whisperJob call.audio call.options)) =
      some pool') : Waiting bound pool' { call with pending } where
  total := h.total
  windows other hother := by
    obtain hknows | hawaited | hmem := h.windows other hother
    · exact .inl hknows
    · exact .inr (.inl (WorkerPool.awaited_send hsend (.inr hawaited)))
    · rw [hpending] at hmem
      obtain rfl | hlater := List.mem_cons.mp hmem
      · exact .inr (.inl (WorkerPool.awaited_send hsend (.inl rfl)))
      · exact .inr (.inr hlater)
  missing := h.missing
  credit := by
    have hdebt := WorkerPool.debt_send hsend
    have hcredit := h.credit
    rw [hpending, List.length_cons] at hcredit
    change pool'.debt + (call.collector.next + call.collector.pending.size) + pending.length ≤
      bound + call.totalWindows
    omega

theorem Waiting.receive {bound : Nat} {pool : WorkerPool} {call : PoolCall}
    (h : Waiting bound pool call) {result : Except Error NpuResult}
    {resultRx : List (Except Error NpuResult)}
    (hresults : pool.resultRx = result :: resultRx)
    (hnone : (call.collector.receive call.onSegment result).failed = none) :
    Waiting bound { pool with resultRx }
      { call with collector := call.collector.receive call.onSegment result } := by
  obtain ⟨hok, hmissing, hknows, hsum⟩ := Collector.receive_knows call.onSegment h.missing hnone
  refine ⟨h.total, fun window hwindow => ?_, hmissing, ?_⟩
  · obtain hbefore | hawaited | hpending := h.windows window hwindow
    · exact .inl (hknows window.index (.inl hbefore))
    · obtain hstill | hthis := hawaited.receive hresults hok
      · exact .inr (.inl hstill)
      · exact .inl (hknows window.index (.inr hthis))
    · exact .inr (.inr hpending)
  · have hdebt := WorkerPool.debt_receive hresults
    have hcredit := h.credit
    simp only
    omega

/-- When all threads have ended, only what is in the channel is left. -/
theorem Solvent.debt_of_stopped (h : Solvent s) (hstopped : s.stopped = true) :
    s.pool.debt ≤ 2 * npuWorkers - 1 := by
  have hnone : ∀ workerId, (s.pool.workers workerId).owes = 0 := by
    intro workerId
    have hended := decide_eq_true_eq.mp hstopped workerId
    rw [NpuWorker.owes, (h.conserves.of_ended hended).1]
    cases hphase : (s.pool.workers workerId).phase <;> rw [hphase] at hended <;>
      first | rfl | cases hended
  rw [WorkerPool.debt, Finset.sum_eq_zero fun workerId _ => hnone workerId]
  exact h.room.trans (by decide)

theorem Solvent.dispatch (h : Solvent s) {call : PoolCall} (hcall : s.call = some call)
    (hfailed : call.collector.failed = none) (hstep : s.dispatch call = some s') :
    Solvent s' := by
  have hwaiting := h.call call hcall hfailed
  rw [ParallelTranscriberPool.dispatch] at hstep
  split at hstep
  · cases hstep
  · split at hstep
    · rename_i hstopped
      obtain rfl := Option.some.inj hstep
      exact .returnCall h.conserves h.room (h.debt_of_stopped hstopped) s _ _
    · cases hstep
  · rename_i window pending workerId readyRx hpending hready
    have hsend := h.conserves.send_first hready (.whisper (window.whisperJob call.audio call.options))
    have hreceives : (s.pool.workers workerId).phase.receives = true := by
      rw [(h.conserves.first hready).1]
      rfl
    simp only [if_pos hreceives, hsend, Option.map_some] at hstep
    obtain rfl := Option.some.inj hstep
    refine ⟨h.conserves.sent hready _, h.room, ?_, ?_⟩
    · rintro _ ⟨⟩ -
      have htaken : Waiting (2 * npuWorkers - 1) { s.pool with readyRx } call :=
        ⟨hwaiting.total, hwaiting.windows, hwaiting.missing, hwaiting.credit⟩
      exact htaken.send hpending hsend
    · intro hother
      have hsome : call.collector.failed ≠ none := hother { call with pending } rfl
      exact absurd hfailed hsome

theorem Solvent.receive (h : Solvent s) {call : PoolCall} (hcall : s.call = some call)
    (hstep : s.receive call = some s') : Solvent s' := by
  rw [ParallelTranscriberPool.receive] at hstep
  split at hstep
  · cases hstep
  · rename_i hdone
    have hfailed : call.collector.failed = none := by
      by_contra hsome
      exact hdone (Collector.done_eq_true.mpr (.inl hsome))
    have hdebt := h.conserves.debt_le h.room
    split at hstep
    · split at hstep
      · rename_i hstopped
        obtain rfl := Option.some.inj hstep
        refine ⟨h.conserves, h.room, ?_, fun _ => ?_⟩
        · rintro _ ⟨⟩ hnone
          cases hnone
        · exact h.debt_of_stopped hstopped
      · cases hstep
    · rename_i result resultRx hresults
      obtain rfl := Option.some.inj hstep
      have hless : WorkerPool.debt { s.pool with resultRx } + 1 = s.pool.debt :=
        WorkerPool.debt_receive hresults
      have hleft : WorkerPool.debt { s.pool with resultRx } ≤ 2 * npuWorkers - 1 := by omega
      refine ⟨h.conserves, ?_, ?_, fun _ => hleft⟩
      · have hroom := h.room
        rw [hresults] at hroom
        exact Nat.le_of_succ_le hroom
      · rintro _ ⟨⟩ hnone
        exact (h.call call hcall hfailed).receive hresults hnone

theorem Solvent.step (h : Solvent s) (hstep : Step s event s') : Solvent s' := by
  simp only [Step, ParallelTranscriberPool.step] at hstep
  cases event with
  | call audio vadSegments options onSegment =>
      simp only at hstep
      split at hstep
      · rename_i hcall
        obtain rfl := Option.some.inj hstep
        exact h.startCall hcall ..
      · cases hstep
  | dispatch =>
      obtain ⟨call, hcall, hdispatch⟩ := Option.bind_eq_some_iff.mp hstep
      split at hdispatch
      · cases hdispatch
      · rename_i hfailed
        exact h.dispatch hcall (Option.not_isSome_iff_eq_none.mp hfailed) hdispatch
  | receive =>
      obtain ⟨call, hcall, hreceive⟩ := Option.bind_eq_some_iff.mp hstep
      exact h.receive hcall hreceive
  | join =>
      obtain ⟨call, hcall, hjoin⟩ := Option.bind_eq_some_iff.mp hstep
      obtain ⟨hready, rfl⟩ := Option.ite_some_none_eq_some.mp hjoin
      refine .returnCall h.conserves h.room ?_ s call _
      by_cases hfailed : call.collector.failed = none
      · obtain hsome | ⟨hdone, hpending⟩ := hready
        · rw [hfailed] at hsome
          cases hsome
        · have hle := (Collector.done_eq_true.mp hdone).resolve_left fun hsome => hsome hfailed
          have hcredit := (h.call call hcall hfailed).credit
          omega
      · refine h.idle fun other hother => ?_
        rw [hcall] at hother
        obtain rfl := Option.some.inj hother
        exact hfailed
  | worker workerId event =>
      obtain ⟨pool, hpool, rfl⟩ := Option.map_eq_some_iff.mp hstep
      refine ⟨h.conserves.step hpool, WorkerPool.room_step hpool h.room, ?_, ?_⟩
      · intro call hcall hfailed
        exact (h.call call hcall hfailed).worker hpool
      · intro hother
        exact (WorkerPool.debt_step hpool).trans (h.idle hother)

theorem solvent_of_run {events : List Event}
    (h : Run Step ({} : ParallelTranscriberPool) events s) : Solvent s :=
  h.invariant (P := fun _ => Solvent) solvent_start fun _ _ _ _ hinv hstep => hinv.step hstep

/-! ### Calls come to an end -/

/-- A window that is sent becomes work of a worker, and a result is taken out. -/
def rank (s : ParallelTranscriberPool) : Nat :=
  (match s.call with
    | none => 0
    | some call => 6 * call.pending.length + if call.collector.failed.isSome then 1 else 2) +
      s.pool.rank

theorem rank_returnCall_lt {pool : WorkerPool} {call : PoolCall} (hcall : s.call = some call)
    (hpool : pool.rank = s.pool.rank) (result : Except Error Transcription) :
    rank ({ s with pool }.returnCall call result) < s.rank := by
  rw [rank, rank, hcall]
  change 0 + pool.rank < _
  simp only
  split <;> omega

theorem rank_step (hstep : ServedStep s event s') : s'.rank < s.rank := by
  have hnext := hstep.step
  simp only [Step, ParallelTranscriberPool.step] at hnext
  cases event with
  | call audio vadSegments options onSegment =>
      exact absurd rfl (hstep.served audio vadSegments options onSegment)
  | dispatch =>
      obtain ⟨call, hcall, hdispatch⟩ := Option.bind_eq_some_iff.mp hnext
      split at hdispatch
      · cases hdispatch
      · rename_i hfailed
        rw [ParallelTranscriberPool.dispatch] at hdispatch
        split at hdispatch
        · cases hdispatch
        · split at hdispatch
          · obtain rfl := Option.some.inj hdispatch
            exact rank_returnCall_lt hcall rfl _
          · cases hdispatch
        · rename_i window pending workerId readyRx hpending hready
          split at hdispatch
          · obtain ⟨pool, hsend, rfl⟩ := Option.map_eq_some_iff.mp hdispatch
            have hrank : pool.rank = s.pool.rank + 5 := (WorkerPool.rank_send hsend).trans rfl
            simp only [rank, hcall, hpending, List.length_cons, hrank, if_neg hfailed]
            omega
          · obtain rfl := Option.some.inj hdispatch
            exact @rank_returnCall_lt s { s.pool with readyRx } call hcall rfl _
  | receive =>
      obtain ⟨call, hcall, hreceive⟩ := Option.bind_eq_some_iff.mp hnext
      rw [ParallelTranscriberPool.receive] at hreceive
      split at hreceive
      · cases hreceive
      · rename_i hdone
        have hfailed : ¬ call.collector.failed.isSome = true := by
          intro hsome
          refine hdone (Collector.done_eq_true.mpr (.inl ?_))
          exact Option.isSome_iff_ne_none.mp hsome
        split at hreceive
        · split at hreceive
          · obtain rfl := Option.some.inj hreceive
            simp only [rank, hcall, if_neg hfailed, Collector.closed, Option.isSome_some, if_true]
            omega
          · cases hreceive
        · rename_i result resultRx hresults
          obtain rfl := Option.some.inj hreceive
          have hrank := WorkerPool.rank_receive hresults
          simp only [rank, hcall, if_neg hfailed]
          split <;> omega
  | join =>
      obtain ⟨call, hcall, hjoin⟩ := Option.bind_eq_some_iff.mp hnext
      obtain ⟨-, rfl⟩ := Option.ite_some_none_eq_some.mp hjoin
      exact rank_returnCall_lt hcall rfl _
  | worker workerId event =>
      obtain ⟨pool, hpool, rfl⟩ := Option.map_eq_some_iff.mp hnext
      exact Nat.add_lt_add_left (WorkerPool.rank_step hpool) _

/-- Between two calls only finitely many steps are taken. -/
theorem served_terminates (s : ParallelTranscriberPool) : Terminates ServedStep s :=
  terminates_of_rank (P := fun _ => True) rank (fun _ _ _ _ _ => trivial)
    (fun _ _ _ _ hstep => rank_step hstep) trivial

/-! ### Where nothing is left to do -/

/-- A worker has died of the window that the call waits for, and another is alive, so that the channels
stay open. -/
def Abandoned (s : ParallelTranscriberPool) (call : PoolCall) : Prop :=
  (∃ window ∈ transcriptionWindows call.audio.length call.vadSegments,
    window.index = call.collector.next ∧
      s.pool.LostOver (window.whisperJob call.audio call.options)) ∧
  ∃ workerId, (s.pool.workers workerId).phase.receives = true

theorem exists_alive (hopen : s.stopped = false) :
    ∃ workerId, (s.pool.workers workerId).phase.receives = true := by
  have hsome := of_decide_eq_false hopen
  rw [not_forall] at hsome
  obtain ⟨workerId, halive⟩ := hsome
  exact ⟨workerId, Bool.eq_true_of_not_eq_false halive⟩

section Ended

variable {call : PoolCall} (h : Solvent s) (hfinal : Final ServedStep s) (hcall : s.call = some call)

include hfinal

theorem step_eq_none (hserved : ∀ audio vadSegments options onSegment,
    event ≠ .call audio vadSegments options onSegment) : s.step event = none := by
  by_contra hsome
  obtain ⟨s', hstep⟩ := Option.ne_none_iff_exists'.mp hsome
  exact hfinal event s' ⟨hstep, hserved⟩

include hcall

theorem failed_eq_none_of_final : call.collector.failed = none := by
  have hjoin : s.step .join = none := step_eq_none hfinal nofun
  simp only [step, hcall, Option.bind_some] at hjoin
  by_contra hfailed
  rw [if_pos (.inl (Option.isSome_iff_ne_none.mpr hfailed))] at hjoin
  cases hjoin

omit hcall

include h

theorem worker_of_final (workerId : Fin npuWorkers) :
    (s.pool.workers workerId).phase.receives = false ∨ WorkerPool.Idle (s.pool.workers workerId) ∨
      (WorkerPool.Sends (s.pool.workers workerId) ∧ npuWorkers ≤ s.pool.resultRx.length) := by
  refine h.conserves.announced.still fun event => ?_
  have hworker : s.step (.worker workerId event) = none := step_eq_none hfinal nofun
  exact Option.map_eq_none_iff.mp hworker

include hcall

/-- A window is sent as soon as a worker is ready, and else an error is returned. -/
theorem pending_of_final : call.pending = [] ∨ (s.pool.readyRx = [] ∧ s.stopped = false) := by
  have hfailed := failed_eq_none_of_final hfinal hcall
  have hdispatch : s.step .dispatch = none := step_eq_none hfinal nofun
  cases hpending : call.pending with
  | nil => exact .inl rfl
  | cons window pending =>
      right
      cases hready : s.pool.readyRx with
      | nil =>
          refine ⟨rfl, ?_⟩
          rw [← Bool.not_eq_true]
          intro hstopped
          simp [step, hcall, hfailed, dispatch, hpending, hready, hstopped] at hdispatch
      | cons workerId readyRx =>
          have hreceives : (s.pool.workers workerId).phase.receives = true := by
            rw [(h.conserves.first hready).1]
            rfl
          simp [step, hcall, hfailed, dispatch, hpending, hready, hreceives,
            h.conserves.send_first hready] at hdispatch

/-- A call that still waits for a window is not left alone, unless a worker has died of the window. -/
theorem done_of_final : call.totalWindows ≤ call.collector.next ∨ Abandoned s call := by
  have hfailed := failed_eq_none_of_final hfinal hcall
  refine or_iff_not_imp_left.mpr fun hmore => ?_
  have hdone : call.collector.done call.totalWindows = false := by
    rw [← Bool.not_eq_true, Collector.done_eq_true]
    exact not_or.mpr ⟨fun hsome => hsome hfailed, hmore⟩
  have hreceive : s.step .receive = none := step_eq_none hfinal nofun
  have hempty : s.pool.resultRx = [] := by
    cases hresults : s.pool.resultRx with
    | nil => rfl
    | cons result resultRx => simp [step, hcall, receive, hdone, hresults] at hreceive
  have hworkers : ∀ workerId, (s.pool.workers workerId).phase.receives = false ∨
      WorkerPool.Idle (s.pool.workers workerId) := by
    intro workerId
    obtain hended | hidle | ⟨-, hfull⟩ := worker_of_final h hfinal workerId
    · exact .inl hended
    · exact .inr hidle
    · rw [hempty] at hfull
      exact absurd hfull (by decide)
  have hstopped : s.stopped = false := by
    rw [← Bool.not_eq_true]
    intro hstopped
    simp [step, hcall, receive, hdone, hempty, hstopped] at hreceive
  obtain ⟨workerId, halive⟩ := exists_alive hstopped
  have hready := h.conserves.mem_of_idle
    ((hworkers workerId).resolve_left (ne_false_of_eq_true halive))
  have hpending : call.pending = [] := by
    refine (pending_of_final h hfinal hcall).resolve_right ?_
    rintro ⟨hnone, -⟩
    rw [hnone] at hready
    cases hready
  -- No window is at a worker, so that the next one has come unless a worker has died of it.
  have hheld := h.conserves.held_eq_zero hworkers
  have hwaiting := h.call call hcall hfailed
  have hlt := not_le.mp hmore
  rw [hwaiting.total] at hlt
  have hwindow := List.getElem?_eq_getElem hlt
  have hindex := (numbered_transcriptionWindows call.audio.length call.vadSegments).index hwindow
  have hmem := List.mem_of_getElem? hwindow
  obtain hknows | hawaited | hleft := hwaiting.windows _ hmem
  · rw [hindex] at hknows
    obtain hbefore | hkept := hknows
    · exact absurd hbefore (lt_irrefl _)
    · rw [hwaiting.missing] at hkept
      cases hkept
  · obtain hinside | hanswered | ⟨error, herror⟩ | hlost := hawaited
    · rw [hheld] at hinside
      exact absurd hinside (Multiset.notMem_zero _)
    · rw [WorkerPool.answered, hempty] at hanswered
      cases hanswered
    · rw [hempty] at herror
      cases herror
    · exact ⟨⟨_, hmem, hindex, hlost⟩, workerId, halive⟩
  · rw [hpending] at hleft
    cases hleft

/-- **Why a call that has all results is left alone.** It has taken old results for its own and has one
window left, which no worker asks for: one worker cannot send its result, and the other two have
ended. -/
theorem stuck_of_final (hdone : call.totalWindows ≤ call.collector.next) :
    ∃ workerId, WorkerPool.Sends (s.pool.workers workerId) ∧
      ∀ other ≠ workerId, (s.pool.workers other).phase.receives = false := by
  have hfailed := failed_eq_none_of_final hfinal hcall
  have hpending : call.pending ≠ [] := by
    intro hnil
    have hjoin : s.step .join = none := step_eq_none hfinal nofun
    simp [step, hcall, Collector.done_eq_true.mpr (.inr hdone), hnil] at hjoin
  obtain ⟨hready, hopen⟩ := (pending_of_final h hfinal hcall).resolve_left hpending
  obtain ⟨workerId, halive⟩ := exists_alive hopen
  have hworkers : ∀ workerId, (s.pool.workers workerId).phase.receives = true →
      WorkerPool.Sends (s.pool.workers workerId) ∧ npuWorkers ≤ s.pool.resultRx.length := by
    intro workerId halive
    obtain hended | hidle | hsends := worker_of_final h hfinal workerId
    · rw [halive] at hended
      cases hended
    · have hmem := h.conserves.mem_of_idle hidle
      rw [hready] at hmem
      cases hmem
    · exact hsends
  obtain ⟨hsends, hfull⟩ := hworkers workerId halive
  refine ⟨workerId, hsends, fun other hother => ?_⟩
  rw [← Bool.not_eq_true]
  intro halive'
  have howes : 2 ≤ ∑ workerId, (s.pool.workers workerId).owes :=
    calc 2 ≤ (s.pool.workers other).owes + (s.pool.workers workerId).owes :=
          Nat.add_le_add (hworkers other halive').1.owes hsends.owes
      _ ≤ ∑ workerId, (s.pool.workers workerId).owes :=
          Finset.add_le_sum (f := fun workerId => (s.pool.workers workerId).owes)
            (fun _ _ => Nat.zero_le _) (Finset.mem_univ _) (Finset.mem_univ _) hother
  have hcredit := (h.call call hcall hfailed).credit
  have hlength := List.length_pos_iff.mpr hpending
  rw [WorkerPool.debt] at hcredit
  change 3 ≤ _ at hfull
  change _ ≤ 2 * 3 - 1 + _ at hcredit
  omega

end Ended

/-- **Calls return.** Whatever earlier calls have left behind, no call goes on for ever, and where no
step of the call or of a thread is left it has returned, unless a worker has died of the window that it
waits for, or all workers but one have ended. -/
theorem call_returns {events : List Event}
    (h : Run Step ({} : ParallelTranscriberPool) events s) :
    Terminates ServedStep s ∧
      ∀ more s', Run ServedStep s more s' → Final ServedStep s' →
        s'.call = none ∨ (∃ call, s'.call = some call ∧ Abandoned s' call) ∨
          ∃ workerId, ∀ other, (s'.pool.workers other).phase.receives = true ↔ other = workerId := by
  refine ⟨served_terminates s, fun more s' hmore hfinal => ?_⟩
  have hsolvent := solvent_of_run (h.trans (hmore.mono fun _ _ _ hstep => hstep.step))
  cases hcall : s'.call with
  | none => exact .inl rfl
  | some call =>
      right
      obtain hdone | habandoned := done_of_final hsolvent hfinal hcall
      · obtain ⟨workerId, hsends, hothers⟩ := stuck_of_final hsolvent hfinal hcall hdone
        refine .inr ⟨workerId, fun other => ⟨fun halive => ?_, ?_⟩⟩
        · by_contra hother
          rw [hothers other hother] at halive
          cases halive
        · rintro rfl
          exact hsends.receives
      · exact .inl ⟨call, rfl, habandoned⟩

/-- A call that has all results and is left alone: the state has no step. -/
theorem final_of_stuck {call : PoolCall} {workerId : Fin npuWorkers} (hcall : s.call = some call)
    (hdone : call.totalWindows ≤ call.collector.next) (hfailed : call.collector.failed = none)
    (hpending : call.pending ≠ []) (hready : s.pool.readyRx = [])
    (hfull : npuWorkers ≤ s.pool.resultRx.length) (hsends : WorkerPool.Sends (s.pool.workers workerId))
    (hothers : ∀ other ≠ workerId, (s.pool.workers other).phase.receives = false) :
    Final ServedStep s := by
  rintro event next ⟨hstep, hserved⟩
  have hnext : s.step event = some next := hstep
  cases event with
  | call audio vadSegments options onSegment => exact hserved audio vadSegments options onSegment rfl
  | dispatch =>
      obtain ⟨window, pending, hpending⟩ := List.exists_cons_of_ne_nil hpending
      have hopen : s.stopped = false :=
        decide_eq_false fun hended => by
          cases hsends.receives.symm.trans (hended workerId)
      simp [step, hcall, hfailed, dispatch, hpending, hready, hopen] at hnext
  | receive =>
      simp [step, hcall, receive, Collector.done_eq_true.mpr (.inr hdone)] at hnext
  | join => simp [step, hcall, hfailed, hpending] at hnext
  | worker other event =>
      obtain ⟨pool, hpool, -⟩ := Option.map_eq_some_iff.mp hnext
      by_cases hother : other = workerId
      · subst hother
        obtain ⟨error, hphase⟩ | ⟨outcome, hphase⟩ := hsends <;> cases event <;>
          simp [WorkerPool.step, hphase, Nat.not_lt.mpr hfull] at hpool
      · rw [WorkerPool.step_eq_none_of_ended (hothers other hother)] at hpool
        cases hpool

/-- And so is one that waits for a window where nobody has anything to do. -/
theorem final_of_waiting {call : PoolCall} (hcall : s.call = some call)
    (hmore : call.collector.next < call.totalWindows) (hfailed : call.collector.failed = none)
    (hpending : call.pending = []) (hresults : s.pool.resultRx = []) (hopen : s.stopped = false)
    (hworkers : ∀ workerId, (s.pool.workers workerId).phase.receives = false ∨
      WorkerPool.Idle (s.pool.workers workerId)) : Final ServedStep s := by
  have hdone : call.collector.done call.totalWindows = false := by
    rw [← Bool.not_eq_true, Collector.done_eq_true]
    exact not_or.mpr ⟨fun hsome => hsome hfailed, not_le.mpr hmore⟩
  rintro event next ⟨hstep, hserved⟩
  have hnext : s.step event = some next := hstep
  cases event with
  | call audio vadSegments options onSegment => exact hserved audio vadSegments options onSegment rfl
  | dispatch => simp [step, hcall, hfailed, dispatch, hpending] at hnext
  | receive => simp [step, hcall, receive, hdone, hresults, hopen] at hnext
  | join => simp [step, hcall, hfailed, hdone] at hnext
  | worker workerId event =>
      obtain ⟨pool, hpool, -⟩ := Option.map_eq_some_iff.mp hnext
      obtain hended | hidle := hworkers workerId
      · rw [WorkerPool.step_eq_none_of_ended hended] at hpool
        cases hpool
      · rw [WorkerPool.step_eq_none_of_idle hidle] at hpool
        cases hpool

theorem final_of_idle (hcall : s.call = none)
    (hidle : ∀ workerId, WorkerPool.Idle (s.pool.workers workerId)) : Final ServedStep s := by
  rintro event next ⟨hstep, hserved⟩
  have hnext : s.step event = some next := hstep
  cases event with
  | call audio vadSegments options onSegment => exact hserved audio vadSegments options onSegment rfl
  | dispatch | receive | join => simp [step, hcall] at hnext
  | worker workerId event =>
      obtain ⟨pool, hpool, -⟩ := Option.map_eq_some_iff.mp hnext
      rw [WorkerPool.step_eq_none_of_idle (hidle workerId)] at hpool
      cases hpool

/-! ### Separate calls -/

variable {answers : WhisperJob → String → List TranscriptSegment → Prop} {events : List Event}

theorem separate_of_run (h : Run (SeparateStep answers) ({} : ParallelTranscriberPool) events s) :
    Separate answers s :=
  h.invariant (P := fun _ => Separate answers) ⟨nofun, nofun, nofun⟩
    fun _ _ _ _ hbefore hstep => hbefore.step hstep

/-- Only windows that have been sent are collected. -/
theorem OwnWork.next_le {pool : WorkerPool} {call : PoolCall} {front : List AudioWindow}
    {received : List WindowTranscription} (h : OwnWork answers pool call front received)
    (hfailed : call.collector.failed = none) : call.collector.next ≤ front.length := by
  by_contra hmore
  have hcome := (h.collector hfailed).collects.holds.handedOn front.length (not_le.mp hmore)
  obtain ⟨result, hanswer⟩ := Option.isSome_iff_exists.mp hcome
  have hindex : result.windowIndex = front.length := by
    simpa using List.find?_some hanswer
  obtain ⟨window, hwindow, hown⟩ :=
    h.results result (List.mem_append_left _ (List.mem_of_find?_eq_some hanswer))
  have hlt := h.index_lt hwindow
  rw [← windowIndex_of_result hown, hindex] at hlt
  exact lt_irrefl _ hlt

/-- **Separate calls return**, with what the workers made of their own windows: when each call begins
with no window of an earlier one left, none is under way where no step of the call or of a thread is
left, however many workers have failed to start, unless a worker has died of the window that the call
waits for. -/
theorem separate_calls_return (h : Run (SeparateStep answers) {} events s)
    (hfinal : Final ServedStep s) :
    (∀ call, s.call = some call → Abandoned s call) ∧
      ∀ returned ∈ s.returned, OwnResults answers returned := by
  have hseparate := separate_of_run h
  refine ⟨fun call hcall => ?_, hseparate.returned⟩
  obtain ⟨front, received, hown⟩ := hseparate.call call hcall
  have hfailed := failed_eq_none_of_final hfinal hcall
  have hsolvent := solvent_of_run (h.mono fun _ _ _ hstep => hstep.step)
  refine (done_of_final hsolvent hfinal hcall).resolve_left fun hdone => ?_
  have hpending : call.pending = [] := by
    have hnext := hown.next_le hfailed
    have htotal := hown.total
    rw [List.length_append] at htotal
    exact List.length_eq_zero_iff.mp (by omega)
  have hjoin : s.step .join = none := step_eq_none hfinal nofun
  simp [step, hcall, Collector.done_eq_true.mpr (.inr hdone), hpending] at hjoin

/-! ### Three runs -/

/-- All three workers come up, and one of them answers the one window of a call. -/
def restingEvents : List Event :=
  [.worker 0 (.load (.ok ())), .worker 1 (.load (.ok ())), .worker 2 (.load (.ok ())),
    .worker 0 .announce, .worker 1 .announce, .worker 2 .announce,
    .call [F32.ofNat 1] [] (.ofHeader {}) fun _ _ => .ok (), .dispatch, .worker 0 .take,
    .worker 0 (.transcribe "" [sampleSegment]), .worker 0 .answer, .receive, .worker 0 .announce,
    .join]

def idle (worker : NpuWorker) : Bool :=
  worker.jobRx.isNone && worker.phase.initialised && !worker.phase.executing

theorem idle_of_idle {worker : NpuWorker} (h : idle worker = true) : WorkerPool.Idle worker := by
  simp only [idle, Bool.and_eq_true, Option.isNone_iff_eq_none, Bool.not_eq_true'] at h
  exact ⟨WorkerPhase.eq_waiting h.1.2 h.2, h.1.1⟩

theorem separate_calls_return_resting : ∃ s,
    Run (SeparateStep fun job text segments => onesHaveSegments job text segments = true)
        ({} : ParallelTranscriberPool) restingEvents s ∧
      s.returned.length = 1 ∧ (∀ call, s.call = some call → Abandoned s call) ∧
      ∀ returned ∈ s.returned,
        OwnResults (fun job text segments => onesHaveSegments job text segments = true)
          returned := by
  have hrun : ((restingEvents.foldlM (separateStep onesHaveSegments)
      ({} : ParallelTranscriberPool)).map fun s =>
        (s.returned.length, s.call.isNone, decide (∀ workerId, idle (s.pool.workers workerId)))) =
      some (1, true, true) := by
    decide +kernel
  obtain ⟨s, hfold, hview⟩ := Option.map_eq_some_iff.mp hrun
  simp only [Prod.mk.injEq, Option.isNone_iff_eq_none, decide_eq_true_eq] at hview
  obtain ⟨hreturned, hcall, hidle⟩ := hview
  have h : Run (SeparateStep fun job text segments => onesHaveSegments job text segments = true)
      {} restingEvents s :=
    Run.of_foldlM (f := separateStep onesHaveSegments) (fun _ _ _ => separateStep_spec) hfold
  refine ⟨s, h, hreturned, separate_calls_return h (final_of_idle hcall fun workerId => ?_)⟩
  exact idle_of_idle (hidle workerId)

/-- Four windows. -/
def fourSegments : List VadSegment :=
  [0, 480001, 960002, 1440003].map fun start =>
    ⟨start, start + 1, samplesToSec start, samplesToSec (start + 1)⟩

def fourAudio : List F32 := List.replicate 1440004 (F32.ofNat 1)

/-- The worker takes a window and has its result. -/
def served : List Event :=
  [.dispatch, .worker 0 .take, .worker 0 (.transcribe "" [])]

/-- The first window of the first call fails, with three more behind it; the second call collects
these three and its own first window, and then two workers fail to start. -/
def hangingEvents : List Event :=
  [.worker 0 (.load (.ok ())), .worker 0 .announce,
    .call fourAudio fourSegments (.ofHeader {}) fun _ _ => .ok (),
    .dispatch, .worker 0 .take, .worker 0 (.fail (.other "")), .worker 0 .answer,
    .worker 0 .announce] ++ served ++ [.worker 0 .answer, .worker 0 .announce] ++ served ++
    [.worker 0 .answer, .worker 0 .announce] ++ served ++ [.receive, .join, .worker 0 .answer,
    .worker 0 .announce, .call fourAudio fourSegments (.ofHeader {}) fun _ _ => .ok (), .receive,
    .receive, .receive]
    ++ served ++ [.worker 0 .answer, .worker 0 .announce, .receive] ++ served ++
    [.worker 0 .answer, .worker 0 .announce] ++ served ++
    [.worker 1 (.load (.error (.other ""))), .worker 1 .refuse,
      .worker 2 (.load (.error (.other ""))), .worker 2 .refuse]

def hasAnswer : WorkerPhase → Bool
  | .answering _ => true
  | _ => false

/-- What `final_of_stuck` asks for, of worker 0. -/
def leftAlone (s : ParallelTranscriberPool) (call : PoolCall) : Bool :=
  decide (call.totalWindows ≤ call.collector.next) && call.collector.failed.isNone &&
    !call.pending.isEmpty && s.pool.readyRx.isEmpty && decide (npuWorkers ≤ s.pool.resultRx.length) &&
    hasAnswer (s.pool.workers 0).phase &&
    decide (∀ other ≠ 0, (s.pool.workers other).phase.receives = false)

/-- **The exceptions are real**: a call that no step ends, with one worker alive. -/
theorem call_hangs : ∃ s, Run Step ({} : ParallelTranscriberPool) hangingEvents s ∧
    Final ServedStep s ∧ s.call ≠ none := by
  have hrun : ((hangingEvents.foldlM step ({} : ParallelTranscriberPool)).bind fun s =>
      s.call.map (leftAlone s)) = some true := by
    decide +kernel
  obtain ⟨s, hfold, hcalled⟩ := Option.bind_eq_some_iff.mp hrun
  obtain ⟨call, hcall, hview⟩ := Option.map_eq_some_iff.mp hcalled
  simp only [leftAlone, Bool.and_eq_true, decide_eq_true_eq, Option.isNone_iff_eq_none,
    Bool.not_eq_true', List.isEmpty_iff, List.isEmpty_eq_false_iff] at hview
  obtain ⟨⟨⟨⟨⟨⟨hdone, hfailed⟩, hpending⟩, hready⟩, hfull⟩, hanswer⟩, hothers⟩ := hview
  have hsends : WorkerPool.Sends (s.pool.workers 0) := by
    cases hphase : (s.pool.workers 0).phase with
    | answering outcome => exact .inr ⟨outcome, hphase⟩
    | _ => simp [hphase, hasAnswer] at hanswer
  refine ⟨s, Run.of_foldlM (fun _ _ _ hstep => hstep) hfold, ?_, by simp [hcall]⟩
  exact final_of_stuck hcall hdone hfailed hpending hready hfull hsends hothers

theorem call_returns_hanging : ∃ s, Run Step ({} : ParallelTranscriberPool) hangingEvents s ∧
    Terminates ServedStep s ∧ s.call ≠ none ∧
      ((∃ call, s.call = some call ∧ Abandoned s call) ∨
        ∃ workerId, ∀ other, (s.pool.workers other).phase.receives = true ↔ other = workerId) := by
  obtain ⟨s, hrun, hfinal, hcall⟩ := call_hangs
  obtain ⟨hterminates, hreturns⟩ := call_returns hrun
  exact ⟨s, hrun, hterminates, hcall, (hreturns [] s .refl hfinal).resolve_left hcall⟩

/-- All three workers come up, and one of them dies of the one window of a call, with as many beams as
there are tokens. -/
def panickingEvents : List Event :=
  [.worker 0 (.load (.ok ())), .worker 1 (.load (.ok ())), .worker 2 (.load (.ok ())),
    .worker 0 .announce, .worker 1 .announce, .worker 2 .announce,
    .call [F32.ofNat 1] [] (.ofHeader (requestHeaderFromHello wideHello)) fun _ _ => .ok (),
    .dispatch, .worker 0 .take, .worker 0 .panic]

/-- What `final_of_waiting` asks for. -/
def waitsForNothing (s : ParallelTranscriberPool) (call : PoolCall) : Bool :=
  decide (call.collector.next < call.totalWindows) && call.collector.failed.isNone &&
    call.pending.isEmpty && s.pool.resultRx.isEmpty && !s.stopped &&
    decide (∀ workerId, (s.pool.workers workerId).phase.receives = false ∨
      idle (s.pool.workers workerId) = true)

/-- Or a call that waits for a window that a worker has died of. -/
theorem call_hangs_panicked : ∃ s, Run Step ({} : ParallelTranscriberPool) panickingEvents s ∧
    Final ServedStep s ∧ s.call ≠ none := by
  have hrun : ((panickingEvents.foldlM step ({} : ParallelTranscriberPool)).bind fun s =>
      s.call.map (waitsForNothing s)) = some true := by
    decide +kernel
  obtain ⟨s, hfold, hcalled⟩ := Option.bind_eq_some_iff.mp hrun
  obtain ⟨call, hcall, hview⟩ := Option.map_eq_some_iff.mp hcalled
  simp only [waitsForNothing, Bool.and_eq_true, decide_eq_true_eq, Option.isNone_iff_eq_none,
    Bool.not_eq_true', List.isEmpty_iff] at hview
  obtain ⟨⟨⟨⟨⟨hmore, hfailed⟩, hpending⟩, hresults⟩, hopen⟩, hworkers⟩ := hview
  refine ⟨s, Run.of_foldlM (fun _ _ _ hstep => hstep) hfold, ?_, by simp [hcall]⟩
  exact final_of_waiting hcall hmore hfailed hpending hresults hopen fun workerId =>
    (hworkers workerId).imp_right idle_of_idle

end ParallelTranscriberPool

end RkWhisper
