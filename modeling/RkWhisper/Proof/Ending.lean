import RkWhisper.Proof.Delivery

/-!
# The end of the responses of a job

A job that meets no error of its reader sends one terminal response, in the step that removes it.
-/

namespace RkWhisper

/-- A terminal response is the only one, and the last response of all. -/
def EndsOnce (responses : List JobResponse) : Prop :=
  ∀ front result back, responses = front ++ .finished result :: back → back = []

theorem endsOnce_of_not_mem {responses : List JobResponse}
    (h : ∀ result, .finished result ∉ responses) : EndsOnce responses := by
  intro front result back hsplit
  refine absurd ?_ (h result)
  rw [hsplit]
  exact List.mem_append_right _ List.mem_cons_self

/-- What is not in front of the last entry is nowhere but there. -/
theorem eq_nil_of_concat_eq {α : Type*} {x last : α} {init front back : List α} (hx : x ∉ init)
    (hsplit : init ++ [last] = front ++ x :: back) : back = [] := by
  by_contra hback
  have hlast : (x :: back).dropLast = x :: back.dropLast := by
    cases back with
    | nil => exact absurd rfl hback
    | cons y back => rfl
  have hinit := congrArg List.dropLast hsplit
  rw [List.dropLast_concat, List.dropLast_append_of_ne_nil (List.cons_ne_nil _ _), hlast] at hinit
  apply hx
  rw [hinit]
  exact List.mem_append_right _ List.mem_cons_self

theorem endsOnce_concat {responses : List JobResponse}
    (h : ∀ result, .finished result ∉ responses) (last : Except Error LiveTranscriptionStats) :
    EndsOnce (responses ++ [.finished last]) :=
  fun _ result _ hsplit => eq_nil_of_concat_eq (h result) hsplit

namespace LiveRun

variable {maxInFlight : Nat} {run run' : LiveRun}

/-- No error of the reader is among what the step takes from the channel. -/
def ErrorFree (maxInFlight : Nat) (run : LiveRun) (event : Event) : Prop :=
  event = .drain → ∀ error, .error error ∉ run.job.drainedChunks maxInFlight

structure Ending (run : LiveRun) : Prop where
  running : run.removed = false → ∀ result, .finished result ∉ run.job.responseTx
  ended : EndsOnce run.job.responseTx

theorem errorResponses_eq_nil {chunks : List (Except Error LiveChunk)}
    (h : ∀ error, .error error ∉ chunks) : errorResponses chunks = [] := by
  rw [errorResponses, List.flatMap_eq_nil_iff]
  intro chunk hmem
  cases chunk with
  | ok chunk => rfl
  | error error => exact absurd hmem (h error)

theorem Ending.append (h : ∀ result, .finished result ∉ run.job.responseTx)
    {responses : List JobResponse} (hresponses : ∀ result, .finished result ∉ responses)
    (hsame : run'.job.responseTx = run.job.responseTx ++ responses) : Ending run' := by
  have hnone : ∀ result, JobResponse.finished result ∉ run'.job.responseTx := by
    intro result hmem
    rw [hsame, List.mem_append] at hmem
    exact hmem.elim (h result) (hresponses result)
  exact ⟨fun _ => hnone, endsOnce_of_not_mem hnone⟩

/-- **Without errors of the reader, only the step that removes a job ends its responses.** -/
theorem Ending.step {event : Event} (h : Ending run) (hfree : ErrorFree maxInFlight run event)
    (hstep : Step maxInFlight run event run') : Ending run' := by
  obtain ⟨⟨hremoved, henabled⟩, rfl⟩ := step_eq_some_iff.mp hstep
  have hrunning := h.running hremoved
  have hnone : ∀ result, JobResponse.finished result ∉ ([] : List JobResponse) :=
    fun _ => List.not_mem_nil
  cases event with
  | arrive chunk => exact .append hrunning hnone (List.append_nil _).symm
  | hangUp => exact .append hrunning hnone (List.append_nil _).symm
  | drain =>
      obtain ⟨chunkRx, closed, hdrain, -, -⟩ := run.job.drainLiveChunks_spec maxInFlight
      apply Ending.append hrunning hnone
      simp only [LiveRun.next, hdrain, errorResponses_eq_nil (hfree rfl)]
  | refresh =>
      apply Ending.append hrunning hnone
      rw [List.append_nil, LiveRun.next]
      obtain hsame | ⟨config, hsilent⟩ := run.job.refreshSpeechState_cases
      · rw [hsame]
      · rw [ActiveLiveJob.refreshSpeechState_of_silent hsilent]
        rfl
  | sendVad sent =>
      obtain ⟨config, hconfig, -⟩ := ActiveLiveJob.hasVadReady_iff.mp henabled
      apply Ending.append hrunning hnone
      simp only [LiveRun.next, ActiveLiveJob.sendVadJob_of_ready hconfig henabled, List.append_nil]
  | vadResult result => exact .append hrunning hnone (List.append_nil _).symm
  | dispatch sent =>
      obtain ⟨-, -, plan, hplan⟩ := ActiveLiveJob.mayDispatch_iff.mp henabled.2
      have hspeech : ∀ result, JobResponse.finished result ∉ run.job.speechResponses plan := by
        intro result hmem
        obtain ⟨event, -, hevent⟩ := List.mem_flatMap.mp hmem
        simp at hevent
      apply Ending.append hrunning hspeech
      simp only [LiveRun.next, ActiveLiveJob.dispatchToWorker_eq hplan]
      cases sent <;> rfl
  | whisperResult result =>
      obtain ⟨emitted, pending, hjob, -⟩ := run.job.handleResult_spec result
      have hsegments : ∀ ended, JobResponse.finished ended ∉
          emitted.flatMap WindowTranscription.responses := by
        intro ended hmem
        obtain ⟨answer, -, hresponse⟩ := List.mem_flatMap.mp hmem
        cases isSegment_of_mem_responses hresponse
      apply Ending.append hrunning hsegments
      simp only [LiveRun.next, hjob]
  | finish =>
      have hcomplete : run.job.isComplete = true := henabled
      simp only [LiveRun.next, ActiveLiveJob.finishIfComplete, if_pos hcomplete]
      refine ⟨?_, endsOnce_concat hrunning _⟩
      intro hfalse
      cases hfalse
  | abort error =>
      refine ⟨?_, endsOnce_concat hrunning _⟩
      intro hfalse
      cases hfalse

end LiveRun

end RkWhisper
