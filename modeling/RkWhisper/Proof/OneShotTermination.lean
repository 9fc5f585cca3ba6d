import RkWhisper.Proof.SessionTermination

/-!
# One-shot transcription comes to an end

With workers that do what they are asked, no run of the client and the daemon goes on for ever; and if
the audio fits into the ring, it can only stop with the return of `transcribe_all`.
-/

namespace RkWhisper

open Transition

namespace OneShotPhase

/-- A push leaves a signal to send. -/
def rank : OneShotPhase → Nat
  | .sending rest => 2 * rest.length + 2
  | .signalling rest => 2 * rest.length + 3
  | .receiving _ _ _ => 1
  | .returned _ => 0

theorem rank_onByte_le (frame : Bytes) (text : String) (segments : List Sync.TranscriptSegment) :
    (onByte frame text segments).rank ≤ 1 := by
  have hsends := not_sends_onByte frame text segments
  cases hphase : onByte frame text segments with
  | sending rest => exact absurd (hphase ▸ trivial) hsends
  | signalling rest => exact absurd (hphase ▸ trivial) hsends
  | receiving frame text segments => exact le_rfl
  | returned result => exact Nat.zero_le 1

end OneShotPhase

namespace OneShot

open LiveSession

variable {config : SessionConfig} {total : Nat} {c c' : OneShot}

/-- No worker refuses a VAD window. -/
def Event.served : Event → Bool
  | .client => true
  | .daemon event => event.served

/-- No worker refuses a window. -/
def Event.Sends (event : Event) : Prop := event ≠ .daemon (.scheduler (.branch (.dispatch false)))

def ServedStep (config : SessionConfig) (c : OneShot) (event : Event) (c' : OneShot) : Prop :=
  event.served = true ∧ Step config c event c'

def rank (config : SessionConfig) (c : OneShot) : Nat ×ₗ Nat ×ₗ Nat ×ₗ Nat ×ₗ Nat :=
  toLex (c.client.rank, c.session.rank config)

theorem rank_lt_of_client (h : c'.client.rank < c.client.rank) : c'.rank config < c.rank config :=
  Prod.Lex.toLex_lt_toLex.mpr (.inl h)

theorem rank_lt_of_session (hclient : c'.client.rank ≤ c.client.rank)
    (h : c'.session.rank config < c.session.rank config) : c'.rank config < c.rank config :=
  Prod.Lex.toLex_lt_toLex'.mpr ⟨hclient, fun _ => h⟩

theorem rank_clientMove (h : ClientMove config c c') : c'.rank config < c.rank config := by
  cases h with
  | finish hclient =>
      apply rank_lt_of_client
      rw [hclient]
      exact Nat.one_lt_two
  | push rest pushed hclient hne hpush hpos =>
      apply rank_lt_of_client
      have hrank : c.client.rank = 2 * rest.length + 2 := congrArg OneShotPhase.rank hclient
      rw [hrank]
      simp only [OneShotPhase.rank, List.length_drop]
      omega
  | signal rest hclient =>
      apply rank_lt_of_client
      rw [hclient]
      exact Nat.lt_succ_self _
  | hungUp frame text segments hclient =>
      apply rank_lt_of_client
      rw [hclient]
      exact Nat.zero_lt_one
  | receive frame text segments byte toClient hclient hsocket =>
      apply rank_lt_of_session
      · rw [hclient]
        exact OneShotPhase.rank_onByte_le _ _ _
      · refine rank_lt_of_response rfl rfl rfl (Nat.add_lt_add_right ?_ _)
        simp only [responseRank, hsocket, List.length_cons, pending]
        omega

/-- A step is one of the session at most, and the client's are actions of its client. -/
theorem session_step {event : Event} (hstep : Step config c event c') :
    ∃ more, Run (LiveSession.Step config) c.session more c'.session ∧
      ∀ event' ∈ more, (∃ action, event' = .client action) ∨ event = .daemon event' := by
  have hsingle : ∀ {event' : LiveSession.Event} {session : LiveSession},
      LiveSession.Step config c.session event' session →
      ((∃ action, event' = .client action) ∨ event = .daemon event') →
      ∃ more, Run (LiveSession.Step config) c.session more session ∧
        ∀ event' ∈ more, (∃ action, event' = .client action) ∨ event = .daemon event' :=
    fun hsession hevent => ⟨_, .single hsession, List.forall_mem_singleton.mpr hevent⟩
  cases event with
  | daemon event =>
      obtain ⟨-, session, hsession, rfl⟩ := exists_of_daemon_step hstep
      exact hsingle hsession (.inr rfl)
  | client =>
      have hclient : c.clientStep config = some c' := hstep
      have haction : ∀ {action : ClientAction} {f : LiveSession → OneShot},
          (∀ session, (f session).session = session) →
          (c.session.clientStep config action).map f = some c' →
          ∃ more, Run (LiveSession.Step config) c.session more c'.session ∧
            ∀ event' ∈ more, (∃ action, event' = .client action) ∨ Event.client = .daemon event' := by
        intro action f hf hmap
        obtain ⟨session, hsession, rfl⟩ := Option.map_eq_some_iff.mp hmap
        have haction : LiveSession.Step config c.session (.client action) session := hsession
        rw [hf]
        exact hsingle haction (.inl ⟨action, rfl⟩)
      unfold OneShot.clientStep at hclient
      split at hclient
      · exact haction (fun _ => rfl) hclient
      · split at hclient
        · obtain rfl := Option.some.inj hclient
          exact ⟨[], .refl, List.forall_mem_nil _⟩
        · split at hclient
          · cases hclient
          · exact haction (fun _ => rfl) hclient
      · exact haction (fun _ => rfl) hclient
      · split at hclient
        · simp only [Option.ite_none_right_eq_some, Option.some.injEq] at hclient
          obtain ⟨-, rfl⟩ := hclient
          exact ⟨[], .refl, List.forall_mem_nil _⟩
        · exact haction (fun _ => rfl) hclient
      · cases hclient

variable {capacity : UInt64} {memory : Nat → UInt8} {jobId : Nat} {header : RequestHeader}
  {vadEnabled : Bool} {pcm : Bytes} {events : List Event}

/-- A run of the client and the daemon is one of a session whose client it is. -/
theorem session_run
    (hrun : Run (Step config) (start capacity memory jobId header vadEnabled pcm) events c) :
    ∃ more, Run (LiveSession.Step config) (.start capacity memory jobId header vadEnabled) more
      c.session ∧ ∀ event ∈ more, (∃ action, event = .client action) ∨ .daemon event ∈ events := by
  induction hrun with
  | refl => exact ⟨[], .refl, List.forall_mem_nil _⟩
  | snoc _ hstep ih =>
      obtain ⟨more, hmore, hevents⟩ := ih
      obtain ⟨last, hlast, hevent⟩ := session_step hstep
      refine ⟨more ++ last, hmore.trans hlast, List.forall_mem_append.mpr ⟨?_, ?_⟩⟩
      · exact fun event hmem => (hevents event hmem).imp_right (List.mem_append_left _)
      · refine fun event hmem => (hevent event hmem).imp_right fun hsame => ?_
        rw [hsame]
        exact List.mem_append_right _ (List.mem_singleton_self _)

theorem exists_session_run
    (hrun : Run (Step config) (start capacity memory jobId header vadEnabled pcm) events c) :
    ∃ more, Run (LiveSession.Step config) (.start capacity memory jobId header vadEnabled) more
      c.session := by
  obtain ⟨more, hmore, -⟩ := session_run hrun
  exact ⟨more, hmore⟩

theorem oneShot_terminates (hcapacity : 0 < capacity)
    (hwindow : vadEnabled = true → 1 ≤ (VadConfig.ofHeader header).windowSamples)
    (hmax : pcm.length < 2 ^ 64)
    (hrun : Run (Step config) (start capacity memory jobId header vadEnabled pcm) events c) :
    Terminates (ServedStep config) c := by
  refine terminates_of_rank (P := fun c => ∃ events,
    Run (Step config) (start capacity memory jobId header vadEnabled pcm) events c) (rank config) ?_ ?_
    ⟨events, hrun⟩
  · rintro state event next ⟨events, hrun⟩ hstep
    exact ⟨_, .snoc hrun hstep.2⟩
  · rintro state event next ⟨events, hrun⟩ ⟨hserved, hstep⟩
    have hinv := (invariant_start hcapacity memory jobId header vadEnabled pcm).of_run hmax hrun
    cases event with
    | client => exact rank_clientMove (hinv.clientMove hmax hstep)
    | daemon event =>
        obtain ⟨-, session, hsession, rfl⟩ := exists_of_daemon_step hstep
        obtain ⟨more, hmore⟩ := exists_session_run hrun
        obtain ⟨steps, hjob⟩ := exists_job_run hmore
        refine rank_lt_of_session le_rfl ?_
        exact rank_step hinv.attached (LiveRun.audioInvariant hwindow hjob)
          (LiveRun.windowSamples_pos hwindow) (.of_run hjob) ⟨hserved, hsession⟩

/-- Where no served step is left, no step is. -/
theorem stuck_of_final (h : Final (ServedStep config) c) : c.Stuck config := by
  have hnone : ∀ event : LiveSession.Event, event.served = true → event.answered = true →
      c.session.step config event = none := by
    intro event hserved hanswered
    rw [Option.eq_none_iff_forall_not_mem]
    intro session hsession
    refine h (.daemon event) { c with session } ⟨hserved, ?_⟩
    have hsome : c.session.step config event = some session := hsession
    simp only [Step, step, if_pos hanswered, hsome, Option.map_some]
  intro event
  cases event with
  | client =>
      rw [Option.eq_none_iff_forall_not_mem]
      exact fun next hnext => h .client next ⟨rfl, hnext⟩
  | daemon event =>
      by_cases hanswered : event.answered = true
      · rw [step, if_pos hanswered, Option.map_eq_none_iff]
        cases event with
        | client action => cases hanswered
        | reader => exact hnone .reader rfl rfl
        | scheduler event =>
            exact schedulerStep_of_served (fun event => hnone (.scheduler event)) hanswered
        | writer factor => exact hnone (.writer factor) rfl rfl
      · exact if_neg hanswered

/-- Where no step is left, a client whose audio fits into the ring has returned. -/
theorem returned_of_final (hpositive : config.Positive) (hcapacity : 0 < capacity)
    (hmax : pcm.length < 2 ^ 64) (hfits : pcm.length ≤ capacity.toNat)
    (hsignals : 2 ≤ config.clientSendBuffer)
    (hrun : Run (Step config) (start capacity memory jobId header vadEnabled pcm) events c)
    (hfinal : Final (ServedStep config) c) : c.client.Returned := by
  have hinv := (invariant_start hcapacity memory jobId header vadEnabled pcm).of_run hmax hrun
  by_contra hreturned
  have hdead := hinv.deadlocked_of_stuck hmax hpositive hreturned (stuck_of_final hfinal)
  exact not_overflows_of_run hcapacity _ _ _ _ hfits hsignals hrun hdead.overflows

end OneShot

end RkWhisper
