import RkWhisper.Proof.OneShotTermination
import RkWhisper.Proof.SessionJob

/-!
# The audio of one-shot transcription

Every byte the client has of its audio is in a chunk the reader has sent, or in the reader's hand, or in
the ring, or still to push, in this order; and every sample of a chunk sent has been taken by the job
or is in its channel.
-/

namespace RkWhisper

open Transition

theorem samplesOfPcm_flatten_of_even {blocks : List Bytes}
    (heven : ∀ block ∈ blocks, block.length % 2 = 0) :
    samplesOfPcm blocks.flatten = blocks.flatMap samplesOfPcm := by
  induction blocks with
  | nil => rfl
  | cons block blocks ih =>
      rw [List.forall_mem_cons] at heven
      rw [List.flatten_cons, samplesOfPcm_append _ _ heven.1, ih heven.2, List.flatMap_cons]

namespace LiveRun

variable {maxInFlight : Nat} {run run' : LiveRun}

/-- A closed job has nothing left in its channel. -/
def Emptied (run : LiveRun) : Prop :=
  run.job.producerClosed = true → run.job.chunkRx.queue = []

theorem Emptied.step {event : Event} (h : Emptied run) (hjob : Undisturbed maxInFlight run)
    (hstep : Step maxInFlight run event run') : Emptied run' := by
  intro hclosed
  by_cases hdrain : event = .drain
  · obtain ⟨-, rfl⟩ := step_eq_some_iff.mp hstep
    subst hdrain
    by_cases hskip : run.job.producerClosed = true ∨ maxInFlight ≤ run.job.inFlight
    · have hsame : run.job.drainLiveChunks maxInFlight = run.job := by
        rw [ActiveLiveJob.drainLiveChunks, if_pos hskip]
      simp only [next, hsame] at hclosed ⊢
      exact h hclosed
    · obtain ⟨chunkRx, closed, hdrained, -, hqueue⟩ := run.job.drainLiveChunks_spec maxInFlight
      rw [ActiveLiveJob.drainedChunks, if_neg hskip] at hqueue
      simp only [next, hdrained]
      exact List.append_right_eq_self.mp hqueue
  · cases event with
    | arrive chunk =>
        obtain ⟨⟨-, hopen⟩, rfl⟩ := step_eq_some_iff.mp hstep
        have hend : run.job.chunkRx.disconnected = true := hjob.hungUp hclosed
        rw [show run.job.chunkRx.disconnected = false from hopen] at hend
        cases hend
    | hangUp =>
        obtain ⟨-, rfl⟩ := step_eq_some_iff.mp hstep
        exact h hclosed
    | drain => exact absurd rfl hdrain
    | _ =>
        have hkeeps := keepsChannels_of_step hstep (by simp) (by simp) (by simp)
        rw [hkeeps.chunkRx]
        exact h (hkeeps.producerClosed ▸ hclosed)

theorem Emptied.of_run {events : List Event} (h : Emptied run) (hjob : Undisturbed maxInFlight run)
    (hregular : ∀ event ∈ events, event.Regular) (hrun : Run (Step maxInFlight) run events run') :
    Emptied run' :=
  (hrun.invariant_of_forall (P := fun _ run => Undisturbed maxInFlight run ∧ Emptied run) hregular
    ⟨hjob, h⟩ fun _ _ _ _ hinv hgood hstep =>
      ⟨hinv.1.step hgood hstep, hinv.2.step hinv.1 hstep⟩).2

/-- No terminal response is an error. -/
def Sound (run : LiveRun) : Prop := ∀ error, .finished (.error error) ∉ run.job.responseTx

theorem Sound.step {event : Event} (h : Sound run) (hjob : Undisturbed maxInFlight run)
    (hregular : event.Regular) (hstep : Step maxInFlight run event run') : Sound run' := by
  intro error hmem
  cases hremoved : run'.removed with
  | false => exact (hjob.step hregular hstep).ending.running hremoved _ hmem
  | true =>
      obtain rfl | ⟨error, rfl⟩ := (removed_step hstep).mp hremoved
      · obtain ⟨⟨-, hcomplete⟩, rfl⟩ := step_eq_some_iff.mp hstep
        have hjobComplete : run.job.isComplete = true := hcomplete
        simp only [next, ActiveLiveJob.finishIfComplete, if_pos hjobComplete] at hmem
        obtain hold | hnew := List.mem_append.mp hmem
        · exact h error hold
        · cases List.mem_singleton.mp hnew
      · exact hregular

theorem Sound.of_run {events : List Event} (h : Sound run) (hjob : Undisturbed maxInFlight run)
    (hregular : ∀ event ∈ events, event.Regular) (hrun : Run (Step maxInFlight) run events run') :
    Sound run' :=
  (hrun.invariant_of_forall (P := fun _ run => Undisturbed maxInFlight run ∧ Sound run) hregular
    ⟨hjob, h⟩ fun _ _ _ _ hinv hgood hstep =>
      ⟨hinv.1.step hgood hstep, hinv.2.step hinv.1 hgood hstep⟩).2

end LiveRun

namespace OneShot

open LiveSession

variable {config : SessionConfig} {total : Nat} {c c' : OneShot} {pcm : Bytes} {blocks : List Bytes}

/-- The reader has sent `blocks`. -/
structure Carried (pcm : Bytes) (c : OneShot) (blocks : List Bytes) : Prop where
  even : ∀ block ∈ blocks, block.length % 2 = 0
  totalSamples : c.session.reader.stats.totalSamples = (blocks.flatMap samplesOfPcm).length
  received : c.session.run.received = blocks.flatMap samplesOfPcm
  bytes : (∀ error, c.session.readerPhase ≠ .returned (.error error)) →
    blocks.flatten ++ c.session.reader.pcm ++ c.session.ring.contents ++ c.client.unsent = pcm
  emptied : c.session.run.Emptied
  drained : c.session.readerPhase = .flushing true → c.session.ring.contents = []
  ended : ∀ outcome, c.session.readerPhase = .returned (.ok outcome) →
    outcome = .completed c.session.reader.stats ∧ c.session.reader.pcm = [] ∧
      c.session.ring.contents = []
  whole : pcm.length % 2 = 0 → ∀ error, c.session.readerPhase ≠ .returned (.error error)

theorem carried_start (capacity : UInt64) (memory : Nat → UInt8) (jobId : Nat)
    (header : RequestHeader) (vadEnabled : Bool) (pcm : Bytes) :
    (start capacity memory jobId header vadEnabled pcm).Carried pcm [] where
  even := by simp
  totalSamples := rfl
  received := rfl
  bytes _ := by
    have hcontents : (start capacity memory jobId header vadEnabled pcm).session.ring.contents = [] :=
      SharedAudioRing.contents_initHeader _
    rw [hcontents]
    rfl
  emptied _ := rfl
  drained h := by cases h
  ended outcome h := by cases h
  whole _ error h := by cases h

/-- A step that changes neither what the reader has nor what is still to come. -/
theorem Carried.keep (h : c.Carried pcm blocks) (hreader : c'.session.reader = c.session.reader)
    (hreceived : c'.session.run.received = c.session.run.received)
    (hemptied : c'.session.run.Emptied)
    (hbytes : c'.session.ring.contents ++ c'.client.unsent =
      c.session.ring.contents ++ c.client.unsent)
    (hdrained : c'.session.readerPhase = .flushing true → c'.session.ring.contents = [])
    (hphase : c'.session.readerPhase = c.session.readerPhase)
    (hended : c.session.readerPhase.final = true → c'.session.ring.contents = c.session.ring.contents) :
    c'.Carried pcm blocks where
  even := h.even
  totalSamples := by
    rw [hreader]
    exact h.totalSamples
  received := hreceived.trans h.received
  bytes hrunning := by
    rw [hphase] at hrunning
    rw [hreader, List.append_assoc, hbytes, ← List.append_assoc]
    exact h.bytes hrunning
  emptied := hemptied
  drained := hdrained
  ended outcome hreturned := by
    rw [hphase] at hreturned
    rw [hreader, hended (by rw [hreturned]; rfl)]
    exact h.ended outcome hreturned
  whole := by
    rw [hphase]
    exact h.whole

theorem Carried.clientMove (h : c.Carried pcm blocks) (hinv : c.Invariant config total)
    (hmax : total < 2 ^ 64) (hmove : ClientMove config c c') : c'.Carried pcm blocks := by
  cases hmove with
  | finish hclient =>
      have hunsent : c.client.unsent = [] := congrArg OneShotPhase.unsent hclient
      exact h.keep rfl rfl h.emptied (by rw [hunsent]; rfl) h.drained rfl fun _ => rfl
  | push rest pushed hclient hne hpush hpos =>
      obtain ⟨pushed', hpush', -, hcontents, -⟩ := hinv.push hmax hclient
      obtain ⟨-, rfl⟩ := Prod.mk.inj (hpush.symm.trans hpush')
      have hsends : c.client.Sends := by rw [hclient]; trivial
      have hfinal := hinv.final_eq_false hsends
      have hunsent : c.client.unsent = rest := congrArg OneShotPhase.unsent hclient
      refine h.keep rfl rfl h.emptied ?_ ?_ rfl ?_
      · rw [hunsent]
        simp only [hcontents, OneShotPhase.unsent, List.append_assoc, List.take_append_drop]
      · intro hphase
        rw [show c.session.readerPhase = .flushing true from hphase] at hfinal
        cases hfinal
      · intro htrue
        rw [hfinal] at htrue
        cases htrue
  | signal rest hclient =>
      have hunsent : c.client.unsent = rest := congrArg OneShotPhase.unsent hclient
      exact h.keep rfl rfl h.emptied (by rw [hunsent]; rfl) h.drained rfl fun _ => rfl
  | hungUp frame text segments hclient =>
      have hunsent : c.client.unsent = [] := congrArg OneShotPhase.unsent hclient
      exact h.keep rfl rfl h.emptied (by rw [hunsent]; rfl) h.drained rfl fun _ => rfl
  | receive frame text segments byte toClient hclient =>
      have hunsent : c.client.unsent = [] := congrArg OneShotPhase.unsent hclient
      have hunsent' := (OneShotPhase.of_not_sends
        (OneShotPhase.not_sends_onByte (frame ++ [byte]) text segments)).2.1
      exact h.keep rfl rfl h.emptied (by rw [hunsent, hunsent']) h.drained rfl fun _ => rfl

/-! ### The reader -/

/-- A chunk of whole samples goes to the job as it is. -/
theorem Carried.sendChunk (h : c.Carried pcm blocks) {finalFlush : Bool}
    (hphase : c.session.readerPhase = .flushing finalFlush)
    (hremoved : c.session.run.removed = false) (reader : LiveReader) {chunk : Bytes}
    (hstats : reader.stats = c.session.reader.stats)
    (hpcm : chunk ++ reader.pcm = c.session.reader.pcm)
    (hparity : chunk.length % 2 = 1 → pcm.length % 2 = 1) {session : LiveSession}
    (hemptied : session.run.Emptied)
    (hstep : c.session.sendChunk config reader chunk = some session) :
    ∃ blocks, { c with session }.Carried pcm blocks := by
  have hbytes := h.bytes (by simp [hphase])
  unfold LiveSession.sendChunk at hstep
  obtain heven | hodd := Nat.mod_two_eq_zero_or_one chunk.length
  · simp only [LiveReader.sendChunk, pcmS16leToF32_of_even heven, hremoved, Bool.false_eq_true,
      if_false, Option.ite_none_right_eq_some, Option.some.injEq] at hstep
    obtain ⟨-, rfl⟩ := hstep
    refine ⟨blocks ++ [chunk], ?_, ?_, ?_, ?_, hemptied, h.drained, ?_, h.whole⟩
    · intro block hmem
      obtain hold | hnew := List.mem_append.mp hmem
      · exact h.even block hold
      · rwa [List.mem_singleton.mp hnew]
    · simp only [hstats, h.totalSamples, List.flatMap_append, List.flatMap_singleton,
        List.length_append]
    · rw [LiveRun.received_arrive, h.received, List.flatMap_append, List.flatMap_singleton]
    · intro _
      simp only
      rw [← hbytes, ← hpcm, List.flatten_append, List.flatten_singleton]
      simp only [List.append_assoc]
    · intro outcome hreturned
      rw [show c.session.readerPhase = .returned (.ok outcome) from hreturned] at hphase
      cases hphase
  · simp only [LiveReader.sendChunk, pcmS16leToF32_of_odd hodd, Option.some.injEq] at hstep
    subst hstep
    refine ⟨blocks, h.even, by rw [← h.totalSamples, ← hstats]; rfl, ?_, ?_, hemptied, ?_, ?_, ?_⟩
    · simp only [returnReader, hremoved, Bool.false_eq_true, if_false]
      exact h.received
    · exact fun hrunning => absurd rfl (hrunning _)
    · intro hflushing
      cases hflushing
    · intro outcome hreturned
      cases hreturned
    · intro heven
      have hcontra := hparity hodd
      omega

theorem length_flatten_mod_two {blocks : List Bytes} (heven : ∀ block ∈ blocks, block.length % 2 = 0) :
    blocks.flatten.length % 2 = 0 := by
  induction blocks with
  | nil => rfl
  | cons block blocks ih =>
      rw [List.forall_mem_cons] at heven
      have hrest := ih heven.2
      have hfirst := heven.1
      rw [List.flatten_cons, List.length_append]
      omega

/-- In the last round the reader holds all that is left. -/
theorem Carried.odd_of_last (h : c.Carried pcm blocks) (hinv : c.Invariant config total)
    (hphase : c.session.readerPhase = .flushing true)
    (hodd : c.session.reader.pcm.length % 2 = 1) : pcm.length % 2 = 1 := by
  have hbytes := h.bytes (by simp [hphase])
  have hsends := (hinv.ended (by rw [hphase]; rfl)).1
  have heven := length_flatten_mod_two h.even
  rw [h.drained hphase, (OneShotPhase.of_not_sends hsends).2.1, List.append_nil,
    List.append_nil] at hbytes
  rw [← hbytes, List.length_append]
  omega

theorem Carried.readerStep (h : c.Carried pcm blocks) (hinv : c.Invariant config total)
    {session : LiveSession} (hstep : c.session.readerStep config = some session)
    (hemptied : session.run.Emptied) : ∃ blocks, { c with session }.Carried pcm blocks := by
  cases hphase : c.session.readerPhase with
  | reading =>
      obtain ⟨toDaemon, finalFlush, -, rfl, -⟩ := hinv.read_cases hphase hstep
      refine ⟨blocks, h.even, h.totalSamples, h.received, fun _ => ?_, h.emptied, ?_, ?_, ?_⟩
      · exact h.bytes (by simp [hphase])
      · intro hflushing
        cases hflushing
      · intro outcome hreturned
        cases hreturned
      · intro _ error hreturned
        cases hreturned
  | draining finalFlush =>
      simp only [LiveSession.readerStep, hphase, SharedAudioRing.drainAvailable_eq hinv.valid] at hstep
      obtain rfl := Option.some.inj hstep
      have hempty : { c.session.ring with readOffset := c.session.ring.writeOffset }.contents =
          [] := by
        rw [← List.length_eq_zero_iff, SharedAudioRing.length_contents, Nat.sub_self]
      refine ⟨blocks, h.even, h.totalSamples, h.received, fun _ => ?_, h.emptied, fun _ => hempty, ?_,
        ?_⟩
      · have hbytes := h.bytes (by simp [hphase])
        change blocks.flatten ++ (c.session.reader.pcm ++ c.session.ring.contents) ++
          { c.session.ring with readOffset := c.session.ring.writeOffset }.contents ++
            c.client.unsent = pcm
        rw [hempty, List.append_nil, ← List.append_assoc]
        exact hbytes
      · intro outcome hreturned
        cases hreturned
      · intro _ error hreturned
        cases hreturned
  | flushing finalFlush =>
      have hremoved := hinv.running (by simp [hphase, ReaderPhase.Returned])
      simp only [LiveSession.readerStep, hphase, flushStep] at hstep
      split at hstep
      · rename_i hfull
        refine h.sendChunk hphase hremoved
          { c.session.reader with pcm := c.session.reader.pcm.drop LiveReader.chunkBytes } rfl
          (List.take_append_drop _ _) ?_ hemptied hstep
        rw [List.length_take, min_eq_left hfull]
        exact fun hodd => by cases hodd
      · split at hstep
        · rename_i hlast
          refine h.sendChunk hphase hremoved { c.session.reader with pcm := [] } rfl
            (List.append_nil _) ?_ hemptied hstep
          exact fun hodd => h.odd_of_last hinv (by rw [hphase, hlast.1]) hodd
        · rename_i hshort hlast
          obtain rfl := Option.some.inj hstep
          cases finalFlush with
          | false =>
              refine ⟨blocks, h.even, h.totalSamples, h.received, fun _ => ?_, h.emptied, ?_, ?_, ?_⟩
              · exact h.bytes (by simp [hphase])
              · intro hflushing
                cases hflushing
              · intro outcome hreturned
                cases hreturned
              · intro _ error hreturned
                cases hreturned
          | true =>
              have hnone : c.session.reader.pcm = [] := by
                by_contra hne
                exact hlast ⟨rfl, hne⟩
              refine ⟨blocks, h.even, h.totalSamples, ?_, fun _ => ?_, hemptied, ?_, ?_, ?_⟩
              · simp only [LiveReader.onFlushed, if_true, moveReader, returnReader, hremoved,
                  Bool.false_eq_true, if_false]
                exact h.received
              · exact h.bytes (by simp [hphase])
              · intro hflushing
                cases hflushing
              · intro outcome hreturned
                cases hreturned
                exact ⟨rfl, hnone, h.drained hphase⟩
              · intro _ error hreturned
                cases hreturned
  | returned result =>
      simp only [LiveSession.readerStep, hphase] at hstep
      cases hstep

theorem Carried.step (h : c.Carried pcm blocks) (hinv : c.Invariant config total)
    (hmax : total < 2 ^ 64) {event : Event} (hstep : Step config c event c') :
    ∃ blocks, c'.Carried pcm blocks := by
  cases event with
  | client => exact ⟨blocks, h.clientMove hinv hmax (hinv.clientMove hmax hstep)⟩
  | daemon event =>
      obtain ⟨hanswered, session, hsession, rfl⟩ := exists_of_daemon_step hstep
      obtain ⟨-, events, hrun, hregular⟩ :=
        @Attached.step config True _ _ hinv.attached event
          (fun _ => hinv.regular hanswered hsession) hsession
      have hemptied := h.emptied.of_run hinv.job (hregular trivial) hrun
      have hkeep : session.intake = c.session.intake →
          session.run.received = c.session.run.received →
          ∃ blocks, { c with session }.Carried pcm blocks := by
        intro hintake hreceived
        simp only [intake, Prod.mk.injEq] at hintake
        obtain ⟨hring, -, -, hreader, hphase⟩ := hintake
        refine ⟨blocks, h.keep hreader hreceived hemptied (by rw [hring]) ?_ hphase
          fun _ => by rw [hring]⟩
        simp only [hring, hphase]
        exact h.drained
      cases event with
      | client action => cases hanswered
      | reader => exact h.readerStep hinv hsession hemptied
      | scheduler event =>
          exact hkeep (intake_schedulerStep hsession)
            (received_schedulerStep hinv.attached hsession)
      | writer factor =>
          obtain ⟨hsame, -, hintake⟩ := writerStep_run hsession
          exact hkeep hintake (by rw [hsame])

theorem carried_of_run {capacity : UInt64} (hcapacity : 0 < capacity) {memory : Nat → UInt8}
    {jobId : Nat} {header : RequestHeader} {vadEnabled : Bool} (hmax : pcm.length < 2 ^ 64)
    {events : List Event}
    (hrun : Run (Step config) (start capacity memory jobId header vadEnabled pcm) events c) :
    c.Invariant config pcm.length ∧ ∃ blocks, c.Carried pcm blocks :=
  hrun.invariant (P := fun _ c => c.Invariant config pcm.length ∧ ∃ blocks, c.Carried pcm blocks)
    ⟨invariant_start hcapacity .., [], carried_start ..⟩ fun _ _ _ _ hinv hstep => by
      obtain ⟨hinv, blocks, hcarried⟩ := hinv
      exact ⟨hinv.step hmax hstep, hcarried.step hinv hmax hstep⟩

/-! ### The end of the job -/

theorem sound_of_run {capacity : UInt64} (hcapacity : 0 < capacity) {memory : Nat → UInt8}
    {jobId : Nat} {header : RequestHeader} {vadEnabled : Bool} (hmax : pcm.length < 2 ^ 64)
    {events : List Event}
    (hrun : Run (Step config) (start capacity memory jobId header vadEnabled pcm) events c) :
    c.session.run.Sound := by
  induction hrun with
  | refl => exact fun error => List.not_mem_nil
  | snoc hrun hstep ih =>
      rename_i state next event
      have hinv := (invariant_start hcapacity memory jobId header vadEnabled pcm).of_run hmax hrun
      cases event with
      | client =>
          have hsame : next.session.run = state.session.run := by
            cases hinv.clientMove hmax hstep <;> rfl
          rw [hsame]
          exact ih
      | daemon event =>
          obtain ⟨hanswered, session, hsession, rfl⟩ := exists_of_daemon_step hstep
          obtain ⟨-, events, hmore, hregular⟩ :=
            @Attached.step config True _ _ hinv.attached event
              (fun _ => hinv.regular hanswered hsession) hsession
          exact ih.of_run hinv.job (hregular trivial) hmore

/-- **A job that completes behind its reader has taken all of the audio.** -/
theorem Carried.accepted (h : c.Carried pcm blocks) (hinv : c.Invariant config total)
    {outcome : ReadOutcome} (hreturned : c.session.readerPhase = .returned (.ok outcome))
    (hclosed : c.session.run.job.producerClosed = true) :
    c.session.run.accepted = samplesOfPcm pcm ∧
      outcome = .completed c.session.reader.stats ∧
      c.session.reader.stats.totalSamples = (samplesOfPcm pcm).length := by
  obtain ⟨houtcome, hpcm, hcontents⟩ := h.ended outcome hreturned
  have hsends := (hinv.ended (by rw [hreturned]; rfl)).1
  have hbytes := h.bytes (by simp [hreturned])
  rw [hpcm, hcontents, (OneShotPhase.of_not_sends hsends).2.1, List.append_nil, List.append_nil,
    List.append_nil] at hbytes
  have hsamples : blocks.flatMap samplesOfPcm = samplesOfPcm pcm := by
    rw [← hbytes]
    exact (samplesOfPcm_flatten_of_even h.even).symm
  have hreceived := h.received
  rw [LiveRun.received, h.emptied hclosed] at hreceived
  refine ⟨?_, houtcome, by rw [h.totalSamples, hsamples]⟩
  rw [← hsamples, ← hreceived]
  exact (List.append_nil _).symm

end OneShot

end RkWhisper
