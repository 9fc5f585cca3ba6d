import RkWhisper.OneShot
import RkWhisper.Proof.AudioTransport
import RkWhisper.Proof.Cancellation
import RkWhisper.Proof.Undisturbed

/-!
# The runs of one-shot transcription

What holds of the client and the daemon in every run in which no worker fails: the signals in the
socket are those the client has sent and the reader has not taken, the reader is in its last round
only when the client has sent everything, and a ring that is not empty is on its way to the reader.
-/

namespace RkWhisper

open Transition

namespace OneShotPhase

/-- The audio is not all sent yet. -/
def Sends : OneShotPhase → Prop
  | .sending _ => True
  | .signalling _ => True
  | _ => False

def Returned : OneShotPhase → Prop
  | .returned _ => True
  | _ => False

/-- The push just made is not signalled yet. -/
def OwesSignal : OneShotPhase → Prop
  | .signalling _ => True
  | _ => False

def unsent : OneShotPhase → Bytes
  | .sending rest => rest
  | .signalling rest => rest
  | _ => []

def lastSignal : OneShotPhase → Bytes
  | .sending _ => []
  | .signalling _ => []
  | _ => [signalEndOfStream]

theorem mem_lastSignal {client : OneShotPhase} {signal : UInt8} (h : signal ∈ client.lastSignal) :
    signal = signalEndOfStream := by
  cases client with
  | sending rest => cases h
  | signalling rest => cases h
  | _ => exact List.mem_singleton.mp h

/-- Once everything is sent, nothing is left to send. -/
theorem of_not_sends {client : OneShotPhase} (h : ¬ client.Sends) :
    client.lastSignal = [signalEndOfStream] ∧ client.unsent = [] ∧ ¬ client.OwesSignal := by
  cases client with
  | sending rest => exact absurd trivial h
  | signalling rest => exact absurd trivial h
  | _ => exact ⟨rfl, rfl, id⟩

theorem not_sends_onByte (frame : Bytes) (text : String) (segments : List Sync.TranscriptSegment) :
    ¬ (onByte frame text segments).Sends := by
  have hresponse : ∀ response, ¬ (onResponse text segments response).Sends := by
    intro response
    cases response <;> exact id
  simp only [onByte]
  split
  · exact id
  · split
    · exact id
    · split
      · exact id
      · split
        · exact id
        · exact hresponse _

end OneShotPhase

namespace OneShot

open LiveSession

variable {config : SessionConfig} {total : Nat} {c c' : OneShot}

structure Invariant (config : SessionConfig) (total : Nat) (c : OneShot) : Prop where
  attached : c.session.Attached
  reports : c.session.Reports
  job : c.session.run.Undisturbed config.maxInFlight
  connected : c.session.clientClosed = false
  valid : c.session.ring.Valid
  offset : c.session.ring.writeOffset.toNat + c.client.unsent.length ≤ total
  pending : c.session.ring.contents ≠ [] →
    c.session.toDaemon ≠ [] ∨ c.client.OwesSignal ∨ c.session.readerPhase.Drains
  signals : c.session.readerPhase.final = false → ∃ count,
    c.session.toDaemon = List.replicate count signalDataReady ++ c.client.lastSignal
  ended : c.session.readerPhase.final = true → ¬ c.client.Sends ∧ c.session.toDaemon = []

theorem invariant_start {capacity : UInt64} (hcapacity : 0 < capacity) (memory : Nat → UInt8)
    (jobId : Nat) (header : RequestHeader) (vadEnabled : Bool) (pcm : Bytes) :
    (start capacity memory jobId header vadEnabled pcm).Invariant config pcm.length where
  attached := attached_start capacity memory jobId header vadEnabled
  reports := reports_start capacity memory jobId header vadEnabled
  job := LiveRun.undisturbed_start config.maxInFlight jobId header vadEnabled
  connected := rfl
  valid := SharedAudioRing.valid_initHeader _ hcapacity
  offset := (Nat.zero_add pcm.length).le
  pending h := absurd (SharedAudioRing.contents_initHeader _) h
  signals _ := ⟨0, rfl⟩
  ended h := absurd h Bool.false_ne_true

/-- While the client sends, the reader is not in its last round. -/
theorem Invariant.final_eq_false (h : c.Invariant config total) (hsends : c.client.Sends) :
    c.session.readerPhase.final = false := by
  by_contra hfinal
  rw [Bool.not_eq_false] at hfinal
  exact (h.ended hfinal).1 hsends

/-- As long as the reader is there, the job is. -/
theorem Invariant.running (h : c.Invariant config total)
    (hreading : ¬ c.session.readerPhase.Returned) : c.session.run.removed = false := by
  rw [← Bool.not_eq_true]
  intro hremoved
  exact hreading (h.attached.hungUp (h.job.hungUp (h.job.removed hremoved)))

/-! ### The client's steps -/

theorem clientStep_signal {s s' : LiveSession} {signal : UInt8}
    (hconnected : s.clientClosed = false) :
    s.clientStep config (.signal signal) = some s' ↔
      s.toDaemon.length < config.clientSendBuffer ∧
        s' = { s with toDaemon := s.toDaemon ++ [signal] } := by
  simp only [LiveSession.clientStep, hconnected, Bool.not_false, true_and,
    Option.ite_none_right_eq_some, Option.some.injEq]
  exact and_congr_right fun _ => eq_comm

/-- A signal tells of what was pushed before it. -/
theorem Invariant.signal (h : c.Invariant config total) {signal : UInt8} {client : OneShotPhase}
    (hsends : c.client.Sends) (hunsent : client.unsent.length ≤ c.client.unsent.length)
    (hsignals : ∃ count, [signal] = List.replicate count signalDataReady ++ client.lastSignal) :
    Invariant config total
      { session := { c.session with toDaemon := c.session.toDaemon ++ [signal] }, client } where
  attached := ⟨h.attached.exited, h.attached.hungUp, h.attached.connected⟩
  reports := ⟨h.reports.received, h.reports.joining, h.reports.cancelled⟩
  job := h.job
  connected := h.connected
  valid := h.valid
  offset := by
    have hoffset := h.offset
    simp only
    omega
  pending _ := .inl (List.append_ne_nil_of_right_ne_nil _ (List.cons_ne_nil signal []))
  signals hfinal := by
    obtain ⟨count, hcount⟩ := h.signals hfinal
    obtain ⟨more, hmore⟩ := hsignals
    have hlast : c.client.lastSignal = [] := by
      cases hclient : c.client <;> simp_all [OneShotPhase.Sends, OneShotPhase.lastSignal]
    refine ⟨count + more, ?_⟩
    simp only
    rw [hcount, hlast, List.append_nil, hmore, ← List.append_assoc,
      List.replicate_append_replicate]
  ended hfinal := by
    have hnot := h.final_eq_false hsends
    rw [← Bool.not_eq_true] at hnot
    exact absurd hfinal hnot

/-- A push moves bytes into the ring and owes a signal for them. -/
theorem Invariant.push (h : c.Invariant config total) (hmax : total < 2 ^ 64) {rest : Bytes}
    (hclient : c.client = .sending rest) :
    ∃ pushed, c.session.ring.pushAvailable rest =
        (.ok (min rest.length c.session.ring.free), pushed) ∧
      pushed.capacity = c.session.ring.capacity ∧
      pushed.contents =
        c.session.ring.contents ++ rest.take (min rest.length c.session.ring.free) ∧
      pushed.free = c.session.ring.free - min rest.length c.session.ring.free ∧
      Invariant config total
        { session := { c.session with ring := pushed }
          client := .signalling (rest.drop (min rest.length c.session.ring.free)) } := by
  have hsends : c.client.Sends := by rw [hclient]; trivial
  have hoffset := h.offset
  rw [hclient, OneShotPhase.unsent] at hoffset
  obtain ⟨pushed, hpush, hvalid, hcapacity, hcontents, hwrite⟩ :=
    SharedAudioRing.pushAvailable_spec h.valid rest (by omega)
  refine ⟨pushed, hpush, hcapacity, hcontents, ?_, ?_⟩
  · have hlength := congrArg List.length hcontents
    rw [List.length_append, List.length_take, SharedAudioRing.length_contents,
      SharedAudioRing.length_contents] at hlength
    simp only [SharedAudioRing.free, hcapacity] at hlength ⊢
    omega
  · exact {
      attached := ⟨h.attached.exited, h.attached.hungUp, h.attached.connected⟩
      reports := ⟨h.reports.received, h.reports.joining, h.reports.cancelled⟩
      job := h.job
      connected := h.connected
      valid := hvalid
      offset := by
        simp only [OneShotPhase.unsent, List.length_drop, hwrite]
        omega
      pending := fun _ => .inr (.inl trivial)
      signals := by
        intro hfinal
        have hold := h.signals hfinal
        rw [hclient] at hold
        exact hold
      ended := by
        intro hfinal
        have hnot := h.final_eq_false hsends
        rw [← Bool.not_eq_true] at hnot
        exact absurd hfinal hnot }

/-- Once everything is sent, the client touches nothing that audio comes in from. -/
theorem Invariant.receive (h : c.Invariant config total) (hsends : ¬ c.client.Sends)
    {client : OneShotPhase} (hclient : ¬ client.Sends) (toClient : Bytes) :
    Invariant config total { session := { c.session with toClient }, client } := by
  obtain ⟨hlast', hunsent', -⟩ := OneShotPhase.of_not_sends hclient
  obtain ⟨hlastOld, hunsentOld, howes⟩ := OneShotPhase.of_not_sends hsends
  exact {
    attached := ⟨h.attached.exited, h.attached.hungUp, h.attached.connected⟩
    reports := ⟨h.reports.received, h.reports.joining, h.reports.cancelled⟩
    job := h.job
    connected := h.connected
    valid := h.valid
    offset := by
      have hoffset := h.offset
      rw [hunsentOld] at hoffset
      simp only [hunsent']
      exact hoffset
    pending := fun hcontents => (h.pending hcontents).imp_right fun hrest =>
      .inr (hrest.resolve_left howes)
    signals := by
      intro hfinal
      obtain ⟨count, hcount⟩ := h.signals hfinal
      rw [hlastOld] at hcount
      exact ⟨count, by rw [hlast']; exact hcount⟩
    ended := fun hfinal => ⟨hclient, (h.ended hfinal).2⟩ }

theorem clientStep_push {s s' : LiveSession} {data : Bytes} (hconnected : s.clientClosed = false) :
    s.clientStep config (.push data) = some s' ↔
      s' = { s with ring := (s.ring.pushAvailable data).2 } := by
  simp only [LiveSession.clientStep, hconnected, Bool.false_eq_true, if_false, Option.some.injEq]
  exact eq_comm

/-- **The client's moves.** -/
inductive ClientMove (config : SessionConfig) (c : OneShot) : OneShot → Prop where
  | finish (hclient : c.client = .sending [])
      (hroom : c.session.toDaemon.length < config.clientSendBuffer) : ClientMove config c
        { session := { c.session with toDaemon := c.session.toDaemon ++ [signalEndOfStream] }
          client := .receiving [] "" [] }
  | push (rest : Bytes) (pushed : SharedAudioRing) (hclient : c.client = .sending rest)
      (hne : rest ≠ []) (hpush : c.session.ring.pushAvailable rest =
        (.ok (min rest.length c.session.ring.free), pushed))
      (hpos : min rest.length c.session.ring.free ≠ 0) : ClientMove config c
        { session := { c.session with ring := pushed }
          client := .signalling (rest.drop (min rest.length c.session.ring.free)) }
  | signal (rest : Bytes) (hclient : c.client = .signalling rest)
      (hroom : c.session.toDaemon.length < config.clientSendBuffer) : ClientMove config c
        { session := { c.session with toDaemon := c.session.toDaemon ++ [signalDataReady] }
          client := .sending rest }
  | hungUp (frame : Bytes) (text : String) (segments : List Sync.TranscriptSegment)
      (hclient : c.client = .receiving frame text segments) : ClientMove config c
        { c with client := .returned (.error (.protocol (.io "failed to fill whole buffer"))) }
  | receive (frame : Bytes) (text : String) (segments : List Sync.TranscriptSegment) (byte : UInt8)
      (toClient : Bytes) (hclient : c.client = .receiving frame text segments)
      (hsocket : c.session.toClient = byte :: toClient) : ClientMove config c
        { session := { c.session with toClient }
          client := .onByte (frame ++ [byte]) text segments }

theorem Invariant.clientMove (h : c.Invariant config total) (hmax : total < 2 ^ 64)
    (hstep : c.clientStep config = some c') : ClientMove config c c' := by
  unfold OneShot.clientStep at hstep
  split at hstep
  · rename_i hclient
    obtain ⟨session, hsession, rfl⟩ := Option.map_eq_some_iff.mp hstep
    obtain ⟨hroom, rfl⟩ := (clientStep_signal h.connected).mp hsession
    exact .finish hclient hroom
  · rename_i rest hne hclient
    obtain ⟨pushed, hpush, -⟩ := h.push hmax hclient
    simp only [hpush] at hstep
    split at hstep
    · cases hstep
    · rename_i hpos
      obtain ⟨session, hsession, rfl⟩ := Option.map_eq_some_iff.mp hstep
      obtain rfl := (clientStep_push h.connected).mp hsession
      rw [hpush]
      exact .push rest pushed hclient hne hpush hpos
  · rename_i rest hclient
    obtain ⟨session, hsession, rfl⟩ := Option.map_eq_some_iff.mp hstep
    obtain ⟨hroom, rfl⟩ := (clientStep_signal h.connected).mp hsession
    exact .signal rest hclient hroom
  · rename_i frame text segments hclient
    split at hstep
    · simp only [Option.ite_none_right_eq_some, Option.some.injEq] at hstep
      obtain ⟨-, rfl⟩ := hstep
      exact .hungUp frame text segments hclient
    · rename_i byte toClient hsocket
      obtain ⟨session, hsession, rfl⟩ := Option.map_eq_some_iff.mp hstep
      simp only [LiveSession.clientStep, hsocket, Option.some.injEq] at hsession
      subst hsession
      exact .receive frame text segments byte toClient hclient hsocket
  · cases hstep

theorem Invariant.clientStep (h : c.Invariant config total) (hmax : total < 2 ^ 64)
    (hstep : c.clientStep config = some c') : c'.Invariant config total := by
  cases h.clientMove hmax hstep with
  | finish hclient =>
      exact h.signal (by rw [hclient]; trivial) (Nat.zero_le _) ⟨0, rfl⟩
  | push rest pushed hclient hne hpush =>
      obtain ⟨pushed', hpush', -, -, -, hnext⟩ := h.push hmax hclient
      obtain ⟨-, rfl⟩ := Prod.mk.inj (hpush.symm.trans hpush')
      exact hnext
  | signal rest hclient =>
      exact h.signal (by rw [hclient]; trivial) (by rw [hclient]; exact le_rfl) ⟨1, rfl⟩
  | hungUp frame text segments hclient =>
      have hsends : ¬ c.client.Sends := by
        rw [hclient]
        exact id
      exact h.receive hsends id c.session.toClient
  | receive frame text segments byte toClient hclient =>
      have hsends : ¬ c.client.Sends := by
        rw [hclient]
        exact id
      exact h.receive hsends (OneShotPhase.not_sends_onByte _ _ _) toClient

/-! ### The daemon's steps -/

/-- No signal is out of the three, and no worker fails. -/
theorem Invariant.regular (h : c.Invariant config total) {event : LiveSession.Event}
    {session : LiveSession} (hanswered : event.answered = true)
    (hstep : c.session.step config event = some session) : c.session.Regular event := by
  cases event with
  | client action => trivial
  | reader =>
      intro hphase signal hsignal
      obtain ⟨count, hcount⟩ := h.signals (by rw [hphase]; rfl)
      have hmem := List.mem_of_mem_head? hsignal
      rw [hcount, List.mem_append] at hmem
      obtain hready | hlast := hmem
      · exact .inl (List.eq_of_mem_replicate hready)
      · exact .inr (.inl (OneShotPhase.mem_lastSignal hlast))
  | scheduler event =>
      cases event with
      | branch event =>
          have hscheduler : c.session.schedulerStep config (.branch event) = some session := hstep
          simp only [LiveSession.schedulerStep, Option.ite_none_right_eq_some] at hscheduler
          obtain ⟨⟨-, -, hmay⟩, -⟩ := hscheduler
          cases event with
          | arrive chunk => cases hmay
          | abort error => cases hanswered
          | _ => trivial
      | _ => trivial
  | writer factor => trivial

/-- A step that leaves alone where the audio comes in. -/
theorem Invariant.keep (h : c.Invariant config total) {session : LiveSession}
    (hattached : session.Attached) (hreports : session.Reports)
    (hjob : session.run.Undisturbed config.maxInFlight)
    (hintake : session.intake = c.session.intake) :
    { c with session }.Invariant config total := by
  simp only [intake, Prod.mk.injEq] at hintake
  obtain ⟨hring, hsocket, hconnected, -, hphase⟩ := hintake
  exact {
    attached := hattached
    reports := hreports
    job := hjob
    connected := hconnected.trans h.connected
    valid := hring ▸ h.valid
    offset := hring ▸ h.offset
    pending := by
      simp only [hring, hsocket, hphase]
      exact h.pending
    signals := by
      simp only [hsocket, hphase]
      exact h.signals
    ended := by
      simp only [hsocket, hphase]
      exact h.ended }

/-- A flush takes nothing in, and ends a round of the loop or the loop itself. -/
theorem flushStep_cases {s s' : LiveSession} {finalFlush : Bool}
    (hphase : s.readerPhase = .flushing finalFlush) (hremoved : s.run.removed = false)
    (hstep : s.flushStep config finalFlush = some s') :
    s'.ring = s.ring ∧ s'.toDaemon = s.toDaemon ∧ s'.clientClosed = s.clientClosed ∧
      (s'.readerPhase = s.readerPhase ∨ (finalFlush = false ∧ s'.readerPhase = .reading) ∨
        (finalFlush = true ∧ s'.readerPhase.Returned)) := by
  simp only [flushStep] at hstep
  split at hstep
  · rename_i hfull
    have heven : (s.reader.pcm.take LiveReader.chunkBytes).length % 2 = 0 := by
      rw [List.length_take, min_eq_left hfull]
      rfl
    simp only [sendChunk, LiveReader.sendChunk, pcmS16leToF32_of_even heven, hremoved] at hstep
    simp only [Bool.false_eq_true, if_false, Option.ite_none_right_eq_some,
      Option.some.injEq] at hstep
    obtain ⟨-, rfl⟩ := hstep
    exact ⟨rfl, rfl, rfl, .inl rfl⟩
  · split at hstep
    · rename_i hfinal
      unfold sendChunk at hstep
      split at hstep
      · obtain rfl := Option.some.inj hstep
        exact ⟨rfl, rfl, rfl, .inr (.inr ⟨hfinal.1, _, rfl⟩)⟩
      · simp only [hremoved, Bool.false_eq_true, if_false, Option.ite_none_right_eq_some,
          Option.some.injEq] at hstep
        obtain ⟨-, rfl⟩ := hstep
        exact ⟨rfl, rfl, rfl, .inl rfl⟩
    · obtain rfl := Option.some.inj hstep
      cases finalFlush with
      | false => exact ⟨rfl, rfl, rfl, .inr (.inl ⟨rfl, rfl⟩)⟩
      | true => exact ⟨rfl, rfl, rfl, .inr (.inr ⟨rfl, _, rfl⟩)⟩

theorem takeSignal_dataReady (s : LiveSession) :
    s.takeSignal config signalDataReady = some { s with readerPhase := .draining false } :=
  rfl

theorem takeSignal_endOfStream (s : LiveSession) :
    s.takeSignal config signalEndOfStream = some { s with readerPhase := .draining true } :=
  rfl

/-- The reader takes the next signal of the client, and the last one starts its last round. -/
theorem Invariant.read_cases (h : c.Invariant config total)
    (hphase : c.session.readerPhase = .reading) {session : LiveSession}
    (hstep : c.session.readerStep config = some session) :
    ∃ toDaemon finalFlush, toDaemon.length ≤ c.session.toDaemon.length ∧
      session = { c.session with toDaemon, readerPhase := .draining finalFlush } ∧
      (finalFlush = false →
        ∃ count, toDaemon = List.replicate count signalDataReady ++ c.client.lastSignal) ∧
      (finalFlush = true → ¬ c.client.Sends ∧ toDaemon = []) := by
  obtain ⟨count, hcount⟩ := h.signals (by rw [hphase]; rfl)
  cases count with
  | zero =>
      cases hsocket : c.session.toDaemon with
      | nil => simp [LiveSession.readerStep, hphase, hsocket, h.connected] at hstep
      | cons signal toDaemon =>
          rw [List.replicate_zero, List.nil_append, hsocket] at hcount
          obtain ⟨hsends, rfl, rfl⟩ :
              ¬ c.client.Sends ∧ signal = signalEndOfStream ∧ toDaemon = [] := by
            cases hclient : c.client with
            | sending rest => simp [hclient, OneShotPhase.lastSignal] at hcount
            | signalling rest => simp [hclient, OneShotPhase.lastSignal] at hcount
            | _ => exact ⟨id, by simpa [hclient, OneShotPhase.lastSignal] using hcount⟩
          simp only [LiveSession.readerStep, hphase, hsocket, takeSignal_endOfStream] at hstep
          exact ⟨[], true, Nat.zero_le _, (Option.some.inj hstep).symm,
            fun hfalse => Bool.noConfusion hfalse, fun _ => ⟨hsends, rfl⟩⟩
  | succ count =>
      rw [List.replicate_succ, List.cons_append] at hcount
      simp only [LiveSession.readerStep, hphase, hcount, takeSignal_dataReady] at hstep
      refine ⟨_, false, ?_, (Option.some.inj hstep).symm, fun _ => ⟨count, rfl⟩,
        fun htrue => Bool.noConfusion htrue⟩
      rw [hcount]
      exact Nat.le_succ _

theorem Invariant.readerStep (h : c.Invariant config total) {session : LiveSession}
    (hstep : c.session.readerStep config = some session)
    (hattached : session.Attached) (hreports : session.Reports)
    (hjob : session.run.Undisturbed config.maxInFlight) :
    { c with session }.Invariant config total := by
  cases hphase : c.session.readerPhase with
  | reading =>
      obtain ⟨toDaemon, finalFlush, -, rfl, hsignals, hended⟩ := h.read_cases hphase hstep
      exact {
        attached := hattached
        reports := hreports
        job := hjob
        connected := h.connected
        valid := h.valid
        offset := h.offset
        pending := fun _ => .inr (.inr trivial)
        signals := hsignals
        ended := hended }
  | draining finalFlush =>
      simp only [LiveSession.readerStep, hphase, SharedAudioRing.drainAvailable_eq h.valid] at hstep
      obtain rfl := Option.some.inj hstep
      have hempty : { c.session.ring with readOffset := c.session.ring.writeOffset }.contents =
          [] := by
        rw [← List.length_eq_zero_iff, SharedAudioRing.length_contents, Nat.sub_self]
      exact {
        attached := hattached
        reports := hreports
        job := hjob
        connected := h.connected
        valid := ⟨h.valid.capacity_pos, le_rfl, Nat.le_add_right _ _⟩
        offset := h.offset
        pending := fun hcontents => absurd hempty hcontents
        signals := fun hfinal => h.signals (by rw [hphase]; exact hfinal)
        ended := fun hfinal => h.ended (by rw [hphase]; exact hfinal) }
  | flushing finalFlush =>
      have hremoved := h.running (by simp [hphase, ReaderPhase.Returned])
      have hflush : c.session.flushStep config finalFlush = some session := by
        simpa only [LiveSession.readerStep, hphase] using hstep
      obtain ⟨hring, hsocket, hconnected, hnext⟩ := flushStep_cases hphase hremoved hflush
      have hfinal : session.readerPhase.final = c.session.readerPhase.final := by
        rw [hphase]
        obtain hsame | ⟨rfl, hreading⟩ | ⟨rfl, result, hreturned⟩ := hnext
        · rw [hsame, hphase]
        · rw [hreading]
          rfl
        · rw [hreturned]
          rfl
      exact {
        attached := hattached
        reports := hreports
        job := hjob
        connected := hconnected.trans h.connected
        valid := hring ▸ h.valid
        offset := hring ▸ h.offset
        pending := by
          simp only [hring, hsocket]
          intro hcontents
          obtain hsignal | howes | hdrains := h.pending hcontents
          · exact .inl hsignal
          · exact .inr (.inl howes)
          · simp [hphase, ReaderPhase.Drains] at hdrains
        signals := by
          simp only [hfinal, hsocket]
          exact h.signals
        ended := by
          simp only [hfinal, hsocket]
          exact h.ended }
  | returned result =>
      simp only [LiveSession.readerStep, hphase] at hstep
      cases hstep

theorem exists_of_daemon_step {event : LiveSession.Event}
    (hstep : Step config c (.daemon event) c') :
    event.answered = true ∧ ∃ session, c.session.step config event = some session ∧
      { c with session } = c' := by
  have hdaemon : c.step config (.daemon event) = some c' := hstep
  simpa only [OneShot.step, Option.ite_none_right_eq_some, Option.map_eq_some_iff] using hdaemon

theorem Invariant.step (h : c.Invariant config total) (hmax : total < 2 ^ 64) {event : Event}
    (hstep : Step config c event c') : c'.Invariant config total := by
  cases event with
  | client => exact h.clientStep hmax hstep
  | daemon event =>
      obtain ⟨hanswered, session, hsession, rfl⟩ := exists_of_daemon_step hstep
      obtain ⟨hattached, events, hrun, hregular⟩ :=
        @Attached.step config True _ _ h.attached event
          (fun _ => h.regular hanswered hsession) hsession
      have hreports := h.reports.step h.attached hsession
      have hjob := h.job.of_run (hregular trivial) hrun
      cases event with
      | client action => cases hanswered
      | reader => exact h.readerStep hsession hattached hreports hjob
      | scheduler event =>
          exact h.keep hattached hreports hjob (intake_schedulerStep hsession)
      | writer factor =>
          exact h.keep hattached hreports hjob (writerStep_run hsession).2.2

theorem Invariant.of_run (h : c.Invariant config total) (hmax : total < 2 ^ 64)
    {events : List Event} (hrun : Run (Step config) c events c') : c'.Invariant config total :=
  hrun.invariant (P := fun _ c => c.Invariant config total) h
    fun _ _ _ _ hinv hstep => hinv.step hmax hstep

end OneShot

end RkWhisper
