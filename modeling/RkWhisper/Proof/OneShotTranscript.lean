import RkWhisper.Proof.OneShotAudio
import RkWhisper.Proof.TwoWindows

/-!
# The transcript of one-shot transcription

The client hears the responses the daemon has written, one after the other, and each of them whole. So
the transcript it returns is made of the segments of all windows of its audio, in window order.
-/

namespace RkWhisper

open Transition

namespace OneShotPhase

/-- The bytes of the frame that is being read. -/
def frame : OneShotPhase → Bytes
  | .receiving frame _ _ => frame
  | _ => []

theorem frame_of_returned {phase : OneShotPhase} (h : phase.Returned) : phase.frame = [] := by
  cases phase with
  | returned result => rfl
  | _ => exact h.elim

/-- The `match` of the loop of `transcribe_all`, as long as it goes on. -/
def hear : OneShotPhase → Response → OneShotPhase
  | .receiving _ text segments, response => onResponse text segments response
  | phase, _ => phase

/-- What `transcribe_all` makes of the responses it has read. -/
def heard (read : List Response) : OneShotPhase := read.foldl hear (.receiving [] "" [])

theorem heard_concat (read : List Response) (response : Response) :
    heard (read ++ [response]) = (heard read).hear response := by
  rw [heard, List.foldl_append]
  rfl

theorem frame_onResponse (text : String) (segments : List Sync.TranscriptSegment)
    (response : Response) : (onResponse text segments response).frame = [] := by
  cases response <;> rfl

theorem frame_of_heard {read : List Response} {frame : Bytes} {text : String}
    {segments : List Sync.TranscriptSegment} (h : heard read = .receiving frame text segments) :
    frame = [] := by
  cases read using List.reverseRecOn with
  | nil =>
      cases h
      rfl
  | append_singleton read response =>
      rw [heard_concat] at h
      cases hbefore : heard read with
      | receiving frame' text' segments' =>
          rw [hbefore] at h
          have hframe := frame_onResponse text' segments' response
          rw [show onResponse text' segments' response = .receiving frame text segments from h] at hframe
          exact hframe
      | _ =>
          rw [hbefore] at h
          cases h

/-- What a response adds to the transcript. -/
def toSegment : Response → Option Sync.TranscriptSegment
  | .segment text begin_ end_ => some { startSec := begin_, endSec := end_, text }
  | _ => none

/-- The texts of the segments, each with a blank behind it. -/
def fullText (segments : List Sync.TranscriptSegment) : String :=
  segments.foldl (fun text segment => text ++ segment.text ++ " ") ""

theorem heard_receiving {read : List Response} : ∀ {frame : Bytes} {text : String}
    {segments : List Sync.TranscriptSegment}, heard read = .receiving frame text segments →
      segments = read.filterMap toSegment ∧ text = fullText segments ∧
        ∀ audioS rtf, .done audioS rtf ∉ read := by
  induction read using List.reverseRecOn with
  | nil =>
      intro frame text segments h
      cases h
      exact ⟨rfl, rfl, fun _ _ => List.not_mem_nil⟩
  | append_singleton read response ih =>
      intro frame text segments h
      rw [heard_concat] at h
      cases hbefore : heard read with
      | receiving frame' text' segments' =>
          obtain ⟨hsegments, htext, hdone⟩ := ih hbefore
          rw [hbefore] at h
          cases response with
          | segment t begin_ end_ =>
              cases h
              refine ⟨by simp [hsegments, toSegment], ?_, by simpa using hdone⟩
              rw [htext]
              simp [fullText]
          | error error => cases h
          | cancelled audioS rtf dispatched completed => cases h
          | done audioS rtf => cases h
          | _ =>
              cases h
              exact ⟨by simp [hsegments, toSegment], htext, by simpa using hdone⟩
      | _ =>
          rw [hbefore] at h
          cases h

/-- A result comes from the first response that ends the loop. -/
theorem heard_returned {read : List Response} {result : Except ClientError Sync.Transcription}
    (h : heard read = .returned result) : ∃ init response back text segments,
      read = init ++ response :: back ∧ heard init = .receiving [] text segments ∧
        onResponse text segments response = .returned result := by
  induction read using List.reverseRecOn with
  | nil => cases h
  | append_singleton read response ih =>
      rw [heard_concat] at h
      cases hbefore : heard read with
      | receiving frame text segments =>
          rw [hbefore] at h
          have hframe : frame = [] := frame_of_heard hbefore
          exact ⟨read, response, [], text, segments, rfl, hframe ▸ hbefore, h⟩
      | returned result' =>
          rw [hbefore] at h
          obtain ⟨init, first, back, text, segments, rfl, hinit, hfirst⟩ := ih (hbefore.trans h)
          exact ⟨init, first, back ++ [response], text, segments, by simp, hinit, hfirst⟩
      | _ =>
          rw [hbefore] at h
          cases h

/-! ### One frame after the other -/

theorem length_frameBytes (frame : Bytes) : (frameBytes frame).length = 4 + frame.length := by
  rw [frameBytes, List.length_append, LittleEndian.length_ofUInt32]

/-- The length of a frame is known once its first four bytes are. -/
theorem toNat_take_of_prefix {bytes : Bytes} {response : Response} (hfits : FitsFrame response)
    (hinitial : bytes <+: frameBytes (encodeResponse response)) (hlong : 4 ≤ bytes.length) :
    LittleEndian.toNat (bytes.take 4) = (encodeResponse response).length := by
  obtain ⟨rest, hrest⟩ := hinitial
  have htake := congrArg (List.take 4) hrest
  rw [List.take_append_of_le_length hlong, frameBytes, List.take_append_of_le_length
    (LittleEndian.length_ofUInt32 _).ge, List.take_of_length_le
    (LittleEndian.length_ofUInt32 _).le] at htake
  rw [htake, toNat_ofUInt32_length hfits]

theorem onByte_of_short {bytes : Bytes} {response : Response} (hfits : FitsFrame response)
    (hinitial : bytes <+: frameBytes (encodeResponse response))
    (hshort : bytes.length < (frameBytes (encodeResponse response)).length) (text : String)
    (segments : List Sync.TranscriptSegment) :
    onByte bytes text segments = .receiving bytes text segments := by
  by_cases hlong : 4 ≤ bytes.length
  · have hlength := toNat_take_of_prefix hfits hinitial hlong
    rw [length_frameBytes] at hshort
    simp only [onByte, hlength, if_neg (not_lt.mpr hlong), if_neg (not_lt.mpr hfits), if_pos hshort]
  · exact if_pos (not_le.mp hlong)

theorem onByte_frameBytes {response : Response} (hfits : FitsFrame response) (text : String)
    (segments : List Sync.TranscriptSegment) :
    onByte (frameBytes (encodeResponse response)) text segments = onResponse text segments response := by
  have hlong : 4 ≤ (frameBytes (encodeResponse response)).length := by
    rw [length_frameBytes]
    exact Nat.le_add_right _ _
  have hlength := toNat_take_of_prefix hfits List.prefix_rfl hlong
  have hwhole : ¬ (frameBytes (encodeResponse response)).length <
      4 + (encodeResponse response).length := by
    rw [length_frameBytes]
    exact lt_irrefl _
  have hbody : (frameBytes (encodeResponse response)).drop 4 = encodeResponse response := by
    rw [frameBytes, List.drop_append_of_le_length (LittleEndian.length_ofUInt32 _).ge,
      List.drop_of_length_le (LittleEndian.length_ofUInt32 _).le, List.nil_append]
  have hmax : frameMaxBytes < usizeModulus := by decide
  have hdecode := decodeResponse_encodeResponse response (lt_of_le_of_lt hfits hmax)
  simp only [onByte, hlength, if_neg (not_lt.mpr hlong), if_neg (not_lt.mpr hfits), if_neg hwhole,
    hbody, hdecode]

end OneShotPhase

def WriterPhase.rest : WriterPhase → Bytes
  | .writing rest _ => rest
  | _ => []

theorem streamBytes_append (responses more : List Response) :
    streamBytes (responses ++ more) = streamBytes responses ++ streamBytes more :=
  List.flatMap_append

namespace LiveSession

variable {config : SessionConfig} {s s' : LiveSession}

theorem startWrite_bytes (hwriter : s.writer.rest = []) (response : Response) (last : Bool) :
    ∃ more, (s.startWrite response last).written = s.written ++ more ∧
      (s.startWrite response last).toClient ++ (s.startWrite response last).writer.rest =
        s.toClient ++ s.writer.rest ++ streamBytes more := by
  obtain ⟨-, hstart⟩ | ⟨-, hstart⟩ := startWrite_cases s response last
  · refine ⟨[], ?_⟩
    rw [hstart, hwriter]
    exact ⟨(List.append_nil _).symm, (List.append_nil _).symm⟩
  · refine ⟨[response], ?_⟩
    have hstream : streamBytes [response] = frameBytes (encodeResponse response) :=
      List.append_nil _
    rw [hstart, hwriter, hstream, List.append_nil]
    exact ⟨rfl, rfl⟩

/-- No byte of a response gets lost on the way to a client that is there. -/
theorem writerStep_bytes (hconnected : s.clientClosed = false) {factor : F32}
    (hstep : s.writerStep config factor = some s') :
    ∃ more, s'.written = s.written ++ more ∧
      s'.toClient ++ s'.writer.rest = s.toClient ++ s.writer.rest ++ streamBytes more := by
  have hsame : ∀ {s' : LiveSession}, s'.written = s.written →
      s'.toClient ++ s'.writer.rest = s.toClient ++ s.writer.rest →
      ∃ more, s'.written = s.written ++ more ∧
        s'.toClient ++ s'.writer.rest = s.toClient ++ s.writer.rest ++ streamBytes more := by
    intro s' hwritten hbytes
    exact ⟨[], by rw [hwritten, List.append_nil], by rw [hbytes]; exact (List.append_nil _).symm⟩
  unfold LiveSession.writerStep at hstep
  split at hstep
  · rename_i hwriter
    have hrest : s.writer.rest = [] := congrArg WriterPhase.rest hwriter
    split at hstep
    · obtain rfl := Option.some.inj hstep
      exact hsame rfl (by rw [hrest]; rfl)
    · rename_i response rest _ _
      obtain ⟨next, -, rfl⟩ := Option.map_eq_some_iff.mp hstep
      exact @startWrite_bytes { s with responseRx := rest } hrest next false
    · simp only [Option.ite_none_right_eq_some, Option.some.injEq] at hstep
      obtain ⟨-, rfl⟩ := hstep
      exact startWrite_bytes hrest _ true
  · rename_i rest last hwriter
    have hrest : s.writer.rest = rest := congrArg WriterPhase.rest hwriter
    simp only [hconnected, Bool.false_eq_true, if_false] at hstep
    split at hstep
    · rename_i hempty
      obtain rfl := Option.some.inj hstep
      refine hsame rfl ?_
      rw [hrest, hempty]
      cases last <;> rfl
    · simp only [Option.ite_none_left_eq_some, Option.some.injEq] at hstep
      obtain ⟨-, rfl⟩ := hstep
      refine hsame rfl ?_
      rw [hrest]
      simp only [WriterPhase.rest, List.append_assoc, List.take_append_drop]
  · rename_i result hwriter
    have hrest : s.writer.rest = [] := congrArg WriterPhase.rest hwriter
    split at hstep
    · obtain rfl := Option.some.inj hstep
      exact startWrite_bytes hrest _ true
    · cases hstep
  · cases hstep

/-- The scheduler does not touch the socket. -/
theorem schedulerStep_outlet {event : SchedulerEvent}
    (hstep : s.schedulerStep config event = some s') :
    s'.toClient = s.toClient ∧ s'.writer = s.writer ∧ s'.written = s.written := by
  have hcompleted : ∀ (s : LiveSession) loop, (s.removeCompleted config loop).toClient = s.toClient ∧
      (s.removeCompleted config loop).writer = s.writer ∧
      (s.removeCompleted config loop).written = s.written := by
    intro s loop
    unfold removeCompleted
    split <;> exact ⟨rfl, rfl, rfl⟩
  unfold schedulerStep at hstep
  cases event with
  | handOver =>
      simp only [LiveSession.handOver] at hstep
      split at hstep
      · cases hstep
      · split at hstep
        · obtain rfl := Option.some.inj hstep
          exact ⟨rfl, rfl, rfl⟩
        · simp only [Option.ite_none_right_eq_some, Option.some.injEq] at hstep
          obtain ⟨-, rfl⟩ := hstep
          exact ⟨rfl, rfl, rfl⟩
  | head =>
      simp only [Option.ite_none_right_eq_some, Option.some.injEq] at hstep
      obtain ⟨-, rfl⟩ := hstep
      exact hcompleted _ _
  | branch event =>
      simp only [Option.ite_none_right_eq_some, Option.map_eq_some_iff] at hstep
      obtain ⟨-, run, -, rfl⟩ := hstep
      exact ⟨rfl, rfl, rfl⟩
  | sleep =>
      simp only [Option.ite_none_right_eq_some, Option.some.injEq] at hstep
      obtain ⟨-, rfl⟩ := hstep
      exact ⟨rfl, rfl, rfl⟩
  | tail =>
      simp only [Option.ite_none_right_eq_some, Option.some.injEq] at hstep
      obtain ⟨-, rfl⟩ := hstep
      exact hcompleted _ _

/-- A step of the daemon appends to what has been written, and to the bytes of it. -/
theorem daemonStep_bytes (hconnected : s.clientClosed = false) {event : Event}
    (hdaemon : ∀ action, event ≠ .client action) (hstep : Step config s event s') :
    ∃ more, s'.written = s.written ++ more ∧
      s'.toClient ++ s'.writer.rest = s.toClient ++ s.writer.rest ++ streamBytes more := by
  have hnone : streamBytes [] = [] := rfl
  cases event with
  | client action => exact absurd rfl (hdaemon action)
  | reader =>
      obtain ⟨ring, toDaemon, reader, readerPhase, run, rfl⟩ := readerStep_frame hstep
      exact ⟨[], (List.append_nil _).symm, (List.append_nil _).symm⟩
  | scheduler event =>
      obtain ⟨htoClient, hwriter, hwritten⟩ := schedulerStep_outlet hstep
      refine ⟨[], ?_, ?_⟩
      · rw [hwritten, List.append_nil]
      · rw [htoClient, hwriter, hnone, List.append_nil]
  | writer factor => exact writerStep_bytes hconnected hstep

end LiveSession

namespace OneShot

open LiveSession OneShotPhase

variable {config : SessionConfig} {total : Nat} {c c' : OneShot} {read unread : List Response}

/-- Where the client stands after `read`. One that finds the socket at its end has read everything. -/
def HasHeard (c : OneShot) (read unread : List Response) : OneShotPhase → Prop
  | .sending _ => read = []
  | .signalling _ => read = []
  | .receiving _ text segments => heard read = .receiving [] text segments
  | .returned result => heard read = .returned result ∨
      (result = .error (.protocol (.io "failed to fill whole buffer")) ∧ c.session.hungUp = true ∧
        unread = [] ∧ ∃ text segments, heard read = .receiving [] text segments)

/-- The client has read `read` of what has been written. -/
structure Hears (c : OneShot) (read unread : List Response) : Prop where
  written : c.session.written = read ++ unread
  bytes : ¬ c.client.Returned →
    c.client.frame ++ c.session.toClient ++ c.session.writer.rest = streamBytes unread
  short : ∀ response ∈ unread.head?,
    c.client.frame.length < (frameBytes (encodeResponse response)).length
  stands : HasHeard c read unread c.client

theorem hears_start (capacity : UInt64) (memory : Nat → UInt8) (jobId : Nat)
    (header : RequestHeader) (vadEnabled : Bool) (pcm : Bytes) :
    (start capacity memory jobId header vadEnabled pcm).Hears [] [] where
  written := rfl
  bytes _ := rfl
  short _ hmem := by cases hmem
  stands := rfl

/-- Behind a daemon that has hung up nothing more is written. -/
theorem hungUp_step {s s' : LiveSession} {event : LiveSession.Event}
    (hanswered : event.answered = true) (hstep : LiveSession.Step config s event s')
    (hhungUp : s.hungUp = true) : s'.hungUp = true ∧ s'.written = s.written := by
  have hwriter : s.writer = .returned := by
    simp only [hungUp, Bool.and_eq_true] at hhungUp
    cases hwriter : s.writer with
    | returned => rfl
    | _ => simp [hwriter, WriterPhase.isReturned] at hhungUp
  have hreader : s.readerPhase.Returned := by
    simp only [hungUp, Bool.and_eq_true] at hhungUp
    cases hphase : s.readerPhase with
    | returned result => exact ⟨result, rfl⟩
    | _ => simp [hphase] at hhungUp
  have hphase := (reader_of_returned hreader hstep).2
  cases event with
  | client action => cases hanswered
  | reader =>
      obtain ⟨result, hresult⟩ := hreader
      have hnone : s.readerStep config = some s' := hstep
      simp only [LiveSession.readerStep, hresult] at hnone
      cases hnone
  | scheduler event =>
      obtain ⟨-, hsame, hwritten⟩ := schedulerStep_outlet hstep
      simp only [hungUp, hsame, hphase] at hhungUp ⊢
      exact ⟨hhungUp, hwritten⟩
  | writer factor =>
      have hnone : s.writerStep config factor = some s' := hstep
      simp only [LiveSession.writerStep, hwriter] at hnone
      cases hnone

/-- Nothing is lost when the daemon goes on; more may be unread. -/
theorem Hears.daemon (h : c.Hears read unread) (hconnected : c.session.clientClosed = false)
    {event : LiveSession.Event} (hanswered : event.answered = true) {session : LiveSession}
    (hstep : LiveSession.Step config c.session event session) :
    ∃ unread, { c with session }.Hears read unread := by
  have hdaemon : ∀ action, event ≠ .client action := by
    rintro action rfl
    cases hanswered
  obtain ⟨more, hwritten, hbytes⟩ := daemonStep_bytes hconnected hdaemon hstep
  refine ⟨unread ++ more, ?_, ?_, ?_, ?_⟩
  · rw [hwritten, h.written, List.append_assoc]
  · intro hclient
    rw [streamBytes_append, ← h.bytes hclient, List.append_assoc, hbytes]
    simp only [List.append_assoc]
  · intro response hmem
    cases unread with
    | cons first rest => exact h.short response hmem
    | nil =>
        have hframe : c.client.frame = [] := by
          by_cases hclient : c.client.Returned
          · exact frame_of_returned hclient
          · have hnone := h.bytes hclient
            rw [List.append_assoc] at hnone
            exact (List.append_eq_nil_iff.mp hnone).1
        rw [hframe, length_frameBytes]
        exact Nat.lt_of_lt_of_le (by decide) (Nat.le_add_right 4 _)
  · have hheard := h.stands
    cases hclient : c.client with
    | sending rest => exact (hclient ▸ hheard : HasHeard c read unread (.sending rest))
    | signalling rest => exact (hclient ▸ hheard : HasHeard c read unread (.signalling rest))
    | receiving frame text segments =>
        exact (hclient ▸ hheard : HasHeard c read unread (.receiving frame text segments))
    | returned result =>
        rw [hclient] at hheard
        refine hheard.imp_right ?_
        rintro ⟨hresult, hended, rfl, htext⟩
        obtain ⟨hended', hsame⟩ := hungUp_step hanswered hstep hended
        rw [hsame] at hwritten
        exact ⟨hresult, hended', List.append_right_eq_self.mp hwritten.symm, htext⟩

/-- The client takes one more byte of the stream. -/
theorem Hears.receive (h : c.Hears read unread) (hfits : ∀ response ∈ unread, FitsFrame response)
    {frame : Bytes} {text : String} {segments : List Sync.TranscriptSegment} {byte : UInt8}
    {toClient : Bytes} (hclient : c.client = .receiving frame text segments)
    (hsocket : c.session.toClient = byte :: toClient) :
    ∃ read unread, Hears
      { session := { c.session with toClient }, client := onByte (frame ++ [byte]) text segments }
      read unread := by
  have hheard : heard read = .receiving [] text segments := by
    have hheard := h.stands
    rwa [hclient] at hheard
  have hframe : c.client.frame = frame := congrArg OneShotPhase.frame hclient
  have hbytes : (frame ++ [byte]) ++ (toClient ++ c.session.writer.rest) = streamBytes unread := by
    have hold := h.bytes (by rw [hclient]; exact id)
    rw [hframe, hsocket] at hold
    rw [← hold]
    simp only [List.append_assoc, List.cons_append, List.nil_append]
  cases unread with
  | nil => cases (List.append_eq_nil_iff.mp (List.append_eq_nil_iff.mp hbytes).1).2
  | cons response rest =>
      rw [List.forall_mem_cons] at hfits
      have hshort := h.short response rfl
      have hsplit : streamBytes (response :: rest) =
          frameBytes (encodeResponse response) ++ streamBytes rest := rfl
      rw [hframe] at hshort
      rw [hsplit] at hbytes
      have hinitial : frame ++ [byte] <+: frameBytes (encodeResponse response) := by
        refine List.prefix_of_prefix_length_le ⟨_, hbytes⟩ (List.prefix_append _ _) ?_
        rw [List.length_append, List.length_singleton]
        exact hshort
      obtain hwhole | hlonger := hinitial.length_le.eq_or_lt
      · -- The byte was the last one of its frame.
        rw [hinitial.eq_of_length hwhole] at hbytes ⊢
        rw [onByte_frameBytes hfits.1]
        have hnext : heard (read ++ [response]) = onResponse text segments response := by
          rw [heard_concat, hheard]
          rfl
        refine ⟨read ++ [response], rest, ?_, fun _ => ?_, ?_, ?_⟩
        · rw [List.append_assoc, List.singleton_append]
          exact h.written
        · rw [frame_onResponse, List.nil_append]
          exact List.append_cancel_left hbytes
        · intro other _
          rw [frame_onResponse, length_frameBytes]
          exact Nat.lt_of_lt_of_le (by decide) (Nat.le_add_right 4 _)
        · cases response with
          | error error => exact .inl hnext
          | cancelled audioS rtf dispatched completed => exact .inl hnext
          | done audioS rtf => exact .inl hnext
          | _ => exact hnext
      · rw [onByte_of_short hfits.1 hinitial hlonger]
        refine ⟨read, response :: rest, h.written, fun _ => ?_, ?_, hheard⟩
        · rw [hsplit, List.append_assoc]
          exact hbytes
        · intro other hother
          obtain rfl := Option.some.inj hother
          exact hlonger

theorem Hears.clientStep (h : c.Hears read unread) (hinv : c.Invariant config total)
    (hmax : total < 2 ^ 64) (hfits : ∀ response ∈ c.session.written, FitsFrame response)
    (hstep : c.clientStep config = some c') : ∃ read unread, c'.Hears read unread := by
  cases hclient : c.client with
  | receiving frame text segments =>
      have hunread : ∀ response ∈ unread, FitsFrame response := by
        intro response hmem
        apply hfits
        rw [h.written]
        exact List.mem_append_right _ hmem
      unfold OneShot.clientStep at hstep
      rw [hclient] at hstep
      simp only at hstep
      split at hstep
      · rename_i hsocket
        simp only [Option.ite_none_right_eq_some, Option.some.injEq] at hstep
        obtain ⟨hhungUp, rfl⟩ := hstep
        have hwriter : c.session.writer.rest = [] := by
          have hreturned := (Bool.and_eq_true_iff.mp hhungUp).1
          cases hwriter : c.session.writer with
          | writing rest last => simp [hwriter, WriterPhase.isReturned] at hreturned
          | _ => rfl
        have hbytes := h.bytes (by rw [hclient]; exact id)
        rw [hsocket, hwriter, List.append_nil, List.append_nil] at hbytes
        have hnone : unread = [] := by
          cases unread with
          | nil => rfl
          | cons response rest =>
              have hshort := h.short response rfl
              rw [hbytes] at hshort
              exact absurd hshort (not_lt.mpr (List.prefix_append _ _).length_le)
        subst hnone
        have hheard := h.stands
        rw [hclient] at hheard
        exact ⟨read, [], h.written, fun hnot => absurd trivial hnot, fun _ hmem => (by cases hmem),
          .inr ⟨rfl, hhungUp, rfl, text, segments, hheard⟩⟩
      · rename_i byte toClient hsocket
        obtain ⟨session, hsession, rfl⟩ := Option.map_eq_some_iff.mp hstep
        simp only [LiveSession.clientStep, hsocket, Option.some.injEq] at hsession
        subst hsession
        exact h.receive hunread hclient hsocket
  | sending rest =>
      have hread : read = [] := by
        have hheard := h.stands
        rwa [hclient] at hheard
      subst hread
      have hbytes := h.bytes (by rw [hclient]; exact id)
      have hframe : c.client.frame = [] := congrArg OneShotPhase.frame hclient
      have hshort := h.short
      rw [hframe] at hbytes hshort
      cases hinv.clientMove hmax hstep with
      | finish => exact ⟨[], unread, h.written, fun _ => hbytes, hshort, rfl⟩
      | push rest pushed => exact ⟨[], unread, h.written, fun _ => hbytes, hshort, rfl⟩
      | signal rest hother => cases hclient.symm.trans hother
      | hungUp frame text segments hother => cases hclient.symm.trans hother
      | receive frame text segments byte toClient hother => cases hclient.symm.trans hother
  | signalling rest =>
      have hread : read = [] := by
        have hheard := h.stands
        rwa [hclient] at hheard
      subst hread
      have hbytes := h.bytes (by rw [hclient]; exact id)
      have hframe : c.client.frame = [] := congrArg OneShotPhase.frame hclient
      have hshort := h.short
      rw [hframe] at hbytes hshort
      cases hinv.clientMove hmax hstep with
      | signal rest => exact ⟨[], unread, h.written, fun _ => hbytes, hshort, rfl⟩
      | finish hother => cases hclient.symm.trans hother
      | push rest pushed hother => cases hclient.symm.trans hother
      | hungUp frame text segments hother => cases hclient.symm.trans hother
      | receive frame text segments byte toClient hother => cases hclient.symm.trans hother
  | returned result =>
      unfold OneShot.clientStep at hstep
      rw [hclient] at hstep
      cases hstep

variable {capacity : UInt64} {memory : Nat → UInt8} {jobId : Nat} {header : RequestHeader}
  {vadEnabled : Bool} {pcm : Bytes} {events : List Event}

theorem hears_of_run (hcapacity : 0 < capacity) (hmax : pcm.length < 2 ^ 64)
    (hrun : Run (Step config) (start capacity memory jobId header vadEnabled pcm) events c) :
    ∃ read unread, c.Hears read unread := by
  induction hrun with
  | refl => exact ⟨[], [], hears_start ..⟩
  | snoc hrun hstep ih =>
      obtain ⟨read, unread, h⟩ := ih
      rename_i state next event
      have hinv := (invariant_start hcapacity memory jobId header vadEnabled pcm).of_run hmax hrun
      cases event with
      | client =>
          obtain ⟨more, hmore⟩ := exists_session_run hrun
          obtain ⟨front, taken, final, hout⟩ := outgoing_of_run hmore
          exact h.clientStep hinv hmax hout.fits hstep
      | daemon event =>
          obtain ⟨hanswered, session, hsession, rfl⟩ := exists_of_daemon_step hstep
          obtain ⟨unread', h'⟩ := h.daemon hinv.connected hanswered hsession
          exact ⟨read, unread', h'⟩

/-- What `transcribe_all` may return for `pcm`: the segments of every window, in window order, of a job
that has taken all of the samples. -/
structure Transcribed (pcm : Bytes) (c : OneShot) (transcription : Sync.Transcription) : Prop where
  accepted : c.session.run.accepted = samplesOfPcm pcm
  complete : c.session.run.job.isComplete = true
  awaited : c.session.run.awaited = []
  totalSamples : c.session.reader.stats.totalSamples = (samplesOfPcm pcm).length
  segments : transcription.segments =
    ((segmentsOfAnswers c.session.run.answers c.session.run.dispatched.length).filterMap
      JobResponse.toResponse).filterMap toSegment
  text : transcription.text = trim (fullText transcription.segments)

theorem filterMap_toSegment (responses : List JobResponse) :
    (responses.filterMap JobResponse.toResponse).filterMap toSegment =
      ((responses.filter JobResponse.isSegment).filterMap JobResponse.toResponse).filterMap
        toSegment := by
  induction responses with
  | nil => rfl
  | cons response responses ih =>
      cases response <;> simp [List.filterMap_cons, List.filter_cons, JobResponse.isSegment,
        JobResponse.toResponse, toSegment, ih]

/-- A `done` that was read is the last response, and before it are those of the job. -/
theorem read_of_done {front : List JobResponse} {init back : List Response} {audioS rtf : F32}
    (h : init ++ .done audioS rtf :: back = front.filterMap JobResponse.toResponse ++
      [.done audioS rtf]) : init = front.filterMap JobResponse.toResponse := by
  have hback : back = [] := eq_nil_of_concat_eq filterMap_toResponse_ne_done h.symm
  rw [hback] at h
  exact (List.append_inj' h rfl).1

/-- A transcript is made of all the responses before the `done`. -/
theorem Hears.transcribed (h : c.Hears read unread) (hcapacity : 0 < capacity)
    (hmax : pcm.length < 2 ^ 64)
    (hrun : Run (Step config) (start capacity memory jobId header vadEnabled pcm) events c)
    {transcription : Sync.Transcription} (hok : c.client = .returned (.ok transcription)) :
    Transcribed pcm c transcription := by
  obtain ⟨hinv, blocks, hcarried⟩ := carried_of_run hcapacity hmax hrun
  obtain ⟨more, hmore⟩ := exists_session_run hrun
  obtain ⟨front, taken, final, hout⟩ := outgoing_of_run hmore
  have hheard : heard read = .returned (.ok transcription) := by
    have hstands := h.stands
    rw [hok] at hstands
    refine hstands.resolve_right ?_
    rintro ⟨hresult, -⟩
    cases hresult
  obtain ⟨init, response, back, text, segments, rfl, hinit, hresponse⟩ := heard_returned hheard
  cases response with
  | done audioS rtf =>
      obtain rfl : transcription = { text := trim text, segments } := by
        cases hresponse
        rfl
      have hmem : .done audioS rtf ∈ c.session.written := by
        rw [h.written]
        exact List.mem_append_left _ (List.mem_append_right _ List.mem_cons_self)
      obtain ⟨stats, liveStats, hphase, -, hfinal, -, -, hcomplete, hawaited, hsegments⟩ :=
        hout.done hmore hmem
      have hclosed : c.session.run.job.producerClosed = true := by
        simp only [ActiveLiveJob.isComplete, Bool.and_eq_true] at hcomplete
        exact hcomplete.1.1.1
      obtain ⟨haccepted, -, htotal⟩ := hcarried.accepted hinv hphase hclosed
      have hsplit := h.written.symm.trans hout.written
      rw [hfinal, List.append_assoc, List.cons_append] at hsplit
      have hread := read_of_done hsplit
      obtain ⟨htexts, htext, -⟩ := heard_receiving hinit
      refine ⟨haccepted, hcomplete, hawaited, htotal, ?_, ?_⟩
      · rw [← hsegments, ← filterMap_toSegment, ← hread]
        exact htexts
      · exact congrArg trim htext
  | error error => cases hresponse
  | cancelled audioS rtf dispatched completed => cases hresponse
  | _ => cases hresponse

/-! ### Audio that fits into the ring -/

theorem fitsFrame_done (audioS rtf : F32) : FitsFrame (.done audioS rtf) := by
  have haudio := length_fieldFixed32_le 1 audioS
  have hrtf := length_fieldFixed32_le 2 rtf
  have hmessage := length_fieldMessage_le 3 (fieldFixed32 1 audioS ++ fieldFixed32 2 rtf)
  rw [List.length_append] at hmessage
  have hmax : 48 ≤ frameMaxBytes := by decide
  rw [FitsFrame, encodeResponse]
  omega

theorem fitsFrame_speech {response : JobResponse} (hsegment : response.isSegment = false)
    {next : Response} (hnext : response.toResponse = some next) : FitsFrame next := by
  have hmax : 54 ≤ frameMaxBytes := by decide
  have hspeech : ∀ (kind : UInt64) (time : F32),
      (fieldMessage 7 (fieldVarint 1 kind ++ fieldFixed32 2 time)).length ≤ 54 := by
    intro kind time
    have hkind := length_fieldVarint_le 1 kind
    have htime := length_fieldFixed32_le 2 time
    have hmessage := length_fieldMessage_le 7 (fieldVarint 1 kind ++ fieldFixed32 2 time)
    rw [List.length_append] at hmessage
    omega
  cases response with
  | segment text begin_ end_ => cases hsegment
  | finished result => cases hnext
  | speechStarted begin_ =>
      cases hnext
      exact (hspeech 1 begin_).trans hmax
  | speechEnded end_ =>
      cases hnext
      exact (hspeech 2 end_).trans hmax

/-- The segments of an answer fit a frame. -/
def AnswerFits (answer : WindowTranscription) : Prop :=
  ∀ response ∈ answer.responses.filterMap JobResponse.toResponse, FitsFrame response

instance : DecidablePred AnswerFits := fun _ => inferInstanceAs (Decidable (∀ response ∈ _, _))

/-- Every response of a job whose answers fit does. -/
theorem fitsFrame_of_mem {run : LiveRun} {maxInFlight : Nat}
    (hdelivery : run.Delivery maxInFlight) (hanswers : ∀ answer ∈ run.answers, AnswerFits answer)
    {response : JobResponse} (hmem : response ∈ run.job.responseTx) {next : Response}
    (hnext : response.toResponse = some next) : FitsFrame next := by
  cases hsegment : response.isSegment with
  | false => exact fitsFrame_speech hsegment hnext
  | true =>
      have hsent : response ∈ segmentsOfAnswers run.answers run.job.nextResultIndex := by
        rw [← hdelivery.segments]
        exact List.mem_filter.mpr ⟨hmem, hsegment⟩
      obtain ⟨index, -, hindex⟩ := List.mem_flatMap.mp hsent
      cases hanswer : answerTo run.answers index with
      | none =>
          rw [hanswer] at hindex
          cases hindex
      | some answer =>
          rw [hanswer] at hindex
          apply hanswers answer (List.mem_of_find?_eq_some hanswer)
          exact List.mem_filterMap.mpr ⟨response, hindex, hnext⟩

/-- With whole samples and workers that do what they are asked, the final response is `done`. -/
theorem finalResponse_of_run (hcapacity : 0 < capacity) (hmax : pcm.length < 2 ^ 64)
    (heven : pcm.length % 2 = 0)
    (hrun : Run (Step config) (start capacity memory jobId header vadEnabled pcm) events c)
    {front : List JobResponse} {result : Except Error LiveTranscriptionStats}
    {readResult : Except Error ReadOutcome} (factor : F32)
    (hinitial : front ++ [.finished result] <+: c.session.run.job.responseTx)
    (hphase : c.session.readerPhase = .returned readResult) :
    ∃ audioS rtf, finalResponse factor readResult result = .done audioS rtf := by
  obtain ⟨-, blocks, hcarried⟩ := carried_of_run hcapacity hmax hrun
  cases readResult with
  | error error => exact absurd hphase (hcarried.whole heven error)
  | ok outcome =>
      obtain ⟨rfl, -⟩ := hcarried.ended outcome hphase
      cases result with
      | ok stats => exact ⟨_, _, rfl⟩
      | error error =>
          refine absurd (hinitial.subset ?_) (sound_of_run hcapacity hmax hrun error)
          exact List.mem_append_right _ (List.mem_singleton_self _)

theorem onResponse_of_toResponse {response : JobResponse} {next : Response}
    (hnext : response.toResponse = some next) (text : String)
    (segments : List Sync.TranscriptSegment) (result : Except ClientError Sync.Transcription) :
    onResponse text segments next ≠ .returned result := by
  intro h
  cases response <;> cases hnext <;> cases h

/-- Where no step is left, the client has a transcript. -/
theorem succeeded_of_final (hpositive : config.Positive) (hcapacity : 0 < capacity)
    (heven : pcm.length % 2 = 0) (hring : pcm.length ≤ capacity.toNat)
    (hsignals : 2 ≤ config.clientSendBuffer)
    (hrun : Run (Step config) (start capacity memory jobId header vadEnabled pcm) events c)
    (hanswers : ∀ answer ∈ c.session.run.answers, AnswerFits answer)
    (hfinal : Final (ServedStep config) c) :
    ∃ transcription, c.client = .returned (.ok transcription) ∧ Transcribed pcm c transcription := by
  have hmax : pcm.length < 2 ^ 64 := hring.trans_lt capacity.toNat_lt
  have hreturned : c.client.Returned :=
    returned_of_final hpositive hcapacity hmax hring hsignals hrun hfinal
  obtain ⟨read, unread, h⟩ := hears_of_run hcapacity hmax hrun
  suffices hok : ∃ transcription, c.client = .returned (.ok transcription) by
    obtain ⟨transcription, hclient⟩ := hok
    exact ⟨transcription, hclient, h.transcribed hcapacity hmax hrun hclient⟩
  obtain ⟨more, hmore⟩ := exists_session_run hrun
  obtain ⟨front, taken, final, hout⟩ := outgoing_of_run hmore
  have hwritten := hout.written
  have hend := hout.final_cases
  have hcut := hout.returned_cases
  obtain ⟨steps, hjob⟩ := exists_job_run hmore
  have hinv := (invariant_start hcapacity memory jobId header vadEnabled pcm).of_run hmax hrun
  cases hclient : c.client with
  | returned result =>
      have hstands := h.stands
      rw [hclient] at hstands
      obtain hheard | ⟨-, hhungUp, rfl, text, segments, hheard⟩ := hstands
      · -- The loop ended with a response that was written, and no response of the job ends it.
        obtain ⟨init, response, back, text, segments, hread, -, hresponse⟩ := heard_returned hheard
        have hmem : response ∈ c.session.written := by
          rw [h.written, hread]
          exact List.mem_append_left _ (List.mem_append_right _ List.mem_cons_self)
        rw [hwritten] at hmem
        obtain hold | hlast := List.mem_append.mp hmem
        · obtain ⟨sent, -, hsent⟩ := List.mem_filterMap.mp hold
          exact absurd hresponse (onResponse_of_toResponse hsent text segments result)
        · obtain hnone | ⟨jobResult, readResult, factor, hone, hinitial, hphase⟩ := hend
          · rw [hnone] at hlast
            cases hlast
          · obtain ⟨audioS, rtf, hdone⟩ :=
              finalResponse_of_run hcapacity hmax heven hrun factor hinitial hphase
            rw [hone, hdone] at hlast
            obtain rfl := List.mem_singleton.mp hlast
            cases hresponse
            exact ⟨_, rfl⟩
      · -- The daemon has hung up behind a response that did not fit.
        obtain ⟨-, -, hnotDone⟩ := heard_receiving hheard
        have hwriter : c.session.writer = .returned := by
          have hended := (Bool.and_eq_true_iff.mp hhungUp).1
          cases hwriter : c.session.writer with
          | returned => rfl
          | _ => simp [hwriter, WriterPhase.isReturned] at hended
        have hsplit := h.written.symm.trans hwritten
        rw [List.append_nil] at hsplit
        obtain hlast | hclosed | ⟨taken, response, hinitial, hdue, hlong⟩ := hcut hwriter
        · obtain ⟨jobResult, readResult, factor, hone, hinitial, hphase⟩ := hend.resolve_left hlast
          obtain ⟨audioS, rtf, hdone⟩ :=
            finalResponse_of_run hcapacity hmax heven hrun factor hinitial hphase
          refine absurd ?_ (hnotDone audioS rtf)
          rw [hsplit, hone, hdone]
          exact List.mem_append_right _ (List.mem_singleton_self _)
        · rw [hinv.connected] at hclosed
          cases hclosed
        · refine absurd ?_ hlong
          obtain ⟨next, rfl, hnext⟩ | ⟨jobResult, readResult, factor, rfl, hphase, rfl⟩ := hdue
          · refine fitsFrame_of_mem (.of_run hjob) hanswers (hinitial.subset ?_) hnext
            exact List.mem_append_right _ (List.mem_singleton_self _)
          · obtain ⟨audioS, rtf, hdone⟩ :=
              finalResponse_of_run hcapacity hmax heven hrun factor hinitial hphase
            rw [hdone]
            exact fitsFrame_done audioS rtf
  | sending rest => exact (by rw [hclient] at hreturned; exact hreturned.elim)
  | signalling rest => exact (by rw [hclient] at hreturned; exact hreturned.elim)
  | receiving frame text segments => exact (by rw [hclient] at hreturned; exact hreturned.elim)

/-! ### The recording of two windows fits -/

theorem twoWindowConfig_positive : twoWindowConfig.Positive := by
  constructor <;> decide

theorem recording_even : recording.length % 2 = 0 := by
  rw [length_recording]
  decide

theorem recording_fits : recording.length ≤ (960512 : UInt64).toNat := by
  rw [length_recording]
  decide

theorem recording_lt : recording.length < 2 ^ 64 :=
  recording_fits.trans_lt (UInt64.toNat_lt _)

theorem lateAnswers_fit : ∀ answer ∈ lateAnswers, AnswerFits answer := by
  decide +kernel

/-! ### What the client gets -/

/-- **What `transcribe_all` returns.** Whatever the order of steps, a transcript is returned only when
the daemon has taken the samples of all bytes, no window is left, and then it holds the segments of
every window, in window order, and their texts. -/
theorem transcribeAll_result (hcapacity : 0 < capacity) (hmax : pcm.length < 2 ^ 64)
    (hrun : Run (Step config) (start capacity memory jobId header vadEnabled pcm) events c)
    {transcription : Sync.Transcription} (hok : c.client = .returned (.ok transcription)) :
    Transcribed pcm c transcription := by
  obtain ⟨read, unread, h⟩ := hears_of_run hcapacity hmax hrun
  exact h.transcribed hcapacity hmax hrun hok

/-- Both windows are in the transcript, in their order. -/
theorem transcribeAll_result_recording : ∃ c transcription,
    c.session.run.answers = lateAnswers ∧ c.client = .returned (.ok transcription) ∧
      Transcribed recording c transcription ∧
      transcription.segments =
        [⟨samplesToSec 0, samplesToSec 0, "a"⟩, ⟨samplesToSec 480000, samplesToSec 480000, "a"⟩] := by
  obtain ⟨events, c, hrun, hfinal, hanswers, -⟩ := exists_recording
  obtain ⟨transcription, hclient, -⟩ := succeeded_of_final twoWindowConfig_positive (by decide)
    recording_even recording_fits (by decide) hrun (hanswers ▸ lateAnswers_fit) hfinal
  have htranscribed := transcribeAll_result (by decide) recording_lt hrun hclient
  obtain ⟨more, hmore⟩ := exists_session_run hrun
  obtain ⟨steps, hjob⟩ := exists_job_run hmore
  have hdispatched := (LiveRun.Delivery.of_run hjob).length_dispatched htranscribed.awaited
  refine ⟨c, transcription, hanswers, hclient, htranscribed, ?_⟩
  rw [htranscribed.segments, hdispatched, hanswers]
  rfl

end OneShot

end RkWhisper
