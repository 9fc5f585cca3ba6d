import RkWhisper.LiveSession
import RkWhisper.ParallelTranscriber

/-!
# One-shot transcription

The client's `transcribe_all` against the daemon's side of its session: everything is sent before the
first response is read. `pcm` is what `samples_to_pcm` makes of the samples. A push into a full ring
changes nothing, and the client sleeps and tries again; it is no step.
-/

namespace RkWhisper

namespace Sync

structure TranscriptSegment where
  startSec : F32
  endSec : F32
  text : String

structure Transcription where
  text : String
  segments : List TranscriptSegment

end Sync

/-- Where `transcribe_all` stands: with `rest` still to push, before the signal for a push, or with
the bytes of a frame it has read so far and what it has collected. -/
inductive OneShotPhase where
  | sending (rest : Bytes)
  | signalling (rest : Bytes)
  | receiving (frame : Bytes) (text : String) (segments : List Sync.TranscriptSegment)
  | returned (result : Except ClientError Sync.Transcription)

structure OneShot where
  session : LiveSession
  client : OneShotPhase

namespace OneShotPhase

/-- The `match` on a response, together with that of `recv_response_internal`. -/
def onResponse (text : String) (segments : List Sync.TranscriptSegment) :
    Response → OneShotPhase
  | .error error => .returned (.error (.daemon error))
  | .cancelled .. => .returned (.error .cancelled)
  | .segment t begin_ end_ =>
      .receiving [] (text ++ t ++ " ")
        (segments ++ [{ startSec := begin_, endSec := end_, text := t }])
  | .done .. => .returned (.ok { text := trim text, segments })
  | _ => .receiving [] text segments

/-- `read_frame` with one more byte of the frame. -/
def onByte (frame : Bytes) (text : String) (segments : List Sync.TranscriptSegment) :
    OneShotPhase :=
  let len := LittleEndian.toNat (frame.take 4)
  if frame.length < 4 then .receiving frame text segments
  else if frameMaxBytes < len then .returned (.error (.protocol frameTooLong))
  else if frame.length < 4 + len then .receiving frame text segments
  else
    match decodeResponse (frame.drop 4) with
    | .error error => .returned (.error (.protocol error))
    | .ok response => onResponse text segments response

end OneShotPhase

namespace LiveSession

/-- The reader and the writer have dropped the daemon's end of the socket. -/
def hungUp (s : LiveSession) : Bool :=
  s.writer.isReturned && match s.readerPhase with
    | .returned _ => true
    | _ => false

namespace Event

/-- An event of the daemon in which no worker fails. -/
def answered : Event → Bool
  | .client _ => false
  | .scheduler (.branch (.abort _)) => false
  | _ => true

end Event

end LiveSession

namespace OneShot

inductive Event where
  | client
  | daemon (event : LiveSession.Event)

def start (capacity : UInt64) (memory : Nat → UInt8) (jobId : Nat) (header : RequestHeader)
    (vadEnabled : Bool) (pcm : Bytes) : OneShot :=
  { session := .start capacity memory jobId header vadEnabled, client := .sending pcm }

variable (config : SessionConfig)

def clientStep (c : OneShot) : Option OneShot :=
  match c.client with
  | .sending [] =>
      (c.session.clientStep config (.signal signalEndOfStream)).map fun session =>
        { session, client := .receiving [] "" [] }
  | .sending rest =>
      match c.session.ring.pushAvailable rest with
      | (.error error, _) => some { c with client := .returned (.error (.protocol error)) }
      | (.ok n, _) =>
          if n = 0 then none
          else
            (c.session.clientStep config (.push rest)).map fun session =>
              { session, client := .signalling (rest.drop n) }
  | .signalling rest =>
      (c.session.clientStep config (.signal signalDataReady)).map fun session =>
        { session, client := .sending rest }
  | .receiving frame text segments =>
      match c.session.toClient with
      | [] =>
          if c.session.hungUp then
            some { c with
              client := .returned (.error (.protocol (.io "failed to fill whole buffer"))) }
          else none
      | byte :: _ =>
          (c.session.clientStep config .receive).map fun session =>
            { session, client := .onByte (frame ++ [byte]) text segments }
  | .returned _ => none

def step (c : OneShot) : Event → Option OneShot
  | .client => c.clientStep config
  | .daemon event =>
      if event.answered then
        (c.session.step config event).map fun session => { c with session }
      else none

abbrev Step (c : OneShot) (event : Event) (c' : OneShot) : Prop :=
  c.step config event = some c'

end OneShot

end RkWhisper
