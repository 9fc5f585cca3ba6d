import RkWhisper.Lib.Arithmetic
import RkWhisper.ParallelTranscriber

/-!
# From tokens to segments

`tokens_to_segments`, in one pass over the tokens of a window. A timestamp ends the segment before it
and starts the next one; the window's end ends the last.
-/

namespace RkWhisper

variable {F : Type}

/-- A `TranscriptSegment`, with the times in any arithmetic. -/
structure TimedSegment (F : Type) where
  startSec : F
  endSec : F
  text : String
  tokens : List UInt32
  windowIndex : Nat
deriving DecidableEq

def TimedSegment.toTranscriptSegment (segment : TimedSegment F32) : TranscriptSegment :=
  { startSec := segment.startSec
    endSec := segment.endSec
    text := segment.text
    tokens := segment.tokens
    windowIndex := segment.windowIndex }

def timestampTokenToSec (A : Arithmetic F) (token timestampBegin : UInt32) : F :=
  A.mul (A.literal (token - timestampBegin).toNat) (A.literal 0.02)

/-- What there is beside the tokens. `decode` leaves special tokens out, and may fail. -/
structure TokenWindow (F : Type) where
  decode : List UInt32 → Option String
  windowIndex : Nat
  windowStartSec : F
  windowEndSec : F
  timestampBegin : UInt32

structure SegmentLoop (F : Type) where
  segments : List (TimedSegment F) := []
  currentTokens : List UInt32 := []
  currentStart : Option F := none
  lastTimestamp : Option F := none

namespace TokenWindow

variable (A : Arithmetic F) (window : TokenWindow F)

/-- `decode(..).unwrap_or_default()`. -/
def text (tokens : List UInt32) : String := (window.decode tokens).getD ""

def startSec (loop : SegmentLoop F) : F :=
  (loop.currentStart.or loop.lastTimestamp).getD window.windowStartSec

def onTimestamp (loop : SegmentLoop F) (token : UInt32) : SegmentLoop F :=
  let ts := A.add window.windowStartSec (timestampTokenToSec A token window.timestampBegin)
  let loop :=
    if loop.currentTokens.isEmpty then loop
    else
      let startSec := window.startSec loop
      let text := window.text loop.currentTokens
      let segment : TimedSegment F :=
        { startSec, endSec := A.max ts startSec, text, tokens := loop.currentTokens
          windowIndex := window.windowIndex }
      { loop with
        segments := if (trim text).isEmpty then loop.segments else loop.segments ++ [segment]
        currentTokens := [] }
  { loop with currentStart := some ts, lastTimestamp := some ts }

def next (loop : SegmentLoop F) (token : UInt32) : SegmentLoop F :=
  if window.timestampBegin ≤ token then window.onTimestamp A loop token
  else { loop with currentTokens := loop.currentTokens ++ [token] }

/-- The tokens after the last timestamp; their text is not looked at. -/
def flush (loop : SegmentLoop F) : List (TimedSegment F) :=
  if loop.currentTokens.isEmpty then loop.segments
  else
    let startSec := window.startSec loop
    loop.segments ++
      [{ startSec
         endSec := A.max window.windowEndSec startSec
         text := window.text loop.currentTokens
         tokens := loop.currentTokens
         windowIndex := window.windowIndex }]

/-- All text of the window in one segment. -/
def fallback (tokens : List UInt32) : List (TimedSegment F) :=
  let nonTimestampTokens := tokens.filter (· < window.timestampBegin)
  if nonTimestampTokens.isEmpty then []
  else
    let text := window.text nonTimestampTokens
    if (trim text).isEmpty then []
    else
      [{ startSec := window.windowStartSec
         endSec := window.windowEndSec
         text
         tokens := nonTimestampTokens
         windowIndex := window.windowIndex }]

def tokensToSegments (tokens : List UInt32) : List (TimedSegment F) :=
  let segments := window.flush A (tokens.foldl (window.next A) {})
  if segments.isEmpty && !tokens.isEmpty then window.fallback tokens else segments

end TokenWindow

end RkWhisper
