import RkWhisper.SharedAudioRing

/-!
# Reading a live stream

The blocking reader of one connection: it takes signals from the socket, drains the ring, and hands
the audio on in chunks of the default voice-activity window. The channel to the scheduler is the
list of everything sent on it, and it accepts every send.
-/

namespace RkWhisper

def i16Max : Int := 32767

/-- `i16::from_le_bytes([low, high]) as f32 / i16::MAX as f32`. -/
def sampleOfBytes (low high : UInt8) : F32 :=
  (F32.ofInt (UInt16.ofNat (LittleEndian.toNat [low, high])).toInt16.toInt).divFinite
    (F32.ofInt i16Max)

/-- The samples of the whole pairs; `chunks_exact` leaves a last single byte out. -/
def samplesOfPcm : Bytes → List F32
  | low :: high :: rest => sampleOfBytes low high :: samplesOfPcm rest
  | _ => []

def pcmS16leToF32 (pcm : Bytes) : Except Error (List F32) :=
  if pcm.length % 2 ≠ 0 then .error (.other "PCM byte count must be even for s16le audio")
  else .ok (samplesOfPcm pcm)

structure LiveChunk where
  samples : List F32
deriving DecidableEq

structure StreamReadStats where
  totalSamples : Nat := 0
  totalWindows : Nat := 0
deriving DecidableEq

inductive ReadOutcome where
  | completed (stats : StreamReadStats)
  | cancelled (stats : StreamReadStats)
deriving DecidableEq

/-- The locals of `read_live_chunks` and what it has sent. -/
structure LiveReader where
  pcm : Bytes := []
  stats : StreamReadStats := {}
  chunkTx : List (Except Error LiveChunk) := []

namespace LiveReader

/-- 512 samples of two bytes. -/
def chunkBytes : Nat := 1024

def sendChunk (reader : LiveReader) (chunk : Bytes) : Except Error Unit × LiveReader :=
  match pcmS16leToF32 chunk with
  | .error error => (.error error, reader)
  | .ok samples =>
      (.ok (),
        { reader with
          stats :=
            { totalSamples := reader.stats.totalSamples + samples.length
              totalWindows := reader.stats.totalWindows + 1 }
          chunkTx := reader.chunkTx ++ [.ok { samples }] })

theorem sendChunk_pcm (reader : LiveReader) (chunk : Bytes) :
    (reader.sendChunk chunk).2.pcm = reader.pcm := by
  unfold sendChunk
  split <;> rfl

/-- The loop `while pcm.len() >= chunk_bytes`. -/
def flushFullChunks (reader : LiveReader) : Except Error Unit × LiveReader :=
  if _ : chunkBytes ≤ reader.pcm.length then
    match _ : { reader with pcm := reader.pcm.drop chunkBytes }.sendChunk
        (reader.pcm.take chunkBytes) with
    | (.error error, reader) => (.error error, reader)
    | (.ok (), reader) => flushFullChunks reader
  else (.ok (), reader)
termination_by reader.pcm.length
decreasing_by
  rename_i hfull _ hsend
  have hpcm := congrArg (fun result => result.2.pcm.length) hsend
  have hpos : 0 < chunkBytes := by decide
  simp only [sendChunk_pcm, List.length_drop] at hpcm
  omega

def flushPcmChunks (reader : LiveReader) (finalFlush : Bool) :
    Except Error Unit × LiveReader :=
  match reader.flushFullChunks with
  | (.error error, reader) => (.error error, reader)
  | (.ok (), reader) =>
      if finalFlush ∧ reader.pcm ≠ [] then
        { reader with pcm := [] }.sendChunk reader.pcm
      else (.ok (), reader)

end LiveReader

/-- Where the loop of `read_live_chunks` stands. -/
inductive ReaderPhase where
  | reading
  | draining (finalFlush : Bool)
  | flushing (finalFlush : Bool)
  | returned (result : Except Error ReadOutcome)
deriving DecidableEq

namespace LiveReader

/-- What a read from the socket leads to; `none` is the end of the stream, after which the ring is
not drained again. -/
def onRead (reader : LiveReader) : Option UInt8 → ReaderPhase × LiveReader
  | none => (.flushing true, reader)
  | some signal =>
      if signal = signalDataReady then (.draining false, reader)
      else if signal = signalEndOfStream then (.draining true, reader)
      else if signal = signalCancel then (.returned (.ok (.cancelled reader.stats)), reader)
      else
        let error := .other s!"unsupported shared-memory signal {signal}"
        (.returned (.error error), { reader with chunkTx := reader.chunkTx ++ [.error error] })

def onDrained (reader : LiveReader) (finalFlush : Bool) :
    Except Error Unit → ReaderPhase × LiveReader
  | .error error => (.returned (.error error), reader)
  | .ok () => (.flushing finalFlush, reader)

/-- A final flush ends the loop. -/
def onFlushed (reader : LiveReader) (finalFlush : Bool) :
    Except Error Unit → ReaderPhase × LiveReader
  | .error error => (.returned (.error error), reader)
  | .ok () =>
      (if finalFlush then .returned (.ok (.completed reader.stats)) else .reading, reader)

end LiveReader

/-! ### The client and the reader

The client sends its blocks and then finishes; between them and the reader are the ring and the
bytes the socket still holds. -/

/-- Where the client stands: `rest` is `pcm[pos..]` of the block it is sending and `blocks` are the
calls of `send_audio` still to come. -/
inductive SenderPhase where
  | sending (rest : Bytes) (blocks : List Bytes)
  | signalling (rest : Bytes) (blocks : List Bytes)
  | finished
  | failed (error : Error)
deriving DecidableEq

structure AudioTransport where
  ring : SharedAudioRing
  client : SenderPhase
  signals : Bytes := []
  reader : LiveReader := {}
  phase : ReaderPhase := .reading

namespace AudioTransport

def start (capacity : UInt64) (memory : Nat → UInt8) (blocks : List Bytes) : AudioTransport :=
  { ring := SharedAudioRing.initHeader { capacity, data := memory, writeOffset := 0, readOffset := 0 }
    client := .sending [] blocks }

/-- A client step is one push, one signal, the next call of `send_audio` or `finish`. A push into a
full ring changes nothing: the client sleeps and tries again. -/
def clientStep (t : AudioTransport) : Option AudioTransport :=
  match t.client with
  | .sending [] [] =>
      some { t with client := .finished, signals := t.signals ++ [signalEndOfStream] }
  | .sending [] (block :: blocks) => some { t with client := .sending block blocks }
  | .sending rest blocks =>
      match t.ring.pushAvailable rest with
      | (.error error, ring) => some { t with ring, client := .failed error }
      | (.ok n, ring) =>
          if 0 < n then some { t with ring, client := .signalling (rest.drop n) blocks }
          else some t
  | .signalling rest blocks =>
      some { t with client := .sending rest blocks, signals := t.signals ++ [signalDataReady] }
  | .finished => none
  | .failed _ => none

/-- A reader step is one read, one drain or one flush. A read blocks while the socket is empty. -/
def readerStep (t : AudioTransport) : Option AudioTransport :=
  match t.phase with
  | .reading =>
      match t.signals with
      | [] => none
      | signal :: signals =>
          let (phase, reader) := t.reader.onRead (some signal)
          some { t with signals, phase, reader }
  | .draining finalFlush =>
      let (result, ring, pcm) := t.ring.drainAvailable t.reader.pcm
      let (phase, reader) := { t.reader with pcm }.onDrained finalFlush result
      some { t with ring, phase, reader }
  | .flushing finalFlush =>
      let (result, reader) := t.reader.flushPcmChunks finalFlush
      let (phase, reader) := reader.onFlushed finalFlush result
      some { t with phase, reader }
  | .returned _ => none

inductive Event where
  | client
  | reader
deriving DecidableEq

def step (t : AudioTransport) : Event → Option AudioTransport
  | .client => t.clientStep
  | .reader => t.readerStep

end AudioTransport

end RkWhisper
