import RkWhisper.Lib.CheckedArithmetic
import RkWhisper.SharedAudioRing

/-!
# The calls on the ring, with every operation checked

`drain_available` and `push_available` once more, line by line: each arithmetic operation may fault,
and each access to the data bytes is noted. The offsets are whatever the other process has left in
the header.
-/

namespace RkWhisper

open Checked CircularBuffer

/-- The size of a mapping is the header and the capacity; `attach` refuses what does not fit. -/
structure MappedRing extends SharedAudioRing where
  mapped : ringHeaderBytes + capacity.toNat < 2 ^ 64

/-- `count` data bytes from `start` on are read or written. -/
structure DataAccess where
  start : Nat
  count : Nat
deriving DecidableEq, Repr

def DataAccess.Inside (capacity : UInt64) (access : DataAccess) : Prop :=
  access.start + access.count ≤ capacity.toNat

structure DrainCall where
  result : Except Error Unit
  ring : SharedAudioRing
  out : Bytes
  accesses : List DataAccess

structure PushCall where
  result : Except Error Nat
  ring : SharedAudioRing
  accesses : List DataAccess

namespace SharedAudioRing

def attach (ring : SharedAudioRing) : Except Error MappedRing :=
  if h : ringHeaderBytes + ring.capacity.toNat < 2 ^ 64 then
    .ok { toSharedAudioRing := ring, mapped := h }
  else .error (.ring "ring size overflow")

def dataSlice (ring : SharedAudioRing) (start len : UInt64) :
    Except Fault (Bytes × DataAccess) := do
  let _ ← add (UInt64.ofNat ringHeaderBytes) start
  return (CircularBuffer.slice ring.data start.toNat len.toNat, ⟨start.toNat, len.toNat⟩)

def writeDataSlice (ring : SharedAudioRing) (offset : UInt64) (data : Bytes) :
    Except Fault (SharedAudioRing × DataAccess) := do
  let _ ← add (UInt64.ofNat ringHeaderBytes) offset
  return ({ ring with data := overwrite ring.data offset.toNat data },
    ⟨offset.toNat, data.length⟩)

def drainChecked (ring : SharedAudioRing) (out : Bytes) : Except Fault DrainCall := do
  let read := ring.readOffset
  let write := ring.writeOffset
  if ring.capacity < saturatingSub write read then
    return { result := .error overrun, ring, out, accesses := [] }
  if write ≤ read then
    return { result := .ok (), ring, out, accesses := [] }
  let available ← sub write read
  let start ← rem read ring.capacity
  let room ← sub ring.capacity start
  let first := min available room
  let (bytes, access) ← ring.dataSlice start first
  let (rest, wrapped) ←
    if first < available then do
      let (bytes, access) ← ring.dataSlice 0 (← sub available first)
      pure (bytes, [access])
    else pure ([], [])
  return { result := .ok (), ring := { ring with readOffset := write }, out := out ++ bytes ++ rest
           accesses := access :: wrapped }

def pushChecked (ring : SharedAudioRing) (data : Bytes) : Except Fault PushCall := do
  let read := ring.readOffset
  let write := ring.writeOffset
  if ring.capacity < saturatingSub write read then
    return { result := .error overrun, ring, accesses := [] }
  let available ← sub ring.capacity (← sub write read)
  let toWrite := min data.length available.toNat
  if toWrite = 0 then
    return { result := .ok 0, ring, accesses := [] }
  let start ← rem write ring.capacity
  let room ← sub ring.capacity start
  let first := min toWrite room.toNat
  let (ring, access) ← ring.writeDataSlice start (← Checked.slice data 0 first)
  let (ring, wrapped) ←
    if first < toWrite then do
      let (ring, access) ← ring.writeDataSlice 0 (← Checked.slice data first toWrite)
      pure (ring, [access])
    else pure (ring, [])
  let offset ← add write (UInt64.ofNat toWrite)
  return { result := .ok toWrite, ring := { ring with writeOffset := offset }
           accesses := access :: wrapped }

end SharedAudioRing

end RkWhisper
