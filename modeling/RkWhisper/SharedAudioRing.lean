import RkWhisper.Lib.CircularBuffer
import RkWhisper.Protocol

/-!
# The shared audio ring

The memory a client and the daemon share: a header with two offsets and `capacity` data bytes. The
client pushes, the daemon drains, and nothing but the two offsets orders them. Each call is first
given as a whole, then taken apart into the steps at which the other party can get in between.

The raw pointer to the data bytes is a total function on addresses, and the arithmetic on offsets is
the wrapping one of a release build.
-/

namespace RkWhisper

open CircularBuffer

structure SharedAudioRing where
  capacity : UInt64
  data : Nat → UInt8
  writeOffset : UInt64
  readOffset : UInt64

/-- `u64::saturating_sub`. -/
def saturatingSub (a b : UInt64) : UInt64 :=
  if a ≤ b then 0 else a - b

/-- What a call copies once it has looked at the offsets: `count` bytes from `start` on, the first
`first` of them before the end of the data, and the offset it stores when it is done. -/
structure CopyPlan where
  start : Nat
  first : Nat
  count : Nat
  offset : UInt64
deriving DecidableEq

def overrun : Error := .ring "shared-memory ring overrun"

namespace SharedAudioRing

def initHeader (ring : SharedAudioRing) : SharedAudioRing :=
  { ring with writeOffset := 0, readOffset := 0 }

/-- `drain_available` up to the copy. -/
def drainPlan (capacity read write : UInt64) : Except Error (Option CopyPlan) :=
  if capacity < saturatingSub write read then .error overrun
  else if write ≤ read then .ok none
  else
    let available := (write - read).toNat
    let start := read.toNat % capacity.toNat
    .ok (some
      { start
        first := min available (capacity.toNat - start)
        count := available
        offset := write })

/-- `push_available` up to the copy. -/
def pushPlan (capacity read write : UInt64) (data : Bytes) : Except Error (Option CopyPlan) :=
  if capacity < saturatingSub write read then .error overrun
  else
    let available := (capacity - (write - read)).toNat
    let toWrite := min data.length available
    if toWrite = 0 then .ok none
    else
      let start := write.toNat % capacity.toNat
      .ok (some
        { start
          first := min toWrite (capacity.toNat - start)
          count := toWrite
          offset := write + UInt64.ofNat toWrite })

/-- `data[..first]` at `start`. -/
def copyFirst (ring : SharedAudioRing) (data : Bytes) (plan : CopyPlan) : SharedAudioRing :=
  { ring with data := overwrite ring.data plan.start (data.take plan.first) }

/-- `data[first..to_write]` at the start of the ring. -/
def copyRest (ring : SharedAudioRing) (data : Bytes) (plan : CopyPlan) : SharedAudioRing :=
  { ring with data := overwrite ring.data 0 ((data.take plan.count).drop plan.first) }

/-- The result, the ring and what the caller's buffer holds afterwards. -/
def drainAvailable (ring : SharedAudioRing) (out : Bytes) :
    Except Error Unit × SharedAudioRing × Bytes :=
  match drainPlan ring.capacity ring.readOffset ring.writeOffset with
  | .error error => (.error error, ring, out)
  | .ok none => (.ok (), ring, out)
  | .ok (some plan) =>
      let out := out ++ slice ring.data plan.start plan.first
      let out :=
        if plan.first < plan.count then out ++ slice ring.data 0 (plan.count - plan.first) else out
      (.ok (), { ring with readOffset := plan.offset }, out)

def pushAvailable (ring : SharedAudioRing) (data : Bytes) :
    Except Error Nat × SharedAudioRing :=
  match pushPlan ring.capacity ring.readOffset ring.writeOffset data with
  | .error error => (.error error, ring)
  | .ok none => (.ok 0, ring)
  | .ok (some plan) =>
      let ring := ring.copyFirst data plan
      let ring := if plan.first < plan.count then ring.copyRest data plan else ring
      (.ok plan.count, { ring with writeOffset := plan.offset })

/-- The bytes between the two offsets. -/
def contents (ring : SharedAudioRing) : Bytes :=
  window ring.data ring.capacity.toNat ring.readOffset.toNat
    (ring.writeOffset.toNat - ring.readOffset.toNat)

end SharedAudioRing

/-! ### One producer and one consumer

Each access to the shared memory is a step of its own. The two logs record what the calls returned:
a push with the data it was given, a drain with the bytes it appended. -/

inductive PushPhase where
  | idle
  | called (data : Bytes)
  | loaded (data : Bytes) (read : UInt64)
  | copying (data : Bytes) (plan : CopyPlan)
  | wrapping (data : Bytes) (plan : CopyPlan)
  | storing (data : Bytes) (plan : CopyPlan)
deriving DecidableEq

inductive DrainPhase where
  | idle
  | called
  | loaded (read : UInt64)
  | copying (plan : CopyPlan)
  | wrapping (plan : CopyPlan) (out : Bytes)
  | storing (plan : CopyPlan) (out : Bytes)
deriving DecidableEq

structure SharedRing where
  ring : SharedAudioRing
  pushPhase : PushPhase := .idle
  drainPhase : DrainPhase := .idle
  pushes : List (Bytes × Except Error Nat) := []
  drains : List (Except Error Unit × Bytes) := []

namespace SharedRing

open SharedAudioRing

def start (capacity : UInt64) (memory : Nat → UInt8) (write read : UInt64) : SharedRing :=
  { ring := initHeader { capacity, data := memory, writeOffset := write, readOffset := read } }

def returnPush (s : SharedRing) (data : Bytes) (result : Except Error Nat) : SharedRing :=
  { s with pushPhase := .idle, pushes := s.pushes ++ [(data, result)] }

def returnDrain (s : SharedRing) (result : Except Error Unit) (out : Bytes) : SharedRing :=
  { s with drainPhase := .idle, drains := s.drains ++ [(result, out)] }

def producerStep (s : SharedRing) : Option SharedRing :=
  match s.pushPhase with
  | .idle => none
  | .called data => some { s with pushPhase := .loaded data s.ring.readOffset }
  | .loaded data read =>
      match pushPlan s.ring.capacity read s.ring.writeOffset data with
      | .error error => some (s.returnPush data (.error error))
      | .ok none => some (s.returnPush data (.ok 0))
      | .ok (some plan) => some { s with pushPhase := .copying data plan }
  | .copying data plan =>
      some { s with
        ring := s.ring.copyFirst data plan
        pushPhase := if plan.first < plan.count then .wrapping data plan else .storing data plan }
  | .wrapping data plan =>
      some { s with ring := s.ring.copyRest data plan, pushPhase := .storing data plan }
  | .storing data plan =>
      some ({ s with ring := { s.ring with writeOffset := plan.offset } }.returnPush data
        (.ok plan.count))

def consumerStep (s : SharedRing) : Option SharedRing :=
  match s.drainPhase with
  | .idle => none
  | .called => some { s with drainPhase := .loaded s.ring.readOffset }
  | .loaded read =>
      match drainPlan s.ring.capacity read s.ring.writeOffset with
      | .error error => some (s.returnDrain (.error error) [])
      | .ok none => some (s.returnDrain (.ok ()) [])
      | .ok (some plan) => some { s with drainPhase := .copying plan }
  | .copying plan =>
      let out := slice s.ring.data plan.start plan.first
      some { s with
        drainPhase := if plan.first < plan.count then .wrapping plan out else .storing plan out }
  | .wrapping plan out =>
      some { s with
        drainPhase := .storing plan (out ++ slice s.ring.data 0 (plan.count - plan.first)) }
  | .storing plan out =>
      some ({ s with ring := { s.ring with readOffset := plan.offset } }.returnDrain (.ok ()) out)

inductive Event where
  | push (data : Bytes)
  | producer
  | drain
  | consumer
deriving DecidableEq

def step (s : SharedRing) : Event → Option SharedRing
  | .push data => if s.pushPhase = .idle then some { s with pushPhase := .called data } else none
  | .producer => s.producerStep
  | .drain => if s.drainPhase = .idle then some { s with drainPhase := .called } else none
  | .consumer => s.consumerStep

/-- The bytes of a push that its result says were stored. -/
def acceptedBy (call : Bytes × Except Error Nat) : Bytes :=
  match call.2 with
  | .ok count => call.1.take count
  | .error _ => []

def accepted (s : SharedRing) : Bytes := s.pushes.flatMap acceptedBy

def drained (s : SharedRing) : Bytes := s.drains.flatMap (·.2)

end SharedRing

end RkWhisper
