import RkWhisper.Lib.Binary32
import RkWhisper.Lib.CheckedWrites
import RkWhisper.Spec

/-!
# The decoder

One step of the decoder on the NPU. What the NPU makes of its inputs is a parameter; the masks that
it is given and the cache of keys and values that is kept from step to step are the program's own.
A `Vec` that is allocated once with its length is a `Vector`, so that a loop can only write inside
of it. Where the lengths are the caller's, each access is checked.
-/

namespace RkWhisper

open Checked

/-! ### Half precision -/

structure F16 where
  bits : UInt16
deriving DecidableEq

namespace F16

def zero : F16 := ⟨0⟩

def one : F16 := ⟨0x3c00⟩

/-- `f16::from_f32(-65504.0)`, the least finite number. -/
def negInf : F16 := ⟨0xfbff⟩

/-- The same number in single precision; a NaN is made quiet. -/
def toF32 (x : F16) : F32 :=
  let sign : UInt32 := (x.bits &&& 0x8000).toUInt32 <<< 16
  let exponent := (x.bits >>> 10 &&& 0x1f).toUInt32
  let fraction := (x.bits &&& 0x03ff).toUInt32
  let infinity : UInt32 := 0x7f800000
  let quiet : UInt32 := 0x7fc00000
  if exponent = 0x1f then
    if fraction = 0 then ⟨sign ||| infinity⟩ else ⟨sign ||| quiet ||| fraction <<< 13⟩
  else if exponent = 0 then
    if fraction = 0 then ⟨sign⟩
    else
      -- A subnormal number: its leading one becomes the implicit one.
      let lead := UInt32.ofNat (Nat.log2 fraction.toNat)
      ⟨sign ||| (lead + 103) <<< 23 ||| (fraction <<< (23 - lead) &&& 0x7fffff)⟩
  else ⟨sign ||| (exponent + 112) <<< 23 ||| fraction <<< 13⟩

example : [one, negInf, ⟨0x0001⟩, ⟨0x03ff⟩, ⟨0xfc00⟩].map toF32 =
    [⟨0x3f800000⟩, ⟨0xc77fe000⟩, ⟨0x33800000⟩, ⟨0x387fc000⟩, ⟨0xff800000⟩] := by
  decide +kernel

end F16

/-! ### The cache -/

/-- `channels.div_ceil(8) * height * width * 8`. -/
def nc1hwc2Len (channels height width : Nat) : Nat :=
  BlockedLayout.blocks 8 channels * height * width * 8

section Cache

variable {t d h : Nat}

/-- `head * d + dim`. -/
def presentIndex (head : Fin h) (dim : Fin d) : Fin (h * d) :=
  ⟨head * d + dim, BlockedLayout.mul_add_lt head.isLt dim.isLt⟩

/-- `((block * t + slot) * d + dim) * 8 + lane`, for the block and the lane of `head`. -/
def cacheIndex (slot : Fin t) (head : Fin h) (dim : Fin d) : Fin (nc1hwc2Len h t d) :=
  ⟨((head / 8 * t + slot) * d + dim) * 8 + head % 8,
    BlockedLayout.address_lt (by decide) (BlockedLayout.lt_blocks_mul (by decide) head.isLt)
      slot.isLt dim.isLt⟩

def writePresentNchwToNc1hwc2CacheSlot (present : Vector F16 (h * d))
    (past : Vector F16 (nc1hwc2Len h t d)) (slot : Fin t) : Vector F16 (nc1hwc2Len h t d) :=
  (List.finRange h).foldl (fun past head =>
    (List.finRange d).foldl (fun past dim =>
      past.set (cacheIndex slot head dim) (present.get (presentIndex head dim))) past) past

end Cache

/-- The loops over the triples of a sequence position, a head and a dimension. -/
def packEncKvToNc1hwc2 {n : Nat} (src : List F16) (dst : Vector F16 n) (s h d : Nat) :
    Except Fault (Vector F16 n) :=
  (List.finRange s).foldlM (fun dst (seq : Fin s) =>
    let block := (seq : Nat) / 8
    let lane := (seq : Nat) % 8
    (List.finRange h).foldlM (fun dst (head : Fin h) =>
      (List.finRange d).foldlM (fun dst (dim : Fin d) =>
        let srcIdx := (seq * h + head) * d + dim
        let dstIdx := ((block * h + head) * d + dim) * 8 + lane
        copy src dst srcIdx dstIdx) dst) dst) (dst.map fun _ => F16.zero)

variable {spec : WhisperSpec}

/-- The cache of each layer, in blocks of eight heads. -/
abbrev PastLayers (spec : WhisperSpec) : Type :=
  Vector (Vector F16 (nc1hwc2Len spec.nHeads spec.tCache spec.dHead)) spec.nLayers

/-- What a step adds to the cache of each layer. -/
abbrev PresentLayers (spec : WhisperSpec) : Type :=
  Vector (Vector F16 (spec.nHeads * spec.dHead)) spec.nLayers

abbrev EncLayers (spec : WhisperSpec) : Type :=
  Vector (Vector F16 (nc1hwc2Len spec.encSeq spec.nHeads spec.dHead)) spec.nLayers

structure WhisperDecoderState (spec : WhisperSpec) where
  pastK : PastLayers spec
  pastV : PastLayers spec
  pos : Nat

namespace WhisperDecoderState

def new (spec : WhisperSpec) : WhisperDecoderState spec :=
  { pastK := Vector.replicate _ (Vector.replicate _ F16.zero)
    pastV := Vector.replicate _ (Vector.replicate _ F16.zero)
    pos := 0 }

/-- `fill(zero)` in every layer. -/
def reset (state : WhisperDecoderState spec) : WhisperDecoderState spec :=
  { pastK := state.pastK.map fun layer => layer.map fun _ => F16.zero
    pastV := state.pastV.map fun layer => layer.map fun _ => F16.zero
    pos := 0 }

/-- `pos % t`. -/
def writeSlot (state : WhisperDecoderState spec) : Fin spec.tCache :=
  ⟨state.pos % spec.tCache, Nat.mod_lt _ spec.tCache_pos⟩

end WhisperDecoderState

/-! ### The step -/

/-- The encoder's keys and values, and the masks. The buffers for the token, the position and the
logits, which every step fills anew, are left out. -/
structure WhisperDecoder (spec : WhisperSpec) where
  encK : EncLayers spec
  encV : EncLayers spec
  selfAttnMask : Vector F16 spec.tCache
  kvInsertMask : Vector F16 spec.tCache
  kvRetainMask : Vector F16 spec.tCache

structure DecoderInputs (spec : WhisperSpec) where
  token : UInt32
  pastK : PastLayers spec
  pastV : PastLayers spec
  encK : EncLayers spec
  encV : EncLayers spec
  selfAttnMask : Vector F16 spec.tCache
  kvInsertMask : Vector F16 spec.tCache
  kvRetainMask : Vector F16 spec.tCache
  pos : Nat

structure DecoderOutputs (spec : WhisperSpec) where
  logits : Vector F16 spec.vocab
  presentK : PresentLayers spec
  presentV : PresentLayers spec

namespace WhisperDecoderState

def writePresent (present : PresentLayers spec) (past : PastLayers spec)
    (slot : Fin spec.tCache) : PastLayers spec :=
  Vector.zipWith (fun present past => writePresentNchwToNc1hwc2CacheSlot present past slot)
    present past

/-- What a step does to the state when the NPU has answered. -/
def push (state : WhisperDecoderState spec) (outputs : DecoderOutputs spec) :
    WhisperDecoderState spec :=
  { pastK := writePresent outputs.presentK state.pastK state.writeSlot
    pastV := writePresent outputs.presentV state.pastV state.writeSlot
    pos := state.pos + 1 }

end WhisperDecoderState

namespace WhisperDecoder

def new (spec : WhisperSpec) : WhisperDecoder spec :=
  { encK := Vector.replicate _ (Vector.replicate _ F16.zero)
    encV := Vector.replicate _ (Vector.replicate _ F16.zero)
    selfAttnMask := Vector.replicate _ F16.zero
    kvInsertMask := Vector.replicate _ F16.zero
    kvRetainMask := Vector.replicate _ F16.zero }

/-- The keys and values of each layer are packed over those of the window before. -/
def setEncKv (decoder : WhisperDecoder spec) (encK encV : List (List F16)) :
    Except Fault (WhisperDecoder spec) :=
  (List.finRange spec.nLayers).foldlM (fun decoder (layer : Fin spec.nLayers) => do
    let packedK ← packEncKvToNc1hwc2 (← index encK layer) (decoder.encK.get layer)
      spec.encSeq spec.nHeads spec.dHead
    let packedV ← packEncKvToNc1hwc2 (← index encV layer) (decoder.encV.get layer)
      spec.encSeq spec.nHeads spec.dHead
    return { decoder with
      encK := decoder.encK.set layer packedK
      encV := decoder.encV.set layer packedV }) decoder

/-- The loop over the masks. -/
def setMasks (decoder : WhisperDecoder spec) (state : WhisperDecoderState spec) :
    WhisperDecoder spec :=
  let t := spec.tCache
  let pos := state.pos
  let writeSlot := state.writeSlot
  { decoder with
    selfAttnMask := Vector.ofFn fun i => if t ≤ pos ∨ i ≤ pos then F16.zero else F16.negInf
    kvInsertMask := Vector.ofFn fun i => if i = writeSlot then F16.one else F16.zero
    kvRetainMask := Vector.ofFn fun i =>
      if i ≠ writeSlot ∧ (t ≤ pos ∨ i < pos) then F16.one else F16.zero }

def inputs (decoder : WhisperDecoder spec) (state : WhisperDecoderState spec) (token : UInt32) :
    DecoderInputs spec :=
  let decoder := decoder.setMasks state
  { token
    pastK := state.pastK
    pastV := state.pastV
    encK := decoder.encK
    encV := decoder.encV
    selfAttnMask := decoder.selfAttnMask
    kvInsertMask := decoder.kvInsertMask
    kvRetainMask := decoder.kvRetainMask
    pos := state.pos }

variable {ε : Type}

/-- An error of the NPU leaves the state as it was. -/
def step (npu : DecoderInputs spec → Except ε (DecoderOutputs spec))
    (decoder : WhisperDecoder spec) (state : WhisperDecoderState spec) (tokenId : UInt32) :
    Except ε (List F32) × WhisperDecoder spec × WhisperDecoderState spec :=
  match npu (decoder.inputs state tokenId) with
  | .error error => (.error error, decoder.setMasks state, state)
  | .ok outputs =>
      (.ok (outputs.logits.toList.map F16.toF32), decoder.setMasks state, state.push outputs)

end WhisperDecoder

end RkWhisper
