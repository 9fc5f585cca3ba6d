import RkWhisper.Decoder

/-!
# The cache is a ring

Step number `n` after a reset writes slot `n % T_CACHE`. Whatever the NPU has answered, a slot holds
the keys and values of the latest step that wrote it, the lanes that pad the last block stay zero,
and the masks tell the NPU which slots these are.
-/

namespace RkWhisper

open BlockedLayout

variable {spec : WhisperSpec} {ε : Type}

/-! ### One write -/

section Write

variable {t d h : Nat}

/-- Any cell of a slot, those of the padding included. -/
def cacheCell {channel : Nat} (slot : Fin t) (hchannel : channel < blocks 8 h * 8) (dim : Fin d) :
    Fin (nc1hwc2Len h t d) :=
  ⟨address 8 t d channel slot dim, address_lt (by decide) hchannel slot.isLt dim.isLt⟩

theorem cacheCell_inj {channel channel' : Nat} {slot slot' : Fin t}
    (hchannel : channel < blocks 8 h * 8) (hchannel' : channel' < blocks 8 h * 8) {dim dim' : Fin d}
    (heq : cacheCell slot hchannel dim = cacheCell slot' hchannel' dim') :
    channel = channel' ∧ slot = slot' ∧ dim = dim' := by
  have haddress := Fin.ext_iff.mp heq
  obtain ⟨hsame, hslot, hdim⟩ := address_inj (by decide) slot.isLt dim.isLt slot'.isLt dim'.isLt
    haddress
  exact ⟨hsame, Fin.ext hslot, Fin.ext hdim⟩

/-- A head is a channel. -/
theorem head_lt (head : Fin h) : (head : Nat) < blocks 8 h * 8 :=
  lt_blocks_mul (by decide) head.isLt

theorem cacheIndex_injective (slot : Fin t) :
    Function.Injective fun entry : Fin h × Fin d => cacheIndex slot entry.1 entry.2 := by
  rintro ⟨head, dim⟩ ⟨head', dim'⟩ heq
  obtain ⟨hhead, -, hdim⟩ := cacheCell_inj (head_lt head) (head_lt head') heq
  exact Prod.ext (Fin.ext hhead) hdim

theorem writePresent_eq_scatter (present : Vector F16 (h * d))
    (past : Vector F16 (nc1hwc2Len h t d)) (slot : Fin t) :
    writePresentNchwToNc1hwc2CacheSlot present past slot =
      scatter (fun entry : Fin h × Fin d => cacheIndex slot entry.1 entry.2)
        (fun entry => present.get (presentIndex entry.1 entry.2))
        (List.finRange h ×ˢ List.finRange d) past :=
  foldl_foldl_eq_scatter (fun entry : Fin h × Fin d => cacheIndex slot entry.1 entry.2)
    (fun entry => present.get (presentIndex entry.1 entry.2)) _ _ past

theorem get_writePresent_self (present : Vector F16 (h * d))
    (past : Vector F16 (nc1hwc2Len h t d)) (slot : Fin t) (head : Fin h) (dim : Fin d) :
    (writePresentNchwToNc1hwc2CacheSlot present past slot).get (cacheIndex slot head dim) =
      present.get (presentIndex head dim) := by
  rw [writePresent_eq_scatter]
  exact get_scatter_of_mem (i := (head, dim)) (cacheIndex_injective slot)
    (List.mem_product.mpr ⟨List.mem_finRange head, List.mem_finRange dim⟩) past

/-- A write touches no other slot and no padding. -/
theorem get_writePresent_of_ne (present : Vector F16 (h * d))
    (past : Vector F16 (nc1hwc2Len h t d)) {slot slot' : Fin t} {channel : Nat}
    (hchannel : channel < blocks 8 h * 8) (dim : Fin d) (hne : slot' ≠ slot ∨ h ≤ channel) :
    (writePresentNchwToNc1hwc2CacheSlot present past slot).get (cacheCell slot' hchannel dim) =
      past.get (cacheCell slot' hchannel dim) := by
  rw [writePresent_eq_scatter]
  apply get_scatter_of_forall_ne
  rintro ⟨head, dim'⟩ - heq
  obtain ⟨hhead, hslot, -⟩ := cacheCell_inj (head_lt head) hchannel heq
  obtain hother | hpadding := hne
  · exact hother hslot.symm
  · have hlt := head.isLt
    omega

end Write

/-! ### The ring -/

/-- What the NPU has answered at the latest of the steps that wrote `slot`. -/
def latest (answers : List (DecoderOutputs spec)) (slot : Fin spec.tCache) :
    Option (DecoderOutputs spec) :=
  (answers.zipIdx.filter fun answer => decide (answer.2 % spec.tCache = slot)).getLast?.map Prod.fst

/-- What a cell holds: the value of that step for a head, and zero for the padding and in a slot that
no step has written. -/
def cached (present : Option (Vector F16 (spec.nHeads * spec.dHead))) (channel : Nat)
    (dim : Fin spec.dHead) : F16 :=
  if hhead : channel < spec.nHeads then
    match present with
    | some present => present.get (presentIndex ⟨channel, hhead⟩ dim)
    | none => F16.zero
  else F16.zero

theorem latest_concat (answers : List (DecoderOutputs spec)) (outputs : DecoderOutputs spec)
    (slot : Fin spec.tCache) : latest (answers ++ [outputs]) slot =
      if answers.length % spec.tCache = slot then some outputs else latest answers slot := by
  rw [latest, List.zipIdx_append, List.filter_append, Nat.zero_add, List.zipIdx_singleton]
  split
  · rename_i hslot
    rw [List.filter_singleton]
    simp [hslot]
  · rename_i hslot
    rw [List.filter_singleton]
    simp [hslot, latest]

/-- One of the two caches, for a layer. -/
def HoldsAnswers (past : PastLayers spec) (present : DecoderOutputs spec → PresentLayers spec)
    (answers : List (DecoderOutputs spec)) : Prop :=
  ∀ (layer : Fin spec.nLayers) (slot : Fin spec.tCache) (dim : Fin spec.dHead) (channel : Nat)
    (hchannel : channel < blocks 8 spec.nHeads * 8),
    (past.get layer).get (cacheCell slot hchannel dim) =
      cached ((latest answers slot).map fun outputs => (present outputs).get layer) channel dim

theorem HoldsAnswers.reset (past : PastLayers spec)
    (present : DecoderOutputs spec → PresentLayers spec) :
    HoldsAnswers (past.map fun layer => layer.map fun _ => F16.zero) present [] := by
  intro layer slot dim channel hchannel
  have hlayer : (past.map fun layer => layer.map fun _ => F16.zero).get layer =
      (past.get layer).map fun _ => F16.zero := Vector.getElem_map _ layer.isLt
  have hcell : ((past.get layer).map fun _ => F16.zero).get (cacheCell slot hchannel dim) =
      F16.zero := Vector.getElem_map _ (cacheCell slot hchannel dim).isLt
  rw [hlayer, hcell, cached]
  split <;> rfl

/-- **A step writes its own slot and leaves the others.** -/
theorem HoldsAnswers.push {past : PastLayers spec}
    {present : DecoderOutputs spec → PresentLayers spec}
    {answers : List (DecoderOutputs spec)} (h : HoldsAnswers past present answers)
    (outputs : DecoderOutputs spec) {slot : Fin spec.tCache}
    (hslot : (slot : Nat) = answers.length % spec.tCache) :
    HoldsAnswers (WhisperDecoderState.writePresent (present outputs) past slot) present
      (answers ++ [outputs]) := by
  intro layer slot' dim channel hchannel
  have hlayer : (WhisperDecoderState.writePresent (present outputs) past slot).get layer =
      writePresentNchwToNc1hwc2CacheSlot ((present outputs).get layer) (past.get layer) slot :=
    Vector.getElem_zipWith layer.isLt
  rw [hlayer, latest_concat, ← hslot]
  by_cases hsame : slot = slot'
  · subst hsame
    rw [if_pos rfl, Option.map_some, cached]
    by_cases hhead : channel < spec.nHeads
    · rw [dif_pos hhead]
      exact get_writePresent_self _ _ slot ⟨channel, hhead⟩ dim
    · rw [dif_neg hhead, get_writePresent_of_ne _ _ hchannel dim (.inr (not_lt.mp hhead)),
        h layer slot dim channel hchannel, cached, dif_neg hhead]
  · rw [if_neg fun hval => hsame (Fin.ext hval),
      get_writePresent_of_ne _ _ hchannel dim (.inl fun heq => hsame heq.symm)]
    exact h layer slot' dim channel hchannel

/-! ### Steps after a reset -/

/-- A step with the token it is given and what the NPU makes of its inputs then. -/
structure DecoderCall (spec : WhisperSpec) (ε : Type) where
  token : UInt32
  npu : DecoderInputs spec → Except ε (DecoderOutputs spec)

/-- The decoder, its state, and the answers of the NPU to the steps that went through. -/
structure DecoderRun (spec : WhisperSpec) where
  decoder : WhisperDecoder spec
  state : WhisperDecoderState spec
  answers : List (DecoderOutputs spec) := []

namespace DecoderRun

def call (run : DecoderRun spec) (call : DecoderCall spec ε) : DecoderRun spec :=
  let (_, decoder, state) := run.decoder.step call.npu run.state call.token
  { decoder, state
    answers := run.answers ++
      (call.npu (run.decoder.inputs run.state call.token)).toOption.toList }

structure Ring (run : DecoderRun spec) : Prop where
  pos : run.state.pos = run.answers.length
  pastK : HoldsAnswers run.state.pastK DecoderOutputs.presentK run.answers
  pastV : HoldsAnswers run.state.pastV DecoderOutputs.presentV run.answers

theorem Ring.call {run : DecoderRun spec} (h : run.Ring) (call : DecoderCall spec ε) :
    (run.call call).Ring := by
  simp only [DecoderRun.call, WhisperDecoder.step]
  cases call.npu (run.decoder.inputs run.state call.token) with
  | error error =>
      simp only [Except.toOption, Option.toList_none, List.append_nil]
      exact ⟨h.pos, h.pastK, h.pastV⟩
  | ok outputs =>
      have hslot : (run.state.writeSlot : Nat) = run.answers.length % spec.tCache :=
        congrArg (· % spec.tCache) h.pos
      simp only [Except.toOption, Option.toList_some]
      refine ⟨?_, h.pastK.push outputs hslot, h.pastV.push outputs hslot⟩
      rw [List.length_append, List.length_singleton, ← h.pos]
      rfl

theorem ring_foldl_call (calls : List (DecoderCall spec ε)) {run : DecoderRun spec}
    (h : run.Ring) : (calls.foldl DecoderRun.call run).Ring := by
  induction calls generalizing run with
  | nil => exact h
  | cons call calls ih => exact ih (h.call call)

/-! ### The masks -/

/-- The slots that have been written: all of them after a round, those before the position until
then. -/
theorem exists_written_iff {t pos i : Nat} (hi : i < t) :
    (∃ p < pos, p % t = i) ↔ t ≤ pos ∨ i < pos := by
  constructor
  · rintro ⟨p, hp, rfl⟩
    have hle := Nat.mod_le p t
    omega
  · intro h
    exact ⟨i, by omega, Nat.mod_eq_of_lt hi⟩

/-- A mask has one value where its condition holds and another elsewhere. -/
theorem ite_eq_iff_of_ne {p : Prop} [Decidable p] {x y : F16} (hne : y ≠ x) :
    (if p then x else y) = x ↔ p := by
  by_cases hp : p
  · rw [if_pos hp]
    exact iff_of_true rfl hp
  · rw [if_neg hp]
    exact iff_of_false hne hp

theorem get_selfAttnMask (decoder : WhisperDecoder spec) (state : WhisperDecoderState spec)
    (token : UInt32) (i : Fin spec.tCache) :
    (decoder.inputs state token).selfAttnMask.get i = F16.zero ↔
      (∃ p < state.pos, p % spec.tCache = i) ∨ (i : Nat) = state.pos % spec.tCache := by
  have hmask : (decoder.inputs state token).selfAttnMask.get i =
      if spec.tCache ≤ state.pos ∨ (i : Nat) ≤ state.pos then F16.zero else F16.negInf :=
    Vector.getElem_ofFn i.isLt
  have hi := i.isLt
  rw [hmask, ite_eq_iff_of_ne (by decide), exists_written_iff hi]
  by_cases hround : spec.tCache ≤ state.pos
  · simp only [hround, true_or]
  · rw [Nat.mod_eq_of_lt (not_le.mp hround)]
    omega

theorem get_kvInsertMask (decoder : WhisperDecoder spec) (state : WhisperDecoderState spec)
    (token : UInt32) (i : Fin spec.tCache) :
    (decoder.inputs state token).kvInsertMask.get i = F16.one ↔
      (i : Nat) = state.pos % spec.tCache := by
  have hmask : (decoder.inputs state token).kvInsertMask.get i =
      if i = state.writeSlot then F16.one else F16.zero := Vector.getElem_ofFn i.isLt
  rw [hmask, ite_eq_iff_of_ne (by decide)]
  exact Fin.ext_iff

theorem get_kvRetainMask (decoder : WhisperDecoder spec) (state : WhisperDecoderState spec)
    (token : UInt32) (i : Fin spec.tCache) :
    (decoder.inputs state token).kvRetainMask.get i = F16.one ↔
      (∃ p < state.pos, p % spec.tCache = i) ∧ (i : Nat) ≠ state.pos % spec.tCache := by
  have hmask : (decoder.inputs state token).kvRetainMask.get i =
      if i ≠ state.writeSlot ∧ (spec.tCache ≤ state.pos ∨ (i : Nat) < state.pos) then F16.one
      else F16.zero := Vector.getElem_ofFn i.isLt
  have hslot : i ≠ state.writeSlot ↔ (i : Nat) ≠ state.pos % spec.tCache := Fin.ext_iff.not
  rw [hmask, ite_eq_iff_of_ne (by decide), exists_written_iff i.isLt, hslot]
  exact and_comm

/-- **The cache is a ring.** After a reset and any steps, of which the NPU may have failed some and
answered the others in any way, a cell holds the value of the latest step that wrote its slot; and
the masks of the next step open the slots written so far and the one it writes, insert at that one
and retain the others. -/
theorem kvCache_ring (decoder : WhisperDecoder spec) (state : WhisperDecoderState spec)
    (calls : List (DecoderCall spec ε)) :
    let run := calls.foldl DecoderRun.call { decoder, state := state.reset }
    let n := run.answers.length
    (HoldsAnswers run.state.pastK DecoderOutputs.presentK run.answers ∧
        HoldsAnswers run.state.pastV DecoderOutputs.presentV run.answers) ∧
      ∀ (token : UInt32) (i : Fin spec.tCache),
        let inputs := run.decoder.inputs run.state token
        let isOpen := inputs.selfAttnMask.get i = F16.zero
        let inserted := inputs.kvInsertMask.get i = F16.one
        let retained := inputs.kvRetainMask.get i = F16.one
        (isOpen ↔ (∃ p < n, p % spec.tCache = i) ∨ (i : Nat) = n % spec.tCache) ∧
          (inserted ↔ (i : Nat) = n % spec.tCache) ∧
          (retained ↔ (∃ p < n, p % spec.tCache = i) ∧ (i : Nat) ≠ n % spec.tCache) ∧
          ¬ (inserted ∧ retained) ∧ (isOpen ↔ inserted ∨ retained) := by
  intro run n
  have hring : run.Ring :=
    ring_foldl_call calls ⟨rfl, HoldsAnswers.reset state.pastK _, HoldsAnswers.reset state.pastV _⟩
  have hpos : run.state.pos = n := hring.pos
  refine ⟨⟨hring.pastK, hring.pastV⟩, ?_⟩
  intro token i inputs isOpen inserted retained
  have hopen : isOpen ↔ (∃ p < n, p % spec.tCache = i) ∨ (i : Nat) = n % spec.tCache := by
    rw [← hpos]
    exact get_selfAttnMask run.decoder run.state token i
  have hinserted : inserted ↔ (i : Nat) = n % spec.tCache := by
    rw [← hpos]
    exact get_kvInsertMask run.decoder run.state token i
  have hretained : retained ↔
      (∃ p < n, p % spec.tCache = i) ∧ (i : Nat) ≠ n % spec.tCache := by
    rw [← hpos]
    exact get_kvRetainMask run.decoder run.state token i
  refine ⟨hopen, hinserted, hretained, ?_, ?_⟩
  · rw [hinserted, hretained]
    tauto
  · rw [hopen, hinserted, hretained]
    by_cases hslot : (i : Nat) = n % spec.tCache <;> simp [hslot]

end DecoderRun

end RkWhisper
