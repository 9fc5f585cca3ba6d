import RkWhisper.Proof.KvCache

/-!
# The packing of the encoder's keys and values

`pack_enc_kv_to_nc1hwc2` moves the keys and values of a window into blocks of eight sequence
positions. Each entry has a cell of its own, so the loops write every value where it is read, and
the cells that no entry has are zero: nothing is left of the window before.
-/

namespace RkWhisper

open BlockedLayout Checked

section Packing

variable {s h d : Nat}

/-! ### Where an entry is, and where it goes -/

/-- `(seq * h + head) * d + dim`. -/
def encIndex (entry : Fin s × Fin h × Fin d) : Fin (s * h * d) :=
  ⟨(entry.1 * h + entry.2.1) * d + entry.2.2,
    mul_add_lt (mul_add_lt entry.1.isLt entry.2.1.isLt) entry.2.2.isLt⟩

/-- In the cache a slot has its heads in blocks; here a head has its sequence positions in them. -/
def encCell (entry : Fin s × Fin h × Fin d) : Fin (nc1hwc2Len s h d) :=
  cacheIndex entry.2.1 entry.1 entry.2.2

theorem encCell_injective : Function.Injective (encCell (s := s) (h := h) (d := d)) := by
  rintro ⟨seq, head, dim⟩ ⟨seq', head', dim'⟩ heq
  obtain ⟨hseq, hhead, hdim⟩ := cacheCell_inj (head_lt seq) (head_lt seq') heq
  exact Prod.ext (Fin.ext hseq) (Prod.ext hhead hdim)

def entries (s h d : Nat) : List (Fin s × Fin h × Fin d) :=
  List.finRange s ×ˢ List.finRange h ×ˢ List.finRange d

theorem mem_entries (entry : Fin s × Fin h × Fin d) : entry ∈ entries s h d :=
  List.mem_product.mpr ⟨List.mem_finRange _,
    List.mem_product.mpr ⟨List.mem_finRange _, List.mem_finRange _⟩⟩

/-! ### The loops -/

variable {src : List F16}

theorem packEncKv_eq_scatter (hsrc : src.length = s * h * d)
    (dst : Vector F16 (nc1hwc2Len s h d)) :
    packEncKvToNc1hwc2 src dst s h d =
      .ok (scatter encCell (fun entry => src.get ((encIndex entry).cast hsrc.symm))
        (entries s h d) (dst.map fun _ => F16.zero)) := by
  let step (dst : Vector F16 (nc1hwc2Len s h d)) (entry : Fin s × Fin h × Fin d) :=
    copy src dst (encIndex entry) (encCell entry)
  calc packEncKvToNc1hwc2 src dst s h d
      = (List.finRange s).foldlM (fun dst seq => (List.finRange h ×ˢ List.finRange d).foldlM
          (fun dst entry => step dst (seq, entry)) dst) (dst.map fun _ => F16.zero) := by
        unfold packEncKvToNc1hwc2
        congr 1
        funext dst seq
        exact foldlM_foldlM (fun dst entry => step dst (seq, entry)) _ _ dst
    _ = (entries s h d).foldlM step (dst.map fun _ => F16.zero) := foldlM_foldlM step _ _ _
    _ = _ := by
        apply foldlM_copy_eq_ok
        · intro entry _
          exact List.getElem?_eq_getElem _
        · exact fun _ _ => rfl

/-- What a packed buffer holds: each entry in its cell, and zeros. -/
structure Packs (s h d : Nat) (src : List F16) (packed : Vector F16 (nc1hwc2Len s h d)) :
    Prop where
  entry : ∀ seq < s, ∀ head < h, ∀ dim < d, ∃ x, src[(seq * h + head) * d + dim]? = some x ∧
    packed[((seq / 8 * h + head) * d + dim) * 8 + seq % 8]? = some x
  padding : ∀ cell (hcell : cell < nc1hwc2Len s h d), (∀ seq < s, ∀ head < h, ∀ dim < d,
    ((seq / 8 * h + head) * d + dim) * 8 + seq % 8 ≠ cell) → packed[cell] = F16.zero

theorem exists_packs (hsrc : src.length = s * h * d) (dst : Vector F16 (nc1hwc2Len s h d)) :
    ∃ packed, packEncKvToNc1hwc2 src dst s h d = .ok packed ∧ Packs s h d src packed := by
  refine ⟨_, packEncKv_eq_scatter hsrc dst, ?_, ?_⟩
  · intro seq hseq head hhead dim hdim
    let entry : Fin s × Fin h × Fin d := (⟨seq, hseq⟩, ⟨head, hhead⟩, ⟨dim, hdim⟩)
    refine ⟨src.get ((encIndex entry).cast hsrc.symm), List.getElem?_eq_getElem _, ?_⟩
    rw [Vector.getElem?_eq_some_iff]
    exact ⟨(encCell entry).isLt,
      get_scatter_of_mem encCell_injective (mem_entries entry) (dst.map fun _ => F16.zero)⟩
  · intro cell hcell hpadding
    have hne : ∀ entry ∈ entries s h d, encCell entry ≠ ⟨cell, hcell⟩ := by
      intro entry _ heq
      exact hpadding entry.1 entry.1.isLt entry.2.1 entry.2.1.isLt entry.2.2 entry.2.2.isLt
        (Fin.ext_iff.mp heq)
    exact (get_scatter_of_forall_ne hne (dst.map fun _ => F16.zero)).trans
      (Vector.getElem_map _ hcell)

end Packing

/-! ### All layers -/

variable {spec : WhisperSpec} {decoder : WhisperDecoder spec} {encK encV : List (List F16)}

/-- The keys or the values of all layers, in logical order. -/
def IsLogical (spec : WhisperSpec) (layers : List (List F16)) : Prop :=
  layers.length = spec.nLayers ∧
    ∀ src ∈ layers, src.length = spec.encSeq * spec.nHeads * spec.dHead

instance (layers : List (List F16)) : Decidable (IsLogical spec layers) :=
  inferInstanceAs (Decidable (_ ∧ _))

/-- A layer of the decoder holds what is packed from that layer of `layers`. -/
def HoldsLayer (layers : List (List F16)) (packed : EncLayers spec) (layer : Fin spec.nLayers) :
    Prop :=
  ∃ src, layers[layer]? = some src ∧
    Packs spec.encSeq spec.nHeads spec.dHead src (packed.get layer)

theorem IsLogical.exists_holdsLayer (h : IsLogical spec encK) (packed : EncLayers spec)
    (layer : Fin spec.nLayers) : ∃ src result, index encK layer = .ok src ∧
      packEncKvToNc1hwc2 src (packed.get layer) spec.encSeq spec.nHeads spec.dHead = .ok result ∧
        HoldsLayer encK (packed.set layer result layer.isLt) layer := by
  have hlayer : (layer : Nat) < encK.length := by
    rw [h.1]
    exact layer.isLt
  have hsrc : encK[layer]? = some encK[(layer : Nat)] := List.getElem?_eq_getElem hlayer
  obtain ⟨result, hresult, hpacks⟩ :=
    exists_packs (h.2 _ (List.getElem_mem hlayer)) (packed.get layer)
  refine ⟨_, result, index_of_getElem? hsrc, hresult, _, hsrc, ?_⟩
  rwa [get_set, if_pos rfl]

theorem HoldsLayer.set {layers : List (List F16)} {packed : EncLayers spec}
    {layer other : Fin spec.nLayers} (h : HoldsLayer layers packed layer) (hne : other ≠ layer)
    (result : Vector F16 (nc1hwc2Len spec.encSeq spec.nHeads spec.dHead)) :
    HoldsLayer layers (packed.set other result other.isLt) layer := by
  rwa [HoldsLayer, get_set, if_neg hne]

/-- Nothing is left of the window before. -/
theorem exists_setEncKv (hencK : IsLogical spec encK) (hencV : IsLogical spec encV)
    (decoder : WhisperDecoder spec) :
    ∃ decoder', decoder.setEncKv encK encV = .ok decoder' ∧
      ∀ layer, HoldsLayer encK decoder'.encK layer ∧ HoldsLayer encV decoder'.encV layer := by
  obtain ⟨decoder', hset⟩ : ∃ decoder', decoder.setEncKv encK encV = .ok decoder' := by
    apply Except.exists_foldlM_eq_ok
    intro decoder layer _
    obtain ⟨k, packedK, hk, hpackK, -⟩ := hencK.exists_holdsLayer decoder.encK layer
    obtain ⟨v, packedV, hv, hpackV, -⟩ := hencV.exists_holdsLayer decoder.encV layer
    simp only [hk, hv, hpackK, hpackV, Except.ok_bind_eq]
    exact ⟨_, rfl⟩
  refine ⟨decoder', hset, fun layer => ?_⟩
  have hdone := Except.foldlM_invariant (P := fun done (decoder : WhisperDecoder spec) =>
    ∀ layer ∈ done, HoldsLayer encK decoder.encK layer ∧ HoldsLayer encV decoder.encV layer)
    ?_ hset (fun _ h => absurd h List.not_mem_nil)
  · exact hdone layer (List.mem_finRange layer)
  · intro done last decoder next hdone hnext _ layer hlayer
    obtain ⟨k, packedK, hk, hpackK, hholdsK⟩ := hencK.exists_holdsLayer decoder.encK last
    obtain ⟨v, packedV, hv, hpackV, hholdsV⟩ := hencV.exists_holdsLayer decoder.encV last
    simp only [hk, hv, hpackK, hpackV, Except.ok_bind_eq] at hnext
    cases hnext
    by_cases hlast : last = layer
    · subst hlast
      exact ⟨hholdsK, hholdsV⟩
    · have hmem := (List.mem_append.mp hlayer).resolve_right fun h =>
        hlast (List.mem_singleton.mp h).symm
      exact (hdone layer hmem).imp (·.set hlast packedK) (·.set hlast packedV)

/-- **The packing is a bijection onto the blocked layout.** Every access of the loops is in range,
no two entries share a cell, and the buffer then holds the entries in their cells and zeros; so do
all layers of the decoder after `set_enc_kv`. -/
theorem packEncKv_bijective {s h d : Nat} {src : List F16} (hsrc : src.length = s * h * d)
    (hencK : IsLogical spec encK) (hencV : IsLogical spec encV) :
    (∀ dst : Vector F16 (nc1hwc2Len s h d), ∃ packed,
      packEncKvToNc1hwc2 src dst s h d = .ok packed ∧ Packs s h d src packed) ∧
    (∀ seq < s, ∀ head < h, ∀ dim < d, ∀ seq' < s, ∀ head' < h, ∀ dim' < d,
      ((seq / 8 * h + head) * d + dim) * 8 + seq % 8 =
          ((seq' / 8 * h + head') * d + dim') * 8 + seq' % 8 →
        seq = seq' ∧ head = head' ∧ dim = dim') ∧
    ∀ decoder : WhisperDecoder spec, ∃ decoder', decoder.setEncKv encK encV = .ok decoder' ∧
      ∀ layer, HoldsLayer encK decoder'.encK layer ∧ HoldsLayer encV decoder'.encV layer := by
  refine ⟨exists_packs hsrc, ?_, exists_setEncKv hencK hencV⟩
  intro seq _ head hhead dim hdim seq' _ head' hhead' dim' hdim' heq
  exact address_inj (by decide) hhead hdim hhead' hdim' heq

/-- Two layers, whose second block has one sequence position. -/
def ninePositions : WhisperSpec where
  encSeq := 9
  nLayers := 2
  nHeads := 1
  dHead := 1
  tCache := 1
  vocab := 1
  tokenEot := 0

def nineOnes : List F16 := List.replicate 9 F16.one

theorem packEncKv_bijective_ninePositions :
    (∀ dst : Vector F16 (nc1hwc2Len 9 1 1), ∃ packed,
      packEncKvToNc1hwc2 nineOnes dst 9 1 1 = .ok packed ∧ Packs 9 1 1 nineOnes packed) ∧
    ∀ decoder : WhisperDecoder ninePositions, ∃ decoder',
      decoder.setEncKv [nineOnes, nineOnes] [nineOnes, nineOnes] = .ok decoder' ∧ ∀ layer,
        HoldsLayer [nineOnes, nineOnes] decoder'.encK layer ∧
          HoldsLayer [nineOnes, nineOnes] decoder'.encV layer := by
  have hones : nineOnes.length = 9 * 1 * 1 := rfl
  have hlayers : IsLogical ninePositions [nineOnes, nineOnes] := by decide
  obtain ⟨hpack, -, hset⟩ := packEncKv_bijective hones hlayers hlayers
  exact ⟨hpack, hset⟩

end RkWhisper
