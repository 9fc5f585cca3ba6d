import RkWhisper.Polyphase

/-!
# Polyphase preprocessing rearranges

The padding mirrors the ends of the input as far as the input goes, the alignment completes the last
step, and the loops transpose the table of the steps. Nothing is read or written out of range, and
the transposition is undone by reading channel after channel.
-/

namespace RkWhisper

open Checked

namespace Polyphase

/-! ### The padding -/

def leftPad (input : List F32) : List F32 :=
  (List.range' 1 padLen).reverse.map fun i =>
    input.getD (min i (input.length - 1)) (F32.ofNat 0)

/-- A short input is mirrored up to its first sample, which then goes on. -/
def rightPad (input : List F32) : List F32 :=
  (List.range padLen).map fun i => input.getD (input.length - 2 - i) (F32.ofNat 0)

variable {input : List F32}

theorem leftIndex_eq (h : 1 ≤ input.length) (i : Nat) :
    leftIndex input.length i = .ok (min i (input.length - 1)) := by
  unfold leftIndex
  by_cases hi : i < input.length
  · rw [if_pos hi, min_eq_left (by omega)]
  · rw [if_neg hi, subNat_of_le h, min_eq_right (by omega)]

theorem rightIndex_eq (originalLen i : Nat) :
    rightIndex originalLen i = .ok (originalLen - 2 - i) := by
  unfold rightIndex
  by_cases hi : 1 + i < originalLen
  · rw [if_pos hi, subNat_of_le (by omega), Except.ok_bind_eq, subNat_of_le (by omega)]
  · rw [if_neg hi]
    congr 1
    omega

theorem getElem?_eq_getD {i : Nat} (h : i < input.length) :
    input[i]? = some (input.getD i (F32.ofNat 0)) := by
  rw [List.getD_eq_getElem?_getD, List.getElem?_eq_getElem h, Option.getD_some]

theorem xPadded_eq (h : 1 ≤ input.length) : xPadded input =
    .ok (leftPad input ++ input ++ rightPad input ++
      List.replicate (alignPad (padLen + input.length + padLen)) (F32.ofNat 0)) := by
  have hleft : ((List.range' 1 padLen).reverse.mapM fun i => do
      index input (← leftIndex input.length i)) = .ok (leftPad input) := by
    apply Except.mapM_eq_ok
    intro i _
    rw [leftIndex_eq h, Except.ok_bind_eq]
    exact index_of_getElem? (getElem?_eq_getD (by omega))
  have hright : ((List.range padLen).mapM fun i => do
      index input (← rightIndex input.length i)) = .ok (rightPad input) := by
    apply Except.mapM_eq_ok
    intro i _
    rw [rightIndex_eq, Except.ok_bind_eq]
    exact index_of_getElem? (getElem?_eq_getD (by omega))
  rw [xPadded, hleft, Except.ok_bind_eq, hright, Except.ok_bind_eq]
  rfl

theorem length_leftPad (input : List F32) : (leftPad input).length = padLen := by
  rw [leftPad, List.length_map, List.length_reverse, List.length_range']

theorem length_rightPad (input : List F32) : (rightPad input).length = padLen := by
  rw [rightPad, List.length_map, List.length_range]

/-- The left padding mirrors the input around its first sample. -/
theorem getElem?_leftPad (h : padLen < input.length) {k : Nat} (hpos : 1 ≤ k) (hk : k ≤ padLen) :
    (leftPad input)[padLen - k]? = input[k]? := by
  have hplace : padLen - k < padLen := by omega
  have hsample : min (1 + 1 * (padLen - 1 - (padLen - k))) (input.length - 1) = k := by omega
  rw [leftPad, List.getElem?_map, List.getElem?_reverse (by rwa [List.length_range']),
    List.length_range', List.getElem?_range' (by omega), Option.map_some, hsample,
    getElem?_eq_getD (by omega)]

/-- The right padding mirrors it around its last sample. -/
theorem getElem?_rightPad (h : padLen < input.length) {k : Nat} (hpos : 1 ≤ k) (hk : k ≤ padLen) :
    (rightPad input)[k - 1]? = input[input.length - 1 - k]? := by
  have hsample : input.length - 2 - (k - 1) = input.length - 1 - k := by omega
  rw [rightPad, List.getElem?_map, List.getElem?_range (by omega), Option.map_some, hsample,
    getElem?_eq_getD (by omega)]

/-! ### The alignment -/

/-- The last step is completed, and no more. -/
theorem exists_steps (paddedLen : Nat) :
    ∃ steps, paddedLen + alignPad paddedLen = steps * numChannels ∧
      ∀ more, paddedLen ≤ more * numChannels → steps ≤ more := by
  have hmod : paddedLen % numChannels < numChannels := Nat.mod_lt _ (by decide)
  have hdiv := Nat.div_add_mod paddedLen numChannels
  unfold alignPad
  dsimp only [numChannels] at *
  split
  · refine ⟨paddedLen / 80 + 1, by omega, fun more hmore => by omega⟩
  · refine ⟨paddedLen / 80, by omega, fun more hmore => by omega⟩

/-! ### The transposition -/

theorem exists_transposed {padded : List F32} {steps : Nat}
    (h : padded.length = steps * numChannels) :
    ∃ output, transposed padded = .ok output ∧ ∀ t < steps, ∀ c < numChannels,
      output[c * steps + t]? = padded[t * numChannels + c]? := by
  have hsteps : padded.length / numChannels = steps := by
    rw [h]
    exact Nat.mul_div_cancel steps (by decide)
  obtain ⟨output, htranspose, hentries⟩ :=
    exists_transpose h h (Vector.replicate padded.length (F32.ofNat 0))
  refine ⟨output, ?_, hentries⟩
  rw [← htranspose, ← hsteps]
  rfl

end Polyphase

open Polyphase

/-- **Polyphase preprocessing is lossless and in bounds.** No access faults, there are no more steps
than it takes, and entry `t` of channel `c` is entry `80 * t + c` of the padded input. -/
theorem polyphasePreProcess_lossless {input : List F32} (h : 1 ≤ input.length) :
    ∃ output steps left right, polyphasePreProcess input = .ok output ∧
      output.length = 80 * steps ∧ input.length + 400 ≤ 80 * steps ∧
      (∀ more, input.length + 400 ≤ 80 * more → steps ≤ more) ∧
      left.length = 200 ∧ right.length = 200 ∧
      (∀ t < steps, ∀ c < 80, output[c * steps + t]? =
        (left ++ input ++ right ++
          List.replicate (80 * steps - (input.length + 400)) (F32.ofNat 0))[80 * t + c]?) ∧
      (200 < input.length → ∀ k, 1 ≤ k → k ≤ 200 →
        left[200 - k]? = input[k]? ∧ right[k - 1]? = input[input.length - 1 - k]?) := by
  obtain ⟨steps, hsteps, hleast⟩ := exists_steps (padLen + input.length + padLen)
  have hlength : padLen + input.length + padLen = input.length + 400 := by
    dsimp only [padLen]
    omega
  have hchannels : steps * numChannels = 80 * steps := Nat.mul_comm steps 80
  have halign : alignPad (padLen + input.length + padLen) =
      80 * steps - (input.length + 400) := by omega
  have hpadded : (leftPad input ++ input ++ rightPad input ++ List.replicate
      (alignPad (padLen + input.length + padLen)) (F32.ofNat 0)).length = steps * numChannels := by
    rw [List.length_append, List.length_append, List.length_append, length_leftPad,
      length_rightPad, List.length_replicate, hsteps]
  obtain ⟨output, htransposed, hentries⟩ := exists_transposed hpadded
  refine ⟨output.toList, steps, leftPad input, rightPad input, ?_, ?_, by omega, ?_,
    length_leftPad input, length_rightPad input, ?_, ?_⟩
  · rw [polyphasePreProcess, xPadded_eq h, Except.ok_bind_eq, htransposed]
    rfl
  · rw [Vector.length_toList, hpadded, hchannels]
  · intro more hmore
    apply hleast
    rw [hlength, Nat.mul_comm]
    exact hmore
  · intro t ht c hc
    rw [Vector.getElem?_toList, hentries t ht c hc, halign, Nat.mul_comm t]
    rfl
  · intro hlong k hpos hk
    exact ⟨getElem?_leftPad hlong hpos hk, getElem?_rightPad hlong hpos hk⟩

def thousandSamples : List F32 := (List.range 1000).map F32.ofNat

theorem thousandSamples_getElem? {i : Nat} (h : i < 1000) :
    thousandSamples[i]? = some (F32.ofNat i) := by
  unfold thousandSamples
  rw [List.getElem?_map, List.getElem?_range h, Option.map_some]

/-- A thousand samples make eighteen steps, whose first entry and whose last before the zeros are
mirrored. -/
theorem polyphasePreProcess_lossless_sample :
    ∃ output, polyphasePreProcess thousandSamples = .ok output ∧ output.length = 1440 ∧
      output[0]? = some (F32.ofNat 200) ∧ output[39 * 18 + 17]? = some (F32.ofNat 799) := by
  have hinput : thousandSamples.length = 1000 := by
    rw [thousandSamples, List.length_map, List.length_range]
  obtain ⟨output, steps, left, right, houtput, hlength, henough, hleast, hleft, hright, hentries,
    hmirror⟩ := @polyphasePreProcess_lossless thousandSamples (by omega)
  have hsteps : steps = 18 := by
    have hle := hleast 18 (by omega)
    omega
  rw [hsteps] at hlength hentries
  refine ⟨output, houtput, hlength, ?_, ?_⟩
  · have hfirst := hentries 0 (by decide) 0 (by decide)
    rw [List.append_assoc, List.append_assoc, List.getElem?_append_left (by omega)] at hfirst
    rw [← thousandSamples_getElem? (by decide), ← (hmirror (by omega) 200 (by decide) le_rfl).1]
    exact hfirst
  · have hlast := hentries 17 (by decide) 39 (by decide)
    rw [List.append_assoc, List.getElem?_append_right (by rw [List.length_append]; omega),
      List.getElem?_append_left (by rw [List.length_append]; omega), List.length_append, hleft,
      hinput] at hlast
    have hmirrored := (hmirror (by omega) 200 (by decide) le_rfl).2
    rw [hinput] at hmirrored
    rw [← thousandSamples_getElem? (by decide), ← hmirrored]
    exact hlast

end RkWhisper
