import RkWhisper.CheckedRing
import RkWhisper.Proof.RingFifo

/-!
# The ring under a hostile header

Whatever the offsets are, a drain stays inside the data. A push does so as long as the write offset
is not behind the read offset, which it never compares.
-/

namespace RkWhisper

open Checked CircularBuffer
open Except (ok_bind_eq)

/-- The data bytes that a call touches when it follows its plan. -/
def CopyPlan.accesses (plan : CopyPlan) : List DataAccess :=
  ⟨plan.start, plan.first⟩ ::
    if plan.first < plan.count then [⟨0, plan.count - plan.first⟩] else []

def accessesOf : Except Error (Option CopyPlan) → List DataAccess
  | .ok (some plan) => plan.accesses
  | _ => []

namespace MappedRing

open SharedAudioRing

/-- What is to hold of a drain: the offsets stay when it refuses, and it reads inside the
data and no more than there is. -/
structure SafeDrain (ring : MappedRing) (out : Bytes) (call : DrainCall) : Prop where
  returned : ring.drainChecked out = .ok call
  unchanged : ∀ error, call.result = .error error → call.ring = ring.toSharedAudioRing
  inside : ∀ access ∈ call.accesses, access.Inside ring.capacity
  appended : ∃ bytes, call.out = out ++ bytes ∧ bytes.length ≤ ring.capacity.toNat

structure SafePush (ring : MappedRing) (data : Bytes) (call : PushCall) : Prop where
  returned : ring.pushChecked data = .ok call
  unchanged : ∀ error, call.result = .error error → call.ring = ring.toSharedAudioRing
  inside : ∀ access ∈ call.accesses, access.Inside ring.capacity
  count_le : ∀ count, call.result = .ok count →
    count ≤ min data.length ring.capacity.toNat

theorem overrun_iff (ring : MappedRing) :
    ring.capacity < saturatingSub ring.writeOffset ring.readOffset ↔
      ring.readOffset.toNat + ring.capacity.toNat < ring.writeOffset.toNat := by
  rw [UInt64.lt_iff_toNat_lt, toNat_saturatingSub]
  omega

/-- An access inside the data is inside the mapping. -/
theorem dataSlice_eq (ring : MappedRing) {start len : UInt64}
    (h : start.toNat ≤ ring.capacity.toNat) : ring.dataSlice start len =
      .ok (CircularBuffer.slice ring.data start.toNat len.toNat, ⟨start.toNat, len.toNat⟩) := by
  have hmapped := ring.mapped
  have hheader : (UInt64.ofNat ringHeaderBytes).toNat = ringHeaderBytes := rfl
  unfold SharedAudioRing.dataSlice
  rw [add_of_lt (by omega)]
  rfl

theorem writeDataSlice_eq {ring : SharedAudioRing}
    (hmapped : ringHeaderBytes + ring.capacity.toNat < 2 ^ 64) {offset : UInt64} (data : Bytes)
    (h : offset.toNat ≤ ring.capacity.toNat) : ring.writeDataSlice offset data =
      .ok ({ ring with data := overwrite ring.data offset.toNat data },
        ⟨offset.toNat, data.length⟩) := by
  have hheader : (UInt64.ofNat ringHeaderBytes).toNat = ringHeaderBytes := rfl
  unfold SharedAudioRing.writeDataSlice
  rw [add_of_lt (by omega)]
  rfl

/-- A drain refuses, finds nothing, or follows a plan that fits. -/
theorem drainPlan_trichotomy (ring : MappedRing) :
    (ring.capacity < saturatingSub ring.writeOffset ring.readOffset ∧
        drainPlan ring.capacity ring.readOffset ring.writeOffset = .error overrun) ∨
      ¬ ring.capacity < saturatingSub ring.writeOffset ring.readOffset ∧
        ((ring.writeOffset ≤ ring.readOffset ∧
            drainPlan ring.capacity ring.readOffset ring.writeOffset = .ok none) ∨
          ¬ ring.writeOffset ≤ ring.readOffset ∧ 0 < ring.capacity.toNat ∧
            ∃ plan, drainPlan ring.capacity ring.readOffset ring.writeOffset = .ok (some plan) ∧
              plan.offset = ring.writeOffset ∧ DrainFits ring.capacity ring.readOffset plan) := by
  by_cases hover : ring.capacity < saturatingSub ring.writeOffset ring.readOffset
  · exact .inl ⟨hover, if_pos hover⟩
  · refine .inr ⟨hover, ?_⟩
    by_cases hempty : ring.writeOffset ≤ ring.readOffset
    · refine .inl ⟨hempty, ?_⟩
      rw [drainPlan, if_neg hover, if_pos hempty]
    · refine .inr ⟨hempty, ?_⟩
      rw [ring.overrun_iff, not_lt] at hover
      rw [UInt64.le_iff_toNat_le, not_le] at hempty
      obtain ⟨heq, -⟩ | hplan := drainPlan_cases hempty.le hover
      · rw [heq] at hempty
        exact absurd hempty (lt_irrefl _)
      · exact ⟨by omega, hplan⟩

/-- **A drain never faults**, and does what it does unchecked. -/
theorem drainChecked_eq (ring : MappedRing) (out : Bytes) : ring.drainChecked out = .ok
    { result := (ring.drainAvailable out).1
      ring := (ring.drainAvailable out).2.1
      out := (ring.drainAvailable out).2.2
      accesses := accessesOf (drainPlan ring.capacity ring.readOffset ring.writeOffset) } := by
  unfold drainChecked drainAvailable
  obtain ⟨hover, hplan⟩ | ⟨hover, ⟨hempty, hplan⟩ | ⟨hempty, hcapacity, plan, hplan, hoffset, hfits⟩⟩ :=
    ring.drainPlan_trichotomy
  · rw [if_pos hover, hplan]
    rfl
  · rw [if_neg hover, if_pos hempty, hplan]
    rfl
  · rw [if_neg hover, if_neg hempty]
    rw [UInt64.le_iff_toNat_le] at hempty
    have hlt := Nat.mod_lt ring.readOffset.toNat hcapacity
    have hplanStart := hfits.start
    have hstart : (ring.readOffset % ring.capacity).toNat = plan.start :=
      (UInt64.toNat_mod _ _).trans hplanStart.symm
    have havailable : (ring.writeOffset - ring.readOffset).toNat = plan.count := by
      have hend := hfits.offset
      rw [hoffset] at hend
      rw [toNat_sub_of_le (by omega), hend, Nat.add_sub_cancel_left]
    have hroom := @toNat_sub_of_le ring.capacity (ring.readOffset % ring.capacity) (by omega)
    have hfirst : (min (ring.writeOffset - ring.readOffset)
        (ring.capacity - ring.readOffset % ring.capacity)).toNat = plan.first := by
      rw [toNat_min, havailable, hroom, hstart, hfits.first]
    have hle : plan.first ≤ plan.count := hfits.first.trans_le (min_le_left _ _)
    have hrest : (ring.writeOffset - ring.readOffset - min (ring.writeOffset - ring.readOffset)
        (ring.capacity - ring.readOffset % ring.capacity)).toNat = plan.count - plan.first := by
      rw [toNat_sub_of_le (by omega), havailable, hfirst]
    rw [sub_of_le (by omega), rem_of_pos hcapacity, hplan]
    simp only [ok_bind_eq]
    rw [sub_of_le (by omega)]
    simp only [ok_bind_eq, UInt64.lt_iff_toNat_lt, hfirst, havailable]
    rw [ring.dataSlice_eq (by omega), hstart, hfirst]
    by_cases hwrap : plan.first < plan.count
    · rw [if_pos hwrap, sub_of_le (by omega)]
      simp only [ok_bind_eq]
      rw [ring.dataSlice_eq (Nat.zero_le _), hrest]
      simp only [ok_bind_eq, if_pos hwrap, accessesOf, CopyPlan.accesses, hoffset]
      rfl
    · simp only [ok_bind_eq, pure_bind, if_neg hwrap, accessesOf, CopyPlan.accesses, hoffset,
        List.append_nil]
      rfl

/-- Each piece of a plan ends before the data do. -/
theorem inside_accesses {capacity : UInt64} {plan : CopyPlan} {low : Nat}
    (hcapacity : 0 < capacity.toNat) (hstart : plan.start = low % capacity.toNat)
    (hfirst : plan.first = min plan.count (capacity.toNat - plan.start))
    (hcount : plan.count ≤ capacity.toNat) : ∀ access ∈ plan.accesses, access.Inside capacity := by
  have hlt := Nat.mod_lt low hcapacity
  intro access hmem
  obtain rfl | hmem := List.mem_cons.mp hmem
  · simp only [DataAccess.Inside]
    omega
  · split at hmem
    · obtain rfl := List.mem_singleton.mp hmem
      simp only [DataAccess.Inside]
      omega
    · cases hmem

/-- **A drain is safe under every header.** -/
theorem exists_safeDrain (ring : MappedRing) (out : Bytes) :
    ∃ call, SafeDrain ring out call := by
  have hcall := ring.drainChecked_eq out
  have hnone : ∀ access ∈ ([] : List DataAccess), access.Inside ring.capacity :=
    fun _ hmem => absurd hmem List.not_mem_nil
  have hnothing : ∃ bytes : Bytes, out = out ++ bytes ∧ bytes.length ≤ ring.capacity.toNat :=
    ⟨[], (List.append_nil _).symm, Nat.zero_le _⟩
  unfold drainAvailable at hcall
  obtain ⟨-, hplan⟩ | ⟨-, ⟨-, hplan⟩ | ⟨-, hcapacity, plan, hplan, -, hfits⟩⟩ :=
    ring.drainPlan_trichotomy
  · rw [hplan] at hcall
    exact ⟨_, hcall, fun _ _ => rfl, hnone, hnothing⟩
  · rw [hplan] at hcall
    exact ⟨_, hcall, fun _ _ => rfl, hnone, hnothing⟩
  · have hcount := hfits.count
    have hfirst := hfits.first
    rw [hplan] at hcall
    refine ⟨_, hcall, fun error herror => (by cases herror), ?_, ?_⟩
    · exact inside_accesses hcapacity hfits.start hfirst hcount
    · by_cases hwrap : plan.first < plan.count
      · refine ⟨_, (if_pos hwrap).trans (List.append_assoc _ _ _), ?_⟩
        rw [List.length_append, length_slice, length_slice]
        omega
      · refine ⟨_, if_neg hwrap, ?_⟩
        rw [length_slice]
        omega

/-! ### Pushing -/

/-- The write offset is not behind the read offset, and the bytes there is room for leave it below
`2 ^ 64`. -/
def Pushable (ring : MappedRing) (data : Bytes) : Prop :=
  ring.readOffset.toNat ≤ ring.writeOffset.toNat ∧
    ring.writeOffset.toNat + min data.length
      (ring.capacity.toNat - (ring.writeOffset.toNat - ring.readOffset.toNat)) < 2 ^ 64

instance (ring : MappedRing) (data : Bytes) : Decidable (Pushable ring data) :=
  inferInstanceAs (Decidable (_ ∧ _))

theorem pushChecked_of_behind (ring : MappedRing) (data : Bytes)
    (h : ring.writeOffset.toNat < ring.readOffset.toNat) :
    ring.pushChecked data = .error .underflow := by
  have hover : ¬ ring.capacity < saturatingSub ring.writeOffset ring.readOffset := by
    rw [ring.overrun_iff]
    omega
  unfold pushChecked
  rw [if_neg hover, sub_of_lt h]
  rfl

theorem count_pos_of_pushPlan {capacity read write : UInt64} {data : Bytes} {plan : CopyPlan}
    (h : pushPlan capacity read write data = .ok (some plan)) : 0 < plan.count := by
  unfold pushPlan at h
  split at h
  · cases h
  · simp only at h
    split at h
    · cases h
    · rename_i hne
      obtain rfl := Option.some.inj (Except.ok.inj h)
      exact Nat.pos_of_ne_zero hne

/-- A push from an offset that is not behind does what it does unchecked, unless the offset it
stores at the end overflows. -/
theorem pushChecked_of_le (ring : MappedRing) (data : Bytes)
    (h : ring.readOffset.toNat ≤ ring.writeOffset.toNat) : ring.pushChecked data =
    if Pushable ring data then .ok
      { result := (ring.pushAvailable data).1
        ring := (ring.pushAvailable data).2
        accesses := accessesOf (pushPlan ring.capacity ring.readOffset ring.writeOffset data) }
    else .error .overflow := by
  have hwrite := ring.writeOffset.toNat_lt
  unfold pushChecked pushAvailable
  by_cases hover : ring.capacity < saturatingSub ring.writeOffset ring.readOffset
  · have hplan : pushPlan ring.capacity ring.readOffset ring.writeOffset data = .error overrun :=
      if_pos hover
    have hfits : Pushable ring data := by
      rw [ring.overrun_iff] at hover
      exact ⟨h, by omega⟩
    rw [if_pos hover, if_pos hfits, hplan]
    rfl
  · rw [if_neg hover]
    rw [ring.overrun_iff, not_lt] at hover
    have hused := toNat_sub_of_le h
    have havailable : (ring.capacity - (ring.writeOffset - ring.readOffset)).toNat =
        ring.capacity.toNat - (ring.writeOffset.toNat - ring.readOffset.toNat) := by
      rw [toNat_sub_of_le (by omega), hused]
    rw [sub_of_le h]
    simp only [ok_bind_eq]
    rw [sub_of_le (by omega)]
    simp only [ok_bind_eq, havailable]
    obtain ⟨hzero, hplan⟩ | ⟨plan, hplan, hcount, hfits⟩ := pushPlan_cases data h hover le_rfl
    · have hpushable : Pushable ring data := ⟨h, by omega⟩
      rw [if_pos hzero, if_pos hpushable, hplan]
      rfl
    · have hpos := count_pos_of_pushPlan hplan
      have hcapacity : 0 < ring.capacity.toNat := by omega
      have hlt := Nat.mod_lt ring.writeOffset.toNat hcapacity
      have hplanStart := hfits.start
      have hle : plan.first ≤ plan.count := hfits.first.trans_le (min_le_left _ _)
      have hstart : (ring.writeOffset % ring.capacity).toNat = plan.start :=
        (UInt64.toNat_mod _ _).trans hplanStart.symm
      have hroom := @toNat_sub_of_le ring.capacity (ring.writeOffset % ring.capacity) (by omega)
      have hlength : plan.count ≤ data.length := hfits.count
      rw [← hcount, if_neg hpos.ne', rem_of_pos hcapacity, hplan]
      simp only [ok_bind_eq]
      rw [sub_of_le (by omega)]
      simp only [ok_bind_eq, hroom, hstart, ← hfits.first]
      rw [slice_of_le (Nat.zero_le _) (hle.trans hlength)]
      simp only [ok_bind_eq]
      rw [writeDataSlice_eq ring.mapped _ (by omega), hstart]
      have hoffset : (UInt64.ofNat plan.count).toNat = plan.count := by
        have hbound := ring.capacity.toNat_lt
        exact UInt64.toNat_ofNat_of_lt' (show plan.count < 2 ^ 64 by omega)
      have hpushable : Pushable ring data ↔ ring.writeOffset.toNat + plan.count < 2 ^ 64 := by
        unfold Pushable
        rw [← hcount]
        exact and_iff_right h
      rw [add_eq, hoffset, if_congr hpushable rfl rfl]
      have hfirst : (data.take plan.first).length = plan.first := hfits.length_first
      have hrest : ((data.take plan.count).drop plan.first).length = plan.count - plan.first := by
        rw [List.length_drop, List.length_take, min_eq_left hlength]
      rw [List.drop_zero, hfirst]
      by_cases hwrap : plan.first < plan.count
      · simp only [if_pos hwrap]
        rw [slice_of_le hle hlength]
        simp only [ok_bind_eq]
        rw [writeDataSlice_eq (by exact ring.mapped) _ (Nat.zero_le _), hrest]
        simp only [ok_bind_eq, pure_bind, accessesOf, CopyPlan.accesses, if_pos hwrap, hfits.offset]
        split <;> rfl
      · simp only [if_neg hwrap, pure_bind, accessesOf, CopyPlan.accesses, hfits.offset]
        split <;> rfl

theorem exists_safePush_of_pushable {ring : MappedRing} {data : Bytes} (h : Pushable ring data) :
    ∃ call, SafePush ring data call := by
  have hcall := ring.pushChecked_of_le data h.1
  rw [if_pos h] at hcall
  have hnone : ∀ access ∈ ([] : List DataAccess), access.Inside ring.capacity :=
    fun _ hmem => absurd hmem List.not_mem_nil
  unfold pushAvailable at hcall
  by_cases hover : ring.capacity < saturatingSub ring.writeOffset ring.readOffset
  · have hplan : pushPlan ring.capacity ring.readOffset ring.writeOffset data = .error overrun :=
      if_pos hover
    rw [hplan] at hcall
    exact ⟨_, hcall, fun _ _ => rfl, hnone, fun count hcount => (by cases hcount)⟩
  · rw [ring.overrun_iff, not_lt] at hover
    obtain ⟨-, hplan⟩ | ⟨plan, hplan, hcount, hfits⟩ := pushPlan_cases data h.1 hover le_rfl
    · rw [hplan] at hcall
      refine ⟨_, hcall, fun _ _ => rfl, hnone, fun count hcount => ?_⟩
      obtain rfl := Except.ok.inj hcount
      exact Nat.zero_le _
    · have hpos := count_pos_of_pushPlan hplan
      rw [hplan] at hcall
      refine ⟨_, hcall, fun error herror => (by cases herror), ?_, fun count hresult => ?_⟩
      · exact inside_accesses (by omega) hfits.start hfits.first (by omega)
      · obtain rfl := Except.ok.inj hresult
        omega

/-- **The ring operations under every header.** A drain is always safe; a push is safe just when its
offsets are in order and the new one does not overflow. -/
theorem ringOperations_safe (ring : MappedRing) (out data : Bytes) :
    (∃ call, SafeDrain ring out call) ∧
      ((∃ call, SafePush ring data call) ↔ Pushable ring data) := by
  refine ⟨ring.exists_safeDrain out, ?_, exists_safePush_of_pushable⟩
  rintro ⟨call, hcall⟩
  have hreturned := hcall.returned
  by_cases hle : ring.readOffset.toNat ≤ ring.writeOffset.toNat
  · rw [ring.pushChecked_of_le data hle] at hreturned
    by_contra hfits
    rw [if_neg hfits] at hreturned
    cases hreturned
  · rw [ring.pushChecked_of_behind data (not_le.mp hle)] at hreturned
    cases hreturned

/-- Eight data bytes, and a read offset ahead of the write offset. -/
def readAhead : MappedRing :=
  { capacity := 8, data := fun _ => 0, writeOffset := 5, readOffset := 10, mapped := by decide }

/-- A push of sixteen bytes underflows; unchecked, it says that it has stored thirteen. -/
theorem not_safePush_readAhead :
    (¬ ∃ call, SafePush readAhead (List.replicate 16 1) call) ∧
      (readAhead.pushAvailable (List.replicate 16 1)).1 = .ok 13 := by
  constructor
  · rintro ⟨call, hcall⟩
    have hreturned := hcall.returned
    rw [readAhead.pushChecked_of_behind _ (by decide)] at hreturned
    cases hreturned
  · decide +kernel

end MappedRing

end RkWhisper
