import RkWhisper.Lib.Transition
import RkWhisper.SharedAudioRing

/-!
# The ring is a lossless bounded FIFO

Both parties work from an offset of the other that may be stale, and a copy may take two pieces. The
invariant says what each phase of a call still knows at that point: the producer's bytes lie beyond
everything the consumer may be reading, and what the consumer has copied is what was accepted.
-/

namespace RkWhisper

open CircularBuffer Transition

theorem toNat_saturatingSub (a b : UInt64) :
    (saturatingSub a b).toNat = a.toNat - b.toNat := by
  unfold saturatingSub
  split
  · rename_i hle
    rw [UInt64.le_iff_toNat_le] at hle
    simp [Nat.sub_eq_zero_of_le hle]
  · rename_i hle
    rw [UInt64.le_iff_toNat_le] at hle
    rw [UInt64.toNat_sub_of_le _ _ (UInt64.le_iff_toNat_le.mpr (by omega))]

namespace SharedAudioRing

variable {capacity read write : UInt64} {data : Bytes} {plan : CopyPlan}

/-! ### What the plans say -/

/-- The fields of the plan a drain follows. -/
structure DrainFits (capacity read : UInt64) (plan : CopyPlan) : Prop where
  start : plan.start = read.toNat % capacity.toNat
  first : plan.first = min plan.count (capacity.toNat - plan.start)
  count : plan.count ≤ capacity.toNat
  offset : plan.offset.toNat = read.toNat + plan.count

/-- The fields of the plan a push follows, and the room its bytes have from `low` on. -/
structure PushFits (capacity write : UInt64) (data : Bytes) (low : Nat) (plan : CopyPlan) :
    Prop where
  start : plan.start = write.toNat % capacity.toNat
  first : plan.first = min plan.count (capacity.toNat - plan.start)
  count : plan.count ≤ data.length
  room : write.toNat + plan.count ≤ low + capacity.toNat
  offset : plan.offset = write + UInt64.ofNat plan.count

theorem drainPlan_cases (hle : read.toNat ≤ write.toNat)
    (hroom : write.toNat ≤ read.toNat + capacity.toNat) :
    (read = write ∧ drainPlan capacity read write = .ok none) ∨
      ∃ plan, drainPlan capacity read write = .ok (some plan) ∧ plan.offset = write ∧
        DrainFits capacity read plan := by
  have hsub := toNat_saturatingSub write read
  have hcheck : ¬ capacity < saturatingSub write read := by
    rw [UInt64.lt_iff_toNat_lt]
    omega
  unfold drainPlan
  rw [if_neg hcheck]
  by_cases hempty : write ≤ read
  · have heq : read.toNat = write.toNat := by
      rw [UInt64.le_iff_toNat_le] at hempty
      omega
    exact .inl ⟨UInt64.toNat_inj.mp heq, if_pos hempty⟩
  · rw [if_neg hempty]
    refine .inr ⟨_, rfl, rfl, rfl, rfl, ?_, ?_⟩ <;>
      simp only [UInt64.toNat_sub_of_le _ _ (UInt64.le_iff_toNat_le.mpr hle)] <;> omega

theorem pushPlan_cases {low : Nat} (data : Bytes) (hle : read.toNat ≤ write.toNat)
    (hroom : write.toNat ≤ read.toNat + capacity.toNat) (hlow : read.toNat ≤ low) :
    (min data.length (capacity.toNat - (write.toNat - read.toNat)) = 0 ∧
        pushPlan capacity read write data = .ok none) ∨
      ∃ plan, pushPlan capacity read write data = .ok (some plan) ∧
        plan.count = min data.length (capacity.toNat - (write.toNat - read.toNat)) ∧
        PushFits capacity write data low plan := by
  have hsub := toNat_saturatingSub write read
  have hcheck : ¬ capacity < saturatingSub write read := by
    rw [UInt64.lt_iff_toNat_lt]
    omega
  have hused : (write - read).toNat = write.toNat - read.toNat :=
    UInt64.toNat_sub_of_le _ _ (UInt64.le_iff_toNat_le.mpr hle)
  have havailable : (capacity - (write - read)).toNat =
      capacity.toNat - (write.toNat - read.toNat) := by
    rw [UInt64.toNat_sub_of_le _ _ (UInt64.le_iff_toNat_le.mpr (by omega)), hused]
  unfold pushPlan
  rw [if_neg hcheck]
  simp only [havailable]
  by_cases hzero : min data.length (capacity.toNat - (write.toNat - read.toNat)) = 0
  · exact .inl ⟨hzero, if_pos hzero⟩
  · rw [if_neg hzero]
    refine .inr ⟨_, rfl, rfl, rfl, rfl, ?_, ?_, rfl⟩ <;> simp only <;> omega

/-! ### What the copies do -/

theorem slice_first (hcapacity : 0 < capacity.toNat) (memory : Nat → UInt8)
    (hfits : DrainFits capacity read plan) :
    slice memory plan.start plan.first =
      window memory capacity.toNat read.toNat plan.first := by
  have hlt := Nat.mod_lt read.toNat hcapacity
  have hfirst := hfits.first
  have hstart := hfits.start
  rw [hstart, slice_mod (by omega)]

theorem slice_first_append_rest (hcapacity : 0 < capacity.toNat) (memory : Nat → UInt8)
    (hfits : DrainFits capacity read plan) :
    slice memory plan.start plan.first ++ slice memory 0 (plan.count - plan.first) =
      window memory capacity.toNat read.toNat plan.count := by
  rw [hfits.first, hfits.start]
  exact slice_append_slice hcapacity hfits.count

variable {ring : SharedAudioRing} {low : Nat}

theorem PushFits.mono {low' : Nat} (hfits : PushFits capacity write data low plan)
    (hle : low ≤ low') : PushFits capacity write data low' plan :=
  { hfits with room := hfits.room.trans (by omega) }

theorem PushFits.length_first (hfits : PushFits capacity write data low plan) :
    (data.take plan.first).length = plan.first := by
  have hfirst := hfits.first
  have hcount := hfits.count
  rw [List.length_take]
  omega

theorem PushFits.length_rest (hfits : PushFits capacity write data low plan) :
    ((data.take plan.count).drop plan.first).length = plan.count - plan.first := by
  have hcount := hfits.count
  rw [List.length_drop, List.length_take]
  omega

/-- The second piece starts at the first cell of the ring. -/
theorem PushFits.mod_rest (hcapacity : 0 < capacity.toNat)
    (hfits : PushFits capacity write data low plan) (hwraps : plan.first < plan.count) :
    (write.toNat + plan.first) % capacity.toNat = 0 := by
  obtain ⟨hstart, hfirst, -, -, -⟩ := hfits
  have hend : plan.first = capacity.toNat - write.toNat % capacity.toNat := by omega
  rw [hend, add_sub_mod_mod hcapacity]

/-- The first piece lands right behind the contents. -/
theorem window_copyFirst (ring : SharedAudioRing) (hcapacity : 0 < capacity.toNat)
    (hfits : PushFits capacity write data low plan) :
    window (ring.copyFirst data plan).data capacity.toNat write.toNat plan.first =
      data.take plan.first := by
  have hlt := Nat.mod_lt write.toNat hcapacity
  have hlen := hfits.length_first
  obtain ⟨hstart, hfirst, -, -, -⟩ := hfits
  have hwrite := window_overwrite ring.data (data.take plan.first)
    (show write.toNat % capacity.toNat + (data.take plan.first).length ≤ capacity.toNat by omega)
  rwa [hlen, ← hstart] at hwrite

/-- The second piece lands right behind the first. -/
theorem window_copyRest (hcapacity : 0 < capacity.toNat) (hlow : low ≤ write.toNat)
    (hfits : PushFits capacity write data low plan) (hwraps : plan.first < plan.count)
    (hdone : window ring.data capacity.toNat write.toNat plan.first = data.take plan.first) :
    window (ring.copyRest data plan).data capacity.toNat write.toNat plan.count =
      data.take plan.count := by
  have hmod := hfits.mod_rest hcapacity hwraps
  have hlen := hfits.length_rest
  have hroom := hfits.room
  have hend : (write.toNat + plan.first) % capacity.toNat +
      ((data.take plan.count).drop plan.first).length ≤ capacity.toNat := by omega
  have hbefore := window_overwrite_before ring.data ((data.take plan.count).drop plan.first)
    (le_refl (write.toNat + plan.first)) (by omega) hend
  have hbehind := window_overwrite ring.data ((data.take plan.count).drop plan.first) hend
  have htake : (data.take plan.count).take plan.first = data.take plan.first := by
    rw [List.take_take, min_eq_left hwraps.le]
  rw [hmod] at hbefore hbehind
  rw [hlen] at hbehind
  calc window (ring.copyRest data plan).data capacity.toNat write.toNat plan.count
      = window (ring.copyRest data plan).data capacity.toNat write.toNat
          (plan.first + (plan.count - plan.first)) := by rw [Nat.add_sub_cancel' hwraps.le]
    _ = data.take plan.first ++ (data.take plan.count).drop plan.first := by
        rw [window_add, copyRest, hbefore, hbehind, hdone]
    _ = data.take plan.count := by rw [← htake, List.take_append_drop]

/-- Neither piece touches the contents. -/
theorem window_copyFirst_before (hcapacity : 0 < capacity.toNat) (hlow : low ≤ write.toNat)
    (hfits : PushFits capacity write data low plan) :
    window (ring.copyFirst data plan).data capacity.toNat low (write.toNat - low) =
      window ring.data capacity.toNat low (write.toNat - low) := by
  have hlt := Nat.mod_lt write.toNat hcapacity
  have hlen := hfits.length_first
  obtain ⟨hstart, hfirst, -, hroom, -⟩ := hfits
  rw [copyFirst, hstart]
  exact window_overwrite_before _ _ (by omega) (by omega) (by omega)

theorem window_copyRest_before (hcapacity : 0 < capacity.toNat) (hlow : low ≤ write.toNat)
    (hfits : PushFits capacity write data low plan) (hwraps : plan.first < plan.count) :
    window (ring.copyRest data plan).data capacity.toNat low (write.toNat - low) =
      window ring.data capacity.toNat low (write.toNat - low) := by
  have hmod := hfits.mod_rest hcapacity hwraps
  have hlen := hfits.length_rest
  have hroom := hfits.room
  rw [copyRest, ← hmod]
  exact window_overwrite_before _ _ (by omega) (by omega) (by omega)

/-! ### Whole calls -/

/-- The offsets are in order and no more than a round apart. -/
structure Valid (ring : SharedAudioRing) : Prop where
  capacity_pos : 0 < ring.capacity.toNat
  read_le : ring.readOffset.toNat ≤ ring.writeOffset.toNat
  occupied : ring.writeOffset.toNat ≤ ring.readOffset.toNat + ring.capacity.toNat

/-- The bytes a push has room for. -/
def free (ring : SharedAudioRing) : Nat :=
  ring.capacity.toNat - (ring.writeOffset.toNat - ring.readOffset.toNat)

theorem length_contents (ring : SharedAudioRing) :
    ring.contents.length = ring.writeOffset.toNat - ring.readOffset.toNat :=
  length_window ..

theorem valid_initHeader (ring : SharedAudioRing) (hcapacity : 0 < ring.capacity) :
    ring.initHeader.Valid where
  capacity_pos := UInt64.lt_iff_toNat_lt.mp hcapacity
  read_le := le_rfl
  occupied := Nat.zero_le _

theorem contents_initHeader (ring : SharedAudioRing) : ring.initHeader.contents = [] := rfl

theorem contents_copyFirst (hvalid : ring.Valid)
    (hfits : PushFits ring.capacity ring.writeOffset data ring.readOffset.toNat plan) :
    (ring.copyFirst data plan).contents = ring.contents :=
  window_copyFirst_before hvalid.capacity_pos hvalid.read_le hfits

theorem contents_copyRest (hvalid : ring.Valid)
    (hfits : PushFits ring.capacity ring.writeOffset data ring.readOffset.toNat plan)
    (hwraps : plan.first < plan.count) :
    (ring.copyRest data plan).contents = ring.contents :=
  window_copyRest_before hvalid.capacity_pos hvalid.read_le hfits hwraps

/-- A write offset that does not wrap around moves past what was copied. -/
theorem toNat_offset_push (hfits : PushFits capacity write data low plan)
    (hmax : write.toNat + plan.count < 2 ^ 64) :
    plan.offset.toNat = write.toNat + plan.count := by
  rw [hfits.offset, UInt64.toNat_add, UInt64.toNat_ofNat_of_lt' (by simp only [UInt64.size]; omega),
    Nat.mod_eq_of_lt hmax]

/-- Storing the write offset makes the copied bytes part of the contents. -/
theorem contents_storeWrite (hvalid : ring.Valid)
    (hfits : PushFits ring.capacity ring.writeOffset data ring.readOffset.toNat plan)
    (hmax : ring.writeOffset.toNat + plan.count < 2 ^ 64)
    (hcopied : window ring.data ring.capacity.toNat ring.writeOffset.toNat plan.count =
      data.take plan.count) :
    { ring with writeOffset := plan.offset }.contents = ring.contents ++ data.take plan.count := by
  have hle := hvalid.read_le
  simp only [contents, toNat_offset_push hfits hmax]
  rw [← hcopied, Nat.sub_add_comm hle, window_add, Nat.add_sub_cancel' hle]

theorem valid_storeWrite (hvalid : ring.Valid)
    (hfits : PushFits ring.capacity ring.writeOffset data ring.readOffset.toNat plan)
    (hmax : ring.writeOffset.toNat + plan.count < 2 ^ 64) :
    { ring with writeOffset := plan.offset }.Valid where
  capacity_pos := hvalid.capacity_pos
  read_le := by
    rw [toNat_offset_push hfits hmax]
    exact hvalid.read_le.trans (Nat.le_add_right _ _)
  occupied := by
    rw [toNat_offset_push hfits hmax]
    exact hfits.room

/-- Storing the read offset takes the copied bytes out of the contents. -/
theorem contents_storeRead (hfits : DrainFits ring.capacity ring.readOffset plan)
    (hle : plan.offset.toNat ≤ ring.writeOffset.toNat) :
    { ring with readOffset := plan.offset }.contents = ring.contents.drop plan.count := by
  have hoffset := hfits.offset
  simp only [contents, hoffset]
  rw [drop_window _ _ _ (by omega), Nat.sub_sub]

theorem valid_storeRead (hvalid : ring.Valid) (hfits : DrainFits ring.capacity ring.readOffset plan)
    (hle : plan.offset.toNat ≤ ring.writeOffset.toNat) :
    { ring with readOffset := plan.offset }.Valid where
  capacity_pos := hvalid.capacity_pos
  read_le := hle
  occupied := by
    have hoccupied := hvalid.occupied
    have hoffset := hfits.offset
    simp only
    omega

/-- A drain of a valid ring appends its contents and leaves it empty. -/
theorem drainAvailable_eq (hvalid : ring.Valid) (out : Bytes) :
    ring.drainAvailable out =
      (.ok (), { ring with readOffset := ring.writeOffset }, out ++ ring.contents) := by
  unfold drainAvailable
  obtain ⟨heq, hplan⟩ | ⟨plan, hplan, hoffset, hfits⟩ :=
    drainPlan_cases hvalid.read_le hvalid.occupied
  · have hempty : ring.contents = [] := by simp [contents, heq]
    have hsame : { ring with readOffset := ring.writeOffset } = ring := by
      cases ring
      simpa using heq.symm
    simp only [hplan, hempty, hsame, List.append_nil]
  · have hwhole := slice_first_append_rest hvalid.capacity_pos ring.data hfits
    have hcount : plan.count = ring.writeOffset.toNat - ring.readOffset.toNat := by
      have hread := hfits.offset
      rw [hoffset] at hread
      omega
    rw [hplan]
    simp only [hoffset, Prod.mk.injEq, true_and]
    rw [contents, ← hcount, ← hwhole]
    split
    · rw [List.append_assoc]
    · rename_i hfirst
      rw [Nat.sub_eq_zero_of_le (by omega), slice_zero, List.append_nil]

/-- A push to a valid ring appends as much of the data as there is room for. -/
theorem pushAvailable_spec (hvalid : ring.Valid) (data : Bytes)
    (hmax : ring.writeOffset.toNat + data.length < 2 ^ 64) :
    ∃ pushed, ring.pushAvailable data = (.ok (min data.length ring.free), pushed) ∧
      pushed.Valid ∧ pushed.capacity = ring.capacity ∧
      pushed.contents = ring.contents ++ data.take (min data.length ring.free) ∧
      pushed.writeOffset.toNat = ring.writeOffset.toNat + min data.length ring.free := by
  unfold pushAvailable
  obtain ⟨hzero, hplan⟩ | ⟨plan, hplan, hcount, hfits⟩ :=
    pushPlan_cases data hvalid.read_le hvalid.occupied le_rfl
  · rw [← free] at hzero
    exact ⟨ring, by rw [hplan, hzero], hvalid, rfl, by simp [hzero], by simp [hzero]⟩
  · rw [← free] at hcount
    have hle := hfits.count
    have hfirstDone := window_copyFirst ring hvalid.capacity_pos hfits
    have hfirstContents := contents_copyFirst hvalid hfits
    -- The ring between the copy and the store, whether or not the copy wrapped.
    obtain ⟨copied, hcopied, hdata, hcontents, hcapacity, hwrite, hread⟩ :
        ∃ copied, (if plan.first < plan.count then (ring.copyFirst data plan).copyRest data plan
            else ring.copyFirst data plan) = copied ∧
          window copied.data ring.capacity.toNat ring.writeOffset.toNat plan.count =
            data.take plan.count ∧
          copied.contents = ring.contents ∧ copied.capacity = ring.capacity ∧
          copied.writeOffset = ring.writeOffset ∧ copied.readOffset = ring.readOffset := by
      by_cases hwraps : plan.first < plan.count
      · rw [if_pos hwraps]
        refine ⟨_, rfl, window_copyRest hvalid.capacity_pos hvalid.read_le hfits hwraps hfirstDone,
          ?_, rfl, rfl, rfl⟩
        rw [← hfirstContents]
        exact contents_copyRest ⟨hvalid.capacity_pos, hvalid.read_le, hvalid.occupied⟩ hfits hwraps
      · have heq : plan.first = plan.count := by
          have hfirst := hfits.first
          omega
        rw [if_neg hwraps]
        exact ⟨_, rfl, heq ▸ hfirstDone, hfirstContents, rfl, rfl, rfl⟩
    have hvalidCopied : copied.Valid :=
      ⟨hcapacity ▸ hvalid.capacity_pos, by rw [hwrite, hread]; exact hvalid.read_le,
        by rw [hwrite, hread, hcapacity]; exact hvalid.occupied⟩
    rw [← hcapacity, ← hwrite, ← hread] at hfits
    rw [← hcapacity, ← hwrite] at hdata
    have hmaxCopied : copied.writeOffset.toNat + plan.count < 2 ^ 64 := by
      rw [hwrite]
      omega
    refine ⟨{ copied with writeOffset := plan.offset }, ?_,
      valid_storeWrite hvalidCopied hfits hmaxCopied, hcapacity, ?_, ?_⟩
    · simp only [hplan, hcopied]
      rw [hcount]
    · rw [contents_storeWrite hvalidCopied hfits hmaxCopied hdata, hcontents, hcount]
    · simp only [toNat_offset_push hfits hmaxCopied, hwrite, hcount]

/-- A drain takes a write offset that is not past the read offset for an empty ring. -/
theorem drainAvailable_of_le (hle : ring.writeOffset ≤ ring.readOffset) (out : Bytes) :
    ring.drainAvailable out = (.ok (), ring, out) := by
  have hplan : drainPlan ring.capacity ring.readOffset ring.writeOffset = .ok none := by
    have hzero : saturatingSub ring.writeOffset ring.readOffset = 0 := if_pos hle
    have hcheck : ¬ ring.capacity < 0 := by simp [UInt64.lt_iff_toNat_lt]
    rw [drainPlan, hzero, if_neg hcheck, if_pos hle]
  simp only [drainAvailable, hplan]

/-- One byte goes into an empty ring, and the write offset wraps around. -/
theorem pushAvailable_singleton (hvalid : ring.Valid) (hempty : ring.contents = []) (byte : UInt8) :
    ∃ pushed, ring.pushAvailable [byte] = (.ok 1, pushed) ∧
      pushed.writeOffset = ring.writeOffset + 1 ∧ pushed.readOffset = ring.readOffset := by
  have hlen := ring.length_contents
  have hcapacity := hvalid.capacity_pos
  rw [hempty, List.length_nil] at hlen
  obtain ⟨hzero, -⟩ | ⟨plan, hplan, hcount, hfits⟩ :=
    pushPlan_cases [byte] hvalid.read_le hvalid.occupied le_rfl
  · rw [List.length_singleton] at hzero
    omega
  · have hone : plan.count = 1 := by
      rw [hcount, List.length_singleton]
      omega
    have hoffset := hfits.offset
    rw [hone] at hoffset
    simp only [pushAvailable, hplan, hone]
    refine ⟨_, rfl, hoffset, ?_⟩
    split <;> rfl

end SharedAudioRing

end RkWhisper
