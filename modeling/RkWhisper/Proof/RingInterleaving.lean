import RkWhisper.Proof.RingFifo

/-!
# Every interleaving of one producer and one consumer

The invariant says what each phase of a call still knows: a push in progress has its bytes beyond
everything the consumer may be reading, and a drain in progress holds a prefix of the contents,
however far the other party has moved on since.
-/

namespace RkWhisper

open CircularBuffer Transition SharedAudioRing

/-- What a push in progress relies on. -/
def PushPhase.Ok (ring : SharedAudioRing) : PushPhase → Prop
  | .idle => True
  | .called _ => True
  | .loaded _ read =>
      read.toNat ≤ ring.readOffset.toNat ∧
        ring.writeOffset.toNat ≤ read.toNat + ring.capacity.toNat
  | .copying data plan =>
      PushFits ring.capacity ring.writeOffset data ring.readOffset.toNat plan
  | .wrapping data plan =>
      PushFits ring.capacity ring.writeOffset data ring.readOffset.toNat plan ∧
        plan.first < plan.count ∧
        window ring.data ring.capacity.toNat ring.writeOffset.toNat plan.first =
          data.take plan.first
  | .storing data plan =>
      PushFits ring.capacity ring.writeOffset data ring.readOffset.toNat plan ∧
        window ring.data ring.capacity.toNat ring.writeOffset.toNat plan.count =
          data.take plan.count

/-- What a drain in progress relies on. -/
def DrainPhase.Ok (ring : SharedAudioRing) : DrainPhase → Prop
  | .idle => True
  | .called => True
  | .loaded read => read = ring.readOffset
  | .copying plan =>
      DrainFits ring.capacity ring.readOffset plan ∧
        plan.offset.toNat ≤ ring.writeOffset.toNat
  | .wrapping plan out =>
      DrainFits ring.capacity ring.readOffset plan ∧
        plan.offset.toNat ≤ ring.writeOffset.toNat ∧ out = ring.contents.take plan.first
  | .storing plan out =>
      DrainFits ring.capacity ring.readOffset plan ∧
        plan.offset.toNat ≤ ring.writeOffset.toNat ∧ out = ring.contents.take plan.count

/-- Moving the read offset gives a push in progress more room. -/
theorem PushPhase.Ok.mono_read {ring : SharedAudioRing} {phase : PushPhase} {read : UInt64}
    (h : phase.Ok ring) (hle : ring.readOffset.toNat ≤ read.toNat) :
    phase.Ok { ring with readOffset := read } := by
  cases phase with
  | idle => trivial
  | called data => trivial
  | loaded data old => exact ⟨h.1.trans hle, h.2⟩
  | copying data plan => exact PushFits.mono h hle
  | wrapping data plan => exact ⟨PushFits.mono h.1 hle, h.2⟩
  | storing data plan => exact ⟨PushFits.mono h.1 hle, h.2⟩

theorem DrainFits.count_le_occupied {ring : SharedAudioRing} {plan : CopyPlan}
    (hfits : DrainFits ring.capacity ring.readOffset plan)
    (hle : plan.offset.toNat ≤ ring.writeOffset.toNat) :
    plan.count ≤ ring.writeOffset.toNat - ring.readOffset.toNat := by
  have hoffset := hfits.offset
  omega

theorem DrainFits.count_le_contents {ring : SharedAudioRing} {plan : CopyPlan}
    (hfits : DrainFits ring.capacity ring.readOffset plan)
    (hle : plan.offset.toNat ≤ ring.writeOffset.toNat) :
    plan.count ≤ ring.contents.length :=
  (DrainFits.count_le_occupied hfits hle).trans_eq (length_contents ring).symm

/-- Contents that only grow leave a drain in progress what it has read. -/
theorem DrainPhase.Ok.mono_contents {ring ring' : SharedAudioRing} {phase : DrainPhase}
    (h : phase.Ok ring) (hcapacity : ring'.capacity = ring.capacity)
    (hread : ring'.readOffset = ring.readOffset)
    (hwrite : ring.writeOffset.toNat ≤ ring'.writeOffset.toNat)
    (hcontents : ring.contents <+: ring'.contents) : phase.Ok ring' := by
  obtain ⟨more, hmore⟩ := hcontents
  have htake : ∀ {count}, count ≤ ring.contents.length →
      ring'.contents.take count = ring.contents.take count := by
    intro count hcount
    rw [← hmore, List.take_append_of_le_length hcount]
  cases phase with
  | idle => trivial
  | called => trivial
  | loaded read => exact h.trans hread.symm
  | copying plan =>
      obtain ⟨hfits, hle⟩ := h
      exact ⟨hcapacity ▸ hread ▸ hfits, hle.trans hwrite⟩
  | wrapping plan out =>
      obtain ⟨hfits, hle, hout⟩ := h
      have hcount := DrainFits.count_le_contents hfits hle
      have hfirst := hfits.first
      refine ⟨hcapacity ▸ hread ▸ hfits, hle.trans hwrite, ?_⟩
      rw [htake (by omega), hout]
  | storing plan out =>
      obtain ⟨hfits, hle, hout⟩ := h
      have hcount := DrainFits.count_le_contents hfits hle
      refine ⟨hcapacity ▸ hread ▸ hfits, hle.trans hwrite, ?_⟩
      rw [htake hcount, hout]

namespace SharedRing

structure Invariant (s : SharedRing) : Prop where
  valid : s.ring.Valid
  writeOffset : s.ring.writeOffset.toNat = s.accepted.length
  accepted : s.accepted = s.drained ++ s.ring.contents
  pushes : ∀ call ∈ s.pushes, ∃ count, call.2 = .ok count ∧ count ≤ call.1.length
  drains : ∀ call ∈ s.drains, call.1 = .ok ()
  pushPhase : s.pushPhase.Ok s.ring
  drainPhase : s.drainPhase.Ok s.ring

abbrev Step (s : SharedRing) (event : Event) (s' : SharedRing) : Prop :=
  s.step event = some s'

@[simp]
theorem acceptedBy_ok (data : Bytes) (count : Nat) :
    acceptedBy (data, .ok count) = data.take count := rfl

@[simp]
theorem accepted_returnPush (s : SharedRing) (data : Bytes) (result : Except Error Nat) :
    (s.returnPush data result).accepted = s.accepted ++ acceptedBy (data, result) := by
  simp [accepted, returnPush]

@[simp]
theorem drained_returnDrain (s : SharedRing) (result : Except Error Unit) (out : Bytes) :
    (s.returnDrain result out).drained = s.drained ++ out := by
  simp [drained, returnDrain]

theorem invariant_start {capacity : UInt64} (hcapacity : 0 < capacity) (memory : Nat → UInt8)
    (write read : UInt64) : (start capacity memory write read).Invariant where
  valid := valid_initHeader _ hcapacity
  writeOffset := rfl
  accepted := rfl
  pushes := by simp [start]
  drains := by simp [start]
  pushPhase := trivial
  drainPhase := trivial

/-- A push that stored nothing changes nothing but the log. -/
theorem Invariant.returnPush_zero {s : SharedRing} (h : s.Invariant) (data : Bytes) :
    (s.returnPush data (.ok 0)).Invariant where
  valid := h.valid
  writeOffset := by
    rw [accepted_returnPush, acceptedBy_ok, List.take_zero, List.append_nil]
    exact h.writeOffset
  accepted := by
    rw [accepted_returnPush, acceptedBy_ok, List.take_zero, List.append_nil]
    exact h.accepted
  pushes := by
    intro call hmem
    simp only [returnPush, List.mem_append, List.mem_singleton] at hmem
    obtain hold | rfl := hmem
    · exact h.pushes call hold
    · exact ⟨0, rfl, Nat.zero_le _⟩
  drains := h.drains
  pushPhase := trivial
  drainPhase := h.drainPhase

/-- A copy touches no byte of the contents. -/
theorem Invariant.copy {s : SharedRing} (h : s.Invariant) {ring : SharedAudioRing}
    {phase : PushPhase} (hcapacity : ring.capacity = s.ring.capacity)
    (hread : ring.readOffset = s.ring.readOffset) (hwrite : ring.writeOffset = s.ring.writeOffset)
    (hcontents : ring.contents = s.ring.contents) (hphase : phase.Ok ring) :
    { s with ring := ring, pushPhase := phase }.Invariant where
  valid := ⟨hcapacity ▸ h.valid.capacity_pos, hread ▸ hwrite ▸ h.valid.read_le,
    hread ▸ hwrite ▸ hcapacity ▸ h.valid.occupied⟩
  writeOffset := by
    rw [hwrite]
    exact h.writeOffset
  accepted := by
    rw [hcontents]
    exact h.accepted
  pushes := h.pushes
  drains := h.drains
  pushPhase := hphase
  drainPhase := h.drainPhase.mono_contents hcapacity hread (by rw [hwrite])
    (by rw [hcontents])

theorem Invariant.producer {s s' : SharedRing} (h : s.Invariant) (hstep : s.producerStep = some s')
    (hmax : s'.accepted.length < 2 ^ 64) : s'.Invariant := by
  have hphase := h.pushPhase
  unfold producerStep at hstep
  cases hcase : s.pushPhase with
  | idle => simp [hcase] at hstep
  | called data =>
      simp only [hcase, Option.some.injEq] at hstep
      subst hstep
      exact { h with pushPhase := ⟨le_rfl, h.valid.occupied⟩ }
  | loaded data read =>
      rw [hcase] at hphase
      obtain ⟨hle, hroom⟩ := hphase
      have hreadWrite := hle.trans h.valid.read_le
      obtain ⟨-, hplan⟩ | ⟨plan, hplan, -, hfits⟩ :=
        pushPlan_cases data hreadWrite hroom hle
      · simp only [hcase, hplan, Option.some.injEq] at hstep
        subst hstep
        exact h.returnPush_zero data
      · simp only [hcase, hplan, Option.some.injEq] at hstep
        subst hstep
        exact { h with pushPhase := hfits }
  | copying data plan =>
      rw [hcase] at hphase
      have hfits : PushFits _ _ _ _ _ := hphase
      simp only [hcase, Option.some.injEq] at hstep
      subst hstep
      have hdone := window_copyFirst s.ring h.valid.capacity_pos hfits
      refine h.copy rfl rfl rfl (contents_copyFirst h.valid hfits) ?_
      split
      · rename_i hwraps
        exact ⟨hfits, hwraps, hdone⟩
      · have hfirst := hfits.first
        have heq : plan.first = plan.count := by omega
        exact ⟨hfits, heq ▸ hdone⟩
  | wrapping data plan =>
      rw [hcase] at hphase
      obtain ⟨hfits, hwraps, hdone⟩ := hphase
      simp only [hcase, Option.some.injEq] at hstep
      subst hstep
      exact h.copy rfl rfl rfl (contents_copyRest h.valid hfits hwraps)
        ⟨hfits, window_copyRest h.valid.capacity_pos h.valid.read_le hfits hwraps hdone⟩
  | storing data plan =>
      rw [hcase] at hphase
      obtain ⟨hfits, hdone⟩ := hphase
      simp only [hcase, Option.some.injEq] at hstep
      have hlen : (data.take plan.count).length = plan.count := by
        rw [List.length_take, min_eq_left hfits.count]
      have hnew : s'.accepted = s.accepted ++ data.take plan.count := by
        rw [← hstep]
        exact accepted_returnPush ..
      rw [hnew, List.length_append, hlen, ← h.writeOffset] at hmax
      subst hstep
      have hcontents := contents_storeWrite h.valid hfits hmax hdone
      exact {
        valid := valid_storeWrite h.valid hfits hmax
        writeOffset := by
          rw [hnew, List.length_append, hlen, ← h.writeOffset]
          exact toNat_offset_push hfits hmax
        accepted := by
          rw [hnew, h.accepted, List.append_assoc, ← hcontents]
          rfl
        pushes := by
          intro call hmem
          simp only [returnPush, List.mem_append, List.mem_singleton] at hmem
          obtain hmem | rfl := hmem
          · exact h.pushes call hmem
          · exact ⟨plan.count, rfl, hfits.count⟩
        drains := h.drains
        pushPhase := trivial
        drainPhase := h.drainPhase.mono_contents rfl rfl
          (by
            have hoffset := toNat_offset_push hfits hmax
            change _ ≤ plan.offset.toNat
            omega)
          ⟨data.take plan.count, hcontents.symm⟩ }

theorem Invariant.drains_returnDrain {s : SharedRing} (h : s.Invariant) (out : Bytes) :
    ∀ call ∈ (s.returnDrain (.ok ()) out).drains, call.1 = .ok () := by
  intro call hmem
  simp only [returnDrain, List.mem_append, List.mem_singleton] at hmem
  obtain hold | rfl := hmem
  · exact h.drains call hold
  · rfl

/-- A drain that found the ring empty changes nothing but the log. -/
theorem Invariant.returnDrain_nil {s : SharedRing} (h : s.Invariant) :
    (s.returnDrain (.ok ()) []).Invariant where
  valid := h.valid
  writeOffset := h.writeOffset
  accepted := by
    rw [drained_returnDrain, List.append_nil]
    exact h.accepted
  pushes := h.pushes
  drains := h.drains_returnDrain []
  pushPhase := h.pushPhase
  drainPhase := trivial

theorem Invariant.consumer {s s' : SharedRing} (h : s.Invariant)
    (hstep : s.consumerStep = some s') : s'.Invariant := by
  have hphase := h.drainPhase
  unfold consumerStep at hstep
  cases hcase : s.drainPhase with
  | idle => simp [hcase] at hstep
  | called =>
      simp only [hcase, Option.some.injEq] at hstep
      subst hstep
      exact { h with drainPhase := rfl }
  | loaded read =>
      rw [hcase] at hphase
      obtain rfl : read = s.ring.readOffset := hphase
      obtain ⟨-, hplan⟩ | ⟨plan, hplan, hoffset, hfits⟩ :=
        drainPlan_cases h.valid.read_le h.valid.occupied
      · simp only [hcase, hplan, Option.some.injEq] at hstep
        subst hstep
        exact h.returnDrain_nil
      · simp only [hcase, hplan, Option.some.injEq] at hstep
        subst hstep
        exact { h with drainPhase := ⟨hfits, by rw [hoffset]⟩ }
  | copying plan =>
      rw [hcase] at hphase
      obtain ⟨hfits, hle⟩ := hphase
      simp only [hcase, Option.some.injEq] at hstep
      subst hstep
      have hcount := DrainFits.count_le_occupied hfits hle
      have hfirst := hfits.first
      have hout : slice s.ring.data plan.start plan.first = s.ring.contents.take plan.first := by
        rw [slice_first h.valid.capacity_pos _ hfits, contents, take_window _ _ _ (by omega)]
      refine { h with drainPhase := ?_ }
      split
      · exact ⟨hfits, hle, hout⟩
      · have heq : plan.first = plan.count := by omega
        exact ⟨hfits, hle, heq ▸ hout⟩
  | wrapping plan out =>
      rw [hcase] at hphase
      obtain ⟨hfits, hle, hout⟩ := hphase
      simp only [hcase, Option.some.injEq] at hstep
      subst hstep
      have hcount := DrainFits.count_le_occupied hfits hle
      have hfirst := hfits.first
      have hwhole := slice_first_append_rest h.valid.capacity_pos s.ring.data hfits
      refine { h with drainPhase := ⟨hfits, hle, ?_⟩ }
      rw [hout, contents, take_window _ _ _ (by omega), take_window _ _ _ (by omega), ← hwhole,
        slice_first h.valid.capacity_pos _ hfits]
  | storing plan out =>
      rw [hcase] at hphase
      obtain ⟨hfits, hle, hout⟩ := hphase
      simp only [hcase, Option.some.injEq] at hstep
      subst hstep
      have hcontents := contents_storeRead hfits hle
      have hmoved : s.ring.readOffset.toNat ≤ plan.offset.toNat := by
        rw [hfits.offset]
        exact Nat.le_add_right _ _
      exact {
        valid := valid_storeRead h.valid hfits hle
        writeOffset := h.writeOffset
        accepted := by
          have hold := h.accepted
          rw [drained_returnDrain, hout]
          simp only [returnDrain]
          rw [hcontents, List.append_assoc, List.take_append_drop]
          exact hold
        pushes := h.pushes
        drains := h.drains_returnDrain out
        pushPhase := h.pushPhase.mono_read hmoved
        drainPhase := trivial }

theorem Invariant.step {s s' : SharedRing} {event : Event} (h : s.Invariant)
    (hstep : Step s event s') (hmax : s'.accepted.length < 2 ^ 64) : s'.Invariant := by
  cases event with
  | push data =>
      simp only [Step, SharedRing.step] at hstep
      split at hstep
      · cases hstep
        exact { h with pushPhase := trivial }
      · cases hstep
  | producer => exact h.producer hstep hmax
  | drain =>
      simp only [Step, SharedRing.step] at hstep
      split at hstep
      · cases hstep
        exact { h with drainPhase := trivial }
      · cases hstep
  | consumer => exact h.consumer hstep

/-! ### Runs -/

theorem drained_producerStep {s s' : SharedRing} (hstep : s.producerStep = some s') :
    s'.drained = s.drained := by
  unfold producerStep at hstep
  split at hstep
  · cases hstep
  · cases hstep
    rfl
  · split at hstep <;> cases hstep <;> rfl
  · cases hstep
    rfl
  · cases hstep
    rfl
  · cases hstep
    rfl

theorem accepted_prefix {s s' : SharedRing} {event : Event} (hstep : Step s event s') :
    s.accepted <+: s'.accepted ∧ s'.ring.capacity = s.ring.capacity := by
  cases event with
  | push data =>
      simp only [Step, SharedRing.step] at hstep
      split at hstep <;> cases hstep
      exact ⟨List.prefix_rfl, rfl⟩
  | drain =>
      simp only [Step, SharedRing.step] at hstep
      split at hstep <;> cases hstep
      exact ⟨List.prefix_rfl, rfl⟩
  | producer =>
      simp only [Step, SharedRing.step, producerStep] at hstep
      split at hstep
      · cases hstep
      · cases hstep
        exact ⟨List.prefix_rfl, rfl⟩
      · split at hstep <;> cases hstep
        · exact ⟨by simp, rfl⟩
        · exact ⟨by simp, rfl⟩
        · exact ⟨List.prefix_rfl, rfl⟩
      · cases hstep
        exact ⟨List.prefix_rfl, rfl⟩
      · cases hstep
        exact ⟨List.prefix_rfl, rfl⟩
      · cases hstep
        exact ⟨⟨_, (accepted_returnPush ..).symm⟩, rfl⟩
  | consumer =>
      simp only [Step, SharedRing.step, consumerStep] at hstep
      split at hstep
      · cases hstep
      · cases hstep
        exact ⟨List.prefix_rfl, rfl⟩
      · split at hstep <;> cases hstep <;> exact ⟨List.prefix_rfl, rfl⟩
      · cases hstep
        exact ⟨List.prefix_rfl, rfl⟩
      · cases hstep
        exact ⟨List.prefix_rfl, rfl⟩
      · cases hstep
        exact ⟨List.prefix_rfl, rfl⟩

theorem Invariant.run {s s' : SharedRing} {events : List Event} (h : s.Invariant)
    (hrun : Run Step s events s') (hmax : s'.accepted.length < 2 ^ 64) :
    s'.Invariant ∧ s'.ring.capacity = s.ring.capacity := by
  refine hrun.invariant (P := fun _ state =>
    state.accepted.length < 2 ^ 64 →
      state.Invariant ∧ state.ring.capacity = s.ring.capacity) (fun _ => ⟨h, rfl⟩) ?_ hmax
  intro events state event next ih hstep hnext
  obtain ⟨hgrown, hcapacity⟩ := accepted_prefix hstep
  obtain ⟨hinv, hsame⟩ := ih (lt_of_le_of_lt hgrown.length_le hnext)
  exact ⟨hinv.step hstep hnext, hcapacity.trans hsame⟩

/-- The state after a drain that nobody interrupted. -/
def afterDrain (s : SharedRing) : SharedRing :=
  { s with
    ring := (s.ring.drainAvailable []).2.1
    drains := s.drains ++ [((s.ring.drainAvailable []).1, (s.ring.drainAvailable []).2.2)] }

/-- The steps of one drain, taken in a row, are the whole call. -/
theorem run_drainAvailable (s : SharedRing) (hidle : s.drainPhase = .idle) :
    ∃ events, Run Step s (.drain :: events) s.afterDrain ∧
      ∀ event ∈ events, event = .consumer := by
  have hcall : Step s .drain { s with drainPhase := .called } := by
    simp [Step, step, hidle]
  have hload : Step { s with drainPhase := .called } .consumer
      { s with drainPhase := .loaded s.ring.readOffset } := rfl
  obtain ⟨result, hplan⟩ : ∃ result,
      drainPlan s.ring.capacity s.ring.readOffset s.ring.writeOffset = result := ⟨_, rfl⟩
  obtain error | _ | plan := result
  · have hreturn : Step { s with drainPhase := .loaded s.ring.readOffset } .consumer
        s.afterDrain := by
      simp [Step, step, consumerStep, returnDrain, afterDrain, drainAvailable, hplan, hidle]
    exact ⟨_, .cons hcall (.cons hload (.single hreturn)), by simp⟩
  · have hreturn : Step { s with drainPhase := .loaded s.ring.readOffset } .consumer
        s.afterDrain := by
      simp [Step, step, consumerStep, returnDrain, afterDrain, drainAvailable, hplan, hidle]
    exact ⟨_, .cons hcall (.cons hload (.single hreturn)), by simp⟩
  · have hcheck : Step { s with drainPhase := .loaded s.ring.readOffset } .consumer
        { s with drainPhase := .copying plan } := by
      simp [Step, step, consumerStep, hplan]
    by_cases hwraps : plan.first < plan.count
    · have hcopy : Step { s with drainPhase := .copying plan } .consumer
          { s with drainPhase := .wrapping plan (slice s.ring.data plan.start plan.first) } := by
        simp [Step, step, consumerStep, hwraps]
      have hwrap : Step
          { s with drainPhase := .wrapping plan (slice s.ring.data plan.start plan.first) } .consumer
          { s with drainPhase := .storing plan (slice s.ring.data plan.start plan.first ++
              slice s.ring.data 0 (plan.count - plan.first)) } := rfl
      have hreturn : Step
          { s with drainPhase := .storing plan (slice s.ring.data plan.start plan.first ++
              slice s.ring.data 0 (plan.count - plan.first)) } .consumer s.afterDrain := by
        simp [Step, step, consumerStep, returnDrain, afterDrain, drainAvailable, hplan, hwraps,
          hidle]
      exact ⟨_, .cons hcall (.cons hload (.cons hcheck (.cons hcopy (.cons hwrap
        (.single hreturn))))), by simp⟩
    · have hcopy : Step { s with drainPhase := .copying plan } .consumer
          { s with drainPhase := .storing plan (slice s.ring.data plan.start plan.first) } := by
        simp [Step, step, consumerStep, hwraps]
      have hreturn : Step
          { s with drainPhase := .storing plan (slice s.ring.data plan.start plan.first) } .consumer
          s.afterDrain := by
        simp [Step, step, consumerStep, returnDrain, afterDrain, drainAvailable, hplan, hwraps,
          hidle]
      exact ⟨_, .cons hcall (.cons hload (.cons hcheck (.cons hcopy (.single hreturn)))), by simp⟩

/-- What a drain that started after the last push aims at. -/
def DrainsAll (s : SharedRing) : Prop :=
  s.pushPhase = .idle ∧
    match s.drainPhase with
    | .idle => s.ring.readOffset = s.ring.writeOffset
    | .called => True
    | .loaded _ => True
    | .copying plan => plan.offset = s.ring.writeOffset
    | .wrapping plan _ => plan.offset = s.ring.writeOffset
    | .storing plan _ => plan.offset = s.ring.writeOffset

theorem DrainsAll.step {s s' : SharedRing} {event : Event} (hinv : s.Invariant)
    (h : s.DrainsAll) (hevent : event = .drain ∨ event = .consumer) (hstep : Step s event s') :
    s'.DrainsAll ∧ s'.accepted = s.accepted := by
  obtain ⟨hidle, hphase⟩ := h
  obtain rfl | rfl := hevent
  · simp only [Step, SharedRing.step] at hstep
    split at hstep <;> cases hstep
    exact ⟨⟨hidle, trivial⟩, rfl⟩
  · have hdrain := hinv.drainPhase
    simp only [Step, SharedRing.step, consumerStep] at hstep
    cases hcase : s.drainPhase with
    | idle => simp [hcase] at hstep
    | called =>
        simp only [hcase, Option.some.injEq] at hstep
        subst hstep
        exact ⟨⟨hidle, trivial⟩, rfl⟩
    | loaded read =>
        rw [hcase] at hdrain
        obtain rfl : read = s.ring.readOffset := hdrain
        obtain ⟨heq, hplan⟩ | ⟨plan, hplan, hoffset, -⟩ :=
          drainPlan_cases hinv.valid.read_le hinv.valid.occupied
        · simp only [hcase, hplan, Option.some.injEq] at hstep
          subst hstep
          exact ⟨⟨hidle, heq⟩, rfl⟩
        · simp only [hcase, hplan, Option.some.injEq] at hstep
          subst hstep
          exact ⟨⟨hidle, hoffset⟩, rfl⟩
    | copying plan =>
        rw [hcase] at hphase
        simp only [hcase, Option.some.injEq] at hstep
        subst hstep
        refine ⟨⟨hidle, ?_⟩, rfl⟩
        by_cases hwraps : plan.first < plan.count
        · simpa [hwraps] using hphase
        · simpa [hwraps] using hphase
    | wrapping plan out =>
        rw [hcase] at hphase
        simp only [hcase, Option.some.injEq] at hstep
        subst hstep
        exact ⟨⟨hidle, hphase⟩, rfl⟩
    | storing plan out =>
        rw [hcase] at hphase
        simp only [hcase, Option.some.injEq] at hstep
        subst hstep
        exact ⟨⟨hidle, hphase⟩, rfl⟩

/-- A drain that runs after the last push takes everything that was ever accepted. -/
theorem Invariant.drain_after_last_push {s s' : SharedRing} {events : List Event}
    (h : s.Invariant) (hmax : s.accepted.length < 2 ^ 64) (hpush : s.pushPhase = .idle)
    (hdrain : s.drainPhase = .idle) (hrun : Run Step s (.drain :: events) s')
    (hevents : ∀ event ∈ events, event = .drain ∨ event = .consumer)
    (hdone : s'.drainPhase = .idle) : s'.ring.contents = [] ∧ s'.drained = s.accepted := by
  have hall : (s'.Invariant ∧ s'.accepted = s.accepted) ∧ s'.DrainsAll := by
    have hgood : ∀ event ∈ Event.drain :: events, event = .drain ∨ event = .consumer := by
      simpa using hevents
    -- Before the call the ring may hold anything, so the target is only there once it has begun.
    refine hrun.invariant_of_forall (P := fun past state =>
      (state.Invariant ∧ state.accepted = s.accepted) ∧
        (past = [] ∧ state = s ∨ state.DrainsAll)) hgood ⟨⟨h, rfl⟩, .inl ⟨rfl, rfl⟩⟩ ?_ |>.imp_right
          (Or.resolve_left · (by simp))
    rintro past state event next ⟨⟨hinv, hsame⟩, hstate⟩ hevent hstep
    have hnext : next.DrainsAll ∧ next.accepted = state.accepted := by
      obtain ⟨-, rfl⟩ | hall := hstate
      · obtain rfl | rfl := hevent
        · simp only [Step, SharedRing.step, hdrain, if_true, Option.some.injEq] at hstep
          subst hstep
          exact ⟨⟨hpush, trivial⟩, rfl⟩
        · simp [Step, SharedRing.step, consumerStep, hdrain] at hstep
      · exact hall.step hinv hevent hstep
    refine ⟨⟨hinv.step hstep ?_, hnext.2.trans hsame⟩, .inr hnext.1⟩
    rwa [hnext.2, hsame]
  obtain ⟨⟨hinv, hsame⟩, -, hphase⟩ := hall
  rw [hdone] at hphase
  have hempty : s'.ring.contents = [] := by
    rw [contents, hphase, Nat.sub_self, window_zero]
  have haccepted := hinv.accepted
  rw [hempty, List.append_nil] at haccepted
  exact ⟨hempty, haccepted.symm.trans hsame⟩

/-- **The shared audio ring is a lossless bounded FIFO.** Whatever the header and the data bytes
held before `init_header`, in every interleaving the offsets stay ordered and within the capacity,
no call fails, a push returns what it appended, and what was accepted is what was drained followed
by what is still in the ring. A drain that starts after the last push completes and empties it. -/
theorem accepted_eq_drained_append_contents {capacity : UInt64} (hcapacity : 0 < capacity)
    (memory : Nat → UInt8) (write read : UInt64) {events : List Event} {s : SharedRing}
    (hrun : Run Step (start capacity memory write read) events s)
    (htotal : s.accepted.length < 2 ^ 64) :
    (s.ring.readOffset ≤ s.ring.writeOffset ∧
      s.ring.writeOffset.toNat - s.ring.readOffset.toNat ≤ capacity.toNat) ∧
    (∀ call ∈ s.pushes, ∃ count, call.2 = .ok count ∧ count ≤ call.1.length) ∧
    (∀ call ∈ s.drains, call.1 = .ok ()) ∧
    (∀ s' data count, Step s .producer s' → s'.accepted.length < 2 ^ 64 →
      s'.pushes = s.pushes ++ [(data, .ok count)] →
        s'.ring.contents = s.ring.contents ++ data.take count) ∧
    s.accepted = s.drained ++ s.ring.contents ∧
    (s.pushPhase = .idle → s.drainPhase = .idle →
      (∃ more s', Run Step s (.drain :: more) s' ∧ (∀ event ∈ more, event = .consumer) ∧
        s'.drainPhase = .idle) ∧
      ∀ more s', Run Step s (.drain :: more) s' →
        (∀ event ∈ more, event = .drain ∨ event = .consumer) → s'.drainPhase = .idle →
          s'.ring.contents = [] ∧ s'.drained = s.accepted) := by
  obtain ⟨hinv, hsame⟩ := (invariant_start hcapacity memory write read).run hrun htotal
  have hcap : s.ring.capacity = capacity := hsame
  refine ⟨⟨UInt64.le_iff_toNat_le.mpr hinv.valid.read_le, ?_⟩, hinv.pushes, hinv.drains, ?_,
    hinv.accepted, ?_⟩
  · have hoccupied := hinv.valid.occupied
    rw [hcap] at hoccupied
    omega
  · intro s' data count hstep hmax hlog
    have hnext := (hinv.step hstep hmax).accepted
    have hdrained : s'.drained = s.drained := drained_producerStep hstep
    have hgrown : s'.accepted = s.accepted ++ data.take count := by
      rw [accepted, hlog, List.flatMap_append, accepted]
      simp
    rw [hgrown, hinv.accepted, hdrained, List.append_assoc] at hnext
    exact (List.append_cancel_left hnext).symm
  · intro hpush hdrain
    refine ⟨?_, fun more s' hrun' hmore hdone =>
      hinv.drain_after_last_push htotal hpush hdrain hrun' hmore hdone⟩
    obtain ⟨more, hrun', hmore⟩ := run_drainAvailable s hdrain
    exact ⟨more, _, hrun', hmore, hdrain⟩

/-- Three bytes go through a ring of four, then a push of three has its last bytes wrap around and
its offset not stored yet. -/
theorem accepted_eq_drained_append_contents_wrapping :
    ∃ events s, Run Step (start 4 (fun _ => 0) 9 7) events s ∧
      s.pushPhase = .storing [4, 5, 6] ⟨3, 1, 3, 6⟩ ∧ s.accepted = [1, 2, 3] ∧
      s.accepted = s.drained ++ s.ring.contents := by
  have hrun : Run Step (start 4 (fun _ => 0) 9 7)
      [.push [1, 2, 3], .drain, .producer, .consumer, .producer, .producer, .producer, .consumer,
        .consumer, .consumer, .push [4, 5, 6], .producer, .producer, .producer, .producer] _ :=
    Run.of_foldlM (fun _ _ _ h => h) rfl
  have hfifo := accepted_eq_drained_append_contents (by decide) (fun _ => 0) 9 7 hrun (by decide)
  exact ⟨_, _, hrun, rfl, rfl, hfifo.2.2.2.2.1⟩

end SharedRing

end RkWhisper
