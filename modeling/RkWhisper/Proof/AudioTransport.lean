import RkWhisper.Lib.Transition
import RkWhisper.Proof.ChunkReader
import RkWhisper.Proof.RingFifo

/-!
# The audio transport is lossless

At every point the bytes of all the blocks are, in order, those in chunks already sent, those the
reader keeps, those in the ring and those not pushed yet. That a signal is always on its way while
the ring holds bytes is what keeps the two parties from waiting for each other.
-/

namespace RkWhisper

open Transition

namespace SenderPhase

/-- The bytes that are not pushed yet. -/
def unsent : SenderPhase → Bytes
  | .sending rest blocks => rest ++ blocks.flatten
  | .signalling rest blocks => rest ++ blocks.flatten
  | .finished => []
  | .failed _ => []

/-- The signal that no further one follows. -/
def lastSignal : SenderPhase → Bytes
  | .finished => [signalEndOfStream]
  | _ => []

/-- The push just made is not signalled yet. -/
def OwesSignal : SenderPhase → Prop
  | .signalling _ _ => True
  | _ => False

def work : SenderPhase → Nat
  | .sending rest blocks => 5 * (rest ++ blocks.flatten).length + blocks.length + 4
  | .signalling rest blocks => 5 * (rest ++ blocks.flatten).length + blocks.length + 8
  | .finished => 0
  | .failed _ => 0

end SenderPhase

namespace ReaderPhase

/-- The loop ends with this round. -/
def final : ReaderPhase → Bool
  | .reading => false
  | .draining finalFlush => finalFlush
  | .flushing finalFlush => finalFlush
  | .returned _ => true

def Drains : ReaderPhase → Prop
  | .draining _ => True
  | _ => False

def work : ReaderPhase → Nat
  | .reading => 0
  | .draining _ => 2
  | .flushing _ => 1
  | .returned _ => 0

end ReaderPhase

namespace AudioTransport

abbrev Step (t : AudioTransport) (event : Event) (t' : AudioTransport) : Prop :=
  t.step event = some t'

/-- The steps that are left: three for each signal in the socket, five for each byte to push. -/
def work (t : AudioTransport) : Nat :=
  t.client.work + 3 * t.signals.length + t.phase.work

structure Invariant (total : Bytes) (t : AudioTransport) : Prop where
  valid : t.ring.Valid
  offset : t.ring.writeOffset.toNat + t.client.unsent.length = total.length
  working : ∀ error, t.client ≠ .failed error
  bytes : (∀ result, t.phase ≠ .returned result) → ∃ full, t.reader.Holds full ∧
    full.flatten ++ t.reader.pcm ++ t.ring.contents ++ t.client.unsent = total
  delivered : ∀ result, t.phase = .returned result → t.reader.Delivered total result
  signals : t.phase.final = false →
    ∃ count, t.signals = List.replicate count signalDataReady ++ t.client.lastSignal
  ended : t.phase.final = true → t.client = .finished ∧ t.signals = []
  drained : t.phase = .flushing true → t.ring.contents = []
  pending : t.ring.contents ≠ [] → t.signals ≠ [] ∨ t.client.OwesSignal ∨ t.phase.Drains

variable {total : Bytes} {t t' : AudioTransport}

theorem invariant_start {capacity : UInt64} (hcapacity : 0 < capacity) (memory : Nat → UInt8)
    (blocks : List Bytes) : (start capacity memory blocks).Invariant blocks.flatten where
  valid := SharedAudioRing.valid_initHeader _ hcapacity
  offset := Nat.zero_add _
  working := by simp [start]
  bytes _ := ⟨[], ⟨by simp, rfl, rfl⟩, rfl⟩
  delivered := by simp [start]
  signals _ := ⟨0, rfl⟩
  ended := by simp [start, ReaderPhase.final]
  drained := by simp [start]
  pending := by simp [start, SharedAudioRing.contents_initHeader]

/-- While the client is at work the reader is not in its last round. -/
theorem Invariant.final_eq_false (h : t.Invariant total) (hclient : t.client ≠ .finished) :
    t.phase.final = false := by
  by_contra hfinal
  rw [Bool.not_eq_false] at hfinal
  exact hclient (h.ended hfinal).1

theorem Invariant.not_flushing_true (h : t.Invariant total) (hclient : t.client ≠ .finished) :
    t.phase ≠ .flushing true := by
  intro hphase
  have hfinal := h.final_eq_false hclient
  rw [hphase] at hfinal
  cases hfinal

/-- A client step that leaves the ring alone. -/
theorem Invariant.client_only (h : t.Invariant total) (hclient : t.client ≠ .finished)
    (client : SenderPhase) (more : Bytes) (hunsent : client.unsent = t.client.unsent)
    (hworking : ∀ error, client ≠ .failed error)
    (hsignals : ∃ count, t.client.lastSignal ++ more =
      List.replicate count signalDataReady ++ client.lastSignal)
    (hpending : more ≠ [] ∨ ¬ t.client.OwesSignal) :
    { t with client := client, signals := t.signals ++ more }.Invariant total where
  valid := h.valid
  offset := by
    simp only [hunsent]
    exact h.offset
  working := hworking
  bytes hphase := by
    simp only [hunsent]
    exact h.bytes hphase
  delivered := h.delivered
  signals hfinal := by
    obtain ⟨count, hcount⟩ := h.signals hfinal
    obtain ⟨more', hmore⟩ := hsignals
    refine ⟨count + more', ?_⟩
    simp only
    rw [hcount, List.append_assoc, hmore, ← List.append_assoc, List.replicate_append_replicate]
  ended hfinal := by
    have hnot := h.final_eq_false hclient
    simp only at hfinal
    rw [hfinal] at hnot
    cases hnot
  drained hphase := absurd hphase (h.not_flushing_true hclient)
  pending hcontents := by
    obtain hold | howes | hdrains := h.pending hcontents
    · exact .inl (List.append_ne_nil_of_left_ne_nil hold more)
    · have hmore := hpending.resolve_right (not_not_intro howes)
      exact .inl (List.append_ne_nil_of_right_ne_nil t.signals hmore)
    · exact .inr (.inr hdrains)

/-- A push moves bytes from the client to the ring and owes a signal for them. -/
theorem Invariant.push (h : t.Invariant total) {rest : Bytes} {blocks : List Bytes}
    (hclient : t.client = .sending rest blocks)
    (hmax : t.ring.writeOffset.toNat + rest.length < 2 ^ 64) :
    ∃ pushed, t.ring.pushAvailable rest = (.ok (min rest.length t.ring.free), pushed) ∧
      { t with
        ring := pushed
        client := .signalling (rest.drop (min rest.length t.ring.free)) blocks }.Invariant total := by
  have hnot : t.client ≠ .finished := by simp [hclient]
  have hoffset := h.offset
  have hunsent : t.client.unsent = rest ++ blocks.flatten := by rw [hclient, SenderPhase.unsent]
  rw [hunsent, List.length_append] at hoffset
  obtain ⟨pushed, hpush, hvalid, -, hcontents, hwrite⟩ :=
    SharedAudioRing.pushAvailable_spec h.valid rest hmax
  refine ⟨pushed, hpush, ?_⟩
  exact {
    valid := hvalid
    offset := by
      simp only [SenderPhase.unsent, List.length_append, List.length_drop, hwrite]
      omega
    working := by simp
    bytes := by
      intro hphase
      obtain ⟨full, hfull, hbytes⟩ := h.bytes hphase
      refine ⟨full, hfull, ?_⟩
      rw [hunsent] at hbytes
      simp only [hcontents, SenderPhase.unsent, ← hbytes, List.append_assoc]
      rw [← List.append_assoc (rest.take _), List.take_append_drop]
    delivered := h.delivered
    signals := by
      intro hfinal
      obtain ⟨count, hcount⟩ := h.signals hfinal
      rw [hclient] at hcount
      exact ⟨count, hcount⟩
    ended := fun hfinal => absurd (h.ended hfinal).1 hnot
    drained := fun hphase => absurd hphase (h.not_flushing_true hnot)
    pending := fun _ => .inr (.inl trivial) }

/-- The offset a push would end at is bounded by the length of the stream. -/
theorem Invariant.offset_lt (h : t.Invariant total) (hmax : total.length < 2 ^ 64) {rest : Bytes}
    {blocks : List Bytes} (hclient : t.client = .sending rest blocks) :
    t.ring.writeOffset.toNat + rest.length < 2 ^ 64 := by
  have hoffset := h.offset
  rw [hclient, SenderPhase.unsent, List.length_append] at hoffset
  omega

theorem Invariant.client (h : t.Invariant total)
    (hmax : ∀ rest blocks, t.client = .sending rest blocks →
      t.ring.writeOffset.toNat + rest.length < 2 ^ 64)
    (hstep : t.clientStep = some t') : t'.Invariant total := by
  unfold clientStep at hstep
  split at hstep
  · rename_i hclient
    cases hstep
    exact h.client_only (by simp [hclient]) _ _ (by simp [hclient, SenderPhase.unsent]) (by simp)
      ⟨0, by simp [hclient, SenderPhase.lastSignal]⟩ (.inl (by simp))
  · rename_i block blocks hclient
    cases hstep
    have hnext := h.client_only (by simp [hclient]) (.sending block blocks) []
      (by simp [hclient, SenderPhase.unsent]) (by simp)
      ⟨0, by simp [hclient, SenderPhase.lastSignal]⟩
      (.inr (by simp [hclient, SenderPhase.OwesSignal]))
    rwa [List.append_nil] at hnext
  · rename_i rest blocks _ _ hclient
    obtain ⟨pushed, hpush, hnext⟩ := h.push hclient (hmax _ _ hclient)
    rw [hpush] at hstep
    simp only at hstep
    split at hstep
    · cases hstep
      exact hnext
    · cases hstep
      exact h
  · rename_i rest blocks hclient
    cases hstep
    exact h.client_only (by simp [hclient]) _ _ (by simp [hclient, SenderPhase.unsent]) (by simp)
      ⟨1, by simp [hclient, SenderPhase.lastSignal]⟩ (.inl (by simp))
  · cases hstep
  · cases hstep

/-- A read takes the next signal, and only the last one starts the last round. -/
theorem Invariant.read (h : t.Invariant total) (hphase : t.phase = .reading) {signal : UInt8}
    {signals : Bytes} (hsignals : t.signals = signal :: signals) :
    { t with
      signals := signals
      phase := (t.reader.onRead (some signal)).1
      reader := (t.reader.onRead (some signal)).2 }.Invariant total := by
  have hreturned : ∀ result, t.phase ≠ .returned result := by simp [hphase]
  obtain ⟨count, hcount⟩ := h.signals (by simp [hphase, ReaderPhase.final])
  rw [hsignals] at hcount
  cases count with
  | zero =>
      have hclient : t.client = .finished := by
        cases hcase : t.client <;> simp [hcase, SenderPhase.lastSignal] at hcount ⊢
      simp only [hclient, SenderPhase.lastSignal, List.replicate_zero, List.nil_append,
        List.cons.injEq] at hcount
      obtain ⟨rfl, rfl⟩ := hcount
      have hread : t.reader.onRead (some signalEndOfStream) = (.draining true, t.reader) := rfl
      rw [hread]
      exact {
        valid := h.valid
        offset := h.offset
        working := h.working
        bytes := fun _ => h.bytes hreturned
        delivered := by simp
        signals := by simp [ReaderPhase.final]
        ended := fun _ => ⟨hclient, rfl⟩
        drained := by simp
        pending := fun _ => .inr (.inr trivial) }
  | succ count =>
      rw [List.replicate_succ, List.cons_append, List.cons.injEq] at hcount
      obtain ⟨rfl, rfl⟩ := hcount
      have hread : t.reader.onRead (some signalDataReady) = (.draining false, t.reader) := rfl
      rw [hread]
      exact {
        valid := h.valid
        offset := h.offset
        working := h.working
        bytes := fun _ => h.bytes hreturned
        delivered := by simp
        signals := fun _ => ⟨count, rfl⟩
        ended := by simp [ReaderPhase.final]
        drained := by simp
        pending := fun _ => .inr (.inr trivial) }

/-- A drain moves the contents of the ring to the reader. -/
theorem Invariant.drain (h : t.Invariant total) {finalFlush : Bool}
    (hphase : t.phase = .draining finalFlush) :
    { t with
      ring := { t.ring with readOffset := t.ring.writeOffset }
      phase := .flushing finalFlush
      reader := { t.reader with pcm := t.reader.pcm ++ t.ring.contents } }.Invariant total := by
  have hempty : { t.ring with readOffset := t.ring.writeOffset }.contents = [] := by
    rw [← List.length_eq_zero_iff, SharedAudioRing.length_contents, Nat.sub_self]
  exact {
    valid := ⟨h.valid.capacity_pos, le_rfl, Nat.le_add_right _ _⟩
    offset := h.offset
    working := h.working
    bytes := by
      intro _
      obtain ⟨full, hfull, hbytes⟩ := h.bytes (by simp [hphase])
      refine ⟨full, ⟨hfull.length, hfull.sent, hfull.stats⟩, ?_⟩
      rw [hempty, List.append_nil, ← List.append_assoc]
      exact hbytes
    delivered := by simp
    signals := fun hfinal => h.signals (by rw [hphase]; exact hfinal)
    ended := fun hfinal => h.ended (by rw [hphase]; exact hfinal)
    drained := fun _ => hempty
    pending := fun hcontents => absurd hempty hcontents }

theorem Invariant.reader (h : t.Invariant total) (hstep : t.readerStep = some t') :
    t'.Invariant total := by
  unfold readerStep at hstep
  split at hstep
  · rename_i hphase
    split at hstep
    · cases hstep
    · rename_i signal signals hsignals
      cases hstep
      exact h.read hphase hsignals
  · rename_i finalFlush hphase
    rw [SharedAudioRing.drainAvailable_eq h.valid] at hstep
    cases hstep
    exact h.drain hphase
  · rename_i finalFlush hphase
    obtain ⟨full, hfull, hbytes⟩ := h.bytes (by simp [hphase])
    cases finalFlush with
    | false =>
        obtain ⟨full', flushed, hflush, hfull', hsame⟩ := t.reader.flushPcmChunks_false hfull
        rw [hflush] at hstep
        cases hstep
        exact {
          valid := h.valid
          offset := h.offset
          working := h.working
          bytes := fun _ => ⟨full', hfull', by rw [← hbytes, ← hsame]⟩
          delivered := by simp
          signals := fun _ => h.signals (by simp [hphase, ReaderPhase.final])
          ended := by simp [ReaderPhase.final]
          drained := by simp
          pending := by
            intro hcontents
            obtain hold | howes | hdrains := h.pending hcontents
            · exact .inl hold
            · exact .inr (.inl howes)
            · simp [hphase, ReaderPhase.Drains] at hdrains }
    | true =>
        obtain ⟨hclient, hsignals⟩ := h.ended (by simp [hphase, ReaderPhase.final])
        have hcontents := h.drained hphase
        obtain ⟨result, flushed, hflush, hdelivered⟩ := t.reader.flushPcmChunks_true hfull
        have hall : full.flatten ++ t.reader.pcm = total := by
          rw [← hbytes, hcontents, hclient, SenderPhase.unsent, List.append_nil, List.append_nil]
        have hreturn : flushed.onFlushed true result =
            (.returned (result.map fun _ => .completed flushed.stats), flushed) := by
          cases result <;> rfl
        rw [hflush] at hstep
        simp only [hreturn, Option.some.injEq] at hstep
        subst hstep
        exact {
          valid := h.valid
          offset := h.offset
          working := h.working
          bytes := fun hnot => absurd rfl (hnot _)
          delivered := by
            intro result' hresult
            rw [← hall]
            cases hresult
            exact hdelivered
          signals := by simp [ReaderPhase.final]
          ended := fun _ => ⟨hclient, hsignals⟩
          drained := by simp
          pending := fun hnot => absurd hcontents hnot }
  · cases hstep

theorem Invariant.step {event : Event} (h : t.Invariant total) (hmax : total.length < 2 ^ 64)
    (hstep : Step t event t') : t'.Invariant total := by
  cases event with
  | client => exact h.client (fun _ _ hclient => h.offset_lt hmax hclient) hstep
  | reader => exact h.reader hstep

/-! ### Progress -/

theorem work_onRead_le (reader : LiveReader) (signal : UInt8) :
    (reader.onRead (some signal)).1.work ≤ 2 := by
  simp only [LiveReader.onRead]
  split
  · exact le_rfl
  · split
    · exact le_rfl
    · split <;> exact Nat.zero_le _

theorem work_onDrained_le (reader : LiveReader) (finalFlush : Bool) (result : Except Error Unit) :
    (reader.onDrained finalFlush result).1.work ≤ 1 := by
  cases result
  · exact Nat.zero_le _
  · exact le_rfl

theorem work_onFlushed (reader : LiveReader) (finalFlush : Bool) (result : Except Error Unit) :
    (reader.onFlushed finalFlush result).1.work = 0 := by
  cases result
  · rfl
  · cases finalFlush <;> rfl

theorem work_readerStep (hstep : t.readerStep = some t') : t'.work < t.work := by
  unfold readerStep at hstep
  split at hstep
  · rename_i hphase
    split at hstep
    · cases hstep
    · rename_i signal signals hsignals
      rw [Option.some.injEq] at hstep
      subst hstep
      have hread := work_onRead_le t.reader signal
      simp only [work, hsignals, List.length_cons]
      omega
  · rename_i finalFlush hphase
    have hold : t.phase.work = 2 := by
      rw [hphase]
      rfl
    rw [Option.some.injEq] at hstep
    subst hstep
    have hdrain := work_onDrained_le
      { t.reader with pcm := (t.ring.drainAvailable t.reader.pcm).2.2 } finalFlush
      (t.ring.drainAvailable t.reader.pcm).1
    have hlt : t.client.work + 3 * t.signals.length + 1 < t.work := by
      rw [work, hold]
      omega
    exact lt_of_le_of_lt (Nat.add_le_add_left hdrain _) hlt
  · rename_i finalFlush hphase
    have hold : t.phase.work = 1 := by
      rw [hphase]
      rfl
    rw [Option.some.injEq] at hstep
    subst hstep
    have hflush := work_onFlushed (t.reader.flushPcmChunks finalFlush).2 finalFlush
      (t.reader.flushPcmChunks finalFlush).1
    simp only [work]
    omega
  · cases hstep

/-- A client step gets on, or it is a push that found no room. -/
theorem work_clientStep (hstep : t.clientStep = some t') : t'.work < t.work ∨ t' = t := by
  unfold clientStep at hstep
  split at hstep
  · rename_i hclient
    cases hstep
    left
    simp only [work, hclient, SenderPhase.work, List.length_append, List.length_singleton]
    omega
  · rename_i block blocks hclient
    cases hstep
    left
    simp only [work, hclient, SenderPhase.work, List.flatten_cons, List.nil_append,
      List.length_cons]
    omega
  · rename_i rest blocks hnil hcons hclient
    have hpos : 0 < rest.length := by
      rw [List.length_pos_iff]
      rintro rfl
      cases blocks with
      | nil => exact hnil rfl rfl
      | cons block blocks => exact hcons block blocks rfl rfl
    split at hstep
    · cases hstep
      left
      simp only [work, hclient, SenderPhase.work]
      omega
    · split at hstep
      · cases hstep
        left
        simp only [work, hclient, SenderPhase.work, List.length_append, List.length_drop]
        omega
      · cases hstep
        exact .inr rfl
  · rename_i rest blocks hclient
    cases hstep
    left
    simp only [work, hclient, SenderPhase.work, List.length_append, List.length_singleton]
    omega
  · cases hstep
  · cases hstep

/-- Until the reader returns, one of the parties can get on. -/
theorem Invariant.progress (h : t.Invariant total) (hmax : total.length < 2 ^ 64)
    (hphase : ∀ result, t.phase ≠ .returned result) :
    ∃ event t', Step t event t' ∧ t'.work < t.work := by
  have hreader : t.readerStep.isSome → ∃ event t', Step t event t' ∧ t'.work < t.work := by
    intro hsome
    obtain ⟨t', hstep⟩ := Option.isSome_iff_exists.mp hsome
    exact ⟨.reader, t', hstep, work_readerStep hstep⟩
  cases hcase : t.phase with
  | draining finalFlush => exact hreader (by simp [readerStep, hcase])
  | flushing finalFlush => exact hreader (by simp [readerStep, hcase])
  | returned result => exact absurd hcase (hphase result)
  | reading =>
      cases hsignals : t.signals with
      | cons signal signals => exact hreader (by simp [readerStep, hcase, hsignals])
      | nil =>
          -- Nothing is in the socket, so the ring is empty and the client still has work to do.
          have hclient : ∀ t', t.clientStep = some t' → t'.client ≠ t.client →
              ∃ event t', Step t event t' ∧ t'.work < t.work := by
            intro t' hstep hne
            refine ⟨.client, t', hstep, (work_clientStep hstep).resolve_right ?_⟩
            rintro rfl
            exact hne rfl
          obtain ⟨count, hcount⟩ := h.signals (by simp [hcase, ReaderPhase.final])
          rw [hsignals] at hcount
          match hsender : t.client with
          | .finished => simp [hsender, SenderPhase.lastSignal] at hcount
          | .failed error => exact absurd hsender (h.working error)
          | .signalling rest blocks =>
              exact hclient _ (by simp only [clientStep, hsender]; rfl) (by simp [hsender])
          | .sending [] [] =>
              exact hclient _ (by simp only [clientStep, hsender]; rfl) (by simp [hsender])
          | .sending [] (block :: blocks) =>
              exact hclient _ (by simp only [clientStep, hsender]; rfl) (by simp [hsender])
          | .sending (byte :: rest) blocks =>
              have hempty : t.ring.contents = [] := by
                by_contra hcontents
                simpa [hsignals, hsender, hcase, SenderPhase.OwesSignal, ReaderPhase.Drains]
                  using h.pending hcontents
              have hroom : 0 < min (byte :: rest).length t.ring.free := by
                have hlen := t.ring.length_contents
                have hcapacity := h.valid.capacity_pos
                rw [hempty, List.length_nil] at hlen
                simp only [SharedAudioRing.free, List.length_cons]
                omega
              obtain ⟨pushed, hpush, -⟩ := h.push hsender (h.offset_lt hmax hsender)
              exact hclient _ (by simp only [clientStep, hsender, hpush, hroom, if_true]; rfl)
                (by simp [hsender])

/-- The reader can be brought to return from every reachable state. -/
theorem Invariant.exists_returned (h : t.Invariant total) (hmax : total.length < 2 ^ 64) :
    ∃ events t' result, Run Step t events t' ∧ t'.phase = .returned result := by
  induction hwork : t.work using Nat.strong_induction_on generalizing t with
  | _ left ih =>
      by_cases hphase : ∀ result, t.phase ≠ .returned result
      · obtain ⟨event, t', hstep, hless⟩ := h.progress hmax hphase
        obtain ⟨events, t'', result, hrun, hreturned⟩ :=
          ih _ (hwork ▸ hless) (h.step hmax hstep) rfl
        exact ⟨_, t'', result, .cons hstep hrun, hreturned⟩
      · push Not at hphase
        obtain ⟨result, hresult⟩ := hphase
        exact ⟨_, t, result, .refl, hresult⟩

/-- **The audio transport is lossless**, for a stream of fewer than `2 ^ 64` bytes. When the reader
returns it has delivered the stream; until then one of the parties can get on, and every step gets
on but the polls of a full ring. -/
theorem readLiveChunks_delivered {capacity : UInt64} (hcapacity : 0 < capacity)
    (memory : Nat → UInt8) (blocks : List Bytes) (htotal : blocks.flatten.length < 2 ^ 64)
    {events : List Event} {t : AudioTransport}
    (hrun : Run Step (start capacity memory blocks) events t) :
    (∀ result, t.phase = .returned result → t.reader.Delivered blocks.flatten result) ∧
    ((∀ result, t.phase ≠ .returned result) → ∃ event t', Step t event t' ∧ t'.work < t.work) ∧
    (∀ event t', Step t event t' → t'.work < t.work ∨ t' = t) := by
  have hinv : t.Invariant blocks.flatten :=
    hrun.invariant (P := fun _ state => state.Invariant blocks.flatten)
      (invariant_start hcapacity memory blocks) fun _ _ _ _ h hstep => h.step htotal hstep
  refine ⟨hinv.delivered, hinv.progress htotal, fun event t' hstep => ?_⟩
  cases event with
  | client => exact work_clientStep hstep
  | reader => exact .inl (work_readerStep hstep)

/-- A stream cut in the middle of a sample, through a ring of three bytes. -/
theorem readLiveChunks_delivered_split :
    ∃ events t result, Run Step (start 3 (fun _ => 0) [[1, 0, 255, 127, 0], [], [128]]) events t ∧
      t.phase = .returned result ∧ t.reader.Delivered [1, 0, 255, 127, 0, 128] result := by
  have hcapacity : (0 : UInt64) < 3 := by decide
  obtain ⟨events, t, result, hrun, hphase⟩ :=
    (invariant_start hcapacity (fun _ => 0) [[1, 0, 255, 127, 0], [], [128]]).exists_returned
      (by decide)
  have hdelivered := readLiveChunks_delivered hcapacity (fun _ => 0)
    [[1, 0, 255, 127, 0], [], [128]] (by decide) hrun
  exact ⟨events, t, result, hrun, hphase, hdelivered.1 result hphase⟩

/-! ### Past the range of the offsets -/

/-- Everything pushed has been signalled, read, drained and flushed. -/
structure Synced (total : Bytes) (t : AudioTransport) : Prop where
  inv : t.Invariant total
  phase : t.phase = .reading
  signals : t.signals = []
  contents : t.ring.contents = []

theorem Invariant.exists_read (h : t.Invariant total) (hphase : t.phase = .reading)
    (hsignals : t.signals = [signalDataReady]) :
    ∃ t', Step t .reader t' ∧ t'.Invariant total ∧ t'.client = t.client ∧ t'.signals = [] ∧
      t'.phase = .draining false := by
  refine ⟨_, ?_, h.read hphase hsignals, rfl, rfl, rfl⟩
  simp [Step, AudioTransport.step, readerStep, hphase, hsignals]

theorem Invariant.exists_drain (h : t.Invariant total) (hphase : t.phase = .draining false) :
    ∃ t', Step t .reader t' ∧ t'.Invariant total ∧ t'.client = t.client ∧ t'.signals = t.signals ∧
      t'.phase = .flushing false ∧ t'.ring.contents = [] := by
  refine ⟨_, ?_, h.drain hphase, rfl, rfl, rfl, ?_⟩
  · simp [Step, AudioTransport.step, readerStep, hphase, SharedAudioRing.drainAvailable_eq h.valid,
      LiveReader.onDrained]
  · rw [← List.length_eq_zero_iff, SharedAudioRing.length_contents, Nat.sub_self]

theorem Invariant.exists_flush (h : t.Invariant total) (hphase : t.phase = .flushing false) :
    ∃ t', Step t .reader t' ∧ t'.Invariant total ∧ t'.client = t.client ∧ t'.signals = t.signals ∧
      t'.phase = .reading ∧ t'.ring = t.ring := by
  obtain ⟨full, hfull, -⟩ := h.bytes (by simp [hphase])
  obtain ⟨-, flushed, hflush, -, -⟩ := t.reader.flushPcmChunks_false hfull
  have hstep : t.readerStep = some { t with phase := .reading, reader := flushed } := by
    simp [readerStep, hphase, hflush, LiveReader.onFlushed]
  exact ⟨_, hstep, h.reader hstep, rfl, rfl, rfl, rfl⟩

theorem Synced.exists_push (h : t.Synced total) {rest : Bytes} {blocks : List Bytes}
    (hclient : t.client = .sending rest blocks) (hrest : rest ≠ [])
    (hmax : t.ring.writeOffset.toNat + rest.length < 2 ^ 64) :
    ∃ n t', 0 < n ∧ Step t .client t' ∧ t'.Invariant total ∧ t'.phase = .reading ∧
      t'.signals = [] ∧ t'.client = .signalling (rest.drop n) blocks := by
  obtain ⟨byte, rest, rfl⟩ := List.exists_cons_of_ne_nil hrest
  have hroom : 0 < min (byte :: rest).length t.ring.free := by
    have hlen := t.ring.length_contents
    have hcapacity := h.inv.valid.capacity_pos
    rw [h.contents, List.length_nil] at hlen
    simp only [SharedAudioRing.free, List.length_cons]
    omega
  obtain ⟨pushed, hpush, hinv⟩ := h.inv.push hclient hmax
  refine ⟨_, _, hroom, ?_, hinv, h.phase, h.signals, rfl⟩
  simp only [Step, AudioTransport.step, clientStep, hclient, hpush, hroom, if_true]

theorem Invariant.exists_signal (h : t.Invariant total) {rest : Bytes} {blocks : List Bytes}
    (hclient : t.client = .signalling rest blocks) :
    ∃ t', Step t .client t' ∧ t'.Invariant total ∧ t'.phase = t.phase ∧
      t'.signals = t.signals ++ [signalDataReady] ∧ t'.client = .sending rest blocks := by
  have hstep : t.clientStep = some
      { t with client := .sending rest blocks, signals := t.signals ++ [signalDataReady] } := by
    simp only [clientStep, hclient]
  exact ⟨_, hstep, h.client (by simp [hclient]) hstep, rfl, rfl, rfl⟩

/-- One push of the client followed by one round of the reader. -/
theorem Synced.round (h : t.Synced total) {rest : Bytes} {blocks : List Bytes}
    (hclient : t.client = .sending rest blocks) (hrest : rest ≠ [])
    (hmax : t.ring.writeOffset.toNat + rest.length < 2 ^ 64) :
    ∃ n events t', 0 < n ∧ Run Step t events t' ∧ t'.Synced total ∧
      t'.client = .sending (rest.drop n) blocks := by
  obtain ⟨n, t₁, hn, hstep₁, hinv₁, hphase₁, hsignals₁, hclient₁⟩ :=
    h.exists_push hclient hrest hmax
  obtain ⟨t₂, hstep₂, hinv₂, hphase₂, hsignals₂, hclient₂⟩ := hinv₁.exists_signal hclient₁
  rw [hphase₁] at hphase₂
  rw [hsignals₁, List.nil_append] at hsignals₂
  obtain ⟨t₃, hstep₃, hinv₃, hclient₃, hsignals₃, hphase₃⟩ := hinv₂.exists_read hphase₂ hsignals₂
  obtain ⟨t₄, hstep₄, hinv₄, hclient₄, hsignals₄, hphase₄, hcontents₄⟩ := hinv₃.exists_drain hphase₃
  obtain ⟨t₅, hstep₅, hinv₅, hclient₅, hsignals₅, hphase₅, hring₅⟩ := hinv₄.exists_flush hphase₄
  refine ⟨n, _, t₅, hn,
    .cons hstep₁ (.cons hstep₂ (.cons hstep₃ (.cons hstep₄ (.single hstep₅)))), ⟨hinv₅, hphase₅,
      hsignals₅.trans (hsignals₄.trans hsignals₃), hring₅ ▸ hcontents₄⟩, ?_⟩
  rw [hclient₅, hclient₄, hclient₃, hclient₂]

/-- A block goes through in rounds. -/
theorem Synced.exists_block (h : t.Synced total) (hmax : total.length ≤ 2 ^ 64) {rest : Bytes}
    {blocks : List Bytes} (hclient : t.client = .sending rest blocks) (hlast : blocks.flatten ≠ []) :
    ∃ events t', Run Step t events t' ∧ t'.Synced total ∧ t'.client = .sending [] blocks := by
  induction hlen : rest.length using Nat.strong_induction_on generalizing t rest with
  | _ length ih =>
      by_cases hrest : rest = []
      · exact ⟨_, t, .refl, h, by rw [hclient, hrest]⟩
      · have hoffset := h.inv.offset
        have hpos := List.length_pos_iff.mpr hlast
        rw [hclient, SenderPhase.unsent, List.length_append] at hoffset
        obtain ⟨n, events, t', hn, hrun, hsynced, hclient'⟩ := h.round hclient hrest (by omega)
        have hshorter : (rest.drop n).length < length := by
          have hrestPos := List.length_pos_iff.mpr hrest
          rw [List.length_drop]
          omega
        obtain ⟨more, t'', hmore, hdone⟩ := ih _ hshorter hsynced hclient' rfl
        exact ⟨_, t'', hrun.trans hmore, hdone⟩

/-- All blocks before the last one go through. -/
theorem Synced.exists_blocks (hmax : total.length ≤ 2 ^ 64) {last : Bytes} (hlast : last ≠ [])
    (blocks : List Bytes) :
    ∀ {t : AudioTransport}, t.Synced total → t.client = .sending [] (blocks ++ [last]) →
      ∃ events t', Run Step t events t' ∧ t'.Synced total ∧ t'.client = .sending [] [last] := by
  induction blocks with
  | nil =>
      intro t h hclient
      exact ⟨_, t, .refl, h, hclient⟩
  | cons block blocks ih =>
      intro t h hclient
      have hstep : Step t .client { t with client := .sending block (blocks ++ [last]) } := by
        simp only [Step, step, clientStep, hclient, List.cons_append]
      have hroom : ∀ rest next, t.client = .sending rest next →
          t.ring.writeOffset.toNat + rest.length < 2 ^ 64 := by
        intro rest next hnext
        obtain ⟨rfl, -⟩ : [] = rest ∧ _ := by simpa [hclient] using hnext
        exact t.ring.writeOffset.toNat_lt
      have hsynced : { t with client := .sending block (blocks ++ [last]) }.Synced total :=
        ⟨h.inv.client hroom hstep, h.phase, h.signals, h.contents⟩
      obtain ⟨events, t', hrun, hsynced', hclient'⟩ :=
        hsynced.exists_block hmax rfl (by simp [hlast])
      obtain ⟨more, t'', hmore, hdone⟩ := ih hsynced' hclient'
      exact ⟨_, t'', (Run.cons hstep hrun).trans hmore, hdone⟩

/-- Once the write offset has wrapped around, the reader finds nothing in the ring any more and
returns with what it had received before. -/
theorem exists_returned_of_wrapped {ring : SharedAudioRing} {reader : LiveReader}
    {full : List Bytes} (hwrapped : ring.writeOffset ≤ ring.readOffset)
    (hfull : reader.Holds full) :
    ∃ events t' result, Run Step ⟨ring, .signalling [] [], [], reader, .reading⟩ events t' ∧
      t'.phase = .returned result ∧ t'.reader.Delivered (full.flatten ++ reader.pcm) result := by
  have hdrain := SharedAudioRing.drainAvailable_of_le hwrapped
  obtain ⟨full', flushed, hflush, hfull', hsame⟩ := reader.flushPcmChunks_false hfull
  obtain ⟨result, last, hlast, hdelivered⟩ := flushed.flushPcmChunks_true hfull'
  rw [hsame] at hdelivered
  have hround : Run Step ⟨ring, .signalling [] [], [], reader, .reading⟩
      [.client, .reader, .reader, .reader] ⟨ring, .sending [] [], [], flushed, .reading⟩ := by
    refine Run.of_foldlM (fun _ _ _ h => h) ?_
    simp [step, clientStep, readerStep, LiveReader.onRead, hdrain, LiveReader.onDrained, hflush,
      LiveReader.onFlushed]
  have hend : Run Step ⟨ring, .sending [] [], [], flushed, .reading⟩
      [.client, .reader, .reader, .reader] ⟨ring, .finished, [], last,
        .returned (result.map fun _ => .completed last.stats)⟩ := by
    refine Run.of_foldlM (fun _ _ _ h => h) ?_
    cases result <;>
      simp [step, clientStep, readerStep, LiveReader.onRead, hdrain, LiveReader.onDrained, hlast,
        LiveReader.onFlushed, signalEndOfStream, signalDataReady, Except.map]
  exact ⟨_, _, _, hround.trans hend, rfl, hdelivered⟩

/-- A stream of `2 ^ 64` bytes whose last byte is pushed by a call of its own. -/
def wrappingBlocks : List Bytes :=
  [List.replicate isizeMax 0, List.replicate isizeMax 0, [0]] ++ [[0]]

theorem length_wrappingBlocks : wrappingBlocks.flatten.length = 2 ^ 64 := by
  simp only [wrappingBlocks, List.cons_append, List.nil_append, List.flatten_cons, List.flatten_nil,
    List.length_append, List.length_replicate]
  rfl

/-- The last of `2 ^ 64` bytes moves the write offset back to zero. The reader takes the ring for
empty, ends with an odd number of bytes and fails, on a stream of even length. -/
theorem not_delivered_wrappingBlocks :
    (∀ block ∈ wrappingBlocks, block.length ≤ isizeMax) ∧
    ∃ events t result,
      Run Step (start (UInt64.ofNat ringDataBytes) (fun _ => 0) wrappingBlocks) events t ∧
        t.phase = .returned result ∧ ¬ t.reader.Delivered wrappingBlocks.flatten result := by
  have hlength := length_wrappingBlocks
  constructor
  · intro block hmem
    simp only [wrappingBlocks, List.mem_append, List.mem_cons, List.not_mem_nil, or_false] at hmem
    obtain (rfl | rfl | rfl) | rfl := hmem
    · rw [List.length_replicate]
    · rw [List.length_replicate]
    · decide
    · decide
  have hstart : (start (UInt64.ofNat ringDataBytes) (fun _ => 0) wrappingBlocks).Synced
      wrappingBlocks.flatten :=
    ⟨invariant_start (by decide) _ _, rfl, rfl, SharedAudioRing.contents_initHeader _⟩
  obtain ⟨events, t, hrun, hsynced, hclient⟩ :=
    Synced.exists_blocks hlength.le (List.cons_ne_nil 0 []) _ hstart (congrArg _ wrappingBlocks.eq_1)
  -- The last block is one byte, and it is the one that wraps the offset.
  have hoffset := hsynced.inv.offset
  rw [hclient, hlength] at hoffset
  obtain ⟨pushed, hpush, hwrite, hread⟩ :=
    SharedAudioRing.pushAvailable_singleton hsynced.inv.valid hsynced.contents 0
  have hwrapped : pushed.writeOffset ≤ pushed.readOffset := by
    rw [UInt64.le_iff_toNat_le, hwrite, UInt64.toNat_add]
    simp only [SenderPhase.unsent, List.nil_append, List.flatten_singleton,
      List.length_singleton] at hoffset
    have hone : (1 : UInt64).toNat = 1 := rfl
    omega
  obtain ⟨full, hfull, hbytes⟩ := hsynced.inv.bytes (by simp [hsynced.phase])
  have hreceived : (full.flatten ++ t.reader.pcm).length = 2 ^ 64 - 1 := by
    have htotal := congrArg List.length hbytes
    rw [hsynced.contents, hclient, hlength, SenderPhase.unsent, List.append_nil,
      List.length_append] at htotal
    simp only [List.nil_append, List.flatten_singleton, List.length_singleton] at htotal
    omega
  obtain ⟨more, t', result, hrest, hphase, hdelivered⟩ :=
    exists_returned_of_wrapped hwrapped hfull
  have hlast : Run Step t [.client, .client]
      ⟨pushed, .signalling [] [], [], t.reader, .reading⟩ := by
    refine Run.of_foldlM (fun _ _ _ h => h) ?_
    simp [step, clientStep, hclient, hpush, hsynced.phase, hsynced.signals]
  refine ⟨_, t', result, (hrun.trans hlast).trans hrest, hphase, fun hwhole => ?_⟩
  obtain ⟨hok, -⟩ := hwhole.of_even (by rw [hlength]; decide)
  obtain ⟨error, herror, -⟩ := hdelivered.of_odd (by rw [hreceived]; decide)
  rw [hok] at herror
  cases herror

end AudioTransport

end RkWhisper
