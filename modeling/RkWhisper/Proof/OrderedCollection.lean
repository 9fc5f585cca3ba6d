import RkWhisper.ParallelTranscriber
import RkWhisper.Proof.FixedWindows

/-!
# Results in any order

The windows of a recording are numbered from zero. Whatever the order in which their results come in,
they leave the collector in the order of their numbers, so that the parallel driver builds the text
and the segments that the sequential driver builds.
-/

namespace RkWhisper

/-! ### The numbers of the windows -/

/-- The windows are numbered in order. -/
def Numbered (windows : List AudioWindow) : Prop :=
  windows.map AudioWindow.index = List.range windows.length

theorem numbered_fixedAudioWindows (audioLen : Nat) : Numbered (fixedAudioWindows audioLen) := by
  apply List.ext_getElem?
  intro i
  rw [fixedAudioWindows, List.map_map, List.length_map, List.length_zipIdx, List.getElem?_map,
    List.getElem?_zipIdx]
  by_cases hi : i < (Stride.starts nSamples audioLen).length
  · rw [List.getElem?_eq_getElem hi, List.getElem?_range hi]
    simp
  · rw [List.getElem?_eq_none (not_lt.mp hi), List.getElem?_eq_none (by simpa using not_lt.mp hi)]
    rfl

namespace WindowGroup

theorem numbered_pushWindow {windows : List AudioWindow} (h : Numbered windows)
    (startSample endSample : Nat) : Numbered (pushWindow windows startSample endSample) := by
  rw [Numbered, pushWindow, List.map_append, h, List.length_append, List.length_singleton,
    List.range_succ]
  rfl

theorem numbered_flush {group : WindowGroup} (h : Numbered group.windows) :
    Numbered group.flush.windows := by
  rw [flush]
  split
  · exact numbered_pushWindow h ..
  · exact h

theorem numbered_split (stop rounds start : Nat) {windows : List AudioWindow}
    (h : Numbered windows) : Numbered (split stop rounds start windows) := by
  induction rounds generalizing start windows with
  | zero => exact h
  | succ rounds ih =>
      rw [split]
      split
      · exact ih _ (numbered_pushWindow h ..)
      · exact h

theorem numbered_next {group : WindowGroup} (h : Numbered group.windows) (segment : VadSegment) :
    Numbered (group.next segment).windows := by
  simp only [next]
  split
  · exact numbered_split _ _ _ (numbered_flush h)
  · split
    · exact numbered_flush h
    · exact h

end WindowGroup

theorem numbered_vadAudioWindows (vadSegments : List VadSegment) :
    Numbered (vadAudioWindows vadSegments) := by
  have hfold : ∀ (segments : List VadSegment) (group : WindowGroup), Numbered group.windows →
      Numbered (segments.foldl WindowGroup.next group).windows := by
    intro segments
    induction segments with
    | nil => exact fun _ h => h
    | cons segment segments ih => exact fun group h => ih _ (WindowGroup.numbered_next h segment)
  exact WindowGroup.numbered_flush (hfold vadSegments {} rfl)

theorem numbered_transcriptionWindows (audioLen : Nat) (vadSegments : List VadSegment) :
    Numbered (transcriptionWindows audioLen vadSegments) := by
  rw [transcriptionWindows]
  split
  · exact numbered_fixedAudioWindows audioLen
  · exact numbered_vadAudioWindows vadSegments

theorem Numbered.index {windows : List AudioWindow} (h : Numbered windows) {i : Nat}
    {window : AudioWindow} (hi : windows[i]? = some window) : window.index = i := by
  have hlt : i < windows.length := (List.getElem?_eq_some_iff.mp hi).1
  have hindex : (windows.map AudioWindow.index)[i]? = some window.index := by
    rw [List.getElem?_map, hi]
    rfl
  rw [h, List.getElem?_range hlt] at hindex
  exact (Option.some.inj hindex).symm

/-! ### The windows lie in the recording -/

/-- A slice of the recording can be taken here. -/
def Inside (audioLen startSample endSample : Nat) : Prop :=
  startSample ≤ endSample ∧ endSample ≤ audioLen

/-- The windows so far, and the group under way, end before `bound`. -/
structure WindowGroup.Fits (audioLen bound : Nat) (group : WindowGroup) : Prop where
  windows : ∀ window ∈ group.windows, Inside audioLen window.startSample window.endSample
  group : ∀ start, group.groupStart = some start →
    Inside audioLen start group.groupEnd ∧ group.groupEnd ≤ bound

namespace WindowGroup

variable {audioLen bound : Nat} {group : WindowGroup}

theorem inside_pushWindow {windows : List AudioWindow} {startSample endSample : Nat}
    (h : ∀ window ∈ windows, Inside audioLen window.startSample window.endSample)
    (hinside : Inside audioLen startSample endSample) :
    ∀ window ∈ pushWindow windows startSample endSample,
      Inside audioLen window.startSample window.endSample := by
  intro window hwindow
  obtain hwindow | hwindow := List.mem_append.mp hwindow
  · exact h window hwindow
  · rw [List.mem_singleton.mp hwindow]
    exact hinside

theorem Fits.flush (h : Fits audioLen bound group) : Fits audioLen bound group.flush ∧
    group.flush.groupStart = none := by
  rw [WindowGroup.flush]
  split
  · rename_i start hstart
    exact ⟨⟨inside_pushWindow h.windows (h.group start hstart).1, nofun⟩, rfl⟩
  · rename_i hstart
    exact ⟨h, hstart⟩

theorem inside_split {stop rounds start : Nat} {windows : List AudioWindow} (hstop : stop ≤ audioLen)
    (h : ∀ window ∈ windows, Inside audioLen window.startSample window.endSample) :
    ∀ window ∈ split stop rounds start windows,
      Inside audioLen window.startSample window.endSample := by
  induction rounds generalizing start windows with
  | zero => exact h
  | succ rounds ih =>
      rw [split]
      split
      · refine ih (inside_pushWindow h ⟨?_, ?_⟩) <;> simp only [nSamples, sampleRate] <;> omega
      · exact h

theorem Fits.next (h : Fits audioLen bound group) {segment : VadSegment}
    (hafter : bound ≤ segment.startSample)
    (hinside : Inside audioLen segment.startSample segment.endSample) :
    Fits audioLen segment.endSample (group.next segment) := by
  obtain ⟨hle, hend⟩ := hinside
  obtain ⟨hflush, hnone⟩ := h.flush
  have hjoin : ∀ {group : WindowGroup} (groupSpeech : Nat), Fits audioLen bound group →
      Fits audioLen segment.endSample
        { group with
          groupStart := some (group.groupStart.getD segment.startSample)
          groupEnd := segment.endSample
          groupSpeech } := by
    intro group groupSpeech hfits
    refine ⟨hfits.windows, fun start hstart => ⟨⟨?_, hend⟩, le_rfl⟩⟩
    obtain rfl := Option.some.inj hstart
    cases hgroup : group.groupStart with
    | none => exact hle
    | some begun =>
        have hbegun := hfits.group begun hgroup
        exact hbegun.1.1.trans (hbegun.2.trans (hafter.trans hle))
  simp only [WindowGroup.next]
  split
  · refine ⟨inside_split hend hflush.windows, fun start hstart => ?_⟩
    rw [hnone] at hstart
    cases hstart
  · split
    · exact hjoin _ hflush
    · exact hjoin _ h

end WindowGroup

/-- **No slice is out of range**: speech segments that lie in the recording one after the other give
windows that lie in it. -/
theorem inside_transcriptionWindows {audioLen : Nat} {vadSegments : List VadSegment}
    (hsorted : vadSegments.Pairwise fun segment later => segment.endSample ≤ later.startSample)
    (hinside : ∀ segment ∈ vadSegments,
      Inside audioLen segment.startSample segment.endSample) :
    ∀ window ∈ transcriptionWindows audioLen vadSegments,
      Inside audioLen window.startSample window.endSample := by
  have hfold : ∀ (segments : List VadSegment) (bound : Nat) (group : WindowGroup),
      WindowGroup.Fits audioLen bound group →
      (∀ segment ∈ segments, bound ≤ segment.startSample) →
      segments.Pairwise (fun segment later => segment.endSample ≤ later.startSample) →
      (∀ segment ∈ segments, Inside audioLen segment.startSample segment.endSample) →
      ∃ bound, WindowGroup.Fits audioLen bound (segments.foldl WindowGroup.next group) := by
    intro segments
    induction segments with
    | nil => exact fun bound _ h _ _ _ => ⟨bound, h⟩
    | cons segment segments ih =>
        intro bound group h hbound hsorted hinside
        obtain ⟨hlater, hsorted⟩ := List.pairwise_cons.mp hsorted
        exact ih segment.endSample _
          (h.next (hbound segment List.mem_cons_self) (hinside segment List.mem_cons_self)) hlater
          hsorted fun later hmem => hinside later (List.mem_cons_of_mem _ hmem)
  rw [transcriptionWindows]
  split
  · intro window hwindow
    obtain ⟨i, hi⟩ := List.mem_iff_getElem?.mp hwindow
    have hlt : i < Stride.count nSamples audioLen := by
      rw [← length_fixedAudioWindows]
      exact (List.getElem?_eq_some_iff.mp hi).1
    have hbegin := (Stride.lt_count_iff (by decide)).mp hlt
    rw [getElem?_fixedAudioWindows hlt] at hi
    obtain rfl := Option.some.inj hi
    exact ⟨le_min (Nat.le_add_right _ _) hbegin.le, min_le_right _ _⟩
  · have hstart : WindowGroup.Fits audioLen 0 {} :=
      ⟨fun _ hmem => absurd hmem List.not_mem_nil, nofun⟩
    obtain ⟨bound, hfits⟩ :=
      hfold vadSegments 0 {} hstart (fun _ _ => Nat.zero_le _) hsorted hinside
    exact hfits.flush.1.windows

/-! ### The collector -/

open ReorderBuffer (inOrder Holds)

/-- The text of these windows, one after the other. -/
def joinTexts (results : List WindowTranscription) : String :=
  results.foldl (fun text result => text ++ result.text ++ " ") ""

def joinSegments (results : List WindowTranscription) : List TranscriptSegment :=
  results.flatMap WindowTranscription.segments

theorem joinTexts_concat (results : List WindowTranscription) (result : WindowTranscription) :
    joinTexts (results ++ [result]) = joinTexts results ++ result.text ++ " " := by
  rw [joinTexts, List.foldl_append]
  rfl

namespace Collector

variable {onSegment : SegmentCallback} {arrived : Nat → Option WindowTranscription}
  {collector : Collector}

theorem notify_spec (onSegment : SegmentCallback) (notified segments : List TranscriptSegment) :
    ∃ called, called <+: segments ∧ (notify onSegment notified segments).1 = notified ++ called ∧
      ((notify onSegment notified segments).2 = none → called = segments) := by
  induction segments generalizing notified with
  | nil => exact ⟨[], List.prefix_rfl, (List.append_nil _).symm, fun _ => rfl⟩
  | cons segment segments ih =>
      rw [notify]
      split
      · obtain ⟨called, hbegins, hcalled, hall⟩ := ih (notified ++ [segment])
        refine ⟨segment :: called, List.cons_prefix_cons.mpr ⟨rfl, hbegins⟩, ?_, ?_⟩
        · rw [hcalled, List.append_assoc]
          rfl
        · exact fun hnone => congrArg (segment :: ·) (hall hnone)
      · exact ⟨[segment], List.cons_prefix_cons.mpr ⟨rfl, List.nil_prefix⟩, rfl, nofun⟩

theorem notify_of_accepts (haccepts : ∀ notified segment, onSegment notified segment = .ok ())
    (notified segments : List TranscriptSegment) :
    (notify onSegment notified segments).2 = none := by
  induction segments generalizing notified with
  | nil => rfl
  | cons segment segments ih =>
      rw [notify, haccepts]
      exact ih _

/-- No error so far: all that is handed on is in the text, in the segments, and notified. -/
structure Collects (arrived : Nat → Option WindowTranscription) (collector : Collector) : Prop where
  holds : Holds arrived collector.toReorderBuffer
  fullText : collector.fullText = joinTexts (inOrder arrived collector.next)
  segments : collector.segments = joinSegments (inOrder arrived collector.next)
  notified : collector.notified = collector.segments
  failed : collector.failed = none

/-- What has been notified belongs to windows that have arrived, in their order. -/
def Reported (arrived : Nat → Option WindowTranscription) (collector : Collector) : Prop :=
  ∃ count, (∀ index < count, (arrived index).isSome = true) ∧
    collector.notified <+: joinSegments (inOrder arrived count)

theorem Collects.reported (h : Collects arrived collector) : Reported arrived collector :=
  ⟨collector.next, h.holds.handedOn, by rw [h.notified, h.segments]⟩

theorem Collects.emitResult (h : Collects arrived collector) {result : WindowTranscription}
    (hnext : collector.pending[collector.next]? = some result) (onSegment : SegmentCallback) :
    Reported arrived (collector.emitResult onSegment result) ∧
      ((collector.emitResult onSegment result).failed = none →
        Collects arrived (collector.emitResult onSegment result) ∧
        (collector.emitResult onSegment result).toReorderBuffer = collector.advance) := by
  have harrived : arrived collector.next = some result := h.holds.next.symm.trans hnext
  have horder := ReorderBuffer.inOrder_succ harrived
  have hsegments : joinSegments (inOrder arrived (collector.next + 1)) =
      collector.notified ++ result.segments := by
    rw [horder, joinSegments, List.flatMap_append, h.notified, h.segments, List.flatMap_singleton]
    rfl
  obtain ⟨called, hbegins, hcalled, hall⟩ :=
    notify_spec onSegment collector.notified result.segments
  have hreported : ∀ collector' : Collector, collector'.notified = collector.notified ++ called →
      Reported arrived collector' := by
    intro collector' hnotified
    refine ⟨collector.next + 1, (h.holds.advance hnext).handedOn, ?_⟩
    rw [hnotified, hsegments, List.prefix_append_right_inj]
    exact hbegins
  rw [Collector.emitResult]
  split
  · rename_i notified error hnotify
    rw [hnotify] at hcalled
    exact ⟨hreported _ hcalled, nofun⟩
  · rename_i notified hnotify
    rw [hnotify] at hcalled hall
    refine ⟨hreported _ hcalled, fun _ => ⟨⟨h.holds.advance hnext, ?_, ?_, ?_, h.failed⟩, rfl⟩⟩
    · change collector.fullText ++ result.text ++ " " = joinTexts (inOrder arrived (collector.next + 1))
      rw [horder, joinTexts_concat, h.fullText]
    · change collector.segments ++ result.segments = joinSegments (inOrder arrived (collector.next + 1))
      rw [hsegments, h.notified]
    · exact hcalled.trans (by rw [hall rfl, h.notified])

/-- The rounds go on until the next result is missing, or the callback fails. -/
theorem Collects.emitResults (h : Collects arrived collector) (onSegment : SegmentCallback)
    {rounds : Nat} (hrounds : collector.pending.size ≤ rounds) :
    Reported arrived (emitResults onSegment rounds collector) ∧
      ((emitResults onSegment rounds collector).failed = none →
        Collects arrived (emitResults onSegment rounds collector) ∧
        arrived (emitResults onSegment rounds collector).next = none) := by
  induction rounds generalizing collector with
  | zero =>
      have hempty := ReorderBuffer.getElem?_of_size_eq_zero (Nat.le_zero.mp hrounds) collector.next
      exact ⟨h.reported, fun _ => ⟨h, h.holds.next.symm.trans hempty⟩⟩
  | succ rounds ih =>
      rw [Collector.emitResults]
      cases hnext : collector.pending[collector.next]? with
      | none => exact ⟨h.reported, fun _ => ⟨h, h.holds.next.symm.trans hnext⟩⟩
      | some result =>
          obtain ⟨hreported, hgoes⟩ := h.emitResult hnext onSegment
          simp only
          split
          · rename_i hfailed
            refine ⟨hreported, fun hnone => ?_⟩
            rw [hnone] at hfailed
            cases hfailed
          · rename_i hfailed
            obtain ⟨hcollects, hbuffer⟩ := hgoes (Option.not_isSome_iff_eq_none.mp hfailed)
            apply ih hcollects
            have hsize := ReorderBuffer.size_advance hnext
            rw [hbuffer]
            omega

theorem emitResults_of_accepts (haccepts : ∀ notified segment, onSegment notified segment = .ok ())
    (rounds : Nat) {collector : Collector} (hfailed : collector.failed = none) :
    (emitResults onSegment rounds collector).failed = none := by
  induction rounds generalizing collector with
  | zero => exact hfailed
  | succ rounds ih =>
      rw [emitResults]
      split
      · exact hfailed
      · rename_i result hnext
        have hemitted : (collector.emitResult onSegment result).failed = none := by
          have hnone := notify_of_accepts haccepts collector.notified result.segments
          rw [emitResult]
          split
          · rename_i notified error hnotify
            rw [hnotify] at hnone
            cases hnone
          · exact hfailed
        simp only [hemitted, Option.isSome_none, Bool.false_eq_true, if_false]
        exact ih hemitted

/-- The windows whose results come in. -/
def whisperOf : Except Error NpuResult → Option WindowTranscription
  | .ok (.whisper result) => some result.transcription
  | .ok (.vad _) => none
  | .error _ => none

/-- What a collector knows that has not failed and waits for its next result. -/
structure Waits (received : List WindowTranscription) (collector : Collector) : Prop where
  collects : Collects (answerTo received) collector
  missing : answerTo received collector.next = none

theorem answerTo_concat {received : List WindowTranscription} {result : WindowTranscription}
    (hfresh : answerTo received result.windowIndex = none) :
    answerTo (received ++ [result]) =
      Function.update (answerTo received) result.windowIndex (some result) := by
  funext index
  rw [answerTo_append]
  by_cases hindex : index = result.windowIndex
  · rw [hindex, hfresh, Function.update_self, if_pos rfl]
    rfl
  · rw [Function.update_of_ne hindex, if_neg (Ne.symm hindex), Option.or_none]

/-- A result comes in whose window has not been answered before. -/
theorem Waits.receive {received : List WindowTranscription} (h : Waits received collector)
    (onSegment : SegmentCallback) (result : Except Error NpuResult)
    (hfresh : ∀ transcription ∈ whisperOf result,
      answerTo received transcription.windowIndex = none) :
    Reported (answerTo (received ++ (whisperOf result).toList))
        (collector.receive onSegment result) ∧
      ((collector.receive onSegment result).failed = none →
        Waits (received ++ (whisperOf result).toList) (collector.receive onSegment result)) := by
  match result with
  | .error error =>
      rw [whisperOf, Option.toList_none, List.append_nil]
      exact ⟨h.collects.reported, nofun⟩
  | .ok (.vad result) =>
      rw [whisperOf, Option.toList_none, List.append_nil]
      exact ⟨h.collects.reported, fun _ => h⟩
  | .ok (.whisper ⟨jobId, transcription⟩) =>
      have hnew := hfresh transcription rfl
      have hinserted : Collects (answerTo (received ++ [transcription])) { collector with
          toReorderBuffer := collector.insert transcription.windowIndex transcription } := by
        rw [answerTo_concat hnew]
        have hsame := h.collects.holds.inOrder_update hnew transcription
        refine ⟨h.collects.holds.insert hnew transcription, ?_, ?_, h.collects.notified,
          h.collects.failed⟩
        · exact h.collects.fullText.trans (congrArg joinTexts hsame.symm)
        · exact h.collects.segments.trans (congrArg joinSegments hsame.symm)
      obtain ⟨hreported, hgoes⟩ := hinserted.emitResults onSegment le_rfl
      exact ⟨hreported, fun hnone => ⟨(hgoes hnone).1, (hgoes hnone).2⟩⟩

theorem failed_receive_of_accepts
    (haccepts : ∀ notified segment, onSegment notified segment = .ok ())
    (hfailed : collector.failed = none) {result : Except Error NpuResult}
    (hresult : ∀ error, result ≠ .error error) :
    (collector.receive onSegment result).failed = none := by
  match result with
  | .error error => exact absurd rfl (hresult error)
  | .ok (.vad _) => exact hfailed
  | .ok (.whisper result) => exact emitResults_of_accepts haccepts _ hfailed

theorem done_eq_true {totalWindows : Nat} : collector.done totalWindows = true ↔
    collector.failed ≠ none ∨ totalWindows ≤ collector.next := by
  rw [done, Bool.or_eq_true, decide_eq_true_eq, Option.isSome_iff_ne_none]

end Collector

open Collector

variable {onSegment : SegmentCallback} {collector : Collector} {totalWindows : Nat}
  {received : List WindowTranscription} {resultRx : List (Except Error NpuResult)}

theorem collectOrdered_of_done (hdone : collector.done totalWindows = true) :
    collectOrdered onSegment totalWindows resultRx collector = collector := by
  cases resultRx with
  | nil => rw [collectOrdered, if_pos hdone]
  | cons result resultRx => rw [collectOrdered, if_pos hdone]

theorem filterMap_whisperOf_cons (result : Except Error NpuResult)
    (resultRx : List (Except Error NpuResult)) : (result :: resultRx).filterMap whisperOf =
      (whisperOf result).toList ++ resultRx.filterMap whisperOf := by
  rw [List.filterMap_cons]
  cases whisperOf result <;> rfl

/-- No window is answered twice. -/
theorem fresh_of_nodup {result : Except Error NpuResult} {rest : List WindowTranscription}
    (hnodup : ((received ++ (whisperOf result).toList ++ rest).map
      WindowTranscription.windowIndex).Nodup) :
    ∀ transcription ∈ whisperOf result, answerTo received transcription.windowIndex = none := by
  intro transcription htranscription
  rw [htranscription, List.map_append, List.map_append] at hnodup
  rw [answerTo_eq_none]
  intro hmem
  exact List.disjoint_of_nodup_append hnodup.of_append_left hmem (List.mem_singleton_self _)

/-- **What a whole collection does.** Without an error all windows have been handed on; with one,
those that have been notified are the first ones. -/
theorem collectOrdered_spec (h : Waits received collector) (onSegment : SegmentCallback)
    (hnodup : ((received ++ resultRx.filterMap whisperOf).map
      WindowTranscription.windowIndex).Nodup) :
    ∃ received' ⊆ received ++ resultRx.filterMap whisperOf,
      (received'.map WindowTranscription.windowIndex).Nodup ∧
      Reported (answerTo received') (collectOrdered onSegment totalWindows resultRx collector) ∧
      ((collectOrdered onSegment totalWindows resultRx collector).failed = none →
        Waits received' (collectOrdered onSegment totalWindows resultRx collector) ∧
        totalWindows ≤ (collectOrdered onSegment totalWindows resultRx collector).next) := by
  induction resultRx generalizing collector received with
  | nil =>
      refine ⟨received, List.subset_append_left .., ?_, ?_⟩
      · simpa using hnodup
      · rw [collectOrdered]
        split
        · rename_i hdone
          refine ⟨h.collects.reported, fun hnone => ⟨h, ?_⟩⟩
          obtain hfailed | hle := done_eq_true.mp hdone
          · exact absurd hnone hfailed
          · exact hle
        · exact ⟨h.collects.reported, nofun⟩
  | cons result resultRx ih =>
      rw [collectOrdered]
      split
      · rename_i hdone
        refine ⟨received, List.subset_append_left .., ?_, h.collects.reported, fun hnone => ⟨h, ?_⟩⟩
        · rw [List.map_append] at hnodup
          exact hnodup.of_append_left
        · obtain hfailed | hle := done_eq_true.mp hdone
          · exact absurd hnone hfailed
          · exact hle
      · rw [filterMap_whisperOf_cons, ← List.append_assoc] at hnodup ⊢
        obtain ⟨hreported, hwaits⟩ := h.receive onSegment result (fresh_of_nodup hnodup)
        by_cases hfailed : (collector.receive onSegment result).failed = none
        · exact ih (hwaits hfailed) hnodup
        · rw [collectOrdered_of_done (done_eq_true.mpr (.inl hfailed))]
          refine ⟨_, List.subset_append_left .., ?_, hreported, fun hnone => absurd hnone hfailed⟩
          rw [List.map_append] at hnodup
          exact hnodup.of_append_left

/-- Nothing can fail, and no window is missing. -/
theorem failed_collectOrdered_of_accepts
    (haccepts : ∀ notified segment, onSegment notified segment = .ok ())
    (h : Waits received collector) (hresults : ∀ error, .error error ∉ resultRx)
    (hnodup : ((received ++ resultRx.filterMap whisperOf).map
      WindowTranscription.windowIndex).Nodup)
    (hall : ∀ index < totalWindows, index ∈ (received ++ resultRx.filterMap whisperOf).map
      WindowTranscription.windowIndex) :
    (collectOrdered onSegment totalWindows resultRx collector).failed = none := by
  induction resultRx generalizing collector received with
  | nil =>
      rw [collectOrdered]
      split
      · exact h.collects.failed
      · rename_i hdone
        -- The channel is empty before the last window has come: but all have come.
        have hlt : collector.next < totalWindows := by
          by_contra hle
          exact hdone (done_eq_true.mpr (.inr (not_lt.mp hle)))
        have hmem := hall collector.next hlt
        rw [List.filterMap_nil, List.append_nil] at hmem
        exact absurd hmem (answerTo_eq_none.mp h.missing)
  | cons result resultRx ih =>
      rw [collectOrdered]
      split
      · exact h.collects.failed
      · rw [filterMap_whisperOf_cons, ← List.append_assoc] at hnodup hall
        have hreceived : (collector.receive onSegment result).failed = none :=
          failed_receive_of_accepts haccepts h.collects.failed
            fun error heq => hresults error (heq ▸ List.mem_cons_self)
        refine ih ((h.receive onSegment result ?_).2 hreceived)
          (fun error hmem => hresults error (List.mem_cons_of_mem _ hmem)) hnodup hall
        exact fresh_of_nodup hnodup

/-! ### The sequential driver -/

section Drivers

variable {model : WindowModel} {options : TranscribeOptions} {audio : List F32}
  {windows : List AudioWindow} {vadSegments : List VadSegment}

/-- What becomes of a window. -/
def made (model : WindowModel) (options : TranscribeOptions) (audio : List F32)
    (window : AudioWindow) : Except Error WindowTranscription :=
  transcribeAudioWindow model audio window (samplesToSec window.startSample) options

theorem windowIndex_of_made {window : AudioWindow} {result : WindowTranscription}
    (h : made model options audio window = .ok result) : result.windowIndex = window.index := by
  rw [made, transcribeAudioWindow, transcribeWindowSamples] at h
  cases hmodel : model options (window.samples audio) window.index (samplesToSec window.startSample)
      window.startSample window.endSample with
  | error error =>
      rw [hmodel] at h
      cases h
  | ok transcribed =>
      rw [hmodel] at h
      cases h
      rfl

def assemble (vadSegments : List VadSegment) (results : List WindowTranscription) :
    Transcription :=
  { text := trim (joinTexts results), segments := joinSegments results, vadSegments }

theorem exists_made {results : List WindowTranscription}
    (h : List.Forall₂ (fun window result => made model options audio window = .ok result) windows
      results)
    {window : AudioWindow} (hwindow : window ∈ windows) :
    ∃ result, made model options audio window = .ok result := by
  induction h with
  | nil => cases hwindow
  | cons hmade _ ih =>
      obtain rfl | hwindow := List.mem_cons.mp hwindow
      · exact ⟨_, hmade⟩
      · exact ih hwindow

/-- The segments of the windows before the first that fails. -/
def segmentsInOrder (model : WindowModel) (options : TranscribeOptions) (audio : List F32) :
    List AudioWindow → List TranscriptSegment
  | [] => []
  | window :: windows =>
      match made model options audio window with
      | .ok result => result.segments ++ segmentsInOrder model options audio windows
      | .error _ => []

theorem prefix_segmentsInOrder {results : List WindowTranscription} {count : Nat}
    (h : List.Forall₂ (fun window result => made model options audio window = .ok result)
      (windows.take count) results) :
    joinSegments results <+: segmentsInOrder model options audio windows := by
  induction windows generalizing results count with
  | nil =>
      rw [List.take_nil] at h
      cases h
      exact List.prefix_rfl
  | cons window windows ih =>
      cases count with
      | zero =>
          cases h
          exact List.nil_prefix
      | succ count =>
          rw [List.take_succ_cons] at h
          cases h with
          | cons hmade hrest =>
              rw [segmentsInOrder, hmade, joinSegments, List.flatMap_cons,
                List.prefix_append_right_inj]
              exact ih hrest

/-- The loop of the sequential driver from any text and segments on. -/
theorem foldlM_windows (fullText : String) (segments : List TranscriptSegment) :
    let transcribed := windows.foldlM (m := Except Error) (fun (fullText, segments) window =>
      (made model options audio window).map fun result =>
        (fullText ++ result.text ++ " ", segments ++ result.segments)) (fullText, segments)
    (∃ results, List.Forall₂ (fun window result => made model options audio window = .ok result) windows
        results ∧
      transcribed = .ok (results.foldl (fun text result => text ++ result.text ++ " ") fullText,
        segments ++ joinSegments results)) ∨
    ∃ error, transcribed = .error error ∧ ∃ window ∈ windows, made model options audio window =
      .error error := by
  induction windows generalizing fullText segments with
  | nil => exact .inl ⟨[], .nil, by rw [joinSegments, List.flatMap_nil, List.append_nil]; rfl⟩
  | cons window windows ih =>
      simp only [List.foldlM_cons]
      cases hmade : made model options audio window with
      | error error => exact .inr ⟨error, rfl, window, List.mem_cons_self, hmade⟩
      | ok result =>
          obtain ⟨results, hresults, hfold⟩ | ⟨error, hfold, failed, hmem, hfailed⟩ :=
            ih (fullText ++ result.text ++ " ") (segments ++ result.segments)
          · refine .inl ⟨result :: results, .cons hmade hresults, hfold.trans ?_⟩
            rw [List.append_assoc]
            rfl
          · exact .inr ⟨error, hfold, failed, List.mem_cons_of_mem _ hmem, hfailed⟩

theorem transcriptionWindows_nil (audioLen : Nat) :
    transcriptionWindows audioLen [] = fixedAudioWindows audioLen := rfl

/-- **The sequential driver** returns what the windows make together, unless one of them fails. -/
theorem transcribeAudioWithOptions_cases (model : WindowModel) (audio : List F32)
    (vadSegments : List VadSegment) (options : TranscribeOptions) :
    (∃ results, List.Forall₂ (fun window result => made model options audio window = .ok result)
        (transcriptionWindows audio.length vadSegments) results ∧
      transcribeAudioWithOptions model audio vadSegments options = .ok (assemble vadSegments results)) ∨
    ∃ error, transcribeAudioWithOptions model audio vadSegments options = .error error ∧
      ∃ window ∈ transcriptionWindows audio.length vadSegments,
        made model options audio window = .error error := by
  have hwindows : (if ¬ vadSegments.isEmpty = true then vadAudioWindows vadSegments
      else fixedAudioWindows audio.length) = transcriptionWindows audio.length vadSegments := by
    rw [transcriptionWindows]
    by_cases hempty : vadSegments.isEmpty = true <;> simp [hempty]
  simp only [transcribeAudioWithOptions, hwindows]
  obtain ⟨results, hresults, hfold⟩ | ⟨error, hfold, hfailed⟩ :=
    @foldlM_windows model options audio (transcriptionWindows audio.length vadSegments) "" []
  · refine .inl ⟨results, hresults, ?_⟩
    exact congrArg (Except.map _) hfold
  · refine .inr ⟨error, ?_, hfailed⟩
    exact congrArg (Except.map _) hfold

/-! ### The parallel driver -/

def isVad : Except Error NpuResult → Bool
  | .ok (.vad _) => true
  | _ => false

theorem transcribeWindow_whisperJob (workerId : Fin npuWorkers) (window : AudioWindow) :
    (window.whisperJob audio options).transcribeWindow model workerId =
      match made model options audio window with
      | .ok transcription => .ok (.whisper { jobId := 0, transcription })
      | .error error =>
          .error (WorkerOutcome.failure workerId error (.whisper (window.whisperJob audio options))) :=
  rfl

/-- The answers of the workers to the windows, whichever worker a window goes to. -/
def answersOf (model : WindowModel) (options : TranscribeOptions) (audio : List F32)
    (windows : List AudioWindow) (ready : List (Fin npuWorkers)) : List (Except Error NpuResult) :=
  (dispatchWindows audio options windows ready).map fun (workerId, job) =>
    job.transcribeWindow model workerId

theorem answersOf_cons (window : AudioWindow) (workerId : Fin npuWorkers)
    (ready : List (Fin npuWorkers)) :
    answersOf model options audio (window :: windows) (workerId :: ready) =
      (window.whisperJob audio options).transcribeWindow model workerId ::
        answersOf model options audio windows ready :=
  rfl

theorem filterMap_answersOf {ready : List (Fin npuWorkers)}
    (hready : windows.length ≤ ready.length) :
    (answersOf model options audio windows ready).filterMap whisperOf =
      windows.filterMap fun window => (made model options audio window).toOption := by
  induction windows generalizing ready with
  | nil => cases ready <;> rfl
  | cons window windows ih =>
      cases ready with
      | nil => cases Nat.not_succ_le_zero _ hready
      | cons workerId ready =>
          rw [answersOf_cons, List.filterMap_cons, List.filterMap_cons,
            ih (Nat.le_of_succ_le_succ hready), transcribeWindow_whisperJob]
          cases made model options audio window <;> rfl

theorem error_mem_answersOf {ready : List (Fin npuWorkers)} {error : Error}
    (hmem : .error error ∈ answersOf model options audio windows ready) :
    ∃ window ∈ windows, ∃ cause, made model options audio window = .error cause := by
  induction windows generalizing ready with
  | nil => cases ready <;> cases hmem
  | cons window windows ih =>
      cases ready with
      | nil => cases hmem
      | cons workerId ready =>
          rw [answersOf_cons] at hmem
          obtain heq | hmem := List.mem_cons.mp hmem
          · rw [transcribeWindow_whisperJob] at heq
            cases hmade : made model options audio window with
            | error cause => exact ⟨window, List.mem_cons_self, cause, hmade⟩
            | ok result =>
                rw [hmade] at heq
                cases heq
          · obtain ⟨failed, hfailed, hcause⟩ := ih hmem
            exact ⟨failed, List.mem_cons_of_mem _ hfailed, hcause⟩

theorem map_index_made_sublist :
    ((windows.filterMap fun window => (made model options audio window).toOption).map
      WindowTranscription.windowIndex).Sublist (windows.map AudioWindow.index) := by
  induction windows with
  | nil => exact .slnil
  | cons window windows ih =>
      rw [List.filterMap_cons]
      cases hmade : made model options audio window with
      | error error => exact ih.cons _
      | ok result =>
          rw [List.map_cons, ← windowIndex_of_made hmade]
          exact ih.cons_cons _

/-- The windows handed on, one by one. -/
theorem forall₂_inOrder {R : AudioWindow → WindowTranscription → Prop}
    {arrived : Nat → Option WindowTranscription}
    (hwindow : ∀ index result, arrived index = some result →
      ∃ window, windows[index]? = some window ∧ R window result) {count : Nat}
    (harrived : ∀ index < count, (arrived index).isSome = true) :
    count ≤ windows.length ∧ List.Forall₂ R (windows.take count) (inOrder arrived count) := by
  induction count with
  | zero => exact ⟨Nat.zero_le _, .nil⟩
  | succ count ih =>
      obtain ⟨hle, hbefore⟩ := ih fun index hindex => harrived index (Nat.lt_succ_of_lt hindex)
      obtain ⟨result, hresult⟩ := Option.isSome_iff_exists.mp (harrived count (Nat.lt_succ_self _))
      obtain ⟨window, hget, hrelated⟩ := hwindow count result hresult
      have hlt := (List.getElem?_eq_some_iff.mp hget).1
      refine ⟨hlt, ?_⟩
      rw [List.take_add_one, hget, ReorderBuffer.inOrder_succ hresult]
      exact List.rel_append hbefore (.cons hrelated .nil)

section Collection

variable {ready : List (Fin npuWorkers)} {resultRx : List (Except Error NpuResult)}

/-- What has come in, the results of the VAD left out, is what the workers have answered. -/
theorem filterMap_whisperOf_perm (hready : windows.length ≤ ready.length)
    (harrivals : (resultRx.filter fun result => !isVad result).Perm
      (answersOf model options audio windows ready)) :
    (resultRx.filterMap whisperOf).Perm
      (windows.filterMap fun window => (made model options audio window).toOption) := by
  have hskip : resultRx.filterMap whisperOf =
      (resultRx.filter fun result => !isVad result).filterMap whisperOf := by
    rw [List.filterMap_filter]
    apply List.filterMap_congr
    intro result _
    match result with
    | .error _ | .ok (.vad _) | .ok (.whisper _) => rfl
  rw [hskip, ← filterMap_answersOf hready]
  exact harrivals.filterMap _

theorem nodup_of_perm (hnumbered : Numbered windows)
    (hperm : (resultRx.filterMap whisperOf).Perm
      (windows.filterMap fun window => (made model options audio window).toOption)) :
    (([] ++ resultRx.filterMap whisperOf).map WindowTranscription.windowIndex).Nodup := by
  rw [List.nil_append, (hperm.map _).nodup_iff]
  refine map_index_made_sublist.nodup ?_
  rw [hnumbered]
  exact List.nodup_range

theorem exists_window_of_answerTo (hnumbered : Numbered windows)
    (hperm : (resultRx.filterMap whisperOf).Perm
      (windows.filterMap fun window => (made model options audio window).toOption))
    {received : List WindowTranscription} (hreceived : received ⊆ resultRx.filterMap whisperOf)
    (index : Nat) (result : WindowTranscription)
    (hanswer : answerTo received index = some result) :
    ∃ window, windows[index]? = some window ∧ made model options audio window = .ok result := by
  have hmem : result ∈ received := List.mem_of_find?_eq_some hanswer
  have hindex : result.windowIndex = index := by
    simpa using List.find?_some hanswer
  obtain ⟨window, hwindow, hmade⟩ := List.mem_filterMap.mp (hperm.subset (hreceived hmem))
  have hok : made model options audio window = .ok result := by
    cases hcase : made model options audio window with
    | error error =>
        rw [hcase] at hmade
        cases hmade
    | ok other =>
        rw [hcase] at hmade
        exact congrArg Except.ok (Option.some.inj hmade)
  obtain ⟨position, hposition⟩ := List.mem_iff_getElem?.mp hwindow
  have heq : position = index := by
    rw [← hnumbered.index hposition, ← windowIndex_of_made hok, hindex]
  exact ⟨window, heq ▸ hposition, hok⟩

theorem waits_nil : Waits [] {} where
  collects :=
    { holds := ReorderBuffer.holds_empty
      fullText := rfl
      segments := rfl
      notified := rfl
      failed := rfl }
  missing := rfl

/-- Without a window there is nothing to wait for. -/
theorem transcribeAudioWithSegmentCallback_eq (onSegment : SegmentCallback) (audio : List F32)
    (vadSegments : List VadSegment) (resultRx : List (Except Error NpuResult)) :
    let collector := collectOrdered onSegment
      (transcriptionWindows audio.length vadSegments).length resultRx {}
    transcribeAudioWithSegmentCallback onSegment audio vadSegments resultRx =
      (collector.result vadSegments, collector.notified) := by
  simp only [transcribeAudioWithSegmentCallback]
  split
  · rename_i hempty
    rw [List.isEmpty_iff.mp hempty, List.length_nil, collectOrdered_of_done rfl]
    rfl
  · rfl

/-- What the collector has done with these answers. -/
theorem collected (onSegment : SegmentCallback) (vadSegments : List VadSegment)
    (hnumbered : Numbered windows)
    (hperm : (resultRx.filterMap whisperOf).Perm
      (windows.filterMap fun window => (made model options audio window).toOption)) :
    (collectOrdered onSegment windows.length resultRx {}).notified <+:
        segmentsInOrder model options audio windows ∧
      ((collectOrdered onSegment windows.length resultRx {}).failed = none →
        ∃ results, List.Forall₂ (fun window result => made model options audio window = .ok result)
          windows
            results ∧
          (collectOrdered onSegment windows.length resultRx {}).result vadSegments =
            .ok (assemble vadSegments results) ∧
          (collectOrdered onSegment windows.length resultRx {}).notified =
            joinSegments results) := by
  have hnodup := nodup_of_perm hnumbered hperm
  obtain ⟨received, hreceived, -, ⟨count, hcount, hbegins⟩, hdone⟩ :=
    @collectOrdered_spec {} windows.length [] resultRx waits_nil onSegment hnodup
  have hwindow := exists_window_of_answerTo hnumbered hperm hreceived
  refine ⟨?_, ?_⟩
  · obtain ⟨-, hfirst⟩ := forall₂_inOrder hwindow hcount
    exact hbegins.trans (prefix_segmentsInOrder hfirst)
  · intro hnone
    obtain ⟨⟨hcollects, -⟩, hle⟩ := hdone hnone
    obtain ⟨hge, hall⟩ := forall₂_inOrder hwindow hcollects.holds.handedOn
    have hnext := le_antisymm hge hle
    rw [hnext, List.take_length, ← hnext] at hall
    refine ⟨_, hall, ?_, ?_⟩
    · rw [Collector.result, hnone, assemble, ← hcollects.fullText, ← hcollects.segments]
    · rw [hcollects.notified, hcollects.segments]

/-- **Parallel transcription equals sequential transcription.** Whichever workers the windows go to
and in whatever order their results come in, the parallel driver returns what the sequential driver
returns, and has called `on_segment` with its segments, in order; when a window fails it returns an
error, and has called `on_segment` with the first of the segments. -/
theorem parallel_eq_sequential (model : WindowModel) (onSegment : SegmentCallback)
    (audio : List F32) (vadSegments : List VadSegment) (options : TranscribeOptions)
    (ready : List (Fin npuWorkers))
    (resultRx : List (Except Error NpuResult))
    (hready : (transcriptionWindows audio.length vadSegments).length ≤ ready.length)
    (harrivals : (resultRx.filter fun result => !isVad result).Perm
      (answersOf model options audio (transcriptionWindows audio.length vadSegments) ready)) :
    (∀ transcription, transcribeAudioWithOptions model audio vadSegments options = .ok transcription →
      (∀ notified segment, onSegment notified segment = .ok ()) →
      transcribeAudioWithSegmentCallback onSegment audio vadSegments resultRx =
        (.ok transcription, transcription.segments)) ∧
    ∀ error, transcribeAudioWithOptions model audio vadSegments options = .error error →
      (∃ cause,
        (transcribeAudioWithSegmentCallback onSegment audio vadSegments resultRx).1 =
          .error cause) ∧
      (transcribeAudioWithSegmentCallback onSegment audio vadSegments resultRx).2 <+:
        segmentsInOrder model options audio (transcriptionWindows audio.length vadSegments) := by
  have hnumbered := numbered_transcriptionWindows audio.length vadSegments
  have hperm := filterMap_whisperOf_perm hready harrivals
  obtain ⟨hbegins, hcollected⟩ := collected onSegment vadSegments hnumbered hperm
  rw [transcribeAudioWithSegmentCallback_eq]
  obtain ⟨results, hresults, hok⟩ | ⟨failure, hfailure, window, hwindow, hcause⟩ :=
    transcribeAudioWithOptions_cases model audio vadSegments options
  · refine ⟨?_, ?_⟩
    · intro transcription hsequential haccepts
      obtain rfl := Except.ok.inj (hok.symm.trans hsequential)
      -- No answer is an error, and every window has one.
      have hnone : (collectOrdered onSegment (transcriptionWindows audio.length vadSegments).length
          resultRx {}).failed = none := by
        apply failed_collectOrdered_of_accepts haccepts waits_nil
        · intro error hmem
          have hanswer := harrivals.subset (List.mem_filter.mpr ⟨hmem, rfl⟩)
          obtain ⟨window, hwindow, cause, hcause⟩ := error_mem_answersOf hanswer
          obtain ⟨result, hmade⟩ := exists_made hresults hwindow
          rw [hcause] at hmade
          cases hmade
        · exact nodup_of_perm hnumbered hperm
        · intro index hindex
          have hwindow := List.getElem?_eq_getElem hindex
          obtain ⟨result, hmade⟩ := exists_made hresults (List.mem_of_getElem? hwindow)
          rw [List.nil_append, (hperm.map _).mem_iff]
          refine List.mem_map.mpr
            ⟨result, List.mem_filterMap.mpr ⟨_, List.mem_of_getElem? hwindow, ?_⟩, ?_⟩
          · rw [hmade]
            rfl
          · rw [windowIndex_of_made hmade, hnumbered.index hwindow]
      obtain ⟨collectedResults, hall, hresult, hnotified⟩ := hcollected hnone
      have hsame : collectedResults = results :=
        List.right_unique_forall₂' (fun _ _ _ h h' => Except.ok.inj (h.symm.trans h')) hall hresults
      rw [hresult, hnotified, hsame]
      rfl
    · intro error hsequential
      rw [hok] at hsequential
      cases hsequential
  · refine ⟨?_, ?_⟩
    · intro transcription hsequential
      rw [hfailure] at hsequential
      cases hsequential
    · intro error _
      refine ⟨?_, hbegins⟩
      cases hfailed : (collectOrdered onSegment (transcriptionWindows audio.length
          vadSegments).length resultRx {}).failed with
      | some cause => exact ⟨cause, by rw [Collector.result, hfailed]⟩
      | none =>
          obtain ⟨results, hall, -⟩ := hcollected hfailed
          obtain ⟨result, hmade⟩ := exists_made hall hwindow
          rw [hcause] at hmade
          cases hmade

end Collection

end Drivers

/-! ### Two windows, the second one first -/

def twoSegments : List VadSegment :=
  [⟨0, 1, samplesToSec 0, samplesToSec 1⟩,
    ⟨480001, 480002, samplesToSec 480001, samplesToSec 480002⟩]

/-- One segment for each window, which bears its number. -/
def indexModel : WindowModel := fun _ _ windowIndex startSec _ _ =>
  .ok ("", [{ startSec, endSec := startSec, text := "", tokens := [], windowIndex }])

theorem vadAudioWindows_twoSegments : vadAudioWindows twoSegments =
    [{ index := 0, startSample := 0, endSample := 1 },
      { index := 1, startSample := 480001, endSample := 480002 }] := by
  decide +kernel

def indexResult (windowIndex : Nat) (startSec : F32) : NpuResult :=
  .whisper
    { jobId := 0
      transcription :=
        { windowIndex
          absoluteStartSec := startSec
          text := ""
          segments := [{ startSec, endSec := startSec, text := "", tokens := [], windowIndex }] } }

def swappedResults : List (Except Error NpuResult) :=
  [.ok (indexResult 1 (samplesToSec 480001)),
    .ok (.vad ⟨0, 0, 0, F32.ofNat 0, []⟩),
    .ok (indexResult 0 (samplesToSec 0))]

theorem answersOf_twoSegments (options : TranscribeOptions) (audio : List F32) :
    answersOf indexModel options audio (transcriptionWindows audio.length twoSegments) [2, 0] =
      [.ok (indexResult 0 (samplesToSec 0)), .ok (indexResult 1 (samplesToSec 480001))] := by
  change answersOf indexModel options audio (vadAudioWindows twoSegments) [2, 0] = _
  rw [vadAudioWindows_twoSegments]
  rfl

theorem parallel_eq_sequential_swapped : ∃ transcription,
    transcribeAudioWithOptions indexModel (List.replicate 480002 (F32.ofNat 1)) twoSegments
        (.ofHeader {}) =
      .ok transcription ∧
    transcription.segments.map TranscriptSegment.windowIndex = [0, 1] ∧
    transcribeAudioWithSegmentCallback (fun _ _ => .ok ()) (List.replicate 480002 (F32.ofNat 1))
      twoSegments swappedResults = (.ok transcription, transcription.segments) := by
  have hok : ∀ audio, ∃ transcription,
      transcribeAudioWithOptions indexModel audio twoSegments (.ofHeader {}) = .ok transcription ∧
        transcription.segments.map TranscriptSegment.windowIndex = [0, 1] := by
    intro audio
    simp only [transcribeAudioWithOptions]
    change ∃ transcription, Except.map _ ((vadAudioWindows twoSegments).foldlM _ _) = _ ∧ _
    rw [vadAudioWindows_twoSegments]
    exact ⟨_, rfl, rfl⟩
  obtain ⟨transcription, hsequential, hsegments⟩ := hok (List.replicate 480002 (F32.ofNat 1))
  refine ⟨transcription, hsequential, hsegments, ?_⟩
  have hready : (transcriptionWindows (List.replicate 480002 (F32.ofNat 1)).length
      twoSegments).length ≤ [(2 : Fin npuWorkers), 0].length := by
    change (vadAudioWindows twoSegments).length ≤ 2
    rw [vadAudioWindows_twoSegments]
    exact le_rfl
  refine (parallel_eq_sequential indexModel (fun _ _ => .ok ()) _ twoSegments (.ofHeader {}) [2, 0]
    swappedResults
    hready ?_).1 transcription hsequential fun _ _ => rfl
  rw [answersOf_twoSegments]
  exact .swap ..

end RkWhisper
