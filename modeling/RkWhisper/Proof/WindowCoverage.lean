import RkWhisper.Proof.OrderedCollection

/-!
# The windows of a recording cover its speech

Speech segments that lie in the recording one after the other are packed into windows of thirty
seconds at most that do not overlap, and no sample of speech is left out. Without segments the same
holds of the whole recording.
-/

namespace RkWhisper

open Segmentation

/-- `[start_sample, end_sample)`. -/
def AudioWindow.interval (window : AudioWindow) : Interval := (window.startSample, window.endSample)

/-- The intervals follow each other below `bound`, none is longer than an encoder window, and they
leave out no sample of `speech`. -/
structure Packed (bound : Nat) (speech : Nat → Prop) (intervals : List Interval) : Prop where
  follow : Follow 0 intervals
  stop_le : ∀ interval ∈ intervals, interval.2 ≤ bound
  short : ∀ interval ∈ intervals, interval.2 ≤ interval.1 + nSamples
  covers : ∀ x, speech x → ∃ interval ∈ intervals, Within x interval

namespace Packed

variable {bound high : Nat} {speech more : Nat → Prop} {front back : List Interval}

theorem nil : Packed 0 (fun _ => False) [] where
  follow := trivial
  stop_le := nofun
  short := nofun
  covers := fun _ h => h.elim

/-- Further intervals behind the bound. -/
theorem append (h : Packed bound speech front) (hfollow : Follow bound back)
    (hstop : ∀ interval ∈ back, interval.2 ≤ high) (hle : bound ≤ high)
    (hshort : ∀ interval ∈ back, interval.2 ≤ interval.1 + nSamples)
    (hcovers : ∀ x, more x → ∃ interval ∈ back, Within x interval) :
    Packed high (fun x => speech x ∨ more x) (front ++ back) where
  follow := h.follow.append hfollow (Nat.zero_le _) h.stop_le
  stop_le := List.forall_mem_append.mpr
    ⟨fun interval hmem => (h.stop_le interval hmem).trans hle, hstop⟩
  short := List.forall_mem_append.mpr ⟨h.short, hshort⟩
  covers := by
    rintro x (hx | hx)
    · obtain ⟨interval, hmem, hwithin⟩ := h.covers x hx
      exact ⟨interval, List.mem_append_left _ hmem, hwithin⟩
    · obtain ⟨interval, hmem, hwithin⟩ := hcovers x hx
      exact ⟨interval, List.mem_append_right _ hmem, hwithin⟩

/-- One more interval. -/
theorem concat (h : Packed bound speech front) {start stop : Nat} (hbound : bound ≤ start)
    (hne : start < stop) (hshort : stop ≤ start + nSamples) :
    Packed stop (fun x => speech x ∨ (start ≤ x ∧ x < stop)) (front ++ [(start, stop)]) :=
  h.append ⟨hbound, hne, trivial⟩ (List.forall_mem_singleton.mpr le_rfl) (hbound.trans hne.le)
    (List.forall_mem_singleton.mpr hshort)
    fun _ hx => ⟨_, List.mem_singleton_self _, hx⟩

/-- The last interval goes on to `stop`. -/
theorem extend {start mid stop : Nat} (h : Packed bound speech (front ++ [(start, mid)]))
    (hbound : bound ≤ stop) (hshort : stop ≤ start + nSamples) :
    Packed stop (fun x => speech x ∨ (mid ≤ x ∧ x < stop)) (front ++ [(start, stop)]) := by
  have hlast : (start, mid) ∈ front ++ [(start, mid)] := List.mem_concat_self
  have hmid := h.stop_le _ hlast
  have hne := (h.follow.of_mem hlast).2
  simp only at hmid hne
  have hbefore := (List.pairwise_append.mp h.follow.pairwise).2.2
  constructor
  · refine h.follow.front.concat (Nat.zero_le _) (by simp only; omega) ?_
    exact fun interval hmem => hbefore interval hmem (start, mid) (List.mem_singleton_self _)
  · refine List.forall_mem_append.mpr ⟨fun interval hmem => ?_, List.forall_mem_singleton.mpr le_rfl⟩
    exact (h.stop_le interval (List.mem_append_left _ hmem)).trans hbound
  · refine List.forall_mem_append.mpr ⟨fun interval hmem => ?_, List.forall_mem_singleton.mpr hshort⟩
    exact h.short interval (List.mem_append_left _ hmem)
  · rintro x (hx | ⟨hstart, hstop⟩)
    · obtain ⟨interval, hmem, hwithin⟩ := h.covers x hx
      obtain hfront | hsame := List.mem_append.mp hmem
      · exact ⟨interval, List.mem_append_left _ hfront, hwithin⟩
      · obtain rfl := List.mem_singleton.mp hsame
        exact ⟨_, List.mem_concat_self, hwithin.1, hwithin.2.trans_le (hmid.trans hbound)⟩
    · refine ⟨_, List.mem_concat_self, ?_, hstop⟩
      simp only
      omega

theorem mono (h : Packed bound speech front) (hmore : ∀ x, more x → speech x) :
    Packed bound more front :=
  ⟨h.follow, h.stop_le, h.short, fun x hx => h.covers x (hmore x hx)⟩

end Packed

namespace WindowGroup

variable {bound : Nat} {speech : Nat → Prop} {group : WindowGroup} {segment : VadSegment}

/-- The windows so far and the group under way. -/
def intervals (group : WindowGroup) : List Interval :=
  group.windows.map AudioWindow.interval ++
    (group.groupStart.map fun start => (start, group.groupEnd)).toList

theorem map_interval_pushWindow (windows : List AudioWindow) (startSample endSample : Nat) :
    (pushWindow windows startSample endSample).map AudioWindow.interval =
      windows.map AudioWindow.interval ++ [(startSample, endSample)] := by
  rw [pushWindow, List.map_append]
  rfl

/-- Flushing the group makes a window of it. -/
theorem map_interval_flush (group : WindowGroup) :
    group.flush.windows.map AudioWindow.interval = group.intervals := by
  rw [flush, intervals]
  cases group.groupStart with
  | none => exact (List.append_nil _).symm
  | some start => exact map_interval_pushWindow _ _ _

theorem groupStart_flush (group : WindowGroup) : group.flush.groupStart = none := by
  unfold flush
  split
  · rfl
  · assumption

/-- The pieces of an oversized segment. -/
theorem exists_pieces_of_split (stop rounds start : Nat) (windows : List AudioWindow)
    (hrounds : stop - start ≤ rounds) :
    ∃ pieces, (split stop rounds start windows).map AudioWindow.interval =
        windows.map AudioWindow.interval ++ pieces ∧
      Follow start pieces ∧ (∀ piece ∈ pieces, piece.2 ≤ stop) ∧
      (∀ piece ∈ pieces, piece.2 ≤ piece.1 + nSamples) ∧
      ∀ x, start ≤ x ∧ x < stop → ∃ piece ∈ pieces, Within x piece := by
  have hlong : 0 < nSamples := by decide
  induction rounds generalizing start windows with
  | zero =>
      refine ⟨[], (List.append_nil _).symm, trivial, nofun, nofun, ?_⟩
      rintro x ⟨hstart, hstop⟩
      omega
  | succ rounds ih =>
      unfold split
      by_cases hmore : start < stop
      · obtain ⟨pieces, hpieces, hfollow, hstops, hshort, hcovers⟩ :=
          ih (min (start + nSamples) stop)
            (pushWindow windows start (min (start + nSamples) stop)) (by omega)
        rw [if_pos hmore]
        refine ⟨(start, min (start + nSamples) stop) :: pieces, ?_, ⟨le_rfl, ?_, hfollow⟩, ?_, ?_, ?_⟩
        · rw [hpieces, map_interval_pushWindow, List.append_assoc]
          rfl
        · simp only
          omega
        · exact List.forall_mem_cons.mpr ⟨min_le_right _ _, hstops⟩
        · exact List.forall_mem_cons.mpr ⟨min_le_left _ _, hshort⟩
        · rintro x ⟨hstart, hstop⟩
          by_cases hfirst : x < min (start + nSamples) stop
          · exact ⟨_, List.mem_cons_self, hstart, hfirst⟩
          · obtain ⟨piece, hmem, hwithin⟩ := hcovers x ⟨not_lt.mp hfirst, hstop⟩
            exact ⟨piece, List.mem_cons_of_mem _ hmem, hwithin⟩
      · rw [if_neg hmore]
        refine ⟨[], (List.append_nil _).symm, trivial, nofun, nofun, ?_⟩
        rintro x ⟨hstart, hstop⟩
        omega

/-! ### One round of the loop -/

section Round

variable (h : Packed bound speech group.intervals) (hbound : bound ≤ segment.startSample)
  (hne : segment.startSample < segment.endSample)

include h hbound hne

/-- A segment that is longer than a window is cut into pieces. -/
theorem packed_pieces (hlong : nSamples < segment.endSample - segment.startSample) :
    Packed segment.endSample
      (fun x => speech x ∨ (segment.startSample ≤ x ∧ x < segment.endSample))
      (group.next segment).intervals := by
  obtain ⟨pieces, hpieces, hfollow, hstops, hshort, hcovers⟩ :=
    exists_pieces_of_split segment.endSample (segment.endSample - segment.startSample)
      segment.startSample group.flush.windows le_rfl
  have hintervals : (group.next segment).intervals = group.intervals ++ pieces := by
    simp only [next, if_pos hlong, intervals, groupStart_flush, Option.map_none,
      Option.toList_none, List.append_nil]
    rw [hpieces, map_interval_flush, intervals]
  rw [hintervals]
  exact h.append (hfollow.mono hbound) hstops (hbound.trans hne.le) hshort hcovers

/-- With no group under way, or after a flush, a segment begins one. -/
theorem packed_fresh (hshort : segment.endSample ≤ segment.startSample + nSamples)
    {windows : List AudioWindow}
    (hwindows : windows.map AudioWindow.interval = group.intervals) (groupSpeech : Nat) :
    Packed segment.endSample
      (fun x => speech x ∨ (segment.startSample ≤ x ∧ x < segment.endSample))
      (intervals { windows, groupStart := some segment.startSample,
                   groupEnd := segment.endSample, groupSpeech }) := by
  rw [intervals, hwindows]
  exact h.concat hbound hne hshort

/-- A segment that fits into the group extends it. -/
theorem packed_joined {start : Nat} (hgroup : group.groupStart = some start)
    (hfits : segment.endSample - start ≤ nSamples) :
    Packed segment.endSample
      (fun x => speech x ∨ (segment.startSample ≤ x ∧ x < segment.endSample))
      (group.windows.map AudioWindow.interval ++ [(start, segment.endSample)]) := by
  have hopen : group.intervals =
      group.windows.map AudioWindow.interval ++ [(start, group.groupEnd)] := by
    rw [intervals, hgroup]
    rfl
  rw [hopen] at h
  have hend := h.stop_le _ List.mem_concat_self
  have hbegin := (h.follow.of_mem List.mem_concat_self).2
  simp only at hend hbegin
  have hgrown := @Packed.extend bound speech _ start group.groupEnd segment.endSample h
    (by omega) (by omega)
  refine hgrown.mono ?_
  rintro x (hx | ⟨hstart, hstop⟩)
  · exact .inl hx
  · exact .inr ⟨by omega, hstop⟩

/-- **One round of the loop packs one more segment.** -/
theorem packed_next : Packed segment.endSample
    (fun x => speech x ∨ (segment.startSample ≤ x ∧ x < segment.endSample))
    (group.next segment).intervals := by
  by_cases hlong : nSamples < segment.endSample - segment.startSample
  · exact packed_pieces h hbound hne hlong
  · have hshort : segment.endSample ≤ segment.startSample + nSamples := by omega
    simp only [next, if_neg hlong]
    split
    · rw [groupStart_flush, Option.getD_none]
      exact packed_fresh h hbound hne hshort (map_interval_flush group) _
    · rename_i hfits
      cases hgroup : group.groupStart with
      | none =>
          have hwindows : group.windows.map AudioWindow.interval = group.intervals := by
            rw [intervals, hgroup]
            exact (List.append_nil _).symm
          exact packed_fresh h hbound hne hshort hwindows _
      | some start =>
          rw [hgroup, Option.any_some, Bool.or_eq_true, not_or, decide_eq_true_eq] at hfits
          exact packed_joined h hbound hne hgroup (not_lt.mp hfits.1)

end Round

end WindowGroup

/-- The samples of speech. -/
def speechAt (vadSegments : List VadSegment) (x : Nat) : Prop :=
  ∃ segment ∈ vadSegments, segment.startSample ≤ x ∧ x < segment.endSample

theorem packed_foldl_next {segments : List VadSegment} {bound : Nat} {speech : Nat → Prop}
    {group : WindowGroup} (h : Packed bound speech group.intervals)
    (hbound : ∀ segment ∈ segments, bound ≤ segment.startSample)
    (hsorted : segments.Pairwise fun segment later => segment.endSample ≤ later.startSample)
    (hne : ∀ segment ∈ segments, segment.startSample < segment.endSample) :
    ∃ bound', Packed bound' (fun x => speech x ∨ speechAt segments x)
        (segments.foldl WindowGroup.next group).intervals ∧
      (bound' = bound ∨ ∃ segment ∈ segments, bound' = segment.endSample) := by
  induction segments generalizing bound speech group with
  | nil =>
      refine ⟨bound, h.mono ?_, .inl rfl⟩
      rintro x (hx | ⟨segment, hmem, -⟩)
      · exact hx
      · exact absurd hmem List.not_mem_nil
  | cons segment segments ih =>
      rw [List.forall_mem_cons] at hbound hne
      obtain ⟨hlater, hsorted⟩ := List.pairwise_cons.mp hsorted
      obtain ⟨bound', hpacked, hbound'⟩ :=
        ih (WindowGroup.packed_next h hbound.1 hne.1) hlater hsorted hne.2
      refine ⟨bound', hpacked.mono ?_, .inr ?_⟩
      · rintro x (hx | ⟨inside, hmem, hx⟩)
        · exact .inl (.inl hx)
        · obtain rfl | hmem := List.mem_cons.mp hmem
          · exact .inl (.inr hx)
          · exact .inr ⟨inside, hmem, hx⟩
      · obtain rfl | ⟨last, hmem, rfl⟩ := hbound'
        · exact ⟨segment, List.mem_cons_self, rfl⟩
        · exact ⟨last, List.mem_cons_of_mem _ hmem, rfl⟩

theorem packed_vadAudioWindows {audioLen : Nat} {vadSegments : List VadSegment}
    (hsorted : vadSegments.Pairwise fun segment later => segment.endSample ≤ later.startSample)
    (hinside : ∀ segment ∈ vadSegments,
      segment.startSample < segment.endSample ∧ segment.endSample ≤ audioLen) :
    Packed audioLen (speechAt vadSegments)
      ((vadAudioWindows vadSegments).map AudioWindow.interval) := by
  have hstart : Packed 0 (fun _ => False) (WindowGroup.intervals {}) := Packed.nil
  obtain ⟨bound, hpacked, hbound⟩ := packed_foldl_next hstart (fun _ _ => Nat.zero_le _) hsorted
    fun segment hmem => (hinside segment hmem).1
  have hle : bound ≤ audioLen := by
    obtain rfl | ⟨segment, hmem, rfl⟩ := hbound
    · exact Nat.zero_le _
    · exact (hinside segment hmem).2
  rw [vadAudioWindows, WindowGroup.map_interval_flush]
  exact ⟨hpacked.follow, fun interval hmem => (hpacked.stop_le interval hmem).trans hle, hpacked.short,
    fun x hx => hpacked.covers x (.inr hx)⟩

theorem fixedAudioWindows_eq (audioLen : Nat) :
    (fixedAudioWindows audioLen).map AudioWindow.interval =
      (List.range (Stride.count nSamples audioLen)).map (Stride.piece nSamples audioLen) := by
  apply List.ext_getElem?
  intro i
  by_cases hi : i < Stride.count nSamples audioLen
  · rw [List.getElem?_map, getElem?_fixedAudioWindows hi, List.getElem?_map, List.getElem?_range hi]
    rfl
  · rw [List.getElem?_eq_none, List.getElem?_eq_none]
    · simpa using not_lt.mp hi
    · rw [List.length_map, length_fixedAudioWindows]
      exact not_lt.mp hi

theorem packed_fixedAudioWindows (audioLen : Nat) :
    Packed audioLen (· < audioLen) ((fixedAudioWindows audioLen).map AudioWindow.interval) := by
  rw [fixedAudioWindows_eq]
  have hlong : 0 < nSamples := by decide
  have hfirst : ∀ count, (∀ i < count, i * nSamples < audioLen) →
      Packed (min (count * nSamples) audioLen) (· < min (count * nSamples) audioLen)
        ((List.range count).map (Stride.piece nSamples audioLen)) := by
    intro count hcount
    induction count with
    | zero => exact ⟨trivial, nofun, nofun, fun x hx => absurd hx (by simp)⟩
    | succ count ih =>
        have hbegin := hcount count count.lt_succ_self
        have hnext : (count + 1) * nSamples = count * nSamples + nSamples := Nat.succ_mul _ _
        have hpacked := ih fun i hi => hcount i (hi.trans count.lt_succ_self)
        rw [min_eq_left hbegin.le] at hpacked
        rw [List.range_succ, List.map_append, List.map_singleton, hnext]
        refine (hpacked.concat le_rfl ?_ (min_le_left _ _)).mono ?_
        · omega
        · intro x hx
          by_cases hbefore : x < count * nSamples
          · exact .inl hbefore
          · exact .inr ⟨not_lt.mp hbefore, hx⟩
  have hall : min (Stride.count nSamples audioLen * nSamples) audioLen = audioLen := by
    apply min_eq_right
    exact not_lt.mp ((Stride.lt_count_iff hlong).not.mp (lt_irrefl _))
  have hpacked := hfirst (Stride.count nSamples audioLen) fun i hi =>
    (Stride.lt_count_iff hlong).mp hi
  rwa [hall] at hpacked

/-- The samples that the windows must cover: those of speech, or all of them when there are no
segments. -/
def mustCover (audioLen : Nat) (vadSegments : List VadSegment) (x : Nat) : Prop :=
  if vadSegments = [] then x < audioLen else speechAt vadSegments x

/-- A sample lies in one of the windows at most. -/
theorem eq_of_within_windows {windows : List AudioWindow}
    (h : windows.Pairwise fun window later => window.endSample ≤ later.startSample) {x : Nat}
    {left right : AudioWindow} (hleft : left ∈ windows) (hright : right ∈ windows)
    (hx : Within x left.interval) (hx' : Within x right.interval) : left = right := by
  obtain ⟨hstart, hstop⟩ := hx
  obtain ⟨hstart', hstop'⟩ := hx'
  simp only [AudioWindow.interval] at hstart hstop hstart' hstop'
  induction windows with
  | nil => cases hleft
  | cons first windows ih =>
      obtain ⟨hfirst, hrest⟩ := List.pairwise_cons.mp h
      obtain rfl | hleftMem := List.mem_cons.mp hleft
      · obtain rfl | hrightMem := List.mem_cons.mp hright
        · rfl
        · have hbehind := hfirst right hrightMem
          omega
      · obtain rfl | hrightMem := List.mem_cons.mp hright
        · have hbehind := hfirst left hleftMem
          omega
        · exact ih hrest hleftMem hrightMem

/-- **The windows of a recording cover its speech within the encoder's limit.** -/
theorem transcriptionWindows_cover {audioLen : Nat} {vadSegments : List VadSegment}
    (hsorted : vadSegments.Pairwise fun segment later => segment.endSample ≤ later.startSample)
    (hinside : ∀ segment ∈ vadSegments,
      segment.startSample < segment.endSample ∧ segment.endSample ≤ audioLen) :
    let windows := transcriptionWindows audioLen vadSegments
    windows.map AudioWindow.index = List.range windows.length ∧
      (∀ window ∈ windows, window.startSample < window.endSample ∧ window.endSample ≤ audioLen ∧
        window.endSample - window.startSample ≤ nSamples) ∧
      (windows.Pairwise fun window later => window.endSample ≤ later.startSample) ∧
      ∀ x, mustCover audioLen vadSegments x →
        ∃! window, window ∈ windows ∧ window.startSample ≤ x ∧ x < window.endSample := by
  intro windows
  have hpacked : Packed audioLen (mustCover audioLen vadSegments)
      (windows.map AudioWindow.interval) := by
    simp only [windows, transcriptionWindows, List.isEmpty_iff]
    by_cases hempty : vadSegments = []
    · rw [if_pos hempty]
      refine (packed_fixedAudioWindows audioLen).mono fun x hx => ?_
      rwa [mustCover, if_pos hempty] at hx
    · rw [if_neg hempty]
      refine (packed_vadAudioWindows hsorted hinside).mono fun x hx => ?_
      rwa [mustCover, if_neg hempty] at hx
  have hpairwise : windows.Pairwise fun window later => window.endSample ≤ later.startSample :=
    List.pairwise_map.mp hpacked.follow.pairwise
  refine ⟨numbered_transcriptionWindows audioLen vadSegments, ?_, hpairwise, ?_⟩
  · intro window hmem
    have hinterval : window.interval ∈ windows.map AudioWindow.interval := List.mem_map_of_mem hmem
    refine ⟨(hpacked.follow.of_mem hinterval).2, hpacked.stop_le _ hinterval, ?_⟩
    have hshort := hpacked.short _ hinterval
    exact Nat.sub_le_iff_le_add'.mpr hshort
  · intro x hx
    obtain ⟨interval, hmem, hwithin⟩ := hpacked.covers x hx
    obtain ⟨window, hwindow, rfl⟩ := List.mem_map.mp hmem
    refine ⟨window, ⟨hwindow, hwithin⟩, ?_⟩
    rintro other ⟨hother, hwithin'⟩
    exact eq_of_within_windows hpairwise hother hwindow hwithin' hwithin

/-- Two segments in one window, and one that is longer than a window. -/
theorem transcriptionWindows_cover_sample :
    (transcriptionWindows 600000 [.ofInterval (0, 10), .ofInterval (20, 30),
      .ofInterval (40, 500000)]).Pairwise fun window later =>
        window.endSample ≤ later.startSample :=
  (@transcriptionWindows_cover 600000 [.ofInterval (0, 10), .ofInterval (20, 30),
    .ofInterval (40, 500000)] (by decide) (by decide)).2.2.1

end RkWhisper
