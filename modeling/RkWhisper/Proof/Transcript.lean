import RkWhisper.Lib.MarkedRuns
import RkWhisper.Transcript

/-!
# A segment for each run of text

The loop of `tokens_to_segments` cuts the tokens at the timestamps: each run of text makes a segment,
unless its text is blank and a timestamp ends it. The loop's state says no more than which tokens it
has passed.
-/

namespace RkWhisper

open MarkedRuns

namespace TokenWindow

variable {F : Type} (A : Arithmetic F) (window : TokenWindow F)

def IsTimestamp (token : UInt32) : Prop := window.timestampBegin ≤ token

instance : DecidablePred window.IsTimestamp := fun _ => inferInstanceAs (Decidable (_ ≤ _))

/-- Nothing is left of the text when it is trimmed. -/
def Blank (tokens : List UInt32) : Prop := trim (window.text tokens) = ""

instance : DecidablePred window.Blank := fun _ => inferInstanceAs (Decidable (_ = _))

/-! ### The segment of a run -/

def timeOf (token : UInt32) : F :=
  A.add window.windowStartSec (timestampTokenToSec A token window.timestampBegin)

/-- The time of the timestamp before a run. -/
def startOf (before : List UInt32) : F :=
  (before.getLast?.map (window.timeOf A)).getD window.windowStartSec

def endOf (after : List UInt32) : F :=
  (after.head?.map (window.timeOf A)).getD window.windowEndSec

def segmentOf (piece : Piece UInt32) : TimedSegment F :=
  { startSec := window.startOf A piece.before
    endSec := A.max (window.endOf A piece.after) (window.startOf A piece.before)
    text := window.text piece.run
    tokens := piece.run
    windowIndex := window.windowIndex }

/-- The blank text after the last timestamp counts. -/
def Kept (piece : Piece UInt32) : Prop :=
  piece.run ≠ [] ∧ (piece.after ≠ [] → ¬ window.Blank piece.run)

instance : DecidablePred window.Kept := fun _ => inferInstanceAs (Decidable (_ ∧ _))

def segmentsOf (pieces : List (Piece UInt32)) : List (TimedSegment F) :=
  (pieces.filter fun piece => window.Kept piece).map (window.segmentOf A)

/-! ### The loop -/

/-- The loop inside a run. -/
def loopAt (segments : List (TimedSegment F)) (before run : List UInt32) : SegmentLoop F :=
  { segments
    currentTokens := run
    currentStart := before.getLast?.map (window.timeOf A)
    lastTimestamp := before.getLast?.map (window.timeOf A) }

variable {A window} {segments : List (TimedSegment F)} {before run after : List UInt32}
  {token : UInt32}

theorem startSec_loopAt :
    window.startSec (window.loopAt A segments before run) = window.startOf A before := by
  rw [startSec, loopAt, Option.or_self, startOf]

theorem next_text (htoken : ¬ window.IsTimestamp token) :
    window.next A (window.loopAt A segments before run) token =
      window.loopAt A segments before (run ++ [token]) :=
  if_neg htoken

theorem segmentsOf_cons (piece : Piece UInt32) (pieces : List (Piece UInt32)) :
    window.segmentsOf A (piece :: pieces) =
      (if window.Kept piece then [window.segmentOf A piece] else []) ++
        window.segmentsOf A pieces := by
  simp only [segmentsOf, List.filter_cons, decide_eq_true_eq]
  split
  · rw [List.map_cons, List.singleton_append]
  · rw [List.nil_append]

variable (after) in
theorem next_timestamp (htoken : window.IsTimestamp token) :
    window.next A (window.loopAt A segments before run) token =
      window.loopAt A (segments ++
        if window.Kept ⟨before, run, token :: after⟩ then
          [window.segmentOf A ⟨before, run, token :: after⟩] else [])
            (before ++ run ++ [token]) [] := by
  have hnext : window.next A (window.loopAt A segments before run) token =
      window.onTimestamp A (window.loopAt A segments before run) token := if_pos htoken
  rw [hnext, onTimestamp, startSec_loopAt]
  unfold loopAt
  rw [List.getLast?_concat, Option.map_some]
  by_cases hrun : run = []
  · subst hrun
    have hkept : ¬ window.Kept ⟨before, [], token :: after⟩ := fun hkept => hkept.1 rfl
    simp only [hkept, if_false, List.append_nil]
    rfl
  · have hsome : run.isEmpty = false := List.isEmpty_eq_false_iff.mpr hrun
    by_cases hblank : window.Blank run
    · have hkept : ¬ window.Kept ⟨before, run, token :: after⟩ :=
        fun hkept => hkept.2 (List.cons_ne_nil _ _) hblank
      have hempty : (trim (window.text run)).isEmpty = true := String.isEmpty_iff.mpr hblank
      simp only [hkept, hsome, hempty, if_true, if_false, List.append_nil]
      rfl
    · have hkept : window.Kept ⟨before, run, token :: after⟩ := ⟨hrun, fun _ => hblank⟩
      have hempty : (trim (window.text run)).isEmpty = false :=
        Bool.eq_false_iff.mpr (mt String.isEmpty_iff.mp hblank)
      simp only [hkept, hsome, hempty, if_true]
      rfl

theorem flush_loopAt : window.flush A (window.loopAt A segments before run) = segments ++
    if window.Kept ⟨before, run, []⟩ then [window.segmentOf A ⟨before, run, []⟩] else [] := by
  unfold flush
  rw [startSec_loopAt]
  by_cases hrun : run = []
  · subst hrun
    have hkept : ¬ window.Kept ⟨before, [], []⟩ := fun hkept => hkept.1 rfl
    simp only [hkept, if_false, List.append_nil]
    rfl
  · have hsome : run.isEmpty = false := List.isEmpty_eq_false_iff.mpr hrun
    have hkept : window.Kept ⟨before, run, []⟩ := ⟨hrun, fun hne => absurd rfl hne⟩
    simp only [loopAt, hkept, hsome, if_true]
    rfl

theorem flush_foldl (tokens : List UInt32) :
    window.flush A (tokens.foldl (window.next A) (window.loopAt A segments before run)) =
      segments ++ window.segmentsOf A (piecesFrom window.IsTimestamp before run tokens) := by
  induction tokens generalizing segments before run with
  | nil =>
      rw [List.foldl_nil, flush_loopAt, piecesFrom, segmentsOf_cons, segmentsOf, List.filter_nil,
        List.map_nil, List.append_nil]
  | cons token tokens ih =>
      rw [List.foldl_cons]
      unfold piecesFrom
      split
      · next htoken =>
        rw [next_timestamp tokens htoken, ih, segmentsOf_cons, List.append_assoc]
      · next htoken => rw [next_text htoken, ih]

/-! ### The segments -/

variable (A window) in
/-- Everything but the timestamps. -/
def wholeSegment (tokens : List UInt32) : TimedSegment F :=
  { startSec := window.windowStartSec
    endSec := window.windowEndSec
    text := window.text (tokens.filter fun token => ¬ window.IsTimestamp token)
    tokens := tokens.filter fun token => ¬ window.IsTimestamp token
    windowIndex := window.windowIndex }

variable (tokens : List UInt32)

variable (window) in
theorem fallback_cases : window.fallback tokens = [] ∨
    window.fallback tokens = [window.wholeSegment tokens] ∧
      ¬ window.Blank (tokens.filter fun token => ¬ window.IsTimestamp token) := by
  have htext : tokens.filter (fun token => decide (token < window.timestampBegin)) =
      tokens.filter fun token => ¬ window.IsTimestamp token := by
    congr 1
    funext token
    exact decide_eq_decide.mpr UInt32.not_le.symm
  unfold fallback
  rw [htext]
  dsimp only
  split
  · exact .inl rfl
  · split
    · exact .inl rfl
    · next hempty => exact .inr ⟨rfl, mt String.isEmpty_iff.mpr hempty⟩

variable (A window) in
/-- **A segment for each run that is kept, or one for all of them.** -/
theorem tokensToSegments_cases :
    window.tokensToSegments A tokens = window.segmentsOf A (pieces window.IsTimestamp tokens) ∨
      window.segmentsOf A (pieces window.IsTimestamp tokens) = [] ∧
        window.tokensToSegments A tokens = [window.wholeSegment tokens] ∧
          ¬ window.Blank (tokens.filter fun token => ¬ window.IsTimestamp token) := by
  have hloop : window.flush A (tokens.foldl (window.next A) {}) =
      window.segmentsOf A (pieces window.IsTimestamp tokens) := by
    have hstart : ({} : SegmentLoop F) = window.loopAt A [] [] [] := rfl
    rw [hstart, flush_foldl, List.nil_append, pieces]
  unfold tokensToSegments
  rw [hloop]
  dsimp only
  split
  · next hnone =>
    rw [Bool.and_eq_true, List.isEmpty_iff] at hnone
    rcases fallback_cases window tokens with hfallback | ⟨hfallback, hblank⟩
    · exact .inl (hfallback.trans hnone.1.symm)
    · exact .inr ⟨hnone.1, hfallback, hblank⟩
  · exact .inl rfl

theorem mem_segmentsOf {segment : TimedSegment F} {pieces : List (Piece UInt32)} :
    segment ∈ window.segmentsOf A pieces ↔
      ∃ piece ∈ pieces, window.Kept piece ∧ window.segmentOf A piece = segment := by
  simp only [segmentsOf, List.mem_map, List.mem_filter, decide_eq_true_eq, and_assoc]

theorem flatMap_tokens_segmentsOf (pieces : List (Piece UInt32)) :
    (window.segmentsOf A pieces).flatMap TimedSegment.tokens =
      ((pieces.filter fun piece => window.Kept piece).flatMap Piece.items).map Prod.fst := by
  rw [segmentsOf, List.flatMap_map, List.map_flatMap]
  exact List.flatMap_congr fun piece _ => piece.map_items.symm

/-- A run is dropped only where a timestamp ends it and its text is blank. -/
theorem blank_of_not_kept {piece : Piece UInt32} (h : ¬ window.Kept piece)
    {item : UInt32 × Nat} (hitem : item ∈ piece.items) : window.Blank piece.run := by
  by_contra hblank
  refine h ⟨fun hnil => ?_, fun _ => hblank⟩
  rw [Piece.items, hnil] at hitem
  cases hitem

/-! ### No text is lost -/

section Lossless

variable [LE F] (A window)

/-- The segment of a maximal run, from the timestamp before it on. -/
structure OfRun (tokens : List UInt32) (segment : TimedSegment F) (piece : Piece UInt32) : Prop where
  whole_eq : piece.whole = tokens
  maximal : piece.Maximal window.IsTimestamp
  tokens_eq : segment.tokens = piece.run
  startSec_eq : segment.startSec =
    (piece.before.getLast?.map (window.timeOf A)).getD window.windowStartSec

/-- The segments hold the tokens that are `placed`, each at its position. -/
structure Lossless (tokens : List UInt32) (segments : List (TimedSegment F))
    (placed : List (UInt32 × Nat)) : Prop where
  placed_sublist : placed.Sublist (unmarked window.IsTimestamp tokens)
  tokens_eq : segments.flatMap TimedSegment.tokens = placed.map Prod.fst
  dropped : ∀ item ∈ unmarked window.IsTimestamp tokens, item ∉ placed → ∃ piece : Piece UInt32,
    piece.whole = tokens ∧ piece.Maximal window.IsTimestamp ∧ item ∈ piece.items ∧
      window.Blank piece.run
  text_eq : ∀ segment ∈ segments, segment.text = window.text segment.tokens
  start_le : ∀ segment ∈ segments, window.windowStartSec ≤ segment.startSec
  le_end : ∀ segment ∈ segments, segment.startSec ≤ segment.endSec
  start_eq : ∀ segment ∈ segments, (∃ piece, window.OfRun A tokens segment piece) ∨
    segments = [segment] ∧ segment = window.wholeSegment tokens

end Lossless

section Exact

variable [Field F] [LinearOrder F] [IsStrictOrderedRing F] (functions : Arithmetic.Functions F)

theorem le_timeOf (token : UInt32) :
    window.windowStartSec ≤ window.timeOf (.exact functions) token := by
  refine le_add_of_nonneg_right (mul_nonneg ?_ ?_)
  · exact Rat.cast_nonneg.mpr (Nat.cast_nonneg _)
  · exact Rat.cast_nonneg.mpr (by norm_num)

theorem le_startOf (before : List UInt32) :
    window.windowStartSec ≤ window.startOf (.exact functions) before := by
  unfold startOf
  cases before.getLast? with
  | none => exact le_rfl
  | some token => exact le_timeOf functions token

/-- Whichever runs are kept. -/
theorem lossless_segmentsOf : window.Lossless (.exact functions) tokens
    (window.segmentsOf (.exact functions) (pieces window.IsTimestamp tokens))
    (((pieces window.IsTimestamp tokens).filter fun piece => window.Kept piece).flatMap
      Piece.items) where
  placed_sublist := by
    rw [← flatMap_items_pieces]
    exact List.filter_sublist.flatMap _
  tokens_eq := flatMap_tokens_segmentsOf _
  dropped := by
    intro item hitem hdropped
    rw [← flatMap_items_pieces] at hitem
    obtain ⟨piece, hpiece, hitem⟩ := List.mem_flatMap.mp hitem
    refine ⟨piece, whole_of_mem_pieces hpiece, maximal_of_mem_pieces hpiece, hitem,
      blank_of_not_kept (fun hkept => hdropped ?_) hitem⟩
    exact List.mem_flatMap.mpr ⟨piece, List.mem_filter.mpr ⟨hpiece, decide_eq_true hkept⟩, hitem⟩
  text_eq := by
    intro segment hsegment
    obtain ⟨piece, -, -, rfl⟩ := mem_segmentsOf.mp hsegment
    rfl
  start_le := by
    intro segment hsegment
    obtain ⟨piece, -, -, rfl⟩ := mem_segmentsOf.mp hsegment
    exact le_startOf functions piece.before
  le_end := by
    intro segment hsegment
    obtain ⟨piece, -, -, rfl⟩ := mem_segmentsOf.mp hsegment
    exact le_max_right _ _
  start_eq := by
    intro segment hsegment
    obtain ⟨piece, hpiece, -, rfl⟩ := mem_segmentsOf.mp hsegment
    exact .inl ⟨piece, whole_of_mem_pieces hpiece, maximal_of_mem_pieces hpiece, rfl, rfl⟩

omit [IsStrictOrderedRing F] in
theorem lossless_wholeSegment (hbounds : window.windowStartSec ≤ window.windowEndSec) :
    window.Lossless (.exact functions) tokens [window.wholeSegment tokens]
      (unmarked window.IsTimestamp tokens) where
  placed_sublist := List.Sublist.refl _
  tokens_eq := by
    rw [map_unmarked, List.flatMap_singleton]
    rfl
  dropped := fun _ hitem hdropped => absurd hitem hdropped
  text_eq := List.forall_mem_singleton.mpr rfl
  start_le := List.forall_mem_singleton.mpr le_rfl
  le_end := List.forall_mem_singleton.mpr hbounds
  start_eq := List.forall_mem_singleton.mpr (.inr ⟨rfl, rfl⟩)

/-- **No text is lost, doubled or moved.** -/
theorem tokensToSegments_lossless (window : TokenWindow F) (tokens : List UInt32)
    (hbounds : window.windowStartSec ≤ window.windowEndSec) :
    ∃ placed, window.Lossless (.exact functions) tokens
      (window.tokensToSegments (.exact functions) tokens) placed := by
  rcases tokensToSegments_cases (.exact functions) window tokens with hruns | ⟨-, hwhole, -⟩
  · rw [hruns]
    exact ⟨_, lossless_segmentsOf tokens functions⟩
  · rw [hwhole]
    exact ⟨_, lossless_wholeSegment tokens functions hbounds⟩

end Exact

/-- The text is one letter for each token that is not special. -/
def letters (tokens : List UInt32) : Option String :=
  some (String.ofList ((tokens.filter (· < 50257)).map fun _ => 'a'))

def letterWindow : TokenWindow ℚ where
  decode := letters
  windowIndex := 0
  windowStartSec := 0
  windowEndSec := 30
  timestampBegin := 50364

def rationalFunctions : Arithmetic.Functions ℚ where
  negInfinity := -1
  powf x _ := x
  exp x := x
  ln x := x
  toU32 _ := 0

/-- The second timestamp is before the first one. -/
theorem tokensToSegments_lossless_backwards : ∃ placed, letterWindow.Lossless
    (.exact rationalFunctions) [50414, 100, 50364, 101, 102]
      (letterWindow.tokensToSegments (.exact rationalFunctions) [50414, 100, 50364, 101, 102])
        placed := by
  have hbounds : letterWindow.windowStartSec ≤ letterWindow.windowEndSec := by
    change (0 : ℚ) ≤ 30
    norm_num
  exact tokensToSegments_lossless rationalFunctions letterWindow _ hbounds

end TokenWindow

end RkWhisper
