import RkWhisper.Proof.Delivery
import RkWhisper.Proof.Transcript
import RkWhisper.Spec

/-!
# Blank segments

The loop of `tokens_to_segments` leaves out a run whose text is blank, and so does the segment for a
whole window. The tokens after the last timestamp are not looked at: they make a segment whatever
their text is, and a client is sent it. This is the only way to a blank segment.
-/

namespace RkWhisper

open MarkedRuns Transition

namespace TokenWindow

variable {F : Type} (A : Arithmetic F) (window : TokenWindow F) (tokens : List UInt32)

/-- The tokens after the last timestamp, or all where there is none. -/
def trailing : List UInt32 := tokens.rtakeWhile fun token => ¬ window.IsTimestamp token

/-- After the last timestamp there is text, or nothing at all. -/
def EndsWell : Prop := window.trailing tokens = [] ∨ ¬ window.Blank (window.trailing tokens)

instance : Decidable (window.EndsWell tokens) := inferInstanceAs (Decidable (_ ∨ _))

variable {A window tokens}

theorem run_eq_trailing {piece : Piece UInt32} (h : piece ∈ pieces window.IsTimestamp tokens)
    (hafter : piece.after = []) : piece.run = window.trailing tokens := by
  rw [(maximal_of_mem_pieces h).run_eq hafter, whole_of_mem_pieces h, trailing]

/-- A kept run has text, unless nothing comes after it. -/
theorem not_blank_of_kept (hends : window.EndsWell tokens) {piece : Piece UInt32}
    (hpiece : piece ∈ pieces window.IsTimestamp tokens) (hkept : window.Kept piece) :
    ¬ window.Blank piece.run := by
  by_cases hafter : piece.after = []
  · have hrun := run_eq_trailing hpiece hafter
    rw [hrun]
    exact hends.resolve_left (hrun ▸ hkept.1)
  · exact hkept.2 hafter

variable (A window tokens) in
/-- **Blank segments come from the end.** -/
theorem forall_not_blank_iff : (∀ segment ∈ window.tokensToSegments A tokens,
    trim segment.text ≠ "") ↔ window.EndsWell tokens := by
  constructor
  · intro hall
    by_contra hends
    rw [EndsWell, not_or, not_not] at hends
    obtain ⟨piece, hpiece, hafter⟩ := exists_last_piece window.IsTimestamp [] [] tokens
    have hrun := run_eq_trailing hpiece hafter
    have hkept : window.Kept piece := ⟨hrun ▸ hends.1, fun hne => absurd hafter hne⟩
    have hmem : window.segmentOf A piece ∈
        window.segmentsOf A (pieces window.IsTimestamp tokens) :=
      mem_segmentsOf.mpr ⟨piece, hpiece, hkept, rfl⟩
    rcases tokensToSegments_cases A window tokens with hruns | ⟨hnone, -⟩
    · have hblank : window.Blank piece.run := hrun ▸ hends.2
      exact hall (window.segmentOf A piece) (hruns ▸ hmem) hblank
    · rw [hnone] at hmem
      cases hmem
  · intro hends segment hsegment
    rcases tokensToSegments_cases A window tokens with hruns | ⟨-, hwhole, hblank⟩
    · rw [hruns] at hsegment
      obtain ⟨piece, hpiece, hkept, rfl⟩ := mem_segmentsOf.mp hsegment
      exact not_blank_of_kept hends hpiece hkept
    · rw [hwhole, List.mem_singleton] at hsegment
      rw [hsegment]
      exact hblank

end TokenWindow

/-! ### What the client is sent -/

def JobResponse.IsBlank : JobResponse → Prop
  | .segment text .. => trim text = ""
  | _ => False

theorem mem_segmentsOfAnswers {answers : List WindowTranscription} {count : Nat}
    {response : JobResponse} : response ∈ segmentsOfAnswers answers count ↔
      ∃ index < count, ∃ answer ∈ answerTo answers index, response ∈ answer.responses := by
  rw [segmentsOfAnswers, List.mem_flatMap]
  refine exists_congr fun index => ?_
  rw [List.mem_range]
  refine and_congr_right fun _ => ?_
  cases answerTo answers index with
  | none => simp
  | some answer => simp

/-- The segments of an answer are those of its tokens. -/
def WindowTranscription.MadeOf (A : Arithmetic F32) (window : TokenWindow F32)
    (tokens : List UInt32) (answer : WindowTranscription) : Prop :=
  answer.segments = (window.tokensToSegments A tokens).map TimedSegment.toTranscriptSegment

theorem WindowTranscription.MadeOf.forall_not_isBlank_iff {A : Arithmetic F32}
    {window : TokenWindow F32} {tokens : List UInt32} {answer : WindowTranscription}
    (h : answer.MadeOf A window tokens) :
    (∀ response ∈ answer.responses, ¬ response.IsBlank) ↔ window.EndsWell tokens := by
  rw [← TokenWindow.forall_not_blank_iff A, WindowTranscription.responses, h]
  simp only [List.forall_mem_map]
  rfl

namespace LiveRun

variable {maxInFlight jobId : Nat} {header : RequestHeader} {chunkRx : ChunkReceiver}
  {vadEnabled : Bool} {events : List Event} {run : LiveRun}

/-- What the client is sent are the segments of the answers in order. -/
theorem forall_not_isBlank_iff (h : Delivery maxInFlight run) :
    (∀ response ∈ run.job.responseTx, ¬ response.IsBlank) ↔
      ∀ index < run.job.nextResultIndex, ∀ answer ∈ answerTo run.answers index,
        ∀ response ∈ answer.responses, ¬ response.IsBlank := by
  have hsent (response : JobResponse) :
      response ∈ run.job.responseTx ∧ response.isSegment = true ↔
        ∃ index < run.job.nextResultIndex, ∃ answer ∈ answerTo run.answers index,
          response ∈ answer.responses := by
    rw [← mem_segmentsOfAnswers, ← h.segments, List.mem_filter]
  constructor
  · intro hall index hindex answer hanswer response hresponse
    exact hall response ((hsent response).mpr ⟨index, hindex, answer, hanswer, hresponse⟩).1
  · intro hall response hresponse hblank
    have hsegment : response.isSegment = true := by
      cases response with
      | segment text begin_ end_ => rfl
      | _ => cases hblank
    obtain ⟨index, hindex, answer, hanswer, hmem⟩ := (hsent response).mp ⟨hresponse, hsegment⟩
    exact hall index hindex answer hanswer response hmem hblank

end LiveRun

/-- **No segment is blank, or tokens without text end a window.** It is so of what one window gives
and, where every answer is made of tokens, of what a client has been sent after any run. -/
theorem no_blank_segment_iff {F : Type} (A : Arithmetic F) (window : TokenWindow F)
    (tokens : List UInt32) :
    ((∀ segment ∈ window.tokensToSegments A tokens, trim segment.text ≠ "") ↔
      window.EndsWell tokens) ∧
    ∀ (A : Arithmetic F32) (window : WindowTranscription → TokenWindow F32)
      (tokens : WindowTranscription → List UInt32) (maxInFlight jobId : Nat)
      (header : RequestHeader) (chunkRx : ChunkReceiver) (vadEnabled : Bool)
      (events : List LiveRun.Event) (run : LiveRun),
      Run (LiveRun.Step maxInFlight) (.start jobId header chunkRx vadEnabled) events run →
      (∀ answer ∈ run.answers, answer.MadeOf A (window answer) (tokens answer)) →
        ((∀ response ∈ run.job.responseTx, ¬ response.IsBlank) ↔
          ∀ index < run.job.nextResultIndex, ∀ answer ∈ answerTo run.answers index,
            (window answer).EndsWell (tokens answer)) := by
  refine ⟨TokenWindow.forall_not_blank_iff A window tokens, ?_⟩
  intro A window tokens maxInFlight jobId header chunkRx vadEnabled events run hrun hmade
  rw [LiveRun.forall_not_isBlank_iff (.of_run hrun)]
  refine forall₄_congr fun index _ answer hanswer => ?_
  exact (hmade answer (List.mem_of_find?_eq_some hanswer)).forall_not_isBlank_iff

/-! ### An end of the text after the last timestamp -/

/-- The tokenizer says nothing for the end of the text, which makes a segment all the same. -/
theorem blank_segment_eot :
    (∀ tokens, TokenWindow.letters tokens =
      TokenWindow.letters (tokens.filter (· < whisperTiny.tokenEot))) ∧
    (TokenWindow.letterWindow.tokensToSegments (.exact TokenWindow.rationalFunctions)
      [50364, 100, 50414, 50257]).map (fun segment => (segment.text, segment.tokens)) =
        [("a", [100]), ("", [50257])] ∧
    ¬ ∀ segment ∈ TokenWindow.letterWindow.tokensToSegments (.exact TokenWindow.rationalFunctions)
      [50364, 100, 50414, 50257], trim segment.text ≠ "" := by
  refine ⟨fun tokens => ?_, by decide +kernel, by decide +kernel⟩
  have hspecial : whisperTiny.tokenEot = 50257 := rfl
  rw [TokenWindow.letters, TokenWindow.letters, hspecial, List.filter_filter]
  simp only [Bool.and_self]

/-! ### An answer without a timestamp -/

/-- No time is computed for it. -/
def orderOnly : Arithmetic F32 where
  literal _ := F32.ofNat 0
  negInfinity := F32.ofNat 0
  add x _ := x
  sub x _ := x
  mul x _ := x
  div x _ := x
  max x y := if x.ge y then x else y
  powf x _ := x
  exp x := x
  ln x := x
  sum _ := F32.ofNat 0
  toU32 _ := 0
  partialCmp x y := if x.isNaN || y.isNaN then none else some (compare x.key y.key)

def letterWindow32 : TokenWindow F32 where
  decode := TokenWindow.letters
  windowIndex := 0
  windowStartSec := F32.ofNat 0
  windowEndSec := F32.ofNat 30
  timestampBegin := 50364

def letterAnswer : WindowTranscription where
  windowIndex := 0
  absoluteStartSec := F32.ofNat 0
  text := "a"
  segments := [⟨F32.ofNat 0, F32.ofNat 30, "a", [100], 0⟩]

def letterEvents : List LiveRun.Event :=
  [.arrive (.ok { samples := [F32.ofNat 1] }), .hangUp, .drain, .dispatch true,
    .whisperResult letterAnswer]

theorem no_blank_segment_letter : ∃ run,
    Run (LiveRun.Step 3) (.start 7 {} {} false) letterEvents run ∧
      run.job.responseTx.length = 1 ∧
        ∀ response ∈ run.job.responseTx, ¬ response.IsBlank := by
  have hmade : letterAnswer.MadeOf orderOnly letterWindow32 [100] := by
    unfold WindowTranscription.MadeOf
    decide +kernel
  have hends : letterWindow32.EndsWell [100] := by decide +kernel
  have hfold : ((letterEvents.foldlM (LiveRun.step 3) (.start 7 {} {} false)).map fun run =>
      (run.answers, run.job.responseTx.length)) = some ([letterAnswer], 1) := by
    decide +kernel
  obtain ⟨run, hstate, hview⟩ := Option.map_eq_some_iff.mp hfold
  obtain ⟨hanswers, hlength⟩ := Prod.mk.inj hview
  have hrun : Run (LiveRun.Step 3) (.start 7 {} {} false) letterEvents run :=
    Run.of_foldlM (fun _ _ _ hstep => hstep) hstate
  refine ⟨run, hrun, hlength, ?_⟩
  have hsent := (no_blank_segment_iff orderOnly letterWindow32 [100]).2 orderOnly
    (fun _ => letterWindow32) (fun _ => [100]) 3 7 {} {} false letterEvents run hrun
  refine (hsent ?_).mpr fun _ _ _ _ => hends
  rw [hanswers, List.forall_mem_singleton]
  exact hmade

end RkWhisper
