import RkWhisper.BeamSearch
import RkWhisper.Options

/-!
# The suppression rules

`TokenSuppressor`, which overwrites the logits of the tokens that may not come next. The sets of
token ids are lists; nothing depends on their order.
-/

namespace RkWhisper

def defaultSuppressTokens : List UInt32 :=
  [1, 2, 7, 8, 9, 10, 14, 25, 26, 27, 28, 29, 31, 58, 59, 60, 61, 62, 63, 90, 91, 92, 93, 359,
    503, 522, 542, 873, 893, 902, 918, 922, 931, 1350, 1853, 1982, 2460, 2627, 3246, 3253, 3268,
    3536, 3846, 3961, 4183, 4667, 6585, 6647, 7273, 9061, 9383, 10428, 10929, 11938, 12033, 12331,
    12562, 13793, 14157, 14635, 15265, 15618, 16553, 16604, 18362, 18956, 20075, 21675, 22520,
    26130, 26161, 26435, 28279, 29464, 31650, 32302, 32470, 36865, 42863, 47425, 49870, 50254,
    50258, 50358, 50359, 50360, 50361, 50362]

structure TokenSuppressor where
  promptLen : Nat
  notimestamps : Bool
  eot : UInt32
  sot : UInt32
  notimestampsId : UInt32
  timestampBegin : UInt32
  ids : List UInt32

namespace TokenSuppressor

/-- The tokenizer is asked for one more token in the default mode. -/
def new (spec : WhisperSpec) (tokenToId : String → Option UInt32) (promptLen : Nat)
    (notimestamps : Bool) (mode : SuppressTokens) : TokenSuppressor :=
  { promptLen
    notimestamps
    eot := spec.tokenEot
    sot := spec.tokenSot
    notimestampsId := spec.tokenNotimestamps
    timestampBegin := spec.tokenTimestampBegin
    ids :=
      match mode with
      | .default => defaultSuppressTokens ++ (tokenToId "<|nospeech|>").toList
      | .none => []
      | .ids extra => extra }

variable {F : Type} (A : Arithmetic F)

def suppressed : F := A.literal (-10000)

/-- Ids beyond the logits are ignored. -/
def suppressId (logits : List F) (tokenId : UInt32) : List F :=
  logits.set tokenId.toNat (suppressed A)

/-- `for i in begin..logits.len()`. -/
def suppressFrom (begin_ : Nat) (logits : List F) : List F :=
  logits.mapIdx fun i logit => if begin_ ≤ i then suppressed A else logit

/-- `first..=last`. -/
def idRange (first last : UInt32) : List UInt32 :=
  (List.range' first.toNat (last.toNat + 1 - first.toNat)).map UInt32.ofNat

def penalize (logit : F) : F :=
  if A.gt logit (A.literal 0) then A.div logit (A.literal 1.1) else A.mul logit (A.literal 1.1)

/-- The repetition penalty, once for every token. -/
def penalizeSeen (sot : UInt32) (loop : List UInt32 × List F) (id : UInt32) :
    List UInt32 × List F :=
  let (seen, logits) := loop
  if id < sot ∧ id ∉ seen then (id :: seen, logits.modify id.toNat (penalize A)) else (seen, logits)

def apply (suppressor : TokenSuppressor) (tokens : List UInt32) (logits : List F) : List F :=
  let logits :=
    if tokens.length ≤ suppressor.promptLen then suppressId A logits suppressor.eot else logits
  let logits := (idRange suppressor.sot suppressor.notimestampsId).foldl (suppressId A) logits
  let logits := suppressor.ids.foldl (suppressId A) logits
  let logits :=
    if suppressor.notimestamps then
      suppressFrom A (suppressor.notimestampsId.toNat + 1) logits
    else logits
  -- Only a generated timestamp counts; the one a prompt ends with may be echoed.
  let generated := tokens.drop suppressor.promptLen
  let logits :=
    if generated.getLast?.any (suppressor.timestampBegin ≤ ·) then
      suppressFrom A suppressor.timestampBegin.toNat logits
    else logits
  (generated.foldl (penalizeSeen A suppressor.sot) ([], logits)).2

/-- The penalty in exact arithmetic. -/
theorem penalize_exact {F : Type} [Field F] [LinearOrder F] (functions : Arithmetic.Functions F)
    (x : F) : penalize (.exact functions) x =
      if 0 < x then x / ((1.1 : ℚ) : F) else x * ((1.1 : ℚ) : F) := by
  have hpos : (Arithmetic.exact functions).gt x ((0 : ℚ) : F) = true ↔ 0 < x := by
    rw [Arithmetic.exact_gt, Rat.cast_zero]
  exact if_congr hpos rfl rfl

/-! ### The length -/

theorem length_foldl_suppressId (ids : List UInt32) (logits : List F) :
    (ids.foldl (suppressId A) logits).length = logits.length := by
  induction ids generalizing logits with
  | nil => rfl
  | cons id ids ih =>
      rw [List.foldl_cons, ih]
      exact List.length_set

theorem length_foldl_penalizeSeen (sot : UInt32) (ids : List UInt32)
    (loop : List UInt32 × List F) :
    (ids.foldl (penalizeSeen A sot) loop).2.length = loop.2.length := by
  induction ids generalizing loop with
  | nil => rfl
  | cons id ids ih =>
      rw [List.foldl_cons, ih]
      unfold penalizeSeen
      dsimp only
      split
      · exact List.length_modify ..
      · rfl

theorem length_apply (suppressor : TokenSuppressor) (tokens : List UInt32) (logits : List F) :
    (suppressor.apply A tokens logits).length = logits.length := by
  unfold apply suppressFrom
  rw [length_foldl_penalizeSeen]
  simp only [apply_ite List.length, List.length_mapIdx, length_foldl_suppressId, suppressId,
    List.length_set, ite_self]

/-- The closure that the search calls. -/
def toSuppressor (suppressor : TokenSuppressor) : Suppressor F where
  apply := suppressor.apply A
  length_apply := suppressor.length_apply A

end TokenSuppressor

end RkWhisper
