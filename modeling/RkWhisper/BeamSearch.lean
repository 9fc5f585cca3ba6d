import RkWhisper.Lib.Arithmetic
import RkWhisper.Lib.CheckedArithmetic
import RkWhisper.Lib.SliceSort
import RkWhisper.Spec

/-!
# Beam search

A search over the decoder's answers. The decoder is a function of its state and a token, and the
suppressor one of the tokens and the logits, which it changes in place; scores are computed in any
arithmetic, with the library's sorts. A search whose step fails is dropped by its caller.
-/

namespace RkWhisper

inductive Panic where
  | sort (fault : SliceSort.Fault)
  | checked (fault : Checked.Fault)
  | unwrapNone
deriving DecidableEq

/-- How a call ends that does not return its result. -/
inductive Failure (ε : Type) where
  | panic (panic : Panic)
  | error (error : ε)

/-- `decoder.step`, whose logits are those of the whole vocabulary. -/
structure StepDecoder (spec : WhisperSpec) (ε σ F : Type) where
  step : σ → UInt32 → Except ε (List F × σ)
  length_step : ∀ {state tokenId logits state'},
    step state tokenId = .ok (logits, state') → logits.length = spec.vocab

/-- `suppress_tokens`. A slice keeps its length. -/
structure Suppressor (F : Type) where
  apply : List UInt32 → List F → List F
  length_apply : ∀ tokens logits, (apply tokens logits).length = logits.length

structure Beam (σ F : Type) where
  tokens : List UInt32
  logProb : F
  state : σ
  lastLogits : List F
  finished : Bool := false

/-- A child of a beam: what its parent and its token score in logarithms. -/
structure Candidate (F : Type) where
  beamIdx : Nat
  tokenId : UInt32
  parentLogProb : F
  tokenLogProb : F

structure BeamSearch (σ F : Type) where
  size : Nat
  beams : List (Beam σ F)
  finishedBeams : List (Beam σ F)
  alpha : F

variable {spec : WhisperSpec} {ε σ F : Type}

/-- `Option::unwrap`. -/
def unwrap {α : Type} : Option α → Except Panic α
  | some x => .ok x
  | none => .error .unwrapNone

section Score

variable (A : Arithmetic F)

def Beam.score (alpha : F) (beam : Beam σ F) : F :=
  if beam.tokens.length = 0 then beam.logProb
  else A.div beam.logProb (A.powf (A.literal beam.tokens.length) alpha)

def Candidate.score (candidate : Candidate F) : F :=
  A.add candidate.parentLogProb candidate.tokenLogProb

/-- The logarithms of the probabilities that a beam's logits stand for. -/
def logSoftmax (logits : List F) : List F :=
  let maxLogit := logits.foldl A.max A.negInfinity
  let sumExp := A.sum (logits.map fun x => A.exp (A.sub x maxLogit))
  let logSumExp := A.add maxLogit (A.ln sumExp)
  logits.map fun l => A.sub l logSumExp

/-- Greater numbers come first. -/
def descendingBy {α : Type} (key : α → F) (a b : α) : Ordering := A.compare (key b) (key a)

end Score

namespace BeamSearch

def new (A : Arithmetic F) (size : Nat) (initialState : σ) (initialLogits : List F)
    (initialTokens : List UInt32) (alpha : F) : BeamSearch σ F :=
  { size
    beams := [{ tokens := initialTokens, logProb := A.literal 0, state := initialState
                lastLogits := initialLogits }]
    finishedBeams := []
    alpha }

/-! ### Phase 1 -/

section Candidates

variable (sorter : SliceSort.Sorter) (A : Arithmetic F) (suppress : Suppressor F)

/-- Every token with its log-probability; the cast to `u32` keeps the low bits. -/
def tokenCandidates (beam : Beam σ F) : List (F × UInt32) :=
  (logSoftmax A (suppress.apply beam.tokens beam.lastLogits)).zipIdx.map fun (logP, id) =>
    (logP, UInt32.ofNat id)

def beamCandidates (size : Nat) (beamIdx : Nat) (beam : Beam σ F) :
    Except Panic (List (Candidate F)) :=
  if beam.finished then .ok []
  else do
    let candidates ← (sorter.selectNthUnstableBy (tokenCandidates A suppress beam) size
      (descendingBy A Prod.fst)).mapError .sort
    return (candidates.take size).map fun (tokenLogProb, tokenId) =>
      { beamIdx, tokenId, parentLogProb := beam.logProb, tokenLogProb }

/-- The candidates of a step. -/
def keptCandidates (size : Nat) (beams : List (Option (Beam σ F))) :
    Except Panic (List (Candidate F)) := do
  let candidates ← beams.zipIdx.mapM fun (slot, beamIdx) => do
    beamCandidates sorter A suppress size beamIdx (← unwrap slot)
  let sorted ← (sorter.sortBy candidates.flatten
    (descendingBy A (Candidate.score A))).mapError .sort
  return sorted.take size

end Candidates

/-! ### Phase 2 -/

/-- How many candidates are children of each beam. -/
def refCounts (beams : Nat) (candidates : List (Candidate F)) : Except Panic (List Nat) :=
  candidates.foldlM (fun counts candidate => do
    let count ← (Checked.index counts candidate.beamIdx).mapError .checked
    return counts.set candidate.beamIdx (count + 1)) (List.replicate beams 0)

/-- The parent of the next candidate. It is moved out for its last child and cloned for others. -/
def takeParent (beams : List (Option (Beam σ F))) (counts : List Nat) (beamIdx : Nat) :
    Except Panic (Beam σ F × List (Option (Beam σ F)) × List Nat) := do
  let count ← (Checked.index counts beamIdx).mapError .checked
  let count ← (Checked.subNat count 1).mapError .checked
  let parent ← unwrap (← (Checked.index beams beamIdx).mapError .checked)
  return (parent, if count = 0 then beams.set beamIdx none else beams, counts.set beamIdx count)

def push (search : BeamSearch σ F) (beam : Beam σ F) : BeamSearch σ F :=
  if beam.finished then { search with finishedBeams := search.finishedBeams ++ [beam] }
  else { search with beams := search.beams ++ [beam] }

variable (sorter : SliceSort.Sorter) (A : Arithmetic F) (decoder : StepDecoder spec ε σ F)
  (suppress : Suppressor F)

/-- The beam of a candidate. -/
def child (parent : Beam σ F) (candidate : Candidate F) : Except ε (Beam σ F) :=
  let tokens := parent.tokens ++ [candidate.tokenId]
  let logProb := candidate.score A
  if candidate.tokenId = spec.tokenEot then
    .ok { tokens, logProb, state := parent.state, lastLogits := [], finished := true }
  else do
    let (lastLogits, state) ← decoder.step parent.state candidate.tokenId
    return { tokens, logProb, state, lastLogits }

/-- One round of the loop over the candidates. -/
def expandOne (loop : BeamSearch σ F × List (Option (Beam σ F)) × List Nat)
    (candidate : Candidate F) :
    Except (Failure ε) (BeamSearch σ F × List (Option (Beam σ F)) × List Nat) := do
  let (search, beams, counts) := loop
  let (parent, beams, counts) ← (takeParent beams counts candidate.beamIdx).mapError .panic
  let beam ← (child A decoder parent candidate).mapError .error
  return (search.push beam, beams, counts)

def step (search : BeamSearch σ F) : Except (Failure ε) (BeamSearch σ F) := do
  let beams := search.beams.map some
  let candidates ← (keptCandidates sorter A suppress search.size beams).mapError .panic
  -- The beams that were finished already are moved out before their references are counted.
  let finished := beams.filterMap fun slot => slot.filter Beam.finished
  let beams := beams.map fun slot => slot.filter fun beam => !beam.finished
  let counts ← (refCounts beams.length candidates).mapError .panic
  let search :=
    { search with beams := [], finishedBeams := search.finishedBeams ++ finished }
  let (search, _) ← candidates.foldlM (expandOne A decoder) (search, beams, counts)
  return search

/-! ### The result -/

/-- The beam `best_result` takes its tokens from. -/
def best (search : BeamSearch σ F) : Option (Beam σ F) :=
  SliceSort.maxBy (fun a b => A.compare (a.score A search.alpha) (b.score A search.alpha))
    (search.beams ++ search.finishedBeams)

def bestResult (search : BeamSearch σ F) : Option (List UInt32) :=
  (search.best A).map Beam.tokens

end BeamSearch

end RkWhisper
