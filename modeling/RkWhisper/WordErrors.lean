import RkWhisper.Lib.Tables

/-!
# Word errors

`_normalize` and `_process_words` of the benchmark. The Unicode tables behind `str.lower` are a
parameter. An index below zero, with which Python would read from the end, is a fault.
-/

namespace RkWhisper

open Tables

/-! ### The words of a text -/

/-- `string.punctuation`. -/
def isPunctuation (c : Char) : Bool :=
  let n := c.toNat
  33 ≤ n && n ≤ 47 || 58 ≤ n && n ≤ 64 || 91 ≤ n && n ≤ 96 || 123 ≤ n && n ≤ 126

/-- `str.isspace`. -/
def isSpace (c : Char) : Bool :=
  let n := c.toNat
  9 ≤ n && n ≤ 13 || 28 ≤ n && n ≤ 32 || n == 0x85 || n == 0xa0 || n == 0x1680 ||
    0x2000 ≤ n && n ≤ 0x200a || n == 0x2028 || n == 0x2029 || n == 0x202f || n == 0x205f ||
      n == 0x3000

/-- `re.sub(r"\s+", " ", text)`, after a space or not. -/
def collapseSpaces : Bool → List Char → List Char
  | _, [] => []
  | afterSpace, c :: text =>
      if isSpace c then
        if afterSpace then collapseSpaces true text else ' ' :: collapseSpaces true text
      else c :: collapseSpaces false text

/-- `text.split()`. -/
def splitWords (text : List Char) : List String :=
  ((text.splitOnP isSpace).filter fun word => !word.isEmpty).map String.ofList

def normalize (lower : String → String) (text : String) : List String :=
  splitWords (collapseSpaces false ((lower text).toList.filter fun c => !isPunctuation c))

example : normalize id " so,  what? " = ["so", "what"] := by decide

/-! ### The table -/

structure WerResult where
  hits : Nat := 0
  substitutions : Nat := 0
  deletions : Nat := 0
  insertions : Nat := 0
deriving DecidableEq

variable {α : Type} [DecidableEq α]

/-- One round of the inner loop. -/
def fillCell (ref hyp : List α) (mat : List (List Nat)) (i j : Nat) :
    Except Fault (List (List Nat)) := do
  if (← item ref (i - 1 : Int)) = (← item hyp (j - 1 : Int)) then
    setCell mat i j (← cell mat (i - 1 : Int) (j - 1 : Int))
  else
    setCell mat i j (1 + min (← cell mat (i - 1 : Int) (j - 1 : Int))
      (min (← cell mat (i - 1 : Int) j) (← cell mat i (j - 1 : Int))))

/-- One round of the outer loop. -/
def fillRow (ref hyp : List α) (mat : List (List Nat)) (i : Nat) :
    Except Fault (List (List Nat)) :=
  (List.range' 1 hyp.length).foldlM (fun mat j => fillCell ref hyp mat i j) mat

def distanceTable (ref hyp : List α) : Except Fault (List (List Nat)) := do
  let r := ref.length
  let h := hyp.length
  let mat := List.replicate (r + 1) (List.replicate (h + 1) 0)
  let mat ← (List.range (h + 1)).foldlM (fun mat (j : Nat) => setCell mat 0 j j) mat
  let mat ← (List.range (r + 1)).foldlM (fun mat (i : Nat) => setCell mat i 0 i) mat
  (List.range' 1 r).foldlM (fillRow ref hyp) mat

/-! ### The backtrace -/

structure Backtrace where
  i : Int
  j : Int
  result : WerResult

namespace Backtrace

variable (ref hyp : List α) (mat : List (List Nat)) (state : Backtrace)

def isHit : Except Fault Bool := do
  if 0 < state.i ∧ 0 < state.j then
    return decide ((← item ref (state.i - 1)) = (← item hyp (state.j - 1)))
  else return false

def isSubstitution : Except Fault Bool := do
  if 0 < state.i ∧ 0 < state.j then
    return (← cell mat state.i state.j) == (← cell mat (state.i - 1) (state.j - 1)) + 1
  else return false

def isDeletion : Except Fault Bool := do
  if 0 < state.i then
    return (← cell mat state.i state.j) == (← cell mat (state.i - 1) state.j) + 1
  else return false

/-- One round of the loop; an insertion is what remains. -/
def step : Except Fault Backtrace := do
  let ⟨i, j, result⟩ := state
  if ← isHit ref hyp state then
    return ⟨i - 1, j - 1, { result with hits := result.hits + 1 }⟩
  else if ← isSubstitution mat state then
    return ⟨i - 1, j - 1, { result with substitutions := result.substitutions + 1 }⟩
  else if ← isDeletion mat state then
    return ⟨i - 1, j, { result with deletions := result.deletions + 1 }⟩
  else return ⟨i, j - 1, { result with insertions := result.insertions + 1 }⟩

/-- `while i > 0 or j > 0`, for so many rounds; `none` when there are not enough. -/
def run : Nat → Backtrace → Except Fault (Option WerResult)
  | 0, state => .ok (if 0 < state.i ∨ 0 < state.j then none else some state.result)
  | rounds + 1, state => do
      if 0 < state.i ∨ 0 < state.j then run rounds (← step ref hyp mat state)
      else return some state.result

end Backtrace

/-- `_process_words` once both texts are normalized. -/
def countErrors (rounds : Nat) (ref hyp : List α) : Except Fault (Option WerResult) := do
  let mat ← distanceTable ref hyp
  Backtrace.run ref hyp mat rounds { i := ref.length, j := hyp.length, result := {} }

def processWords (lower : String → String) (rounds : Nat) (reference hypothesis : String) :
    Except Fault (Option WerResult) :=
  countErrors rounds (normalize lower reference) (normalize lower hypothesis)

end RkWhisper
