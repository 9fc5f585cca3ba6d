import Mathlib.Data.List.DropRight
import Mathlib.Data.UInt

/-!
# The options of a transcription

What a client asks for beside its audio. The tokens to suppress come as a text, which the daemon
parses; a text that it cannot parse asks for the default.
-/

namespace RkWhisper

/-- `char::is_whitespace`, the property `White_Space` of Unicode. -/
def isWhitespace (c : Char) : Bool :=
  (0x9 ≤ c.toNat && c.toNat ≤ 0xd) || c.toNat == 0x20 || c.toNat == 0x85 || c.toNat == 0xa0 ||
    c.toNat == 0x1680 || (0x2000 ≤ c.toNat && c.toNat ≤ 0x200a) || c.toNat == 0x2028 ||
    c.toNat == 0x2029 || c.toNat == 0x202f || c.toNat == 0x205f || c.toNat == 0x3000

/-- `str::trim`. -/
def trim (text : String) : String :=
  String.ofList ((text.toList.dropWhile isWhitespace).rdropWhile isWhitespace)

/-- The digits of `parse::<u32>`, most significant first; the first fault is the one reported. -/
def parseDigits : Nat → List Char → Except String UInt32
  | value, [] => .ok (UInt32.ofNat value)
  | value, c :: digits =>
      if c.isDigit then
        let value := 10 * value + (c.toNat - '0'.toNat)
        if value < 2 ^ 32 then parseDigits value digits
        else .error "number too large to fit in target type"
      else .error "invalid digit found in string"

/-- `parse::<u32>`. A sign alone is no number, and one more sign is no digit. -/
def parseU32 (text : String) : Except String UInt32 :=
  match text.toList with
  | [] => .error "cannot parse integer from empty string"
  | ['+'] => .error "invalid digit found in string"
  | '+' :: digits => parseDigits 0 digits
  | digits => parseDigits 0 digits

inductive SuppressTokens where
  | default
  | none
  | ids (ids : List UInt32)
deriving DecidableEq

namespace SuppressTokens

def parsePart (part : String) : Except String UInt32 :=
  (parseU32 (trim part)).mapError fun e => s!"invalid token id `{part}` in --suppress-tokens: {e}"

def parse (value : String) : Except String SuppressTokens :=
  let value := trim value
  if value = "default" then .ok .default
  else if value = "none" then .ok .none
  else if value = "" then .ok (.ids [])
  else ((value.toList.splitOn ',').mapM fun part => parsePart (String.ofList part)).map .ids

end SuppressTokens

structure TranscribeOptions where
  lang : String
  task : String
  notimestamps : Bool
  maxNewTokens : Nat
  beamSize : Nat
  suppressTokens : SuppressTokens
deriving DecidableEq

end RkWhisper
