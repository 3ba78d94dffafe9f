import Wireframe.Text.Quoted

/-!
UTF-8. Decoding stops at the first bytes that are no character and says which they are; encoding is the
other way round.
-/

namespace Wireframe.Text

/-- What is wrong with bytes that are no character. -/
inductive Utf8Reason
  | badStart
  | badContinuation
  | endsEarly
deriving DecidableEq, Repr

/-- The first bytes that are no character: where they start, the first of them, and how many they are. -/
structure Utf8Fault where
  start : Nat
  first : Nat
  count : Nat
  reason : Utf8Reason
deriving DecidableEq, Repr

namespace Utf8Fault

def reasonText : Utf8Reason → String
  | .badStart => "invalid start byte"
  | .badContinuation => "invalid continuation byte"
  | .endsEarly => "unexpected end of data"

def message (f : Utf8Fault) : String :=
  let what :=
    if f.count = 1 then s!"byte 0x{String.ofList (hex 2 f.first)} in position {f.start}"
    else s!"bytes in position {f.start}-{f.start + f.count - 1}"
  s!"'utf-8' codec can't decode {what}: {reasonText f.reason}"

end Utf8Fault

/-- How many bytes follow a first byte, and the least and greatest that the second one may be; together
they leave out overlong forms, surrogates and what is past the last character. -/
def continuation? (first : Nat) : Option (Nat × Nat × Nat) :=
  if 0xc2 ≤ first ∧ first ≤ 0xdf then some (1, 0x80, 0xbf)
  else if first = 0xe0 then some (2, 0xa0, 0xbf)
  else if first = 0xed then some (2, 0x80, 0x9f)
  else if 0xe1 ≤ first ∧ first ≤ 0xef then some (2, 0x80, 0xbf)
  else if first = 0xf0 then some (3, 0x90, 0xbf)
  else if 0xf1 ≤ first ∧ first ≤ 0xf3 then some (3, 0x80, 0xbf)
  else if first = 0xf4 then some (3, 0x80, 0x8f)
  else none

/-- The payload of a first byte. -/
def leadingBits (first following : Nat) : Nat :=
  match following with
  | 1 => first - 0xc0
  | 2 => first - 0xe0
  | _ => first - 0xf0

/-- Following bytes taken into a code point; `taken` bytes of the character are behind. -/
def takeContinuation (first start : Nat) :
    Nat → Nat → Nat → Nat → Nat → List Nat → Except Utf8Fault (Nat × List Nat)
  | 0, _, _, _, value, rest => .ok (value, rest)
  | following + 1, low, high, taken, value, rest =>
    match rest with
    | [] => .error ⟨start, first, taken, .endsEarly⟩
    | b :: rest =>
      if low ≤ b ∧ b ≤ high then
        takeContinuation first start following 0x80 0xbf (taken + 1) (value * 64 + (b - 0x80)) rest
      else .error ⟨start, first, taken, .badContinuation⟩

/-- The text of bytes that start at a position; a character takes at least one byte, so their number is
fuel enough. -/
def decodeFrom : Nat → Nat → List Nat → Except Utf8Fault (List Char)
  | 0, _, _ | _, _, [] => .ok []
  | fuel + 1, start, first :: rest =>
    if first < 0x80 then do return Char.ofNat first :: (← decodeFrom fuel (start + 1) rest)
    else
      match continuation? first with
      | none => .error ⟨start, first, 1, .badStart⟩
      | some (following, low, high) => do
        let (value, rest) ←
          takeContinuation first start following low high 1 (leadingBits first following) rest
        return Char.ofNat value :: (← decodeFrom fuel (start + following + 1) rest)

/-- The text that bytes encode. -/
def decodeUtf8 (bytes : List Nat) : Except Utf8Fault (List Char) := decodeFrom bytes.length 0 bytes

/-- The bytes that encode a text. -/
def encodeUtf8 (s : List Char) : List Nat :=
  (String.ofList s).toUTF8.toList.map UInt8.toNat

/-- A text with every line end of a file written as a newline. -/
def plainLines : List Char → List Char
  | [] => []
  | '\r' :: '\n' :: rest => '\n' :: plainLines rest
  | '\r' :: rest => '\n' :: plainLines rest
  | c :: rest => c :: plainLines rest

end Wireframe.Text
