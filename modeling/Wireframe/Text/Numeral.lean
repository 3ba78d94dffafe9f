import Wireframe.Number.Double
import Wireframe.Text.Blank
import Wireframe.Text.Case
import Wireframe.Text.Digit

/-!
Numbers written by people: blanks around them, a sign, digits of any script, and single underscores
between digits.
-/

namespace Wireframe.Text

def isAscii (c : Char) : Bool := c.toNat < 128

/-- A text with the digits of every script in ASCII and every blank beyond ASCII a space. -/
def asciiNumeral (s : List Char) : List Char :=
  s.map fun c =>
    if isAscii c then c
    else if isBlank c then ' '
    else
      match digitValue? c with
      | some d => Char.ofNat (48 + d)
      | none => '?'

/-- A text without the blanks of ASCII at its ends. -/
def trimAscii (s : List Char) : List Char := dropEndWhile isAsciiBlank (s.dropWhile isAsciiBlank)

/-- A text without its underscores, each of which has to stand between two digits; `last` says whether the
character before the text is a digit. -/
def dropUnderscores? (last : Bool) : List Char → Option (List Char)
  | [] => some []
  | '_' :: rest =>
    if last && rest.head?.any Char.isDigit then dropUnderscores? false rest else none
  | c :: rest => (dropUnderscores? c.isDigit rest).map (c :: ·)

/-- The sign in front of a number: whether it is negative, and what follows. -/
def takeSign : List Char → Bool × List Char
  | '-' :: rest => (true, rest)
  | '+' :: rest => (false, rest)
  | s => (false, s)

/-- The most digits of a whole number. -/
def wholeDigitLimit : Nat := 4300

/-- The whole number that a text spells. -/
def readInt? (s : List Char) : Option Int := do
  let (negative, digits) := takeSign (← dropUnderscores? false (trimAscii (asciiNumeral s)))
  if digits.isEmpty || !digits.all Char.isDigit || wholeDigitLimit < digits.length then none
  else
    let n : Int := digitsValue digits
    some (if negative then -n else n)

/-- The names of the numbers that are not finite. -/
def namedDouble? (negative : Bool) (s : List Char) : Option Double :=
  match String.ofList (s.map Char.toLower) with
  | "inf" | "infinity" => some (.infinite negative)
  | "nan" => some .nan
  | _ => none

/-- The exponent that ends a number; nothing stands for zero. -/
def readExponent? : List Char → Option Int
  | [] => some 0
  | e :: rest =>
    let (negative, digits) := takeSign rest
    let n : Int := digitsValue digits
    if (e = 'e' ∨ e = 'E') ∧ !digits.isEmpty ∧ digits.all Char.isDigit then
      some (if negative then -n else n)
    else none

/-- The binary64 number that a text spells. -/
def readDouble? (s : List Char) : Option Double := do
  let (negative, body) := takeSign (← dropUnderscores? false (trimAscii (asciiNumeral s)))
  match namedDouble? negative body with
  | some x => return x
  | none =>
    let (whole, rest) := body.span Char.isDigit
    let (places, rest) :=
      match rest with
      | '.' :: more => more.span Char.isDigit
      | rest => ([], rest)
    if whole.isEmpty && places.isEmpty then none
    else
      let e ← readExponent? rest
      return Double.ofDecimal negative (digitsValue (whole ++ places)) (e - places.length)

/-- The truth value that a text names. -/
def readBool? (s : List Char) : Option Bool :=
  match String.ofList (trim (lower s)) with
  | "true" | "1" | "yes" => some true
  | "false" | "0" | "no" => some false
  | _ => none

end Wireframe.Text
