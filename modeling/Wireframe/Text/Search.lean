/-!
Finding and replacing fixed texts.
-/

namespace Wireframe.Text

/-- What follows `start` at the front of a text. -/
def after? (start : List Char) (s : List Char) : Option (List Char) :=
  match start, s with
  | [], s => some s
  | _ :: _, [] => none
  | a :: as, b :: bs => if a = b then after? as bs else none

def startsWith (start s : List Char) : Bool := start.isPrefixOf s

/-- The text before the first place where `part` stands, and the text after that occurrence. -/
def splitAt? (part : List Char) : List Char → Option (List Char × List Char)
  | [] => (after? part []).map fun rest => ([], rest)
  | c :: cs =>
    match after? part (c :: cs) with
    | some rest => some ([], rest)
    | none => (splitAt? part cs).map fun (front, rest) => (c :: front, rest)

/-- Whether `part` occurs somewhere in a text. -/
def contains (part s : List Char) : Bool := (splitAt? part s).isSome

/-- Every occurrence of one character written as a text. -/
def substitute (c : Char) (by_ : List Char) (s : List Char) : List Char :=
  s.flatMap fun x => if x = c then by_ else [x]

/-- Texts with a separator between neighbours. -/
def joined (separator : List Char) : List (List Char) → List Char
  | [] => []
  | [s] => s
  | s :: rest => s ++ separator ++ joined separator rest

/-- A text cut at each newline, the ends included: `n` newlines give `n + 1` pieces. -/
def splitNewlines : List Char → List (List Char)
  | [] => [[]]
  | '\n' :: rest => [] :: splitNewlines rest
  | c :: rest =>
    match splitNewlines rest with
    | [] => [[c]]
    | first :: others => (c :: first) :: others

end Wireframe.Text
