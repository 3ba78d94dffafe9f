import Wireframe.Text.Blank
import Wireframe.Text.Case
import Wireframe.Text.Search
import Wireframe.Text.Word

/-!
Scanning a text for what a recogniser accepts. A recogniser sees the character before a position and the
text from there on; it answers what it found and the text behind it. Finds do not overlap, and the leftmost
comes first.
-/

namespace Wireframe.Text

/-- What may be found at a position: a value and the text after the find. -/
abbrev Recogniser (α : Type) := Option Char → List Char → Option (α × List Char)

variable {α : Type}

/-- The finds in a text, after `skip` characters that belong to the last find. -/
def findFrom (r : Recogniser α) : Option Char → Nat → List Char → List α
  | _, _, [] => []
  | _, skip + 1, c :: cs => findFrom r (some c) skip cs
  | before, 0, c :: cs =>
    match r before (c :: cs) with
    | some (a, rest) => a :: findFrom r (some c) (cs.length - rest.length) cs
    | none => findFrom r (some c) 0 cs

/-- All finds in a text. -/
def findAll (r : Recogniser α) (s : List Char) : List α := findFrom r none 0 s

/-- The text with each find replaced, after `skip` characters that belong to the last find. -/
def replaceFrom (r : Recogniser (List Char)) : Option Char → Nat → List Char → List Char
  | _, _, [] => []
  | _, skip + 1, c :: cs => replaceFrom r (some c) skip cs
  | before, 0, c :: cs =>
    match r before (c :: cs) with
    | some (new, rest) => new ++ replaceFrom r (some c) (cs.length - rest.length) cs
    | none => c :: replaceFrom r (some c) 0 cs

/-- A text with each find replaced by what the recogniser answers. -/
def replaceAll (r : Recogniser (List Char)) (s : List Char) : List Char := replaceFrom r none 0 s

/-- The first find in a text that follows `before`: the text in front of it, the find, and the text after
it. -/
def search (r : Recogniser α) (before : Option Char) :
    List Char → Option (List Char × α × List Char)
  | [] => (r before []).map fun (a, rest) => ([], a, rest)
  | c :: cs =>
    match r before (c :: cs) with
    | some (a, rest) => some ([], a, rest)
    | none => (search r (some c) cs).map fun (front, a, rest) => (c :: front, a, rest)

/-- Whether a text holds a find. -/
def occurs (r : Recogniser α) (s : List Char) : Bool := (search r none s).isSome

/-- A text without the blanks at its start, of which there has to be one. -/
def blanks? : List Char → Option (List Char)
  | [] => none
  | c :: cs => if isBlank c then some (trimStart cs) else none

/-- The longest run of characters of a class, which may not be empty, and what follows it. -/
def run? (p : Char → Bool) (s : List Char) : Option (List Char × List Char) :=
  match s.span p with
  | ([], _) => none
  | found => some found

/-- The word characters at the front of a text. -/
def wordRun (s : List Char) : List Char × List Char := s.span isWord

/-- A fixed word, behind which no further word character follows. -/
def wholeWord? (w s : List Char) : Option (List Char) := do
  let rest ← after? w s
  if rest.head?.any isWord then none else some rest

/-- A fixed word in lower case, found in any case. -/
def afterFolded? : List Char → List Char → Option (List Char)
  | [], s => some s
  | _ :: _, [] => none
  | a :: as, b :: bs => if foldsTo a b then afterFolded? as bs else none

end Wireframe.Text
