import Wireframe.Json.Reader
import Wireframe.Text.Scan

/-!
Recovering a JSON object from an answer that is not quite JSON: fences around it, prose in front of it or
behind it, and commas before a closing bracket. Candidates are tried in a fixed order.
-/

namespace Wireframe.Json

open Text

/-- The object that a candidate is, if it is one. What is too much for the reader ends the search. -/
def object? (room : Room) (s : List Char) : Except Excess (Option Value) :=
  match readWithin room s with
  | .ok (.dict entries) => .ok (some (.dict entries))
  | .ok _ => .ok none
  | .error ⟨.excess e, _⟩ => .error e
  | .error _ => .ok none

/-- Whether a line starts after a character. -/
def startsLine (before : Option Char) : Bool := before.all (· = '\n')

/-- Whether a line ends before a text. -/
def endsLine (s : List Char) : Bool := s.head?.all (· = '\n')

def fence : List Char := ['\x60', '\x60', '\x60']

/-- A fence at the start of a line with the blanks behind it. -/
def openingFence (label : List Char) : Recogniser (List Char) := fun before s => do
  if startsLine before then some ([], trimStart (← after? (fence ++ label) s)) else none

/-- A fence at the end of a line with the blanks in front of it. -/
def closingFence : Recogniser (List Char) := fun _ s => do
  let rest ← after? fence (trimStart s)
  if endsLine rest then some ([], rest) else none

/-- A comma in front of a closing bracket. -/
def strayComma (closing : Char) : Recogniser (List Char) := fun _ s => do
  let rest ← after? [closing] (trimStart (← after? [','] s))
  return ([closing], rest)

/-- An answer without fences and stray commas. -/
def cleaned (s : List Char) : List Char :=
  [openingFence "json".toList, openingFence [], closingFence, strayComma '\x7d', strayComma ']'].foldl
    (fun s r => replaceAll r s) (trim s)

/-- The text from the first opening brace to the last closing one. -/
def widestBraces? (s : List Char) : Option (List Char) :=
  let inner := s.dropWhile (· ≠ '\x7b')
  let span := dropEndWhile (· ≠ '\x7d') inner
  if span.isEmpty then none else some span

/-- What people put in front of an object. -/
def prosePrefixes : List String :=
  ["Here is the JSON:", "Here's the JSON:", "Here is the plan:", "JSON output:", "Output:", "Result:"]

/-- The texts behind known prose. -/
def afterProse (s : List Char) : List (List Char) :=
  (prosePrefixes.filter fun p => startsWith (lower p.toList) (lower s)).map fun p =>
    trim (s.drop p.length)

/-- Where a scan for a balanced object stands: outside of texts, in a text, or behind a backslash in a
text. -/
inductive ScanMode
  | plain
  | text
  | escaped
deriving DecidableEq, Repr

/-- The shortest front of a text that closes `depth` braces; braces inside quoted texts do not count. -/
def balancedFrom (depth : Nat) : ScanMode → List Char → Option (List Char)
  | _, [] => none
  | .escaped, c :: rest => (balancedFrom depth .text rest).map (c :: ·)
  | .text, c :: rest =>
    let mode := if c = '\\' then ScanMode.escaped else if c = '"' then .plain else .text
    (balancedFrom depth mode rest).map (c :: ·)
  | .plain, c :: rest =>
    if c = '"' then (balancedFrom depth .text rest).map (c :: ·)
    else if c = '\x7b' then (balancedFrom (depth + 1) .plain rest).map (c :: ·)
    else if c = '\x7d' then
      if depth ≤ 1 then some [c] else (balancedFrom (depth - 1) .plain rest).map (c :: ·)
    else (balancedFrom depth .plain rest).map (c :: ·)

/-- The first balanced object in a text. -/
def firstBalanced? (s : List Char) : Option (List Char) :=
  match s.dropWhile (· ≠ '\x7b') with
  | [] => none
  | inner => balancedFrom 0 .plain inner

/-- The texts that may be the object, in the order in which they are tried. -/
def candidates (s : List Char) : List (List Char) :=
  s :: ((widestBraces? s).toList ++ afterProse s ++ (firstBalanced? s).toList)

/-- The first candidate that is an object. -/
def firstObject? (room : Room) : List (List Char) → Except Excess (Option Value)
  | [] => .ok none
  | s :: rest => do
    match ← object? room s with
    | some v => return some v
    | none => firstObject? room rest

/-- The object in an answer. -/
def recover? (room : Room) (s : List Char) : Except Excess (Option Value) :=
  firstObject? room (candidates (cleaned s))

end Wireframe.Json
