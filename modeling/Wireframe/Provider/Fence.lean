import Wireframe.Json.Recovery

/-!
Finding JSON in an answer that may be fenced.
-/

namespace Wireframe.Json

open Text

/-- A fenced text: what stands between a fence, perhaps labelled, and the next one. -/
def fencedText : Recogniser (List Char) := fun _ s => do
  let s ← after? fence s
  let s := (after? "json".toList s).getD s
  let (inner, rest) ← splitAt? fence (trimStart s)
  return (inner, rest)

/-- Whether a text starts like an object or a list. -/
def looksLikeContainer (s : List Char) : Bool := s.head? = some '\x7b' || s.head? = some '['

/-- A text without a fence at its start. -/
def dropOpeningFence (s : List Char) : List Char :=
  (after? (fence ++ "json".toList) s).getD ((after? fence s).getD s)

/-- A text without a fence at its end. -/
def dropClosingFence (s : List Char) : List Char :=
  ((after? fence s.reverse).map List.reverse).getD s

/-- The JSON in an answer: the first fenced text that looks like a container, or all of the answer without
the fences at its ends. -/
def block (content : List Char) : List Char :=
  let content := trim content
  match ((findAll fencedText content).map trim).find? looksLikeContainer with
  | some inner => inner
  | none => trim (dropClosingFence (dropOpeningFence content))

end Wireframe.Json
