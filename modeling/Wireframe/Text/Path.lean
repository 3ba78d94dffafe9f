import Wireframe.Text.Search

/-!
Paths in their plain form: no repeated slash, no part that stays in place, no slash at the end.
-/

namespace Wireframe.Text

/-- A text cut at each slash. -/
def splitSlashes : List Char → List (List Char)
  | [] => [[]]
  | '/' :: rest => [] :: splitSlashes rest
  | c :: rest =>
    match splitSlashes rest with
    | [] => [[c]]
    | first :: others => (c :: first) :: others

/-- What a path starts from; exactly two slashes mean something else than one. -/
def pathRoot : List Char → List Char
  | ['/', '/'] => ['/', '/']
  | '/' :: '/' :: c :: _ => if c = '/' then ['/'] else ['/', '/']
  | '/' :: _ => ['/']
  | _ => []

/-- The plain form of a path. -/
def plainPath (s : List Char) : List Char :=
  let parts := (splitSlashes s).filter fun p => p ≠ [] ∧ p ≠ ['.']
  match pathRoot s ++ joined ['/'] parts with
  | [] => ['.']
  | path => path

end Wireframe.Text
