import Wireframe.Markup.Render
import Wireframe.Plan.Basic

/-!
The source of an interface: an import for each component in use, and one function that returns the markup
of the plan's layout.
-/

namespace Wireframe

/-- A generated module. -/
structure Source where
  code : List Char
  components : List String
deriving DecidableEq, Repr

namespace Source

/-- The name of the function that a generated module exports. -/
def rootName : String := "GeneratedUI"

/-- The import of a component. -/
def importLine (name : String) : List Char :=
  s!"import {name} from '{Component.importPath name}';".toList

/-- The line that opens the function. -/
def header : List Char := s!"export default function {rootName}() \x7b".toList

/-- The text of a module with the given imports and markup. -/
def assemble (components : List String) (markup : List Char) : List Char :=
  Text.joined ['\n'] (components.map importLine) ++ "\n\n".toList ++ header ++ "\n  return (\n".toList
    ++ markup ++ "\n  );\n\x7d\n".toList

/-- The source for a plan. The plan's intent plays no part in it. -/
def generate (bounds : Json.Bounds) (plan : Plan) (limit : Quantity) : Except MarkupError Source := do
  let lines ← Markup.render bounds plan.layout limit
  let components := Markup.components lines
  return ⟨assemble components (Markup.text lines), components⟩

end Source

end Wireframe
