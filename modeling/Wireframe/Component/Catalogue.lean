import Wireframe.Component
import Wireframe.Value

/-!
The registry as data, for prompts and for export: every contract, the list of names, the groups, and a
small example.
-/

namespace Wireframe.Component

open Value

/-- A list of texts as data. -/
def textList (names : List String) : Value := .list (names.map .text)

/-- A contract as data, its props sorted. -/
def toValue (c : Component) : Value :=
  .object [
    ("name", .text c.name),
    ("description", .text c.description),
    ("category", .text c.category.name),
    ("props", textList (sortNames c.props)),
    ("required", textList (sortNames c.required)),
    ("variants", .object (c.variants.map fun (p, allowed) => (p, textList allowed)))]

/-- A node of the example. -/
def sketch (type : String) (props : List (String × Value)) (children : List Value) : Value :=
  .object ([("type", .text type)]
    ++ (if props.isEmpty then [] else [("props", .object props)])
    ++ (if children.isEmpty then [] else [("children", .list children)]))

/-- A dashboard that uses every way of nesting. -/
def dashboard : Value :=
  let point (label : String) (n : Int) : Value := .object [("label", .text label), ("value", .int n)]
  sketch "Container" [("maxWidth", .text "xl"), ("padding", .text "md")] [
    sketch "Navbar" [("brand", .text "Acme"), ("variant", .text "dark")] [],
    sketch "Stack" [("direction", .text "horizontal"), ("gap", .text "md")] [
      sketch "Card" [("title", .text "Revenue")] [
        sketch "Chart" [("type", .text "bar"), ("data", .list [point "Q1" 12, point "Q2" 18])] []],
      sketch "Button" [("children", .text "Export")] []]]

/-- The whole registry as data. -/
def catalogue : Value :=
  .object [
    ("components", .list (all.map toValue)),
    ("allowed", textList names),
    ("categories", .object (Category.all.map fun c => (c.name, textList (namesIn c)))),
    ("examples", .object [("dashboard", dashboard)])]

end Wireframe.Component
