import Wireframe.Value

/-!
The shape of plans as a JSON Schema.
-/

namespace Wireframe.Plan

open Value

/-- What the schema says about nodes. -/
def nodeDescription : String :=
  "\n".intercalate [
    "Recursive node definition for the UI layout tree.",
    "",
    "Each node names a whitelisted component, optional static props and an",
    "ordered list of children.",
    "",
    "Attributes:",
    "    type: Component name (checked against the registry by the validator).",
    "    props: Static props. A string \x60\x60children\x60\x60 prop is text content.",
    "    children: Nested child nodes.",
    "",
    "Example:",
    "    >>> node = LayoutNode(",
    "    ...     type=\"Card\",",
    "    ...     props=\x7b\"title\": \"Users\"\x7d,",
    "    ...     children=[LayoutNode(type=\"Button\", props=\x7b\"children\": \"Add\"\x7d)],",
    "    ... )"]

/-- The schema of something that is of a kind or null. -/
def orNull (kind : List (String × Value)) (description title : String) : Value :=
  .object [
    ("anyOf", .list [.object kind, .object [("type", .text "null")]]),
    ("default", .null),
    ("description", .text description),
    ("title", .text title)]

/-- The schema of nodes. -/
def nodeSchema : Value :=
  .object [
    ("additionalProperties", .bool false),
    ("description", .text nodeDescription),
    ("properties", .object [
      ("type", .object [
        ("description", .text "Component name"),
        ("minLength", .int 1),
        ("title", .text "Type"),
        ("type", .text "string")]),
      ("props", orNull [("additionalProperties", .bool true), ("type", .text "object")]
        "Static props; values are JSON literals" "Props"),
      ("children", orNull
        [("items", .object [("$ref", .text "#/$defs/LayoutNode")]), ("type", .text "array")]
        "Ordered child nodes" "Children")]),
    ("required", .list [.text "type"]),
    ("title", .text "LayoutNode"),
    ("type", .text "object")]

/-- The schema of plans. -/
def jsonSchema : Value :=
  .object [
    ("$defs", .object [("LayoutNode", nodeSchema)]),
    ("description", .text "A planner's answer: the interpreted intent and the layout tree."),
    ("properties", .object [
      ("intent", .object [
        ("description", .text "What the planner understood"),
        ("title", .text "Intent"),
        ("type", .text "string")]),
      ("layoutTree", .object [("$ref", .text "#/$defs/LayoutNode")])]),
    ("required", .list [.text "intent", .text "layoutTree"]),
    ("title", .text "Plan"),
    ("type", .text "object")]

end Wireframe.Plan
