import Wireframe.Json.Writer
import Wireframe.Plan.Basic

/-!
Plans as data and as stored text. Writing follows the references of the layout, so a shared node is written
in every place where it stands; a path that returns to a node above it, or that is too long, is refused.
-/

namespace Wireframe

/-- Why a layout cannot be written out. -/
inductive NestingError
  | cycle
  | tooDeep
deriving DecidableEq, Repr

namespace NestingError

def message : NestingError → String
  | cycle => "Circular reference detected (id repeated)"
  | tooDeep => "Circular reference detected (depth exceeded)"

end NestingError

namespace Value

mutual

/-- The greatest number of values that stand inside each other, the value itself counted. -/
def nesting : Value → Nat
  | list items | tuple items | set items => nestingAll items + 1
  | dict entries => nestingEntries entries + 1
  | _ => 1

def nestingAll : List Value → Nat
  | [] => 0
  | x :: rest => max (nesting x) (nestingAll rest)

def nestingEntries : List (Value × Value) → Nat
  | [] => 0
  | (_, v) :: rest => max (nesting v) (nestingEntries rest)

end

end Value

namespace Layout

/-- The most values that may stand inside each other when a layout is written out. -/
def nestingLimit : Nat := 254

/-- Whether the prop values of a node leave `levels` levels unused. -/
def propsFit (levels : Nat) (props : Option Props) : Bool :=
  (props.getD []).all fun (_, v) => v.nesting ≤ levels

/-- The fields of a node that come before its children. -/
def headFields (n : Node) : List (String × Value) :=
  (match n.type with
    | .null => []
    | type => [("type", type)]) ++ Tree.propsEntry n.props

/-- What a reference stands for as data, with at most `levels` values inside each other. `above` holds the
nodes on the way to it; prop values count as levels only where `withProps` says so. -/
def unfold (l : Layout) (withProps : Bool) : Nat → List Nat → Ref → Except NestingError Value
  | 0, above, r =>
    match r with
    | .other v => .ok v
    | .node id => .error (if id ∈ above then .cycle else .tooDeep)
  | levels + 1, above, r =>
    match r with
    | .other v => .ok v
    | .node id =>
      match l.nodes[id]? with
      | none => .ok .null
      | some n =>
        if id ∈ above then .error .cycle
        else if withProps && !propsFit levels n.props then .error .tooDeep
        else
          match n.children with
          | none => .ok (.object (headFields n))
          | some refs => do
            let children ← refs.mapM (unfold l withProps levels (id :: above))
            return .object (headFields n ++ [("children", .list children)])

end Layout

namespace Plan

/-- A plan around the data of its layout. -/
def wrap (intent : String) (layout : Value) : Value :=
  .object [("intent", .text intent), ("layoutTree", layout)]

/-- A plan as data. -/
def toValue (p : Plan) : Except NestingError Value :=
  (p.layout.unfold false Layout.nestingLimit [] p.layout.root).map (wrap p.intent)

/-- Why a plan cannot be stored as text. -/
inductive StoreError
  | nesting (fault : NestingError)
  | unencodable (fault : Json.WriteError)

def StoreError.message : StoreError → String
  | nesting fault => s!"Error serializing to JSON: ValueError: {fault.message}"
  | unencodable fault => fault.message

/-- A plan as one line of JSON. -/
def toText (p : Plan) : Except StoreError String := do
  let layout ← (p.layout.unfold true Layout.nestingLimit [] p.layout.root).mapError .nesting
  let text ← (Json.write .stored 0 (wrap p.intent layout)).mapError .unencodable
  return String.ofList text

end Plan

end Wireframe
