import Wireframe.Decoding
import Wireframe.Layout.Tree

/-!
Decoding data into layout trees, and trees back into data. A node has a type, props and children, and
nothing else.
-/

namespace Wireframe.Tree

open Decoded

/-- The most nodes on a path from the root that decoding accepts. -/
def decodeLimit : Nat := 254

/-- The props of a node; null counts as not given. -/
def decodeProps (place : List String) : Value → Decoded (Option Props)
  | .null => .ok none
  | .dict entries =>
    let wrong := entries.filterMap fun (k, _) =>
      if k.isText then none else some ⟨place ++ [keyPlace k, "[key]"], .textExpected⟩
    if wrong.isEmpty then
      let props : Props := entries.filterMap fun (k, v) => k.text?.map fun name => (name, v)
      match props.fault? with
      | none => .ok (some props)
      | some fault => issue place (.props fault)
    else .error wrong
  | _ => issue place .dictionaryExpected

/-- The names of a node's fields. -/
def fieldNames : List String := ["type", "props", "children"]

/-- The issues of keys that name no field of a node. -/
def unknownFields (place : List String) (entries : List (Value × Value)) : List Issue :=
  entries.filterMap fun (k, _) =>
    match k with
    | .text name => if fieldNames.contains name then none else some ⟨place ++ [name], .unknownField⟩
    | k => some ⟨place ++ [keyPlace k], .keyNotText⟩

/-- A node with at most `levels` nodes on a path down from it. -/
def decode : Nat → List String → Value → Decoded Tree
  | 0, place, _ => issue place .tooDeep
  | levels + 1, place, v =>
    record "LayoutNode" place v fun entries =>
      let children (place : List String) : Value → Decoded (Option (List Tree))
        | .null => .ok none
        | v => (list (decode levels) place v).map some
      let fields :=
        both (required place entries ["type"] nonEmptyText)
          (both (optional none place entries ["props"] decodeProps)
            (optional none place entries ["children"] children))
      match unknownFields place entries with
      | [] => fields.map fun (type, props, children) => node type props children
      | unknown =>
        match fields with
        | .ok _ => .error unknown
        | .error issues => .error (issues ++ unknown)

/-- The tree that data stands for. -/
def ofValue (v : Value) : Decoded Tree := decode decodeLimit [] v

/-- The entry for props that are given. -/
def propsEntry (props : Option Props) : List (String × Value) :=
  props.toList.map fun ps => ("props", ps.toValue)

mutual

/-- A tree as data; what is not given is left out. -/
def toValue : Tree → Value
  | node type props none => .object (("type", .text type) :: propsEntry props)
  | node type props (some cs) =>
    .object (("type", .text type) :: propsEntry props ++ [("children", .list (toValues cs))])

def toValues : List Tree → List Value
  | [] => []
  | t :: rest => toValue t :: toValues rest

end

end Wireframe.Tree
