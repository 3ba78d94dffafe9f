import Wireframe.Layout.Tree

/-!
Layouts: nodes that refer to their children by number. A tree is one kind of layout; others share nodes,
run in circles, or refer to something that is no node.
-/

namespace Wireframe

/-- What stands in the place of a node. -/
inductive Layout.Ref
  | node (id : Nat)
  | other (v : Value)
deriving Inhabited

/-- A node with references for children. -/
structure Layout.Node where
  type : Value
  props : Option Props
  children : Option (List Layout.Ref)
deriving Inhabited

structure Layout where
  nodes : Array Layout.Node
  root : Layout.Ref
deriving Inhabited

namespace Layout

/-- The child references of a node, none when they are not given. -/
def Node.childList (n : Node) : List Ref := n.children.getD []

/-- Whether a node's type is on the list of components. -/
def Node.isRegistered (n : Node) : Bool := n.type.text?.any Component.isRegistered

/-- The node that a reference leads to, with its number. -/
def node? (l : Layout) : Ref → Option (Nat × Node)
  | .node id => l.nodes[id]?.map fun n => (id, n)
  | .other _ => none

/-- The kind of what stands in the place of a node. -/
def Ref.kindName : Ref → String
  | .node _ => "NoneType"
  | .other v => v.kindName

/-- The numbers that the roots of trees get when they are laid out one after the other. -/
def starts (base : Nat) : List Tree → List Nat
  | [] => []
  | t :: rest => base :: starts (base + t.size) rest

/-- The children of a node when the first of them gets the number `base`. -/
def refs (base : Nat) (children : Option (List Tree)) : Option (List Ref) :=
  children.map fun cs => (starts base cs).map Ref.node

mutual

/-- The nodes of a tree, each before its children, numbered from `base` on. -/
def flatten (base : Nat) : Tree → List Node
  | .node type props none => [⟨.text type, props, none⟩]
  | .node type props (some cs) =>
    ⟨.text type, props, refs (base + 1) (some cs)⟩ :: flattenAll (base + 1) cs

def flattenAll (base : Nat) : List Tree → List Node
  | [] => []
  | t :: rest => flatten base t ++ flattenAll (base + t.size) rest

end

/-- The layout of a tree: every node is an object of its own. -/
def ofTree (t : Tree) : Layout := ⟨(flatten 0 t).toArray, .node 0⟩

/-- A place in a layout: the child positions that lead to it from the root. -/
abbrev Place := List Nat

/-- The text of a place. -/
def placeText (place : Place) : String :=
  place.foldl (fun text i => s!"{text}.children[{i}]") "root"

end Layout

end Wireframe
