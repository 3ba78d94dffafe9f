import Wireframe.Component
import Wireframe.Prop

/-!
Layout trees: each node names a component, may carry props, and has its children in order. Props and
children that are not given are kept apart from empty ones.
-/

namespace Wireframe

inductive Tree
  | node (type : String) (props : Option Props) (children : Option (List Tree))
deriving Inhabited

namespace Tree

def type : Tree → String
  | node type _ _ => type

def props : Tree → Option Props
  | node _ props _ => props

def children : Tree → Option (List Tree)
  | node _ _ children => children

/-- The child nodes, none when they are not given. -/
def childList (t : Tree) : List Tree := t.children.getD []

mutual

/-- The number of nodes. -/
def size : Tree → Nat
  | node _ _ none => 1
  | node _ _ (some cs) => sizeAll cs + 1

def sizeAll : List Tree → Nat
  | [] => 0
  | t :: rest => size t + sizeAll rest

end

mutual

/-- The types of all nodes, each node before its children. -/
def types : Tree → List String
  | node type _ none => [type]
  | node type _ (some cs) => type :: typesAll cs

def typesAll : List Tree → List String
  | [] => []
  | t :: rest => types t ++ typesAll rest

end

end Tree

namespace Props

/-- The text content among props: the text prop, where it holds a text. -/
def text? (props : Option Props) : Option String :=
  match props.bind (·.get? Component.textProp) with
  | some (.text s) => some s
  | _ => none

/-- The props that become attributes: all of them, less the text content. -/
def attributes (props : Option Props) : Props :=
  match text? props with
  | none => props.getD []
  | some _ => (props.getD []).filter (·.1 ≠ Component.textProp)

end Props

/-- A node is a leaf when it has neither children nor text content. -/
def Tree.isLeaf (t : Tree) : Bool := t.childList.isEmpty && (Props.text? t.props).isNone

end Wireframe
