import Wireframe.Markup.Task

/-!
Layouts as lines of markup. Every line is one tag: a node without children takes one line, any other an
opening line, the lines of its children, and a closing line.
-/

namespace Wireframe.Markup

/-- A line of markup; the root is at level zero. -/
inductive Line
  | single (level : Nat) (tag attributes : List Char)
  | wrapped (level : Nat) (tag attributes content : List Char)
  | opening (level : Nat) (tag attributes content : List Char)
  | closing (level : Nat) (tag : List Char)
deriving DecidableEq, Repr

namespace Line

/-- The blanks before a line; each level takes two more. -/
def indent (level : Nat) : List Char := List.replicate (4 + 2 * level) ' '

def text : Line → List Char
  | single level tag attributes => indent level ++ '<' :: (tag ++ attributes ++ [' ', '/', '>'])
  | wrapped level tag attributes content =>
    indent level ++ '<' :: (tag ++ attributes ++ '>' :: (content ++ '<' :: '/' :: (tag ++ ['>'])))
  | opening level tag attributes content => indent level ++ '<' :: (tag ++ attributes ++ '>' :: content)
  | closing level tag => indent level ++ '<' :: '/' :: (tag ++ ['>'])

/-- The tag that a line opens. -/
def opens? : Line → Option String
  | single _ tag _ | wrapped _ tag _ _ | opening _ tag _ _ => some (String.ofList tag)
  | closing .. => none

end Line

/-- The first line of a node, and the only one where it has no children. -/
def firstLine (bounds : Json.Bounds) (level : Nat) (type : String) (n : Layout.Node) :
    Except MarkupError Line := do
  let tag := type.toList
  let attrs ← attributesText bounds n.props
  let content ← (Props.text? n.props).mapM fun s => content bounds s.toList
  if n.childList.isEmpty then
    match content with
    | none => return .single level tag attrs
    | some c => return .wrapped level tag attrs c
  else return .opening level tag attrs (content.getD [])

/-- The lines that tasks come to, behind those that are done already, of which the last comes first. -/
def renderTasks (bounds : Json.Bounds) (l : Layout) (limit : Quantity) (done : List Line) :
    List Task → Except MarkupError (List Line)
  | [] => .ok done.reverse
  | .close level tag :: rest => renderTasks bounds l limit (.closing level tag :: done) rest
  | .enter level r :: rest =>
    match _h : component l limit level r with
    | .error e => .error e
    | .ok (type, n) => do
      let line ← firstLine bounds level type n
      renderTasks bounds l limit (line :: done) (childTasks level type n ++ rest)
termination_by tasks => work l limit tasks
decreasing_by
  · rw [work, Task.effort]
    omega
  · rw [work_append, work]
    exact Nat.add_lt_add_right (work_childTasks _h) _

/-- The lines of a layout. -/
def render (bounds : Json.Bounds) (l : Layout) (limit : Quantity) : Except MarkupError (List Line) :=
  renderTasks bounds l limit [] [.enter 0 l.root]

/-- The components that lines use, in the order of their first use. -/
def components (lines : List Line) : List String := (lines.filterMap Line.opens?).eraseDups

/-- The text of lines. -/
def text (lines : List Line) : List Char := Text.joined ['\n'] (lines.map Line.text)

end Wireframe.Markup
