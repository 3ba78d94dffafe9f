import Wireframe.Component.Props
import Wireframe.Layout.Graph
import Wireframe.Number.Quantity

/-!
Checking a layout before anything is generated from it. The layout is walked from the root with a list of
tasks, each node before its children; a node is entered once, so the walk ends on every layout, whatever
its references do. All findings are kept, in the order of the walk.
-/

namespace Wireframe

/-- One finding about a layout, with its place. -/
inductive Finding
  | notANode (place : Layout.Place)
  | cycle (type : Value) (place : Layout.Place)
  | shared (type : Value) (place : Layout.Place)
  | unknownComponent (type : Value) (place : Layout.Place)
  | tooDeep (limit : Quantity) (place : Layout.Place)
  | props (message : String) (place : Layout.Place)

namespace Finding

def place : Finding → Layout.Place
  | notANode place | cycle _ place | shared _ place | unknownComponent _ place | tooDeep _ place
  | props _ place => place

/-- What a finding about props says is a warning, all else is an error. -/
def isError : Finding → Bool
  | props .. => false
  | _ => true

/-- The short name of a kind of finding. -/
def kindName : Finding → String
  | notANode _ => "invalid_node"
  | cycle .. => "cycle"
  | shared .. => "shared_node"
  | unknownComponent .. => "unknown_component"
  | tooDeep .. => "max_depth"
  | props .. => "props"

def message : Finding → String
  | notANode place => s!"Node at {Layout.placeText place} is not a layout node"
  | cycle type place =>
    s!"Cycle detected: '{type.display}' at {Layout.placeText place} is its own ancestor"
  | shared type place =>
    s!"Node '{type.display}' at {Layout.placeText place} appears more than once in the tree"
  | unknownComponent type place =>
    s!"Unknown component type '{type.display}' at {Layout.placeText place}"
  | tooDeep limit place =>
    s!"Tree exceeds maximum depth of {limit.text} below {Layout.placeText place}"
  | props message place => s!"{Layout.placeText place}: {message}"

end Finding

/-- What a check of a layout found. -/
structure LayoutReport where
  findings : List Finding

namespace LayoutReport

def errors (r : LayoutReport) : List Finding := r.findings.filter (·.isError)

def messages (r : LayoutReport) : List String := r.errors.map (·.message)

def warnings (r : LayoutReport) : List String :=
  (r.findings.filter (!·.isError)).map (·.message)

def isValid (r : LayoutReport) : Bool := r.errors.isEmpty

/-- The distinct types that no component has, in the order in which they were found. -/
def unknownTypes (r : LayoutReport) : List Value :=
  r.findings.foldl (fun types f =>
    match f with
    | .unknownComponent type _ => if types.any (·.same type) then types else types ++ [type]
    | _ => types) []

/-- What keeps the first of the unknown types that is no key from being one. These types are collected by
key, so there is no report where one of them is none. -/
def keyless? (r : LayoutReport) : Option String :=
  r.findings.findSome? fun f =>
    match f with
    | .unknownComponent type _ => type.keyless?
    | _ => none

end LayoutReport

namespace Layout

/-- What is left to do in a walk: enter what stands at a place, or leave a node after its children. -/
inductive Task
  | enter (ref : Ref) (place : Place)
  | leave (id : Nat)

/-- The findings about the props of a node; props of an unknown component have no contract. -/
def Node.propFindings (n : Node) (place : Place) : List Finding :=
  match n.type.text?.bind Component.find? with
  | none => []
  | some c =>
    let report := c.checkProps (n.props.getD []) (!n.childList.isEmpty)
    (report.errors ++ report.warnings).map fun message => .props message place

/-- The findings about a node that do not concern its children. -/
def Node.findings (n : Node) (withProps : Bool) (place : Place) : List Finding :=
  if n.isRegistered then if withProps then n.propFindings place else []
  else [.unknownComponent n.type place]

/-- The tasks for the children of a node. -/
def childTasks (place : Place) (children : List Ref) : List Task :=
  children.mapIdx fun i r => .enter r (place ++ [i])

/-- The findings of the walk that is left. `unseen` holds the numbers of the nodes that were not entered
yet, `above` those of the nodes whose children are being walked. -/
def walk (l : Layout) (limit : Quantity) (withProps : Bool) (unseen above : List Nat) :
    List Task → List Finding
  | [] => []
  | .leave id :: rest => walk l limit withProps unseen (above.erase id) rest
  | .enter r place :: rest =>
    match l.node? r with
    | none => .notANode place :: walk l limit withProps unseen above rest
    | some (id, n) =>
      if id ∈ above then .cycle n.type place :: walk l limit withProps unseen above rest
      else if id ∈ unseen then
        n.findings withProps place ++
          if n.childList.isEmpty then walk l limit withProps (unseen.erase id) above rest
          else if limit.isReachedBy (place.length + 1) then
            .tooDeep limit place :: walk l limit withProps (unseen.erase id) above rest
          else
            walk l limit withProps (unseen.erase id) (id :: above)
              (childTasks place n.childList ++ .leave id :: rest)
      else .shared n.type place :: walk l limit withProps unseen above rest
termination_by tasks => (unseen.length, tasks.length)
decreasing_by
  all_goals simp_wf
  all_goals first
    | exact Prod.Lex.right _ (by simp)
    | exact Prod.Lex.left _ _ (by
        have := List.length_erase_of_mem ‹id ∈ unseen›
        have := List.length_pos_of_mem ‹id ∈ unseen›
        omega)

/-- The report on a layout. -/
def check (l : Layout) (limit : Quantity) (withProps : Bool) : LayoutReport :=
  ⟨walk l limit withProps (List.range l.nodes.size) [] [.enter l.root []]⟩

/-- Whether a layout has no errors. -/
def isValid (l : Layout) (limit : Quantity) : Bool := (l.check limit false).isValid

end Layout

end Wireframe
