import Wireframe.Component
import Wireframe.Text.Quoted

/-!
Putting contracts together into a registry: names are unique, a contract needs and limits only props that
it declares, and exactly the known components are there.
-/

namespace Wireframe.Component

inductive RegistryError
  | duplicate (name : String)
  | undeclaredRequired (name : String) (props : List String)
  | undeclaredVariants (name : String) (props : List String)
  | otherNames
deriving DecidableEq, Repr

/-- The distinct names that are not among `known`, sorted. -/
def missingFrom (known names : List String) : List String :=
  sortNames (names.filter fun n => !known.contains n).eraseDups

/-- The contracts that were registered so far, checked against the next one. -/
def register (done : List Component) (c : Component) : Except RegistryError (List Component) :=
  if done.any (·.name = c.name) then .error (.duplicate c.name)
  else
    match missingFrom c.props c.required, missingFrom c.props (c.variants.map (·.1)) with
    | [], [] => .ok (done ++ [c])
    | [], extra => .error (.undeclaredVariants c.name extra)
    | extra, _ => .error (.undeclaredRequired c.name extra)

/-- The names of a registry of contracts in the usual order. -/
def buildRegistry (components : List Component) : Except RegistryError (List String) := do
  let done ← components.foldlM register []
  if done.all (fun c => names.contains c.name) && names.all (fun n => done.any (·.name = n)) then
    return names
  else throw .otherNames

def RegistryError.message : RegistryError → String
  | duplicate name => s!"Duplicate component schema: {name}"
  | undeclaredRequired name props => s!"{name}: required props not declared: {quoteAll props}"
  | undeclaredVariants name props => s!"{name}: variant keys not declared: {quoteAll props}"
  | otherNames => "Registry order does not match registered components"

end Wireframe.Component
