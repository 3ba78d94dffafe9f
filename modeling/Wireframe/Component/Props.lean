import Wireframe.Component
import Wireframe.Prop
import Wireframe.Value.Sorting

/-!
Props against a component's contract. A missing prop and a value outside an enumeration are errors, a prop
that the component does not declare is a warning.
-/

namespace Wireframe

/-- What a check of props found. -/
structure PropReport where
  errors : List String
  warnings : List String
deriving DecidableEq, Repr

namespace PropReport

def isValid (report : PropReport) : Bool := report.errors.isEmpty

end PropReport

namespace Component

/-- The errors for props that are needed and not there; child nodes stand for the text prop. -/
def missingErrors (c : Component) (has : String → Bool) (hasChildren : Bool) : List String :=
  ((sortNames c.required).filter fun p => !has p && !(p == textProp && hasChildren)).map fun p =>
    s!"Required prop '{p}' missing for component '{c.name}'."

/-- The errors for texts outside a prop's enumeration, in the order of the contract. -/
def variantErrors (c : Component) (get : String → Option Value) : List String :=
  c.variants.filterMap fun (p, allowed) =>
    match get p with
    | some (.text s) =>
      if allowed.contains s then none
      else
        let choices := ", ".intercalate allowed
        some (s!"Invalid value '{s}' for prop '{p}' in component '{c.name}'. "
          ++ s!"Allowed values: {choices}")
    | _ => none

def undeclaredWarning (c : Component) (p : String) : String :=
  s!"Prop '{p}' is not a valid prop for component '{c.name}'."

/-- Props with text names against the contract. -/
def checkProps (c : Component) (props : Props) (hasChildren : Bool) : PropReport where
  errors :=
    c.missingErrors (fun p => props.any (·.1 = p)) hasChildren
      ++ c.variantErrors fun p => (props.find? (·.1 = p)).map (·.2)
  warnings :=
    ((sortNames (props.map (·.1))).filter fun p => !c.props.contains p).map c.undeclaredWarning

/-- A dictionary with keys of any kind against the contract; keys without an order cannot be listed. -/
def checkEntries (c : Component) (entries : List (Value × Value)) (hasChildren : Bool) :
    Except Incomparable PropReport := do
  let get (p : String) : Option Value := (Value.dict entries).get? p
  let sorted ← Value.sortByKey (·.1) entries
  let unknown := sorted.filter fun (k, _) => !(k.text?.any fun p => c.props.contains p)
  return {
    errors := c.missingErrors (fun p => (get p).isSome) hasChildren ++ c.variantErrors get
    warnings := unknown.map fun (k, _) => c.undeclaredWarning k.display }

end Component

/-- The report on a name that no component has. -/
def PropReport.unknownComponent (name : String) : PropReport :=
  ⟨[s!"Component '{name}' not found in schema."], []⟩

/-- A dictionary against the contract of the component with a name; nothing but a text names one. -/
def PropReport.ofEntries (name : Value) (entries : List (Value × Value)) (hasChildren : Bool) :
    Except Incomparable PropReport :=
  match name.text?.bind Component.find? with
  | none => .ok (.unknownComponent name.display)
  | some c => c.checkEntries entries hasChildren

end Wireframe
