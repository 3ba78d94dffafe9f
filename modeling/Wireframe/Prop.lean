import Wireframe.Text.Quoted

/-!
Props of layout nodes. A prop name stands in attribute position, so it is a plain identifier; a prop value
is closed data: texts, numbers, truth values, and lists and text-keyed dictionaries of these.
-/

namespace Wireframe

/-- The props of a node in the order in which they were given. -/
abbrev Props := List (String × Value)

namespace Props

def get? (props : Props) (name : String) : Option Value := (props.find? (·.1 = name)).map (·.2)

def has (props : Props) (name : String) : Bool := props.any (·.1 = name)

/-- Props as data. -/
def toValue (props : Props) : Value := .object props

end Props

/-- A character that a prop name may start with. -/
def isNameStart (c : Char) : Bool := c.isAlpha || c = '_'

/-- A character inside a prop name. -/
def isNameChar (c : Char) : Bool := c.isAlphanum || c = '_'

/-- A prop name is a letter or underscore followed by letters, digits and underscores; one newline may
close it. -/
def isPropName : List Char → Bool
  | [] => false
  | c :: cs =>
    isNameStart c &&
      match cs.dropWhile isNameChar with
      | [] | ['\n'] => true
      | _ => false

/-- Why a value is no prop value; the place is the path that leads to the value. -/
inductive PropFault
  | notFinite (place : String)
  | keyNotText (place : String)
  | null (place : String)
  | unsupported (place kind : String)
deriving DecidableEq, Repr

namespace PropFault

def message : PropFault → String
  | notFinite place => s!"{place}: non-finite number is not a valid prop value"
  | keyNotText place => s!"{place}: object keys must be strings"
  | null place => s!"{place}: null is not a valid prop value"
  | unsupported place kind => s!"{place}: unsupported prop value type {kind}"

end PropFault

namespace Value

/-- The place of a list item. -/
def itemPlace (place : String) (i : Nat) : String := s!"{place}[{i}]"

/-- The place of a dictionary entry. -/
def entryPlace (place key : String) : String := s!"{place}.{key}"

/-- What is wrong with a value by itself, whatever stands in it: a dictionary is at fault for a key that is no
text. -/
def ownFault? (place : String) : Value → Option PropFault
  | bool _ | text _ | int _ | list _ => none
  | float x => if x.IsFinite then none else some (.notFinite place)
  | dict entries => if entries.all (·.1.isText) then none else some (.keyNotText place)
  | null => some (.null place)
  | bytes _ => some (.unsupported place "bytes")
  | tuple _ => some (.unsupported place "tuple")
  | set _ => some (.unsupported place "set")
  | other o => some (.unsupported place o.kind)

/-- What stands in a list or a dictionary, with the places that lead to it. -/
def inside (place : String) : Value → List (String × Value)
  | list items => items.mapIdx fun i x => (itemPlace place i, x)
  | dict entries => entries.map fun (k, v) => (entryPlace place (k.text?.getD ""), v)
  | _ => []

mutual

/-- How many values a list or a dictionary is made of, itself among them. -/
def weight : Value → Nat
  | list items => weightOf items + 1
  | dict entries => weightIn entries + 1
  | _ => 1

def weightOf : List Value → Nat
  | [] => 0
  | x :: rest => weight x + weightOf rest

def weightIn : List (Value × Value) → Nat
  | [] => 0
  | (_, v) :: rest => weight v + weightIn rest

end

theorem weightOf_append (xs ys : List Value) : weightOf (xs ++ ys) = weightOf xs + weightOf ys := by
  induction xs with
  | nil => rw [List.nil_append, weightOf, Nat.zero_add]
  | cons x xs ih => rw [List.cons_append, weightOf, weightOf, ih, Nat.add_assoc]

theorem weightOf_reverse (xs : List Value) : weightOf xs.reverse = weightOf xs := by
  induction xs with
  | nil => rfl
  | cons x xs ih =>
    rw [List.reverse_cons, weightOf_append, ih, weightOf, weightOf, weightOf]
    omega

theorem weightOf_values (entries : List (Value × Value)) :
    weightOf (entries.map (·.2)) = weightIn entries := by
  induction entries with
  | nil => rfl
  | cons e rest ih => rw [List.map_cons, weightOf, ih, weightIn]

/-- The values that still have to be looked at, by their weight. -/
def workload (todo : List (String × Value)) : Nat := weightOf (todo.map (·.2))

theorem workload_inside_lt (place : String) (v : Value) : workload (v.inside place) < v.weight := by
  cases v with
  | list items =>
    have hmap : ((list items).inside place).map (·.2) = items :=
      List.ext_getElem (by simp [inside]) (by simp [inside])
    rw [workload, hmap, weight]
    exact Nat.lt_succ_self _
  | dict entries =>
    have hmap : ((dict entries).inside place).map (·.2) = entries.map (·.2) := by
      simp [inside, Function.comp_def]
    rw [workload, hmap, weightOf_values, weight]
    exact Nat.lt_succ_self _
  | _ => exact Nat.one_pos

theorem workload_append (todo rest : List (String × Value)) :
    workload (todo ++ rest) = workload todo + workload rest := by
  rw [workload, List.map_append, weightOf_append, workload, workload]

theorem workload_reverse (todo : List (String × Value)) : workload todo.reverse = workload todo := by
  rw [workload, List.map_reverse, weightOf_reverse, workload]

/-- The first fault that comes up among values with their places, the next one of which is in front. What
stands in a value comes next, its last item first. -/
@[semireducible] def search? : List (String × Value) → Option PropFault
  | [] => none
  | (place, v) :: rest =>
    match v.ownFault? place with
    | some fault => some fault
    | none => search? ((v.inside place).reverse ++ rest)
termination_by todo => workload todo
decreasing_by
  rw [workload_append, workload_reverse]
  show _ < v.weight + workload rest
  exact Nat.add_lt_add_right (workload_inside_lt place v) _

/-- What is wrong with a value as a prop value. -/
def propFault? (place : String) (v : Value) : Option PropFault := search? [(place, v)]

end Value

/-- Why props are refused. -/
inductive PropsFault
  | badName (name : String)
  | badValue (fault : PropFault)
deriving DecidableEq, Repr

namespace PropsFault

def message : PropsFault → String
  | badName name => s!"Invalid prop name: {quote name}"
  | badValue fault => fault.message

end PropsFault

/-- What is wrong with props; the first prop at fault counts. -/
def Props.fault? (props : Props) : Option PropsFault :=
  props.findSome? fun (name, value) =>
    if isPropName name.toList then (value.propFault? s!"props.{name}").map .badValue
    else some (.badName name)

end Wireframe
