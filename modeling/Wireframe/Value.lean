import Wireframe.Number.Double

/-!
Data as it arrives from outside: JSON, and what a caller may hand over beside it. Numbers keep whether they
are whole numbers, binary64 numbers or truth values; a dictionary keeps the order of its entries.
-/

namespace Wireframe

/-- An object of some kind of its own, of which no more is known than what can be seen of any object: the
name of its kind, how it is written and shown in messages, whether it counts as true, and whether it can be
a key. -/
structure Foreign where
  kind : String
  written : String
  shown : String
  isTruthy : Bool
  isKey : Bool
deriving DecidableEq, Repr

inductive Value
  | null
  | bool (b : Bool)
  | int (n : Int)
  | float (x : Double)
  | text (s : String)
  | bytes (content : List Nat)
  | list (items : List Value)
  | tuple (items : List Value)
  | set (items : List Value)
  | dict (entries : List (Value × Value))
  | other (o : Foreign)
deriving Inhabited

namespace Value

/-- The name of the kind of a value, as error messages give it. -/
def kindName : Value → String
  | null => "NoneType"
  | bool _ => "bool"
  | int _ => "int"
  | float _ => "float"
  | text _ => "str"
  | bytes _ => "bytes"
  | list _ => "list"
  | tuple _ => "tuple"
  | set _ => "set"
  | dict _ => "dict"
  | other o => o.kind

/-- A dictionary whose keys are texts. -/
def object (entries : List (String × Value)) : Value := dict (entries.map fun (k, v) => (text k, v))

def isText : Value → Bool
  | text _ => true
  | _ => false

def text? : Value → Option String
  | text s => some s
  | _ => none

/-- Truth values count as the numbers zero and one. -/
def magnitude? : Value → Option Magnitude
  | bool b => some (.ofInt (if b then 1 else 0))
  | int n => some (.ofInt n)
  | float x => Magnitude.ofDouble x
  | _ => none

/-- Whether a value counts as true where a condition is asked: zeros and empty containers do not. -/
def isTruthy : Value → Bool
  | null => false
  | bool b => b
  | int n => n != 0
  | float (.finite _ rank) => rank.val != 0
  | float _ => true
  | text s => s != ""
  | bytes content => !content.isEmpty
  | list items | tuple items | set items => !items.isEmpty
  | dict entries => !entries.isEmpty
  | other o => o.isTruthy

mutual

/-- Whether two values are equal; numbers are equal across kinds when they are the same number. -/
def same : Value → Value → Bool
  | null, null => true
  | text s, text t => s = t
  | bytes a, bytes b => a = b
  | list xs, list ys => sameItems xs ys
  | tuple xs, tuple ys => sameItems xs ys
  | set xs, set ys => sameItems xs ys
  | dict xs, dict ys => sameEntries xs ys
  | other a, other b => a = b
  | x, y =>
    match x.magnitude?, y.magnitude? with
    | some a, some b => !a.lt b && !b.lt a
    | _, _ => false

def sameItems : List Value → List Value → Bool
  | [], [] => true
  | x :: xs, y :: ys => same x y && sameItems xs ys
  | _, _ => false

def sameEntries : List (Value × Value) → List (Value × Value) → Bool
  | [], [] => true
  | (j, x) :: xs, (k, y) :: ys => same j k && same x y && sameEntries xs ys
  | _, _ => false

end

/-- An entry put into a dictionary: a key that is there keeps its place and takes the new value. -/
def put (key value : Value) : List (Value × Value) → List (Value × Value)
  | [] => [(key, value)]
  | (k, v) :: rest => if same k key then (k, value) :: rest else (k, v) :: put key value rest

/-- The dictionary of a list of entries, put in one after the other. -/
def ofEntries (entries : List (Value × Value)) : Value :=
  dict (entries.foldl (fun es (k, v) => put k v es) [])

/-- The value at a text key. -/
def get? (key : String) : Value → Option Value
  | dict entries => (entries.find? fun (k, _) => k.text? = some key).map (·.2)
  | _ => none

mutual

/-- The kind of what keeps a value from being a key: a container that can change is no key, and a tuple is
one only if all its items are. -/
def keyless? : Value → Option String
  | list _ => some "list"
  | set _ => some "set"
  | dict _ => some "dict"
  | tuple items => keylessItem? items
  | other o => if o.isKey then none else some o.kind
  | _ => none

def keylessItem? : List Value → Option String
  | [] => none
  | x :: rest => keyless? x <|> keylessItem? rest

end

end Value

end Wireframe
