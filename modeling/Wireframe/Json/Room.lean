import Wireframe.Text.Digit
import Wireframe.Value

/-!
What the platform bounds when JSON is read or written: how many containers may stand inside each other, and
how many digits a whole number may have.
-/

namespace Wireframe.Json

/-- The room that is left for containers inside each other. -/
inductive Room
  | unbounded
  | levels (count : Nat)
deriving DecidableEq, Repr

namespace Room

/-- The room inside a container, if there is room for the container. -/
def inner? : Room → Option Room
  | unbounded => some unbounded
  | levels 0 => none
  | levels (count + 1) => some (levels count)

/-- Whether a container may stand inside so many others. -/
def holds : Room → Nat → Bool
  | unbounded, _ => true
  | levels count, level => level < count

end Room

/-- The bounds of a writer: the digits of a whole number, if they are bounded, and the room. -/
structure Bounds where
  digits : Option Nat
  room : Room
deriving DecidableEq, Repr

/-- No bounds at all. -/
def Bounds.none : Bounds := ⟨Option.none, .unbounded⟩

/-- What a program can take: the room for a text that is read at once and for one that is read after repair,
and the bounds for literals in markup and for what is written for people and prompts. -/
structure Capacity where
  answer : Room
  repaired : Room
  literal : Bounds
  printed : Bounds
deriving DecidableEq, Repr

def Capacity.unbounded : Capacity := ⟨.unbounded, .unbounded, .none, .none⟩

/-- What a text can have too much of: the digits of a whole number, or lists and objects inside each other. -/
inductive Excess
  | digits (count : Nat)
  | lists
  | objects
deriving DecidableEq, Repr

/-- How many digits a whole number has. -/
def digitCount (n : Int) : Nat := (Text.decimal n.natAbs).length

/-- The most digits that a whole number may have. -/
def digitLimit : Nat := 4300

namespace Excess

/-- The message for what was too much for a reader. -/
def message : Excess → String
  | digits count =>
    s!"Exceeds the limit ({digitLimit} digits) for integer string conversion: value has {count} digits; "
      ++ "use sys.set_int_max_str_digits() to increase the limit"
  | lists => "maximum recursion depth exceeded while decoding a JSON array from a unicode string"
  | objects => "maximum recursion depth exceeded while decoding a JSON object from a unicode string"

end Excess

end Wireframe.Json
