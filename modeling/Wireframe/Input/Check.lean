import Wireframe.Number.Quantity
import Wireframe.Text.Blank
import Wireframe.Value

/-!
The first check of what a user hands over: a text that is there, is not blank, and is not too long.
-/

namespace Wireframe.Input

/-- Why a user's text is refused. -/
inductive Fault
  | missing (field : String)
  | notText (field kind : String)
  | blank (field : String)
  | tooLong (field : String) (length : Nat) (limit : Quantity)
deriving DecidableEq, Repr

namespace Fault

def message : Fault → String
  | missing field => s!"Missing required field '{field}'"
  | notText field kind => s!"Field '{field}' must be a string, got {kind}"
  | blank field => s!"Field '{field}' must not be empty"
  | tooLong field length limit =>
    s!"Field '{field}' is {length} characters, maximum is {limit.text}"

end Fault

/-- The text of a user, unchanged. -/
def check (field : String) (limit : Quantity) : Value → Except Fault String
  | .null => .error (.missing field)
  | .text s =>
    if (Text.trim s.toList).isEmpty then .error (.blank field)
    else if limit.isExceededBy s.length then .error (.tooLong field s.length limit)
    else .ok s
  | v => .error (.notText field v.kindName)

end Wireframe.Input
