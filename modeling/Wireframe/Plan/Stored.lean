import Wireframe.Json.Diagnosis
import Wireframe.Json.Writer
import Wireframe.Plan.Basic
import Wireframe.Plan.Explanation

/-!
Plans and explanations read back from stored text.
-/

namespace Wireframe

/-- The data in a stored text. -/
def storedValue (s : String) : Decoded Value :=
  match Json.readStored s.toList with
  | .ok v => .ok v
  | .error reason => Decoded.issue [] (.notJson reason)

/-- The plan in a stored text. -/
def Plan.ofText (s : String) : Decoded Plan := storedValue s >>= Plan.ofValue

/-- An explanation as a stored text. -/
def Explanation.toText (e : Explanation) : String := Json.text .line e.toValue

/-- The explanation in a stored text. -/
def Explanation.ofText (s : String) : Decoded Explanation := storedValue s >>= Explanation.ofValue

end Wireframe
