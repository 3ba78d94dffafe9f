import Wireframe.Decoding

/-!
Explanations of a generated layout for people.
-/

namespace Wireframe

/-- A design decision and the reason for it. -/
structure Decision where
  decision : String
  reasoning : String
deriving DecidableEq, Repr

/-- The account of a layout; the names of the components it used are distinct. -/
structure Explanation where
  summary : String
  decisions : List Decision
  componentsUsed : List String
deriving DecidableEq, Repr

open Decoded

def Decision.decode (place : List String) (v : Value) : Decoded Decision :=
  record "Decision" place v fun entries =>
    (both (required place entries ["decision"] text) (required place entries ["reasoning"] text)).map
      fun (decision, reasoning) => ⟨decision, reasoning⟩

def Decision.toValue (d : Decision) : Value :=
  .object [("decision", .text d.decision), ("reasoning", .text d.reasoning)]

namespace Explanation

/-- The explanation that data stands for; of a repeated name the first occurrence counts. -/
def ofValue (v : Value) : Decoded Explanation :=
  record "Explanation" [] v fun entries =>
    (both (required [] entries ["summary"] text)
      (both (optional [] [] entries ["decisions"] (list Decision.decode))
        (optional [] [] entries ["componentsUsed", "components_used"] (list text)))).map
          fun (summary, decisions, names) => ⟨summary, decisions, names.eraseDups⟩

def toValue (e : Explanation) : Value :=
  .object [
    ("summary", .text e.summary),
    ("decisions", .list (e.decisions.map Decision.toValue)),
    ("componentsUsed", .list (e.componentsUsed.map .text))]

end Explanation

end Wireframe
