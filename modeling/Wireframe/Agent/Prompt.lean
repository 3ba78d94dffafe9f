import Wireframe.Component.Catalogue
import Wireframe.Plan.Encode

/-!
The prompts of planner and explainer.
-/

namespace Wireframe

/-- A request for a plan; a modification carries the plan that it starts from. -/
structure PlanRequest where
  text : String
  isModification : Bool
  existing : Option String

/-- A request for an explanation; that of a modification carries its text. -/
structure ExplainRequest where
  plan : Plan
  isModification : Bool
  text : Option String

namespace Prompt

/-- The instructions of the planner, the registry among them. -/
def plannerSystem : String :=
  "\n".intercalate [
    "You are the planner in a UI generation system.",
    "",
    "Your only job is to turn the user's request into a layout tree built from a",
    "fixed component library.",
    "",
    "RULES:",
    "1. Use ONLY the components listed under \"allowed\" in the schema below",
    "2. Use ONLY the props declared for each component",
    "3. Variant props must use one of the listed values",
    "4. Do not invent components, inline styles, event handlers or scripts",
    "5. Text content goes in a string \"children\" prop",
    "",
    "OUTPUT FORMAT:",
    "\x7b",
    "  \"intent\": \"one sentence summary of what the user wants\",",
    "  \"layoutTree\": \x7b\"type\": \"ComponentName\", \"props\": \x7b\x7d, \"children\": []\x7d",
    "\x7d",
    "",
    "COMPONENT SCHEMA:",
    ""] ++ Json.text .pretty Component.catalogue ++ "\n"

/-- The instructions of the explainer. -/
def explainerSystem : String :=
  "\n".intercalate [
    "You are the explainer in a UI generation system.",
    "",
    "Explain the decisions behind a generated layout in plain English: why each",
    "component was chosen, how the layout is structured, and which props matter.",
    "Be concise.",
    "",
    "OUTPUT FORMAT:",
    "\x7b",
    "  \"summary\": \"brief overall explanation\",",
    "  \"decisions\": [\x7b\"decision\": \"what was decided\", \"reasoning\": \"why\"\x7d],",
    "  \"componentsUsed\": [\"Component1\", \"Component2\"]",
    "\x7d",
    ""]

/-- A text that is given and not empty. -/
def filled? (s : Option String) : Option String := s.filter (· ≠ "")

/-- The prompt for a plan. -/
def forPlan (r : PlanRequest) : String :=
  match (if r.isModification then filled? r.existing else none) with
  | some existing =>
    s!"The user wants to modify an existing UI.\n\nEXISTING PLAN:\n{existing}\n\n"
      ++ s!"MODIFICATION REQUEST:\n{r.text}\n\n"
      ++ "Return the complete updated plan as JSON. Keep every part the request does not mention unchanged."
  | none =>
    s!"UI REQUEST:\n{r.text}\n\nReturn the plan as JSON using only the allowed components."

/-- The prompt for a further attempt, with what was wrong with the last one. -/
def retry (prompt fault : String) : String :=
  s!"{prompt}\n\nPREVIOUS ATTEMPT WAS INVALID:\n{fault}\nReturn a corrected plan as JSON."

/-- Why there is no prompt for an explanation. -/
inductive PromptFault
  | nesting (fault : NestingError)
  | unwritable (fault : Json.WriteError)

def PromptFault.message : PromptFault → String
  | nesting fault => fault.message
  | unwritable fault => fault.message

/-- The prompt for an explanation. -/
def forExplanation (bounds : Json.Bounds) (r : ExplainRequest) : Except PromptFault String := do
  let v ← r.plan.toValue.mapError .nesting
  let plan := String.ofList (← (Json.write (Json.Style.pretty.within bounds) 0 v).mapError .unwritable)
  match (if r.isModification then filled? r.text else none) with
  | some text =>
    return s!"Explain the modifications made to the UI.\n\nMODIFICATION REQUEST:\n{text}\n\n"
      ++ s!"UPDATED PLAN:\n{plan}\n\n"
      ++ "Explain what changed, which components were affected and why."
  | none =>
    return s!"Explain the UI generation decisions.\n\nPLAN:\n{plan}\n\n"
      ++ "Explain why each component was chosen and how they work together."

end Prompt

end Wireframe
