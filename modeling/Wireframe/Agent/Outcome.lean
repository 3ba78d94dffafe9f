import Wireframe.Json.Recovery
import Wireframe.Plan.Basic
import Wireframe.Plan.Explanation

/-!
What planner and explainer answer. Their output is untrusted: it is read, repaired where possible, and
decoded into one of a few outcomes. An answer may be the object itself or an envelope that reports success
or failure.
-/

namespace Wireframe

open Json (Capacity Excess)

/-- The outcome of planning. -/
inductive PlanOutcome
  | ok (plan : Plan)
  | malformed (message raw : String)
  | failed (message : String)

/-- The outcome of explaining. -/
inductive ExplanationOutcome
  | ok (explanation : Explanation)
  | failed (message : String)

namespace Answer

/-- How many issues a message names. -/
def reportedIssues : Nat := 5

/-- How much of an answer is kept in a report. -/
def keptLength : Nat := 500

/-- An answer as a report shows it. -/
def excerpt (raw : Value) : String := String.ofList (raw.shown.take keptLength)

/-- One issue in a message. -/
def issueText (i : Issue) : String :=
  let place := if i.place.isEmpty then "plan" else ".".intercalate i.place
  s!"{place}: {i.kind.message}"

/-- The first issues as one message. -/
def issuesText (issues : List Issue) : String :=
  "; ".intercalate ((issues.take reportedIssues).map issueText)

/-- The object in an answer. A text that is JSON but no object holds none; one that is not JSON is
repaired; and one with too much in it is neither. -/
def object? (capacity : Capacity) (raw : Value) : Except Excess (Option Value) :=
  match raw with
  | .dict entries => .ok (some (.dict entries))
  | .text s =>
    match Json.readWithin capacity.answer s.toList with
    | .ok (.dict entries) => .ok (some (.dict entries))
    | .ok _ => .ok none
    | .error ⟨.excess e, _⟩ => .error e
    | .error _ => Json.recover? capacity.repaired s.toList
  | _ => .ok none

/-- What an object says: a reported failure, an envelope without content, or the content. -/
inductive Content
  | failure (message : String)
  | empty
  | content (v : Value)

/-- The content of an object that may be an envelope; `key` names the content in it, and `failure` is the
message for a failure without one. -/
def opened (key failure : String) (v : Value) : Content :=
  match v.get? "success" with
  | none => .content v
  | some (.bool true) =>
    match v.get? key with
    | some (.dict entries) => .content (.dict entries)
    | _ => .empty
  | some _ =>
    match v.get? "error" with
    | some e => .failure (if e.isTruthy then e.display else failure)
    | none => .failure failure

end Answer

open Answer

/-- The outcome that an answer to a planning request stands for. -/
def PlanOutcome.decode (capacity : Capacity) (raw : Value) : Except Excess PlanOutcome := do
  match ← object? capacity raw with
  | none => return .malformed "Planner did not return a JSON object" (excerpt raw)
  | some v =>
    match opened "plan" "Planner reported failure" v with
    | .failure message => return .failed message
    | .empty => return .malformed "Planner envelope has no plan" (excerpt raw)
    | .content v =>
      match Plan.ofValue v with
      | .ok plan => return .ok plan
      | .error issues =>
        return .malformed s!"Plan does not match the layout tree shape: {issuesText issues}" (excerpt raw)

/-- The outcome that an answer to a request for an explanation stands for. -/
def ExplanationOutcome.decode (capacity : Capacity) (raw : Value) : Except Excess ExplanationOutcome := do
  match ← object? capacity raw with
  | none => return .failed "Explainer did not return a JSON object"
  | some v =>
    match opened "explanation" "Explainer reported failure" v with
    | .failure message => return .failed message
    | .empty => return .failed "Explainer envelope has no explanation"
    | .content v =>
      match Explanation.ofValue v with
      | .ok explanation => return .ok explanation
      | .error issues => return .failed s!"Invalid explanation: {issuesText issues}"

end Wireframe
