import Wireframe.Agent.Planner
import Wireframe.History.Call
import Wireframe.Request.Basic

/-!
The collaborators of a request, a planner and perhaps an explainer. Nothing is known about them but what
they can do when they are asked: answer, fail, or not answer in time, and before that change the history,
as a request that runs beside this one may do.
-/

namespace Wireframe

/-- What a collaborator does when it is asked. -/
inductive Reaction (α : Type)
  | answers (a : α)
  | raises (fault : CallFault)
  | stalls

/-- What a party beside the request may do to the history: how it ends, and the history after it. -/
class Interference (κ : Type) where
  interfere : κ → Store → Except HistoryError Unit × Store

/-- A rollback to a version, if one is named. -/
instance : Interference (Option String) where
  interfere
    | none, s => (.ok (), s)
    | some id, s =>
      match s.rollback id with
      | .ok (_, s) => (.ok (), s)
      | .error fault => (.error fault, s)

/-- Calls of any kind; what is answered to them, also a failure, stays with the party that made them. -/
instance : Interference (List Store.Call) where
  interfere calls s := (.ok (), s.after calls)

/-- A reaction, and what is done to the history before it. -/
structure Conduct (κ α : Type) where
  interference : κ
  reaction : Reaction α

/-- The conduct of a collaborator that does no more to the history than to roll it back. -/
abbrev Behaviour (α : Type) := Conduct (Option String) α

/-- What a planner hands over: an outcome, or an answer that is still to be decoded. -/
inductive PlannerReply
  | outcome (o : PlanOutcome)
  | undecoded (raw : Value)

/-- What an explainer hands over: an outcome, or something of another kind. -/
inductive ExplainerReply
  | outcome (o : ExplanationOutcome)
  | other (kind : String)

/-- The collaborators; what they do may depend on what they did before, of which they keep a record of
their own. -/
structure Crew (κ σ : Type) where
  planner : PlanRequest → σ → Conduct κ PlannerReply × σ
  explainer : Option (ExplainRequest → σ → Conduct κ ExplainerReply × σ)

/-- Collaborators that do no more to the history than to roll it back. -/
abbrev Team (σ : Type) := Crew (Option String) σ

/-- What a collaborator was asked. -/
inductive Inquiry
  | plan (r : PlanRequest)
  | explain (r : ExplainRequest)

def Inquiry.toValue : Inquiry → Value
  | plan r =>
    .object [
      ("plan", .text r.text),
      ("isModification", .bool r.isModification),
      ("existing", (r.existing.map Value.text).getD .null)]
  | explain r =>
    .object [
      ("explain", .text r.plan.intent),
      ("isModification", .bool r.isModification),
      ("text", (r.text.map Value.text).getD .null)]

/-- Where a request stands. What was produced so far is reported when it fails. -/
structure Session (σ : Type) where
  store : Store
  team : σ
  inquiries : List Inquiry
  stage : Stage
  warnings : List String
  plan : Option Plan
  code : Option String

/-- Why a request ends early: a failure that is reported, or a fault that is not. -/
inductive Interruption
  | failure (f : Failure)
  | fault

/-- A part of a request. What it did before it is interrupted stays done. -/
abbrev Work (σ : Type) := EStateM Interruption (Session σ)

/-- Why a collaborator gave no answer. -/
inductive Silence
  | timedOut
  | failed (message : String)

namespace Work

variable {κ σ α : Type} [Interference κ]

def enter (stage : Stage) : Work σ Unit := modify fun s => { s with stage }

def fail (kind : FailureKind) (errors : List String) (unknownTypes : List Value) : Work σ α :=
  throw (.failure ⟨kind, errors, unknownTypes⟩)

/-- A result that has to be there; what goes wrong is a fault. -/
def expect {ε : Type} : Except ε α → Work σ α
  | .ok a => pure a
  | .error _ => throw .fault

/-- The history changed by a collaborator. -/
def undergo (k : κ) : Work σ Unit := do
  let (outcome, store) := Interference.interfere k (← get).store
  modify fun s => { s with store }
  expect outcome

/-- What a reaction comes to: an answer, or the reason why there is none. -/
def settle : Reaction α → Work σ (Except Silence α)
  | .answers a => return .ok a
  | .raises (.timeout _) => return .error .timedOut
  | .raises (.service _ message) => return .error (.failed message)
  | .raises _ => throw .fault
  | .stalls => return .error .timedOut

/-- A collaborator asked. Without any time left it is not asked at all. -/
def ask (timeout : Quantity) (inquiry : Inquiry) (collaborator : σ → Conduct κ α × σ) :
    Work σ (Except Silence α) := do
  if timeout.isExpired then return .error .timedOut
  let (conduct, team) := collaborator (← get).team
  modify fun s => { s with team, inquiries := s.inquiries ++ [inquiry] }
  undergo conduct.interference
  settle conduct.reaction

end Work

end Wireframe
