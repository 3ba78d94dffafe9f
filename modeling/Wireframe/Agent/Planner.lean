import Wireframe.Agent.Outcome
import Wireframe.Agent.Prompt
import Wireframe.Provider.Basic

/-!
Planning and explaining with the help of a model. The model's answers are an input here: the planner asks
again, with what was wrong, until an answer is a plan or a failure or its attempts are used up.
-/

namespace Wireframe

/-- What a model answers to one call: a text, or a fault. -/
abbrev ModelAnswer := Except CallFault String

/-- What a collaborator raises: what a call raised, or what an answer has too much of to be read, or a plan
that cannot be written into a prompt. -/
inductive AgentFault
  | call (fault : CallFault)
  | excess (e : Json.Excess)
  | prompt (fault : Prompt.PromptFault)
  | noAnswer

/-- A run of a collaborator: the prompts of its calls, and what came of them. -/
structure AgentRun (α : Type) where
  prompts : List String
  result : Except AgentFault α

namespace Planner

/-- The outcome of one answer; a failure of the service is an outcome of its own. -/
def outcome (capacity : Json.Capacity) : ModelAnswer → Except AgentFault PlanOutcome
  | .ok content => (PlanOutcome.decode capacity (.text content)).mapError .excess
  | .error (.service _ message) => .ok (.failed message)
  | .error fault => .error (.call fault)

/-- The run of the attempts that are left, the next of which has the prompt `prompt`; `last` is the outcome
when there are none. -/
def attempts (capacity : Json.Capacity) (base : String) (last : PlanOutcome) :
    Nat → String → List ModelAnswer → AgentRun PlanOutcome
  | 0, _, _ => ⟨[], .ok last⟩
  | _ + 1, prompt, [] => ⟨[prompt], .error .noAnswer⟩
  | left + 1, prompt, answer :: rest =>
    match outcome capacity answer with
    | .ok (.malformed message raw) =>
      let run := attempts capacity base (.malformed message raw) left (Prompt.retry base message) rest
      ⟨prompt :: run.prompts, run.result⟩
    | result => ⟨[prompt], result⟩

/-- The run of a planner that may make `count` calls. -/
def run (capacity : Json.Capacity) (count : Nat) (r : PlanRequest) (answers : List ModelAnswer) :
    AgentRun PlanOutcome :=
  let base := Prompt.forPlan r
  attempts capacity base (.malformed "Planner produced no output" "") count base answers

/-- How many calls a planner makes unless said otherwise. -/
def defaultAttempts : Int := 2

/-- The message for a planner that may make no call. -/
def noAttempts : String := "max_attempts must be at least 1"

/-- The settings of a planner's calls. -/
def config (temperature : Quantity) : GenerationConfig :=
  { GenerationConfig.default with temperature, jsonMode := true }

def defaultTemperature : Quantity := .real (.ofDecimal false 5 (-1))

end Planner

namespace Explainer

/-- The outcome of the one answer. -/
def outcome (capacity : Json.Capacity) : ModelAnswer → Except AgentFault ExplanationOutcome
  | .ok content => (ExplanationOutcome.decode capacity (.text content)).mapError .excess
  | .error (.service _ message) => .ok (.failed message)
  | .error fault => .error (.call fault)

/-- The run of an explainer, which makes one call. -/
def run (capacity : Json.Capacity) (r : ExplainRequest) (answers : List ModelAnswer) :
    AgentRun ExplanationOutcome :=
  match Prompt.forExplanation capacity.printed r with
  | .error fault => ⟨[], .error (.prompt fault)⟩
  | .ok prompt =>
    match answers with
    | [] => ⟨[prompt], .error .noAnswer⟩
    | answer :: _ => ⟨[prompt], outcome capacity answer⟩

/-- The settings of an explainer's calls. -/
def config (temperature : Quantity) : GenerationConfig :=
  { GenerationConfig.default with temperature, jsonMode := true }

def defaultTemperature : Quantity := .real (.ofDecimal false 6 (-1))

end Explainer

end Wireframe
