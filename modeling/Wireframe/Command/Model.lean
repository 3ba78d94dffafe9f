import Wireframe.Agent.Planner
import Wireframe.Provider.Backend
import Wireframe.Request.Team

/-!
A planner and an explainer that call a provider. The replies of its service are an input: each call takes
the next one, and a failure among them is a failure of the call.
-/

namespace Wireframe

/-- What the service does with a call: it fails, or replies. -/
inductive ServiceReply
  | failure (message : String)
  | reply (r : Reply)

/-- A conversation with a service: the replies that are still to come, and what was asked. -/
structure Conversation where
  pending : List ServiceReply
  prompts : List String

namespace Backend

/-- What comes of a call that the service answered so. -/
def answer (b : Backend) : ServiceReply → ModelAnswer
  | .failure message => .error (.ofServiceText message)
  | .reply r => .ok (b.generation r).content

/-- The failure of calls that the service answers no more. -/
def unanswered : ModelAnswer := .error (.service .general "no reply")

/-- A run with the conversation behind it, when the calls are made with some settings. -/
def behave {α β : Type} (b : Backend) (c : GenerationConfig) (wrap : α → β)
    (run : List ModelAnswer → AgentRun α) (talk : Conversation) : Behaviour β × Conversation :=
  let r := run (talk.pending.map b.answer)
  let talk : Conversation :=
    ⟨talk.pending.drop r.prompts.length, talk.prompts ++ r.prompts.map fun p => b.userText p c⟩
  let reaction : Reaction β :=
    match r.result with
    | .ok a => .answers (wrap a)
    | .error (.call fault) => .raises fault
    | .error (.excess e) => .raises (.ofExcess e)
    | .error (.prompt (.unwritable .tooNested)) => .raises (.recursion Json.WriteError.tooNested.message)
    | .error (.prompt fault) => .raises (.value fault.message)
    | .error .noAnswer => .raises (.runtime "no reply")
  (⟨none, reaction⟩, talk)

/-- The collaborators that call a provider. -/
def team (b : Backend) (capacity : Json.Capacity) (explains : Bool) : Team Conversation where
  planner request talk :=
    let attempts := Planner.defaultAttempts.toNat
    b.behave (Planner.config Planner.defaultTemperature) PlannerReply.outcome
      (fun answers => Planner.run capacity attempts request (answers ++ List.replicate attempts unanswered)) talk
  explainer :=
    if explains then
      some fun request talk =>
        b.behave (Explainer.config Explainer.defaultTemperature) ExplainerReply.outcome
          (fun answers => Explainer.run capacity request (answers ++ [unanswered])) talk
    else none

end Backend

end Wireframe
