import Wireframe.Diff
import Wireframe.Input.Check
import Wireframe.Input.Sanitize
import Wireframe.Layout.Check
import Wireframe.Lint.Check
import Wireframe.Request.Basic
import Wireframe.Request.Team
import Wireframe.Source

/-!
Serving requests. A text is checked and sanitized, planned, the layout validated, its source generated and
linted, the result explained and stored; a request that fails on the way stores nothing. Going back to a
version and looking one up pass the store alone.
-/

namespace Wireframe

/-- A completed request. -/
structure Completion where
  version : Value
  plan : Plan
  code : String
  changes : Option String

namespace Work

variable {κ σ : Type} [Interference κ]

/-- The version that a modification starts from: the one that is named, or the last one. -/
def baseVersion (id : Option String) : Work σ Version := do
  match id with
  | none =>
    match ← expect (← get).store.latest? with
    | some v => return v
    | none => fail .versionNotFound ["No existing version found to modify"] []
  | some id =>
    match ← expect ((← get).store.storage.get? id) with
    | some v => return v
    | none => fail .versionNotFound [s!"Version {id} not found"] []

/-- The plan for a sanitized text. -/
def plan (limits : RequestLimits) (team : Crew κ σ) (text : String) (base : Option Version) :
    Work σ Plan := do
  let existing ← base.mapM fun v => expect v.plan.toText
  let request : PlanRequest := ⟨text, base.isSome, existing⟩
  match ← ask limits.plannerTimeout (.plan request) (team.planner request) with
  | .error .timedOut =>
    fail .collaborator [s!"Planner timed out after {limits.plannerTimeout.briefText}s"] []
  | .error (.failed message) => fail .collaborator [s!"Planner failed: {message}"] []
  | .ok reply =>
    let outcome ←
      match reply with
      | .outcome o => pure o
      | .undecoded raw => expect (PlanOutcome.decode limits.capacity raw)
    match outcome with
    | .ok plan => return plan
    | .failed message => fail .collaborator [s!"Planner failed: {message}"] []
    | .malformed message _ => fail .collaborator [s!"Planner returned an invalid plan: {message}"] []

/-- Nothing is generated from a layout with errors. -/
def validate (limits : RequestLimits) (p : Plan) : Work σ Unit := do
  let report := p.layout.check limits.treeDepth true
  if report.keyless?.isSome then throw .fault
  modify fun s => { s with warnings := s.warnings ++ report.warnings }
  if report.isValid then return ()
  else fail .schemaViolation report.messages report.unknownTypes

/-- The source for a plan. -/
def generate (limits : RequestLimits) (p : Plan) : Work σ String :=
  match Source.generate limits.capacity.literal p limits.treeDepth with
  | .ok source => do
    let code := String.ofList source.code
    modify fun s => { s with code := some code }
    return code
  | .error .overflow => throw .fault
  | .error fault => fail .outputViolation [fault.message] []

/-- No source is stored that the check of generated modules refuses. -/
def lint (code : String) : Work σ Unit := do
  let report := Lint.check code.toList
  modify fun s => { s with warnings := s.warnings ++ report.warnings }
  if report.isValid then return () else fail .outputViolation report.errors []

/-- The explanation of a plan; what goes wrong is a warning, and there is no explanation. -/
def explain (limits : RequestLimits) (team : Crew κ σ) (p : Plan) (text : String) (base : Option Version) :
    Work σ (Option Explanation) := do
  match team.explainer with
  | none => return none
  | some explainer =>
    let request : ExplainRequest := ⟨p, base.isSome, base.map fun _ => text⟩
    let warn (message : String) : Work σ (Option Explanation) := do
      modify fun s => { s with warnings := s.warnings ++ [s!"Explainer failed: {message}"] }
      return none
    match ← ask limits.explainerTimeout (.explain request) (explainer request) with
    | .error .timedOut => warn s!"timed out after {limits.explainerTimeout.briefText}s"
    | .error (.failed message) => warn message
    | .ok (.outcome (.ok explanation)) => return some explanation
    | .ok (.outcome (.failed message)) => warn message
    | .ok (.other kind) => warn s!"unexpected result type {kind}"

/-- A new version at the end of the history. -/
def add (d : Draft) : Work σ Version := do
  let (outcome, store) := (← get).store.add d
  modify fun s => { s with store }
  match outcome with
  | .ok v => return v
  | .error (.parentMissing id) =>
    fail .versionNotFound [s!"Version {id} was rolled back before the modification was stored"] []
  | .error _ => throw .fault

/-- A text turned into a version; `base?` finds the version that it modifies, if any. -/
def develop (limits : RequestLimits) (team : Crew κ σ) (text : Value) (base? : Work σ (Option Version)) :
    Work σ Completion := do
  enter .input
  match Input.check "prompt" limits.inputLength text with
  | .error fault => fail .input [fault.message] []
  | .ok text =>
    let base ← base?
    enter .sanitize
    let text := String.ofList (Input.sanitize text.toList)
    enter .plan
    let p ← plan limits team text base
    modify fun s => { s with plan := some p }
    enter .validate
    validate limits p
    enter .generate
    let code ← generate limits p
    enter .lint
    lint code
    enter .explain
    let explanation ← explain limits team p text base
    enter .store
    let v ← add ⟨text, p, code, explanation, base.isSome, base.map (·.id)⟩
    enter .complete
    let payload ← expect v.payload
    let changes := base.map fun b => Diff.summary b.code.toList code.toList
    return ⟨payload, p, code, changes⟩

/-- The name of a version as it comes from outside. -/
def checkId (id : Value) : Work σ String :=
  match Input.check "versionId" (.whole 256) id with
  | .ok id => pure id
  | .error fault => fail .input [fault.message] []

/-- A version found by its name, for which `find` may change the history. -/
def visit (id : Value) (find : Store → String → Except HistoryError (Option Version × Store)) :
    Work σ Completion := do
  let id ← checkId id
  enter .store
  let (found, store) ← expect (find (← get).store id)
  modify fun s => { s with store }
  match found with
  | none => fail .versionNotFound [s!"Version {id} not found"] []
  | some v => return ⟨← expect v.payload, v.plan, v.code, none⟩

/-- What a request does. -/
def handle (limits : RequestLimits) (team : Crew κ σ) : Request → Work σ Completion
  | .generate text => develop limits team text (pure none)
  | .modify text base => develop limits team text (do return some (← baseVersion base))
  | .rollback id => visit id Store.rollback
  | .lookup id => visit id fun s id => (s.storage.get? id).map fun v => (v, s)

end Work

namespace Request

variable {κ σ : Type} [Interference κ]

/-- The message for a fault of which nothing else is told. -/
def faultMessage : String := "Internal error while processing the request"

/-- A session at its start. -/
def start (store : Store) (team : σ) : Session σ := ⟨store, team, [], .input, [], none, none⟩

/-- What is reported about a piece of work. -/
def report : EStateM.Result Interruption (Session σ) Completion → RequestResult × Session σ
  | .ok c s => (⟨.complete, none, s.warnings, some c.version, some c.plan, some c.code, c.changes⟩, s)
  | .error (.failure f) s => (⟨s.stage, some f, s.warnings, none, s.plan, s.code, none⟩, s)
  | .error .fault s =>
    (⟨s.stage, some ⟨.internal, [faultMessage], []⟩, s.warnings, none, none, none, none⟩, s)

/-- A request served: the result, and the session at its end with the history in it. -/
def serve (r : Request) (limits : RequestLimits) (team : Crew κ σ) (store : Store) (state : σ) :
    RequestResult × Session σ :=
  report ((Work.handle limits team r).run (start store state))

end Request

end Wireframe
