import Wireframe.History.Version
import Wireframe.Json.Room
import Wireframe.Settings.Basic

/-!
Requests and their results: the stages that a request passes, the ways in which it can fail, and what is
reported in either case.
-/

namespace Wireframe

/-- What can be asked for. A text or a name that comes from outside may be data of any kind. -/
inductive Request
  | generate (text : Value)
  | modify (text : Value) (base : Option String)
  | rollback (id : Value)
  | lookup (id : Value)

/-- The stages of a request in their order. -/
inductive Stage
  | input
  | sanitize
  | plan
  | validate
  | generate
  | lint
  | explain
  | store
  | complete
deriving DecidableEq, Repr

namespace Stage

def name : Stage → String
  | input => "input"
  | sanitize => "sanitize"
  | plan => "plan"
  | validate => "validate"
  | generate => "generate"
  | lint => "lint"
  | explain => "explain"
  | store => "store"
  | complete => "complete"

end Stage

inductive FailureKind
  | input
  | collaborator
  | schemaViolation
  | outputViolation
  | versionNotFound
  | internal
deriving DecidableEq, Repr

namespace FailureKind

def name : FailureKind → String
  | input => "input"
  | collaborator => "upstream"
  | schemaViolation => "schema_violation"
  | outputViolation => "output_violation"
  | versionNotFound => "version_not_found"
  | internal => "internal"

end FailureKind

/-- A failure with its messages, and the types that no component has where these were the reason. -/
structure Failure where
  kind : FailureKind
  errors : List String
  unknownTypes : List Value

/-- What is reported about a request; one without a failure was completed. -/
structure RequestResult where
  stage : Stage
  failure : Option Failure
  warnings : List String
  version : Option Value
  plan : Option Plan
  code : Option String
  changes : Option String

namespace RequestResult

def succeeded (r : RequestResult) : Bool := r.failure.isNone

/-- A result as data; it cannot be given where its plan cannot be written out. -/
def toValue (r : RequestResult) : Except NestingError Value := do
  let plan ← r.plan.mapM (·.toValue)
  let textOr (s : Option String) : Value := (s.map Value.text).getD .null
  return .object [
    ("success", .bool r.succeeded),
    ("stage", .text r.stage.name),
    ("errorKind", textOr (r.failure.map (·.kind.name))),
    ("errors", .list (((r.failure.map (·.errors)).getD []).map .text)),
    ("warnings", .list (r.warnings.map .text)),
    ("version", r.version.getD .null),
    ("plan", plan.getD .null),
    ("code", textOr r.code),
    ("invalidComponentTypes", .list ((r.failure.map (·.unknownTypes)).getD [])),
    ("changeSummary", textOr r.changes)]

end RequestResult

/-- The limits of a request: seconds for each collaborator, levels of a layout, characters of a text, and
what the platform can take of JSON. -/
structure RequestLimits where
  plannerTimeout : Quantity
  explainerTimeout : Quantity
  treeDepth : Quantity
  inputLength : Quantity
  capacity : Json.Capacity

/-- The limits that an environment sets. -/
def Environment.requestLimits (env : Environment) (capacity : Json.Capacity) : RequestLimits where
  plannerTimeout := env.quantity .plannerTimeout none
  explainerTimeout := env.quantity .explainerTimeout none
  treeDepth := env.quantity .maxTreeDepth none
  inputLength := env.quantity .maxInputChars none
  capacity

end Wireframe
