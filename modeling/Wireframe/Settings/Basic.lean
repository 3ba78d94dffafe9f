import Wireframe.Number.Quantity
import Wireframe.Settings.Variable
import Wireframe.Text.Numeral
import Wireframe.Text.Path

/-!
Reading settings. An explicit value wins over the environment, and the environment over the default; a text
that does not spell a value of the setting's kind counts as not set.
-/

namespace Wireframe

/-- The environment variables that are set. -/
abbrev Environment := List (String × String)

/-- A setting's value: data, or a path. -/
inductive Setting
  | value (v : Value)
  | path (text : String)
deriving Inhabited

namespace Setting

def kindName : Setting → String
  | value v => v.kindName
  | path _ => "Path"

/-- The value as data; a path is its text. -/
def toValue : Setting → Value
  | value v => v
  | path text => .text text

/-- What a text stands for as a setting of a kind. -/
def read? (kind : SettingKind) (s : String) : Option Setting :=
  match kind with
  | .text | .raw => some (.value (.text s))
  | .int => (Text.readInt? s.toList).map fun n => .value (.int n)
  | .float => (Text.readDouble? s.toList).map fun x => .value (.float x)
  | .bool => (Text.readBool? s.toList).map fun b => .value (.bool b)
  | .path => some (.path (String.ofList (Text.plainPath s.toList)))

/-- A text as a setting of a kind, or the default where there is no such value. -/
def convert (kind : SettingKind) (default : Value) (s : Option String) : Setting :=
  (s.bind (read? kind)).getD (.value default)

end Setting

namespace Environment

def get? (env : Environment) (name : String) : Option String := (env.find? (·.1 = name)).map (·.2)

/-- The value of a setting. -/
def setting (env : Environment) (x : Variable) (override : Value) : Setting :=
  match override with
  | .null => .convert x.info.kind x.info.default (env.get? x.info.name)
  | v => .value v

/-- A setting that holds a text, if it is set. -/
def text? (env : Environment) (x : Variable) : Option String :=
  match env.setting x .null with
  | .value (.text s) => some s
  | .path s => some s
  | _ => none

/-- A setting that holds a number. -/
def quantity (env : Environment) (x : Variable) (override : Option Quantity) : Quantity :=
  match override with
  | some q => q
  | none =>
    match env.setting x .null with
    | .value (.int n) => .whole n
    | .value (.float x) => .real x
    | _ => .whole 0

/-- The depth limit of layouts. -/
def depthLimit (env : Environment) (override : Option Quantity) : Quantity :=
  env.quantity .maxTreeDepth override

/-- The providers that a key is set for. -/
def providers (env : Environment) : List String :=
  (if (env.text? .openaiApiKey).any (· ≠ "") then ["openai"] else [])
    ++ (if (env.text? .anthropicApiKey).any (· ≠ "") then ["anthropic"] else [])

end Environment

end Wireframe
