import Wireframe.Text.Blank
import Wireframe.Text.Case
import Wireframe.Value

/-!
Log levels by name or number, and the names of logs.
-/

namespace Wireframe.LogLevel

/-- The names of levels. -/
def named : List (String × Int) :=
  [("CRITICAL", 50), ("FATAL", 50), ("ERROR", 40), ("WARN", 30), ("WARNING", 30), ("INFO", 20),
    ("DEBUG", 10), ("NOTSET", 0)]

def info : Int := 20

/-- The level that a name stands for; case and blanks around it do not matter. -/
def ofName? (s : String) : Option Int :=
  let name := String.ofList (Text.upper (Text.trim s.toList))
  (named.find? (·.1 = name)).map (·.2)

/-- A level given by name or number. Without one, and for an unknown name, it is the default; what is
neither text nor number is refused with its kind. -/
def parse (default : Value) : Value → Except String Value
  | .null => .ok default
  | .int n => .ok (.int n)
  | .bool b => .ok (.bool b)
  | .text s => .ok (((ofName? s).map Value.int).getD default)
  | v => .error v.kindName

/-- The name of a log; without a name it is the root log of the program. -/
def logName : Option String → String
  | none | some "" => "uiforge"
  | some name => name

end Wireframe.LogLevel
