import Wireframe.Command.Manual
import Wireframe.Text.Search

/-!
Usage lines and help pages, laid out for a terminal of eighty columns.
-/

namespace Wireframe.Manual

/-- The columns that lines may fill. -/
def lineWidth : Nat := 78

/-- The first column of explanations, at most. -/
def explanationColumn : Nat := 24

def blanks (n : Nat) : String := String.ofList (List.replicate n ' ')

/-- Words put into lines one after the other: `used` columns of the current line `current` are taken, and
every further line starts with `margin` taken columns. -/
def fill (width margin : Nat) (used : Nat) (current : List String) : List String → List (List String)
  | [] => if current.isEmpty then [] else [current]
  | w :: rest =>
    if used + 1 + w.length > width && !current.isEmpty then
      current :: fill width margin (margin + w.length + 1) [w] rest
    else fill width margin (used + w.length + 1) (current ++ [w]) rest

/-- Words in lines of a width. -/
def wrapped (width : Nat) (text : String) : List String :=
  (fill (width + 1) 0 0 [] (text.splitOn " ")).map (" ".intercalate ·)

/-- A flag as the usage line shows it. -/
def flagUsage (f : Flag) : String :=
  match f.value with
  | none => s!"[{f.name}]"
  | some v => s!"[{f.name} {v}]"

/-- The usage of a command; where it does not fit one line, the operands start a line of their own. -/
def usage (m : Manual) : String :=
  let flags := m.flags.map flagUsage
  let operands := m.operands.map (·.name)
  let label := "usage: "
  let oneLine := label ++ " ".intercalate (m.title :: flags ++ operands)
  if oneLine.length ≤ lineWidth then oneLine ++ "\n"
  else
    let indent := label.length + m.title.length + 1
    let lines := fill lineWidth (indent - 1) (label.length - 1) [] (m.title :: flags)
      ++ fill lineWidth (indent - 1) (indent - 1) [] operands
    label ++ ("\n" ++ blanks indent).intercalate (lines.map (" ".intercalate ·)) ++ "\n"

/-- A flag as the help page shows it. -/
def flagHeading (f : Flag) : String :=
  match f.value with
  | none => ", ".intercalate f.spellings
  | some v => ", ".intercalate (f.spellings.map fun s => s!"{s} {v}")

/-- An entry of a help page; a long heading takes a line of its own. -/
def entry (column : Nat) (heading explanation : String) : String :=
  let lines := ("\n" ++ blanks column).intercalate (wrapped (lineWidth - column) explanation)
  if heading.length + 4 ≤ column then
    s!"  {heading}{blanks (column - 2 - heading.length)}{lines}\n"
  else s!"  {heading}\n{blanks column}{lines}\n"

/-- A group of entries, nothing where there are none. -/
def entries (title : String) (column : Nat) (items : List (String × String)) : String :=
  if items.isEmpty then "" else s!"\n{title}:\n" ++ String.join (items.map fun (h, e) => entry column h e)

/-- The help page of a command. -/
def help (m : Manual) : String :=
  let operands := m.operands.map fun o => (o.name, o.help)
  let flags := m.flags.map fun f => (flagHeading f, f.help)
  let longest := ((operands ++ flags).map fun (h, _) => h.length).foldl max 0
  let column := min (longest + 4) explanationColumn
  m.usage ++ "\n" ++ "\n".intercalate (wrapped lineWidth m.summary) ++ "\n"
    ++ entries "positional arguments" column operands ++ entries "options" column flags

/-- The overview of all commands. -/
def overview : String :=
  "\n".intercalate [
    "Usage: uiforge \x7bcommand\x7d [args]",
    "",
    "=== Offline ===",
    "  schema     Print the component whitelist export",
    "  compile    Compile a plan JSON file to component source",
    "  lint       Statically validate a component source file",
    "  diff       Line diff of two source files",
    "",
    "=== Pipeline (requires an LLM API key) ===",
    "  generate   Generate a new version from natural language",
    "  modify     Modify the latest or a given version",
    "",
    "=== History ===",
    "  history    List versions",
    "  rollback   Roll back to a version",
    "",
    "Examples:",
    "  uiforge compile plan.json -o GeneratedUI.tsx",
    "  uiforge generate 'login form with email and password' --db versions.db",
    "  uiforge modify 'add a forgot password link' --db versions.db",
    "",
    "Set UIFORGE_LOG_LEVEL=DEBUG for verbose output.",
    ""]

end Wireframe.Manual
