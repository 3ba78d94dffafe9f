import Wireframe.Lint.Finding
import Wireframe.Lint.Mask
import Wireframe.Lint.Pattern

/-!
The check of a generated module. It trusts nothing that made the module: everything is found in the text
itself. Around the exported function only imports may stand, inside it only static markup.
-/

namespace Wireframe.Lint

open Text

/-- A module cut at its exported function. -/
structure Parts where
  before : List Char
  body : List Char
  after : List Char
deriving DecidableEq, Repr

/-- A text cut at its last closing brace. -/
def splitLastBrace? (s : List Char) : Option (List Char × List Char) :=
  let tail := s.reverse.takeWhile (· ≠ '\x7d')
  match s.reverse.dropWhile (· ≠ '\x7d') with
  | [] => none
  | _ :: front => some (front.reverse, tail.reverse)

/-- The parts of a module. The body ends at the first line that holds just a closing brace, or at the last
closing brace where there is no such line. -/
def parts? (source : List Char) : Option Parts := do
  let (before, _, inner) ← search wrapperOpening none source
  match search closingLine (some '\x7b') inner with
  | some (body, _, after) => return ⟨before, body, after⟩
  | none =>
    let (body, after) ← splitLastBrace? inner
    return ⟨before, body, after⟩

/-- The lines around the exported function that are no imports. -/
def outsideViolations (p : Parts) : List Violation :=
  (lines p.before ++ lines p.after).filterMap fun line =>
    let line := trim line
    if line.isEmpty || (wholeWord? "import".toList line).isSome then none
    else some (.outside (String.ofList line))

/-- A violation where something occurs in a text. -/
def whereOccurs {α : Type} (r : Recogniser α) (v : Violation) (s : List Char) : List Violation :=
  if occurs r s then [v] else []

/-- What is wrong inside the exported function, whose literals are masked already. -/
def bodyViolations (body : List Char) : List Violation :=
  (findAll hookCall body).map (fun name => .hook (String.ofList name))
    ++ whereOccurs arrowSign .arrow body
    ++ whereOccurs functionWord .function body
    ++ (findAll eventHandlerProp body).map (fun name => .eventHandler (String.ofList name))
    ++ (findAll bindingDeclaration body).map
      (fun (keyword, name) => .binding (String.ofList keyword) (String.ofList name))
    ++ (findAll consoleMember body).map (fun name => .console (String.ofList name))
    ++ whereOccurs debuggerWord .debugger body

/-- What is wrong with the exported function as a whole and inside. -/
def wrapperViolations (source : List Char) : List Violation :=
  match parts? source with
  | none => [.noWrapper]
  | some p =>
    outsideViolations p ++ (if occurs returnWord p.body then [] else [.noReturn])
      ++ bodyViolations (mask p.body)

/-- The libraries whose components are not to be used. -/
def externalLibraries : List String :=
  ["@mui", "@chakra", "antd", "react-bootstrap", "semantic-ui"]

/-- Whether a line imports from a library. -/
def importsFrom (line : List Char) (library : String) : Bool :=
  contains ("from '".toList ++ library.toList) line
    || contains ("from \"".toList ++ library.toList) line

/-- What is wrong with an import. -/
def importViolations (line : List Char) : List Violation :=
  if occurs reactByName line || occurs reactByModule line then [.reactImport (String.ofList line)]
  else
    match externalLibraries.filter (importsFrom line) with
    | [] =>
      if (componentImport? line).any fun name => Component.isRegistered (String.ofList name) then []
      else [.otherImport (String.ofList line)]
    | libraries => libraries.map .externalLibrary

/-- What is wrong with the imports of a module, and its calls that import at run time. -/
def allImportViolations (source : List Char) : List Violation :=
  (((splitNewlines source).filter isImportLine).flatMap fun line => importViolations (trim line))
    ++ (findAll dynamicCall source).map fun keyword => .dynamicCall (String.ofList keyword)

def styleViolations (source : List Char) : List Violation :=
  (findAll inlineStyle source).map (fun form => .inlineStyle (String.ofList form))
    ++ whereOccurs innerHtmlWord .innerHtml source

def declarationViolations (source : List Char) : List Violation :=
  (findAll componentDeclaration source).map fun name =>
    .componentDeclaration (String.ofList name)

/-- The tags that open something else than a component or a group. -/
def tagViolations (source : List Char) : List Violation :=
  (findAll openingTag source).filterMap fun name =>
    let name := String.ofList name
    if Component.structuralTags.contains name || Component.isRegistered name then none
    else some (.tag name)

/-- All that is wrong with a module, in the order of the checks. -/
def violations (source : List Char) : List Violation :=
  wrapperViolations source ++ allImportViolations source ++ styleViolations source
    ++ declarationViolations source ++ tagViolations source

/-- The report on a module. -/
def check (source : List Char) : Report where
  errors := ((violations source).map Violation.message).eraseDups
  warnings :=
    ((findAll dynamicClass source).map fun t => dynamicClassWarning (String.ofList t)).eraseDups

/-- The report on data that should be the text of a module. -/
def checkValue : Value → Report
  | .text s => check s.toList
  | _ => .notText

end Wireframe.Lint
