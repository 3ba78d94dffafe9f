import Wireframe.Component

/-!
What the check of a generated module can find.
-/

namespace Wireframe.Lint

/-- A construct that is not allowed. -/
inductive Violation
  | noWrapper
  | noReturn
  | outside (line : String)
  | hook (name : String)
  | arrow
  | function
  | eventHandler (name : String)
  | binding (keyword name : String)
  | console (member : String)
  | debugger
  | reactImport (line : String)
  | externalLibrary (name : String)
  | otherImport (line : String)
  | dynamicCall (keyword : String)
  | inlineStyle (form : String)
  | innerHtml
  | componentDeclaration (name : String)
  | tag (name : String)
deriving DecidableEq, Repr

namespace Violation

def staticOnly : String := "Only static JSX is allowed."

def message : Violation → String
  | noWrapper => "Code must have: export default function GeneratedUI() \x7b return (...) \x7d"
  | noReturn => "GeneratedUI must return the rendered layout."
  | outside line => s!"Code outside GeneratedUI is prohibited: {line}"
  | hook name => s!"React hook '{name}' is prohibited inside the component. {staticOnly}"
  | arrow => s!"Arrow functions are prohibited inside the component. {staticOnly}"
  | function => s!"Function definitions are prohibited inside the component. {staticOnly}"
  | eventHandler name => s!"Event handler '{name}' is prohibited. {staticOnly}"
  | binding keyword name =>
    s!"Variable declaration '{keyword} {name}' is prohibited inside the component. {staticOnly}"
  | console member => s!"Console statement 'console.{member}' is prohibited. {staticOnly}"
  | debugger => s!"Debugger statements are prohibited. {staticOnly}"
  | reactImport line => s!"Importing React is prohibited. Only import UI components: {line}"
  | externalLibrary name =>
    s!"External UI library '{name}' is prohibited. Use only the fixed component library."
  | otherImport line => s!"Import is not a whitelisted component import: {line}"
  | dynamicCall keyword => s!"Dynamic '{keyword}()' calls are prohibited."
  | inlineStyle form =>
    s!"Inline styles are prohibited ('style{form}'). "
      ++ "Use only the fixed component library with predefined styling."
  | innerHtml => "dangerouslySetInnerHTML is prohibited."
  | componentDeclaration name =>
    s!"Creating new components is prohibited ('{name}'). Use only the allowed component library."
  | tag name =>
    let allowed := ", ".intercalate Component.names
    s!"Component '{name}' is not in the allowed component list. Only {allowed} are permitted."

end Violation

/-- The warning about a class name that is put together at run time. -/
def dynamicClassWarning (template : String) : String :=
  s!"Dynamic className generation detected (\x60{template}\x60). "
    ++ "Ensure only fixed classes from components are used."

/-- What a check of a module found; no message is given twice. -/
structure Report where
  errors : List String
  warnings : List String
deriving DecidableEq, Repr

namespace Report

def isValid (r : Report) : Bool := r.errors.isEmpty

/-- The report on something that is no text. -/
def notText : Report := ⟨["Source code must be a string."], []⟩

end Report

end Wireframe.Lint
