import Wireframe.Json.Writer
import Wireframe.Layout.Graph
import Wireframe.Number.Quantity
import Wireframe.Text.Blank

/-!
Props and text as they stand in markup. A text that could be read as anything but itself becomes a literal
in braces; a literal spells the angle brackets by their numbers, so it never opens or closes a tag.
-/

namespace Wireframe

/-- Why markup cannot be generated. -/
inductive MarkupError
  | tooDeep (limit : Quantity)
  | notANode (kind : String)
  | unknownComponent (type : Value)
  | badPropName (name : String)
  | unencodable (fault : Json.WriteError)
  | overflow

namespace MarkupError

def message : MarkupError → String
  | tooDeep limit => s!"Tree exceeds maximum depth of {limit.text}"
  | notANode kind => s!"Expected a layout node, got {kind}"
  | unknownComponent type => s!"Cannot generate unregistered component '{type.display}'"
  | badPropName name => s!"Invalid prop name: {quote name}"
  | unencodable fault => s!"Prop value is not JSON encodable: {fault.message}"
  | overflow => Json.WriteError.tooNested.message

end MarkupError

namespace Markup

/-- An angle bracket by its number, any other character as it is. -/
def bracketFree (c : Char) : List Char :=
  if c = '<' then "\\u003c".toList else if c = '>' then "\\u003e".toList else [c]

/-- A value as a literal. -/
def literal (bounds : Json.Bounds) (v : Value) : Except MarkupError (List Char) :=
  match Json.write (.literal bounds) 0 v with
  | .ok text => .ok (text.flatMap bracketFree)
  | .error .tooNested => .error .overflow
  | .error fault => .error (.unencodable fault)

/-- The characters that mean something inside a quoted attribute or between tags. -/
def isUnsafe (c : Char) : Bool :=
  c = '"' || c = '\x7b' || c = '\x7d' || c = '<' || c = '>' || c = '&' || c = '\\' || c = '\r' || c = '\n'

/-- Whether a text can stand in a quoted attribute as it is. -/
def isPlainAttribute (s : List Char) : Bool := !s.any isUnsafe

/-- Whether a text can stand between tags as it is; blanks at its ends would be lost. -/
def isPlainContent (s : List Char) : Bool := isPlainAttribute s && s = Text.trim s

/-- Something in braces. -/
def braced (s : List Char) : List Char := '\x7b' :: (s ++ ['\x7d'])

/-- One prop as an attribute. -/
def attributeText (bounds : Json.Bounds) (name : List Char) (v : Value) : Except MarkupError (List Char) :=
  if isPropName name then
    match v with
    | .text s =>
      if isPlainAttribute s.toList then .ok (name ++ '=' :: '"' :: (s.toList ++ ['"']))
      else (literal bounds v).map fun t => name ++ '=' :: braced t
    | v => (literal bounds v).map fun t => name ++ '=' :: braced t
  else .error (.badPropName (String.ofList name))

/-- Text content between tags. -/
def content (bounds : Json.Bounds) (s : List Char) : Except MarkupError (List Char) :=
  if isPlainContent s then .ok s else (literal bounds (.text (String.ofList s))).map braced

/-- The attributes of a node in the order of their names, each after a blank. -/
def attributesText (bounds : Json.Bounds) (props : Option Props) : Except MarkupError (List Char) := do
  let attrs := (Props.attributes props).mergeSort fun a b => Text.atMost a.1.toList b.1.toList
  let texts ← attrs.mapM fun (name, v) => attributeText bounds name.toList v
  return texts.flatMap fun t => ' ' :: t

end Markup

end Wireframe
