import Wireframe.Text.Blank

/-!
Blanking out literals. Text between tags, quoted attributes and quoted expressions are not code as long as
they hold no character that could end the literal or call anything; such runs are overwritten with blanks,
so that the offsets of everything else stay.
-/

namespace Wireframe.Lint

/-- A character that neither ends a literal nor calls anything. -/
def isInert (c : Char) : Bool :=
  !(['<', '>', '\x7b', '\x7d', '(', ')', '=', ';', '\'', '"', '\x60', '/', '*', '\\', '\n'].contains c)

/-- Where a run of inert characters is masked: by the two characters before it, and by the text after. -/
structure MaskRule where
  opens : Char → Char → Bool
  closes : List Char → Bool

/-- A text with the runs that a rule names masked; `last` holds the two characters before the text, the
nearer first, and `inside` says whether a masked run reaches up to it. -/
def MaskRule.applyFrom (rule : MaskRule) : List Char → Bool → List Char → List Char
  | _, _, [] => []
  | last, inside, c :: cs =>
    let opened :=
      match last with
      | [near, far] => rule.opens far near && rule.closes ((c :: cs).dropWhile isInert)
      | _ => false
    let masked := isInert c && (inside || opened)
    (if masked then ' ' else c) :: applyFrom rule (c :: last.take 1) masked cs

def MaskRule.apply (rule : MaskRule) (s : List Char) : List Char := rule.applyFrom [] false s

/-- Text between a tag and the next one; an arrow is no tag. -/
def contentRule : MaskRule where
  opens far near := near = '>' && far ≠ '='
  closes rest := (Text.trimStart rest).head? = some '<'

/-- The text of a quoted attribute. -/
def attributeRule : MaskRule where
  opens far near := far = '=' && near = '"'
  closes rest := rest.head? = some '"'

/-- The text of a quoted expression. -/
def expressionRule : MaskRule where
  opens far near := far = '\x7b' && near = '"'
  closes rest := rest.take 2 = ['"', '\x7d']

/-- A text with all its inert literals masked. -/
def mask (s : List Char) : List Char :=
  expressionRule.apply (attributeRule.apply (contentRule.apply s))

end Wireframe.Lint
