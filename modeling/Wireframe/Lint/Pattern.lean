import Wireframe.Source
import Wireframe.Text.Scan

/-!
The constructs that the check of a module looks for.
-/

namespace Wireframe.Lint

open Text

/-- A word that starts at a word edge; what it is followed by is up to `then_`. -/
def atEdge {α : Type} (then_ : List Char → Option (α × List Char)) : Recogniser α := fun before s =>
  if atWordEdge before s.head? then then_ s else none

def isCapital (c : Char) : Bool := 'A' ≤ c && c ≤ 'Z'

def isLetter (c : Char) : Bool := c.isAlpha

/-- A name that starts with `start` and a capital. -/
def capitalised? (start s : List Char) : Option (List Char × List Char) := do
  let rest ← after? start s
  if rest.head?.any isCapital then
    let (name, rest) := wordRun rest
    some (start ++ name, rest)
  else none

/-- One of two quotes. -/
def quote? : List Char → Option (Char × List Char)
  | c :: rest => if c = '\'' ∨ c = '"' then some (c, rest) else none
  | [] => none

/-- The opening of the exported function, up to its brace. -/
def wrapperOpening : Recogniser Unit := fun _ s => do
  let s ← after? "export".toList s
  let s ← after? "default".toList (← blanks? s)
  let s ← after? "function".toList (← blanks? s)
  let s ← after? Source.rootName.toList (← blanks? s)
  let s ← after? ['('] (trimStart s)
  let s ← after? [')'] (trimStart s)
  let s ← after? ['\x7b'] (trimStart s)
  return ((), s)

def isSpaceOrTab (c : Char) : Bool := c = ' ' || c = '\t'

/-- A closing brace that has its line to itself, but for a semicolon; the find ends behind the brace. -/
def closingLine : Recogniser Unit := fun before s => do
  let rest ← after? ['\x7d'] s
  let tail := rest.dropWhile isSpaceOrTab
  let tail := (after? [';'] tail).getD tail
  let tail := tail.dropWhile isSpaceOrTab
  if before = some '\n' ∧ (tail = [] ∨ tail.head? = some '\n') then some ((), rest) else none

def returnWord : Recogniser Unit := atEdge fun s => do return ((), ← wholeWord? "return".toList s)

def hookCall : Recogniser (List Char) := atEdge fun s => do
  let (name, rest) ← capitalised? "use".toList s
  return (name, ← after? ['('] (trimStart rest))

def arrowSign : Recogniser Unit := fun _ s => do return ((), ← after? ['=', '>'] s)

def functionWord : Recogniser Unit := atEdge fun s => do
  return ((), ← wholeWord? "function".toList s)

def eventHandlerProp : Recogniser (List Char) := atEdge fun s => do
  let (name, rest) ← capitalised? "on".toList s
  return (name, ← after? ['='] (trimStart rest))

def isBindingStart (c : Char) : Bool := isLetter c || c = '_' || c = '$'

def isBindingChar (c : Char) : Bool := isWord c || c = '$'

/-- A declaration by a keyword: the keyword and the name. -/
def bindingBy (keyword : List Char) (s : List Char) :
    Option ((List Char × List Char) × List Char) := do
  let rest ← blanks? (← after? keyword s)
  if rest.head?.any isBindingStart then
    let (name, rest) := rest.span isBindingChar
    some ((keyword, name), rest)
  else none

def bindingDeclaration : Recogniser (List Char × List Char) := atEdge fun s =>
  bindingBy "const".toList s <|> bindingBy "let".toList s <|> bindingBy "var".toList s

def consoleMember : Recogniser (List Char) := atEdge fun s => do
  let rest ← after? "console".toList s
  let rest ← after? ['.'] (trimStart rest)
  run? isWord (trimStart rest)

def debuggerWord : Recogniser Unit := atEdge fun s => do
  return ((), ← wholeWord? "debugger".toList s)

/-- Whether a line is an import; blanks and tabs may stand in front. -/
def isImportLine (line : List Char) : Bool :=
  (wholeWord? "import".toList (line.dropWhile isSpaceOrTab)).isSome

/-- An import of the library that is never imported by name. -/
def reactByName : Recogniser Unit := atEdge fun s => do
  let rest ← blanks? (← after? "import".toList s)
  let renamed : Option (List Char) := do
    let rest ← blanks? (← after? ['*'] rest)
    blanks? (← after? "as".toList rest)
  return ((), ← wholeWord? "React".toList (renamed.getD rest))

/-- An import from one of the modules of that library. -/
def reactByModule : Recogniser Unit := fun _ s => do
  let rest ← blanks? (← after? "from".toList s)
  let (_, rest) ← quote? rest
  let rest ← after? "react".toList rest
  let rest := (after? "-dom".toList rest).getD rest
  let rest :=
    match rest with
    | '/' :: more => more.dropWhile fun c => c ≠ '\'' ∧ c ≠ '"'
    | rest => rest
  let (_, rest) ← quote? rest
  return ((), rest)

/-- The name in an import of a component from its own module. -/
def componentImport? (line : List Char) : Option (List Char) := do
  let rest ← blanks? (← after? "import".toList line)
  if rest.head?.any isCapital then
    let (name, rest) := wordRun rest
    let rest ← blanks? (← after? "from".toList (← blanks? rest))
    let (q, rest) ← quote? rest
    let rest ← after? name (← after? Component.modulePath.toList rest)
    let rest ← after? [q] rest
    match (after? [';'] rest).getD rest with
    | [] | ['\n'] => some name
    | _ => none
  else none

/-- A call of a keyword. -/
def callOf (keyword : List Char) (s : List Char) : Option (List Char × List Char) := do
  return (keyword, ← after? ['('] (trimStart (← after? keyword s)))

def dynamicCall : Recogniser (List Char) := atEdge fun s =>
  callOf "import".toList s <|> callOf "require".toList s

/-- A style given in place: its sign and what follows up to the opening brace or quote. -/
def inlineStyle : Recogniser (List Char) := atEdge fun s => do
  let rest ← after? "style".toList s
  let (sign, rest) ←
    match trimStart rest with
    | '=' :: rest => some ('=', rest)
    | ':' :: rest => some (':', rest)
    | _ => none
  let (space, rest) := rest.span isBlank
  match rest with
  | c :: rest =>
    if c = '\x7b' ∨ (sign = '=' ∧ (c = '\'' ∨ c = '"')) then
      some (sign :: (space ++ [c]), rest)
    else none
  | [] => none

def innerHtmlWord : Recogniser Unit := atEdge fun s => do
  return ((), ← wholeWord? "dangerouslySetInnerHTML".toList s)

/-- A class name from a template with a hole in it: the template. -/
def dynamicClass : Recogniser (List Char) := fun _ s => do
  let rest ← after? "className".toList s
  let rest ← after? ['='] (trimStart rest)
  let rest ← after? ['\x7b'] (trimStart rest)
  let rest ← after? ['\x60'] (trimStart rest)
  let (template, rest) := rest.span (· ≠ '\x60')
  let rest ← after? ['\x60'] rest
  if contains ['$', '\x7b'] template then some (template, rest) else none

/-- A word that ends in "component" in any case, with something in front of it. -/
def componentName? (s : List Char) : Option (List Char × List Char) := do
  let (name, rest) := wordRun s
  let front := name.length - 9
  if front = 0 then none
  else
    let tail ← afterFolded? "component".toList (name.drop front)
    if tail.isEmpty then some (name, rest) else none

/-- The name of a component that is declared by a keyword and followed by a sign. -/
def declaredBy (keyword : List Char) (sign : Char) (s : List Char) :
    Option (List Char × List Char) := do
  let (name, rest) ← componentName? (← blanks? (← afterFolded? keyword s))
  return (name, ← after? [sign] (trimStart rest))

/-- The name of a component that is declared as a class. -/
def declaredClass (s : List Char) : Option (List Char × List Char) := do
  componentName? (← blanks? (← afterFolded? "class".toList s))

/-- The declaration of a further component. -/
def componentDeclaration : Recogniser (List Char) := atEdge fun s =>
  declaredBy "const".toList '=' s <|> declaredBy "let".toList '=' s <|> declaredBy "var".toList '=' s
    <|> declaredBy "function".toList '(' s <|> declaredClass s

/-- An opening tag: its name. -/
def openingTag : Recogniser (List Char) := fun _ s => do
  let rest ← after? ['<'] s
  if rest.head?.any isLetter then some (rest.span fun c => isWord c || c = '.') else none

end Wireframe.Lint
