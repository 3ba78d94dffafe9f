import Wireframe.Command.Manual
import Wireframe.Text.Digit
import Wireframe.Text.Quoted

/-!
Reading the arguments of a command. A word is an operand or a flag; a flag may be shortened as long as only
one flag begins so, its value may follow in the same word, and after two dashes all words are operands.
-/

namespace Wireframe

/-- What is wrong with the arguments of a command. -/
inductive ArgumentFault
  | ambiguous (word : String) (matching : List String)
  | valueMissing (flag : Flag)
  | valueUnused (flag : Flag) (value : String)
  | required (names : List String)
  | unrecognized (words : List String)
deriving DecidableEq, Repr

namespace ArgumentFault

/-- A flag as messages name it. -/
def label (f : Flag) : String := "/".intercalate f.spellings

def message : ArgumentFault → String
  | ambiguous word matching =>
    let names := ", ".intercalate matching
    s!"ambiguous option: {word} could match {names}"
  | valueMissing f => s!"argument {label f}: expected one argument"
  | valueUnused f value => s!"argument {label f}: ignored explicit argument {quote value}"
  | required names =>
    let list := ", ".intercalate names
    s!"the following arguments are required: {list}"
  | unrecognized words =>
    let list := " ".intercalate words
    s!"unrecognized arguments: {list}"

end ArgumentFault

/-- A value in the same word as its flag, behind an equals sign or not. -/
structure Attached where
  marked : Bool
  value : String
deriving DecidableEq, Repr

/-- A flag as it was given. -/
structure FlagUse where
  flag : Flag
  spelling : String
  attached : Option Attached
deriving DecidableEq, Repr

/-- One word of the arguments. -/
inductive Word
  | operand (text : String)
  | separator
  | flag (use : FlagUse)
  | unknown (text : String)
deriving DecidableEq, Repr

/-- The words of a command: flags with their values, operands, and what had no place. -/
structure Arguments where
  given : List (Flag × String)
  operands : List String
  surplus : List String
deriving DecidableEq, Repr

namespace Arguments

/-- The last value that was given for a flag. -/
def value? (a : Arguments) (f : Flag) : Option String :=
  (a.given.reverse.find? (·.1 = f)).map (·.2)

def has (a : Arguments) (f : Flag) : Bool := a.given.any (·.1 = f)

def operand (a : Arguments) (i : Nat) : String := (a.operands[i]?).getD ""

end Arguments

namespace Manual

/-- The part of a word before its first equals sign, and what follows the sign, if there is one. -/
def splitMark (word : List Char) : List Char × Option (List Char) :=
  match word.span (· ≠ '=') with
  | (front, _ :: value) => (front, some value)
  | (front, []) => (front, none)

/-- The flags that a word may mean when it is no full spelling. -/
def candidates (m : Manual) (word : List Char) : List FlagUse :=
  match word with
  | '-' :: '-' :: _ =>
    let (front, value) := splitMark word
    let attached := value.map fun v => ⟨true, String.ofList v⟩
    (m.spellings.filter fun (s, _) => front.isPrefixOf s.toList).map fun (s, f) => ⟨f, s, attached⟩
  | dash :: c :: value =>
    m.spellings.filterMap fun (s, f) =>
      if s.toList = [dash, c] then some ⟨f, s, some ⟨false, String.ofList value⟩⟩
      else if word.isPrefixOf s.toList then some ⟨f, s, none⟩
      else none
  | _ => []

/-- Whether a word looks like a negative number. -/
def isNegativeNumber (word : List Char) : Bool :=
  let isDigit (c : Char) : Bool := (Text.digitValue? c).isSome
  match word with
  | '-' :: rest =>
    let (whole, more) := (if rest.getLast? = some '\n' then rest.dropLast else rest).span isDigit
    match more with
    | [] => !whole.isEmpty
    | '.' :: places => !places.isEmpty && places.all isDigit
    | _ => false
  | _ => false

/-- What a word is that stands before the separator. -/
def classify (m : Manual) (text : String) : Except ArgumentFault Word :=
  let word := text.toList
  if word.head? ≠ some '-' then .ok (.operand text)
  else
    match m.flag? text with
    | some f => .ok (.flag ⟨f, text, none⟩)
    | none =>
      if word.length = 1 then .ok (.operand text)
      else
        let (front, value) := splitMark word
        let spelling := String.ofList front
        match value, m.flag? spelling with
        | some v, some f => .ok (.flag ⟨f, spelling, some ⟨true, String.ofList v⟩⟩)
        | _, _ =>
          match m.candidates word with
          | [use] => .ok (.flag use)
          | _ :: _ :: _ => .error (.ambiguous text ((m.candidates word).map (·.spelling)))
          | [] =>
            if isNegativeNumber word || word.contains ' ' then .ok (.operand text)
            else .ok (.unknown text)

/-- What each word is; after a separator there are operands only. -/
def classifyAll (m : Manual) : List String → Except ArgumentFault (List Word)
  | [] => .ok []
  | text :: rest =>
    if text = "--" then .ok (.separator :: rest.map .operand)
    else do return (← m.classify text) :: (← m.classifyAll rest)

end Manual

namespace Word

def text : Word → String
  | operand s | unknown s => s
  | separator => "--"
  | flag use => use.spelling

/-- Whether a word stands where a flag does. -/
def isFlag : Word → Bool
  | flag _ | unknown _ => true
  | operand _ | separator => false

/-- Words without a separator in front. -/
def skipSeparator : List Word → List Word
  | separator :: rest => rest
  | ws => ws

/-- The operands at the front, `wanted` of them at most. -/
def takeOperands : Nat → List Word → List String × List Word
  | 0, ws => ([], ws)
  | wanted + 1, ws =>
    match skipSeparator ws with
    | operand s :: rest =>
      let (more, left) := takeOperands wanted (skipSeparator rest)
      (s :: more, left)
    | _ => ([], ws)

end Word

namespace Manual

/-- What the use of a flag comes to: flags with their values, what has no place, and the words left. -/
structure Applied where
  uses : List (Flag × String)
  surplus : List String
  rest : List Word

/-- A flag by itself; its value is the next word. -/
def applyAlone (f : Flag) (rest : List Word) : Except ArgumentFault Applied :=
  if f.takesValue then
    match rest with
    | .operand s :: rest => .ok ⟨[(f, s)], [], rest⟩
    | _ => .error (.valueMissing f)
  else .ok ⟨[(f, "")], [], rest⟩

/-- A flag with something behind it in the same word: its value, or, for a flag of one letter that takes
no value, more such flags. -/
def applyAttached (m : Manual) (rest : List Word) (f : Flag) (isLong marked : Bool) :
    List Char → Except ArgumentFault Applied
  | [] => if f.takesValue then .ok ⟨[(f, "")], [], rest⟩ else .error (.valueUnused f "")
  | c :: tail =>
    let value := String.ofList (c :: tail)
    if f.takesValue then .ok ⟨[(f, value)], [], rest⟩
    else if isLong || marked || c = '-' then .error (.valueUnused f value)
    else
      match m.flag? (String.ofList ['-', c]) with
      | none => .ok ⟨[(f, "")], ["-" ++ value], rest⟩
      | some g => do
        let a ←
          match tail with
          | [] => applyAlone g rest
          | '=' :: v => m.applyAttached rest g false true v
          | d :: v => m.applyAttached rest g false false (d :: v)
        return { a with uses := (f, "") :: a.uses }

/-- The use of a flag. -/
def apply (m : Manual) (use : FlagUse) (rest : List Word) : Except ArgumentFault Applied :=
  match use.attached with
  | none => applyAlone use.flag rest
  | some ⟨marked, value⟩ =>
    m.applyAttached rest use.flag (use.spelling.startsWith "--") marked value.toList

/-- How the reading of arguments ends when it does not reach a run of the command. -/
inductive Halt
  | help
  | fault (f : ArgumentFault)
deriving DecidableEq, Repr

/-- The words that are left, read into the arguments found so far. Every round takes a word, so their
number is fuel enough. -/
def collect (m : Manual) : Nat → Arguments → List Word → Except Halt Arguments
  | 0, a, _ => .ok a
  | fuel + 1, a, ws =>
    let (operands, left) := Word.takeOperands (m.operands.length - a.operands.length) ws
    let front := ws.takeWhile (!·.isFlag)
    if !operands.isEmpty then m.collect fuel { a with operands := a.operands ++ operands } left
    else
      let a := { a with surplus := a.surplus ++ front.map Word.text }
      match ws.dropWhile (!·.isFlag) with
      | [] => .ok a
      | .flag use :: rest =>
        match m.apply use rest with
        | .error fault => .error (.fault fault)
        | .ok r =>
          if r.uses.any (·.1 = helpFlag) then .error .help
          else
            m.collect fuel { a with given := a.given ++ r.uses, surplus := a.surplus ++ r.surplus } r.rest
      | other :: rest => m.collect fuel { a with surplus := a.surplus ++ [other.text] } rest

/-- The arguments of a command: all operands are there, and every word has a place. -/
def read (m : Manual) (words : List String) : Except Halt Arguments := do
  let ws ← (m.classifyAll words).mapError .fault
  let a ← m.collect (ws.length + 1) ⟨[], [], []⟩ ws
  match m.operands.drop a.operands.length with
  | [] => if a.surplus.isEmpty then return a else throw (.fault (.unrecognized a.surplus))
  | missing => throw (.fault (.required (missing.map (·.name))))

end Manual

end Wireframe
