import Wireframe.Json.Room
import Wireframe.Text.Quoted
import Wireframe.Value.Sorting

/-!
Writing values as JSON. One writer serves every spelling; a style says which characters are escaped, how
numbers look, whether keys are sorted, how containers are laid out and what is too much. Writing fails at
the first value that JSON has no form for, or that is too much.
-/

namespace Wireframe.Json

/-- Why a value cannot be written. -/
inductive WriteError
  | notFinite
  | unencodable (kind : String)
  | badKey (kind : String)
  | incomparable (pair : Incomparable)
  | longNumber (most : Nat)
  | tooNested
deriving DecidableEq, Repr

/-- A spelling of JSON. -/
structure Style where
  /-- Whether all characters beyond ASCII are escaped. -/
  ascii : Bool
  /-- Whether keys are sorted. -/
  sorted : Bool
  /-- Whether numbers that are not finite are refused. -/
  finiteOnly : Bool
  /-- Whether containers take a line for each item. -/
  spread : Bool
  number : NumberStyle
  bounds : Bounds

namespace Style

/-- A literal inside generated markup: equal values have one spelling. -/
def literal (bounds : Bounds) : Style := ⟨false, true, true, false, .plain, bounds⟩

/-- A plan on record. -/
def stored : Style := ⟨false, false, true, false, .stored, .none⟩

/-- JSON for people and prompts, two blanks a level. -/
def pretty : Style := ⟨true, false, false, true, .plain, .none⟩

/-- One line of ASCII. -/
def line : Style := ⟨true, false, false, false, .plain, .none⟩

/-- A style with bounds. -/
def within (style : Style) (bounds : Bounds) : Style := { style with bounds }

end Style

/-- The escape of a character by its number; one beyond the basic plane takes two units. -/
def unitEscape (n : Nat) : List Char :=
  if n < 0x10000 then '\\' :: 'u' :: Text.hex 4 n
  else
    let m := n - 0x10000
    '\\' :: 'u' :: (Text.hex 4 (0xd800 + m / 0x400) ++ '\\' :: 'u' :: Text.hex 4 (0xdc00 + m % 0x400))

/-- A character inside a written text. -/
def escapedChar (ascii : Bool) (c : Char) : List Char :=
  if c = '"' ∨ c = '\\' then ['\\', c]
  else if c = '\n' then ['\\', 'n']
  else if c = '\r' then ['\\', 'r']
  else if c = '\t' then ['\\', 't']
  else if c = '\x08' then ['\\', 'b']
  else if c = '\x0c' then ['\\', 'f']
  else if c.toNat < 32 ∨ (ascii ∧ 126 < c.toNat) then unitEscape c.toNat
  else [c]

def quotedText (ascii : Bool) (s : List Char) : List Char :=
  '"' :: (s.flatMap (escapedChar ascii) ++ ['"'])

/-- A binary64 number; one that is not finite has a name, unless it is refused. -/
def numberText (style : Style) : Double → Except WriteError (List Char)
  | .nan => if style.finiteOnly then .error .notFinite else .ok "NaN".toList
  | .infinite negative =>
    if style.finiteOnly then .error .notFinite
    else .ok (if negative then "-Infinity" else "Infinity").toList
  | x => .ok (x.text style.number)

/-- A whole number, unless it has too many digits. -/
def integerText (style : Style) (n : Int) : Except WriteError (List Char) :=
  match style.bounds.digits with
  | some most => if most < digitCount n then .error (.longNumber most) else .ok (Text.integer n)
  | none => .ok (Text.integer n)

/-- The text of a key; keys that are numbers, truth values or null become texts. -/
def keyText (style : Style) : Value → Except WriteError (List Char)
  | .text s => .ok s.toList
  | .float x => numberText style x
  | .int n => integerText style n
  | .bool b => .ok (if b then "true" else "false").toList
  | .null => .ok "null".toList
  | k => .error (.badKey k.kindName)

/-- A line break and the blanks of a level. -/
def lineStart (level : Nat) : List Char := '\n' :: List.replicate (2 * level) ' '

/-- A container whose items are written already; `level` is the level of its items. -/
def enclosed (style : Style) (level : Nat) (opening closing : Char) (items : List (List Char)) :
    List Char :=
  if items.isEmpty then [opening, closing]
  else if style.spread then
    opening :: (lineStart level ++ Text.joined (',' :: lineStart level) items
      ++ lineStart (level - 1) ++ [closing])
  else opening :: (Text.joined [','] items ++ [closing])

/-- An entry of an object. -/
def entryText (style : Style) (key : Value) (value : Except WriteError (List Char)) :
    Except WriteError (List Char) := do
  let k ← keyText style key
  let v ← value
  return quotedText style.ascii k ++ ':' :: (if style.spread then ' ' :: v else v)

/-- The entries of an object in the order in which they are written. -/
def arranged {α : Type} (style : Style) (entries : List (Value × α)) :
    Except WriteError (List (Value × α)) :=
  if style.sorted then (Value.sortByKey (·.1) entries).mapError .incomparable else .ok entries

/-- Fails where a container at a level has too many containers around it. -/
def checkRoom (style : Style) (level : Nat) : Except WriteError Unit :=
  if style.bounds.room.holds level then .ok () else .error .tooNested

mutual

/-- The text of a value at a level. -/
def write (style : Style) (level : Nat) : Value → Except WriteError (List Char)
  | .null => .ok "null".toList
  | .bool b => .ok (if b then "true" else "false").toList
  | .int n => integerText style n
  | .float x => numberText style x
  | .text s => .ok (quotedText style.ascii s.toList)
  | .list items => do
    checkRoom style level
    return enclosed style (level + 1) '[' ']' (← writeItems style (level + 1) items)
  | .tuple items => do
    checkRoom style level
    return enclosed style (level + 1) '[' ']' (← writeItems style (level + 1) items)
  | .dict entries => do
    checkRoom style level
    let es ← arranged style (writeValues style (level + 1) entries)
    return enclosed style (level + 1) '\x7b' '\x7d' (← es.mapM fun (k, v) => entryText style k v)
  | v => .error (.unencodable v.kindName)

def writeItems (style : Style) (level : Nat) : List Value → Except WriteError (List (List Char))
  | [] => .ok []
  | x :: rest => do return (← write style level x) :: (← writeItems style level rest)

/-- Each entry's key with the outcome of writing its value. -/
def writeValues (style : Style) (level : Nat) :
    List (Value × Value) → List (Value × Except WriteError (List Char))
  | [] => []
  | (k, v) :: rest => (k, write style level v) :: writeValues style level rest

end

/-- The message of a failure. -/
def WriteError.message : WriteError → String
  | notFinite => "Out of range float values are not JSON compliant"
  | unencodable kind => s!"Object of type {kind} is not JSON serializable"
  | badKey kind => s!"keys must be str, int, float, bool or None, not {kind}"
  | incomparable ⟨left, right⟩ => s!"'<' not supported between instances of '{left}' and '{right}'"
  | longNumber most =>
    s!"Exceeds the limit ({most} digits) for integer string conversion; "
      ++ "use sys.set_int_max_str_digits() to increase the limit"
  | tooNested => "maximum recursion depth exceeded while encoding a JSON object"

/-- A value as text; what JSON has no form for is written as null. -/
def text (style : Style) (v : Value) : String :=
  String.ofList ((write style 0 v).toOption.getD "null".toList)

end Wireframe.Json
