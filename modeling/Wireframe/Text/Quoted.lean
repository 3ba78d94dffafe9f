import Wireframe.Text.Printable
import Wireframe.Text.Search
import Wireframe.Text.Digit
import Wireframe.Number.Shortest
import Wireframe.Value

/-!
Quoted texts and the written form of values inside messages. A text stands between single quotes, or
between double quotes when it holds a single quote and no double one; what cannot be printed is written
as the shortest hexadecimal escape.
-/

namespace Wireframe.Text

/-- A number in hexadecimal with at least `width` digits. -/
def hex (width n : Nat) : List Char :=
  let ds := Nat.toDigits 16 n
  List.replicate (width - ds.length) '0' ++ ds

/-- The escape of a character by its number. -/
def numberedEscape (n : Nat) : List Char :=
  if n < 0x100 then '\\' :: 'x' :: hex 2 n
  else if n < 0x10000 then '\\' :: 'u' :: hex 4 n
  else '\\' :: 'U' :: hex 8 n

/-- The quote that a text is put in. -/
def quoteFor (s : List Char) : Char := if '\'' ∈ s ∧ '"' ∉ s then '"' else '\''

/-- A character as it stands inside quotes. -/
def quotedChar (quote c : Char) : List Char :=
  if c = quote ∨ c = '\\' then ['\\', c]
  else if c = '\n' then ['\\', 'n']
  else if c = '\r' then ['\\', 'r']
  else if c = '\t' then ['\\', 't']
  else if isPrintable c then [c]
  else numberedEscape c.toNat

def quoted (s : List Char) : List Char :=
  let q := quoteFor s
  q :: (s.flatMap (quotedChar q) ++ [q])

/-- Bytes in quotes: those of printable ASCII as they are, all others escaped. -/
def quotedBytes (content : List Nat) : List Char :=
  let q := quoteFor (content.map Char.ofNat)
  let one (b : Nat) : List Char :=
    if b < 128 then quotedChar q (Char.ofNat b) else numberedEscape b
  'b' :: q :: (content.flatMap one ++ [q])

end Wireframe.Text

namespace Wireframe.Value

open Text

mutual

/-- A value as it is written inside a message; texts are quoted. -/
def quoted : Value → List Char
  | null => "None".toList
  | bool b => (if b then "True" else "False").toList
  | int n => integer n
  | float x => x.text .plain
  | text s => Text.quoted s.toList
  | bytes content => quotedBytes content
  | list items => '[' :: (joined [',', ' '] (quotedItems items) ++ [']'])
  | tuple [x] => '(' :: (quoted x ++ [',', ')'])
  | tuple items => '(' :: (joined [',', ' '] (quotedItems items) ++ [')'])
  | set [] => "set()".toList
  | set items => '\x7b' :: (joined [',', ' '] (quotedItems items) ++ ['\x7d'])
  | dict entries => '\x7b' :: (joined [',', ' '] (quotedEntries entries) ++ ['\x7d'])
  | other o => o.written.toList

def quotedItems : List Value → List (List Char)
  | [] => []
  | x :: rest => quoted x :: quotedItems rest

def quotedEntries : List (Value × Value) → List (List Char)
  | [] => []
  | (k, v) :: rest => (quoted k ++ ':' :: ' ' :: quoted v) :: quotedEntries rest

end

/-- A value as it is shown by itself: a text is not quoted. -/
def shown : Value → List Char
  | text s => s.toList
  | other o => o.shown.toList
  | v => v.quoted

end Wireframe.Value

namespace Wireframe

/-- A text in quotes, as messages name it. -/
def quote (s : String) : String := String.ofList (Text.quoted s.toList)

/-- A list of texts as messages give it. -/
def quoteAll (names : List String) : String :=
  String.ofList (Value.quoted (.list (names.map .text)))

/-- A value as messages show it. -/
def Value.display (v : Value) : String := String.ofList v.shown

end Wireframe
