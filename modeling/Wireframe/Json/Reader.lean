import Wireframe.Json.Room

/-!
Reading JSON. The three names of numbers that are not finite are read too, a key that occurs twice keeps
its first place and takes its last value, and a failure says what was expected and where. A whole number
may have too many digits, and containers may stand inside each other too deeply for the room that a reader
has; a text with such an excess is not malformed.
-/

namespace Wireframe.Json

/-- What can be wrong with a JSON text. -/
inductive Fault
  | byteOrderMark
  | expectingValue
  | expectingName
  | expectingColon
  | expectingComma
  | unterminatedText
  | controlCharacter
  | badEscape
  | badUnicodeEscape
  | extraData
  | excess (e : Excess)
deriving DecidableEq, Repr

/-- The place where reading stopped, given by the text that follows it. -/
structure Stop where
  fault : Fault
  rest : List Char
deriving DecidableEq, Repr

/-- The only blanks that JSON knows. -/
def isBlank (c : Char) : Bool := c = ' ' || c = '\t' || c = '\n' || c = '\r'

def skipBlanks (s : List Char) : List Char := s.dropWhile isBlank

/-- The value of a hexadecimal digit. -/
def hexValue? (c : Char) : Option Nat :=
  if c.isDigit then some (c.toNat - 48)
  else if 'a' ≤ c ∧ c ≤ 'f' then some (c.toNat - 87)
  else if 'A' ≤ c ∧ c ≤ 'F' then some (c.toNat - 55)
  else none

/-- The value of four hexadecimal digits. -/
def unit? (a b c d : Char) : Option Nat := do
  return (((← hexValue? a) * 16 + (← hexValue? b)) * 16 + (← hexValue? c)) * 16 + (← hexValue? d)

/-- The character of one unit. Half a pair alone is no character; one of the last characters for private use
stands for each half, so that different halves stay different. -/
def unitChar (n : Nat) : Char :=
  if 0xd800 ≤ n ∧ n < 0xe000 then Char.ofNat (0x10f800 + (n - 0xd800)) else Char.ofNat n

/-- What a character after a backslash stands for. -/
def shortEscape? : Char → Option Char
  | '"' => some '"'
  | '\\' => some '\\'
  | '/' => some '/'
  | 'b' => some '\x08'
  | 'f' => some '\x0c'
  | 'n' => some '\n'
  | 'r' => some '\r'
  | 't' => some '\t'
  | _ => none

/-- The rest of a quoted text after its opening quote, which is the first character of `opening`; the
characters read so far are in `done`, the last first. -/
def readText (opening done : List Char) : List Char → Except Stop (List Char × List Char)
  | [] => .error ⟨.unterminatedText, opening⟩
  | '"' :: rest => .ok (done.reverse, rest)
  | ['\\'] => .error ⟨.unterminatedText, opening⟩
  | '\\' :: 'u' :: a :: b :: c :: d :: x :: rest =>
    match unit? a b c d with
    | none => .error ⟨.badUnicodeEscape, 'u' :: a :: b :: c :: d :: x :: rest⟩
    | some high =>
      if 0xd800 ≤ high ∧ high < 0xdc00 then
        match x, rest with
        | '\\', 'u' :: e :: f :: g :: h :: y :: more =>
          match unit? e f g h with
          | none => .error ⟨.badUnicodeEscape, 'u' :: e :: f :: g :: h :: y :: more⟩
          | some low =>
            if 0xdc00 ≤ low ∧ low < 0xe000 then
              let pair := 0x10000 + (high - 0xd800) * 0x400 + (low - 0xdc00)
              readText opening (Char.ofNat pair :: done) (y :: more)
            else readText opening (unitChar high :: done) (x :: 'u' :: e :: f :: g :: h :: y :: more)
        | x, rest => readText opening (unitChar high :: done) (x :: rest)
      else readText opening (unitChar high :: done) (x :: rest)
  | '\\' :: 'u' :: rest => .error ⟨.badUnicodeEscape, 'u' :: rest⟩
  | '\\' :: c :: rest =>
    match shortEscape? c with
    | some e => readText opening (e :: done) rest
    | none => .error ⟨.badEscape, '\\' :: c :: rest⟩
  | c :: rest =>
    if c.toNat < 32 then .error ⟨.controlCharacter, c :: rest⟩ else readText opening (c :: done) rest
termination_by s => s.length

/-- The digits of the fraction after a point, where there are any. -/
def fraction (s : List Char) : List Char × List Char :=
  match s with
  | '.' :: rest =>
    let (ds, more) := rest.span Char.isDigit
    if ds.isEmpty then ([], s) else (ds, more)
  | _ => ([], s)

/-- The exponent after its mark, where there is one. -/
def exponent? (s : List Char) : Option (Int × List Char) :=
  match s with
  | e :: rest =>
    if e = 'e' ∨ e = 'E' then
      let (negative, unsigned) :=
        match rest with
        | '-' :: r => (true, r)
        | '+' :: r => (false, r)
        | r => (false, r)
      let (ds, more) := unsigned.span Char.isDigit
      let n : Int := Text.digitsValue ds
      if ds.isEmpty then none else some (if negative then -n else n, more)
    else none
  | [] => none

/-- The whole part of a number: a zero, or digits that start with none. -/
def wholeDigits (s : List Char) : List Char × List Char :=
  match s with
  | '0' :: rest => (['0'], rest)
  | s => s.span Char.isDigit

/-- A number; `start` is the text from its first character on. -/
def readNumber (start : List Char) : Except Stop (Value × List Char) :=
  let (negative, s) :=
    match start with
    | '-' :: rest => (true, rest)
    | s => (false, s)
  let (whole, s) := wholeDigits s
  if whole.isEmpty then .error ⟨.expectingValue, start⟩
  else
    let (places, s) := fraction s
    match places, exponent? s with
    | [], none =>
      if digitLimit < whole.length then .error ⟨.excess (.digits whole.length), start⟩
      else
        let n : Int := Text.digitsValue whole
        .ok (.int (if negative then -n else n), s)
    | _, none =>
      .ok (.float (Double.ofDecimal negative (Text.digitsValue (whole ++ places)) (-places.length)), s)
    | _, some (e, rest) =>
      .ok (.float (Double.ofDecimal negative (Text.digitsValue (whole ++ places)) (e - places.length)),
        rest)

/-- A value that is a name or a number. -/
def readPlain (s : List Char) : Except Stop (Value × List Char) :=
  match s with
  | 'n' :: 'u' :: 'l' :: 'l' :: rest => .ok (.null, rest)
  | 't' :: 'r' :: 'u' :: 'e' :: rest => .ok (.bool true, rest)
  | 'f' :: 'a' :: 'l' :: 's' :: 'e' :: rest => .ok (.bool false, rest)
  | 'N' :: 'a' :: 'N' :: rest => .ok (.float .nan, rest)
  | 'I' :: 'n' :: 'f' :: 'i' :: 'n' :: 'i' :: 't' :: 'y' :: rest => .ok (.float (.infinite false), rest)
  | '-' :: 'I' :: 'n' :: 'f' :: 'i' :: 'n' :: 'i' :: 't' :: 'y' :: rest =>
    .ok (.float (.infinite true), rest)
  | s => readNumber s

/-- The room inside a container that starts here. -/
def enter (room : Room) (e : Excess) (s : List Char) : Except Stop Room :=
  match room.inner? with
  | some room => .ok room
  | none => .error ⟨.excess e, s⟩

mutual

/-- A value at the front of a text that starts with no blank. -/
def readValue : Nat → Room → List Char → Except Stop (Value × List Char)
  | 0, _, s => .error ⟨.expectingValue, s⟩
  | fuel + 1, room, s =>
    match s with
    | '"' :: rest => do
      let (t, rest) ← readText s [] rest
      return (.text (String.ofList t), rest)
    | '[' :: rest => do
      let room ← enter room .lists s
      match skipBlanks rest with
      | ']' :: rest => return (.list [], rest)
      | s =>
        let (items, rest) ← readItems fuel room s
        return (.list items, rest)
    | '\x7b' :: rest => do
      let room ← enter room .objects s
      match skipBlanks rest with
      | '\x7d' :: rest => return (.dict [], rest)
      | s =>
        let (entries, rest) ← readEntries fuel room s
        return (.ofEntries entries, rest)
    | s => readPlain s

/-- The items of a list up to its closing bracket. -/
def readItems : Nat → Room → List Char → Except Stop (List Value × List Char)
  | 0, _, s => .error ⟨.expectingValue, s⟩
  | fuel + 1, room, s => do
    let (item, rest) ← readValue fuel room s
    match skipBlanks rest with
    | ']' :: rest => return ([item], rest)
    | ',' :: rest =>
      let (items, rest) ← readItems fuel room (skipBlanks rest)
      return (item :: items, rest)
    | rest => throw ⟨.expectingComma, rest⟩

/-- The entries of an object up to its closing brace. -/
def readEntries : Nat → Room → List Char → Except Stop (List (Value × Value) × List Char)
  | 0, _, s => .error ⟨.expectingName, s⟩
  | fuel + 1, room, s =>
    match s with
    | '"' :: rest => do
      let (key, rest) ← readText s [] rest
      match skipBlanks rest with
      | ':' :: rest =>
        let (value, rest) ← readValue fuel room (skipBlanks rest)
        let entry := (Value.text (String.ofList key), value)
        match skipBlanks rest with
        | '\x7d' :: rest => return ([entry], rest)
        | ',' :: rest =>
          let (entries, rest) ← readEntries fuel room (skipBlanks rest)
          return (entry :: entries, rest)
        | rest => throw ⟨.expectingComma, rest⟩
      | rest => throw ⟨.expectingColon, rest⟩
    | s => .error ⟨.expectingName, s⟩

end

/-- The value that is the whole of a text. Each step of the reader takes a character or is followed by one
that does, so twice the length is fuel enough. -/
def readWithin (room : Room) (s : List Char) : Except Stop Value :=
  if s.head? = some '\ufeff' then .error ⟨.byteOrderMark, s⟩
  else do
    let (v, rest) ← readValue (2 * s.length + 2) room (skipBlanks s)
    match skipBlanks rest with
    | [] => return v
    | rest => throw ⟨.extraData, rest⟩

/-- The value that is the whole of a text, however deep it is. -/
def read (s : List Char) : Except Stop Value := readWithin .unbounded s

/-- Why a text could not be read. -/
inductive ReadError
  | malformed (fault : Fault) (line column offset : Nat)
  | excess (e : Excess)
deriving DecidableEq, Repr

/-- A stop with its line and column, both counted from one, and its offset. -/
def Stop.locate (source : List Char) (stop : Stop) : ReadError :=
  match stop.fault with
  | .excess e => .excess e
  | fault =>
    let offset := source.length - stop.rest.length
    let front := source.take offset
    .malformed fault (front.count '\n' + 1) ((front.reverse.takeWhile (· ≠ '\n')).length + 1) offset

/-- The value of a JSON text. -/
def parse (s : String) : Except ReadError Value :=
  (read s.toList).mapError (·.locate s.toList)

def Fault.message : Fault → String
  | byteOrderMark => "Unexpected UTF-8 BOM (decode using utf-8-sig)"
  | expectingValue => "Expecting value"
  | expectingName => "Expecting property name enclosed in double quotes"
  | expectingColon => "Expecting ':' delimiter"
  | expectingComma => "Expecting ',' delimiter"
  | unterminatedText => "Unterminated string starting at"
  | controlCharacter => "Invalid control character at"
  | badEscape => "Invalid \\escape"
  | badUnicodeEscape => "Invalid \\uXXXX escape"
  | extraData => "Extra data"
  | excess e => e.message

def ReadError.message : ReadError → String
  | malformed fault line column offset =>
    s!"{fault.message}: line {line} column {column} (char {offset})"
  | excess e => e.message

end Wireframe.Json
