import Wireframe.Json.Recovery

/-!
What is said about a stored text that is no JSON, or that nests its containers too deeply. Places are
counted in bytes here, and a text that ends early is told apart from one that goes wrong.
-/

namespace Wireframe.Json

/-- The most containers inside each other that a stored text may have. -/
def containerLimit : Nat := 200

/-- The brackets that are open after a text, the innermost first. -/
def openBrackets (stack : List Char) : ScanMode → List Char → List Char
  | _, [] => stack
  | .escaped, _ :: rest => openBrackets stack .text rest
  | .text, c :: rest =>
    openBrackets stack (if c = '\\' then .escaped else if c = '"' then .plain else .text) rest
  | .plain, c :: rest =>
    if c = '"' then openBrackets stack .text rest
    else if c = '[' ∨ c = '\x7b' then openBrackets (c :: stack) .plain rest
    else if c = ']' ∨ c = '\x7d' then openBrackets stack.tail .plain rest
    else openBrackets stack .plain rest

/-- The first value in a list or an object after its opening bracket, where there is one. -/
def firstValue? (opening : Char) (s : List Char) : Option (List Char) :=
  match opening, skipBlanks s with
  | _, [] | _, ']' :: _ | _, '\x7d' :: _ => none
  | '[', s => some s
  | _, '"' :: s =>
    match readText s [] s with
    | .ok (_, rest) =>
      match skipBlanks rest with
      | ':' :: rest => some (skipBlanks rest)
      | _ => none
    | .error _ => none
  | _, _ => none

/-- Where the first value stands that has too many containers around it; `depth` of them are open. -/
def tooNested? (depth : Nat) : ScanMode → List Char → Option (List Char)
  | _, [] => none
  | .escaped, _ :: rest => tooNested? depth .text rest
  | .text, c :: rest =>
    tooNested? depth (if c = '\\' then .escaped else if c = '"' then .plain else .text) rest
  | .plain, c :: rest =>
    if c = '"' then tooNested? depth .text rest
    else if c = '[' ∨ c = '\x7b' then
      match (if containerLimit ≤ depth then firstValue? c rest else none) with
      | some s => some s
      | none => tooNested? (depth + 1) .plain rest
    else if c = ']' ∨ c = '\x7d' then tooNested? (depth - 1) .plain rest
    else tooNested? depth .plain rest

/-- The front of a text that ends where `rest` begins. -/
def frontOf (source rest : List Char) : List Char := source.take (source.length - rest.length)

def byteCount (s : List Char) : Nat := s.foldl (fun n c => n + c.utf8Size) 0

/-- A reason with the place where `rest` begins in a text. -/
def reasonAt (source rest : List Char) (what : String) : String :=
  let front := frontOf source rest
  let column := byteCount (front.reverse.takeWhile (· ≠ '\n')) + (if rest.isEmpty then 0 else 1)
  let line := front.count '\n' + 1
  s!"{what} at line {line} column {column}"

/-- The names that a value may be. -/
def valueNames : List (List Char) :=
  ["null".toList, "true".toList, "false".toList, "NaN".toList, "Infinity".toList, "-Infinity".toList]

/-- The length of what two texts share at the front. -/
def sharedFront : List Char → List Char → Nat
  | a :: as, b :: bs => if a = b then sharedFront as bs + 1 else 0
  | _, _ => 0

/-- What is said where a value was expected. -/
def valueReason (source rest : List Char) : String :=
  match rest with
  | [] => reasonAt source [] "EOF while parsing a value"
  | c :: _ =>
    match valueNames.find? fun name => name.head? = some c && !(c = '-' && rest[1]? ≠ some 'I') with
    | some name =>
      match rest.drop (sharedFront name rest) with
      | [] => reasonAt source [] "EOF while parsing a value"
      | other => reasonAt source other "expected ident"
    | none =>
      if c = '-' then
        match rest.drop 1 with
        | [] => reasonAt source [] "EOF while parsing a value"
        | other => reasonAt source other "invalid number"
      else reasonAt source rest "expected value"

/-- What is said about a text in which the reader stopped. -/
def stopReason (source : List Char) (stop : Stop) : String :=
  let rest := stop.rest
  let front := frontOf source rest
  let afterComma := (front.reverse.dropWhile isBlank).head? = some ','
  let inList := (openBrackets [] .plain front).head? = some '['
  let container := if inList then "a list" else "an object"
  let closing := if inList then "]" else "\x7d"
  let ended := rest.isEmpty
  match stop.fault with
  | .byteOrderMark => reasonAt source rest "expected value"
  | .expectingValue =>
    if ended && inList then reasonAt source rest "EOF while parsing a list"
    else if inList && afterComma && rest.head? = some ']' then reasonAt source rest "trailing comma"
    else valueReason source rest
  | .expectingName =>
    if ended then
      reasonAt source rest (if afterComma then "EOF while parsing a value" else "EOF while parsing an object")
    else if afterComma && rest.head? = some '\x7d' then reasonAt source rest "trailing comma"
    else reasonAt source rest "key must be a string"
  | .expectingColon =>
    reasonAt source rest (if ended then "EOF while parsing an object" else "expected \x60:\x60")
  | .expectingComma =>
    if ended then reasonAt source rest s!"EOF while parsing {container}"
    else reasonAt source rest s!"expected \x60,\x60 or \x60{closing}\x60"
  | .unterminatedText => reasonAt source [] "EOF while parsing a string"
  | .controlCharacter =>
    reasonAt source rest "control character (\\u0000-\\u001F) found while parsing a string"
  | .badEscape => reasonAt source (rest.drop 1) "invalid escape"
  | .badUnicodeEscape => reasonAt source ((rest.drop 1).dropWhile fun c => (hexValue? c).isSome) "invalid escape"
  | .extraData => reasonAt source rest "trailing characters"
  | .excess _ => reasonAt source rest "number out of range"

/-- The value of a stored text, or what is said about it. -/
def readStored (s : List Char) : Except String Value :=
  match tooNested? 0 .plain s, read s with
  | none, .ok v => .ok v
  | none, .error stop => .error (stopReason s stop)
  | some deep, .ok _ => .error (reasonAt s deep "recursion limit exceeded")
  | some deep, .error stop =>
    .error (if deep.length < stop.rest.length then stopReason s stop
      else reasonAt s deep "recursion limit exceeded")

end Wireframe.Json
