import Wireframe.Text.Scan

/-!
Removing known injection phrasings from user text. Each phrasing is replaced by a marker, one kind after the
other, in a fixed order; case does not matter except in control tokens.
-/

namespace Wireframe

/-- The kinds of injection phrasing. -/
inductive Injection
  | ignorePrevious
  | disregardPrevious
  | forgetPrevious
  | systemRole
  | assistantRole
  | controlToken
  | instMarker
  | sysMarker
deriving DecidableEq, Repr

namespace Injection

open Text

def all : List Injection :=
  [ignorePrevious, disregardPrevious, forgetPrevious, systemRole, assistantRole, controlToken,
    instMarker, sysMarker]

def name : Injection → String
  | ignorePrevious => "ignore_previous"
  | disregardPrevious => "disregard_previous"
  | forgetPrevious => "forget_previous"
  | systemRole => "system_role"
  | assistantRole => "assistant_role"
  | controlToken => "control_token"
  | instMarker => "inst_marker"
  | sysMarker => "sys_marker"

/-- What is left after "previous instructions", with the given verb in front and perhaps an "all" between
them. -/
def afterOrder? (verb s : List Char) : Option (List Char) := do
  let s ← blanks? (← afterFolded? verb s)
  let all? : Option (List Char) := do blanks? (← afterFolded? "all".toList s)
  let s ← blanks? (← afterFolded? "previous".toList (all?.getD s))
  let s ← afterFolded? "instruction".toList s
  return (afterFolded? ['s'] s).getD s

/-- What is left after the name of a role with a colon. -/
def afterRole? (role s : List Char) : Option (List Char) := do
  after? [':'] (trimStart (← afterFolded? role s))

/-- What is left after the first `|>` of a line. -/
def afterTokenEnd? : List Char → Option (List Char)
  | [] => none
  | c :: rest =>
    match after? ['|', '>'] (c :: rest) with
    | some rest => some rest
    | none => if c = '\n' then none else afterTokenEnd? rest

/-- What is left after a marker: an opening, perhaps a slash, a name in any case, and a closing. -/
def afterMarker? (opening name closing s : List Char) : Option (List Char) := do
  let s ← after? opening s
  let s ← afterFolded? name ((after? ['/'] s).getD s)
  after? closing s

/-- What is left after a phrasing of a kind at the front of a text. -/
def after? (kind : Injection) (s : List Char) : Option (List Char) :=
  match kind with
  | ignorePrevious => afterOrder? "ignore".toList s
  | disregardPrevious => afterOrder? "disregard".toList s
  | forgetPrevious => afterOrder? "forget".toList s
  | systemRole => afterRole? "system".toList s
  | assistantRole => afterRole? "assistant".toList s
  | controlToken => do afterTokenEnd? (← Text.after? ['<', '|'] s)
  | instMarker => afterMarker? ['['] "inst".toList [']'] s
  | sysMarker => afterMarker? ['<', '<'] "sys".toList ['>', '>'] s

end Injection

namespace Input

open Text

/-- What a phrasing is replaced by. -/
def marker : List Char := "[FILTERED]".toList

/-- The phrasings of one kind replaced. -/
def redact (kind : Injection) (s : List Char) : List Char :=
  replaceAll (fun _ s => (kind.after? s).map fun rest => (marker, rest)) s

/-- A text without injection phrasings. -/
def sanitize (s : List Char) : List Char := Injection.all.foldl (fun s kind => redact kind s) s

/-- The kinds of phrasings in a text. -/
def injections (s : List Char) : List Injection :=
  Injection.all.filter fun kind => occurs (fun _ s => (kind.after? s).map fun rest => ((), rest)) s

end Input

end Wireframe
