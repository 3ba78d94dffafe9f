import Wireframe.Prop

/-!
Decoding data into records. Every field is checked, so a refusal lists all that is wrong, in the order of
the fields, each issue with the path that leads to it.
-/

namespace Wireframe

/-- One thing that is wrong with decoded data. -/
inductive IssueKind
  | missing
  | textExpected
  | textEmpty
  | dictionaryExpected
  | listExpected
  | recordExpected (record : String)
  | unknownField
  | keyNotText
  | props (fault : PropsFault)
  | tooDeep
  | notJson (reason : String)
deriving DecidableEq, Repr

namespace IssueKind

/-- The short name of a kind of issue. -/
def name : IssueKind → String
  | missing => "missing"
  | textExpected => "string_type"
  | textEmpty => "string_too_short"
  | dictionaryExpected => "dict_type"
  | listExpected => "list_type"
  | recordExpected _ => "model_type"
  | unknownField => "extra_forbidden"
  | keyNotText => "invalid_key"
  | props _ => "value_error"
  | tooDeep => "recursion_loop"
  | notJson _ => "json_invalid"

def message : IssueKind → String
  | missing => "Field required"
  | textExpected => "Input should be a valid string"
  | textEmpty => "String should have at least 1 character"
  | dictionaryExpected => "Input should be a valid dictionary"
  | listExpected => "Input should be a valid list"
  | recordExpected record => s!"Input should be a valid dictionary or instance of {record}"
  | unknownField => "Extra inputs are not permitted"
  | keyNotText => "Keys should be strings"
  | props fault => s!"Value error, {fault.message}"
  | tooDeep => "Recursion error - maximum validation depth exceeded"
  | notJson reason => s!"Invalid JSON: {reason}"

/-- The message where the data is a JSON text, which has objects and arrays. -/
def textMessage : IssueKind → String
  | dictionaryExpected | recordExpected _ => "Input should be an object"
  | listExpected => "Input should be a valid array"
  | kind => kind.message

end IssueKind

structure Issue where
  place : List String
  kind : IssueKind
deriving DecidableEq, Repr

/-- The outcome of decoding: a value, or all issues. -/
abbrev Decoded (α : Type) := Except (List Issue) α

namespace Decoded

variable {α β : Type}

def issue (place : List String) (kind : IssueKind) : Decoded α := .error [⟨place, kind⟩]

/-- Two parts of a record; the issues of both are kept. -/
def both : Decoded α → Decoded β → Decoded (α × β)
  | .ok a, .ok b => .ok (a, b)
  | .ok _, .error f => .error f
  | .error e, .ok _ => .error e
  | .error e, .error f => .error (e ++ f)

/-- A list whose items were decoded one by one. -/
def all : List (Decoded α) → Decoded (List α)
  | [] => .ok []
  | x :: rest => (both x (all rest)).map fun (a, as) => a :: as

/-- A field: the first of its names that is there counts, and its place carries the first name. -/
def field? (entries : List (Value × Value)) (names : List String) : Option Value :=
  names.findSome? fun name => (Value.dict entries).get? name

/-- A field that has to be there. -/
def required (place : List String) (entries : List (Value × Value)) (names : List String)
    (decode : List String → Value → Decoded α) : Decoded α :=
  let place := place ++ names.take 1
  match field? entries names with
  | none => issue place .missing
  | some v => decode place v

/-- A field that may be missing. -/
def optional (default : α) (place : List String) (entries : List (Value × Value))
    (names : List String) (decode : List String → Value → Decoded α) : Decoded α :=
  match field? entries names with
  | none => .ok default
  | some v => decode (place ++ names.take 1) v

def text (place : List String) : Value → Decoded String
  | .text s => .ok s
  | _ => issue place .textExpected

def nonEmptyText (place : List String) : Value → Decoded String
  | .text s => if s = "" then issue place .textEmpty else .ok s
  | _ => issue place .textExpected

/-- The items of a list; each kind of sequence counts as one. -/
def items? : Value → Option (List Value)
  | .list items | .tuple items | .set items => some items
  | _ => none

/-- A list, its items decoded at their positions. -/
def list (decode : List String → Value → Decoded α) (place : List String) (v : Value) :
    Decoded (List α) :=
  match items? v with
  | none => issue place .listExpected
  | some items => all (items.mapIdx fun i item => decode (place ++ [toString i]) item)

/-- The entries of a record. -/
def record (name : String) (place : List String) (v : Value)
    (decode : List (Value × Value) → Decoded α) : Decoded α :=
  match v with
  | .dict entries => decode entries
  | _ => issue place (.recordExpected name)

/-- A key as it stands in a place. -/
def keyPlace : Value → String
  | .text s => s
  | .bool b => if b then "1" else "0"
  | k => String.ofList k.quoted

end Decoded

end Wireframe
