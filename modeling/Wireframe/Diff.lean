import Wireframe.Text.Search
import Wireframe.Value

/-!
Differences between two texts, line by line at the same position: a line that differs is modified, lines
past the end of the other text are added or removed.
-/

namespace Wireframe

inductive ChangeKind
  | add
  | remove
  | modify
deriving DecidableEq, Repr

namespace ChangeKind

def name : ChangeKind → String
  | add => "add"
  | remove => "remove"
  | modify => "modify"

end ChangeKind

/-- A changed line, counted from one: the new line where there is one, else the old line. -/
structure LineChange where
  kind : ChangeKind
  line : Nat
  content : List Char
deriving DecidableEq, Repr

namespace Diff

/-- How many changes are of a kind. -/
def count (kind : ChangeKind) (cs : List LineChange) : Nat := cs.countP (·.kind = kind)

/-- What a comparison found. -/
structure Result where
  additions : Nat
  deletions : Nat
  changes : List LineChange
deriving DecidableEq, Repr

namespace Result

def hasChanges (r : Result) : Bool := !r.changes.isEmpty

def modifications (r : Result) : Nat := count .modify r.changes

end Result

/-- Old lines compared with new ones, the first of which have the number `line`, behind what was found before:
so many additions and deletions, and changes of which the last comes first. -/
def compareFrom (line additions deletions : Nat) (done : List LineChange) :
    List (List Char) → List (List Char) → Result
  | [], [] => ⟨additions, deletions, done.reverse⟩
  | [], new :: news =>
    compareFrom (line + 1) (additions + 1) deletions (⟨.add, line, new⟩ :: done) [] news
  | old :: olds, [] =>
    compareFrom (line + 1) additions (deletions + 1) (⟨.remove, line, old⟩ :: done) olds []
  | old :: olds, new :: news =>
    if old = new then compareFrom (line + 1) additions deletions done olds news
    else compareFrom (line + 1) additions deletions (⟨.modify, line, new⟩ :: done) olds news

/-- An old text compared with a new one. -/
def compare (old new : List Char) : Result :=
  compareFrom 1 0 0 [] (Text.splitNewlines old) (Text.splitNewlines new)

/-- The changes from an old text to a new one. -/
def changes (old new : List Char) : List LineChange := (compare old new).changes

/-- A count of lines in words; nothing for none. -/
def counted (n : Nat) (what : String) : List String :=
  if n = 0 then [] else [if n = 1 then s!"{n} line {what}" else s!"{n} lines {what}"]

/-- The changes in a few words. -/
def summary (old new : List Char) : String :=
  let r := compare old new
  if r.hasChanges then
    ", ".intercalate (counted r.additions "added" ++ counted r.deletions "removed"
      ++ counted r.modifications "modified")
  else "No changes detected"

/-- The changes as data. -/
def toValue (old new : List Char) : Value :=
  let r := compare old new
  .object [
    ("hasChanges", .bool r.hasChanges),
    ("additions", .int r.additions),
    ("deletions", .int r.deletions),
    ("changes", .list (r.changes.map fun c =>
      .object [
        ("type", .text c.kind.name),
        ("line", .int c.line),
        ("content", .text (String.ofList c.content))]))]

end Diff

end Wireframe
