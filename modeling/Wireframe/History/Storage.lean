import Wireframe.History.Binding
import Wireframe.History.Memory
import Wireframe.History.Table
import Wireframe.Text.Path

/-!
The two places where a history can be kept, behind the same operations: memory, which is always ready,
and a database, which has to be opened and keeps its rows in a file or only while it is open. Memory keeps
any text, a database those that it can bind.
-/

namespace Wireframe

/-- Why a history cannot be read or changed. -/
inductive HistoryError (τ : Type := String)
  | notReady
  | duplicateVersion (id : τ)
  | duplicateRow
  | parentMissing (id : τ)
  | unbindable (fault : EncodeFault)
  | unwritable (fault : Plan.StoreError)
  | unreadable (issues : List Issue)
  | cannotOpen
  | notADatabase

namespace HistoryError

/-- The message of a failure; that of an unreadable row is the list of its issues. -/
def message : HistoryError → String
  | notReady => "Storage not initialized. Call initialize() first."
  | duplicateVersion id => s!"Duplicate version id: {id}"
  | duplicateRow => "UNIQUE constraint failed: versions.id"
  | parentMissing id => s!"Parent version {id} is no longer in the history"
  | unbindable fault => fault.message
  | unwritable fault => fault.message
  | unreadable issues => "\n".intercalate (issues.map (·.kind.textMessage))
  | cannotOpen => "unable to open database file"
  | notADatabase => "file is not a database"

end HistoryError

/-- A database: the file it is kept in, if any, its rows, and whether it is open. -/
structure Database (τ : Type := String) where
  file : Option String
  table : Table τ
  isOpen : Bool

variable {τ : Type}

namespace Database

/-- The path that stands for a database without a file. -/
def volatilePath : String := ":memory:"

/-- A closed database at a path. -/
def atPath (path : String) (table : Table τ) : Database τ :=
  let path := String.ofList (Text.plainPath path.toList)
  if path = volatilePath then ⟨none, .empty, false⟩ else ⟨some path, table, false⟩

/-- A database opened; one without a file starts empty. -/
def opened (d : Database τ) : Database τ :=
  { d with table := if d.file.isNone then .empty else d.table, isOpen := true }

def closed (d : Database τ) : Database τ := { d with isOpen := false }

/-- The rows of a database that is open. -/
def ready (d : Database τ) : Except (HistoryError τ) (Table τ) :=
  if d.isOpen then .ok d.table else .error .notReady

end Database

inductive Storage (τ : Type := String)
  | memory (m : Memory τ)
  | database (d : Database τ)

namespace Storage

variable [DecidableEq τ] [Bindable τ]

def empty : Storage τ := .memory .empty

/-- A place to keep a history: in a database where a path is given, else in memory. -/
def create (path : Option String) : Storage τ :=
  match path with
  | none => empty
  | some path => .database (Database.atPath path .empty).opened

/-- Fails where a database refuses one of some texts. -/
def bind (ts : List τ) : Except (HistoryError τ) Unit :=
  match Bindable.firstRefusal? ts with
  | none => .ok ()
  | some fault => .error (.unbindable fault)

omit [DecidableEq τ] in
theorem bind_of_unrefused {ts : List τ} (h : Bindable.firstRefusal? ts = none) : bind ts = .ok () := by
  rw [bind, h]

theorem bind_string (ts : List String) : bind ts = .ok () := bind_of_unrefused (Bindable.firstRefusal?_string ts)

/-- The version of a row that may be there. -/
def readRow (r : Option (Row τ)) : Except (HistoryError τ) (Option (Version τ)) :=
  match r with
  | none => .ok none
  | some r => (r.version.map some).mapError .unreadable

def get? (s : Storage τ) (id : τ) : Except (HistoryError τ) (Option (Version τ)) :=
  match s with
  | .memory m => .ok (m.get? id)
  | .database d => do
    let t ← d.ready
    bind [id]
    readRow (t.find? id)

def append (s : Storage τ) (v : Version τ) : Except (HistoryError τ) (Storage τ) :=
  match s with
  | .memory m =>
    match m.append? v with
    | some m => .ok (.memory m)
    | none => .error (.duplicateVersion v.id)
  | .database d => do
    let t ← d.ready
    let r ← (Row.ofVersion t.nextPosition v).mapError .unwritable
    bind r.texts
    match t.insert? r with
    | some t => return .database { d with table := t }
    | none => throw .duplicateRow

/-- The names of all versions in their order. -/
def ids (s : Storage τ) : Except (HistoryError τ) (List τ) :=
  match s with
  | .memory m => .ok m.order
  | .database d => do return (← d.ready).rows.map (·.id)

/-- All versions in their order. -/
def all (s : Storage τ) : Except (HistoryError τ) (List (Version τ)) :=
  match s with
  | .memory m => .ok m.all
  | .database d => do (← d.ready).rows.mapM fun r => r.version.mapError .unreadable

/-- What a listing says about all versions, in their order. -/
def summaries (s : Storage τ) : Except (HistoryError τ) (List (VersionSummary τ)) :=
  match s with
  | .memory m => .ok (m.all.map (·.summary))
  | .database d => do return (← d.ready).rows.map (·.summary)

def count (s : Storage τ) : Except (HistoryError τ) Nat :=
  match s with
  | .memory m => .ok m.order.length
  | .database d => do return (← d.ready).rows.length

/-- The versions after a name removed: their names, if the name is known, and what is left. -/
def truncateAfter (s : Storage τ) (id : τ) : Except (HistoryError τ) (Option (List τ) × Storage τ) :=
  match s with
  | .memory m =>
    match m.truncateAfter? id with
    | some (removed, m) => .ok (some removed, .memory m)
    | none => .ok (none, s)
  | .database d => do
    let t ← d.ready
    bind [id]
    match t.truncateAfter? id with
    | some (removed, t) => return (some removed, .database { d with table := t })
    | none => return (none, s)

/-- All versions removed. -/
def clear (s : Storage τ) : Except (HistoryError τ) (Storage τ) :=
  match s with
  | .memory _ => .ok empty
  | .database d => do
    let _ ← d.ready
    return .database { d with table := .empty }

/-- A place made ready for use. -/
def opened : Storage τ → Storage τ
  | .memory m => .memory m
  | .database d => .database d.opened

def closed : Storage τ → Storage τ
  | .memory m => .memory m
  | .database d => .database d.closed

/-- A place given up and made anew in the same way. -/
def reopened : Storage τ → Storage τ
  | .memory _ => empty
  | .database d => .database d.closed.opened

end Storage

end Wireframe
