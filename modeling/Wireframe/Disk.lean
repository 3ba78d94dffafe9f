import Wireframe.History.Storage
import Wireframe.Text.Utf8

/-!
The files that commands work on: texts, databases, and the folders around them. Paths are plain and start
where the program runs.
-/

namespace Wireframe

/-- Why a file cannot be read or written. -/
inductive DiskError
  | noSuchFile (path : String)
  | isFolder (path : String)
  | notAFolder (path : String)
  | taken (path : String)
  | notText (fault : Text.Utf8Fault)
deriving DecidableEq, Repr

namespace DiskError

def message : DiskError → String
  | noSuchFile path => s!"[Errno 2] No such file or directory: {quote path}"
  | isFolder path => s!"[Errno 21] Is a directory: {quote path}"
  | notAFolder path => s!"[Errno 20] Not a directory: {quote path}"
  | taken path => s!"[Errno 17] File exists: {quote path}"
  | notText fault => fault.message

end DiskError

structure Disk where
  texts : List (String × List Nat)
  databases : List (String × Table)
  folders : List String

namespace Disk

def empty : Disk := ⟨[], [], []⟩

/-- The folders around a path, the outermost first. -/
def around (path : String) : List String :=
  match (Text.splitSlashes path.toList).dropLast with
  | [] => []
  | first :: rest =>
    (rest.foldl (fun (done, last) part =>
      let next := last ++ '/' :: part
      (done ++ [next], next)) ([first], first)).1.map String.ofList

def isFile (d : Disk) (path : String) : Bool :=
  d.texts.any (·.1 = path) || d.databases.any (·.1 = path)

def isFolder (d : Disk) (path : String) : Bool :=
  path = "." || d.folders.contains path
    || (d.texts.map (·.1) ++ d.databases.map (·.1)).any fun p => (around p).contains path

/-- The text in a file. -/
def readText (d : Disk) (path : String) : Except DiskError String :=
  if d.isFolder path then .error (.isFolder path)
  else if (around path).any d.isFile then .error (.notAFolder path)
  else
    match d.texts.find? (·.1 = path) with
    | none => .error (.noSuchFile path)
    | some (_, bytes) =>
      match Text.decodeUtf8 bytes with
      | .ok s => .ok (String.ofList (Text.plainLines s))
      | .error fault => .error (.notText fault)

/-- An entry put in place of the one with the same path, or at the end. -/
def replace {α : Type} (path : String) (x : α) : List (String × α) → List (String × α)
  | [] => [(path, x)]
  | (p, y) :: rest => if p = path then (path, x) :: rest else (p, y) :: replace path x rest

/-- A file with a text, in a folder that is there. -/
def writeText (d : Disk) (path content : String) : Except DiskError Disk :=
  if d.isFolder path then .error (.isFolder path)
  else if (around path).any d.isFile then .error (.notAFolder path)
  else if ((around path).getLast?).all d.isFolder then
    .ok { d with texts := replace path (Text.encodeUtf8 content.toList) d.texts }
  else .error (.noSuchFile path)

/-- The folders around a path made where they are missing. -/
def makeFolders (d : Disk) (path : String) : Except DiskError Disk :=
  match (around path).find? d.isFile with
  | some file =>
    let folder := ((around path).getLast?).getD path
    .error (if file = folder then .taken folder else .notAFolder folder)
  | none => .ok { d with folders := (d.folders ++ around path).eraseDups }

/-- The rows of the database in a file; a file that is empty or not there holds none. -/
def rows (d : Disk) (path : String) : Except HistoryError Table :=
  if d.isFolder path then .error .cannotOpen
  else
    match d.texts.find? (·.1 = path) with
    | some (_, _ :: _) => .error .notADatabase
    | _ => .ok (((d.databases.find? (·.1 = path)).map (·.2)).getD .empty)

/-- What a storage keeps in a file put back there. -/
def keep (d : Disk) (s : Storage) : Disk :=
  match s with
  | .database ⟨some path, table, _⟩ =>
    { d with
      texts := d.texts.filter (·.1 ≠ path)
      databases := replace path table d.databases }
  | _ => d

end Disk

end Wireframe
