import Wireframe.Command.Run

/-!
The program: a run of a command over the files that it names. Only this module reads and writes files.
-/

namespace Wireframe.Main

/-- The environment variables that are set. -/
def environment : IO Environment := do
  let pairs ← Variable.all.mapM fun x => do
    let name := x.info.name
    return (← IO.getEnv name).map fun value => (name, value)
  return pairs.filterMap id

/-- The file that a word names, if there is one. -/
def load (word : String) : IO (Option (String × List Nat)) := do
  try
    let bytes ← IO.FS.readBinFile word
    return some (Command.path word, bytes.toList.map UInt8.toNat)
  catch _ => return none

/-- The files that the words of a command name. -/
def disk (words : List String) : IO Disk := do
  let files ← words.mapM load
  return { Disk.empty with texts := files.filterMap id }

/-- What there is room for: about as many containers as calls can stand inside each other. -/
def capacity : Json.Capacity where
  answer := .levels 950
  repaired := .levels 949
  literal := ⟨some Json.digitLimit, .levels 950⟩
  printed := ⟨some Json.digitLimit, .levels 940⟩

/-- The texts that a run changed, written. -/
def save (before after : Disk) : IO Unit := do
  for (path, bytes) in after.texts do
    if before.texts.find? (·.1 = path) |>.all (·.2 ≠ bytes) then
      IO.FS.writeBinFile path ⟨(bytes.map UInt8.ofNat).toArray⟩

end Wireframe.Main

open Wireframe in
def main (words : List String) : IO UInt32 := do
  let env ← Main.environment
  let before ← Main.disk words
  let input ← if words.contains "-" then (← IO.getStdin).readToEnd else pure ""
  let (code, c) := Command.run env Main.capacity words input [] ⟨before, .fresh⟩
  IO.print c.out
  IO.eprint c.err
  for line in c.log do IO.eprintln line.text
  Main.save before c.place.disk
  match code with
  | .ok n | .error (.quit n) => return UInt32.ofNat n
  | .error (.disk fault) => IO.eprintln fault.message; return 1
  | .error (.history fault) => IO.eprintln fault.message; return 1
  | .error (.excess e) => IO.eprintln e.message; return 1
  | .error .overflow => IO.eprintln MarkupError.overflow.message; return 1
  | .error (.nesting fault) => IO.eprintln fault.message; return 1
  | .error (.unwritable fault) => IO.eprintln fault.message; return 1
