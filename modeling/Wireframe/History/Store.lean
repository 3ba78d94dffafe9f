import Wireframe.History.Storage

/-!
The history of accepted requests. It grows at its end only, and a rollback removes all that follows the
version it goes back to.
-/

namespace Wireframe

/-- A history with what gives its next versions their names and moments. -/
structure Store (τ : Type := String) where
  storage : Storage τ
  mint : Mint τ

namespace Store

variable {τ : Type} [DecidableEq τ] [Bindable τ]

def empty : Store := ⟨.empty, .fresh⟩

/-- Whether a version with a name that a new version wants for its parent is there. -/
def checkParent (s : Storage τ) (parent : Option τ) : Except (HistoryError τ) Unit :=
  match parent with
  | none => .ok ()
  | some id => do if (← s.get? id).isNone then throw (.parentMissing id)

/-- A new version at the end of the history. Its name and moment are used up in any case. -/
def add (s : Store τ) (d : Draft τ) : Except (HistoryError τ) (Version τ) × Store τ :=
  let (v, mint) := s.mint.version d
  match checkParent s.storage d.parentId >>= fun _ => s.storage.append v with
  | .ok storage => (.ok v, ⟨storage, mint⟩)
  | .error fault => (.error fault, { s with mint })

/-- A new version with a name that is given, whatever its parent. -/
def addNamed (s : Store τ) (id : τ) (d : Draft τ) : Except (HistoryError τ) (Version τ) × Store τ :=
  let (v, mint) := s.mint.versionNamed id d
  match s.storage.append v with
  | .ok storage => (.ok v, ⟨storage, mint⟩)
  | .error fault => (.error fault, { s with mint })

/-- The version that is made the last one again, if it is there. -/
def rollback (s : Store τ) (id : τ) : Except (HistoryError τ) (Option (Version τ) × Store τ) := do
  match ← s.storage.get? id with
  | none => return (none, s)
  | some v =>
    let (_, storage) ← s.storage.truncateAfter id
    return (some v, { s with storage })

/-- The last version. -/
def latest? (s : Store τ) : Except (HistoryError τ) (Option (Version τ)) := do
  match (← s.storage.ids).getLast? with
  | none => return none
  | some id => s.storage.get? id

end Store

end Wireframe
