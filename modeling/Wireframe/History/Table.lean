import Wireframe.History.Version
import Wireframe.Plan.Stored

/-!
A history kept as rows of a table. A row carries a number that is greater than those of all rows before
it, so the rows after one are those with a greater number. Plan and explanation are kept as text.
-/

namespace Wireframe

/-- A version as it is stored. -/
structure Row (τ : Type := String) where
  position : Nat
  id : τ
  time : Moment
  userIntent : τ
  plan : String
  code : τ
  explanation : Option String
  isModification : Bool
  parentId : Option τ
deriving DecidableEq, Repr

variable {τ : Type}

namespace Row

/-- A version as the row with a number. -/
def ofVersion (position : Nat) (v : Version τ) : Except Plan.StoreError (Row τ) := do
  return {
    position
    id := v.id
    time := v.time
    userIntent := v.userIntent
    plan := ← v.plan.toText
    code := v.code
    explanation := v.explanation.map Explanation.toText
    isModification := v.isModification
    parentId := v.parentId }

/-- The version that a row holds. -/
def version (r : Row τ) : Decoded (Version τ) := do
  let plan ← Plan.ofText r.plan
  let explanation ← (r.explanation.filter (· ≠ "")).mapM Explanation.ofText
  return {
    id := r.id
    time := r.time
    userIntent := r.userIntent
    plan
    code := r.code
    explanation
    isModification := r.isModification
    parentId := r.parentId }

def summary (r : Row τ) : VersionSummary τ := ⟨r.id, r.time, r.userIntent, r.isModification⟩

/-- The texts of a row that come from outside, in the order in which they are bound. -/
def texts (r : Row τ) : List τ := [r.id, r.userIntent, r.code] ++ r.parentId.toList

end Row

/-- Rows in the order of their numbers. -/
structure Table (τ : Type := String) where
  rows : List (Row τ)
deriving DecidableEq, Repr

namespace Table

variable [DecidableEq τ]

def empty : Table τ := ⟨[]⟩

def find? (t : Table τ) (id : τ) : Option (Row τ) := t.rows.find? (·.id = id)

/-- The number of the next row. -/
def nextPosition (t : Table τ) : Nat := (t.rows.map (·.position)).foldl max 0 + 1

/-- A row put at the end, unless the name of its version is taken. -/
def insert? (t : Table τ) (r : Row τ) : Option (Table τ) :=
  if (t.find? r.id).isSome then none else some ⟨t.rows ++ [r]⟩

/-- The rows with a greater number than that of a name removed; their names, and what is left. -/
def truncateAfter? (t : Table τ) (id : τ) : Option (List τ × Table τ) :=
  (t.find? id).map fun target =>
    ((t.rows.filter (target.position < ·.position)).map (·.id),
      ⟨t.rows.filter (·.position ≤ target.position)⟩)

end Table

end Wireframe
