import Wireframe.History.Version

/-!
A history kept in memory: the names of the versions in their order, and the versions by name.
-/

namespace Wireframe

structure Memory (τ : Type := String) where
  order : List τ
  versions : List (τ × Version τ)

namespace Memory

variable {τ : Type} [DecidableEq τ]

def empty : Memory τ := ⟨[], []⟩

def get? (m : Memory τ) (id : τ) : Option (Version τ) := (m.versions.find? (·.1 = id)).map (·.2)

/-- A version put at the end, unless its name is taken. -/
def append? (m : Memory τ) (v : Version τ) : Option (Memory τ) :=
  if (m.get? v.id).isSome then none else some ⟨m.order ++ [v.id], m.versions ++ [(v.id, v)]⟩

/-- All versions in their order. -/
def all (m : Memory τ) : List (Version τ) := m.order.filterMap m.get?

/-- What stands before a name, and what follows it, in a list that holds the name. -/
def splitAfter? (id : τ) : List τ → Option (List τ × List τ)
  | [] => none
  | x :: rest =>
    if x = id then some ([x], rest)
    else (splitAfter? id rest).map fun (kept, removed) => (x :: kept, removed)

/-- The versions after a name removed; their names, and what is left. -/
def truncateAfter? (m : Memory τ) (id : τ) : Option (List τ × Memory τ) :=
  (splitAfter? id m.order).map fun (kept, removed) =>
    (removed, ⟨kept, m.versions.filter fun (x, _) => !removed.contains x⟩)

end Memory

end Wireframe
