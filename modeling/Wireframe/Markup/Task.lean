import Wireframe.Markup.Literal

/-!
What is left to do while a layout is written out. Nothing keeps the renderer from entering a node again, so
only the levels that are left bound its work.
-/

namespace Wireframe.Markup

/-- What is left to do: enter what a reference leads to, or close a tag after the children. -/
inductive Task
  | enter (level : Nat) (ref : Layout.Ref)
  | close (level : Nat) (tag : List Char)

/-- The levels that a limit allows. A path with more nodes than there are runs in a circle, so without a limit
that many levels are enough wherever there is none, and one more for what is no node. -/
def levels (l : Layout) (limit : Quantity) : Nat := limit.room (l.nodes.size + 1)

/-- The component that stands at a reference, by its name, and its node. Of several faults the first counts:
the depth, then what stands there, then its type. -/
def component (l : Layout) (limit : Quantity) (level : Nat) (r : Layout.Ref) :
    Except MarkupError (String × Layout.Node) :=
  if levels l limit ≤ level then .error (.tooDeep limit)
  else
    match l.node? r with
    | none => .error (.notANode r.kindName)
    | some (_, n) =>
      match n.type with
      | .text type => if Component.isRegistered type then .ok (type, n) else .error (.unknownComponent n.type)
      | type => .error (.unknownComponent type)

/-- The tasks behind the first line of a node. -/
def childTasks (level : Nat) (type : String) (n : Layout.Node) : List Task :=
  if n.childList.isEmpty then []
  else n.childList.map (.enter (level + 1)) ++ [.close level type.toList]

/-- The most children that a node of a layout has. -/
def breadth (l : Layout) : Nat := (l.nodes.toList.map (·.childList.length)).foldr max 0

/-- A bound on the tasks below a reference, by the levels that are left. -/
def effort (breadth : Nat) : Nat → Nat
  | 0 => 1
  | left + 1 => breadth * effort breadth left + 2

def Task.effort (l : Layout) (limit : Quantity) : Task → Nat
  | .enter level _ => Markup.effort (breadth l) (levels l limit - level)
  | .close .. => 1

/-- A bound on the tasks that come up while some tasks are done. -/
def work (l : Layout) (limit : Quantity) : List Task → Nat
  | [] => 0
  | task :: rest => task.effort l limit + work l limit rest

theorem le_foldr_max {n : Nat} {ns : List Nat} (h : n ∈ ns) : n ≤ ns.foldr max 0 := by
  induction ns with
  | nil => cases h
  | cons m ns ih =>
    rw [List.foldr_cons]
    rcases List.mem_cons.mp h with rfl | h
    · exact Nat.le_max_left _ _
    · exact Nat.le_trans (ih h) (Nat.le_max_right _ _)

theorem length_childList_le {l : Layout} {r : Layout.Ref} {id : Nat} {n : Layout.Node}
    (h : l.node? r = some (id, n)) : n.childList.length ≤ breadth l := by
  cases r with
  | other v => cases h
  | node k =>
    obtain ⟨m, hm, heq⟩ := Option.map_eq_some_iff.mp h
    cases heq
    exact le_foldr_max (List.mem_map.mpr ⟨n, Array.mem_toList_iff.mpr (Array.mem_of_getElem? hm), rfl⟩)

theorem work_append (l : Layout) (limit : Quantity) (tasks rest : List Task) :
    work l limit (tasks ++ rest) = work l limit tasks + work l limit rest := by
  induction tasks with
  | nil => exact (Nat.zero_add _).symm
  | cons task tasks ih => rw [List.cons_append, work, work, ih, Nat.add_assoc]

theorem work_children (l : Layout) (limit : Quantity) (level : Nat) (rs : List Layout.Ref) :
    work l limit (rs.map (.enter level)) = rs.length * effort (breadth l) (levels l limit - level) := by
  induction rs with
  | nil => exact (Nat.zero_mul _).symm
  | cons r rs ih => rw [List.map_cons, work, ih, List.length_cons, Nat.succ_mul, Nat.add_comm, Task.effort]

theorem component_eq_ok {l : Layout} {limit : Quantity} {level : Nat} {r : Layout.Ref} {type : String}
    {n : Layout.Node} (h : component l limit level r = .ok (type, n)) :
    level < levels l limit ∧ (∃ id, l.node? r = some (id, n)) ∧ n.type = .text type
      ∧ Component.isRegistered type = true := by
  unfold component at h
  split at h
  · cases h
  · rename_i hlevel
    split at h
    · cases h
    · rename_i id n hn
      split at h
      · rename_i type htype
        split at h
        · rename_i hreg
          cases h
          exact ⟨Nat.lt_of_not_le hlevel, ⟨id, hn⟩, htype, hreg⟩
        · cases h
      · cases h

/-- To enter a node leaves less work than there was. -/
theorem work_childTasks {l : Layout} {limit : Quantity} {level : Nat} {r : Layout.Ref} {type : String}
    {n : Layout.Node} (h : component l limit level r = .ok (type, n)) :
    work l limit (childTasks level type n) < (Task.enter level r).effort l limit := by
  obtain ⟨hlevel, ⟨id, hn⟩, -⟩ := component_eq_ok h
  have hleft : levels l limit - level = levels l limit - (level + 1) + 1 := by omega
  rw [Task.effort, hleft, effort, childTasks]
  split
  · exact Nat.succ_pos _
  · have hbreadth := Nat.mul_le_mul_right (effort (breadth l) (levels l limit - (level + 1)))
      (length_childList_le hn)
    rw [work_append, work_children, work, Task.effort, work]
    omega

end Wireframe.Markup
