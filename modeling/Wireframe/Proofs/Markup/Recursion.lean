import Wireframe.Markup.Render
import Wireframe.Proofs.Outcome

/-! Rendering as a recursion over references. It makes the lines of the tasks one reference after the
other, and stops at the same fault. -/
namespace Wireframe.Markup
open Outcome

variable {bounds : Json.Bounds} {l : Layout} {limit : Quantity} {level left : Nat} {r : Layout.Ref} {type : String}
variable {n : Layout.Node} {done : List Line} {tasks : List Task}

/-- The lines of what a reference leads to, when `levels` more levels are allowed. Of several faults the
first in the order of the lines counts. -/
def renderRef (bounds : Json.Bounds) (l : Layout) (limit : Quantity) :
    Nat → Nat → Layout.Ref → Except MarkupError (List Line)
  | 0, _, _ => .error (.tooDeep limit)
  | levels + 1, level, r =>
    match l.node? r with
    | none => .error (.notANode r.kindName)
    | some (_, n) =>
      match n.type with
      | .text type =>
        if Component.isRegistered type then do
          let tag := type.toList
          let attrs ← attributesText bounds n.props
          let content ← (Props.text? n.props).mapM fun s => content bounds s.toList
          if n.childList.isEmpty then
            match content with
            | none => return [.single level tag attrs]
            | some c => return [.wrapped level tag attrs c]
          else
            let inner ← n.childList.mapM (renderRef bounds l limit levels (level + 1))
            return .opening level tag attrs (content.getD []) :: (inner.flatten ++ [.closing level tag])
        else .error (.unknownComponent n.type)
      | type => .error (.unknownComponent type)

/-- The lines of a task alone. -/
def taskLines (bounds : Json.Bounds) (l : Layout) (limit : Quantity) : Task → Except MarkupError (List Line)
  | .enter level r => renderRef bounds l limit (levels l limit - level) level r
  | .close level tag => .ok [.closing level tag]

theorem taskLines_children (level : Nat) (rs : List Layout.Ref) :
    (rs.map (Task.enter (level + 1))).mapM (taskLines bounds l limit)
      = rs.mapM (renderRef bounds l limit (levels l limit - (level + 1)) (level + 1)) := by
  induction rs with
  | nil => rfl
  | cons r rs ih => rw [List.map_cons, List.mapM_cons, List.mapM_cons, ih]; rfl

theorem mapM_taskLines_append (tasks rest : List Task) :
    (tasks ++ rest).mapM (taskLines bounds l limit) = (do
      let first ← tasks.mapM (taskLines bounds l limit)
      let others ← rest.mapM (taskLines bounds l limit)
      return first ++ others) := List.mapM_append

/-- A node's lines are its first one and those of the tasks that it leaves. -/
theorem taskLines_enter (level : Nat) (r : Layout.Ref) :
    taskLines bounds l limit (.enter level r) = (do
      let (type, n) ← component l limit level r
      let line ← firstLine bounds level type n
      let inner ← (childTasks level type n).mapM (taskLines bounds l limit)
      return line :: inner.flatten) := by
  rw [taskLines]
  by_cases hlevel : levels l limit ≤ level
  · rw [Nat.sub_eq_zero_of_le hlevel, component, if_pos hlevel]
    rfl
  · have hleft : levels l limit - level = levels l limit - (level + 1) + 1 := by omega
    rw [hleft, renderRef, component, if_neg hlevel]
    cases l.node? r with
    | none => rfl
    | some found =>
      obtain ⟨id, n⟩ := found
      cases htype : n.type with
      | text type =>
        simp only [htype]
        split
        · rw [ok_bind, firstLine]
          cases hattrs : attributesText bounds n.props with
          | error e => rfl
          | ok attrs =>
            cases hcontent : (Props.text? n.props).mapM fun s => content bounds s.toList with
            | error e => rfl
            | ok found =>
              simp only [ok_bind, childTasks]
              split
              · cases found <;> rfl
              · rw [mapM_taskLines_append, taskLines_children]
                cases n.childList.mapM (renderRef bounds l limit (levels l limit - (level + 1)) (level + 1)) with
                | error e => rfl
                | ok inner =>
                  show Except.ok _ = Except.ok _
                  simp
        · rfl
      | _ =>
        simp only [htype]
        rfl

theorem renderTasks_eq (done : List Line) (tasks : List Task) :
    renderTasks bounds l limit done tasks = (do
      let found ← tasks.mapM (taskLines bounds l limit)
      return done.reverse ++ found.flatten) := by
  induction done, tasks using renderTasks.induct l limit with
  | case1 done =>
    rw [renderTasks, List.mapM_nil]
    simp [pure, Except.pure, bind, Except.bind]
  | case2 done level tag rest ih =>
    rw [renderTasks, ih, List.mapM_cons, taskLines, ok_bind]
    cases rest.mapM (taskLines bounds l limit) with
    | error e => rfl
    | ok found =>
      show Except.ok _ = Except.ok _
      simp
  | case3 done level r rest e h =>
    rw [renderTasks, h, List.mapM_cons, taskLines_enter, h]
    rfl
  | case4 done level r rest type n h ih =>
    rw [renderTasks, h, List.mapM_cons, taskLines_enter, h]
    simp only [ok_bind, ih, mapM_taskLines_append]
    cases firstLine bounds level type n with
    | error e => rfl
    | ok line =>
      simp only [ok_bind]
      cases (childTasks level type n).mapM (taskLines bounds l limit) with
      | error e => rfl
      | ok inner =>
        simp only [ok_bind]
        cases rest.mapM (taskLines bounds l limit) with
        | error e => rfl
        | ok others =>
          show Except.ok _ = Except.ok _
          simp

/-- A layout has the lines of the task at its root. -/
theorem render_eq_taskLines (bounds : Json.Bounds) (l : Layout) (limit : Quantity) :
    render bounds l limit = taskLines bounds l limit (.enter 0 l.root) := by
  rw [render, renderTasks_eq, List.mapM_cons, List.mapM_nil]
  cases taskLines bounds l limit (.enter 0 l.root) with
  | error e => rfl
  | ok found =>
    show Except.ok _ = Except.ok _
    simp

theorem render_eq (bounds : Json.Bounds) (l : Layout) (limit : Quantity) :
    render bounds l limit = renderRef bounds l limit (levels l limit) 0 l.root :=
  render_eq_taskLines bounds l limit

end Wireframe.Markup
