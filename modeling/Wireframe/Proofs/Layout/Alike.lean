import Mathlib.Data.List.Forall2
import Wireframe.Proofs.Layout.Unfolding
import Wireframe.Proofs.Value.Alike

/-! When two trees show the same. -/
namespace Wireframe.Tree

variable {t u : Tree}

/-- The text content that shows: beside children an empty text counts as none. -/
def shownText? (t : Tree) : Option String :=
  (Props.text? t.props).filter fun s => s ≠ "" || t.childList.isEmpty

theorem shownText?_leaf (h : t.childList = []) : t.shownText? = Props.text? t.props := by
  cases hs : Props.text? t.props <;> simp [shownText?, h, hs]

theorem shownText?_inner (h : t.childList ≠ []) :
    t.shownText?
      = if (Props.text? t.props).getD "" = "" then none else (Props.text? t.props).getD "" := by
  have hne : t.childList.isEmpty = false := by simpa using h
  cases hs : Props.text? t.props with
  | none => simp [shownText?, hs]
  | some s => by_cases he : s = "" <;> simp [shownText?, hs, hne, he]

theorem shownText?_inner_inj (ht : t.childList ≠ []) (hu : u.childList ≠ []) :
    t.shownText? = u.shownText?
      ↔ (Props.text? t.props).getD "" = (Props.text? u.props).getD "" := by
  rw [shownText?_inner ht, shownText?_inner hu]
  constructor
  · intro h
    split at h <;> split at h <;> simp_all
  · intro h
    rw [h]

/-- Two nodes agree but for their children. The order of props does not matter. -/
structure Agrees (t u : Tree) : Prop where
  type : t.type = u.type
  attributes : (Props.attributes t.props).toValue.Alike (Props.attributes u.props).toValue
  text : t.shownText? = u.shownText?

mutual

/-- Two trees agree node by node. Children that are not given count as an empty list. -/
def Alike : Tree → Tree → Prop
  | node type props none, u => Agrees (node type props none) u ∧ u.childList = []
  | node type props (some cs), u => Agrees (node type props (some cs)) u ∧ AllAlike cs u.childList

def AllAlike : List Tree → List Tree → Prop
  | [], [] => True
  | t :: ts, u :: us => Alike t u ∧ AllAlike ts us
  | _, _ => False

end

theorem allAlike_iff {ts us : List Tree} : AllAlike ts us ↔ List.Forall₂ Alike ts us := by
  induction ts generalizing us with
  | nil => cases us <;> simp [AllAlike]
  | cons t ts ih => cases us <;> simp [AllAlike, ih]

theorem alike_iff : t.Alike u ↔ t.Agrees u ∧ List.Forall₂ Alike t.childList u.childList := by
  obtain ⟨type, props, children⟩ := t
  cases children with
  | none => simp [Alike, childList, children]
  | some cs => rw [Alike, allAlike_iff]; rfl

end Wireframe.Tree
