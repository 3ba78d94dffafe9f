import Wireframe.Layout.Decode
import Wireframe.Layout.Graph

/-!
Plans: what a planner understood, and the layout it proposes.
-/

namespace Wireframe

structure Plan where
  intent : String
  layout : Layout
deriving Inhabited

namespace Plan

open Decoded

/-- A plan whose layout is a tree. -/
def ofTree (intent : String) (t : Tree) : Plan := ⟨intent, .ofTree t⟩

/-- The plan that data stands for; other fields are ignored. -/
def ofValue (v : Value) : Decoded Plan :=
  record "Plan" [] v fun entries =>
    (both (required [] entries ["intent"] text)
      (required [] entries ["layoutTree", "layout_tree"] (Tree.decode Tree.decodeLimit))).map
        fun (intent, t) => ofTree intent t

end Plan

end Wireframe
