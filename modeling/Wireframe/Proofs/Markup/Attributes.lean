import Wireframe.Proofs.Layout.Numbering
import Wireframe.Proofs.Markup.Lossless

/-! Where the props of a node stand in the markup of a layout. -/
namespace Wireframe.Markup

variable {t : Tree} {l : Layout} {r : Layout.Ref} {n : Layout.Node} {place : Layout.Place} {id k : Nat}
variable {e : String × Value} {props : Option Props}

/-- All props are attributes but the text content. -/
theorem mem_sortedAttributes_of_ne (he : e ∈ props.getD []) (hname : e.1 ≠ Component.textProp) :
    e ∈ sortedAttributes props := by
  rw [sortedAttributes, (Text.sortByText_perm _ _).mem_iff, Props.attributes]
  split
  · exact he
  · exact List.mem_filter.mpr ⟨he, by simpa using hname⟩

theorem exists_attributesOf (he : e ∈ props.getD []) (hname : e.1 ≠ Component.textProp) :
    ∃ x y, attributesOf props = x ++ ' ' :: (attributeOf e ++ y) := by
  obtain ⟨before, behind, hsplit⟩ := List.append_of_mem (mem_sortedAttributes_of_ne he hname)
  refine ⟨before.flatMap fun e => ' ' :: attributeOf e, behind.flatMap fun e => ' ' :: attributeOf e, ?_⟩
  rw [attributesOf, hsplit, List.flatMap_append, List.flatMap_cons]
  rfl

/-- The markup of a child stands in that of its parent. -/
theorem exists_markupOf_child {c : Tree} (hc : c ∈ t.childList) (level : Nat) :
    ∃ x y, markupOf level t = x ++ (markupOf (level + 1) c ++ y) := by
  obtain ⟨tail, htail, hmarkup⟩ := exists_tail level t
  cases htail with
  | single hnone _ =>
    rw [hnone] at hc
    cases hc
  | wrapped hnone _ =>
    rw [hnone] at hc
    cases hc
  | opening _ =>
    obtain ⟨before, behind, hsplit⟩ := List.append_of_mem hc
    rw [hmarkup, hsplit, List.flatMap_append, List.flatMap_cons]
    refine ⟨Line.indent level ++ '<' :: (t.type.toList ++ (attributesOf t.props ++ '>' ::
      (contentOf ((Props.text? t.props).getD "")
        ++ ((before.flatMap fun c => '\n' :: markupOf (level + 1) c) ++ ['\n'])))),
      (behind.flatMap fun c => '\n' :: markupOf (level + 1) c) ++ closingOf level t.type, ?_⟩
    simp

/-- The attributes of every node stand in the markup. -/
theorem exists_markupOf_node (ht : l.tree? k r = some t) (hn : l.nodeBelow? r place = some (id, n))
    (level : Nat) : ∃ x y, markupOf level t = x ++ (attributesOf n.props ++ y) := by
  induction place generalizing k r t level with
  | nil =>
    cases k with
    | zero => cases ht
    | succ k =>
      obtain ⟨top, m, hm, -, hprops, -⟩ := Layout.exists_node_of_tree? ht
      obtain ⟨tail, -, hmarkup⟩ := exists_tail level t
      have hsame : some (top, m) = some (id, n) := hm.symm.trans hn
      cases hsame
      refine ⟨Line.indent level ++ '<' :: t.type.toList, tail, ?_⟩
      rw [hmarkup, hprops]
      simp
  | cons i place ih =>
    cases k with
    | zero => cases ht
    | succ k =>
      obtain ⟨top, m, hm, -, -, hchildren⟩ := Layout.exists_node_of_tree? ht
      rw [Layout.nodeBelow?_cons hm] at hn
      obtain ⟨c, hc, hbelow⟩ := Option.bind_eq_some_iff.mp hn
      obtain ⟨hi, rfl⟩ := List.getElem?_eq_some_iff.mp hc
      have hi' : i < t.childList.length := hchildren.length_eq ▸ hi
      obtain ⟨x, y, hchild⟩ := ih (hchildren.get hi hi') hbelow (level + 1)
      obtain ⟨x', y', hmarkup⟩ := exists_markupOf_child (List.getElem_mem hi') level
      refine ⟨x' ++ x, y ++ y', ?_⟩
      have hget : t.childList.get ⟨i, hi'⟩ = t.childList[i] := rfl
      rw [hmarkup, ← hget, hchild]
      simp

end Wireframe.Markup
