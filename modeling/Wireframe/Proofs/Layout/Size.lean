import Wireframe.Proofs.Json.Size
import Wireframe.Proofs.Layout.Accepted

/-! Layouts in which no prop is too much to be written. -/
namespace Wireframe

variable {bounds : Json.Bounds} {l : Layout} {r : Layout.Ref} {t : Tree} {node : Layout.Node} {id : Nat}

/-- Props whose attributes keep to bounds. -/
def Props.Fits (bounds : Json.Bounds) (props : Option Props) : Prop :=
  ∀ e ∈ Props.attributes props, e.2.Fits bounds

/-- A tree whose nodes keep to bounds. -/
inductive Tree.Fits (bounds : Json.Bounds) : Tree → Prop
  | node {t : Tree} (hp : Props.Fits bounds t.props) (hc : ∀ c ∈ t.childList, Fits bounds c) : Fits bounds t

theorem Tree.Fits.props (h : t.Fits bounds) : Props.Fits bounds t.props := by
  cases h with
  | node hp _ => exact hp

theorem Tree.Fits.children (h : t.Fits bounds) : ∀ c ∈ t.childList, c.Fits bounds := by
  cases h with
  | node _ hc => exact hc

namespace Tree
open Decoded

variable {P : Value → Prop} {v : Value} {place : List String} {n : Nat}

theorem fits_of_decodeProps {props : Option Props} (hP : Value.Inherited P) (hfits : ∀ v, P v → v.Fits bounds)
    (hv : P v) (h : decodeProps place v = .ok props) : Props.Fits bounds props := by
  intro e he
  have he := (Props.attributes_sublist props).subset he
  unfold decodeProps at h
  split at h
  · cases h
    cases he
  · rename_i entries
    dsimp only at h
    split at h
    · split at h
      · cases h
        obtain ⟨f, hf, hname⟩ := List.mem_filterMap.mp he
        obtain ⟨name, -, rfl⟩ := Option.map_eq_some_iff.mp hname
        exact hfits _ (hP.entries hv f hf)
      · cases h
    · cases h
  · cases h

/-- A tree keeps to bounds that all of the data it is decoded from keeps to. -/
theorem fits_of_decode (hP : Value.Inherited P) (hfits : ∀ v, P v → v.Fits bounds) (hv : P v)
    (h : decode n place v = .ok t) : t.Fits bounds := by
  induction n generalizing place v t with
  | zero => cases h
  | succ n ih =>
    obtain ⟨entries, type, props, children, rfl, rfl, hprops, hchildren, -⟩ := of_decode_eq_ok h
    refine .node ?_ fun c hc => ?_
    · rcases hprops with rfl | ⟨p, w, hw, hprops⟩
      · exact List.forall_mem_nil _
      · exact fits_of_decodeProps hP hfits (hP.field hv hw) hprops
    · rcases hchildren with rfl | ⟨p, w, cs, hw, rfl, hcs⟩
      · cases hc
      · obtain ⟨items, hitems, hall⟩ := of_list_eq_ok hcs
        obtain ⟨q, item, hmem, hitem⟩ := hall c hc
        exact ih (hP.items (hP.field hv hw) hitems item hmem) hitem

end Tree

namespace Layout

/-- A layout whose nodes keep to bounds. -/
def Fits (bounds : Json.Bounds) (l : Layout) : Prop := ∀ n ∈ l.nodes, Props.Fits bounds n.props

theorem fits_unbounded (l : Layout) : l.Fits .none := fun _ _ e _ => e.2.fits_unbounded

theorem Fits.props (h : l.Fits bounds) (hn : l.node? r = some (id, node)) : Props.Fits bounds node.props :=
  h node (mem_nodes_of_node? hn)

theorem fits_ofTree (h : t.Fits bounds) : (ofTree t).Fits bounds :=
  fun m hm => forall_mem_flatten (P := fun m => Props.Fits bounds m.props)
    (fun _ ht => ht.children) (fun _ _ ht => ht.props) h 0 m (by simpa [ofTree] using hm)

end Layout

end Wireframe
