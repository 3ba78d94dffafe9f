import Wireframe.Plan.Basic
import Wireframe.Proofs.Layout.Unfolding
import Wireframe.Proofs.Outcome
import Wireframe.Proofs.Value.Alike

/-! Nodes that were accepted when they were made. -/
namespace Wireframe
open Outcome

variable {t : Tree} {l : Layout} {r : Layout.Ref} {n : Nat} {v w : Value} {place : List String}
variable {α β : Type} {e : String × Value}

/-- Props that passed their check. As in every dictionary, no name and no key stands twice. -/
structure Props.Accepted (props : Props) : Prop where
  fault : props.fault? = none
  names : (props.map (·.1)).Nodup
  proper : ∀ e ∈ props, e.2.isProper = true

namespace Props

variable {props : Props}

theorem Accepted.nil : Accepted [] := ⟨rfl, List.nodup_nil, by simp⟩

theorem Accepted.name (h : props.Accepted) (he : e ∈ props) : isPropName e.1.toList = true := by
  have hf := List.findSome?_eq_none_iff.mp h.fault e he
  simp only at hf
  split at hf
  · assumption
  · cases hf

theorem Accepted.closed (h : props.Accepted) (he : e ∈ props) : e.2.Closed := by
  have hf := List.findSome?_eq_none_iff.mp h.fault e he
  simp only [h.name he, if_true] at hf
  exact Value.propFault?_eq_none_iff.mp (Option.map_eq_none_iff.mp hf)

theorem attributes_sublist (props : Option Props) : (attributes props).Sublist (props.getD []) := by
  unfold attributes
  split
  · exact List.Sublist.refl _
  · exact List.filter_sublist

theorem Accepted.of_sublist {qs : Props} (h : props.Accepted) (hs : qs.Sublist props) :
    qs.Accepted where
  fault := List.findSome?_eq_none_iff.mpr fun e he =>
    List.findSome?_eq_none_iff.mp h.fault e (hs.subset he)
  names := h.names.sublist (hs.map _)
  proper e he := h.proper e (hs.subset he)

theorem Accepted.attributes {props : Option Props} (h : Props.Accepted (props.getD [])) :
    (Props.attributes props).Accepted :=
  h.of_sublist (attributes_sublist props)

end Props

/-- A tree whose nodes were all accepted. -/
inductive Tree.Accepted : Tree → Prop
  | node {t : Tree} (hp : Props.Accepted (t.props.getD [])) (hc : ∀ c ∈ t.childList, Accepted c) :
      Accepted t

theorem Tree.Accepted.props (h : t.Accepted) : Props.Accepted (t.props.getD []) := by
  cases h with
  | node hp _ => exact hp

theorem Tree.Accepted.children (h : t.Accepted) : ∀ c ∈ t.childList, c.Accepted := by
  cases h with
  | node _ hc => exact hc

namespace Layout

/-- A layout whose nodes were all accepted. -/
def Accepted (l : Layout) : Prop := ∀ n ∈ l.nodes, Props.Accepted (n.props.getD [])

theorem mem_nodes_of_node? {id : Nat} {node : Node} (hn : l.node? r = some (id, node)) : node ∈ l.nodes := by
  cases r with
  | other v => cases hn
  | node i =>
    obtain ⟨m, hm, heq⟩ := Option.map_eq_some_iff.mp hn
    cases heq
    exact Array.mem_of_getElem? hm

theorem Accepted.props {id : Nat} {node : Node} (h : l.Accepted)
    (hn : l.node? r = some (id, node)) :
    Props.Accepted (node.props.getD []) :=
  h node (mem_nodes_of_node? hn)

theorem Accepted.tree (h : l.Accepted) (ht : l.tree? n r = some t) : t.Accepted := by
  induction n generalizing r t with
  | zero => cases ht
  | succ n ih =>
    cases tree?_succ_eq_some_iff.mp ht with
    | leaf hn _ _ => exact .node (h.props hn) (by simp [Tree.childList, Tree.children])
    | @inner _ _ _ rs cs hn _ _ hcs =>
      refine .node (h.props hn) ?_
      intro c hc
      obtain ⟨i, hi, rfl⟩ := List.getElem_of_mem hc
      exact ih (hcs.get (hcs.length_eq.symm ▸ hi) hi)

theorem Accepted.unfolds (h : l.Accepted) (ht : l.Unfolds t) : t.Accepted := by
  obtain ⟨levels, ht⟩ := ht
  exact h.tree ht

theorem accepted_ofTree (h : t.Accepted) : (ofTree t).Accepted :=
  fun m hm => forall_mem_flatten (P := fun m => Props.Accepted (m.props.getD []))
    (fun _ ht => ht.children) (fun _ _ ht => ht.props) h 0 m (by simpa [ofTree] using hm)

end Layout

namespace Decoded

theorem both_eq_ok {x : Decoded α} {y : Decoded β} {a : α} {b : β} (h : both x y = .ok (a, b)) :
    x = .ok a ∧ y = .ok b := by
  cases x <;> cases y <;> simp_all [both]

theorem all_eq_ok {xs : List (Decoded α)} {as : List α} (h : all xs = .ok as) :
    List.Forall₂ (fun x a => x = .ok a) xs as := by
  induction xs generalizing as with
  | nil =>
    cases h
    exact .nil
  | cons x xs ih =>
    obtain ⟨⟨a, rest⟩, hboth, rfl⟩ := map_eq_ok h
    obtain ⟨hx, hrest⟩ := both_eq_ok hboth
    exact .cons hx (ih hrest)

/-- Each item of a decoded list comes from an item of the data. -/
theorem of_list_eq_ok {decode : List String → Value → Decoded α} {as : List α}
    (h : list decode place v = .ok as) :
    ∃ items, items? v = some items ∧ ∀ a ∈ as, ∃ p, ∃ item ∈ items, decode p item = .ok a := by
  unfold list at h
  split at h
  · cases h
  · rename_i items hitems
    refine ⟨items, hitems, ?_⟩
    intro a ha
    have hall := all_eq_ok h
    obtain ⟨i, hi, rfl⟩ := List.getElem_of_mem ha
    have hlt : i < items.length := by
      have := hall.length_eq
      rw [List.length_mapIdx] at this
      omega
    have hi' := hall.get (by simpa using hlt) hi
    exact ⟨_, items[i], List.getElem_mem hlt, by simpa using hi'⟩

end Decoded

namespace Value

/-- A property of data that goes over to the items in it and to the values of its entries. -/
structure Inherited (P : Value → Prop) : Prop where
  items {v : Value} {xs : List Value} : P v → Decoded.items? v = some xs → ∀ x ∈ xs, P x
  entries {es : List (Value × Value)} : P (dict es) → ∀ e ∈ es, P e.2

variable {P : Value → Prop}

theorem Inherited.get? (hP : Inherited P) {name : String} (hw : P w) (h : w.get? name = some v) : P v := by
  unfold Value.get? at h
  split at h
  · obtain ⟨e, he, rfl⟩ := Option.map_eq_some_iff.mp h
    exact hP.entries hw e (List.mem_of_find?_eq_some he)
  · cases h

theorem Inherited.field (hP : Inherited P) {es : List (Value × Value)} {names : List String}
    (hv : P (dict es)) (h : Decoded.field? es names = some v) : P v := by
  obtain ⟨name, _, h⟩ := List.exists_of_findSome?_eq_some h
  exact hP.get? hv h

theorem inherited_isProper : Inherited fun v => v.isProper = true where
  items {v xs} hv h := by
    cases v with
    | list xs | tuple xs | set xs =>
      cases h
      exact areProper_iff.mp (by simpa only [isProper] using hv)
    | _ => cases h
  entries {es} hv := by
    rw [isProper, Bool.and_eq_true] at hv
    exact areProperEntries_iff.mp hv.2

end Value

namespace Tree

open Decoded

/-- The names of decoded props are the texts of the keys, which differ. -/
theorem accepted_of_decodeProps {props : Option Props} (hv : v.isProper = true)
    (h : decodeProps place v = .ok props) : Props.Accepted (props.getD []) := by
  unfold decodeProps at h
  split at h
  · cases h
    exact .nil
  · rename_i entries
    simp only [Value.isProper, Bool.and_eq_true] at hv
    simp only at h
    split at h
    · rename_i hwrong
      have hk : ∀ e ∈ entries, e.1.isText = true := by
        intro e he
        rw [List.isEmpty_iff, List.filterMap_eq_nil_iff] at hwrong
        have := hwrong e he
        split at this
        · assumption
        · cases this
      have hname : ∀ e ∈ entries, (e.1.text?.map fun name => (name, e.2))
          = some (String.ofList (Value.keyChars e.1), e.2) := by
        intro e he
        obtain ⟨k, v⟩ := e
        cases k with
        | text s => simp [Value.text?, Value.keyChars]
        | _ => cases hk _ he
      rw [List.filterMap_congr hname, List.filterMap_eq_map'] at h
      split at h
      · rename_i hfault
        cases h
        refine ⟨hfault, ?_, ?_⟩
        · have hnodup := (Value.nodup_keyChars hk hv.1).map (f := String.ofList) fun _ _ h =>
            String.ofList_injective h
          simpa [Function.comp_def] using hnodup
        · intro e he
          obtain ⟨f, hf, rfl⟩ := List.mem_map.mp he
          exact Value.areProperEntries_iff.mp hv.2 f hf
      · cases h
    · cases h
  · cases h

theorem of_optional_eq_ok {a d : α} {entries : List (Value × Value)} {names : List String}
    {decode : List String → Value → Decoded α}
    (h : Decoded.optional d place entries names decode = .ok a) :
    a = d ∨ ∃ p w, field? entries names = some w ∧ decode p w = .ok a := by
  unfold Decoded.optional at h
  split at h
  · cases h
    exact .inl rfl
  · exact .inr ⟨_, _, ‹_›, h⟩

theorem ne_of_required {entries : List (Value × Value)} {names : List String} {s : String}
    (h : required place entries names nonEmptyText = .ok s) : s ≠ "" := by
  unfold required at h
  split at h
  · cases h
  · rename_i w _
    unfold nonEmptyText at h
    split at h
    · split at h
      · cases h
      · rename_i hs
        exact Except.ok.inj h ▸ hs
    · cases h

/-- Where the parts of a decoded node come from. -/
theorem of_decode_eq_ok (h : decode (n + 1) place v = .ok t) :
    ∃ entries type props children, v = .dict entries ∧ t = .node type props children
      ∧ (props = none ∨ ∃ p w, field? entries ["props"] = some w ∧ decodeProps p w = .ok props)
      ∧ (children = none ∨ ∃ p w cs, field? entries ["children"] = some w ∧ children = some cs
          ∧ list (decode n) p w = .ok cs)
      ∧ type ≠ "" := by
  unfold decode record at h
  split at h
  · rename_i entries
    simp only at h
    split at h
    · obtain ⟨⟨type, props, children⟩, hfields, rfl⟩ := map_eq_ok h
      obtain ⟨htype, hrest⟩ := both_eq_ok hfields
      obtain ⟨hprops, hchildren⟩ := both_eq_ok hrest
      refine ⟨entries, type, props, children, rfl, rfl, of_optional_eq_ok hprops, ?_,
        ne_of_required htype⟩
      rcases of_optional_eq_ok hchildren with hnone | ⟨p, w, hw, hcs⟩
      · exact .inl hnone
      · split at hcs
        · cases hcs
          exact .inl rfl
        · obtain ⟨cs, hlist, rfl⟩ := map_eq_ok hcs
          exact .inr ⟨p, _, cs, hw, rfl, hlist⟩
    · split at h <;> cases h
  · cases h

/-- Decoding makes accepted nodes. -/
theorem accepted_of_decode (hv : v.isProper = true) (h : decode n place v = .ok t) :
    t.Accepted := by
  induction n generalizing place v t with
  | zero => cases h
  | succ n ih =>
    obtain ⟨entries, type, props, children, rfl, rfl, hprops, hchildren, _⟩ := of_decode_eq_ok h
    refine .node ?_ ?_
    · rcases hprops with rfl | ⟨p, w, hw, hprops⟩
      · exact .nil
      · exact accepted_of_decodeProps (Value.inherited_isProper.field hv hw) hprops
    · intro c hc
      rcases hchildren with rfl | ⟨p, w, cs, hw, rfl, hcs⟩
      · simp [childList, Tree.children] at hc
      · obtain ⟨items, hitems, hall⟩ := of_list_eq_ok hcs
        obtain ⟨q, item, hmem, hitem⟩ := hall c hc
        have hproper := Value.inherited_isProper.field hv hw
        exact ih (Value.inherited_isProper.items hproper hitems item hmem) hitem

end Tree

/-- A plan that was read from data is that of a tree decoded from one of its fields. -/
theorem Plan.exists_decode_of_ofValue {p : Plan} (h : Plan.ofValue v = .ok p) :
    ∃ entries names w place intent t, v = .dict entries ∧ Decoded.field? entries names = some w
      ∧ Tree.decode Tree.decodeLimit place w = .ok t ∧ p = .ofTree intent t := by
  unfold Plan.ofValue Decoded.record at h
  split at h
  · rename_i entries
    obtain ⟨⟨intent, t⟩, hfields, rfl⟩ := map_eq_ok h
    obtain ⟨_, htree⟩ := Decoded.both_eq_ok hfields
    rw [Decoded.required] at htree
    split at htree
    · cases htree
    · rename_i w hw
      exact ⟨entries, _, w, _, intent, t, rfl, hw, htree, rfl⟩
  · cases h

end Wireframe
