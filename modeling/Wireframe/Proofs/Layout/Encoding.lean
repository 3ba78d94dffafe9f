import Wireframe.Plan.Encode
import Wireframe.Proofs.Layout.Accepted

/-! Trees as data: what layouts are written out as, and that decoding gives the tree back. -/
namespace Wireframe
open Outcome

variable {t : Tree} {l : Layout} {r : Layout.Ref} {m n : Nat} {v x : Value} {above : List Nat}
variable {ps : Props} {place : List String} {withProps : Bool}

theorem Tree.toValues_eq_map (ts : List Tree) : toValues ts = ts.map toValue := by
  induction ts with
  | nil => rfl
  | cons t ts ih => rw [toValues, ih, List.map_cons]

namespace Value

theorem closed_object {fields : List (String × Value)} (h : ∀ e ∈ fields, e.2.Closed) :
    (object fields).Closed := by
  refine .dict ?_ ?_
  · intro e he
    obtain ⟨f, _, rfl⟩ := List.mem_map.mp he
    rfl
  · intro e he
    obtain ⟨f, hf, rfl⟩ := List.mem_map.mp he
    exact h f hf

theorem keysDiffer_object {fields : List (String × Value)} (h : (fields.map (·.1)).Nodup) :
    keysDiffer (fields.map fun e => (text e.1, e.2)) = true := by
  induction fields with
  | nil => rfl
  | cons e fields ih =>
    rw [List.map_cons, List.nodup_cons] at h
    rw [List.map_cons, keysDiffer, ih h.2, Bool.and_true, Bool.not_eq_true', List.any_eq_false]
    intro f hf
    obtain ⟨g, hg, rfl⟩ := List.mem_map.mp hf
    simp only [same, decide_eq_true_eq]
    exact fun heq => h.1 (List.mem_map.mpr ⟨g, hg, heq.symm⟩)

theorem isProper_object {fields : List (String × Value)} (hn : (fields.map (·.1)).Nodup)
    (h : ∀ e ∈ fields, e.2.isProper = true) : (object fields).isProper = true := by
  rw [object, isProper, Bool.and_eq_true]
  refine ⟨keysDiffer_object hn, areProperEntries_iff.mpr ?_⟩
  intro e he
  obtain ⟨f, hf, rfl⟩ := List.mem_map.mp he
  exact h f hf

end Value

namespace Layout

theorem eq_map_of_forall₂ {α β γ : Type} {R : α → β → Prop} {S : α → γ → Prop} {g : γ → β}
    {as : List α} {bs : List β} {cs : List γ} (h : ∀ a b c, R a b → S a c → b = g c)
    (hb : List.Forall₂ R as bs) (hc : List.Forall₂ S as cs) : bs = cs.map g := by
  induction hb generalizing cs with
  | nil =>
    cases hc
    rfl
  | cons hab _ ih =>
    cases hc with
    | cons hac hcs => rw [List.map_cons, h _ _ _ hab hac, ih hcs]

/-- A layout that unfolds to a tree is written out as the data of that tree. -/
theorem eq_toValue_of_unfold (hx : l.unfold withProps n above r = .ok x)
    (ht : l.tree? m r = some t) : x = t.toValue := by
  induction n generalizing above r x m t with
  | zero =>
    cases r with
    | node id => cases hx
    | other v => cases m <;> cases ht
  | succ n ih =>
    cases m with
    | zero => cases ht
    | succ m =>
      cases r with
      | other v => cases ht
      | node id =>
        have hgrows := tree?_succ_eq_some_iff.mp ht
        unfold unfold at hx
        cases hgrows with
        | leaf hn htype hc =>
          obtain ⟨node, hnode, heq⟩ := Option.map_eq_some_iff.mp hn
          cases heq
          simp only [hnode, hc] at hx
          split at hx
          · cases hx
          · split at hx
            · cases hx
            · cases hx
              rw [headFields, htype]
              rfl
        | @inner _ node _ rs cs hn htype hc hcs =>
          obtain ⟨node, hnode, heq⟩ := Option.map_eq_some_iff.mp hn
          cases heq
          simp only [hnode, hc] at hx
          split at hx
          · cases hx
          · split at hx
            · cases hx
            · obtain ⟨children, hchildren, hx⟩ := bind_eq_ok hx
              cases hx
              have hvalues : children = cs.map Tree.toValue :=
                eq_map_of_forall₂ (fun r _ c hw (hu : l.tree? m r = some c) => ih hw hu)
                  (forall₂_of_mapM_eq_ok hchildren) hcs
              rw [headFields, htype, hvalues, ← Tree.toValues_eq_map]
              rfl

/-- What is written out with room for the props is written out without minding them too. -/
theorem unfold_of_withProps (hx : l.unfold true n above r = .ok x) :
    l.unfold false n above r = .ok x := by
  induction n generalizing above r x with
  | zero => exact hx
  | succ n ih =>
    cases r with
    | other v => exact hx
    | node id =>
      unfold unfold at hx ⊢
      cases hnode : l.nodes[id]? with
      | none => simpa only [hnode] using hx
      | some node =>
        simp only [hnode] at hx ⊢
        split at hx
        · cases hx
        · rename_i habove
          rw [if_neg habove]
          split at hx
          · cases hx
          · rw [if_neg (by simp)]
            cases hc : node.children with
            | none => simpa only [hc] using hx
            | some rs =>
              simp only [hc] at hx ⊢
              obtain ⟨children, hchildren, hx⟩ := bind_eq_ok hx
              have hsame : rs.mapM (unfold l false n (id :: above)) = .ok children :=
                mapM_eq_ok_of_forall₂ ((forall₂_of_mapM_eq_ok hchildren).imp fun _ _ => ih)
              rw [hsame]
              exact hx

end Layout

namespace Tree
open Decoded

/-- A tree that decoding can make, with at most so many nodes on a path from its root. -/
inductive Decodable : Nat → Tree → Prop
  | node {n : Nat} {t : Tree} (htype : t.type ≠ "") (hp : ∀ ps ∈ t.props, Props.fault? ps = none)
      (hc : ∀ c ∈ t.childList, Decodable n c) : Decodable (n + 1) t

theorem decodable_of_decode (h : decode n place v = .ok t) : t.Decodable n := by
  induction n generalizing place v t with
  | zero => cases h
  | succ n ih =>
    obtain ⟨entries, type, props, children, rfl, rfl, hprops, hchildren, htype⟩ := of_decode_eq_ok h
    refine .node htype ?_ ?_
    · intro ps hps
      obtain rfl : props = some ps := hps
      obtain hnone | ⟨p, w, _, hdecoded⟩ := hprops
      · cases hnone
      · unfold decodeProps at hdecoded
        split at hdecoded
        · cases hdecoded
        · dsimp only at hdecoded
          split at hdecoded
          · split at hdecoded
            · rename_i hfault
              cases hdecoded
              exact hfault
            · cases hdecoded
          · cases hdecoded
        · cases hdecoded
    · intro c hc
      obtain rfl | ⟨p, w, cs, _, rfl, hlist⟩ := hchildren
      · simp [childList, Tree.children] at hc
      · obtain ⟨items, _, hall⟩ := of_list_eq_ok hlist
        obtain ⟨q, item, _, hitem⟩ := hall c hc
        exact ih hitem

theorem decodeProps_toValue (h : ps.fault? = none) : decodeProps place ps.toValue = .ok (some ps) := by
  have hkeys : (ps.map fun e => (Value.text e.1, e.2)).filterMap (fun e =>
      if e.1.isText then none
      else some (⟨place ++ [keyPlace e.1, "[key]"], .textExpected⟩ : Issue)) = [] := by
    rw [List.filterMap_eq_nil_iff]
    intro e he
    obtain ⟨f, _, rfl⟩ := List.mem_map.mp he
    rfl
  have hprops : (ps.map fun e => (Value.text e.1, e.2)).filterMap
      (fun e => e.1.text?.map fun name => (name, e.2)) = ps := by
    rw [List.filterMap_map]
    exact List.filterMap_some
  rw [Props.toValue, Value.object, decodeProps]
  dsimp only
  rw [hkeys, hprops, h]
  rfl

/-- Items that decode one by one decode as a list. -/
theorem list_eq_ok {α : Type} {decode : List String → Value → Decoded α} {encode : α → Value}
    {as : List α} (h : ∀ a ∈ as, ∀ place, decode place (encode a) = .ok a) (place : List String) :
    list decode place (.list (as.map encode)) = .ok as := by
  have hall : ∀ as : List α, ∀ xs : List (Decoded α),
      List.Forall₂ (fun x a => x = .ok a) xs as → all xs = .ok as := by
    intro as xs h
    induction h with
    | nil => rfl
    | cons hx _ ih =>
      rw [all, hx, ih]
      rfl
  refine hall as _ (List.forall₂_iff_get.mpr ⟨by simp, ?_⟩)
  intro i _ hi
  simpa using h _ (List.getElem_mem hi) _

theorem decode_toValue (h : t.Decodable n) : ∀ place, decode n place t.toValue = .ok t := by
  induction h with
  | @node n t htype hp _ ih =>
    intro place
    obtain ⟨type, props, children⟩ := t
    have hempty : type ≠ "" := htype
    have hprops (ps : Props) (hps : props = some ps) (place : List String) :
        decodeProps place ps.toValue = .ok (some ps) := decodeProps_toValue (hp ps hps)
    have hlist (cs : List Tree) (hcs : children = some cs) (place : List String) :
        list (decode n) place (.list (cs.map toValue)) = .ok cs := by
      subst hcs
      exact list_eq_ok ih place
    -- The fields that are there are found by their names, whichever of them are left out.
    cases props <;> cases children <;>
      simp [decode, record, toValue, propsEntry, Value.object, unknownFields, fieldNames, required,
        Decoded.optional, field?, Value.get?, Value.text?, both, nonEmptyText, hempty, hprops,
        toValues_eq_map, hlist, Except.map]

/-- The fields of a node: its type, and what is given of props and children. -/
theorem toValue_eq (t : Tree) :
    t.toValue = .object (("type", .text t.type) :: (propsEntry t.props
      ++ t.children.toList.map fun cs => ("children", .list (cs.map toValue)))) := by
  obtain ⟨type, props, children⟩ := t
  cases children with
  | none =>
    rw [toValue, Tree.children, Option.toList_none, List.map_nil, List.append_nil]
    rfl
  | some cs =>
    rw [toValue, toValues_eq_map]
    rfl

theorem Accepted.of_props (h : t.Accepted) (hps : t.props = some ps) : ps.Accepted := by
  have hprops := h.props
  rwa [hps] at hprops

theorem Accepted.of_children {cs : List Tree} {c : Tree} (h : t.Accepted) (hcs : t.children = some cs)
    (hc : c ∈ cs) : c.Accepted := by
  refine h.children c ?_
  rwa [childList, hcs]

/-- What holds of the data of all fields of the nodes in a tree. -/
theorem forall_fields {P : Value → Prop} {e : String × Value} (htype : P (.text t.type))
    (hprops : ∀ ps, t.props = some ps → P ps.toValue)
    (hchildren : ∀ cs, t.children = some cs → P (.list (cs.map toValue)))
    (he : e ∈ ("type", Value.text t.type) :: (propsEntry t.props
      ++ t.children.toList.map fun cs => ("children", .list (cs.map toValue)))) : P e.2 := by
  rcases List.mem_cons.mp he with rfl | he
  · exact htype
  rcases List.mem_append.mp he with he | he
  · obtain ⟨ps, hps, rfl⟩ := List.mem_map.mp he
    exact hprops ps (Option.mem_toList.mp hps)
  · obtain ⟨cs, hcs, rfl⟩ := List.mem_map.mp he
    exact hchildren cs (Option.mem_toList.mp hcs)

theorem closed_toValue (h : t.Accepted) : t.toValue.Closed := by
  induction t using induction_on_children with
  | h t ih =>
    rw [toValue_eq]
    refine Value.closed_object fun e he => forall_fields (.text _) ?_ ?_ he
    · intro ps hps
      exact Value.closed_object fun e he => (h.of_props hps).closed he
    · intro cs hcs
      refine .list fun x hx => ?_
      obtain ⟨c, hc, rfl⟩ := List.mem_map.mp hx
      exact ih c (by rwa [childList, hcs]) (h.of_children hcs hc)

theorem isProper_toValue (h : t.Accepted) : t.toValue.isProper = true := by
  induction t using induction_on_children with
  | h t ih =>
    rw [toValue_eq]
    refine Value.isProper_object ?_ fun e he =>
      forall_fields (P := fun v => v.isProper = true) rfl ?_ ?_ he
    · cases t.props <;> cases t.children <;> simp [propsEntry]
    · intro ps hps
      exact Value.isProper_object (h.of_props hps).names (h.of_props hps).proper
    · intro cs hcs
      rw [Value.isProper, Value.areProper_iff]
      intro x hx
      obtain ⟨c, hc, rfl⟩ := List.mem_map.mp hx
      exact ih c (by rwa [childList, hcs]) (h.of_children hcs hc)

end Tree

namespace Plan

variable {p : Plan} {intent : String}

/-- A plan that was read from data is that of a tree. -/
theorem exists_tree_of_ofValue (hv : v.isProper = true) (h : ofValue v = .ok p) :
    ∃ intent t, p = ofTree intent t ∧ t.Decodable Tree.decodeLimit ∧ t.Accepted := by
  obtain ⟨entries, names, w, place, intent, t, rfl, hw, htree, rfl⟩ := exists_decode_of_ofValue h
  have hproper := Value.inherited_isProper.field hv hw
  exact ⟨intent, t, rfl, Tree.decodable_of_decode htree, Tree.accepted_of_decode hproper htree⟩

theorem closed_wrap (intent : String) (h : t.Accepted) : (wrap intent t.toValue).Closed := by
  refine Value.closed_object fun e he => ?_
  simp only [List.mem_cons, List.not_mem_nil, or_false] at he
  rcases he with rfl | rfl
  · exact .text intent
  · exact Tree.closed_toValue h

theorem isProper_wrap (intent : String) (h : t.Accepted) : (wrap intent t.toValue).isProper = true := by
  refine Value.isProper_object (by simp) fun e he => ?_
  simp only [List.mem_cons, List.not_mem_nil, or_false] at he
  rcases he with rfl | rfl
  · rfl
  · exact Tree.isProper_toValue h

/-- The data of a plan stands for the plan. -/
theorem ofValue_wrap (intent : String) (h : t.Decodable Tree.decodeLimit) :
    ofValue (wrap intent t.toValue) = .ok (ofTree intent t) := by
  have htree := Tree.decode_toValue h
  simp [ofValue, wrap, Value.object, Decoded.record, Decoded.required, Decoded.field?, Value.get?,
    Value.text?, Decoded.text, Decoded.both, htree, Except.map]

theorem toValue_ofTree (h : (ofTree intent t).toValue = .ok x) :
    x = wrap intent t.toValue := by
  obtain ⟨layout, hlayout, rfl⟩ := map_eq_ok h
  obtain ⟨levels, ht⟩ := Layout.unfolds_ofTree t
  rw [Layout.eq_toValue_of_unfold hlayout ht]
  rfl

end Plan

end Wireframe
