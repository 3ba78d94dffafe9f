import Wireframe.Plan.Encode
import Wireframe.Proofs.Markup.Lines

/-! How high trees are. Their height alone decides whether they can be written out, and a depth limit is
one on it. -/
namespace Wireframe
open Outcome

variable {bounds : Json.Bounds} {t u : Tree} {l : Layout} {r : Layout.Ref} {m n : Nat} {above : List Nat} {p : Plan}

namespace Tree

mutual

/-- The most nodes on a path from the root. -/
def height : Tree → Nat
  | node _ _ none => 1
  | node _ _ (some cs) => heightAll cs + 1

def heightAll : List Tree → Nat
  | [] => 0
  | t :: rest => max (height t) (heightAll rest)

end

theorem heightAll_le_iff {ts : List Tree} : heightAll ts ≤ n ↔ ∀ t ∈ ts, t.height ≤ n := by
  induction ts with
  | nil => simp [heightAll]
  | cons t ts ih => rw [heightAll, Nat.max_le, ih, List.forall_mem_cons]

theorem height_pos (t : Tree) : 0 < t.height := by
  obtain ⟨type, props, children⟩ := t
  cases children <;> exact Nat.succ_pos _

theorem height_le_succ_iff : t.height ≤ n + 1 ↔ ∀ c ∈ t.childList, c.height ≤ n := by
  obtain ⟨type, props, children⟩ := t
  cases children with
  | none => simp [height, childList, children]
  | some cs => rw [height, Nat.succ_le_succ_iff, heightAll_le_iff]; rfl

theorem height_lt_of_mem {c : Tree} (hc : c ∈ t.childList) : c.height < t.height := by
  obtain ⟨n, hn⟩ : ∃ n, t.height = n + 1 := ⟨t.height - 1, by have := t.height_pos; omega⟩
  have hle := height_le_succ_iff.mp (Nat.le_of_eq hn) c hc
  omega

end Tree

namespace Layout

theorem forall₂_imp_of_mem {α β : Type} {R S : α → β → Prop} {as : List α} {bs : List β}
    (h : ∀ a, ∀ b ∈ bs, R a b → S a b) (hr : List.Forall₂ R as bs) : List.Forall₂ S as bs := by
  induction hr with
  | nil => exact .nil
  | cons hab _ ih =>
    exact .cons (h _ _ List.mem_cons_self hab) (ih fun a b hb => h a b (List.mem_cons_of_mem _ hb))

theorem forall_iff_of_forall₂ {α β : Type} {P : α → Prop} {Q : β → Prop} {as : List α} {bs : List β}
    (h : List.Forall₂ (fun a b => P a ↔ Q b) as bs) : (∀ a ∈ as, P a) ↔ ∀ b ∈ bs, Q b := by
  induction h with
  | nil => simp
  | cons hab _ ih => rw [List.forall_mem_cons, List.forall_mem_cons, hab, ih]

theorem exists_forall₂ {α β : Type} {R : α → β → Prop} {as : List α} (h : ∀ a ∈ as, ∃ b, R a b) :
    ∃ bs, List.Forall₂ R as bs := by
  induction as with
  | nil => exact ⟨[], .nil⟩
  | cons a as ih =>
    obtain ⟨b, hb⟩ := h a List.mem_cons_self
    obtain ⟨bs, hbs⟩ := ih fun c hc => h c (List.mem_cons_of_mem _ hc)
    exact ⟨b :: bs, .cons hb hbs⟩

/-- A tree is found with as many levels as it is high, and with no fewer. -/
theorem tree?_eq_some_iff (h : l.tree? m r = some t) : l.tree? n r = some t ↔ t.height ≤ n := by
  induction n generalizing m r t with
  | zero =>
    have hpos := t.height_pos
    exact ⟨nofun, fun hzero => absurd hzero (Nat.not_le.mpr hpos)⟩
  | succ n ih =>
    cases m with
    | zero => cases h
    | succ m =>
      rw [tree?_succ_eq_some_iff] at h ⊢
      rw [Tree.height_le_succ_iff]
      constructor
      · intro hn c hc
        cases hn with
        | leaf _ _ _ => simp [Tree.childList, Tree.children] at hc
        | inner _ _ _ hcs =>
          obtain ⟨i, hi, rfl⟩ := List.getElem_of_mem hc
          have hchild := hcs.get (hcs.length_eq.symm ▸ hi) hi
          exact (ih hchild).mp hchild
      · intro hheight
        cases h with
        | leaf hn ht hc => exact .leaf hn ht hc
        | inner hn ht hc hcs =>
          exact .inner hn ht hc (forall₂_imp_of_mem (fun _ c hc h => (ih h).mpr (hheight c hc)) hcs)

/-- Every node above a reference is the root of a tree that is higher than the one below it. -/
def Higher (l : Layout) (above : List Nat) (t : Tree) : Prop :=
  ∀ id ∈ above, ∀ m u, l.tree? m (.node id) = some u → t.height < u.height

theorem higher_nil (l : Layout) (t : Tree) : l.Higher [] t := by
  simp [Higher]

theorem Higher.notMem {id : Nat} (h : l.Higher above t) (ht : l.tree? m (.node id) = some t) :
    id ∉ above := fun hid => Nat.lt_irrefl _ (h id hid m t ht)

theorem Higher.cons {id : Nat} {c : Tree} (h : l.Higher above t) (ht : l.tree? m (.node id) = some t)
    (hc : c ∈ t.childList) : l.Higher (id :: above) c := by
  have hlower := Tree.height_lt_of_mem hc
  intro i hi k u hu
  rcases List.mem_cons.mp hi with rfl | hi
  · obtain rfl : u = t := by
      have hmax := tree?_mono hu (Nat.le_max_left k m)
      rw [tree?_mono ht (Nat.le_max_right k m)] at hmax
      exact (Option.some.inj hmax).symm
    exact hlower
  · exact Nat.lt_trans hlower (h i hi k u hu)

/-- A layout that unfolds to a tree is written out where the tree is not too high, and nowhere else. -/
theorem exists_unfold_iff (ht : l.tree? m r = some t) (habove : l.Higher above t) :
    (∃ x, l.unfold false n above r = .ok x) ↔ t.height ≤ n := by
  induction n generalizing m above r t with
  | zero =>
    have hpos := t.height_pos
    cases r with
    | other v => cases m <;> cases ht
    | node id =>
      refine ⟨fun ⟨x, hx⟩ => ?_, fun hzero => absurd hzero (Nat.not_le.mpr hpos)⟩
      cases hx
  | succ n ih =>
    cases m with
    | zero => cases ht
    | succ m =>
      cases r with
      | other v => cases ht
      | node id =>
        rw [Tree.height_le_succ_iff]
        unfold unfold
        cases tree?_succ_eq_some_iff.mp ht with
        | leaf hn htype hc =>
          obtain ⟨node, hnode, heq⟩ := Option.map_eq_some_iff.mp hn
          cases heq
          simp [hnode, hc, habove.notMem ht, Tree.childList, Tree.children]
        | @inner _ node _ rs cs hn htype hc hcs =>
          obtain ⟨node, hnode, heq⟩ := Option.map_eq_some_iff.mp hn
          cases heq
          have hchildren : (∃ xs, rs.mapM (l.unfold false n (id :: above)) = .ok xs)
              ↔ ∀ c ∈ cs, c.height ≤ n :=
            exists_mapM_eq_ok_iff.trans (forall_iff_of_forall₂ (forall₂_imp_of_mem
              (fun _ _ hc hchild => ih hchild (habove.cons ht hc)) hcs))
          simp only [hnode, hc, habove.notMem ht, Bool.false_and, Bool.false_eq_true, if_false]
          refine Iff.trans ⟨?_, ?_⟩ hchildren
          · rintro ⟨x, hx⟩
            obtain ⟨xs, hxs, _⟩ := bind_eq_ok hx
            exact ⟨xs, hxs⟩
          · rintro ⟨xs, hxs⟩
            exact ⟨_, by rw [hxs, ok_bind]; rfl⟩

end Layout

/-- A plan can be given as data unless its tree is too high. -/
theorem Plan.exists_toValue_iff (h : p.layout.Unfolds t) :
    (∃ data, p.toValue = .ok data) ↔ t.height ≤ Layout.nestingLimit := by
  obtain ⟨levels, ht⟩ := h
  rw [← Layout.exists_unfold_iff ht (Layout.higher_nil _ _)]
  constructor
  · rintro ⟨data, hdata⟩
    obtain ⟨layout, hlayout, _⟩ := map_eq_ok hdata
    exact ⟨layout, hlayout⟩
  · rintro ⟨layout, hlayout⟩
    exact ⟨_, by rw [toValue, hlayout]; rfl⟩

/-- What is rendered within some levels is a tree that is no higher. -/
theorem Markup.exists_tree?_of_renderRef {limit : Quantity} {level : Nat} {lines : List Line}
    (h : renderRef bounds l limit n level r = .ok lines) : ∃ t, l.tree? n r = some t := by
  induction n generalizing level r lines with
  | zero => cases h
  | succ n ih =>
    obtain ⟨id, node, type, hn, htype, hreg⟩ := exists_node_of_renderRef h
    have hchildren : ∀ r ∈ node.childList, ∃ c, l.tree? n r = some c := by
      rw [renderRef, hn] at h
      simp only [htype, hreg, if_true] at h
      obtain ⟨_, _, h⟩ := bind_eq_ok h
      obtain ⟨_, _, h⟩ := bind_eq_ok h
      split at h
      · rename_i hempty
        rw [List.isEmpty_iff.mp hempty]
        simp
      · obtain ⟨inner, hinner, _⟩ := bind_eq_ok h
        intro r hr
        obtain ⟨lines, hlines⟩ := exists_mapM_eq_ok_iff.mp ⟨inner, hinner⟩ r hr
        exact ih hlines
    obtain ⟨cs, hcs⟩ := Layout.exists_forall₂ hchildren
    obtain ⟨t, ht, _⟩ := Layout.exists_tree? hn htype hcs
    exact ⟨t, ht⟩

/-- A plan has a source only where its tree is within the limit. -/
theorem Source.height_le_of_generate {limit : Quantity} {source : Source}
    (h : generate bounds p limit = .ok source) :
    ∃ t, p.layout.Unfolds t ∧ t.height ≤ Markup.levels p.layout limit := by
  obtain ⟨lines, hlines, _⟩ := bind_eq_ok h
  rw [Markup.render_eq] at hlines
  obtain ⟨t, ht⟩ := Markup.exists_tree?_of_renderRef hlines
  exact ⟨t, ⟨_, ht⟩, (Layout.tree?_eq_some_iff ht).mp ht⟩

end Wireframe
