import Mathlib.Data.List.Forall2
import Wireframe.Layout.Graph

/-! The tree that a layout unfolds to. -/
namespace Wireframe

variable {t u : Tree} {l : Layout} {r : Layout.Ref} {m n base : Nat} {a b : List Layout.Node}

/-- What holds of a node whenever it holds of its children holds of every tree. -/
theorem Tree.induction_on_children {P : Tree → Prop} (h : ∀ t, (∀ c ∈ t.childList, P c) → P t)
    (t : Tree) : P t :=
  Tree.rec (motive_1 := P) (motive_2 := fun o => ∀ c ∈ o.getD [], P c)
    (motive_3 := fun cs => ∀ c ∈ cs, P c)
    (fun type props children ih => h (.node type props children) ih)
    (by simp) (fun _ ih => ih) (by simp)
    (fun c cs hc ih => List.forall_mem_cons.mpr ⟨hc, ih⟩) t

namespace Tree

theorem typesAll_eq_flatMap (ts : List Tree) : typesAll ts = ts.flatMap types := by
  induction ts with
  | nil => rfl
  | cons t ts ih => rw [typesAll, ih, List.flatMap_cons]

theorem types_eq (t : Tree) : t.types = t.type :: t.childList.flatMap types := by
  obtain ⟨type, props, children⟩ := t
  cases children with
  | none => rfl
  | some cs => rw [types, typesAll_eq_flatMap]; rfl

end Tree

namespace Layout

/-- The tree below a reference, when no path down from it has more than the given number of nodes.
-/
def tree? (l : Layout) : Nat → Ref → Option Tree
  | 0, _ => none
  | levels + 1, r =>
    match l.node? r with
    | none => none
    | some (_, n) =>
      match n.type.text?, n.children with
      | none, _ => none
      | some type, none => some (.node type n.props none)
      | some type, some rs => (rs.mapM (tree? l levels)).map fun cs => .node type n.props (some cs)

/-- What a node and the trees below it say about the tree below a reference to it. -/
inductive Grows (l : Layout) (levels : Nat) (r : Ref) : Tree → Prop
  | leaf {id : Nat} {n : Node} {type : String} (hn : l.node? r = some (id, n))
      (ht : n.type = .text type)
      (hc : n.children = none) : Grows l levels r (.node type n.props none)
  | inner {id : Nat} {n : Node} {type : String} {rs : List Ref} {cs : List Tree}
      (hn : l.node? r = some (id, n)) (ht : n.type = .text type) (hc : n.children = some rs)
      (h : List.Forall₂ (fun r c => l.tree? levels r = some c) rs cs) :
      Grows l levels r (.node type n.props (some cs))

theorem mapM_eq_some_iff {α β : Type} {f : α → Option β} {xs : List α} {ys : List β} :
    xs.mapM f = some ys ↔ List.Forall₂ (fun x y => f x = some y) xs ys := by
  induction xs generalizing ys with
  | nil => cases ys <;> simp
  | cons x xs ih =>
    rw [List.mapM_cons, List.forall₂_cons_left_iff]
    constructor
    · intro h
      obtain ⟨y, hy, h⟩ := Option.bind_eq_some_iff.mp h
      obtain ⟨zs, hzs, h⟩ := Option.bind_eq_some_iff.mp h
      cases h
      exact ⟨y, zs, hy, ih.mp hzs, rfl⟩
    · rintro ⟨y, zs, hy, hzs, rfl⟩
      rw [hy, ih.mpr hzs]
      rfl

theorem text?_eq_some {v : Value} {s : String} (h : v.text? = some s) : v = .text s := by
  cases v <;> simp_all [Value.text?]

theorem tree?_succ_eq_some_iff : l.tree? (n + 1) r = some t ↔ Grows l n r t := by
  constructor
  · intro h
    rw [tree?] at h
    split at h
    · cases h
    · rename_i id node hn
      split at h
      · cases h
      · rename_i type htype hc
        cases h
        exact .leaf hn (text?_eq_some htype) hc
      · rename_i type rs htype hc
        obtain ⟨cs, hcs, rfl⟩ := Option.map_eq_some_iff.mp h
        exact .inner hn (text?_eq_some htype) hc (mapM_eq_some_iff.mp hcs)
  · intro h
    cases h with
    | leaf hn ht hc => simp [tree?, hn, ht, hc, Value.text?]
    | inner hn ht hc h => simp [tree?, hn, ht, hc, Value.text?, mapM_eq_some_iff.mpr h]

/-- A node and the trees of its children make a tree. -/
theorem exists_tree? {id : Nat} {node : Node} {type : String} {cs : List Tree}
    (hn : l.node? r = some (id, node)) (ht : node.type = .text type)
    (h : List.Forall₂ (fun r c => l.tree? n r = some c) node.childList cs) :
    ∃ t, l.tree? (n + 1) r = some t ∧ t.type = type ∧ t.props = node.props ∧ t.childList = cs := by
  simp only [tree?_succ_eq_some_iff]
  cases hc : node.children with
  | none =>
    obtain rfl : cs = [] := by simpa [Node.childList, hc] using h
    exact ⟨_, .leaf hn ht hc, rfl, rfl, rfl⟩
  | some rs =>
    have hrs : node.childList = rs := by simp [Node.childList, hc]
    exact ⟨_, .inner hn ht hc (hrs ▸ h), rfl, rfl, rfl⟩

/-- The root of a tree is a node, and its children are the trees below the node's children. -/
theorem exists_node_of_tree? (h : l.tree? (n + 1) r = some t) :
    ∃ id node, l.node? r = some (id, node) ∧ node.type = .text t.type ∧ t.props = node.props
      ∧ List.Forall₂ (fun r c => l.tree? n r = some c) node.childList t.childList := by
  cases tree?_succ_eq_some_iff.mp h with
  | @leaf id node type hn ht hc =>
    refine ⟨id, node, hn, ht, rfl, ?_⟩
    rw [Node.childList, hc]
    exact .nil
  | @inner id node type rs cs hn ht hc hcs =>
    refine ⟨id, node, hn, ht, rfl, ?_⟩
    rw [Node.childList, hc]
    exact hcs

/-- More levels do not change a tree. -/
theorem tree?_mono (h : l.tree? m r = some t) (hmn : m ≤ n) : l.tree? n r = some t := by
  induction m generalizing n r t with
  | zero => cases h
  | succ m ih =>
    obtain ⟨n, rfl⟩ : ∃ k, n = k + 1 := ⟨n - 1, by omega⟩
    rw [tree?_succ_eq_some_iff] at h ⊢
    cases h with
    | leaf hn ht hc => exact .leaf hn ht hc
    | inner hn ht hc h => exact .inner hn ht hc (h.imp fun _ _ hr => ih hr (by omega))

/-- A layout unfolds to a tree when its paths end. Nodes that are shared are unfolded each time. -/
def Unfolds (l : Layout) (t : Tree) : Prop := ∃ levels, l.tree? levels l.root = some t

theorem Unfolds.unique (ht : l.Unfolds t) (hu : l.Unfolds u) : t = u := by
  obtain ⟨m, hm⟩ := ht
  obtain ⟨n, hn⟩ := hu
  have h := tree?_mono hm (Nat.le_max_left m n)
  rw [tree?_mono hn (Nat.le_max_right m n)] at h
  exact (Option.some.inj h).symm

theorem length_flattenAll {ts : List Tree}
    (h : ∀ t ∈ ts, ∀ base, (flatten base t).length = t.size) :
    (flattenAll base ts).length = Tree.sizeAll ts := by
  induction ts generalizing base with
  | nil => rfl
  | cons t ts ih =>
    rw [flattenAll, List.length_append, h t List.mem_cons_self, Tree.sizeAll,
      ih fun u hu => h u (List.mem_cons_of_mem _ hu)]

theorem length_flatten (t : Tree) : ∀ base, (flatten base t).length = t.size := by
  induction t using Tree.induction_on_children with
  | h t ih =>
    intro base
    obtain ⟨type, props, children⟩ := t
    cases children with
    | none => rfl
    | some cs =>
      have hcs : ∀ c ∈ cs, ∀ base, (flatten base c).length = c.size := ih
      rw [flatten, List.length_cons, length_flattenAll hcs, Tree.size]

/-- Every tree of a list unfolds from its place among the nodes, with one number of levels for all.
-/
theorem exists_forall₂_tree? {ts : List Tree}
    (ih : ∀ t ∈ ts, ∀ a b, l.nodes.toList = a ++ flatten a.length t ++ b →
      ∃ n, l.tree? n (.node a.length) = some t)
    (hl : l.nodes.toList = a ++ flattenAll a.length ts ++ b) :
    ∃ n, List.Forall₂ (fun r t => l.tree? n r = some t) ((starts a.length ts).map Ref.node) ts := by
  induction ts generalizing a with
  | nil => exact ⟨0, .nil⟩
  | cons t ts ihts =>
    rw [flattenAll] at hl
    obtain ⟨m, hm⟩ := ih t List.mem_cons_self a (flattenAll (a.length + t.size) ts ++ b)
      (by simp [hl])
    have hlen : (a ++ flatten a.length t).length = a.length + t.size := by
      rw [List.length_append, length_flatten]
    obtain ⟨n, hn⟩ := ihts (a := a ++ flatten a.length t)
      (fun u hu => ih u (List.mem_cons_of_mem _ hu)) (by rw [hlen]; simp [hl])
    rw [hlen] at hn
    refine ⟨max m n, .cons (tree?_mono hm (Nat.le_max_left m n)) ?_⟩
    exact hn.imp fun _ _ h => tree?_mono h (Nat.le_max_right m n)

theorem exists_tree?_flatten (t : Tree) : ∀ a b, l.nodes.toList = a ++ flatten a.length t ++ b →
    ∃ n, l.tree? n (.node a.length) = some t := by
  induction t using Tree.induction_on_children with
  | h t ih =>
    intro a b hl
    obtain ⟨type, props, children⟩ := t
    cases children with
    | none =>
      have hn : l.node? (.node a.length) = some (a.length, ⟨.text type, props, none⟩) := by
        simp [node?, ← Array.getElem?_toList, hl, flatten]
      exact ⟨1, tree?_succ_eq_some_iff.mpr (.leaf hn rfl rfl)⟩
    | some cs =>
      have hcs : ∀ c ∈ cs, ∀ a b, l.nodes.toList = a ++ flatten a.length c ++ b →
          ∃ n, l.tree? n (.node a.length) = some c := ih
      rw [flatten] at hl
      have hn : l.node? (.node a.length)
          = some (a.length, ⟨.text type, props, refs (a.length + 1) (some cs)⟩) := by
        simp [node?, ← Array.getElem?_toList, hl]
      obtain ⟨n, h⟩ := exists_forall₂_tree?
        (a := a ++ [⟨.text type, props, refs (a.length + 1) (some cs)⟩]) hcs
        (by simpa using hl)
      rw [List.length_append] at h
      exact ⟨n + 1, tree?_succ_eq_some_iff.mpr (.inner hn rfl rfl h)⟩

theorem forall_mem_flattenAll {P : Node → Prop} {ts : List Tree}
    (h : ∀ t ∈ ts, ∀ base, ∀ m ∈ flatten base t, P m) : ∀ base, ∀ m ∈ flattenAll base ts, P m := by
  induction ts with
  | nil => simp [flattenAll]
  | cons t ts ih =>
    intro base m hm
    rw [flattenAll, List.mem_append] at hm
    rcases hm with hm | hm
    · exact h t List.mem_cons_self base m hm
    · exact ih (fun u hu => h u (List.mem_cons_of_mem _ hu)) _ m hm

/-- What a property of trees that goes down to the children says about a root holds of all nodes. -/
theorem forall_mem_flatten {P : Node → Prop} {Q : Tree → Prop}
    (hchildren : ∀ t, Q t → ∀ c ∈ t.childList, Q c)
    (hroot : ∀ t children, Q t → P ⟨.text t.type, t.props, children⟩) (h : Q t) :
    ∀ base, ∀ m ∈ flatten base t, P m := by
  induction t using Tree.induction_on_children with
  | h t ih =>
    intro base m hm
    obtain ⟨type, props, children⟩ := t
    cases children with
    | none =>
      rw [flatten, List.mem_singleton] at hm
      subst hm
      exact hroot _ none h
    | some cs =>
      rcases List.mem_cons.mp hm with rfl | hm
      · exact hroot _ _ h
      · exact forall_mem_flattenAll (fun c hc => ih c hc (hchildren _ h c hc)) _ m hm

/-- The types of a tree are texts. -/
theorem exists_type_of_mem_ofTree (t : Tree) : ∀ m ∈ (ofTree t).nodes, ∃ type, m.type = .text type :=
  fun m hm => forall_mem_flatten (P := fun m => ∃ type, m.type = .text type) (Q := fun _ => True)
    (fun _ _ _ _ => trivial) (fun t _ _ => ⟨t.type, rfl⟩) trivial 0 m (by simpa [ofTree] using hm)

/-- The layout of a tree unfolds to that tree. -/
theorem unfolds_ofTree (t : Tree) : (ofTree t).Unfolds t :=
  exists_tree?_flatten t [] [] (by simp [ofTree])

end Layout

end Wireframe
