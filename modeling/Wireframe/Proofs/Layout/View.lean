import Mathlib.Data.Fintype.Pigeonhole
import Mathlib.Data.Fintype.Card
import Wireframe.Proofs.Layout.Places
import Wireframe.Proofs.Layout.Unfolding

/-! What a layout looks like from its root. A node to which several ways lead is seen several times, and
where a node is below itself there is no end to it. Everywhere else the view is finite: of more nodes above
each other than there are, two are the same. -/
namespace Wireframe.Layout

/-- What is seen from a reference. -/
inductive View
  | other (kind : String)
  | node (type : Value) (props : Option Props) (children : List View)

variable {l : Layout} {r c : Ref} {v w : View} {n : Node} {t : Tree} {p q x place : Place} {id k m levels : Nat}

namespace View

def children : View → List View
  | other _ => []
  | node _ _ children => children

/-- What holds of a view whenever it holds of what is seen below holds of every view. -/
theorem induction_on_children {P : View → Prop} (h : ∀ v, (∀ c ∈ v.children, P c) → P v) (v : View) : P v :=
  View.rec (motive_1 := P) (motive_2 := fun cs => ∀ c ∈ cs, P c)
    (fun kind => h (.other kind) (List.forall_mem_nil _))
    (fun type props children ih => h (.node type props children) ih) (List.forall_mem_nil _)
    (fun _ _ hc ih => List.forall_mem_cons.mpr ⟨hc, ih⟩) v

mutual

/-- All that is seen, each node before what is below it, with the levels above it. -/
def preorder (level : Nat) : View → List (Nat × View)
  | other kind => [(level, other kind)]
  | node type props children => (level, node type props children) :: preorderAll (level + 1) children

def preorderAll (level : Nat) : List View → List (Nat × View)
  | [] => []
  | v :: rest => preorder level v ++ preorderAll level rest

end

theorem preorderAll_eq_flatMap (level : Nat) (vs : List View) :
    preorderAll level vs = vs.flatMap (preorder level) := by
  induction vs with
  | nil => rfl
  | cons v vs ih => rw [preorderAll, ih, List.flatMap_cons]

theorem preorder_eq (level : Nat) (v : View) :
    v.preorder level = (level, v) :: v.children.flatMap (preorder (level + 1)) := by
  cases v with
  | other kind => rfl
  | node type props children => rw [preorder, preorderAll_eq_flatMap]; rfl

end View

/-- What is seen from a reference, when no way down from it has more than the given number of levels. -/
def view? (l : Layout) : Nat → Ref → Option View
  | 0, _ => none
  | levels + 1, r =>
    match l.node? r with
    | none => some (.other r.kindName)
    | some (_, n) => (n.childList.mapM (view? l levels)).map (.node n.type n.props)

theorem view?_other (h : l.node? r = none) (levels : Nat) :
    l.view? (levels + 1) r = some (.other r.kindName) := by
  rw [view?, h]

theorem view?_node (h : l.node? r = some (id, n)) : l.view? (levels + 1) r = some v ↔
    ∃ vs, List.Forall₂ (fun c w => l.view? levels c = some w) n.childList vs ∧ .node n.type n.props vs = v := by
  rw [view?, h]
  simp only [Option.map_eq_some_iff, mapM_eq_some_iff]

/-- What is seen of a layout. -/
def Shows (l : Layout) (v : View) : Prop := ∃ levels, l.view? levels l.root = some v

/-- A node can be reached that is below itself. -/
def Cyclic (l : Layout) : Prop := ∃ place id n, l.nodeAt? place = some (id, n) ∧ l.IsAbove id place

theorem exists_of_mapM_eq_none {α β : Type} {f : α → Option β} {xs : List α} (h : xs.mapM f = none) :
    ∃ y ∈ xs, f y = none := by
  induction xs with
  | nil => cases h
  | cons y xs ih =>
    rw [List.mapM_cons] at h
    cases hy : f y with
    | none => exact ⟨y, List.mem_cons_self, hy⟩
    | some b =>
      cases hxs : xs.mapM f with
      | none =>
        obtain ⟨z, hz, hnone⟩ := ih hxs
        exact ⟨z, List.mem_cons_of_mem _ hz, hnone⟩
      | some bs =>
        rw [hy, hxs] at h
        cases h

/-- What is not seen within some levels goes down further. -/
theorem exists_below?_of_view? (h : l.view? levels r = none) :
    ∃ p, p.length = levels ∧ (l.below? r p).isSome = true := by
  induction levels generalizing r with
  | zero => exact ⟨[], rfl, rfl⟩
  | succ levels ih =>
    cases hn : l.node? r with
    | none =>
      rw [view?_other hn] at h
      cases h
    | some found =>
      obtain ⟨id, n⟩ := found
      rw [view?, hn] at h
      obtain ⟨c, hc, hnone⟩ := exists_of_mapM_eq_none (Option.map_eq_none_iff.mp h)
      obtain ⟨p, hp, hsome⟩ := ih hnone
      obtain ⟨i, hi, rfl⟩ := List.getElem_of_mem hc
      refine ⟨i :: p, congrArg (· + 1) hp, ?_⟩
      rw [below?_cons hn, List.getElem?_eq_getElem hi]
      exact hsome

/-- Above what stands at a place there are nodes only. -/
theorem exists_nodeAt?_of_at? (h : (l.at? (p ++ x)).isSome = true) (hx : x ≠ []) :
    ∃ id n, l.nodeAt? p = some (id, n) := by
  obtain ⟨i, x, rfl⟩ := List.exists_cons_of_ne_nil hx
  obtain ⟨c, hc⟩ := Option.isSome_iff_exists.mp h
  rw [at?, below?_append] at hc
  obtain ⟨r, hr, hbelow⟩ := Option.bind_eq_some_iff.mp hc
  rw [below?] at hbelow
  obtain ⟨⟨id, n⟩, hn, -⟩ := Option.bind_eq_some_iff.mp hbelow
  exact ⟨id, n, nodeAt?_of_at? hr hn⟩

/-- Where a way has more nodes than there are, one of them is below itself. -/
theorem cyclic_of_length (h : (l.at? p).isSome = true) (hlen : l.nodes.size < p.length) : l.Cyclic := by
  have hnode (i : Fin (l.nodes.size + 1)) : ∃ id n, l.nodeAt? (p.take i) = some (id, n) := by
    refine exists_nodeAt?_of_at? (x := p.drop i) ?_ ?_
    · rwa [List.take_append_drop]
    · rw [Ne, List.drop_eq_nil_iff]
      omega
  choose id n hn using hnode
  have hlt (i : Fin (l.nodes.size + 1)) : id i < l.nodes.size :=
    (Array.getElem?_eq_some_iff.mp (nodes_of_nodeAt? (hn i))).1
  obtain ⟨i, j, hij, heq⟩ := Fintype.exists_ne_map_eq_of_card_lt
    (fun i => (⟨id i, hlt i⟩ : Fin l.nodes.size)) (by simp)
  have hsame : id i = id j := congrArg Fin.val heq
  clear heq
  wlog hbefore : i < j generalizing i j
  · exact this j i hij.symm hsame.symm (lt_of_le_of_ne (not_lt.mp hbefore) hij.symm)
  refine ⟨p.take j, id j, n j, hn j, p.take i, (p.take j).drop i, ?_, ?_, n i, hsame ▸ hn i⟩
  · have hshorter : (p.take j).take i = p.take i := by
      rw [List.take_take, Nat.min_eq_left (Nat.le_of_lt hbefore)]
    rw [← hshorter, List.take_append_drop]
  · rw [Ne, List.drop_eq_nil_iff, List.length_take]
    omega

theorem exists_shows (h : ¬ l.Cyclic) : ∃ v, l.Shows v := by
  cases hv : l.view? (l.nodes.size + 1) l.root with
  | some v => exact ⟨v, _, hv⟩
  | none =>
    obtain ⟨p, hp, hsome⟩ := exists_below?_of_view? hv
    exact (h (cyclic_of_length hsome (by omega))).elim

/-! Where there is no end to the view, no tree is all of it. -/

theorem eq_node_of_node? (h : l.node? r = some (id, n)) : r = .node id := by
  cases r with
  | other v => cases h
  | node k =>
    obtain ⟨_, _, heq⟩ := Option.map_eq_some_iff.mp h
    cases heq
    rfl

/-- From a node that is below itself there are ways as long as one likes. -/
theorem Cyclic.exists_at? (h : l.Cyclic) (k : Nat) : ∃ p, k ≤ p.length ∧ (l.at? p).isSome = true := by
  obtain ⟨place, id, n, hn, p, x, rfl, hx, m, hm⟩ := h
  obtain ⟨r, hr, hrn⟩ := Option.bind_eq_some_iff.mp hm
  obtain ⟨c, hc, hcn⟩ := Option.bind_eq_some_iff.mp hn
  rw [at?, below?_append, show l.below? l.root p = some r from hr, Option.bind_some] at hc
  -- Once around the circle leads back to where it starts.
  have hround : l.below? r x = some r := by
    rw [hc, eq_node_of_node? hcn, eq_node_of_node? hrn]
  have hrounds (k : Nat) : l.below? r (List.replicate k x).flatten = some r := by
    induction k with
    | zero => rfl
    | succ k ih => rw [List.replicate_succ, List.flatten_cons, below?_append, hround, Option.bind_some, ih]
  refine ⟨p ++ (List.replicate k x).flatten, ?_, ?_⟩
  · have hpos := List.length_pos_of_ne_nil hx
    have hmul : k ≤ k * x.length := Nat.le_mul_of_pos_right k hpos
    simp
    omega
  · rw [at?, below?_append, show l.below? l.root p = some r from hr, Option.bind_some, hrounds]
    rfl

theorem length_lt_of_tree? (h : l.tree? levels r = some t) (hp : (l.below? r p).isSome = true) :
    p.length < levels := by
  induction levels generalizing r t p with
  | zero => cases h
  | succ levels ih =>
    cases p with
    | nil => exact Nat.succ_pos levels
    | cons i p =>
      obtain ⟨id, n, hn, -, -, hchildren⟩ := exists_node_of_tree? h
      obtain ⟨c, hc⟩ := Option.isSome_iff_exists.mp hp
      rw [below?_cons hn] at hc
      obtain ⟨d, hd, hbelow⟩ := Option.bind_eq_some_iff.mp hc
      obtain ⟨hi, rfl⟩ := List.getElem?_eq_some_iff.mp hd
      have htree := hchildren.get hi (hchildren.length_eq ▸ hi)
      exact Nat.succ_lt_succ (ih htree (Option.isSome_iff_exists.mpr ⟨c, hbelow⟩))

theorem Cyclic.tree?_eq_none (h : l.Cyclic) (levels : Nat) : l.tree? levels l.root = none := by
  cases ht : l.tree? levels l.root with
  | none => rfl
  | some t =>
    obtain ⟨p, hlong, hp⟩ := h.exists_at? levels
    have hshort := length_lt_of_tree? ht hp
    omega

end Wireframe.Layout
