import Mathlib.Data.List.Infix
import Wireframe.Layout.Graph

/-! Places in a layout: what stands at them, and the order in which they come. A node to which several
ways lead stands at several places, and a node below itself at endlessly many. -/
namespace Wireframe.Layout

variable {l : Layout} {r : Ref} {n : Node} {p q x y place : Place} {id k i j : Nat}

/-- What stands at a place below a reference. -/
def below? (l : Layout) : Ref → Place → Option Ref
  | r, [] => some r
  | r, i :: place => do
    let (_, n) ← l.node? r
    below? l (← n.childList[i]?) place

/-- What stands at a place. -/
def at? (l : Layout) (place : Place) : Option Ref := l.below? l.root place

/-- The node at a place, with its number. -/
def nodeAt? (l : Layout) (place : Place) : Option (Nat × Node) := (l.at? place).bind l.node?

theorem below?_cons (h : l.node? r = some (id, n)) :
    l.below? r (i :: place) = n.childList[i]?.bind fun c => l.below? c place := by
  rw [below?, h]
  rfl

theorem below?_append (r : Ref) (p q : Place) :
    l.below? r (p ++ q) = (l.below? r p).bind fun c => l.below? c q := by
  induction p generalizing r with
  | nil => rfl
  | cons i p ih =>
    rw [List.cons_append, below?, below?]
    cases l.node? r with
    | none => rfl
    | some found =>
      cases hc : found.2.childList[i]? with
      | none => simp [hc]
      | some c => simp [hc, ih]

theorem nodeAt?_of_at? (hr : l.at? place = some r) (hn : l.node? r = some (id, n)) :
    l.nodeAt? place = some (id, n) := by
  rw [nodeAt?, hr, Option.bind_some, hn]

theorem at?_child (h : l.nodeAt? place = some (id, n)) : l.at? (place ++ [i]) = n.childList[i]? := by
  obtain ⟨r, hr, hn⟩ := Option.bind_eq_some_iff.mp h
  rw [at?, below?_append, show l.below? l.root place = some r from hr, Option.bind_some,
    below?_cons hn]
  cases n.childList[i]? <;> rfl

/-- One number names one node. -/
theorem nodes_of_nodeAt? (h : l.nodeAt? place = some (id, n)) : l.nodes[id]? = some n := by
  obtain ⟨r, -, hn⟩ := Option.bind_eq_some_iff.mp h
  cases r with
  | other v => cases hn
  | node k =>
    obtain ⟨m, hm, heq⟩ := Option.map_eq_some_iff.mp hn
    cases heq
    exact hm

/-- A node that stands above a place. -/
def IsAbove (l : Layout) (id : Nat) (place : Place) : Prop :=
  ∃ p x, place = p ++ x ∧ x ≠ [] ∧ ∃ n, l.nodeAt? p = some (id, n)

theorem not_isAbove_root : ¬ l.IsAbove id [] := by
  rintro ⟨p, x, hroot, hx, -⟩
  exact hx (List.append_eq_nil_iff.mp hroot.symm).2

/-- Above a child there are its parent and what is above that. -/
theorem isAbove_child_iff (h : l.nodeAt? place = some (id, n)) :
    l.IsAbove k (place ++ [i]) ↔ k = id ∨ l.IsAbove k place := by
  constructor
  · rintro ⟨p, x, hplace, hx, m, hm⟩
    rcases List.eq_nil_or_concat' x with rfl | ⟨x, j, rfl⟩
    · exact (hx rfl).elim
    · rw [← List.append_assoc] at hplace
      obtain ⟨rfl, -⟩ := List.append_inj' hplace rfl
      rcases List.eq_nil_or_concat' x with rfl | ⟨x, j, rfl⟩
      · rw [List.append_nil, hm] at h
        exact .inl (congrArg Prod.fst (Option.some.inj h))
      · exact .inr ⟨p, x ++ [j], rfl, by simp, m, hm⟩
  · rintro (rfl | ⟨p, x, rfl, -, m, hm⟩)
    · exact ⟨place, [i], rfl, by simp, n, h⟩
    · exact ⟨p, x ++ [i], by simp, by simp, m, hm⟩

/-! The order of a walk: a place comes before those below it, and these come before the places of later
siblings. It is the lexicographic order. -/

theorem lt_append (p : Place) (hx : x ≠ []) : p < p ++ x := by
  induction p with
  | nil =>
    cases x with
    | nil => exact (hx rfl).elim
    | cons i x => exact List.nil_lt_cons i x
  | cons i p ih => exact List.cons_lt_cons_iff.mpr (.inr ⟨rfl, ih⟩)

theorem lt_of_lt_of_isPrefix (h : p < q) (hq : q <+: x) : p < x := by
  obtain ⟨y, rfl⟩ := hq
  cases y with
  | nil => rwa [List.append_nil]
  | cons i y => exact List.lt_trans h (lt_append q (by simp))

theorem append_lt_append_left (p : Place) : p ++ x < p ++ y ↔ x < y := by
  induction p with
  | nil => exact Iff.rfl
  | cons i p ih => rw [List.cons_append, List.cons_append, List.cons_lt_cons_iff]; simpa using ih

/-- A place with all that is below it comes before another place. -/
def Ahead (p q : Place) : Prop := ∀ x, p ++ x < q

theorem Ahead.lt (h : Ahead p q) : p < q := by simpa using h []

theorem ahead_sibling (place : Place) (hij : i < j) : Ahead (place ++ [i]) (place ++ [j]) := by
  intro x
  rw [List.append_assoc, append_lt_append_left]
  exact List.cons_lt_cons_iff.mpr (.inl hij)

/-- What comes before a place is not below it. -/
theorem not_isPrefix_of_lt (h : p < q) : ¬ q <+: p := by
  rintro ⟨x, rfl⟩
  cases x with
  | nil =>
    rw [List.append_nil] at h
    exact List.lt_irrefl q h
  | cons i x => exact List.lt_asymm h (lt_append q (by simp))

theorem Ahead.not_isPrefix (h : Ahead p q) : ¬ p <+: q := by
  rintro ⟨x, rfl⟩
  exact List.lt_irrefl _ (h x)

end Wireframe.Layout
