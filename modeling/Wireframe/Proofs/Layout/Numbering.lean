import Wireframe.Proofs.Layout.Places
import Wireframe.Proofs.Layout.Unfolding

/-! The numbers of nodes. In the layout of a tree every node has a number of its own. -/
namespace Wireframe.Layout

variable {l : Layout} {r s : Ref} {rs : List Ref} {t : Tree} {ts : List Tree} {n m : Node}
variable {x y : Place} {id i j base count : Nat} {a b : List Node}

/-- A layout in which one way at most leads to each node. -/
def Distinct (l : Layout) : Prop :=
  ∀ p q id n m, l.nodeAt? p = some (id, n) → l.nodeAt? q = some (id, m) → p = q

/-- The node at a place below a reference, with its number. -/
def nodeBelow? (l : Layout) (r : Ref) (x : Place) : Option (Nat × Node) := (l.below? r x).bind l.node?

theorem nodeBelow?_cons (h : l.node? r = some (id, n)) :
    l.nodeBelow? r (i :: x) = n.childList[i]?.bind fun c => l.nodeBelow? c x := by
  rw [nodeBelow?, below?_cons h, Option.bind_assoc]
  rfl

/-- The nodes below a reference have numbers from `base` on, so many of them, and each its own. -/
structure Numbered (l : Layout) (base count : Nat) (r : Ref) : Prop where
  within : ∀ x id n, l.nodeBelow? r x = some (id, n) → base ≤ id ∧ id < base + count
  once : ∀ x y id n m, l.nodeBelow? r x = some (id, n) → l.nodeBelow? r y = some (id, m) → x = y

/-- The same of the nodes below several references. -/
structure AllNumbered (l : Layout) (base count : Nat) (rs : List Ref) : Prop where
  within : ∀ (i : Nat) r, rs[i]? = some r →
    ∀ x id n, l.nodeBelow? r x = some (id, n) → base ≤ id ∧ id < base + count
  once : ∀ (i j : Nat) r s, rs[i]? = some r → rs[j]? = some s →
    ∀ x y id n m, l.nodeBelow? r x = some (id, n) → l.nodeBelow? s y = some (id, m) → i = j ∧ x = y

theorem allNumbered_nil : AllNumbered l base 0 [] := ⟨nofun, nofun⟩

theorem AllNumbered.cons {size : Nat} (h : Numbered l base size r)
    (hrs : AllNumbered l (base + size) count rs) : AllNumbered l base (size + count) (r :: rs) where
  within i s hs x id n hn := by
    cases i with
    | zero =>
      cases hs
      have := h.within x id n hn
      omega
    | succ i =>
      have := hrs.within i s hs x id n hn
      omega
  once i j c d hc hd x y id n m hn hm := by
    cases i with
    | zero =>
      cases hc
      cases j with
      | zero =>
        cases hd
        exact ⟨rfl, h.once x y id n m hn hm⟩
      | succ j =>
        have hfirst := h.within x id n hn
        have hlater := hrs.within j d hd y id m hm
        omega
    | succ i =>
      cases j with
      | zero =>
        cases hd
        have hfirst := h.within y id m hm
        have hlater := hrs.within i c hc x id n hn
        omega
      | succ j =>
        obtain ⟨rfl, rfl⟩ := hrs.once i j c d hc hd x y id n m hn hm
        exact ⟨rfl, rfl⟩

/-- A node with the first number, and its children behind it. -/
theorem AllNumbered.node (hn : l.node? r = some (base, n))
    (h : AllNumbered l (base + 1) count n.childList) : Numbered l base (count + 1) r := by
  have hroot : ∀ id m, l.nodeBelow? r [] = some (id, m) → id = base := by
    intro id m hm
    rw [nodeBelow?, below?, Option.bind_some, hn] at hm
    cases hm
    rfl
  have hchild : ∀ i x id m, l.nodeBelow? r (i :: x) = some (id, m) →
      ∃ c, n.childList[i]? = some c ∧ l.nodeBelow? c x = some (id, m) := by
    intro i x id m hm
    rw [nodeBelow?_cons hn] at hm
    exact Option.bind_eq_some_iff.mp hm
  constructor
  · intro x id m hm
    cases x with
    | nil =>
      have := hroot id m hm
      omega
    | cons i x =>
      obtain ⟨c, hc, hm⟩ := hchild i x id m hm
      have := h.within i c hc x id m hm
      omega
  · intro x y id m k hm hk
    cases x with
    | nil =>
      cases y with
      | nil => rfl
      | cons j y =>
        obtain ⟨d, hd, hk⟩ := hchild j y id k hk
        have hfirst := hroot id m hm
        have hlater := h.within j d hd y id k hk
        omega
    | cons i x =>
      obtain ⟨c, hc, hm⟩ := hchild i x id m hm
      cases y with
      | nil =>
        have hfirst := hroot id k hk
        have hlater := h.within i c hc x id m hm
        omega
      | cons j y =>
        obtain ⟨d, hd, hk⟩ := hchild j y id k hk
        obtain ⟨rfl, rfl⟩ := h.once i j c d hc hd x y id m k hm hk
        rfl

theorem allNumbered_flattenAll
    (ih : ∀ t ∈ ts, ∀ a b, l.nodes.toList = a ++ flatten a.length t ++ b →
      Numbered l a.length t.size (.node a.length))
    (hl : l.nodes.toList = a ++ flattenAll a.length ts ++ b) :
    AllNumbered l a.length (Tree.sizeAll ts) ((starts a.length ts).map Ref.node) := by
  induction ts generalizing a with
  | nil => exact allNumbered_nil
  | cons t ts ihts =>
    rw [flattenAll] at hl
    have hfirst := ih t List.mem_cons_self a (flattenAll (a.length + t.size) ts ++ b) (by simp [hl])
    have hlen : (a ++ flatten a.length t).length = a.length + t.size := by
      rw [List.length_append, length_flatten]
    have hothers := ihts (a := a ++ flatten a.length t) (fun u hu => ih u (List.mem_cons_of_mem _ hu))
      (by rw [hlen]; simp [hl])
    rw [hlen] at hothers
    exact hothers.cons hfirst

theorem numbered_flatten (t : Tree) : ∀ a b, l.nodes.toList = a ++ flatten a.length t ++ b →
    Numbered l a.length t.size (.node a.length) := by
  induction t using Tree.induction_on_children with
  | h t ih =>
    intro a b hl
    obtain ⟨type, props, children⟩ := t
    cases children with
    | none =>
      have hn : l.node? (.node a.length) = some (a.length, ⟨.text type, props, none⟩) := by
        simp [node?, ← Array.getElem?_toList, hl, flatten]
      exact allNumbered_nil.node hn
    | some cs =>
      have hcs : ∀ c ∈ cs, ∀ a b, l.nodes.toList = a ++ flatten a.length c ++ b →
          Numbered l a.length c.size (.node a.length) := ih
      rw [flatten] at hl
      have hn : l.node? (.node a.length)
          = some (a.length, ⟨.text type, props, refs (a.length + 1) (some cs)⟩) := by
        simp [node?, ← Array.getElem?_toList, hl]
      have hall := allNumbered_flattenAll (b := b)
        (a := a ++ [⟨.text type, props, refs (a.length + 1) (some cs)⟩]) hcs (by simpa using hl)
      rw [List.length_append] at hall
      exact hall.node hn

/-- Every node of a tree that is laid out is an object of its own. -/
theorem distinct_ofTree (t : Tree) : (ofTree t).Distinct :=
  fun p q => (numbered_flatten t [] [] (by simp [ofTree])).once p q

end Wireframe.Layout
