import Wireframe.Layout.Check
import Wireframe.Proofs.Layout.Height

/-! What a walk over a layout that finds no error has been through: trees of known components, no higher
than their places allow. -/
namespace Wireframe.Layout

variable {l : Layout} {r : Ref} {n : Node} {place : Place} {withProps : Bool} {bound : Int}
variable {limit : Quantity}
variable {unseen above : List Nat} {tasks rest : List Task} {fs gs : List Finding}

/-- Findings none of which is an error. -/
def Faultless (fs : List Finding) : Prop := ∀ f ∈ fs, f.isError = false

theorem faultless_append : Faultless (fs ++ gs) ↔ Faultless fs ∧ Faultless gs := List.forall_mem_append

theorem not_faultless_cons {f : Finding} (hf : f.isError = true) : ¬ Faultless (f :: fs) := by
  intro h
  have hnone := h f List.mem_cons_self
  rw [hf] at hnone
  cases hnone

theorem faultless_of_isValid {report : LayoutReport} (h : report.isValid = true) :
    Faultless report.findings := by
  rw [LayoutReport.isValid, LayoutReport.errors, List.isEmpty_iff, List.filter_eq_nil_iff] at h
  intro f hf
  simpa using h f hf

theorem keyless?_of_isValid {report : LayoutReport} (h : report.isValid = true) :
    report.keyless? = none := by
  rw [LayoutReport.keyless?, List.findSome?_eq_none_iff]
  intro f hf
  cases f with
  | unknownComponent type place => cases faultless_of_isValid h _ hf
  | _ => rfl

theorem Node.exists_type_of_findings (h : Faultless (n.findings withProps place)) :
    ∃ type, n.type = .text type ∧ Component.isRegistered type = true := by
  rw [Node.findings] at h
  split at h
  · rename_i hreg
    obtain ⟨type, htype, hknown⟩ := (Option.any_eq_true _ _).mp hreg
    exact ⟨type, text?_eq_some htype, hknown⟩
  · exact (not_faultless_cons rfl h).elim

theorem isReachedBy_whole (bound : Int) (count : Nat) :
    (Quantity.whole bound).isReachedBy count = decide (bound ≤ count) := by
  simp [Quantity.isReachedBy, Quantity.magnitude?, Magnitude.ofInt, Magnitude.lt, ← decide_not]

/-- What a walk without errors does at a node: it enters it for the first time, and goes on to its
children where it has any, which the bound then leaves room for. -/
theorem faultless_enter
    (h : Faultless (walk l limit withProps unseen above (.enter r place :: rest))) :
    ∃ id n type, l.node? r = some (id, n) ∧ id ∉ above ∧ id ∈ unseen
      ∧ n.type = .text type ∧ Component.isRegistered type = true
      ∧ ((n.childList = []
            ∧ Faultless (walk l limit withProps (unseen.erase id) above rest))
        ∨ (limit.isReachedBy (place.length + 1) = false
            ∧ Faultless (walk l limit withProps (unseen.erase id) (id :: above)
                (childTasks place n.childList ++ .leave id :: rest)))) := by
  rw [walk] at h
  split at h
  · exact (not_faultless_cons rfl h).elim
  · rename_i id n hn
    split at h
    · exact (not_faultless_cons rfl h).elim
    · rename_i habove
      split at h
      · rename_i hunseen
        obtain ⟨hfindings, hrest⟩ := faultless_append.mp h
        obtain ⟨type, htype, hreg⟩ := Node.exists_type_of_findings hfindings
        refine ⟨id, n, type, hn, habove, hunseen, htype, hreg, ?_⟩
        split at hrest
        · rename_i hempty
          exact .inl ⟨List.isEmpty_iff.mp hempty, hrest⟩
        · split at hrest
          · exact (not_faultless_cons rfl hrest).elim
          · rename_i hroom
            exact .inr ⟨Bool.eq_false_iff.mpr hroom, hrest⟩
      · exact (not_faultless_cons rfl h).elim

/-- The levels that a bound leaves below so many nodes. One level there is in any case: only a node that
has children is held against the bound. -/
def levelsBelow (bound : Int) (depth : Nat) : Nat := max 1 (bound.toNat - depth)

/-- A reference that leads to a tree of known components of so many levels at the most. -/
def Sound (l : Layout) (levels : Nat) (r : Ref) : Prop :=
  ∃ t, l.tree? levels r = some t ∧ Markup.Registered t

theorem sound_node {id levels : Nat} {type : String} (hn : l.node? r = some (id, n))
    (htype : n.type = .text type) (hreg : Component.isRegistered type = true)
    (h : ∀ c ∈ n.childList, Sound l levels c) : Sound l (levels + 1) r := by
  obtain ⟨cs, hcs⟩ := exists_forall₂ h
  have htrees : List.Forall₂ (fun r c => l.tree? levels r = some c) n.childList cs :=
    hcs.imp fun _ _ hc => hc.1
  obtain ⟨t, ht, rfl, -, rfl⟩ := exists_tree? hn htype htrees
  refine ⟨t, ht, Markup.registered_of hreg fun c hc => ?_⟩
  obtain ⟨i, hi, rfl⟩ := List.getElem_of_mem hc
  exact (hcs.get (hcs.length_eq.symm ▸ hi) hi).2

theorem mem_childTasks {rs : List Ref} (hr : r ∈ rs) :
    ∃ i, Task.enter r (place ++ [i]) ∈ childTasks place rs := by
  obtain ⟨i, hi, rfl⟩ := List.getElem_of_mem hr
  exact ⟨i, List.mem_mapIdx.mpr ⟨i, hi, rfl⟩⟩

/-- Every reference that a walk without errors still has to enter leads to such a tree. -/
theorem sound_of_walk (h : Faultless (walk l (.whole bound) withProps unseen above tasks)) :
    ∀ r place, .enter r place ∈ tasks → Sound l (levelsBelow bound place.length) r := by
  induction unseen, above, tasks using walk.induct l with
  | case1 => simp
  | case2 unseen above id rest ih =>
    rw [walk] at h
    simpa using ih h
  | case3 unseen above r place rest hn ih =>
    obtain ⟨id, n, _, hn', _⟩ := faultless_enter h
    rw [hn] at hn'
    cases hn'
  | case4 unseen above r place rest id n hn habove ih =>
    obtain ⟨_, _, _, hn', hnot, _⟩ := faultless_enter h
    rw [hn] at hn'
    cases hn'
    exact (hnot habove).elim
  | case5 unseen above r place rest id n hn habove hunseen ihleaf ihinner =>
    obtain ⟨_, _, type, hn', -, -, htype, hreg, hwalk⟩ := faultless_enter h
    rw [hn] at hn'
    cases hn'
    intro r' place' hmem
    rcases hwalk with ⟨hleaf, hrest⟩ | ⟨hroom, hrest⟩
    · rcases List.mem_cons.mp hmem with heq | hmem
      · cases heq
        obtain ⟨levels, hlevels⟩ : ∃ k, levelsBelow bound place.length = k + 1 :=
          ⟨levelsBelow bound place.length - 1, by rw [levelsBelow]; omega⟩
        rw [hlevels]
        exact sound_node hn htype hreg (by simp [hleaf])
      · exact ihleaf hrest r' place' hmem
    · have hall := ihinner hrest
      rw [isReachedBy_whole, decide_eq_false_iff_not, Int.not_le] at hroom
      rcases List.mem_cons.mp hmem with heq | hmem
      · cases heq
        have hlevels : levelsBelow bound place.length = levelsBelow bound (place.length + 1) + 1 := by
          rw [levelsBelow, levelsBelow]
          omega
        rw [hlevels]
        refine sound_node hn htype hreg fun c hc => ?_
        obtain ⟨i, hi⟩ : ∃ i, .enter c (place ++ [i]) ∈ childTasks place n.childList := mem_childTasks hc
        simpa using hall c _ (List.mem_append_left _ hi)
      · exact hall r' place' (List.mem_append_right _ (List.mem_cons_of_mem _ hmem))
  | case6 unseen above r place rest id n hn habove hunseen ih =>
    obtain ⟨_, _, _, hn', -, hin, _⟩ := faultless_enter h
    rw [hn] at hn'
    cases hn'
    exact (hunseen hin).elim

/-- A valid layout is a tree of known components, and no higher than the bound unless it is a single
node. -/
theorem sound_of_isValid (h : (l.check (.whole bound) withProps).isValid = true) :
    Sound l (max 1 bound.toNat) l.root :=
  sound_of_walk (faultless_of_isValid h) l.root [] List.mem_cons_self

end Wireframe.Layout
