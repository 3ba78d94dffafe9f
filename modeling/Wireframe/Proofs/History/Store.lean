import Wireframe.History.Store
import Wireframe.Proofs.Outcome
import Wireframe.Proofs.History.Memory

/-! What every history in memory keeps, whatever is added and rolled back. -/
namespace Wireframe
open Outcome

variable {p : Draft → Prop} {s s' : Store} {d : Draft} {v : Version} {vs ws : List Version}
variable {id : String} {found : Option Version}

/-- A version that names a parent comes after it. -/
def Chained (vs : List Version) : Prop :=
  ∀ front v back, vs = front ++ v :: back → ∀ id ∈ v.parentId, ∃ u ∈ front, u.id = id

theorem chained_nil : Chained [] := by
  intro front v back h
  simp at h

/-- What a rollback leaves is in order. -/
theorem Chained.front (h : Chained (vs ++ ws)) : Chained vs := by
  rintro front v back rfl
  exact h front v (back ++ ws) (by simp)

theorem Chained.concat (h : Chained vs) (hv : ∀ id ∈ v.parentId, ∃ u ∈ vs, u.id = id) :
    Chained (vs ++ [v]) := by
  intro front u back hsplit
  rcases List.eq_nil_or_concat back with rfl | ⟨back, w, rfl⟩
  · obtain ⟨rfl, hlast⟩ := List.append_inj' hsplit rfl
    rw [← (List.cons.inj hlast).1]
    exact hv
  · have hassoc : vs ++ [v] = (front ++ u :: back) ++ [w] := by rw [hsplit]; simp
    exact h front u back (List.append_inj' hassoc rfl).1

namespace Store

/-- A history in memory in which parents come first and every version was made from a draft with a
property. -/
def Intact (p : Draft → Prop) (s : Store) : Prop :=
  ∃ m, s.storage = .memory m ∧ m.Consistent ∧ Chained m.all ∧ ∀ v ∈ m.all, p v.toDraft

theorem intact_empty (mint : Mint) : Intact p ⟨.empty, mint⟩ :=
  ⟨.empty, rfl, Memory.consistent_empty, chained_nil, fun _ hv => nomatch hv⟩

theorem exists_of_checkParent {parent : Option String} {storage : Storage}
    (h : checkParent storage parent = .ok ()) :
    ∀ id ∈ parent, ∃ v, storage.get? id = .ok (some v) := by
  rintro id rfl
  obtain ⟨v?, hget, h⟩ := bind_eq_ok h
  cases v? with
  | none => cases h
  | some v => exact ⟨v, hget⟩

/-- Adding keeps a history intact, also where it fails. -/
theorem Intact.add (h : s.Intact p) (hd : p d) : (s.add d).2.Intact p := by
  obtain ⟨storage, mint⟩ := s
  obtain ⟨m, rfl, hm, hchain, hall⟩ := h
  simp only [Store.add, Mint.version]
  split
  · rename_i hadd
    obtain ⟨⟨⟩, hparent, happend⟩ := bind_eq_ok hadd
    rw [Storage.append] at happend
    split at happend
    · rename_i m' hm'
      cases happend
      obtain ⟨hconsistent, hversions⟩ := hm.append? hm'
      refine ⟨m', rfl, hconsistent, ?_, ?_⟩
      · rw [hversions]
        refine hchain.concat fun id hid => ?_
        obtain ⟨u, hu⟩ := exists_of_checkParent hparent id hid
        exact ⟨u, hm.get?_eq_some_iff.mp (Except.ok.inj hu)⟩
      · rw [hversions]
        refine List.forall_mem_append.mpr ⟨hall, fun v hv => ?_⟩
        rw [List.mem_singleton.mp hv]
        exact hd
    · cases happend
  · exact ⟨m, rfl, hm, hchain, hall⟩

/-- A rollback keeps a history intact. -/
theorem Intact.rollback (h : s.Intact p) (hs : s.rollback id = .ok (found, s')) : s'.Intact p := by
  obtain ⟨storage, mint⟩ := s
  obtain ⟨m, rfl, hm, hchain, hall⟩ := h
  obtain ⟨v?, hget, hs⟩ := bind_eq_ok hs
  cases v? with
  | none =>
    cases hs
    exact ⟨m, rfl, hm, hchain, hall⟩
  | some v =>
    obtain ⟨⟨removed, storage⟩, htruncate, hs⟩ := bind_eq_ok hs
    cases hs
    rw [Storage.truncateAfter] at htruncate
    split at htruncate
    · rename_i m' hm'
      cases htruncate
      obtain ⟨hconsistent, front, u, back, hversions, _, hleft, _⟩ := hm.truncateAfter? hm'
      have hcut : m.all = m'.all ++ back := by rw [hversions, hleft]; simp
      refine ⟨m', rfl, hconsistent, (hcut ▸ hchain).front, fun w hw => hall w ?_⟩
      rw [hcut]
      exact List.mem_append_left _ hw
    · cases htruncate
      exact ⟨m, rfl, hm, hchain, hall⟩

end Store

end Wireframe
