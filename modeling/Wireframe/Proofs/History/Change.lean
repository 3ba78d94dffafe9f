import Wireframe.History.Store
import Wireframe.Proofs.History.Memory
import Wireframe.Proofs.Outcome

/-! When appending and truncating change what is kept, in memory as in a database. -/
namespace Wireframe
open Outcome

variable {id : String} {v : Version} {d : Draft}

namespace Memory

variable {m m' : Memory} {removed : List String}

theorem ne_of_append? (h : m.append? v = some m') : m' ≠ m := by
  rw [append?] at h
  split at h
  · cases h
  · cases h
    intro hsame
    have horder := congrArg (fun m => m.order.length) hsame
    simp at horder

theorem truncateAfter?_eq_self (h : m.truncateAfter? id = some ([], m')) : m' = m := by
  obtain ⟨⟨kept, rest⟩, hsplit, heq⟩ := Option.map_eq_some_iff.mp h
  cases heq
  obtain ⟨front, -, horder⟩ := splitAfter?_eq_some hsplit
  rw [List.append_nil] at horder
  obtain ⟨order, versions⟩ := m
  obtain rfl : order = kept := horder
  simp

theorem ne_of_truncateAfter? (h : m.truncateAfter? id = some (removed, m')) (hne : removed ≠ []) :
    m' ≠ m := by
  obtain ⟨⟨kept, rest⟩, hsplit, heq⟩ := Option.map_eq_some_iff.mp h
  cases heq
  obtain ⟨front, -, horder⟩ := splitAfter?_eq_some hsplit
  intro hsame
  have hkept : kept = m.order := congrArg Memory.order hsame
  rw [hkept] at horder
  exact hne (List.self_eq_append_right.mp horder)

end Memory

namespace Table

variable {t t' : Table} {r : Row} {removed : List String}

theorem ne_of_insert? (h : t.insert? r = some t') : t' ≠ t := by
  rw [insert?] at h
  split at h
  · cases h
  · cases h
    intro hsame
    have hrows := congrArg (fun t => t.rows.length) hsame
    simp at hrows

theorem truncateAfter?_eq_self (h : t.truncateAfter? id = some ([], t')) : t' = t := by
  obtain ⟨r, -, heq⟩ := Option.map_eq_some_iff.mp h
  obtain ⟨hremoved, rfl⟩ := Prod.mk.inj heq
  have hkept : t.rows.filter (·.position ≤ r.position) = t.rows := by
    rw [List.filter_eq_self]
    intro q hq
    have hlate := List.filter_eq_nil_iff.mp (List.map_eq_nil_iff.mp hremoved) q hq
    simpa using hlate
  rw [hkept]

theorem ne_of_truncateAfter? (h : t.truncateAfter? id = some (removed, t')) (hne : removed ≠ []) :
    t' ≠ t := by
  obtain ⟨r, -, heq⟩ := Option.map_eq_some_iff.mp h
  obtain ⟨rfl, rfl⟩ := Prod.mk.inj heq
  intro hsame
  have hkept := List.filter_eq_self.mp (congrArg Table.rows hsame)
  refine hne (List.map_eq_nil_iff.mpr (List.filter_eq_nil_iff.mpr fun q hq => ?_))
  simpa using hkept q hq

end Table

theorem Database.table_of_ready {d : Database} {t : Table} (h : d.ready = .ok t) : t = d.table := by
  rw [ready] at h
  split at h
  · exact (Except.ok.inj h).symm
  · cases h

namespace Storage

variable {s t : Storage} {removed : List String} {removed? : Option (List String)}

theorem ne_of_append (h : s.append v = .ok t) : t ≠ s := by
  cases s with
  | memory m =>
    rw [append] at h
    split at h
    · rename_i m' hm'
      cases h
      exact fun hsame => Memory.ne_of_append? hm' (Storage.memory.inj hsame)
    · cases h
  | database d =>
    obtain ⟨table, hready, h⟩ := bind_eq_ok h
    obtain rfl := Database.table_of_ready hready
    obtain ⟨r, -, h⟩ := bind_eq_ok h
    obtain ⟨_, -, h⟩ := bind_eq_ok h
    split at h
    · rename_i table' hinsert
      cases h
      intro hsame
      exact Table.ne_of_insert? hinsert (congrArg Database.table (Storage.database.inj hsame))
    · cases h

/-- Where no version is removed nothing changes. -/
theorem eq_self_of_truncateAfter (h : s.truncateAfter id = .ok (removed?, t))
    (hnone : removed?.getD [] = []) : t = s := by
  cases s with
  | memory m =>
    rw [truncateAfter] at h
    split at h
    · rename_i removed m' hm'
      cases h
      obtain rfl : removed = [] := hnone
      rw [Memory.truncateAfter?_eq_self hm']
    · cases h
      rfl
  | database d =>
    obtain ⟨table, hready, h⟩ := bind_eq_ok h
    obtain rfl := Database.table_of_ready hready
    obtain ⟨_, -, h⟩ := bind_eq_ok h
    split at h
    · rename_i removed table' htruncate
      cases h
      obtain rfl : removed = [] := hnone
      rw [Table.truncateAfter?_eq_self htruncate]
    · cases h
      rfl

theorem ne_of_truncateAfter (h : s.truncateAfter id = .ok (some removed, t)) (hne : removed ≠ []) :
    t ≠ s := by
  cases s with
  | memory m =>
    rw [truncateAfter] at h
    split at h
    · rename_i removed m' hm'
      cases h
      exact fun hsame => Memory.ne_of_truncateAfter? hm' hne (Storage.memory.inj hsame)
    · cases h
  | database d =>
    obtain ⟨table, hready, h⟩ := bind_eq_ok h
    obtain rfl := Database.table_of_ready hready
    obtain ⟨_, -, h⟩ := bind_eq_ok h
    split at h
    · rename_i removed table' htruncate
      cases h
      intro hsame
      exact Table.ne_of_truncateAfter? htruncate hne
        (congrArg Database.table (Storage.database.inj hsame))
    · cases h

end Storage

namespace Store

variable {s s' : Store} {fault : HistoryError}

/-- A draft that is refused leaves what is kept as it is. -/
theorem storage_of_add_error (h : (s.add d).1 = .error fault) : (s.add d).2.storage = s.storage := by
  simp only [add] at h ⊢
  split at h
  · cases h
  · rfl

theorem append_of_add_ok (h : (s.add d).1 = .ok v) :
    s.storage.append v = .ok (s.add d).2.storage := by
  simp only [add] at h ⊢
  split at h
  · rename_i storage hadd
    cases h
    obtain ⟨_, -, happend⟩ := bind_eq_ok hadd
    exact happend
  · cases h

theorem toDraft_of_add_ok (h : (s.add d).1 = .ok v) : v.toDraft = d := by
  simp only [add] at h
  split at h
  · cases h
    rfl
  · cases h

theorem rollback_none (h : s.rollback id = .ok (none, s')) : s' = s := by
  obtain ⟨v?, -, h⟩ := bind_eq_ok h
  cases v? with
  | none =>
    cases h
    rfl
  | some v =>
    obtain ⟨_, -, h⟩ := bind_eq_ok h
    cases h

theorem rollback_some (h : s.rollback id = .ok (some v, s')) :
    s.storage.get? id = .ok (some v)
      ∧ ∃ removed?, s.storage.truncateAfter id = .ok (removed?, s'.storage) := by
  obtain ⟨v?, hget, h⟩ := bind_eq_ok h
  cases v? with
  | none => cases h
  | some w =>
    obtain ⟨⟨removed?, storage⟩, htruncate, h⟩ := bind_eq_ok h
    cases h
    exact ⟨hget, removed?, htruncate⟩

end Store

end Wireframe
