import Mathlib.Data.List.Nodup
import Wireframe.History.Memory

/-! What a history in memory holds, and how appending and truncating change it. -/
namespace Wireframe.Memory

variable {τ : Type} {m m' : Memory τ} {v : Version τ} {id : τ} {ids kept removed : List τ}

/-- Each name in the order has its version, and no name comes twice. -/
structure Consistent (m : Memory τ) : Prop where
  order : m.order = m.versions.map (·.1)
  named : ∀ e ∈ m.versions, e.2.id = e.1
  nodup : m.order.Nodup

theorem consistent_empty : (empty : Memory τ).Consistent := ⟨rfl, by simp [empty], List.nodup_nil⟩

variable [DecidableEq τ]

theorem Consistent.get?_iff_entry (h : m.Consistent) :
    m.get? id = some v ↔ (id, v) ∈ m.versions := by
  have hnodup : (m.versions.map (·.1)).Nodup := h.order ▸ h.nodup
  rw [get?, Option.map_eq_some_iff]
  constructor
  · rintro ⟨e, hfind, rfl⟩
    have hname : e.1 = id := by simpa using List.find?_some hfind
    rw [← hname]
    exact List.mem_of_find?_eq_some hfind
  · intro hmem
    cases hfind : m.versions.find? (·.1 = id) with
    | none => simpa using List.find?_eq_none.mp hfind _ hmem
    | some e =>
      have hname : e.1 = id := by simpa using List.find?_some hfind
      have hsame := List.inj_on_of_nodup_map hnodup (List.mem_of_find?_eq_some hfind) hmem hname
      exact ⟨e, rfl, by rw [hsame]⟩

theorem Consistent.all_eq (h : m.Consistent) : m.all = m.versions.map (·.2) := by
  rw [all, h.order, List.filterMap_map, ← List.filterMap_eq_map]
  refine List.filterMap_congr fun e he => ?_
  exact h.get?_iff_entry.mpr he

theorem Consistent.ids_eq (h : m.Consistent) : m.order = m.all.map (·.id) := by
  rw [h.all_eq, h.order, List.map_map]
  exact List.map_congr_left fun e he => (h.named e he).symm

/-- A version is found under its own name. -/
theorem Consistent.get?_eq_some_iff (h : m.Consistent) :
    m.get? id = some v ↔ v ∈ m.all ∧ v.id = id := by
  rw [h.get?_iff_entry, h.all_eq, List.mem_map]
  constructor
  · intro hmem
    exact ⟨⟨_, hmem, rfl⟩, h.named _ hmem⟩
  · rintro ⟨⟨⟨id', v'⟩, hmem, rfl⟩, rfl⟩
    rw [h.named _ hmem]
    exact hmem

/-- Appending puts a version with a new name at the end. -/
theorem Consistent.append? (h : m.Consistent) (happend : m.append? v = some m') :
    m'.Consistent ∧ m'.all = m.all ++ [v] := by
  rw [Memory.append?] at happend
  split at happend
  · cases happend
  · rename_i hnew
    cases happend
    have hfresh : v.id ∉ m.order := by
      rw [h.ids_eq, List.mem_map]
      rintro ⟨u, hu, hid⟩
      rw [h.get?_eq_some_iff.mpr ⟨hu, hid⟩] at hnew
      exact hnew rfl
    have hconsistent : Consistent ⟨m.order ++ [v.id], m.versions ++ [(v.id, v)]⟩ := by
      refine ⟨by simp [h.order], ?_, List.nodup_append.mpr ⟨h.nodup, by simp, ?_⟩⟩
      · intro e he
        rcases List.mem_append.mp he with he | he
        · exact h.named e he
        · rw [List.mem_singleton.mp he]
      · rintro id hid _ hlast rfl
        rw [List.mem_singleton.mp hlast] at hid
        exact hfresh hid
    refine ⟨hconsistent, ?_⟩
    rw [hconsistent.all_eq, h.all_eq]
    simp

theorem splitAfter?_eq_some (h : splitAfter? id ids = some (kept, removed)) :
    ∃ front, kept = front ++ [id] ∧ ids = kept ++ removed := by
  induction ids generalizing kept with
  | nil => cases h
  | cons x ids ih =>
    rw [splitAfter?] at h
    split at h
    · rename_i hx
      cases h
      exact ⟨[], by rw [hx]; rfl, rfl⟩
    · obtain ⟨⟨kept, removed⟩, hsplit, h⟩ := Option.map_eq_some_iff.mp h
      cases h
      obtain ⟨front, rfl, rfl⟩ := ih hsplit
      exact ⟨x :: front, rfl, rfl⟩

/-- Truncating leaves the versions up to the one with the name. -/
theorem Consistent.truncateAfter? (h : m.Consistent)
    (htruncate : m.truncateAfter? id = some (removed, m')) :
    m'.Consistent ∧ ∃ front v back, m.all = front ++ v :: back ∧ v.id = id
      ∧ m'.all = front ++ [v] ∧ removed = back.map (·.id) := by
  obtain ⟨⟨kept, rest⟩, hsplit, heq⟩ := Option.map_eq_some_iff.mp htruncate
  cases heq
  obtain ⟨names, rfl, horder⟩ := splitAfter?_eq_some hsplit
  -- The entries fall apart where the order does.
  obtain ⟨front', back, hversions, hfront, hback⟩ := List.map_eq_append_iff.mp (h.order ▸ horder)
  obtain ⟨front, last, rfl, hnames, hlast⟩ := List.map_eq_append_iff.mp hfront
  obtain ⟨⟨id', v⟩, rfl, rfl⟩ := List.map_eq_singleton_iff.mp hlast
  have hdisjoint := (List.nodup_append.mp (horder ▸ h.nodup)).2.2
  have hkept : m.versions.filter (fun e => !removed.contains e.1) = front ++ [(id', v)] := by
    rw [hversions, List.filter_append, List.filter_eq_self.mpr, List.filter_eq_nil_iff.mpr,
      List.append_nil]
    · intro e he
      simp [← hback, List.mem_map_of_mem (f := Prod.fst) he]
    · intro e he
      have hmem : e.1 ∈ names ++ [id'] := hfront ▸ List.mem_map_of_mem he
      simpa using fun hremoved => hdisjoint _ hmem _ hremoved rfl
  have hconsistent : Consistent ⟨names ++ [id'], front ++ [(id', v)]⟩ := by
    refine ⟨by simp [hnames], fun e he => h.named e ?_, (List.nodup_append.mp (horder ▸ h.nodup)).1⟩
    rw [hversions]
    exact List.mem_append_left _ he
  have hid : v.id = id' := h.named (id', v) (by simp [hversions])
  rw [hkept]
  refine ⟨hconsistent, front.map (·.2), v, back.map (·.2), ?_, hid, ?_, ?_⟩
  · rw [h.all_eq, hversions]
    simp
  · rw [hconsistent.all_eq]
    simp
  · rw [← hback, List.map_map]
    refine List.map_congr_left fun e he => (h.named e ?_).symm
    rw [hversions]
    exact List.mem_append_right _ he

end Wireframe.Memory
