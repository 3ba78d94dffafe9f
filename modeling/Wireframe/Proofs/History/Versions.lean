import Wireframe.Proofs.History.Memory

/-! A history in memory is the list of its versions, and each of its operations is one on that list. -/
namespace Wireframe.Memory

variable {τ : Type} {v : Version τ} {vs front back : List (Version τ)} {id : τ} {ids : List τ}

/-- The memory that holds these versions in this order. -/
def ofVersions (vs : List (Version τ)) : Memory τ := ⟨vs.map (·.id), vs.map fun v => (v.id, v)⟩

/-- No two versions have the same name. -/
abbrev Distinct (vs : List (Version τ)) : Prop := (vs.map (·.id)).Nodup

theorem consistent_ofVersions (h : Distinct vs) : (ofVersions vs).Consistent := by
  refine ⟨by simp [ofVersions], ?_, h⟩
  intro e he
  obtain ⟨v, _, rfl⟩ := List.mem_map.mp he
  rfl

theorem Distinct.of_append (h : Distinct (front ++ back)) : Distinct front := by
  rw [Distinct, List.map_append] at h
  exact (List.nodup_append.mp h).1

/-- A name stands once, so what comes before it does not hold it. -/
theorem Distinct.notMem_front (h : Distinct (front ++ v :: back)) : v.id ∉ front.map (·.id) := by
  intro hmem
  rw [Distinct, List.map_append, List.map_cons] at h
  exact (List.nodup_append.mp h).2.2 _ hmem _ List.mem_cons_self rfl

theorem Distinct.concat (h : Distinct vs) (hv : v.id ∉ vs.map (·.id)) : Distinct (vs ++ [v]) := by
  rw [Distinct, List.map_append, List.nodup_append]
  refine ⟨h, List.nodup_singleton _, ?_⟩
  rintro a ha b hb rfl
  rw [List.map_singleton, List.mem_singleton] at hb
  exact hv (hb ▸ ha)

variable [DecidableEq τ]

theorem all_ofVersions (h : Distinct vs) : (ofVersions vs).all = vs := by
  rw [(consistent_ofVersions h).all_eq, ofVersions, List.map_map]
  exact List.map_id vs

theorem get?_ofVersions (vs : List (Version τ)) (id : τ) :
    (ofVersions vs).get? id = vs.find? (·.id = id) := by
  rw [get?, ofVersions, List.find?_map, Option.map_map]
  exact congrFun Option.map_id _

theorem isSome_get?_iff : ((ofVersions vs).get? id).isSome = true ↔ id ∈ vs.map (·.id) := by
  simp [get?_ofVersions, List.find?_isSome]

theorem get?_of_mem (h : Distinct (front ++ v :: back)) :
    (ofVersions (front ++ v :: back)).get? v.id = some v := by
  rw [(consistent_ofVersions h).get?_eq_some_iff, all_ofVersions h]
  exact ⟨by simp, rfl⟩

theorem append?_ofVersions (hv : v.id ∉ vs.map (·.id)) :
    (ofVersions vs).append? v = some (ofVersions (vs ++ [v])) := by
  rw [append?, if_neg fun h => hv (isSome_get?_iff.mp h)]
  simp [ofVersions]

theorem append?_taken (hv : v.id ∈ vs.map (·.id)) : (ofVersions vs).append? v = none := by
  rw [append?, if_pos (isSome_get?_iff.mpr hv)]

theorem splitAfter?_of_notMem (h : id ∉ ids) : splitAfter? id ids = none := by
  induction ids with
  | nil => rfl
  | cons x ids ih =>
    rw [List.mem_cons, not_or] at h
    rw [splitAfter?, if_neg (Ne.symm h.1), ih h.2]
    rfl

theorem splitAfter?_append {front back : List τ} (h : id ∉ front) :
    splitAfter? id (front ++ id :: back) = some (front ++ [id], back) := by
  induction front with
  | nil => simp [splitAfter?]
  | cons x front ih =>
    rw [List.mem_cons, not_or] at h
    rw [List.cons_append, splitAfter?, if_neg (Ne.symm h.1), ih h.2]
    rfl

theorem truncateAfter?_of_notMem (h : id ∉ vs.map (·.id)) :
    (ofVersions vs).truncateAfter? id = none := by
  rw [truncateAfter?, ofVersions, splitAfter?_of_notMem h]
  rfl

/-- Of the entries of all versions those stay whose names are not removed. -/
theorem filter_entries (h : Distinct (vs ++ back)) :
    ((vs ++ back).map fun v => (v.id, v)).filter (fun (x, _) => !(back.map (·.id)).contains x)
      = vs.map fun v => (v.id, v) := by
  rw [Distinct, List.map_append] at h
  have hapart := (List.nodup_append.mp h).2.2
  rw [List.map_append, List.filter_append, List.filter_eq_self.mpr, List.filter_eq_nil_iff.mpr,
    List.append_nil]
  · intro e he
    obtain ⟨u, hu, rfl⟩ := List.mem_map.mp he
    simpa using ⟨u, hu, rfl⟩
  · intro e he
    obtain ⟨u, hu, rfl⟩ := List.mem_map.mp he
    simpa using fun w hw heq => hapart _ (List.mem_map_of_mem hu) _ (List.mem_map_of_mem hw) heq.symm

/-- Truncating leaves the versions up to the one with the name. -/
theorem truncateAfter?_ofVersions (h : Distinct (front ++ v :: back)) :
    (ofVersions (front ++ v :: back)).truncateAfter? v.id
      = some (back.map (·.id), ofVersions (front ++ [v])) := by
  have hcut : front ++ v :: back = (front ++ [v]) ++ back := by simp
  have hsplit : splitAfter? v.id ((front ++ v :: back).map (·.id))
      = some ((front ++ [v]).map (·.id), back.map (·.id)) := by
    rw [List.map_append, List.map_cons, splitAfter?_append h.notMem_front, List.map_append]
    rfl
  have hkept := filter_entries (hcut ▸ h)
  rw [← hcut] at hkept
  simp only [truncateAfter?, ofVersions, hsplit, Option.map_some, hkept]

end Wireframe.Memory
