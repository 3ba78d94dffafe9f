import Wireframe.History.Table
import Wireframe.Proofs.History.Versions

/-! What a table lists, and how inserting and truncating change it. -/
namespace Wireframe.Table

variable {τ : Type} {t : Table τ} {r : Row τ} {v : Version τ} {vs front back : List (Version τ)} {id : τ}

/-- The rows are those of these versions, each with a greater number than the ones before it. -/
structure Lists (t : Table τ) (vs : List (Version τ)) : Prop where
  summaries : t.rows.map (·.summary) = vs.map (·.summary)
  ordered : t.rows.Pairwise (·.position < ·.position)

theorem lists_empty : (empty : Table τ).Lists [] := ⟨rfl, List.Pairwise.nil⟩

theorem Lists.ids (h : t.Lists vs) : t.rows.map (·.id) = vs.map (·.id) := by
  have hids := congrArg (List.map VersionSummary.id) h.summaries
  rw [List.map_map, List.map_map] at hids
  exact hids

theorem Lists.length (h : t.Lists vs) : t.rows.length = vs.length := by
  have hlength := congrArg List.length h.summaries
  simpa using hlength

theorem le_foldl_max (ns : List Nat) (n : Nat) : n ≤ ns.foldl max n ∧ ∀ k ∈ ns, k ≤ ns.foldl max n := by
  induction ns generalizing n with
  | nil => simp
  | cons k ns ih =>
    obtain ⟨hstart, hall⟩ := ih (max n k)
    refine ⟨Nat.le_trans (Nat.le_max_left n k) hstart, ?_⟩
    intro j hj
    rcases List.mem_cons.mp hj with rfl | hj
    · exact Nat.le_trans (Nat.le_max_right n j) hstart
    · exact hall j hj

/-- The next row gets a greater number than all rows have. -/
theorem position_lt_nextPosition (hr : r ∈ t.rows) : r.position < t.nextPosition :=
  Nat.lt_succ_of_le ((le_foldl_max _ 0).2 _ (List.mem_map_of_mem hr))

/-- The rows fall apart where their versions do. -/
theorem Lists.split (h : t.Lists (front ++ v :: back)) :
    ∃ before r after, t.rows = before ++ r :: after ∧ r.id = v.id
      ∧ Lists ⟨before ++ [r]⟩ (front ++ [v]) ∧ after.map (·.id) = back.map (·.id)
      ∧ (∀ q ∈ before, q.position < r.position) ∧ ∀ q ∈ after, r.position < q.position := by
  obtain ⟨before, rest, hrows, hfront, hrest⟩ :=
    List.map_eq_append_iff.mp (h.summaries.trans List.map_append)
  obtain ⟨r, after, rfl, hr, hback⟩ := List.map_eq_cons_iff.mp hrest
  have hordered := List.pairwise_append.mp (hrows ▸ h.ordered)
  have hafter := List.pairwise_cons.mp hordered.2.1
  have hids := congrArg (List.map VersionSummary.id) hback
  rw [List.map_map, List.map_map] at hids
  have hlisted : Lists ⟨before ++ [r]⟩ (front ++ [v]) := by
    refine ⟨by simp [hfront, hr], List.pairwise_append.mpr ⟨hordered.1, by simp, ?_⟩⟩
    intro q hq p hp
    rw [List.mem_singleton.mp hp]
    exact hordered.2.2 q hq r List.mem_cons_self
  exact ⟨before, r, after, hrows, congrArg VersionSummary.id hr, hlisted, hids,
    fun q hq => hordered.2.2 q hq r List.mem_cons_self, hafter.1⟩

variable [DecidableEq τ]

theorem Lists.isSome_find?_iff (h : t.Lists vs) :
    (t.find? id).isSome = true ↔ id ∈ vs.map (·.id) := by
  rw [← h.ids, find?, List.find?_isSome]
  simp

theorem Lists.insert? (h : t.Lists vs) (hr : r.summary = v.summary)
    (hnext : r.position = t.nextPosition) (hv : v.id ∉ vs.map (·.id)) :
    ∃ t', t.insert? r = some t' ∧ t'.Lists (vs ++ [v]) := by
  have hid : r.id = v.id := congrArg VersionSummary.id hr
  rw [Table.insert?, if_neg fun hfound => hv (hid ▸ h.isSome_find?_iff.mp hfound)]
  refine ⟨_, rfl, by simp [h.summaries, hr], List.pairwise_append.mpr ⟨h.ordered, by simp, ?_⟩⟩
  intro q hq _ hlast
  rw [List.mem_singleton.mp hlast, hnext]
  exact position_lt_nextPosition hq

theorem Lists.insert?_taken (h : t.Lists vs) (hr : r.summary = v.summary)
    (hv : v.id ∈ vs.map (·.id)) : t.insert? r = none := by
  have hid : r.id = v.id := congrArg VersionSummary.id hr
  rw [Table.insert?, if_pos (h.isSome_find?_iff.mpr (hid ▸ hv))]

theorem Lists.truncateAfter?_of_notMem (h : t.Lists vs) (hid : id ∉ vs.map (·.id)) :
    t.truncateAfter? id = none := by
  have hfind : t.find? id = none := by
    rw [← Option.not_isSome_iff_eq_none]
    exact fun hfound => hid (h.isSome_find?_iff.mp hfound)
  rw [Table.truncateAfter?, hfind]
  rfl

/-- Truncating leaves the rows up to the one with the name. -/
theorem Lists.truncateAfter? (h : t.Lists (front ++ v :: back))
    (hdistinct : Memory.Distinct (front ++ v :: back)) :
    ∃ t', t.truncateAfter? v.id = some (back.map (·.id), t') ∧ t'.Lists (front ++ [v]) := by
  obtain ⟨before, r, after, hrows, hid, hlisted, hback, hbefore, hafter⟩ := h.split
  have hfind : t.find? v.id = some r := by
    rw [find?, hrows, List.find?_append, List.find?_eq_none.mpr, Option.none_or]
    · simp [hid]
    · intro q hq hsame
      have hfront : q.id ∈ front.map (·.id) := by
        have hids := hlisted.ids
        simp only [List.map_append, List.map_singleton] at hids
        rw [← (List.append_inj' hids rfl).1]
        exact List.mem_map_of_mem hq
      rw [of_decide_eq_true hsame] at hfront
      exact hdistinct.notMem_front hfront
  have hremoved : t.rows.filter (r.position < ·.position) = after := by
    rw [hrows, List.filter_append, List.filter_cons_of_neg (by simp), List.filter_eq_nil_iff.mpr,
      List.nil_append, List.filter_eq_self.mpr]
    · exact fun q hq => by simpa using hafter q hq
    · exact fun q hq => by simpa using Nat.le_of_lt (hbefore q hq)
  have hkept : t.rows.filter (·.position ≤ r.position) = before ++ [r] := by
    rw [hrows, List.filter_append, List.filter_cons_of_pos (by simp), List.filter_eq_self.mpr,
      List.filter_eq_nil_iff.mpr]
    · exact fun q hq => by simpa using hafter q hq
    · exact fun q hq => by simpa using Nat.le_of_lt (hbefore q hq)
  refine ⟨⟨before ++ [r]⟩, ?_, hlisted⟩
  rw [Table.truncateAfter?, hfind, Option.map_some, hremoved, hkept, hback]

end Wireframe.Table
