import Wireframe.History.Call
import Wireframe.Proofs.History.Store
import Wireframe.Proofs.History.Versions
import Wireframe.Proofs.Number.Spelling

/-! Runs of calls on a history in memory: what holds after every call, and which names come back. -/
namespace Wireframe
open Outcome Memory

variable {s t : Store} {d : Draft} {v w : Version} {vs ws front back : List Version} {id : String}
variable {calls : List Store.Call} {mint : Mint}

namespace Mint

/-- No name is given out twice. -/
def Fresh (m : Mint) : Prop := Function.Injective m.name

theorem numbered_injective : Function.Injective numbered := by
  intro m n h
  have hdigits : Nat.toDigits 10 (m + 1) = Nat.toDigits 10 (n + 1) := by
    have h := congrArg String.toList h
    simpa [numbered, toString, Nat.repr] using h
  exact Nat.succ.inj (Text.decimal_inj hdigits)

/-- A name that was not given out so far. -/
def Unused (m : Mint) (id : String) : Prop := ∃ k, m.named ≤ k ∧ id = m.name k

theorem Fresh.not_unused {m : Mint} (hm : m.Fresh) {n : Nat} (hn : n < m.named) :
    ¬ m.Unused (m.name n) := by
  rintro ⟨k, hk, heq⟩
  have := hm heq
  omega

/-- A mint at a later time. -/
structure Later (m n : Mint) : Prop where
  name : n.name = m.name
  named : m.named ≤ n.named

theorem later_self (m : Mint) : m.Later m := ⟨rfl, Nat.le_refl _⟩

theorem later_version (m : Mint) (d : Draft) : m.Later (m.version d).2 := ⟨rfl, Nat.le_succ _⟩

theorem Later.trans {m n k : Mint} (hmn : m.Later n) (hnk : n.Later k) : m.Later k :=
  ⟨hnk.name.trans hmn.name, Nat.le_trans hmn.named hnk.named⟩

theorem Later.fresh {m n : Mint} (h : m.Later n) (hm : m.Fresh) : n.Fresh := by
  rw [Fresh, h.name]
  exact hm

/-- What is not given out later is not given out now. -/
theorem Later.unused {m n : Mint} (h : m.Later n) (hid : n.Unused id) : m.Unused id := by
  obtain ⟨k, hk, heq⟩ := hid
  exact ⟨k, Nat.le_trans h.named hk, heq.trans (congrFun h.name k)⟩

end Mint

namespace Store

/-- A history in memory that holds these versions in this order, under names that were given out. -/
structure Holds (s : Store) (vs : List Version) : Prop where
  storage : s.storage = .memory (.ofVersions vs)
  distinct : Distinct vs
  chained : Chained vs
  fresh : s.mint.Fresh
  minted : ∀ v ∈ vs, ∃ n < s.mint.named, v.id = s.mint.name n

theorem holds_empty (h : mint.Fresh) : Holds ⟨.empty, mint⟩ [] :=
  ⟨rfl, List.nodup_nil, chained_nil, h, by simp⟩

/-- The front of a history is a history. -/
theorem Holds.cut (h : s.Holds (vs ++ ws)) :
    Holds { s with storage := .memory (.ofVersions vs) } vs where
  storage := rfl
  distinct := h.distinct.of_append
  chained := h.chained.front
  fresh := h.fresh
  minted v hv := h.minted v (List.mem_append_left _ hv)

/-- The next name is new. -/
theorem Holds.name_notMem (h : s.Holds vs) : (s.mint.version d).1.id ∉ vs.map (·.id) := by
  intro hmem
  obtain ⟨v, hv, hid⟩ := List.mem_map.mp hmem
  obtain ⟨n, hn, heq⟩ := h.minted v hv
  refine h.fresh.not_unused hn ⟨s.mint.named, Nat.le_refl _, ?_⟩
  rw [← heq, hid]
  rfl

theorem Holds.get? (h : s.Holds vs) (id : String) :
    s.storage.get? id = .ok (vs.find? (·.id = id)) := by
  rw [h.storage, Storage.get?, get?_ofVersions]

theorem Holds.get?_absent (h : s.Holds vs) (hid : id ∉ vs.map (·.id)) :
    s.storage.get? id = .ok none := by
  rw [h.get?, List.find?_eq_none.mpr]
  intro v hv
  simpa using fun heq => hid (List.mem_map.mpr ⟨v, hv, heq⟩)

/-- A draft whose parent is there becomes the last version. -/
theorem Holds.add (h : s.Holds vs) (hd : ∀ id ∈ d.parentId, id ∈ vs.map (·.id)) :
    s.add d = (.ok (s.mint.version d).1,
      ⟨.memory (.ofVersions (vs ++ [(s.mint.version d).1])), (s.mint.version d).2⟩) := by
  have hparent : checkParent s.storage d.parentId = .ok () := by
    cases hp : d.parentId with
    | none => rfl
    | some id =>
      have hmem := hd id hp
      rw [checkParent, h.get?, ok_bind, if_neg]
      · rfl
      · simpa [List.find?_eq_none] using hmem
  have happend := append?_ofVersions (h.name_notMem (d := d))
  simp only [Store.add]
  rw [hparent, ok_bind, h.storage, Storage.append, happend]

/-- A draft whose parent is gone is refused, and the history stays as it is. -/
theorem Holds.add_orphan (h : s.Holds vs) (hp : d.parentId = some id)
    (hid : id ∉ vs.map (·.id)) :
    s.add d = (.error (.parentMissing id), { s with mint := (s.mint.version d).2 }) := by
  have hparent : checkParent s.storage d.parentId = .error (.parentMissing id) := by
    rw [hp, checkParent, h.get?_absent hid]
    rfl
  simp only [Store.add]
  rw [hparent]
  rfl

theorem Holds.rollback_absent (h : s.Holds vs) (hid : id ∉ vs.map (·.id)) :
    s.rollback id = .ok (none, s) := by
  rw [Store.rollback, h.get?_absent hid]
  rfl

/-- A rollback leaves the versions up to the one that it goes back to. -/
theorem Holds.rollback (h : s.Holds (front ++ v :: back)) :
    s.rollback v.id
      = .ok (some v, { s with storage := .memory (.ofVersions (front ++ [v])) }) := by
  have hget := get?_of_mem h.distinct
  have htruncate := truncateAfter?_ofVersions h.distinct
  rw [Store.rollback, h.storage, Storage.get?, hget, ok_bind]
  simp only [Storage.truncateAfter, htruncate]
  rfl

/-- What a call makes of a history: the names in it were there before or are new. -/
structure Follows (s : Store) (vs : List Version) (t : Store) (ws : List Version) : Prop where
  holds : t.Holds ws
  later : s.mint.Later t.mint
  names : ∀ w ∈ ws, w ∈ vs ∨ s.mint.Unused w.id

theorem Holds.follows_self (h : s.Holds vs) : Follows s vs s vs :=
  ⟨h, Mint.later_self _, fun _ => .inl⟩

theorem Follows.trans {u : Store} {xs : List Version} (h : Follows s vs t ws) (h' : Follows t ws u xs) :
    Follows s vs u xs := by
  refine ⟨h'.holds, h.later.trans h'.later, fun x hx => ?_⟩
  rcases h'.names x hx with hx | hunused
  · exact h.names x hx
  · exact .inr (h.later.unused hunused)

/-- What still has the name of an earlier version is that version. -/
theorem Follows.mem_of_name (h : Follows s vs t ws) (hs : s.Holds vs) (hv : v ∈ vs)
    (hw : v.id ∈ ws.map (·.id)) : v ∈ ws := by
  obtain ⟨w, hw, hid⟩ := List.mem_map.mp hw
  rcases h.names w hw with hmem | hunused
  · rwa [← List.inj_on_of_nodup_map hs.distinct hmem hv hid]
  · obtain ⟨n, hn, hname⟩ := hs.minted v hv
    rw [hid, hname] at hunused
    exact (hs.fresh.not_unused hn hunused).elim

/-- The versions after an accepted draft. -/
theorem Holds.follows_add (h : s.Holds vs) (hd : ∀ id ∈ d.parentId, id ∈ vs.map (·.id)) :
    Follows s vs (s.add d).2 (vs ++ [(s.mint.version d).1]) := by
  have hid : (s.mint.version d).1.id = s.mint.name s.mint.named := rfl
  have hlater := Mint.later_version s.mint d
  rw [h.add hd]
  refine ⟨⟨rfl, h.distinct.concat h.name_notMem, h.chained.concat fun id hid => ?_,
    hlater.fresh h.fresh, ?_⟩, hlater, ?_⟩
  · exact List.mem_map.mp (hd id hid)
  · intro v hv
    rcases List.mem_append.mp hv with hv | hv
    · obtain ⟨n, hn, heq⟩ := h.minted v hv
      exact ⟨n, Nat.lt_succ_of_lt hn, heq⟩
    · obtain rfl := List.mem_singleton.mp hv
      exact ⟨s.mint.named, Nat.lt_succ_self _, hid⟩
  · intro w hw
    rcases List.mem_append.mp hw with hw | hw
    · exact .inl hw
    · obtain rfl := List.mem_singleton.mp hw
      exact .inr ⟨s.mint.named, Nat.le_refl _, hid⟩

/-- The versions stay when a draft is refused; its name is used up. -/
theorem Holds.follows_orphan (h : s.Holds vs) (hp : d.parentId = some id)
    (hid : id ∉ vs.map (·.id)) : Follows s vs (s.add d).2 vs := by
  have hlater := Mint.later_version s.mint d
  rw [h.add_orphan hp hid]
  refine ⟨⟨h.storage, h.distinct, h.chained, hlater.fresh h.fresh, fun v hv => ?_⟩, hlater,
    fun _ => .inl⟩
  obtain ⟨n, hn, heq⟩ := h.minted v hv
  exact ⟨n, Nat.lt_succ_of_lt hn, heq⟩

/-- A call keeps the history in order. -/
theorem Holds.perform (h : s.Holds vs) (c : Call) : ∃ ws, Follows s vs (s.perform c).2 ws := by
  cases c with
  | add d =>
    cases hp : d.parentId with
    | none => exact ⟨_, h.follows_add (by simp [hp])⟩
    | some id =>
      by_cases hid : id ∈ vs.map (·.id)
      · exact ⟨_, h.follows_add (by simpa [hp] using hid)⟩
      · exact ⟨_, h.follows_orphan hp hid⟩
  | rollback id =>
    by_cases hid : id ∈ vs.map (·.id)
    · obtain ⟨v, hv, rfl⟩ := List.mem_map.mp hid
      obtain ⟨front, back, rfl⟩ := List.append_of_mem hv
      have hcut : front ++ v :: back = (front ++ [v]) ++ back := by simp
      refine ⟨front ++ [v], ?_⟩
      simp only [Store.perform, h.rollback]
      rw [hcut] at h ⊢
      exact ⟨h.cut, Mint.later_self _, fun w hw => .inl (List.mem_append_left _ hw)⟩
    · refine ⟨vs, ?_⟩
      simp only [Store.perform, h.rollback_absent hid]
      exact h.follows_self
  | clear =>
    refine ⟨[], ?_⟩
    simp only [Store.perform, h.storage, Storage.clear]
    exact ⟨holds_empty h.fresh, Mint.later_self _, by simp⟩
  | get _ | latest | all | summaries | count => exact ⟨vs, h.follows_self⟩

theorem after_append (s : Store) (calls more : List Call) :
    s.after (calls ++ more) = (s.after calls).after more := List.foldl_append

/-- Calls keep the history in order, and bring back no name that is gone. -/
theorem Holds.after (h : s.Holds vs) (calls : List Call) : ∃ ws, Follows s vs (s.after calls) ws := by
  induction calls generalizing s vs with
  | nil => exact ⟨vs, h.follows_self⟩
  | cons c calls ih =>
    obtain ⟨us, hus⟩ := h.perform c
    obtain ⟨ws, hws⟩ := ih hus.holds
    exact ⟨ws, hus.trans hws⟩

/-- Whether a history lists a name. -/
def Lists (s : Store) (id : String) : Prop := ∃ ids, s.storage.ids = .ok ids ∧ id ∈ ids

theorem Holds.lists_iff (h : s.Holds vs) : s.Lists id ↔ id ∈ vs.map (·.id) := by
  rw [Lists, h.storage]
  constructor
  · rintro ⟨ids, hids, hmem⟩
    cases hids
    exact hmem
  · intro hmem
    exact ⟨_, rfl, hmem⟩

/-- A name that is gone stays gone. -/
theorem Holds.not_lists_after (h : s.Holds vs) (hid : s.Lists id) {more later : List Call}
    (hgone : ¬ (s.after more).Lists id) : ¬ ((s.after more).after later).Lists id := by
  obtain ⟨v, hv, rfl⟩ := List.mem_map.mp (h.lists_iff.mp hid)
  obtain ⟨n, hn, hname⟩ := h.minted v hv
  obtain ⟨us, hus⟩ := h.after more
  obtain ⟨ws, hws⟩ := hus.holds.after later
  rw [hws.holds.lists_iff]
  intro hback
  obtain ⟨w, hw, hwid⟩ := List.mem_map.mp hback
  rcases hws.names w hw with hw | hunused
  · exact hgone (hus.holds.lists_iff.mpr (List.mem_map.mpr ⟨w, hw, hwid⟩))
  · rw [hwid, hname] at hunused
    exact h.fresh.not_unused hn (hus.later.unused hunused)

/-- Going back in two steps is going back in one. -/
theorem Holds.rollback_rollback (h : s.Holds (front ++ v :: back)) (hw : w ∈ v :: back) :
    (s.rollback w.id >>= fun r => r.2.rollback v.id) = s.rollback v.id := by
  rcases List.mem_cons.mp hw with rfl | hw
  · have hcut : s.Holds ((front ++ [w]) ++ back) := by simpa using h
    rw [h.rollback, ok_bind]
    exact hcut.cut.rollback
  · obtain ⟨mid, last, rfl⟩ := List.append_of_mem hw
    have hlater : s.Holds ((front ++ v :: mid) ++ w :: last) := by simpa using h
    have hcut : s.Holds ((front ++ v :: (mid ++ [w])) ++ last) := by simpa using h
    have hkept : (front ++ v :: mid) ++ [w] = front ++ v :: (mid ++ [w]) := by simp
    rw [hlater.rollback, ok_bind, hkept, h.rollback]
    exact hcut.cut.rollback

/-- How a history with these versions goes back, and what it refuses. -/
structure Rewinds (s : Store) (vs : List Version) : Prop where
  back : ∀ front v back, vs = front ++ v :: back → s.rollback v.id
    = .ok (some v, { s with storage := .memory (.ofVersions (front ++ [v])) })
  twice : ∀ front v back, vs = front ++ v :: back → ∀ w ∈ v :: back,
    (s.rollback w.id >>= fun r => r.2.rollback v.id) = s.rollback v.id
  absent : ∀ id ∉ vs.map (·.id), s.rollback id = .ok (none, s)
  orphan : ∀ d id, d.parentId = some id → id ∉ vs.map (·.id) →
    (s.add d).1 = .error (.parentMissing id) ∧ (s.add d).2.storage = s.storage

theorem Holds.rewinds (h : s.Holds vs) : s.Rewinds vs where
  back front v back heq := (heq ▸ h).rollback
  twice front v back heq w hw := (heq ▸ h).rollback_rollback hw
  absent id hid := h.rollback_absent hid
  orphan d id hp hid := by
    rw [h.add_orphan hp hid]
    exact ⟨rfl, rfl⟩

/-- After any calls on a history that started empty, its order and its versions agree, each parent stands
before its children, a rollback leaves the versions up to its target, what is refused changes nothing,
and no name comes back after it was removed, as long as no name is given out twice. -/
theorem order_of_calls (mint : Mint) (hmint : mint.Fresh) (calls : List Call) :
    ∃ m, (after calls ⟨.empty, mint⟩).storage = .memory m
      ∧ m.Consistent ∧ Chained m.all ∧ Rewinds (after calls ⟨.empty, mint⟩) m.all
      ∧ ∀ id ∈ m.order, ∀ more later,
        ¬ Lists (after (calls ++ more) ⟨.empty, mint⟩) id →
          ¬ Lists (after (calls ++ more ++ later) ⟨.empty, mint⟩) id := by
  obtain ⟨vs, hvs⟩ := (holds_empty hmint).after calls
  have hall := all_ofVersions hvs.holds.distinct
  refine ⟨.ofVersions vs, hvs.holds.storage, consistent_ofVersions hvs.holds.distinct, ?_, ?_, ?_⟩
  · rw [hall]
    exact hvs.holds.chained
  · rw [hall]
    exact hvs.holds.rewinds
  · intro id hid more later hgone
    rw [after_append] at hgone
    rw [after_append, after_append]
    exact hvs.holds.not_lists_after (hvs.holds.lists_iff.mpr hid) hgone

/-- A draft of a plan with one button. -/
def buttonDraft (parentId : Option String) : Draft :=
  ⟨"a button", .ofTree "a button" (.node "Button" none none), "", none, parentId.isSome, parentId⟩

theorem order_of_revised_button :
    let calls : List Call := [.add (buttonDraft none), .add (buttonDraft (some "v1"))]
    Mint.fresh.Fresh
      ∧ (after calls ⟨.empty, .fresh⟩).storage.ids = .ok ["v1", "v2"]
      ∧ (after (calls ++ [.rollback "v1"]) ⟨.empty, .fresh⟩).storage.ids = .ok ["v1"]
      ∧ ∀ later, ¬ Lists (after (calls ++ [.rollback "v1"] ++ later) ⟨.empty, .fresh⟩) "v2" := by
  intro calls
  have hids : (after calls ⟨.empty, .fresh⟩).storage.ids = .ok ["v1", "v2"] := rfl
  have hleft : (after (calls ++ [.rollback "v1"]) ⟨.empty, .fresh⟩).storage.ids = .ok ["v1"] := rfl
  refine ⟨Mint.numbered_injective, hids, hleft, fun later => ?_⟩
  obtain ⟨m, hm, -, -, -, hstays⟩ := order_of_calls .fresh Mint.numbered_injective calls
  have horder : m.order = ["v1", "v2"] := by
    rw [hm] at hids
    exact Except.ok.inj hids
  refine hstays "v2" (by simp [horder]) _ later ?_
  rintro ⟨ids, hnow, hmem⟩
  rw [hleft] at hnow
  cases hnow
  simp at hmem

end Store

end Wireframe
