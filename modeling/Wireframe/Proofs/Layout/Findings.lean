import Wireframe.Layout.Check
import Wireframe.Proofs.Layout.Places

/-! What the findings of a check mean. A walk keeps on its list of tasks, behind every place that it has
yet to enter, the nodes above that place; and it comes to the places in their order. -/
namespace Wireframe.Layout

variable {l : Layout} {limit : Quantity} {withProps : Bool} {r c : Ref} {n : Node} {f : Finding}
variable {p q place : Place} {id k : Nat} {unseen above : List Nat} {tasks rest : List Task}
variable {cs : List Ref} {done fs gs : List Finding}

/-- The nodes that a list of tasks has yet to leave. -/
def leaves : List Task → List Nat
  | [] => []
  | .enter _ _ :: rest => leaves rest
  | .leave id :: rest => id :: leaves rest

/-- Tasks that a walk can have left: each place with what stands at it, ahead of the later ones, and
before the ends of exactly the nodes above it. -/
def Standing (l : Layout) : List Task → Prop
  | [] => True
  | .leave _ :: rest => Standing l rest
  | .enter r place :: rest =>
    l.at? place = some r ∧ (∀ id, id ∈ leaves rest ↔ l.IsAbove id place)
      ∧ (∀ c q, .enter c q ∈ rest → Ahead place q) ∧ Standing l rest

theorem leaves_mapIdx (cs : List Ref) (place : Nat → Place) :
    leaves (cs.mapIdx (fun i c => .enter c (place i)) ++ rest) = leaves rest := by
  induction cs generalizing place with
  | nil => rfl
  | cons c cs ih => rw [List.mapIdx_cons]; exact ih fun i => place (i + 1)

theorem leaves_childTasks : leaves (childTasks place cs ++ rest) = leaves rest :=
  leaves_mapIdx cs fun i => place ++ [i]

theorem exists_of_mem_childTasks (h : .enter c q ∈ childTasks place cs) : ∃ i, q = place ++ [i] := by
  obtain ⟨i, _, heq⟩ := List.mem_mapIdx.mp h
  exact ⟨i, by cases heq; rfl⟩

theorem standing_initial : Standing l [.enter l.root []] :=
  ⟨rfl, fun _ => ⟨nofun, fun h => (not_isAbove_root h).elim⟩, nofun, trivial⟩

/-- Going on to the children of a node. -/
theorem standing_children (hn : l.node? r = some (id, n)) (h : Standing l (.enter r place :: rest)) :
    Standing l (childTasks place n.childList ++ .leave id :: rest) := by
  obtain ⟨hat, habove, hahead, hrest⟩ := h
  have hnode : l.nodeAt? place = some (id, n) := nodeAt?_of_at? hat hn
  suffices hall : ∀ (cs : List Ref) (k : Nat), (∀ i, cs[i]? = n.childList[k + i]?) →
      Standing l (cs.mapIdx (fun i c => .enter c (place ++ [k + i])) ++ .leave id :: rest) by
    simpa [childTasks] using hall n.childList 0 (by simp)
  intro cs
  induction cs with
  | nil => exact fun _ _ => hrest
  | cons c cs ih =>
    intro k hcs
    rw [List.mapIdx_cons, List.cons_append]
    refine ⟨?_, fun j => ?_, fun c' q hq => ?_, ?_⟩
    · rw [at?_child hnode, ← hcs 0, List.getElem?_cons_zero]
    · rw [leaves_mapIdx cs fun i => place ++ [k + (i + 1)], isAbove_child_iff hnode, ← habove]
      exact List.mem_cons
    · rcases List.mem_append.mp hq with hq | hq
      · obtain ⟨i, _, heq⟩ := List.mem_mapIdx.mp hq
        cases heq
        exact ahead_sibling place (by omega)
      · rcases List.mem_cons.mp hq with heq | hq
        · cases heq
        · intro x
          rw [List.append_assoc]
          exact hahead c' q hq _
    · have hnext := ih (k + 1) fun i => by
        rw [show k + 1 + i = k + (i + 1) by omega, ← hcs, List.getElem?_cons_succ]
      simpa [Nat.add_assoc, Nat.add_comm 1] using hnext

/-- A finding at whose place a walk goes no further. -/
def IsStop : Finding → Prop
  | .cycle .. | .shared .. | .tooDeep .. => True
  | _ => False

/-- A walk with these findings has entered the node at a place: nothing stopped it above that place, and
there only the bound did, if anything. -/
structure Visited (l : Layout) (fs : List Finding) (place : Place) (id : Nat) : Prop where
  stands : ∃ n, l.nodeAt? place = some (id, n)
  reached : ∀ f ∈ fs, IsStop f → f.place <+: place → ∃ limit, f = .tooDeep limit place

/-- What each finding says about the layout. A node is shared where it stands at an earlier place at which
the walk entered it, and not above the place of the finding. -/
def Justified (l : Layout) (limit : Quantity) (fs : List Finding) : Finding → Prop
  | .notANode place => ∃ r, l.at? place = some r ∧ l.node? r = none
  | .cycle type place => ∃ id n, l.nodeAt? place = some (id, n) ∧ type = n.type ∧ l.IsAbove id place
  | .shared type place =>
    ∃ id n, l.nodeAt? place = some (id, n) ∧ type = n.type ∧ ¬ l.IsAbove id place
      ∧ ∃ earlier < place, Visited l fs earlier id
  | .unknownComponent type place =>
    ∃ id n, l.nodeAt? place = some (id, n) ∧ type = n.type ∧ n.isRegistered = false
  | .tooDeep bound place =>
    ∃ id n, l.nodeAt? place = some (id, n) ∧ bound = limit ∧ n.childList ≠ []
      ∧ limit.isReachedBy (place.length + 1) = true
  | .props message place =>
    ∃ id n, l.nodeAt? place = some (id, n) ∧ n.isRegistered = true
      ∧ .props message place ∈ n.propFindings place

/-! Where the findings of a walk are. -/

theorem Node.of_mem_propFindings (h : f ∈ n.propFindings place) : ∃ message, f = .props message place := by
  rw [Node.propFindings] at h
  split at h
  · cases h
  · obtain ⟨message, -, rfl⟩ := List.mem_map.mp h
    exact ⟨message, rfl⟩

theorem Node.of_mem_findings (h : f ∈ n.findings withProps place) : f.place = place ∧ ¬ IsStop f := by
  rw [Node.findings] at h
  split at h
  · split at h
    · obtain ⟨message, rfl⟩ := Node.of_mem_propFindings h
      exact ⟨rfl, id⟩
    · cases h
  · cases List.mem_singleton.mp h
    exact ⟨rfl, id⟩

theorem Node.justified_of_mem_findings (hn : l.nodeAt? place = some (id, n))
    (h : f ∈ n.findings withProps place) : Justified l limit fs f := by
  rw [Node.findings] at h
  split at h
  · rename_i hreg
    split at h
    · obtain ⟨message, rfl⟩ := Node.of_mem_propFindings h
      exact ⟨id, n, hn, hreg, h⟩
    · cases h
  · rename_i hreg
    cases List.mem_singleton.mp h
    exact ⟨id, n, hn, rfl, Bool.eq_false_iff.mpr hreg⟩

theorem le_of_mem_walk (h : f ∈ walk l limit withProps unseen above tasks) :
    ∃ r q, .enter r q ∈ tasks ∧ q <+: f.place := by
  have later : ∀ {t rest}, (∃ r q, Task.enter r q ∈ rest ∧ q <+: f.place) →
      ∃ r q, .enter r q ∈ t :: rest ∧ q <+: f.place :=
    fun ⟨r, q, hmem, hle⟩ => ⟨r, q, List.mem_cons_of_mem _ hmem, hle⟩
  induction unseen, above, tasks using walk.induct l with
  | case1 => rw [walk] at h; cases h
  | case2 unseen above id rest ih => rw [walk] at h; exact later (ih h)
  | case3 unseen above r place rest hn ih =>
    rw [walk, hn] at h
    rcases List.mem_cons.mp h with rfl | h
    · exact ⟨r, place, List.mem_cons_self, List.prefix_rfl⟩
    · exact later (ih h)
  | case4 unseen above r place rest id n hn habove ih =>
    rw [walk, hn] at h
    rcases List.mem_cons.mp (by simpa only [if_pos habove] using h) with rfl | h
    · exact ⟨r, place, List.mem_cons_self, List.prefix_rfl⟩
    · exact later (ih h)
  | case5 unseen above r place rest id n hn habove hunseen ihleaf ihinner =>
    rw [walk, hn] at h
    simp only [if_neg habove, if_pos hunseen] at h
    rcases List.mem_append.mp h with h | h
    · exact ⟨r, place, List.mem_cons_self, (Node.of_mem_findings h).1 ▸ List.prefix_rfl⟩
    · split at h
      · exact later (ihleaf h)
      · split at h
        · rcases List.mem_cons.mp h with rfl | h
          · exact ⟨r, place, List.mem_cons_self, List.prefix_rfl⟩
          · exact later (ihleaf h)
        · obtain ⟨c, q, hmem, hle⟩ := ihinner h
          rcases List.mem_append.mp hmem with hchild | hmem
          · obtain ⟨i, rfl⟩ := exists_of_mem_childTasks hchild
            exact ⟨r, place, List.mem_cons_self, (List.prefix_append _ _).trans hle⟩
          · rcases List.mem_cons.mp hmem with heq | hmem
            · cases heq
            · exact later ⟨c, q, hmem, hle⟩
  | case6 unseen above r place rest id n hn habove hunseen ih =>
    rw [walk, hn] at h
    rcases List.mem_cons.mp (by simpa only [if_neg habove, if_neg hunseen] using h) with rfl | h
    · exact ⟨r, place, List.mem_cons_self, List.prefix_rfl⟩
    · exact later (ih h)

/-! What the findings made so far say about the tasks that are left. -/

/-- The findings are at places before those of the tasks, none of them stops the walk above a task, and a
node that was seen has been visited before all of them. -/
structure Kept (l : Layout) (done : List Finding) (unseen : List Nat) (tasks : List Task) : Prop where
  before : ∀ f ∈ done, ∀ r q, .enter r q ∈ tasks → f.place < q
  clear : ∀ f ∈ done, IsStop f → ∀ r q, .enter r q ∈ tasks → ¬ f.place <+: q
  known : ∀ id n, l.nodes[id]? = some n → id ∉ unseen →
    ∃ earlier, Visited l done earlier id ∧ ∀ r q, .enter r q ∈ tasks → earlier < q

theorem Visited.append (h : Visited l done p id) (hgs : ∀ f ∈ gs, p < f.place) :
    Visited l (done ++ gs) p id := by
  refine ⟨h.stands, fun f hf hstop hle => ?_⟩
  rcases List.mem_append.mp hf with hf | hf
  · exact h.reached f hf hstop hle
  · exact (not_isPrefix_of_lt (hgs f hf) hle).elim

theorem kept_initial : Kept l [] (List.range l.nodes.size) tasks := by
  refine ⟨nofun, nofun, fun id n hn hid => (hid (List.mem_range.mpr ?_)).elim⟩
  exact (Array.getElem?_eq_some_iff.mp hn).1

theorem Kept.leave (h : Kept l done unseen (.leave id :: rest)) : Kept l done unseen rest where
  before f hf r q hq := h.before f hf r q (List.mem_cons_of_mem _ hq)
  clear f hf hstop r q hq := h.clear f hf hstop r q (List.mem_cons_of_mem _ hq)
  known id n hn hid :=
    have ⟨earlier, hvisited, hlt⟩ := h.known id n hn hid
    ⟨earlier, hvisited, fun r q hq => hlt r q (List.mem_cons_of_mem _ hq)⟩

/-- A place that the walk does not enter. -/
theorem Kept.pass (hstand : Standing l (.enter r place :: rest))
    (h : Kept l done unseen (.enter r place :: rest)) (hf : f.place = place) :
    Kept l (done ++ [f]) unseen rest := by
  have hahead := hstand.2.2.1
  refine ⟨fun g hg c q hq => ?_, fun g hg hstop c q hq => ?_, fun id n hn hid => ?_⟩
  · rcases List.mem_append.mp hg with hg | hg
    · exact h.before g hg c q (List.mem_cons_of_mem _ hq)
    · rw [List.mem_singleton.mp hg, hf]
      exact (hahead c q hq).lt
  · rcases List.mem_append.mp hg with hg | hg
    · exact h.clear g hg hstop c q (List.mem_cons_of_mem _ hq)
    · rw [List.mem_singleton.mp hg, hf]
      exact (hahead c q hq).not_isPrefix
  · obtain ⟨earlier, hvisited, hlt⟩ := h.known id n hn hid
    refine ⟨earlier, hvisited.append fun g hg => ?_, fun c q hq => hlt c q (List.mem_cons_of_mem _ hq)⟩
    rw [List.mem_singleton.mp hg, hf]
    exact hlt r place List.mem_cons_self

/-- A node that is entered has been visited from then on. -/
theorem Kept.visited (hstand : Standing l (.enter r place :: rest))
    (h : Kept l done unseen (.enter r place :: rest)) (hn : l.node? r = some (id, n))
    (hgs : ∀ f ∈ gs, IsStop f → f = .tooDeep limit place) : Visited l (done ++ gs) place id := by
  refine ⟨⟨n, nodeAt?_of_at? hstand.1 hn⟩, fun f hf hstop hle => ?_⟩
  rcases List.mem_append.mp hf with hf | hf
  · exact (h.clear f hf hstop r place List.mem_cons_self hle).elim
  · exact ⟨limit, hgs f hf hstop⟩

/-- A place that the walk enters, to go on behind it or, where nothing stops it, to the children. -/
theorem Kept.enter (limit : Quantity) (hstand : Standing l (.enter r place :: rest))
    (h : Kept l done unseen (.enter r place :: rest)) (hn : l.node? r = some (id, n))
    (hplace : ∀ f ∈ gs, f.place = place) (hgs : ∀ f ∈ gs, IsStop f → f = .tooDeep limit place)
    (hnext : ∀ c q, .enter c q ∈ tasks →
      .enter c q ∈ rest ∨ (∃ i, q = place ++ [i]) ∧ ∀ f ∈ gs, ¬ IsStop f) :
    Kept l (done ++ gs) (unseen.erase id) tasks := by
  have hahead := hstand.2.2.1
  have hlater : ∀ p c q, (∀ c q, .enter c q ∈ Task.enter r place :: rest → p < q) →
      .enter c q ∈ tasks → p < q := by
    intro p c q hp hq
    rcases hnext c q hq with hq | ⟨⟨i, rfl⟩, -⟩
    · exact hp c q (List.mem_cons_of_mem _ hq)
    · exact lt_of_lt_of_isPrefix (hp r place List.mem_cons_self) (List.prefix_append _ _)
  have hhere : ∀ c q, .enter c q ∈ tasks → place < q := by
    intro c q hq
    rcases hnext c q hq with hq | ⟨⟨i, rfl⟩, -⟩
    · exact (hahead c q hq).lt
    · exact lt_append place (by simp)
  refine ⟨fun f hf c q hq => ?_, fun f hf hstop c q hq => ?_, fun k m hm hk => ?_⟩
  · rcases List.mem_append.mp hf with hf | hf
    · exact hlater _ c q (h.before f hf) hq
    · rw [hplace f hf]
      exact hhere c q hq
  · rcases List.mem_append.mp hf with hf | hf
    · rcases hnext c q hq with hq | ⟨⟨i, rfl⟩, -⟩
      · exact h.clear f hf hstop c q (List.mem_cons_of_mem _ hq)
      · intro hle
        rcases List.prefix_concat_iff.mp hle with heq | hle
        · have hlt := lt_append place (x := [i]) (by simp)
          rw [← heq] at hlt
          exact List.lt_asymm hlt (h.before f hf r place List.mem_cons_self)
        · exact h.clear f hf hstop r place List.mem_cons_self hle
    · rcases hnext c q hq with hq | ⟨-, hgo⟩
      · rw [hplace f hf]
        exact (hahead c q hq).not_isPrefix
      · exact (hgo f hf hstop).elim
  · by_cases heq : k = id
    · subst heq
      exact ⟨place, h.visited hstand hn hgs, hhere⟩
    · obtain ⟨earlier, hvisited, hlt⟩ := h.known k m hm fun hin => hk ((List.mem_erase_of_ne heq).mpr hin)
      refine ⟨earlier, hvisited.append fun f hf => ?_, fun c q hq => hlater earlier c q hlt hq⟩
      rw [hplace f hf]
      exact hlt r place List.mem_cons_self

theorem justified_append (gs : List Finding) (hgs : ∀ f ∈ gs, Justified l limit (done ++ (gs ++ fs)) f)
    (hfs : ∀ f ∈ fs, Justified l limit (done ++ gs ++ fs) f) :
    ∀ f ∈ gs ++ fs, Justified l limit (done ++ (gs ++ fs)) f := by
  intro f hf
  rcases List.mem_append.mp hf with hf | hf
  · exact hgs f hf
  · rw [← List.append_assoc]
    exact hfs f hf

/-- Whatever the tasks that are left lead to, each finding is right about the layout. -/
theorem justified_of_walk (hstand : Standing l tasks) (hkept : Kept l done unseen tasks)
    (habove : above = leaves tasks) : ∀ f ∈ walk l limit withProps unseen above tasks,
      Justified l limit (done ++ walk l limit withProps unseen above tasks) f := by
  induction unseen, above, tasks using walk.induct l generalizing done with
  | case1 => rw [walk]; exact nofun
  | case2 unseen above id rest ih =>
    rw [walk]
    exact ih hstand hkept.leave (by rw [habove, leaves, List.erase_cons_head])
  | case3 unseen above r place rest hn ih =>
    rw [walk, hn]
    refine justified_append [.notANode place] ?_ (ih hstand.2.2.2 (hkept.pass hstand rfl) habove)
    exact List.forall_mem_singleton.mpr ⟨r, hstand.1, hn⟩
  | case4 unseen above r place rest id n hn hmem ih =>
    rw [walk, hn]
    simp only [if_pos hmem]
    refine justified_append [.cycle n.type place] ?_
      (ih hstand.2.2.2 (hkept.pass hstand rfl) habove)
    refine List.forall_mem_singleton.mpr ⟨id, n, nodeAt?_of_at? hstand.1 hn, rfl, ?_⟩
    exact (hstand.2.1 id).mp (habove ▸ hmem)
  | case5 unseen above r place rest id n hn hmem hunseen ihleaf ihinner =>
    have hnode : l.nodeAt? place = some (id, n) := nodeAt?_of_at? hstand.1 hn
    have hown : ∀ fs, ∀ f ∈ n.findings withProps place, Justified l limit fs f :=
      fun _ _ hf => Node.justified_of_mem_findings hnode hf
    have hplace : ∀ f ∈ n.findings withProps place, f.place = place :=
      fun f hf => (Node.of_mem_findings hf).1
    have hgo : ∀ f ∈ n.findings withProps place, ¬ IsStop f := fun f hf => (Node.of_mem_findings hf).2
    rw [walk, hn]
    simp only [if_neg hmem, if_pos hunseen]
    refine justified_append _ (hown _) ?_
    split
    · refine ihleaf hstand.2.2.2 ?_ habove
      exact hkept.enter limit hstand hn hplace (fun f hf hstop => (hgo f hf hstop).elim)
        fun c q hq => .inl hq
    · rename_i hinner
      split
      · rename_i hreached
        have hcut : ∀ f ∈ n.findings withProps place ++ [.tooDeep limit place],
            f.place = place ∧ (IsStop f → f = .tooDeep limit place) := by
          refine List.forall_mem_append.mpr ⟨fun f hf => ⟨hplace f hf, fun hs => (hgo f hf hs).elim⟩, ?_⟩
          exact List.forall_mem_singleton.mpr ⟨rfl, fun _ => rfl⟩
        refine justified_append [.tooDeep limit place] ?_ (ihleaf hstand.2.2.2 ?_ habove)
        · refine List.forall_mem_singleton.mpr ⟨id, n, hnode, rfl, fun hnil => hinner ?_, hreached⟩
          rw [hnil, List.isEmpty_nil]
        · rw [List.append_assoc]
          exact hkept.enter limit hstand hn (fun f hf => (hcut f hf).1) (fun f hf => (hcut f hf).2)
            fun c q hq => .inl hq
      · refine ihinner (standing_children hn hstand) ?_ ?_
        · refine hkept.enter limit hstand hn hplace (fun f hf hstop => (hgo f hf hstop).elim)
            fun c q hq => ?_
          rcases List.mem_append.mp hq with hq | hq
          · exact .inr ⟨exists_of_mem_childTasks hq, hgo⟩
          · exact .inl ((List.mem_cons.mp hq).resolve_left nofun)
        · rw [leaves_childTasks, leaves, habove, leaves]
  | case6 unseen above r place rest id n hn hmem hunseen ih =>
    rw [walk, hn]
    simp only [if_neg hmem, if_neg hunseen]
    refine justified_append [.shared n.type place] ?_
      (ih hstand.2.2.2 (hkept.pass hstand rfl) habove)
    have hnode : l.nodeAt? place = some (id, n) := nodeAt?_of_at? hstand.1 hn
    obtain ⟨earlier, hvisited, hlt⟩ := hkept.known id n (nodes_of_nodeAt? hnode) hunseen
    refine List.forall_mem_singleton.mpr ⟨id, n, hnode, rfl, ?_, earlier, hlt r place List.mem_cons_self, ?_⟩
    · exact fun h => hmem (habove ▸ (hstand.2.1 id).mpr h)
    · refine hvisited.append fun f hf => ?_
      rcases List.mem_append.mp hf with hf | hf
      · rw [List.mem_singleton.mp hf]
        exact hlt r place List.mem_cons_self
      · obtain ⟨c, q, hq, hle⟩ := le_of_mem_walk hf
        exact lt_of_lt_of_isPrefix (hlt c q (List.mem_cons_of_mem _ hq)) hle

theorem justified_of_mem_findings (hf : f ∈ (l.check limit withProps).findings) :
    Justified l limit (l.check limit withProps).findings f :=
  justified_of_walk standing_initial kept_initial rfl f hf

end Wireframe.Layout
