import Wireframe.Proofs.Layout.Findings
import Wireframe.Proofs.Layout.Walk

/-! Which layouts are valid: those that are trees of known components within the bound, whatever their
references could do. -/
namespace Wireframe.Layout

variable {l : Layout} {limit : Quantity} {withProps : Bool} {r c d : Ref} {n : Node}
variable {p q place : Place} {id : Nat} {unseen above : List Nat} {tasks rest : List Task}

/-- A layout that is a tree: no value that is no node can be reached, and each node that can be by one way
only. Its nodes are of known types, and those with children above the bound. -/
structure Treelike (l : Layout) (limit : Quantity) : Prop where
  nodes : ∀ place r, l.at? place = some r → ∃ id n, l.node? r = some (id, n)
  once : ∀ p q id n m, l.nodeAt? p = some (id, n) → l.nodeAt? q = some (id, m) → p = q
  known : ∀ place id n, l.nodeAt? place = some (id, n) → n.isRegistered = true
  room : ∀ place id n, l.nodeAt? place = some (id, n) → n.childList ≠ [] →
    limit.isReachedBy (place.length + 1) = false

/-! No finding of a check of such a layout is an error. -/

theorem Treelike.not_isAbove (h : Treelike l limit) (hn : l.nodeAt? place = some (id, n)) :
    ¬ l.IsAbove id place := by
  rintro ⟨p, x, rfl, hx, m, hm⟩
  exact hx (List.self_eq_append_right.mp (h.once p (p ++ x) id m n hm hn))

theorem Treelike.isValid (h : Treelike l limit) : (l.check limit withProps).isValid = true := by
  rw [LayoutReport.isValid, LayoutReport.errors, List.isEmpty_iff, List.filter_eq_nil_iff]
  intro f hf
  have hjust := justified_of_mem_findings hf
  cases f with
  | notANode place =>
    obtain ⟨r, hr, hnone⟩ := hjust
    obtain ⟨id, n, hn⟩ := h.nodes place r hr
    rw [hnone] at hn
    cases hn
  | cycle type place =>
    obtain ⟨id, n, hn, -, habove⟩ := hjust
    exact (h.not_isAbove hn habove).elim
  | shared type place =>
    obtain ⟨id, n, hn, -, -, earlier, hlt, hvisited⟩ := hjust
    obtain ⟨m, hm⟩ := hvisited.stands
    rw [h.once _ _ id m n hm hn] at hlt
    exact (List.lt_irrefl _ hlt).elim
  | unknownComponent type place =>
    obtain ⟨id, n, hn, -, hreg⟩ := hjust
    rw [h.known place id n hn] at hreg
    cases hreg
  | tooDeep bound place =>
    obtain ⟨id, n, hn, -, hinner, hreached⟩ := hjust
    rw [h.room place id n hn hinner] at hreached
    cases hreached
  | props message place => exact Bool.false_ne_true

/-! A walk without errors has been at each place that its tasks lead to, at a new node every time. -/

/-- The tasks of a walk lead to a place with this reference. -/
def Leads (l : Layout) (tasks : List Task) (place : Place) (c : Ref) : Prop :=
  ∃ r p x, .enter r p ∈ tasks ∧ place = p ++ x ∧ l.below? r x = some c

theorem leads_root : Leads l [.enter l.root []] place c ↔ l.at? place = some c := by
  constructor
  · rintro ⟨r, p, x, hmem, rfl, hx⟩
    cases List.mem_singleton.mp hmem
    exact hx
  · exact fun h => ⟨l.root, [], place, List.mem_cons_self, rfl, h⟩

theorem leads_leave : Leads l (.leave id :: rest) place c ↔ Leads l rest place c := by
  constructor
  · rintro ⟨r, p, x, hmem, hplace, hx⟩
    exact ⟨r, p, x, (List.mem_cons.mp hmem).resolve_left nofun, hplace, hx⟩
  · rintro ⟨r, p, x, hmem, hplace, hx⟩
    exact ⟨r, p, x, List.mem_cons_of_mem _ hmem, hplace, hx⟩

/-- A place that a node leads to is its own, or one that its children lead to. -/
theorem leads_enter (hn : l.node? r = some (id, n))
    (h : Leads l (.enter r p :: rest) place c) : place = p ∧ c = r ∨
      Leads l (childTasks p n.childList ++ .leave id :: rest) place c := by
  obtain ⟨r', p', x, hmem, rfl, hx⟩ := h
  rcases List.mem_cons.mp hmem with heq | hmem
  · cases heq
    cases x with
    | nil => exact .inl ⟨List.append_nil p, (Option.some.inj hx).symm⟩
    | cons i x =>
      rw [below?_cons hn] at hx
      obtain ⟨child, hchild, hx⟩ := Option.bind_eq_some_iff.mp hx
      obtain ⟨hi, rfl⟩ := List.getElem?_eq_some_iff.mp hchild
      refine .inr ⟨_, p ++ [i], x, List.mem_append_left _ (List.mem_mapIdx.mpr ⟨i, hi, rfl⟩), ?_, hx⟩
      simp
  · exact .inr ⟨r', p', x, List.mem_append_right _ (List.mem_cons_of_mem _ hmem), rfl, hx⟩

/-- Tasks that lead to new nodes only, of known types and with room for their children, and to none of
them by two ways. -/
structure Tidy (l : Layout) (limit : Quantity) (unseen : List Nat) (tasks : List Task) : Prop where
  nodes : ∀ place c, Leads l tasks place c → ∃ id n, l.node? c = some (id, n) ∧ id ∈ unseen
    ∧ n.isRegistered = true ∧ (n.childList ≠ [] → limit.isReachedBy (place.length + 1) = false)
  once : ∀ p q c d, Leads l tasks p c → Leads l tasks q d → ∀ id n m, l.node? c = some (id, n) →
    l.node? d = some (id, m) → p = q

theorem tidy_nil : Tidy l limit unseen [] where
  nodes _ _ := fun ⟨_, _, _, hmem, _⟩ => nomatch hmem
  once _ _ _ _ := fun ⟨_, _, _, hmem, _⟩ => nomatch hmem

theorem Tidy.leave (h : Tidy l limit unseen rest) : Tidy l limit unseen (.leave id :: rest) where
  nodes place c hc := h.nodes place c (leads_leave.mp hc)
  once p q c d hc hd := h.once p q c d (leads_leave.mp hc) (leads_leave.mp hd)

theorem Tidy.enter (hn : l.node? r = some (id, n)) (hmem : id ∈ unseen) (hnodup : unseen.Nodup)
    (hreg : n.isRegistered = true)
    (hroom : n.childList ≠ [] → limit.isReachedBy (place.length + 1) = false)
    (h : Tidy l limit (unseen.erase id) (childTasks place n.childList ++ .leave id :: rest)) :
    Tidy l limit unseen (.enter r place :: rest) := by
  -- what the children and the other tasks lead to is not the node itself
  have hother : ∀ q d, Leads l (childTasks place n.childList ++ .leave id :: rest) q d →
      ∀ m, l.node? d ≠ some (id, m) := by
    intro q d hd m hm
    obtain ⟨k, m', hk, hin, -⟩ := h.nodes q d hd
    rw [hm] at hk
    cases hk
    exact hnodup.not_mem_erase hin
  refine ⟨fun q c hc => ?_, fun p q c d hc hd k m m' hm hm' => ?_⟩
  · rcases leads_enter hn hc with ⟨rfl, rfl⟩ | hc
    · exact ⟨id, n, hn, hmem, hreg, hroom⟩
    · obtain ⟨k, m, hk, hin, hrest⟩ := h.nodes q c hc
      exact ⟨k, m, hk, List.mem_of_mem_erase hin, hrest⟩
  · rcases leads_enter hn hc with ⟨rfl, rfl⟩ | hc'
    · rcases leads_enter hn hd with ⟨rfl, -⟩ | hd'
      · rfl
      · rw [hn] at hm
        cases hm
        exact (hother q d hd' m' hm').elim
    · rcases leads_enter hn hd with ⟨rfl, rfl⟩ | hd'
      · rw [hn] at hm'
        cases hm'
        exact (hother p c hc' m hm).elim
      · exact h.once p q c d hc' hd' k m m' hm hm'

theorem Node.isRegistered_of {type : String} (htype : n.type = .text type)
    (h : Component.isRegistered type = true) : n.isRegistered = true := by
  rw [Node.isRegistered, htype]
  exact h

theorem tidy_of_walk (hnodup : unseen.Nodup)
    (h : Faultless (walk l limit withProps unseen above tasks)) : Tidy l limit unseen tasks := by
  induction unseen, above, tasks using walk.induct l with
  | case1 => exact tidy_nil
  | case2 unseen above id rest ih =>
    rw [walk] at h
    exact (ih hnodup h).leave
  | case3 unseen above r place rest hn ih =>
    obtain ⟨id, n, _, hn', _⟩ := faultless_enter h
    rw [hn] at hn'
    cases hn'
  | case4 unseen above r place rest id n hn habove ih =>
    obtain ⟨_, _, _, hn', hnot, _⟩ := faultless_enter h
    rw [hn] at hn'
    cases hn'
    exact (hnot habove).elim
  | case5 unseen above r place rest id n hn habove hunseen ihleaf ihinner =>
    obtain ⟨_, _, type, hn', -, -, htype, hreg, hwalk⟩ := faultless_enter h
    rw [hn] at hn'
    cases hn'
    have hknown : n.isRegistered = true := Node.isRegistered_of htype hreg
    rcases hwalk with ⟨hleaf, hrest⟩ | ⟨hroom, hrest⟩
    · refine .enter hn hunseen hnodup hknown (fun hinner => (hinner hleaf).elim) ?_
      rw [hleaf]
      exact (ihleaf (hnodup.erase id) hrest).leave
    · exact .enter hn hunseen hnodup hknown (fun _ => hroom) (ihinner (hnodup.erase id) hrest)
  | case6 unseen above r place rest id n hn habove hunseen ih =>
    obtain ⟨_, _, _, hn', -, hin, _⟩ := faultless_enter h
    rw [hn] at hn'
    cases hn'
    exact (hunseen hin).elim

theorem treelike_of_isValid (h : (l.check limit withProps).isValid = true) : Treelike l limit := by
  have htidy := tidy_of_walk List.nodup_range (faultless_of_isValid h)
  refine ⟨fun place r hr => ?_, fun p q id n m hn hm => ?_, fun place id n hn => ?_,
    fun place id n hn => ?_⟩
  · obtain ⟨id, n, hn, -⟩ := htidy.nodes place r (leads_root.mpr hr)
    exact ⟨id, n, hn⟩
  · obtain ⟨c, hc, hn⟩ := Option.bind_eq_some_iff.mp hn
    obtain ⟨d, hd, hm⟩ := Option.bind_eq_some_iff.mp hm
    exact htidy.once p q c d (leads_root.mpr hc) (leads_root.mpr hd) id n m hn hm
  · obtain ⟨r, hr, hn⟩ := Option.bind_eq_some_iff.mp hn
    obtain ⟨_, _, hn', -, hreg, -⟩ := htidy.nodes place r (leads_root.mpr hr)
    rw [hn] at hn'
    cases hn'
    exact hreg
  · obtain ⟨r, hr, hn⟩ := Option.bind_eq_some_iff.mp hn
    obtain ⟨_, _, hn', -, -, hroom⟩ := htidy.nodes place r (leads_root.mpr hr)
    rw [hn] at hn'
    cases hn'
    exact hroom

/-- Types that are texts can be collected by key. -/
theorem keyless?_check (h : ∀ n ∈ l.nodes, ∃ type, n.type = .text type) :
    (l.check limit withProps).keyless? = none := by
  rw [LayoutReport.keyless?, List.findSome?_eq_none_iff]
  intro f hf
  have hjust := justified_of_mem_findings hf
  cases f with
  | unknownComponent type place =>
    obtain ⟨id, n, hn, rfl, -⟩ := hjust
    obtain ⟨text, htext⟩ := h n (Array.mem_of_getElem? (nodes_of_nodeAt? hn))
    rw [htext]
    rfl
  | _ => rfl

/-- Whatever its references do, a layout is valid exactly if it is a tree of known components within the
bound; every finding about it is right; and types that are texts are nothing a report could fail on. -/
theorem check_decides (l : Layout) (limit : Quantity) (withProps : Bool) :
    ((l.check limit withProps).isValid = true ↔ Treelike l limit)
      ∧ (∀ f ∈ (l.check limit withProps).findings,
        Justified l limit (l.check limit withProps).findings f)
      ∧ ((∀ n ∈ l.nodes, ∃ type, n.type = .text type) → (l.check limit withProps).keyless? = none) :=
  ⟨⟨treelike_of_isValid, Treelike.isValid⟩, fun _ => justified_of_mem_findings, keyless?_check⟩

/-- A stack that has one button twice among its children, and itself. -/
def knotted : Layout where
  nodes := #[⟨.text "Stack", none, some [.node 1, .node 1, .node 0]⟩, ⟨.text "Button", none, none⟩]
  root := .node 0

/-- It is no tree, and the report on it says where and why. -/
theorem check_knotted : ((knotted.check (.whole 4) false).keyless? = none ∧ ¬ Treelike knotted (.whole 4))
    ∧ Justified knotted (.whole 4) (knotted.check (.whole 4) false).findings (.shared (.text "Button") [1])
    ∧ Justified knotted (.whole 4) (knotted.check (.whole 4) false).findings
      (.cycle (.text "Stack") [2]) := by
  obtain ⟨hvalid, hjust, hkey⟩ := check_decides knotted (.whole 4) false
  have hfindings : (knotted.check (.whole 4) false).findings
      = [.shared (.text "Button") [1], .cycle (.text "Stack") [2]] := by
    simp [check, walk, knotted, node?, childTasks, Node.childList, Node.findings, Node.isRegistered]
    rfl
  refine ⟨⟨hkey fun n hn => ?_, fun htree => ?_⟩, hjust _ ?_, hjust _ ?_⟩
  · simp only [knotted, List.mem_toArray, List.mem_cons, List.not_mem_nil, or_false] at hn
    rcases hn with rfl | rfl
    · exact ⟨"Stack", rfl⟩
    · exact ⟨"Button", rfl⟩
  · have hnone := hvalid.mpr htree
    rw [LayoutReport.isValid, LayoutReport.errors, hfindings] at hnone
    cases hnone
  · rw [hfindings]
    exact List.mem_cons_self
  · rw [hfindings]
    exact List.mem_cons_of_mem _ List.mem_cons_self

end Wireframe.Layout
