import Wireframe.Proofs.Layout.Treelike

/-! What a check says about the nodes of a layout without errors: at every place what there is to say about
the node that stands there. A prop that its component does not declare is a warning, and no more. -/
namespace Wireframe.Layout

variable {l : Layout} {limit : Quantity} {withProps : Bool} {r c : Ref} {n : Node} {f : Finding}
variable {place : Place} {id : Nat} {unseen above : List Nat} {tasks : List Task} {name : String} {v : Value}

/-- A walk without errors comes to each place that its tasks lead to. -/
theorem mem_walk_of_leads (h : Faultless (walk l limit withProps unseen above tasks)) :
    ∀ place c id n, Leads l tasks place c → l.node? c = some (id, n) →
      ∀ f ∈ n.findings withProps place, f ∈ walk l limit withProps unseen above tasks := by
  induction unseen, above, tasks using walk.induct l with
  | case1 =>
    rintro place c id n ⟨r, p, x, hmem, -⟩
    cases hmem
  | case2 unseen above id rest ih =>
    rw [walk] at h ⊢
    exact fun place c k n hc => ih h place c k n (leads_leave.mp hc)
  | case3 unseen above r place rest hn ih =>
    obtain ⟨_, _, _, hn', _⟩ := faultless_enter h
    rw [hn] at hn'
    cases hn'
  | case4 unseen above r place rest id n hn habove ih =>
    obtain ⟨_, _, _, hn', hnot, _⟩ := faultless_enter h
    rw [hn] at hn'
    cases hn'
    exact (hnot habove).elim
  | case5 unseen above r place rest id n hn habove hunseen ihleaf ihinner =>
    obtain ⟨_, _, _, hn', -, -, -, -, hwalk⟩ := faultless_enter h
    rw [hn] at hn'
    cases hn'
    rw [walk, hn]
    simp only [if_neg habove, if_pos hunseen]
    intro q c k m hc hm f hf
    rcases leads_enter hn hc with ⟨rfl, rfl⟩ | hc
    · rw [hn] at hm
      cases hm
      exact List.mem_append_left _ hf
    · refine List.mem_append_right _ ?_
      by_cases hleaf : n.childList = []
      · have hrest : Faultless (walk l limit withProps (unseen.erase id) above rest) := by
          rcases hwalk with ⟨-, hrest⟩ | ⟨-, hrest⟩
          · exact hrest
          · rw [hleaf] at hrest
            simpa [childTasks, walk] using hrest
        rw [hleaf] at hc ⊢
        exact ihleaf hrest q c k m (leads_leave.mp hc) hm f hf
      · rcases hwalk with ⟨hnone, -⟩ | ⟨hroom, hrest⟩
        · exact (hleaf hnone).elim
        · rw [if_neg (by simpa using hleaf), if_neg (Bool.eq_false_iff.mp hroom)]
          exact ihinner hrest q c k m hc hm f hf
  | case6 unseen above r place rest id n hn habove hunseen ih =>
    obtain ⟨_, _, _, hn', -, hin, _⟩ := faultless_enter h
    rw [hn] at hn'
    cases hn'
    exact (hunseen hin).elim

theorem mem_findings_of_isValid (h : (l.check limit withProps).isValid = true)
    (hn : l.nodeAt? place = some (id, n)) :
    ∀ f ∈ n.findings withProps place, f ∈ (l.check limit withProps).findings := by
  obtain ⟨c, hc, hnode⟩ := Option.bind_eq_some_iff.mp hn
  exact mem_walk_of_leads (faultless_of_isValid h) place c id n (leads_root.mpr hc) hnode

/-- The component of a node. -/
def Node.component? (n : Node) : Option Component := n.type.text?.bind Component.find?

theorem undeclared_mem_propFindings {k : Component} (hk : n.component? = some k)
    (hv : (name, v) ∈ n.props.getD []) (hname : name ∉ k.props) :
    .props (k.undeclaredWarning name) place ∈ n.propFindings place := by
  have hmem : name ∈ (Component.sortNames ((n.props.getD []).map (·.1))).filter
      fun p => !k.props.contains p := by
    refine List.mem_filter.mpr ⟨(List.mergeSort_perm _ _).mem_iff.mpr (List.mem_map_of_mem hv), ?_⟩
    simpa using hname
  rw [Node.propFindings, show n.type.text?.bind Component.find? = some k from hk]
  exact List.mem_map_of_mem (List.mem_append_right _ (List.mem_map_of_mem hmem))

/-- In a layout without errors an undeclared prop is warned of at its place. -/
theorem undeclared_mem_warnings (h : (l.check limit true).isValid = true)
    (hn : l.nodeAt? place = some (id, n)) (hv : (name, v) ∈ n.props.getD []) :
    ∃ k ∈ Component.all, n.component? = some k ∧ (name ∉ k.props →
      (Finding.props (k.undeclaredWarning name) place).message ∈ (l.check limit true).warnings) := by
  have hreg := (treelike_of_isValid h).known place id n hn
  have hfound : (n.component?).isSome = true := by
    obtain ⟨type, htype, hknown⟩ := (Option.any_eq_true _ _).mp hreg
    rw [Node.component?, htype]
    exact hknown
  obtain ⟨k, hk⟩ := Option.isSome_iff_exists.mp hfound
  obtain ⟨type, -, hfind⟩ := Option.bind_eq_some_iff.mp hk
  refine ⟨k, List.mem_of_find?_eq_some hfind, hk, fun hname => ?_⟩
  have hmem : .props (k.undeclaredWarning name) place ∈ n.propFindings place :=
    undeclared_mem_propFindings hk hv hname
  have hall : .props (k.undeclaredWarning name) place ∈ n.findings true place := by
    rw [Node.findings, if_pos hreg]
    exact hmem
  have hfinding := mem_findings_of_isValid h hn _ hall
  exact List.mem_map_of_mem (List.mem_filter.mpr ⟨hfinding, rfl⟩)

end Wireframe.Layout
