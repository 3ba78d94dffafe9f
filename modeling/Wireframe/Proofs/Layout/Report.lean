import Wireframe.Proofs.Layout.Numbering
import Wireframe.Proofs.Layout.Walk

/-! The report on a tree. The walk keeps a list of tasks; what it finds is what a recursion over the tree
says, node by node. -/
namespace Wireframe

variable {α β : Type} {t u : Tree} {cs : List Tree} {l : Layout} {limit : Quantity} {withProps : Bool}
variable {r : Layout.Ref} {place : Layout.Place} {id i k levels : Nat} {unseen above : List Nat}
variable {rest : List Layout.Task} {rs : List Layout.Ref}
variable {here : Layout.Place → Tree → List α} {cut : Layout.Place → List α}

/-- The name that a finding says no component has. -/
def Finding.unknownName? : Finding → Option String
  | unknownComponent type _ => type.text?
  | _ => none

namespace Tree

mutual

/-- What there is to say at the nodes of a tree, at each before its children. Where the bound leaves no room
for the children of a node, that is said in their place. -/
def survey (limit : Quantity) (here : Layout.Place → Tree → List α) (cut : Layout.Place → List α)
    (place : Layout.Place) : Tree → List α
  | node type props none => here place (node type props none)
  | node type props (some cs) =>
    here place (node type props (some cs)) ++
      if cs.isEmpty then []
      else if limit.isReachedBy (place.length + 1) then cut place
      else surveyAll limit here cut place 0 cs

def surveyAll (limit : Quantity) (here : Layout.Place → Tree → List α) (cut : Layout.Place → List α)
    (place : Layout.Place) (i : Nat) : List Tree → List α
  | [] => []
  | c :: cs => survey limit here cut (place ++ [i]) c ++ surveyAll limit here cut place (i + 1) cs

end

theorem survey_eq (here : Layout.Place → Tree → List α) (cut : Layout.Place → List α)
    (place : Layout.Place) (t : Tree) :
    t.survey limit here cut place = here place t ++
      if t.childList.isEmpty then []
      else if limit.isReachedBy (place.length + 1) then cut place
      else surveyAll limit here cut place 0 t.childList := by
  obtain ⟨type, props, children⟩ := t
  cases children with
  | none => rw [survey]; exact (List.append_nil _).symm
  | some cs => rw [survey]; rfl

/-- The errors at a node that do not concern its children. -/
def ownErrors (place : Layout.Place) (t : Tree) : List Finding :=
  if Component.isRegistered t.type then [] else [.unknownComponent (.text t.type) place]

/-- What the contract of its component says about the props of a node. -/
def ownPropFindings (place : Layout.Place) (t : Tree) : List Finding :=
  match Component.find? t.type with
  | none => []
  | some c =>
    let report := c.checkProps (t.props.getD []) (!t.childList.isEmpty)
    (report.errors ++ report.warnings).map fun message => .props message place

/-- The errors of a tree: unknown types, and nodes whose children the bound leaves no room for. -/
def errors (limit : Quantity) (t : Tree) : List Finding :=
  t.survey limit ownErrors (fun place => [.tooDeep limit place]) []

/-- The findings about the props of the nodes that a check of a tree comes to. -/
def propFindings (limit : Quantity) (t : Tree) : List Finding :=
  t.survey limit ownPropFindings (fun _ => []) []

/-- The names that no component has, each once and in the order in which the errors come to it. -/
def unknownNames (limit : Quantity) (t : Tree) : List String :=
  ((t.errors limit).filterMap Finding.unknownName?).eraseDups

mutual

/-- A tree without its props. -/
def bare : Tree → Tree
  | node type _ none => node type none none
  | node type _ (some cs) => node type none (some (bareAll cs))

def bareAll : List Tree → List Tree
  | [] => []
  | c :: cs => bare c :: bareAll cs

end

theorem bareAll_eq_map (cs : List Tree) : bareAll cs = cs.map bare := by
  induction cs with
  | nil => rfl
  | cons c cs ih => rw [bareAll, ih, List.map_cons]

theorem type_bare (t : Tree) : t.bare.type = t.type := by
  obtain ⟨type, props, children⟩ := t
  cases children <;> rfl

theorem childList_bare (t : Tree) : t.bare.childList = t.childList.map bare := by
  obtain ⟨type, props, children⟩ := t
  cases children with
  | none => rfl
  | some cs => rw [bare, bareAll_eq_map]; rfl

/-- What children say one by one they say one after the other. -/
theorem surveyAll_of_children {f : List α → List β} {g : Tree → Tree} {here' : Layout.Place → Tree → List β}
    {cut' : Layout.Place → List β} {cs : List Tree} (hnil : f [] = []) (happend : ∀ a b, f (a ++ b) = f a ++ f b)
    (h : ∀ c ∈ cs, ∀ place, f (survey limit here cut place c) = survey limit here' cut' place (g c))
    (place : Layout.Place) :
    ∀ i, f (surveyAll limit here cut place i cs) = surveyAll limit here' cut' place i (cs.map g) := by
  induction cs with
  | nil => exact fun _ => hnil
  | cons c cs ih =>
    intro i
    rw [List.map_cons, surveyAll, surveyAll, happend, h c List.mem_cons_self,
      ih (fun d hd => h d (List.mem_cons_of_mem _ hd)) (i + 1)]

/-- What is kept of each saying, where nothing is lost between them. -/
theorem survey_map {f : List α → List β} (hnil : f [] = []) (happend : ∀ a b, f (a ++ b) = f a ++ f b)
    (limit : Quantity) (here : Layout.Place → Tree → List α) (cut : Layout.Place → List α) (t : Tree) :
    ∀ place, f (t.survey limit here cut place)
      = t.survey limit (fun place t => f (here place t)) (fun place => f (cut place)) place := by
  induction t using Tree.induction_on_children with
  | h t ih =>
    intro place
    have hall := surveyAll_of_children (g := id) hnil happend ih place 0
    rw [List.map_id] at hall
    rw [survey_eq, survey_eq, happend]
    congr 1
    split
    · exact hnil
    · split
      · rfl
      · exact hall

theorem forall_mem_survey {P : α → Prop} (hhere : ∀ place t, ∀ a ∈ here place t, P a)
    (hcut : ∀ place, ∀ a ∈ cut place, P a) (t : Tree) (place : Layout.Place) :
    ∀ a ∈ t.survey limit here cut place, P a := by
  classical
  have hkept := survey_map (f := List.filter fun a => P a) rfl (fun _ _ => List.filter_append _ _) limit here
    cut t place
  have hall : ∀ place t, (here place t).filter (fun a => P a) = here place t := fun place t =>
    List.filter_eq_self.mpr fun a ha => decide_eq_true (hhere place t a ha)
  have hcut' : ∀ place, (cut place).filter (fun a => P a) = cut place := fun place =>
    List.filter_eq_self.mpr fun a ha => decide_eq_true (hcut place a ha)
  simp only [hall, hcut'] at hkept
  intro a ha
  exact of_decide_eq_true (List.filter_eq_self.mp hkept a ha)

/-- What is said without a look at the props does not depend on them. -/
theorem survey_bare (hbare : ∀ place t, here place (bare t) = here place t) (t : Tree) :
    ∀ place, t.bare.survey limit here cut place = t.survey limit here cut place := by
  induction t using Tree.induction_on_children with
  | h t ih =>
    intro place
    have hall := surveyAll_of_children (f := id) (g := bare) rfl (fun _ _ => rfl)
      (fun c hc place => (ih c hc place).symm) place 0
    rw [survey_eq, survey_eq, hbare, childList_bare, ← hall, List.isEmpty_map]
    rfl

theorem errors_bare (limit : Quantity) (t : Tree) : t.bare.errors limit = t.errors limit :=
  survey_bare (fun place t => by rw [ownErrors, ownErrors, type_bare]) t []

theorem surveyAll_eq_nil (h : ∀ c ∈ cs, ∀ i, c.survey limit here cut (place ++ [i]) = []) :
    ∀ i, surveyAll limit here cut place i cs = [] := by
  induction cs with
  | nil => exact fun _ => rfl
  | cons c cs ih =>
    obtain ⟨hc, hcs⟩ := List.forall_mem_cons.mp h
    intro i
    rw [surveyAll, hc, ih hcs, List.append_nil]

/-- Nothing is wrong with a tree of known components for which there is room. -/
theorem errors_eq_nil {bound : Int} (hreg : Markup.Registered t) (hroom : t.height ≤ bound) :
    t.errors (.whole bound) = [] := by
  suffices h : ∀ place : Layout.Place, place.length + t.height ≤ bound →
      t.survey (.whole bound) ownErrors (fun place => [.tooDeep (.whole bound) place]) place = [] from
    h [] (by simpa using hroom)
  clear hroom
  induction t using Tree.induction_on_children with
  | h t ih =>
    intro place hroom
    rw [survey_eq, ownErrors, if_pos hreg.type, List.nil_append]
    split
    · rfl
    · rename_i hne
      obtain ⟨c, cs, hcs⟩ := List.exists_cons_of_ne_nil (mt List.isEmpty_iff.mpr hne)
      have hhigh : 1 < t.height :=
        Nat.lt_of_le_of_lt c.height_pos (height_lt_of_mem (hcs ▸ List.mem_cons_self))
      rw [Layout.isReachedBy_whole, if_neg (by simp only [decide_eq_true_eq]; omega)]
      refine surveyAll_eq_nil (fun c hc i => ih c hc (hreg.children c hc) _ ?_) 0
      have hlow := height_lt_of_mem hc
      rw [List.length_append, List.length_singleton]
      omega

end Tree

namespace Layout

/-- The nodes at a place and below it are yet to be seen. -/
def Fresh (l : Layout) (unseen above : List Nat) (place : Place) : Prop :=
  ∀ x id n, l.nodeAt? (place ++ x) = some (id, n) → id ∈ unseen ∧ id ∉ above

/-- What was unseen is so still, but for nodes at a place and below it. -/
def Spares (l : Layout) (place : Place) (unseen left : List Nat) : Prop :=
  ∀ id ∈ unseen, (∀ x n, l.nodeAt? (place ++ x) ≠ some (id, n)) → id ∈ left

/-- What the walk says at a node. -/
def sayings (withProps : Bool) (place : Place) (t : Tree) : List Finding :=
  if Component.isRegistered t.type then if withProps then t.ownPropFindings place else []
  else [.unknownComponent (.text t.type) place]

theorem Node.findings_eq {n : Node} (htype : n.type = .text t.type) (hprops : t.props = n.props)
    (hempty : n.childList.isEmpty = t.childList.isEmpty) (withProps : Bool) (place : Place) :
    n.findings withProps place = sayings withProps place t := by
  rw [Node.findings, sayings, Node.isRegistered, Node.propFindings, Tree.ownPropFindings, htype, hprops,
    hempty]
  rfl

/-- A node has been entered. -/
theorem spares_erase {n : Node} (hn : l.nodeAt? place = some (id, n)) :
    l.Spares place unseen (unseen.erase id) := by
  intro k hk hnot
  refine (List.mem_erase_of_ne ?_).mpr hk
  rintro rfl
  exact hnot [] n (by rw [List.append_nil, hn])

theorem Spares.trans {left last : List Nat} (h : l.Spares place unseen left)
    (hlast : l.Spares place left last) : l.Spares place unseen last :=
  fun id hid hnot => hlast id (h id hid hnot) hnot

theorem Spares.below {left : List Nat} (h : l.Spares (place ++ [i]) unseen left) :
    l.Spares place unseen left := by
  intro id hid hnot
  refine h id hid fun x n => ?_
  rw [List.append_assoc]
  exact hnot _ n

/-- Below a node there are new ones, when it is new itself. -/
theorem Fresh.children {n : Node} (hd : l.Distinct) (h : l.Fresh unseen above place)
    (hn : l.nodeAt? place = some (id, n)) (i : Nat) :
    l.Fresh (unseen.erase id) (id :: above) (place ++ [i]) := by
  intro x k m hm
  have hne : k ≠ id := by
    rintro rfl
    have hplace := hd _ _ k n m hn hm
    rw [List.append_assoc] at hplace
    cases List.self_eq_append_right.mp hplace
  rw [List.append_assoc] at hm
  obtain ⟨hunseen, habove⟩ := h _ k m hm
  exact ⟨(List.mem_erase_of_ne hne).mpr hunseen, List.not_mem_cons_of_ne_of_not_mem hne habove⟩

/-- A later sibling is still new. -/
theorem Fresh.sibling {left : List Nat} (hd : l.Distinct) (hik : i ≠ k)
    (h : l.Fresh unseen above (place ++ [k])) (hleft : l.Spares (place ++ [i]) unseen left) :
    l.Fresh left above (place ++ [k]) := by
  intro x id m hm
  obtain ⟨hunseen, habove⟩ := h x id m hm
  refine ⟨hleft id hunseen fun y n hn => ?_, habove⟩
  have hplace := hd _ _ id n m hn hm
  rw [List.append_assoc, List.append_assoc, List.append_cancel_left_eq] at hplace
  exact hik (List.cons.inj hplace).1

/-- A walk comes from some tasks to the rest of them with these findings, and meets no nodes but those at a
place and below it. -/
def Passes (l : Layout) (limit : Quantity) (withProps : Bool) (place : Place) (unseen above : List Nat)
    (tasks rest : List Task) (fs : List Finding) : Prop :=
  ∃ left, walk l limit withProps unseen above tasks = fs ++ walk l limit withProps left above rest
    ∧ l.Spares place unseen left

/-- What the walk says at the children of a node is what is said at each of them. -/
theorem passes_children (hd : l.Distinct)
    (ih : ∀ c ∈ cs, ∀ r place unseen rest, l.tree? levels r = some c → l.at? place = some r →
      l.Fresh unseen above place → l.Passes limit withProps place unseen above (.enter r place :: rest)
        rest (c.survey limit (sayings withProps) (fun place => [.tooDeep limit place]) place))
    (hcs : List.Forall₂ (fun r c => l.tree? levels r = some c) rs cs) (k : Nat)
    (hat : ∀ i r, rs[i]? = some r → l.at? (place ++ [k + i]) = some r)
    (hfresh : ∀ i, l.Fresh unseen above (place ++ [k + i])) :
    l.Passes limit withProps place unseen above
      (rs.mapIdx (fun i c => .enter c (place ++ [k + i])) ++ rest) rest
      (Tree.surveyAll limit (sayings withProps) (fun place => [.tooDeep limit place]) place k cs) := by
  induction hcs generalizing k unseen with
  | nil => exact ⟨unseen, rfl, fun _ hid _ => hid⟩
  | @cons r c rs cs hr _ ihs =>
    obtain ⟨left, hfirst, hleft⟩ := ih c List.mem_cons_self r (place ++ [k]) unseen
      (rs.mapIdx (fun i c => .enter c (place ++ [k + 1 + i])) ++ rest) hr (hat 0 r rfl) (hfresh 0)
    have hat' : ∀ i r, rs[i]? = some r → l.at? (place ++ [k + 1 + i]) = some r := by
      intro i r hi
      rw [Nat.add_right_comm]
      exact hat (i + 1) r hi
    have hfresh' : ∀ i, l.Fresh left above (place ++ [k + 1 + i]) := by
      intro i
      have hlater := hfresh (i + 1)
      rw [Nat.add_comm i 1, ← Nat.add_assoc] at hlater
      exact hlater.sibling hd (by omega) hleft
    obtain ⟨last, hothers, hlast⟩ := ihs (fun c hc => ih c (List.mem_cons_of_mem _ hc)) (k + 1) hat' hfresh'
    refine ⟨last, ?_, hleft.below.trans hlast⟩
    have htasks : (fun i c => Task.enter c (place ++ [k + (i + 1)]))
        = fun i c => .enter c (place ++ [k + 1 + i]) := by
      funext i c
      rw [Nat.add_comm i 1, ← Nat.add_assoc]
    rw [List.mapIdx_cons, htasks, List.cons_append, Nat.add_zero, hfirst, hothers, Tree.surveyAll,
      List.append_assoc]

/-- Where a reference leads to a tree of new nodes, a walk says about them what a survey of the tree does. -/
theorem passes_tree (hd : l.Distinct) (t : Tree) : ∀ levels r place unseen above rest,
    l.tree? levels r = some t → l.at? place = some r → l.Fresh unseen above place →
    l.Passes limit withProps place unseen above (.enter r place :: rest) rest
      (t.survey limit (sayings withProps) (fun place => [.tooDeep limit place]) place) := by
  induction t using Tree.induction_on_children with
  | h t ih =>
    intro levels r place unseen above rest ht hr hfresh
    obtain ⟨levels, rfl⟩ : ∃ k, levels = k + 1 := by
      cases levels with
      | zero => cases ht
      | succ k => exact ⟨k, rfl⟩
    obtain ⟨id, n, hn, htype, hprops, hcs⟩ := exists_node_of_tree? ht
    have hnode : l.nodeAt? place = some (id, n) := nodeAt?_of_at? hr hn
    obtain ⟨hunseen, habove⟩ := hfresh [] id n (by rw [List.append_nil, hnode])
    have hempty : n.childList.isEmpty = t.childList.isEmpty := by
      rw [Bool.eq_iff_iff, List.isEmpty_iff_length_eq_zero, List.isEmpty_iff_length_eq_zero, hcs.length_eq]
    have hchildren : l.Passes limit withProps place (unseen.erase id) (id :: above)
        (n.childList.mapIdx (fun i c => .enter c (place ++ [0 + i])) ++ .leave id :: rest) (.leave id :: rest)
        (Tree.surveyAll limit (sayings withProps) (fun place => [.tooDeep limit place]) place 0 t.childList) :=
      passes_children hd (fun c hc r place unseen rest => ih c hc levels r place unseen (id :: above) rest)
        hcs 0 (fun i r hi => by rw [Nat.zero_add, at?_child hnode, hi])
        fun i => by rw [Nat.zero_add]; exact hfresh.children hd hnode i
    rw [Passes, walk, hn, Tree.survey_eq]
    simp only [if_neg habove, if_pos hunseen, Node.findings_eq htype hprops hempty, hempty]
    split
    · exact ⟨unseen.erase id, by simp, spares_erase hnode⟩
    · split
      · exact ⟨unseen.erase id, by simp, spares_erase hnode⟩
      · obtain ⟨left, hwalk, hleft⟩ := hchildren
        refine ⟨left, ?_, (spares_erase hnode).trans hleft⟩
        rw [walk, List.erase_cons_head] at hwalk
        simpa [childTasks] using hwalk

/-- The findings about a tree. -/
theorem findings_check (h : l.Unfolds t) (hd : l.Distinct) :
    (l.check limit withProps).findings
      = t.survey limit (sayings withProps) (fun place => [.tooDeep limit place]) [] := by
  obtain ⟨levels, ht⟩ := h
  have hfresh : l.Fresh (List.range l.nodes.size) [] [] := by
    intro x id n hn
    refine ⟨List.mem_range.mpr ?_, List.not_mem_nil⟩
    exact (Array.getElem?_eq_some_iff.mp (nodes_of_nodeAt? hn)).1
  have hwalk : l.Passes limit withProps [] (List.range l.nodes.size) [] [.enter l.root []] [] _ :=
    passes_tree hd t levels l.root [] (List.range l.nodes.size) [] [] ht rfl hfresh
  obtain ⟨left, hfindings, -⟩ := hwalk
  rw [check, hfindings, walk, List.append_nil]

theorem filter_sayings (place : Place) (t : Tree) :
    (sayings withProps place t).filter (·.isError) = t.ownErrors place := by
  have hprops : (t.ownPropFindings place).filter (·.isError) = [] := by
    rw [Tree.ownPropFindings]
    split
    · rfl
    · simp [List.filter_map, Finding.isError, Function.comp_def]
  rw [sayings, Tree.ownErrors]
  split
  · split
    · exact hprops
    · rfl
  · rfl

theorem errors_check (h : l.Unfolds t) (hd : l.Distinct) :
    (l.check limit withProps).errors = t.errors limit := by
  rw [LayoutReport.errors, findings_check h hd,
    Tree.survey_map (f := List.filter Finding.isError) rfl (fun _ _ => List.filter_append _ _), Tree.errors]
  congr 1
  funext place t
  exact filter_sayings place t

theorem filter_not_sayings (place : Place) (t : Tree) :
    (sayings withProps place t).filter (fun f => !f.isError)
      = if withProps then t.ownPropFindings place else [] := by
  have hprops : (t.ownPropFindings place).filter (fun f => !f.isError) = t.ownPropFindings place := by
    rw [Tree.ownPropFindings]
    split
    · rfl
    · simp [List.filter_map, Finding.isError, Function.comp_def]
  rw [sayings]
  split
  · split
    · exact hprops
    · rfl
  · rename_i hreg
    have hnone : Component.find? t.type = none := by simpa [Component.isRegistered] using hreg
    rw [Tree.ownPropFindings, hnone]
    split <;> rfl

theorem warnings_check (h : l.Unfolds t) (hd : l.Distinct) :
    (l.check limit withProps).warnings
      = if withProps then (t.propFindings limit).map Finding.message else [] := by
  have hfilter : (fun place t => (sayings withProps place t).filter fun f => !f.isError)
      = fun place t => if withProps then Tree.ownPropFindings place t else [] := by
    funext place t
    exact filter_not_sayings place t
  have hkept : (l.check limit withProps).findings.filter (fun f => !f.isError)
      = t.survey limit (fun place t => if withProps then Tree.ownPropFindings place t else [])
          (fun _ => []) [] := by
    rw [findings_check h hd, Tree.survey_map (f := List.filter fun f => !Finding.isError f) rfl
      (fun _ _ => List.filter_append _ _), hfilter]
    rfl
  rw [LayoutReport.warnings, hkept]
  cases withProps with
  | true => rfl
  | false =>
    have hnone := Tree.survey_map (f := fun _ : List Finding => ([] : List Finding)) rfl (fun _ _ => rfl)
      limit (fun _ _ => []) (fun _ => []) t []
    simp only [Bool.false_eq_true, if_false]
    rw [← hnone]
    rfl

/-- Names that are added unless they are there already. -/
theorem foldl_add_eq_eraseDups (names : List String) : ∀ known : List String,
    names.foldl (fun known s => if s ∈ known then known else known ++ [s]) known
      = known ++ (names.filter (· ∉ known)).eraseDups := by
  induction names with
  | nil => intro known; simp
  | cons s names ih =>
    intro known
    rw [List.foldl_cons, ih]
    by_cases hs : s ∈ known
    · simp [hs]
    · rw [if_neg hs, List.filter_cons_of_pos (by simpa using hs), List.eraseDups_cons, List.append_assoc,
        List.filter_filter, List.singleton_append]
      simp [Bool.beq_eq_decide_eq, Bool.and_comm]

/-- The unknown types with the one that a finding names. -/
def noteUnknown (types : List Value) (f : Finding) : List Value :=
  match f with
  | .unknownComponent type _ => if types.any (·.same type) then types else types ++ [type]
  | _ => types

theorem unknownTypes_eq (report : LayoutReport) :
    report.unknownTypes = report.findings.foldl noteUnknown [] := rfl

theorem noteUnknown_text (known : List String) (s : String) (place : Place) :
    noteUnknown (known.map .text) (.unknownComponent (.text s) place)
      = (if s ∈ known then known else known ++ [s]).map .text := by
  have hknown : (known.map Value.text).any (·.same (.text s)) = decide (s ∈ known) := by
    rw [Bool.eq_iff_iff]
    simp [Value.same]
  rw [noteUnknown, hknown]
  by_cases hs : s ∈ known <;> simp [hs]

/-- Types that are texts are collected by name. -/
theorem foldl_noteUnknown {fs : List Finding}
    (h : ∀ type place, .unknownComponent type place ∈ fs → ∃ s, type = .text s) : ∀ known : List String,
    fs.foldl noteUnknown (known.map .text)
      = ((fs.filterMap Finding.unknownName?).foldl
          (fun known s => if s ∈ known then known else known ++ [s]) known).map .text := by
  induction fs with
  | nil => exact fun _ => rfl
  | cons f fs ih =>
    intro known
    have hfs := ih fun type place hmem => h type place (List.mem_cons_of_mem _ hmem)
    cases f with
    | unknownComponent type place =>
      obtain ⟨s, rfl⟩ := h type place List.mem_cons_self
      rw [List.foldl_cons, noteUnknown_text, hfs]
      rfl
    | _ => exact hfs known

/-- The types in the findings about a tree are texts. -/
theorem exists_text_of_mem_findings (h : l.Unfolds t) (hd : l.Distinct) :
    ∀ f ∈ (l.check limit withProps).findings, ∀ type place, f = .unknownComponent type place →
      ∃ s, type = .text s := by
  rw [findings_check h hd]
  refine Tree.forall_mem_survey (fun place t f hf type place' heq => ?_) (fun place f hf type _ heq => ?_) t []
  · subst heq
    rw [sayings] at hf
    split at hf
    · split at hf
      · rw [Tree.ownPropFindings] at hf
        split at hf
        · cases hf
        · obtain ⟨message, -, hmessage⟩ := List.mem_map.mp hf
          cases hmessage
      · cases hf
    · cases List.mem_singleton.mp hf
      exact ⟨t.type, rfl⟩
  · subst heq
    cases List.mem_singleton.mp hf

theorem keyless?_check_tree (h : l.Unfolds t) (hd : l.Distinct) :
    (l.check limit withProps).keyless? = none := by
  rw [LayoutReport.keyless?, List.findSome?_eq_none_iff]
  intro f hf
  cases f with
  | unknownComponent type place =>
    obtain ⟨s, rfl⟩ := exists_text_of_mem_findings h hd _ hf type place rfl
    rfl
  | _ => rfl

theorem unknownTypes_check (h : l.Unfolds t) (hd : l.Distinct) :
    (l.check limit withProps).unknownTypes = (t.unknownNames limit).map .text := by
  have hnames : (l.check limit withProps).findings.filterMap Finding.unknownName?
      = (t.errors limit).filterMap Finding.unknownName? := by
    rw [← errors_check h hd, LayoutReport.errors, List.filterMap_filter]
    refine List.filterMap_congr fun f _ => ?_
    cases f <;> rfl
  rw [unknownTypes_eq, ← List.map_nil (f := Value.text), foldl_noteUnknown
    (fun type place hf => exists_text_of_mem_findings h hd _ hf type place rfl), foldl_add_eq_eraseDups, hnames]
  simp [Tree.unknownNames]

/-- Whatever a tree of distinct nodes is like, the report on it is what the recursion says: all errors in
their order, each unknown name once, and the warnings of the nodes that were come to. But for the warnings
neither the props nor the wish to check them matter. -/
theorem check_of_unfolds (h : l.Unfolds t) (hd : l.Distinct) (limit : Quantity) (withProps : Bool) :
    (l.check limit withProps).errors = t.errors limit
      ∧ (l.check limit withProps).unknownTypes = (t.unknownNames limit).map .text
      ∧ (l.check limit withProps).warnings
        = (if withProps then (t.propFindings limit).map Finding.message else [])
      ∧ (l.check limit withProps).keyless? = none
      ∧ l.isValid limit = (l.check limit withProps).isValid
      ∧ ∀ (l' : Layout) (u : Tree) (withProps' : Bool), l'.Unfolds u → l'.Distinct → u.bare = t.bare →
        (l'.check limit withProps').isValid = (l.check limit withProps).isValid
          ∧ (l'.check limit withProps').errors = (l.check limit withProps).errors
          ∧ (l'.check limit withProps').unknownTypes = (l.check limit withProps).unknownTypes := by
  refine ⟨errors_check h hd, unknownTypes_check h hd, warnings_check h hd, keyless?_check_tree h hd, ?_,
    fun l' u withProps' hu hd' hbare => ?_⟩
  · rw [isValid, LayoutReport.isValid, LayoutReport.isValid, errors_check h hd, errors_check h hd]
  · have herrors : u.errors limit = t.errors limit := by
      rw [← Tree.errors_bare, hbare, Tree.errors_bare]
    rw [LayoutReport.isValid, LayoutReport.isValid, errors_check h hd, errors_check hu hd',
      unknownTypes_check h hd, unknownTypes_check hu hd', Tree.unknownNames, Tree.unknownNames, herrors]
    exact ⟨rfl, rfl, rfl⟩

/-- A card with an unknown node around another one, once more an unknown node, and a button without text, in a
variant that there is not. -/
def crowded : Tree :=
  .node "Card" none (some [
    .node "Widget" none (some [.node "Gadget" none none]), .node "Widget" none (some []),
    .node "Button" (some [("variant", .text "loud")]) none])

/-- With room for two levels, the inner unknown node is not come to. -/
theorem check_crowded : (ofTree crowded).Unfolds crowded ∧ (ofTree crowded).Distinct
    ∧ ((ofTree crowded).check (.whole 2) true).errors
      = [.unknownComponent (.text "Widget") [0], .tooDeep (.whole 2) [0],
        .unknownComponent (.text "Widget") [1]]
    ∧ ((ofTree crowded).check (.whole 2) true).unknownTypes = [.text "Widget"]
    ∧ ((ofTree crowded).check (.whole 2) true).warnings
      = ["root.children[2]: Required prop 'children' missing for component 'Button'.",
        "root.children[2]: Invalid value 'loud' for prop 'variant' in component 'Button'. "
          ++ "Allowed values: primary, secondary, outline, danger"] := by
  obtain ⟨herrors, htypes, hwarnings, -⟩ :=
    check_of_unfolds (unfolds_ofTree crowded) (distinct_ofTree crowded) (.whole 2) true
  have hsingle : ∀ s, Component.sortNames [s] = [s] := fun s => List.mergeSort_singleton s
  have hneeded : Component.card.required = ["children"] ∧ Component.button.required = ["children"] := ⟨rfl, rfl⟩
  have hcard : Component.card.checkProps [] true = ⟨[], []⟩ := by
    rw [Component.checkProps, Component.missingErrors, hneeded.1, hsingle, List.map_nil, Component.sortNames,
      List.mergeSort_nil]
    decide +kernel
  have hbutton : Component.button.checkProps [("variant", .text "loud")] false
      = ⟨["Required prop 'children' missing for component 'Button'.",
        "Invalid value 'loud' for prop 'variant' in component 'Button'. "
          ++ "Allowed values: primary, secondary, outline, danger"], []⟩ := by
    rw [Component.checkProps, Component.missingErrors, hneeded.2, hsingle, List.map_singleton, hsingle]
    decide +kernel
  have hfound : crowded.propFindings (.whole 2)
      = ((Component.card.checkProps [] true).errors ++ (Component.card.checkProps [] true).warnings).map
          (.props · [])
        ++ (((Component.button.checkProps [("variant", .text "loud")] false).errors
          ++ (Component.button.checkProps [("variant", .text "loud")] false).warnings).map (.props · [2])
            ++ []) := rfl
  refine ⟨unfolds_ofTree crowded, distinct_ofTree crowded, ?_, ?_, ?_⟩
  · rw [herrors]
    rfl
  · rw [htypes]
    rfl
  · rw [hwarnings, hfound, hcard, hbutton]
    decide +kernel

end Layout

end Wireframe
