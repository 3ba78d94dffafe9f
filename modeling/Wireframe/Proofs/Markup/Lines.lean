import Wireframe.Proofs.Json.Literal
import Wireframe.Proofs.Layout.Size
import Wireframe.Proofs.Markup.Recursion
import Wireframe.Source

/-! The markup of accepted nodes. When it is made, the layout unfolds to a tree, and only the tree
counts. -/
namespace Wireframe.Markup
open Outcome

variable {bounds : Json.Bounds} {t : Tree} {l : Layout} {r : Layout.Ref} {limit : Quantity} {n level : Nat}
variable {v : Value} {e : String × Value} {props : Option Props} {lines : List Line}

/-- What stands after the equals sign of an attribute. -/
def valueText : Value → List Char
  | .text s =>
    if isPlainAttribute s.toList then '"' :: (s.toList ++ ['"']) else braced (spellText s.toList)
  | v => braced (spell v)

def attributeOf (e : String × Value) : List Char := e.1.toList ++ '=' :: valueText e.2

/-- The attributes of a node in the order of their names. -/
def sortedAttributes (props : Option Props) : Props :=
  Text.sortByText (·.1.toList) (Props.attributes props)

def attributesOf (props : Option Props) : List Char :=
  (sortedAttributes props).flatMap fun e => ' ' :: attributeOf e

def contentOf (s : String) : List Char :=
  if isPlainContent s.toList then s.toList else braced (spellText s.toList)

/-- What keeps a value from being a literal. -/
def literalFault? (bounds : Json.Bounds) (v : Value) : Option MarkupError :=
  match literal bounds v with
  | .ok _ => none
  | .error e => some e

/-- Why a node has no attributes: what keeps the first of them from being a literal. -/
def attributeFault? (bounds : Json.Bounds) (props : Option Props) : Option MarkupError :=
  (sortedAttributes props).findSome? fun e => literalFault? bounds e.2

theorem literal_eq (h : v.Closed) : literal bounds v = ofFault (literalFault? bounds v) (spell v) := by
  rw [literalFault?]
  cases hliteral : literal bounds v with
  | ok text => rw [((literal_eq_ok_iff h).mp hliteral).2]; rfl
  | error e => rfl

theorem literalFault?_eq_none_iff (h : v.Closed) : literalFault? bounds v = none ↔ v.Fits bounds := by
  constructor
  · intro hnone
    have hliteral : literal bounds v = .ok (spell v) := by rw [literal_eq h, hnone]; rfl
    exact ((literal_eq_ok_iff h).mp hliteral).1
  · intro hfits
    rw [literalFault?, literal_eq_spell h hfits]

/-- Where there is room for the containers, a literal may have too many digits, but is not too deep. -/
theorem literalFault?_ne_overflow (h : v.Closed) (hroom : v.Fits ⟨none, bounds.room⟩) :
    literalFault? bounds v ≠ some .overflow := by
  intro hfault
  rw [literalFault?, literal] at hfault
  cases hw : Json.write (.literal bounds) 0 v with
  | ok text =>
    rw [hw] at hfault
    cases hfault
  | error fault =>
    rw [hw] at hfault
    cases fault with
    | tooNested => exact write_ne_tooNested h hroom hw
    | _ => cases hfault

theorem mem_sortedAttributes : e ∈ sortedAttributes props ↔ e ∈ Props.attributes props :=
  (Text.sortByText_perm _ _).mem_iff

theorem of_mem_sortedAttributes (h : Props.Accepted (props.getD [])) (he : e ∈ sortedAttributes props) :
    isPropName e.1.toList = true ∧ e.2.Closed :=
  have hmem := mem_sortedAttributes.mp he
  ⟨h.attributes.name hmem, h.attributes.closed hmem⟩

/-- Accepted props have attributes just where all that become attributes keep to the bounds. -/
theorem attributeFault?_eq_none_iff (h : Props.Accepted (props.getD [])) :
    attributeFault? bounds props = none ↔ Props.Fits bounds props := by
  simp only [attributeFault?, List.findSome?_eq_none_iff, mem_sortedAttributes, Props.Fits]
  exact forall₂_congr fun e he => literalFault?_eq_none_iff (h.attributes.closed he)

theorem attributeFault?_ne_overflow (h : Props.Accepted (props.getD []))
    (hroom : Props.Fits ⟨none, bounds.room⟩ props) : attributeFault? bounds props ≠ some .overflow := by
  intro hfault
  obtain ⟨e, he, hfault⟩ := List.exists_of_findSome?_eq_some hfault
  exact literalFault?_ne_overflow (of_mem_sortedAttributes h he).2 (hroom e (mem_sortedAttributes.mp he)) hfault

theorem attributeText_eq (hn : isPropName e.1.toList = true) (h : e.2.Closed) :
    attributeText bounds e.1.toList e.2 = ofFault (literalFault? bounds e.2) (attributeOf e) := by
  obtain ⟨name, v⟩ := e
  have hliteral : literal bounds v = _ := literal_eq h
  unfold attributeText attributeOf
  rw [if_pos hn]
  cases v with
  | text s =>
    have hnone := (literalFault?_eq_none_iff h).mpr (Value.fits_text bounds s)
    simp only [valueText, hliteral, hnone]
    split <;> rfl
  | _ =>
    simp only [valueText, hliteral]
    cases literalFault? bounds _ <;> rfl

theorem attributesText_eq (h : Props.Accepted (props.getD [])) :
    attributesText bounds props = ofFault (attributeFault? bounds props) (attributesOf props) := by
  have hwrite : List.Forall₂ (fun e f : String × Value => attributeText bounds e.1.toList e.2
      = ofFault (literalFault? bounds f.2) (attributeOf f)) (sortedAttributes props) (sortedAttributes props) :=
    List.forall₂_same.mpr fun e he =>
      attributeText_eq (of_mem_sortedAttributes h he).1 (of_mem_sortedAttributes h he).2
  have hsort : (Props.attributes props).mergeSort (fun a b => Text.atMost a.1.toList b.1.toList)
      = sortedAttributes props := rfl
  rw [attributesText, hsort, mapM_ofFault hwrite, attributeFault?, attributesOf]
  cases (sortedAttributes props).findSome? fun e => literalFault? bounds e.2 with
  | some e => rfl
  | none => exact congrArg Except.ok (List.flatMap_map ..)

theorem content_eq (bounds : Json.Bounds) (s : String) : content bounds s.toList = .ok (contentOf s) := by
  unfold content contentOf
  split
  · rfl
  · rw [String.ofList_toList, literal_eq_spell (.text s) (Value.fits_text bounds s)]
    rfl

theorem content_mapM (bounds : Json.Bounds) (text : Option String) :
    (text.mapM fun s => content bounds s.toList) = .ok (text.map contentOf) := by
  cases text with
  | none => rfl
  | some s => rw [Option.mapM_some, content_eq]; rfl

/-- The line of a node without children. -/
def leafLine (level : Nat) (type : String) (props : Option Props) : Line :=
  match Props.text? props with
  | none => .single level type.toList (attributesOf props)
  | some s => .wrapped level type.toList (attributesOf props) (contentOf s)

/-- The lines of a node around those of its children. -/
def nodeLines (level : Nat) (type : String) (props : Option Props) (inner : List Line) :
    List Line :=
  .opening level type.toList (attributesOf props) (((Props.text? props).map contentOf).getD [])
    :: (inner ++ [.closing level type.toList])

mutual

/-- The lines of a tree. -/
def linesOf (level : Nat) : Tree → List Line
  | .node type props none => [leafLine level type props]
  | .node type props (some []) => [leafLine level type props]
  | .node type props (some (c :: cs)) => nodeLines level type props (linesOfAll (level + 1) (c :: cs))

def linesOfAll (level : Nat) : List Tree → List Line
  | [] => []
  | t :: rest => linesOf level t ++ linesOfAll level rest

end

theorem linesOfAll_eq_flatMap (level : Nat) (ts : List Tree) :
    linesOfAll level ts = ts.flatMap (linesOf level) := by
  induction ts with
  | nil => rfl
  | cons t ts ih => rw [linesOfAll, ih, List.flatMap_cons]

theorem linesOf_leaf (level : Nat) (h : t.childList = []) :
    linesOf level t = [leafLine level t.type t.props] := by
  obtain ⟨type, props, children⟩ := t
  cases children with
  | none => rw [linesOf]; rfl
  | some cs =>
    obtain rfl : cs = [] := h
    rw [linesOf]; rfl

theorem linesOf_inner (level : Nat) (h : t.childList ≠ []) :
    linesOf level t
      = nodeLines level t.type t.props (t.childList.flatMap (linesOf (level + 1))) := by
  obtain ⟨type, props, children⟩ := t
  cases children with
  | none => exact (h rfl).elim
  | some cs =>
    cases cs with
    | nil => exact (h rfl).elim
    | cons c cs => rw [linesOf, linesOfAll_eq_flatMap]; rfl

/-- Only known components stand in a tree. -/
def Registered (t : Tree) : Prop := ∀ name ∈ t.types, Component.isRegistered name = true

instance : Decidable (Registered t) :=
  inferInstanceAs (Decidable (∀ name ∈ t.types, Component.isRegistered name = true))

theorem Registered.type (h : Registered t) : Component.isRegistered t.type = true :=
  h t.type (by rw [Tree.types_eq]; exact List.mem_cons_self)

theorem Registered.children (h : Registered t) : ∀ c ∈ t.childList, Registered c := by
  intro c hc name hname
  refine h name ?_
  rw [Tree.types_eq]
  exact List.mem_cons_of_mem _ (List.mem_flatMap.mpr ⟨c, hc, hname⟩)

theorem registered_of (ht : Component.isRegistered t.type = true)
    (hc : ∀ c ∈ t.childList, Registered c) : Registered t := by
  intro name hname
  rw [Tree.types_eq] at hname
  rcases List.mem_cons.mp hname with rfl | hname
  · exact ht
  · obtain ⟨c, hmem, hname⟩ := List.mem_flatMap.mp hname
    exact hc c hmem name hname

/-- A tree whose markup is the given lines. -/
structure Renders (level : Nat) (t : Tree) (lines : List Line) : Prop where
  registered : Registered t
  lines : lines = linesOf level t

theorem renders_leaf (h : t.childList = []) (ht : Component.isRegistered t.type = true) :
    Renders level t [leafLine level t.type t.props] := by
  refine ⟨registered_of ht (by simp [h]), ?_⟩
  rw [linesOf_leaf level h]

theorem flatten_of_renders {ts : List Tree} {inner : List (List Line)}
    (h : List.Forall₂ (Renders level) ts inner) :
    (∀ t ∈ ts, Registered t) ∧ inner.flatten = ts.flatMap (linesOf level) := by
  induction h with
  | nil => simp
  | cons ht _ ih =>
    rw [List.flatten_cons, List.flatMap_cons, ht.lines, ih.2]
    exact ⟨List.forall_mem_cons.mpr ⟨ht.registered, ih.1⟩, rfl⟩

theorem renders_inner {inner : List (List Line)} (hne : t.childList ≠ [])
    (ht : Component.isRegistered t.type = true)
    (h : List.Forall₂ (Renders (level + 1)) t.childList inner) :
    Renders level t (nodeLines level t.type t.props inner.flatten) := by
  obtain ⟨hreg, hflat⟩ := flatten_of_renders h
  refine ⟨registered_of ht hreg, ?_⟩
  rw [linesOf_inner level hne, hflat]

/-- References that were rendered one by one lead to trees. -/
theorem exists_trees {rs : List Layout.Ref} {inner : List (List Line)}
    (ih : ∀ r lines, renderRef bounds l limit n level r = .ok lines →
      ∃ t, l.tree? n r = some t ∧ Renders level t lines)
    (h : List.Forall₂ (fun r lines => renderRef bounds l limit n level r = .ok lines) rs inner) :
    ∃ cs, List.Forall₂ (fun r c => l.tree? n r = some c) rs cs
      ∧ List.Forall₂ (Renders level) cs inner := by
  induction h with
  | nil => exact ⟨[], .nil, .nil⟩
  | cons hr _ ihs =>
    obtain ⟨c, hc, hlines⟩ := ih _ _ hr
    obtain ⟨cs, hcs, hinner⟩ := ihs
    exact ⟨c :: cs, .cons hc hcs, .cons hlines hinner⟩

/-- A node is rendered where its attributes keep to the bounds: its lines stand around those of its
children. -/
theorem renderRef_node {id : Nat} {node : Layout.Node} {type : String} (hl : l.Accepted)
    (hn : l.node? r = some (id, node)) (ht : node.type = .text type)
    (hreg : Component.isRegistered type = true) :
    renderRef bounds l limit (n + 1) level r = ofFault (attributeFault? bounds node.props) () >>= fun _ =>
      if node.childList.isEmpty then .ok [leafLine level type node.props]
      else (node.childList.mapM (renderRef bounds l limit n (level + 1))).map fun inner =>
        nodeLines level type node.props inner.flatten := by
  rw [renderRef, hn]
  simp only [ht, hreg, if_true]
  rw [attributesText_eq (hl.props hn), content_mapM]
  cases attributeFault? bounds node.props with
  | some e => rfl
  | none =>
    simp only [ofFault, ok_bind]
    split
    · rw [leafLine]
      cases Props.text? node.props <;> rfl
    · cases node.childList.mapM (renderRef bounds l limit n (level + 1)) <;> rfl

/-- A fault of the layout: its depth, or what stands somewhere in it. -/
inductive IsNodeFault (limit : Quantity) : MarkupError → Prop
  | tooDeep : IsNodeFault limit (.tooDeep limit)
  | notANode (kind : String) : IsNodeFault limit (.notANode kind)
  | unknownComponent (type : Value) : IsNodeFault limit (.unknownComponent type)

/-- Rendering stops at a fault of the layout, or where a node has no attributes. -/
theorem isNodeFault_or_attributeFault {fault : MarkupError} (hl : l.Accepted)
    (h : renderRef bounds l limit n level r = .error fault) :
    IsNodeFault limit fault ∨ ∃ node ∈ l.nodes, attributeFault? bounds node.props = some fault := by
  induction n generalizing level r fault with
  | zero =>
    cases h
    exact .inl .tooDeep
  | succ n ih =>
    cases hn : l.node? r with
    | none =>
      rw [renderRef, hn] at h
      cases h
      exact .inl (.notANode _)
    | some found =>
      obtain ⟨id, node⟩ := found
      by_cases hreg : ∃ type, node.type = .text type ∧ Component.isRegistered type = true
      · obtain ⟨type, htype, hreg⟩ := hreg
        rw [renderRef_node hl hn htype hreg] at h
        cases hfault : attributeFault? bounds node.props with
        | some e =>
          rw [hfault] at h
          cases h
          exact .inr ⟨node, Layout.mem_nodes_of_node? hn, hfault⟩
        | none =>
          rw [hfault, show ofFault (none : Option MarkupError) () = .ok () from rfl, ok_bind] at h
          split at h
          · cases h
          · obtain ⟨c, -, hc⟩ := exists_eq_error_of_mapM (eq_error_of_map h)
            exact ih hc
      · rw [renderRef, hn] at h
        simp only at h
        split at h
        · rename_i type htype
          rw [if_neg fun hreg' => hreg ⟨type, htype, hreg'⟩] at h
          cases h
          exact .inl (.unknownComponent _)
        · cases h
          exact .inl (.unknownComponent _)

/-- Rendering succeeds on nodes of known components only. -/
theorem exists_node_of_renderRef (h : renderRef bounds l limit n level r = .ok lines) :
    ∃ id node type, l.node? r = some (id, node) ∧ node.type = .text type
      ∧ Component.isRegistered type = true := by
  cases n with
  | zero => cases h
  | succ n =>
    rw [renderRef] at h
    split at h
    · cases h
    · rename_i id node hn
      split at h
      · rename_i type htype
        split at h
        · rename_i hreg
          exact ⟨id, node, type, hn, htype, hreg⟩
        · cases h
      · cases h

/-- What is rendered are the lines of the tree below the reference. -/
theorem renders_of_renderRef (hl : l.Accepted) (h : renderRef bounds l limit n level r = .ok lines) :
    ∃ t, l.tree? n r = some t ∧ Renders level t lines := by
  induction n generalizing level r lines with
  | zero => cases h
  | succ n ih =>
    obtain ⟨id, node, type, hn, htype, hreg⟩ := exists_node_of_renderRef h
    rw [renderRef_node hl hn htype hreg] at h
    obtain ⟨_, -, h⟩ := bind_eq_ok h
    split at h
    · rename_i hempty
      cases h
      have hnone : List.Forall₂ (fun r c => l.tree? n r = some c) node.childList [] := by
        rw [List.isEmpty_iff.mp hempty]
        exact .nil
      obtain ⟨t, ht, rfl, hprops, hchildren⟩ := Layout.exists_tree? hn htype hnone
      exact ⟨t, ht, hprops ▸ renders_leaf hchildren hreg⟩
    · rename_i hne
      obtain ⟨inner, hinner, rfl⟩ := map_eq_ok h
      obtain ⟨cs, hcs, hrenders⟩ :=
        exists_trees (fun r lines => ih) (forall₂_of_mapM_eq_ok hinner)
      obtain ⟨t, ht, rfl, hprops, rfl⟩ := Layout.exists_tree? hn htype hcs
      have hcs' : t.childList ≠ [] := by
        intro hnil
        rw [hnil] at hcs
        exact hne (List.isEmpty_iff.mpr (List.forall₂_nil_right_iff.mp hcs))
      exact ⟨t, ht, hprops ▸ renders_inner hcs' hreg hrenders⟩

theorem forall₂_renderRef {rs : List Layout.Ref} {cs : List Tree}
    (ih : ∀ r t, l.tree? n r = some t → Registered t →
      renderRef bounds l limit n level r = .ok (linesOf level t))
    (hcs : List.Forall₂ (fun r c => l.tree? n r = some c) rs cs) (hreg : ∀ c ∈ cs, Registered c) :
    List.Forall₂ (fun r lines => renderRef bounds l limit n level r = .ok lines) rs
      (cs.map (linesOf level)) := by
  induction hcs with
  | nil => exact .nil
  | cons hr _ ihs =>
    exact .cons (ih _ _ hr (hreg _ List.mem_cons_self))
      (ihs fun c hc => hreg c (List.mem_cons_of_mem _ hc))

/-- Rendering succeeds on every tree of known components that keeps to the bounds. -/
theorem renderRef_of_tree? (hl : l.Accepted) (hfits : l.Fits bounds) (ht : l.tree? n r = some t)
    (hreg : Registered t) : renderRef bounds l limit n level r = .ok (linesOf level t) := by
  induction n generalizing level r t with
  | zero => cases ht
  | succ n ih =>
    obtain ⟨id, node, hn, htype, hprops, hcs⟩ := Layout.exists_node_of_tree? ht
    have hattributes := (attributeFault?_eq_none_iff (hl.props hn)).mpr (hfits.props hn)
    rw [renderRef_node hl hn htype hreg.type, hattributes, ← hprops]
    show (if _ then _ else _) = _
    by_cases hc : t.childList = []
    · rw [hc, List.forall₂_nil_right_iff] at hcs
      rw [if_pos (List.isEmpty_iff.mpr hcs), linesOf_leaf level hc]
    · have hne : ¬ node.childList.isEmpty = true := by
        intro hnil
        rw [List.isEmpty_iff.mp hnil] at hcs
        exact hc (List.forall₂_nil_left_iff.mp hcs)
      have hinner : node.childList.mapM (renderRef bounds l limit n (level + 1))
          = .ok (t.childList.map (linesOf (level + 1))) :=
        mapM_eq_ok_of_forall₂ (forall₂_renderRef (fun r t => ih) hcs hreg.children)
      rw [if_neg hne, hinner, linesOf_inner level hc, List.flatMap_def]
      rfl

theorem opens?_leafLine (type : String) : (leafLine level type props).opens? = some type := by
  unfold leafLine
  split <;> simp [Line.opens?]

/-- The lines of a tree open its tags in order. -/
theorem filterMap_opens?_linesOf (t : Tree) :
    ∀ level, (linesOf level t).filterMap Line.opens? = t.types := by
  induction t using Tree.induction_on_children with
  | h t ih =>
    intro level
    rw [Tree.types_eq]
    by_cases hc : t.childList = []
    · rw [linesOf_leaf level hc, hc]
      simp [opens?_leafLine]
    · have hinner : (t.childList.flatMap (linesOf (level + 1))).filterMap Line.opens?
          = t.childList.flatMap Tree.types := by
        rw [List.filterMap_flatMap]
        exact List.flatMap_congr fun c hmem => ih c hmem (level + 1)
      rw [linesOf_inner level hc, nodeLines, List.filterMap_cons, List.filterMap_append, hinner]
      simp [Line.opens?]

/-- The source of a tree. -/
def sourceOf (t : Tree) : Source :=
  ⟨Source.assemble t.types.eraseDups (text (linesOf 0 t)), t.types.eraseDups⟩

/-- The source that is generated is that of the tree that the layout unfolds to. -/
theorem exists_tree_of_generate {plan : Plan} {s : Source} (hp : plan.layout.Accepted)
    (h : Source.generate bounds plan limit = .ok s) :
    ∃ t, plan.layout.Unfolds t ∧ t.Accepted ∧ Registered t ∧ s = sourceOf t := by
  obtain ⟨lines, hlines, h⟩ := bind_eq_ok h
  cases h
  rw [render_eq] at hlines
  obtain ⟨t, ht, hreg, rfl⟩ := renders_of_renderRef hp hlines
  have hunfolds : plan.layout.Unfolds t := ⟨_, ht⟩
  refine ⟨t, hunfolds, hp.unfolds hunfolds, hreg, ?_⟩
  rw [sourceOf, components, filterMap_opens?_linesOf]

/-- A plan whose layout keeps to the bounds, and unfolds to a tree of known components within the limit,
has a source. -/
theorem generate_of_tree? {plan : Plan} (hp : plan.layout.Accepted) (hfits : plan.layout.Fits bounds)
    (ht : plan.layout.tree? (levels plan.layout limit) plan.layout.root = some t)
    (hreg : Registered t) : Source.generate bounds plan limit = .ok (sourceOf t) := by
  have hrender : render bounds plan.layout limit = .ok (linesOf 0 t) := by
    rw [render_eq]
    exact renderRef_of_tree? hp hfits ht hreg
  rw [Source.generate, hrender, ok_bind, sourceOf, components, filterMap_opens?_linesOf]
  rfl

/-- Where there is room for the containers in all attributes, no literal is too deep. -/
theorem generate_ne_overflow {plan : Plan} (hp : plan.layout.Accepted)
    (hroom : plan.layout.Fits ⟨none, bounds.room⟩) : Source.generate bounds plan limit ≠ .error .overflow := by
  intro h
  have hrender : render bounds plan.layout limit = .error .overflow := eq_error_of_map h
  rw [render_eq] at hrender
  rcases isNodeFault_or_attributeFault hp hrender with hfault | ⟨n, hn, hfault⟩
  · cases hfault
  · exact attributeFault?_ne_overflow (hp n hn) (hroom n hn) hfault

end Wireframe.Markup
