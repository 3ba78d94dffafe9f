import Wireframe.Proofs.Layout.Height
import Wireframe.Proofs.Layout.View
import Wireframe.Proofs.Source.Limit

/-! The markup of any layout. Where its view is finite, the renderer with its list of tasks does what a
recursion over the view does, to the first fault if there is one; where it is not, the renderer stops at some
fault. -/
namespace Wireframe.Markup
open Outcome Layout

variable {bounds : Json.Bounds} {l : Layout} {r : Ref} {v : View} {limit : Quantity} {bound : Int} {n : Node}
variable {k level id : Nat} {type : String} {props : Option Props} {e : MarkupError}

/-- What is wrong with the place of a node that is seen, or with its type. -/
def nodeFault? (limit : Quantity) (level : Nat) : View → Option MarkupError
  | .other kind =>
    if limit.isExceededBy (level + 1) then some (.tooDeep limit) else some (.notANode kind)
  | .node type _ _ =>
    if limit.isExceededBy (level + 1) then some (.tooDeep limit)
    else if type.text?.any Component.isRegistered then none else some (.unknownComponent type)

/-- The first fault of a layout in all that is seen of it. -/
def firstNodeFault? (limit : Quantity) (level : Nat) (v : View) : Option MarkupError :=
  (v.preorder level).findSome? fun seen => nodeFault? limit seen.1 seen.2

/-- The props of what is seen. -/
def propsOf : View → Option Props
  | .other _ => none
  | .node _ props _ => props

/-- What is wrong with one node that is seen: the node itself, or a prop that is too much to be written. -/
def fault? (bounds : Json.Bounds) (limit : Quantity) (level : Nat) (v : View) : Option MarkupError :=
  (nodeFault? limit level v).or (attributeFault? bounds (propsOf v))

/-- The first fault in all that is seen. -/
def firstFault? (bounds : Json.Bounds) (limit : Quantity) (level : Nat) (v : View) : Option MarkupError :=
  (v.preorder level).findSome? fun seen => fault? bounds limit seen.1 seen.2

/-- The name that a type gives. -/
def typeName (type : Value) : String := type.text?.getD ""

/-- The name of a node that is seen. -/
def name? : View → Option String
  | .other _ => none
  | .node type _ _ => some (typeName type)

mutual

/-- The lines of what is seen. -/
def viewLines (level : Nat) : View → List Line
  | .other _ => []
  | .node type props [] => [leafLine level (typeName type) props]
  | .node type props (c :: cs) => nodeLines level (typeName type) props (viewLinesAll (level + 1) (c :: cs))

def viewLinesAll (level : Nat) : List View → List Line
  | [] => []
  | v :: rest => viewLines level v ++ viewLinesAll level rest

end

theorem viewLinesAll_eq_flatMap (level : Nat) (vs : List View) :
    viewLinesAll level vs = vs.flatMap (viewLines level) := by
  induction vs with
  | nil => rfl
  | cons v vs ih => rw [viewLinesAll, ih, List.flatMap_cons]

theorem viewLines_node (level : Nat) (type : Value) (props : Option Props) (vs : List View) :
    viewLines level (.node type props vs) = if vs.isEmpty then [leafLine level (typeName type) props]
      else nodeLines level (typeName type) props (vs.flatMap (viewLines (level + 1))) := by
  cases vs with
  | nil => rfl
  | cons v vs => rw [viewLines, viewLinesAll_eq_flatMap]; rfl

/-- The name of a node and its attributes, as they stand in its first tag. -/
def openingOf (level : Nat) (type : Value) (props : Option Props) : List Char :=
  List.replicate (4 + 2 * level) ' ' ++ '<' :: ((typeName type).toList ++ attributesOf props)

mutual

/-- What is seen, line by line: a node without children closes itself or is wrapped around its text, any other
opens with its text, if it has one, and closes at the same indentation, with its children two blanks further
in. -/
def textLines (level : Nat) : View → List (List Char)
  | .other _ => []
  | .node type props [] =>
    match Props.text? props with
    | none => [openingOf level type props ++ " />".toList]
    | some s =>
      [openingOf level type props ++ '>' :: (contentOf s ++ '<' :: '/' :: ((typeName type).toList ++ ['>']))]
  | .node type props (c :: cs) =>
    (openingOf level type props ++ '>' :: ((Props.text? props).map contentOf).getD [])
      :: (textLinesAll (level + 1) (c :: cs)
        ++ [List.replicate (4 + 2 * level) ' ' ++ '<' :: '/' :: ((typeName type).toList ++ ['>'])])

def textLinesAll (level : Nat) : List View → List (List Char)
  | [] => []
  | v :: rest => textLines level v ++ textLinesAll level rest

end

theorem textLinesAll_eq_flatMap (level : Nat) (vs : List View) :
    textLinesAll level vs = vs.flatMap (textLines level) := by
  induction vs with
  | nil => rfl
  | cons v vs ih => rw [textLinesAll, ih, List.flatMap_cons]

/-- The texts of the lines are what is seen, line by line. -/
theorem map_text_viewLines (v : View) :
    ∀ level, (viewLines level v).map Line.text = textLines level v := by
  induction v using View.induction_on_children with
  | h v ih =>
    intro level
    cases v with
    | other kind => rfl
    | node type props vs =>
      cases vs with
      | nil =>
        rw [viewLines, textLines, leafLine]
        cases Props.text? props <;> simp [Line.text, Line.indent, openingOf]
      | cons v vs =>
        have hinner : (viewLinesAll (level + 1) (v :: vs)).map Line.text = textLinesAll (level + 1) (v :: vs) := by
          rw [viewLinesAll_eq_flatMap, textLinesAll_eq_flatMap, List.map_flatMap]
          exact List.flatMap_congr fun w hw => ih w hw (level + 1)
        rw [viewLines, textLines, nodeLines, List.map_cons, List.map_append, hinner]
        simp [Line.text, Line.indent, openingOf]

/-- The lines open the names that are seen, in order. -/
theorem filterMap_opens?_viewLines (v : View) :
    ∀ level, (viewLines level v).filterMap Line.opens? = (v.preorder level).filterMap (name? ·.2) := by
  induction v using View.induction_on_children with
  | h v ih =>
    intro level
    cases v with
    | other kind => rfl
    | node type props vs =>
      have hinner : (vs.flatMap (viewLines (level + 1))).filterMap Line.opens?
          = (vs.flatMap (View.preorder (level + 1))).filterMap (name? ·.2) := by
        rw [List.filterMap_flatMap, List.filterMap_flatMap]
        exact List.flatMap_congr fun w hw => ih w hw (level + 1)
      rw [View.preorder_eq, viewLines_node]
      show _ = typeName type :: (vs.flatMap (View.preorder (level + 1))).filterMap (name? ·.2)
      split
      · rename_i hempty
        rw [List.isEmpty_iff.mp hempty]
        simp [opens?_leafLine]
      · rw [nodeLines, List.filterMap_cons, List.filterMap_append, hinner]
        simp [Line.opens?]

theorem findSome?_flatMap {α β γ : Type} (f : β → Option γ) (g : α → List β) (xs : List α) :
    (xs.flatMap g).findSome? f = xs.findSome? fun x => (g x).findSome? f := by
  induction xs with
  | nil => rfl
  | cons x xs ih =>
    rw [List.flatMap_cons, List.findSome?_append, ih, List.findSome?_cons]
    cases (g x).findSome? f <;> rfl

theorem firstFault?_eq (bounds : Json.Bounds) (limit : Quantity) (level : Nat) (v : View) :
    firstFault? bounds limit level v
      = (fault? bounds limit level v).or (v.children.findSome? (firstFault? bounds limit (level + 1))) := by
  rw [firstFault?, View.preorder_eq, List.findSome?_cons, findSome?_flatMap]
  cases fault? bounds limit level v <;> rfl

theorem isExceededBy_whole (bound : Int) (count : Nat) :
    (Quantity.whole bound).isExceededBy count = decide (bound < count) := by
  simp [Quantity.isExceededBy, Quantity.magnitude?, Magnitude.ofInt, Magnitude.lt]

/-- A whole number leaves as many levels as depths do not exceed it. -/
theorem levels_le_iff : levels l (.whole bound) ≤ level
    ↔ (Quantity.whole bound).isExceededBy (level + 1) = true := by
  rw [levels, Quantity.room_whole, isExceededBy_whole, decide_eq_true_eq]
  omega

/-- What the renderer checks first is what can be wrong with one node. -/
theorem component_other (h : l.node? r = none) : ∃ e,
    nodeFault? (.whole bound) level (.other r.kindName) = some e
      ∧ component l (.whole bound) level r = .error e := by
  rw [component, h, nodeFault?]
  simp only [levels_le_iff]
  split
  · exact ⟨_, rfl, rfl⟩
  · exact ⟨_, rfl, rfl⟩

theorem component_node (h : l.node? r = some (id, n)) (vs : List View) : component l (.whole bound) level r
    = ofFault (nodeFault? (.whole bound) level (.node n.type n.props vs)) (typeName n.type, n) := by
  rw [component, h, nodeFault?]
  simp only [levels_le_iff]
  split
  · rfl
  · cases n.type with
    | text type =>
      by_cases hreg : Component.isRegistered type = true
      · rw [if_pos (show (Value.text type).text?.any Component.isRegistered = true from hreg)]
        exact if_pos hreg
      · rw [if_neg (show ¬ (Value.text type).text?.any Component.isRegistered = true from hreg)]
        exact if_neg hreg
    | _ => rfl

theorem firstLine_eq (h : Props.Accepted (n.props.getD [])) : firstLine bounds level type n
    = ofFault (attributeFault? bounds n.props) (if n.childList.isEmpty then leafLine level type n.props
      else .opening level type.toList (attributesOf n.props) (((Props.text? n.props).map contentOf).getD [])) := by
  rw [firstLine, attributesText_eq h, content_mapM]
  cases attributeFault? bounds n.props with
  | some e => rfl
  | none =>
    simp only [ofFault, ok_bind]
    split
    · rw [leafLine]
      cases Props.text? n.props <;> rfl
    · rfl

/-- A reference is rendered as what is seen from it. -/
theorem taskLines_view (hl : l.Accepted) (hv : l.view? k r = some v) :
    taskLines bounds l (.whole bound) (.enter level r)
      = ofFault (firstFault? bounds (.whole bound) level v) (viewLines level v) := by
  induction k generalizing level r v with
  | zero => cases hv
  | succ k ih =>
    rw [taskLines_enter, firstFault?_eq, fault?]
    cases hn : l.node? r with
    | none =>
      rw [view?_other hn] at hv
      cases hv
      obtain ⟨e, hfault, herror⟩ := component_other hn
      rw [hfault, herror]
      rfl
    | some found =>
      obtain ⟨id, n⟩ := found
      obtain ⟨vs, hvs, rfl⟩ := (view?_node hn).mp hv
      rw [component_node hn vs, propsOf]
      cases nodeFault? (.whole bound) level (.node n.type n.props vs) with
      | some e => rfl
      | none =>
        simp only [ofFault, ok_bind, firstLine_eq (hl.props hn)]
        cases attributeFault? bounds n.props with
        | some e => rfl
        | none =>
          rw [Option.or_self, Option.none_or, viewLines_node]
          simp only [ok_bind, childTasks, View.children]
          by_cases hnone : n.childList = []
          · obtain rfl : vs = [] := by
              rw [hnone, List.forall₂_nil_left_iff] at hvs
              exact hvs
            simp [hnone]
            rfl
          · have hvne : vs ≠ [] := by
              rintro rfl
              exact hnone (List.forall₂_nil_right_iff.mp hvs)
            have hchild (c : Ref) (w : View) (hw : l.view? k c = some w) :
                taskLines bounds l (.whole bound) (.enter (level + 1) c)
                  = ofFault (firstFault? bounds (.whole bound) (level + 1) w) (viewLines (level + 1) w) := ih hw
            have hchildren := mapM_ofFault (List.forall₂_map_left_iff.mpr (hvs.imp hchild))
            rw [if_neg (by simpa using hnone), if_neg (by simpa using hnone), if_neg (by simpa using hvne),
              mapM_taskLines_append, hchildren]
            cases vs.findSome? (firstFault? bounds (.whole bound) (level + 1)) with
            | some e => rfl
            | none =>
              show Except.ok _ = Except.ok _
              simp [nodeLines, List.flatMap_def]

theorem render_view (hl : l.Accepted) (hv : l.Shows v) :
    render bounds l (.whole bound) = ofFault (firstFault? bounds (.whole bound) 0 v) (viewLines 0 v) := by
  obtain ⟨k, hv⟩ := hv
  rw [render_eq_taskLines, taskLines_view hl hv]

/-- Without end to the view there is some fault. -/
theorem exists_error_of_cyclic (bounds : Json.Bounds) (h : l.Cyclic) (limit : Quantity) :
    ∃ e, render bounds l limit = .error e := by
  cases hrender : render bounds l limit with
  | error e => exact ⟨e, rfl⟩
  | ok lines =>
    rw [render_eq] at hrender
    obtain ⟨t, ht⟩ := exists_tree?_of_renderRef hrender
    rw [h.tree?_eq_none] at ht
    cases ht

/-! Where no prop is too much to be written, only the nodes themselves can be wrong. -/

theorem attributeFault?_of_mem_preorder (hl : l.Accepted) (hfits : l.Fits bounds) (hv : l.view? k r = some v) :
    ∀ seen ∈ v.preorder level, attributeFault? bounds (propsOf seen.2) = none := by
  have hnothing : attributeFault? bounds none = none :=
    have haccepted : Props.Accepted (none.getD []) := .nil
    (attributeFault?_eq_none_iff haccepted).mpr (List.forall_mem_nil _)
  induction k generalizing level r v with
  | zero => cases hv
  | succ k ih =>
    rw [View.preorder_eq, List.forall_mem_cons]
    cases hn : l.node? r with
    | none =>
      rw [view?_other hn] at hv
      cases hv
      exact ⟨hnothing, List.forall_mem_nil _⟩
    | some found =>
      obtain ⟨id, n⟩ := found
      obtain ⟨vs, hvs, rfl⟩ := (view?_node hn).mp hv
      refine ⟨(attributeFault?_eq_none_iff (hl.props hn)).mpr (hfits.props hn), fun seen hseen => ?_⟩
      obtain ⟨w, hw, hseen⟩ := List.mem_flatMap.mp hseen
      obtain ⟨i, hi, rfl⟩ := List.getElem_of_mem hw
      exact ih (hvs.get (hvs.length_eq.symm ▸ hi) hi) seen hseen

theorem firstFault?_of_fits (hl : l.Accepted) (hfits : l.Fits bounds) (hv : l.Shows v) :
    firstFault? bounds limit 0 v = firstNodeFault? limit 0 v := by
  obtain ⟨k, hv⟩ := hv
  have hsame : (v.preorder 0).map (fun seen => fault? bounds limit seen.1 seen.2)
      = (v.preorder 0).map fun seen => nodeFault? limit seen.1 seen.2 :=
    List.map_congr_left fun seen hseen => by
      rw [fault?, attributeFault?_of_mem_preorder hl hfits hv seen hseen, Option.or_none]
  simpa only [firstFault?, firstNodeFault?, List.findSome?_map, Function.id_comp]
    using congrArg (List.findSome? id) hsame

theorem isNodeFault_of_renderRef (hl : l.Accepted) (hfits : l.Fits bounds)
    (h : renderRef bounds l limit k level r = .error e) : IsNodeFault limit e := by
  refine (isNodeFault_or_attributeFault hl h).resolve_right ?_
  rintro ⟨n, hn, hfault⟩
  rw [(attributeFault?_eq_none_iff (hl n hn)).mpr (hfits n hn)] at hfault
  cases hfault

/-- Rendering is a recursion over what is seen of a layout, whatever its references do and whatever depth is
asked for. It makes the text of what is seen, or stops at the first fault in it; where there is no end to the
view, it stops at some fault. Where no prop is too much to be written, all faults are in the nodes. -/
theorem render_unfolds (env : Environment) (override : Option Int) (bounds : Json.Bounds) (hl : l.Accepted) :
    let limit := env.depthLimit (override.map .whole)
    (l.Cyclic → ∃ e, render bounds l limit = .error e) ∧
      (¬ l.Cyclic → ∃ v, l.Shows v) ∧
      (∀ v, l.Shows v →
        (∀ e, firstFault? bounds limit 0 v = some e → render bounds l limit = .error e) ∧
        (firstFault? bounds limit 0 v = none → ∃ lines, render bounds l limit = .ok lines ∧
          text lines = Text.joined ['\n'] (textLines 0 v) ∧
          components lines = ((v.preorder 0).filterMap (name? ·.2)).eraseDups)) ∧
      (l.Fits bounds →
        (∀ e, render bounds l limit = .error e → IsNodeFault limit e) ∧
        ∀ v, l.Shows v → firstFault? bounds limit 0 v = firstNodeFault? limit 0 v) := by
  obtain ⟨bound, hbound⟩ := env.exists_depthLimit override
  intro limit
  have hlimit : limit = .whole bound := hbound
  refine ⟨fun h => exists_error_of_cyclic bounds h limit, exists_shows,
    fun v hv => ⟨fun e he => ?_, fun hnone => ?_⟩, fun hfits => ⟨fun e he => ?_, fun v hv => ?_⟩⟩
  · rw [hlimit] at he ⊢
    rw [render_view hl hv, he]
    rfl
  · rw [hlimit] at hnone ⊢
    refine ⟨viewLines 0 v, ?_, ?_, ?_⟩
    · rw [render_view hl hv, hnone]
      rfl
    · rw [text, map_text_viewLines]
    · rw [components, filterMap_opens?_viewLines]
  · rw [render_eq] at he
    exact isNodeFault_of_renderRef hl hfits he
  · exact firstFault?_of_fits hl hfits hv

/-- A card with the given children, a button that it may refer to, and one with a text. -/
def cardOf (children : List Ref) : Layout :=
  ⟨#[⟨.text "Card", some [("title", .text "Users"), ("children", .text "All")], some children⟩,
    ⟨.text "Button", none, none⟩, ⟨.text "Button", some [("children", .text "Go")], none⟩], .node 0⟩

/-- With one button twice in it the card is rendered, with a number in it or itself it is not. -/
theorem render_cardOf :
    (∃ lines, render .none (cardOf [.node 1, .node 2, .node 1]) (.whole 2) = .ok lines ∧
        String.ofList (text lines) = "    <Card title=\"Users\">All\n      <Button />\n      <Button>Go</Button>\n"
          ++ "      <Button />\n    </Card>" ∧
        components lines = ["Card", "Button"]) ∧
      render .none (cardOf [.node 1, .other (.int 3)]) (.whole 2) = .error (.notANode "int") ∧
      ∃ e, render .none (cardOf [.node 1, .node 0]) (.whole 2) = .error e ∧ IsNodeFault (.whole 2) e := by
  have hcard : Props.Accepted [("title", .text "Users"), ("children", .text "All")] :=
    ⟨by decide, by decide, by decide⟩
  have hgo : Props.Accepted [("children", .text "Go")] := ⟨by decide, by decide, by decide⟩
  have haccepted (children : List Ref) : (cardOf children).Accepted := by
    intro n hn
    have hn : n = ⟨.text "Card", some [("title", .text "Users"), ("children", .text "All")], some children⟩
        ∨ n = ⟨.text "Button", none, none⟩ ∨ n = ⟨.text "Button", some [("children", .text "Go")], none⟩ := by
      simpa [cardOf] using hn
    rcases hn with rfl | rfl | rfl
    · exact hcard
    · exact .nil
    · exact hgo
  have hrender (children : List Ref) := render_unfolds [] (some 2) .none (haccepted children)
  let title : Option Props := some [("title", .text "Users"), ("children", .text "All")]
  let button := View.node (.text "Button") none []
  let go := View.node (.text "Button") (some [("children", .text "Go")]) []
  refine ⟨?_, ?_, ?_⟩
  · obtain ⟨-, -, hview, -⟩ := hrender [.node 1, .node 2, .node 1]
    obtain ⟨-, hok⟩ := hview (.node (.text "Card") title [button, go, button]) ⟨3, rfl⟩
    obtain ⟨lines, hlines, htext, hnames⟩ := hok (by decide +kernel)
    exact ⟨lines, hlines, by rw [htext]; decide +kernel, hnames.trans (by decide +kernel)⟩
  · obtain ⟨-, -, hview, hfits⟩ := hrender [.node 1, .other (.int 3)]
    have hshows : (cardOf [.node 1, .other (.int 3)]).Shows (.node (.text "Card") title [button, .other "int"]) :=
      ⟨3, rfl⟩
    obtain ⟨hfault, -⟩ := hview _ hshows
    exact hfault _ (((hfits (fits_unbounded _)).2 _ hshows).trans (by rfl))
  · obtain ⟨hcyclic, -, -, hfits⟩ := hrender [.node 1, .node 0]
    obtain ⟨e, he⟩ := hcyclic ⟨[1], 0, _, rfl, [], [1], rfl, by simp, _, rfl⟩
    exact ⟨e, he, (hfits (fits_unbounded _)).1 e he⟩

end Wireframe.Markup
