import Wireframe.Proofs.Markup.Attributes
import Wireframe.Proofs.Source.LineEnds
import Wireframe.Proofs.Text.Pieces

/-! The lines of markup as a language of their own: each is one tag, with attributes that stay in their line.
That holds of all lines of a layout if and only if no prop name in it ends with a newline. -/
namespace Wireframe.Markup
open Text

variable {t : Tree} {v : Value} {e : String × Value} {s a front behind name value content head : List Char}
variable {type : String} {props : Option Props} {line : Line} {level : Nat} {lines : List (List Char)}

/-- A letter or an underscore, then letters, digits and underscores. -/
def IsIdentifier (s : List Char) : Prop :=
  ∃ c cs, s = c :: cs ∧ (c.isAlpha = true ∨ c = '_') ∧ ∀ d ∈ cs, d.isAlphanum = true ∨ d = '_'

/-- Text without line ends and without angle brackets. -/
def IsInline (s : List Char) : Prop := ∀ c ∈ s, c ≠ '<' ∧ c ≠ '>' ∧ c ≠ '\n' ∧ c ≠ '\r'

/-- An attribute: a name, and a value in quotes or in braces. -/
inductive IsAttribute : List Char → Prop
  | quoted {name value : List Char} : IsIdentifier name → IsInline value → '"' ∉ value →
      IsAttribute (name ++ '=' :: '"' :: (value ++ ['"']))
  | braced {name value : List Char} : IsIdentifier name → IsInline value →
      IsAttribute (name ++ '=' :: '\x7b' :: (value ++ ['\x7d']))

/-- A tag up to its end: a component's name, and attributes that each follow a blank. -/
inductive IsHead (type : String) : List Char → Prop
  | head {attributes : List (List Char)} : Component.isRegistered type = true →
      (∀ a ∈ attributes, IsAttribute a) → IsHead type ('<' :: (type.toList ++ attributes.flatMap (' ' :: ·)))

/-- A line that is one tag: it closes itself, opens and closes around a text, opens and may carry a text, or
closes. -/
inductive IsTagLine : List Char → Prop
  | selfClosing (indent : Nat) {type : String} {head : List Char} : IsHead type head →
      IsTagLine (List.replicate indent ' ' ++ (head ++ [' ', '/', '>']))
  | carrying (indent : Nat) {type : String} {head content : List Char} : IsHead type head → IsInline content →
      IsTagLine (List.replicate indent ' '
        ++ (head ++ '>' :: (content ++ '<' :: '/' :: (type.toList ++ ['>']))))
  | opening (indent : Nat) {type : String} {head content : List Char} : IsHead type head → IsInline content →
      IsTagLine (List.replicate indent ' ' ++ (head ++ '>' :: content))
  | closing (indent : Nat) {type : String} : Component.isRegistered type = true →
      IsTagLine (List.replicate indent ' ' ++ '<' :: '/' :: (type.toList ++ ['>']))

theorem IsTagLine.mem (h : IsTagLine s) : '>' ∈ s := by
  cases h <;> simp

/-! Prop names and attributes. -/

theorem isPropName_of_isIdentifier (h : IsIdentifier name) :
    isPropName name = true ∧ isPropName (name ++ ['\n']) = true := by
  obtain ⟨c, cs, rfl, hc, hcs⟩ := h
  have hstart : isNameStart c = true := by simpa [isNameStart] using hc
  have hall : ∀ d ∈ cs, isNameChar d = true := by simpa [isNameChar] using hcs
  have hrest : cs.dropWhile isNameChar = [] := List.dropWhile_eq_nil_iff.mpr hall
  have hlast : (cs ++ ['\n']).dropWhile isNameChar = ['\n'] := by
    rw [List.dropWhile_append_of_pos hall]
    rfl
  exact ⟨by rw [isPropName, hstart, hrest]; rfl, by rw [List.cons_append, isPropName, hstart, hlast]; rfl⟩

/-- What counts as a prop name: an identifier, or one with a newline at its end. -/
theorem isPropName_iff :
    isPropName s = true ↔ IsIdentifier s ∨ ∃ name, s = name ++ ['\n'] ∧ IsIdentifier name := by
  constructor
  · intro h
    cases s with
    | nil => cases h
    | cons c cs =>
      simp only [isPropName, Bool.and_eq_true] at h
      obtain ⟨hstart, hrest⟩ := h
      have hc : c.isAlpha = true ∨ c = '_' := by simpa [isNameStart] using hstart
      have hrun : ∀ d ∈ cs.takeWhile isNameChar, d.isAlphanum = true ∨ d = '_' := by
        intro d hd
        simpa [isNameChar] using List.mem_takeWhile_imp hd
      rw [← List.takeWhile_append_dropWhile (p := isNameChar) (l := cs)]
      split at hrest
      · rename_i hnil
        rw [hnil, List.append_nil]
        exact .inl ⟨c, _, rfl, hc, hrun⟩
      · rename_i hlast
        rw [hlast]
        exact .inr ⟨_, rfl, c, _, rfl, hc, hrun⟩
      · cases hrest
  · rintro (h | ⟨name, rfl, h⟩)
    · exact (isPropName_of_isIdentifier h).1
    · exact (isPropName_of_isIdentifier h).2

theorem IsIdentifier.newline_notMem (h : IsIdentifier name) : '\n' ∉ name := by
  obtain ⟨c, cs, rfl, hc, hcs⟩ := h
  intro hmem
  rcases List.mem_cons.mp hmem with rfl | hmem
  · exact absurd hc (by decide)
  · exact absurd (hcs _ hmem) (by decide)

/-- A prop name that stays in its line is an identifier. -/
theorem isIdentifier_of_isPropName (h : isPropName name = true) (hfree : '\n' ∉ name) : IsIdentifier name := by
  rcases isPropName_iff.mp h with h | ⟨front, rfl, -⟩
  · exact h
  · simp at hfree

/-- An attribute has a line end in it where its name has. -/
theorem newline_mem_attributeOf (hv : e.2.Closed) : '\n' ∈ attributeOf e ↔ '\n' ∈ e.1.toList := by
  have hvalue : '\n' ∉ valueText e.2 := fun hmem => (of_mem_valueText hv hmem).2.2 rfl
  simp [attributeOf, hvalue]

theorem newline_mem_attributesOf (h : Props.Accepted (props.getD [])) :
    '\n' ∈ attributesOf props ↔ ∃ e ∈ props.getD [], '\n' ∈ e.1.toList := by
  constructor
  · intro hmem
    obtain ⟨e, he, hmem⟩ := List.mem_flatMap.mp hmem
    have hprop : e ∈ Props.attributes props := (sortByText_perm _ _).mem_iff.mp he
    have hattribute : '\n' ∈ attributeOf e := by simpa using hmem
    exact ⟨e, (Props.attributes_sublist props).subset hprop,
      (newline_mem_attributeOf (of_mem_sortedAttributes h he).2).mp hattribute⟩
  · rintro ⟨e, he, hmem⟩
    have hname : e.1 ≠ Component.textProp := by
      intro heq
      rw [heq] at hmem
      exact absurd hmem (by decide)
    have hattribute : '\n' ∈ attributeOf e := (newline_mem_attributeOf (h.closed he)).mpr hmem
    exact List.mem_flatMap.mpr
      ⟨e, mem_sortedAttributes_of_ne he hname, List.mem_cons_of_mem _ hattribute⟩

theorem isInline_spell (hv : v.Closed) : IsInline (spell v) := by
  intro c hc
  obtain ⟨hcontrol, hopen, hclose⟩ := of_mem_spell hv hc
  refine ⟨hopen, hclose, ?_, ?_⟩ <;> rintro rfl <;> revert hcontrol <;> decide

theorem isInline_plain (h : isPlainAttribute s = true) : IsInline s := by
  intro c hc
  obtain ⟨hopen, hclose, hnewline⟩ := of_mem_plain h hc
  refine ⟨hopen, hclose, hnewline, ?_⟩
  rintro rfl
  exact return_notMem_plain h hc

theorem isInline_contentOf (s : String) : IsInline (contentOf s) := by
  intro c hc
  obtain ⟨hopen, hclose, hnewline⟩ := of_mem_contentOf hc
  refine ⟨hopen, hclose, hnewline, ?_⟩
  rintro rfl
  exact return_notMem_contentOf s hc

theorem isAttribute_attributeOf (hname : IsIdentifier e.1.toList) (hv : e.2.Closed) :
    IsAttribute (attributeOf e) := by
  rcases valueText_cases e.2 with ⟨s, -, hs, hvalue⟩ | hvalue
  · have hquote : '"' ∉ s.toList := by
      intro hmem
      simp only [isPlainAttribute, Bool.not_eq_true', List.any_eq_false] at hs
      exact hs '"' hmem (by decide)
    rw [attributeOf, hvalue]
    exact .quoted hname (isInline_plain hs) hquote
  · rw [attributeOf, hvalue]
    exact .braced hname (isInline_spell hv)

theorem isHead (htype : Component.isRegistered type = true) (h : Props.Accepted (props.getD []))
    (hfree : '\n' ∉ attributesOf props) : IsHead type ('<' :: (type.toList ++ attributesOf props)) := by
  have hflat : attributesOf props = ((sortedAttributes props).map attributeOf).flatMap (' ' :: ·) :=
    (List.flatMap_map ..).symm
  rw [hflat]
  refine .head htype fun a ha => ?_
  obtain ⟨e, he, rfl⟩ := List.mem_map.mp ha
  obtain ⟨hname, hclosed⟩ := of_mem_sortedAttributes h he
  refine isAttribute_attributeOf (isIdentifier_of_isPropName hname fun hmem => hfree ?_) hclosed
  exact List.mem_flatMap.mpr ⟨e, he, List.mem_cons_of_mem _ ((newline_mem_attributeOf hclosed).mpr hmem)⟩

/-! Lines, as they are made of the nodes of a tree. -/

/-- The attributes of a line that opens a tag. -/
def Line.attributes? : Line → Option (List Char)
  | single _ _ attributes | wrapped _ _ attributes _ | opening _ _ attributes _ => some attributes
  | closing .. => none

/-- A line that is made of an accepted node of a known component. -/
inductive Made : Line → Prop
  | single (level : Nat) {type : String} {props : Option Props} : Component.isRegistered type = true →
      Props.Accepted (props.getD []) → Made (.single level type.toList (attributesOf props))
  | wrapped (level : Nat) {type : String} {props : Option Props} {content : List Char} :
      Component.isRegistered type = true → Props.Accepted (props.getD []) → IsInline content →
      Made (.wrapped level type.toList (attributesOf props) content)
  | opening (level : Nat) {type : String} {props : Option Props} {content : List Char} :
      Component.isRegistered type = true → Props.Accepted (props.getD []) → IsInline content →
      Made (.opening level type.toList (attributesOf props) content)
  | closing (level : Nat) {type : String} : Component.isRegistered type = true →
      Made (.closing level type.toList)

theorem made_of_mem_linesOf (t : Tree) :
    ∀ level, t.Accepted → Registered t → ∀ line ∈ linesOf level t, Made line := by
  induction t using Tree.induction_on_children with
  | h t ih =>
    intro level ht hreg line hline
    by_cases hc : t.childList = []
    · rw [linesOf_leaf level hc, List.mem_singleton] at hline
      subst hline
      unfold leafLine
      split
      · exact .single level hreg.type ht.props
      · exact .wrapped level hreg.type ht.props (isInline_contentOf _)
    · rw [linesOf_inner level hc, nodeLines, List.mem_cons, List.mem_append, List.mem_singleton] at hline
      rcases hline with rfl | hline | rfl
      · refine .opening level hreg.type ht.props ?_
        cases Props.text? t.props with
        | none => exact fun c hc => absurd hc List.not_mem_nil
        | some s => exact isInline_contentOf s
      · obtain ⟨c, hmem, hline⟩ := List.mem_flatMap.mp hline
        exact ih c hmem (level + 1) (ht.children c hmem) (hreg.children c hmem) line hline
      · exact .closing level hreg.type

theorem attributes?_leafLine (type : String) (props : Option Props) :
    (leafLine level type props).attributes? = some (attributesOf props) := by
  unfold leafLine
  split <;> rfl

mutual

/-- The lines of a tree have the attributes of its nodes, in their order. -/
theorem filterMap_attributes?_linesOf : ∀ (t : Tree) (level base : Nat),
    (linesOf level t).filterMap Line.attributes?
      = (Layout.flatten base t).map fun n => attributesOf n.props
  | .node type props none, level, base => by
    simp [linesOf, Layout.flatten, attributes?_leafLine]
  | .node type props (some []), level, base => by
    simp [linesOf, Layout.flatten, Layout.flattenAll, attributes?_leafLine]
  | .node type props (some (c :: cs)), level, base => by
    rw [linesOf, Layout.flatten, nodeLines, List.filterMap_cons, List.filterMap_append, List.map_cons,
      filterMap_attributes?_linesOfAll (c :: cs) (level + 1) (base + 1)]
    simp [Line.attributes?]

theorem filterMap_attributes?_linesOfAll : ∀ (ts : List Tree) (level base : Nat),
    (linesOfAll level ts).filterMap Line.attributes?
      = (Layout.flattenAll base ts).map fun n => attributesOf n.props
  | [], _, _ => rfl
  | t :: ts, level, base => by
    rw [linesOfAll, Layout.flattenAll, List.filterMap_append, List.map_append,
      filterMap_attributes?_linesOf t level base, filterMap_attributes?_linesOfAll ts level (base + t.size)]

end

/-- A line with a line end in its attributes falls into pieces, of which the first one has no end of a tag. -/
theorem exists_not_isTagLine (hfront : '>' ∉ front) (h : Props.Accepted (props.getD []))
    (hmem : '\n' ∈ attributesOf props) (behind : List Char) :
    ∃ piece ∈ splitNewlines (front ++ (attributesOf props ++ behind)), ¬ IsTagLine piece := by
  obtain ⟨x, y, hsplit⟩ := List.append_of_mem hmem
  have hopen : '>' ∉ front ++ x := by
    intro hclose
    rcases List.mem_append.mp hclose with hclose | hclose
    · exact hfront hclose
    · exact (of_mem_attributesOf h (hsplit ▸ List.mem_append_left _ hclose)).2 rfl
  obtain ⟨piece, others, hpieces⟩ := List.exists_cons_of_ne_nil (splitNewlines_ne_nil (front ++ x))
  have hpiece : piece ∈ splitNewlines (front ++ x) := hpieces ▸ List.mem_cons_self
  refine ⟨piece, ?_, fun htag => hopen ?_⟩
  · rw [hsplit, List.append_assoc, ← List.append_assoc front, List.cons_append, splitNewlines_append]
    exact List.mem_append_left _ hpiece
  · obtain ⟨u, w, hfound, -⟩ := mem_splitNewlines_iff.mp hpiece
    rw [hfound]
    exact List.mem_append_right _ (List.mem_append_left _ htag.mem)

theorem newline_notMem_type (htype : Component.isRegistered type = true) : '\n' ∉ type.toList := by
  intro hmem
  exact absurd (Source.of_mem_registered htype hmem).1 (by decide)

theorem notMem_front (htype : Component.isRegistered type = true) (level : Nat) :
    '>' ∉ Line.indent level ++ '<' :: type.toList ∧ '\n' ∉ Line.indent level ++ '<' :: type.toList := by
  have hindent {c : Char} (hc : c ≠ ' ') : c ∉ Line.indent level := fun hmem => hc (of_mem_indent hmem)
  have hclose : '>' ∉ type.toList := by
    intro hmem
    exact absurd (Source.of_mem_registered htype hmem).1 (by decide)
  constructor
  · simp [hclose, hindent]
  · simp [newline_notMem_type htype, hindent]

/-- A line that opens a tag is in one piece if its attributes are, and then it is a tag. -/
theorem forall_isTagLine_iff (htype : Component.isRegistered type = true)
    (h : Props.Accepted (props.getD [])) (hbehind : '\n' ∉ behind)
    (htag : ∀ head, IsHead type head → IsTagLine (Line.indent level ++ (head ++ behind))) :
    (∀ piece ∈ splitNewlines (Line.indent level ++ '<' :: (type.toList ++ (attributesOf props ++ behind))),
      IsTagLine piece) ↔ '\n' ∉ attributesOf props := by
  have hfront := notMem_front htype level
  have htext : Line.indent level ++ '<' :: (type.toList ++ (attributesOf props ++ behind))
      = (Line.indent level ++ '<' :: type.toList) ++ (attributesOf props ++ behind) := by simp
  constructor
  · intro hall hmem
    obtain ⟨piece, hpiece, hnot⟩ := exists_not_isTagLine hfront.1 h hmem behind
    exact hnot (hall piece (htext ▸ hpiece))
  · intro hfree
    have hline : ∀ c ∈ (Line.indent level ++ '<' :: type.toList) ++ (attributesOf props ++ behind),
        c ≠ '\n' := by
      rintro c hc rfl
      simp only [List.mem_append, hfront.2, hfree, hbehind, or_false] at hc
    rw [htext, splitNewlines_of_free hline, List.forall_mem_singleton, ← htext]
    have hhead := htag _ (isHead htype h hfree)
    rwa [List.cons_append, List.append_assoc] at hhead

theorem Made.forall_isTagLine_iff (h : Made line) :
    (∀ piece ∈ splitNewlines line.text, IsTagLine piece) ↔ ∀ a ∈ line.attributes?, '\n' ∉ a := by
  have hone (a : List Char) : (∀ b ∈ some a, '\n' ∉ b) ↔ '\n' ∉ a := by simp
  cases h with
  | single level htype hprops =>
    rw [Line.text, Line.attributes?, hone, List.append_assoc]
    exact Markup.forall_isTagLine_iff htype hprops (by decide) fun _ hhead => .selfClosing _ hhead
  | wrapped level htype hprops hcontent =>
    rw [Line.text, Line.attributes?, hone, List.append_assoc]
    refine Markup.forall_isTagLine_iff htype hprops ?_ fun _ hhead => .carrying _ hhead hcontent
    intro hmem
    simp [newline_notMem_type htype] at hmem
    exact (hcontent _ hmem).2.2.1 rfl
  | opening level htype hprops hcontent =>
    rw [Line.text, Line.attributes?, hone, List.append_assoc]
    refine Markup.forall_isTagLine_iff htype hprops ?_ fun _ hhead => .opening _ hhead hcontent
    intro hmem
    rcases List.mem_cons.mp hmem with hmem | hmem
    · exact absurd hmem (by decide)
    · exact (hcontent _ hmem).2.2.1 rfl
  | @closing level type htype =>
    have hline : ∀ c ∈ (Line.closing level type.toList).text, c ≠ '\n' := by
      rintro c hc rfl
      rcases List.mem_append.mp hc with hc | hc
      · exact absurd (of_mem_indent hc) (by decide)
      · simp [newline_notMem_type htype] at hc
    rw [splitNewlines_of_free hline, List.forall_mem_singleton]
    exact iff_of_true (.closing _ htype) (by simp [Line.attributes?])

/-- The pieces of lines that were joined are those of each line. -/
theorem flatMap_splitNewlines (hne : lines ≠ []) :
    splitNewlines (joined ['\n'] lines) = lines.flatMap splitNewlines := by
  induction lines with
  | nil => exact (hne rfl).elim
  | cons line rest ih =>
    cases rest with
    | nil => exact (List.append_nil _).symm
    | cons next rest =>
      rw [joined, List.append_assoc, List.singleton_append, splitNewlines_append, ih (List.cons_ne_nil _ _)]
      · rfl
      · simp

/-- The markup of a tree is one tag in each of its lines if and only if no prop name ends with a newline. -/
theorem forall_isTagLine_linesOf (ht : t.Accepted) (hreg : Registered t) (level base : Nat) :
    (∀ piece ∈ splitNewlines (text (linesOf level t)), IsTagLine piece)
      ↔ ∀ n ∈ Layout.flatten base t, ∀ e ∈ n.props.getD [], '\n' ∉ e.1.toList := by
  have hmade := made_of_mem_linesOf t level ht hreg
  have haccepted : ∀ n ∈ Layout.flatten base t, Props.Accepted (n.props.getD []) :=
    Layout.forall_mem_flatten (P := fun n => Props.Accepted (n.props.getD [])) (Q := Tree.Accepted)
      (fun _ h => h.children) (fun _ _ h => h.props) ht base
  have hne : (linesOf level t).map Line.text ≠ [] := by
    simpa using linesOf_ne_nil level t
  calc
    (∀ piece ∈ splitNewlines (text (linesOf level t)), IsTagLine piece)
      ↔ ∀ line ∈ linesOf level t, ∀ piece ∈ splitNewlines line.text, IsTagLine piece := by
        rw [text, flatMap_splitNewlines hne, List.flatMap_map, List.forall_mem_flatMap]
    _ ↔ ∀ line ∈ linesOf level t, ∀ a ∈ line.attributes?, '\n' ∉ a :=
        forall₂_congr fun line hline => (hmade line hline).forall_isTagLine_iff
    _ ↔ ∀ a ∈ (linesOf level t).filterMap Line.attributes?, '\n' ∉ a := List.forall_mem_filterMap.symm
    _ ↔ ∀ n ∈ Layout.flatten base t, '\n' ∉ attributesOf n.props := by
        rw [filterMap_attributes?_linesOf t level base, List.forall_mem_map]
    _ ↔ ∀ n ∈ Layout.flatten base t, ∀ e ∈ n.props.getD [], '\n' ∉ e.1.toList :=
        forall₂_congr fun n hn => by
          rw [newline_mem_attributesOf (haccepted n hn)]
          simp only [not_exists, not_and]

end Wireframe.Markup
