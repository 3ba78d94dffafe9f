import Wireframe.Proofs.Layout.Report
import Wireframe.Proofs.Lint.PlainCopy

/-! Modules of trees without props. Their markup is made of tags with nothing in them, so that no check of the
module finds anything in it. -/
namespace Wireframe

theorem Tree.props_bare (t : Tree) : t.bare.props = none := by
  obtain ⟨type, props, children⟩ := t
  cases children <;> rfl

theorem Tree.types_bare (t : Tree) : t.bare.types = t.types := by
  induction t using Tree.induction_on_children with
  | h t ih =>
    rw [types_eq, types_eq, type_bare, childList_bare, List.flatMap_map]
    exact congrArg _ (List.flatMap_congr ih)

theorem Tree.accepted_bare (t : Tree) : t.bare.Accepted := by
  induction t using Tree.induction_on_children with
  | h t ih =>
    refine .node ?_ ?_
    · rw [props_bare]
      exact .nil
    · rw [childList_bare]
      exact List.forall_mem_map.mpr ih

theorem Tree.fits_bare {bounds : Json.Bounds} (t : Tree) : t.bare.Fits bounds := by
  induction t using Tree.induction_on_children with
  | h t ih =>
    refine .node ?_ ?_
    · rw [props_bare]
      exact List.forall_mem_nil _
    · rw [childList_bare]
      exact List.forall_mem_map.mpr ih

theorem Tree.height_bare (t : Tree) : t.bare.height = t.height := by
  have hle : ∀ n, t.bare.height ≤ n ↔ t.height ≤ n := by
    induction t using Tree.induction_on_children with
    | h t ih =>
      intro n
      cases n with
      | zero => exact iff_of_false (Nat.not_le.mpr t.bare.height_pos) (Nat.not_le.mpr t.height_pos)
      | succ n =>
        rw [height_le_succ_iff, height_le_succ_iff, childList_bare, List.forall_mem_map]
        exact forall₂_congr fun c hc => ih c hc n
  exact Nat.le_antisymm ((hle _).mpr le_rfl) ((hle _).mp le_rfl)

namespace Lint
open Markup Text

variable {α : Type} {r : Recogniser α} {f : List Char → Option (α × List Char)} {t : Tree} {line : Line}
variable {lines : List Line} {names : List String} {x y : List Char} {level : Nat}

theorem registered_bare (hreg : Registered t) : Registered t.bare := by
  rw [Registered, Tree.types_bare]
  exact hreg

/-- The tags that a component has in markup without props. -/
def tagsOf (type : List Char) : List (List Char) :=
  ['<' :: (type ++ [' ', '/', '>']), '<' :: (type ++ ['>']), '<' :: '/' :: (type ++ ['>'])]

/-- A line with such a tag and nothing else. -/
def IsTagged (line : Line) : Prop :=
  ∃ level, ∃ c ∈ Component.all, ∃ tag ∈ tagsOf c.name.toList, line.text = Line.indent level ++ tag

theorem isTagged_of_linesOf (hreg : Registered t) : ∀ level, ∀ line ∈ linesOf level t.bare, IsTagged line := by
  induction t using Tree.induction_on_children with
  | h t ih =>
    intro level line hline
    obtain ⟨c, hc, hname⟩ := Source.exists_component hreg.type
    have hattributes : attributesOf none = [] := by
      rw [attributesOf, sortedAttributes, show Props.attributes none = [] from rfl, sortByText, List.mergeSort_nil,
        List.flatMap_nil]
    have htext : Props.text? none = none := rfl
    by_cases hchildren : t.childList = []
    · have hnone : t.bare.childList = [] := by rw [Tree.childList_bare, hchildren, List.map_nil]
      rw [linesOf_leaf level hnone, Tree.props_bare, Tree.type_bare, ← hname] at hline
      obtain rfl := List.mem_singleton.mp hline
      exact ⟨level, c, hc, _, List.mem_cons_self, by simp [leafLine, Line.text, hattributes, htext]⟩
    · have hsome : t.bare.childList ≠ [] := by rwa [Tree.childList_bare, ne_eq, List.map_eq_nil_iff]
      rw [linesOf_inner level hsome, nodeLines, Tree.props_bare, Tree.type_bare, Tree.childList_bare,
        List.flatMap_map, ← hname] at hline
      rcases List.mem_cons.mp hline with rfl | hline
      · refine ⟨level, c, hc, '<' :: (c.name.toList ++ ['>']), by simp [tagsOf], ?_⟩
        simp [Line.text, hattributes, htext]
      · rcases List.mem_append.mp hline with hline | hline
        · obtain ⟨child, hmem, hline⟩ := List.mem_flatMap.mp hline
          exact ih child hmem (hreg.children child hmem) (level + 1) line hline
        · obtain rfl := List.mem_singleton.mp hline
          exact ⟨level, c, hc, _, by simp [tagsOf], rfl⟩

/-- Markup behind a newline is its lines, each behind a newline. -/
theorem newline_markupOf (level : Nat) (t : Tree) :
    '\n' :: markupOf level t = (linesOf level t).flatMap fun line => '\n' :: line.text := by
  obtain ⟨first, rest, hlines⟩ := List.exists_cons_of_ne_nil (linesOf_ne_nil level t)
  rw [markupOf, hlines, text_cons, List.flatMap_cons]
  rfl

/-! The lines one by one. -/

/-- A construct that divides, and that stands in no tag. -/
structure Absent (r : Recogniser α) : Prop where
  divided : Divided r
  blank : ∀ s, (∀ c ∈ s, isWord c = false) → occurs r s = false
  tags : ∀ c ∈ Component.all, ∀ tag ∈ tagsOf c.name.toList, occurs r tag = false

theorem divided_of_mem_tagsOf {type tag : List Char} (h : tag ∈ tagsOf type) :
    StartsDivided tag ∧ EndsDivided tag := by
  simp only [tagsOf, List.mem_cons, List.not_mem_nil, or_false] at h
  rcases h with rfl | rfl | rfl
  · exact ⟨⟨'<', _, rfl, rfl⟩, '<' :: (type ++ [' ', '/']), '>', by simp, rfl⟩
  · exact ⟨⟨'<', _, rfl, rfl⟩, '<' :: type, '>', by simp, rfl⟩
  · exact ⟨⟨'<', _, rfl, rfl⟩, '<' :: '/' :: type, '>', by simp, rfl⟩

theorem IsTagged.endsDivided (h : IsTagged line) : EndsDivided ('\n' :: line.text) := by
  obtain ⟨level, c, -, tag, htag, htext⟩ := h
  rw [htext]
  exact (divided_of_mem_tagsOf htag).2.append ('\n' :: Line.indent level)

theorem occurs_line (hr : Absent r) (h : IsTagged line) : occurs r ('\n' :: line.text) = false := by
  obtain ⟨level, c, hc, tag, htag, htext⟩ := h
  have hblank : ∀ c ∈ '\n' :: Line.indent level, isWord c = false := by
    refine List.forall_mem_cons.mpr ⟨by decide, fun c hc => ?_⟩
    rw [of_mem_indent hc]
    decide
  rw [htext, ← List.cons_append, hr.divided.occurs_before _ (divided_of_mem_tagsOf htag).1, hr.blank _ hblank,
    hr.tags c hc tag htag, Bool.false_or]

theorem isCalm_line (h : IsTagged line) : isCalm ('\n' :: line.text) = true := by
  obtain ⟨level, c, hc, tag, htag, htext⟩ := h
  have hall : ∀ c ∈ Component.all, ∀ tag ∈ tagsOf c.name.toList, isCalm tag = true ∧ tag.head? = some '<' := by
    decide +kernel
  obtain ⟨hcalm, hhead⟩ := hall c hc tag htag
  rw [htext, ← List.cons_append]
  refine isCalm_append (isCalm_of_closed ?_) hcalm fun d hd => ?_
  · refine List.forall_mem_cons.mpr ⟨by decide, fun c hc => ?_⟩
    rw [of_mem_indent hc]
    decide
  · rw [hhead] at hd
    cases hd
    decide

theorem equals_notMem_line (h : IsTagged line) : '=' ∉ '\n' :: line.text := by
  obtain ⟨level, c, hc, tag, htag, htext⟩ := h
  have hall : ∀ c ∈ Component.all, ∀ tag ∈ tagsOf c.name.toList, '=' ∉ tag := by decide +kernel
  have hindent : '=' ∉ Line.indent level := fun hmem => absurd (of_mem_indent hmem) (by decide)
  simp [htext, hindent, hall c hc tag htag]

/-! All of them. -/

theorem endsDivided_lines (hne : lines ≠ []) (h : ∀ line ∈ lines, IsTagged line) :
    EndsDivided (lines.flatMap fun line => '\n' :: line.text) := by
  obtain ⟨front, last, rfl⟩ := (List.eq_nil_or_concat' lines).resolve_left hne
  rw [List.flatMap_append, List.flatMap_singleton]
  exact (h last (by simp)).endsDivided.append _

theorem occurs_lines (hr : Absent r) (h : ∀ line ∈ lines, IsTagged line) :
    occurs r (lines.flatMap fun line => '\n' :: line.text) = false := by
  induction lines with
  | nil => exact hr.divided.nil
  | cons line lines ih =>
    obtain ⟨hline, hlines⟩ := List.forall_mem_cons.mp h
    rw [List.flatMap_cons, hr.divided.occurs_behind hline.endsDivided, occurs_line hr hline, ih hlines, Bool.false_or]

theorem isCalm_lines (h : ∀ line ∈ lines, IsTagged line) :
    isCalm (lines.flatMap fun line => '\n' :: line.text) = true := by
  induction lines with
  | nil => rfl
  | cons line lines ih =>
    obtain ⟨hline, hlines⟩ := List.forall_mem_cons.mp h
    rw [List.flatMap_cons]
    refine isCalm_append (isCalm_line hline) (ih hlines) fun d hd => ?_
    cases lines with
    | nil => cases hd
    | cons next lines =>
      cases hd
      decide

/-- Between texts in which a construct does not stand, it does not stand in the markup. -/
theorem occurs_markup (hr : Absent r) (hreg : Registered t)
    (hx : occurs r (x ++ '\n' :: Line.indent 0) = false) (hy : occurs r y = false) :
    occurs r (x ++ '\n' :: (markupOf 0 t.bare ++ y)) = false := by
  have htagged := isTagged_of_linesOf hreg 0
  have hlines := newline_markupOf 0 t.bare
  have hquiet := occurs_lines hr htagged
  have hends : EndsDivided (x ++ '\n' :: markupOf 0 t.bare) := by
    rw [hlines]
    exact (endsDivided_lines (linesOf_ne_nil 0 _) htagged).append x
  obtain ⟨tail, -, htail⟩ := exists_tail 0 t.bare
  have hstarts (y : List Char) : StartsDivided ('<' :: y) := ⟨'<', y, rfl, by decide⟩
  rw [← hlines, htail, ← List.cons_append, hr.divided.occurs_before _ (hstarts _), Bool.or_eq_false_iff] at hquiet
  have hfront : occurs r (x ++ '\n' :: markupOf 0 t.bare) = false := by
    rw [htail, ← List.cons_append, ← List.append_assoc, hr.divided.occurs_before _ (hstarts _), hx, hquiet.2,
      Bool.false_or]
  rw [← List.cons_append, ← List.append_assoc, hr.divided.occurs_behind hends, hfront, hy, Bool.false_or]

/-! The module around the markup. -/

/-- What stands in a module up to the markup, behind the last import. -/
def opening : List Char := "\n\n".toList ++ (Source.header ++ "\n  return (".toList)

/-- What stands behind the markup in the body. -/
def ending : List Char := "\n  );\n".toList

theorem bodyOf_markupOf (t : Tree) :
    bodyOf (markupOf 0 t) = "\n  return (".toList ++ '\n' :: (markupOf 0 t ++ ending) := by
  have hreturning : Source.returning = "\n  return (".toList ++ ['\n'] := by decide
  rw [bodyOf, hreturning, List.append_assoc]
  rfl

/-- An import up to the quote that closes it. -/
def importOf (name : List Char) : List Char :=
  "import ".toList ++ (name ++ (" from '@/components/ui/".toList ++ (name ++ ['\''])))

theorem importLine_eq_importOf (name : String) : Source.importLine name = importOf name.toList ++ [';'] := by
  have hend : "';".toList = ['\''] ++ [';'] := by decide
  unfold importOf
  rw [Source.importLine_eq, hend, List.append_assoc, List.append_assoc, List.append_assoc, List.append_assoc]

theorem endsDivided_importOf (name : List Char) : EndsDivided (importOf name) :=
  ((EndsDivided.append ⟨name, '\'', rfl, by decide⟩ _).append _).append _

/-- Imports in which a construct does not stand, each behind the semicolon of the one before. -/
theorem occurs_imports (hr : Divided r)
    (himport : ∀ c ∈ Component.all, occurs r (';' :: '\n' :: importOf c.name.toList) = false)
    (hnames : ∀ name ∈ names, Component.isRegistered name = true) (hy : occurs r (';' :: y) = false) :
    occurs r (';' :: (names.flatMap (fun name => '\n' :: Source.importLine name) ++ y)) = false := by
  induction names with
  | nil => exact hy
  | cons name names ih =>
    obtain ⟨hname, hrest⟩ := List.forall_mem_cons.mp hnames
    obtain ⟨c, hc, rfl⟩ := Source.exists_component hname
    have hends : EndsDivided (';' :: '\n' :: importOf c.name.toList) := (endsDivided_importOf _).append [';', '\n']
    have hsplit : ';' :: ((c.name :: names).flatMap (fun name => '\n' :: Source.importLine name) ++ y)
        = (';' :: '\n' :: importOf c.name.toList)
          ++ ';' :: (names.flatMap (fun name => '\n' :: Source.importLine name) ++ y) := by
      rw [List.flatMap_cons, importLine_eq_importOf]
      simp
    rw [hsplit, hr.occurs_behind hends, himport c hc, ih hrest, Bool.false_or]

/-- The module of a tree: its first import, the others, and the function. -/
theorem code_sourceOf (t : Tree) : ∃ name names, t.types.eraseDups = name :: names
    ∧ (sourceOf t).code = importOf name.toList ++ ';' :: (names.flatMap (fun name => '\n' :: Source.importLine name)
      ++ (opening ++ '\n' :: (markupOf 0 t ++ (ending ++ ['\x7d', '\n'])))) := by
  obtain ⟨name, names, hnames⟩ := List.exists_cons_of_ne_nil
    (show t.types.eraseDups ≠ [] by rw [Tree.types_eq, List.eraseDups_cons]; exact List.cons_ne_nil _ _)
  have hcode : (sourceOf t).code = Source.importsOf t.types.eraseDups
      ++ (Source.header ++ (bodyOf (markupOf 0 t) ++ ['\x7d', '\n'])) := assemble_eq_body _ _
  refine ⟨name, names, hnames, ?_⟩
  rw [hcode, hnames, bodyOf_markupOf, Source.importsOf, List.map_cons, joined_cons, List.flatMap_map,
    importLine_eq_importOf, opening]
  simp only [List.append_assoc, List.cons_append, List.nil_append]

/-- What an unmasked module is checked for does not stand in the module of a tree without props. -/
theorem occurs_code_bare (hr : Absent r) (hconstruct : occurs r ∈ codeConstructs) (hreg : Registered t) :
    occurs r (sourceOf t.bare).code = false := by
  have himports : ∀ c ∈ Component.all, ∀ f ∈ codeConstructs, f (importOf c.name.toList) = false
      ∧ f (';' :: '\n' :: importOf c.name.toList) = false := by
    decide +kernel
  have haround : ∀ f ∈ codeConstructs, f (';' :: (opening ++ '\n' :: Line.indent 0)) = false
      ∧ f (ending ++ ['\x7d', '\n']) = false := by
    decide +kernel
  obtain ⟨hopening, hending⟩ := haround _ hconstruct
  obtain ⟨name, names, hnames, hcode⟩ := code_sourceOf t.bare
  have hregistered := registered_eraseDups (registered_bare hreg)
  rw [hnames] at hregistered
  obtain ⟨hname, hrest⟩ := List.forall_mem_cons.mp hregistered
  obtain ⟨c, hc, rfl⟩ := Source.exists_component hname
  rw [hcode, hr.divided.occurs_behind (endsDivided_importOf _), (himports c hc _ hconstruct).1, Bool.false_or]
  refine occurs_imports hr.divided (fun c hc => (himports c hc _ hconstruct).2) hrest ?_
  exact occurs_markup (x := ';' :: opening) hr hreg hopening hending

/-- What a body is checked for does not stand in the body. -/
theorem occurs_body_bare (hr : Absent r) (hconstruct : occurs r ∈ bodyConstructs) (hreg : Registered t) :
    occurs r (bodyOf (markupOf 0 t.bare)) = false := by
  have haround : ∀ f ∈ bodyConstructs, f ("\n  return (".toList ++ '\n' :: Line.indent 0) = false
      ∧ f ending = false := by
    decide +kernel
  obtain ⟨hreturning, hending⟩ := haround _ hconstruct
  rw [bodyOf_markupOf]
  exact occurs_markup hr hreg hreturning hending

theorem absent_of_tags (hedge : r = atEdge f) (hr : Divided r)
    (htags : ∀ c ∈ Component.all, ∀ tag ∈ tagsOf c.name.toList, occurs r tag = false) : Absent r := by
  subst hedge
  exact ⟨hr, fun _ => occurs_atEdge_eq_false, htags⟩

theorem quiet_tags {f : List Char → Bool} (hf : f ∈ bodyConstructs ∨ f ∈ codeConstructs) :
    ∀ c ∈ Component.all, ∀ tag ∈ tagsOf c.name.toList, f tag = false := by
  have hall : ∀ f ∈ bodyConstructs ++ codeConstructs, ∀ c ∈ Component.all, ∀ tag ∈ tagsOf c.name.toList,
      f tag = false := by
    decide +kernel
  exact hall f (List.mem_append.mpr hf)

theorem occurs_arrowSign_bare (hreg : Registered t) : occurs arrowSign (bodyOf (markupOf 0 t.bare)) = false := by
  have hfree : '=' ∉ bodyOf (markupOf 0 t.bare) := by
    have hends : '=' ∉ "\n  return (".toList ∧ '=' ∉ ending := by decide
    have hmarkup : '=' ∉ '\n' :: markupOf 0 t.bare := by
      rw [newline_markupOf]
      intro hmem
      obtain ⟨line, hline, hmem⟩ := List.mem_flatMap.mp hmem
      exact equals_notMem_line (isTagged_of_linesOf hreg 0 line hline) hmem
    rw [bodyOf_markupOf, ← List.cons_append]
    simp only [List.mem_append, hends, hmarkup, or_self, not_false_eq_true]
  refine Bool.eq_false_iff.mpr fun harrow => hfree ?_
  obtain ⟨u, v, heq⟩ := occurs_arrowSign_iff.mp harrow
  rw [heq]
  simp

/-- Nothing is masked in the body. -/
theorem mask_body_bare (hreg : Registered t) :
    mask (bodyOf (markupOf 0 t.bare)) = bodyOf (markupOf 0 t.bare) := by
  have htagged := isTagged_of_linesOf hreg 0
  have hends : isCalm "\n  return (".toList = true ∧ isCalm ending = true := by decide
  refine mask_of_calm ?_
  rw [bodyOf_markupOf, ← List.cons_append]
  refine isCalm_append hends.1 (isCalm_append ?_ hends.2 ?_) ?_
  · rw [newline_markupOf]
    exact isCalm_lines htagged
  · intro d hd
    cases hd
    decide
  · intro d hd
    cases hd
    decide

theorem bodyViolations_bare (hreg : Registered t) :
    bodyViolations (mask (bodyOf (markupOf 0 t.bare))) = [] := by
  have hquiet {α : Type} {r : Recogniser α} {f : List Char → Option (α × List Char)} (hedge : r = atEdge f)
      (hr : Divided r) (hconstruct : occurs r ∈ bodyConstructs) : occurs r (bodyOf (markupOf 0 t.bare)) = false :=
    occurs_body_bare (absent_of_tags hedge hr (quiet_tags (.inl hconstruct))) hconstruct hreg
  rw [mask_body_bare hreg, bodyViolations_eq_nil_iff]
  simp only [bodyConstructs, List.forall_mem_cons, List.not_mem_nil, false_implies, implies_true, and_true]
  exact ⟨hquiet (r := hookCall) rfl divided_hookCall (by simp [bodyConstructs]), occurs_arrowSign_bare hreg,
    hquiet (r := functionWord) rfl divided_functionWord (by simp [bodyConstructs]),
    hquiet (r := eventHandlerProp) rfl divided_eventHandlerProp (by simp [bodyConstructs]),
    hquiet (r := bindingDeclaration) rfl divided_bindingDeclaration (by simp [bodyConstructs]),
    hquiet (r := consoleMember) rfl divided_consoleMember (by simp [bodyConstructs]),
    hquiet (r := debuggerWord) rfl divided_debuggerWord (by simp [bodyConstructs])⟩

/-- The module of a tree without props passes the check. -/
theorem isValid_bare (hreg : Registered t) : (check (sourceOf t.bare).code).isValid = true := by
  have hedge {α : Type} {r : Recogniser α} {f : List Char → Option (α × List Char)} (hedge : r = atEdge f)
      (hr : Divided r) (hconstruct : occurs r ∈ codeConstructs) : occurs r (sourceOf t.bare).code = false :=
    occurs_code_bare (absent_of_tags hedge hr (quiet_tags (.inr hconstruct))) hconstruct hreg
  have hword {word signs : List Char} (hne : word ≠ []) (hword : ∀ c ∈ word, isWord c = true)
      (hsigns : ∀ c ∈ signs, isBlank c = false ∧ isDivider c = false)
      (hconstruct : occurs (signedWord word signs) ∈ codeConstructs) :
      occurs (signedWord word signs) (sourceOf t.bare).code = false :=
    hedge rfl (divided_signedWord hne hword hsigns) hconstruct
  have hparen : ∀ c ∈ ['('], isBlank c = false ∧ isDivider c = false := forall_of_all (by decide)
  rw [isValid_iff, violations_sourceOf_eq_nil_iff t.accepted_bare (registered_bare hreg)]
  refine ⟨bodyViolations_bare hreg, ?_, ?_,
    hedge (r := innerHtmlWord) rfl divided_innerHtmlWord (by simp [codeConstructs]),
    hedge (r := componentDeclaration) rfl divided_componentDeclaration (by simp [codeConstructs])⟩
  · refine occurs_either (fun _ _ => signedWord_of_dynamicCall) ?_ ?_
    · exact hword (by decide) (forall_of_all (by decide)) hparen (by simp [codeConstructs])
    · exact hword (by decide) (forall_of_all (by decide)) hparen (by simp [codeConstructs])
  · refine occurs_either (fun _ _ => signedWord_of_inlineStyle) ?_ ?_
    · exact hword (by decide) (forall_of_all (by decide)) (forall_of_all (by decide)) (by simp [codeConstructs])
    · exact hword (by decide) (forall_of_all (by decide)) (forall_of_all (by decide)) (by simp [codeConstructs])

end Lint

end Wireframe
