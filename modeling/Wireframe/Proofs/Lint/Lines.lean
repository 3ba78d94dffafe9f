import Wireframe.Lint.Check
import Wireframe.Proofs.Markup.Characters
import Wireframe.Proofs.Text.Scanning

/-! The lines of a generated module. A line of markup starts with a tag; where a prop name ends in a
newline, a line starts with the equals sign behind it. -/
namespace Wireframe.Lint
open Markup Text

variable {L : List Char → Prop} {t : Tree} {level : Nat} {s r name : List Char} {c : Char}
variable {type : String} {props : Option Props} {names : List String} {line : List Char}

/-- The start of a line of markup. -/
def Leads (s : List Char) : Prop :=
  ∃ blanks c rest, s = blanks ++ c :: rest ∧ (∀ b ∈ blanks, b = ' ') ∧ (c = '<' ∨ c = '=')

/-- Behind every newline stands what is asked for. -/
def Led (L : List Char → Prop) : List Char → Prop
  | [] => True
  | c :: s => (c = '\n' → L s) ∧ Led L s

theorem led_append_of_free (h : ∀ c ∈ s, c ≠ '\n') : Led L (s ++ r) ↔ Led L r := by
  induction s with
  | nil => rfl
  | cons c s ih =>
    have hc : c ≠ '\n' := h c List.mem_cons_self
    have htail := ih fun d hd => h d (List.mem_cons_of_mem _ hd)
    rw [List.cons_append, Led, htail]
    simp [hc]

theorem led_cons_of_ne (h : c ≠ '\n') : Led L (c :: r) ↔ Led L r :=
  led_append_of_free (s := [c]) (by simpa using h)

theorem led_newline (h : L s) (hs : Led L s) : Led L ('\n' :: s) := ⟨fun _ => h, hs⟩

theorem led_name (hL : ∀ s, Leads s → L s) (h : isPropName name = true) (hr : Led L ('=' :: r)) :
    Led L (name ++ '=' :: r) := by
  cases name with
  | nil => exact hr
  | cons x xs =>
    simp only [isPropName, Bool.and_eq_true] at h
    obtain ⟨hx, hrest⟩ := h
    have hne {c : Char} (hc : isNameChar c = true) : c ≠ '\n' := by
      rintro rfl
      revert hc
      decide
    have hstart : x ≠ '\n' := by
      rintro rfl
      revert hx
      decide
    have hword : ∀ c ∈ xs.takeWhile isNameChar, c ≠ '\n' :=
      fun c hc => hne (List.mem_takeWhile_imp hc)
    rw [List.cons_append, led_cons_of_ne hstart,
      ← List.takeWhile_append_dropWhile (p := isNameChar) (l := xs),
      List.append_assoc, led_append_of_free hword]
    split at hrest
    · rename_i hend
      rw [hend]
      exact hr
    · rename_i hend
      rw [hend]
      exact led_newline (hL _ ⟨[], '=', r, rfl, by simp, .inr rfl⟩) hr
    · cases hrest

theorem led_attributes (hL : ∀ s, Leads s → L s) (as : Props)
    (h : ∀ e ∈ as, isPropName e.1.toList = true ∧ e.2.Closed)
    (hr : Led L r) : Led L ((as.flatMap fun e => ' ' :: attributeOf e) ++ r) := by
  induction as with
  | nil => exact hr
  | cons e as ih =>
    obtain ⟨hname, hclosed⟩ := h e List.mem_cons_self
    have htail := ih fun f hf => h f (List.mem_cons_of_mem _ hf)
    have hvalue : ∀ c ∈ '=' :: valueText e.2, c ≠ '\n' := by
      intro c hc
      rcases List.mem_cons.mp hc with rfl | hc
      · decide
      · exact (of_mem_valueText hclosed hc).2.2
    have hrest := (led_append_of_free hvalue).mpr htail
    have hsplit : ((e :: as).flatMap fun e => ' ' :: attributeOf e) ++ r
        = ' ' :: (e.1.toList ++ '=' ::
          (valueText e.2 ++ ((as.flatMap fun e => ' ' :: attributeOf e) ++ r))) := by
      simp [attributeOf]
    rw [hsplit, led_cons_of_ne (by decide)]
    exact led_name hL hname hrest

theorem led_attributesOf (hL : ∀ s, Leads s → L s) (h : Props.Accepted (props.getD []))
    (hr : Led L r) :
    Led L (attributesOf props ++ r) :=
  led_attributes hL _ (fun _ he => of_mem_sortedAttributes h he) hr

theorem leads_indent (level : Nat) (r : List Char) : Leads (Line.indent level ++ '<' :: r) :=
  ⟨_, '<', r, rfl, fun _ hb => of_mem_indent hb, .inl rfl⟩

theorem leads_markupOf (level : Nat) (t : Tree) (r : List Char) :
    Leads (markupOf level t ++ r) := by
  obtain ⟨tail, _, hmarkup⟩ := exists_tail level t
  rw [hmarkup, List.append_assoc]
  exact leads_indent level _

theorem Led.of_append {a : List Char} (h : Led L (a ++ '\n' :: s)) : L s := by
  induction a with
  | nil => exact h.1 rfl
  | cons c a ih => exact ih h.2

theorem ne_newline_of_mem_name (h : Component.isRegistered type = true) (hc : c ∈ type.toList) :
    c ≠ '\n' := by
  rintro rfl
  exact absurd (Source.of_mem_registered h hc).1 (by decide)

theorem led_indent (level : Nat) : Led L (Line.indent level ++ r) ↔ Led L r :=
  led_append_of_free fun c hc => by rw [of_mem_indent hc]; decide

theorem led_closing (h : Component.isRegistered type = true) (hr : Led L r) :
    Led L ('<' :: '/' :: (type.toList ++ '>' :: r)) := by
  rw [led_cons_of_ne (by decide), led_cons_of_ne (by decide),
    led_append_of_free fun c hc => ne_newline_of_mem_name h hc, led_cons_of_ne (by decide)]
  exact hr

theorem led_closingOf (hL : ∀ s, Leads s → L s) (h : Component.isRegistered type = true)
    (hr : Led L r) :
    Led L (closingOf level type ++ r) := by
  have hsplit : closingOf level type ++ r
      = '\n' :: (Line.indent level ++ '<' :: '/' :: (type.toList ++ '>' :: r)) := by
    simp [closingOf]
  rw [hsplit]
  exact led_newline (hL _ (leads_indent level _)) ((led_indent level).mpr (led_closing h hr))

theorem led_children (hL : ∀ s, Leads s → L s) {ts : List Tree}
    (ih : ∀ c ∈ ts, ∀ r, Led L r → Led L (markupOf level c ++ r))
    (hr : Led L r) : Led L ((ts.flatMap fun c => '\n' :: markupOf level c) ++ r) := by
  induction ts with
  | nil => exact hr
  | cons t ts ihs =>
    have htail := ihs fun c hc => ih c (List.mem_cons_of_mem _ hc)
    rw [List.flatMap_cons, List.cons_append, List.cons_append, List.append_assoc]
    exact led_newline (hL _ (leads_markupOf level t _)) (ih t List.mem_cons_self _ htail)

theorem led_tail (hL : ∀ s, Leads s → L s) {tail : List Char} (hreg : Registered t)
    (h : Tail level t tail)
    (ih : ∀ c ∈ t.childList, ∀ r, Led L r → Led L (markupOf (level + 1) c ++ r)) (hr : Led L r) :
    Led L (tail ++ r) := by
  have hcontent {text : String} {r : List Char} (hr : Led L r) :
      Led L ('>' :: (contentOf text ++ r)) := by
    rw [led_cons_of_ne (by decide), led_append_of_free fun c hc => (of_mem_contentOf hc).2.2]
    exact hr
  cases h with
  | single _ _ => exact (led_append_of_free (forall_of_all (by decide))).mpr hr
  | wrapped _ _ =>
    simpa using hcontent (led_closing hreg.type hr)
  | opening _ =>
    simpa using hcontent (led_children hL ih (led_closingOf hL hreg.type hr))

theorem led_markupOf (hL : ∀ s, Leads s → L s) (t : Tree) :
    ∀ level r, t.Accepted → Registered t → Led L r →
    Led L (markupOf level t ++ r) := by
  induction t using Tree.induction_on_children with
  | h t ih =>
    intro level r ht hreg hr
    obtain ⟨tail, htail, hmarkup⟩ := exists_tail level t
    have hchildren : ∀ c ∈ t.childList, ∀ r, Led L r → Led L (markupOf (level + 1) c ++ r) :=
      fun c hc r => ih c hc (level + 1) r (ht.children c hc) (hreg.children c hc)
    have hrest := led_attributesOf hL ht.props (led_tail hL hreg htail hchildren hr)
    rw [hmarkup, List.append_assoc, led_indent, List.cons_append, led_cons_of_ne (by decide),
      List.append_assoc, led_append_of_free fun c hc => ne_newline_of_mem_name hreg.type hc,
      List.append_assoc]
    exact hrest

/-- No import starts like a line of markup. -/
theorem isImportLine_of_leads {blanks rest : List Char} (hb : ∀ b ∈ blanks, b = ' ')
    (hc : c = '<' ∨ c = '=') : isImportLine (blanks ++ c :: rest) = false := by
  have hblank : ∀ b ∈ blanks, isSpaceOrTab b = true := by
    intro b hmem
    rw [hb b hmem]
    decide
  have hword : wholeWord? "import".toList (c :: rest) = none := by
    rcases hc with rfl | rfl <;> rfl
  have hstop : isSpaceOrTab c = false := by
    rcases hc with rfl | rfl <;> decide
  rw [isImportLine, List.dropWhile_append_of_pos hblank,
    List.dropWhile_cons_of_neg (by simp [hstop]),
    hword]
  rfl

theorem not_isImportLine_head {first : List Char} {others : List (List Char)} (h : Leads s)
    (hs : splitNewlines s = first :: others) : isImportLine first = false := by
  obtain ⟨blanks, c, rest, rfl, hb, hc⟩ := h
  have hfree : ∀ d ∈ blanks ++ [c], d ≠ '\n' := by
    intro d hd
    rcases List.mem_append.mp hd with hd | hd
    · rw [hb d hd]
      decide
    · rw [List.mem_singleton.mp hd]
      rcases hc with rfl | rfl <;> decide
  obtain ⟨line, lines, _, hline⟩ := exists_splitNewlines_append hfree rest
  rw [List.append_assoc, List.singleton_append, hs] at hline
  cases hline
  rw [List.append_assoc]
  exact isImportLine_of_leads hb hc

/-- Behind the first, no line of markup is an import. -/
theorem not_isImportLine_tail (h : Led Leads s) :
    ∀ line ∈ (splitNewlines s).tail, isImportLine line = false := by
  induction s with
  | nil => simp [splitNewlines]
  | cons c s ih =>
    obtain ⟨first, others, hs⟩ := List.exists_cons_of_ne_nil (splitNewlines_ne_nil s)
    have hothers := ih h.2
    by_cases hc : c = '\n'
    · subst c
      intro line hline
      rw [splitNewlines, List.tail_cons, hs] at hline
      rcases List.mem_cons.mp hline with rfl | hline
      · exact not_isImportLine_head (h.1 rfl) hs
      · exact hothers line (by rw [hs]; exact hline)
    · rw [splitNewlines, hs]
      · rw [hs] at hothers
        exact hothers
      · exact hc

theorem not_isImportLine_of_mem_markup (h : Leads s) (hs : Led Leads s) :
    ∀ line ∈ splitNewlines s, isImportLine line = false := by
  obtain ⟨first, others, hsplit⟩ := List.exists_cons_of_ne_nil (splitNewlines_ne_nil s)
  have hothers := not_isImportLine_tail hs
  intro line hline
  rw [hsplit] at hline hothers
  rcases List.mem_cons.mp hline with rfl | hline
  · exact not_isImportLine_head h hsplit
  · exact hothers line hline

theorem splitNewlines_joined {lines : List (List Char)} (h : ∀ line ∈ lines, ∀ c ∈ line, c ≠ '\n') :
    splitNewlines (joined ['\n'] lines) = if lines = [] then [[]] else lines := by
  induction lines with
  | nil => rfl
  | cons line lines ih =>
    have hline := h line List.mem_cons_self
    have hlines := ih fun l hl => h l (List.mem_cons_of_mem _ hl)
    cases lines with
    | nil => exact splitNewlines_of_free hline
    | cons next lines =>
      rw [joined, List.append_assoc, List.singleton_append, splitNewlines_append,
        splitNewlines_of_free hline, hlines]
      rfl
      · simp

theorem isImportLine_importLine (name : String) : isImportLine (Source.importLine name) = true := by
  rw [Source.importLine_eq]
  rfl

theorem ne_newline_of_mem_importLine (h : ∀ name ∈ names, Component.isRegistered name = true) :
    ∀ line ∈ names.map Source.importLine, ∀ c ∈ line, c ≠ '\n' := by
  rintro line hline c hc rfl
  obtain ⟨name, hname, rfl⟩ := List.mem_map.mp hline
  exact absurd (Source.not_isAbsent_of_mem_importLine (h name hname) hc) (by decide)

/-- The lines of a module: its imports, the lines of the function's head, the markup, and its end.
-/
theorem splitNewlines_assemble (names : List String) (markup : List Char) :
    splitNewlines (Source.assemble names markup)
      = splitNewlines (joined ['\n'] (names.map Source.importLine))
        ++ [[], Source.header, "  return (".toList] ++ splitNewlines markup
        ++ ["  );".toList, "\x7d".toList, []] := by
  have hshape : Source.assemble names markup
      = Source.importsOf names ++ Source.header ++ Source.returning ++ markup ++ Source.ending := rfl
  have hblank : "\n\n".toList = '\n' :: ([] ++ ['\n']) := by decide
  have hreturning : Source.returning = '\n' :: ("  return (".toList ++ ['\n']) := by decide
  have hending : Source.ending = '\n' :: ("  );".toList ++ '\n' :: ("\x7d".toList ++ ['\n'])) := by
    decide
  have hfree : ∀ line ∈ [[], Source.header, "  return (".toList, "  );".toList, "\x7d".toList],
      splitNewlines line = [line] := by decide
  simp only [List.forall_mem_cons] at hfree
  obtain ⟨hnil, hheader, hreturn, hclose, hbrace, -⟩ := hfree
  rw [hshape, Source.importsOf, hblank, hreturning, hending]
  simp only [List.append_assoc, List.cons_append, List.nil_append, splitNewlines_append,
    splitNewlines_newline, hnil, hheader, hreturn, hclose, hbrace]

/-- The imports of a module are the lines that were put in front. -/
theorem filter_isImportLine_sourceOf (ht : t.Accepted) (hreg : Registered t) :
    (splitNewlines (sourceOf t).code).filter isImportLine
      = (sourceOf t).components.map Source.importLine := by
  have hlines := ne_newline_of_mem_importLine (registered_eraseDups hreg)
  have hmarkup : (splitNewlines (markupOf 0 t)).filter isImportLine = [] := by
    have hled : Led Leads (markupOf 0 t) := by
      simpa using led_markupOf (fun _ h => h) t 0 [] ht hreg trivial
    have hleads : Leads (markupOf 0 t) := by simpa using leads_markupOf 0 t []
    rw [List.filter_eq_nil_iff]
    intro line hline
    simp [not_isImportLine_of_mem_markup hleads hled line hline]
  have himports :
      (splitNewlines (joined ['\n'] (t.types.eraseDups.map Source.importLine))).filter isImportLine
      = t.types.eraseDups.map Source.importLine := by
    rw [splitNewlines_joined hlines]
    split
    · rename_i hnil
      rw [hnil]
      rfl
    · rw [List.filter_eq_self]
      intro line hline
      obtain ⟨name, _, rfl⟩ := List.mem_map.mp hline
      exact isImportLine_importLine name
  have hhead : [[], Source.header, "  return (".toList].filter isImportLine = [] := by decide
  have hend : ["  );".toList, "\x7d".toList, []].filter isImportLine = [] := by decide
  show (splitNewlines (Source.assemble _ (markupOf 0 t))).filter isImportLine = _
  rw [splitNewlines_assemble, List.filter_append, List.filter_append, List.filter_append, himports,
    hmarkup, hhead, hend]
  simp [sourceOf]

end Wireframe.Lint
