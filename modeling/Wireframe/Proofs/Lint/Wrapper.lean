import Wireframe.Proofs.Lint.Lines
import Wireframe.Proofs.Lint.Messages
import Wireframe.Proofs.Text.Pieces

/-! The parts of a generated module, as the check finds them. -/
namespace Wireframe.Lint
open Markup Text

variable {t : Tree} {names : List String} {s r : List Char} {before : Option Char} {name : String}
variable {v : Violation}

theorem wrapperOpening_header (before : Option Char) (r : List Char) :
    wrapperOpening before (Source.header ++ r) = some ((), r) := rfl

theorem wrapperOpening_eq_none (h : after? "export".toList s = none) :
    wrapperOpening before s = none := by
  rw [wrapperOpening, h]
  rfl

/-- The word that opens the function starts nowhere in front of it, for want of its second letter.
-/
theorem after?_export_eq_none {a : List Char} (ha : a ≠ []) (hx : ∀ c ∈ a, c ≠ 'x') :
    after? "export".toList (a ++ (Source.header ++ r)) = none := by
  have hword : "export".toList = 'e' :: 'x' :: "port".toList := by decide
  have hheader : Source.header = 'e' :: Source.header.tail := by decide
  rw [← Option.not_isSome_iff_eq_none]
  intro hsome
  obtain ⟨rest, hrest⟩ := Option.isSome_iff_exists.mp hsome
  have heq := after?_eq_some_iff.mp hrest
  rw [hword, hheader] at heq
  cases a with
  | nil => exact ha rfl
  | cons c a =>
    have htail := (List.cons.inj heq).2
    cases a with
    | nil => exact absurd (List.cons.inj htail).1 (by decide)
    | cons d a => exact hx d (by simp) (List.cons.inj htail).1

theorem search_wrapperOpening (h : ∀ name ∈ names, Component.isRegistered name = true)
    (r : List Char) : search wrapperOpening none (Source.importsOf names ++ (Source.header ++ r))
      = some (Source.importsOf names, (), r) := by
  have hmiss : ∀ x y, Source.importsOf names = x ++ y → y ≠ [] →
      wrapperOpening (lastRead none x) (y ++ (Source.header ++ r)) = none := by
    intro x y hxy hy
    refine wrapperOpening_eq_none (after?_export_eq_none hy ?_)
    rintro c hc rfl
    have hmem : 'x' ∈ Source.importsOf names := by simp [hxy, hc]
    rcases Source.not_isAbsent_of_mem_importsOf h hmem with hx | hx <;> revert hx <;> decide
  have hheader : search wrapperOpening (lastRead none (Source.importsOf names)) (Source.header ++ r)
      = some ([], (), r) := search_hit (wrapperOpening_header _ r)
  rw [search_append hmiss, hheader]
  exact congrArg (fun front => some (front, (), r)) (List.append_nil _)

/-- A closing line needs a brace right behind a newline. -/
theorem closingLine_eq_none (h : before ≠ some '\n' ∨ s.head? ≠ some '\x7d') :
    closingLine before s = none := by
  cases s with
  | nil => rfl
  | cons c s =>
    rw [closingLine]
    by_cases hc : c = '\x7d'
    · have hbefore : before ≠ some '\n' := by simpa [hc] using h
      simp [hc, after?, hbefore]
    · simp [after?, Ne.symm hc]

/-- The text behind a newline does not start with a closing brace. -/
def Unclosed (s : List Char) : Prop := s.head? ≠ some '\x7d'

theorem unclosed_of_leads (h : Leads s) : Unclosed s := by
  obtain ⟨blanks, c, rest, rfl, hb, hc⟩ := h
  cases blanks with
  | nil => rcases hc with rfl | rfl <;> simp [Unclosed]
  | cons b blanks =>
    rw [hb b List.mem_cons_self]
    simp [Unclosed]

/-- The text between the braces of the function. -/
def bodyOf (markup : List Char) : List Char := Source.returning ++ (markup ++ "\n  );\n".toList)

theorem assemble_eq_body (names : List String) (markup : List Char) :
    Source.assemble names markup
      = Source.importsOf names ++ (Source.header ++ (bodyOf markup ++ ['\x7d', '\n'])) := by
  have hending : Source.ending = "\n  );\n".toList ++ ['\x7d', '\n'] := by decide
  rw [Source.assemble_eq, Source.header_eq, bodyOf, hending]
  simp only [List.append_assoc, List.cons_append, List.nil_append]

theorem led_bodyOf (ht : t.Accepted) (hreg : Registered t) :
    Led Unclosed (bodyOf (markupOf 0 t)) := by
  have hend : Led Unclosed "\n  );\n".toList := by
    simp [Led, Unclosed]
  have hmarkup := led_markupOf (fun _ => unclosed_of_leads) t 0 _ ht hreg hend
  have hblanks : ∀ c ∈ "  return (".toList, c ≠ '\n' := forall_of_all (by decide)
  have hsplit : bodyOf (markupOf 0 t)
      = '\n' :: ("  return (".toList ++ '\n' :: (markupOf 0 t ++ "\n  );\n".toList)) := rfl
  rw [hsplit]
  apply led_newline
  · simp [Unclosed]
  · rw [led_append_of_free hblanks]
    exact led_newline (unclosed_of_leads (leads_markupOf 0 t _)) hmarkup

/-- The first line that is just a brace is the last of the module. -/
theorem search_closingLine (ht : t.Accepted) (hreg : Registered t) :
    search closingLine (some '\x7b') (bodyOf (markupOf 0 t) ++ ['\x7d', '\n'])
      = some (bodyOf (markupOf 0 t), (), ['\n']) := by
  have hled := led_bodyOf ht hreg
  have hmiss : ∀ x y, bodyOf (markupOf 0 t) = x ++ y → y ≠ [] →
      closingLine (lastRead (some '\x7b') x) (y ++ ['\x7d', '\n']) = none := by
    intro x y hxy hy
    apply closingLine_eq_none
    rcases List.eq_nil_or_concat' x with rfl | ⟨x, c, rfl⟩
    · left; decide
    · rw [lastRead_concat]
      by_cases hc : c = '\n'
      · right
        subst c
        have hy' : Unclosed y := Led.of_append (by simpa [hxy] using hled)
        cases y with
        | nil => exact (hy rfl).elim
        | cons d y => exact hy'
      · left
        simpa using hc
  have hlast : lastRead (some '\x7b') (bodyOf (markupOf 0 t)) = some '\n' := by
    have hsplit : bodyOf (markupOf 0 t)
        = (Source.returning ++ (markupOf 0 t ++ "\n  );".toList)) ++ ['\n'] := by
      have hend : "\n  );\n".toList = "\n  );".toList ++ ['\n'] := by decide
      rw [bodyOf, hend]
      simp only [List.append_assoc]
    rw [hsplit, lastRead_concat]
  have hclose : search closingLine (some '\n') ['\x7d', '\n'] = some ([], (), ['\n']) := rfl
  rw [search_append hmiss, hlast, hclose]
  exact congrArg (fun front => some (front, (), ['\n'])) (List.append_nil _)

/-- The check finds the function that was written, and its whole body. -/
theorem parts?_sourceOf (ht : t.Accepted) (hreg : Registered t) :
    parts? (sourceOf t).code
      = some ⟨Source.importsOf t.types.eraseDups, bodyOf (markupOf 0 t), ['\n']⟩ := by
  have hcode : (sourceOf t).code = Source.importsOf t.types.eraseDups
      ++ (Source.header ++ (bodyOf (markupOf 0 t) ++ ['\x7d', '\n'])) := assemble_eq_body _ _
  rw [parts?, hcode, search_wrapperOpening (registered_eraseDups hreg)]
  simp only [Option.bind_eq_bind, Option.bind_some, search_closingLine ht hreg]
  rfl

/-! Nothing but imports stands around the function. -/

theorem linesFrom_append {current line : List Char} (h : ∀ c ∈ line, isLineEnd c = false)
    (s : List Char) :
    linesFrom current (line ++ '\n' :: s) = (current.reverse ++ line) :: lines s := by
  have hend : isLineEnd '\n' = true := by decide
  induction line generalizing current with
  | nil =>
    rw [List.nil_append, linesFrom, if_pos hend, List.append_nil]
    · rfl
    · simp
  | cons c line ih =>
    have hc := h c List.mem_cons_self
    have htail : linesFrom (c :: current) (line ++ '\n' :: s)
        = ((c :: current).reverse ++ line) :: lines s :=
      ih fun d hd => h d (List.mem_cons_of_mem _ hd)
    rw [List.cons_append, linesFrom, hc, if_neg (by decide), htail]
    · simp
    · rintro rest rfl
      exact absurd hc (by decide)

theorem lines_append {line : List Char} (h : ∀ c ∈ line, isLineEnd c = false) (s : List Char) :
    lines (line ++ '\n' :: s) = line :: lines s :=
  linesFrom_append h s

/-- The lines of the imports are the imports and empty lines. -/
theorem of_mem_lines {imports : List (List Char)}
    (h : ∀ line ∈ imports, ∀ c ∈ line, isLineEnd c = false) :
    ∀ line ∈ lines (joined ['\n'] imports ++ "\n\n".toList), line = [] ∨ line ∈ imports := by
  have hblank : "\n\n".toList = ['\n', '\n'] := by decide
  have hnil : lines ['\n'] = [[]] := by decide
  rw [hblank]
  induction imports with
  | nil =>
    intro line hline
    have : lines ['\n', '\n'] = [[], []] := by decide
    rw [joined, List.nil_append, this] at hline
    simpa using hline
  | cons first imports ih =>
    have hfirst := h first List.mem_cons_self
    have hrest := ih fun line hline => h line (List.mem_cons_of_mem _ hline)
    intro line hline
    cases imports with
    | nil =>
      rw [joined, lines_append hfirst, hnil] at hline
      simpa [or_comm] using hline
    | cons next imports =>
      rw [joined, List.append_assoc, List.append_assoc, List.singleton_append,
        lines_append hfirst] at hline
      · rcases List.mem_cons.mp hline with rfl | hline
        · exact .inr List.mem_cons_self
        · exact (hrest line hline).imp id (List.mem_cons_of_mem _)
      · simp

theorem isLineEnd_of_mem_importLine (h : ∀ name ∈ names, Component.isRegistered name = true) :
    ∀ line ∈ names.map Source.importLine, ∀ c ∈ line, isLineEnd c = false := by
  intro line hline c hc
  obtain ⟨name, hname, rfl⟩ := List.mem_map.mp hline
  have habsent := Source.not_isAbsent_of_mem_importLine (h name hname) hc
  simp only [Source.isAbsent, Bool.or_eq_false_iff] at habsent
  exact habsent.2

theorem trim_importLine (name : String) :
    trim (Source.importLine name) = Source.importLine name := by
  rw [Source.importLine_eq]
  apply trim_eq_self
  · intro c hc
    obtain rfl : 'i' = c := Option.some.inj hc
    decide
  · intro c hc
    have hend : "';".toList = ['\'', ';'] := by decide
    simp only [hend, List.getLast?_append] at hc
    obtain rfl : ';' = c := by simpa using hc
    decide

/-- Around the function there are only imports and empty lines. -/
theorem outsideViolations_eq_nil (h : ∀ name ∈ names, Component.isRegistered name = true)
    (body : List Char) : outsideViolations ⟨Source.importsOf names, body, ['\n']⟩ = [] := by
  have hnil : lines ['\n'] = [[]] := by decide
  have hline : ∀ line ∈ lines (Source.importsOf names) ++ lines ['\n'],
      line = [] ∨ line ∈ names.map Source.importLine := by
    intro line hline
    rcases List.mem_append.mp hline with hline | hline
    · exact of_mem_lines (isLineEnd_of_mem_importLine h) line hline
    · rw [hnil] at hline
      exact .inl (List.mem_singleton.mp hline)
  rw [outsideViolations, List.filterMap_eq_nil_iff]
  intro line hmem
  rcases hline line hmem with rfl | hmem
  · rfl
  · obtain ⟨name, _, rfl⟩ := List.mem_map.mp hmem
    have himport : (wholeWord? "import".toList (Source.importLine name)).isSome = true := by
      rw [Source.importLine_eq]
      rfl
    simp only [trim_importLine, himport, Bool.or_true, if_true]

theorem occurs_returnWord (markup : List Char) : occurs returnWord (bodyOf markup) = true := rfl

/-- The imports of components are let pass. -/
theorem importViolations_importLine (h : Component.isRegistered name = true) :
    importViolations (Source.importLine name) = [] := by
  have hall : ∀ k ∈ Component.all, importViolations (Source.importLine k.name) = [] := by
    decide +kernel
  obtain ⟨k, hk, rfl⟩ := Source.exists_component h
  exact hall k hk

/-- What is wrong with the function of a generated module is wrong with its body. -/
theorem wrapperViolations_sourceOf (ht : t.Accepted) (hreg : Registered t) :
    wrapperViolations (sourceOf t).code = bodyViolations (mask (bodyOf (markupOf 0 t))) := by
  rw [wrapperViolations, parts?_sourceOf ht hreg]
  simp only [outsideViolations_eq_nil (registered_eraseDups hreg), occurs_returnWord, if_true,
    List.nil_append]

theorem frameless_wrapperViolations (ht : t.Accepted) (hreg : Registered t) :
    Frameless (wrapperViolations (sourceOf t).code) := by
  rw [wrapperViolations_sourceOf ht hreg]
  exact frameless_bodyViolations _

/-- The imports of a generated module are let pass. -/
theorem allImportViolations_sourceOf (ht : t.Accepted) (hreg : Registered t) :
    allImportViolations (sourceOf t).code
      = (findAll dynamicCall (sourceOf t).code).map fun keyword => .dynamicCall (String.ofList keyword) := by
  have himports : ((sourceOf t).components.map Source.importLine).flatMap
      (fun line => importViolations (trim line)) = [] := by
    rw [List.flatMap_eq_nil_iff]
    intro line hline
    obtain ⟨name, hname, rfl⟩ := List.mem_map.mp hline
    rw [trim_importLine, importViolations_importLine (registered_eraseDups hreg name hname)]
  rw [allImportViolations, filter_isImportLine_sourceOf ht hreg, himports, List.nil_append]

theorem frameless_allImportViolations (ht : t.Accepted) (hreg : Registered t) :
    Frameless (allImportViolations (sourceOf t).code) := by
  rw [allImportViolations_sourceOf ht hreg]
  exact frameless_map (fun _ => rfl) _

theorem frameless_violations (ht : t.Accepted) (hreg : Registered t) :
    Frameless (violations (sourceOf t).code) := by
  have hstyle : Frameless (styleViolations (sourceOf t).code) :=
    (frameless_map (fun _ => rfl) _).append (frameless_whereOccurs _ rfl _)
  have hdeclaration : Frameless (declarationViolations (sourceOf t).code) :=
    frameless_map (fun _ => rfl) _
  have htag : Frameless (tagViolations (sourceOf t).code) := by
    intro v hv
    obtain ⟨name, _, hname⟩ := List.mem_filterMap.mp hv
    simp only at hname
    split at hname
    · cases hname
    · cases hname
      rfl
  exact ((((frameless_wrapperViolations ht hreg).append (frameless_allImportViolations ht hreg)).append
    hstyle).append hdeclaration).append htag

theorem message_not_mem_errors {source : List Char} (h : Frameless (violations source))
    (hv : v.isFrame = true) : v.message ∉ (check source).errors := by
  intro hmem
  obtain ⟨w, hw, heq⟩ := List.mem_map.mp (List.mem_eraseDups.mp hmem)
  obtain rfl : w = v := Violation.message_inj (isFinding_of_mem hw) (isFinding_of_isFrame hv) heq
  rw [h w hw] at hv
  cases hv

/-- A generated module has the frame that the check asks for. Whatever its texts say, the check
finds the function that was written, with all that stands between its braces as its body, and only
imports of components around it. -/
theorem frame_of_generate {bounds : Json.Bounds} {plan : Plan} {limit : Quantity} {source : Source}
    (hp : plan.layout.Accepted) (h : Source.generate bounds plan limit = .ok source) :
    ∃ lines, Markup.render bounds plan.layout limit = .ok lines
      ∧ source.code = Source.importsOf source.components
          ++ (Source.header ++ (bodyOf (Markup.text lines) ++ ['\x7d', '\n']))
      ∧ parts? source.code
          = some ⟨Source.importsOf source.components, bodyOf (Markup.text lines), ['\n']⟩
      ∧ ∀ v : Violation, v.isFrame = true →
          v ∉ violations source.code ∧ v.message ∉ (check source.code).errors := by
  obtain ⟨lines, hlines, _⟩ := Outcome.bind_eq_ok h
  obtain ⟨t, ht, hreg, rfl⟩ := renders_of_renderRef hp (render_eq _ _ _ ▸ hlines)
  obtain ⟨u, hu, hacc, _, rfl⟩ := exists_tree_of_generate hp h
  obtain rfl : u = t := hu.unique ⟨_, ht⟩
  have hframe := frameless_violations hacc hreg
  refine ⟨_, hlines, assemble_eq_body _ _, parts?_sourceOf hacc hreg, ?_⟩
  intro v hv
  refine ⟨?_, message_not_mem_errors hframe hv⟩
  intro hmem
  rw [hframe v hmem] at hv
  cases hv

theorem frame_of_hostile_text :
    let t := Tree.node "Card" (some [("title", .text "\n\x7d\nimport React from 'react';"),
      ("children", .text "export default function GeneratedUI() \x7b")]) none
    ∃ source, Source.generate .none (.ofTree "" t) (.whole 1) = .ok source
      ∧ Violation.noWrapper ∉ violations source.code := by
  intro t
  have ht : t.Accepted := .node ⟨by decide, by decide, by decide⟩ (List.forall_mem_nil _)
  have hp := Layout.accepted_ofTree ht
  have h : Source.generate .none (.ofTree "" t) (.whole 1) = .ok (sourceOf t) :=
    generate_of_tree? hp (Layout.fits_unbounded _) rfl (by decide)
  obtain ⟨_, _, _, _, hframe⟩ := frame_of_generate hp h
  exact ⟨_, h, (hframe .noWrapper rfl).1⟩

end Wireframe.Lint
