import Wireframe.Proofs.Lint.Copy
import Wireframe.Proofs.Source.Limit

/-! Plain copy in a module. A node with a title and a text of inert characters always has a module, and what the
check says about the module is told from the two texts as they are written. -/
namespace Wireframe.Lint
open Markup Text

variable {i j s u : List Char} {type : String}

theorem isCopy_of_isInert {c : Char} (hc : isInert c = true) : isCopy c = true := by
  rw [isCopy, hc, Bool.true_or]

/-- The escape of an inert character is copy. -/
theorem isCopy_of_mem_escape {c e : Char} (hc : isInert c = true) (he : e ∈ escape c) : isCopy e = true := by
  have hplain {e : Char} (h : e.isAlphanum = true) : isCopy e = true := by
    refine isCopy_of_isInert (isInert_of_isWord ?_).1
    have hlimit := toNat_of_isAlphanum h
    rw [isWord, isAlphanumeric, if_pos (by omega), h, Bool.or_true]
  generalize hw : escape c = written at he
  have hescaped : Escaped c written := hw ▸ escaped_escape c
  cases hescaped with
  | plain =>
    obtain rfl := List.mem_singleton.mp he
    exact isCopy_of_isInert hc
  | @short letter h halpha =>
    rcases List.mem_cons.mp he with rfl | he
    · decide
    · obtain rfl := List.mem_singleton.mp he
      rcases halpha with halpha | rfl | rfl
      · exact hplain (by simp [Char.isAlphanum, halpha])
      · cases h
        cases hc
      · decide
  | unit _ _ ha hb =>
    simp only [List.mem_cons, List.not_mem_nil, or_false] at he
    rcases he with rfl | rfl | rfl | rfl | rfl | rfl
    · decide
    · decide
    · decide
    · decide
    · exact hplain ha
    · exact hplain hb

theorem isCopy_of_mem_escapes (hs : ∀ c ∈ s, isInert c = true) : ∀ e ∈ s.flatMap escape, isCopy e = true := by
  intro e he
  obtain ⟨c, hc, he⟩ := List.mem_flatMap.mp he
  exact isCopy_of_mem_escape (hs c hc) he

/-- The signs around copy are no part of what is reported in it. -/
theorem isReported_wrapped {around : List Char × List Char} (h : around ∈ [unquoted, quoted, expressed])
    (s : List Char) : isReported (around.1 ++ (s ++ around.2)) = isReported s := by
  simp only [List.mem_cons, List.not_mem_nil, or_false] at h
  rcases h with rfl | h
  · rw [unquoted, List.nil_append, List.append_nil]
  have hends : EndsDivided around.1 ∧ StartsDivided around.2 := by
    rcases h with rfl | rfl
    · exact ⟨⟨[], '"', rfl, by decide⟩, '"', [], rfl, by decide⟩
    · exact ⟨⟨['\x7b'], '"', rfl, by decide⟩, '"', ['\x7d'], rfl, by decide⟩
  have hwords : (∀ c ∈ around.1, isWord c = false) ∧ ∀ c ∈ around.2, isWord c = false := by
    rcases h with rfl | rfl <;> exact ⟨forall_of_all (by decide), forall_of_all (by decide)⟩
  have hescape : '\\' ∉ around.1 ∧ '\\' ∉ around.2 := by
    rcases h with rfl | rfl <;> decide
  have hsame {α : Type} {r : Recogniser α} {f : List Char → Option (α × List Char)} (hedge : r = atEdge f)
      (hr : Divided r) : occurs r (around.1 ++ (s ++ around.2)) = occurs r s := by
    have hquiet {s : List Char} (hs : ∀ c ∈ s, isWord c = false) : occurs r s = false := by
      rw [hedge]
      exact occurs_atEdge_eq_false hs
    rw [hr.occurs_behind hends.1, hr.occurs_before s hends.2, hquiet hwords.1, hquiet hwords.2, Bool.false_or,
      Bool.or_false]
  have hcontains : (around.1 ++ (s ++ around.2)).contains '\\' = s.contains '\\' := by
    simp [hescape]
  rw [isReported, isReported, isBared, isBared, hcontains,
    hsame (r := componentDeclaration) rfl divided_componentDeclaration,
    hsame (r := innerHtmlWord) rfl divided_innerHtmlWord, hsame (r := functionWord) rfl divided_functionWord,
    hsame (r := bindingDeclaration) rfl divided_bindingDeclaration,
    hsame (r := consoleMember) rfl divided_consoleMember, hsame (r := debuggerWord) rfl divided_debuggerWord]

/-- The tree of one node with a text and a title. -/
def copyTree (type : String) (s u : List Char) : Tree :=
  .node type (some [("children", .text (String.ofList s)), ("title", .text (String.ofList u))]) none

theorem accepted_copyTree (type : String) (s u : List Char) : (copyTree type s u).Accepted := by
  refine .node ⟨rfl, ?_, ?_⟩ (List.forall_mem_nil _)
  · show ["children", "title"].Nodup
    decide
  · intro e he
    simp only [copyTree, Tree.props, Option.getD_some, List.mem_cons, List.not_mem_nil, or_false] at he
    rcases he with rfl | rfl <;> rfl

theorem fits_copyTree (bounds : Json.Bounds) (type : String) (s u : List Char) :
    (Layout.ofTree (copyTree type s u)).Fits bounds := by
  refine Layout.fits_ofTree (.node (fun e he => ?_) (List.forall_mem_nil _))
  have he : e = ("title", .text (String.ofList u)) := List.mem_singleton.mp he
  subst he
  exact Value.fits_text bounds _

theorem attributesOf_copyTree (type : String) (s u : List Char) :
    attributesOf (copyTree type s u).props = " title".toList ++ '=' :: valueText (.text (String.ofList u)) := by
  have hattributes : Props.attributes (copyTree type s u).props = [("title", .text (String.ofList u))] := rfl
  have hname : " title".toList = ' ' :: "title".toList := by decide
  rw [attributesOf, sortedAttributes, hattributes, sortByText, List.mergeSort_singleton, List.flatMap_singleton,
    attributeOf, hname, List.cons_append]

theorem bodyOf_copyTree (type : String) (s u : List Char) : bodyOf (markupOf 0 (copyTree type s u))
    = Writing.lead type.toList ++ '=' :: (valueText (.text (String.ofList u)) ++ '>' :: (contentOf (String.ofList s)
      ++ ("</".toList ++ (type.toList ++ ">\n  );\n".toList)))) := by
  have hlines : linesOf 0 (copyTree type s u)
      = [.wrapped 0 type.toList (attributesOf (copyTree type s u).props) (contentOf (String.ofList s))] := rfl
  have hindent : Source.returning ++ (Line.indent 0 ++ ['<']) = "\n  return (\n    <".toList := by decide
  have hclose : "</".toList = ['<', '/'] := by decide
  have hend : ">\n  );\n".toList = '>' :: "\n  );\n".toList := by decide
  have hmarkup : markupOf 0 (copyTree type s u) = Line.indent 0 ++ '<' :: (type.toList
      ++ attributesOf (copyTree type s u).props
      ++ '>' :: (contentOf (String.ofList s) ++ '<' :: '/' :: (type.toList ++ ['>']))) := by
    rw [markupOf, hlines]
    rfl
  rw [hmarkup, attributesOf_copyTree]
  unfold bodyOf Writing.lead
  simp only [← hindent, hclose, hend, List.append_assoc, List.cons_append, List.nil_append]

theorem code_copyTree (type : String) (s u : List Char) : (sourceOf (copyTree type s u)).code
    = "import ".toList ++ (type.toList ++ (" from '@/components/ui/".toList ++ (type.toList
      ++ ("';\n\nexport default function GeneratedUI() \x7b".toList
        ++ (bodyOf (markupOf 0 (copyTree type s u)) ++ ['\x7d', '\n']))))) := by
  have htypes : (copyTree type s u).types.eraseDups = [type] := by
    rw [Tree.types_eq]
    rfl
  have hheader : "';\n\nexport default function GeneratedUI() \x7b".toList
      = "';".toList ++ ("\n\n".toList ++ Source.header) := by decide
  rw [sourceOf, htypes]
  show Source.assemble [type] (markupOf 0 (copyTree type s u)) = _
  rw [assemble_eq_body, Source.importsOf, List.map_singleton, joined, Source.importLine_eq]
  simp only [hheader, List.append_assoc]

theorem braced_spellText (s : List Char) :
    braced (spellText s) = expressed.1 ++ (s.flatMap escape ++ expressed.2) := by
  simp [braced, spellText, expressed]

theorem valueText_of_copy (u : List Char) : valueText (.text (String.ofList u))
    = if isPlainAttribute u then quoted.1 ++ (u ++ quoted.2)
      else expressed.1 ++ (u.flatMap escape ++ expressed.2) := by
  rw [valueText, String.toList_ofList, braced_spellText]
  rfl

theorem contentOf_of_copy (s : List Char) : contentOf (String.ofList s)
    = if isPlainContent s then unquoted.1 ++ (s ++ unquoted.2)
      else expressed.1 ++ (s.flatMap escape ++ expressed.2) := by
  rw [contentOf, String.toList_ofList, braced_spellText]
  simp [unquoted]

theorem holds_of_written {w : Writing} (hi : ∀ c ∈ i, isCopy c = true) (hj : ∀ c ∈ j, isCopy c = true)
    (htitle : valueText (.text (String.ofList u)) = w.title.1 ++ (i ++ w.title.2))
    (htext : contentOf (String.ofList s) = w.text.1 ++ (j ++ w.text.2)) :
    Holds (copyTree type s u) w type i j := by
  have hbody : bodyOf (markupOf 0 (copyTree type s u)) = w.body type.toList i j := by
    simp only [bodyOf_copyTree, htitle, htext, Writing.body, Writing.front, Writing.between, Writing.rear,
      List.append_assoc, List.cons_append]
  refine ⟨hbody, (code_copyTree type s u).trans ?_, hi, hj⟩
  rw [hbody]
  unfold Writing.body codeFront codeRear
  simp only [List.append_assoc]

/-- The title and the text of such a tree, in the way in which they are written. -/
theorem exists_holds (type : String) (hu : ∀ c ∈ u, isInert c = true) (hs : ∀ c ∈ s, isInert c = true)
    (hplain : isPlainContent s = true → isPlainAttribute u = true) :
    ∃ w i j, Holds (copyTree type s u) w type i j
      ∧ valueText (.text (String.ofList u)) = w.title.1 ++ (i ++ w.title.2)
      ∧ contentOf (String.ofList s) = w.text.1 ++ (j ++ w.text.2) := by
  have hinert {s : List Char} (hs : ∀ c ∈ s, isInert c = true) : ∀ c ∈ s, isCopy c = true :=
    fun c hc => isCopy_of_isInert (hs c hc)
  have htitle := valueText_of_copy u
  have htext := contentOf_of_copy s
  by_cases hattribute : isPlainAttribute u = true
  · rw [if_pos hattribute] at htitle
    by_cases hcontent : isPlainContent s = true
    · rw [if_pos hcontent] at htext
      exact ⟨.plain, u, s, holds_of_written (hinert hu) (hinert hs) htitle htext, htitle, htext⟩
    · rw [if_neg hcontent] at htext
      exact ⟨.mixed, u, _, holds_of_written (hinert hu) (isCopy_of_mem_escapes hs) htitle htext, htitle, htext⟩
  · rw [if_neg hattribute] at htitle
    rw [if_neg fun hcontent => hattribute (hplain hcontent)] at htext
    exact ⟨.braced, _, _, holds_of_written (isCopy_of_mem_escapes hu) (isCopy_of_mem_escapes hs) htitle htext,
      htitle, htext⟩

/-- A text without control characters is written without escapes. -/
theorem flatMap_escape_of_copy (hs : ∀ c ∈ s, isInert c = true) (hcontrol : ∀ c ∈ s, 32 ≤ c.toNat) :
    s.flatMap escape = s := by
  induction s with
  | nil => rfl
  | cons c s ih =>
    obtain ⟨hc, hs⟩ := List.forall_mem_cons.mp hs
    obtain ⟨hn, hcontrol⟩ := List.forall_mem_cons.mp hcontrol
    have hplain : escape c = [c] := by
      have hsign {d : Char} (hd : isInert d = false) : c ≠ d := by
        rintro rfl
        rw [hc] at hd
        cases hd
      have hlow {d : Char} (hd : d.toNat < 32) : c ≠ d := by
        rintro rfl
        omega
      have hescaped : Json.escapedChar false c = [c] := by
        rw [Json.escapedChar, if_neg, if_neg (hlow (by decide)), if_neg (hlow (by decide)), if_neg (hlow (by decide)),
          if_neg (hlow (by decide)), if_neg (hlow (by decide)), if_neg]
        · simp
          omega
        · exact not_or.mpr ⟨hsign (by decide), hsign (by decide)⟩
      rw [escape, hescaped, List.flatMap_singleton, bracketFree, if_neg (hsign (by decide)),
        if_neg (hsign (by decide))]
    rw [List.flatMap_cons, hplain, ih hs hcontrol]
    rfl

theorem registered_copyTree (hk : Component.isRegistered type = true) (s u : List Char) :
    Registered (copyTree type s u) := by
  intro name hname
  rw [Tree.types_eq] at hname
  obtain rfl : name = type := by simpa [copyTree, Tree.childList, Tree.children, Tree.type] using hname
  exact hk

/-- The module of such a tree is always made. -/
theorem generate_copyTree (bounds : Json.Bounds) (intent : String) (hk : Component.isRegistered type = true)
    (s u : List Char) {bound : Int} (hbound : 0 < bound) :
    Source.generate bounds (.ofTree intent (copyTree type s u)) (.whole bound)
      = .ok (sourceOf (copyTree type s u)) := by
  refine generate_of_tree? (Layout.accepted_ofTree (accepted_copyTree type s u)) (fits_copyTree bounds type s u) ?_
    (registered_copyTree hk s u)
  obtain ⟨levels, hlevels⟩ : ∃ levels, bound.toNat = levels + 1 := ⟨bound.toNat - 1, by omega⟩
  rw [Markup.levels, Quantity.room_whole, hlevels]
  rfl

theorem isValid_iff {source : List Char} : (check source).isValid = true ↔ violations source = [] := by
  rw [Report.isValid, List.isEmpty_iff, check, List.eq_nil_iff_forall_not_mem, List.eq_nil_iff_forall_not_mem]
  simp only [List.mem_eraseDups, List.mem_map, not_exists, not_and]
  exact ⟨fun h v hv => h v.message v hv rfl, fun h _ v hv => (h v hv).elim⟩

/-- What the check of a module says about plain copy, a text and the same text without the blanks at its ends as
the title. The module is always made. It passes just when nothing is reported in the two texts as they are
written: no component is declared in them and they do not set markup, and where one is written with an escape
there is no function, no declaration, no member of the console and no debugger in it. A text without control
characters is written without escapes. -/
theorem isValid_iff_of_copy (bounds : Json.Bounds) (intent : String) (hk : Component.isRegistered type = true)
    (hs : ∀ c ∈ s, isInert c = true) {bound : Int} (hbound : 0 < bound) :
    ∃ source, Source.generate bounds (.ofTree intent (copyTree type s (trim s))) (.whole bound) = .ok source
      ∧ ((check source.code).isValid = true ↔ isReported (valueText (.text (String.ofList (trim s)))) = false
        ∧ isReported (contentOf (String.ofList s)) = false)
      ∧ ((∀ c ∈ s, 32 ≤ c.toNat) → '\\' ∉ valueText (.text (String.ofList (trim s)))
        ∧ '\\' ∉ contentOf (String.ofList s)) := by
  have hacc := accepted_copyTree type s (trim s)
  have hreg := registered_copyTree hk s (trim s)
  have hmem : ∀ c ∈ trim s, c ∈ s := by
    obtain ⟨x, y, heq, -, -⟩ := exists_trim s
    intro c hc
    rw [heq]
    exact List.mem_append_right _ (List.mem_append_left _ hc)
  have hplain (h : isPlainContent s = true) : isPlainAttribute (trim s) = true := by
    simp only [isPlainContent, Bool.and_eq_true, decide_eq_true_eq] at h
    rw [← h.2]
    exact h.1
  obtain ⟨w, i, j, hholds, htitle, htext⟩ := exists_holds type (fun c hc => hs c (hmem c hc)) hs hplain
  refine ⟨sourceOf (copyTree type s (trim s)), generate_copyTree bounds intent hk s (trim s) hbound, ?_, ?_⟩
  · have htitles : w.title ∈ [unquoted, quoted, expressed] := by cases w <;> decide
    have htexts : w.text ∈ [unquoted, quoted, expressed] := by cases w <;> decide
    rw [htitle, htext, isReported_wrapped htitles, isReported_wrapped htexts,
      ← violations_of_holds hholds hacc hreg hk, isValid_iff]
  · intro hcontrol
    have hback {u : List Char} (hu : ∀ c ∈ u, c ∈ s) : '\\' ∉ u := by
      intro hmem
      exact absurd (hs _ (hu _ hmem)) (by decide)
    have hescape {u : List Char} (hu : ∀ c ∈ u, c ∈ s) : u.flatMap escape = u :=
      flatMap_escape_of_copy (fun c hc => hs c (hu c hc)) fun c hc => hcontrol c (hu c hc)
    rw [valueText_of_copy, contentOf_of_copy, hescape hmem, hescape fun _ hc => hc]
    constructor
    · split <;> simp [quoted, expressed, hback hmem]
    · split <;> simp [unquoted, expressed, hback fun _ hc => hc]

/-- The name of a class is reported in any copy. -/
example : isReported (contentOf "class LoginComponent") = true := by decide +kernel

/-- A sentence passes as the copy of a card. -/
theorem isValid_of_sentence : ∃ source,
    Source.generate .none (.ofTree "a notice" (copyTree "Card" "Let us know when const names ship.".toList
      (trim "Let us know when const names ship.".toList))) (.whole 50) = .ok source
      ∧ (check source.code).isValid = true := by
  have hinert : ∀ c ∈ "Let us know when const names ship.".toList, isInert c = true := forall_of_all (by decide)
  have hcard : Component.isRegistered "Card" = true := by decide
  have hbound : (0 : Int) < 50 := by decide
  obtain ⟨source, hsource, hvalid, -⟩ := isValid_iff_of_copy .none "a notice" hcard hinert hbound
  exact ⟨source, hsource, hvalid.mpr ⟨by decide +kernel, by decide +kernel⟩⟩

/-- Copy with an ampersand and a tab is written with an escape, and the words beside the escape are taken for a
declaration. -/
theorem not_isValid_of_tab : ¬ ∀ (s : List Char) (type : String), Component.isRegistered type = true →
    (∀ c ∈ s, isInert c = true) → ∃ source,
      Source.generate .none (.ofTree "a notice" (copyTree type s (trim s))) (.whole 50) = .ok source
        ∧ (check source.code).isValid = true := by
  intro h
  have hinert : ∀ c ∈ "terms & let me\tknow".toList, isInert c = true := forall_of_all (by decide)
  obtain ⟨source, hsource, hvalid⟩ := h "terms & let me\tknow".toList "Card" (by decide) hinert
  rw [generate_copyTree .none "a notice" (by decide) _ _ (by decide)] at hsource
  cases hsource
  revert hvalid
  decide +kernel

end Wireframe.Lint
