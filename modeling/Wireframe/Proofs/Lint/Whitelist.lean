import Wireframe.Layout.Check
import Wireframe.Proofs.Lint.Frame
import Wireframe.Proofs.Lint.Tags
import Wireframe.Proofs.Text.Blanks

/-! The tags of any source against the list of components. Of the name of an opening tag the check reads
the front, up to the first character that no name of a component may have, and holds only this front
against the list. -/
namespace Wireframe.Lint
open Text

variable {s u v name source : List Char} {before : Option Char} {n : Nat} {w : Violation}
variable {limit : Quantity} {withProps : Bool}

/-- A character that can stand inside the name of a tag as a reader of the source sees it. -/
def continuesName (c : Char) : Bool := isWord c || c = '$' || c = '.' || c = '-' || c = ':'

/-- The name of a tag as a reader of the source sees it. -/
def IsTagName (name : List Char) : Prop :=
  name.head?.any isLetter = true ∧ ∀ c ∈ name, continuesName c = true

/-- A character that ends the name of a tag. -/
def EndsName (c : Char) : Prop := isBlank c = true ∨ c = '/' ∨ c = '>'

/-- The front of a name that the check reads. -/
def readName (name : List Char) : List Char := name.takeWhile isTagChar

/-- Scanning may start anywhere before the next tag. -/
theorem findFrom_of_free (h : ∀ c ∈ s.take n, c ≠ '<') :
    findFrom openingTag before n s = tagsFrom none s := by
  induction n generalizing before s with
  | zero => exact findFrom_openingTag before none 0 s
  | succ n ih =>
    cases s with
    | nil => rfl
    | cons c s =>
      have hc : ∀ d ∈ [c], d ≠ '<' := by simpa using h c (by simp)
      have hrest : findFrom openingTag (some c) n s = tagsFrom none s :=
        ih fun d hd => h d (List.mem_cons_of_mem _ hd)
      exact hrest.trans (tagsFrom_of_free (s := [c]) hc).symm

theorem tagsFrom_letter (h : s.head?.any isLetter = true) :
    tagsFrom before ('<' :: s) = readName s :: tagsFrom none s := by
  have hfind : openingTag before ('<' :: s) = some (readName s, s.dropWhile isTagChar) := by
    show (if s.head?.any isLetter then some (s.span isTagChar) else none) = _
    rw [if_pos h, List.span_eq_takeWhile_dropWhile]
    rfl
  have hlength : s.length - (s.dropWhile isTagChar).length = (readName s).length := by
    have hsplit := congrArg List.length (List.takeWhile_append_dropWhile (p := isTagChar) (l := s))
    rw [List.length_append] at hsplit
    rw [readName]
    omega
  have hfree : ∀ c ∈ s.take (readName s).length, c ≠ '<' := by
    have htake : s.take (readName s).length = readName s :=
      (List.prefix_iff_eq_take.mp (List.takeWhile_prefix _)).symm
    rw [htake]
    rintro c hc rfl
    exact absurd (List.mem_takeWhile_imp hc) (by decide)
  rw [tagsFrom, findFrom, hfind]
  simp only [hlength, findFrom_of_free hfree]

theorem tagsFrom_other (h : s.head?.any isLetter = false) :
    tagsFrom before ('<' :: s) = tagsFrom none s := by
  have hmiss : openingTag before ('<' :: s) = none := by
    show (if s.head?.any isLetter then some (s.span isTagChar) else none) = _
    rw [h]
    rfl
  rw [tagsFrom, findFrom_miss hmiss]
  exact findFrom_openingTag _ none 0 s

/-- Every opening tag is found, wherever it stands. -/
theorem readName_mem_findAll (h : s.head?.any isLetter = true) :
    readName s ∈ findAll openingTag (u ++ '<' :: s) := by
  show readName s ∈ tagsFrom none _
  induction u with
  | nil =>
    rw [List.nil_append, tagsFrom_letter h]
    exact List.mem_cons_self
  | cons c u ih =>
    rw [List.cons_append]
    by_cases hc : c = '<'
    · subst c
      cases hletter : (u ++ '<' :: s).head?.any isLetter with
      | true =>
        rw [tagsFrom_letter hletter]
        exact List.mem_cons_of_mem _ ih
      | false =>
        rw [tagsFrom_other hletter]
        exact ih
    · have hfree : ∀ d ∈ [c], d ≠ '<' := by simpa using hc
      rw [← List.singleton_append, tagsFrom_of_free hfree]
      exact ih

/-- What follows a name does not belong to it. -/
theorem readName_append (hv : ∀ c ∈ v.head?, EndsName c) : readName (name ++ v) = readName name := by
  have hstop : ∀ c ∈ v.head?, isTagChar c = false := by
    intro c hc
    rcases hv c hc with hblank | rfl | rfl
    · have hdot : c ≠ '.' := by
        rintro rfl
        exact absurd hblank (by decide)
      simp [isTagChar, isWord_of_isBlank hblank, hdot]
    · decide
    · decide
  rw [readName, List.takeWhile_append]
  split
  · have hnone : v.takeWhile isTagChar = [] := by
      cases v with
      | nil => rfl
      | cons c v => rw [List.takeWhile_cons_of_neg (by simp [hstop c rfl])]
    rename_i hall
    rw [hnone, List.append_nil]
    exact ((List.prefix_iff_eq_take.mp (List.takeWhile_prefix _)).trans
      (by rw [hall, List.take_length])).symm
  · rfl

/-- The check reads a whole name, or all before the first of three signs. -/
theorem readName_cases (h : IsTagName name) :
    readName name = name ∨ ∃ c rest, name = readName name ++ c :: rest ∧ c ∈ ['$', '-', ':'] := by
  have hsplit : readName name ++ name.dropWhile isTagChar = name := List.takeWhile_append_dropWhile
  cases hrest : name.dropWhile isTagChar with
  | nil =>
    rw [hrest, List.append_nil] at hsplit
    exact .inl hsplit
  | cons c rest =>
    rw [hrest] at hsplit
    refine .inr ⟨c, rest, hsplit.symm, ?_⟩
    have hname := h.2 c (hsplit ▸ List.mem_append_right _ List.mem_cons_self)
    have hstop : isTagChar c = false := by
      have hhead := List.head?_dropWhile_not isTagChar name
      simpa [hrest] using hhead
    simp only [isTagChar, Bool.or_eq_false_iff, decide_eq_false_iff_not] at hstop
    simpa [continuesName, hstop.1, hstop.2, or_assoc] using hname

theorem mem_whereOccurs {α : Type} {r : Recogniser α} {x : Violation} :
    w ∈ whereOccurs r x s ↔ w = x ∧ occurs r s = true := by
  rw [whereOccurs]
  split <;> simp_all

theorem mem_tagViolations_iff {type : String} :
    .tag type ∈ tagViolations source ↔ type.toList ∈ findAll openingTag source
      ∧ type ∉ Component.structuralTags ∧ Component.isRegistered type = false := by
  rw [tagViolations, List.mem_filterMap]
  constructor
  · rintro ⟨found, hfound, hkept⟩
    dsimp only at hkept
    split at hkept
    · cases hkept
    · rename_i hunknown
      obtain rfl : String.ofList found = type := by simpa using hkept
      rw [String.toList_ofList]
      exact ⟨hfound, by simpa using hunknown⟩
  · rintro ⟨hfound, hstructural, hunknown⟩
    exact ⟨_, hfound, by simp [hstructural, hunknown]⟩

theorem tag_not_mem_wrapperViolations {type : String} : .tag type ∉ wrapperViolations source := by
  intro h
  rcases isFrame_or_mem_bodyViolations h with hframe | ⟨body, hbody⟩
  · cases hframe
  · simp [bodyViolations, mem_whereOccurs] at hbody

/-- No other check reports a tag. -/
theorem tag_mem_violations_iff {type : String} :
    .tag type ∈ violations source ↔ .tag type ∈ tagViolations source := by
  have himports : ∀ line, .tag type ∉ importViolations line := fun line hmem =>
    Bool.false_ne_true (isFrame_of_mem_importViolations hmem)
  simp [violations, allImportViolations, styleViolations, declarationViolations, mem_whereOccurs,
    tag_not_mem_wrapperViolations, himports]

/-- The node that has a type and nothing else. -/
def bare (type : String) : Tree := .node type none none

/-- The check of layouts refuses the bare node of a type for the type. -/
def Refuses (limit : Quantity) (withProps : Bool) (type : String) : Prop :=
  .unknownComponent (.text type) [] ∈ ((Layout.ofTree (bare type)).check limit withProps).errors

theorem findings_bare (type : String) :
    ((Layout.ofTree (bare type)).check limit withProps).findings
      = (Layout.Node.mk (.text type) none none).findings withProps [] := by
  have hrange : List.range (Layout.ofTree (bare type)).nodes.size = [0] := rfl
  have hnode : (Layout.ofTree (bare type)).node? (.node 0) = some (0, ⟨.text type, none, none⟩) := rfl
  rw [Layout.check, hrange]
  show Layout.walk _ limit withProps [0] [] [.enter (.node 0) []] = _
  rw [Layout.walk, hnode]
  simp [Layout.Node.childList, Layout.walk]

theorem unknownComponent_not_mem_propFindings {n : Layout.Node} {place : Layout.Place} {type : Value} :
    .unknownComponent type place ∉ n.propFindings place := by
  rw [Layout.Node.propFindings]
  split
  · exact List.not_mem_nil
  · rw [List.mem_map]
    rintro ⟨_, -, hprops⟩
    cases hprops

theorem refuses_iff {type : String} :
    Refuses limit withProps type ↔ Component.isRegistered type = false := by
  have hknown : (Layout.Node.mk (.text type) none none).isRegistered = Component.isRegistered type := rfl
  rw [Refuses, LayoutReport.errors, findings_bare, List.mem_filter, Layout.Node.findings, hknown]
  cases Component.isRegistered type with
  | true =>
    refine ⟨fun h => ?_, nofun⟩
    have hmem := h.1
    split at hmem
    · split at hmem
      · exact (unknownComponent_not_mem_propFindings hmem).elim
      · cases hmem
    · contradiction
  | false => exact ⟨fun _ => rfl, fun _ => ⟨List.mem_singleton_self _, rfl⟩⟩

theorem not_mem_of_isValid (h : (check source).isValid = true) : w ∉ violations source := by
  intro hw
  have herror : w.message ∈ (check source).errors :=
    List.mem_eraseDups.mpr (List.mem_map_of_mem hw)
  rw [List.isEmpty_iff.mp h] at herror
  cases herror

/-- The check of a source reports the front of the name of a tag just where the check of layouts refuses
that front as a type, structural tags apart. The front is the whole name unless the name has one of three
signs in it. -/
theorem tag_of_name (limit : Quantity) (withProps : Bool) (hname : IsTagName name)
    (hv : ∀ c ∈ v.head?, EndsName c) :
    let source := u ++ '<' :: (name ++ v)
    let front := String.ofList (readName name)
    (readName name = name ∨ ∃ c rest, name = readName name ++ c :: rest ∧ c ∈ ['$', '-', ':'])
      ∧ (.tag front ∈ violations source ↔
          Refuses limit withProps front ∧ front ∉ Component.structuralTags)
      ∧ (Refuses limit withProps front → front ∉ Component.structuralTags →
          (Violation.tag front).message ∈ (check source).errors)
      ∧ ((check source).isValid = true →
          front ∈ Component.structuralTags ∨ Component.isRegistered front = true) := by
  intro source front
  have hletter : (name ++ v).head?.any isLetter = true := by
    cases name with
    | nil => cases hname.1
    | cons => exact hname.1
  have hfound : front.toList ∈ findAll openingTag source := by
    rw [String.toList_ofList, ← readName_append hv]
    exact readName_mem_findAll hletter
  have hreported : .tag front ∈ violations source ↔
      Refuses limit withProps front ∧ front ∉ Component.structuralTags := by
    rw [tag_mem_violations_iff, mem_tagViolations_iff, refuses_iff, and_comm (b := _ ∉ _)]
    exact and_iff_right hfound
  refine ⟨readName_cases hname, hreported, fun hrefused hstructural => ?_, fun hvalid => ?_⟩
  · exact List.mem_eraseDups.mpr (List.mem_map_of_mem (hreported.mpr ⟨hrefused, hstructural⟩))
  · by_contra hnone
    obtain ⟨hstructural, hunknown⟩ := not_or.mp hnone
    refine not_mem_of_isValid hvalid (hreported.mpr ⟨refuses_iff.mpr ?_, hstructural⟩)
    exact Bool.eq_false_iff.mpr hunknown

/-- A module that holds one tag. -/
def moduleOf (name : String) : List Char :=
  "export default function GeneratedUI() \x7b\n  return (\n    ".toList
    ++ '<' :: (name.toList ++ " />\n  );\n\x7d\n".toList)

theorem tag_of_unknown_member :
    (Violation.tag "Button.Modal").message ∈ (check (moduleOf "Button.Modal")).errors := by
  have hname : IsTagName "Button.Modal".toList := ⟨by decide, forall_of_all (by decide)⟩
  have hblank : EndsName ' ' := .inl (by decide)
  have hread : String.ofList (readName "Button.Modal".toList) = "Button.Modal" := by decide +kernel
  have hunknown : Component.isRegistered "Button.Modal" = false := by decide
  have hfound := tag_of_name (u := "export default function GeneratedUI() \x7b\n  return (\n    ".toList)
    (v := " />\n  );\n\x7d\n".toList) (.whole 64) false hname
    (fun c hc => Option.some.inj hc ▸ hblank)
  rw [hread] at hfound
  exact hfound.2.2.1 (refuses_iff.mpr hunknown) (by decide)

theorem valid_of_unknown_tag :
    IsTagName "Button-evil".toList ∧ Refuses (.whole 64) false "Button-evil"
      ∧ "Button-evil" ∉ Component.structuralTags
      ∧ (∃ u v, moduleOf "Button-evil" = u ++ '<' :: ("Button-evil".toList ++ v)
          ∧ v.head? = some ' ')
      ∧ (check (moduleOf "Button-evil")).isValid = true := by
  have hname : IsTagName "Button-evil".toList := ⟨by decide, forall_of_all (by decide)⟩
  have hunknown : Component.isRegistered "Button-evil" = false := by decide
  exact ⟨hname, refuses_iff.mpr hunknown, by decide, ⟨_, _, rfl, by decide⟩, by decide +kernel⟩

end Wireframe.Lint
