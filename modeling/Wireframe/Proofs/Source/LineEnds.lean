import Wireframe.Proofs.Markup.Characters

/-! No generated module has a carriage return in it, so nothing in it is taken for another line end when
it is read from a file. -/
namespace Wireframe.Markup

variable {t : Tree} {v : Value} {s name : List Char} {props : Option Props} {level : Nat} {type : String}

theorem return_notMem_plain (h : isPlainAttribute s = true) : '\r' ∉ s := by
  intro hmem
  simp only [isPlainAttribute, Bool.not_eq_true', List.any_eq_false] at h
  exact h '\r' hmem (by decide)

theorem return_notMem_braced_spell (hv : v.Closed) : '\r' ∉ braced (spell v) := by
  have hspell : '\r' ∉ spell v := fun hmem => absurd (of_mem_spell hv hmem).1 (by decide)
  simp [braced, hspell]

theorem return_notMem_valueText (hv : v.Closed) : '\r' ∉ valueText v := by
  rcases valueText_cases v with ⟨s, -, hs, hvs⟩ | hvs
  · have hplain := return_notMem_plain hs
    simp [hvs, hplain]
  · rw [hvs]
    exact return_notMem_braced_spell hv

theorem return_notMem_contentOf (s : String) : '\r' ∉ contentOf s := by
  unfold contentOf
  split
  · rename_i hs
    simp only [isPlainContent, Bool.and_eq_true] at hs
    exact return_notMem_plain hs.1
  · exact return_notMem_braced_spell (.text s)

theorem return_notMem_name (h : isPropName name = true) : '\r' ∉ name := by
  intro hmem
  rcases of_mem_propName h hmem with hn | hn <;> revert hn <;> decide

theorem return_notMem_attributesOf (h : Props.Accepted (props.getD [])) : '\r' ∉ attributesOf props := by
  intro hmem
  obtain ⟨e, he, hmem⟩ := List.mem_flatMap.mp hmem
  obtain ⟨hname, hclosed⟩ := of_mem_sortedAttributes h he
  have hfront := return_notMem_name hname
  have hvalue := return_notMem_valueText hclosed
  simp [attributeOf, hfront, hvalue] at hmem

theorem return_notMem_type (h : Component.isRegistered type = true) : '\r' ∉ type.toList := by
  intro hmem
  exact absurd (Source.of_mem_registered h hmem).2 (by decide)

theorem return_notMem_indent (level : Nat) : '\r' ∉ Line.indent level :=
  fun hmem => absurd (of_mem_indent hmem) (by decide)

theorem return_notMem_tail {tail : List Char} (hreg : Registered t) (h : Tail level t tail)
    (ih : ∀ c ∈ t.childList, '\r' ∉ markupOf (level + 1) c) : '\r' ∉ tail := by
  have htype := return_notMem_type hreg.type
  have hindent := return_notMem_indent level
  cases h with
  | single _ _ => decide
  | wrapped _ _ => simp [return_notMem_contentOf, htype]
  | opening _ =>
    have hinner : '\r' ∉ t.childList.flatMap fun c => '\n' :: markupOf (level + 1) c := by
      simpa using ih
    simp [return_notMem_contentOf, hinner, closingOf, htype, hindent]

theorem return_notMem_markupOf (t : Tree) : ∀ level, t.Accepted → Registered t →
    '\r' ∉ markupOf level t := by
  induction t using Tree.induction_on_children with
  | h t ih =>
    intro level ht hreg
    obtain ⟨tail, htail, hmarkup⟩ := exists_tail level t
    have hrest := return_notMem_tail hreg htail fun c hc =>
      ih c hc (level + 1) (ht.children c hc) (hreg.children c hc)
    have htype := return_notMem_type hreg.type
    have hattributes := return_notMem_attributesOf ht.props
    simp [hmarkup, return_notMem_indent, htype, hattributes, hrest]

/-- The source of a plan has no carriage return in it. -/
theorem return_notMem_code {bounds : Json.Bounds} {plan : Plan} {limit : Quantity} {source : Source}
    (hp : plan.layout.Accepted) (h : Source.generate bounds plan limit = .ok source) : '\r' ∉ source.code := by
  obtain ⟨t, -, ht, hreg, rfl⟩ := exists_tree_of_generate hp h
  have hcode : (sourceOf t).code = Source.importsOf t.types.eraseDups ++ (Source.signature
      ++ '\x7b' :: (Source.returning ++ (markupOf 0 t ++ Source.ending))) := Source.assemble_eq _ _
  have himports : '\r' ∉ Source.importsOf t.types.eraseDups := by
    intro hmem
    rcases Source.not_isAbsent_of_mem_importsOf (registered_eraseDups hreg) hmem with hc | hc <;>
      revert hc <;> decide
  have hframe : '\r' ∉ Source.signature ∧ '\r' ∉ Source.returning ∧ '\r' ∉ Source.ending := by decide
  have hmarkup := return_notMem_markupOf t 0 ht hreg
  simp [hcode, himports, hframe, hmarkup]

end Wireframe.Markup
