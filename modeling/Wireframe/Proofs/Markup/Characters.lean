import Wireframe.Proofs.Markup.Lossless

/-! Which characters stand in markup, and what follows its newlines. -/
namespace Wireframe.Markup

variable {v : Value} {c : Char} {s name : List Char} {props : Option Props}
variable {e : String × Value} {level : Nat}

theorem of_mem_plain (h : isPlainAttribute s = true) (hc : c ∈ s) :
    c ≠ '<' ∧ c ≠ '>' ∧ c ≠ '\n' := by
  have hsafe : isUnsafe c = false := by
    simp only [isPlainAttribute, Bool.not_eq_true', List.any_eq_false] at h
    simpa using h c hc
  refine ⟨?_, ?_, ?_⟩ <;> rintro rfl <;> revert hsafe <;> decide

theorem of_mem_braced_spell (hv : v.Closed) (hc : c ∈ braced (spell v)) :
    c ≠ '<' ∧ c ≠ '>' ∧ c ≠ '\n' := by
  simp only [braced, List.mem_cons, List.mem_append, List.not_mem_nil, or_false] at hc
  rcases hc with rfl | hc | rfl
  · decide
  · obtain ⟨hn, hl, hg⟩ := of_mem_spell hv hc
    refine ⟨hl, hg, ?_⟩
    rintro rfl
    revert hn
    decide
  · decide

/-- No value of a prop opens or closes a tag, or ends a line. -/
theorem of_mem_valueText (hv : v.Closed) (hc : c ∈ valueText v) : c ≠ '<' ∧ c ≠ '>' ∧ c ≠ '\n' := by
  rcases valueText_cases v with ⟨s, rfl, hs, hvs⟩ | hvs <;> rw [hvs] at hc
  · simp only [List.mem_cons, List.mem_append, List.not_mem_nil, or_false] at hc
    rcases hc with rfl | hc | rfl
    · decide
    · exact of_mem_plain hs hc
    · decide
  · exact of_mem_braced_spell hv hc

/-- No text content opens or closes a tag, or ends a line. -/
theorem of_mem_contentOf {s : String} (hc : c ∈ contentOf s) : c ≠ '<' ∧ c ≠ '>' ∧ c ≠ '\n' := by
  unfold contentOf at hc
  split at hc
  · rename_i hs
    simp only [isPlainContent, Bool.and_eq_true] at hs
    exact of_mem_plain hs.1 hc
  · exact of_mem_braced_spell (.text s) hc

theorem of_mem_name (h : isPropName name = true) (hc : c ∈ name) : c ≠ '<' ∧ c ≠ '>' := by
  rcases of_mem_propName h hc with hn | rfl
  · constructor <;> rintro rfl <;> revert hn <;> decide
  · decide

theorem of_mem_attributesOf (h : Props.Accepted (props.getD [])) (hc : c ∈ attributesOf props) :
    c ≠ '<' ∧ c ≠ '>' := by
  obtain ⟨e, he, hc⟩ := List.mem_flatMap.mp hc
  obtain ⟨hname, hclosed⟩ := of_mem_sortedAttributes h he
  simp only [attributeOf, List.mem_cons, List.mem_append] at hc
  rcases hc with rfl | hc | rfl | hc
  · decide
  · exact of_mem_name hname hc
  · decide
  · exact ⟨(of_mem_valueText hclosed hc).1, (of_mem_valueText hclosed hc).2.1⟩

theorem of_mem_indent (hc : c ∈ Line.indent level) : c = ' ' := List.eq_of_mem_replicate hc

end Wireframe.Markup
