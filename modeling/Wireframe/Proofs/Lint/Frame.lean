import Wireframe.Lint.Check

/-! The violations about the frame of a module. The checks of what stands around the function find no others, and
the check of the body finds none of them. -/
namespace Wireframe.Lint
open Text

variable {vs ws : List Violation} {v : Violation} {p : Parts} {s source : List Char}

/-- The violations that are about the function as a whole and about what stands around it. -/
def Violation.isFrame : Violation → Bool
  | noWrapper | noReturn | outside _ | reactImport _ | externalLibrary _ | otherImport _ => true
  | _ => false

theorem isFrame_of_mem_outsideViolations (h : v ∈ outsideViolations p) : v.isFrame = true := by
  obtain ⟨line, -, hkept⟩ := List.mem_filterMap.mp h
  dsimp only at hkept
  split at hkept
  · cases hkept
  · cases hkept
    rfl

theorem isFrame_of_mem_importViolations (h : v ∈ importViolations s) : v.isFrame = true := by
  rw [importViolations] at h
  split at h
  · rw [List.mem_singleton.mp h]
    rfl
  · split at h
    · split at h
      · cases h
      · rw [List.mem_singleton.mp h]
        rfl
    · obtain ⟨library, -, rfl⟩ := List.mem_map.mp h
      rfl

/-- What is wrong with the function is wrong with the frame or with the masked body. -/
theorem isFrame_or_mem_bodyViolations (h : v ∈ wrapperViolations source) :
    v.isFrame = true ∨ ∃ body, v ∈ bodyViolations (mask body) := by
  rw [wrapperViolations] at h
  split at h
  · rw [List.mem_singleton.mp h]
    exact .inl rfl
  · rename_i p _
    rcases List.mem_append.mp h with h | h
    · rcases List.mem_append.mp h with h | h
      · exact .inl (isFrame_of_mem_outsideViolations h)
      · split at h
        · cases h
        · rw [List.mem_singleton.mp h]
          exact .inl rfl
    · exact .inr ⟨p.body, h⟩

/-- A list of violations none of which is about the frame of a module. -/
def Frameless (vs : List Violation) : Prop := ∀ v ∈ vs, v.isFrame = false

theorem Frameless.append (hv : Frameless vs) (hw : Frameless ws) : Frameless (vs ++ ws) :=
  List.forall_mem_append.mpr ⟨hv, hw⟩

theorem frameless_map {α : Type} {f : α → Violation} (h : ∀ x, (f x).isFrame = false)
    (xs : List α) :
    Frameless (xs.map f) :=
  List.forall_mem_map.mpr fun x _ => h x

theorem frameless_whereOccurs {α : Type} (r : Recogniser α) (h : v.isFrame = false)
    (s : List Char) :
    Frameless (whereOccurs r v s) := by
  unfold whereOccurs
  split <;> simp [Frameless, h]

theorem frameless_bodyViolations (body : List Char) : Frameless (bodyViolations body) :=
  ((((((frameless_map (fun _ => rfl) _).append
    (frameless_whereOccurs _ rfl _)).append
    (frameless_whereOccurs _ rfl _)).append
    (frameless_map (fun _ => rfl) _)).append
    (frameless_map (fun _ => rfl) _)).append
    (frameless_map (fun _ => rfl) _)).append
    (frameless_whereOccurs _ rfl _)

end Wireframe.Lint
