import Wireframe.Proofs.Text.Cut
import Wireframe.Source

/-! What stands around the markup of a module. -/
namespace Wireframe.Source

variable {name : String} {names : List String} {c : Char}

theorem exists_component (h : Component.isRegistered name = true) :
    ∃ c ∈ Component.all, c.name = name := by
  obtain ⟨c, hc⟩ := Option.isSome_iff_exists.mp h
  exact ⟨c, List.mem_of_find?_eq_some hc, by simpa using List.find?_some hc⟩

/-- The characters that no import contains. -/
def isAbsent (c : Char) : Bool := c = '\x7b' || c = '\x7d' || c = '<' || c = 'x' || Text.isLineEnd c

/-- The names of components are made of letters. -/
theorem of_mem_registered (h : Component.isRegistered name = true) (hc : c ∈ name.toList) :
    c.isAlpha = true ∧ isAbsent c = false := by
  have hall : ∀ k ∈ Component.all,
      (k.name.toList.all fun x => x.isAlpha = true ∧ isAbsent x = false) = true := by decide
  obtain ⟨k, hk, rfl⟩ := exists_component h
  exact Text.forall_of_all (hall k hk) c hc

theorem registered_ne_nil (h : Component.isRegistered name = true) : name.toList ≠ [] := by
  have hall : ∀ k ∈ Component.all, k.name.toList ≠ [] := by decide
  obtain ⟨k, hk, rfl⟩ := exists_component h
  exact hall k hk

theorem importLine_eq (name : String) :
    importLine name = "import ".toList ++ (name.toList ++ (" from '@/components/ui/".toList
      ++ (name.toList ++ "';".toList))) := by
  have h : importLine name
      = ("import " ++ name ++ " from '" ++ ("@/components/ui/" ++ name) ++ "';").toList := rfl
  have hpath :
      " from '@/components/ui/".toList = " from '".toList ++ "@/components/ui/".toList := by
    decide
  simp only [h, hpath, String.toList_append, List.append_assoc]

theorem not_isAbsent_of_mem_importLine (h : Component.isRegistered name = true)
    (hc : c ∈ importLine name) : isAbsent c = false := by
  have hkeyword : ∀ c ∈ "import ".toList, isAbsent c = false := Text.forall_of_all (by decide)
  have hpath : ∀ c ∈ " from '@/components/ui/".toList, isAbsent c = false :=
    Text.forall_of_all (by decide)
  have hend : ∀ c ∈ "';".toList, isAbsent c = false := Text.forall_of_all (by decide)
  rw [importLine_eq] at hc
  simp only [List.mem_append] at hc
  rcases hc with hc | hc | hc | hc | hc
  · exact hkeyword c hc
  · exact (of_mem_registered h hc).2
  · exact hpath c hc
  · exact (of_mem_registered h hc).2
  · exact hend c hc

/-- The imports of a module and the empty line behind them. -/
def importsOf (names : List String) : List Char :=
  Text.joined ['\n'] (names.map importLine) ++ "\n\n".toList

theorem not_isAbsent_of_mem_importsOf (h : ∀ name ∈ names, Component.isRegistered name = true)
    (hc : c ∈ importsOf names) : isAbsent c = false ∨ c = '\n' := by
  rcases List.mem_append.mp hc with hc | hc
  · rcases Text.mem_joined hc with hc | ⟨line, hline, hc⟩
    · exact .inr (List.mem_singleton.mp hc)
    · obtain ⟨name, hname, rfl⟩ := List.mem_map.mp hline
      exact .inl (not_isAbsent_of_mem_importLine (h name hname) hc)
  · right
    simpa using hc

/-- The function's header but for its brace. -/
def signature : List Char := s!"export default function {rootName}() ".toList

theorem header_eq : header = signature ++ ['\x7b'] := by decide

/-- What stands between the function's brace and the markup. -/
def returning : List Char := "\n  return (\n".toList

/-- What stands between the markup and the end. -/
def ending : List Char := "\n  );\n\x7d\n".toList

theorem assemble_eq (names : List String) (markup : List Char) :
    assemble names markup
      = importsOf names ++ (signature ++ '\x7b' :: (returning ++ (markup ++ ending))) := by
  have h : assemble names markup = importsOf names ++ header ++ returning ++ markup ++ ending := rfl
  simp only [h, header_eq, List.append_assoc, List.cons_append, List.nil_append]

/-- The markup of a module is what it says behind its first brace. -/
theorem assemble_cut {a b : List String} {x y : List Char}
    (ha : ∀ name ∈ a, Component.isRegistered name = true)
    (hb : ∀ name ∈ b, Component.isRegistered name = true) (h : assemble a x = assemble b y) :
    x ++ ending = y ++ ending := by
  have hsignature : ∀ c ∈ signature, decide (c ≠ '\x7b') = true := Text.forall_of_all (by decide)
  have hfront {names : List String} (h : ∀ name ∈ names, Component.isRegistered name = true) :
      ∀ c ∈ importsOf names ++ signature, (decide (c ≠ '\x7b')) = true := by
    intro c hc
    rcases List.mem_append.mp hc with hc | hc
    · rcases not_isAbsent_of_mem_importsOf h hc with hc | rfl
      · simp only [isAbsent, Bool.or_eq_false_iff] at hc
        simpa using hc.1.1.1.1
      · decide
    · exact hsignature c hc
  rw [assemble_eq, assemble_eq, ← List.append_assoc, ← List.append_assoc (importsOf b)] at h
  obtain ⟨_, h⟩ := Text.append_cut (p := fun c => c ≠ '\x7b') (hfront ha) (hfront hb) (by simp)
    (by simp) h
  simpa using h

end Wireframe.Source
