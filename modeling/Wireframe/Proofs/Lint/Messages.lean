import Mathlib.Data.Finset.Card
import Wireframe.Proofs.Lint.Constructs
import Wireframe.Proofs.Lint.Frame
import Wireframe.Proofs.Repeats

/-! The messages of a report tell apart all that was found. A message is a fixed front, what was found and a
fixed back, and no front starts another one. -/
namespace Wireframe.Lint
open Text

variable {α : Type} {r : Recogniser α} {x : α} {s : List Char} {v w : Violation} {source : List Char}

/-- What a check looks for. -/
inductive Kind
  | noWrapper | noReturn | outside | hook | arrow | function | eventHandler | binding | console | debugger
  | reactImport | externalLibrary | otherImport | dynamicCall | inlineStyle | innerHtml
  | componentDeclaration | tag
deriving DecidableEq

namespace Kind

def all : List Kind :=
  [noWrapper, noReturn, outside, hook, arrow, function, eventHandler, binding, console, debugger,
    reactImport, externalLibrary, otherImport, dynamicCall, inlineStyle, innerHtml,
    componentDeclaration, tag]

theorem mem_all (k : Kind) : k ∈ all := by
  cases k <;> decide

/-- What a message says before it comes to what was found. -/
def front : Kind → String
  | noWrapper => "Code must have: export default function GeneratedUI() \x7b return (...) \x7d"
  | noReturn => "GeneratedUI must return the rendered layout."
  | outside => "Code outside GeneratedUI is prohibited: "
  | hook => "React hook '"
  | arrow => "Arrow functions are prohibited inside the component. " ++ Violation.staticOnly
  | function => "Function definitions are prohibited inside the component. " ++ Violation.staticOnly
  | eventHandler => "Event handler '"
  | binding => "Variable declaration '"
  | console => "Console statement 'console."
  | debugger => "Debugger statements are prohibited. " ++ Violation.staticOnly
  | reactImport => "Importing React is prohibited. Only import UI components: "
  | externalLibrary => "External UI library '"
  | otherImport => "Import is not a whitelisted component import: "
  | dynamicCall => "Dynamic '"
  | inlineStyle => "Inline styles are prohibited ('style"
  | innerHtml => "dangerouslySetInnerHTML is prohibited."
  | componentDeclaration => "Creating new components is prohibited ('"
  | tag => "Component '"

/-- What a message says behind what was found. -/
def back : Kind → String
  | noWrapper | noReturn | outside | arrow | function | debugger | reactImport | otherImport | innerHtml => ""
  | hook | binding => "' is prohibited inside the component. " ++ Violation.staticOnly
  | eventHandler | console => "' is prohibited. " ++ Violation.staticOnly
  | externalLibrary => "' is prohibited. Use only the fixed component library."
  | dynamicCall => "()' calls are prohibited."
  | inlineStyle => "'). Use only the fixed component library with predefined styling."
  | componentDeclaration => "'). Use only the allowed component library."
  | tag =>
    "' is not in the allowed component list. Only " ++ ", ".intercalate Component.names ++ " are permitted."

/-- No front starts another one. -/
theorem eq_of_front_prefix {k l : Kind} (h : k.front.toList <+: l.front.toList) : k = l := by
  have hall : ∀ k ∈ all, ∀ l ∈ all, k.front.toList <+: l.front.toList → k = l := by decide +kernel
  exact hall k (mem_all k) l (mem_all l) h

end Kind

namespace Violation

def kind : Violation → Kind
  | noWrapper => .noWrapper
  | noReturn => .noReturn
  | outside _ => .outside
  | hook _ => .hook
  | arrow => .arrow
  | function => .function
  | eventHandler _ => .eventHandler
  | binding _ _ => .binding
  | console _ => .console
  | debugger => .debugger
  | reactImport _ => .reactImport
  | externalLibrary _ => .externalLibrary
  | otherImport _ => .otherImport
  | dynamicCall _ => .dynamicCall
  | inlineStyle _ => .inlineStyle
  | innerHtml => .innerHtml
  | componentDeclaration _ => .componentDeclaration
  | tag _ => .tag

/-- What was found, as a message writes it. -/
def found : Violation → String
  | noWrapper | noReturn | arrow | function | debugger | innerHtml => ""
  | outside x | hook x | eventHandler x | console x | reactImport x | externalLibrary x | otherImport x
  | dynamicCall x | inlineStyle x | componentDeclaration x | tag x => x
  | binding keyword name => keyword ++ " " ++ name

/-- A violation is what was looked for and what was found, and its message says both. -/
theorem message_eq (v : Violation) : v.message = v.kind.front ++ v.found ++ v.kind.back := by
  have hplain (s : String) : s = s ++ "" ++ "" := (String.append_empty.trans String.append_empty).symm
  cases v with
  | noWrapper | noReturn | arrow | function | debugger | innerHtml => exact hplain _
  | outside | reactImport | otherImport => exact String.append_empty.symm
  | externalLibrary | dynamicCall | componentDeclaration => rfl
  | hook | eventHandler | console | inlineStyle => exact String.append_assoc
  | binding keyword name =>
    have hregroup (a b c d e f : String) : a ++ b ++ c ++ d ++ e ++ f = a ++ (b ++ c ++ d) ++ (e ++ f) := by
      simp only [String.append_assoc]
    exact hregroup _ _ _ _ _ _
  | tag name =>
    have hregroup (a b c d e : String) : a ++ b ++ c ++ d ++ e = a ++ b ++ (c ++ d ++ e) := by
      simp only [String.append_assoc]
    exact hregroup _ _ _ _ _

/-- A violation as the checks make it: a declaration starts with one of the keywords. -/
def IsFinding : Violation → Prop
  | binding keyword _ => keyword.toList ∈ keywords
  | _ => True

theorem blank_notMem_of_mem_keywords {word : List Char} (h : word ∈ keywords) : ∀ c ∈ word, c ≠ ' ' := by
  rintro c hc rfl
  have hword := (of_mem_keywords h).2 ' ' hc
  revert hword
  decide

theorem eq_of_kind_of_found (hv : v.IsFinding) (hw : w.IsFinding) (hkind : v.kind = w.kind)
    (hfound : v.found = w.found) : v = w := by
  cases v <;> cases w <;> cases hkind
  case binding keyword name keyword' name' =>
    have htext : keyword.toList ++ ' ' :: name.toList = keyword'.toList ++ ' ' :: name'.toList := by
      have heq := congrArg String.toList hfound
      simpa [found] using heq
    obtain ⟨hkeyword, hname⟩ := append_cut (p := fun c => c ≠ ' ')
      (fun c hc => decide_eq_true (blank_notMem_of_mem_keywords hv c hc))
      (fun c hc => decide_eq_true (blank_notMem_of_mem_keywords hw c hc)) (by simp) (by simp) htext
    obtain rfl := String.toList_inj.mp hkeyword
    obtain rfl := String.toList_inj.mp (List.cons.inj hname).2
    rfl
  all_goals
    cases hfound
    rfl

/-- Two findings with one message are the same. -/
theorem message_inj (hv : v.IsFinding) (hw : w.IsFinding) (h : v.message = w.message) : v = w := by
  have htext : v.kind.front.toList ++ (v.found ++ v.kind.back).toList
      = w.kind.front.toList ++ (w.found ++ w.kind.back).toList := by
    rw [message_eq, message_eq, String.append_assoc, String.append_assoc] at h
    rw [← String.toList_append, ← String.toList_append, h]
  have hkind : v.kind = w.kind := by
    rcases List.append_eq_append_iff.mp htext with ⟨_, hfront, _⟩ | ⟨_, hfront, _⟩
    · exact Kind.eq_of_front_prefix ⟨_, hfront.symm⟩
    · exact (Kind.eq_of_front_prefix ⟨_, hfront.symm⟩).symm
  apply eq_of_kind_of_found hv hw hkind
  rw [hkind] at htext
  have hbehind := List.append_cancel_left htext
  rw [String.toList_append, String.toList_append] at hbehind
  exact String.toList_inj.mp (List.append_cancel_right hbehind)

end Violation

/-- A declaration is reported where one was found in the masked body. -/
theorem exists_of_binding_mem {keyword name : String} (h : .binding keyword name ∈ wrapperViolations source) :
    ∃ body, (keyword.toList, name.toList) ∈ findAll bindingDeclaration body := by
  rcases isFrame_or_mem_bodyViolations h with hframe | ⟨body, hbody⟩
  · cases hframe
  · obtain ⟨a, b, hab, rfl, rfl⟩ : ∃ a b, (a, b) ∈ findAll bindingDeclaration (mask body)
        ∧ String.ofList a = keyword ∧ String.ofList b = name := by
      simpa [bodyViolations, whereOccurs] using hbody
    exact ⟨mask body, by simpa using hab⟩

/-- All that is reported was found by a check. -/
theorem isFinding_of_mem (h : v ∈ violations source) : v.IsFinding := by
  cases v with
  | binding keyword name =>
    have himports : ∀ line, .binding keyword name ∉ importViolations line := fun line hmem =>
      Bool.false_ne_true (isFrame_of_mem_importViolations hmem)
    have hwrapper : .binding keyword name ∈ wrapperViolations source := by
      simpa [violations, allImportViolations, styleViolations, declarationViolations, tagViolations,
        whereOccurs, himports] using h
    obtain ⟨body, hfound⟩ := exists_of_binding_mem hwrapper
    obtain ⟨front, behind, rest, -, hread⟩ := exists_of_mem_findFrom hfound
    obtain ⟨-, own, hown, -, -⟩ := (reads_bindingDeclaration _ _ _ _).mp hread
    exact hown.1
  | _ => trivial

/-- What is about the frame can be found whatever it says. -/
theorem isFinding_of_isFrame (h : v.isFrame = true) : v.IsFinding := by
  cases v with
  | binding => cases h
  | _ => trivial

/-- The errors of a report are the distinct findings of the checks, in the order in which they were first
made. No two of them share a message: there are as many errors as distinct findings, and so many distinct
findings give at least so many errors. -/
theorem errors_of_findings (source : List Char) :
    (check source).errors = (violations source).eraseDups.map Violation.message
      ∧ (check source).errors.Nodup
      ∧ (check source).errors.length = (violations source).toFinset.card
      ∧ ∀ found : Finset Violation, (∀ v ∈ found, v ∈ violations source) →
          found.card ≤ (check source).errors.length := by
  have herrors : (check source).errors = (violations source).eraseDups.map Violation.message :=
    eraseDups_map fun v hv w hw => Violation.message_inj (isFinding_of_mem hv) (isFinding_of_mem hw)
  have hset : (violations source).eraseDups.toFinset = (violations source).toFinset := by
    ext v
    rw [List.mem_toFinset, List.mem_toFinset, List.mem_eraseDups]
  have hlength : (check source).errors.length = (violations source).toFinset.card := by
    rw [herrors, List.length_map, ← hset, List.toFinset_card_of_nodup (nodup_eraseDups _)]
  refine ⟨herrors, nodup_eraseDups _, hlength, ?_⟩
  intro found hfound
  rw [hlength]
  apply Finset.card_le_card
  intro v hv
  exact List.mem_toFinset.mpr (hfound v hv)

end Wireframe.Lint
