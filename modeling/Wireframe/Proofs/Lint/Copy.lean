import Wireframe.Proofs.Lint.Declarations
import Wireframe.Proofs.Lint.Tags
import Wireframe.Proofs.Lint.Veiling
import Wireframe.Proofs.Lint.Wrapper

/-! Copy in a generated module. The title and the text of a node are written as they are or as expressions; the
check of the module masks them, but for escapes, and looks for some constructs before it masks anything. -/
namespace Wireframe.Lint
open Markup Text

variable {α : Type} {r : Recogniser α} {i j s u : List Char} {type : String}

/-- What is written around copy: nothing, quotes, or the braces and the quotes of an expression. -/
def unquoted : List Char × List Char := ([], [])

def quoted : List Char × List Char := (['"'], ['"'])

def expressed : List Char × List Char := (['\x7b', '"'], ['"', '\x7d'])

/-- How a title and a text are written. A title in braces comes with a text in braces. -/
inductive Writing
  | plain
  | mixed
  | braced
deriving DecidableEq

namespace Writing

def title : Writing → List Char × List Char
  | plain | mixed => quoted
  | braced => expressed

def text : Writing → List Char × List Char
  | plain => unquoted
  | mixed | braced => expressed

/-- The body of the function up to the name of the title. -/
def lead (type : List Char) : List Char := "\n  return (\n    <".toList ++ (type ++ " title".toList)

/-- What stands in the body of the function before the title. -/
def front (w : Writing) (type : List Char) : List Char := lead type ++ '=' :: w.title.1

/-- What stands between the title and the text. -/
def between (w : Writing) : List Char := w.title.2 ++ '>' :: w.text.1

/-- What stands in the body behind the text. -/
def rear (w : Writing) (type : List Char) : List Char :=
  w.text.2 ++ ("</".toList ++ (type ++ ">\n  );\n".toList))

/-- The body of the function, with a title and a text in it. -/
def body (w : Writing) (type i j : List Char) : List Char :=
  w.front type ++ (i ++ (w.between ++ (j ++ w.rear type)))

/-- The two characters in front of the title, and the two in front of the text. -/
def marks : Writing → (Char × Char) × Char × Char
  | plain => (('=', '"'), '"', '>')
  | mixed => (('=', '"'), '\x7b', '"')
  | braced => (('\x7b', '"'), '\x7b', '"')

def all : List Writing := [plain, mixed, braced]

theorem mem_all (w : Writing) : w ∈ all := by cases w <;> decide

theorem isCalm_around (w : Writing) (hk : Component.isRegistered type = true) :
    isCalm (w.front type.toList) = true ∧ isCalm w.between = true ∧ isCalm (w.rear type.toList) = true := by
  have hall : ∀ k ∈ Component.all, ∀ w ∈ all,
      isCalm (w.front k.name.toList) = true ∧ isCalm w.between = true ∧ isCalm (w.rear k.name.toList) = true := by
    decide +kernel
  obtain ⟨k, hmem, rfl⟩ := Source.exists_component hk
  exact hall k hmem w w.mem_all

theorem fixed_front (w : Writing) (hk : Component.isRegistered type = true) :
    Fixed (w.front type.toList) w.marks.1.1 w.marks.1.2 where
  calm := (w.isCalm_around hk).1
  ends := by
    cases w with
    | plain | mixed => exact ⟨lead type.toList, rfl⟩
    | braced =>
      refine ⟨lead type.toList ++ ['='], ?_⟩
      rw [front, List.append_assoc]
      rfl

theorem fixed_between (w : Writing) (hk : Component.isRegistered type = true) :
    Fixed w.between w.marks.2.1 w.marks.2.2 where
  calm := (w.isCalm_around hk).2.1
  ends := by
    cases w with
    | plain => exact ⟨[], by decide⟩
    | mixed => exact ⟨"\">".toList, by decide⟩
    | braced => exact ⟨"\"\x7d>".toList, by decide⟩

theorem signed_between (w : Writing) : Signed w.between := by
  cases w <;> exact ⟨'"', by decide, by decide⟩

theorem signed_rear (w : Writing) (type : List Char) : Signed (w.rear type) := by
  cases w with
  | plain => exact ⟨'<', rfl, by decide⟩
  | mixed | braced => exact ⟨'"', rfl, by decide⟩

end Writing

/-- What a rule makes of a body. -/
theorem apply_body {rule : MaskRule} (w : Writing) (hk : Component.isRegistered type = true) (h : rule.Bounded)
    (hstop : ∀ y, rule.closes ('\\' :: y) = false) (hi : ∀ c ∈ i, isCopy c = true)
    (hj : ∀ c ∈ j, isCopy c = true) :
    rule.apply (w.body type.toList i j) = w.body type.toList
      (veil (rule.opens w.marks.1.1 w.marks.1.2 && rule.closes (w.between ++ (j ++ w.rear type.toList))) i)
      (veil (rule.opens w.marks.2.1 w.marks.2.2 && rule.closes (w.rear type.toList)) j) :=
  apply_copies h hstop hi hj (w.fixed_front hk) (w.fixed_between hk) (w.isCalm_around hk).2.2 w.signed_between
    (w.signed_rear _)

/-- The title and the text are masked in whatever way they are written, unless there is an escape in them. -/
theorem mask_body (w : Writing) (hk : Component.isRegistered type = true) (hi : ∀ c ∈ i, isCopy c = true)
    (hj : ∀ c ∈ j, isCopy c = true) :
    mask (w.body type.toList i j) = w.body type.toList (veil true i) (veil true j) := by
  have hveil {m : Bool} {s : List Char} (hs : ∀ c ∈ s, isCopy c = true) : ∀ c ∈ veil m s, isCopy c = true :=
    fun c hc => isCopy_of_mem_veil hs hc
  rw [mask, apply_body w hk bounded_contentRule (fun y => rfl) hi hj,
    apply_body w hk bounded_attributeRule (fun y => rfl) (hveil hi) (hveil hj),
    apply_body w hk bounded_expressionRule (fun y => rfl) (hveil (hveil hi)) (hveil (hveil hj)),
    veil_veil, veil_veil, veil_veil, veil_veil]
  cases w <;> rfl

/-! Where a construct stands. -/

theorem Writing.divided_front (w : Writing) (type : List Char) : EndsDivided (w.front type) := by
  cases w with
  | plain | mixed => exact EndsDivided.append ⟨['='], '"', rfl, by decide⟩ (lead type)
  | braced => exact EndsDivided.append ⟨['=', '\x7b'], '"', rfl, by decide⟩ (lead type)

theorem Writing.divided_between (w : Writing) : StartsDivided w.between ∧ EndsDivided w.between := by
  cases w with
  | plain => exact ⟨⟨'"', ['>'], by decide, by decide⟩, ['"'], '>', by decide, by decide⟩
  | mixed => exact ⟨⟨'"', ">\x7b\"".toList, by decide, by decide⟩, "\">\x7b".toList, '"', by decide, by decide⟩
  | braced =>
    exact ⟨⟨'"', "\x7d>\x7b\"".toList, by decide, by decide⟩, "\"\x7d>\x7b".toList, '"', by decide, by decide⟩

theorem Writing.divided_rear (w : Writing) (type : List Char) : StartsDivided (w.rear type) := by
  cases w with
  | plain => exact ⟨'<', _, rfl, by decide⟩
  | mixed | braced => exact ⟨'"', _, rfl, by decide⟩

/-- The constructs that are looked for in a masked body. -/
def bodyConstructs : List (List Char → Bool) :=
  [occurs hookCall, occurs arrowSign, occurs functionWord, occurs eventHandlerProp, occurs bindingDeclaration,
    occurs consoleMember, occurs debuggerWord]

theorem bodyViolations_eq_nil_iff (body : List Char) :
    bodyViolations body = [] ↔ ∀ f ∈ bodyConstructs, f body = false := by
  have hwhere {α : Type} (r : Recogniser α) (v : Violation) : whereOccurs r v body = [] ↔ occurs r body = false := by
    rw [whereOccurs]
    cases occurs r body <;> simp
  have hfind {α : Type} {f : List Char → Option (α × List Char)} (hf : f [] = none) (g : α → Violation) :
      (findAll (atEdge f) body).map g = [] ↔ occurs (atEdge f) body = false := by
    rw [List.map_eq_nil_iff, findAll_eq_nil_iff fun before => by rw [atEdge, hf, ite_self]]
  have hhook : (findAll hookCall body).map (fun name => Violation.hook (String.ofList name)) = []
      ↔ occurs hookCall body = false := hfind rfl _
  have hhandler : (findAll eventHandlerProp body).map (fun name => Violation.eventHandler (String.ofList name)) = []
      ↔ occurs eventHandlerProp body = false := hfind rfl _
  have hbinding : (findAll bindingDeclaration body).map
      (fun found => Violation.binding (String.ofList found.1) (String.ofList found.2)) = []
      ↔ occurs bindingDeclaration body = false := hfind rfl _
  have hconsole : (findAll consoleMember body).map (fun name => Violation.console (String.ofList name)) = []
      ↔ occurs consoleMember body = false := hfind rfl _
  simp only [bodyViolations, bodyConstructs, List.append_eq_nil_iff, List.forall_mem_cons, hwhere, hhook, hhandler,
    hbinding, hconsole, and_assoc, List.not_mem_nil, false_implies, implies_true, and_true]

/-- Nothing that the check looks for in a body stands around the title and the text. -/
theorem quiet_body (w : Writing) (hk : Component.isRegistered type = true) {f : List Char → Bool}
    (hf : f ∈ bodyConstructs) :
    f (w.front type.toList) = false ∧ f w.between = false ∧ f (w.rear type.toList) = false := by
  have hall : ∀ k ∈ Component.all, ∀ w ∈ Writing.all, ∀ f ∈ bodyConstructs,
      f (w.front k.name.toList) = false ∧ f w.between = false ∧ f (w.rear k.name.toList) = false := by
    decide +kernel
  obtain ⟨k, hmem, rfl⟩ := Source.exists_component hk
  exact hall k hmem w w.mem_all f hf

/-- What the check looks for in a module before it masks anything. -/
def codeConstructs : List (List Char → Bool) :=
  [occurs (signedWord "import".toList ['(']), occurs (signedWord "require".toList ['(']),
    occurs (signedWord "style".toList ['=']), occurs (signedWord "style".toList [':', '\x7b']),
    occurs innerHtmlWord, occurs componentDeclaration]

/-- What stands in a module with one node before the title of the node. -/
def codeFront (w : Writing) (type : String) : List Char :=
  "import ".toList ++ (type.toList ++ (" from '@/components/ui/".toList ++ (type.toList
    ++ ("';\n\nexport default function GeneratedUI() \x7b".toList ++ w.front type.toList))))

/-- What stands in it behind the text. -/
def codeRear (w : Writing) (type : String) : List Char := w.rear type.toList ++ ['\x7d', '\n']

theorem quiet_code (w : Writing) (hk : Component.isRegistered type = true) {f : List Char → Bool}
    (hf : f ∈ codeConstructs) : f (codeFront w type) = false ∧ f w.between = false ∧ f (codeRear w type) = false := by
  have hall : ∀ k ∈ Component.all, ∀ w ∈ Writing.all, ∀ f ∈ codeConstructs,
      f (codeFront w k.name) = false ∧ f w.between = false ∧ f (codeRear w k.name) = false := by
    decide +kernel
  obtain ⟨k, hmem, rfl⟩ := Source.exists_component hk
  exact hall k hmem w w.mem_all f hf

theorem occurs_body (hr : Divided r) (hconstruct : occurs r ∈ bodyConstructs) (w : Writing)
    (hk : Component.isRegistered type = true) (i j : List Char) :
    occurs r (w.body type.toList i j) = (occurs r i || occurs r j) :=
  hr.occurs_copies (w.divided_front _) w.divided_between.1 w.divided_between.2 (w.divided_rear _)
    (quiet_body w hk hconstruct)

theorem occurs_code (hr : Divided r) (hconstruct : occurs r ∈ codeConstructs) (w : Writing)
    (hk : Component.isRegistered type = true) (i j : List Char) :
    occurs r (codeFront w type ++ (i ++ (w.between ++ (j ++ codeRear w type)))) = (occurs r i || occurs r j) :=
  hr.occurs_copies ((((((w.divided_front _).append _).append _).append _).append _).append _)
    w.divided_between.1 w.divided_between.2 ((w.divided_rear _).append _) (quiet_code w hk hconstruct)

/-- Masked copy shows no construct, and an escape shows all that stands beside it. -/
theorem occurs_veil (f : List Char → Option (α × List Char)) (s : List Char) :
    occurs (atEdge f) (veil true s) = (s.contains '\\' && occurs (atEdge f) s) := by
  by_cases hs : '\\' ∈ s
  · simp [veil, hs]
  · have hblank : ∀ c ∈ List.replicate s.length ' ', isWord c = false := by
      intro c hc
      rw [List.eq_of_mem_replicate hc]
      decide
    simp [veil, hs, occurs_atEdge_eq_false hblank]

/-- Whether the check of a masked body sees a construct in copy. -/
def isBared (s : List Char) : Bool :=
  s.contains '\\' && (occurs functionWord s || occurs bindingDeclaration s || occurs consoleMember s
    || occurs debuggerWord s)

theorem not_mem_of_isCopy (hs : ∀ c ∈ s, isCopy c = true) {d : Char} (hd : isCopy d = false) : d ∉ s := by
  intro hmem
  rw [hs d hmem] at hd
  cases hd

theorem occurs_hookCall_of_copy (hs : ∀ c ∈ s, isCopy c = true) : occurs hookCall s = false := by
  have hfree : '(' ∉ s := not_mem_of_isCopy hs (by decide)
  refine reads_hookCall.occurs_eq_false ?_ hfree
  rintro name own ⟨-, gap, -, rfl⟩
  simp

theorem occurs_eventHandlerProp_of_copy (hs : ∀ c ∈ s, isCopy c = true) : occurs eventHandlerProp s = false := by
  have hfree : '=' ∉ s := not_mem_of_isCopy hs (by decide)
  refine reads_eventHandlerProp.occurs_eq_false ?_ hfree
  rintro name own ⟨-, gap, -, rfl⟩
  simp

theorem occurs_signedWord_of_copy {word signs : List Char} (hne : word ≠ []) (hword : ∀ c ∈ word, isWord c = true)
    (hblank : ∀ c ∈ signs, isBlank c = false) {d : Char} (hd : d ∈ signs) (hcopy : isCopy d = false)
    (hs : ∀ c ∈ s, isCopy c = true) : occurs (signedWord word signs) s = false := by
  refine (reads_signedWord hne hword hblank).occurs_eq_false ?_ (not_mem_of_isCopy hs hcopy)
  rintro _ _ ⟨tail, htail, rfl⟩
  exact List.mem_append_right _ (htail.mem hd)

/-- No arrow stands in a body. -/
theorem occurs_arrowSign_body (w : Writing) (hk : Component.isRegistered type = true)
    (hi : ∀ c ∈ i, isCopy c = true) (hj : ∀ c ∈ j, isCopy c = true) :
    occurs arrowSign (w.body type.toList i j) = false := by
  have hfree : '=' ∉ i ++ (w.between ++ (j ++ w.rear type.toList)) := by
    have haround : '=' ∉ w.between ∧ '=' ∉ w.rear type.toList := by
      have hall : ∀ k ∈ Component.all, ∀ w ∈ Writing.all, '=' ∉ w.between ∧ '=' ∉ w.rear k.name.toList := by
        decide +kernel
      obtain ⟨k, hmem, rfl⟩ := Source.exists_component hk
      exact hall k hmem w w.mem_all
    simp [haround, not_mem_of_isCopy hi (d := '=') (by decide), not_mem_of_isCopy hj (d := '=') (by decide)]
  obtain ⟨x, hx⟩ : ∃ x, w.front type.toList = x ++ ['"'] := by
    cases w with
    | plain | mixed => exact ⟨Writing.lead type.toList ++ ['='], (List.append_assoc _ ['='] ['"']).symm⟩
    | braced => exact ⟨Writing.lead type.toList ++ ['=', '\x7b'], (List.append_assoc _ ['=', '\x7b'] ['"']).symm⟩
  have hquiet := (quiet_body w hk (f := occurs arrowSign) (by simp [bodyConstructs])).1
  rw [hx, divides_arrowSign.occurs, Bool.or_eq_false_iff] at hquiet
  rw [Writing.body, hx, List.append_assoc, List.singleton_append, divides_arrowSign.occurs, hquiet.1,
    Bool.false_or]
  refine Bool.eq_false_iff.mpr fun harrow => hfree ?_
  obtain ⟨u, v, heq⟩ := occurs_arrowSign_iff.mp harrow
  rw [heq]
  simp

/-- In the masked body the check sees what an escape bares. -/
theorem bodyViolations_mask_body (w : Writing) (hk : Component.isRegistered type = true)
    (hi : ∀ c ∈ i, isCopy c = true) (hj : ∀ c ∈ j, isCopy c = true) :
    bodyViolations (mask (w.body type.toList i j)) = [] ↔ isBared i = false ∧ isBared j = false := by
  have hi' : ∀ c ∈ veil true i, isCopy c = true := fun c hc => isCopy_of_mem_veil hi hc
  have hj' : ∀ c ∈ veil true j, isCopy c = true := fun c hc => isCopy_of_mem_veil hj hc
  have hveiled {α : Type} {r : Recogniser α} {f : List Char → Option (α × List Char)} (hedge : r = atEdge f)
      (hr : Divided r) (hconstruct : occurs r ∈ bodyConstructs) :
      occurs r (w.body type.toList (veil true i) (veil true j))
        = (i.contains '\\' && occurs r i || j.contains '\\' && occurs r j) := by
    rw [occurs_body hr hconstruct w hk, hedge, occurs_veil, occurs_veil]
  have hhook : occurs hookCall (w.body type.toList (veil true i) (veil true j)) = false := by
    rw [occurs_body divided_hookCall (by simp [bodyConstructs]) w hk, occurs_hookCall_of_copy hi',
      occurs_hookCall_of_copy hj', Bool.or_false]
  have hhandler : occurs eventHandlerProp (w.body type.toList (veil true i) (veil true j)) = false := by
    rw [occurs_body divided_eventHandlerProp (by simp [bodyConstructs]) w hk, occurs_eventHandlerProp_of_copy hi',
      occurs_eventHandlerProp_of_copy hj', Bool.or_false]
  have hfunction := hveiled (r := functionWord) rfl divided_functionWord (by simp [bodyConstructs])
  have hbinding := hveiled (r := bindingDeclaration) rfl divided_bindingDeclaration (by simp [bodyConstructs])
  have hconsole := hveiled (r := consoleMember) rfl divided_consoleMember (by simp [bodyConstructs])
  have hdebugger := hveiled (r := debuggerWord) rfl divided_debuggerWord (by simp [bodyConstructs])
  rw [mask_body w hk hi hj, bodyViolations_eq_nil_iff]
  simp only [bodyConstructs, List.forall_mem_cons, List.not_mem_nil, false_implies, implies_true, and_true, hhook,
    occurs_arrowSign_body w hk hi' hj', hfunction, hhandler, hbinding, hconsole, hdebugger, true_and, isBared,
    Bool.and_or_distrib_left, Bool.or_eq_false_iff]
  constructor
  · rintro ⟨⟨hf, hf'⟩, ⟨hb, hb'⟩, ⟨hc, hc'⟩, hd, hd'⟩
    exact ⟨⟨⟨⟨hf, hb⟩, hc⟩, hd⟩, ⟨⟨hf', hb'⟩, hc'⟩, hd'⟩
  · rintro ⟨⟨⟨⟨hf, hb⟩, hc⟩, hd⟩, ⟨⟨hf', hb'⟩, hc'⟩, hd'⟩
    exact ⟨⟨hf, hf'⟩, ⟨hb, hb'⟩, ⟨hc, hc'⟩, hd, hd'⟩

/-- Whether the check of a module sees a construct in copy: a component that is declared, or markup, in any
copy, and more where an escape bares it. -/
def isReported (s : List Char) : Bool :=
  occurs componentDeclaration s || occurs innerHtmlWord s || isBared s

theorem occurs_signedWord_code (w : Writing) (hk : Component.isRegistered type = true)
    (hi : ∀ c ∈ i, isCopy c = true) (hj : ∀ c ∈ j, isCopy c = true) {word signs : List Char} (hne : word ≠ [])
    (hword : ∀ c ∈ word, isWord c = true)
    (hsigns : ∀ c ∈ signs, isBlank c = false ∧ isDivider c = false) (hcopy : ∃ c ∈ signs, isCopy c = false)
    (hconstruct : occurs (signedWord word signs) ∈ codeConstructs) :
    occurs (signedWord word signs) (codeFront w type ++ (i ++ (w.between ++ (j ++ codeRear w type)))) = false := by
  have hblank : ∀ c ∈ signs, isBlank c = false := fun c hc => (hsigns c hc).1
  obtain ⟨sign, hsign, hsigncopy⟩ := hcopy
  rw [occurs_code (divided_signedWord hne hword hsigns) hconstruct w hk,
    occurs_signedWord_of_copy hne hword hblank hsign hsigncopy hi,
    occurs_signedWord_of_copy hne hword hblank hsign hsigncopy hj, Bool.or_false]

theorem occurs_dynamicCall_code (w : Writing) (hk : Component.isRegistered type = true)
    (hi : ∀ c ∈ i, isCopy c = true) (hj : ∀ c ∈ j, isCopy c = true) :
    occurs dynamicCall (codeFront w type ++ (i ++ (w.between ++ (j ++ codeRear w type)))) = false := by
  have hparen : ∀ c ∈ ['('], isBlank c = false ∧ isDivider c = false := forall_of_all (by decide)
  refine occurs_either (fun _ _ => signedWord_of_dynamicCall) ?_ ?_
  · exact occurs_signedWord_code w hk hi hj (by decide) (forall_of_all (by decide)) hparen
      ⟨'(', by decide, by decide⟩ (by simp [codeConstructs])
  · exact occurs_signedWord_code w hk hi hj (by decide) (forall_of_all (by decide)) hparen
      ⟨'(', by decide, by decide⟩ (by simp [codeConstructs])

theorem occurs_inlineStyle_code (w : Writing) (hk : Component.isRegistered type = true)
    (hi : ∀ c ∈ i, isCopy c = true) (hj : ∀ c ∈ j, isCopy c = true) :
    occurs inlineStyle (codeFront w type ++ (i ++ (w.between ++ (j ++ codeRear w type)))) = false := by
  refine occurs_either (fun _ _ => signedWord_of_inlineStyle) ?_ ?_
  · exact occurs_signedWord_code w hk hi hj (by decide) (forall_of_all (by decide))
      (forall_of_all (by decide)) ⟨'=', by decide, by decide⟩ (by simp [codeConstructs])
  · exact occurs_signedWord_code w hk hi hj (by decide) (forall_of_all (by decide))
      (forall_of_all (by decide)) ⟨'\x7b', by decide, by decide⟩ (by simp [codeConstructs])

/-- A tree in whose module a title and a text stand, in one of the ways to write them. -/
structure Holds (t : Tree) (w : Writing) (type : String) (i j : List Char) : Prop where
  body : bodyOf (markupOf 0 t) = w.body type.toList i j
  code : (sourceOf t).code = codeFront w type ++ (i ++ (w.between ++ (j ++ codeRear w type)))
  title : ∀ c ∈ i, isCopy c = true
  text : ∀ c ∈ j, isCopy c = true

/-- Nothing is wrong with a generated module just when nothing is found in its body, and none of the constructs
that are looked for before anything is masked. -/
theorem violations_sourceOf_eq_nil_iff {t : Tree} (ht : t.Accepted) (hreg : Registered t) :
    violations (sourceOf t).code = [] ↔ bodyViolations (mask (bodyOf (markupOf 0 t))) = []
      ∧ occurs dynamicCall (sourceOf t).code = false ∧ occurs inlineStyle (sourceOf t).code = false
      ∧ occurs innerHtmlWord (sourceOf t).code = false ∧ occurs componentDeclaration (sourceOf t).code = false := by
  have hinner : whereOccurs innerHtmlWord .innerHtml (sourceOf t).code = []
      ↔ occurs innerHtmlWord (sourceOf t).code = false := by
    rw [whereOccurs]
    cases occurs innerHtmlWord (sourceOf t).code <;> simp
  rw [← findAll_eq_nil_iff fun before => (steady_dynamicCall before).nil,
    ← findAll_eq_nil_iff fun before => (steady_inlineStyle before).nil, ← hinner,
    ← findAll_eq_nil_iff fun before => (steady_componentDeclaration before).nil]
  simp only [violations, wrapperViolations_sourceOf ht hreg, allImportViolations_sourceOf ht hreg, styleViolations,
    declarationViolations, tagViolations_sourceOf ht hreg, List.append_eq_nil_iff, List.map_eq_nil_iff, and_true,
    and_assoc]

/-- Nothing is wrong with the module but what is reported in its title and its text. -/
theorem violations_of_holds {t : Tree} {w : Writing} (h : Holds t w type i j) (ht : t.Accepted)
    (hreg : Registered t) (hk : Component.isRegistered type = true) :
    violations (sourceOf t).code = [] ↔ isReported i = false ∧ isReported j = false := by
  rw [violations_sourceOf_eq_nil_iff ht hreg, h.body, h.code, bodyViolations_mask_body w hk h.title h.text,
    occurs_dynamicCall_code w hk h.title h.text, occurs_inlineStyle_code w hk h.title h.text,
    occurs_code divided_innerHtmlWord (by simp [codeConstructs]) w hk,
    occurs_code divided_componentDeclaration (by simp [codeConstructs]) w hk]
  simp only [true_and, isReported, Bool.or_eq_false_iff]
  constructor
  · rintro ⟨⟨hb, hb'⟩, ⟨hm, hm'⟩, hd, hd'⟩
    exact ⟨⟨⟨hd, hm⟩, hb⟩, ⟨hd', hm'⟩, hb'⟩
  · rintro ⟨⟨⟨hd, hm⟩, hb⟩, ⟨hd', hm'⟩, hb'⟩
    exact ⟨⟨hb, hb'⟩, ⟨hm, hm'⟩, hd, hd'⟩

end Wireframe.Lint
