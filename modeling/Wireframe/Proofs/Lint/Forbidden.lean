import Wireframe.Proofs.Lint.MaskedCode
import Wireframe.Proofs.Lint.Whitelist
import Wireframe.Proofs.Lint.Wrapper
import Wireframe.Proofs.Markup.Attributes

/-! Props that no node may have. The check of layouts lets them pass; the check of the source finds each of
them by its name, whatever its value and whatever stands around it. -/
namespace Wireframe.Lint
open Markup Text

variable {a b name own rest front s : List Char} {c d : Char} {v : Value} {e : String × Value}
variable {t : Tree} {w : Violation}

/-- Whether a prop is a style, markup of its own, or an event handler. -/
def isForbidden (name : List Char) : Bool :=
  name = "style".toList || name = "dangerouslySetInnerHTML".toList
    || (after? "on".toList name).any fun rest => rest.head?.any isCapital

/-- What the check of a source says about a prop. A newline that closes the name of an event handler is not
part of what is found. -/
inductive Tells : List Char → Violation → Prop
  | style (form : String) : Tells "style".toList (.inlineStyle form)
  | innerHtml : Tells "dangerouslySetInnerHTML".toList .innerHtml
  | handler {name gap : List Char} (h : Capitalised "on".toList name) (hgap : gap = [] ∨ gap = ['\n']) :
      Tells (name ++ gap) (.eventHandler (String.ofList name))

theorem isWord_of_isNameChar (h : isNameChar c = true) : isWord c = true := by
  rcases Bool.or_eq_true_iff.mp h with halphanum | hunderscore
  · have hlimit := toNat_of_isAlphanum halphanum
    rw [isWord, isAlphanumeric, if_pos (by omega), halphanum, Bool.or_true]
  · obtain rfl := of_decide_eq_true hunderscore
    decide

theorem isNameChar_of_isCapital (h : isCapital c = true) : isNameChar c = true := by
  obtain ⟨hlow, hhigh⟩ := Bool.and_eq_true_iff.mp h
  have hupper : c.isUpper = true := decide_eq_true ⟨of_decide_eq_true hlow, of_decide_eq_true hhigh⟩
  have halpha : c.isAlpha = true := Bool.or_eq_true_iff.mpr (.inl hupper)
  rw [isNameChar, Char.isAlphanum, halpha, Bool.true_or, Bool.true_or]

/-- The name of an event handler, up to the newline that may close it. -/
theorem exists_handler (hname : isPropName name = true)
    (h : (after? "on".toList name).any (fun rest => rest.head?.any isCapital) = true) :
    ∃ found gap, name = found ++ gap ∧ Capitalised "on".toList found ∧ (gap = [] ∨ gap = ['\n']) := by
  obtain ⟨rest, hrest, hcapital⟩ := (Option.any_eq_true _ _).mp h
  obtain rfl := after?_eq_some_iff.mp hrest
  cases rest with
  | nil => cases hcapital
  | cons c tail =>
    have hc : isCapital c = true := hcapital
    have hstart : isNameChar c = true := isNameChar_of_isCapital hc
    have hend : (tail.dropWhile isNameChar = []) ∨ (tail.dropWhile isNameChar = ['\n']) := by
      have hrun : ('n' :: c :: tail).dropWhile isNameChar = tail.dropWhile isNameChar := by
        rw [List.dropWhile_cons_of_pos (by decide), List.dropWhile_cons_of_pos hstart]
      have hall : isPropName ('o' :: 'n' :: c :: tail) = true := hname
      rw [isPropName, hrun] at hall
      split at hall
      · exact .inl ‹_›
      · exact .inr ‹_›
      · simp at hall
    refine ⟨'o' :: 'n' :: c :: tail.takeWhile isNameChar, tail.dropWhile isNameChar, ?_, ?_, hend⟩
    · rw [List.cons_append, List.cons_append, List.cons_append, List.takeWhile_append_dropWhile]
      rfl
    · exact ⟨c, tail.takeWhile isNameChar, rfl, hc,
        fun d hd => isWord_of_isNameChar (List.mem_takeWhile_imp hd)⟩

/-- Behind a character that is no part of a word the text of a name with a sign has no more words. -/
theorem not_isWord_behind {sign : Char} (hown : SignedText a sign name own) (ha : ∀ c ∈ a, isWord c = true)
    (hsign : isWord sign = false) (hd : isWord d = false) (heq : own = b ++ d :: rest) :
    ∀ c ∈ rest, isWord c = false := by
  obtain ⟨⟨c, tail, rfl, hc, htail⟩, gap, hgap, rfl⟩ := hown
  have hwords : ∀ x ∈ a ++ c :: tail, isWord x = true :=
    List.forall_mem_append.mpr ⟨ha, List.forall_mem_cons.mpr ⟨isWord_of_isCapital hc, htail⟩⟩
  have hsigns : ∀ x ∈ gap ++ [sign], isWord x = false :=
    List.forall_mem_append.mpr ⟨fun x hx => isWord_of_isBlank (hgap x hx), by simpa using hsign⟩
  rcases List.append_eq_append_iff.mp heq with ⟨x, rfl, hx⟩ | ⟨x, hx, hrest⟩
  · intro y hy
    refine hsigns y ?_
    rw [hx]
    exact List.mem_append_right _ (List.mem_cons_of_mem _ hy)
  · cases x with
    | nil =>
      intro y hy
      refine hsigns y ?_
      rw [← List.nil_append (gap ++ [sign]), ← hrest]
      exact List.mem_cons_of_mem _ hy
    | cons y x =>
      obtain rfl : d = y := (List.cons.inj hrest).1
      have hword := hwords d (by rw [hx]; simp)
      rw [hd] at hword
      cases hword

/-- An event handler behind a blank is found, as no find reaches over the blank. -/
theorem mem_findAll_eventHandlerProp {gap : List Char} (h : Capitalised "on".toList name)
    (hgap : ∀ c ∈ gap, isBlank c = true) :
    name ∈ findAll eventHandlerProp (front ++ ' ' :: (name ++ (gap ++ '=' :: rest))) := by
  have hreads := reads_eventHandlerProp
  have hfound : eventHandlerProp (some ' ') (name ++ (gap ++ '=' :: rest)) = some (name, rest) :=
    (hreads _ _ _ _).mpr ⟨by decide, _, ⟨h, gap, hgap, rfl⟩, by simp, fun _ _ => rfl⟩
  obtain ⟨c, tail, hname, -, -⟩ := h
  have hsplit : name ++ (gap ++ '=' :: rest) = 'o' :: ('n' :: c :: (tail ++ (gap ++ '=' :: rest))) := by
    rw [hname]
    rfl
  have hassoc : front ++ ' ' :: (name ++ (gap ++ '=' :: rest))
      = (front ++ [' ']) ++ (name ++ (gap ++ '=' :: rest)) := by simp
  rw [hsplit] at hfound hassoc ⊢
  rw [hassoc]
  refine mem_findAll (by rwa [lastRead_concat]) fun u v y rest' hfront hv hy => ?_
  obtain ⟨-, own, hown, heq, -⟩ := (hreads _ _ _ _).mp hy
  obtain ⟨v, rfl⟩ : ∃ v', v = v' ++ [' '] := by
    obtain ⟨v', d, rfl⟩ := List.eq_nil_or_concat' v |>.resolve_left hv
    rw [← List.append_assoc] at hfront
    obtain ⟨-, hd⟩ := List.append_inj' hfront rfl
    exact ⟨v', by rw [hd]⟩
  rcases List.append_eq_append_iff.mp heq with ⟨x, hx, hrest⟩ | ⟨x, -, hrest⟩
  · cases x with
    | nil => exact Nat.le_of_eq (congrArg List.length hrest)
    | cons d x =>
      have hd : 'o' = d := (List.cons.inj hrest).1
      have hbehind : own = v ++ ' ' :: (d :: x) := by simpa using hx
      have hword := not_isWord_behind hown (forall_of_all (by decide)) (by decide) (by decide) hbehind d
        List.mem_cons_self
      rw [← hd] at hword
      exact absurd hword (by decide)
  · rw [hrest, List.length_append]
    exact Nat.le_add_left _ _

/-- A value stands in quotes or in braces. -/
theorem exists_valueText (v : Value) : ∃ c rest, valueText v = c :: rest ∧ (c = '"' ∨ c = '\x7b') := by
  rcases valueText_cases v with ⟨s, -, -, h⟩ | h
  · exact ⟨'"', _, h, .inl rfl⟩
  · exact ⟨'\x7b', _, h, .inr rfl⟩

theorem findAll_inlineStyle_ne_nil (hc : c = '"' ∨ c = '\x7b') :
    findAll inlineStyle (front ++ ' ' :: ("style".toList ++ '=' :: c :: rest)) ≠ [] := by
  have hassoc : front ++ ' ' :: ("style".toList ++ '=' :: c :: rest)
      = (front ++ [' ']) ++ 's' :: ("tyle".toList ++ '=' :: c :: rest) := by simp
  rw [hassoc]
  refine findAll_ne_nil ?_
  rw [lastRead_concat]
  rcases hc with rfl | rfl <;> rfl

theorem occurs_innerHtmlWord :
    occurs innerHtmlWord (front ++ ' ' :: ("dangerouslySetInnerHTML".toList ++ '=' :: rest)) = true := by
  refine occurs_iff.mpr ⟨front ++ [' '], "dangerouslySetInnerHTML".toList ++ '=' :: rest, by simp, ?_⟩
  rw [lastRead_concat]
  rfl

/-- Masking leaves every event handler to be found. -/
theorem findAll_eventHandlerProp_mask (s : List Char) :
    findAll eventHandlerProp (mask s) = findAll eventHandlerProp s := by
  have hon : Lead "on".toList := lead_of_word (by decide) (forall_of_all (by decide))
  rw [eventHandlerProp_eq]
  exact (masks_mask s).findAll_signedName hon ⟨'o', rfl, by decide⟩ (by decide) (by decide)

/-- The attributes of a node stand in the body of the generated function, and the body in the module. -/
theorem exists_sourceOf_attribute {l : Layout} {place : Layout.Place} {id : Nat} {n : Layout.Node}
    (ht : l.Unfolds t) (hn : l.nodeAt? place = some (id, n)) (he : e ∈ n.props.getD [])
    (hname : e.1 ≠ Component.textProp) :
    ∃ x y, bodyOf (markupOf 0 t) = x ++ ' ' :: (attributeOf e ++ y) := by
  obtain ⟨levels, ht⟩ := ht
  obtain ⟨x, y, hmarkup⟩ := exists_markupOf_node ht hn 0
  obtain ⟨x', y', hattributes⟩ := exists_attributesOf he hname
  refine ⟨Source.returning ++ (x ++ x'), y' ++ (y ++ "\n  );\n".toList), ?_⟩
  rw [bodyOf, hmarkup, hattributes]
  simp

theorem mem_violations_of_body (ht : t.Accepted) (hreg : Registered t)
    (hw : w ∈ bodyViolations (mask (bodyOf (markupOf 0 t)))) : w ∈ violations (sourceOf t).code := by
  have hwrapper : w ∈ wrapperViolations (sourceOf t).code := by
    rwa [wrapperViolations_sourceOf ht hreg]
  simp [violations, hwrapper]

theorem mem_violations_of_style {source : List Char} (hw : w ∈ styleViolations source) :
    w ∈ violations source := by
  simp [violations, hw]

/-- A forbidden prop is told of, whatever its value. -/
theorem exists_tells {x y : List Char} (ht : t.Accepted) (hreg : Registered t)
    (hprop : isPropName e.1.toList = true) (hname : isForbidden e.1.toList = true)
    (hbody : bodyOf (markupOf 0 t) = x ++ ' ' :: (attributeOf e ++ y)) :
    ∃ w, Tells e.1.toList w ∧ w ∈ violations (sourceOf t).code := by
  obtain ⟨c, rest, hvalue, hc⟩ := exists_valueText e.2
  have hsplit : bodyOf (markupOf 0 t) = x ++ ' ' :: (e.1.toList ++ '=' :: c :: (rest ++ y)) := by
    rw [hbody, attributeOf, hvalue]
    simp
  have hcode : ∃ front rear, (sourceOf t).code
      = front ++ ' ' :: (e.1.toList ++ '=' :: c :: rear) := by
    have hassemble : (sourceOf t).code = Source.importsOf t.types.eraseDups
        ++ (Source.header ++ (bodyOf (markupOf 0 t) ++ ['\x7d', '\n'])) := assemble_eq_body _ _
    refine ⟨Source.importsOf t.types.eraseDups ++ (Source.header ++ x), rest ++ y ++ ['\x7d', '\n'], ?_⟩
    rw [hassemble, hsplit]
    simp
  obtain ⟨front, rear, hcode⟩ := hcode
  rw [isForbidden, Bool.or_eq_true, Bool.or_eq_true] at hname
  rcases hname with (hstyle | hhtml) | hhandler
  · have hstyle := of_decide_eq_true hstyle
    rw [hstyle] at hcode ⊢
    obtain ⟨form, hform⟩ := List.exists_mem_of_ne_nil _ (findAll_inlineStyle_ne_nil hc)
    refine ⟨_, .style (String.ofList form), mem_violations_of_style ?_⟩
    rw [hcode]
    exact List.mem_append_left _ (List.mem_map_of_mem hform)
  · have hhtml := of_decide_eq_true hhtml
    rw [hhtml] at hcode ⊢
    refine ⟨_, .innerHtml, mem_violations_of_style (List.mem_append_right _ ?_)⟩
    rw [hcode]
    exact mem_whereOccurs.mpr ⟨rfl, occurs_innerHtmlWord⟩
  · obtain ⟨found, gap, hfound, hcapital, hgap⟩ := exists_handler hprop hhandler
    have hblank : ∀ c ∈ gap, isBlank c = true := by
      rcases hgap with rfl | rfl <;> exact forall_of_all (by decide)
    rw [hfound] at hsplit ⊢
    rw [List.append_assoc] at hsplit
    refine ⟨_, .handler hcapital hgap, mem_violations_of_body ht hreg ?_⟩
    have hmem : found ∈ findAll eventHandlerProp (mask (bodyOf (markupOf 0 t))) := by
      rw [findAll_eventHandlerProp_mask, hsplit]
      exact mem_findAll_eventHandlerProp hcapital hblank
    simp only [bodyViolations, List.mem_append]
    exact .inl (.inl (.inl (.inr (List.mem_map_of_mem hmem))))

end Wireframe.Lint
