import Wireframe.Proofs.Lint.Dividing
import Wireframe.Proofs.Lint.Ending
import Wireframe.Proofs.Lint.MaskedCode

/-! Declarations of components, and the signs that divide what the check looks for. Quotes and angle brackets
divide all constructs but arrows and styles. -/
namespace Wireframe.Lint
open Text Injection

variable {α : Type} {r : Recogniser α} {s own name rest word folded x y : List Char} {c d sign : Char}
variable {before : Option Char}

theorem isWord_of_foldsTo {a : Char} (ha : a.isLower = true) (h : foldsTo a c = true) : isWord c = true := by
  simp only [foldsTo, Bool.or_eq_true, Bool.and_eq_true, decide_eq_true_eq] at h
  rcases h with (h | ⟨_, rfl⟩) | ⟨_, rfl | rfl⟩
  · exact isWord_of_isAlpha (isAlpha_of_isLower_toLower (h ▸ ha))
  · decide +kernel
  · decide +kernel
  · decide +kernel

theorem isWord_of_mem_folded (h : Folded word folded) (hword : word.all Char.isLower = true) :
    ∀ c ∈ folded, isWord c = true := by
  induction h with
  | nil => exact List.forall_mem_nil _
  | cons hc _ ih =>
    rw [List.all_cons, Bool.and_eq_true] at hword
    exact List.forall_mem_cons.mpr ⟨isWord_of_foldsTo hword.1 hc, ih hword.2⟩

/-- Whether a name ends in "component", with something in front. -/
def isComponentName (name : List Char) : Bool :=
  name.length - 9 ≠ 0 && (afterFolded? "component".toList (name.drop (name.length - 9))).any List.isEmpty

theorem componentName?_eq_some_iff : componentName? s = some (name, rest) ↔
    isComponentName name = true ∧ (∀ c ∈ name, isWord c = true) ∧ s = name ++ rest
      ∧ ∀ c ∈ rest.head?, isWord c = false := by
  have hname : componentName? s
      = if isComponentName (s.span isWord).1 then some (s.span isWord) else none := by
    rw [componentName?, isComponentName, wordRun]
    generalize s.span isWord = found
    by_cases hlen : found.1.length - 9 = 0
    · simp [hlen]
    · simp only [hlen, if_false]
      cases afterFolded? "component".toList (found.1.drop (found.1.length - 9)) with
      | none => simp
      | some tail => cases tail <;> simp [hlen]
  rw [hname, ← span_eq_iff]
  constructor
  · intro h
    split at h
    · rename_i hends
      have hspan : s.span isWord = (name, rest) := Option.some.inj h
      rw [hspan] at hends
      exact ⟨hends, hspan⟩
    · cases h
  · rintro ⟨hends, hspan⟩
    rw [hspan, if_pos hends]

theorem ne_nil_of_isComponentName (h : isComponentName name = true) : name ≠ [] := by
  rintro rfl
  exact absurd h (by decide)

/-- The text of a name of a component behind a keyword. -/
def NamedText (keyword name own : List Char) : Prop :=
  isComponentName name = true ∧ (∀ c ∈ name, isWord c = true) ∧
    ∃ folded gap, Folded keyword folded ∧ Gap gap ∧ own = folded ++ (gap ++ name)

/-- A keyword and the name of a component. -/
theorem named_eq_some_iff {keyword : List Char} :
    (afterFolded? keyword s >>= fun rest => blanks? rest >>= componentName?) = some (name, rest) ↔
      ∃ own, NamedText keyword name own ∧ s = own ++ rest ∧ ∀ c ∈ rest.head?, isWord c = false := by
  rw [Option.bind_eq_bind, Option.bind_eq_some_iff]
  constructor
  · rintro ⟨behind, hbehind, htail⟩
    obtain ⟨named, hnamed, hname⟩ := Option.bind_eq_some_iff.mp htail
    obtain ⟨folded, rfl, hfolded⟩ := afterFolded?_eq_some_iff.mp hbehind
    obtain ⟨gap, hgap, rfl, -⟩ := blanks?_eq_some_iff.mp hnamed
    obtain ⟨hends, hword, rfl, hstop⟩ := componentName?_eq_some_iff.mp hname
    exact ⟨_, ⟨hends, hword, folded, gap, hfolded, hgap, rfl⟩, by simp, hstop⟩
  · rintro ⟨_, ⟨hends, hword, folded, gap, hfolded, hgap, rfl⟩, rfl, hstop⟩
    refine ⟨gap ++ (name ++ rest), afterFolded?_eq_some_iff.mpr ⟨folded, by simp, hfolded⟩, ?_⟩
    refine Option.bind_eq_some_iff.mpr ⟨name ++ rest, blanks?_eq_some_iff.mpr ⟨gap, hgap, rfl, ?_⟩,
      componentName?_eq_some_iff.mpr ⟨hends, hword, rfl, hstop⟩⟩
    obtain ⟨c, tail, rfl⟩ := List.exists_cons_of_ne_nil (ne_nil_of_isComponentName hends)
    intro d hd
    obtain rfl : c = d := Option.some.inj hd
    exact not_isBlank_of_isWord (hword c List.mem_cons_self)

theorem NamedText.head {keyword : List Char} (h : NamedText keyword name own) (hne : keyword ≠ [])
    (hkeyword : keyword.all Char.isLower = true) : ∃ c ∈ own.head?, isWord c = true := by
  obtain ⟨-, -, folded, gap, hfolded, -, rfl⟩ := h
  cases hfolded with
  | nil => exact (hne rfl).elim
  | cons hc htail =>
    exact ⟨_, rfl, isWord_of_mem_folded (.cons hc htail) hkeyword _ List.mem_cons_self⟩

theorem NamedText.not_mem {keyword : List Char} (h : NamedText keyword name own)
    (hkeyword : keyword.all Char.isLower = true) (hword : isWord d = false) (hblank : isBlank d = false) :
    d ∉ own := by
  obtain ⟨-, hname, folded, gap, hfolded, hgap, rfl⟩ := h
  have hfree : ∀ c ∈ folded ++ (gap ++ name), isWord c = true ∨ isBlank c = true := by
    refine List.forall_mem_append.mpr ⟨fun c hc => .inl (isWord_of_mem_folded hfolded hkeyword c hc), ?_⟩
    exact List.forall_mem_append.mpr ⟨fun c hc => .inr (hgap.2 c hc), fun c hc => .inl (hname c hc)⟩
  intro hmem
  rcases hfree d hmem with h | h
  · rw [hword] at h
    cases h
  · rw [hblank] at h
    cases h

theorem reads_declaredClass : Reads (atEdge declaredClass) (NamedText "class".toList) isWord :=
  reads_atEdge (fun _ _ h => h.head (by decide) (by decide)) fun _ _ _ => named_eq_some_iff

theorem reads_declaredBy {keyword : List Char} (hne : keyword ≠ []) (hkeyword : keyword.all Char.isLower = true)
    (hsign : isBlank sign = false) (hword : isWord sign = false) :
    Reads (atEdge (declaredBy keyword sign)) (fun name own => ∃ front gap, NamedText keyword name front ∧
      (∀ c ∈ gap, isBlank c = true) ∧ own = front ++ (gap ++ [sign])) fun _ => false := by
  refine reads_atEdge ?_ fun s name rest => ?_
  · rintro name own ⟨front, gap, hfront, -, rfl⟩
    obtain ⟨c, hc, hcw⟩ := hfront.head hne hkeyword
    refine ⟨c, ?_, hcw⟩
    rw [List.head?_append, show front.head? = some c from hc]
    rfl
  · have hdeclared : declaredBy keyword sign s
        = (afterFolded? keyword s >>= fun rest => blanks? rest >>= componentName?) >>= fun found =>
          after? [sign] (trimStart found.2) >>= fun rest => some (found.1, rest) := by
      rw [declaredBy]
      simp only [Option.bind_eq_bind, Option.bind_assoc]
      rfl
    rw [hdeclared, Option.bind_eq_bind, Option.bind_eq_some_iff]
    constructor
    · rintro ⟨⟨found, behind⟩, hfound, htail⟩
      obtain ⟨front, hfront, rfl, -⟩ := named_eq_some_iff.mp hfound
      obtain ⟨rest', hrest', h⟩ := Option.bind_eq_some_iff.mp htail
      cases h
      obtain ⟨gap, hgap, rfl⟩ := (after?_trimStart_eq_some_iff hsign).mp hrest'
      exact ⟨_, ⟨front, gap, hfront, hgap, rfl⟩, by simp, by simp⟩
    · rintro ⟨own, ⟨front, gap, hfront, hgap, rfl⟩, rfl, -⟩
      refine ⟨(name, gap ++ sign :: rest), named_eq_some_iff.mpr ⟨front, hfront, by simp, ?_⟩, ?_⟩
      · cases gap with
        | nil => simpa using hword
        | cons c gap => simpa using isWord_of_isBlank (hgap c List.mem_cons_self)
      · exact Option.bind_eq_some_iff.mpr
          ⟨rest, (after?_trimStart_eq_some_iff hsign).mpr ⟨gap, hgap, rfl⟩, rfl⟩

/-! The signs that divide. -/

/-- A quote or an angle bracket. -/
def isDivider (d : Char) : Bool := d = '"' || d = '\'' || d = '<' || d = '>'

theorem of_isDivider (hd : isDivider d = true) :
    isPlain d = false ∧ isWord d = false ∧ isBlank d = false ∧ isBindingChar d = false ∧ isTelling d = false
      ∧ d ≠ '\x7b' := by
  simp only [isDivider, Bool.or_eq_true, decide_eq_true_eq] at hd
  rcases hd with ((rfl | rfl) | rfl) | rfl <;> decide

theorem Lead.not_mem (h : Lead own) (hd : isDivider d = true) : d ∉ own := by
  intro hmem
  have hplain := h.plain d hmem
  rw [(of_isDivider hd).1] at hplain
  cases hplain

theorem divides_signedName {start : List Char} (hstart : Lead start)
    (hhead : ∃ c ∈ start.head?, isWord c = true) (hsign : isTelling sign = true) (hword : isWord sign = false)
    (hd : isDivider d = true) : Divides d (signedName start sign) := by
  refine (reads_signedName hhead (of_isTelling hsign).2.1 hword).divides ?_ rfl (of_isDivider hd).2.1
  rintro name own ⟨hname, gap, hgap, rfl⟩ hmem
  rw [← List.append_assoc] at hmem
  rcases List.mem_append.mp hmem with hmem | hmem
  · exact ((hname.lead hstart).append fun c hc => isPlain_of_isBlank (hgap c hc)).not_mem hd hmem
  · obtain rfl := List.mem_singleton.mp hmem
    rw [(of_isDivider hd).2.2.2.2.1] at hsign
    cases hsign

theorem divides_hookCall (hd : isDivider d = true) : Divides d hookCall :=
  divides_signedName (lead_of_word (by decide) (forall_of_all (by decide))) ⟨'u', rfl, by decide⟩
    (by decide) (by decide) hd

theorem divides_eventHandlerProp (hd : isDivider d = true) : Divides d eventHandlerProp :=
  divides_signedName (lead_of_word (by decide) (forall_of_all (by decide))) ⟨'o', rfl, by decide⟩
    (by decide) (by decide) hd

theorem divides_functionWord (hd : isDivider d = true) : Divides d functionWord := by
  have hlead : Lead "function".toList := lead_of_word (by decide) (forall_of_all (by decide))
  obtain ⟨-, hword, -⟩ := of_isDivider hd
  exact reads_functionWord.divides (fun _ own hown => hown ▸ hlead.not_mem hd) hword hword

theorem divides_debuggerWord (hd : isDivider d = true) : Divides d debuggerWord := by
  have hlead : Lead "debugger".toList := lead_of_word (by decide) (forall_of_all (by decide))
  obtain ⟨-, hword, -⟩ := of_isDivider hd
  exact reads_debuggerWord.divides (fun _ own hown => hown ▸ hlead.not_mem hd) hword hword

theorem divides_innerHtmlWord (hd : isDivider d = true) : Divides d innerHtmlWord := by
  have hlead : Lead "dangerouslySetInnerHTML".toList := lead_of_word (by decide) (forall_of_all (by decide))
  obtain ⟨-, hword, -⟩ := of_isDivider hd
  exact reads_innerHtmlWord.divides (fun _ own hown => hown ▸ hlead.not_mem hd) hword hword

theorem divides_bindingDeclaration (hd : isDivider d = true) : Divides d bindingDeclaration :=
  reads_bindingDeclaration.divides (fun _ _ hown => (lead_of_bindingText hown).not_mem hd)
    (of_isDivider hd).2.2.2.1 (of_isDivider hd).2.1

theorem divides_consoleMember (hd : isDivider d = true) : Divides d consoleMember :=
  reads_consoleMember.divides (fun _ _ hown => (lead_of_memberText hown).not_mem hd) (of_isDivider hd).2.1
    (of_isDivider hd).2.1

theorem divides_signedWord {signs : List Char} (hne : word ≠ []) (hword : ∀ c ∈ word, isWord c = true)
    (hsigns : ∀ c ∈ signs, isBlank c = false) (hfree : d ∉ signs) (hd : isDivider d = true) :
    Divides d (signedWord word signs) := by
  obtain ⟨-, hdword, hdblank, -⟩ := of_isDivider hd
  refine (reads_signedWord hne hword hsigns).divides ?_ rfl hdword
  rintro _ _ ⟨tail, htail, rfl⟩ hmem
  rcases List.mem_append.mp hmem with hmem | hmem
  · exact (lead_of_word hne hword).not_mem hd hmem
  · exact htail.not_mem hdblank hfree hmem

theorem divides_declaredBy {keyword : List Char} (hne : keyword ≠ [])
    (hkeyword : keyword.all Char.isLower = true) (hsign : isTelling sign = true) (hword : isWord sign = false)
    (hd : isDivider d = true) : Divides d (atEdge (declaredBy keyword sign)) := by
  obtain ⟨-, hdword, hdblank, -, hdtelling, -⟩ := of_isDivider hd
  refine (reads_declaredBy hne hkeyword (of_isTelling hsign).2.1 hword).divides ?_ rfl hdword
  rintro name _ ⟨front, gap, hfront, hgap, rfl⟩ hmem
  rcases List.mem_append.mp hmem with hmem | hmem
  · exact hfront.not_mem hkeyword hdword hdblank hmem
  · rcases List.mem_append.mp hmem with hmem | hmem
    · rw [hgap d hmem] at hdblank
      cases hdblank
    · obtain rfl := List.mem_singleton.mp hmem
      rw [hdtelling] at hsign
      cases hsign

theorem divides_componentDeclaration (hd : isDivider d = true) : Divides d componentDeclaration := by
  obtain ⟨-, hdword, hdblank, -⟩ := of_isDivider hd
  have hclass : Divides d (atEdge declaredClass) :=
    reads_declaredClass.divides (fun _ _ h => h.not_mem (by decide) hdword hdblank) hdword hdword
  have hfunction : Divides d (atEdge (declaredBy "function".toList '(')) :=
    divides_declaredBy (by decide) (by decide) (by decide) (by decide) hd
  have hvar : Divides d (atEdge (declaredBy "var".toList '=')) :=
    divides_declaredBy (by decide) (by decide) (by decide) (by decide) hd
  have hlet : Divides d (atEdge (declaredBy "let".toList '=')) :=
    divides_declaredBy (by decide) (by decide) (by decide) (by decide) hd
  have hconst : Divides d (atEdge (declaredBy "const".toList '=')) :=
    divides_declaredBy (by decide) (by decide) (by decide) (by decide) hd
  have htail := Divides.either (isSome_atEdge_orElse _ _) hvar
    (Divides.either (isSome_atEdge_orElse _ _) hfunction hclass)
  exact Divides.either (isSome_atEdge_orElse _ _) hconst (Divides.either (isSome_atEdge_orElse _ _) hlet htail)

theorem isSome_after?_divided {a : List Char} (ha : d ∉ a) (s y : List Char) :
    (Text.after? a (s ++ d :: y)).isSome = (Text.after? a s).isSome := by
  induction s generalizing a with
  | nil =>
    cases a with
    | nil => rfl
    | cons c a =>
      have hc : c ≠ d := fun h => ha (h ▸ List.mem_cons_self)
      rw [List.nil_append, Text.after?, Text.after?, if_neg hc]
  | cons e s ih =>
    cases a with
    | nil => rfl
    | cons c a =>
      rw [List.cons_append, Text.after?, Text.after?]
      split
      · exact ih fun h => ha (List.mem_cons_of_mem _ h)
      · rfl

theorem divides_arrowSign : Divides '"' arrowSign where
  front before x y := by
    have harrow (s : List Char) : (arrowSign before s).isSome = (Text.after? ['=', '>'] s).isSome := by
      rw [arrowSign]
      cases Text.after? ['=', '>'] s <;> rfl
    rw [harrow, harrow, isSome_after?_divided (by decide)]
  behind y := rfl

/-! The words that a style or a call at run time starts with. -/

theorem isSome_signedWord {signs : List Char} : (signedWord word signs before s).isSome
    = (atWordEdge before s.head? && ((Text.after? word s).bind (afterSigns? signs)).isSome) := by
  rw [signedWord, atEdge]
  cases atWordEdge before s.head? with
  | false => rfl
  | true =>
    cases Text.after? word s with
    | none => rfl
    | some rest =>
      show ((afterSigns? signs rest).bind fun rest => some ((), rest)).isSome = (afterSigns? signs rest).isSome
      cases afterSigns? signs rest <;> rfl

/-- A style is set by an equals sign, or by a colon and a brace. -/
theorem signedWord_of_inlineStyle (h : (inlineStyle before s).isSome = true) :
    (signedWord "style".toList ['='] before s).isSome = true
      ∨ (signedWord "style".toList [':', '\x7b'] before s).isSome = true := by
  rw [isSome_signedWord, isSome_signedWord]
  rw [inlineStyle_eq, atEdge] at h
  split at h
  · rename_i hedge
    obtain ⟨found, hfound⟩ := Option.isSome_iff_exists.mp h
    obtain ⟨rest, hrest, hfound⟩ := Option.bind_eq_some_iff.mp hfound
    obtain ⟨⟨sign, behind⟩, hsign, hopening⟩ := Option.bind_eq_some_iff.mp hfound
    rw [hedge, hrest]
    cases htrim : trimStart rest with
    | nil =>
      rw [htrim] at hsign
      cases hsign
    | cons c tail =>
      rw [htrim, styleSign?] at hsign
      split at hsign
      · rename_i hc
        cases hsign
        rcases hc with rfl | rfl
        · left
          simp [afterSigns?, htrim, Text.after?]
        · right
          have hspan : (behind.span isBlank).2 = trimStart behind := by
            rw [List.span_eq_takeWhile_dropWhile, trimStart]
          rw [hspan] at hopening
          cases hopen : trimStart behind with
          | nil =>
            rw [hopen] at hopening
            cases hopening
          | cons e rest' =>
            rw [hopen, styleOpening?] at hopening
            have he : e = '\x7b' := by simpa using (Option.ite_none_right_eq_some.mp hopening).1
            simp [afterSigns?, htrim, hopen, he, Text.after?]
      · cases hsign
  · cases h

theorem signedWord_of_dynamicCall (h : (dynamicCall before s).isSome = true) :
    (signedWord "import".toList ['('] before s).isSome = true
      ∨ (signedWord "require".toList ['('] before s).isSome = true := by
  have hcall (keyword : List Char) : (atEdge (callOf keyword) before s).isSome
      = (signedWord keyword ['('] before s).isSome := by
    rw [isSome_signedWord, atEdge]
    cases atWordEdge before s.head? with
    | false => rfl
    | true =>
      rw [callOf]
      cases Text.after? keyword s with
      | none => rfl
      | some rest => cases hrest : Text.after? ['('] (trimStart rest) <;> simp [afterSigns?, hrest]
  rw [dynamicCall, isSome_atEdge_orElse, hcall, hcall, Bool.or_eq_true] at h
  exact h

/-! Copy between signs. -/

/-- A text that ends in a sign that divides. -/
def EndsDivided (s : List Char) : Prop := ∃ x d, s = x ++ [d] ∧ isDivider d = true

/-- A text that starts with a sign that divides. -/
def StartsDivided (s : List Char) : Prop := ∃ d x, s = d :: x ∧ isDivider d = true

/-- A construct that all the signs divide, and that needs some text. -/
structure Divided (r : Recogniser α) : Prop where
  divides : ∀ d, isDivider d = true → Divides d r
  nil : occurs r [] = false

theorem Divided.occurs_behind (h : Divided r) (hx : EndsDivided x) (y : List Char) :
    occurs r (x ++ y) = (occurs r x || occurs r y) := by
  obtain ⟨x, d, rfl, hd⟩ := hx
  have hdivides := h.divides d hd
  rw [List.append_assoc, List.singleton_append, hdivides.occurs, hdivides.occurs, h.nil, Bool.or_false]

theorem Divided.occurs_before (h : Divided r) (x : List Char) (hy : StartsDivided y) :
    occurs r (x ++ y) = (occurs r x || occurs r y) := by
  obtain ⟨d, y, rfl, hd⟩ := hy
  have hdivides := h.divides d hd
  have hbehind := hdivides.occurs [] y
  rw [List.nil_append, h.nil, Bool.false_or] at hbehind
  rw [hdivides.occurs, hbehind]

theorem StartsDivided.append (h : StartsDivided x) (y : List Char) : StartsDivided (x ++ y) := by
  obtain ⟨d, x, rfl, hd⟩ := h
  exact ⟨d, x ++ y, rfl, hd⟩

theorem EndsDivided.append (h : EndsDivided y) (x : List Char) : EndsDivided (x ++ y) := by
  obtain ⟨y, d, rfl, hd⟩ := h
  exact ⟨x ++ y, d, (List.append_assoc x y [d]).symm, hd⟩

/-- Around copy there is nothing that a construct could be part of. -/
theorem Divided.occurs_copies {a b c i j : List Char} (h : Divided r) (ha : EndsDivided a)
    (hb : StartsDivided b) (hb' : EndsDivided b) (hc : StartsDivided c)
    (hquiet : occurs r a = false ∧ occurs r b = false ∧ occurs r c = false) :
    occurs r (a ++ (i ++ (b ++ (j ++ c)))) = (occurs r i || occurs r j) := by
  obtain ⟨hqa, hqb, hqc⟩ := hquiet
  rw [h.occurs_behind ha, h.occurs_before i (hb.append _), h.occurs_behind hb', h.occurs_before j hc, hqa, hqb,
    hqc, Bool.false_or, Bool.false_or, Bool.or_false]

theorem divided_atEdge {f : List Char → Option (α × List Char)}
    (h : ∀ d, isDivider d = true → Divides d (atEdge f)) : Divided (atEdge f) :=
  ⟨h, occurs_atEdge_eq_false (List.forall_mem_nil _)⟩

theorem divided_signedWord {signs : List Char} (hne : word ≠ []) (hword : ∀ c ∈ word, isWord c = true)
    (hsigns : ∀ c ∈ signs, isBlank c = false ∧ isDivider c = false) : Divided (signedWord word signs) := by
  refine divided_atEdge fun d hd => ?_
  refine divides_signedWord hne hword (fun c hc => (hsigns c hc).1) (fun hmem => ?_) hd
  rw [(hsigns d hmem).2] at hd
  cases hd

theorem divided_hookCall : Divided hookCall := divided_atEdge fun _ => divides_hookCall

theorem divided_eventHandlerProp : Divided eventHandlerProp := divided_atEdge fun _ => divides_eventHandlerProp

theorem divided_functionWord : Divided functionWord := divided_atEdge fun _ => divides_functionWord

theorem divided_debuggerWord : Divided debuggerWord := divided_atEdge fun _ => divides_debuggerWord

theorem divided_innerHtmlWord : Divided innerHtmlWord := divided_atEdge fun _ => divides_innerHtmlWord

theorem divided_bindingDeclaration : Divided bindingDeclaration :=
  divided_atEdge fun _ => divides_bindingDeclaration

theorem divided_consoleMember : Divided consoleMember := divided_atEdge fun _ => divides_consoleMember

theorem divided_componentDeclaration : Divided componentDeclaration :=
  divided_atEdge fun _ => divides_componentDeclaration

end Wireframe.Lint
