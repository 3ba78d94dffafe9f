import Wireframe.Lint.Check
import Wireframe.Proofs.Lint.Constructs
import Wireframe.Proofs.Lint.Masking

/-! What is found in a text that is masked: each construct that is code, where it stood. -/
namespace Wireframe.Lint
open Text

variable {α : Type} {p q s t x y : List Char} {c d : Char}

theorem isPlain_cases (c : Char) : isPlain c = true ∨ isWord c = false ∧ isBlank c = false := by
  cases hinert : isInert c with
  | true => exact .inl (by rw [isPlain, hinert, Bool.true_or])
  | false =>
    simp only [isInert, Bool.not_eq_false', List.contains_eq_mem, decide_eq_true_eq] at hinert
    exact forall_of_all (q := fun c => isPlain c = true ∨ isWord c = false ∧ isBlank c = false) (by decide) c hinert

theorem isPlain_of_isWord (h : isWord c = true) : isPlain c = true := by
  refine (isPlain_cases c).resolve_right fun hnot => ?_
  rw [h] at hnot
  cases hnot.1

theorem isInert_of_isWord (h : isWord c = true) : isInert c = true ∧ c ≠ ' ' := by
  rcases Bool.or_eq_true_iff.mp (isPlain_of_isWord h) with hinert | hline
  · refine ⟨hinert, ?_⟩
    rintro rfl
    revert h
    decide
  · obtain rfl := of_decide_eq_true hline
    revert h
    decide

theorem isPlain_of_isBlank (h : isBlank c = true) : isPlain c = true := by
  refine (isPlain_cases c).resolve_right fun hnot => ?_
  rw [h] at hnot
  cases hnot.2

theorem isPlain_of_isBindingChar (h : isBindingChar c = true) : isPlain c = true := by
  rcases Bool.or_eq_true_iff.mp h with hword | hdollar
  · exact isPlain_of_isWord hword
  · obtain rfl := of_decide_eq_true hdollar
    decide

theorem lead_of_word (hne : p ≠ []) (hword : ∀ c ∈ p, isWord c = true) : Lead p where
  head := by
    obtain ⟨c, p, rfl⟩ := List.exists_cons_of_ne_nil hne
    exact ⟨c, rfl, isInert_of_isWord (hword c List.mem_cons_self)⟩
  plain := fun c hc => isPlain_of_isWord (hword c hc)

theorem Lead.append (hp : Lead p) (hq : ∀ c ∈ q, isPlain c = true) : Lead (p ++ q) where
  head := by
    obtain ⟨c, hc, hhead⟩ := hp.head
    refine ⟨c, ?_, hhead⟩
    rw [List.head?_append, show p.head? = some c from hc]
    rfl
  plain := List.forall_mem_append.mpr ⟨hp.plain, hq⟩

/-- A name with a capital, up to the sign behind it. -/
theorem Capitalised.lead {start name : List Char} (h : Capitalised start name) (hstart : Lead start) :
    Lead name := by
  obtain ⟨c, tail, rfl, hc, htail⟩ := h
  refine hstart.append (List.forall_mem_cons.mpr ⟨isPlain_of_isWord (isWord_of_isCapital hc), ?_⟩)
  exact fun d hd => isPlain_of_isWord (htail d hd)

theorem findsMatch_signedName {start : List Char} (hstart : Lead start)
    (hword : ∃ c ∈ start.head?, isWord c = true) (hd : isTelling d = true) (hdword : isWord d = false)
    (h : Carries s t) : FindsMatch (signedName start d) s t := by
  have hreads := reads_signedName hword (of_isTelling hd).2.1 hdword
  rintro i own name rest ⟨front, hlen, hs, hfound⟩
  obtain ⟨hedge, own', ⟨hname, gap, hgap, rfl⟩, heq, -⟩ := (hreads _ _ _ _).mp hfound
  obtain rfl := List.append_cancel_right heq
  have hlead : Lead (name ++ gap) := (hname.lead hstart).append fun c hc => isPlain_of_isBlank (hgap c hc)
  obtain ⟨front', rest', ht, hlen', hread⟩ := h front (name ++ gap) d rest (by simpa using hs) hlead hd
  refine ⟨rest', front', hlen'.trans hlen, by simpa using ht, (hreads _ _ _ _).mpr ⟨?_, ?_⟩⟩
  · rw [hread]
    exact hedge
  · exact ⟨_, ⟨hname, gap, hgap, rfl⟩, rfl, fun c _ => rfl⟩

/-- A construct that a telling sign follows is found again. -/
theorem Reads.carried {r : Recogniser α} {Shape : α → List Char → Prop} {stop : Char → Bool}
    (hr : Reads r Shape stop) (hshape : ∀ v own, Shape v own → Lead own) (h : Carries s t) {i : Nat}
    {own : List Char} {v : α} (hq : ∀ c ∈ q, isPlain c = true) (hd : isTelling d = true)
    (hf : FoundAt r s i own v (q ++ d :: y)) : ∃ rest, FoundAt r t i own v rest := by
  obtain ⟨front, hlen, hs, hfound⟩ := hf
  obtain ⟨hedge, own', hown, heq, hstop⟩ := (hr _ _ _ _).mp hfound
  obtain rfl := List.append_cancel_right heq
  obtain ⟨front', y', ht, hlen', hread⟩ :=
    h front (own ++ q) d y (by simpa using hs) ((hshape v own hown).append hq) hd
  refine ⟨q ++ d :: y', front', hlen'.trans hlen, by simpa using ht, (hr _ _ _ _).mpr ⟨?_, own, hown, rfl, ?_⟩⟩
  · rw [hread]
    exact hedge
  · cases q with
    | nil => exact hstop
    | cons c q => exact hstop

theorem lead_of_memberText {name own : List Char} (h : MemberText name own) : Lead own := by
  obtain ⟨⟨-, hname⟩, gap, gap', hgap, hgap', rfl⟩ := h
  have hfront : Lead "console".toList := lead_of_word (by decide) (forall_of_all (by decide))
  refine hfront.append (List.forall_mem_append.mpr ⟨fun c hc => isPlain_of_isBlank (hgap c hc), ?_⟩)
  refine List.forall_mem_cons.mpr ⟨by decide, List.forall_mem_append.mpr ⟨?_, ?_⟩⟩
  · exact fun c hc => isPlain_of_isBlank (hgap' c hc)
  · exact fun c hc => isPlain_of_isWord (hname c hc)

theorem lead_of_bindingText {found : List Char × List Char} {own : List Char} (h : BindingText found own) :
    Lead own := by
  obtain ⟨hword, -, hname, gap, hgap, rfl⟩ := h
  obtain ⟨hne, hall⟩ := of_mem_keywords hword
  refine (lead_of_word hne hall).append (List.forall_mem_append.mpr ⟨?_, ?_⟩)
  · exact fun c hc => isPlain_of_isBlank (hgap.2 c hc)
  · exact fun c hc => isPlain_of_isBindingChar (hname c hc)

/-- Whether one of some signs comes next, blanks apart. -/
def comesNext (signs rest : List Char) : Bool := (trimStart rest).head?.any signs.contains

/-- Whether an opening parenthesis comes next, perhaps behind a name. -/
def opensCall (rest : List Char) : Bool := comesNext ['('] ((trimStart rest).dropWhile isBindingChar)

theorem of_comesNext {signs rest : List Char} (h : comesNext signs rest = true) :
    ∃ gap d y, rest = gap ++ d :: y ∧ (∀ c ∈ gap, isBlank c = true) ∧ d ∈ signs := by
  obtain ⟨gap, hrest, hgap⟩ := exists_trimStart rest
  unfold comesNext at h
  cases hy : trimStart rest with
  | nil =>
    rw [hy] at h
    cases h
  | cons d y =>
    rw [hy] at h hrest
    exact ⟨gap, d, y, hrest, hgap, List.contains_iff_mem.mp h⟩

theorem occurs_arrowSign_iff : occurs arrowSign s = true ↔ ∃ x y, s = x ++ '=' :: '>' :: y := by
  rw [occurs_iff]
  constructor
  · rintro ⟨x, y, rfl, h⟩
    obtain ⟨found, hfound⟩ := Option.isSome_iff_exists.mp h
    obtain ⟨rest, hrest, -⟩ := Option.bind_eq_some_iff.mp hfound
    obtain rfl := after?_eq_some_iff.mp hrest
    exact ⟨x, rest, rfl⟩
  · rintro ⟨x, y, rfl⟩
    exact ⟨x, '=' :: '>' :: y, rfl, rfl⟩

section Signs

variable {R : Char → Char → Prop} (hR : ∀ c d, R c d → isInert c = false → d = c)
include hR

theorem signs_front (h : List.Forall₂ R (p ++ y) t) (hp : ∀ c ∈ p, isInert c = false) :
    ∃ y', t = p ++ y' := by
  induction p generalizing t with
  | nil => exact ⟨t, rfl⟩
  | cons c p ih =>
    obtain ⟨hc, hsigns⟩ := List.forall_mem_cons.mp hp
    obtain ⟨d, t, hcd, htail, rfl⟩ := List.forall₂_cons_left_iff.mp h
    obtain rfl := hR c d hcd hc
    obtain ⟨y', rfl⟩ := ih htail hsigns
    exact ⟨y', rfl⟩

/-- Signs in a row stand in both texts. -/
theorem exists_signs (h : List.Forall₂ R (x ++ (p ++ y)) t) (hp : ∀ c ∈ p, isInert c = false) :
    ∃ x' y', t = x' ++ (p ++ y') := by
  induction x generalizing t with
  | nil => exact ⟨[], signs_front hR h hp⟩
  | cons c x ih =>
    obtain ⟨d, t, -, htail, rfl⟩ := List.forall₂_cons_left_iff.mp h
    obtain ⟨x', y', rfl⟩ := ih htail
    exact ⟨d :: x', y', rfl⟩

end Signs

theorem Masks.occurs_arrowSign (h : Masks s t) : occurs arrowSign t = occurs arrowSign s := by
  have hsigns : ∀ c ∈ ['=', '>'], isInert c = false := forall_of_all (by decide)
  have hahead (c d : Char) (hcd : Dimmed c d) (hc : isInert c = false) : d = c := hcd.eq_of_sign (.inl hc)
  have hback (d c : Char) (hcd : Dimmed c d) (hd : isInert d = false) : c = d :=
    (hcd.eq_of_sign (.inr hd)).symm
  refine Bool.eq_iff_iff.mpr (occurs_arrowSign_iff.trans (Iff.trans ?_ occurs_arrowSign_iff.symm))
  constructor
  · rintro ⟨x, y, rfl⟩
    exact exists_signs (p := ['=', '>']) hback h.dimmed.flip hsigns
  · rintro ⟨x, y, rfl⟩
    exact exists_signs (p := ['=', '>']) hahead h.dimmed hsigns

theorem Masks.findAll_signedName (h : Masks s t) {start : List Char} (hstart : Lead start)
    (hword : ∃ c ∈ start.head?, isWord c = true) (hd : isTelling d = true) (hdword : isWord d = false) :
    findAll (signedName start d) t = findAll (signedName start d) s :=
  findAll_eq_of_findsMatch h.dimmed.length_eq.symm
    (fun _ _ _ _ => (reads_signedName hword (of_isTelling hd).2.1 hdword).suffix)
    (findsMatch_signedName hstart hword hd hdword h.back)
    (findsMatch_signedName hstart hword hd hdword h.carries)

/-- What is found in one text, where its rest passes a test, is found at the same place in another one. -/
def StillFound (r : Recogniser α) (test : List Char → Bool) (s t : List Char) : Prop :=
  ∀ i own v rest, FoundAt r s i own v rest → test rest = true → ∃ rest', FoundAt r t i own v rest'

theorem Masks.stillFound (h : Masks s t) {r : Recogniser α} {Shape : α → List Char → Prop}
    {stop : Char → Bool} (hr : Reads r Shape stop) (hshape : ∀ v own, Shape v own → Lead own)
    {signs : List Char} (hsigns : ∀ d ∈ signs, isTelling d = true) : StillFound r (comesNext signs) s t := by
  intro i own v rest hf hrest
  obtain ⟨gap, d, y, rfl, hgap, hd⟩ := of_comesNext hrest
  exact hr.carried hshape h.carries (fun c hc => isPlain_of_isBlank (hgap c hc)) (hsigns d hd) hf

theorem Masks.stillFound_functionWord (h : Masks s t) : StillFound functionWord opensCall s t := by
  intro i own v rest hf hrest
  obtain ⟨gap, hgap', hgap⟩ := exists_trimStart rest
  obtain ⟨gap', d, y, hy, hgap2, hd⟩ := of_comesNext hrest
  obtain rfl := List.mem_singleton.mp hd
  have hname := (List.takeWhile_append_dropWhile (p := isBindingChar) (l := trimStart rest)).symm
  rw [hname, hy] at hgap'
  have hlead : Lead "function".toList := lead_of_word (by decide) (forall_of_all (by decide))
  refine reads_functionWord.carried (q := gap ++ ((trimStart rest).takeWhile isBindingChar ++ gap'))
    (d := '(') (y := y) (fun _ own hown => hown ▸ hlead) h.carries ?_ (by decide) ?_
  · intro c hc
    rcases List.mem_append.mp hc with hc | hc
    · exact isPlain_of_isBlank (hgap c hc)
    · rcases List.mem_append.mp hc with hc | hc
      · exact isPlain_of_isBindingChar (List.mem_takeWhile_imp hc)
      · exact isPlain_of_isBlank (hgap2 c hc)
  · rw [hgap'] at hf
    simpa using hf

/-- Masking overwrites inert characters alone, and hides no construct that is code: the names of hooks and of
event handlers are found as before and so is an arrow, and a function, a member of the console or a
declaration is found as before where what makes it code comes next. -/
theorem mask_keeps_code (s : List Char) :
    (mask s).length = s.length ∧ List.Forall₂ Dimmed s (mask s) ∧
      findAll hookCall (mask s) = findAll hookCall s ∧
      findAll eventHandlerProp (mask s) = findAll eventHandlerProp s ∧
      occurs arrowSign (mask s) = occurs arrowSign s ∧
      StillFound functionWord opensCall s (mask s) ∧
      StillFound consoleMember (comesNext ['(']) s (mask s) ∧
      StillFound bindingDeclaration (comesNext ['=', ';']) s (mask s) := by
  have h := masks_mask s
  refine ⟨h.dimmed.length_eq.symm, h.dimmed, ?_, ?_, h.occurs_arrowSign, h.stillFound_functionWord, ?_, ?_⟩
  · have huse : Lead "use".toList := lead_of_word (by decide) (forall_of_all (by decide))
    rw [hookCall_eq]
    exact h.findAll_signedName huse ⟨'u', rfl, by decide⟩ (d := '(') (by decide) (by decide)
  · have hon : Lead "on".toList := lead_of_word (by decide) (forall_of_all (by decide))
    rw [eventHandlerProp_eq]
    exact h.findAll_signedName hon ⟨'o', rfl, by decide⟩ (d := '=') (by decide) (by decide)
  · exact h.stillFound reads_consoleMember (fun _ _ => lead_of_memberText) (forall_of_all (by decide))
  · exact h.stillFound reads_bindingDeclaration (fun _ _ => lead_of_bindingText) (forall_of_all (by decide))

/-- A body with literals to mask and with code between them. -/
def mixedBody : List Char :=
  "<p title=\"let go\">All set</p>\x7bconst go = function (e) \x7b console.log(e) \x7d\x7d".toList

/-- All that is code in it is found in the masked body. -/
theorem mixedBody_keeps_code : mask mixedBody ≠ mixedBody ∧
    (∃ rest, FoundAt functionWord (mask mixedBody) 41 "function".toList () rest) ∧
    (∃ rest, FoundAt consoleMember (mask mixedBody) 56 "console.log".toList "log".toList rest) ∧
    ∃ rest, FoundAt bindingDeclaration (mask mixedBody) 30 "const go".toList
      ("const".toList, "go".toList) rest := by
  obtain ⟨-, -, -, -, -, hfunction, hconsole, hbinding⟩ := mask_keeps_code mixedBody
  refine ⟨by decide +kernel, ?_, ?_, ?_⟩
  · exact hfunction 41 _ () (mixedBody.drop 49)
      ⟨mixedBody.take 41, by decide +kernel, by decide +kernel, by decide +kernel⟩ (by decide +kernel)
  · exact hconsole 56 _ _ (mixedBody.drop 67)
      ⟨mixedBody.take 56, by decide +kernel, by decide +kernel, by decide +kernel⟩ (by decide +kernel)
  · exact hbinding 30 _ _ (mixedBody.drop 38)
      ⟨mixedBody.take 30, by decide +kernel, by decide +kernel, by decide +kernel⟩ (by decide +kernel)

end Wireframe.Lint
