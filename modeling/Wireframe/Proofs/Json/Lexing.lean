import Mathlib.Data.List.Chain
import Wireframe.Proofs.Json.Commas

/-! What stands in a text of the grammar and what stands between its quotes: no fence is part of it, and a
comma in front of a closing bracket stands between quotes. -/
namespace Wireframe.Json

variable {s t a raw rest current : List Char} {c close : Char} {v : Value} {p : Part} {room : Room}

/-- The texts between quotes as they are written; `current` is the start of the one that is open, the last
character first. -/
def quotedFrom : ScanMode → List Char → List Char → List (List Char)
  | _, _, [] => []
  | .plain, _, c :: s => quotedFrom (if c = '"' then .text else .plain) [] s
  | .text, current, c :: s =>
    if c = '"' then current.reverse :: quotedFrom .plain [] s
    else quotedFrom (if c = '\\' then .escaped else .text) (c :: current) s
  | .escaped, current, c :: s => quotedFrom .text (c :: current) s

/-- The texts between the quotes of a text. -/
def quotedTexts (s : List Char) : List (List Char) := quotedFrom .plain [] s

/-- A text with a comma that only blanks keep apart from a closing bracket behind it. -/
def HasStray (s : List Char) : Prop :=
  ∃ front rest close, IsClosing close ∧ s = front ++ ',' :: rest ∧ Closes close rest

theorem not_hasStray_of_not_mem (h : ',' ∉ s) : ¬ HasStray s := by
  rintro ⟨front, rest, -, -, rfl, -⟩
  exact h (by simp)

theorem uncomma_of_not_hasStray (hclose : IsClosing close) (h : ¬ HasStray s) : uncomma close s = s := by
  induction s with
  | nil => rfl
  | cons c s ih =>
    have htail : ¬ HasStray s := by
      rintro ⟨front, rest, close, hclose, rfl, hrest⟩
      exact h ⟨c :: front, rest, close, hclose, rfl, hrest⟩
    by_cases hc : c = ','
    · subst hc
      rw [uncomma_kept hclose.not_isBlank fun hs => h ⟨[], s, close, hclose, rfl, hs⟩, ih htail]
    · rw [uncomma_cons hc, ih htail]

/-- A text of characters outside of quotes, none of which is a backtick, and of texts between quotes. Commas
outside of quotes stand in front of no closing bracket. -/
inductive Lexed : List Char → Prop
  | nil : Lexed []
  | char {c : Char} {s : List Char} : c ≠ '"' → c ≠ '\x60' →
      (c = ',' → ∀ close, IsClosing close → ¬ Closes close s) → Lexed s → Lexed (c :: s)
  | quoted {raw s : List Char} : Quoted raw → Lexed s → Lexed ('"' :: (raw ++ '"' :: s))

theorem Lexed.append (ha : ∀ c ∈ a, c ≠ '"' ∧ c ≠ '\x60' ∧ c ≠ ',') (h : Lexed s) : Lexed (a ++ s) := by
  induction a with
  | nil => exact h
  | cons c a ih =>
    rw [List.forall_mem_cons] at ha
    obtain ⟨⟨hquote, htick, hcomma⟩, ha⟩ := ha
    exact .char hquote htick (fun hc => (hcomma hc).elim) (ih ha)

theorem Lexed.gap (hb : Gap a) (h : Lexed s) : Lexed (a ++ s) :=
  h.append fun c hc => ⟨hb.ne (by decide) c hc, hb.ne (by decide) c hc, hb.ne (by decide) c hc⟩

theorem Lexed.sign (hc : c ≠ '"' ∧ c ≠ '\x60' ∧ c ≠ ',') (h : Lexed s) : Lexed (c :: s) :=
  h.append (a := [c]) (List.forall_mem_singleton.mpr hc)

theorem Lexed.comma (hb : Gap a) (h : Lexed s) (hs : Spells room p s v rest) : Lexed (',' :: (a ++ s)) :=
  .char (by decide) (by decide) (fun _ _ hclose => hs.not_closes hb hclose) (h.gap hb)

theorem Spells.lexed (h : Spells room p s v rest) (hr : Lexed rest) : Lexed s := by
  induction h with
  | @word room w rest v hw =>
    refine hr.append fun c hc => ?_
    have hplain := hw.plain c hc
    refine ⟨?_, ?_, ?_⟩ <;>
      · rintro rfl
        cases hplain
  | text hraw => exact .quoted hraw.quoted hr
  | emptyList _ hb => exact ((hr.sign (by decide)).gap hb).sign (by decide)
  | emptyDict _ hb => exact ((hr.sign (by decide)).gap hb).sign (by decide)
  | list _ hb _ ih => exact ((ih hr).gap hb).sign (by decide)
  | dict _ hb _ ih => exact ((ih hr).gap hb).sign (by decide)
  | lastItem hb _ ih => exact ih ((hr.sign (by decide)).gap hb)
  | item hb hc _ hxs ih ihs => exact ih (((ihs hr).comma hc hxs).gap hb)
  | lastEntry hraw hb hc hd _ ih =>
    have hvalue := ih ((hr.sign (by decide)).gap hd)
    exact .quoted hraw.quoted (((hvalue.gap hc).sign (by decide)).gap hb)
  | entry hraw hb hc hd he _ hes ih ihs =>
    have hvalue := ih (((ihs hr).comma he hes).gap hd)
    exact .quoted hraw.quoted (((hvalue.gap hc).sign (by decide)).gap hb)

/-! The texts between quotes. -/

theorem quotedFrom_quoted (h : Quoted raw) (current s : List Char) :
    quotedFrom .text current (raw ++ '"' :: s) = (current.reverse ++ raw) :: quotedTexts s := by
  induction h generalizing current with
  | nil => simp [quotedFrom, quotedTexts]
  | @plain c raw hquote hslash _ _ ih =>
    rw [List.cons_append, quotedFrom, if_neg hquote, if_neg hslash, ih, List.reverse_cons, List.append_assoc]
    rfl
  | @short c e raw _ _ ih =>
    rw [List.cons_append, List.cons_append, quotedFrom, if_neg (by decide), if_pos rfl, quotedFrom, ih]
    simp
  | @unit a b c d n raw hunit _ ih =>
    obtain ⟨ha, hb, hc, hd⟩ := ne_of_unit (x := '"') hunit (by decide)
    obtain ⟨ha', hb', hc', hd'⟩ := ne_of_unit (x := '\\') hunit (by decide)
    simp only [List.cons_append]
    rw [quotedFrom, if_neg (by decide), if_pos rfl, quotedFrom]
    simp only [quotedFrom, ha, hb, hc, hd, ha', hb', hc', hd', if_false, ih]
    simp

theorem quotedTexts_cons (hc : c ≠ '"') (s : List Char) : quotedTexts (c :: s) = quotedTexts s := by
  rw [quotedTexts, quotedFrom, if_neg hc, quotedTexts]

theorem quotedTexts_quoted (h : Quoted raw) (s : List Char) :
    quotedTexts ('"' :: (raw ++ '"' :: s)) = raw :: quotedTexts s := by
  rw [quotedTexts, quotedFrom, if_pos rfl, quotedFrom_quoted h]
  rfl

/-- Commas in front of closing brackets stand between quotes only. -/
theorem Lexed.uncomma_eq (h : Lexed s) (hclose : IsClosing close)
    (hquoted : ∀ q ∈ quotedTexts s, ¬ HasStray q) : uncomma close s = s := by
  induction h with
  | nil => rfl
  | @char c s hquote _ hcomma _ ih =>
    rw [quotedTexts_cons hquote] at hquoted
    by_cases hc : c = ','
    · subst hc
      rw [uncomma_kept hclose.not_isBlank (hcomma rfl close hclose), ih hquoted]
    · rw [uncomma_cons hc, ih hquoted]
  | @quoted raw s hraw _ ih =>
    rw [quotedTexts_quoted hraw, List.forall_mem_cons] at hquoted
    have hquote : '"' ≠ close := by rcases hclose with rfl | rfl <;> decide
    rw [uncomma_cons (by decide), uncomma_split (by decide) hquote (by decide) hclose.not_isBlank,
      uncomma_of_not_hasStray hclose hquoted.1, ih hquoted.2]

/-! Fences. -/

/-- A newline and a backtick are no neighbours. -/
def Apart (c d : Char) : Prop := ¬ (c = '\n' ∧ d = '\x60') ∧ ¬ (c = '\x60' ∧ d = '\n')

theorem isChain_of_ne (h : ∀ c ∈ s, c ≠ '\n') : s.IsChain Apart := by
  induction s with
  | nil => exact .nil
  | cons c s ih =>
    rw [List.forall_mem_cons] at h
    exact (ih h.2).cons fun d hd => ⟨fun hcd => h.1 hcd.1, fun hcd => h.2 d (List.mem_of_mem_head? hd) hcd.2⟩

theorem Lexed.head?_ne (h : Lexed s) : ∀ c ∈ s.head?, c ≠ '\x60' := by
  intro c hc
  cases h with
  | nil => cases hc
  | char _ htick _ _ =>
    cases hc
    exact htick
  | quoted _ _ =>
    cases hc
    decide

/-- The grammar keeps newlines out of quotes, and backticks within them. -/
theorem Lexed.isChain (h : Lexed s) : s.IsChain Apart := by
  induction h with
  | nil => exact .nil
  | @char c s _ htick _ hs ih =>
    exact ih.cons fun d hd => ⟨fun hcd => hs.head?_ne d hd hcd.2, fun hcd => htick hcd.1⟩
  | @quoted raw s hraw hs ih =>
    have hfront : ∀ c ∈ '"' :: raw, c ≠ '\n' := List.forall_mem_cons.mpr ⟨by decide, hraw.ne_newline⟩
    have hback : ('"' :: s).IsChain Apart :=
      ih.cons fun d _ => ⟨fun hcd => absurd hcd.1 (by decide), fun hcd => absurd hcd.1 (by decide)⟩
    rw [← List.cons_append, List.isChain_append]
    refine ⟨isChain_of_ne hfront, hback, fun c hc d hd => ?_⟩
    obtain rfl : '"' = d := Option.some.inj hd
    exact ⟨fun hcd => absurd hcd.2 (by decide), fun hcd => absurd hcd.2 (by decide)⟩

end Wireframe.Json
