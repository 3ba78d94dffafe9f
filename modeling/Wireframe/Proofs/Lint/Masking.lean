import Mathlib.Data.List.Forall2
import Wireframe.Lint.Mask
import Wireframe.Proofs.Text.Scanning

/-! Masking hides no code. What is masked stands up to where a tag or a quote comes next, blanks apart, so
nothing that ends in another sign is part of it; and a blank in place of another character starts nothing. -/
namespace Wireframe.Lint
open Text

variable {p q s t u x y : List Char} {c d : Char} {last : List Char} {inside ready : Bool}
variable {rule : MaskRule}

/-- A character that a masked run may stand behind. -/
def isOpener (c : Char) : Bool := c = '>' || c = '"'

/-- A character that may come next behind a masked run, blanks apart. -/
def isCloser (c : Char) : Bool := c = '<' || c = '"'

/-- What stands behind a masked character: more such characters, and then a closer. -/
def Closing (s : List Char) : Prop := ∃ c ∈ (trimStart (s.dropWhile isInert)).head?, isCloser c = true

/-- A text and what one rule makes of it; `ready` says whether a masked run may start or go on here. -/
inductive Veils : Bool → List Char → List Char → Prop
  | nil {ready : Bool} : Veils ready [] []
  | keep {ready : Bool} {c : Char} {s t : List Char} (h : Veils (isOpener c) s t) :
      Veils ready (c :: s) (c :: t)
  | veil {c : Char} {s t : List Char} (hc : isInert c = true) (hs : Closing s) (h : Veils true s t) :
      Veils true (c :: s) (' ' :: t)

/-- A rule that masks between an opener and a closer. -/
structure MaskRule.Bounded (rule : MaskRule) : Prop where
  opens : ∀ far near, rule.opens far near = true → isOpener near = true
  closes : ∀ s, rule.closes s = true → ∃ c ∈ (trimStart s).head?, isCloser c = true

theorem bounded_contentRule : contentRule.Bounded where
  opens far near h := by simp_all [contentRule, isOpener]
  closes s h := ⟨'<', by simpa [contentRule] using h, by decide⟩

theorem bounded_attributeRule : attributeRule.Bounded where
  opens far near h := by simp_all [attributeRule, isOpener]
  closes s h := by
    cases s with
    | nil => cases h
    | cons c s =>
      obtain rfl : c = '"' := by simpa [attributeRule] using h
      exact ⟨'"', rfl, by decide⟩

theorem bounded_expressionRule : expressionRule.Bounded where
  opens far near h := by simp_all [expressionRule, isOpener]
  closes s h := by
    cases s with
    | nil => cases h
    | cons c s =>
      obtain rfl : c = '"' := by
        have htake : (c :: s).take 2 = ['"', '\x7d'] := by simpa [expressionRule] using h
        exact (List.cons.inj htake).1
      exact ⟨'"', rfl, by decide⟩

theorem Closing.tail (h : Closing (c :: s)) (hc : isInert c = true) : Closing s := by
  rwa [Closing, List.dropWhile_cons_of_pos hc] at h

/-- Whether a masked run may start at a text, by the characters in front. -/
def MaskRule.startsAt (rule : MaskRule) (last s : List Char) : Bool :=
  match last with
  | [near, far] => rule.opens far near && rule.closes (s.dropWhile isInert)
  | _ => false

theorem MaskRule.applyFrom_cons (rule : MaskRule) (last : List Char) (inside : Bool) (c : Char)
    (s : List Char) :
    rule.applyFrom last inside (c :: s)
      = (if isInert c && (inside || rule.startsAt last (c :: s)) then ' ' else c)
        :: rule.applyFrom (c :: last.take 1) (isInert c && (inside || rule.startsAt last (c :: s))) s := rfl

theorem MaskRule.Bounded.starts (h : rule.Bounded) (hstart : rule.startsAt last (c :: s) = true)
    (hc : isInert c = true) : Closing s ∧ ∃ d ∈ last.head?, isOpener d = true := by
  unfold MaskRule.startsAt at hstart
  split at hstart
  · rename_i near far
    obtain ⟨hopens, hcloses⟩ := Bool.and_eq_true_iff.mp hstart
    rw [List.dropWhile_cons_of_pos hc] at hcloses
    exact ⟨h.closes _ hcloses, near, rfl, h.opens far near hopens⟩
  · cases hstart

theorem veils_applyFrom (h : rule.Bounded) (hinside : inside = true → Closing s ∧ ready = true)
    (hlast : ∀ c ∈ last.head?, isOpener c = true → ready = true) :
    Veils ready s (rule.applyFrom last inside s) := by
  induction s generalizing last inside ready with
  | nil => exact .nil
  | cons c s ih =>
    rw [MaskRule.applyFrom_cons]
    cases hmasked : isInert c && (inside || rule.startsAt last (c :: s)) with
    | true =>
      obtain ⟨hc, hcause⟩ := Bool.and_eq_true_iff.mp hmasked
      have hnext : Closing s ∧ ready = true := by
        rcases Bool.or_eq_true_iff.mp hcause with hi | hstart
        · exact ⟨(hinside hi).1.tail hc, (hinside hi).2⟩
        · obtain ⟨hs, d, hd, hopener⟩ := h.starts hstart hc
          exact ⟨hs, hlast d hd hopener⟩
      obtain ⟨hs, rfl⟩ := hnext
      exact .veil hc hs (ih (fun _ => ⟨hs, rfl⟩) fun _ _ _ => rfl)
    | false =>
      refine .keep (ih (fun hf => by cases hf) fun d hd hopener => ?_)
      cases hd
      exact hopener

theorem veils_apply (h : rule.Bounded) (s : List Char) : Veils true s (rule.apply s) :=
  veils_applyFrom h (fun hf => by cases hf) fun _ hc => by cases hc

/-! What no rule touches. -/

/-- A character that is no sign. -/
def isPlain (c : Char) : Bool := isInert c || c = '\n'

/-- A sign behind which a construct is one, and which no rule looks for. -/
def isTelling (d : Char) : Bool := d = '(' || d = '=' || d = ';'

/-- A text that may be the start of a construct. -/
structure Lead (p : List Char) : Prop where
  head : ∃ c ∈ p.head?, isInert c = true ∧ c ≠ ' '
  plain : ∀ c ∈ p, isPlain c = true

theorem of_isTelling (hd : isTelling d = true) :
    isInert d = false ∧ isBlank d = false ∧ isCloser d = false ∧ isOpener d = false := by
  simp only [isTelling, Bool.or_eq_true, decide_eq_true_eq] at hd
  rcases hd with (rfl | rfl) | rfl <;> decide

theorem not_isOpener_of_isPlain (hc : isPlain c = true) : isOpener c = false := by
  refine Bool.eq_false_iff.mpr fun hopener => ?_
  simp only [isOpener, Bool.or_eq_true, decide_eq_true_eq] at hopener
  rcases hopener with rfl | rfl <;> revert hc <;> decide

theorem not_isCloser_of_isPlain (hc : isPlain c = true) : isCloser c = false := by
  refine Bool.eq_false_iff.mpr fun hcloser => ?_
  simp only [isCloser, Bool.or_eq_true, decide_eq_true_eq] at hcloser
  rcases hcloser with rfl | rfl <;> revert hc <;> decide

theorem exists_dropWhile {f : Char → Bool} (hd : f d = false) (p y : List Char) :
    ∃ q, (p ++ d :: y).dropWhile f = q ++ d :: y ∧ ∀ c ∈ q, c ∈ p := by
  refine ⟨p.dropWhile f, ?_, fun c hc => (List.dropWhile_suffix f).subset hc⟩
  induction p with
  | nil => exact List.dropWhile_cons_of_neg (by simp [hd])
  | cons c p ih =>
    rw [List.cons_append, List.dropWhile_cons, List.dropWhile_cons]
    split
    · exact ih
    · rfl

/-- No masked run goes up to a telling sign. -/
theorem not_closing (hp : ∀ c ∈ p, isPlain c = true) (hd : isTelling d = true) : ¬ Closing (p ++ d :: y) := by
  obtain ⟨hinert, hblank, hcloser, -⟩ := of_isTelling hd
  obtain ⟨q, hq, hmem⟩ := exists_dropWhile hinert p y
  obtain ⟨r, hr, hmem'⟩ := exists_dropWhile hblank q y
  rintro ⟨c, hc, hclose⟩
  rw [hq, trimStart, hr] at hc
  rcases r with _ | ⟨e, r⟩
  · cases hc
    rw [hcloser] at hclose
    cases hclose
  · cases hc
    rw [not_isCloser_of_isPlain (hp c (hmem c (hmem' c List.mem_cons_self)))] at hclose
    cases hclose

theorem Veils.ahead (h : Veils ready (p ++ d :: y) t) (hp : ∀ c ∈ p, isPlain c = true)
    (hd : isTelling d = true) : ∃ y', t = p ++ d :: y' := by
  induction p generalizing ready t with
  | nil =>
    cases h with
    | keep h => exact ⟨_, rfl⟩
    | veil hc _ _ =>
      rw [(of_isTelling hd).1] at hc
      cases hc
  | cons c p ih =>
    have htail := (List.forall_mem_cons.mp hp).2
    cases h with
    | keep h =>
      obtain ⟨y', rfl⟩ := ih h htail
      exact ⟨y', rfl⟩
    | veil _ hs _ => exact (not_closing htail hd hs).elim

theorem Veils.behind (h : Veils ready s (p ++ d :: y)) (hready : ready = false)
    (hp : ∀ c ∈ p, isPlain c = true) (hd : isTelling d = true) : ∃ y', s = p ++ d :: y' := by
  induction p generalizing ready s with
  | nil =>
    cases h with
    | keep h => exact ⟨_, rfl⟩
    | veil _ _ _ => cases hready
  | cons c p ih =>
    obtain ⟨hc, htail⟩ := List.forall_mem_cons.mp hp
    cases h with
    | keep h =>
      obtain ⟨y', rfl⟩ := ih h (not_isOpener_of_isPlain hc) htail
      exact ⟨y', rfl⟩
    | veil _ _ _ => cases hready

theorem Veils.behind_lead (h : Veils ready s (p ++ d :: y)) (hp : Lead p) (hd : isTelling d = true) :
    ∃ y', s = p ++ d :: y' := by
  obtain ⟨⟨c, hc, hinert, hspace⟩, hplain⟩ := hp
  cases p with
  | nil => cases hc
  | cons e p =>
    cases hc
    obtain ⟨he, htail⟩ := List.forall_mem_cons.mp hplain
    cases h with
    | keep h =>
      obtain ⟨y', rfl⟩ := h.behind (not_isOpener_of_isPlain he) htail hd
      exact ⟨y', rfl⟩
    | veil _ _ _ => exact (hspace rfl).elim

/-- What starts as a construct and goes up to a telling sign in one text stands in the other one too, at
the same place and behind the same character. -/
def Carries (s t : List Char) : Prop :=
  ∀ x p d y, s = x ++ (p ++ d :: y) → Lead p → isTelling d = true →
    ∃ x' y', t = x' ++ (p ++ d :: y') ∧ x'.length = x.length ∧ lastRead none x' = lastRead none x

theorem Carries.trans (hst : Carries s t) (htu : Carries t u) : Carries s u := by
  intro x p d y hs hp hd
  obtain ⟨x', y', ht, hlen, hread⟩ := hst x p d y hs hp hd
  obtain ⟨x'', y'', hu, hlen', hread'⟩ := htu x' p d y' ht hp hd
  exact ⟨x'', y'', hu, hlen'.trans hlen, hread'.trans hread⟩

/-- A relation of texts that keeps what starts as a construct carries it to wherever it stands, when only a
character that has no construct right behind it may differ. -/
theorem carries_of_keeps {V : List Char → List Char → Prop}
    (hahead : ∀ s t p d y, V s t → s = p ++ d :: y → Lead p → isTelling d = true → ∃ y', t = p ++ d :: y')
    (hstep : ∀ c s t, V (c :: s) t → ∃ c' t', t = c' :: t' ∧ V s t' ∧
      (c' = c ∨ ∀ p d y, s = p ++ d :: y → Lead p → isTelling d = false))
    (h : V s t) : Carries s t := by
  intro x p d y hs hp hd
  have hfrom {x s t : List Char} {before before' : Option Char} (h : V s t) (hs : s = x ++ (p ++ d :: y))
      (hbefore : x = [] → before' = before) :
      ∃ x' y', t = x' ++ (p ++ d :: y') ∧ x'.length = x.length ∧ lastRead before' x' = lastRead before x := by
    induction x generalizing s t before before' with
    | nil =>
      obtain ⟨y', ht⟩ := hahead s t p d y h hs hp hd
      exact ⟨[], y', ht, rfl, hbefore rfl⟩
    | cons c x ih =>
      subst hs
      obtain ⟨c', t', rfl, h, hc⟩ := hstep c _ t h
      have hsame (hx : x = []) : some c' = some c := by
        rcases hc with rfl | hfree
        · rfl
        · subst hx
          rw [hfree p d y rfl hp] at hd
          cases hd
      obtain ⟨x', y', rfl, hlen, hread⟩ := ih h rfl hsame
      exact ⟨c' :: x', y', rfl, congrArg (· + 1) hlen, hread⟩
  exact hfrom h hs fun _ => rfl

theorem Closing.not_telling (hs : Closing s) (heq : s = p ++ d :: y) (hp : Lead p) : isTelling d = false := by
  subst heq
  exact Bool.eq_false_iff.mpr fun hd => not_closing hp.plain hd hs

theorem Veils.carries (h : Veils ready s t) : Carries s t := by
  refine carries_of_keeps (V := fun s t => ∃ ready, Veils ready s t) ?_ ?_ ⟨ready, h⟩
  · rintro s t p d y ⟨_, h⟩ rfl hp hd
    exact h.ahead hp.plain hd
  · rintro c s t ⟨_, h⟩
    cases h with
    | keep h => exact ⟨c, _, rfl, ⟨_, h⟩, .inl rfl⟩
    | veil _ hclosing h => exact ⟨' ', _, rfl, ⟨_, h⟩, .inr fun p d y => hclosing.not_telling⟩

theorem Veils.carries_back (h : Veils ready s t) : Carries t s := by
  refine carries_of_keeps (V := fun t s => ∃ ready, Veils ready s t) ?_ ?_ ⟨ready, h⟩
  · rintro t s p d y ⟨_, h⟩ rfl hp hd
    exact h.behind_lead hp hd
  · rintro c t s ⟨_, h⟩
    cases h with
    | keep h => exact ⟨c, _, rfl, ⟨_, h⟩, .inl rfl⟩
    | @veil e s _ _ hclosing h =>
      refine ⟨e, s, rfl, ⟨_, h⟩, .inr fun p d y ht hp => Bool.eq_false_iff.mpr fun hd => ?_⟩
      subst ht
      obtain ⟨y', rfl⟩ := h.behind_lead hp hd
      exact not_closing hp.plain hd hclosing

/-- A character and what masking leaves of it. -/
def Dimmed (c d : Char) : Prop := d = c ∨ isInert c = true ∧ d = ' '

theorem Dimmed.trans {e : Char} (hcd : Dimmed c d) (hde : Dimmed d e) : Dimmed c e := by
  rcases hcd with rfl | ⟨hc, rfl⟩
  · exact hde
  · rcases hde with rfl | ⟨-, rfl⟩ <;> exact .inr ⟨hc, rfl⟩

theorem Dimmed.eq_of_sign (h : Dimmed c d) (hsign : isInert c = false ∨ isInert d = false) : d = c := by
  rcases h with rfl | ⟨hc, rfl⟩
  · rfl
  · rcases hsign with hs | hs
    · rw [hs] at hc
      cases hc
    · cases hs

theorem forall₂_dimmed_trans (hst : List.Forall₂ Dimmed s t) (htu : List.Forall₂ Dimmed t u) :
    List.Forall₂ Dimmed s u := by
  induction hst generalizing u with
  | nil =>
    cases htu
    exact .nil
  | cons hcd _ ih =>
    cases htu with
    | cons hde htu => exact .cons (hcd.trans hde) (ih htu)

theorem Veils.dimmed (h : Veils ready s t) : List.Forall₂ Dimmed s t := by
  induction h with
  | nil => exact .nil
  | keep _ ih => exact .cons (.inl rfl) ih
  | veil hc _ _ ih => exact .cons (.inr ⟨hc, rfl⟩) ih

/-- A text and what masking leaves of it. -/
structure Masks (s t : List Char) : Prop where
  dimmed : List.Forall₂ Dimmed s t
  carries : Carries s t
  back : Carries t s

theorem Masks.trans (hst : Masks s t) (htu : Masks t u) : Masks s u where
  dimmed := forall₂_dimmed_trans hst.dimmed htu.dimmed
  carries := hst.carries.trans htu.carries
  back := htu.back.trans hst.back

theorem masks_apply (h : rule.Bounded) (s : List Char) : Masks s (rule.apply s) where
  dimmed := (veils_apply h s).dimmed
  carries := (veils_apply h s).carries
  back := (veils_apply h s).carries_back

theorem masks_mask (s : List Char) : Masks s (mask s) :=
  ((masks_apply bounded_contentRule s).trans (masks_apply bounded_attributeRule _)).trans
    (masks_apply bounded_expressionRule _)

end Wireframe.Lint
