import Wireframe.Proofs.Lint.Masking
import Wireframe.Proofs.Text.Pieces

/-! What masking makes of copy between fixed texts: blanks, where a rule asks for it and no escape stands in
the way, and else what it was. -/
namespace Wireframe.Lint
open Text

variable {rule : MaskRule} {last a b c i j s y : List Char} {d far near far' near' : Char} {inside m : Bool}

/-- A character of copy as it is written: an inert one, or the start of an escape. -/
def isCopy (c : Char) : Bool := isInert c || c = '\\'

/-- Copy that is masked, unless there is an escape in it. -/
def veil (masked : Bool) (s : List Char) : List Char :=
  if masked = true ∧ '\\' ∉ s then List.replicate s.length ' ' else s

/-- The two characters before what follows a text, the nearer first. -/
def lastTwo (last : List Char) : List Char → List Char
  | [] => last
  | c :: s => lastTwo (c :: last.take 1) s

theorem lastTwo_append (last s t : List Char) : lastTwo last (s ++ t) = lastTwo (lastTwo last s) t := by
  induction s generalizing last with
  | nil => rfl
  | cons c s ih => exact ih _

theorem lastTwo_pair (last s : List Char) (far near : Char) : lastTwo last (s ++ [far, near]) = [near, far] := by
  rw [lastTwo_append]
  rfl

/-- Whether no masked run starts inside a text, as a sign stands behind every opener. -/
def isCalm : List Char → Bool
  | c :: d :: s => !(isOpener c && isInert d) && isCalm (d :: s)
  | _ => true

theorem isCalm_of_closed (hs : ∀ c ∈ s, isOpener c = false) : isCalm s = true := by
  induction s with
  | nil => rfl
  | cons c s ih =>
    obtain ⟨hc, hs⟩ := List.forall_mem_cons.mp hs
    cases s with
    | nil => rfl
    | cons e s => rw [isCalm, hc, Bool.false_and, Bool.not_false, Bool.true_and, ih hs]

/-- What starts with a sign may stand behind an opener. -/
theorem isCalm_append (ha : isCalm a = true) (hb : isCalm b = true) (hsign : ∀ d ∈ b.head?, isInert d = false) :
    isCalm (a ++ b) = true := by
  induction a with
  | nil => exact hb
  | cons c a ih =>
    cases a with
    | nil =>
      cases b with
      | nil => rfl
      | cons e b =>
        rw [List.singleton_append, isCalm, hsign e rfl, Bool.and_false, Bool.not_false, Bool.true_and, hb]
    | cons e a =>
      rw [isCalm, Bool.and_eq_true] at ha
      rw [List.cons_append, List.cons_append, isCalm, Bool.and_eq_true]
      exact ⟨ha.1, ih ha.2⟩

theorem veil_false (s : List Char) : veil false s = s := by simp [veil]

theorem isCopy_of_mem_veil {e : Char} (hs : ∀ c ∈ s, isCopy c = true) (he : e ∈ veil m s) : isCopy e = true := by
  rw [veil] at he
  split at he
  · rw [List.eq_of_mem_replicate he]
    decide
  · exact hs e he

/-- To mask copy again changes nothing more. -/
theorem veil_veil (m m' : Bool) (s : List Char) : veil m' (veil m s) = veil (m || m') s := by
  by_cases hs : '\\' ∈ s
  · simp [veil, hs]
  · cases m <;> cases m' <;> simp [veil, hs, List.mem_replicate]

theorem not_isOpener_of_isCopy {c : Char} (hc : isCopy c = true) : isOpener c = false := by
  rcases Bool.or_eq_true_iff.mp hc with hinert | hback
  · exact not_isOpener_of_isPlain (by rw [isPlain, hinert, Bool.true_or])
  · obtain rfl := of_decide_eq_true hback
    decide

theorem MaskRule.Bounded.startsAt_eq_false (h : rule.Bounded) (hlast : ∀ c ∈ last.head?, isOpener c = false)
    (s : List Char) : rule.startsAt last s = false := by
  unfold MaskRule.startsAt
  split
  · rename_i near far
    refine Bool.and_eq_false_imp.mpr fun hopens => ?_
    have hnear := h.opens far near hopens
    rw [hlast near rfl] at hnear
    cases hnear
  · rfl

theorem applyFrom_sign (hd : isInert d = false) : rule.applyFrom last inside (d :: s)
    = d :: rule.applyFrom (d :: last.take 1) false s := by
  rw [MaskRule.applyFrom_cons, hd, Bool.false_and]
  rfl

/-- A calm text stays as it is. -/
theorem applyFrom_calm (h : rule.Bounded) (hs : isCalm s = true)
    (hlast : ∀ c ∈ last.head?, isOpener c = true → ∀ d ∈ s.head?, isInert d = false) :
    rule.applyFrom last false (s ++ y) = s ++ rule.applyFrom (lastTwo last s) false y := by
  induction s generalizing last with
  | nil => rfl
  | cons c s ih =>
    have htail : isCalm s = true ∧ ∀ d ∈ s.head?, isOpener c = true → isInert d = false := by
      cases s with
      | nil => exact ⟨rfl, fun d hd => by cases hd⟩
      | cons e s =>
        rw [isCalm, Bool.and_eq_true, Bool.not_eq_true', Bool.and_eq_false_imp] at hs
        exact ⟨hs.2, by rintro d ⟨⟩; exact hs.1⟩
    have hmasked : (isInert c && (false || rule.startsAt last (c :: (s ++ y)))) = false := by
      refine Bool.and_eq_false_imp.mpr fun hinert => ?_
      refine h.startsAt_eq_false (fun e he => Bool.eq_false_iff.mpr fun hopener => ?_) _
      have hsign := hlast e he hopener c rfl
      rw [hinert] at hsign
      cases hsign
    rw [List.cons_append, MaskRule.applyFrom_cons, hmasked]
    refine congrArg (c :: ·) (ih htail.1 ?_)
    intro e he hopener d hd
    cases he
    exact htail.2 d hd hopener

/-- A calm text up to its end. -/
theorem applyFrom_calm_end (h : rule.Bounded) (hs : isCalm s = true)
    (hlast : ∀ c ∈ last.head?, isOpener c = true → ∀ d ∈ s.head?, isInert d = false) :
    rule.applyFrom last false s = s := by
  have hfrom := applyFrom_calm (y := []) h hs hlast
  rwa [List.append_nil, MaskRule.applyFrom, List.append_nil] at hfrom

/-- Nothing is masked in a calm text. -/
theorem mask_of_calm (hs : isCalm s = true) : mask s = s := by
  have hstays {rule : MaskRule} (h : rule.Bounded) : rule.apply s = s := applyFrom_calm_end h hs nofun
  rw [mask, hstays bounded_contentRule, hstays bounded_attributeRule, hstays bounded_expressionRule]

/-- A masked run goes on to the next sign. -/
theorem applyFrom_inside (hs : ∀ c ∈ s, isInert c = true) (hd : isInert d = false) :
    rule.applyFrom last true (s ++ d :: y)
      = List.replicate s.length ' ' ++ rule.applyFrom (lastTwo last s) false (d :: y) := by
  induction s generalizing last with
  | nil => rw [List.nil_append, applyFrom_sign hd, lastTwo, applyFrom_sign hd]; rfl
  | cons c s ih =>
    obtain ⟨hc, hs⟩ := List.forall_mem_cons.mp hs
    rw [List.cons_append, MaskRule.applyFrom_cons, hc, Bool.true_or, Bool.true_and, ih hs]
    rfl

/-- Copy in which no masked run starts stays as it is. -/
theorem applyFrom_still (h : rule.Bounded) (hs : ∀ c ∈ s, isCopy c = true)
    (hstart : rule.startsAt last (s ++ y) = false) :
    rule.applyFrom last false (s ++ y) = s ++ rule.applyFrom (lastTwo last s) false y := by
  have hcalm (s : List Char) (hs : ∀ c ∈ s, isCopy c = true) : isCalm s = true :=
    isCalm_of_closed fun c hc => not_isOpener_of_isCopy (hs c hc)
  cases s with
  | nil => rfl
  | cons c s =>
    obtain ⟨hc, hs⟩ := List.forall_mem_cons.mp hs
    rw [List.cons_append] at hstart ⊢
    rw [MaskRule.applyFrom_cons, hstart, Bool.false_or, Bool.and_false]
    refine congrArg (c :: ·) (applyFrom_calm h (hcalm s hs) ?_)
    intro e he hopener
    cases he
    rw [not_isOpener_of_isCopy hc] at hopener
    cases hopener

theorem mem_of_copy (hs : ∀ c ∈ s, isCopy c = true) :
    (∃ front rear, s = front ++ '\\' :: rear ∧ ∀ c ∈ front, isInert c = true)
      ∨ '\\' ∉ s ∧ ∀ c ∈ s, isInert c = true := by
  rcases free_or_cut (fun c => !isInert c) s with hfree | ⟨front, c, rear, rfl, hfront, hc⟩
  · have hinert : ∀ c ∈ s, isInert c = true := by simpa using hfree
    refine .inr ⟨fun hmem => ?_, hinert⟩
    exact absurd (hinert _ hmem) (by decide)
  · have hback : c = '\\' := by
      have hcopy := hs c (by simp)
      rw [isCopy, show isInert c = false by simpa using hc, Bool.false_or] at hcopy
      exact of_decide_eq_true hcopy
    exact .inl ⟨front, rear, by rw [hback], by simpa using hfront⟩

/-- A text that a sign opens. -/
def Signed (s : List Char) : Prop := ∃ d ∈ s.head?, isInert d = false

/-- Copy up to the next sign: masked where the rule opens before it and closes at the sign. -/
theorem applyFrom_copy (h : rule.Bounded) (hstop : ∀ y, rule.closes ('\\' :: y) = false)
    (hs : ∀ c ∈ s, isCopy c = true) (hy : Signed y) :
    rule.applyFrom [near, far] false (s ++ y)
      = veil (rule.opens far near && rule.closes y) s ++ rule.applyFrom (lastTwo [near, far] s) false y := by
  obtain ⟨d, hd, hsign⟩ := hy
  obtain ⟨y, rfl⟩ := List.head?_eq_some_iff.mp hd
  rcases mem_of_copy hs with ⟨front, rear, rfl, hfront⟩ | ⟨hback, hinert⟩
  · have hdrop : (front ++ '\\' :: rear ++ d :: y).dropWhile isInert = '\\' :: (rear ++ d :: y) := by
      rw [List.append_assoc, List.dropWhile_append_of_pos hfront]
      rfl
    have hstart : rule.startsAt [near, far] (front ++ '\\' :: rear ++ d :: y) = false := by
      show (rule.opens far near && rule.closes _) = false
      rw [hdrop, hstop, Bool.and_false]
    rw [applyFrom_still h hs hstart, veil, if_neg (by simp)]
  · have hstart : rule.startsAt [near, far] (s ++ d :: y) = (rule.opens far near && rule.closes (d :: y)) := by
      show (rule.opens far near && rule.closes _) = _
      rw [List.dropWhile_append_of_pos hinert, List.dropWhile_cons_of_neg (by simp [hsign])]
    cases hmasked : rule.opens far near && rule.closes (d :: y) with
    | false =>
      rw [hmasked] at hstart
      rw [applyFrom_still h hs hstart, veil_false]
    | true =>
      rw [hmasked] at hstart
      rw [veil, if_pos ⟨rfl, hback⟩]
      cases s with
      | nil => rfl
      | cons c s =>
        obtain ⟨hc, hinert⟩ := List.forall_mem_cons.mp hinert
        rw [List.cons_append] at hstart ⊢
        rw [MaskRule.applyFrom_cons, hstart, Bool.false_or, hc, Bool.true_and, if_pos rfl,
          applyFrom_inside hinert hsign]
        rfl

/-- A text that goes up to copy: calm, and with two characters at its end that a rule may open behind. -/
structure Fixed (s : List Char) (far near : Char) : Prop where
  calm : isCalm s = true
  ends : ∃ x, s = x ++ [far, near]

theorem Fixed.lastTwo (h : Fixed s far near) (last : List Char) : lastTwo last s = [near, far] := by
  obtain ⟨x, rfl⟩ := h.ends
  exact lastTwo_pair last x far near

/-- Two pieces of copy between calm texts. Which of them are masked is up to the signs around them. -/
theorem apply_copies (h : rule.Bounded) (hstop : ∀ y, rule.closes ('\\' :: y) = false)
    (hi : ∀ c ∈ i, isCopy c = true) (hj : ∀ c ∈ j, isCopy c = true) (ha : Fixed a far near)
    (hb : Fixed b far' near') (hc : isCalm c = true) (hbsign : Signed b) (hcsign : Signed c) :
    rule.apply (a ++ (i ++ (b ++ (j ++ c))))
      = a ++ (veil (rule.opens far near && rule.closes (b ++ (j ++ c))) i
        ++ (b ++ (veil (rule.opens far' near' && rule.closes c) j ++ c))) := by
  have hsigned {last s : List Char} (hs : Signed s) : ∀ c ∈ last.head?, isOpener c = true →
      ∀ d ∈ s.head?, isInert d = false := by
    obtain ⟨e, he, hsign⟩ := hs
    rintro - - - d hd
    obtain rfl := Option.mem_unique he hd
    exact hsign
  have hbehind : Signed (b ++ (j ++ c)) := by
    obtain ⟨d, hd, hsign⟩ := hbsign
    obtain ⟨tail, rfl⟩ := List.head?_eq_some_iff.mp hd
    exact ⟨d, rfl, hsign⟩
  have hrear (last : List Char) : rule.applyFrom last false c = c := applyFrom_calm_end h hc (hsigned hcsign)
  have hfront : ∀ c ∈ ([] : List Char).head?, isOpener c = true → ∀ d ∈ a.head?, isInert d = false :=
    fun c hc => by cases hc
  rw [MaskRule.apply, applyFrom_calm h ha.calm hfront, ha.lastTwo, applyFrom_copy h hstop hi hbehind,
    applyFrom_calm h hb.calm (hsigned hbsign), hb.lastTwo, applyFrom_copy h hstop hj hcsign, hrear]

end Wireframe.Lint
