import Wireframe.Proofs.Json.Numbers
import Wireframe.Proofs.Text.Cut

/-! Names and numbers in a text. What one of them is read as depends on its own characters alone: it is
read the same wherever a character follows that cannot belong to it. -/
namespace Wireframe.Json

variable {s t rest : List Char} {c : Char} {v : Value} {e : Int}

theorem skipBlanks_cons (hc : isBlank c = false) (s : List Char) : skipBlanks (c :: s) = c :: s := by
  rw [skipBlanks, List.dropWhile_cons_of_neg (by simp [hc])]

/-- Whether a character may stand in a name or in a number. -/
def isPlainChar (c : Char) : Bool := c.isAlphanum || c = '+' || c = '-' || c = '.'

theorem isPlainChar_of_isDigit (h : c.isDigit = true) : isPlainChar c = true := by
  simp [isPlainChar, Char.isAlphanum, h]

/-- A text at whose front no name and no number goes on. -/
def Stops (s : List Char) : Prop := ∀ c ∈ s.head?, isPlainChar c = false

theorem Stops.ne (h : Stops s) (hc : isPlainChar c = true) (t : List Char) : s ≠ c :: t := by
  rintro rfl
  rw [h c rfl] at hc
  cases hc

theorem Stops.not_isDigit (h : Stops s) : ∀ c ∈ s.head?, c.isDigit = false := by
  intro c hc
  cases hdigit : c.isDigit with
  | false => rfl
  | true => exact (Bool.false_ne_true ((h c hc).symm.trans (isPlainChar_of_isDigit hdigit))).elim

/-! The parts of a number. -/

theorem wholeDigits_front (hne : (wholeDigits s).1 ≠ []) :
    Whole (wholeDigits s).1 ∧ s = (wholeDigits s).1 ++ (wholeDigits s).2 := by
  unfold wholeDigits at hne ⊢
  split
  · exact ⟨whole_zero, rfl⟩
  · rename_i hzero
    rw [List.span_eq_takeWhile_dropWhile]
    have hsplit := (List.takeWhile_append_dropWhile (p := Char.isDigit) (l := s)).symm
    refine ⟨⟨?_, fun c hc => List.mem_takeWhile_imp hc, fun hfront => ?_⟩, hsplit⟩
    · split at hne
      · rename_i rest
        exact (hzero rest rfl).elim
      · rwa [List.span_eq_takeWhile_dropWhile] at hne
    · cases s with
      | nil => cases hfront
      | cons c s =>
        rw [List.takeWhile_cons] at hfront
        split at hfront
        · obtain rfl : c = '0' := Option.some.inj hfront
          exact (hzero s rfl).elim
        · cases hfront

theorem fraction_front (s : List Char) :
    (∀ c ∈ (fraction s).1, c.isDigit = true) ∧ s = pointed (fraction s).1 ++ (fraction s).2 := by
  unfold fraction
  split
  · rename_i rest
    rw [List.span_eq_takeWhile_dropWhile]
    dsimp only
    split
    · exact ⟨List.forall_mem_nil _, rfl⟩
    · rename_i hne
      refine ⟨fun c hc => List.mem_takeWhile_imp hc, ?_⟩
      rw [pointed, if_neg (by simpa using hne), List.cons_append, List.takeWhile_append_dropWhile]
  · exact ⟨List.forall_mem_nil _, rfl⟩

/-- The text of an exponent, whose sign may be missing. -/
theorem exponent?_written {mark : Char} {sign ds : List Char} (hmark : mark = 'e' ∨ mark = 'E')
    (hsign : sign = ['-'] ∨ sign = ['+'] ∨ sign = []) (hne : ds ≠ []) (hd : ∀ c ∈ ds, c.isDigit = true)
    (ht : ∀ c ∈ t.head?, c.isDigit = false) :
    exponent? (mark :: (sign ++ ds) ++ t)
      = some (if sign = ['-'] then -(Text.digitsValue ds : Int) else Text.digitsValue ds, t) := by
  have hspan := Text.span_append hd ht
  have hempty : ds.isEmpty = false := by simpa using hne
  rw [List.cons_append, List.append_assoc]
  rcases hsign with rfl | rfl | rfl
  · simp only [exponent?, List.cons_append, List.nil_append, hspan, hmark, hempty, if_true,
      Bool.false_eq_true, if_false]
  · simp only [exponent?, List.cons_append, List.nil_append, hspan, hmark, hempty, if_true,
      Bool.false_eq_true, if_false]
    rfl
  · obtain ⟨c, ds, rfl⟩ := List.exists_cons_of_ne_nil hne
    have hdiffers (d : Char) (hd' : d.isDigit = false) (r : List Char) : c :: (ds ++ t) ≠ d :: r := by
      intro heq
      rw [← (List.cons.inj heq).1, hd c List.mem_cons_self] at hd'
      cases hd'
    rw [List.nil_append, List.cons_append, exponent?, if_pos hmark]
    · simp only [← List.cons_append, hspan, hempty, Bool.false_eq_true, if_false]
      rfl
    · exact hdiffers '-' rfl
    · exact hdiffers '+' rfl

theorem exponent?_front (h : exponent? s = some (e, rest)) : ∃ mark sign ds,
    (mark = 'e' ∨ mark = 'E') ∧ (sign = ['-'] ∨ sign = ['+'] ∨ sign = []) ∧ ds ≠ []
      ∧ (∀ c ∈ ds, c.isDigit = true) ∧ s = mark :: (sign ++ ds) ++ rest
      ∧ e = if sign = ['-'] then -(Text.digitsValue ds : Int) else Text.digitsValue ds := by
  unfold exponent? at h
  split at h
  · rename_i mark behind
    split at h
    · rename_i hmark
      split at h
      rename_i negative unsigned heq
      have hsplit := List.takeWhile_append_dropWhile (p := Char.isDigit) (l := unsigned)
      have hdigits : ∀ c ∈ unsigned.takeWhile Char.isDigit, c.isDigit = true := fun c hc =>
        List.mem_takeWhile_imp hc
      rw [List.span_eq_takeWhile_dropWhile] at h
      dsimp only at h
      split at h
      · cases h
      · rename_i hempty
        have hne : unsigned.takeWhile Char.isDigit ≠ [] := by simpa using hempty
        cases h
        split at heq <;> cases heq
        · exact ⟨mark, ['-'], _, hmark, .inl rfl, hne, hdigits, by simp [hsplit], by simp⟩
        · exact ⟨mark, ['+'], _, hmark, .inr (.inl rfl), hne, hdigits, by simp [hsplit], by simp⟩
        · exact ⟨mark, [], _, hmark, .inr (.inr rfl), hne, hdigits, by simp [hsplit], by simp⟩
    · cases h
  · cases h

theorem exponent?_of_stops (h : Stops t) : exponent? t = none := by
  cases t with
  | nil => rfl
  | cons c t =>
    have hmark : ¬ (c = 'e' ∨ c = 'E') := by
      rintro (rfl | rfl)
      · exact h.ne (by decide) t rfl
      · exact h.ne (by decide) t rfl
    simp only [exponent?, hmark, if_false]

/-- An exponent is the same wherever it ends, and so is the want of one. -/
theorem exponent?_part (s : List Char) : ∃ x, s = x ++ ((exponent? s).map (·.2)).getD s
    ∧ (exponent? s = none → x = []) ∧ (∀ c ∈ x, isPlainChar c = true)
    ∧ (∀ c ∈ x.head?, c = 'e' ∨ c = 'E')
    ∧ ∀ t, Stops t → exponent? (x ++ t) = (exponent? s).map fun (e, _) => (e, t) := by
  cases h : exponent? s with
  | none => exact ⟨[], rfl, fun _ => rfl, nofun, nofun, fun t ht => exponent?_of_stops ht⟩
  | some found =>
    obtain ⟨e, rest⟩ := found
    obtain ⟨mark, sign, ds, hmark, hsign, hne, hd, hs, rfl⟩ := exponent?_front h
    refine ⟨mark :: (sign ++ ds), hs, nofun, ?_, ?_, fun t ht =>
      exponent?_written hmark hsign hne hd ht.not_isDigit⟩
    · have hmarks : ∀ c ∈ sign, isPlainChar c = true := by
        rcases hsign with rfl | rfl | rfl <;> exact Text.forall_of_all (by decide)
      rw [List.forall_mem_cons, List.forall_mem_append]
      refine ⟨?_, hmarks, fun c hc => isPlainChar_of_isDigit (hd c hc)⟩
      rcases hmark with rfl | rfl <;> decide
    · intro c hc
      obtain rfl : mark = c := Option.some.inj hc
      exact hmark

/-! The whole of a name or a number. -/

theorem assembled_front {negative : Bool} {start whole places : List Char} {e? : Option (Int × List Char)}
    (h : assembled negative start whole places e? s = .ok (v, rest)) :
    rest = (e?.map (·.2)).getD s
      ∧ ∀ start s t, (e? = none → s = t) →
        assembled negative start whole places (e?.map fun (e, _) => (e, t)) s = .ok (v, t) := by
  unfold assembled at h
  split at h
  · split at h
    · cases h
    · rename_i hshort
      cases h
      refine ⟨rfl, fun start s t hs => ?_⟩
      rw [Option.map_none, assembled, if_neg hshort, hs rfl]
  · rename_i hnone
    cases h
    refine ⟨rfl, fun start s t hs => ?_⟩
    cases places with
    | nil => exact (hnone rfl).elim
    | cons c places =>
      rw [hs rfl]
      rfl
  · cases h
    refine ⟨rfl, fun start s t _ => ?_⟩
    cases places <;> rfl

theorem readPlain_signed {negative : Bool} (hc : c.isDigit = true) :
    readPlain (signed negative (c :: s)) = readNumber (signed negative (c :: s)) := by
  have hne : ∀ d : Char, d.isDigit = false → c ≠ d := by
    rintro d hd rfl
    simp [hc] at hd
  cases negative with
  | true =>
    simp only [signed, if_true, List.cons_append, List.nil_append]
    rw [readPlain]
    all_goals simp [hne]
  | false =>
    simp only [signed, Bool.false_eq_true, if_false, List.nil_append]
    rw [readPlain]
    all_goals simp [hne]

/-- A name or a number, and what it is read as wherever it ends. -/
structure IsWord (w : List Char) (v : Value) : Prop where
  nonempty : w ≠ []
  plain : ∀ c ∈ w, isPlainChar c = true
  reads : ∀ rest, Stops rest → readPlain (w ++ rest) = .ok (v, rest)

theorem exists_assembled_of_readNumber (h : readNumber s = .ok (v, rest)) :
    ∃ negative unsigned, s = signed negative unsigned ∧ (wholeDigits unsigned).1 ≠ []
      ∧ assembled negative s (wholeDigits unsigned).1 (fraction (wholeDigits unsigned).2).1
        (exponent? (fraction (wholeDigits unsigned).2).2) (fraction (wholeDigits unsigned).2).2
        = .ok (v, rest) := by
  unfold readNumber at h
  split at h
  rename_i negative unsigned heq
  dsimp only at h
  split at h
  · cases h
  · rename_i hempty
    refine ⟨negative, unsigned, ?_, by simpa using hempty, h⟩
    split at heq <;> cases heq <;> rfl

theorem isPlainChar_of_mem_signed {negative : Bool} {ds places x : List Char} (hw : Whole ds)
    (hp : ∀ c ∈ places, c.isDigit = true) (hx : ∀ c ∈ x, isPlainChar c = true) :
    ∀ c ∈ signed negative (ds ++ (pointed places ++ x)), isPlainChar c = true := by
  have hminus : ∀ c ∈ (if negative then ['-'] else []), isPlainChar c = true := by
    cases negative <;> exact Text.forall_of_all (by decide)
  have hpointed : ∀ c ∈ pointed places, isPlainChar c = true := by
    unfold pointed
    split
    · nofun
    · rw [List.forall_mem_cons]
      exact ⟨by decide, fun c hc => isPlainChar_of_isDigit (hp c hc)⟩
  simp only [signed, List.forall_mem_append]
  exact ⟨hminus, fun c hc => isPlainChar_of_isDigit (hw.digit c hc), hpointed, hx⟩

theorem isWord_of_readNumber (h : readNumber s = .ok (v, rest)) :
    ∃ w, s = w ++ rest ∧ IsWord w v := by
  obtain ⟨negative, unsigned, rfl, hne, hread⟩ := exists_assembled_of_readNumber h
  obtain ⟨hw, hunsigned⟩ := wholeDigits_front hne
  obtain ⟨hp, hplaces⟩ := fraction_front (wholeDigits unsigned).2
  obtain ⟨x, hx, hnone, hplain, hmark, hexponent⟩ := exponent?_part (fraction (wholeDigits unsigned).2).2
  obtain ⟨hrest, hassembled⟩ := assembled_front hread
  rw [← hrest] at hx
  generalize (wholeDigits unsigned).1 = ds at hw hunsigned hassembled
  generalize (fraction (wholeDigits unsigned).2).1 = places at hp hplaces hassembled
  have hsigned (s t : List Char) : signed negative s ++ t = signed negative (s ++ t) := by
    simp only [signed, List.append_assoc]
  refine ⟨signed negative (ds ++ (pointed places ++ x)), ?_, ?_, isPlainChar_of_mem_signed hw hp hplain,
    fun t ht => ?_⟩
  · rw [hsigned, List.append_assoc, List.append_assoc, ← hx, ← hplaces, ← hunsigned]
  · intro hnil
    have hds := List.append_eq_nil_iff.mp (List.append_eq_nil_iff.mp hnil).2
    exact hw.nonempty hds.1
  · have hbehind : ∀ c ∈ (x ++ t).head?, c.isDigit = false ∧ c ≠ '.' := by
      intro c hc
      cases x with
      | nil =>
        refine ⟨ht.not_isDigit c hc, ?_⟩
        rintro rfl
        exact Bool.false_ne_true ((ht '.' hc).symm.trans (by decide))
      | cons mark x =>
        rcases hmark c hc with rfl | rfl <;> decide
    have hpoint : ∀ c ∈ (pointed places ++ (x ++ t)).head?, c.isDigit = false := by
      intro c hc
      unfold pointed at hc
      split at hc
      · exact (hbehind c hc).1
      · obtain rfl : '.' = c := Option.some.inj hc
        decide
    obtain ⟨d, ds', rfl⟩ := List.exists_cons_of_ne_nil hw.nonempty
    rw [hsigned, List.append_assoc, List.append_assoc, List.cons_append,
      readPlain_signed (hw.digit d List.mem_cons_self), ← List.cons_append, readNumber_signed hw hpoint,
      fraction_pointed hp hbehind, hexponent t ht]
    exact hassembled _ _ t fun h => by rw [hnone h, List.nil_append]

/-- What names and numbers stand for. -/
inductive IsPlain : Value → Prop
  | null : IsPlain .null
  | bool (b : Bool) : IsPlain (.bool b)
  | int (n : Int) : IsPlain (.int n)
  | float (x : Double) : IsPlain (.float x)

theorem isPlain_of_readNumber (h : readNumber s = .ok (v, rest)) : IsPlain v := by
  unfold readNumber at h
  split at h
  dsimp only at h
  split at h
  · cases h
  · split at h
    · split at h <;> cases h
      exact .int _
    · cases h
      exact .float _
    · cases h
      exact .float _

theorem isPlain_of_readPlain (h : readPlain s = .ok (v, rest)) : IsPlain v := by
  unfold readPlain at h
  split at h
  case h_7 => exact isPlain_of_readNumber h
  all_goals
    cases h
    constructor

theorem IsWord.isPlain (h : IsWord t v) : IsPlain v :=
  isPlain_of_readPlain (h.reads [] (by simp [Stops]))

theorem isWord_of_readPlain (h : readPlain s = .ok (v, rest)) : ∃ w, s = w ++ rest ∧ IsWord w v := by
  have name {w : List Char} {u : Value} (hne : w ≠ []) (hplain : ∀ c ∈ w, isPlainChar c = true)
      (hread : ∀ rest, readPlain (w ++ rest) = .ok (u, rest)) {rest : List Char} :
      ∃ w', w ++ rest = w' ++ rest ∧ IsWord w' u :=
    ⟨w, rfl, hne, hplain, fun rest _ => hread rest⟩
  unfold readPlain at h
  split at h
  case h_7 => exact isWord_of_readNumber h
  all_goals cases h
  · exact name (w := "null".toList) (by decide) (Text.forall_of_all (by decide)) fun _ => rfl
  · exact name (w := "true".toList) (by decide) (Text.forall_of_all (by decide)) fun _ => rfl
  · exact name (w := "false".toList) (by decide) (Text.forall_of_all (by decide)) fun _ => rfl
  · exact name (w := "NaN".toList) (by decide) (Text.forall_of_all (by decide)) fun _ => rfl
  · exact name (w := "Infinity".toList) (by decide) (Text.forall_of_all (by decide)) fun _ => rfl
  · exact name (w := "-Infinity".toList) (by decide) (Text.forall_of_all (by decide)) fun _ => rfl

end Wireframe.Json
