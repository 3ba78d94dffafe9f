import Mathlib.Data.List.TakeWhile
import Wireframe.Number.Shortest
import Wireframe.Text.Digit

/-! The texts of numbers: which characters they hold, and how whole numbers and binary64 numbers
differ. -/
namespace Wireframe

/-- A character of a written number. -/
def isNumberChar (c : Char) : Bool := c.isDigit || c = '-' || c = '+' || c = '.' || c = 'e'

/-- A character that no whole number has. -/
def isRealMark (c : Char) : Bool := c = '.' || c = 'e'

namespace Text

variable {m n : Int} {c : Char}

theorem decimal_inj {m n : Nat} (h : decimal m = decimal n) : m = n := by
  calc
    m = Nat.ofDigitChars 10 (Nat.toDigits 10 m) 0 := Nat.ofDigitChars_ten_toDigits.symm
    _ = Nat.ofDigitChars 10 (Nat.toDigits 10 n) 0 := congrArg (Nat.ofDigitChars 10 · 0) h
    _ = n := Nat.ofDigitChars_ten_toDigits

theorem isDigit_of_mem_decimal {n : Nat} (h : c ∈ decimal n) : c.isDigit = true :=
  Nat.isDigit_of_mem_toDigits (by decide) (by decide) h

theorem mem_integer (h : c ∈ integer n) : c = '-' ∨ c.isDigit = true := by
  simp only [integer, List.mem_append] at h
  rcases h with h | h
  · split at h <;> simp_all
  · exact .inr (isDigit_of_mem_decimal h)

theorem integer_ne_nil (n : Int) : integer n ≠ [] := by
  simp [integer, decimal, Nat.toDigits_ne_nil]

theorem isNumberChar_of_mem_integer (h : c ∈ integer n) : isNumberChar c = true := by
  rcases mem_integer h with rfl | h
  · decide
  · simp [isNumberChar, h]

theorem not_isRealMark_of_mem_integer (h : c ∈ integer n) : isRealMark c = false := by
  rcases mem_integer h with rfl | h
  · decide
  · by_contra hc
    simp only [isRealMark, Bool.not_eq_false, Bool.or_eq_true, decide_eq_true_eq] at hc
    rcases hc with rfl | rfl <;> revert h <;> decide

theorem minus_notMem_decimal (n : Nat) : '-' ∉ decimal n := by
  intro h
  have := isDigit_of_mem_decimal h
  revert this
  decide

theorem integer_inj (h : integer m = integer n) : m = n := by
  have front (k : Nat) (l : List Char) : decimal k ≠ '-' :: l := by
    intro he
    exact minus_notMem_decimal k (he ▸ List.mem_cons_self)
  by_cases hm : m < 0 <;> by_cases hn : n < 0
  · simp only [integer, hm, hn, if_true, List.cons_append, List.nil_append, List.cons.injEq,
      true_and] at h
    have := decimal_inj h
    omega
  · simp only [integer, hm, hn, if_true, if_false, List.cons_append, List.nil_append] at h
    exact (front _ _ h.symm).elim
  · simp only [integer, hm, hn, if_true, if_false, List.cons_append, List.nil_append] at h
    exact (front _ _ h).elim
  · simp only [integer, hm, hn, if_false, List.nil_append] at h
    have := decimal_inj h
    omega

end Text

namespace Decimal

variable {n : Nat} {c : Char} {e : Int}

theorem isDigit_of_mem_ofScaled (h : c ∈ (ofScaled n e).digits) : c.isDigit = true := by
  simp only [ofScaled, trimmed, List.mem_reverse] at h
  have h := (List.dropWhile_sublist _).mem h
  exact Nat.isDigit_of_mem_toDigits (by decide) (by decide) (List.mem_reverse.mp h)

/-- Only zero consists of zeros. -/
theorem ofScaled_digits_ne_nil (hn : n ≠ 0) : (ofScaled n e).digits ≠ [] := by
  intro h
  simp only [ofScaled, trimmed, List.reverse_eq_nil_iff, List.dropWhile_eq_nil_iff, List.mem_reverse,
    decide_eq_true_eq] at h
  have hzeros : Nat.toDigits 10 n = List.replicate (Nat.toDigits 10 n).length '0' :=
    List.eq_replicate_iff.mpr ⟨rfl, h⟩
  apply hn
  calc
    n = Nat.ofDigitChars 10 (Nat.toDigits 10 n) 0 := Nat.ofDigitChars_ten_toDigits.symm
    _ = Nat.ofDigitChars 10 (List.replicate (Nat.toDigits 10 n).length '0') 0 :=
      congrArg (Nat.ofDigitChars 10 · 0) hzeros
    _ = 0 := by simp

end Decimal

namespace Double

variable {rank : Nat} {e : Int} {x : Double} {c : Char}

theorem ofDecimal_zero_ne_ofRank (hr : rank ≠ 0) : ofDecimal false 0 e ≠ ofRank false rank := by
  simp only [ofDecimal, if_true, zero, ofRank]
  split
  · simpa using hr.symm
  · simp

theorem le_roundDiv (a b : Nat) : a / b ≤ roundDiv a b := by
  unfold roundDiv
  split <;> omega

/-- Zero reads back as no other number, so it is never found in the place of one. -/
theorem onGrid_ne_zero {a b n : Nat} (hr : rank ≠ 0) (h : onGrid rank a b e = some n) : n ≠ 0 := by
  have hzero := ofDecimal_zero_ne_ofRank (e := e) hr
  simp only [onGrid] at h
  split at h
  · rename_i hlow _
    rintro rfl
    have hle := le_roundDiv (if e < 0 then a * tenPow (-e).toNat else a)
      (if e < 0 then b else b * tenPow e.toNat)
    rw [Option.some.inj h] at hle
    rw [Nat.le_zero.mp hle] at hlow
    exact hzero (by simpa using hlow)
  · rename_i hlow _
    rintro rfl
    rw [Option.some.inj h] at hlow
    exact hzero (by simpa using hlow)
  · rw [← Option.some.inj h]
    exact Nat.succ_ne_zero _
  · cases h

theorem numerator_ne_zero (hr : rank ≠ 0) : numerator rank ≠ 0 := by
  have hpow (k : Nat) : twoPow k ≠ 0 := (Nat.two_pow_pos k).ne'
  have hsig : significand rank ≠ 0 := by
    unfold significand
    split
    · exact hr
    · have := hpow 52
      omega
  exact Nat.mul_ne_zero hsig (hpow _)

theorem shortest_digits (rank : Nat) :
    (shortest rank).digits ≠ [] ∧ ∀ c ∈ (shortest rank).digits, c.isDigit = true := by
  by_cases hr : rank = 0
  · simp [shortest, hr]
  · have hscaled (n : Nat) (e : Int) (hn : n ≠ 0) : (Decimal.ofScaled n e).digits ≠ [] ∧
        ∀ c ∈ (Decimal.ofScaled n e).digits, c.isDigit = true :=
      ⟨Decimal.ofScaled_digits_ne_nil hn, fun _ => Decimal.isDigit_of_mem_ofScaled⟩
    simp only [shortest, hr, if_false]
    generalize hfound : (List.range 17).findSome? _ = found
    cases found with
    | none =>
      generalize (1074 : Nat) = k
      exact hscaled _ _ (Nat.mul_ne_zero (numerator_ne_zero hr) (Nat.pow_pos (by decide)).ne')
    | some d =>
      obtain ⟨i, _, hi⟩ := List.exists_of_findSome?_eq_some hfound
      obtain ⟨n, hn, rfl⟩ := Option.map_eq_some_iff.mp hi
      exact hscaled _ _ (onGrid_ne_zero hr hn)

end Double

namespace NumberStyle

variable {style : NumberStyle} {d : Decimal} {c : Char}

theorem isNumberChar_of_isDigit (h : c.isDigit = true) : isNumberChar c = true := by
  simp [isNumberChar, h]

theorem isNumberChar_of_mem_exponentText {e : Int} (h : c ∈ style.exponentText e) :
    isNumberChar c = true := by
  simp only [exponentText, List.mem_cons, List.mem_append, List.mem_replicate] at h
  rcases h with rfl | rfl | ⟨_, rfl⟩ | h
  · decide
  · split <;> decide
  · decide
  · exact isNumberChar_of_isDigit (Nat.isDigit_of_mem_toDigits (by decide) (by decide) h)

theorem isNumberChar_of_mem_write (hd : ∀ c ∈ d.digits, c.isDigit = true) (h : c ∈ style.write d) :
    isNumberChar c = true := by
  have hdigit (c : Char) (hc : c ∈ d.digits) : isNumberChar c = true :=
    isNumberChar_of_isDigit (hd c hc)
  simp only [write] at h
  split at h
  · split at h
    · simp only [List.mem_cons, List.mem_append, List.mem_replicate] at h
      rcases h with rfl | rfl | ⟨_, rfl⟩ | h
      · decide
      · decide
      · decide
      · exact hdigit c h
    · split at h
      · simp only [List.mem_append, List.mem_replicate] at h
        rcases h with (h | ⟨_, rfl⟩) | h
        · exact hdigit c h
        · decide
        · split at h
          · simp only [List.mem_cons, List.not_mem_nil, or_false] at h
            rcases h with rfl | rfl <;> decide
          · cases h
      · simp only [List.mem_cons, List.mem_append] at h
        rcases h with h | rfl | h
        · exact hdigit c (List.mem_of_mem_take h)
        · decide
        · exact hdigit c (List.mem_of_mem_drop h)
  · split at h
    · cases h
    · rename_i a ha
      rcases List.mem_cons.mp h with rfl | h
      · exact hdigit c (ha ▸ List.mem_cons_self)
      · exact isNumberChar_of_mem_exponentText h
    · rename_i a as _ ha
      simp only [List.mem_cons, List.mem_append] at h
      rcases h with rfl | rfl | h | h
      · exact hdigit c (ha ▸ List.mem_cons_self)
      · decide
      · exact hdigit c (ha ▸ List.mem_cons_of_mem _ h)
      · exact isNumberChar_of_mem_exponentText h

/-- A style that marks whole numbers marks every number. -/
theorem exists_mark_mem_write (hm : style.markWhole = true) (hd : d.digits ≠ []) :
    ∃ c ∈ style.write d, isRealMark c = true := by
  simp only [write]
  split
  · refine ⟨'.', ?_, by decide⟩
    split
    · simp
    · split <;> simp
  · refine ⟨'e', ?_, by decide⟩
    split
    · exact (hd ‹_›).elim
    · simp [exponentText]
    · simp [exponentText]

end NumberStyle

namespace Double

variable {style : NumberStyle} {x : Double} {c : Char}

theorem isNumberChar_of_mem_text (hx : x.IsFinite) (h : c ∈ x.text style) :
    isNumberChar c = true := by
  cases x with
  | finite negative rank =>
    simp only [text, List.mem_append] at h
    rcases h with h | h
    · split at h <;> simp_all [isNumberChar]
    · exact NumberStyle.isNumberChar_of_mem_write (shortest_digits rank).2 h
  | infinite _ => exact hx.elim
  | nan => exact hx.elim

theorem exists_mark_mem_text (hx : x.IsFinite) (hm : style.markWhole = true) :
    ∃ c ∈ x.text style, isRealMark c = true := by
  cases x with
  | finite negative rank =>
    obtain ⟨c, hc, hmark⟩ := NumberStyle.exists_mark_mem_write hm (shortest_digits rank).1
    exact ⟨c, List.mem_append_right _ hc, hmark⟩
  | infinite _ => exact hx.elim
  | nan => exact hx.elim

end Double

end Wireframe
