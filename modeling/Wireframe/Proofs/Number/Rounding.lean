import Mathlib.Data.Nat.Log
import Wireframe.Proofs.Number.Spelling

/-! Rounding to the nearest binary64 number: what does not depend on the decimal that is rounded, and that
the shortest decimal of a number is rounded to it. -/
namespace Wireframe.Double

variable {a b c n rank k : Nat} {e : Int} {negative : Bool}

theorem roundDiv_mul_right (hc : 0 < c) (a b : Nat) : roundDiv (a * c) (b * c) = roundDiv a b := by
  have hmod : a * c % (b * c) = a % b * c := Nat.mul_mod_mul_right c a b
  have hdiv : a * c / (b * c) = a / b := Nat.mul_div_mul_right a b hc
  have hlt : 2 * (a % b * c) < b * c ↔ 2 * (a % b) < b := by
    rw [← Nat.mul_assoc, Nat.mul_lt_mul_right hc]
  have heq : 2 * (a % b * c) = b * c ↔ 2 * (a % b) = b := by
    rw [← Nat.mul_assoc, Nat.mul_left_inj hc.ne']
  simp only [roundDiv, hmod, hdiv, hlt, heq]

/-- A fraction is rounded in the same way in all its forms. -/
theorem nearestRank_mul_right (hc : 0 < c) (a b : Nat) :
    nearestRank (a * c) (b * c) = nearestRank a b := by
  have hleft : a * c * twoPow 1074 = a * twoPow 1074 * c := Nat.mul_right_comm a c _
  have hdiv : a * twoPow 1074 * c / (b * c) = a * twoPow 1074 / b := Nat.mul_div_mul_right _ _ hc
  have hright (s : Nat) : b * c * twoPow s = b * twoPow s * c := Nat.mul_right_comm b c _
  simp only [nearestRank, hleft, hdiv, hright, roundDiv_mul_right hc]

theorem toDigits_ten_mul (hn : n ≠ 0) : Nat.toDigits 10 (10 * n) = Nat.toDigits 10 n ++ ['0'] := by
  have happend := Nat.toDigits_append_toDigits (b := 10) (d := 0) (by decide) (Nat.pos_of_ne_zero hn)
    (by decide)
  rw [Nat.add_zero] at happend
  exact happend.symm

theorem toDigits_mul_tenPow (hn : n ≠ 0) (k : Nat) :
    Nat.toDigits 10 (n * tenPow k) = Nat.toDigits 10 n ++ List.replicate k '0' := by
  induction k with
  | zero => simp [tenPow]
  | succ k ih =>
    have hstep : n * tenPow (k + 1) = 10 * (n * tenPow k) := by
      show n * 10 ^ (k + 1) = 10 * (n * 10 ^ k)
      rw [Nat.pow_succ]
      ac_rfl
    have hne : n * tenPow k ≠ 0 := Nat.mul_ne_zero hn (Nat.pow_pos (by decide)).ne'
    rw [hstep, toDigits_ten_mul hne, ih, List.append_assoc, ← List.replicate_succ']

/-- Zeros at the end of the digits count as much as the exponent. -/
theorem ofDecimal_mul_tenPow (negative : Bool) (n k : Nat) (e : Int) :
    ofDecimal negative (n * tenPow k) e = ofDecimal negative n (e + k) := by
  by_cases hn : n = 0
  · simp [ofDecimal, hn]
  have hpos (j : Nat) : 0 < tenPow j := Nat.pow_pos (by decide)
  have hadd (i j : Nat) : tenPow (i + j) = tenPow i * tenPow j := Nat.pow_add 10 i j
  have hne : n * tenPow k ≠ 0 := Nat.mul_ne_zero hn (hpos k).ne'
  have hsize : ((Nat.toDigits 10 (n * tenPow k)).length : Int) + e
      = (Nat.toDigits 10 n).length + (e + k) := by
    rw [toDigits_mul_tenPow hn, List.length_append, List.length_replicate]
    omega
  simp only [ofDecimal, hn, hne, if_false, hsize]
  congr 2
  split
  · -- Both are whole numbers, the same ones.
    rename_i he
    have hsum : (e + k).toNat = k + e.toNat := by omega
    rw [if_pos (by omega), hsum, hadd, Nat.mul_assoc]
  · rename_i he
    split
    · -- The zeros outweigh the exponent.
      have hsum : k = (e + k).toNat + (-e).toNat := by omega
      have hleft : n * tenPow k = n * tenPow (e + k).toNat * tenPow (-e).toNat := by
        conv_lhs => rw [hsum]
        rw [hadd, Nat.mul_assoc]
      rw [hleft, ← nearestRank_mul_right (hpos (-e).toNat) (n * tenPow (e + k).toNat) 1, Nat.one_mul]
    · have hsum : (-e).toNat = (-(e + k)).toNat + k := by omega
      rw [hsum, hadd, nearestRank_mul_right (hpos k)]

theorem twoPow_pos (k : Nat) : 0 < twoPow k := Nat.two_pow_pos k

theorem roundDiv_of_mul (hb : 0 < b) (a : Nat) : roundDiv (a * b) b = a := by
  rw [roundDiv, Nat.mul_mod_left, Nat.mul_div_cancel _ hb, if_pos (.inl (by omega))]

/-- A rank is told by its significand and its scale. -/
theorem scale_add_significand (rank : Nat) : scale rank * twoPow 52 + significand rank = rank := by
  have hsplit := Nat.div_add_mod rank (twoPow 52)
  simp only [scale, significand]
  split
  · rename_i hlt
    rw [Nat.div_eq_of_lt hlt, Nat.zero_sub, Nat.zero_mul, Nat.zero_add]
  · rename_i hge
    obtain ⟨q, hq⟩ : ∃ q, rank / twoPow 52 = q + 1 :=
      ⟨_, (Nat.sub_add_cancel (Nat.div_pos (Nat.le_of_not_lt hge) (twoPow_pos 52))).symm⟩
    rw [hq] at hsplit ⊢
    rw [Nat.add_sub_cancel, ← Nat.add_assoc, Nat.mul_comm q, ← Nat.mul_succ]
    exact hsplit

theorem significand_lt (rank : Nat) : significand rank < twoPow 53 := by
  have hdouble : twoPow 53 = twoPow 52 + twoPow 52 := by decide
  have hmod := Nat.mod_lt rank (twoPow_pos 52)
  rw [significand]
  split <;> omega

/-- The leading bit of a magnitude says what its scale is. -/
theorem log2_numerator (rank : Nat) : (numerator rank).log2 - 52 = scale rank := by
  by_cases hrank : rank < twoPow 52
  · have hscale : scale rank = 0 := by rw [scale, Nat.div_eq_of_lt hrank]
    have hnumerator : numerator rank = rank := by
      rw [numerator, hscale, significand, if_pos hrank]
      exact Nat.mul_one rank
    rw [hnumerator, hscale]
    by_cases hzero : rank = 0
    · rw [hzero]
      rfl
    · have hlog := (Nat.log2_lt hzero).mpr hrank
      omega
  · have hsig : twoPow 52 ≤ significand rank := by
      rw [significand, if_neg hrank]
      exact Nat.le_add_right _ _
    have hne : rank ≠ 0 := by
      have := twoPow_pos 52
      omega
    have hlog : (numerator rank).log2 = 52 + scale rank := by
      rw [Nat.log2_eq_iff (numerator_ne_zero hne), Nat.add_right_comm, Nat.pow_add, Nat.pow_add]
      exact ⟨Nat.mul_le_mul_right _ hsig,
        Nat.mul_lt_mul_of_pos_right (significand_lt rank) (twoPow_pos _)⟩
    omega

/-- A magnitude is rounded to itself. -/
theorem nearestRank_numerator (rank : Nat) : nearestRank (numerator rank) (twoPow 1074) = rank := by
  have hunit := twoPow_pos 1074
  rw [nearestRank]
  generalize twoPow 1074 = unit at hunit
  have hexact : numerator rank * unit / unit = numerator rank := Nat.mul_div_cancel _ hunit
  have hround : roundDiv (numerator rank * unit) (unit * twoPow (scale rank)) = significand rank := by
    rw [numerator, Nat.mul_assoc, Nat.mul_comm (twoPow _)]
    exact roundDiv_of_mul (Nat.mul_pos hunit (twoPow_pos _)) _
  simp only [hexact, log2_numerator, hround]
  exact scale_add_significand rank

/-- A number with a given sign. -/
def signed (negative : Bool) : Double → Double
  | .finite _ r => .finite negative r
  | .infinite _ => .infinite negative
  | .nan => .nan

theorem ofRank_eq_signed (negative : Bool) (n : Nat) :
    ofRank negative n = (ofRank false n).signed negative := by
  unfold ofRank
  split <;> rfl

/-- The sign plays no part in rounding. -/
theorem ofDecimal_eq_signed (negative : Bool) (n : Nat) (e : Int) :
    ofDecimal negative n e = (ofDecimal false n e).signed negative := by
  unfold ofDecimal
  dsimp only
  split_ifs
  · rfl
  · rfl
  · rfl
  · exact ofRank_eq_signed negative _
  · exact ofRank_eq_signed negative _

theorem digitsValue_eq (ds : List Char) : Text.digitsValue ds = Nat.ofDigitChars 10 ds 0 :=
  Nat.ofDigitChars_eq_foldl.symm

theorem digitsValue_append_zeros (ds : List Char) (k : Nat) :
    Text.digitsValue (ds ++ List.replicate k '0') = Text.digitsValue ds * tenPow k := by
  rw [digitsValue_eq, digitsValue_eq, Nat.ofDigitChars_append, Nat.ofDigitChars_replicate_zero,
    Nat.mul_comm]
  rfl

theorem exists_zeros (ds : List Char) : ∃ k, ds = Decimal.trimmed ds ++ List.replicate k '0' := by
  have hzeros : ds.reverse.takeWhile (· = '0')
      = List.replicate (ds.reverse.takeWhile (· = '0')).length '0' :=
    List.eq_replicate_iff.mpr ⟨rfl, fun c hc => by simpa using List.mem_takeWhile_imp hc⟩
  have hsplit := congrArg List.reverse
    (List.takeWhile_append_dropWhile (p := (· = '0')) (l := ds.reverse))
  rw [List.reverse_append, List.reverse_reverse, hzeros, List.reverse_replicate] at hsplit
  exact ⟨_, hsplit.symm⟩

/-- The number nearest to a decimal. -/
def ofDigits (negative : Bool) (d : Decimal) : Double :=
  ofDecimal negative (Text.digitsValue d.digits) (d.point - d.digits.length)

/-- A decimal is rounded as the scaled number that it came from. -/
theorem ofDigits_ofScaled (n : Nat) (e : Int) :
    ofDigits negative (Decimal.ofScaled n e) = ofDecimal negative n e := by
  obtain ⟨k, hk⟩ := exists_zeros (Nat.toDigits 10 n)
  have hvalue : n = Text.digitsValue (Decimal.trimmed (Nat.toDigits 10 n)) * tenPow k := by
    rw [← digitsValue_append_zeros, ← hk, digitsValue_eq, Nat.ofDigitChars_ten_toDigits]
  have hlength := congrArg List.length hk
  rw [List.length_append, List.length_replicate] at hlength
  conv_rhs => rw [hvalue, ofDecimal_mul_tenPow]
  rw [ofDigits, Decimal.ofScaled]
  dsimp only
  congr 1
  omega

theorem roundDiv_eq_or (a b : Nat) : roundDiv a b = a / b ∨ roundDiv a b = a / b + 1 := by
  unfold roundDiv
  split
  · exact .inl rfl
  · exact .inr rfl

/-- What is kept on a grid reads back. -/
theorem ofDecimal_of_onGrid (h : onGrid rank a b e = some n) :
    ofDecimal false n e = ofRank false rank := by
  simp only [onGrid] at h
  split at h
  · rename_i hlow hnext
    obtain rfl := Option.some.inj h
    rcases roundDiv_eq_or (if e < 0 then a * tenPow (-e).toNat else a)
      (if e < 0 then b else b * tenPow e.toNat) with heq | heq
    · rw [heq]
      exact of_decide_eq_true hlow
    · rw [heq]
      exact of_decide_eq_true hnext
  · rename_i hlow _
    obtain rfl := Option.some.inj h
    exact of_decide_eq_true hlow
  · rename_i _ hnext
    obtain rfl := Option.some.inj h
    exact of_decide_eq_true hnext
  · cases h

theorem twoPow_le {i j : Nat} (h : i ≤ j) : twoPow i ≤ twoPow j := Nat.pow_le_pow_right (by decide) h

theorem numerator_lt (h : rank < finiteCount) : numerator rank < twoPow 2098 := by
  have hquotient : rank / twoPow 52 < 2047 := Nat.div_lt_of_lt_mul (by rw [Nat.mul_comm]; exact h)
  have hscale : scale rank ≤ 2045 := by
    rw [scale]
    omega
  calc
    numerator rank < twoPow 53 * twoPow (scale rank) :=
      Nat.mul_lt_mul_of_pos_right (significand_lt rank) (twoPow_pos _)
    _ ≤ twoPow 53 * twoPow 2045 := Nat.mul_le_mul_left _ (twoPow_le hscale)
    _ = twoPow 2098 := by decide +kernel

theorem lt_length_toDigits {n : Nat} (h : tenPow k ≤ n) : k < (Nat.toDigits 10 n).length := by
  by_cases hk : k = 0
  · rw [hk]
    exact List.length_pos_iff.mpr Nat.toDigits_ne_nil
  · rw [← Nat.not_le, Nat.length_toDigits_le_iff (by decide) (Nat.pos_of_ne_zero hk), Nat.not_lt]
    exact h

theorem length_toDigits_le {n : Nat} (hk : 0 < k) (h : n < tenPow k) : (Nat.toDigits 10 n).length ≤ k :=
  (Nat.length_toDigits_le_iff (by decide) hk).mpr h

/-- What makes a power of five the factor between a binary fraction and its decimal expansion. -/
structure Expands (p : Nat) : Prop where
  pos : 0 < p
  ten : tenPow 1074 = twoPow 1074 * p
  least : tenPow 673 ≤ p
  most : twoPow 2098 * p ≤ tenPow 1474

theorem expands_fivePow : Expands (Nat.pow 5 1074) :=
  ⟨by decide +kernel, by decide +kernel, by decide +kernel, by decide +kernel⟩

/-- The exact decimal expansion of a magnitude is in range. -/
theorem Expands.length {p : Nat} (hp : Expands p) (hr : rank ≠ 0) (h : rank < finiteCount) :
    673 < (Nat.toDigits 10 (numerator rank * p)).length
      ∧ (Nat.toDigits 10 (numerator rank * p)).length ≤ 1474 := by
  have hone : 1 ≤ numerator rank := Nat.pos_of_ne_zero (numerator_ne_zero hr)
  constructor
  · exact lt_length_toDigits (Nat.le_trans hp.least (Nat.le_mul_of_pos_left p hone))
  · refine length_toDigits_le (by decide) ?_
    exact Nat.lt_of_lt_of_le (Nat.mul_lt_mul_of_pos_right (numerator_lt h) hp.pos) hp.most

/-- The exact decimal expansion of a magnitude is rounded to it. -/
theorem Expands.ofDecimal {p : Nat} (hp : Expands p) (hr : rank ≠ 0) (h : rank < finiteCount) :
    ofDecimal false (numerator rank * p) (-1074) = ofRank false rank := by
  obtain ⟨hleast, hmost⟩ := hp.length hr h
  have hne : numerator rank * p ≠ 0 := Nat.mul_ne_zero (numerator_ne_zero hr) hp.pos.ne'
  have hround : nearestRank (numerator rank * p) (tenPow 1074) = rank := by
    rw [hp.ten, nearestRank_mul_right hp.pos, nearestRank_numerator]
  unfold Double.ofDecimal
  dsimp only
  rw [if_neg hne, if_neg (by omega), if_neg (by omega), if_neg (by decide)]
  exact congrArg (ofRank false) hround

/-- The shortest decimal of a number reads back as the number. -/
theorem ofDigits_shortest (negative : Bool) (r : Fin finiteCount) :
    ofDigits negative (shortest r) = .finite negative r := by
  obtain ⟨rank, h⟩ := r
  by_cases hr : rank = 0
  · subst hr
    rw [shortest, if_pos rfl]
    rfl
  · have hfinite : ofRank false rank = .finite false ⟨rank, h⟩ := dif_pos h
    have hexpansion := expands_fivePow.ofDecimal hr h
    simp only [shortest, hr, if_false]
    generalize hfound : (List.range 17).findSome? _ = found
    cases found with
    | none =>
      rw [Option.getD_none, ofDigits_ofScaled, ofDecimal_eq_signed, hexpansion, hfinite]
      rfl
    | some d =>
      obtain ⟨i, _, hi⟩ := List.exists_of_findSome?_eq_some hfound
      obtain ⟨n, hn, rfl⟩ := Option.map_eq_some_iff.mp hi
      rw [Option.getD_some, ofDigits_ofScaled, ofDecimal_eq_signed, ofDecimal_of_onGrid hn, hfinite]
      rfl

end Wireframe.Double
