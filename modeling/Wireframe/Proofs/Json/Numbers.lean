import Wireframe.Json.Reader
import Wireframe.Proofs.Number.Rounding
import Wireframe.Proofs.Text.Scanning

/-! Written numbers read back: whole numbers that are not too long, and all finite binary64 numbers. -/
namespace Wireframe

variable {c : Char} {n rank : Nat} {e : Int} {d : Decimal} {ds places rest : List Char}
variable {style : NumberStyle} {negative : Bool}

theorem Text.head?_append {a b : List Char} (h : a ≠ []) : (a ++ b).head? = a.head? := by
  cases a with
  | nil => exact absurd rfl h
  | cons c a => rfl

/-- The first digit of a positive number is no zero. -/
theorem Text.head?_decimal_ne (hn : n ≠ 0) : (decimal n).head? ≠ some '0' := by
  induction n using Nat.strongRecOn with
  | ind n ih =>
    rw [decimal, Nat.toDigits_eq_if (by decide)]
    split
    · intro h
      exact hn (Nat.digitChar_eq_zero.mp (Option.some.inj h))
    · rename_i hlarge
      have hquotient : n / 10 ≠ 0 := (Nat.div_pos (Nat.le_of_not_lt hlarge) (by decide)).ne'
      rw [head?_append Nat.toDigits_ne_nil]
      exact ih (n / 10) (Nat.div_lt_self (Nat.pos_of_ne_zero hn) (by decide)) hquotient

namespace Decimal

/-- A decimal as it is written: it has digits, and the first of them is a zero only in zero itself. -/
structure Plain (d : Decimal) : Prop where
  nonempty : d.digits ≠ []
  digit : ∀ c ∈ d.digits, c.isDigit = true
  front : d.digits.head? = some '0' → d = ⟨['0'], 1⟩

theorem head?_ofScaled_ne (hn : n ≠ 0) : (ofScaled n e).digits.head? ≠ some '0' := by
  intro h
  obtain ⟨k, hk⟩ := Double.exists_zeros (Nat.toDigits 10 n)
  apply Text.head?_decimal_ne hn
  rw [Text.decimal, hk]
  show ((ofScaled n e).digits ++ List.replicate k '0').head? = some '0'
  rw [Text.head?_append (ofScaled_digits_ne_nil hn), h]

theorem plain_ofScaled (hn : n ≠ 0) : (ofScaled n e).Plain where
  nonempty := ofScaled_digits_ne_nil hn
  digit _ := isDigit_of_mem_ofScaled
  front h := absurd h (head?_ofScaled_ne hn)

theorem plain_shortest (rank : Nat) : (Double.shortest rank).Plain := by
  by_cases hr : rank = 0
  · rw [Double.shortest, if_pos hr]
    exact ⟨by simp, List.forall_mem_singleton.mpr rfl, fun _ => rfl⟩
  · simp only [Double.shortest, hr, if_false]
    generalize hfound : (List.range 17).findSome? _ = found
    cases found with
    | none =>
      generalize (1074 : Nat) = k
      exact plain_ofScaled
        (Nat.mul_ne_zero (Double.numerator_ne_zero hr) (Nat.pow_pos (by decide)).ne')
    | some d =>
      obtain ⟨i, _, hi⟩ := List.exists_of_findSome?_eq_some hfound
      obtain ⟨n, hn, rfl⟩ := Option.map_eq_some_iff.mp hi
      exact plain_ofScaled (Double.onGrid_ne_zero hr hn)

end Decimal

namespace Json

/-- What may follow a value in a text: nothing, or a character that ends it. -/
def Ends (rest : List Char) : Prop := ∀ c ∈ rest.head?, c = ',' ∨ c = ']' ∨ c = '\x7d'

theorem Ends.not_isDigit (h : Ends rest) : ∀ c ∈ rest.head?, c.isDigit = false := by
  intro c hc
  rcases h c hc with rfl | rfl | rfl <;> decide

theorem Ends.ne (h : Ends rest) (hc : ¬ (c = ',' ∨ c = ']' ∨ c = '\x7d')) (s : List Char) :
    rest ≠ c :: s := by
  rintro rfl
  exact hc (h c rfl)

/-! The parts of a number. -/

/-- Digits that can stand in front of the point. -/
structure Whole (ds : List Char) : Prop where
  nonempty : ds ≠ []
  digit : ∀ c ∈ ds, c.isDigit = true
  front : ds.head? = some '0' → ds = ['0']

theorem wholeDigits_append (h : Whole ds) (hr : ∀ c ∈ rest.head?, c.isDigit = false) :
    wholeDigits (ds ++ rest) = (ds, rest) := by
  obtain ⟨c, cs, rfl⟩ := List.exists_cons_of_ne_nil h.nonempty
  by_cases hc : c = '0'
  · subst hc
    obtain rfl : cs = [] := (List.cons.inj (h.front rfl)).2
    rfl
  · rw [wholeDigits]
    · exact Text.span_append h.digit hr
    · simpa using fun heq => absurd heq hc

theorem fraction_append (hne : places ≠ []) (hd : ∀ c ∈ places, c.isDigit = true)
    (hr : ∀ c ∈ rest.head?, c.isDigit = false) :
    fraction ('.' :: (places ++ rest)) = (places, rest) := by
  have hempty : places.isEmpty = false := by simpa using hne
  simp only [fraction, Text.span_append hd hr, hempty, Bool.false_eq_true, if_false]

theorem fraction_none (h : ∀ s, rest ≠ '.' :: s) : fraction rest = ([], rest) := by
  rw [fraction]
  exact fun s heq => h s heq

theorem exponent?_none (h : Ends rest) : exponent? rest = none := by
  cases rest with
  | nil => rfl
  | cons c rest =>
    rcases h c rfl with rfl | rfl | rfl <;> rfl

theorem digitsValue_zeros_append (k : Nat) (ds : List Char) :
    Text.digitsValue (List.replicate k '0' ++ ds) = Text.digitsValue ds := by
  rw [Double.digitsValue_eq, Double.digitsValue_eq, Nat.ofDigitChars_append,
    Nat.ofDigitChars_replicate_zero, Nat.mul_zero]

theorem digitsValue_decimal (n : Nat) : Text.digitsValue (Text.decimal n) = n := by
  rw [Double.digitsValue_eq, Text.decimal, Nat.ofDigitChars_ten_toDigits]

/-- A written exponent reads back. -/
theorem exponent?_append (style : NumberStyle) (e : Int) (hr : ∀ c ∈ rest.head?, c.isDigit = false) :
    exponent? (style.exponentText e ++ rest) = some (e, rest) := by
  have hdigits : ∀ c ∈ List.replicate (style.exponentWidth - (Nat.toDigits 10 e.natAbs).length) '0'
      ++ Nat.toDigits 10 e.natAbs, c.isDigit = true := by
    intro c hc
    rcases List.mem_append.mp hc with hc | hc
    · rw [List.eq_of_mem_replicate hc]
      decide
    · exact Text.isDigit_of_mem_decimal hc
  have hvalue := digitsValue_zeros_append
    (style.exponentWidth - (Nat.toDigits 10 e.natAbs).length) (Nat.toDigits 10 e.natAbs)
  rw [show Text.digitsValue (Nat.toDigits 10 e.natAbs) = e.natAbs from digitsValue_decimal _] at hvalue
  have hne : (List.replicate (style.exponentWidth - (Nat.toDigits 10 e.natAbs).length) '0'
      ++ Nat.toDigits 10 e.natAbs).isEmpty = false := by
    simp [Nat.toDigits_ne_nil]
  simp only [NumberStyle.exponentText, List.cons_append, exponent?]
  generalize List.replicate _ '0' ++ Nat.toDigits 10 e.natAbs = ds at hdigits hvalue hne
  by_cases he : e < 0
  · have hvalue' : -(e.natAbs : Int) = e := by omega
    simp only [he, if_true, Text.span_append hdigits hr, hvalue, hne, hvalue', true_or,
      Bool.false_eq_true, if_false]
  · have hvalue' : (e.natAbs : Int) = e := by omega
    simp only [he, if_false, Text.span_append hdigits hr, hvalue, hne, hvalue', true_or, if_true,
      Bool.false_eq_true]

/-- The digits of a fraction with their point, where there are any. -/
def pointed (places : List Char) : List Char := if places = [] then [] else '.' :: places

theorem fraction_pointed (hd : ∀ c ∈ places, c.isDigit = true)
    (hr : ∀ c ∈ rest.head?, c.isDigit = false ∧ c ≠ '.') :
    fraction (pointed places ++ rest) = (places, rest) := by
  rw [pointed]
  split
  · rename_i hempty
    rw [hempty]
    refine fraction_none ?_
    rintro s rfl
    exact (hr '.' rfl).2 rfl
  · rename_i hne
    exact fraction_append hne hd fun c hc => (hr c hc).1

/-- A number with its sign. -/
def signed (negative : Bool) (s : List Char) : List Char := (if negative then ['-'] else []) ++ s

/-- What the parts of a number stand for; `start` is the text of the number and all that follows. -/
def assembled (negative : Bool) (start whole places : List Char) (e? : Option (Int × List Char))
    (rest : List Char) : Except Stop (Value × List Char) :=
  match places, e? with
  | [], none =>
    if digitLimit < whole.length then .error ⟨.excess (.digits whole.length), start⟩
    else
      let n : Int := Text.digitsValue whole
      .ok (.int (if negative then -n else n), rest)
  | _, none =>
    .ok (.float (Double.ofDecimal negative (Text.digitsValue (whole ++ places)) (-places.length)), rest)
  | _, some (e, rest) =>
    .ok (.float (Double.ofDecimal negative (Text.digitsValue (whole ++ places)) (e - places.length)),
      rest)

theorem readNumber_signed (hw : Whole ds) (hr : ∀ c ∈ rest.head?, c.isDigit = false) :
    readNumber (signed negative (ds ++ rest))
      = assembled negative (signed negative (ds ++ rest)) ds (fraction rest).1
          (exponent? (fraction rest).2) (fraction rest).2 := by
  have hwhole := wholeDigits_append hw hr
  have hne : ds.isEmpty = false := by simpa using hw.nonempty
  cases negative with
  | true =>
    simp only [signed, if_true, List.cons_append, List.nil_append, readNumber, hwhole, hne,
      Bool.false_eq_true, if_false]
    rfl
  | false =>
    obtain ⟨c, cs, rfl⟩ := List.exists_cons_of_ne_nil hw.nonempty
    have hminus : ∀ s, (c :: cs) ++ rest ≠ '-' :: s := by
      intro s heq
      have hc := hw.digit c List.mem_cons_self
      rw [(List.cons.inj heq).1] at hc
      revert hc
      decide
    simp only [signed, Bool.false_eq_true, if_false, List.nil_append, readNumber, hwhole, hne]
    rfl

/-- A number with an exponent. -/
theorem readNumber_exponent (negative : Bool) (hw : Whole ds) (hp : ∀ c ∈ places, c.isDigit = true)
    (style : NumberStyle) (e : Int) (hr : ∀ c ∈ rest.head?, c.isDigit = false) :
    readNumber (signed negative (ds ++ (pointed places ++ (style.exponentText e ++ rest))))
      = .ok (.float (Double.ofDecimal negative (Text.digitsValue (ds ++ places)) (e - places.length)),
          rest) := by
  have hmark : ∀ c ∈ (style.exponentText e ++ rest).head?, c.isDigit = false ∧ c ≠ '.' := by
    intro c hc
    obtain rfl : 'e' = c := Option.some.inj hc
    decide
  have hpoint : ∀ c ∈ (pointed places ++ (style.exponentText e ++ rest)).head?, c.isDigit = false := by
    intro c hc
    rw [pointed] at hc
    split at hc
    · exact (hmark c hc).1
    · obtain rfl : '.' = c := Option.some.inj hc
      decide
  rw [readNumber_signed hw hpoint, fraction_pointed hp hmark, exponent?_append style e hr]
  cases places <;> rfl

/-- A number with a point. -/
theorem readNumber_pointed (negative : Bool) (hw : Whole ds) (hne : places ≠ [])
    (hp : ∀ c ∈ places, c.isDigit = true) (hr : Ends rest) :
    readNumber (signed negative (ds ++ ('.' :: (places ++ rest))))
      = .ok (.float (Double.ofDecimal negative (Text.digitsValue (ds ++ places)) (-places.length)),
          rest) := by
  have hpoint : ∀ c ∈ ('.' :: (places ++ rest)).head?, c.isDigit = false := by
    intro c hc
    obtain rfl : '.' = c := Option.some.inj hc
    decide
  rw [readNumber_signed hw hpoint, fraction_append hne hp hr.not_isDigit, exponent?_none hr]
  cases places with
  | nil => exact absurd rfl hne
  | cons c places => rfl

theorem whole_zero : Whole ['0'] := ⟨by simp, List.forall_mem_singleton.mpr rfl, fun _ => rfl⟩

/-- A decimal in front of whose digits the point stands. -/
theorem readNumber_small (h : d.Plain) (hpoint : d.point ≤ 0) (hr : Ends rest) :
    readNumber (signed negative
        ('0' :: '.' :: (List.replicate (-d.point).toNat '0' ++ d.digits) ++ rest))
      = .ok (.float (Double.ofDigits negative d), rest) := by
  have hdigits : ∀ c ∈ List.replicate (-d.point).toNat '0' ++ d.digits, c.isDigit = true := by
    intro c hc
    rcases List.mem_append.mp hc with hc | hc
    · rw [List.eq_of_mem_replicate hc]
      decide
    · exact h.digit c hc
  have hne : List.replicate (-d.point).toNat '0' ++ d.digits ≠ [] := by
    simp [h.nonempty]
  have hread := readNumber_pointed negative whole_zero hne hdigits hr
  have hvalue : Text.digitsValue (['0'] ++ (List.replicate (-d.point).toNat '0' ++ d.digits))
      = Text.digitsValue d.digits :=
    (digitsValue_zeros_append 1 _).trans (digitsValue_zeros_append _ _)
  have hexponent : (-((List.replicate (-d.point).toNat '0' ++ d.digits).length : Int))
      = d.point - d.digits.length := by
    rw [List.length_append, List.length_replicate]
    omega
  rw [hvalue, hexponent] at hread
  exact hread

/-- A whole number with its point and a zero behind. -/
theorem readNumber_large (h : d.Plain) (hpoint : 0 < d.point)
    (hlong : d.digits.length ≤ d.point.toNat) (hr : Ends rest) :
    readNumber (signed negative (d.digits
        ++ List.replicate (d.point.toNat - d.digits.length) '0' ++ ['.', '0'] ++ rest))
      = .ok (.float (Double.ofDigits negative d), rest) := by
  have hdigits : ∀ c ∈ d.digits ++ List.replicate (d.point.toNat - d.digits.length) '0',
      c.isDigit = true := by
    intro c hc
    rcases List.mem_append.mp hc with hc | hc
    · exact h.digit c hc
    · rw [List.eq_of_mem_replicate hc]
      decide
  have hwhole : Whole (d.digits ++ List.replicate (d.point.toNat - d.digits.length) '0') := by
    refine ⟨by simp [h.nonempty], hdigits, fun hz => ?_⟩
    rw [Text.head?_append h.nonempty] at hz
    rw [h.front hz]
    rfl
  have hread := readNumber_pointed negative hwhole (show ['0'] ≠ [] by simp)
    (List.forall_mem_singleton.mpr rfl) hr
  have hvalue : Text.digitsValue (d.digits
      ++ List.replicate (d.point.toNat - d.digits.length) '0' ++ ['0'])
      = Text.digitsValue d.digits * tenPow (d.point.toNat - d.digits.length + 1) := by
    rw [List.append_assoc, ← Double.digitsValue_append_zeros, List.replicate_succ']
  have hexponent : (-((['0'] : List Char).length : Int))
      + ((d.point.toNat - d.digits.length + 1 : Nat) : Int)
      = d.point - d.digits.length := by
    simp only [List.length_singleton]
    omega
  rw [hvalue, Double.ofDecimal_mul_tenPow, hexponent] at hread
  rw [List.append_assoc]
  exact hread

/-- A decimal among whose digits the point stands. -/
theorem readNumber_middle (h : d.Plain) (hpoint : 0 < d.point)
    (hshort : d.point.toNat < d.digits.length) (hr : Ends rest) :
    readNumber (signed negative (d.digits.take d.point.toNat
        ++ '.' :: d.digits.drop d.point.toNat ++ rest))
      = .ok (.float (Double.ofDigits negative d), rest) := by
  have hne : d.digits.drop d.point.toNat ≠ [] := by
    rw [Ne, List.drop_eq_nil_iff]
    omega
  have hfront : d.digits.take d.point.toNat ≠ [] := by
    rw [Ne, List.take_eq_nil_iff]
    rintro (hzero | hnil)
    · omega
    · exact h.nonempty hnil
  have hwhole : Whole (d.digits.take d.point.toNat) := by
    refine ⟨hfront, fun c hc => h.digit c (List.mem_of_mem_take hc), fun hz => ?_⟩
    have hdigits : d.digits.head? = some '0' := by
      rw [← List.take_append_drop d.point.toNat d.digits, Text.head?_append hfront, hz]
    rw [h.front hdigits] at hshort
    simp at hshort
  have hread := readNumber_pointed negative hwhole hne
    (fun c hc => h.digit c (List.mem_of_mem_drop hc)) hr
  have hexponent : (-((d.digits.drop d.point.toNat).length : Int)) = d.point - d.digits.length := by
    rw [List.length_drop]
    omega
  rw [List.take_append_drop, hexponent] at hread
  rw [List.append_assoc]
  exact hread

/-- A decimal with an exponent. -/
theorem readNumber_scaled (negative : Bool) {cs : List Char} (h : d.Plain)
    (hd : d.digits = c :: cs) (style : NumberStyle) (hr : Ends rest) :
    readNumber (signed negative (c :: (pointed cs ++ style.exponentText (d.point - 1)) ++ rest))
      = .ok (.float (Double.ofDigits negative d), rest) := by
  have hdigit : ∀ x ∈ c :: cs, x.isDigit = true := hd ▸ h.digit
  have hwhole : Whole [c] := by
    refine ⟨by simp, fun x hx => hdigit x ?_, fun hz => ?_⟩
    · rw [List.mem_singleton.mp hx]
      exact List.mem_cons_self
    · rw [Option.some.inj hz]
  have hread := readNumber_exponent negative hwhole
    (fun x hx => hdigit x (List.mem_cons_of_mem _ hx)) style (d.point - 1) hr.not_isDigit
  have hexponent : d.point - 1 - (cs.length : Int) = d.point - d.digits.length := by
    rw [hd, List.length_cons]
    omega
  rw [show [c] ++ cs = d.digits from hd.symm, hexponent] at hread
  rw [List.cons_append, List.append_assoc]
  exact hread

/-- A number that marks whole numbers reads back in every style. -/
theorem readNumber_write (h : d.Plain) (hm : style.markWhole = true) (hr : Ends rest) :
    readNumber (signed negative (style.write d ++ rest))
      = .ok (.float (Double.ofDigits negative d), rest) := by
  obtain ⟨c, cs, hd⟩ := List.exists_cons_of_ne_nil h.nonempty
  rw [NumberStyle.write]
  dsimp only
  split
  · split
    · exact readNumber_small h ‹_› hr
    · split
      · exact readNumber_large h (by omega) ‹_› hr
      · exact readNumber_middle h (by omega) (by omega) hr
  · have hscaled := readNumber_scaled negative h hd style hr
    split
    · exact absurd ‹_› h.nonempty
    · rename_i x hx
      obtain ⟨rfl, rfl⟩ := List.cons.inj (hd.symm.trans hx)
      exact hscaled
    · rename_i x xs hne hx
      obtain ⟨rfl, rfl⟩ := List.cons.inj (hd.symm.trans hx)
      rw [pointed, if_neg (by simpa using hne)] at hscaled
      exact hscaled

/-- The text of a finite number reads back as the number. -/
theorem readNumber_text (negative : Bool) (r : Fin Double.finiteCount)
    (hm : style.markWhole = true) (hr : Ends rest) :
    readNumber ((Double.finite negative r).text style ++ rest)
      = .ok (.float (.finite negative r), rest) := by
  rw [Double.text, List.append_assoc, ← Double.ofDigits_shortest negative r]
  exact readNumber_write (Decimal.plain_shortest r) hm hr

theorem whole_decimal (n : Nat) : Whole (Text.decimal n) := by
  refine ⟨Nat.toDigits_ne_nil, fun c hc => Text.isDigit_of_mem_decimal hc, fun hz => ?_⟩
  by_cases hn : n = 0
  · rw [hn]
    rfl
  · exact absurd hz (Text.head?_decimal_ne hn)

theorem integer_eq_signed (n : Int) : Text.integer n = signed (n < 0) (Text.decimal n.natAbs) := by
  simp [Text.integer, signed]

theorem readNumber_integer_eq (n : Int) (hr : Ends rest) :
    readNumber (Text.integer n ++ rest)
      = if digitLimit < digitCount n then
          .error ⟨.excess (.digits (digitCount n)), Text.integer n ++ rest⟩
        else .ok (.int n, rest) := by
  have hsigned : Text.integer n ++ rest = signed (n < 0) (Text.decimal n.natAbs ++ rest) := by
    rw [integer_eq_signed, signed, signed, List.append_assoc]
  have hpoint : ∀ s, rest ≠ '.' :: s := hr.ne (by decide)
  have hvalue : (if decide (n < 0) then -((n.natAbs : Nat) : Int) else n.natAbs) = n := by
    by_cases hn : n < 0
    · simp only [hn, decide_true, if_true]
      omega
    · simp only [hn, decide_false, Bool.false_eq_true, if_false]
      omega
  rw [hsigned, readNumber_signed (whole_decimal _) hr.not_isDigit, fraction_none hpoint,
    exponent?_none hr]
  simp only [assembled, digitsValue_decimal, hvalue, digitCount]
  rfl

end Json

end Wireframe
