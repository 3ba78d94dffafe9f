import Wireframe.Number.Double

/-!
Decimal text of binary64 numbers: the fewest digits that read back, and of those the nearest; then the
spellings in use, each a record of where positional writing ends and how an exponent is written.
-/

namespace Wireframe

/-- A decimal number `0.d₁d₂… · 10 ^ point` with its digits as one integer. -/
structure Decimal where
  digits : List Char
  point : Int
deriving DecidableEq, Repr

namespace Decimal

/-- Zeros at the end carry nothing once the point is known. -/
def trimmed (digits : List Char) : List Char := (digits.reverse.dropWhile (· = '0')).reverse

/-- The decimal number `n · 10 ^ exponent`. -/
def ofScaled (n : Nat) (exponent : Int) : Decimal :=
  let ds := Nat.toDigits 10 n
  ⟨trimmed ds, ds.length + exponent⟩

end Decimal

namespace Double

/-- The power of ten just above `a / b`, which is positive. -/
def decimalPoint (a b : Nat) : Int :=
  let estimate : Int := (Nat.toDigits 10 a).length - (Nat.toDigits 10 b).length
  let reached := if 0 ≤ estimate then b * tenPow estimate.toNat ≤ a else b ≤ a * tenPow (-estimate).toNat
  if reached then estimate + 1 else estimate

/-- The two neighbours of `a / b` on the grid of multiples of `10 ^ exponent`, kept where they read back
as `rank`: the nearer of both, of two equally near the even one. -/
def onGrid (rank a b : Nat) (exponent : Int) : Option Nat :=
  let top := if exponent < 0 then a * tenPow (-exponent).toNat else a
  let bottom := if exponent < 0 then b else b * tenPow exponent.toNat
  let low := top / bottom
  let reads (n : Nat) : Bool := ofDecimal false n exponent = ofRank false rank
  match reads low, reads (low + 1) with
  | true, true => some (roundDiv top bottom)
  | true, false => some low
  | false, true => some (low + 1)
  | false, false => none

/-- The fewest digits that read back as the magnitude of `rank`; seventeen always suffice, and the exact
decimal expansion stands behind them. -/
def shortest (rank : Nat) : Decimal :=
  if rank = 0 then ⟨['0'], 1⟩
  else
    let a := numerator rank
    let b := twoPow 1074
    let p := decimalPoint a b
    let tryCount (i : Nat) : Option Decimal :=
      let exponent := p - (i + 1)
      (onGrid rank a b exponent).map fun n => Decimal.ofScaled n exponent
    ((List.range 17).findSome? tryCount).getD (Decimal.ofScaled (a * Nat.pow 5 1074) (-1074))

/-- The nearest decimal of `count` significant digits. -/
def rounded (rank count : Nat) : Decimal :=
  if rank = 0 then ⟨['0'], 1⟩
  else
    let a := numerator rank
    let b := twoPow 1074
    let exponent := decimalPoint a b - count
    let n :=
      if exponent < 0 then roundDiv (a * tenPow (-exponent).toNat) b
      else roundDiv a (b * tenPow exponent.toNat)
    Decimal.ofScaled n exponent

end Double

/-- How a decimal number is written down. -/
structure NumberStyle where
  /-- Exponents from here … -/
  leastPositional : Int
  /-- … to below here are written out in positional notation. -/
  positionalBelow : Int
  /-- The least count of digits in a written exponent. -/
  exponentWidth : Nat
  /-- Whether a whole number in positional notation ends in `.0`. -/
  markWhole : Bool

namespace NumberStyle

/-- The usual text of a number: `1.0`, `1e+16`, `1e-05`. -/
def plain : NumberStyle := ⟨-4, 16, 2, true⟩

/-- The text of a number in a stored plan: `0.00001` is written out and a small exponent is not padded. -/
def stored : NumberStyle := ⟨-5, 16, 1, true⟩

/-- The text of a duration: six significant digits and no needless point. -/
def brief : NumberStyle := ⟨-4, 6, 2, false⟩

/-- A written exponent with its sign. -/
def exponentText (style : NumberStyle) (e : Int) : List Char :=
  let ds := Nat.toDigits 10 e.natAbs
  'e' :: (if e < 0 then '-' else '+') :: (List.replicate (style.exponentWidth - ds.length) '0' ++ ds)

/-- The text of a decimal number. -/
def write (style : NumberStyle) (d : Decimal) : List Char :=
  let e := d.point - 1
  if style.leastPositional ≤ e ∧ e < style.positionalBelow then
    if d.point ≤ 0 then
      '0' :: '.' :: (List.replicate (-d.point).toNat '0' ++ d.digits)
    else
      let whole := d.point.toNat
      let pad := List.replicate (whole - d.digits.length) '0'
      if d.digits.length ≤ whole then
        d.digits ++ pad ++ (if style.markWhole then ['.', '0'] else [])
      else d.digits.take whole ++ '.' :: d.digits.drop whole
  else
    match d.digits with
    | [] => []
    | [c] => c :: style.exponentText e
    | c :: cs => c :: '.' :: (cs ++ style.exponentText e)

end NumberStyle

namespace Double

/-- The text of a number in a style; a number that is not finite has its usual name. -/
def text (style : NumberStyle) : Double → List Char
  | .finite negative rank => (if negative then ['-'] else []) ++ style.write (shortest rank)
  | .infinite negative => (if negative then ['-'] else []) ++ ['i', 'n', 'f']
  | .nan => ['n', 'a', 'n']

/-- The text of a number with six significant digits. -/
def briefText : Double → List Char
  | .finite negative rank =>
    (if negative then ['-'] else []) ++ NumberStyle.brief.write (rounded rank 6)
  | .infinite negative => (if negative then ['-'] else []) ++ ['i', 'n', 'f']
  | .nan => ['n', 'a', 'n']

end Double

end Wireframe
