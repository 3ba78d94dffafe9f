/-!
Binary64 numbers with exact arithmetic. A finite magnitude is its rank in the increasing list of all
finite magnitudes, so each number has one representation, ranks are ordered as magnitudes are, and
rounding to the nearest number is one division. Nothing here uses the machine's own arithmetic.
-/

namespace Wireframe

def twoPow (n : Nat) : Nat := Nat.pow 2 n

def tenPow (n : Nat) : Nat := Nat.pow 10 n

/-- The number of finite magnitudes, zero among them. -/
def Double.finiteCount : Nat := 2047 * twoPow 52

/-- A binary64 number; two numbers are equal here when they have the same sign and magnitude, so the
two zeros differ and there is one not-a-number. -/
inductive Double
  | finite (negative : Bool) (rank : Fin Double.finiteCount)
  | infinite (negative : Bool)
  | nan
deriving DecidableEq, Repr

namespace Double

/-- The integer of at most 53 bits in the magnitude of a rank. -/
def significand (rank : Nat) : Nat :=
  if rank < twoPow 52 then rank else twoPow 52 + rank % twoPow 52

/-- A rank's magnitude is its significand times two to this power, over `2 ^ 1074`. -/
def scale (rank : Nat) : Nat := rank / twoPow 52 - 1

/-- A rank's magnitude over the common denominator `2 ^ 1074`. -/
def numerator (rank : Nat) : Nat := significand rank * twoPow (scale rank)

def zero (negative : Bool) : Double := .finite negative ⟨0, by decide⟩

def IsFinite : Double → Prop
  | .finite _ _ => True
  | _ => False

instance (x : Double) : Decidable x.IsFinite := by
  cases x <;> unfold IsFinite <;> infer_instance

/-- The nearest integer to `a / b`; a half goes to the even neighbour. -/
def roundDiv (a b : Nat) : Nat :=
  if 2 * (a % b) < b ∨ (2 * (a % b) = b ∧ a / b % 2 = 0) then a / b else a / b + 1

/-- The rank whose magnitude is nearest to `a / b`. The significand keeps 53 bits, fewer only below
the least normal number; rounding up to a power of two carries into the next rank by itself. -/
def nearestRank (a b : Nat) : Nat :=
  let s := (a * twoPow 1074 / b).log2 - 52
  s * twoPow 52 + roundDiv (a * twoPow 1074) (b * twoPow s)

/-- The number of a sign and a rank; past the last finite one it is infinite. -/
def ofRank (negative : Bool) (rank : Nat) : Double :=
  if h : rank < finiteCount then .finite negative ⟨rank, h⟩ else .infinite negative

/-- The number nearest to `digits · 10 ^ exponent`. Numbers that are far out of range are settled by
their size alone, so the work is bounded by the length of the digits. -/
def ofDecimal (negative : Bool) (digits : Nat) (exponent : Int) : Double :=
  if digits = 0 then zero negative
  else
    let size : Int := (Nat.toDigits 10 digits).length + exponent
    if 400 < size then .infinite negative
    else if size < -400 then zero negative
    else if 0 ≤ exponent then ofRank negative (nearestRank (digits * tenPow exponent.toNat) 1)
    else ofRank negative (nearestRank digits (tenPow (-exponent).toNat))

end Double

/-- An exact comparison value: a finite number as a fraction, or an end of the line. -/
inductive Magnitude
  | below
  | ratio (numerator : Int) (denominator : Nat)
  | above
deriving DecidableEq, Repr

namespace Magnitude

def ofInt (n : Int) : Magnitude := .ratio n 1

/-- The place of a number on the line; a not-a-number has none. -/
def ofDouble : Double → Option Magnitude
  | .finite negative rank =>
    let n : Int := Double.numerator rank
    some (.ratio (if negative then -n else n) (twoPow 1074))
  | .infinite negative => some (if negative then .below else .above)
  | .nan => none

def lt : Magnitude → Magnitude → Bool
  | .below, .below => false
  | .below, _ => true
  | .ratio .., .below => false
  | .ratio a b, .ratio c d => a * d < c * b
  | .ratio .., .above => true
  | .above, _ => false

end Magnitude

end Wireframe
