import Wireframe.Number.Shortest
import Wireframe.Text.Digit

/-!
Numbers given as settings: limits and durations, each a whole number or a binary64 number.
-/

namespace Wireframe

/-- The binary64 number nearest to an integer. -/
def Double.ofInt (n : Int) : Double := Double.ofDecimal (n < 0) n.natAbs 0

inductive Quantity
  | whole (n : Int)
  | real (x : Double)
deriving DecidableEq, Repr

namespace Quantity

def magnitude? : Quantity → Option Magnitude
  | whole n => some (.ofInt n)
  | real x => Magnitude.ofDouble x

/-- Whether a count is at least a limit; nothing reaches a limit that is no number. -/
def isReachedBy (limit : Quantity) (count : Nat) : Bool :=
  match limit.magnitude? with
  | some m => !(Magnitude.ofInt count).lt m
  | none => false

/-- Whether a count is above a limit. -/
def isExceededBy (limit : Quantity) (count : Nat) : Bool :=
  match limit.magnitude? with
  | some m => m.lt (.ofInt count)
  | none => false

/-- How many counts, from one on, a limit leaves room for; `unbounded` where it is no bound. -/
def room (limit : Quantity) (unbounded : Nat) : Nat :=
  match limit.magnitude? with
  | some (.ratio n d) => (n / (d : Int)).toNat
  | some .below => 0
  | some .above | none => unbounded

/-- Whether a duration leaves no time at all. -/
def isExpired (q : Quantity) : Bool :=
  match q.magnitude? with
  | some m => !(Magnitude.ofInt 0).lt m
  | none => false

def text : Quantity → String
  | whole n => String.ofList (Text.integer n)
  | real x => String.ofList (x.text .plain)

/-- The text with six significant digits. -/
def briefText : Quantity → String
  | whole n => String.ofList (Double.ofInt n).briefText
  | real x => String.ofList x.briefText

end Quantity

end Wireframe
