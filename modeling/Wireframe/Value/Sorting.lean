import Wireframe.Text.Order
import Wireframe.Value

/-!
Sorting by keys that may not be comparable. Text keys sort by code points. Otherwise the order in which
keys are compared decides which pair is reported: first the longest run at the front, ascending or
strictly descending, then each further key by binary search among those already in place.
-/

namespace Wireframe

/-- Two kinds of values that have no order between them, in the order in which they were compared. -/
structure Incomparable where
  left : String
  right : String
deriving DecidableEq, Repr

namespace Value

mutual

/-- Whether one value comes before another. -/
def before : Value → Value → Except Incomparable Bool
  | text s, text t => .ok (!Text.atMost t.toList s.toList)
  | bytes a, bytes b => .ok (decide (a < b))
  | list xs, list ys => beforeItems xs ys
  | tuple xs, tuple ys => beforeItems xs ys
  | set _, set _ => .ok false
  | x, y =>
    match x, y with
    | .bool _, .bool _ | .bool _, .int _ | .bool _, .float _ | .int _, .bool _ | .int _, .int _
    | .int _, .float _ | .float _, .bool _ | .float _, .int _ | .float _, .float _ =>
      match x.magnitude?, y.magnitude? with
      | some a, some b => .ok (a.lt b)
      | _, _ => .ok false
    | _, _ => .error ⟨x.kindName, y.kindName⟩

/-- The first pair of different items decides; without one the shorter list comes first. -/
def beforeItems : List Value → List Value → Except Incomparable Bool
  | _, [] => .ok false
  | [], _ :: _ => .ok true
  | x :: xs, y :: ys => if same x y then beforeItems xs ys else before x y

end

variable {α : Type}

/-- The place for `x` in the sorted part of `xs` from `low` to below `high`. -/
def searchPlace (key : α → Value) (x : α) (xs : Array α) (low high : Nat) : Except Incomparable Nat :=
  if _h : low < high then
    let middle := low + (high - low) / 2
    match xs[middle]? with
    | none => .ok low
    | some y => do
      if ← before (key x) (key y) then searchPlace key x xs low middle
      else searchPlace key x xs (middle + 1) high
  else .ok low
termination_by high - low

/-- The length of the descending run that continues after `last`. -/
def descendingRun (key : α → Value) (last : α) : List α → Except Incomparable Nat
  | [] => .ok 0
  | x :: rest => do if ← before (key x) (key last) then return (← descendingRun key x rest) + 1 else return 0

/-- The length of the ascending run that continues after `last`. -/
def ascendingRun (key : α → Value) (last : α) : List α → Except Incomparable Nat
  | [] => .ok 0
  | x :: rest => do if ← before (key x) (key last) then return 0 else return (← ascendingRun key x rest) + 1

/-- Further items put one by one into their places. -/
def insertAll (key : α → Value) (sorted : Array α) : List α → Except Incomparable (Array α)
  | [] => .ok sorted
  | x :: rest => do
    let place ← searchPlace key x sorted 0 sorted.size
    insertAll key ((sorted.toList.take place ++ x :: sorted.toList.drop place).toArray) rest

/-- Items sorted by their keys, or the first pair of keys found without an order. -/
def sortByKey (key : α → Value) (xs : List α) : Except Incomparable (List α) :=
  if xs.all fun x => (key x).isText then
    .ok (xs.mergeSort fun x y =>
      Text.atMost ((key x).text?.getD "").toList ((key y).text?.getD "").toList)
  else
    match xs with
    | [] | [_] => .ok xs
    | x :: y :: rest => do
      let descending ← before (key y) (key x)
      let count ← if descending then descendingRun key y rest else ascendingRun key y rest
      let run := (x :: y :: rest).take (count + 2)
      let sorted ← insertAll key (if descending then run.reverse else run).toArray (rest.drop count)
      return sorted.toList

end Value

end Wireframe
