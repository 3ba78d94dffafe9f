import Wireframe.Plan.Encode
import Wireframe.Plan.Explanation

/-!
Versions: accepted requests, each with its plan, the source that was generated from it, and perhaps an
explanation. A version never changes once it was made. Versions and histories are the same for any type of
texts; texts of characters are meant where no other type is named.
-/

namespace Wireframe

/-- The microseconds of the years that a date can have, which are 1 to 9999. -/
def momentCount : Nat := 315537897600000000

/-- A moment, as the microseconds since the beginning of the year 1. -/
structure Moment where
  micros : Fin momentCount
deriving DecidableEq, Repr

namespace Moment

/-- A number with leading zeros. -/
def padded (width n : Nat) : String :=
  let ds := Nat.toDigits 10 n
  String.ofList (List.replicate (width - ds.length) '0' ++ ds)

/-- Year, month and day of a count of days since the first of March of the year zero; years are counted
from March, so that the leap day is the last day of its year. -/
def calendar (days : Nat) : Nat × Nat × Nat :=
  let era := days / 146097
  let dayOfEra := days % 146097
  let yearOfEra := (dayOfEra - dayOfEra / 1460 + dayOfEra / 36524 - dayOfEra / 146096) / 365
  let dayOfYear := dayOfEra - (365 * yearOfEra + yearOfEra / 4 - yearOfEra / 100)
  let m := (5 * dayOfYear + 2) / 153
  let month := if m < 10 then m + 3 else m - 9
  (yearOfEra + era * 400 + (if month ≤ 2 then 1 else 0), month, dayOfYear - (153 * m + 2) / 5 + 1)

/-- The days from the first of March of the year zero to the beginning of the year 1. -/
def firstDay : Nat := 306

/-- Date and time of day; the fraction of a second is left out where it is none. -/
def text (t : Moment) : String :=
  let seconds := t.micros.val / 1000000
  let micros := t.micros.val % 1000000
  let (year, month, day) := calendar (firstDay + seconds / 86400)
  let fraction := if micros = 0 then "" else s!".{padded 6 micros}"
  s!"{padded 4 year}-{padded 2 month}-{padded 2 day}T{padded 2 (seconds / 3600 % 24)}:"
    ++ s!"{padded 2 (seconds / 60 % 60)}:{padded 2 (seconds % 60)}{fraction}+00:00"

end Moment

variable {τ : Type}

/-- What a version is made from. -/
structure Draft (τ : Type := String) where
  userIntent : τ
  plan : Plan
  code : τ
  explanation : Option Explanation
  isModification : Bool
  parentId : Option τ

/-- An accepted request. -/
structure Version (τ : Type := String) extends Draft τ where
  id : τ
  time : Moment

/-- What a listing says about a version. -/
structure VersionSummary (τ : Type := String) where
  id : τ
  time : Moment
  userIntent : τ
  isModification : Bool
deriving DecidableEq, Repr

def VersionSummary.toValue (s : VersionSummary) : Value :=
  .object [
    ("id", .text s.id),
    ("timestamp", .text s.time.text),
    ("userIntent", .text s.userIntent),
    ("isModification", .bool s.isModification)]

namespace Version

def summary (v : Version τ) : VersionSummary τ := ⟨v.id, v.time, v.userIntent, v.isModification⟩

/-- A version as it is handed out; an explanation that is not there is left out. -/
def payload (v : Version) : Except NestingError Value := do
  let plan ← v.plan.toValue
  return .object ([("id", .text v.id), ("code", .text v.code), ("plan", plan)]
    ++ v.explanation.toList.map fun e => ("explanation", e.toValue))

end Version

/-- Where versions get their names and moments from: the names and the moments in the order in which they are
given out, and how many of them were given out so far. -/
structure Mint (τ : Type := String) where
  name : Nat → τ
  clock : Nat → Moment
  named : Nat
  timed : Nat

namespace Mint

/-- The names that count the versions. -/
def numbered (n : Nat) : String := s!"v{n + 1}"

/-- A clock that shows the year 2024 at first, and half a second more each time. -/
def ticking (n : Nat) : Moment :=
  ⟨(63839664000000000 + 500000 * (n + 1)) % momentCount, Nat.mod_lt _ (by decide)⟩

def fresh : Mint := ⟨numbered, ticking, 0, 0⟩

/-- The next version, with a name of its own. -/
def version (m : Mint τ) (d : Draft τ) : Version τ × Mint τ :=
  (⟨d, m.name m.named, m.clock m.timed⟩, { m with named := m.named + 1, timed := m.timed + 1 })

/-- The next version with a name that is given. -/
def versionNamed (m : Mint τ) (id : τ) (d : Draft τ) : Version τ × Mint τ :=
  (⟨d, id, m.clock m.timed⟩, { m with timed := m.timed + 1 })

end Mint

end Wireframe
