import Mathlib.Tactic.MkIffOfInductiveProp
import Wireframe.Proofs.Json.Room

/-! How much there is in a value: the digits of its integers, and the containers inside each other. -/
namespace Wireframe

namespace Value
open Json (Bounds Room)

mutual

/-- The most digits that an integer in a value has. -/
def mostDigits : Value → Nat
  | .int n => Json.digitCount n
  | .list items => mostDigitsOf items
  | .dict entries => mostDigitsIn entries
  | _ => 0

def mostDigitsOf : List Value → Nat
  | [] => 0
  | x :: rest => max (mostDigits x) (mostDigitsOf rest)

def mostDigitsIn : List (Value × Value) → Nat
  | [] => 0
  | (_, v) :: rest => max (mostDigits v) (mostDigitsIn rest)

end

mutual

/-- How many containers stand inside each other in a value. -/
def depth : Value → Nat
  | .list items | .tuple items | .set items => depthOf items + 1
  | .dict entries => depthIn entries + 1
  | _ => 0

def depthOf : List Value → Nat
  | [] => 0
  | x :: rest => max (depth x) (depthOf rest)

def depthIn : List (Value × Value) → Nat
  | [] => 0
  | (_, v) :: rest => max (depth v) (depthIn rest)

end

variable {n : Nat} {e : Value × Value} {v : Value} {items : List Value} {entries : List (Value × Value)}

theorem mostDigitsOf_le_iff : mostDigitsOf items ≤ n ↔ ∀ x ∈ items, x.mostDigits ≤ n := by
  induction items with
  | nil => simp [mostDigitsOf]
  | cons x rest ih => rw [mostDigitsOf, Nat.max_le, ih, List.forall_mem_cons]

theorem mostDigitsIn_eq (entries : List (Value × Value)) :
    mostDigitsIn entries = mostDigitsOf (entries.map (·.2)) := by
  induction entries with
  | nil => rfl
  | cons e rest ih => rw [mostDigitsIn, ih, List.map_cons, mostDigitsOf]

theorem mostDigitsIn_le_iff : mostDigitsIn entries ≤ n ↔ ∀ e ∈ entries, e.2.mostDigits ≤ n := by
  rw [mostDigitsIn_eq, mostDigitsOf_le_iff, List.forall_mem_map]

theorem depthOf_le_iff : depthOf items ≤ n ↔ ∀ x ∈ items, x.depth ≤ n := by
  induction items with
  | nil => simp [depthOf]
  | cons x rest ih => rw [depthOf, Nat.max_le, ih, List.forall_mem_cons]

theorem takes_add_depthOf_iff {room : Room} {k : Nat} (h : room.Takes k) :
    room.Takes (k + depthOf items) ↔ ∀ x ∈ items, room.Takes (k + x.depth) := by
  induction items with
  | nil => simpa [depthOf] using h
  | cons x rest ih => rw [depthOf, ← Nat.add_max_add_left, Room.takes_max_iff, ih, List.forall_mem_cons]

theorem takes_depthOf_iff {room : Room} : room.Takes (depthOf items) ↔ ∀ x ∈ items, room.Takes x.depth := by
  simpa using @takes_add_depthOf_iff items room 0 room.takes_zero

theorem depthIn_eq (entries : List (Value × Value)) : depthIn entries = depthOf (entries.map (·.2)) := by
  induction entries with
  | nil => rfl
  | cons e rest ih => rw [depthIn, ih, List.map_cons, depthOf]

theorem depthIn_le_iff : depthIn entries ≤ n ↔ ∀ e ∈ entries, e.2.depth ≤ n := by
  rw [depthIn_eq, depthOf_le_iff, List.forall_mem_map]

theorem takes_depthIn_iff {room : Room} :
    room.Takes (depthIn entries) ↔ ∀ e ∈ entries, room.Takes e.2.depth := by
  rw [depthIn_eq, takes_depthOf_iff, List.forall_mem_map]

/-- A value that keeps to bounds where so many containers are around it. -/
@[mk_iff]
structure FitsAt (bounds : Bounds) (level : Nat) (v : Value) : Prop where
  digits : ∀ most ∈ bounds.digits, v.mostDigits ≤ most
  room : bounds.room.Takes (level + v.depth)

/-- A value that keeps to bounds. -/
def Fits (bounds : Bounds) (v : Value) : Prop := v.FitsAt bounds 0

theorem fits_text (bounds : Bounds) (s : String) : Fits bounds (.text s) :=
  ⟨fun most _ => Nat.zero_le most, Room.takes_zero _⟩

theorem fits_unbounded (v : Value) : v.Fits .none := ⟨nofun, trivial⟩

variable {bounds : Bounds} {level : Nat}

theorem FitsAt.of_plain (hdigits : v.mostDigits = 0) (hdepth : v.depth = 0) (h : bounds.room.Takes level) :
    v.FitsAt bounds level :=
  ⟨fun most _ => hdigits ▸ Nat.zero_le most, by rwa [hdepth]⟩

theorem fitsAt_list_iff : FitsAt bounds level (.list items) ↔
    bounds.room.Takes (level + 1) ∧ ∀ x ∈ items, x.FitsAt bounds (level + 1) := by
  have hdepth : level + depth (.list items) = level + 1 + depthOf items := by rw [depth]; omega
  constructor
  · rintro ⟨hdigits, hroom⟩
    rw [hdepth] at hroom
    have hinner := hroom.mono (Nat.le_add_right _ _)
    refine ⟨hinner, fun x hx => ⟨fun most hmost => mostDigitsOf_le_iff.mp (hdigits most hmost) x hx, ?_⟩⟩
    exact (takes_add_depthOf_iff hinner).mp hroom x hx
  · rintro ⟨hinner, hitems⟩
    refine ⟨fun most hmost => mostDigitsOf_le_iff.mpr fun x hx => (hitems x hx).digits most hmost, ?_⟩
    rw [hdepth]
    exact (takes_add_depthOf_iff hinner).mpr fun x hx => (hitems x hx).room

theorem fitsAt_dict_iff : FitsAt bounds level (.dict entries) ↔
    bounds.room.Takes (level + 1) ∧ ∀ e ∈ entries, e.2.FitsAt bounds (level + 1) := by
  have hlist : FitsAt bounds level (.dict entries) ↔ FitsAt bounds level (.list (entries.map (·.2))) := by
    simp only [fitsAt_iff, mostDigits, depth, mostDigitsIn_eq, depthIn_eq]
  rw [hlist, fitsAt_list_iff, List.forall_mem_map]

end Value

end Wireframe
