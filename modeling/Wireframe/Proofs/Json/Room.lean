import Wireframe.Json.Room

/-! How many containers inside each other there is room for, for a reader that takes room from the outside to
the inside and for a writer that counts the containers around one. -/
namespace Wireframe.Json.Room

variable {room inner : Room} {m n level : Nat}

/-- Room for so many containers inside each other. -/
def Takes : Room → Nat → Prop
  | unbounded, _ => True
  | levels count, n => n ≤ count

theorem takes_unbounded (n : Nat) : unbounded.Takes n := trivial

theorem takes_zero (room : Room) : room.Takes 0 := by
  cases room with
  | unbounded => trivial
  | levels count => exact Nat.zero_le count

theorem Takes.mono (h : room.Takes n) (hmn : m ≤ n) : room.Takes m := by
  cases room with
  | unbounded => trivial
  | levels count => exact Nat.le_trans hmn h

theorem takes_max_iff : room.Takes (max m n) ↔ room.Takes m ∧ room.Takes n := by
  cases room with
  | unbounded => simp [Takes]
  | levels count => exact Nat.max_le

/-- One container takes one level of the room. -/
theorem takes_succ_iff : room.Takes (n + 1) ↔ ∃ inner, room.inner? = some inner ∧ inner.Takes n := by
  cases room with
  | unbounded => simp [Takes, inner?]
  | levels count =>
    cases count with
    | zero => simp [Takes, inner?]
    | succ count => simp [Takes, inner?]

theorem takes_inner_iff (h : room.inner? = some inner) : inner.Takes n ↔ room.Takes (n + 1) := by
  rw [takes_succ_iff, h]
  simp

theorem holds_iff : room.holds level = true ↔ room.Takes (level + 1) := by
  cases room with
  | unbounded => exact iff_of_true rfl trivial
  | levels count => exact decide_eq_true_iff

instance (room : Room) (n : Nat) : Decidable (room.Takes n) :=
  match room with
  | unbounded => isTrue trivial
  | levels count => inferInstanceAs (Decidable (n ≤ count))

end Wireframe.Json.Room
