import Mathlib.Data.List.Basic
import Wireframe.Proofs.Outcome
import Wireframe.Proofs.Text.Letter
import Wireframe.Text.Utf8

/-! UTF-8: what is encoded is decoded again. -/
namespace Wireframe.Text
open Outcome

variable {c : Char} {bytes rest : List Nat} {v b low high : Nat} {first start following taken : Nat}
variable {value fuel : Nat}

/-- The bytes of the character with a number. -/
def bytesOf (v : Nat) : List Nat :=
  if v ≤ 0x7f then [v]
  else if v ≤ 0x7ff then [v / 64 + 0xc0, v % 64 + 0x80]
  else if v ≤ 0xffff then [v / 4096 + 0xe0, v / 64 % 64 + 0x80, v % 64 + 0x80]
  else [v / 262144 + 0xf0, v / 4096 % 64 + 0x80, v / 64 % 64 + 0x80, v % 64 + 0x80]

theorem map_utf8EncodeChar (c : Char) : (String.utf8EncodeChar c).map UInt8.toNat = bytesOf c.toNat := by
  have hvalid := valid_toNat c
  have hval : c.val.toNat = c.toNat := rfl
  unfold String.utf8EncodeChar bytesOf
  simp only [hval]
  split
  · simp only [List.map_cons, List.map_nil, UInt8.toNat_ofNat', List.cons.injEq, and_true]
    omega
  · split
    · simp only [List.map_cons, List.map_nil, UInt8.toNat_ofNat', List.cons.injEq, and_true]
      omega
    · split <;> simp only [List.map_cons, List.map_nil, UInt8.toNat_ofNat', List.cons.injEq, and_true] <;> omega

theorem toList_loop (bytes : ByteArray) (i : Nat) (done : List UInt8) :
    ByteArray.toList.loop bytes i done = done.reverse ++ bytes.data.toList.drop i := by
  fun_induction ByteArray.toList.loop bytes i done with
  | case1 i done h ih =>
    have hi : i < bytes.data.toList.length := by simpa using h
    rw [ih, List.drop_eq_getElem_cons hi]
    simp [ByteArray.get!, h]
  | case2 i done h =>
    rw [List.drop_eq_nil_of_le (by simpa using Nat.le_of_not_lt h)]
    simp

theorem encodeUtf8_eq (s : List Char) : encodeUtf8 s = s.flatMap fun c => bytesOf c.toNat := by
  have hbytes : (String.ofList s).toUTF8.toList = s.flatMap String.utf8EncodeChar := by
    rw [ByteArray.toList, toList_loop]
    simp [List.utf8Encode]
  rw [encodeUtf8, hbytes, List.map_flatMap]
  exact congrArg (fun f => s.flatMap f) (funext map_utf8EncodeChar)

/-! The first byte of a character that has more than one tells how the others are read. -/

theorem takeContinuation_next (h : low ≤ b ∧ b ≤ high) :
    takeContinuation first start (following + 1) low high taken value (b :: bytes)
      = takeContinuation first start following 0x80 0xbf (taken + 1) (value * 64 + (b - 0x80)) bytes :=
  if_pos h

theorem decodeFrom_first (hfirst : 0x80 ≤ first) (hnext : continuation? first = some (following, low, high))
    (htake : takeContinuation first start following low high 1 (leadingBits first following) bytes
      = .ok (v, rest)) :
    decodeFrom (fuel + 1) start (first :: bytes)
      = (decodeFrom fuel (start + following + 1) rest).map (Char.ofNat v :: ·) := by
  rw [decodeFrom, if_neg (Nat.not_lt.mpr hfirst), hnext]
  simp only [htake, ok_bind]
  cases decodeFrom fuel (start + following + 1) rest <;> rfl

theorem continuation?_two (hlow : 0x7f < v) (hhigh : v ≤ 0x7ff) :
    continuation? (v / 64 + 0xc0) = some (1, 0x80, 0xbf) := by
  rw [continuation?, if_pos (by omega)]

theorem continuation?_three (hlow : 0x7ff < v) (hhigh : v ≤ 0xffff) (hv : v < 0xd800 ∨ 0xdfff < v) :
    ∃ low high, continuation? (v / 4096 + 0xe0) = some (2, low, high)
      ∧ low ≤ v / 64 % 64 + 0x80 ∧ v / 64 % 64 + 0x80 ≤ high := by
  unfold continuation?
  rw [if_neg (by omega)]
  split
  · exact ⟨_, _, rfl, by omega, by omega⟩
  · split
    · exact ⟨_, _, rfl, by omega, by omega⟩
    · rw [if_pos (by omega)]
      exact ⟨_, _, rfl, by omega, by omega⟩

theorem continuation?_four (hlow : 0xffff < v) (hhigh : v < 0x110000) :
    ∃ low high, continuation? (v / 262144 + 0xf0) = some (3, low, high)
      ∧ low ≤ v / 4096 % 64 + 0x80 ∧ v / 4096 % 64 + 0x80 ≤ high := by
  unfold continuation?
  rw [if_neg (by omega), if_neg (by omega), if_neg (by omega), if_neg (by omega)]
  split
  · exact ⟨_, _, rfl, by omega, by omega⟩
  · split
    · exact ⟨_, _, rfl, by omega, by omega⟩
    · rw [if_pos (by omega)]
      exact ⟨_, _, rfl, by omega, by omega⟩

theorem within_last (n : Nat) : 0x80 ≤ n % 64 + 0x80 ∧ n % 64 + 0x80 ≤ 0xbf := by omega

theorem leadingBits_two (n : Nat) : leadingBits (n + 0xc0) 1 = n := Nat.add_sub_cancel ..

theorem leadingBits_three (n : Nat) : leadingBits (n + 0xe0) 2 = n := Nat.add_sub_cancel ..

theorem leadingBits_four (n : Nat) : leadingBits (n + 0xf0) 3 = n := Nat.add_sub_cancel ..

theorem takeContinuation_two (v first start : Nat) (bytes : List Nat) :
    takeContinuation first start 1 0x80 0xbf 1 (leadingBits (v / 64 + 0xc0) 1)
      ((v % 64 + 0x80) :: bytes) = .ok (v, bytes) := by
  rw [leadingBits_two, takeContinuation_next (within_last v), takeContinuation, Nat.add_sub_cancel,
    Nat.div_add_mod']

theorem takeContinuation_three (h : low ≤ v / 64 % 64 + 0x80 ∧ v / 64 % 64 + 0x80 ≤ high)
    (first start : Nat) (bytes : List Nat) :
    takeContinuation first start 2 low high 1 (leadingBits (v / 4096 + 0xe0) 2)
      ((v / 64 % 64 + 0x80) :: (v % 64 + 0x80) :: bytes) = .ok (v, bytes) := by
  have hfront : v / 4096 * 64 + v / 64 % 64 = v / 64 := by omega
  rw [leadingBits_three, takeContinuation_next h, takeContinuation_next (within_last v),
    takeContinuation, Nat.add_sub_cancel, Nat.add_sub_cancel, hfront, Nat.div_add_mod']

theorem takeContinuation_four (h : low ≤ v / 4096 % 64 + 0x80 ∧ v / 4096 % 64 + 0x80 ≤ high)
    (first start : Nat) (bytes : List Nat) :
    takeContinuation first start 3 low high 1 (leadingBits (v / 262144 + 0xf0) 3)
      ((v / 4096 % 64 + 0x80) :: (v / 64 % 64 + 0x80) :: (v % 64 + 0x80) :: bytes) = .ok (v, bytes) := by
  have hfront : v / 262144 * 64 + v / 4096 % 64 = v / 4096 := by omega
  have hmiddle : v / 4096 * 64 + v / 64 % 64 = v / 64 := by omega
  rw [leadingBits_four, takeContinuation_next h, takeContinuation_next (within_last (v / 64)),
    takeContinuation_next (within_last v), takeContinuation, Nat.add_sub_cancel, Nat.add_sub_cancel,
    Nat.add_sub_cancel, hfront, hmiddle, Nat.div_add_mod']

/-- One character is decoded. -/
theorem decodeFrom_bytesOf (c : Char) (bytes : List Nat) (fuel start : Nat) :
    ∃ next, decodeFrom (fuel + 1) start (bytesOf c.toNat ++ bytes)
      = (decodeFrom fuel next bytes).map (c :: ·) := by
  have hvalid := valid_toNat c
  have hc : Char.ofNat c.toNat = c := Char.ofNat_toNat c
  generalize c.toNat = v at *
  subst hc
  unfold bytesOf
  split
  · refine ⟨start + 1, ?_⟩
    rw [List.singleton_append, decodeFrom, if_pos (by omega)]
    cases decodeFrom fuel (start + 1) bytes <;> rfl
  · split
    · have hnext := continuation?_two (v := v) (by omega) (by omega)
      exact ⟨_, decodeFrom_first (by omega) hnext (takeContinuation_two v _ _ _)⟩
    · split
      · obtain ⟨low, high, hnext, hb⟩ := continuation?_three (v := v) (by omega) (by omega) (by omega)
        exact ⟨_, decodeFrom_first (by omega) hnext (takeContinuation_three hb _ _ _)⟩
      · obtain ⟨low, high, hnext, hb⟩ := continuation?_four (v := v) (by omega) (by omega)
        exact ⟨_, decodeFrom_first (by omega) hnext (takeContinuation_four hb _ _ _)⟩

theorem bytesOf_ne_nil (v : Nat) : bytesOf v ≠ [] := by
  unfold bytesOf
  split
  · simp
  · split
    · simp
    · split <;> simp

theorem decodeFrom_encodeUtf8 (s : List Char) (fuel start : Nat) (h : (encodeUtf8 s).length ≤ fuel) :
    decodeFrom fuel start (encodeUtf8 s) = .ok s := by
  rw [encodeUtf8_eq] at h ⊢
  induction s generalizing fuel start with
  | nil => cases fuel <;> rfl
  | cons c s ih =>
    rw [List.flatMap_cons] at h ⊢
    have hone : 0 < (bytesOf c.toNat).length := List.length_pos_of_ne_nil (bytesOf_ne_nil _)
    rw [List.length_append] at h
    obtain ⟨fuel, rfl⟩ : ∃ n, fuel = n + 1 := ⟨fuel - 1, by omega⟩
    obtain ⟨next, hnext⟩ :=
      decodeFrom_bytesOf c (s.flatMap fun c => bytesOf c.toNat) fuel start
    rw [hnext, ih fuel next (by omega)]
    rfl

/-- Encoding loses nothing. -/
theorem decodeUtf8_encodeUtf8 (s : List Char) : decodeUtf8 (encodeUtf8 s) = .ok s :=
  decodeFrom_encodeUtf8 s _ 0 (Nat.le_refl _)

/-- A text without carriage returns has the line ends of a file already. -/
theorem plainLines_eq_self {s : List Char} (h : '\r' ∉ s) : plainLines s = s := by
  induction s with
  | nil => rfl
  | cons c s ih =>
    have hc : c ≠ '\r' := fun hc => h (hc ▸ List.mem_cons_self)
    have hs := ih fun hmem => h (List.mem_cons_of_mem c hmem)
    rw [plainLines, hs]
    · rintro _ rfl
      exact (hc rfl).elim
    · rintro rfl
      exact (hc rfl).elim

end Wireframe.Text
