import Wireframe.Json.Writer
import Wireframe.Proofs.Json.Escape

/-! Every character of a text reads back, whether it is escaped or not. -/
namespace Wireframe.Json

variable {opening done rest : List Char} {a b c d e f g h x y : Char} {n w high low : Nat}

theorem hexValue?_digitChar : ∀ n < 16, hexValue? (Nat.digitChar n) = some n := by decide

/-- One more place takes one more digit. -/
theorem hex_succ (hw : 0 < w) (n : Nat) :
    Text.hex (w + 1) n = Text.hex w (n / 16) ++ [Nat.digitChar (n % 16)] := by
  rw [Text.hex, Text.hex, Nat.toDigits_eq_if (n := n) (by decide)]
  split
  · rename_i hn
    obtain ⟨k, rfl⟩ : ∃ k, w = k + 1 := ⟨w - 1, by omega⟩
    rw [Nat.div_eq_of_lt hn, Nat.mod_eq_of_lt hn, Nat.toDigits_zero]
    simp [List.replicate_succ']
  · rw [List.length_append, List.length_singleton, Nat.add_sub_add_right, List.append_assoc]

/-- The four digits of a unit read back as its number. -/
theorem exists_hex_four (hn : n < 0x10000) :
    ∃ a b c d, Text.hex 4 n = [a, b, c, d] ∧ unit? a b c d = some n := by
  have hlast : Text.hex 1 (n / 16 / 16 / 16) = [Nat.digitChar (n / 16 / 16 / 16)] := by
    rw [Text.hex, Nat.toDigits_of_lt_base (by omega)]
    rfl
  refine ⟨Nat.digitChar (n / 16 / 16 / 16), Nat.digitChar (n / 16 / 16 % 16),
    Nat.digitChar (n / 16 % 16), Nat.digitChar (n % 16), ?_, ?_⟩
  · rw [hex_succ (by decide), hex_succ (by decide), hex_succ (by decide), hlast]
    rfl
  · simp only [unit?, hexValue?_digitChar (n / 16 / 16 / 16) (by omega),
      hexValue?_digitChar (n / 16 / 16 % 16) (by omega), hexValue?_digitChar (n / 16 % 16) (by omega),
      hexValue?_digitChar (n % 16) (by omega)]
    exact congrArg some (by omega)

/-- A pair of units stands for one character. -/
theorem readText_pair (hhigh : unit? a b c d = some high) (hlow : unit? e f g h = some low)
    (hh : 0xd800 ≤ high ∧ high < 0xdc00) (hl : 0xdc00 ≤ low ∧ low < 0xe000) :
    readText opening done
        ('\\' :: 'u' :: a :: b :: c :: d :: '\\' :: 'u' :: e :: f :: g :: h :: y :: rest)
      = readText opening (Char.ofNat (0x10000 + (high - 0xd800) * 0x400 + (low - 0xdc00)) :: done)
          (y :: rest) := by
  rw [readText, hhigh]
  simp only [hh, and_self, if_true, hlow, hl]

/-- The escape of a character by its number. -/
theorem readText_unitEscape (opening done rest : List Char) (c y : Char) :
    readText opening done (unitEscape c.toNat ++ y :: rest)
      = readText opening (c :: done) (y :: rest) := by
  have hvalid := Text.valid_toNat c
  rw [unitEscape]
  split
  · rename_i hn
    obtain ⟨a, b, e, d, hhex, hunit⟩ := exists_hex_four hn
    rw [hhex]
    show readText opening done ('\\' :: 'u' :: a :: b :: e :: d :: y :: rest) = _
    rw [readText_unit hunit (by omega), Char.ofNat_toNat]
  · rename_i hn
    obtain ⟨a, b, e, d, hhex, hunit⟩ := exists_hex_four (n := 0xd800 + (c.toNat - 0x10000) / 0x400)
      (by omega)
    obtain ⟨a', b', e', d', hhex', hunit'⟩ :=
      exists_hex_four (n := 0xdc00 + (c.toNat - 0x10000) % 0x400) (by omega)
    have hsum : 0x10000 + (0xd800 + (c.toNat - 0x10000) / 0x400 - 0xd800) * 0x400
        + (0xdc00 + (c.toNat - 0x10000) % 0x400 - 0xdc00) = c.toNat := by omega
    dsimp only
    rw [hhex, hhex']
    show readText opening done ('\\' :: 'u' :: a :: b :: e :: d :: '\\' :: 'u' :: a' :: b' :: e' :: d'
      :: y :: rest) = _
    rw [readText_pair hunit hunit' (by omega) (by omega), hsum, Char.ofNat_toNat]

/-- A written character reads back where the text goes on. -/
theorem readsBack_escapedChar (ascii : Bool) : ReadsBack (escapedChar ascii) := by
  intro opening done rest c x
  have hwritten := written_escapedChar ascii c
  generalize escapedChar ascii c = s at hwritten ⊢
  cases hwritten with
  | short h _ => exact readText_short h
  | unit _ => exact readText_unitEscape opening done rest c x
  | plain hq hb h => exact readText_plain hq hb h

/-- A quoted text reads back. -/
theorem readText_quotedText (ascii : Bool) (opening rest s : List Char) :
    readText opening [] (s.flatMap (escapedChar ascii) ++ '"' :: rest) = .ok (s, rest) :=
  (readsBack_escapedChar ascii).flatMap opening [] rest s

end Wireframe.Json
