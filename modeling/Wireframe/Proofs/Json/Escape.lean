import Wireframe.Json.Reader
import Wireframe.Markup.Literal
import Wireframe.Proofs.Text.Letter

/-! Texts inside literals: which characters they are written with, and that they read back. -/
namespace Wireframe.Json

variable {opening done rest : List Char} {a b c d e x : Char} {n : Nat}

theorem readText_plain (hq : c ≠ '"') (hb : c ≠ '\\') (hc : 32 ≤ c.toNat) :
    readText opening done (c :: rest) = readText opening (c :: done) rest := by
  rw [readText]
  · simp [Nat.not_lt.mpr hc]
  all_goals simp [hq, hb]

theorem readText_short (h : shortEscape? e = some c) :
    readText opening done ('\\' :: e :: rest) = readText opening (c :: done) rest := by
  have hu : e ≠ 'u' := by
    rintro rfl
    cases h
  rw [readText]
  · simp [h]
  all_goals simp [hu]

theorem readText_unit (h : unit? a b c d = some n) (hn : n < 0xd800 ∨ 0xe000 ≤ n) :
    readText opening done ('\\' :: 'u' :: a :: b :: c :: d :: x :: rest)
      = readText opening (Char.ofNat n :: done) (x :: rest) := by
  have hlow : ¬ (0xd800 ≤ n ∧ n < 0xdc00) := by omega
  have hchar : unitChar n = Char.ofNat n := by
    unfold unitChar
    rw [if_neg (by omega)]
  rw [readText, h]
  simp only [hlow, if_false, hchar]

/-- The ways in which a character of a text is written: with a backslash, by its number, or as it is. -/
inductive Written (ascii : Bool) (c : Char) : List Char → Prop
  | short {e : Char} (h : shortEscape? e = some c) (he : e.isAlpha = true ∨ e = '"' ∨ e = '\\') :
      Written ascii c ['\\', e]
  | unit (h : c.toNat < 32 ∨ ascii = true ∧ 126 < c.toNat) : Written ascii c (unitEscape c.toNat)
  | plain (hq : c ≠ '"') (hb : c ≠ '\\') (h : 32 ≤ c.toNat) : Written ascii c [c]

theorem written_escapedChar (ascii : Bool) (c : Char) : Written ascii c (escapedChar ascii c) := by
  unfold escapedChar
  split
  · rename_i hc
    rcases hc with rfl | rfl <;> exact .short rfl (by simp)
  split
  · subst c; exact .short rfl (by decide)
  split
  · subst c; exact .short rfl (by decide)
  split
  · subst c; exact .short rfl (by decide)
  split
  · subst c; exact .short rfl (by decide)
  split
  · subst c; exact .short rfl (by decide)
  split
  · exact .unit ‹_›
  · rename_i hquote _ _ _ _ _ hc
    rw [not_or] at hquote hc
    exact .plain hquote.1 hquote.2 (Nat.le_of_not_lt hc.1)

/-- A way to write characters that each read back where the text goes on. -/
def ReadsBack (f : Char → List Char) : Prop :=
  ∀ opening done rest c x, readText opening done (f c ++ x :: rest)
    = readText opening (c :: done) (x :: rest)

theorem ReadsBack.flatMap {f : Char → List Char} (h : ReadsBack f) (opening done rest s : List Char) :
    readText opening done (s.flatMap f ++ '"' :: rest) = .ok (done.reverse ++ s, rest) := by
  induction s generalizing done with
  | nil => simp [readText]
  | cons c s ih =>
    have hfront : ∃ y ys, s.flatMap f ++ '"' :: rest = y :: ys := by
      cases s.flatMap f <;> simp
    obtain ⟨y, ys, hy⟩ := hfront
    rw [List.flatMap_cons, List.append_assoc, hy, h, ← hy, ih]
    simp

end Wireframe.Json

namespace Wireframe.Markup

variable {c x : Char} {s t r q : List Char}

/-- A character inside a text of a literal. -/
def escape (c : Char) : List Char := (Json.escapedChar false c).flatMap bracketFree

/-- A text as a literal. -/
def spellText (s : List Char) : List Char := '"' :: (s.flatMap escape ++ ['"'])

/-- The three ways in which a character is written. -/
inductive Escaped (c : Char) : List Char → Prop
  | plain (hq : c ≠ '"') (hb : c ≠ '\\') (hl : c ≠ '<') (hg : c ≠ '>') (h : 32 ≤ c.toNat) :
      Escaped c [c]
  | short {e : Char} (h : Json.shortEscape? e = some c)
      (he : e.isAlpha = true ∨ e = '"' ∨ e = '\\') :
      Escaped c ['\\', e]
  | unit {a b : Char} (h : Json.unit? '0' '0' a b = some c.toNat) (hc : c.toNat < 128)
      (ha : a.isAlphanum = true) (hb : b.isAlphanum = true) : Escaped c ['\\', 'u', '0', '0', a, b]

theorem hex_small : ∀ n < 32,
    let high := if n < 16 then '0' else '1'
    let low := Nat.digitChar (n % 16)
    Text.hex 4 n = ['0', '0', high, low] ∧ Json.unit? '0' '0' high low = some n
      ∧ high.isAlphanum = true ∧ low.isAlphanum = true ∧ bracketFree high = [high]
      ∧ bracketFree low = [low] := by
  decide

theorem escaped_escape (c : Char) : Escaped c (escape c) := by
  have hfree {d : Char} (hl : d ≠ '<') (hg : d ≠ '>') : bracketFree d = [d] := by simp [bracketFree, hl, hg]
  have hwritten := Json.written_escapedChar false c
  rw [escape]
  generalize Json.escapedChar false c = s at hwritten
  cases hwritten with
  | @short e h he =>
    have hl : e ≠ '<' := by
      rintro rfl
      cases h
    have hg : e ≠ '>' := by
      rintro rfl
      cases h
    rw [List.flatMap_cons, List.flatMap_singleton, hfree hl hg]
    exact .short h he
  | unit h =>
    have hn : c.toNat < 32 := by simpa using h
    obtain ⟨hhex, hunit, ha, hb, hha, hhb⟩ := hex_small c.toNat hn
    have hshape : (Json.unitEscape c.toNat).flatMap bracketFree = ['\\', 'u', '0', '0',
        (if c.toNat < 16 then '0' else '1'), Nat.digitChar (c.toNat % 16)] := by
      rw [Json.unitEscape, if_pos (by omega), hhex]
      simp only [List.flatMap_cons, List.flatMap_nil, hha, hhb]
      rfl
    rw [hshape]
    exact .unit hunit (by omega) ha hb
  | plain hq hb h =>
    rw [List.flatMap_singleton]
    by_cases hl : c = '<'
    · subst c; exact .unit (by decide) (by decide) (by decide) (by decide)
    by_cases hg : c = '>'
    · subst c; exact .unit (by decide) (by decide) (by decide) (by decide)
    rw [hfree hl hg]
    exact .plain hq hb hl hg h

/-- A written character reads back where the text goes on. -/
theorem readsBack_escape : Json.ReadsBack escape := by
  intro opening done rest c x
  generalize hw : escape c = w
  have h : Escaped c w := hw ▸ escaped_escape c
  cases h with
  | plain hq hb _ _ h => exact Json.readText_plain hq hb h
  | short h _ => exact Json.readText_short h
  | @unit a b h hc _ _ =>
    show Json.readText opening done ('\\' :: 'u' :: '0' :: '0' :: a :: b :: x :: rest) = _
    rw [Json.readText_unit h (by omega), Char.ofNat_toNat]

/-- A literal text ends where it ends, and says which text it is. -/
theorem spellText_cut (h : spellText s ++ r = spellText t ++ q) : s = t ∧ r = q := by
  have htail : s.flatMap escape ++ '"' :: r = t.flatMap escape ++ '"' :: q := by
    simpa [spellText] using h
  have hread := readsBack_escape.flatMap [] [] r s
  rw [htail, readsBack_escape.flatMap] at hread
  simpa [eq_comm] using hread

theorem of_isAlphanum (h : x.isAlphanum = true) : 48 ≤ x.toNat ∧ x ≠ '<' ∧ x ≠ '>' := by
  refine ⟨?_, ?_, ?_⟩
  · exact (Text.toNat_of_isAlphanum h).1
  · rintro rfl
    revert h
    decide
  · rintro rfl
    revert h
    decide

/-- No written character is a control character or an angle bracket. -/
theorem of_mem_escape (h : x ∈ escape c) : 32 ≤ x.toNat ∧ x ≠ '<' ∧ x ≠ '>' := by
  have alphanum (y : Char) (hy : y.isAlphanum = true) : 32 ≤ y.toNat ∧ y ≠ '<' ∧ y ≠ '>' := by
    have := of_isAlphanum hy
    exact ⟨by omega, this.2⟩
  generalize hw : escape c = w at h
  have hc : Escaped c w := hw ▸ escaped_escape c
  cases hc with
  | plain _ _ hl hg hn =>
    obtain rfl : x = c := by simpa using h
    exact ⟨hn, hl, hg⟩
  | short _ he =>
    simp only [List.mem_cons, List.not_mem_nil, or_false] at h
    rcases h with rfl | rfl
    · decide
    · rcases he with he | rfl | rfl
      · exact alphanum x (by simp [Char.isAlphanum, he])
      · decide
      · decide
  | unit _ _ ha hb =>
    simp only [List.mem_cons, List.not_mem_nil, or_false] at h
    rcases h with rfl | rfl | rfl | rfl | rfl | rfl
    · decide
    · decide
    · decide
    · decide
    · exact alphanum _ ha
    · exact alphanum _ hb

theorem of_mem_spellText (h : x ∈ spellText s) : 32 ≤ x.toNat ∧ x ≠ '<' ∧ x ≠ '>' := by
  simp only [spellText, List.mem_cons, List.mem_append, List.mem_flatMap, List.not_mem_nil,
    or_false] at h
  rcases h with rfl | ⟨c, _, h⟩ | rfl
  · decide
  · exact of_mem_escape h
  · decide

end Wireframe.Markup
