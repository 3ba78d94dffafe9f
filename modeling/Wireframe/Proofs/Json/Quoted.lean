import Wireframe.Proofs.Json.Digits
import Wireframe.Proofs.Json.Escape
import Wireframe.Proofs.Json.Units

/-! Texts in quotes: which characters may stand in one, and that they stand for the same characters wherever
the text stands. -/
namespace Wireframe.Json

variable {s t rest raw chars opening done : List Char}

/-- What may stand between the quotes of a text. -/
inductive Quoted : List Char → Prop
  | nil : Quoted []
  | plain {c : Char} {s : List Char} :
      c ≠ '"' → c ≠ '\\' → 32 ≤ c.toNat → Quoted s → Quoted (c :: s)
  | short {c e : Char} {s : List Char} : shortEscape? c = some e → Quoted s → Quoted ('\\' :: c :: s)
  | unit {a b c d : Char} {n : Nat} {s : List Char} :
      unit? a b c d = some n → Quoted s → Quoted ('\\' :: 'u' :: a :: b :: c :: d :: s)

/-- The four digits of a unit are no character that is no hexadecimal digit. -/
theorem ne_of_unit {a b c d x : Char} {n : Nat} (h : unit? a b c d = some n) (hx : hexValue? x = none) :
    a ≠ x ∧ b ≠ x ∧ c ≠ x ∧ d ≠ x := by
  have hdigit {y : Char} {k : Nat} (hy : hexValue? y = some k) : y ≠ x := by
    rintro rfl
    rw [hx] at hy
    cases hy
  simp only [unit?, Option.bind_eq_bind, Option.bind_eq_some_iff] at h
  obtain ⟨_, ha, _, hb, _, hc, _, hd, -⟩ := h
  exact ⟨hdigit ha, hdigit hb, hdigit hc, hdigit hd⟩

theorem Quoted.ne_newline (h : Quoted raw) : ∀ c ∈ raw, c ≠ '\n' := by
  induction h with
  | nil => nofun
  | plain _ _ hc _ ih =>
    rw [List.forall_mem_cons]
    refine ⟨?_, ih⟩
    rintro rfl
    exact absurd hc (by decide)
  | short he _ ih =>
    simp only [List.forall_mem_cons]
    refine ⟨by decide, ?_, ih⟩
    rintro rfl
    cases he
  | unit hunit _ ih =>
    obtain ⟨ha, hb, hc, hd⟩ := ne_of_unit (x := '\n') hunit (by decide)
    simp only [List.forall_mem_cons]
    exact ⟨by decide, by decide, ha, hb, hc, hd, ih⟩

theorem quoted_of_readText (h : readText opening done s = .ok (t, rest)) :
    ∃ raw, s = raw ++ '"' :: rest ∧ Quoted raw := by
  fun_induction readText opening done s with
  | case1 | case3 | case4 | case5 | case10 | case12 | case13 => cases h
  | case2 done rest =>
    cases h
    exact ⟨[], rfl, .nil⟩
  | case6 _ _ _ _ _ _ hhigh _ _ _ _ _ _ _ _ hlow _ _ ih =>
    obtain ⟨raw, hs, hraw⟩ := ih h
    exact ⟨_, by rw [hs]; rfl, .unit hhigh (.unit hlow hraw)⟩
  | case7 _ _ _ _ _ _ hhigh _ _ _ _ _ _ _ _ _ _ ih =>
    obtain ⟨raw, hs, hraw⟩ := ih h
    exact ⟨_, by rw [hs]; rfl, .unit hhigh hraw⟩
  | case8 _ _ _ _ _ _ hhigh _ _ _ _ ih =>
    obtain ⟨raw, hs, hraw⟩ := ih h
    exact ⟨_, by rw [hs]; rfl, .unit hhigh hraw⟩
  | case9 _ _ _ _ _ _ _ _ hhigh _ ih =>
    obtain ⟨raw, hs, hraw⟩ := ih h
    exact ⟨_, by rw [hs]; rfl, .unit hhigh hraw⟩
  | case11 _ _ _ _ _ _ he ih =>
    obtain ⟨raw, hs, hraw⟩ := ih h
    exact ⟨_, by rw [hs]; rfl, .short he hraw⟩
  | case14 _ c s hquote hlast _ _ hescape hc ih =>
    obtain ⟨raw, hs, hraw⟩ := ih h
    have hslash : c ≠ '\\' := by
      intro heq
      cases s with
      | nil => exact hlast heq rfl
      | cons d s => exact hescape d s heq rfl
    exact ⟨_, by rw [hs]; rfl, .plain hquote hslash (Nat.not_lt.mp hc) hraw⟩

/-- A text between quotes and what it stands for. -/
structure Means (raw chars : List Char) : Prop where
  quoted : Quoted raw
  reads : ∀ opening done rest, readText opening done (raw ++ '"' :: rest) = .ok (done.reverse ++ chars, rest)

/-- A unit that no other half of a pair follows stands for one character. -/
theorem readText_alone {a b c d x : Char} {n : Nat} (hunit : unit? a b c d = some n)
    (h : 0xd800 ≤ n ∧ n < 0xdc00 → ∀ e f g h y more, x = '\\' → s = 'u' :: e :: f :: g :: h :: y :: more →
      ∃ low, unit? e f g h = some low ∧ ¬ (0xdc00 ≤ low ∧ low < 0xe000)) :
    readText opening done ('\\' :: 'u' :: a :: b :: c :: d :: x :: s)
      = readText opening (unitChar n :: done) (x :: s) := by
  rw [readText, hunit]
  dsimp only
  split
  · rename_i hhigh
    split
    · obtain ⟨low, hlow, halone⟩ := h hhigh _ _ _ _ _ _ rfl rfl
      rw [hlow]
      exact if_neg halone
    · rfl
  · rfl

theorem exists_means (h : Quoted raw) : ∃ chars, Means raw chars := by
  suffices hread : ∃ chars, ∀ opening done rest,
      readText opening done (raw ++ '"' :: rest) = .ok (done.reverse ++ chars, rest) from
    hread.imp fun _ hread => ⟨h, hread⟩
  have hnext (e : Char) {chars s t : List Char} (hs : ∀ opening done rest,
      readText opening done (s ++ '"' :: rest) = .ok (done.reverse ++ chars, rest))
      (hstep : ∀ opening done rest, readText opening done (t ++ '"' :: rest)
        = readText opening (e :: done) (s ++ '"' :: rest)) :
      ∃ chars, ∀ opening done rest,
        readText opening done (t ++ '"' :: rest) = .ok (done.reverse ++ chars, rest) := by
    refine ⟨e :: chars, fun opening done rest => ?_⟩
    rw [hstep, hs, List.reverse_cons, List.append_assoc]
    rfl
  induction hn : raw.length using Nat.strongRecOn generalizing raw with
  | ind n ih =>
    subst hn
    cases h with
    | nil => exact ⟨[], fun opening done rest => by rw [List.nil_append, readText, List.append_nil]⟩
    | @plain c s hquote hslash hc hs =>
      obtain ⟨chars, hread⟩ := ih _ (Nat.lt_succ_self _) hs rfl
      exact hnext c hread fun opening done rest => readText_plain hquote hslash hc
    | @short c e s he hs =>
      obtain ⟨chars, hread⟩ := ih s.length (by simp only [List.length_cons]; omega) hs rfl
      exact hnext e hread fun opening done rest => readText_short he
    | @unit a b c d n s hunit hs =>
      obtain ⟨chars, hread⟩ := ih s.length (by simp only [List.length_cons]; omega) hs rfl
      by_cases hpair : (0xd800 ≤ n ∧ n < 0xdc00) ∧ ∃ e f g h low more,
          s = '\\' :: 'u' :: e :: f :: g :: h :: more ∧ unit? e f g h = some low ∧ 0xdc00 ≤ low ∧ low < 0xe000
      · obtain ⟨hhigh, e, f, g, h, low, more, rfl, hlow, hrange⟩ := hpair
        have hmore : Quoted more := by
          cases hs with
          | plain _ hslash _ _ => exact (hslash rfl).elim
          | short hshort _ => cases hshort
          | unit _ hmore => exact hmore
        obtain ⟨chars, hread⟩ := ih more.length (by simp only [List.length_cons]; omega) hmore rfl
        refine hnext (Char.ofNat (0x10000 + (n - 0xd800) * 0x400 + (low - 0xdc00))) hread
          fun opening done rest => ?_
        obtain ⟨y, ys, hy⟩ : ∃ y ys, more ++ '"' :: rest = y :: ys := by cases more <;> simp
        simp only [List.cons_append, hy]
        exact readText_pair hunit hlow hhigh hrange
      · refine hnext (unitChar n) hread fun opening done rest => ?_
        obtain ⟨y, ys, hy⟩ : ∃ y ys, s ++ '"' :: rest = y :: ys := by cases s <;> simp
        simp only [List.cons_append, hy]
        refine readText_alone hunit fun hhigh e f g h z more hslash hys => ?_
        subst hslash hys
        cases hs with
        | nil => cases hy
        | plain _ hslash _ _ => exact (hslash (List.cons.inj hy).1).elim
        | short hshort _ =>
          simp only [List.cons_append, List.cons.injEq] at hy
          rw [hy.2.1] at hshort
          cases hshort
        | @unit e' f' g' h' low s' hlow _ =>
          simp only [List.cons_append, List.cons.injEq] at hy
          obtain ⟨-, -, rfl, rfl, rfl, rfl, -⟩ := hy
          exact ⟨low, hlow, fun hrange => hpair ⟨hhigh, e', f', g', h', low, s', rfl, hlow, hrange⟩⟩

theorem exists_means_of_readText (h : readText opening [] s = .ok (chars, rest)) :
    ∃ raw, s = raw ++ '"' :: rest ∧ Means raw chars := by
  obtain ⟨raw, rfl, hraw⟩ := quoted_of_readText h
  obtain ⟨chars', hmeans⟩ := exists_means hraw
  rw [hmeans.reads] at h
  cases h
  exact ⟨raw, rfl, hmeans⟩

end Wireframe.Json
