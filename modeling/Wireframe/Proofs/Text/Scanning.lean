import Mathlib.Data.List.TakeDrop
import Mathlib.Data.List.TakeWhile
import Wireframe.Text.Scan

/-! Scanning a text piece by piece. -/
namespace Wireframe.Text

variable {α : Type} {r : Recogniser α} {a b s t rest : List Char} {before : Option Char} {c : Char}
variable {x : α} {p : Char → Bool}

@[simp] theorem after?_append (a s : List Char) : after? a (a ++ s) = some s := by
  induction a with
  | nil => rfl
  | cons c a ih => simpa [after?] using ih

theorem after?_eq_some_iff : after? a s = some rest ↔ s = a ++ rest := by
  constructor
  · intro h
    induction a generalizing s with
    | nil => simpa [after?] using h
    | cons c a ih =>
      cases s with
      | nil => cases h
      | cons d s =>
        by_cases hcd : c = d
        · subst d
          rw [after?, if_pos rfl] at h
          rw [ih h]
          rfl
        · rw [after?, if_neg hcd] at h
          cases h
  · rintro rfl
    exact after?_append a rest

/-- The last character read, when `before` came in front. -/
def lastRead (before : Option Char) (s : List Char) : Option Char :=
  s.foldl (fun _ c => some c) before

theorem lastRead_concat (before : Option Char) (s : List Char) (c : Char) :
    lastRead before (s ++ [c]) = some c := by
  simp [lastRead]

/-- Characters that belong to a find are passed over. -/
theorem findFrom_skip (r : Recogniser α) (before : Option Char) (s rest : List Char) :
    findFrom r before s.length (s ++ rest) = findFrom r (lastRead before s) 0 rest := by
  induction s generalizing before with
  | nil => rfl
  | cons c s ih => exact ih (some c)

theorem replaceFrom_skip (r : Recogniser (List Char)) (before : Option Char) (s rest : List Char) :
    replaceFrom r before s.length (s ++ rest) = replaceFrom r (lastRead before s) 0 rest := by
  induction s generalizing before with
  | nil => rfl
  | cons c s ih => exact ih (some c)

theorem findFrom_hit (h : r before (c :: (s ++ rest)) = some (x, rest)) :
    findFrom r before 0 (c :: (s ++ rest)) = x :: findFrom r (lastRead (some c) s) 0 rest := by
  have hlen : (s ++ rest).length - rest.length = s.length := by
    rw [List.length_append]
    omega
  rw [findFrom, h]
  simp only [hlen, findFrom_skip]

theorem findFrom_miss (h : r before (c :: s) = none) :
    findFrom r before 0 (c :: s) = findFrom r (some c) 0 s := by
  rw [findFrom, h]

/-- Each find was accepted somewhere in the text. -/
theorem exists_of_mem_findFrom {skip : Nat} (h : x ∈ findFrom r before skip s) :
    ∃ front behind rest, s = front ++ behind ∧ r (lastRead before front) behind = some (x, rest) := by
  induction s generalizing before skip with
  | nil => cases skip <;> cases h
  | cons c s ih =>
    have hlater {skip : Nat} (h : x ∈ findFrom r (some c) skip s) : ∃ front behind rest,
        c :: s = front ++ behind ∧ r (lastRead before front) behind = some (x, rest) := by
      obtain ⟨front, behind, rest, rfl, hr⟩ := ih h
      exact ⟨c :: front, behind, rest, rfl, hr⟩
    cases skip with
    | succ skip => exact hlater h
    | zero =>
      rw [findFrom] at h
      split at h
      · rename_i y rest hy
        rcases List.mem_cons.mp h with rfl | h
        · exact ⟨[], c :: s, rest, rfl, hy⟩
        · exact hlater h
      · exact hlater h

/-- What is accepted somewhere in a text leaves a find in it, this one or one in its way. -/
theorem findAll_ne_nil {front : List Char} (h : (r (lastRead none front) (c :: s)).isSome = true) :
    findAll r (front ++ c :: s) ≠ [] := by
  suffices hfrom : ∀ before, (r (lastRead before front) (c :: s)).isSome = true →
      findFrom r before 0 (front ++ c :: s) ≠ [] from hfrom none h
  clear h
  induction front with
  | nil =>
    intro before h
    obtain ⟨⟨y, rest⟩, hy⟩ := Option.isSome_iff_exists.mp h
    rw [List.nil_append, findFrom, show r before (c :: s) = some (y, rest) from hy]
    exact List.cons_ne_nil _ _
  | cons d front ih =>
    intro before h
    cases hd : r before (d :: (front ++ c :: s)) with
    | none =>
      rw [List.cons_append, findFrom_miss hd]
      exact ih (some d) h
    | some found =>
      rw [List.cons_append, findFrom, hd]
      exact List.cons_ne_nil _ _

/-- What is accepted somewhere in a text is found, unless a find that starts before reaches into it. -/
theorem mem_findAll {front : List Char} (h : r (lastRead none front) (c :: s) = some (x, rest))
    (hfree : ∀ u v y rest', front = u ++ v → v ≠ [] → r (lastRead none u) (v ++ c :: s) = some (y, rest') →
      (c :: s).length ≤ rest'.length) : x ∈ findAll r (front ++ c :: s) := by
  have hfrom (u v : List Char) (skip : Nat) (hfront : front = u ++ v) (hskip : skip ≤ v.length) :
      x ∈ findFrom r (lastRead none u) skip (v ++ c :: s) := by
    induction v generalizing u skip with
    | nil =>
      obtain rfl : skip = 0 := Nat.le_zero.mp hskip
      obtain rfl : front = u := by simpa using hfront
      rw [List.nil_append, findFrom, h]
      exact List.mem_cons_self
    | cons d v ih =>
      have hnext (skip : Nat) (hle : skip ≤ v.length) :
          x ∈ findFrom r (some d) skip (v ++ c :: s) := by
        have htail := ih (u ++ [d]) skip (by simp [hfront]) hle
        rwa [lastRead_concat] at htail
      cases skip with
      | succ skip => exact hnext skip (Nat.le_of_succ_le_succ hskip)
      | zero =>
        rw [List.cons_append, findFrom]
        split
        · rename_i y rest' hy
          have hleft := hfree u (d :: v) y rest' hfront (List.cons_ne_nil d v) hy
          refine List.mem_cons_of_mem _ (hnext _ ?_)
          rw [List.length_append]
          omega
        · exact hnext 0 (Nat.zero_le _)
  exact hfrom [] front 0 rfl (Nat.zero_le _)

/-- Where nothing is found in front, a search goes on behind it. -/
theorem search_append (h : ∀ x y, a = x ++ y → y ≠ [] → r (lastRead before x) (y ++ b) = none) :
    search r before (a ++ b)
      = (search r (lastRead before a) b).map fun (front, x, rest) => (a ++ front, x, rest) := by
  induction a generalizing before with
  | nil =>
    show search r before b = (search r before b).map _
    cases search r before b <;> rfl
  | cons c a ih =>
    have hmiss : r before (c :: (a ++ b)) = none := h [] (c :: a) rfl (by simp)
    have htail : ∀ x y, a = x ++ y → y ≠ [] → r (lastRead (some c) x) (y ++ b) = none :=
      fun x y hxy hy => h (c :: x) y (by rw [hxy]; rfl) hy
    rw [List.cons_append, search, hmiss]
    simp only [ih htail]
    show _ = (search r (lastRead (some c) a) b).map _
    cases search r (lastRead (some c) a) b <;> rfl

theorem search_hit (h : r before (c :: s) = some (x, rest)) :
    search r before (c :: s) = some ([], x, rest) := by
  rw [search, h]

/-- A search finds nothing exactly where nothing is to be found anywhere. -/
theorem search_eq_none_iff :
    search r before s = none ↔ ∀ x y, s = x ++ y → r (lastRead before x) y = none := by
  constructor
  · intro h x y hxy
    induction x generalizing before s with
    | nil =>
      obtain rfl : s = y := hxy
      cases s with
      | nil => exact Option.map_eq_none_iff.mp h
      | cons c s =>
        rw [search] at h
        split at h
        · cases h
        · assumption
    | cons c x ih =>
      subst hxy
      rw [List.cons_append, search] at h
      split at h
      · cases h
      · exact ih (Option.map_eq_none_iff.mp h) rfl
  · intro h
    rw [← List.append_nil s, search_append fun x y hxy _ => by rw [List.append_nil]; exact h x y hxy, search,
      h s [] (List.append_nil s).symm]
    rfl

theorem occurs_iff : occurs r s = true ↔ ∃ x y, s = x ++ y ∧ (r (lastRead none x) y).isSome = true := by
  rw [← not_iff_not, occurs, Bool.not_eq_true, Option.isSome_eq_false_iff, Option.isNone_iff_eq_none,
    search_eq_none_iff]
  simp only [not_exists, not_and, Bool.not_eq_true, Option.isSome_eq_false_iff, Option.isNone_iff_eq_none]

/-- There are no finds in a text just where nothing occurs in it. -/
theorem findAll_eq_nil_iff (hnil : ∀ before, r before [] = none) : findAll r s = [] ↔ occurs r s = false := by
  rw [← not_iff_not, Bool.not_eq_false, occurs_iff]
  constructor
  · intro hne
    obtain ⟨found, hfound⟩ := List.exists_mem_of_ne_nil _ hne
    obtain ⟨front, behind, rest, rfl, hread⟩ := exists_of_mem_findFrom hfound
    exact ⟨front, behind, rfl, by rw [hread]; rfl⟩
  · rintro ⟨front, behind, rfl, hread⟩
    cases behind with
    | nil =>
      rw [hnil] at hread
      cases hread
    | cons c behind => exact findAll_ne_nil hread

/-- Where nothing is found, nothing is replaced. -/
theorem replaceFrom_of_absent {r : Recogniser (List Char)}
    (h : ∀ x y, s = x ++ y → r (lastRead before x) y = none) : replaceFrom r before 0 s = s := by
  induction s generalizing before with
  | nil => rfl
  | cons c s ih =>
    have hmiss : r before (c :: s) = none := h [] (c :: s) rfl
    rw [replaceFrom, hmiss]
    exact congrArg (c :: ·) (ih fun x y hxy => h (c :: x) y (by rw [hxy]; rfl))

/-- Nor is anything replaced in front of where the finds begin. -/
theorem replaceFrom_append {r : Recogniser (List Char)}
    (h : ∀ x y, a = x ++ y → y ≠ [] → r (lastRead before x) (y ++ b) = none) :
    replaceFrom r before 0 (a ++ b) = a ++ replaceFrom r (lastRead before a) 0 b := by
  induction a generalizing before with
  | nil => rfl
  | cons c a ih =>
    have hmiss : r before (c :: (a ++ b)) = none := h [] (c :: a) rfl (List.cons_ne_nil c a)
    rw [List.cons_append, replaceFrom, hmiss]
    exact congrArg (c :: ·) (ih fun x y hxy hy => h (c :: x) y (by rw [hxy]; rfl) hy)

/-- A find in a text: where it stands, its own text, the answer and what comes behind. -/
def FoundAt (r : Recogniser α) (s : List Char) (i : Nat) (own : List Char) (x : α) (rest : List Char) : Prop :=
  ∃ front, front.length = i ∧ s = front ++ (own ++ rest) ∧
    r (lastRead none front) (own ++ rest) = some (x, rest)

/-- What is found in one text is found at the same place in another one. -/
def FindsMatch (r : Recogniser α) (s t : List Char) : Prop :=
  ∀ i own x rest, FoundAt r s i own x rest → ∃ rest', FoundAt r t i own x rest'

theorem FindsMatch.answer (h : FindsMatch r s t) (hlen : s.length = t.length)
    (hrest : ∀ before s x rest, r before s = some (x, rest) → rest <:+ s)
    {front front' : List Char} (hs : s = front ++ a) (ht : t = front' ++ b)
    (hfront : front.length = front'.length) (hfound : r (lastRead none front) a = some (x, rest)) :
    ∃ rest', r (lastRead none front') b = some (x, rest') ∧ rest'.length = rest.length := by
  obtain ⟨own, rfl⟩ := hrest _ _ _ _ hfound
  obtain ⟨rest', front'', hlen', ht', hfound'⟩ := h _ own x rest ⟨front, rfl, hs, hfound⟩
  obtain ⟨rfl, rfl⟩ := List.append_inj (ht.symm.trans ht') (by omega)
  refine ⟨rest', hfound', ?_⟩
  subst hs ht
  simp only [List.length_append] at hlen
  omega

/-- Texts of one length with the same finds at the same places have the same finds in order. -/
theorem findAll_eq_of_findsMatch (hlen : s.length = t.length)
    (hrest : ∀ before s x rest, r before s = some (x, rest) → rest <:+ s) (hst : FindsMatch r s t)
    (hts : FindsMatch r t s) : findAll r s = findAll r t := by
  have hfrom (skip : Nat) (front front' a b : List Char) (hs : s = front ++ a) (ht : t = front' ++ b)
      (hfront : front.length = front'.length) :
      findFrom r (lastRead none front) skip a = findFrom r (lastRead none front') skip b := by
    induction a generalizing skip front front' b with
    | nil =>
      have hb : b = [] := List.eq_nil_of_length_eq_zero (by subst hs ht; simp at hlen; omega)
      subst hb
      cases skip <;> rfl
    | cons c a ih =>
      cases b with
      | nil =>
        subst hs ht
        simp at hlen
        omega
      | cons d b =>
        have hnext (skip : Nat) : findFrom r (some c) skip a = findFrom r (some d) skip b := by
          have htail := ih skip (front ++ [c]) (front' ++ [d]) b (by simp [hs]) (by simp [ht]) (by simp [hfront])
          rwa [lastRead_concat, lastRead_concat] at htail
        have hab : a.length = b.length := by
          subst hs ht
          simp only [List.length_append, List.length_cons] at hlen
          omega
        cases skip with
        | succ skip => exact hnext skip
        | zero =>
          cases hc : r (lastRead none front) (c :: a) with
          | some found =>
            obtain ⟨x, rest⟩ := found
            obtain ⟨rest', hd, hlength⟩ := hst.answer hlen hrest hs ht hfront hc
            rw [findFrom, findFrom, hc, hd]
            simp only [hlength, hab, hnext]
          | none =>
            cases hd : r (lastRead none front') (d :: b) with
            | some found =>
              obtain ⟨rest', hc', -⟩ := hts.answer hlen.symm hrest ht hs hfront.symm hd
              rw [hc] at hc'
              cases hc'
            | none => rw [findFrom_miss hc, findFrom_miss hd, hnext]
  exact hfrom 0 [] [] s t rfl rfl rfl

theorem dropWhile_of_head? (h : ∀ c ∈ s.head?, p c = false) : s.dropWhile p = s := by
  cases s with
  | nil => rfl
  | cons c s => rw [List.dropWhile_cons_of_neg (by simp [h c rfl])]

theorem trimStart_append (ha : ∀ c ∈ a, isBlank c = true) (hs : ∀ c ∈ s.head?, isBlank c = false) :
    trimStart (a ++ s) = s := by
  rw [trimStart, List.dropWhile_append_of_pos ha, dropWhile_of_head? hs]

theorem exists_trimStart (s : List Char) : ∃ b, s = b ++ trimStart s ∧ ∀ c ∈ b, isBlank c = true :=
  ⟨s.takeWhile isBlank, List.takeWhile_append_dropWhile.symm, fun _ hc => List.mem_takeWhile_imp hc⟩

/-- A sign behind blanks. -/
theorem after?_trimStart_eq_some_iff {sign : Char} (hsign : isBlank sign = false) :
    after? [sign] (trimStart s) = some rest ↔
      ∃ gap, (∀ c ∈ gap, isBlank c = true) ∧ s = gap ++ sign :: rest := by
  constructor
  · intro h
    obtain ⟨gap, hs, hgap⟩ := exists_trimStart s
    exact ⟨gap, hgap, by rw [hs, after?_eq_some_iff.mp h]; rfl⟩
  · rintro ⟨gap, hgap, rfl⟩
    rw [trimStart_append hgap (by simpa using hsign)]
    exact after?_append [sign] rest

theorem span_append (ha : ∀ c ∈ a, p c = true) (hb : ∀ c ∈ b.head?, p c = false) :
    (a ++ b).span p = (a, b) := by
  rw [List.span_eq_takeWhile_dropWhile, List.takeWhile_append_of_pos ha,
    List.dropWhile_append_of_pos ha, dropWhile_of_head? hb]
  cases b with
  | nil => simp
  | cons c b => simp [hb c rfl]

theorem splitNewlines_ne_nil (s : List Char) : splitNewlines s ≠ [] := by
  unfold splitNewlines
  split
  · simp
  · simp
  · split <;> simp

theorem splitNewlines_newline (s : List Char) :
    splitNewlines ('\n' :: s) = [] :: splitNewlines s := rfl

/-- A text cut at a newline. -/
theorem splitNewlines_append (s t : List Char) :
    splitNewlines (s ++ '\n' :: t) = splitNewlines s ++ splitNewlines t := by
  induction s with
  | nil => rfl
  | cons c s ih =>
    by_cases hc : c = '\n'
    · subst c
      rw [List.cons_append, splitNewlines, splitNewlines, ih]
      rfl
    · rw [List.cons_append, splitNewlines, splitNewlines, ih]
      · cases hs : splitNewlines s with
        | nil => exact (splitNewlines_ne_nil s hs).elim
        | cons first others => rfl
      · exact hc
      · exact hc

theorem exists_splitNewlines_append (h : ∀ c ∈ s, c ≠ '\n') (t : List Char) :
    ∃ first others, splitNewlines t = first :: others
      ∧ splitNewlines (s ++ t) = (s ++ first) :: others := by
  induction s with
  | nil =>
    obtain ⟨first, others, ht⟩ := List.exists_cons_of_ne_nil (splitNewlines_ne_nil t)
    exact ⟨first, others, ht, ht⟩
  | cons c s ih =>
    obtain ⟨first, others, ht, hst⟩ := ih fun d hd => h d (List.mem_cons_of_mem _ hd)
    refine ⟨first, others, ht, ?_⟩
    rw [List.cons_append, splitNewlines, hst]
    · rfl
    · exact h c List.mem_cons_self

theorem splitNewlines_of_free (h : ∀ c ∈ s, c ≠ '\n') : splitNewlines s = [s] := by
  obtain ⟨first, others, hnil, hs⟩ := exists_splitNewlines_append h []
  cases hnil
  simpa using hs

end Wireframe.Text
