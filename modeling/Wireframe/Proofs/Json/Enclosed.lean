import Wireframe.Proofs.Json.Fences
import Wireframe.Proofs.Text.Pieces
import Wireframe.Proofs.Text.Splitting
import Wireframe.Provider.Fence

/-! Texts between fences, and where fences stand in a JSON text: between its quotes, if anywhere. -/
namespace Wireframe.Json
open Text

variable {s t a b front behind inner rest : List Char} {before : Option Char} {v : Value} {p : Part}
variable {room : Room}

/-- The first text between two fences, and what follows it. -/
def fencedPair? (s : List Char) : Option (List Char × List Char) := do
  let (_, behind) ← splitAt? fence s
  splitAt? fence behind

theorem of_fencedPair?_eq_some (h : fencedPair? s = some (inner, rest)) :
    ∃ front behind, splitAt? fence s = some (front, behind) ∧ splitAt? fence behind = some (inner, rest)
      ∧ s = front ++ (fence ++ behind) ∧ behind = inner ++ (fence ++ rest) := by
  obtain ⟨⟨front, behind⟩, hopen, hclose⟩ := Option.bind_eq_some_iff.mp h
  exact ⟨front, behind, hopen, hclose, (of_splitAt?_eq_some hopen).1, (of_splitAt?_eq_some hclose).1⟩

/-- The texts between fences: one fence opens each of them, and the next one closes it. -/
def betweenFences (s : List Char) : List (List Char) :=
  match _h : fencedPair? s with
  | none => []
  | some (inner, rest) => inner :: betweenFences rest
termination_by s.length
decreasing_by
  obtain ⟨_, _, -, -, rfl, rfl⟩ := of_fencedPair?_eq_some _h
  simp [fence]
  omega

theorem betweenFences_of_none (h : fencedPair? s = none) : betweenFences s = [] := by
  rw [betweenFences]
  split
  · rfl
  · rename_i hpair
    rw [h] at hpair
    cases hpair

theorem betweenFences_of_some (h : fencedPair? s = some (inner, rest)) :
    betweenFences s = inner :: betweenFences rest := by
  rw [betweenFences]
  split
  · rename_i hpair
    rw [h] at hpair
    cases hpair
  · rename_i hpair
    rw [h] at hpair
    cases hpair
    rfl

theorem betweenFences_of_free (h : ¬ fence <:+: s) : betweenFences s = [] := by
  refine betweenFences_of_none ?_
  rw [fencedPair?, splitAt?_eq_none_iff.mpr h]
  rfl

/-- A text without the label of a fence. -/
def unlabelled (s : List Char) : List Char := (after? "json".toList s).getD s

/-- What has no backtick in it stands in front of the next fence. -/
theorem splitAt?_fence_of_ne (ha : ∀ c ∈ a, c ≠ '\x60') (h : splitAt? fence (a ++ s) = some (inner, rest)) :
    ∃ inner', inner = a ++ inner' ∧ splitAt? fence s = some (inner', rest) := by
  rw [fence, splitAt?_of_ne ha] at h
  obtain ⟨⟨inner', rest'⟩, hsplit, heq⟩ := Option.map_eq_some_iff.mp h
  cases heq
  exact ⟨inner', rfl, hsplit⟩

theorem label_ne_tick : ∀ c ∈ "json".toList, c ≠ '\x60' := by
  simp

theorem splitAt?_unlabelled (h : splitAt? fence s = some (inner, rest)) :
    splitAt? fence (unlabelled s) = some (unlabelled inner, rest) := by
  cases hs : after? "json".toList s with
  | some t =>
    obtain rfl := after?_eq_some_iff.mp hs
    obtain ⟨inner', rfl, hsplit⟩ := splitAt?_fence_of_ne label_ne_tick h
    rw [unlabelled, unlabelled, after?_append, after?_append]
    exact hsplit
  | none =>
    have hinner : after? "json".toList inner = none := by
      rw [after?_eq_none_iff] at hs ⊢
      obtain ⟨rfl, -⟩ := of_splitAt?_eq_some h
      exact fun hlabel => hs (hlabel.trans (List.prefix_append _ _))
    rw [unlabelled, unlabelled, hs, hinner]
    exact h

theorem splitAt?_trimStart (h : splitAt? fence s = some (inner, rest)) :
    splitAt? fence (trimStart s) = some (trimStart inner, rest) := by
  obtain ⟨gap, hs, hgap⟩ := exists_trimStart s
  have hne : ∀ c ∈ gap, c ≠ '\x60' := by
    rintro c hc rfl
    exact absurd (hgap _ hc) (by decide)
  rw [hs] at h
  obtain ⟨inner', rfl, hsplit⟩ := splitAt?_fence_of_ne hne h
  have hhead : ∀ c ∈ inner'.head?, Text.isBlank c = false := by
    intro c hc
    obtain ⟨tail, rfl⟩ := List.head?_eq_some_iff.mp hc
    have hfront : (trimStart s).head? = some c := by rw [(of_splitAt?_eq_some hsplit).1]; rfl
    exact not_of_head?_dropWhile c hfront
  rw [trimStart_append hgap hhead]
  exact hsplit

/-- What is found at the front of a fence: the text up to the next fence, without a label and without blanks
at its start. -/
theorem fencedText_fence (h : splitAt? fence behind = some (inner, rest)) :
    fencedText before (fence ++ behind) = some (trimStart (unlabelled inner), rest) := by
  rw [fencedText, after?_append]
  change (splitAt? fence (trimStart (unlabelled behind)) >>= _) = _
  rw [splitAt?_trimStart (splitAt?_unlabelled h)]
  rfl

theorem suffix_unlabelled (s : List Char) : unlabelled s <:+ s := by
  cases hs : after? "json".toList s with
  | some t =>
    rw [unlabelled, hs, after?_eq_some_iff.mp hs]
    exact List.suffix_append _ t
  | none =>
    rw [unlabelled, hs]
    exact List.suffix_rfl

theorem of_fencedText_eq_some {x : List Char} (h : fencedText before s = some (x, rest)) :
    ∃ behind, s = fence ++ behind ∧ fence <:+: behind := by
  obtain ⟨behind, hbehind, h⟩ := Option.bind_eq_some_iff.mp h
  obtain ⟨⟨inner, rest'⟩, hsplit, -⟩ := Option.bind_eq_some_iff.mp h
  have hfence : fence <:+: trimStart (unlabelled behind) :=
    by_contra fun hnot => Option.ne_none_iff_exists'.mpr ⟨_, hsplit⟩ (splitAt?_eq_none_iff.mpr hnot)
  refine ⟨behind, after?_eq_some_iff.mp hbehind, hfence.trans ?_⟩
  exact ((List.dropWhile_suffix _).trans (suffix_unlabelled behind)).isInfix

/-- Without two fences nothing is found. -/
theorem findFrom_of_none (h : fencedPair? s = none) (before : Option Char) :
    findFrom fencedText before 0 s = [] := by
  refine List.eq_nil_iff_forall_not_mem.mpr fun found hfound => ?_
  obtain ⟨x, y, rest, rfl, hy⟩ := exists_of_mem_findFrom hfound
  obtain ⟨z, rfl, hz⟩ := of_fencedText_eq_some hy
  cases hopen : splitAt? fence (x ++ (fence ++ z)) with
  | none => exact splitAt?_eq_none_iff.mp hopen (List.infix_append' x fence z)
  | some cut =>
    obtain ⟨front, behind⟩ := cut
    obtain ⟨hs, hfirst⟩ := of_splitAt?_eq_some hopen
    rw [fencedPair?, hopen] at h
    exact splitAt?_eq_none_iff.mp h (hz.trans (hfirst.suffix hs.symm).isInfix)

/-- What is found in a text are the texts between its fences. -/
theorem findAll_fencedText (s : List Char) :
    findAll fencedText s = (betweenFences s).map fun inner => trimStart (unlabelled inner) := by
  suffices hfrom : ∀ before, findFrom fencedText before 0 s
      = (betweenFences s).map fun inner => trimStart (unlabelled inner) from hfrom none
  induction hn : s.length using Nat.strongRecOn generalizing s with
  | ind n ih =>
    intro before
    cases hpair : fencedPair? s with
    | none => rw [findFrom_of_none hpair, betweenFences_of_none hpair, List.map_nil]
    | some found =>
      obtain ⟨inner, rest⟩ := found
      obtain ⟨front, behind, hopen, hclose, hs, hbehind⟩ := of_fencedPair?_eq_some hpair
      have hmiss : ∀ x y, front = x ++ y → y ≠ [] →
          fencedText (lastRead before x) (y ++ (fence ++ behind)) = none := by
        intro x y hxy hy
        rw [Option.eq_none_iff_forall_ne_some]
        rintro ⟨found, rest'⟩ hfound
        obtain ⟨z, hz, -⟩ := of_fencedText_eq_some hfound
        exact (of_splitAt?_eq_some hopen).2 x y hxy hy ⟨z, hz.symm⟩
      have htext : fence ++ behind = '\x60' :: (['\x60', '\x60'] ++ (inner ++ fence) ++ rest) := by
        rw [hbehind]
        simp [fence]
      have hfound : fencedText (lastRead before front) (fence ++ behind)
          = some (trimStart (unlabelled inner), rest) := fencedText_fence hclose
      rw [htext] at hfound
      rw [betweenFences_of_some hpair, List.map_cons, hs, findFrom_append hmiss, htext, findFrom_hit hfound,
        ih rest.length ?_ rest rfl]
      rw [← hn, hs, hbehind]
      simp [fence]
      omega

/-! Fences in a JSON text. -/

theorem fence_infix_cons_iff {c : Char} (hc : c ≠ '\x60') (s : List Char) :
    fence <:+: c :: s ↔ fence <:+: s := by
  rw [List.infix_cons_iff, fence, List.cons_prefix_cons, or_iff_right]
  exact fun h => hc h.1.symm

/-- Fences stand between quotes only. -/
theorem Lexed.fence_infix_iff (h : Lexed s) : fence <:+: s ↔ ∃ q ∈ quotedTexts s, fence <:+: q := by
  induction h with
  | nil => simp [quotedTexts, quotedFrom, fence]
  | @char c s hquote htick _ _ ih => rw [fence_infix_cons_iff htick, quotedTexts_cons hquote, ih]
  | @quoted raw s hraw _ ih =>
    rw [fence_infix_cons_iff (by decide), infix_append_cons_iff (by decide) (by decide), ih,
      quotedTexts_quoted hraw, List.exists_mem_cons_iff]

/-- The characters with which a value ends. -/
def isClosingEnd (c : Char) : Bool := isPlainChar c || c = '"' || c = ']' || c = '\x7d'

/-- What a value ends with. -/
theorem Spells.exists_end (h : Spells room p s v rest) : ∃ m c, s = m ++ c :: rest ∧ isClosingEnd c = true := by
  induction h with
  | @word room w rest v hw =>
    obtain ⟨m, c, rfl⟩ := (List.eq_nil_or_concat' w).resolve_left hw.nonempty
    exact ⟨m, c, by simp, by simp [isClosingEnd, hw.plain c (by simp)]⟩
  | @text room raw chars rest _ => exact ⟨'"' :: raw, '"', by simp, by decide⟩
  | @emptyList room inner b rest _ _ => exact ⟨'[' :: b, ']', by simp, by decide⟩
  | @emptyDict room inner b rest _ _ => exact ⟨'\x7b' :: b, '\x7d', by simp, by decide⟩
  | @list room inner b s rest xs _ _ _ ih =>
    obtain ⟨m, c, rfl, hc⟩ := ih
    exact ⟨'[' :: (b ++ m), c, by simp, hc⟩
  | @dict room inner b s rest es _ _ _ ih =>
    obtain ⟨m, c, rfl, hc⟩ := ih
    exact ⟨'\x7b' :: (b ++ m), c, by simp, hc⟩
  | @lastItem room b s rest x _ _ ih =>
    obtain ⟨m, c, rfl, -⟩ := ih
    exact ⟨m ++ c :: b, ']', by simp, by decide⟩
  | @item room b c s t rest x xs _ _ _ _ ih ihs =>
    obtain ⟨m, d, rfl, -⟩ := ih
    obtain ⟨m', e, rfl, he⟩ := ihs
    exact ⟨m ++ d :: (b ++ ',' :: (c ++ m')), e, by simp, he⟩
  | @lastEntry room raw key b c d s rest x _ _ _ _ _ ih =>
    obtain ⟨m, e, rfl, -⟩ := ih
    exact ⟨'"' :: (raw ++ '"' :: (b ++ ':' :: (c ++ (m ++ e :: d)))), '\x7d', by simp, by decide⟩
  | @entry room raw key b c d e s t rest x es _ _ _ _ _ _ _ ih ihs =>
    obtain ⟨m, f, rfl, -⟩ := ih
    obtain ⟨m', g, rfl, hg⟩ := ihs
    exact ⟨'"' :: (raw ++ '"' :: (b ++ ':' :: (c ++ (m ++ f :: (d ++ ',' :: (e ++ m')))))), g, by simp, hg⟩

end Wireframe.Json
