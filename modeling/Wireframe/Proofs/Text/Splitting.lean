import Mathlib.Data.List.Infix
import Wireframe.Proofs.Text.Scanning

/-! Texts cut at the first place where a fixed part stands, and what is found behind a text without finds. -/
namespace Wireframe.Text

variable {α : Type} {r : Recogniser α} {part s a b front rest x y : List Char} {c d : Char}
variable {before : Option Char}

theorem after?_eq_none_iff : after? part s = none ↔ ¬ part <+: s := by
  rw [Option.eq_none_iff_forall_ne_some]
  constructor
  · rintro h ⟨rest, rfl⟩
    exact h rest (after?_append part rest)
  · rintro h rest hrest
    exact h ⟨rest, (after?_eq_some_iff.mp hrest).symm⟩

/-- A text is cut if the part stands in it. -/
theorem splitAt?_eq_none_iff : splitAt? part s = none ↔ ¬ part <:+: s := by
  induction s with
  | nil => rw [splitAt?, Option.map_eq_none_iff, after?_eq_none_iff, List.prefix_nil, List.infix_nil]
  | cons c s ih =>
    rw [splitAt?, List.infix_cons_iff]
    split
    · rename_i rest hrest
      exact iff_of_false nofun fun h => h (.inl ⟨rest, (after?_eq_some_iff.mp hrest).symm⟩)
    · rename_i hnone
      rw [Option.map_eq_none_iff, ih, not_or, and_iff_right (after?_eq_none_iff.mp hnone)]

/-- A part that stands nowhere in front of a place where it stands. -/
def First (part front rest : List Char) : Prop :=
  ∀ x y, front = x ++ y → y ≠ [] → ¬ part <+: y ++ (part ++ rest)

/-- A text is cut where the part stands first. -/
theorem of_splitAt?_eq_some (h : splitAt? part s = some (front, rest)) :
    s = front ++ (part ++ rest) ∧ First part front rest := by
  have hnil : First part [] rest := fun x y hxy hy => (hy (List.append_eq_nil_iff.mp hxy.symm).2).elim
  induction s generalizing front with
  | nil =>
    obtain ⟨rest', hrest, heq⟩ := Option.map_eq_some_iff.mp h
    cases heq
    exact ⟨(after?_eq_some_iff.mp hrest).trans (List.nil_append _).symm, hnil⟩
  | cons c s ih =>
    rw [splitAt?] at h
    split at h
    · rename_i rest' hrest
      cases h
      exact ⟨(after?_eq_some_iff.mp hrest).trans (List.nil_append _).symm, hnil⟩
    · rename_i hnone
      obtain ⟨⟨front, rest'⟩, hsplit, heq⟩ := Option.map_eq_some_iff.mp h
      cases heq
      obtain ⟨rfl, hfirst⟩ := ih hsplit
      refine ⟨rfl, fun x y hxy hy => ?_⟩
      cases x with
      | nil =>
        rw [List.nil_append] at hxy
        exact hxy ▸ after?_eq_none_iff.mp hnone
      | cons d x => exact hfirst x y (List.cons.inj hxy).2 hy

theorem First.splitAt? (h : First part front rest) :
    Text.splitAt? part (front ++ (part ++ rest)) = some (front, rest) := by
  induction front with
  | nil =>
    have hafter := after?_append part rest
    rw [List.nil_append]
    cases htext : part ++ rest with
    | nil =>
      rw [htext] at hafter
      rw [Text.splitAt?, hafter]
      rfl
    | cons c s =>
      rw [htext] at hafter
      rw [Text.splitAt?, hafter]
  | cons c front ih =>
    have hnone : after? part (c :: (front ++ (part ++ rest))) = none :=
      after?_eq_none_iff.mpr (h [] (c :: front) rfl (List.cons_ne_nil _ _))
    have hrest : First part front rest := fun x y hxy hy => h (c :: x) y (congrArg (c :: ·) hxy) hy
    rw [List.cons_append, Text.splitAt?, hnone, ih hrest]
    rfl

/-- Wherever the part stands, what follows it follows the first place, too. -/
theorem First.suffix (h : First part front rest) (hs : front ++ (part ++ rest) = x ++ (part ++ y)) :
    y <:+ rest := by
  rcases List.append_eq_append_iff.mp hs with ⟨z, rfl, hz⟩ | ⟨z, hz, hrest⟩
  · have hbehind : y <:+ part ++ rest := ⟨z ++ part, by simp [hz]⟩
    refine List.suffix_of_suffix_length_le hbehind (List.suffix_append part rest) ?_
    have hlength := congrArg List.length hz
    simp only [List.length_append] at hlength
    omega
  · by_cases hnil : z = []
    · rw [hnil, List.nil_append] at hrest
      rw [List.append_cancel_left hrest]
    · exact absurd ⟨y, hrest⟩ (h x z hz hnil)

/-- What follows a text does not change where it is cut. -/
theorem splitAt?_append (h : splitAt? part s = some (front, rest)) (t : List Char) :
    splitAt? part (s ++ t) = some (front, rest ++ t) := by
  obtain ⟨rfl, hfirst⟩ := of_splitAt?_eq_some h
  have hlater : First part front (rest ++ t) := by
    intro x y hxy hy hprefix
    refine hfirst x y hxy hy (List.prefix_of_prefix_length_le hprefix ?_ (by simp; omega))
    exact ⟨t, by simp⟩
  simpa using hlater.splitAt?

/-- Characters with which the part does not start stay in front. -/
theorem splitAt?_of_ne (ha : ∀ c ∈ a, c ≠ d) (s : List Char) :
    splitAt? (d :: part) (a ++ s) = (splitAt? (d :: part) s).map fun (front, rest) => (a ++ front, rest) := by
  induction a with
  | nil => simp
  | cons c a ih =>
    rw [List.forall_mem_cons] at ha
    have hnone : after? (d :: part) (c :: (a ++ s)) = none := if_neg ha.1.symm
    rw [List.cons_append, splitAt?, hnone, ih ha.2, Option.map_map]
    rfl

theorem prefix_of_prefix_append_cons (hc : c ∉ part) (h : part <+: a ++ c :: b) : part <+: a := by
  induction a generalizing part with
  | nil =>
    cases part with
    | nil => exact List.nil_prefix
    | cons d part =>
      rw [List.nil_append, List.cons_prefix_cons] at h
      exact absurd (h.1 ▸ List.mem_cons_self) hc
  | cons e a ih =>
    cases part with
    | nil => exact List.nil_prefix
    | cons d part =>
      rw [List.cons_append, List.cons_prefix_cons] at h
      rw [List.cons_prefix_cons]
      exact ⟨h.1, ih (fun hmem => hc (List.mem_cons_of_mem _ hmem)) h.2⟩

/-- A part without a character stands on one side of it. -/
theorem infix_append_cons_iff (hc : c ∉ part) (hpart : part ≠ []) :
    part <:+: a ++ c :: b ↔ part <:+: a ∨ part <:+: b := by
  constructor
  · intro h
    induction a with
    | nil =>
      rcases List.infix_cons_iff.mp h with h | h
      · exact (hpart (List.prefix_nil.mp (prefix_of_prefix_append_cons (a := []) hc h))).elim
      · exact .inr h
    | cons d a ih =>
      rcases List.infix_cons_iff.mp h with h | h
      · exact .inl (prefix_of_prefix_append_cons (a := d :: a) hc h).isInfix
      · exact (ih h).imp_left List.infix_cons
  · rintro (h | h)
    · exact h.trans (List.prefix_append a _).isInfix
    · exact h.trans ((List.suffix_cons c b).trans (List.suffix_append a _)).isInfix

/-- In front of a character that is not in it the part is not cut off. -/
theorem splitAt?_last (h : ¬ part <:+: s) (hc : c ∉ part) :
    splitAt? part (s ++ c :: part) = some (s ++ [c], []) := by
  have hfirst : First part (s ++ [c]) [] := by
    intro x y hxy hy hprefix
    obtain ⟨z, d, rfl⟩ := (List.eq_nil_or_concat' y).resolve_left hy
    rw [← List.append_assoc] at hxy
    obtain ⟨rfl, hd⟩ := List.append_inj' hxy rfl
    obtain rfl : c = d := (List.cons.inj hd).1
    rw [List.append_assoc, List.singleton_append] at hprefix
    exact h ((prefix_of_prefix_append_cons hc hprefix).isInfix.trans (List.suffix_append x z).isInfix)
  simpa using hfirst.splitAt?

/-- Nothing is found where nothing is accepted. -/
theorem findFrom_append (h : ∀ x y, a = x ++ y → y ≠ [] → r (lastRead before x) (y ++ b) = none) :
    findFrom r before 0 (a ++ b) = findFrom r (lastRead before a) 0 b := by
  induction a generalizing before with
  | nil => rfl
  | cons c a ih =>
    have hmiss : r before (c :: (a ++ b)) = none := h [] (c :: a) rfl (List.cons_ne_nil c a)
    rw [List.cons_append, findFrom_miss hmiss]
    exact ih fun x y hxy hy => h (c :: x) y (congrArg (c :: ·) hxy) hy

end Wireframe.Text
