import Mathlib.Data.List.Basic
import Wireframe.Diff
import Wireframe.Proofs.Text.Scanning

/-! The differences between two texts are a patch: applied to the lines of the old text they give those of the
new one, and they say no more than that. -/
namespace Wireframe

namespace Text

theorem joined_splitNewlines (s : List Char) : joined ['\n'] (splitNewlines s) = s := by
  induction s with
  | nil => rfl
  | cons c s ih =>
    obtain ⟨line, lines, hs⟩ := List.exists_cons_of_ne_nil (splitNewlines_ne_nil s)
    by_cases hc : c = '\n'
    · subst hc
      rw [splitNewlines_newline, hs, joined, ← hs, ih]
      · rfl
      · simp
    · rw [hs] at ih
      rw [splitNewlines, hs]
      · cases lines with
        | nil => exact congrArg (c :: ·) ih
        | cons other others => exact congrArg (c :: ·) ih
      · exact fun h => (hc h).elim

theorem splitNewlines_inj {s t : List Char} : splitNewlines s = splitNewlines t ↔ s = t := by
  refine ⟨fun h => ?_, congrArg splitNewlines⟩
  rw [← joined_splitNewlines s, h, joined_splitNewlines]

end Text

namespace Diff

variable {line n : Nat} {c : LineChange} {cs : List LineChange} {olds news lines : List (List Char)}
variable {old new : List Char}

/-- What becomes of a line: a change that is no addition replaces it or takes it away. -/
def revised (cs : List LineChange) (numbered : List Char × Nat) : Option (List Char) :=
  match cs.find? fun c => c.line = numbered.2 ∧ c.kind ≠ .add with
  | none => some numbered.1
  | some c => if c.kind = .modify then some c.content else none

/-- Lines to which changes are applied; added lines stand behind all others. -/
def applied (cs : List LineChange) (lines : List (List Char)) : List (List Char) :=
  (lines.zipIdx 1).filterMap (revised cs) ++ (cs.filter (·.kind = .add)).map (·.content)

/-- The changes from old lines to new ones, the first of which have the number `line`. -/
def linesFrom (line : Nat) : List (List Char) → List (List Char) → List LineChange
  | [], [] => []
  | [], new :: news => ⟨.add, line, new⟩ :: linesFrom (line + 1) [] news
  | old :: olds, [] => ⟨.remove, line, old⟩ :: linesFrom (line + 1) olds []
  | old :: olds, new :: news =>
    if old = new then linesFrom (line + 1) olds news
    else ⟨.modify, line, new⟩ :: linesFrom (line + 1) olds news

/-- A comparison counts the lines that it adds and removes, and finds the changes in their order. -/
theorem compareFrom_eq (line additions deletions : Nat) (done : List LineChange)
    (olds news : List (List Char)) :
    compareFrom line additions deletions done olds news
      = ⟨additions + count .add (linesFrom line olds news),
          deletions + count .remove (linesFrom line olds news), done.reverse ++ linesFrom line olds news⟩ := by
  fun_induction compareFrom line additions deletions done olds news with
  | case1 => simp [linesFrom, count]
  | case2 line additions deletions done new news ih =>
    simp [ih, linesFrom, count]
    omega
  | case3 line additions deletions done old olds ih =>
    simp [ih, linesFrom, count]
    omega
  | case4 line additions deletions done olds old news ih => simp [ih, linesFrom]
  | case5 line additions deletions done old olds new news hne ih => simp [ih, linesFrom, hne, count]

/-! The changes between lines. -/

theorem le_line_of_mem (h : c ∈ linesFrom line olds news) : line ≤ c.line := by
  fun_induction linesFrom line olds news with
  | case1 => cases h
  | case2 line new news ih | case3 line old olds ih | case5 line old olds new news hne ih =>
    rcases List.mem_cons.mp h with rfl | h
    · exact Nat.le_refl _
    · exact Nat.le_of_succ_le (ih h)
  | case4 line olds old news ih => exact Nat.le_of_succ_le (ih h)

/-- The changes stand in the order of their lines. -/
theorem pairwise_linesFrom (line : Nat) (olds news : List (List Char)) :
    (linesFrom line olds news).Pairwise fun c d => c.line < d.line := by
  fun_induction linesFrom line olds news with
  | case1 => exact .nil
  | case2 line new news ih | case3 line old olds ih | case5 line old olds new news hne ih =>
    exact ih.cons fun d hd => le_line_of_mem hd
  | case4 line olds old news ih => exact ih

theorem linesFrom_eq_nil_iff : linesFrom line olds news = [] ↔ olds = news := by
  fun_induction linesFrom line olds news with
  | case4 line olds old news ih => simp [ih]
  | case5 line old olds new news hne ih => simp [hne]
  | _ => simp

/-- Lines are added or removed only where one text goes on behind the end of the other. -/
theorem count_linesFrom (line : Nat) (olds news : List (List Char)) :
    count .add (linesFrom line olds news) = news.length - olds.length
      ∧ count .remove (linesFrom line olds news) = olds.length - news.length := by
  simp only [count]
  fun_induction linesFrom line olds news with
  | case1 => exact ⟨rfl, rfl⟩
  | case2 line new news ih | case3 line old olds ih => simp [ih.1, ih.2]
  | case4 line olds old news ih => simpa using ih
  | case5 line old olds new news hne ih => simpa using ih

/-- A change behind the first line is one of the lines behind it. -/
theorem getElem?_cons_of_mem {rest : List (List Char)} (old : List Char)
    (h : c ∈ linesFrom (line + 1) olds news) :
    (old :: rest)[c.line - line]? = rest[c.line - (line + 1)]? := by
  have hle := le_line_of_mem h
  rw [show c.line - line = c.line - (line + 1) + 1 by omega, List.getElem?_cons_succ]

theorem getElem?_of_removed (h : c ∈ linesFrom line olds news) (hc : c.kind = .remove) :
    olds[c.line - line]? = some c.content := by
  fun_induction linesFrom line olds news with
  | case1 => cases h
  | case2 line new news ih =>
    rcases List.mem_cons.mp h with rfl | h
    · cases hc
    · cases ih h
  | case3 line old olds ih =>
    rcases List.mem_cons.mp h with rfl | h
    · simp
    · rw [getElem?_cons_of_mem old h, ih h]
  | case4 line olds old news ih => rw [getElem?_cons_of_mem old h, ih h]
  | case5 line old olds new news hne ih =>
    rcases List.mem_cons.mp h with rfl | h
    · cases hc
    · rw [getElem?_cons_of_mem old h, ih h]

/-- The lines that are modified are the same in both directions. -/
theorem modified_linesFrom_swap (line : Nat) (olds news : List (List Char)) :
    ((linesFrom line news olds).filter (·.kind = .modify)).map (·.line)
      = ((linesFrom line olds news).filter (·.kind = .modify)).map (·.line) := by
  fun_induction linesFrom line olds news with
  | case1 => rw [linesFrom]
  | case2 line new news ih => simpa [linesFrom] using ih
  | case3 line old olds ih => simpa [linesFrom] using ih
  | case4 line olds old news ih => simpa [linesFrom] using ih
  | case5 line old olds new news hne ih => simpa [linesFrom, Ne.symm hne] using ih

/-! The changes applied. -/

theorem revised_of_forall_ne (h : ∀ c ∈ cs, c.line ≠ n) (old : List Char) :
    revised cs (old, n) = some old := by
  have hnone : cs.find? (fun c => c.line = n ∧ c.kind ≠ .add) = none := by
    rw [List.find?_eq_none]
    intro c hc
    simp [h c hc]
  rw [revised, hnone]

/-- A change does not touch the lines behind it. -/
theorem filterMap_revised_cons (h : c.line < line) (cs : List LineChange) (lines : List (List Char)) :
    (lines.zipIdx line).filterMap (revised (c :: cs)) = (lines.zipIdx line).filterMap (revised cs) := by
  refine List.filterMap_congr fun numbered hmem => ?_
  have hle := List.le_snd_of_mem_zipIdx hmem
  have hne : ¬ (c.line = numbered.2 ∧ c.kind ≠ .add) := by omega
  rw [revised, List.find?_cons_of_neg (by simpa using hne), revised]

theorem applied_linesFrom (line : Nat) (olds news : List (List Char)) :
    (olds.zipIdx line).filterMap (revised (linesFrom line olds news))
      ++ ((linesFrom line olds news).filter (·.kind = .add)).map (·.content) = news := by
  fun_induction linesFrom line olds news with
  | case1 => rfl
  | case2 line new news ih => simpa using ih
  | case3 line old olds ih =>
    rw [List.zipIdx_cons, List.filterMap_cons_none (by simp [revised]),
      filterMap_revised_cons (Nat.lt_succ_self _)]
    simpa using ih
  | case4 line olds old news ih =>
    have hkept : revised (linesFrom (line + 1) olds news) (old, line) = some old :=
      revised_of_forall_ne (fun c hc => Nat.ne_of_gt (le_line_of_mem hc)) old
    rw [List.zipIdx_cons, List.filterMap_cons_some hkept]
    simpa using ih
  | case5 line old olds new news hne ih =>
    rw [List.zipIdx_cons, List.filterMap_cons_some (b := new) (by simp [revised]),
      filterMap_revised_cons (Nat.lt_succ_self _)]
    simpa using ih

/-! The words. -/

theorem counted_eq_nil_iff {what : String} : counted n what = [] ↔ n = 0 := by
  rw [counted]
  split <;> simp_all

theorem exists_digit_of_mem_counted {s what : String} (h : s ∈ counted n what) :
    ∃ d t, s.toList = d :: t ∧ d.isDigit = true := by
  rw [counted] at h
  split at h
  · cases h
  · obtain ⟨d, ds, hd⟩ := List.exists_cons_of_ne_nil (Nat.toDigits_ne_nil (b := 10) (n := n))
    have hdigit : d.isDigit = true :=
      Nat.isDigit_of_mem_toDigits (by decide) (by decide) (hd ▸ List.mem_cons_self)
    obtain rfl := List.mem_singleton.mp h
    split
    · exact ⟨d, _, by simp [hd, toString]; rfl, hdigit⟩
    · exact ⟨d, _, by simp [hd, toString]; rfl, hdigit⟩

/-- Counts in words do not start as the words for no changes do. -/
theorem intercalate_ne {parts : List String} (hne : parts ≠ [])
    (h : ∀ s ∈ parts, ∃ d t, s.toList = d :: t ∧ d.isDigit = true) :
    ", ".intercalate parts ≠ "No changes detected" := by
  obtain ⟨s, parts, rfl⟩ := List.exists_cons_of_ne_nil hne
  obtain ⟨d, t, hs, hd⟩ := h s List.mem_cons_self
  have hfront : ∃ rest, (", ".intercalate (s :: parts)).toList = d :: rest := by
    rw [String.toList_intercalate, List.map_cons, hs]
    cases parts with
    | nil => exact ⟨t, by simp⟩
    | cons u parts => exact ⟨_, by rw [List.map_cons, List.intercalate_cons_cons]; rfl⟩
  obtain ⟨rest, hrest⟩ := hfront
  intro heq
  rw [heq] at hrest
  obtain rfl : 'N' = d := (List.cons.inj hrest).1
  cases hd

/-! The differences between texts. -/

theorem changes_compare (old new : List Char) :
    (compare old new).changes = linesFrom 1 (Text.splitNewlines old) (Text.splitNewlines new) := by
  simp [compare, compareFrom_eq]

theorem additions_eq_count (old new : List Char) :
    (compare old new).additions = count .add (compare old new).changes := by
  simp [compare, compareFrom_eq]

theorem deletions_eq_count (old new : List Char) :
    (compare old new).deletions = count .remove (compare old new).changes := by
  simp [compare, compareFrom_eq]

theorem additions_compare (old new : List Char) :
    (compare old new).additions = (Text.splitNewlines new).length - (Text.splitNewlines old).length := by
  rw [additions_eq_count, changes_compare, (count_linesFrom 1 _ _).1]

theorem deletions_compare (old new : List Char) :
    (compare old new).deletions = (Text.splitNewlines old).length - (Text.splitNewlines new).length := by
  rw [deletions_eq_count, changes_compare, (count_linesFrom 1 _ _).2]

theorem changes_eq_nil_iff : (compare old new).changes = [] ↔ old = new := by
  rw [changes_compare, linesFrom_eq_nil_iff, Text.splitNewlines_inj]

theorem hasChanges_eq_false_iff : (compare old new).hasChanges = false ↔ old = new := by
  rw [Result.hasChanges, Bool.not_eq_false', List.isEmpty_iff, changes_eq_nil_iff]

theorem eq_nil_of_count (h : ∀ kind, count kind cs = 0) : cs = [] := by
  refine List.eq_nil_iff_forall_not_mem.mpr fun c hc => ?_
  have hkind := List.countP_eq_zero.mp (h c.kind) c hc
  simp at hkind

/-- Only equal texts are said to have no changes. -/
theorem summary_eq_iff : summary old new = "No changes detected" ↔ old = new := by
  rw [summary]
  split
  · rename_i hchanges
    have hnot : old ≠ new := by
      rw [Ne, ← hasChanges_eq_false_iff, hchanges]
      decide
    refine iff_of_false (intercalate_ne ?_ ?_) hnot
    · simp only [ne_eq, List.append_eq_nil_iff, counted_eq_nil_iff]
      rintro ⟨⟨hadd, hremove⟩, hmodify⟩
      refine hnot (changes_eq_nil_iff.mp (eq_nil_of_count fun kind => ?_))
      cases kind with
      | add => rw [← additions_eq_count, hadd]
      | remove => rw [← deletions_eq_count, hremove]
      | modify => exact hmodify
    · intro s hs
      rw [List.mem_append, List.mem_append] at hs
      rcases hs with (hs | hs) | hs <;> exact exists_digit_of_mem_counted hs
  · rename_i hchanges
    exact iff_of_true rfl (hasChanges_eq_false_iff.mp (Bool.not_eq_true _ ▸ hchanges))

/-- A result whose changes turn old lines into new ones. -/
structure IsPatch (olds news : List (List Char)) (r : Result) : Prop where
  applied : applied r.changes olds = news
  removed : ∀ c ∈ r.changes, c.kind = .remove → 0 < c.line ∧ olds[c.line - 1]? = some c.content
  increasing : r.changes.Pairwise fun c d => c.line < d.line
  additions : r.additions = count .add r.changes
  deletions : r.deletions = count .remove r.changes
  balance : (r.additions : Int) - r.deletions = news.length - olds.length
  oneSided : r.additions = 0 ∨ r.deletions = 0

theorem isPatch_compare (old new : List Char) :
    IsPatch (Text.splitNewlines old) (Text.splitNewlines new) (compare old new) where
  applied := by
    rw [changes_compare]
    exact applied_linesFrom 1 _ _
  removed c hc hkind := by
    rw [changes_compare] at hc
    exact ⟨le_line_of_mem hc, getElem?_of_removed hc hkind⟩
  increasing := by
    rw [changes_compare]
    exact pairwise_linesFrom 1 _ _
  additions := additions_eq_count old new
  deletions := deletions_eq_count old new
  balance := by
    rw [additions_compare, deletions_compare]
    omega
  oneSided := by
    rw [additions_compare, deletions_compare]
    omega

/-- The lines that a comparison found to be modified. -/
def Result.modifiedLines (r : Result) : List Nat := (r.changes.filter (·.kind = .modify)).map (·.line)

/-- A comparison is a patch from the old lines to the new ones. It is empty just where the texts are equal, and
it turns round with them. -/
theorem compare_patches (old new : List Char) :
    IsPatch (Text.splitNewlines old) (Text.splitNewlines new) (compare old new)
      ∧ ((compare old new).changes = [] ↔ old = new)
      ∧ ((compare old new).hasChanges = false ↔ old = new)
      ∧ (summary old new = "No changes detected" ↔ old = new)
      ∧ (compare new old).additions = (compare old new).deletions
      ∧ (compare new old).deletions = (compare old new).additions
      ∧ (compare new old).modifiedLines = (compare old new).modifiedLines := by
  refine ⟨isPatch_compare old new, changes_eq_nil_iff, hasChanges_eq_false_iff, summary_eq_iff, ?_, ?_, ?_⟩
  · rw [additions_compare, deletions_compare]
  · rw [additions_compare, deletions_compare]
  · rw [Result.modifiedLines, Result.modifiedLines, changes_compare, changes_compare]
    exact modified_linesFrom_swap 1 _ _

example : (compare "a\nb\nc".toList "a\nd".toList).changes
    = [⟨.modify, 2, ['d']⟩, ⟨.remove, 3, ['c']⟩] := by cbv

end Diff

end Wireframe
