import Wireframe.Proofs.Json.Lexing

/-! Taking out fences. Those on lines of their own around a text go, and a text that no fence is part of stays
as it is. -/
namespace Wireframe.Json
open Text (replaceAll replaceFrom lastRead trimStart)

variable {s t a b gap rest x y : List Char} {c : Char} {v : Value} {p : Part} {before : Option Char}
variable {label : List Char}

/-- An answer without its fences. -/
def unfenced (s : List Char) : List Char :=
  replaceAll closingFence (replaceAll (openingFence []) (replaceAll (openingFence "json".toList) s))

/-- A text that no fence can be part of: no backtick stands at the start of one of its lines or at the end of
one, and a brace ends it. -/
structure Fenceless (t : List Char) : Prop where
  apart : t.IsChain Apart
  head : ∀ c ∈ t.head?, c ≠ '\x60'
  last : t.getLast? = some '\x7d'

theorem openingFence_of_ne (hc : c ≠ '\x60') : openingFence label before (c :: s) = none := by
  unfold openingFence
  split
  · simp [fence, Text.after?, hc.symm]
  · rfl

theorem closingFence_eq_some (h : closingFence before s = some (a, rest)) :
    ∃ gap, (∀ c ∈ gap, Text.isBlank c = true) ∧ s = gap ++ (fence ++ rest) ∧ endsLine rest = true := by
  obtain ⟨rest', hrest, h⟩ := Option.bind_eq_some_iff.mp h
  split at h
  · rename_i hends
    cases h
    obtain ⟨gap, hs, hgap⟩ := Text.exists_trimStart s
    exact ⟨gap, hgap, by rw [← Text.after?_eq_some_iff.mp hrest]; exact hs, hends⟩
  · cases h

theorem Fenceless.openingFence_eq_none (h : Fenceless t) (ht : t = x ++ y) (hy : y ≠ []) :
    openingFence label (lastRead before x) (y ++ s) = none := by
  obtain ⟨c, y, rfl⟩ := List.exists_cons_of_ne_nil hy
  by_cases hc : c = '\x60'
  · subst hc
    rcases List.eq_nil_or_concat x with rfl | ⟨x, d, rfl⟩
    · exact (h.head '\x60' (by rw [ht]; rfl) rfl).elim
    · have hapart : Apart d '\x60' := by
        have hchain := h.apart
        rw [ht, List.concat_eq_append, List.append_assoc] at hchain
        exact (List.isChain_append_cons_cons.mp hchain).2.1
      have hstart : startsLine (some d) = false := by
        simpa [startsLine] using fun hd => hapart.1 ⟨hd, rfl⟩
      rw [List.concat_eq_append, Text.lastRead_concat, openingFence, hstart]
      rfl
  · exact openingFence_of_ne hc

theorem Fenceless.closingFence_eq_none (h : Fenceless t) (ht : t = x ++ y) (hy : y ≠ []) :
    closingFence before (y ++ s) = none := by
  rw [Option.eq_none_iff_forall_ne_some]
  rintro ⟨new, rest⟩ hfound
  obtain ⟨gap, hgap, hs, hends⟩ := closingFence_eq_some hfound
  obtain ⟨y, rfl⟩ : ∃ y', y = y' ++ ['\x7d'] := by
    rcases List.eq_nil_or_concat y with rfl | ⟨y', d, rfl⟩
    · exact (hy rfl).elim
    · have hlast := h.last
      rw [ht, List.concat_eq_append, ← List.append_assoc, List.getLast?_concat] at hlast
      rw [Option.some.inj hlast]
      exact ⟨y', List.concat_eq_append⟩
  rw [List.append_assoc, List.singleton_append, ← List.append_assoc] at hs
  rcases List.append_eq_append_iff.mp hs with ⟨m, hm, hbehind⟩ | ⟨m, rfl, rfl⟩
  · cases m with
    | nil =>
      rw [List.nil_append] at hbehind
      rw [← hbehind] at hends
      exact Bool.false_ne_true hends
    | cons d m =>
      obtain ⟨rfl, -⟩ := List.cons.inj hbehind
      have hmem : '\x7d' ∈ gap ++ fence := by simp [hm]
      rcases List.mem_append.mp hmem with hmem | hmem
      · exact Bool.false_ne_true (hgap _ hmem)
      · exact absurd hmem (by decide)
  · cases m with
    | nil => exact Bool.false_ne_true hends
    | cons d m =>
      obtain rfl : d = '\n' := by simpa [endsLine] using hends
      have hchain := h.apart
      have hsplit : t = (x ++ (gap ++ ['\x60', '\x60'])) ++ '\x60' :: '\n' :: (m ++ ['\x7d']) := by
        rw [ht]
        simp [fence]
      rw [hsplit] at hchain
      exact (List.isChain_append_cons_cons.mp hchain).2.1.2 ⟨rfl, rfl⟩

/-! What stands behind and in front of a text without fences. -/

theorem Fenceless.replace_opening (h : Fenceless t) (label : List Char) (before : Option Char) (s : List Char) :
    replaceFrom (openingFence label) before 0 (t ++ s)
      = t ++ replaceFrom (openingFence label) (lastRead before t) 0 s :=
  Text.replaceFrom_append fun _ _ ht hy => h.openingFence_eq_none ht hy

theorem Fenceless.replace_closing (h : Fenceless t) (before : Option Char) (s : List Char) :
    replaceFrom closingFence before 0 (t ++ s) = t ++ replaceFrom closingFence (lastRead before t) 0 s :=
  Text.replaceFrom_append fun _ _ ht hy => h.closingFence_eq_none ht hy

theorem replace_opening_of_ne (ha : ∀ c ∈ a, c ≠ '\x60') (before : Option Char) (s : List Char) :
    replaceFrom (openingFence label) before 0 (a ++ s)
      = a ++ replaceFrom (openingFence label) (lastRead before a) 0 s := by
  refine Text.replaceFrom_append fun x y ht hy => ?_
  obtain ⟨c, y, rfl⟩ := List.exists_cons_of_ne_nil hy
  exact openingFence_of_ne (ha c (by simp [ht]))

theorem replace_closing_of_gap (hb : Gap b) (before : Option Char) :
    replaceFrom closingFence before 0 b = b := by
  refine Text.replaceFrom_of_absent fun x y hxy => ?_
  rw [Option.eq_none_iff_forall_ne_some]
  rintro ⟨new, rest⟩ hfound
  obtain ⟨gap, -, rfl, -⟩ := closingFence_eq_some hfound
  have hmem := hb '\x60' (by simp [hxy, fence])
  cases hmem

/-- A text that no fence is part of stays as it is. -/
theorem Fenceless.unfenced_eq (h : Fenceless t) : unfenced t = t := by
  have hopening (label : List Char) : replaceAll (openingFence label) t = t := by
    have hreplace := h.replace_opening label none []
    rwa [List.append_nil, replaceFrom, List.append_nil] at hreplace
  have hclosing : replaceAll closingFence t = t := by
    have hreplace := h.replace_closing none []
    rwa [List.append_nil, replaceFrom, List.append_nil] at hreplace
  rw [unfenced, hopening, hopening, hclosing]

/-- The fence in front goes with its label and the blanks behind it. -/
theorem replace_front (label : List Char) (hb : Gap b) (hs : ∀ c ∈ s.head?, Text.isBlank c = false) :
    ∃ before, replaceAll (openingFence label) (fence ++ (label ++ '\n' :: (b ++ s)))
      = replaceFrom (openingFence label) before 0 s := by
  have hblanks : ∀ c ∈ '\n' :: b, Text.isBlank c = true :=
    List.forall_mem_cons.mpr ⟨by decide, fun c hc => isBlank_text (hb c hc)⟩
  have htrim : trimStart ('\n' :: (b ++ s)) = s := Text.trimStart_append (a := '\n' :: b) hblanks hs
  have hafter : Text.after? (fence ++ label) (fence ++ (label ++ '\n' :: (b ++ s))) = some ('\n' :: (b ++ s)) := by
    rw [← List.append_assoc]
    exact Text.after?_append _ _
  have hfound : openingFence label none (fence ++ (label ++ '\n' :: (b ++ s))) = some ([], s) := by
    rw [openingFence, hafter]
    exact congrArg (fun rest => some ([], rest)) htrim
  have htext : fence ++ (label ++ '\n' :: (b ++ s))
      = '\x60' :: ((['\x60', '\x60'] ++ (label ++ '\n' :: b)) ++ s) := by
    simp [fence]
  rw [htext] at hfound ⊢
  exact ⟨_, Text.replaceFrom_hit hfound⟩

theorem replace_unlabelled (s : List Char) :
    replaceAll (openingFence "json".toList) (fence ++ '\n' :: s)
      = fence ++ replaceFrom (openingFence "json".toList) (some '\x60') 0 ('\n' :: s) := rfl

/-- Fences on lines of their own around a text go. -/
theorem Fenceless.unfenced_fenced (h : Fenceless t) (ht : ∀ c ∈ t.head?, Text.isBlank c = false)
    (hlabel : label = "json".toList ∨ label = []) (hb : Gap b) (ha : Gap a) :
    unfenced (fence ++ (label ++ '\n' :: (b ++ (t ++ (a ++ '\n' :: fence))))) = t ++ (a ++ ['\n']) := by
  have hhead : ∀ c ∈ (t ++ (a ++ '\n' :: fence)).head?, Text.isBlank c = false := by
    cases t with
    | nil => exact absurd h.last (by decide)
    | cons c t => exact ht
  have hgap : Gap (a ++ ['\n']) := List.forall_mem_append.mpr ⟨ha, List.forall_mem_singleton.mpr (by decide)⟩
  have htext : t ++ (a ++ '\n' :: fence) = t ++ ((a ++ ['\n']) ++ fence) := by rw [List.append_cons]
  have hbehind (label : List Char) (before : Option Char) :
      replaceFrom (openingFence label) before 0 (t ++ (a ++ '\n' :: fence))
        = t ++ ((a ++ ['\n']) ++ replaceFrom (openingFence label) (some '\n') 0 fence) := by
    rw [htext, h.replace_opening, replace_opening_of_ne (hgap.ne (by decide)), Text.lastRead_concat]
  have hlabelled (before : Option Char) :
      replaceFrom (openingFence "json".toList) before 0 (t ++ (a ++ '\n' :: fence))
        = t ++ (a ++ '\n' :: fence) := by
    rw [hbehind, htext]
    rfl
  have hunlabelled (before : Option Char) :
      replaceFrom (openingFence []) before 0 (t ++ (a ++ '\n' :: fence)) = t ++ (a ++ ['\n']) := by
    rw [hbehind]
    exact congrArg (t ++ ·) (List.append_nil _)
  have hclosing : replaceAll closingFence (t ++ (a ++ ['\n'])) = t ++ (a ++ ['\n']) := by
    rw [replaceAll, h.replace_closing, replace_closing_of_gap hgap]
  rw [unfenced]
  rcases hlabel with rfl | rfl
  · obtain ⟨before, hfront⟩ := replace_front "json".toList hb hhead
    rw [hfront, hlabelled, show replaceAll (openingFence []) _ = _ from hunlabelled none, hclosing]
  · have hline : ∀ c ∈ '\n' :: b, c ≠ '\x60' := List.forall_mem_cons.mpr ⟨by decide, hb.ne (by decide)⟩
    have hkept : replaceAll (openingFence "json".toList)
        (fence ++ ([] ++ '\n' :: (b ++ (t ++ (a ++ '\n' :: fence)))))
          = fence ++ ([] ++ '\n' :: (b ++ (t ++ (a ++ '\n' :: fence)))) := by
      rw [List.nil_append, replace_unlabelled, ← List.cons_append, replace_opening_of_ne hline, hlabelled]
    obtain ⟨before, hfront⟩ := replace_front [] hb hhead
    rw [hkept, hfront, hunlabelled, hclosing]

end Wireframe.Json
