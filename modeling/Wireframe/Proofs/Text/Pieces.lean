import Mathlib.Data.List.DropRight
import Wireframe.Proofs.Text.Blanks
import Wireframe.Proofs.Text.Cut
import Wireframe.Proofs.Text.Scanning

/-! The pieces of a text between separators, each with its place in the text. -/
namespace Wireframe.Text

variable {p : Char → Bool} {a s t u v x y piece : List Char} {c : Char}

/-- A character of a text of two parts stands in one of them. -/
theorem cut_cases (h : a ++ s = u ++ c :: v) :
    (∃ w, u = a ++ w ∧ s = w ++ c :: v) ∨ ∃ w, a = u ++ c :: w ∧ v = w ++ s := by
  rcases List.append_eq_append_iff.mp h with ⟨w, hu, hs⟩ | ⟨w, ha, hv⟩
  · exact .inl ⟨w, hu, hs⟩
  · cases w with
    | nil => exact .inl ⟨[], by simpa using ha.symm, by simpa using hv.symm⟩
    | cons d w =>
      obtain ⟨rfl, htail⟩ := List.cons.inj (show c :: v = d :: (w ++ s) from hv)
      exact .inr ⟨w, ha, htail⟩

/-- Nothing is left of a text of which the last character would differ from all. -/
theorem eq_nil_of_getLast? {q : Char → Prop} (h : ∀ c ∈ s.getLast?, ¬ q c) (hall : ∀ c ∈ s, q c) :
    s = [] := by
  refine List.getLast?_eq_none_iff.mp (Option.eq_none_iff_forall_not_mem.mpr fun c hc => ?_)
  exact h c hc (hall c (List.mem_of_getLast? hc))

/-- A piece between what stands before and behind it: separators, or the ends of the text. -/
structure Piece (p : Char → Bool) (x piece y : List Char) : Prop where
  before : ∀ c ∈ x.getLast?, p c = true
  free : ∀ c ∈ piece, p c = false
  behind : ∀ c ∈ y.head?, p c = true

/-- A text with a piece somewhere in it. -/
def HasPiece (p : Char → Bool) (s piece : List Char) : Prop :=
  ∃ x y, s = x ++ (piece ++ y) ∧ Piece p x piece y

theorem free_or_cut (p : Char → Bool) (s : List Char) :
    (∀ c ∈ s, p c = false) ∨
      ∃ a c t, s = a ++ c :: t ∧ (∀ c ∈ a, p c = false) ∧ p c = true := by
  induction s with
  | nil => exact .inl (List.forall_mem_nil _)
  | cons d s ih =>
    cases hd : p d with
    | true => exact .inr ⟨[], d, s, rfl, List.forall_mem_nil _, hd⟩
    | false =>
      rcases ih with hfree | ⟨a, c, t, rfl, ha, hc⟩
      · exact .inl (List.forall_mem_cons.mpr ⟨hd, hfree⟩)
      · exact .inr ⟨d :: a, c, t, rfl, List.forall_mem_cons.mpr ⟨hd, ha⟩, hc⟩

/-- A text without separators is its only piece. -/
theorem hasPiece_of_free (hs : ∀ c ∈ s, p c = false) : HasPiece p s piece ↔ piece = s := by
  constructor
  · rintro ⟨x, y, rfl, h⟩
    have hnot {c : Char} (hc : c ∈ x ++ (piece ++ y)) : ¬ p c = true := by simp [hs c hc]
    have hx : x = [] := eq_nil_of_getLast? (q := fun c => ¬ p c = true)
      (fun c hc => not_not_intro (h.before c hc)) fun c hc => hnot (List.mem_append_left _ hc)
    have hy : y = [] := by
      refine List.head?_eq_none_iff.mp (Option.eq_none_iff_forall_not_mem.mpr fun c hc => ?_)
      exact hnot (by simp [List.mem_of_mem_head? hc]) (h.behind c hc)
    rw [hx, hy, List.nil_append, List.append_nil]
  · rintro rfl
    exact ⟨[], [], by simp, by simp, hs, by simp⟩

/-- Where a text is cut at its first separator, the other pieces are those behind it. -/
theorem hasPiece_append (ha : ∀ c ∈ a, p c = false) (hc : p c = true) :
    HasPiece p (a ++ c :: t) piece ↔ piece = a ∨ HasPiece p t piece := by
  constructor
  · rintro ⟨x, y, heq, h⟩
    rcases List.eq_nil_or_concat' x with rfl | ⟨x, d, rfl⟩
    · left
      exact (append_cut (p := fun c => !p c) (by simpa using ha) (by simpa using h.free)
        (by simp [hc]) (by simpa using h.behind) (show a ++ c :: t = piece ++ y from heq)).1.symm
    · right
      have hd : d ∉ a := by
        intro hmem
        have hfree := ha d hmem
        rw [h.before d (by simp)] at hfree
        cases hfree
      rcases List.append_eq_append_iff.mp heq with ⟨z, hz, htail⟩ | ⟨z, rfl, htail⟩
      · cases z with
        | nil => exact (hd (by simp [← show x ++ [d] = a by simpa using hz])).elim
        | cons e z =>
          obtain ⟨rfl, rfl⟩ := List.cons.inj htail
          refine ⟨z, y, rfl, fun e he => h.before e ?_, h.free, h.behind⟩
          rw [hz, List.getLast?_append, List.getLast?_cons]
          simp [show z.getLast? = some e from he]
      · exact (hd (by simp)).elim
  · rintro (rfl | ⟨x, y, rfl, h⟩)
    · exact ⟨[], c :: t, rfl, by simp, ha, by simpa using hc⟩
    · refine ⟨a ++ c :: x, y, by simp, fun e he => ?_, h.free, h.behind⟩
      rw [List.getLast?_append, List.getLast?_cons] at he
      cases hx : x.getLast? with
      | none =>
        obtain rfl : c = e := by simpa [hx] using he
        exact hc
      | some l =>
        obtain rfl : l = e := by simpa [hx] using he
        exact h.before l hx

theorem mem_splitNewlines_iff : piece ∈ splitNewlines s ↔ HasPiece (· = '\n') s piece := by
  induction hn : s.length using Nat.strong_induction_on generalizing s with
  | h n ih =>
    rcases free_or_cut (· = '\n') s with hs | ⟨a, c, t, rfl, ha, hc⟩
    · have hfree : ∀ c ∈ s, c ≠ '\n' := by simpa using hs
      rw [splitNewlines_of_free hfree, List.mem_singleton, hasPiece_of_free hs]
    · obtain rfl : c = '\n' := by simpa using hc
      have hfree : ∀ c ∈ a, c ≠ '\n' := by simpa using ha
      rw [splitNewlines_append, splitNewlines_of_free hfree, List.singleton_append, List.mem_cons,
        hasPiece_append ha hc, ih t.length (by simp [← hn]; omega) rfl]

theorem linesFrom_of_free {current : List Char} (ha : ∀ c ∈ a, isLineEnd c = false) (s : List Char) :
    linesFrom current (a ++ s) = linesFrom (a.reverse ++ current) s := by
  induction a generalizing current with
  | nil => rfl
  | cons c a ih =>
    obtain ⟨hc, ha⟩ := List.forall_mem_cons.mp ha
    rw [List.cons_append, linesFrom, hc, if_neg (by decide), ih ha]
    · simp
    · rintro rest rfl
      exact absurd hc (by decide)

theorem lines_append_of_free (ha : ∀ c ∈ a, isLineEnd c = false) (s : List Char) :
    lines (a ++ s) = linesFrom a.reverse s := by
  rw [lines, linesFrom_of_free ha, List.append_nil]

/-- The lines of a text that are not empty are its pieces between line ends. A carriage return and a
newline together end one line only, but between them there is nothing. -/
theorem mem_lines_iff (hpiece : piece ≠ []) : piece ∈ lines s ↔ HasPiece isLineEnd s piece := by
  induction hn : s.length using Nat.strong_induction_on generalizing s with
  | h n ih =>
    rcases free_or_cut isLineEnd s with hs | ⟨a, c, t, rfl, ha, hc⟩
    · have hlines := lines_append_of_free hs []
      rw [List.append_nil] at hlines
      rw [hlines, hasPiece_of_free hs, linesFrom]
      split
      · rename_i hnil
        simp_all
      · simp
    · rw [lines_append_of_free ha, hasPiece_append ha hc]
      by_cases hreturn : c = '\r' ∧ t.head? = some '\n'
      · obtain ⟨rfl, ht⟩ := hreturn
        obtain ⟨t, rfl⟩ := List.head?_eq_some_iff.mp ht
        have hrest := ih t.length (by simp [← hn]; omega) rfl
        have hnewline : HasPiece isLineEnd ('\n' :: t) piece ↔ piece = [] ∨ HasPiece isLineEnd t piece :=
          hasPiece_append (List.forall_mem_nil _) (by decide)
        rw [linesFrom, List.reverse_reverse, List.mem_cons, hnewline, ← hrest]
        simp [hpiece, lines]
      · have hrest := ih t.length (by simp [← hn]; omega) rfl
        rw [linesFrom, if_pos hc, List.reverse_reverse, List.mem_cons, ← hrest]
        · rfl
        · rintro rest rfl rfl
          exact hreturn ⟨rfl, rfl⟩

theorem not_of_head?_dropWhile : ∀ c ∈ (s.dropWhile p).head?, p c = false := by
  intro c hc
  have hhead := List.head?_dropWhile_not p s
  rw [show (s.dropWhile p).head? = some c from hc] at hhead
  exact hhead

theorem not_of_getLast?_rdropWhile : ∀ c ∈ (s.rdropWhile p).getLast?, p c = false := by
  intro c hc
  rw [List.rdropWhile, List.getLast?_reverse] at hc
  exact not_of_head?_dropWhile c hc

theorem trim_append_rtakeWhile (s : List Char) :
    trim s ++ (trimStart s).rtakeWhile isBlank = trimStart s := List.rdropWhile_append_rtakeWhile

/-- A trimmed text stands between blanks. -/
theorem exists_trim (s : List Char) :
    ∃ a b, s = a ++ (trim s ++ b) ∧ (∀ c ∈ a, isBlank c = true) ∧ ∀ c ∈ b, isBlank c = true := by
  have hs : s.takeWhile isBlank ++ trimStart s = s := List.takeWhile_append_dropWhile
  refine ⟨s.takeWhile isBlank, (trimStart s).rtakeWhile isBlank, ?_,
    fun _ hc => List.mem_takeWhile_imp hc, fun _ hc => List.mem_rtakeWhile_imp hc⟩
  rw [trim_append_rtakeWhile, hs]

theorem trim_eq_self (hs : ∀ c ∈ s.head?, isBlank c = false)
    (he : ∀ c ∈ s.getLast?, isBlank c = false) :
    trim s = s := by
  rw [trim, trimStart, dropWhile_of_head? hs, trimEnd, dropEndWhile,
    dropWhile_of_head? (by rwa [List.head?_reverse]), List.reverse_reverse]

theorem trim_around (ha : ∀ c ∈ a, isBlank c = true) (hv : ∀ c ∈ v, isBlank c = true)
    (hhead : ∀ c ∈ (s ++ v).head?, isBlank c = false) (hlast : ∀ c ∈ s.getLast?, isBlank c = false) :
    trim (a ++ (s ++ v)) = s := by
  have hback : ∀ c ∈ v.reverse, isBlank c = true := fun c hc => hv c (List.mem_reverse.mp hc)
  rw [trim, trimStart_append ha hhead, trimEnd, dropEndWhile, List.reverse_append,
    List.dropWhile_append_of_pos hback, dropWhile_of_head? (by rwa [List.head?_reverse]), List.reverse_reverse]

theorem not_isBlank_of_head?_trim : ∀ c ∈ (trim s).head?, isBlank c = false := by
  intro c hc
  refine not_of_head?_dropWhile (s := s) c ?_
  show c ∈ (trimStart s).head?
  rw [← trim_append_rtakeWhile, List.head?_append, show (trim s).head? = some c from hc]
  rfl

theorem not_isBlank_of_getLast?_trim : ∀ c ∈ (trim s).getLast?, isBlank c = false :=
  not_of_getLast?_rdropWhile

theorem head?_trim (ha : ∀ c ∈ a, isBlank c = true) (hc : isBlank c = false) :
    (trim (a ++ c :: v)).head? = some c := by
  have hstart : trimStart (a ++ c :: v) = c :: v := by
    rw [trimStart, List.dropWhile_append_of_pos ha, List.dropWhile_cons_of_neg (by simp [hc])]
  have hsplit := trim_append_rtakeWhile (a ++ c :: v)
  rw [hstart] at hsplit
  cases htrim : trim (a ++ c :: v) with
  | nil =>
    rw [htrim, List.nil_append] at hsplit
    have hmem : c ∈ (c :: v).rtakeWhile isBlank := by
      rw [hsplit]
      exact List.mem_cons_self
    have hblank := List.mem_rtakeWhile_imp hmem
    rw [hc] at hblank
    cases hblank
  | cons d m =>
    rw [htrim, List.cons_append] at hsplit
    rw [(List.cons.inj hsplit).1]
    rfl

/-- Trimming a text around what neither starts nor ends with a blank leaves that, and what is no blank
behind it. -/
theorem exists_trim_around (hu : ∀ c ∈ u, isBlank c = true) (hne : a ≠ [])
    (hhead : ∀ c ∈ a.head?, isBlank c = false) (hlast : ∀ c ∈ a.getLast?, isBlank c = false) :
    ∃ x y, trim (u ++ (a ++ v)) = a ++ x ∧ v = x ++ y ∧ (∀ c ∈ x.getLast?, isBlank c = false)
      ∧ ∀ c ∈ y, isBlank c = true := by
  have hstart : trimStart (u ++ (a ++ v)) = a ++ v := by
    rw [trimStart, List.dropWhile_append_of_pos hu, dropWhile_of_head?]
    rw [List.head?_append_of_ne_nil _ hne]
    exact hhead
  have hsplit := trim_append_rtakeWhile (u ++ (a ++ v))
  rw [hstart] at hsplit
  have hblank : ∀ c ∈ (a ++ v).rtakeWhile isBlank, isBlank c = true :=
    fun c hc => List.mem_rtakeWhile_imp hc
  have hend : ∀ c ∈ (trim (u ++ (a ++ v))).getLast?, isBlank c = false := not_isBlank_of_getLast?_trim
  generalize trim (u ++ (a ++ v)) = t at hsplit hend ⊢
  generalize (a ++ v).rtakeWhile isBlank = e at hsplit hblank
  rcases List.append_eq_append_iff.mp hsplit with ⟨w, rfl, rfl⟩ | ⟨w, rfl, rfl⟩
  · have hwlast : ∀ c ∈ w.getLast?, ¬ isBlank c = true := by
      intro c hc
      rw [hlast c (by rw [List.getLast?_append, show w.getLast? = some c from hc]; rfl)]
      decide
    obtain rfl := eq_nil_of_getLast? hwlast fun c hc => hblank c (List.mem_append_left _ hc)
    exact ⟨[], v, by simp, rfl, by simp, by simpa using hblank⟩
  · refine ⟨w, e, rfl, rfl, fun c hc => hend c ?_, hblank⟩
    rw [List.getLast?_append, show w.getLast? = some c from hc]
    rfl

/-- What is free of separators stands in a piece. -/
theorem hasPiece_around (ha : ∀ c ∈ a, p c = false) (u v : List Char) :
    HasPiece p (u ++ (a ++ v))
      (u.rtakeWhile (fun c => !p c) ++ (a ++ v.takeWhile fun c => !p c)) := by
  refine ⟨u.rdropWhile fun c => !p c, v.dropWhile fun c => !p c, ?_, ?_, ?_, ?_⟩
  · rw [List.append_assoc, List.append_assoc, List.takeWhile_append_dropWhile,
      ← List.append_assoc (List.rdropWhile _ _), List.rdropWhile_append_rtakeWhile]
  · intro c hc
    simpa using not_of_getLast?_rdropWhile c hc
  · intro c hc
    rcases List.mem_append.mp hc with hc | hc
    · simpa using List.mem_rtakeWhile_imp hc
    · rcases List.mem_append.mp hc with hc | hc
      · exact ha c hc
      · simpa using List.mem_takeWhile_imp hc
  · intro c hc
    simpa using not_of_head?_dropWhile c hc

/-- Going back from the end of a text, one stops behind a character or passes it. -/
theorem rtakeWhile_cases (p : Char → Bool) (u v : List Char) (c : Char) :
    (u ++ c :: v).rtakeWhile p <:+ v ∨ c ∈ (u ++ c :: v).rtakeWhile p := by
  have hall := List.rtakeWhile_suffix p (u ++ c :: v)
  rcases List.suffix_or_suffix_of_suffix hall (List.suffix_append u (c :: v)) with h | h
  · rcases List.suffix_cons_iff.mp h with h | h
    · rw [h]
      exact .inr List.mem_cons_self
    · exact .inl h
  · exact .inr (h.subset List.mem_cons_self)

end Wireframe.Text
