import Mathlib.Data.List.Chain
import Wireframe.Proofs.Input.Phrases
import Wireframe.Proofs.Lint.Whitelist
import Wireframe.Proofs.Text.Pieces

/-! The imports of any source that passes. -/
namespace Wireframe.Lint
open Text

variable {s u v front line back name source : List Char} {c d : Char}

/-- An import of a component from its own module. -/
inductive ImportOf (name : List Char) : List Char → Prop
  | intro {a b c e : List Char} {q : Char} (ha : Injection.Gap a) (hb : Injection.Gap b)
      (hc : Injection.Gap c) (hq : q = '\'' ∨ q = '"') (he : e = [] ∨ e = [';']) :
      ImportOf name ("import".toList ++ (a ++ (name ++ (b ++ ("from".toList ++ (c ++
        (q :: (Component.modulePath.toList ++ (name ++ q :: e)))))))))

theorem of_quote? {q : Char} (h : quote? s = some (q, v)) : s = q :: v ∧ (q = '\'' ∨ q = '"') := by
  cases s with
  | nil => cases h
  | cons c s =>
    rw [quote?] at h
    split at h
    · cases h
      exact ⟨rfl, ‹_›⟩
    · cases h

/-- What may stand behind the last quote of an import. -/
theorem of_importEnd {rest : List Char} {x : List Char}
    (h : (match (after? [';'] s).getD s with
      | [] | ['\n'] => some rest
      | _ => none) = some x) :
    x = rest ∧ (s = [] ∨ s = [';'] ∨ s.getLast? = some '\n') := by
  cases hs : after? [';'] s with
  | none =>
    rw [hs, Option.getD_none] at h
    split at h
    · exact ⟨(Option.some.inj h).symm, .inl rfl⟩
    · exact ⟨(Option.some.inj h).symm, .inr (.inr rfl)⟩
    · cases h
  | some t =>
    rw [hs, Option.getD_some] at h
    rw [after?_eq_some_iff.mp hs]
    split at h
    · exact ⟨(Option.some.inj h).symm, .inr (.inl rfl)⟩
    · exact ⟨(Option.some.inj h).symm, .inr (.inr rfl)⟩
    · cases h

theorem importOf_of_componentImport? (h : componentImport? line = some name)
    (hend : ∀ c ∈ line.getLast?, isBlank c = false) : ImportOf name line := by
  simp only [componentImport?, Option.bind_eq_bind, Option.bind_eq_some_iff] at h
  obtain ⟨s₁, hword, s₂, hblanks, h⟩ := h
  obtain rfl := after?_eq_some_iff.mp hword
  obtain ⟨a, ha, rfl, -⟩ := Injection.blanks?_eq_some_iff.mp hblanks
  obtain ⟨front, rest, hrun⟩ : ∃ front rest, wordRun s₂ = (front, rest) := ⟨_, _, rfl⟩
  obtain rfl : front ++ rest = s₂ := by
    rw [wordRun, List.span_eq_takeWhile_dropWhile] at hrun
    obtain ⟨rfl, rfl⟩ := Prod.mk.inj hrun
    exact List.takeWhile_append_dropWhile
  split at h
  · simp only [hrun, Option.bind_eq_some_iff] at h
    obtain ⟨s₃, hgap, s₄, hfrom, s₅, hspace, ⟨q, s₆⟩, hquote, s₇, hpath, s₈, hname,
      s₉, hclose, h⟩ := h
    obtain ⟨b, hb, rfl, -⟩ := Injection.blanks?_eq_some_iff.mp hgap
    obtain rfl := after?_eq_some_iff.mp hfrom
    obtain ⟨c, hc, rfl, -⟩ := Injection.blanks?_eq_some_iff.mp hspace
    obtain ⟨rfl, hq⟩ := of_quote? hquote
    dsimp only at hpath hname hclose
    obtain rfl := after?_eq_some_iff.mp hpath
    obtain rfl := after?_eq_some_iff.mp hname
    obtain rfl := after?_eq_some_iff.mp hclose
    obtain ⟨rfl, hs⟩ := of_importEnd h
    refine .intro ha hb hc hq ?_
    rcases hs with hs | hs | hs
    · exact .inl hs
    · exact .inr hs
    · have hlast := hend '\n' (by simp [List.getLast?_append, List.getLast?_cons, hs])
      exact absurd hlast (by decide)
  · cases h

/-- No blank of a text has an "i" right behind it. -/
def Smooth (s : List Char) : Prop := s.IsChain fun c d => isBlank c = true → d ≠ 'i'

theorem smooth_word (hu : ∀ c ∈ u, isBlank c = false) (hs : Smooth s) : Smooth (u ++ s) := by
  have hplain {c : Char} (hc : c ∈ u) (d : Char) : isBlank c = true → d ≠ 'i' := by simp [hu c hc]
  refine List.isChain_append.mpr ⟨?_, hs, fun c hc d _ => hplain (List.mem_of_getLast? hc) d⟩
  exact (List.pairwise_of_forall_mem_list fun c hc d _ => hplain hc d).isChain

theorem smooth_gap (hu : Injection.Gap u) (hhead : s.head? ≠ some 'i') (hs : Smooth s) :
    Smooth (u ++ s) := by
  refine List.isChain_append.mpr ⟨?_, hs, ?_⟩
  · refine (List.pairwise_of_forall_mem_list fun c _ d hd _ => ?_).isChain
    rintro rfl
    exact absurd (hu.2 _ hd) (by decide)
  · rintro c - d hd - rfl
    exact hhead hd

theorem registered_plain {type : String} (h : Component.isRegistered type = true) :
    (∀ c ∈ type.toList, isBlank c = false) ∧ 'x' ∉ type.toList ∧ type.toList.head? ≠ some 'i' := by
  have hall : ∀ k ∈ Component.all, k.name.toList.all (fun c => decide (isBlank c = false)) = true
      ∧ 'x' ∉ k.name.toList ∧ k.name.toList.head? ≠ some 'i' := by decide +kernel
  obtain ⟨k, hk, rfl⟩ := Source.exists_component h
  exact (hall k hk).imp_left forall_of_all

theorem importEnd_plain {q : Char} {e : List Char} (hq : q = '\'' ∨ q = '"') (he : e = [] ∨ e = [';']) :
    ∀ c ∈ q :: e, isBlank c = false ∧ c ≠ 'x' := by
  rcases hq with rfl | rfl <;> rcases he with rfl | rfl <;> exact forall_of_all (by decide)

theorem ImportOf.smooth (h : ImportOf name line)
    (hname : Component.isRegistered (String.ofList name) = true) : Smooth line := by
  obtain ⟨hplain, -, hhead⟩ := registered_plain hname
  rw [String.toList_ofList] at hplain hhead
  obtain @⟨a, b, c, e, q, ha, hb, hc, hq, he⟩ := h
  have hend := importEnd_plain hq he
  have hpath : ∀ d ∈ Component.modulePath.toList, isBlank d = false := forall_of_all (by decide)
  have hword : ∀ d ∈ "import".toList, isBlank d = false := forall_of_all (by decide)
  have hfrom : ∀ d ∈ "from".toList, isBlank d = false := forall_of_all (by decide)
  have hquoted : Smooth (q :: (Component.modulePath.toList ++ (name ++ q :: e))) := by
    rw [← List.append_nil (q :: _)]
    refine smooth_word (fun d hd => ?_) .nil
    simp only [List.mem_cons, List.mem_append] at hd
    rcases hd with rfl | hd | hd | hd
    · exact (hend _ List.mem_cons_self).1
    · exact hpath d hd
    · exact hplain d hd
    · exact (hend d (List.mem_cons.mpr hd)).1
  have hqi : q ≠ 'i' := by rcases hq with rfl | rfl <;> decide
  have hne : name ≠ [] := by simpa using Source.registered_ne_nil hname
  refine smooth_word hword (smooth_gap ha ?_ (smooth_word hplain (smooth_gap hb ?_
    (smooth_word hfrom (smooth_gap hc ?_ hquoted)))))
  · rw [List.head?_append_of_ne_nil _ hne]
    exact hhead
  · exact fun h => absurd (Option.some.inj h) (by decide)
  · exact fun h => hqi (Option.some.inj h)

theorem ImportOf.not_mem (h : ImportOf name line)
    (hname : Component.isRegistered (String.ofList name) = true) : 'x' ∉ line := by
  have hplain := (registered_plain hname).2.1
  rw [String.toList_ofList] at hplain
  obtain @⟨a, b, c, e, q, ha, hb, hc, hq, he⟩ := h
  have hgap {s : List Char} (hs : Injection.Gap s) : 'x' ∉ s := fun hmem =>
    absurd (hs.2 _ hmem) (by decide)
  have hend : 'x' ∉ q :: e := fun hmem => (importEnd_plain hq he _ hmem).2 rfl
  have hwords : 'x' ∉ "import".toList ∧ 'x' ∉ "from".toList ∧ 'x' ∉ Component.modulePath.toList := by
    decide
  simp only [List.mem_cons, List.mem_append, not_or] at hend ⊢
  exact ⟨hwords.1, hgap ha, hplain, hgap hb, hwords.2.1, hgap hc, hend.1, hwords.2.2, hplain, hend⟩

/-! The parts of a source. -/

theorem of_search {α : Type} {r : Recogniser α} {before : Option Char} {x : α} {rest : List Char}
    (h : search r before s = some (front, x, rest)) :
    ∃ tail, s = front ++ tail ∧ r (lastRead before front) tail = some (x, rest) := by
  induction s generalizing before front with
  | nil =>
    obtain ⟨⟨y, tail⟩, hr, heq⟩ := Option.map_eq_some_iff.mp h
    cases heq
    exact ⟨[], rfl, hr⟩
  | cons c s ih =>
    rw [search] at h
    split at h
    · rename_i hr
      cases h
      exact ⟨c :: s, rfl, hr⟩
    · obtain ⟨⟨first, y, tail⟩, hs, heq⟩ := Option.map_eq_some_iff.mp h
      cases heq
      obtain ⟨tail, rfl, hr⟩ := ih hs
      exact ⟨tail, rfl, hr⟩

theorem suffix_of_after? (h : after? u s = some v) : v <:+ s :=
  ⟨u, (after?_eq_some_iff.mp h).symm⟩

theorem suffix_of_blanks? (h : blanks? s = some v) : v <:+ s := by
  obtain ⟨b, -, rfl, -⟩ := Injection.blanks?_eq_some_iff.mp h
  exact List.suffix_append b v

/-- The opening of the function starts with its first word. -/
theorem of_wrapperOpening {before : Option Char} (h : wrapperOpening before s = some ((), v)) :
    ∃ rest, s = "export".toList ++ rest ∧ v <:+ rest := by
  simp only [wrapperOpening, Option.bind_eq_bind, Option.bind_eq_some_iff] at h
  obtain ⟨s₁, hexport, s₂, h₁, s₃, h₂, s₄, h₃, s₅, h₄, s₆, h₅, s₇, h₆, s₈, h₇, s₉, h₈, s₁₀, h₉, h⟩ := h
  cases h
  refine ⟨s₁, after?_eq_some_iff.mp hexport, ?_⟩
  have hwords : s₇ <:+ s₁ := (suffix_of_after? h₆).trans <| (suffix_of_blanks? h₅).trans <|
    (suffix_of_after? h₄).trans <| (suffix_of_blanks? h₃).trans <|
    (suffix_of_after? h₂).trans (suffix_of_blanks? h₁)
  have hsign {a b c : List Char} (h : after? a (trimStart b) = some c) : c <:+ b :=
    (suffix_of_after? h).trans (List.dropWhile_suffix _)
  exact (hsign h₉).trans ((hsign h₈).trans ((hsign h₇).trans hwords))

theorem of_closingLine {before : Option Char} (h : closingLine before s = some ((), v)) :
    s = '\x7d' :: v := by
  simp only [closingLine, Option.bind_eq_bind, Option.bind_eq_some_iff] at h
  obtain ⟨rest, hbrace, h⟩ := h
  split at h
  · cases h
    exact after?_eq_some_iff.mp hbrace
  · cases h

theorem of_splitLastBrace? (h : splitLastBrace? s = some (u, v)) : s = u ++ '\x7d' :: v := by
  rw [splitLastBrace?] at h
  split at h
  · cases h
  · rename_i c rest hrest
    cases h
    have hhead := List.head?_dropWhile_not (fun c => decide (c ≠ '\x7d')) s.reverse
    rw [hrest] at hhead
    obtain rfl : c = '\x7d' := by simpa using hhead
    have hsplit := List.takeWhile_append_dropWhile (p := fun c => decide (c ≠ '\x7d')) (l := s.reverse)
    rw [hrest] at hsplit
    simpa using (congrArg List.reverse hsplit).symm

/-- A source is made of the text in front, an opening, the body, its brace and the text behind. -/
theorem of_parts? {p : Parts} (h : parts? source = some p) :
    ∃ opening, source = p.before ++ (("export".toList ++ opening) ++ (p.body ++ '\x7d' :: p.after)) := by
  simp only [parts?, Option.bind_eq_bind, Option.bind_eq_some_iff] at h
  obtain ⟨⟨front, _, inner⟩, hopen, h⟩ := h
  obtain ⟨tail, rfl, htail⟩ := of_search hopen
  obtain ⟨rest, rfl, opening, rfl⟩ := of_wrapperOpening htail
  dsimp only at h
  split at h
  · rename_i body _ after hclose
    cases h
    obtain ⟨tail, rfl, hbrace⟩ := of_search hclose
    obtain rfl := of_closingLine hbrace
    exact ⟨opening, by simp⟩
  · obtain ⟨⟨body, after⟩, hbrace, h⟩ := Option.bind_eq_some_iff.mp h
    cases h
    rw [of_splitLastBrace? hbrace]
    exact ⟨opening, by simp⟩

/-! The lines around the function. -/

/-- What stands before a place on its line, where only a newline ends a line. -/
def lineBefore (s : List Char) : List Char := s.rtakeWhile fun c => !decide (c = '\n')

/-- What stands behind a place on its line. -/
def lineBehind (s : List Char) : List Char := s.takeWhile fun c => !decide (c = '\n')

/-- The characters behind which the check of imports does not look for one on the same line. -/
def hides (c : Char) : Bool := c = '\x7d' || (isBlank c && !isSpaceOrTab c)

/-- An import that the check of imports does not read: it stands behind such a character, or the bare
word stands right before the function and makes one word with its opening. -/
inductive Unread (front line back : List Char) : Prop
  | hidden {c : Char} (hc : c ∈ lineBefore front) (h : hides c = true)
  | glued {rest : List Char} (hline : line = "import".toList) (hback : back = "export".toList ++ rest)

/-- A text that stands before or behind the function, with the rest of the source around it. What starts
like an import is all that it may hold. -/
structure Side (source pre part post : List Char) : Prop where
  split : source = pre ++ (part ++ post)
  before : ∀ c ∈ pre.getLast?, c = '\x7d'
  behind : post = [] ∨ ∃ rest, post = "export".toList ++ rest
  opened : ∀ line ∈ lines part, trim line ≠ [] → (wholeWord? "import".toList (trim line)).isSome = true
  imports : ∀ line ∈ splitNewlines source, isImportLine line = true → importViolations (trim line) = []

variable {pre part post : List Char}

theorem of_wholeWord? (h : (wholeWord? u s).isSome = true) :
    ∃ rest, s = u ++ rest ∧ rest.head?.any isWord = false := by
  obtain ⟨found, hfound⟩ := Option.isSome_iff_exists.mp h
  simp only [wholeWord?, Option.bind_eq_bind, Option.bind_eq_some_iff] at hfound
  obtain ⟨rest, hrest, hfound⟩ := hfound
  refine ⟨rest, after?_eq_some_iff.mp hrest, ?_⟩
  split at hfound
  · cases hfound
  · rename_i hword
    exact Bool.eq_false_iff.mpr hword

/-- The first character of a line, blanks apart, is the first of the word that opens an import. -/
theorem Side.head_of_line (h : Side source pre (u ++ c :: v) post) (hc : isBlank c = false)
    (hu : ∀ d ∈ u.rtakeWhile fun d => !isLineEnd d, isBlank d = true) : c = 'i' := by
  have hend : ∀ d ∈ [c], isLineEnd d = false := by
    intro d hd
    obtain rfl := List.mem_singleton.mp hd
    cases hline : isLineEnd d with
    | false => rfl
    | true => rw [isBlank_of_isLineEnd hline] at hc; cases hc
  have hline := (mem_lines_iff (by simp)).mpr (hasPiece_around hend u v)
  have hhead := head?_trim (v := v.takeWhile fun d => !isLineEnd d) hu hc
  have hne : trim (u.rtakeWhile (fun d => !isLineEnd d) ++ c :: v.takeWhile fun d => !isLineEnd d)
      ≠ [] := by
    intro hnil
    rw [hnil] at hhead
    cases hhead
  obtain ⟨rest, heq, -⟩ := of_wholeWord? (h.opened _ hline hne)
  rw [List.singleton_append] at heq
  rw [heq] at hhead
  exact (Option.some.inj hhead).symm

theorem isSpaceOrTab_of_hides (hc : isBlank c = true) (h : hides c = false) : isSpaceOrTab c = true := by
  simp only [hides, Bool.or_eq_false_iff, hc, Bool.true_and, Bool.not_eq_false'] at h
  exact h.2

/-- In front of a line stand only spaces and tabs, unless something hides it. -/
theorem lineBefore_cases (hu : ∀ c ∈ u.getLast?, c = '\x7d' ∨ isLineEnd c = true)
    (hv : ∀ c ∈ v, isBlank c = true) :
    (∃ c ∈ lineBefore (u ++ v), hides c = true) ∨ ∀ c ∈ lineBefore (u ++ v), isSpaceOrTab c = true := by
  by_cases hhides : ∃ c ∈ lineBefore (u ++ v), hides c = true
  · exact .inl hhides
  right
  have hplain {c : Char} (hc : c ∈ lineBefore (u ++ v)) : hides c = false :=
    Bool.eq_false_iff.mpr fun h => hhides ⟨c, hc, h⟩
  have hsuffix : lineBefore (u ++ v) <:+ v := by
    rcases List.eq_nil_or_concat' u with rfl | ⟨u, d, rfl⟩
    · exact List.rtakeWhile_suffix _ _
    · rw [List.append_assoc, List.singleton_append] at hplain ⊢
      refine (rtakeWhile_cases _ u v d).resolve_right fun hd => ?_
      rcases hu d (by simp) with rfl | hline
      · cases hplain hd
      · have hspace : isSpaceOrTab d = true :=
          isSpaceOrTab_of_hides (isBlank_of_isLineEnd hline) (hplain hd)
        simp only [isSpaceOrTab, Bool.or_eq_true, decide_eq_true_eq] at hspace
        rcases hspace with rfl | rfl <;> cases hline
  exact fun c hc => isSpaceOrTab_of_hides (hv c (hsuffix.subset hc)) (hplain hc)

theorem isImportLine_around (hu : ∀ c ∈ u, isSpaceOrTab c = true)
    (hline : (wholeWord? "import".toList line).isSome = true)
    (hv : line = "import".toList → v.head?.any isWord = false) :
    isImportLine (u ++ (line ++ v)) = true := by
  obtain ⟨rest, rfl, hrest⟩ := of_wholeWord? hline
  have hend : (rest ++ v).head?.any isWord = false := by
    cases rest with
    | nil => exact hv (List.append_nil _)
    | cons => exact hrest
  have hword : wholeWord? "import".toList ("import".toList ++ (rest ++ v)) = some (rest ++ v) := by
    rw [wholeWord?, after?_append]
    show (if (rest ++ v).head?.any isWord then none else some (rest ++ v)) = _
    rw [hend]
    rfl
  rw [isImportLine, List.dropWhile_append_of_pos hu, List.append_assoc, dropWhile_of_head?, hword]
  · rfl
  · intro c hc
    obtain rfl : 'i' = c := Option.some.inj hc
    decide

/-- What the check of imports lets pass. -/
theorem exists_importOf_of_passed (h : importViolations line = [])
    (hend : ∀ c ∈ line.getLast?, isBlank c = false) :
    ∃ name, Component.isRegistered (String.ofList name) = true ∧ ImportOf name line := by
  rw [importViolations] at h
  split at h
  · cases h
  · split at h
    · split at h
      · rename_i hany
        obtain ⟨name, hname, hreg⟩ := (Option.any_eq_true _ _).mp hany
        exact ⟨name, hreg, importOf_of_componentImport? hname hend⟩
      · cases h
    · rename_i hlibraries
      exact (hlibraries (List.map_eq_nil_iff.mp h)).elim

/-- Of a line that reaches into the opening of the function, the first word of that belongs to it. -/
theorem mem_of_lineBehind {rest : List Char} (h : lineBehind (u ++ ("export".toList ++ rest)) = u ++ v) :
    'x' ∈ v := by
  have hinline : ∀ c ∈ u, (!decide (c = '\n')) = true := by
    intro c hc
    have hmem : c ∈ lineBehind (u ++ ("export".toList ++ rest)) := h ▸ List.mem_append_left v hc
    exact List.mem_takeWhile_imp (p := fun c => !decide (c = '\n')) hmem
  have hword : ∀ c ∈ "export".toList, (!decide (c = '\n')) = true := forall_of_all (by decide)
  rw [lineBehind, List.takeWhile_append_of_pos hinline, List.takeWhile_append_of_pos hword] at h
  rw [← List.append_cancel_left h]
  simp

/-- Behind a line end and blanks a further line starts. -/
theorem Side.head_behind (h : Side source pre (u ++ d :: (v ++ c :: s)) post) (hd : isLineEnd d = true)
    (hv : ∀ e ∈ v, isBlank e = true) (hc : isBlank c = false) : c = 'i' := by
  have hside : Side source pre ((u ++ d :: v) ++ c :: s) post := by simpa using h
  refine hside.head_of_line hc fun e he => ?_
  rcases rtakeWhile_cases (fun c => !isLineEnd c) u v d with hsuffix | hmem
  · exact hv e (hsuffix.subset he)
  · have hfree := List.mem_rtakeWhile_imp hmem
    simp [hd] at hfree

theorem Smooth.ne_of_append (h : Smooth (u ++ c :: v)) (hd : d ∈ u.getLast?) (hblank : isBlank d = true) :
    c ≠ 'i' := (List.isChain_append.mp h).2.2 d hd c rfl hblank

/-- An import that the check of imports reads ends where its line ends: more than blanks behind it would
start a further line, and no further word of an import starts like one. -/
theorem Side.blank_of_importOf {x b y z e : List Char}
    (h : Side source pre (x ++ (line ++ (b ++ y))) post) (hb : ∀ c ∈ b, isBlank c = true)
    (hy : ∀ c ∈ y.head?, isLineEnd c = true) (himport : ImportOf name (line ++ z))
    (hname : Component.isRegistered (String.ofList name) = true) (he : ∀ c ∈ e, isBlank c = true)
    (hread : lineBehind (b ++ (y ++ post)) = z ++ e) : ∀ c ∈ z, isBlank c = true := by
  rcases free_or_cut (fun c => !isBlank c) z with hfree | ⟨blanks, c, more, rfl, hblanks, hc⟩
  · simpa using hfree
  exfalso
  have hc : isBlank c = false := by simpa using hc
  have hblanks : ∀ d ∈ blanks, isBlank d = true := by simpa using hblanks
  have hback : blanks ++ c :: (more ++ e) <+: b ++ (y ++ post) := by
    rw [← List.cons_append, ← List.append_assoc, ← hread]
    exact List.takeWhile_prefix _
  obtain ⟨tail, hback⟩ := hback
  rw [List.append_assoc, List.cons_append] at hback
  rcases cut_cases hback.symm with ⟨k, rfl, hk⟩ | ⟨w, rfl, -⟩
  swap
  · have hblank := hb c (by simp)
    rw [hc] at hblank
    cases hblank
  rcases cut_cases hk with ⟨w, rfl, hpost⟩ | ⟨w, rfl, -⟩
  · -- the opening of the function would stand in the import
    have hne : post ≠ [] := by
      rw [hpost]
      simp
    obtain ⟨rest, rfl⟩ := h.behind.resolve_left hne
    have hreach : lineBehind ((b ++ y) ++ ("export".toList ++ rest))
        = (b ++ y) ++ (w ++ c :: more ++ e) := by simpa using hread
    rcases List.mem_append.mp (mem_of_lineBehind hreach) with hx | hx
    · have hend : w ++ c :: more <:+ b ++ (y ++ w) ++ c :: more := ⟨b ++ y, by simp⟩
      exact himport.not_mem hname (List.mem_append_right _ (hend.subset hx))
    · exact absurd (he _ hx) (by decide)
  · -- what stands behind the line end would be a line of its own
    cases k with
    | nil =>
      have hblank := isBlank_of_isLineEnd (hy c rfl)
      rw [hc] at hblank
      cases hblank
    | cons d k =>
      have hk : ∀ e ∈ k, isBlank e = true := fun e he => hblanks e (by simp [he])
      have hside : Side source pre ((x ++ (line ++ b)) ++ d :: (k ++ c :: w)) post := by simpa using h
      obtain ⟨l, hl⟩ : ∃ l, (b ++ d :: k).getLast? = some l := Option.isSome_iff_exists.mp (by simp)
      have hlast : (line ++ (b ++ d :: k)).getLast? = some l := by
        rw [List.getLast?_append, hl]
        rfl
      have hsmooth := himport.smooth hname
      rw [← List.append_assoc] at hsmooth
      exact hsmooth.ne_of_append hlast (hblanks l (List.mem_of_getLast? hl))
        (hside.head_behind (hy d rfl) hk hc)

theorem isBlank_of_isSpaceOrTab (h : isSpaceOrTab c = true) : isBlank c = true := by
  simp only [isSpaceOrTab, Bool.or_eq_true, decide_eq_true_eq] at h
  rcases h with rfl | rfl <;> decide

theorem not_isWord_head_lineBehind (h : s.head?.any isWord = false) :
    (lineBehind s).head?.any isWord = false := by
  cases s with
  | nil => rfl
  | cons c s =>
    rw [lineBehind, List.takeWhile_cons]
    split
    · exact h
    · rfl

/-- A line that the check of imports reads is an import of a component. -/
theorem Side.exists_importOf {x b y : List Char} (h : Side source pre (x ++ (line ++ (b ++ y))) post)
    (hopened : (wholeWord? "import".toList line).isSome = true)
    (hhead : ∀ c ∈ line.head?, isBlank c = false) (hlast : ∀ c ∈ line.getLast?, isBlank c = false)
    (hfree : ∀ c ∈ line, decide (c = '\n') = false) (hb : ∀ c ∈ b, isBlank c = true)
    (hy : ∀ c ∈ y.head?, isLineEnd c = true)
    (hplain : ∀ c ∈ lineBefore (pre ++ x), isSpaceOrTab c = true)
    (hword : line = "import".toList → (b ++ (y ++ post)).head?.any isWord = false) :
    ∃ name, Component.isRegistered (String.ofList name) = true ∧ ImportOf name line := by
  have hne : line ≠ [] := by
    rintro rfl
    cases hopened
  have hblank : ∀ c ∈ lineBefore (pre ++ x), isBlank c = true :=
    fun c hc => isBlank_of_isSpaceOrTab (hplain c hc)
  have hsource : source = (pre ++ x) ++ (line ++ (b ++ (y ++ post))) := by
    rw [h.split]
    simp
  have hmem :
      lineBefore (pre ++ x) ++ (line ++ lineBehind (b ++ (y ++ post))) ∈ splitNewlines source := by
    rw [hsource]
    exact mem_splitNewlines_iff.mpr (hasPiece_around hfree _ _)
  have hfront : line = "import".toList → (lineBehind (b ++ (y ++ post))).head?.any isWord = false :=
    fun heq => not_isWord_head_lineBehind (hword heq)
  obtain ⟨name, hreg, himport⟩ :=
    exists_importOf_of_passed (h.imports _ hmem (isImportLine_around hplain hopened hfront))
      not_isBlank_of_getLast?_trim
  obtain ⟨z, e, htrim, hread, hzlast, he⟩ := exists_trim_around hblank hne hhead hlast
  rw [htrim] at himport
  have hz := h.blank_of_importOf hb hy himport hreg he hread
  obtain rfl := eq_nil_of_getLast? (fun c hc => by simp [hzlast c hc]) hz
  rw [List.append_nil] at himport
  exact ⟨name, hreg, himport⟩

theorem Side.before_line {x : List Char} (h : Side source pre part post)
    (hx : ∀ c ∈ x.getLast?, isLineEnd c = true) :
    ∀ c ∈ (pre ++ x).getLast?, c = '\x7d' ∨ isLineEnd c = true := by
  intro c hc
  rw [List.getLast?_append] at hc
  cases hlast : x.getLast? with
  | none => exact .inl (h.before c (by simpa [hlast] using hc))
  | some d =>
    obtain rfl : d = c := by simpa [hlast] using hc
    exact .inr (hx d hlast)

/-- The only word that may stand right behind a line is the first one of the opening of the function. -/
theorem Side.opening_of_word {b y : List Char} (h : Side source pre part post)
    (hb : ∀ c ∈ b, isBlank c = true) (hy : ∀ c ∈ y.head?, isLineEnd c = true)
    (hword : (b ++ (y ++ post)).head?.any isWord = true) :
    b = [] ∧ y = [] ∧ ∃ rest, post = "export".toList ++ rest := by
  cases b with
  | cons c b => simp [isWord_of_isBlank (hb c List.mem_cons_self)] at hword
  | nil =>
    cases y with
    | cons c y => simp [isWord_of_isBlank (isBlank_of_isLineEnd (hy c rfl))] at hword
    | nil =>
      rcases h.behind with rfl | hpost
      · cases hword
      · exact ⟨rfl, rfl, hpost⟩

theorem Side.import_or_unread (h : Side source pre part post) (hline : line ∈ lines part)
    (hne : trim line ≠ []) :
    (∃ name, Component.isRegistered (String.ofList name) = true ∧ ImportOf name (trim line))
      ∨ ∃ x y, part = x ++ (trim line ++ y) ∧ Unread (pre ++ x) (trim line) (y ++ post) := by
  have hopened := h.opened line hline hne
  have hnil : line ≠ [] := by
    rintro rfl
    exact hne rfl
  obtain ⟨x, y, rfl, hpiece⟩ := (mem_lines_iff hnil).mp hline
  obtain ⟨a, b, hsplit, ha, hb⟩ := exists_trim line
  have hpart : x ++ (line ++ y) = (x ++ a) ++ (trim line ++ (b ++ y)) := by
    conv_lhs => rw [hsplit]
    simp
  rcases lineBefore_cases (h.before_line hpiece.before) ha with ⟨c, hc, hhides⟩ | hplain
  · exact .inr ⟨x ++ a, b ++ y, hpart, .hidden (by simpa using hc) hhides⟩
  by_cases hword : trim line = "import".toList → (b ++ (y ++ post)).head?.any isWord = false
  · have hfree : ∀ c ∈ trim line, decide (c = '\n') = false := by
      intro c hc
      have hend := hpiece.free c (hsplit ▸ List.mem_append_right _ (List.mem_append_left _ hc))
      rw [decide_eq_false_iff_not]
      rintro rfl
      cases hend
    rw [hpart] at h
    rw [List.append_assoc] at hplain
    exact .inl (h.exists_importOf hopened not_isBlank_of_head?_trim not_isBlank_of_getLast?_trim hfree hb
      hpiece.behind hplain hword)
  · obtain ⟨heq, hword⟩ := Classical.not_imp.mp hword
    obtain ⟨rfl, rfl, rest, rfl⟩ :=
      h.opening_of_word hb hpiece.behind (Bool.not_eq_false _ ▸ hword)
    exact .inr ⟨x ++ a, [], hpart, .glued heq rfl⟩

theorem exists_parts_of_isValid (h : (check source).isValid = true) :
    ∃ p, parts? source = some p
      ∧ (∀ line ∈ lines p.before ++ lines p.after, trim line ≠ [] →
          (wholeWord? "import".toList (trim line)).isSome = true) := by
  have hwrapper : ∀ w ∈ wrapperViolations source, False := fun w hw =>
    not_mem_of_isValid (w := w) h (by simp [violations, hw])
  rw [wrapperViolations] at hwrapper
  split at hwrapper
  · exact (hwrapper _ List.mem_cons_self).elim
  · rename_i p hp
    refine ⟨p, hp, fun line hline hne => ?_⟩
    by_contra hword
    have hkept : ((trim line).isEmpty || (wholeWord? "import".toList (trim line)).isSome) = false :=
      Bool.or_eq_false_iff.mpr ⟨by simpa using hne, Bool.eq_false_iff.mpr hword⟩
    have hmem : .outside (String.ofList (trim line)) ∈ outsideViolations p :=
      List.mem_filterMap.mpr ⟨line, hline, if_neg (by rw [hkept]; decide)⟩
    exact hwrapper _ (List.mem_append_left _ (List.mem_append_left _ hmem))

theorem importViolations_of_isValid (h : (check source).isValid = true)
    (hline : line ∈ splitNewlines source) (himport : isImportLine line = true) :
    importViolations (trim line) = [] := by
  rw [List.eq_nil_iff_forall_not_mem]
  intro w hw
  have hmem : w ∈ allImportViolations source :=
    List.mem_append_left _ (List.mem_flatMap.mpr ⟨line, List.mem_filter.mpr ⟨hline, himport⟩, hw⟩)
  exact not_mem_of_isValid (w := w) h (by simp [violations, hmem])

/-- Around the function of a source that passes there are only blank lines and imports. Each import is
one of a registered component from its own module, but for those that the check of imports does not
read. -/
theorem imports_of_isValid (h : (check source).isValid = true) :
    ∃ p opening, parts? source = some p
      ∧ source = p.before ++ (("export".toList ++ opening) ++ (p.body ++ '\x7d' :: p.after))
      ∧ ∀ line ∈ lines p.before ++ lines p.after, trim line ≠ [] →
          (∃ name, Component.isRegistered (String.ofList name) = true ∧ ImportOf name (trim line))
          ∨ ∃ front back, source = front ++ (trim line ++ back)
              ∧ (front ++ trim line <+: p.before ∨ trim line ++ back <:+ p.after)
              ∧ (wholeWord? "import".toList (trim line)).isSome = true
              ∧ Unread front (trim line) back := by
  obtain ⟨p, hp, hopened⟩ := exists_parts_of_isValid h
  obtain ⟨opening, hsource⟩ := of_parts? hp
  have himports : ∀ line ∈ splitNewlines source, isImportLine line = true →
      importViolations (trim line) = [] := fun _ => importViolations_of_isValid h
  have hbefore : Side source [] p.before
      (("export".toList ++ opening) ++ (p.body ++ '\x7d' :: p.after)) := {
    split := hsource
    before := by simp
    behind := .inr ⟨_, List.append_assoc _ _ _⟩
    opened := fun line hline => hopened line (List.mem_append_left _ hline)
    imports := himports }
  have hafter : Side source
      ((p.before ++ (("export".toList ++ opening) ++ p.body)) ++ ['\x7d']) p.after [] := {
    split := by
      rw [hsource]
      simp
    before := by
      rw [List.getLast?_concat]
      simp
    behind := .inl rfl
    opened := fun line hline => hopened line (List.mem_append_right _ hline)
    imports := himports }
  refine ⟨p, opening, hp, hsource, fun line hline hne => ?_⟩
  have hword := hopened line hline hne
  rcases List.mem_append.mp hline with hline | hline
  · refine (hbefore.import_or_unread hline hne).imp_right ?_
    rintro ⟨x, y, hpart, hunread⟩
    refine ⟨x, _, ?_, .inl ⟨y, ?_⟩, hword, hunread⟩
    · rw [hbefore.split, hpart]
      simp
    · rw [hpart, List.append_assoc]
  · refine (hafter.import_or_unread hline hne).imp_right ?_
    rintro ⟨x, y, hpart, hunread⟩
    rw [List.append_nil] at hunread
    refine ⟨_, y, ?_, .inr ⟨x, hpart.symm⟩, hword, hunread⟩
    rw [hafter.split, hpart]
    simp

/-- An import of a module that is no component's. -/
def otherImport : List Char := "import fs from 'fs';".toList

/-- A source that opens with a form feed and this import. -/
def hiddenImport : List Char := '\x0c' :: (otherImport ++ '\n' :: moduleOf "Button")

theorem not_importOf_otherImport : ¬ ImportOf name otherImport := by
  have hsign : '@' ∉ otherImport := by decide
  intro h
  generalize otherImport = line at h hsign
  cases h
  simp [Component.modulePath] at hsign

theorem lines_of_hiddenImport :
    ∃ p, parts? hiddenImport = some p
      ∧ ∃ line ∈ lines p.before ++ lines p.after, trim line = otherImport := by
  let p : Parts :=
    ⟨'\x0c' :: (otherImport ++ ['\n']), "\n  return (\n    <Button />\n  );\n".toList, ['\n']⟩
  refine ⟨p, ?_, otherImport, ?_⟩
  · decide +kernel
  · decide +kernel

theorem unread_of_hiddenImport :
    ∃ front back, hiddenImport = front ++ (otherImport ++ back) ∧ Unread front otherImport back := by
  have hvalid : (check hiddenImport).isValid = true := by decide +kernel
  obtain ⟨p, opening, hp, -, hlines⟩ := imports_of_isValid hvalid
  obtain ⟨q, hq, line, hline, htrim⟩ := lines_of_hiddenImport
  obtain rfl := Option.some.inj (hq.symm.trans hp)
  have hne : trim line ≠ [] := by
    rw [htrim]
    decide
  have hfound := hlines line hline hne
  rw [htrim] at hfound
  obtain ⟨name, -, himport⟩ | ⟨front, back, hsplit, -, -, hunread⟩ := hfound
  · exact (not_importOf_otherImport himport).elim
  · exact ⟨front, back, hsplit, hunread⟩

theorem valid_of_hiddenImport :
    (check hiddenImport).isValid = true
      ∧ (∃ p, parts? hiddenImport = some p
          ∧ ∃ line ∈ lines p.before ++ lines p.after, trim line = otherImport)
      ∧ ∀ name, ¬ ImportOf name otherImport :=
  ⟨by decide +kernel, lines_of_hiddenImport, fun _ => not_importOf_otherImport⟩

end Wireframe.Lint
