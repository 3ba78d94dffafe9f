import Wireframe.Proofs.Lint.Constructs

/-! Constructs in the parts of a text. A sign that no construct holds divides a text: what the check looks for
stands in front of the sign or behind it, and never on both sides. -/
namespace Wireframe.Lint
open Text Injection

variable {α : Type} {r : Recogniser α} {Shape : α → List Char → Prop}
variable {p : Char → Bool} {s own rest word signs : List Char} {c d : Char}

/-- A sign that no find reaches. What is found in front of it is found without it as well, and what is found
behind it is found at the start of a text. -/
structure Divides (d : Char) (r : Recogniser α) : Prop where
  front : ∀ before x y, (r before (x ++ d :: y)).isSome = (r before x).isSome
  behind : ∀ y, (r (some d) y).isSome = (r none y).isSome

theorem lastRead_divided (hd : Divides d r) (w y : List Char) :
    (r (lastRead (some d) w) y).isSome = (r (lastRead none w) y).isSome := by
  cases w with
  | nil => exact hd.behind y
  | cons c w => rfl

/-- A construct occurs in front of a dividing sign or behind it. -/
theorem Divides.occurs (hd : Divides d r) (x y : List Char) :
    occurs r (x ++ d :: y) = (Text.occurs r x || Text.occurs r y) := by
  have hread (u w : List Char) : lastRead none (u ++ d :: w) = lastRead (some d) w := List.foldl_append
  rw [Bool.eq_iff_iff, Bool.or_eq_true, occurs_iff, occurs_iff, occurs_iff]
  constructor
  · rintro ⟨u, v, heq, hfound⟩
    rcases List.append_eq_append_iff.mp heq with ⟨w, rfl, htail⟩ | ⟨w, rfl, rfl⟩
    · cases w with
      | nil =>
        obtain rfl : d :: y = v := htail
        have hfront := hd.front (lastRead none x) [] y
        rw [List.nil_append, ← List.append_nil x, hfound] at hfront
        exact .inl ⟨x, [], (List.append_nil x).symm, by simpa using hfront.symm⟩
      | cons e w =>
        obtain ⟨rfl, rfl⟩ := List.cons.inj htail
        rw [hread, lastRead_divided hd] at hfound
        exact .inr ⟨w, v, rfl, hfound⟩
    · rw [hd.front] at hfound
      exact .inl ⟨u, w, rfl, hfound⟩
  · rintro (⟨u, v, rfl, hfound⟩ | ⟨u, v, rfl, hfound⟩)
    · exact ⟨u, v ++ d :: y, List.append_assoc u v _, by rwa [hd.front]⟩
    · refine ⟨x ++ d :: u, v, by simp, ?_⟩
      rwa [hread, lastRead_divided hd]

/-- What a construct is made of, up to where it stops, says which signs divide it. -/
theorem Reads.divides (hr : Reads r Shape p) (hfree : ∀ v own, Shape v own → d ∉ own) (hp : p d = false)
    (hword : isWord d = false) : Divides d r where
  front before x y := by
    rw [Bool.eq_iff_iff, Option.isSome_iff_exists, Option.isSome_iff_exists]
    constructor
    · rintro ⟨⟨v, rest⟩, hfound⟩
      obtain ⟨hbefore, own, hown, heq, hstop⟩ := (hr _ _ _ _).mp hfound
      rcases List.append_eq_append_iff.mp heq with ⟨w, rfl, hrest⟩ | ⟨w, rfl, rfl⟩
      · cases w with
        | nil => exact ⟨(v, []), (hr _ _ _ _).mpr ⟨hbefore, x, by simpa using hown, by simp, by simp⟩⟩
        | cons e w =>
          obtain ⟨rfl, -⟩ := List.cons.inj hrest
          exact (hfree v _ hown (by simp)).elim
      · refine ⟨(v, w), (hr _ _ _ _).mpr ⟨hbefore, own, hown, rfl, ?_⟩⟩
        cases w with
        | nil => exact fun c hc => by cases hc
        | cons e w => exact hstop
    · rintro ⟨⟨v, rest⟩, hfound⟩
      obtain ⟨hbefore, own, hown, rfl, hstop⟩ := (hr _ _ _ _).mp hfound
      refine ⟨(v, rest ++ d :: y), (hr _ _ _ _).mpr ⟨hbefore, own, hown, List.append_assoc own rest _, ?_⟩⟩
      cases rest with
      | nil =>
        intro c hc
        obtain rfl : d = c := Option.some.inj hc
        exact hp
      | cons e rest => exact hstop
  behind y := by
    rw [Bool.eq_iff_iff, Option.isSome_iff_exists, Option.isSome_iff_exists]
    refine exists_congr fun found => ?_
    rw [hr _ _ _ found.2, hr _ _ _ found.2, Option.any_some, hword, Option.any_none]

/-- A construct with a sign in it does not occur where the sign does not stand. -/
theorem Reads.occurs_eq_false (hr : Reads r Shape p) (hsign : ∀ v own, Shape v own → c ∈ own) (hs : c ∉ s) :
    occurs r s = false := by
  refine Bool.eq_false_iff.mpr fun h => ?_
  obtain ⟨u, v, rfl, hfound⟩ := occurs_iff.mp h
  obtain ⟨⟨a, rest⟩, hfound⟩ := Option.isSome_iff_exists.mp hfound
  obtain ⟨-, own, hown, rfl, -⟩ := (hr _ _ _ _).mp hfound
  exact hs (by simp [hsign a own hown])

/-- What starts at a word edge does not occur where there are no words. -/
theorem occurs_atEdge_eq_false {f : List Char → Option (α × List Char)} (hs : ∀ c ∈ s, isWord c = false) :
    occurs (atEdge f) s = false := by
  refine Bool.eq_false_iff.mpr fun h => ?_
  obtain ⟨u, v, rfl, hfound⟩ := occurs_iff.mp h
  have hbefore : (lastRead none u).any isWord = false := by
    rcases List.eq_nil_or_concat' u with rfl | ⟨u, c, rfl⟩
    · rfl
    · rw [lastRead_concat]
      exact hs c (by simp)
  have hafter : v.head?.any isWord = false :=
    (Option.any_eq_false _ _).mpr fun c hc => by simpa using hs c (by simp [List.mem_of_mem_head? hc])
  rw [atEdge, atWordEdge, hbefore, hafter] at hfound
  cases hfound

/-! A construct that is one of two. -/

theorem Divides.either {q : Recogniser α} {q' : Recogniser α}
    (h : ∀ before s, (r before s).isSome = ((q before s).isSome || (q' before s).isSome)) (hq : Divides d q)
    (hq' : Divides d q') : Divides d r where
  front before x y := by rw [h, h, hq.front, hq'.front]
  behind y := by rw [h, h, hq.behind, hq'.behind]

theorem occurs_either {β γ : Type} {q : Recogniser β} {q' : Recogniser γ}
    (h : ∀ before s, (r before s).isSome = true → (q before s).isSome = true ∨ (q' before s).isSome = true)
    (hq : occurs q s = false) (hq' : occurs q' s = false) : occurs r s = false := by
  refine Bool.eq_false_iff.mpr fun hr => ?_
  obtain ⟨u, v, rfl, hfound⟩ := occurs_iff.mp hr
  rcases h _ _ hfound with hfound | hfound
  · rw [occurs_iff.mpr ⟨u, v, rfl, hfound⟩] at hq
    cases hq
  · rw [occurs_iff.mpr ⟨u, v, rfl, hfound⟩] at hq'
    cases hq'

theorem isSome_atEdge_orElse (f g : List Char → Option (α × List Char)) (before : Option Char)
    (s : List Char) : (atEdge (fun s => f s <|> g s) before s).isSome
      = ((atEdge f before s).isSome || (atEdge g before s).isSome) := by
  rw [atEdge, atEdge, atEdge]
  split
  · cases f s <;> rfl
  · rfl

/-! A word with signs behind it. -/

/-- What follows some signs, each of which blanks may precede. -/
def afterSigns? : List Char → List Char → Option (List Char)
  | [], s => some s
  | c :: signs, s => after? [c] (trimStart s) >>= afterSigns? signs

/-- A word and some signs behind it. -/
def signedWord (word signs : List Char) : Recogniser Unit := atEdge fun s =>
  after? word s >>= fun rest => afterSigns? signs rest >>= fun rest => some ((), rest)

/-- Signs that blanks may precede. -/
inductive Signs : List Char → List Char → Prop
  | nil : Signs [] []
  | cons {gap own : List Char} {c : Char} {signs : List Char} (hgap : ∀ c ∈ gap, isBlank c = true)
      (h : Signs signs own) : Signs (c :: signs) (gap ++ c :: own)

theorem afterSigns?_eq_some_iff (hsigns : ∀ c ∈ signs, isBlank c = false) :
    afterSigns? signs s = some rest ↔ ∃ own, Signs signs own ∧ s = own ++ rest := by
  induction signs generalizing s with
  | nil =>
    constructor
    · intro h
      cases h
      exact ⟨[], .nil, rfl⟩
    · rintro ⟨_, ⟨⟩, rfl⟩
      rfl
  | cons c signs ih =>
    obtain ⟨hc, hsigns⟩ := List.forall_mem_cons.mp hsigns
    rw [afterSigns?, Option.bind_eq_bind, Option.bind_eq_some_iff]
    constructor
    · rintro ⟨behind, hbehind, htail⟩
      obtain ⟨gap, hgap, rfl⟩ := (after?_trimStart_eq_some_iff hc).mp hbehind
      obtain ⟨own, hown, rfl⟩ := (ih hsigns).mp htail
      exact ⟨_, .cons hgap hown, by simp⟩
    · rintro ⟨_, hown, rfl⟩
      cases hown with
      | @cons gap own _ _ hgap hown =>
        exact ⟨own ++ rest, (after?_trimStart_eq_some_iff hc).mpr ⟨gap, hgap, by simp⟩,
          (ih hsigns).mpr ⟨own, hown, rfl⟩⟩

theorem reads_signedWord (hne : word ≠ []) (hword : ∀ c ∈ word, isWord c = true)
    (hsigns : ∀ c ∈ signs, isBlank c = false) :
    Reads (signedWord word signs) (fun _ own => ∃ tail, Signs signs tail ∧ own = word ++ tail)
      fun _ => false := by
  refine reads_atEdge ?_ fun s _ rest => ?_
  · rintro _ _ ⟨tail, -, rfl⟩
    obtain ⟨c, word, rfl⟩ := List.exists_cons_of_ne_nil hne
    exact ⟨c, rfl, hword c List.mem_cons_self⟩
  · rw [Option.bind_eq_bind, Option.bind_eq_some_iff]
    constructor
    · rintro ⟨behind, hbehind, htail⟩
      obtain ⟨rest', hrest', h⟩ := Option.bind_eq_some_iff.mp htail
      cases h
      obtain rfl := after?_eq_some_iff.mp hbehind
      obtain ⟨own, hown, rfl⟩ := (afterSigns?_eq_some_iff hsigns).mp hrest'
      exact ⟨_, ⟨own, hown, rfl⟩, by simp, by simp⟩
    · rintro ⟨_, ⟨tail, htail, rfl⟩, rfl, -⟩
      refine ⟨tail ++ rest, after?_eq_some_iff.mpr (List.append_assoc _ _ _), ?_⟩
      exact Option.bind_eq_some_iff.mpr ⟨rest, (afterSigns?_eq_some_iff hsigns).mpr ⟨tail, htail, rfl⟩, rfl⟩

theorem Signs.not_mem (h : Signs signs own) (hblank : isBlank d = false) (hd : d ∉ signs) : d ∉ own := by
  induction h with
  | nil => exact hd
  | cons hgap _ ih =>
    obtain ⟨hc, htail⟩ := not_or.mp (List.mem_cons.not.mp hd)
    intro hmem
    rcases List.mem_append.mp hmem with hmem | hmem
    · rw [hgap d hmem] at hblank
      cases hblank
    · rcases List.mem_cons.mp hmem with hmem | hmem
      · exact hc hmem
      · exact ih htail hmem

theorem Signs.mem (h : Signs signs own) (hc : c ∈ signs) : c ∈ own := by
  induction h with
  | nil => exact hc
  | cons _ _ ih =>
    rcases List.mem_cons.mp hc with rfl | hc
    · simp
    · simp [ih hc]

end Wireframe.Lint
