import Mathlib.Data.Option.Basic
import Wireframe.Lint.Pattern
import Wireframe.Proofs.Input.Phrases

/-! What each construct looks like that the check of a module looks for. -/
namespace Wireframe.Lint
open Text Injection

variable {α : Type} {s start name rest word : List Char} {sign : Char} {p : Char → Bool}

/-- Behind a word edge a recogniser accepts just the texts of a shape, each up to where it stops. -/
def Reads (r : Recogniser α) (Shape : α → List Char → Prop) (p : Char → Bool) : Prop :=
  ∀ before s x rest, r before s = some (x, rest) ↔
    before.any isWord = false ∧ ∃ own, Shape x own ∧ s = own ++ rest ∧ ∀ c ∈ rest.head?, p c = false

theorem Reads.suffix {r : Recogniser α} {Shape : α → List Char → Prop} (h : Reads r Shape p)
    {before : Option Char} {x : α} (hr : r before s = some (x, rest)) : rest <:+ s := by
  obtain ⟨-, own, -, rfl, -⟩ := (h before s x rest).mp hr
  exact List.suffix_append own rest

/-- A recogniser behind a word edge, given what follows the edge. -/
theorem reads_atEdge {f : List Char → Option (α × List Char)} {Shape : α → List Char → Prop}
    (hword : ∀ x own, Shape x own → ∃ c ∈ own.head?, isWord c = true)
    (hf : ∀ s x rest, f s = some (x, rest) ↔
      ∃ own, Shape x own ∧ s = own ++ rest ∧ ∀ c ∈ rest.head?, p c = false) :
    Reads (atEdge f) Shape p := by
  intro before s x rest
  rw [← hf]
  -- What `f` finds starts with a word character, so the edge is there just where no such one is in front.
  have hedge (h : f s = some (x, rest)) : atWordEdge before s.head? = !before.any isWord := by
    obtain ⟨own, hshape, rfl, -⟩ := (hf _ _ _).mp h
    obtain ⟨c, hc, hcw⟩ := hword x own hshape
    rw [List.head?_append, show own.head? = some c from hc, atWordEdge, Option.some_or, Option.any_some, hcw]
    exact Bool.bne_true _
  rw [atEdge]
  constructor
  · intro h
    split at h
    · rename_i hat
      rw [hedge h] at hat
      exact ⟨Bool.not_eq_true' _ ▸ hat, h⟩
    · cases h
  · rintro ⟨hbefore, h⟩
    rw [hedge h, hbefore]
    exact h

theorem span_eq_iff : s.span p = (name, rest) ↔
    (∀ c ∈ name, p c = true) ∧ s = name ++ rest ∧ ∀ c ∈ rest.head?, p c = false := by
  constructor
  · intro h
    rw [List.span_eq_takeWhile_dropWhile, Prod.mk.injEq] at h
    obtain ⟨rfl, rfl⟩ := h
    exact ⟨fun _ hc => List.mem_takeWhile_imp hc, List.takeWhile_append_dropWhile.symm,
      not_of_head?_dropWhile⟩
  · rintro ⟨hname, rfl, hrest⟩
    exact span_append hname hrest

theorem span_cons {c : Char} (hc : p c = true) :
    (c :: s).span p = (c :: s.takeWhile p, s.dropWhile p) := by
  rw [List.span_eq_takeWhile_dropWhile, List.takeWhile_cons_of_pos hc, List.dropWhile_cons_of_pos hc]

theorem run?_eq_some_iff : run? p s = some (name, rest) ↔
    name ≠ [] ∧ (∀ c ∈ name, p c = true) ∧ s = name ++ rest ∧ ∀ c ∈ rest.head?, p c = false := by
  rw [← span_eq_iff, run?]
  split
  · rename_i hspan
    rw [hspan]
    constructor
    · intro h
      cases h
    · rintro ⟨hne, h⟩
      exact (hne (Prod.mk.inj h).1.symm).elim
  · rename_i hne
    rw [Option.some.injEq]
    refine ⟨fun h => ⟨?_, h⟩, And.right⟩
    rintro rfl
    exact hne rest h

theorem wholeWord?_eq_some_iff :
    wholeWord? word s = some rest ↔ s = word ++ rest ∧ ∀ c ∈ rest.head?, isWord c = false := by
  rw [wholeWord?, Option.bind_eq_bind, Option.bind_eq_some_iff]
  constructor
  · rintro ⟨found, hfound, h⟩
    split at h
    · cases h
    · rename_i hword
      cases h
      exact ⟨after?_eq_some_iff.mp hfound, (Option.any_eq_false _ _).mp (Bool.eq_false_iff.mpr hword)⟩
  · rintro ⟨rfl, hrest⟩
    exact ⟨rest, after?_append word rest, if_neg (Bool.eq_false_iff.mp ((Option.any_eq_false _ _).mpr hrest))⟩

theorem not_isBlank_of_isWord {c : Char} (h : isWord c = true) : isBlank c = false := by
  refine Bool.eq_false_iff.mpr fun hblank => ?_
  rw [isWord_of_isBlank hblank] at h
  cases h

theorem isWord_of_isAlpha {c : Char} (h : c.isAlpha = true) : isWord c = true := by
  have hlimit := toNat_of_isAlpha h
  have halphanum : c.isAlphanum = true := Bool.or_eq_true_iff.mpr (.inl h)
  rw [isWord, isAlphanumeric, if_pos (by omega), halphanum, Bool.or_true]

theorem isWord_of_isCapital {c : Char} (h : isCapital c = true) : isWord c = true := by
  obtain ⟨hlow, hhigh⟩ := Bool.and_eq_true_iff.mp h
  have hupper : c.isUpper = true := decide_eq_true ⟨of_decide_eq_true hlow, of_decide_eq_true hhigh⟩
  exact isWord_of_isAlpha (Bool.or_eq_true_iff.mpr (.inl hupper))

/-- A name that starts with a prefix and a capital. -/
def Capitalised (start name : List Char) : Prop :=
  ∃ c tail, name = start ++ c :: tail ∧ isCapital c = true ∧ ∀ d ∈ tail, isWord d = true

theorem capitalised?_eq_some_iff : capitalised? start s = some (name, rest) ↔
    Capitalised start name ∧ s = name ++ rest ∧ ∀ c ∈ rest.head?, isWord c = false := by
  rw [capitalised?, Option.bind_eq_bind, Option.bind_eq_some_iff]
  constructor
  · rintro ⟨found, hfound, h⟩
    obtain rfl := after?_eq_some_iff.mp hfound
    split at h
    · rename_i hcapital
      cases found with
      | nil => cases hcapital
      | cons c found =>
        have hc : isCapital c = true := hcapital
        have hrun : wordRun (c :: found) = (c :: found.takeWhile isWord, found.dropWhile isWord) :=
          span_cons (isWord_of_isCapital hc)
        rw [hrun] at h
        cases h
        refine ⟨⟨c, found.takeWhile isWord, rfl, hc, fun _ hd => List.mem_takeWhile_imp hd⟩, ?_,
          not_of_head?_dropWhile⟩
        rw [List.append_assoc, List.cons_append, List.takeWhile_append_dropWhile]
    · cases h
  · rintro ⟨⟨c, tail, rfl, hc, htail⟩, rfl, hrest⟩
    refine ⟨c :: (tail ++ rest), by simp, ?_⟩
    have hhead : (c :: (tail ++ rest)).head?.any isCapital = true := hc
    rw [if_pos hhead, wordRun, ← List.cons_append,
      span_append (List.forall_mem_cons.mpr ⟨isWord_of_isCapital hc, htail⟩) hrest]

/-- A name that starts with a prefix and a capital, with a sign behind it. -/
def signedName (start : List Char) (sign : Char) : Recogniser (List Char) := atEdge fun s => do
  let (name, rest) ← capitalised? start s
  return (name, ← after? [sign] (trimStart rest))

theorem hookCall_eq : hookCall = signedName "use".toList '(' := rfl

theorem eventHandlerProp_eq : eventHandlerProp = signedName "on".toList '=' := rfl

/-- The text of a name with a sign behind it. -/
def SignedText (start : List Char) (sign : Char) (name own : List Char) : Prop :=
  Capitalised start name ∧ ∃ gap, (∀ c ∈ gap, isBlank c = true) ∧ own = name ++ (gap ++ [sign])

theorem reads_signedName (hstart : ∃ c ∈ start.head?, isWord c = true) (hblank : isBlank sign = false)
    (hword : isWord sign = false) : Reads (signedName start sign) (SignedText start sign) fun _ => false := by
  refine reads_atEdge ?_ fun s name rest => ?_
  · rintro name own ⟨⟨c, tail, rfl, -, -⟩, gap, -, rfl⟩
    obtain ⟨a, ha, haw⟩ := hstart
    refine ⟨a, ?_, haw⟩
    rw [List.append_assoc, List.head?_append, show start.head? = some a from ha]
    rfl
  · rw [Option.bind_eq_bind, Option.bind_eq_some_iff]
    constructor
    · rintro ⟨⟨found, behind⟩, hfound, h⟩
      obtain ⟨hcapital, rfl, -⟩ := capitalised?_eq_some_iff.mp hfound
      obtain ⟨rest', hrest', h⟩ := Option.bind_eq_some_iff.mp h
      cases h
      obtain ⟨gap, hgap, rfl⟩ := (after?_trimStart_eq_some_iff hblank).mp hrest'
      exact ⟨_, ⟨hcapital, gap, hgap, rfl⟩, by simp, by simp⟩
    · rintro ⟨own, ⟨hcapital, gap, hgap, rfl⟩, rfl, -⟩
      refine ⟨(name, gap ++ sign :: rest), capitalised?_eq_some_iff.mpr ⟨hcapital, by simp, ?_⟩, ?_⟩
      · cases gap with
        | nil => simpa using hword
        | cons c gap => simpa using isWord_of_isBlank (hgap c List.mem_cons_self)
      · exact Option.bind_eq_some_iff.mpr
          ⟨rest, (after?_trimStart_eq_some_iff hblank).mpr ⟨gap, hgap, rfl⟩, rfl⟩

theorem reads_hookCall : Reads hookCall (SignedText "use".toList '(') fun _ => false :=
  reads_signedName ⟨'u', rfl, by decide⟩ (by decide) (by decide)

theorem reads_eventHandlerProp : Reads eventHandlerProp (SignedText "on".toList '=') fun _ => false :=
  reads_signedName ⟨'o', rfl, by decide⟩ (by decide) (by decide)

theorem reads_wholeWord (hstart : ∃ c ∈ word.head?, isWord c = true) :
    Reads (atEdge fun s => wholeWord? word s >>= fun rest => some ((), rest)) (fun _ own => own = word)
      isWord := by
  refine reads_atEdge (fun _ _ h => h ▸ hstart) fun s _ rest => ?_
  rw [Option.bind_eq_bind, Option.bind_eq_some_iff]
  constructor
  · rintro ⟨found, hfound, h⟩
    cases h
    obtain ⟨rfl, hrest⟩ := wholeWord?_eq_some_iff.mp hfound
    exact ⟨_, rfl, rfl, hrest⟩
  · rintro ⟨own, rfl, rfl, hrest⟩
    exact ⟨rest, wholeWord?_eq_some_iff.mpr ⟨rfl, hrest⟩, rfl⟩

theorem reads_functionWord : Reads functionWord (fun _ own => own = "function".toList) isWord :=
  reads_wholeWord ⟨'f', rfl, by decide⟩

theorem reads_debuggerWord : Reads debuggerWord (fun _ own => own = "debugger".toList) isWord :=
  reads_wholeWord ⟨'d', rfl, by decide⟩

theorem reads_innerHtmlWord : Reads innerHtmlWord (fun _ own => own = "dangerouslySetInnerHTML".toList) isWord :=
  reads_wholeWord ⟨'d', rfl, by decide⟩

/-- The text of a member of the console. -/
def MemberText (name own : List Char) : Prop :=
  (name ≠ [] ∧ ∀ c ∈ name, isWord c = true) ∧ ∃ gap gap', (∀ c ∈ gap, isBlank c = true) ∧
    (∀ c ∈ gap', isBlank c = true) ∧ own = "console".toList ++ (gap ++ '.' :: (gap' ++ name))

theorem reads_consoleMember : Reads consoleMember MemberText isWord := by
  refine reads_atEdge ?_ fun s name rest => ?_
  · rintro name own ⟨-, gap, gap', -, -, rfl⟩
    exact ⟨'c', rfl, by decide⟩
  · constructor
    · intro h
      obtain ⟨behind, hbehind, htail⟩ := Option.bind_eq_some_iff.mp h
      obtain ⟨member, hmember, hread⟩ := Option.bind_eq_some_iff.mp htail
      obtain rfl := after?_eq_some_iff.mp hbehind
      obtain ⟨gap, hgap, rfl⟩ := (after?_trimStart_eq_some_iff (by decide)).mp hmember
      obtain ⟨hne, hname, htrim, hrest⟩ := run?_eq_some_iff.mp hread
      obtain ⟨gap', heq, hgap'⟩ := exists_trimStart member
      refine ⟨_, ⟨⟨hne, hname⟩, gap, gap', hgap, hgap', rfl⟩, ?_, hrest⟩
      rw [heq, htrim]
      simp
    · rintro ⟨own, ⟨⟨hne, hname⟩, gap, gap', hgap, hgap', rfl⟩, rfl, hrest⟩
      refine Option.bind_eq_some_iff.mpr ⟨gap ++ '.' :: (gap' ++ (name ++ rest)),
        after?_eq_some_iff.mpr (by simp), ?_⟩
      refine Option.bind_eq_some_iff.mpr ⟨gap' ++ (name ++ rest),
        (after?_trimStart_eq_some_iff (by decide)).mpr ⟨gap, hgap, rfl⟩, ?_⟩
      have hhead : ∀ c ∈ (name ++ rest).head?, isBlank c = false := by
        obtain ⟨c, tail, rfl⟩ := List.exists_cons_of_ne_nil hne
        intro d hd
        cases hd
        exact not_isBlank_of_isWord (hname c List.mem_cons_self)
      rw [trimStart_append hgap' hhead]
      exact run?_eq_some_iff.mpr ⟨hne, hname, rfl, hrest⟩

/-- The keywords that declare a name. -/
def keywords : List (List Char) := ["const".toList, "let".toList, "var".toList]

theorem of_mem_keywords (h : word ∈ keywords) : word ≠ [] ∧ ∀ c ∈ word, isWord c = true := by
  simp only [keywords, List.mem_cons, List.not_mem_nil, or_false] at h
  rcases h with rfl | rfl | rfl <;> exact ⟨by decide, forall_of_all (by decide)⟩

/-- The text of a declaration. -/
def BindingText (found : List Char × List Char) (own : List Char) : Prop :=
  found.1 ∈ keywords ∧ (∃ c ∈ found.2.head?, isBindingStart c = true) ∧
    (∀ c ∈ found.2, isBindingChar c = true) ∧ ∃ gap, Gap gap ∧ own = found.1 ++ (gap ++ found.2)

theorem isBindingChar_of_isBindingStart {c : Char} (h : isBindingStart c = true) :
    isBindingChar c = true ∧ isBlank c = false := by
  simp only [isBindingStart, isLetter, Bool.or_eq_true, decide_eq_true_eq] at h
  rcases h with (halpha | rfl) | rfl
  · have hword := isWord_of_isAlpha halpha
    exact ⟨by simp [isBindingChar, hword], not_isBlank_of_isWord hword⟩
  · decide
  · decide

theorem bindingBy_eq_some_iff {found : List Char × List Char} : bindingBy word s = some (found, rest) ↔
    found.1 = word ∧ (∃ c ∈ found.2.head?, isBindingStart c = true) ∧
      (∀ c ∈ found.2, isBindingChar c = true) ∧ (∃ gap, Gap gap ∧ s = found.1 ++ (gap ++ (found.2 ++ rest))) ∧
      ∀ c ∈ rest.head?, isBindingChar c = false := by
  constructor
  · intro h
    obtain ⟨behind, hbehind, htail⟩ := Option.bind_eq_some_iff.mp h
    obtain ⟨named, hnamed, hread⟩ := Option.bind_eq_some_iff.mp htail
    obtain rfl := after?_eq_some_iff.mp hbehind
    obtain ⟨gap, hgap, rfl, -⟩ := blanks?_eq_some_iff.mp hnamed
    split at hread
    · rename_i hstart
      cases named with
      | nil => cases hstart
      | cons c named =>
        have hc : isBindingStart c = true := hstart
        rw [span_cons (isBindingChar_of_isBindingStart hc).1] at hread
        cases hread
        refine ⟨rfl, ⟨c, rfl, hc⟩, ?_, ⟨gap, hgap, ?_⟩, not_of_head?_dropWhile⟩
        · exact List.forall_mem_cons.mpr
            ⟨(isBindingChar_of_isBindingStart hc).1, fun _ hd => List.mem_takeWhile_imp hd⟩
        · rw [List.cons_append, List.takeWhile_append_dropWhile]
    · cases hread
  · rintro ⟨rfl, ⟨c, hc, hcs⟩, hall, ⟨gap, hgap, rfl⟩, hrest⟩
    have hhead : (found.2 ++ rest).head? = some c := by
      rw [List.head?_append, show found.2.head? = some c from hc]
      rfl
    refine Option.bind_eq_some_iff.mpr ⟨_, after?_append _ _, ?_⟩
    refine Option.bind_eq_some_iff.mpr ⟨found.2 ++ rest, blanks?_eq_some_iff.mpr ⟨gap, hgap, rfl, ?_⟩, ?_⟩
    · rw [hhead]
      rintro d hd
      cases hd
      exact (isBindingChar_of_isBindingStart hcs).2
    · rw [hhead, if_pos (show (some c).any isBindingStart = true from hcs), span_append hall hrest]

theorem reads_bindingDeclaration : Reads bindingDeclaration BindingText isBindingChar := by
  refine reads_atEdge ?_ fun s found rest => ?_
  · rintro ⟨word, name⟩ own ⟨hword, -, -, gap, -, rfl⟩
    obtain ⟨hne, hall⟩ := of_mem_keywords hword
    obtain ⟨c, word, rfl⟩ := List.exists_cons_of_ne_nil hne
    exact ⟨c, rfl, hall c List.mem_cons_self⟩
  · have hby (word : List Char) (hword : word ∈ keywords) (h : bindingBy word s = some (found, rest)) :
        ∃ own, BindingText found own ∧ s = own ++ rest ∧ ∀ c ∈ rest.head?, isBindingChar c = false := by
      obtain ⟨rfl, hstart, hall, ⟨gap, hgap, rfl⟩, hrest⟩ := bindingBy_eq_some_iff.mp h
      exact ⟨_, ⟨hword, hstart, hall, gap, hgap, rfl⟩, by simp, hrest⟩
    constructor
    · intro h
      rcases (Option.orElse_eq_some _ _ _).mp h with h | ⟨-, h⟩
      · exact hby _ (by decide) h
      · rcases (Option.orElse_eq_some _ _ _).mp h with h | ⟨-, h⟩
        · exact hby _ (by decide) h
        · exact hby _ (by decide) h
    · rintro ⟨own, ⟨hword, hstart, hall, gap, hgap, rfl⟩, rfl, hrest⟩
      obtain ⟨word, name⟩ := found
      have hfound : bindingBy word (word ++ (gap ++ name) ++ rest) = some ((word, name), rest) :=
        bindingBy_eq_some_iff.mpr ⟨rfl, hstart, hall, ⟨gap, hgap, by simp⟩, hrest⟩
      simp only [keywords, List.mem_cons, List.not_mem_nil, or_false] at hword
      rcases hword with rfl | rfl | rfl
      · rw [hfound]
        rfl
      · rw [hfound]
        rfl
      · rw [hfound]
        rfl

end Wireframe.Lint
