import Mathlib.Data.List.Infix
import Mathlib.Data.List.TakeWhile
import Wireframe.Json.Reader
import Wireframe.Proofs.Json.Room
import Wireframe.Proofs.Outcome

/-! Digits in a row, and opening brackets. A reader finds a whole number too long, or too many containers
inside each other, and nothing else too much. So it finds nothing of that kind where no more digits follow
each other than it allows, and where it has room for as many containers as there are opening brackets. -/
namespace Wireframe

variable {limit count j k : Nat} {c : Char} {s t ds rest : List Char} {α β : Type}

namespace Text

/-- A text in which no more than so many digits follow each other, `count` of them in front of it. -/
def ShortRuns (limit : Nat) : Nat → List Char → Prop
  | _, [] => True
  | count, c :: s =>
    if c.isDigit then count < limit ∧ ShortRuns limit (count + 1) s else ShortRuns limit 0 s

theorem shortRuns_digit (hc : c.isDigit = true) :
    ShortRuns limit count (c :: s) ↔ count < limit ∧ ShortRuns limit (count + 1) s := by
  rw [ShortRuns, if_pos hc]

theorem shortRuns_other (hc : c.isDigit = false) :
    ShortRuns limit count (c :: s) ↔ ShortRuns limit 0 s := by
  rw [ShortRuns, if_neg (by simp [hc])]

theorem ShortRuns.mono (h : ShortRuns limit k s) (hjk : j ≤ k) : ShortRuns limit j s := by
  induction s generalizing j k with
  | nil => trivial
  | cons c s ih =>
    cases hc : c.isDigit with
    | true =>
      rw [shortRuns_digit hc] at h ⊢
      exact ⟨Nat.lt_of_le_of_lt hjk h.1, ih h.2 (Nat.succ_le_succ hjk)⟩
    | false =>
      rw [shortRuns_other hc] at h ⊢
      exact h

theorem ShortRuns.tail (h : ShortRuns limit k (c :: s)) : ShortRuns limit 0 s := by
  cases hc : c.isDigit with
  | true => exact ((shortRuns_digit hc).mp h).2.mono (Nat.zero_le _)
  | false => exact (shortRuns_other hc).mp h

theorem ShortRuns.suffix (h : ShortRuns limit k s) (ht : t <:+ s) : ShortRuns limit 0 t := by
  obtain ⟨front, rfl⟩ := ht
  induction front generalizing k with
  | nil => exact h.mono (Nat.zero_le _)
  | cons c front ih => exact ih h.tail

theorem ShortRuns.front (h : ShortRuns limit k (s ++ t)) : ShortRuns limit k s := by
  induction s generalizing k with
  | nil => trivial
  | cons c s ih =>
    rw [List.cons_append] at h
    cases hc : c.isDigit with
    | true =>
      rw [shortRuns_digit hc] at h ⊢
      exact ⟨h.1, ih h.2⟩
    | false =>
      rw [shortRuns_other hc] at h ⊢
      exact ih h

theorem ShortRuns.within (h : ShortRuns limit k s) (ht : t <:+: s) : ShortRuns limit 0 t := by
  obtain ⟨front, back, rfl⟩ := ht
  exact h.front.suffix (List.suffix_append front t)

/-- Digits in front do not matter to a text that starts with none. -/
theorem ShortRuns.of_head? (h : ShortRuns limit 0 s) (hs : ∀ c ∈ s.head?, c.isDigit = false) :
    ShortRuns limit k s := by
  cases s with
  | nil => trivial
  | cons c s => rwa [shortRuns_other (hs c rfl)] at h ⊢

theorem ShortRuns.length_le (h : ShortRuns limit k (ds ++ t)) (hk : k ≤ limit)
    (hd : ∀ c ∈ ds, c.isDigit = true) : k + ds.length ≤ limit := by
  induction ds generalizing k with
  | nil => exact hk
  | cons c ds ih =>
    obtain ⟨hlt, hrest⟩ := (shortRuns_digit (hd c List.mem_cons_self)).mp h
    have := ih hrest hlt fun d hmem => hd d (List.mem_cons_of_mem _ hmem)
    rw [List.length_cons]
    omega

/-- A text is such a text if none of its parts is a longer row of digits. -/
theorem shortRuns_of_rows (h : ∀ ds, ds <:+: s → (∀ c ∈ ds, c.isDigit = true) → ds.length ≤ limit) :
    ShortRuns limit 0 s := by
  suffices hall : ∀ front, (∀ c ∈ front, c.isDigit = true) →
      (∀ ds, ds <:+: front ++ s → (∀ c ∈ ds, c.isDigit = true) → ds.length ≤ limit) →
      ShortRuns limit front.length s from hall [] nofun h
  clear h
  induction s with
  | nil => exact fun _ _ _ => trivial
  | cons c s ih =>
    intro front hfront h
    cases hc : c.isDigit with
    | true =>
      have hrun : ∀ d ∈ front ++ [c], d.isDigit = true :=
        List.forall_mem_append.mpr ⟨hfront, List.forall_mem_singleton.mpr hc⟩
      have hlong := h (front ++ [c]) ⟨[], s, by simp⟩ hrun
      rw [shortRuns_digit hc]
      rw [List.length_append, List.length_singleton] at hlong
      refine ⟨hlong, ?_⟩
      have hnext := ih (front ++ [c]) hrun fun ds hds => h ds (by simpa using hds)
      rwa [List.length_append, List.length_singleton] at hnext
    | false =>
      rw [shortRuns_other hc]
      exact ih [] nofun fun ds hds =>
        h ds (hds.trans ((List.suffix_cons c s).trans (List.suffix_append front _)).isInfix)

end Text

namespace Json
open Text Outcome

/-- The opening brackets in a text. -/
def openers (s : List Char) : Nat := s.countP fun c => c = '[' ∨ c = '\x7b'

/-- A text in which a reader with some room cannot find anything too much. -/
structure Modest (room : Room) (s : List Char) : Prop where
  short : ShortRuns digitLimit 0 s
  shallow : room.Takes (openers s)

variable {room inner : Room}

theorem Modest.suffix (h : Modest room s) (ht : t <:+ s) : Modest room t :=
  ⟨h.short.suffix ht, h.shallow.mono (ht.sublist.countP_le)⟩

theorem Modest.within (h : Modest room s) (ht : t <:+: s) : Modest room t :=
  ⟨h.short.within ht, h.shallow.mono (ht.sublist.countP_le)⟩

/-- Behind an opening bracket there is room for what is inside. -/
theorem Modest.exists_inner (h : Modest room (c :: s)) (hc : c = '[' ∨ c = '\x7b') :
    ∃ inner, room.inner? = some inner ∧ Modest inner s := by
  have hshallow := h.shallow
  rw [openers, List.countP_cons_of_pos (by simpa using hc)] at hshallow
  obtain ⟨inner, hinner, htakes⟩ := Room.takes_succ_iff.mp hshallow
  exact ⟨inner, hinner, h.short.tail, htakes⟩

/-- A reader's result that does not say that something is too much, and leaves an end of the text. -/
def Heeds (s : List Char) : Except Stop (α × List Char) → Prop
  | .ok (_, rest) => rest <:+ s
  | .error stop => ∀ e, stop.fault ≠ .excess e

variable {x : Except Stop (α × List Char)} {f : α × List Char → Except Stop (β × List Char)}

theorem Heeds.trans (h : Heeds t x) (ht : t <:+ s) : Heeds s x := by
  cases x with
  | ok found => exact List.IsSuffix.trans h ht
  | error stop => exact h

theorem Heeds.bind (h : Heeds s x) (hf : ∀ a rest, rest <:+ s → Heeds s (f (a, rest))) :
    Heeds s (x >>= f) := by
  cases x with
  | ok found => exact hf found.1 found.2 h
  | error stop => exact h

theorem enter_eq_ok {e : Excess} : enter room e s = .ok inner ↔ room.inner? = some inner := by
  unfold enter
  cases room.inner? with
  | none => simp
  | some r => simp

theorem skipBlanks_suffix (s : List Char) : skipBlanks s <:+ s := List.dropWhile_suffix _

theorem heeds_readText (opening done s : List Char) : Heeds s (readText opening done s) := by
  fun_induction readText opening done s with
  | case1 | case3 | case4 | case5 | case10 | case12 | case13 => exact fun _ => nofun
  | case2 done rest => exact List.suffix_cons _ _
  | case6 _ a b c d _ _ _ e f g h _ _ _ _ _ _ ih =>
    exact ih.trans ⟨['\\', 'u', a, b, c, d, '\\', 'u', e, f, g, h], rfl⟩
  | case7 _ a b c d _ _ _ _ _ _ _ _ _ _ _ _ ih => exact ih.trans ⟨['\\', 'u', a, b, c, d], rfl⟩
  | case8 _ a b c d _ _ _ _ _ _ ih => exact ih.trans ⟨['\\', 'u', a, b, c, d], rfl⟩
  | case9 _ a b c d _ _ _ _ _ ih => exact ih.trans ⟨['\\', 'u', a, b, c, d], rfl⟩
  | case11 _ c _ _ _ _ _ ih => exact ih.trans ⟨['\\', c], rfl⟩
  | case14 _ c _ _ _ _ _ _ _ ih => exact ih.trans ⟨[c], rfl⟩

theorem span_suffix (p : Char → Bool) (s : List Char) : (s.span p).2 <:+ s := by
  rw [List.span_eq_takeWhile_dropWhile]
  exact List.dropWhile_suffix _

theorem wholeDigits_suffix (s : List Char) : (wholeDigits s).2 <:+ s := by
  unfold wholeDigits
  split
  · exact List.suffix_cons _ _
  · exact span_suffix _ _

theorem fraction_suffix (s : List Char) : (fraction s).2 <:+ s := by
  unfold fraction
  split
  · rename_i rest
    dsimp only
    split
    · exact List.suffix_rfl
    · exact (span_suffix _ rest).trans (List.suffix_cons _ _)
  · exact List.suffix_rfl

theorem exponent?_suffix {e : Int} (h : exponent? s = some (e, rest)) : rest <:+ s := by
  unfold exponent? at h
  split at h
  · rename_i mark t
    split at h
    · split at h
      rename_i negative unsigned heq
      have hunsigned : unsigned <:+ t := by
        split at heq <;> cases heq
        · exact List.suffix_cons _ _
        · exact List.suffix_cons _ _
        · exact List.suffix_rfl
      dsimp only at h
      split at h
      · cases h
      · cases h
        exact ((span_suffix _ unsigned).trans hunsigned).trans (List.suffix_cons _ _)
    · cases h
  · cases h

theorem length_wholeDigits_le (h : ShortRuns limit 0 s) (hlimit : 0 < limit) :
    (wholeDigits s).1.length ≤ limit := by
  unfold wholeDigits
  split
  · exact hlimit
  · rw [List.span_eq_takeWhile_dropWhile]
    rw [← List.takeWhile_append_dropWhile (p := Char.isDigit) (l := s)] at h
    have := h.length_le (Nat.zero_le _) fun c hc => List.mem_takeWhile_imp hc
    rwa [Nat.zero_add] at this

theorem heeds_readNumber (h : ShortRuns digitLimit 0 s) : Heeds s (readNumber s) := by
  unfold readNumber
  split
  rename_i negative unsigned heq
  have hunsigned : unsigned <:+ s := by
    split at heq <;> cases heq
    · exact List.suffix_cons _ _
    · exact List.suffix_rfl
  have hwhole := wholeDigits_suffix unsigned
  have hlength := length_wholeDigits_le (h.suffix hunsigned) (by decide)
  generalize wholeDigits unsigned = w at hwhole hlength ⊢
  obtain ⟨whole, behind⟩ := w
  dsimp only at hwhole hlength ⊢
  split
  · exact fun _ => nofun
  · have hfraction := fraction_suffix behind
    generalize fraction behind = f at hfraction ⊢
    obtain ⟨places, left⟩ := f
    have hleft : left <:+ s := (hfraction.trans hwhole).trans hunsigned
    dsimp only
    split
    · rw [if_neg (Nat.not_lt.mpr hlength)]
      exact hleft
    · exact hleft
    · rename_i e rest hexponent
      exact (exponent?_suffix hexponent).trans hleft

theorem heeds_readPlain (h : ShortRuns digitLimit 0 s) : Heeds s (readPlain s) := by
  unfold readPlain
  split
  · exact List.suffix_append ['n', 'u', 'l', 'l'] _
  · exact List.suffix_append ['t', 'r', 'u', 'e'] _
  · exact List.suffix_append ['f', 'a', 'l', 's', 'e'] _
  · exact List.suffix_append ['N', 'a', 'N'] _
  · exact List.suffix_append ['I', 'n', 'f', 'i', 'n', 'i', 't', 'y'] _
  · exact List.suffix_append ['-', 'I', 'n', 'f', 'i', 'n', 'i', 't', 'y'] _
  · exact heeds_readNumber h

/-- A reader on so much fuel heeds every text in which nothing is too much. -/
def ReaderHeeds (reader : Room → List Char → Except Stop (α × List Char)) : Prop :=
  ∀ room s, Modest room s → Heeds s (reader room s)

theorem ReaderHeeds.behind {reader : Room → List Char → Except Stop (α × List Char)}
    (h : ReaderHeeds reader) (hs : Modest room s) (ht : t <:+ s) : Heeds s (reader room t) :=
  (h room t (hs.suffix ht)).trans ht

theorem readerHeeds_readItems {fuel : Nat} (hvalue : ReaderHeeds (readValue fuel))
    (hitems : ReaderHeeds (readItems fuel)) : ReaderHeeds (readItems (fuel + 1)) := by
  intro room s hs
  unfold readItems
  refine (hvalue room s hs).bind fun item rest hrest => ?_
  have hblanks := (skipBlanks_suffix rest).trans hrest
  dsimp only
  split
  · rename_i more heq
    exact (List.suffix_cons _ more).trans (heq ▸ hblanks)
  · rename_i more heq
    have hmore : more <:+ s := (List.suffix_cons _ more).trans (heq ▸ hblanks)
    exact (hitems.behind hs ((skipBlanks_suffix more).trans hmore)).bind fun _ _ h => h
  · exact fun _ => nofun

theorem readerHeeds_readEntries {fuel : Nat} (hvalue : ReaderHeeds (readValue fuel))
    (hentries : ReaderHeeds (readEntries fuel)) : ReaderHeeds (readEntries (fuel + 1)) := by
  intro room s hs
  unfold readEntries
  split
  · rename_i text
    refine ((heeds_readText _ _ text).trans (List.suffix_cons _ _)).bind fun key rest hrest => ?_
    have hblanks := (skipBlanks_suffix rest).trans hrest
    dsimp only
    split
    · rename_i more heq
      have hmore := (List.suffix_cons ':' more).trans (heq ▸ hblanks)
      refine (hvalue.behind hs ((skipBlanks_suffix more).trans hmore)).bind fun value rest hrest => ?_
      have hblanks := (skipBlanks_suffix rest).trans hrest
      dsimp only
      split
      · rename_i more heq
        exact (List.suffix_cons _ more).trans (heq ▸ hblanks)
      · rename_i more heq
        have hmore := (List.suffix_cons ',' more).trans (heq ▸ hblanks)
        exact (hentries.behind hs ((skipBlanks_suffix more).trans hmore)).bind fun _ _ h => h
      · exact fun _ => nofun
    · exact fun _ => nofun
  · exact fun _ => nofun

theorem readerHeeds_readValue {fuel : Nat} (hitems : ReaderHeeds (readItems fuel))
    (hentries : ReaderHeeds (readEntries fuel)) : ReaderHeeds (readValue (fuel + 1)) := by
  intro room s hs
  unfold readValue
  split
  · rename_i text
    exact ((heeds_readText _ _ text).trans (List.suffix_cons _ _)).bind fun _ _ h => h
  · rename_i rest
    obtain ⟨inner, hinner, hmodest⟩ := hs.exists_inner (.inl rfl)
    have hblanks := skipBlanks_suffix rest
    rw [enter_eq_ok.mpr hinner, ok_bind]
    refine Heeds.trans ?_ (List.suffix_cons '[' rest)
    split
    · rename_i more heq
      exact (List.suffix_cons _ more).trans (heq ▸ hblanks)
    · exact (hitems.behind hmodest hblanks).bind fun _ _ h => h
  · rename_i rest
    obtain ⟨inner, hinner, hmodest⟩ := hs.exists_inner (.inr rfl)
    have hblanks := skipBlanks_suffix rest
    rw [enter_eq_ok.mpr hinner, ok_bind]
    refine Heeds.trans ?_ (List.suffix_cons '\x7b' rest)
    split
    · rename_i more heq
      exact (List.suffix_cons _ more).trans (heq ▸ hblanks)
    · exact (hentries.behind hmodest hblanks).bind fun _ _ h => h
  · exact heeds_readPlain hs.short

theorem readerHeeds (fuel : Nat) : ReaderHeeds (readValue fuel) ∧ ReaderHeeds (readItems fuel)
    ∧ ReaderHeeds (readEntries fuel) := by
  induction fuel with
  | zero => exact ⟨fun _ _ _ _ => nofun, fun _ _ _ _ => nofun, fun _ _ _ _ => nofun⟩
  | succ fuel ih =>
    obtain ⟨hvalue, hitems, hentries⟩ := ih
    exact ⟨readerHeeds_readValue hitems hentries, readerHeeds_readItems hvalue hitems,
      readerHeeds_readEntries hvalue hentries⟩

/-- Where nothing is too much, a text is read or malformed. -/
theorem ne_excess_of_readWithin {stop : Stop} {e : Excess} (hs : Modest room s)
    (h : readWithin room s = .error stop) : stop.fault ≠ .excess e := by
  unfold readWithin at h
  split at h
  · cases h
    nofun
  · have hvalue := (readerHeeds (2 * s.length + 2)).1.behind hs (skipBlanks_suffix s)
    cases hrun : readValue (2 * s.length + 2) room (skipBlanks s) with
    | error stop' =>
      rw [hrun] at h hvalue
      cases h
      exact hvalue e
    | ok found =>
      obtain ⟨v, rest⟩ := found
      rw [hrun] at h
      simp only [bind, Except.bind] at h
      split at h <;> cases h
      nofun

end Json

end Wireframe
