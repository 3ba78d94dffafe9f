import Mathlib.Data.List.Forall2
import Mathlib.Data.List.TakeWhile
import Wireframe.Input.Sanitize
import Wireframe.Proofs.Text.Letter
import Wireframe.Proofs.Text.Pieces

/-! Which texts are injection phrasings. -/
namespace Wireframe.Injection
open Text

variable {a b m p r s w y : List Char} {c d : Char} {kind : Injection}

/-- A text that is a given word when case is ignored. -/
def Folded (w p : List Char) : Prop := List.Forall₂ (fun a c => foldsTo a c = true) w p

/-- Blanks, at least one. -/
def Gap (b : List Char) : Prop := b ≠ [] ∧ ∀ c ∈ b, isBlank c = true

/-- The text "previous instruction", or more of them. -/
inductive Previous : List Char → Prop
  | intro {p c i e : List Char} (hp : Folded "previous".toList p) (hc : Gap c)
      (hi : Folded "instruction".toList i) (he : e = [] ∨ Folded ['s'] e) :
      Previous (p ++ (c ++ (i ++ e)))

/-- Previous instructions with a verb in front and perhaps an "all" between them. -/
inductive Order (verb : List Char) : List Char → Prop
  | plain {v b x : List Char} (hv : Folded verb v) (hb : Gap b) (hx : Previous x) :
      Order verb (v ++ (b ++ x))
  | all {v b a d x : List Char} (hv : Folded verb v) (hb : Gap b) (ha : Folded "all".toList a)
      (hd : Gap d) (hx : Previous x) : Order verb (v ++ (b ++ (a ++ (d ++ x))))

/-- The name of a role with a colon. -/
inductive Role (role : List Char) : List Char → Prop
  | intro {n b : List Char} (hn : Folded role n) (hb : ∀ c ∈ b, isBlank c = true) :
      Role role (n ++ (b ++ [':']))

/-- A control token, which ends on its line. -/
inductive Token : List Char → Prop
  | intro {m : List Char} (hm : ∀ c ∈ m, c ≠ '\n') : Token ('<' :: '|' :: (m ++ ['|', '>']))

/-- A marker in brackets. -/
inductive Marker (opening name closing : List Char) : List Char → Prop
  | intro {slash n : List Char} (hs : slash = [] ∨ slash = ['/']) (hn : Folded name n) :
      Marker opening name closing (opening ++ (slash ++ (n ++ closing)))

/-- The phrasings of a kind. -/
def Phrase : Injection → List Char → Prop
  | ignorePrevious => Order "ignore".toList
  | disregardPrevious => Order "disregard".toList
  | forgetPrevious => Order "forget".toList
  | systemRole => Role "system".toList
  | assistantRole => Role "assistant".toList
  | controlToken => Token
  | instMarker => Marker ['['] "inst".toList [']']
  | sysMarker => Marker ['<', '<'] "sys".toList ['>', '>']

/-- The words in these phrasings. -/
def words : List (List Char) :=
  ["ignore".toList, "disregard".toList, "forget".toList, "previous".toList, "all".toList,
    "instruction".toList, ['s'], "system".toList, "assistant".toList, "inst".toList, "sys".toList]

theorem isLower_of_mem_words (hw : w ∈ words) (ha : c ∈ w) : c.isLower = true := by
  have hall : (words.all fun w => w.all Char.isLower) = true := by decide
  exact List.all_eq_true.mp (List.all_eq_true.mp hall w hw) c ha

/-- A character that is a letter when case is ignored is no blank and no sign. -/
theorem of_foldsTo {a : Char} (ha : a.isLower = true) (h : foldsTo a c = true) :
    isBlank c = false ∧ c ≠ '[' ∧ c ≠ '\n' ∧ c ≠ '/' := by
  simp only [foldsTo, Bool.or_eq_true, Bool.and_eq_true, decide_eq_true_eq] at h
  rcases h with (h | ⟨_, rfl⟩) | ⟨_, rfl | rfl⟩
  · have halpha : c.isAlpha = true := isAlpha_of_isLower_toLower (h ▸ ha)
    refine ⟨?_, ?_, ?_, ?_⟩
    · have := toNat_of_isAlpha halpha
      simp [isBlank, inRanges, blankRanges]
      omega
    · rintro rfl
      exact absurd halpha (by decide)
    · rintro rfl
      exact absurd halpha (by decide)
    · rintro rfl
      exact absurd halpha (by decide)
  · decide
  · decide
  · decide

theorem afterFolded?_eq_some_iff : afterFolded? w s = some r ↔ ∃ p, s = p ++ r ∧ Folded w p := by
  induction w generalizing s with
  | nil =>
    simp only [afterFolded?, Option.some.injEq]
    constructor
    · rintro rfl
      exact ⟨[], rfl, .nil⟩
    · rintro ⟨p, rfl, hp⟩
      cases hp
      rfl
  | cons a w ih =>
    cases s with
    | nil =>
      simp only [afterFolded?, reduceCtorEq, false_iff]
      rintro ⟨p, hs, hp⟩
      cases hp
      cases hs
    | cons c s =>
      rw [afterFolded?]
      constructor
      · intro h
        split at h
        · rename_i hc
          obtain ⟨p, rfl, hp⟩ := ih.mp h
          exact ⟨c :: p, rfl, .cons hc hp⟩
        · cases h
      · rintro ⟨p, hs, hp⟩
        cases hp with
        | cons hc hp =>
          cases hs
          rw [if_pos hc]
          exact ih.mpr ⟨_, rfl, hp⟩

theorem afterFolded?_append (h : Folded w p) (r : List Char) : afterFolded? w (p ++ r) = some r :=
  afterFolded?_eq_some_iff.mpr ⟨p, rfl, h⟩

theorem blanks?_append (hb : Gap b) (hr : ∀ c ∈ r.head?, isBlank c = false) :
    blanks? (b ++ r) = some r := by
  obtain ⟨hne, hb⟩ := hb
  obtain ⟨c, b, rfl⟩ := List.exists_cons_of_ne_nil hne
  rw [List.cons_append, blanks?, if_pos (hb c List.mem_cons_self),
    trimStart_append (fun d hd => hb d (List.mem_cons_of_mem _ hd)) hr]

/-- Blanks, at least one, in front of something else. -/
theorem blanks?_eq_some_iff : blanks? s = some r ↔
    ∃ b, Gap b ∧ s = b ++ r ∧ ∀ c ∈ r.head?, isBlank c = false := by
  constructor
  · intro h
    cases s with
    | nil => cases h
    | cons c s =>
      rw [blanks?] at h
      split at h
      · rename_i hc
        cases h
        obtain ⟨b, hs, hb⟩ := exists_trimStart s
        refine ⟨c :: b, ⟨by simp, List.forall_mem_cons.mpr ⟨hc, hb⟩⟩, ?_, not_of_head?_dropWhile⟩
        rw [List.cons_append, ← hs]
      · cases h
  · rintro ⟨b, hb, rfl, hr⟩
    exact blanks?_append hb hr

theorem Folded.mem (hw : w ∈ words) (h : Folded w p) :
    ∀ c ∈ p, isBlank c = false ∧ c ≠ '[' ∧ c ≠ '\n' ∧ c ≠ '/' := by
  intro c hc
  obtain ⟨i, hi, rfl⟩ := List.getElem_of_mem hc
  have hlt : i < w.length := h.length_eq ▸ hi
  exact of_foldsTo (isLower_of_mem_words hw (List.getElem_mem hlt)) (h.get hlt hi)

theorem Folded.front (hw : w ∈ words) (hne : w ≠ []) (h : Folded w p) (r : List Char) :
    ∀ c ∈ (p ++ r).head?, isBlank c = false ∧ c ≠ '/' := by
  cases h with
  | nil => exact (hne rfl).elim
  | cons hc hp =>
    intro d hd
    obtain rfl : _ = d := Option.some.inj hd
    have hmem := Folded.mem hw (.cons hc hp) _ List.mem_cons_self
    exact ⟨hmem.1, hmem.2.2.2⟩

/-! What is found at the front of a text is a phrasing. -/

/-- What follows the verb and perhaps the "all". -/
def afterPrevious? (s : List Char) : Option (List Char) := do
  let s ← blanks? (← afterFolded? "previous".toList s)
  let s ← afterFolded? "instruction".toList s
  return (afterFolded? ['s'] s).getD s

theorem of_afterPrevious? (h : afterPrevious? s = some r) : ∃ x, s = x ++ r ∧ Previous x := by
  simp only [afterPrevious?, Option.bind_eq_bind, Option.bind_eq_some_iff] at h
  obtain ⟨s₁, hprevious, s₂, hblanks, s₃, hinstruction, h⟩ := h
  obtain ⟨p, rfl, hp⟩ := afterFolded?_eq_some_iff.mp hprevious
  obtain ⟨c, hc, rfl, -⟩ := blanks?_eq_some_iff.mp hblanks
  obtain ⟨i, rfl, hi⟩ := afterFolded?_eq_some_iff.mp hinstruction
  cases hs : afterFolded? ['s'] s₃ with
  | none =>
    rw [hs] at h
    cases h
    exact ⟨p ++ (c ++ (i ++ [])), by simp, .intro hp hc hi (.inl rfl)⟩
  | some y =>
    rw [hs] at h
    cases h
    obtain ⟨e, rfl, he⟩ := afterFolded?_eq_some_iff.mp hs
    exact ⟨p ++ (c ++ (i ++ e)), by simp, .intro hp hc hi (.inr he)⟩

/-- What follows an "all" and the blanks behind it. -/
def afterAll? (s : List Char) : Option (List Char) := do blanks? (← afterFolded? "all".toList s)

theorem afterOrder?_eq (verb s : List Char) :
    afterOrder? verb s = (afterFolded? verb s).bind fun s => (blanks? s).bind fun s =>
      afterPrevious? ((afterAll? s).getD s) := rfl

theorem of_afterOrder? (h : afterOrder? w s = some r) : ∃ p, s = p ++ r ∧ Order w p := by
  simp only [afterOrder?_eq, Option.bind_eq_some_iff] at h
  obtain ⟨s₁, hverb, s₂, hblanks, h⟩ := h
  obtain ⟨v, rfl, hv⟩ := afterFolded?_eq_some_iff.mp hverb
  obtain ⟨b, hb, rfl, -⟩ := blanks?_eq_some_iff.mp hblanks
  obtain ⟨x, hx, hprevious⟩ := of_afterPrevious? h
  cases hall : afterAll? s₂ with
  | none =>
    rw [hall, Option.getD_none] at hx
    subst hx
    exact ⟨v ++ (b ++ x), by simp, .plain hv hb hprevious⟩
  | some y =>
    rw [hall, Option.getD_some] at hx
    subst hx
    simp only [afterAll?, Option.bind_eq_bind, Option.bind_eq_some_iff] at hall
    obtain ⟨s₃, hword, hgap⟩ := hall
    obtain ⟨a, rfl, ha⟩ := afterFolded?_eq_some_iff.mp hword
    obtain ⟨d, hd, rfl, -⟩ := blanks?_eq_some_iff.mp hgap
    exact ⟨v ++ (b ++ (a ++ (d ++ x))), by simp, .all hv hb ha hd hprevious⟩

theorem of_afterRole? (h : afterRole? w s = some r) : ∃ p, s = p ++ r ∧ Role w p := by
  simp only [afterRole?, Option.bind_eq_bind, Option.bind_eq_some_iff] at h
  obtain ⟨s₁, hname, h⟩ := h
  obtain ⟨n, rfl, hn⟩ := afterFolded?_eq_some_iff.mp hname
  obtain ⟨b, hs, hb⟩ := exists_trimStart s₁
  rw [after?_eq_some_iff.mp h] at hs
  refine ⟨n ++ (b ++ [':']), ?_, .intro hn hb⟩
  rw [hs]
  simp

theorem of_afterTokenEnd? (h : afterTokenEnd? s = some r) :
    ∃ m, s = m ++ '|' :: '>' :: r ∧ ∀ c ∈ m, c ≠ '\n' := by
  induction s with
  | nil => cases h
  | cons c s ih =>
    rw [afterTokenEnd?] at h
    split at h
    · rename_i rest hend
      cases h
      rw [after?_eq_some_iff] at hend
      exact ⟨[], hend, by simp⟩
    · split at h
      · cases h
      · rename_i hc
        obtain ⟨m, rfl, hm⟩ := ih h
        exact ⟨c :: m, rfl, List.forall_mem_cons.mpr ⟨hc, hm⟩⟩

theorem of_afterMarker? (h : afterMarker? a w b s = some r) : ∃ p, s = p ++ r ∧ Marker a w b p := by
  simp only [afterMarker?, Option.bind_eq_bind, Option.bind_eq_some_iff] at h
  obtain ⟨s₁, hopening, s₂, hname, h⟩ := h
  rw [after?_eq_some_iff] at hopening h
  subst hopening h
  obtain ⟨n, hs, hn⟩ := afterFolded?_eq_some_iff.mp hname
  cases hslash : Text.after? ['/'] s₁ with
  | none =>
    rw [hslash, Option.getD_none] at hs
    subst hs
    exact ⟨a ++ ([] ++ (n ++ b)), by simp, .intro (.inl rfl) hn⟩
  | some y =>
    rw [hslash, Option.getD_some] at hs
    subst hs
    rw [after?_eq_some_iff.mp hslash]
    exact ⟨a ++ (['/'] ++ (n ++ b)), by simp, .intro (.inr rfl) hn⟩

/-- What is found at the front of a text is a phrasing. -/
theorem phrase_of_after? (h : kind.after? s = some r) : ∃ p, s = p ++ r ∧ Phrase kind p := by
  cases kind with
  | ignorePrevious | disregardPrevious | forgetPrevious => exact of_afterOrder? h
  | systemRole | assistantRole => exact of_afterRole? h
  | instMarker | sysMarker => exact of_afterMarker? h
  | controlToken =>
    obtain ⟨s₁, hopening, h⟩ := Option.bind_eq_some_iff.mp h
    obtain ⟨m, rfl, hm⟩ := of_afterTokenEnd? h
    refine ⟨'<' :: '|' :: (m ++ ['|', '>']), ?_, .intro hm⟩
    rw [after?_eq_some_iff.mp hopening]
    simp

/-! A phrasing is found wherever it stands. -/

theorem Previous.front (h : Previous p) (r : List Char) :
    (∀ c ∈ (p ++ r).head?, isBlank c = false) ∧ afterAll? (p ++ r) = none := by
  cases h with
  | @intro p c i e hp hc hi he =>
    have hfront := hp.front (by simp [words]) (by simp) ((c ++ (i ++ e)) ++ r)
    rw [List.append_assoc]
    refine ⟨fun d hd => (hfront d hd).1, ?_⟩
    -- No letter is both the first of this word and the first of the other.
    have hletter (d : Char) (hd : foldsTo 'p' d = true) : foldsTo 'a' d = false := by
      have hlower : d.toLower = 'p' := by simpa [foldsTo] using hd
      simp [foldsTo, hlower]
    have hword : "previous".toList = 'p' :: "revious".toList := by decide
    rw [hword] at hp
    cases hp with
    | cons hd _ =>
      have hall : "all".toList = 'a' :: "ll".toList := by decide
      rw [afterAll?, hall, List.cons_append, afterFolded?, hletter _ hd]
      rfl

theorem isSome_afterPrevious? (h : Previous p) (r : List Char) :
    (afterPrevious? (p ++ r)).isSome := by
  cases h with
  | @intro p c i e hp hc hi he =>
    have hfront := hi.front (by simp [words]) (by simp) (e ++ r)
    have hsplit : p ++ (c ++ (i ++ e)) ++ r = p ++ (c ++ (i ++ (e ++ r))) := by simp
    rw [hsplit, afterPrevious?, afterFolded?_append hp]
    simp only [Option.bind_eq_bind, Option.bind_some,
      blanks?_append hc fun d hd => (hfront d hd).1, afterFolded?_append hi]
    rfl

theorem isSome_afterOrder? (h : Order w p) (r : List Char) : (afterOrder? w (p ++ r)).isSome := by
  cases h with
  | @plain v b x hv hb hx =>
    obtain ⟨hblank, hall⟩ := hx.front r
    have hsplit : v ++ (b ++ x) ++ r = v ++ (b ++ (x ++ r)) := by simp
    rw [hsplit, afterOrder?_eq, afterFolded?_append hv]
    simp only [Option.bind_some, blanks?_append hb hblank, hall, Option.getD_none]
    exact isSome_afterPrevious? hx r
  | @all v b a d x hv hb ha hd hx =>
    have hfront := ha.front (by simp [words]) (by simp) (d ++ (x ++ r))
    have hall : afterAll? (a ++ (d ++ (x ++ r))) = some (x ++ r) := by
      rw [afterAll?, afterFolded?_append ha]
      exact blanks?_append hd (hx.front r).1
    have hsplit : v ++ (b ++ (a ++ (d ++ x))) ++ r = v ++ (b ++ (a ++ (d ++ (x ++ r)))) := by simp
    rw [hsplit, afterOrder?_eq, afterFolded?_append hv]
    simp only [Option.bind_some, blanks?_append hb fun d hd => (hfront d hd).1, hall,
      Option.getD_some]
    exact isSome_afterPrevious? hx r

theorem isSome_afterRole? (h : Role w p) (r : List Char) : (afterRole? w (p ++ r)).isSome := by
  cases h with
  | @intro n b hn hb =>
    have hsplit : n ++ (b ++ [':']) ++ r = n ++ (b ++ ':' :: r) := by simp
    have hcolon : ∀ c ∈ (':' :: r).head?, isBlank c = false := by
      intro c hc
      obtain rfl : ':' = c := Option.some.inj hc
      decide
    rw [hsplit, afterRole?, afterFolded?_append hn, Option.bind_eq_bind, Option.bind_some,
      trimStart_append hb hcolon]
    rfl

theorem isSome_afterTokenEnd? (hm : ∀ c ∈ m, c ≠ '\n') (r : List Char) :
    (afterTokenEnd? (m ++ '|' :: '>' :: r)).isSome := by
  induction m with
  | nil => rfl
  | cons c m ih =>
    rw [List.cons_append, afterTokenEnd?]
    split
    · rfl
    · rw [if_neg (hm c List.mem_cons_self)]
      exact ih fun d hd => hm d (List.mem_cons_of_mem _ hd)

theorem isSome_afterMarker? (hw : w ∈ words) (hne : w ≠ []) (h : Marker a w b p) (r : List Char) :
    (afterMarker? a w b (p ++ r)).isSome := by
  cases h with
  | @intro slash n hs hn =>
    have hsplit : a ++ (slash ++ (n ++ b)) ++ r = a ++ (slash ++ (n ++ (b ++ r))) := by simp
    have hskip : (Text.after? ['/'] (slash ++ (n ++ (b ++ r)))).getD (slash ++ (n ++ (b ++ r)))
        = n ++ (b ++ r) := by
      rcases hs with rfl | rfl
      · have hnone : Text.after? ['/'] (n ++ (b ++ r)) = none := by
          rw [← Option.not_isSome_iff_eq_none]
          intro hsome
          obtain ⟨y, hy⟩ := Option.isSome_iff_exists.mp hsome
          have hfront := hn.front hw hne (b ++ r) '/'
          rw [after?_eq_some_iff.mp hy] at hfront
          exact (hfront rfl).2 rfl
        rw [List.nil_append, hnone, Option.getD_none]
      · rfl
    rw [hsplit, afterMarker?, after?_append]
    simp only [Option.bind_eq_bind, Option.bind_some, hskip, afterFolded?_append hn, after?_append]
    rfl

/-- A phrasing is found wherever it stands. -/
theorem isSome_after?_of_phrase (h : Phrase kind p) (r : List Char) :
    (kind.after? (p ++ r)).isSome := by
  cases kind with
  | ignorePrevious | disregardPrevious | forgetPrevious => exact isSome_afterOrder? h r
  | systemRole | assistantRole => exact isSome_afterRole? h r
  | instMarker | sysMarker => exact isSome_afterMarker? (by simp [words]) (by simp) h r
  | controlToken =>
    cases h with
    | @intro m hm =>
      have htail := isSome_afterTokenEnd? hm r
      simpa [Injection.after?, Text.after?] using htail

end Wireframe.Injection
