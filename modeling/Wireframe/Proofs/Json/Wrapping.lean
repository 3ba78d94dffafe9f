import Wireframe.Proofs.Json.Accepted
import Wireframe.Proofs.Json.Fences
import Wireframe.Proofs.Text.Pieces

/-! The object in an answer. It is found in a fence and behind known prose as it is found alone, and it is
that of its text, except for the commas that are taken out from between its quotes. -/
namespace Wireframe.Json
open Outcome
open Text (trim)

variable {s t w rest : List Char} {c : Char} {v : Value} {es : List (Value × Value)} {p : Part}
variable {room : Room}

/-- The ways in which a text is handed over: alone, between fences on lines of their own, or behind known
prose. -/
inductive Wraps (s : List Char) : List Char → Prop
  | bare : Wraps s s
  | fenced {label : List Char} : label = "json".toList ∨ label = [] →
      Wraps s (fence ++ (label ++ '\n' :: (s ++ '\n' :: fence)))
  | prose {intro : String} {gap : List Char} : intro ∈ prosePrefixes →
      (∀ c ∈ gap, Text.isBlank c = true) → Wraps s (intro.toList ++ (gap ++ s))

/-- A text without the commas in front of closing brackets. -/
def withoutStray (s : List Char) : List Char := uncomma ']' (uncomma '\x7d' s)

theorem cleaned_eq (s : List Char) : cleaned s = withoutStray (unfenced (trim s)) := rfl

/-! The text of an object. -/

theorem Spells.exists_brace (h : Spells room .entries s v rest) : ∃ m, s = m ++ '\x7d' :: rest := by
  generalize hp : Part.entries = p at h
  induction h with
  | @lastEntry room raw key b c d s rest x _ _ _ _ hx _ =>
    obtain ⟨front, rfl, -, -⟩ := hx.exists_front
    exact ⟨'"' :: (raw ++ '"' :: (b ++ ':' :: (c ++ (front ++ d)))), by simp⟩
  | @entry room raw key b c d e s t rest x es _ _ _ _ _ hx _ _ ihs =>
    obtain ⟨front, rfl, -, -⟩ := hx.exists_front
    obtain ⟨m, rfl⟩ := ihs hp
    exact ⟨'"' :: (raw ++ '"' :: (b ++ ':' :: (c ++ (front ++ (d ++ ',' :: (e ++ m)))))), by simp⟩
  | _ => cases hp

/-- An object stands between braces. -/
theorem Spells.exists_braces (h : Spells room .value s (.dict es) rest) :
    ∃ m, s = '\x7b' :: (m ++ '\x7d' :: rest) := by
  generalize hv : Value.dict es = v at h
  cases h with
  | word hw =>
    subst hv
    cases hw.isPlain
  | @emptyDict room inner b rest _ _ => exact ⟨b, rfl⟩
  | @dict room inner b s rest es _ _ hes =>
    obtain ⟨m, rfl⟩ := hes.exists_brace
    exact ⟨b ++ m, by simp⟩
  | _ => cases hv

/-- What starts with a brace is an object. -/
theorem Spells.exists_object (h : Spells room .value ('\x7b' :: s) v rest) : ∃ es, v = .dict es := by
  generalize ht : '\x7b' :: s = t at h
  cases h with
  | @word room w rest v hw =>
    obtain ⟨c, cs, hcs, hc⟩ := exists_opening_of_isWord hw rest
    rw [hcs] at ht
    rw [← (List.cons.inj ht).1] at hc
    cases hc
  | emptyDict _ _ => exact ⟨_, rfl⟩
  | dict _ _ _ => exact ⟨_, rfl⟩
  | _ => cases ht

theorem Spells.getLast?_eq (h : Spells room .value t (.dict es) []) : t.getLast? = some '\x7d' := by
  obtain ⟨m, rfl⟩ := h.exists_braces
  rw [← List.cons_append, List.getLast?_concat]

theorem Spells.not_isBlank (h : Spells room p t v rest) (s : List Char) :
    ∀ c ∈ (t ++ s).head?, Text.isBlank c = false := by
  obtain ⟨c, cs, rfl, hc⟩ := h.opens
  intro d hd
  obtain rfl : c = d := Option.some.inj hd
  exact not_isBlank_text_of_isOpening hc

variable {a b : List Char}

theorem Spells.not_isBlank_last (h : Spells room .value t (.dict es) []) (s : List Char) :
    ∀ c ∈ (s ++ t).getLast?, Text.isBlank c = false := by
  rw [List.getLast?_append, h.getLast?_eq, Option.some_or]
  intro c hc
  obtain rfl : '\x7d' = c := Option.some.inj hc
  decide

/-- No fence is part of an object or of plain prose in front of it. -/
theorem Spells.fenceless (h : Spells room .value t (.dict es) [])
    (ha : ∀ c ∈ a, c ≠ '"' ∧ c ≠ '\x60' ∧ c ≠ ',') : Fenceless (a ++ t) where
  apart := ((h.lexed .nil).append ha).isChain
  head := ((h.lexed .nil).append ha).head?_ne
  last := by
    rw [List.getLast?_append, h.getLast?_eq]
    rfl

theorem withoutStray_around (ha : ∀ c ∈ a, c ≠ ',') (hb : Gap b) (t : List Char) :
    withoutStray (a ++ (t ++ b)) = a ++ (withoutStray t ++ b) := by
  have hblank : ∀ c ∈ b, Text.isBlank c = true := fun c hc => isBlank_text (hb c hc)
  rw [withoutStray, uncomma_append ha, uncomma_append ha, uncomma_append_blanks (by decide) hblank,
    uncomma_append_blanks (by decide) hblank, withoutStray]

/-- Without its stray commas the text of an object is that of an object. -/
theorem Spells.exists_withoutStray (h : Spells room .value t (.dict es) []) :
    ∃ es', Spells room .value (withoutStray t) (.dict es') [] := by
  obtain ⟨m, rfl⟩ := h.exists_braces
  obtain ⟨v, hv⟩ := h.exists_uncomma (.inl rfl : IsClosing '\x7d')
  obtain ⟨w, hw⟩ := hv.exists_uncomma (.inr rfl : IsClosing ']')
  change Spells room .value (withoutStray _) w [] at hw
  have hopen : withoutStray ('\x7b' :: (m ++ ['\x7d'])) = '\x7b' :: withoutStray (m ++ ['\x7d']) := by
    rw [withoutStray, uncomma_cons (by decide), uncomma_cons (by decide), withoutStray]
  rw [hopen] at hw ⊢
  obtain ⟨es', rfl⟩ := hw.exists_object
  exact ⟨es', hw⟩

theorem readWithin_around (h : Spells room .value t v []) (ha : Gap a) (hb : Gap b) :
    readWithin room (a ++ (t ++ b)) = .ok v := readWithin_eq_ok_iff.mpr ⟨a, t, b, ha, hb, rfl, h⟩

/-! The candidates. -/

theorem object?_of_readWithin (h : readWithin room s = .ok (.dict es)) :
    object? room s = .ok (some (.dict es)) := by
  rw [object?, h]

theorem recover?_of_cleaned (h : readWithin room (cleaned s) = .ok (.dict es)) :
    recover? room s = .ok (some (.dict es)) := by
  rw [recover?, candidates, firstObject?, object?_of_readWithin h, ok_bind]
  rfl

/-- A text that no value starts with is none. -/
theorem readWithin_of_letter (hc : c ∈ ['\x60', 'H', 'J', 'O', 'R']) (s : List Char) :
    readWithin room (c :: s) = .error ⟨.expectingValue, c :: s⟩ := by
  simp only [List.mem_cons, List.not_mem_nil, or_false] at hc
  rcases hc with rfl | rfl | rfl | rfl | rfl <;> rfl

theorem widestBraces?_around (ha : ∀ c ∈ a, c ≠ '\x7b') (m : List Char) :
    widestBraces? (a ++ '\x7b' :: (m ++ ['\x7d'])) = some ('\x7b' :: (m ++ ['\x7d'])) := by
  have hdrop : (a ++ '\x7b' :: (m ++ ['\x7d'])).dropWhile (· ≠ '\x7b') = '\x7b' :: (m ++ ['\x7d']) := by
    rw [List.dropWhile_append_of_pos (by simpa using ha), List.dropWhile_cons_of_neg (by simp)]
  have hend : Text.dropEndWhile (· ≠ '\x7d') ('\x7b' :: (m ++ ['\x7d'])) = '\x7b' :: (m ++ ['\x7d']) := by
    simp [Text.dropEndWhile]
  rw [widestBraces?]
  simp only [hdrop, hend]
  rfl

/-- Prose is nothing that would be read, and holds no sign of an object. -/
theorem of_mem_prosePrefixes {intro : String} (h : intro ∈ prosePrefixes) :
    (∃ c cs, intro.toList = c :: cs ∧ c ∈ ['\x60', 'H', 'J', 'O', 'R'])
      ∧ ∀ c ∈ intro.toList, c ≠ '"' ∧ c ≠ '\x60' ∧ c ≠ ',' ∧ c ≠ '\x7b' := by
  simp only [prosePrefixes, List.mem_cons, List.not_mem_nil, or_false] at h
  rcases h with rfl | rfl | rfl | rfl | rfl | rfl <;>
    exact ⟨⟨_, _, rfl, by decide⟩, Text.forall_of_all (by decide)⟩

/-- Behind prose the widest text between braces is the object. -/
theorem recover?_of_prose (hs : Spells room .value s (.dict es) []) (hc : c ∈ ['\x60', 'H', 'J', 'O', 'R'])
    (ha : ∀ d ∈ a, d ≠ '\x7b') (hw : cleaned w = c :: (a ++ s)) : recover? room w = .ok (some (.dict es)) := by
  have hread := readWithin_around hs (a := []) (b := []) nofun nofun
  obtain ⟨m, rfl⟩ := hs.exists_braces
  have hfront : ∀ d ∈ c :: a, d ≠ '\x7b' := by
    refine List.forall_mem_cons.mpr ⟨?_, ha⟩
    rintro rfl
    exact absurd hc (by decide)
  have hwidest := widestBraces?_around hfront m
  have hnone : object? room (c :: (a ++ '\x7b' :: (m ++ ['\x7d']))) = .ok none := by
    rw [object?, readWithin_of_letter hc]
  rw [List.nil_append, List.append_nil] at hread
  rw [List.cons_append] at hwidest
  rw [recover?, candidates, hw, hwidest, firstObject?, hnone, ok_bind, Option.toList, List.cons_append,
    List.cons_append, firstObject?, object?_of_readWithin hread, ok_bind]
  rfl

/-! What is left of an answer when it is cleaned. -/

theorem cleaned_bare (ht : Spells room .value t (.dict es) []) (hb : Gap b) (hc : Gap a) :
    cleaned (b ++ (t ++ a)) = withoutStray t := by
  have hunfenced : unfenced t = t := (ht.fenceless (a := []) nofun).unfenced_eq
  rw [cleaned_eq, Text.trim_around (fun d hd => isBlank_text (hb d hd)) (fun d hd => isBlank_text (hc d hd))
    (ht.not_isBlank a) (ht.not_isBlank_last []), hunfenced]

theorem cleaned_fenced {label : List Char} (ht : Spells room .value t (.dict es) []) (hb : Gap b) (hc : Gap a)
    (hlabel : label = "json".toList ∨ label = []) :
    cleaned (fence ++ (label ++ '\n' :: (b ++ (t ++ a) ++ '\n' :: fence)))
      = withoutStray t ++ (a ++ ['\n']) := by
  have htext : fence ++ (label ++ '\n' :: (b ++ (t ++ a) ++ '\n' :: fence))
      = fence ++ (label ++ '\n' :: (b ++ (t ++ (a ++ '\n' :: fence)))) := by
    simp only [List.append_assoc]
  have hends : (fence ++ (label ++ '\n' :: (b ++ (t ++ (a ++ '\n' :: fence))))).getLast? = some '\x60' := by
    simp only [← List.append_assoc, ← List.cons_append, List.getLast?_append]
    rfl
  have htrim : trim (fence ++ (label ++ '\n' :: (b ++ (t ++ (a ++ '\n' :: fence)))))
      = fence ++ (label ++ '\n' :: (b ++ (t ++ (a ++ '\n' :: fence)))) := by
    have htick : ∀ d ∈ some '\x60', Text.isBlank d = false := by
      intro d hd
      obtain rfl : '\x60' = d := Option.some.inj hd
      decide
    exact Text.trim_eq_self htick (hends ▸ htick)
  have hfenceless : Fenceless t := ht.fenceless (a := []) nofun
  have hhead : ∀ d ∈ t.head?, Text.isBlank d = false := by simpa using ht.not_isBlank []
  have hgap : Gap (a ++ ['\n']) :=
    List.forall_mem_append.mpr ⟨hc, List.forall_mem_singleton.mpr (by decide)⟩
  rw [htext, cleaned_eq, htrim, hfenceless.unfenced_fenced hhead hlabel hb hc]
  exact withoutStray_around (a := []) nofun hgap t

theorem cleaned_prose {intro : String} {gap : List Char} (ht : Spells room .value t (.dict es) [])
    (hintro : intro ∈ prosePrefixes) (hgap : ∀ c ∈ gap, Text.isBlank c = true) (hb : Gap b) (hc : Gap a) :
    cleaned (intro.toList ++ (gap ++ (b ++ (t ++ a)))) = intro.toList ++ (gap ++ (b ++ withoutStray t)) := by
  obtain ⟨⟨d, ds, hd, hletter⟩, hplain⟩ := of_mem_prosePrefixes hintro
  have hfront : ∀ c ∈ intro.toList ++ (gap ++ b), c ≠ '"' ∧ c ≠ '\x60' ∧ c ≠ ',' := by
    rw [List.forall_mem_append, List.forall_mem_append]
    refine ⟨fun c hc => ⟨(hplain c hc).1, (hplain c hc).2.1, (hplain c hc).2.2.1⟩, fun c hc => ?_,
      fun c hc => ⟨hb.ne (by decide) c hc, hb.ne (by decide) c hc, hb.ne (by decide) c hc⟩⟩
    have hblank := hgap c hc
    refine ⟨?_, ?_, ?_⟩ <;>
      · rintro rfl
        cases hblank
  have htrim : trim (intro.toList ++ (gap ++ (b ++ (t ++ a)))) = (intro.toList ++ (gap ++ b)) ++ t := by
    have htrim := Text.trim_around (a := []) nofun (fun c hc' => isBlank_text (hc c hc')) ?_
      (ht.not_isBlank_last (intro.toList ++ (gap ++ b)))
    · simpa using htrim
    · intro c hc'
      rw [hd] at hc'
      obtain rfl : d = c := Option.some.inj hc'
      simp only [List.mem_cons, List.not_mem_nil, or_false] at hletter
      rcases hletter with rfl | rfl | rfl | rfl | rfl <;> decide
  rw [cleaned_eq, htrim, (ht.fenceless hfront).unfenced_eq]
  have haround := withoutStray_around (fun c hc => (hfront c hc).2.2) (b := []) nofun t
  simpa using haround

/-- The object in an answer is that of its text without stray commas, however the text is wrapped. -/
theorem exists_recover?_of_wraps (h : readWithin room s = .ok (.dict es)) (hw : Wraps s w) :
    ∃ es', readWithin room (withoutStray s) = .ok (.dict es')
      ∧ recover? room w = .ok (some (.dict es')) := by
  obtain ⟨b, t, c, hb, hc, rfl, ht⟩ := readWithin_eq_ok_iff.mp h
  obtain ⟨es', hs⟩ := ht.exists_withoutStray
  refine ⟨es', ?_, ?_⟩
  · rw [withoutStray_around (hb.ne (by decide)) hc]
    exact readWithin_around hs hb hc
  · cases hw with
    | bare =>
      refine recover?_of_cleaned ?_
      rw [cleaned_bare ht hb hc]
      simpa using readWithin_around hs (a := []) (b := []) nofun nofun
    | fenced hlabel =>
      have hgap : Gap (c ++ ['\n']) :=
        List.forall_mem_append.mpr ⟨hc, List.forall_mem_singleton.mpr (by decide)⟩
      refine recover?_of_cleaned ?_
      rw [cleaned_fenced ht hb hc hlabel]
      exact readWithin_around hs (a := []) nofun hgap
    | @prose intro gap hintro hgap =>
      have hclean := cleaned_prose ht hintro hgap hb hc
      obtain ⟨⟨d, ds, hd, hletter⟩, hplain⟩ := of_mem_prosePrefixes hintro
      rw [hd] at hplain hclean ⊢
      refine recover?_of_prose hs hletter (a := ds ++ (gap ++ b)) ?_ (by simpa using hclean)
      rw [List.forall_mem_append, List.forall_mem_append]
      refine ⟨fun c hc => (hplain c (List.mem_cons_of_mem _ hc)).2.2.2, ?_, hb.ne (by decide)⟩
      rintro c hc rfl
      exact Bool.false_ne_true (hgap _ hc)

/-- Where no comma between quotes is in front of a closing bracket, the text is cleaned of none. -/
theorem withoutStray_eq (h : readWithin room s = .ok v) (hq : ∀ q ∈ quotedTexts s, ¬ HasStray q) :
    withoutStray s = s := by
  obtain ⟨b, t, c, hb, hc, rfl, ht⟩ := readWithin_eq_ok_iff.mp h
  obtain ⟨front, rfl, -, hfront⟩ := ht.exists_front
  have hgap : Lexed c := List.append_nil c ▸ Lexed.nil.gap hc
  rw [List.append_nil] at hq ⊢
  have hlexed := ((hfront c).lexed hgap).gap hb
  rw [withoutStray, hlexed.uncomma_eq (.inl rfl) hq, hlexed.uncomma_eq (.inr rfl) hq]

end Wireframe.Json
