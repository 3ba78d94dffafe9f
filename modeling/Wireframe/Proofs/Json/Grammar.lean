import Wireframe.Proofs.Json.Quoted
import Wireframe.Proofs.Json.Words
import Wireframe.Proofs.Outcome

/-! The grammar of JSON as a relation between a text, the value at its front and what is left behind it.
Whatever the reader finds at the front of a text is spelt there. -/
namespace Wireframe.Json
open Outcome

variable {s rest b : List Char} {c : Char} {v : Value} {room inner : Room}

/-- A text of blanks. -/
def Gap (b : List Char) : Prop := ∀ c ∈ b, isBlank c = true

theorem exists_gap (s : List Char) : ∃ b, Gap b ∧ s = b ++ skipBlanks s :=
  ⟨s.takeWhile isBlank, fun _ hc => List.mem_takeWhile_imp hc, List.takeWhile_append_dropWhile.symm⟩

theorem Gap.skipBlanks_append (h : Gap b) (s : List Char) : skipBlanks (b ++ s) = skipBlanks s :=
  List.dropWhile_append_of_pos h

theorem Gap.skipBlanks_cons (h : Gap b) (hc : isBlank c = false) (s : List Char) :
    skipBlanks (b ++ c :: s) = c :: s := by
  rw [h.skipBlanks_append, Json.skipBlanks_cons hc]

/-- The parts of a text: a value, the items of a list with its closing bracket, and the entries of an object
with its closing brace. -/
inductive Part
  | value
  | items
  | entries

/-- A text with a value of some part at its front and what is left behind it, read with some room. Items
stand for their list, entries for an object in which no key is looked up. -/
inductive Spells : Room → Part → List Char → Value → List Char → Prop
  | word {room : Room} {w rest : List Char} {v : Value} : IsWord w v → Spells room .value (w ++ rest) v rest
  | text {room : Room} {raw chars rest : List Char} : Means raw chars →
      Spells room .value ('"' :: (raw ++ '"' :: rest)) (.text (String.ofList chars)) rest
  | emptyList {room inner : Room} {b rest : List Char} : room.inner? = some inner → Gap b →
      Spells room .value ('[' :: (b ++ ']' :: rest)) (.list []) rest
  | list {room inner : Room} {b s rest : List Char} {xs : List Value} : room.inner? = some inner → Gap b →
      Spells inner .items s (.list xs) rest → Spells room .value ('[' :: (b ++ s)) (.list xs) rest
  | emptyDict {room inner : Room} {b rest : List Char} : room.inner? = some inner → Gap b →
      Spells room .value ('\x7b' :: (b ++ '\x7d' :: rest)) (.dict []) rest
  | dict {room inner : Room} {b s rest : List Char} {es : List (Value × Value)} :
      room.inner? = some inner → Gap b → Spells inner .entries s (.dict es) rest →
      Spells room .value ('\x7b' :: (b ++ s)) (.ofEntries es) rest
  | lastItem {room : Room} {b s rest : List Char} {x : Value} : Gap b →
      Spells room .value s x (b ++ ']' :: rest) → Spells room .items s (.list [x]) rest
  | item {room : Room} {b c s t rest : List Char} {x : Value} {xs : List Value} : Gap b → Gap c →
      Spells room .value s x (b ++ ',' :: (c ++ t)) → Spells room .items t (.list xs) rest →
      Spells room .items s (.list (x :: xs)) rest
  | lastEntry {room : Room} {raw key b c d s rest : List Char} {x : Value} :
      Means raw key → Gap b → Gap c → Gap d → Spells room .value s x (d ++ '\x7d' :: rest) →
      Spells room .entries ('"' :: (raw ++ '"' :: (b ++ ':' :: (c ++ s))))
        (.dict [(.text (String.ofList key), x)]) rest
  | entry {room : Room} {raw key b c d e s t rest : List Char} {x : Value} {es : List (Value × Value)} :
      Means raw key → Gap b → Gap c → Gap d → Gap e → Spells room .value s x (d ++ ',' :: (e ++ t)) →
      Spells room .entries t (.dict es) rest →
      Spells room .entries ('"' :: (raw ++ '"' :: (b ++ ':' :: (c ++ s))))
        (.dict ((.text (String.ofList key), x) :: es)) rest

/-! What is read is spelt. -/

theorem spells_of_readItems {fuel : Nat} {xs : List Value}
    (hvalue : ∀ {s v rest}, readValue fuel room s = .ok (v, rest) → Spells room .value s v rest)
    (hitems : ∀ {s xs rest}, readItems fuel room s = .ok (xs, rest) → Spells room .items s (.list xs) rest)
    (h : readItems (fuel + 1) room s = .ok (xs, rest)) : Spells room .items s (.list xs) rest := by
  unfold readItems at h
  obtain ⟨⟨x, t⟩, hx, h⟩ := bind_eq_ok h
  have hx := hvalue hx
  obtain ⟨b, hb, ht⟩ := exists_gap t
  dsimp only at h
  split at h
  · rename_i heq
    cases h
    rw [heq] at ht
    exact .lastItem hb (ht ▸ hx)
  · rename_i u heq
    obtain ⟨⟨xs, rest'⟩, hxs, h⟩ := bind_eq_ok h
    cases h
    obtain ⟨c, hc, hu⟩ := exists_gap u
    rw [heq, hu] at ht
    exact .item hb hc (ht ▸ hx) (hitems hxs)
  · cases h

theorem spells_of_readEntries {fuel : Nat} {es : List (Value × Value)}
    (hvalue : ∀ {s v rest}, readValue fuel room s = .ok (v, rest) → Spells room .value s v rest)
    (hentries : ∀ {s es rest}, readEntries fuel room s = .ok (es, rest) → Spells room .entries s (.dict es) rest)
    (h : readEntries (fuel + 1) room s = .ok (es, rest)) : Spells room .entries s (.dict es) rest := by
  unfold readEntries at h
  split at h
  · obtain ⟨⟨key, t⟩, hkey, h⟩ := bind_eq_ok h
    obtain ⟨raw, htext, hraw⟩ := exists_means_of_readText hkey
    obtain ⟨b, hb, ht⟩ := exists_gap t
    dsimp only at h
    split at h
    · rename_i u hcolon
      obtain ⟨⟨x, r⟩, hx, h⟩ := bind_eq_ok h
      have hx := hvalue hx
      obtain ⟨c, hc, hu⟩ := exists_gap u
      obtain ⟨d, hd, hr⟩ := exists_gap r
      rw [hcolon, hu] at ht
      rw [htext, ht]
      dsimp only at h
      split at h
      · rename_i heq
        cases h
        rw [heq] at hr
        exact .lastEntry hraw hb hc hd (hr ▸ hx)
      · rename_i more heq
        obtain ⟨⟨es, rest'⟩, hes, h⟩ := bind_eq_ok h
        cases h
        obtain ⟨e, he, hmore⟩ := exists_gap more
        rw [heq, hmore] at hr
        exact .entry hraw hb hc hd he (hr ▸ hx) (hentries hes)
      · cases h
    · cases h
  · cases h

theorem spells_of_readValue {fuel : Nat}
    (hitems : ∀ {room s xs rest}, readItems fuel room s = .ok (xs, rest) →
      Spells room .items s (.list xs) rest)
    (hentries : ∀ {room s es rest}, readEntries fuel room s = .ok (es, rest) →
      Spells room .entries s (.dict es) rest)
    (h : readValue (fuel + 1) room s = .ok (v, rest)) : Spells room .value s v rest := by
  unfold readValue at h
  split at h
  · obtain ⟨⟨chars, t⟩, htext, h⟩ := bind_eq_ok h
    cases h
    obtain ⟨raw, rfl, hraw⟩ := exists_means_of_readText htext
    exact .text hraw
  · rename_i t
    obtain ⟨inner, hinner, h⟩ := bind_eq_ok h
    rw [enter_eq_ok] at hinner
    obtain ⟨b, hb, ht⟩ := exists_gap t
    dsimp only at h
    split at h
    · rename_i heq
      cases h
      rw [heq] at ht
      rw [ht]
      exact .emptyList hinner hb
    · obtain ⟨⟨xs, r⟩, hxs, h⟩ := bind_eq_ok h
      cases h
      rw [ht]
      exact .list hinner hb (hitems hxs)
  · rename_i t
    obtain ⟨inner, hinner, h⟩ := bind_eq_ok h
    rw [enter_eq_ok] at hinner
    obtain ⟨b, hb, ht⟩ := exists_gap t
    dsimp only at h
    split at h
    · rename_i heq
      cases h
      rw [heq] at ht
      rw [ht]
      exact .emptyDict hinner hb
    · obtain ⟨⟨es, r⟩, hes, h⟩ := bind_eq_ok h
      cases h
      rw [ht]
      exact .dict hinner hb (hentries hes)
  · obtain ⟨w, rfl, hw⟩ := isWord_of_readPlain h
    exact .word hw

/-- The readers on so much fuel find what is spelt. -/
theorem spells_of_fuel (fuel : Nat) :
    (∀ {room s v rest}, readValue fuel room s = .ok (v, rest) → Spells room .value s v rest)
      ∧ (∀ {room s xs rest}, readItems fuel room s = .ok (xs, rest) → Spells room .items s (.list xs) rest)
      ∧ ∀ {room s es rest}, readEntries fuel room s = .ok (es, rest) →
          Spells room .entries s (.dict es) rest := by
  induction fuel with
  | zero => exact ⟨nofun, nofun, nofun⟩
  | succ fuel ih =>
    obtain ⟨hvalue, hitems, hentries⟩ := ih
    exact ⟨spells_of_readValue hitems hentries, spells_of_readItems hvalue hitems,
      spells_of_readEntries hvalue hentries⟩

/-! What is spelt is read. -/

variable {p : Part}

/-- Whether a character opens a value or an entry. -/
def isOpening (c : Char) : Bool := isPlainChar c || c = '"' || c = '[' || c = '\x7b'

theorem exists_opening_of_isWord {w : List Char} (h : IsWord w v) (rest : List Char) :
    ∃ c cs, w ++ rest = c :: cs ∧ isPlainChar c = true := by
  obtain ⟨c, cs, rfl⟩ := List.exists_cons_of_ne_nil h.nonempty
  exact ⟨c, cs ++ rest, rfl, h.plain c List.mem_cons_self⟩

theorem Spells.opens (h : Spells room p s v rest) : ∃ c cs, s = c :: cs ∧ isOpening c = true := by
  induction h with
  | word hw =>
    obtain ⟨c, cs, heq, hc⟩ := exists_opening_of_isWord hw _
    exact ⟨c, cs, heq, by simp [isOpening, hc]⟩
  | lastItem _ _ ih => exact ih
  | item _ _ _ _ ih _ => exact ih
  | _ => exact ⟨_, _, rfl, by decide⟩

theorem isBlank_of_isOpening (h : isOpening c = true) : isBlank c = false := by
  cases hblank : isBlank c with
  | false => rfl
  | true =>
    simp only [isBlank, Bool.or_eq_true, decide_eq_true_eq] at hblank
    rcases hblank with ((rfl | rfl) | rfl) | rfl <;> revert h <;> decide

theorem Spells.skipBlanks_eq (h : Spells room p s v rest) : skipBlanks s = s := by
  obtain ⟨c, cs, rfl, hc⟩ := h.opens
  exact skipBlanks_cons (isBlank_of_isOpening hc) cs

/-- A value stands at the front of a text, whatever is behind it. -/
theorem Spells.exists_front (h : Spells room p s v rest) :
    ∃ front, s = front ++ rest ∧ front ≠ [] ∧ ∀ t, Spells room p (front ++ t) v t := by
  induction h with
  | @word room w rest v hw => exact ⟨w, rfl, hw.nonempty, fun t => .word hw⟩
  | @text room raw chars rest hraw =>
    exact ⟨'"' :: (raw ++ ['"']), by simp, by simp, fun t => by simpa using Spells.text hraw⟩
  | @emptyList room inner b rest hinner hb =>
    exact ⟨'[' :: (b ++ [']']), by simp, by simp, fun t => by simpa using Spells.emptyList hinner hb⟩
  | @emptyDict room inner b rest hinner hb =>
    exact ⟨'\x7b' :: (b ++ ['\x7d']), by simp, by simp, fun t => by simpa using Spells.emptyDict hinner hb⟩
  | @list room inner b s rest xs hinner hb _ ih =>
    obtain ⟨front, rfl, -, hfront⟩ := ih
    exact ⟨'[' :: (b ++ front), by simp, by simp, fun t => by simpa using Spells.list hinner hb (hfront t)⟩
  | @dict room inner b s rest es hinner hb _ ih =>
    obtain ⟨front, rfl, -, hfront⟩ := ih
    exact ⟨'\x7b' :: (b ++ front), by simp, by simp, fun t => by simpa using Spells.dict hinner hb (hfront t)⟩
  | @lastItem room b s rest x hb _ ih =>
    obtain ⟨front, rfl, -, hfront⟩ := ih
    refine ⟨front ++ (b ++ [']']), by simp, by simp, fun t => ?_⟩
    simpa using Spells.lastItem hb (hfront (b ++ ']' :: t))
  | @item room b c s t rest x xs hb hc _ _ ih ihs =>
    obtain ⟨front, rfl, -, hfront⟩ := ih
    obtain ⟨back, rfl, -, hback⟩ := ihs
    refine ⟨front ++ (b ++ ',' :: (c ++ back)), by simp, by simp, fun t => ?_⟩
    simpa using Spells.item hb hc (hfront (b ++ ',' :: (c ++ (back ++ t)))) (hback t)
  | @lastEntry room raw key b c d s rest x hraw hb hc hd _ ih =>
    obtain ⟨front, rfl, -, hfront⟩ := ih
    refine ⟨'"' :: (raw ++ '"' :: (b ++ ':' :: (c ++ (front ++ (d ++ ['\x7d']))))), by simp, by simp,
      fun t => ?_⟩
    simpa using Spells.lastEntry hraw hb hc hd (hfront (d ++ '\x7d' :: t))
  | @entry room raw key b c d e s t rest x es hraw hb hc hd he _ _ ih ihs =>
    obtain ⟨front, rfl, -, hfront⟩ := ih
    obtain ⟨back, rfl, -, hback⟩ := ihs
    refine ⟨'"' :: (raw ++ '"' :: (b ++ ':' :: (c ++ (front ++ (d ++ ',' :: (e ++ back)))))), by simp,
      by simp, fun t => ?_⟩
    simpa using Spells.entry hraw hb hc hd he (hfront (d ++ ',' :: (e ++ (back ++ t)))) (hback t)

theorem Spells.length_lt (h : Spells room p s v rest) : rest.length < s.length := by
  obtain ⟨front, rfl, hne, -⟩ := h.exists_front
  have hpos := List.length_pos_of_ne_nil hne
  rw [List.length_append]
  omega

end Wireframe.Json
