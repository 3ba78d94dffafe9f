import Wireframe.Proofs.Json.Accepted
import Wireframe.Proofs.Json.Reading

/-! A literal is read as its value with the entries of every object in the order of their keys, which is the
same JSON value. -/
namespace Wireframe.Markup
open Value Json

variable {v : Value} {w rest : List Char} {n : Int} {items : List Value} {e : Value × Value}
variable {entries : List (Value × Value)} {room : Room}

mutual

/-- A value with the entries of its objects in the order of their keys. -/
def sorted : Value → Value
  | .list items => .list (sortedItems items)
  | .dict entries => .dict (sortEntries (sortedEntries entries))
  | v => v

def sortedItems : List Value → List Value
  | [] => []
  | x :: rest => sorted x :: sortedItems rest

def sortedEntries : List (Value × Value) → List (Value × Value)
  | [] => []
  | (k, v) :: rest => (k, sorted v) :: sortedEntries rest

end

theorem sorted_list (items : List Value) : sorted (.list items) = .list (items.map sorted) := by
  rw [sorted]
  congr 1
  induction items with
  | nil => rfl
  | cons x rest ih => rw [sortedItems, ih, List.map_cons]

theorem sorted_dict (entries : List (Value × Value)) :
    sorted (.dict entries) = .dict ((sortEntries entries).map fun e => (e.1, sorted e.2)) := by
  have hmap : sortedEntries entries = entries.map fun e => (e.1, sorted e.2) := by
    induction entries with
    | nil => rfl
    | cons e rest ih => rw [sortedEntries, ih, List.map_cons]
  rw [sorted, hmap, sortEntries, map_sortEntries]

/-- A value is the same JSON value as its sorted one. -/
theorem alike_sorted (h : v.Closed) : v.Alike (sorted v) := by
  induction h with
  | @list items _ ih =>
    rw [sorted_list, Alike]
    induction items with
    | nil => trivial
    | cons x rest ihrest =>
      rw [List.forall_mem_cons] at ih
      exact ⟨ih.1, ihrest (by simp_all) ih.2⟩
  | @dict entries _ _ ih =>
    rw [sorted_dict, Alike]
    have hperm := ((Text.sortByText_perm (fun e => keyChars e.1) entries).map fun e => (e.1, sorted e.2)).symm
    refine EntriesAlike.perm_right hperm (EntriesAlike.of_forall₂ ?_)
    exact List.forall₂_map_right_iff.mpr (List.forall₂_same.mpr fun e he => ⟨rfl, ih e he⟩)
  | _ => simp [sorted, Alike]

/-! Literals in the grammar. -/

theorem isWord_of_readNumber_eq (h : readNumber w = .ok (v, [])) : IsWord w v := by
  obtain ⟨w', rfl, hw⟩ := isWord_of_readNumber h
  rwa [List.append_nil]

theorem isWord_bool (b : Bool) : IsWord (spell (.bool b)) (.bool b) := by
  have hread : readPlain (spell (.bool b)) = .ok (.bool b, []) := by cases b <;> rfl
  obtain ⟨w, hw, hword⟩ := isWord_of_readPlain hread
  rwa [hw, List.append_nil]

theorem ends_nil : Ends [] := by simp [Ends]

theorem isWord_integer (h : digitCount n ≤ digitLimit) : IsWord (Text.integer n) (.int n) := by
  have hread := readNumber_integer_eq n ends_nil
  rw [List.append_nil, if_neg (Nat.not_lt.mpr h)] at hread
  exact isWord_of_readNumber_eq hread

theorem isWord_double {x : Double} (hx : x.IsFinite) : IsWord (x.text .plain) (.float x) := by
  cases x with
  | finite negative r =>
    have hread : readNumber ((Double.finite negative r).text .plain ++ [])
        = .ok (.float (.finite negative r), []) := readNumber_text negative r rfl ends_nil
    rw [List.append_nil] at hread
    exact isWord_of_readNumber_eq hread
  | infinite _ => exact hx.elim
  | nan => exact hx.elim

theorem means_escape (s : List Char) : Means (s.flatMap escape) s := by
  have hread := readsBack_escape.flatMap [] [] [] s
  obtain ⟨raw, hraw, hmeans⟩ := exists_means_of_readText hread
  rwa [List.append_cancel_right hraw]

theorem gap_nil : Gap [] := nofun

/-- A value whose literal stands in the grammar for its sorted value, where there is room for it. -/
def Returns (v : Value) : Prop :=
  ∀ room : Room, room.Takes v.depth → ∀ rest, Spells room .value (spell v ++ rest) (sorted v) rest

theorem spells_items (hne : items ≠ [])
    (h : ∀ x ∈ items, ∀ rest, Spells room .value (spell x ++ rest) (sorted x) rest) (rest : List Char) :
    Spells room .items (Text.joined [','] (items.map spell) ++ ']' :: rest) (.list (items.map sorted)) rest := by
  induction items with
  | nil => exact absurd rfl hne
  | cons x items ih =>
    rw [List.forall_mem_cons] at h
    cases items with
    | nil => exact .lastItem gap_nil (h.1 _)
    | cons y items =>
      have htail := ih (by simp) h.2
      have hfront := Spells.item gap_nil gap_nil (h.1 (',' :: _)) htail
      simpa [Text.joined] using hfront

theorem returns_list (h : ∀ x ∈ items, Returns x) : Returns (.list items) := by
  intro room hroom rest
  obtain ⟨inner, hinner, hroom⟩ := Room.takes_succ_iff.mp hroom
  rw [spell, spellItems_eq_map, sorted_list]
  by_cases hnil : items = []
  · subst hnil
    exact .emptyList hinner gap_nil
  · have hitems := takes_depthOf_iff.mp hroom
    simpa using Spells.list hinner gap_nil
      (spells_items hnil (fun x hx => h x hx inner (hitems x hx)) rest)

theorem entryLiteral_append (e : Value × Value) (rest : List Char) :
    entryLiteral e ++ rest
      = '"' :: ((keyChars e.1).flatMap escape ++ '"' :: ([] ++ ':' :: ([] ++ (spell e.2 ++ rest)))) := by
  simp [entryLiteral, spellText]

theorem spells_entries (hne : entries ≠ []) (hk : ∀ e ∈ entries, e.1.isText = true)
    (h : ∀ e ∈ entries, ∀ rest, Spells room .value (spell e.2 ++ rest) (sorted e.2) rest)
    (rest : List Char) :
    Spells room .entries (Text.joined [','] (entries.map entryLiteral) ++ '\x7d' :: rest)
      (.dict (entries.map fun e => (e.1, sorted e.2))) rest := by
  induction entries with
  | nil => exact absurd rfl hne
  | cons e entries ih =>
    rw [List.forall_mem_cons] at h hk
    cases entries with
    | nil =>
      have hlast := Spells.lastEntry (means_escape (keyChars e.1)) gap_nil gap_nil gap_nil
        (h.1 ([] ++ '\x7d' :: rest))
      rwa [← entryLiteral_append, text_keyChars hk.1] at hlast
    | cons f entries =>
      have htail := ih (by simp) hk.2 h.2
      have hfront := Spells.entry (means_escape (keyChars e.1)) gap_nil gap_nil gap_nil gap_nil
        (h.1 ([] ++ ',' :: ([] ++ _))) htail
      rw [← entryLiteral_append, text_keyChars hk.1] at hfront
      simpa [Text.joined] using hfront

theorem returns_dict (hk : ∀ e ∈ entries, e.1.isText = true)
    (hd : (entries.map fun e => keyChars e.1).Nodup) (h : ∀ e ∈ entries, Returns e.2) :
    Returns (.dict entries) := by
  intro room hroom rest
  obtain ⟨inner, hinner, hroom⟩ := Room.takes_succ_iff.mp hroom
  have hvalues := takes_depthIn_iff.mp hroom
  have hperm : (sortEntries entries).Perm entries := Text.sortByText_perm _ _
  have hmem {e : Value × Value} (he : e ∈ sortEntries entries) : e ∈ entries := hperm.mem_iff.mp he
  rw [spell_dict, sorted_dict]
  by_cases hnil : entries = []
  · subst hnil
    rw [List.perm_nil.mp hperm]
    exact .emptyDict hinner gap_nil
  · have hne : sortEntries entries ≠ [] := fun hsort => hnil (List.perm_nil.mp (hsort ▸ hperm.symm))
    have hspells := Spells.dict hinner gap_nil (spells_entries hne (fun e he => hk e (hmem he))
      (fun e he => h e (hmem he) inner (hvalues e (hmem he))) rest)
    rw [ofEntries_eq] at hspells
    · simpa using hspells
    · exact List.forall_mem_map.mpr fun e he => hk e (hmem he)
    · rw [List.map_map]
      exact (hperm.map fun e => keyChars e.1).nodup_iff.mpr hd

/-- Closed data without integers that are too long is spelt by its literal. -/
theorem returns_of_closed (h : v.Closed) (hp : v.isProper = true) (hd : v.mostDigits ≤ digitLimit) :
    Returns v := by
  induction h with
  | bool b => exact fun _ _ rest => .word (isWord_bool b)
  | int n => exact fun _ _ rest => .word (isWord_integer hd)
  | float hx => exact fun _ _ rest => .word (isWord_double hx)
  | text s =>
    intro room _ rest
    have hspells : Spells room .value ('"' :: (s.toList.flatMap escape ++ '"' :: rest))
        (.text (String.ofList s.toList)) rest := .text (means_escape s.toList)
    rw [String.ofList_toList] at hspells
    simpa [spell, spellText, sorted] using hspells
  | list _ ih =>
    have hproper := areProper_iff.mp (by simpa only [isProper] using hp)
    exact returns_list fun x hx => ih x hx (hproper x hx) (mostDigitsOf_le_iff.mp hd x hx)
  | dict hk _ ih =>
    simp only [isProper, Bool.and_eq_true] at hp
    have hproper := areProperEntries_iff.mp hp.2
    exact returns_dict hk (nodup_keyChars hk hp.1) fun e he =>
      ih e he (hproper e he) (mostDigitsIn_le_iff.mp hd e he)

/-- A literal is read as its value, sorted, where there is room for it. -/
theorem readWithin_spell (h : v.Closed) (hp : v.isProper = true) (hd : v.mostDigits ≤ digitLimit)
    (hroom : room.Takes v.depth) : readWithin room (spell v) = .ok (sorted v) := by
  have hspells := returns_of_closed h hp hd room hroom []
  rw [List.append_nil] at hspells
  exact readWithin_eq_ok_iff.mpr ⟨[], spell v, [], gap_nil, gap_nil, by simp, hspells⟩

/-- The check of prop values lets closed data pass and nothing else. Closed data has a literal just where it
keeps to the bounds of the writer, and the literal has no angle brackets. Unless an integer in it is too long
to be read, the literal is read as the same JSON value, by every reader that has room for it. -/
theorem literal_reads_back (bounds : Bounds) (place : String) (v : Value) :
    (v.propFault? place = none ↔ v.Closed)
      ∧ (v.Closed → ((∃ text, literal bounds v = .ok text) ↔ v.Fits bounds))
      ∧ (v.Closed → v.Fits bounds → ∃ text, literal bounds v = .ok text ∧ '<' ∉ text ∧ '>' ∉ text
          ∧ (v.isProper = true → v.mostDigits ≤ digitLimit → ∃ w, read text = .ok w ∧ v.Alike w
              ∧ ∀ room : Room, room.Takes v.depth → readWithin room text = .ok w)) := by
  refine ⟨propFault?_eq_none_iff, fun h => ?_, fun h hfits =>
    ⟨spell v, literal_eq_spell h hfits, ?_, ?_, fun hp hd => ?_⟩⟩
  · constructor
    · rintro ⟨text, htext⟩
      exact ((literal_eq_ok_iff h).mp htext).1
    · exact fun hfits => ⟨spell v, literal_eq_spell h hfits⟩
  · exact fun hmem => (of_mem_spell h hmem).2.1 rfl
  · exact fun hmem => (of_mem_spell h hmem).2.2 rfl
  · exact ⟨sorted v, readWithin_spell h hp hd (Room.takes_unbounded _), alike_sorted h,
      fun _ => readWithin_spell h hp hd⟩

theorem literal_of_hostile_keys :
    let v := Value.dict [(.text "b>", .list [.int (-1), .float (.zero true), .bool true]),
      (.text "a\\", .text "\\<b>\"\n")]
    let bounds : Bounds := ⟨some 1, .levels 2⟩
    v.Closed ∧ v.Fits bounds ∧ v.isProper = true ∧ v.mostDigits ≤ digitLimit ∧ (Room.levels 2).Takes v.depth
      ∧ ∃ text w, literal bounds v = .ok text ∧ '<' ∉ text ∧ '>' ∉ text ∧ read text = .ok w ∧ v.Alike w
        ∧ readWithin (.levels 2) text = .ok w := by
  intro v bounds
  have hp : v.isProper = true := by decide
  have hd : v.mostDigits ≤ digitLimit := by decide
  have hroom : (Room.levels 2).Takes v.depth := by decide
  have hc : v.Closed := (literal_reads_back bounds "value" v).1.mp (by decide)
  have hfits : v.Fits bounds := ⟨by decide, by decide⟩
  obtain ⟨text, htext, hless, hgreater, hread⟩ := (literal_reads_back bounds "value" v).2.2 hc hfits
  obtain ⟨w, hw, halike, hwithin⟩ := hread hp hd
  exact ⟨hc, hfits, hp, hd, hroom, text, w, htext, hless, hgreater, hw, halike, hwithin _ hroom⟩

end Wireframe.Markup
