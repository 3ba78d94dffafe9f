import Wireframe.Proofs.Json.Escape
import Wireframe.Proofs.Json.Size
import Wireframe.Proofs.Number.Spelling
import Wireframe.Proofs.Outcome
import Wireframe.Proofs.Text.Cut
import Wireframe.Proofs.Value.Alike

/-! Literals of closed data. They exist where the data keeps to the bounds, two values have one literal just
when they are the same JSON value, and a literal can be told from what follows it. -/
namespace Wireframe.Markup
open Value Outcome

variable {v : Value} {c : Char} {xs : List (Value × Value)} {bounds : Json.Bounds} {level : Nat}

/-- An entry of an object whose key and value are written. -/
def spellEntry (e : List Char × List Char) : List Char := spellText e.1 ++ ':' :: e.2

mutual

/-- The literal of a closed value. -/
def spell : Value → List Char
  | .bool b => (if b then "true" else "false").toList
  | .int n => Text.integer n
  | .float x => x.text .plain
  | .text s => spellText s.toList
  | .list items => '[' :: (Text.joined [','] (spellItems items) ++ [']'])
  | .dict entries =>
    '\x7b' :: (Text.joined [','] ((Text.sortByText (·.1) (spellEntries entries)).map spellEntry)
      ++ ['\x7d'])
  | _ => []

def spellItems : List Value → List (List Char)
  | [] => []
  | x :: rest => spell x :: spellItems rest

def spellEntries : List (Value × Value) → List (List Char × List Char)
  | [] => []
  | (k, v) :: rest => (keyChars k, spell v) :: spellEntries rest

end

theorem spellItems_eq_map (items : List Value) : spellItems items = items.map spell := by
  induction items with
  | nil => rfl
  | cons x rest ih => simp [spellItems, ih]

theorem spellEntries_eq_map (entries : List (Value × Value)) :
    spellEntries entries = entries.map fun e => (keyChars e.1, spell e.2) := by
  induction entries with
  | nil => rfl
  | cons e rest ih => simp [spellEntries, ih]

/-- Entries in the order in which they are written. -/
def sortEntries (entries : List (Value × Value)) : List (Value × Value) :=
  Text.sortByText (fun e => keyChars e.1) entries

theorem map_sortEntries {β : Type} (g : Value × Value → β) (entries : List (Value × Value)) :
    (sortEntries entries).map (fun e => (e.1, g e))
      = Text.sortByText (fun e => keyChars e.1) (entries.map fun e => (e.1, g e)) :=
  Text.map_sortByText (fun e => keyChars e.1) (fun e => keyChars e.1) (fun e => (e.1, g e))
    (fun _ => rfl) entries

def entryLiteral (e : Value × Value) : List Char := spellText (keyChars e.1) ++ ':' :: spell e.2

theorem spell_dict (entries : List (Value × Value)) :
    spell (.dict entries)
      = '\x7b' :: (Text.joined [','] ((sortEntries entries).map entryLiteral) ++ ['\x7d']) := by
  have hsort := Text.map_sortByText (fun e => keyChars e.1) (·.1)
    (fun e : Value × Value => (keyChars e.1, spell e.2)) (fun _ => rfl) entries
  rw [spell, spellEntries_eq_map, sortEntries, ← hsort, List.map_map]
  rfl

/-! Writing closed data that keeps to the bounds succeeds. -/

theorem checkRoom_eq_ok {style : Json.Style} :
    Json.checkRoom style level = .ok () ↔ style.bounds.room.Takes (level + 1) := by
  rw [Json.checkRoom, ← Json.Room.holds_iff]
  split <;> simp_all

theorem integerText_eq_ok {style : Json.Style} {n : Int} {text : List Char} :
    Json.integerText style n = .ok text ↔
      text = Text.integer n ∧ ∀ most ∈ style.bounds.digits, Json.digitCount n ≤ most := by
  unfold Json.integerText
  split
  · rename_i most hmost
    simp only [hmost, Option.mem_def, Option.some.injEq, forall_eq']
    split
    · rename_i hlong
      simp [Nat.not_le.mpr hlong]
    · rename_i hlong
      simp [Nat.not_lt.mp hlong, eq_comm]
  · rename_i hnone
    simp [hnone, eq_comm]

theorem writeItems_eq_mapM (style : Json.Style) (level : Nat) (items : List Value) :
    Json.writeItems style level items = items.mapM (Json.write style level) := by
  induction items with
  | nil => rfl
  | cons x rest ih => rw [Json.writeItems, List.mapM_cons, ih]

theorem writeValues_eq_map (style : Json.Style) (level : Nat) (entries : List (Value × Value)) :
    Json.writeValues style level entries
      = entries.map fun e => (e.1, Json.write style level e.2) := by
  induction entries with
  | nil => rfl
  | cons e rest ih => simp [Json.writeValues, ih]

theorem arranged_literal {α : Type} {entries : List (Value × α)}
    (hk : ∀ e ∈ entries, e.1.isText = true) :
    Json.arranged (.literal bounds) entries = .ok (Text.sortByText (fun e => keyChars e.1) entries) := by
  have hall : (entries.all fun e => e.1.isText) = true := List.all_eq_true.mpr hk
  simp only [Json.arranged, Json.Style.literal, if_true, sortByKey, hall]
  rfl

/-- What a value is written as, without brackets replaced. -/
def written (bounds : Json.Bounds) (level : Nat) (v : Value) : List Char :=
  (Json.write (.literal bounds) level v).toOption.getD []

/-- A value that is written in full wherever it keeps to the bounds, its brackets replaced at last. -/
def Writes (bounds : Json.Bounds) (v : Value) : Prop :=
  ∀ level, v.FitsAt bounds level → Json.write (.literal bounds) level v = .ok (written bounds level v)
    ∧ (written bounds level v).flatMap bracketFree = spell v

theorem writes_of_eq {text : List Char}
    (h : ∀ level, v.FitsAt bounds level → Json.write (.literal bounds) level v = .ok text)
    (ht : text.flatMap bracketFree = spell v) : Writes bounds v := by
  intro level hfits
  have hw : written bounds level v = text := by simp [written, h level hfits, Except.toOption]
  exact ⟨hw ▸ h level hfits, hw ▸ ht⟩

theorem flatMap_bracketFree_of_free {s : List Char} (h : ∀ c ∈ s, c ≠ '<' ∧ c ≠ '>') :
    s.flatMap bracketFree = s := by
  induction s with
  | nil => rfl
  | cons c s ih =>
    have hc := h c List.mem_cons_self
    simp [bracketFree, hc.1, hc.2, ih fun x hx => h x (List.mem_cons_of_mem _ hx)]

theorem flatMap_quotedText (s : List Char) :
    (Json.quotedText false s).flatMap bracketFree = spellText s := by
  simp only [Json.quotedText, spellText, List.flatMap_cons, List.flatMap_append, List.flatMap_assoc,
    List.flatMap_nil]
  rfl

theorem numberChar_bracketFree {s : List Char} (h : ∀ c ∈ s, isNumberChar c = true) :
    s.flatMap bracketFree = s := by
  apply flatMap_bracketFree_of_free
  intro c hc
  have hn := h c hc
  constructor <;> rintro rfl <;> revert hn <;> decide

/-- A container on one line. -/
def enclosed (opening closing : Char) (items : List (List Char)) : List Char :=
  opening :: (Text.joined [','] items ++ [closing])

theorem enclosed_of_not_spread {style : Json.Style} (hs : style.spread = false) (level : Nat)
    (opening closing : Char) (items : List (List Char)) :
    Json.enclosed style level opening closing items = enclosed opening closing items := by
  cases items with
  | nil => rfl
  | cons x xs => simp [Json.enclosed, hs, enclosed]

theorem flatMap_enclosed {α : Type} {opening closing : Char} {f g : α → List Char} {xs : List α}
    (ho : bracketFree opening = [opening]) (hc : bracketFree closing = [closing])
    (h : ∀ x ∈ xs, (f x).flatMap bracketFree = g x) :
    (enclosed opening closing (xs.map f)).flatMap bracketFree
      = opening :: (Text.joined [','] (xs.map g) ++ [closing]) := by
  have hmap : (xs.map f).map (·.flatMap bracketFree) = xs.map g := by
    rw [List.map_map]
    exact List.map_congr_left h
  have hcomma : [','].flatMap bracketFree = [','] := rfl
  rw [enclosed, List.flatMap_cons, ho, List.flatMap_append, Text.flatMap_joined, hmap, hcomma]
  simp [hc]

/-- An entry of an object as it is written. -/
def writtenEntry (bounds : Json.Bounds) (level : Nat) (e : Value × Value) : List Char :=
  Json.quotedText false (keyChars e.1) ++ ':' :: written bounds level e.2

theorem flatMap_writtenEntry {e : Value × Value}
    (h : (written bounds level e.2).flatMap bracketFree = spell e.2) :
    (writtenEntry bounds level e).flatMap bracketFree = entryLiteral e := by
  rw [writtenEntry, List.flatMap_append, flatMap_quotedText, List.flatMap_cons, h]
  rfl

theorem entryText_of_isText {style : Json.Style} (hs : style.spread = false) {k : Value}
    (hk : k.isText = true) (value : Except Json.WriteError (List Char)) :
    Json.entryText style k value
      = value.map fun text => Json.quotedText style.ascii (keyChars k) ++ ':' :: text := by
  cases k with
  | text s =>
    simp only [Json.entryText, hs, Bool.false_eq_true, if_false]
    cases value <;> rfl
  | _ => cases hk

theorem write_float (style : Json.Style) {x : Double} (hx : x.IsFinite) (level : Nat) :
    Json.write style level (.float x) = .ok (x.text style.number) := by
  cases x with
  | finite _ _ => rw [Json.write]; rfl
  | infinite _ => exact hx.elim
  | nan => exact hx.elim

theorem writes_float {x : Double} (hx : x.IsFinite) : Writes bounds (.float x) :=
  writes_of_eq (fun level _ => write_float (.literal bounds) hx level)
    (numberChar_bracketFree fun _ => Double.isNumberChar_of_mem_text hx)

theorem writes_list {items : List Value} (h : ∀ x ∈ items, Writes bounds x) :
    Writes bounds (.list items) := by
  intro level hfits
  obtain ⟨hroom, hinner⟩ := fitsAt_list_iff.mp hfits
  have hitems : Json.writeItems (.literal bounds) (level + 1) items
      = .ok (items.map (written bounds (level + 1))) := by
    rw [writeItems_eq_mapM]
    exact mapM_eq_ok fun x hx => (h x hx (level + 1) (hinner x hx)).1
  have hw : Json.write (.literal bounds) level (.list items)
      = .ok (enclosed '[' ']' (items.map (written bounds (level + 1)))) := by
    rw [Json.write, checkRoom_eq_ok.mpr hroom, ok_bind, hitems]
    exact congrArg Except.ok (enclosed_of_not_spread rfl _ _ _ _)
  rw [written, hw]
  refine ⟨rfl, ?_⟩
  rw [spell, spellItems_eq_map]
  apply flatMap_enclosed (by decide) (by decide)
  intro x hx
  exact (h x hx (level + 1) (hinner x hx)).2

/-- The values of entries are written in the order of the keys. -/
theorem arranged_writeValues {entries : List (Value × Value)} (hk : ∀ e ∈ entries, e.1.isText = true) :
    Json.arranged (.literal bounds) (Json.writeValues (.literal bounds) level entries)
      = .ok ((sortEntries entries).map fun e => (e.1, Json.write (.literal bounds) level e.2)) := by
  rw [writeValues_eq_map, map_sortEntries]
  exact arranged_literal (List.forall_mem_map.mpr hk)

/-- The entries of a dictionary are written in the order of their keys. -/
theorem writes_dict {entries : List (Value × Value)} (hk : ∀ e ∈ entries, e.1.isText = true)
    (h : ∀ e ∈ entries, Writes bounds e.2) : Writes bounds (.dict entries) := by
  intro level hfits
  obtain ⟨hroom, hinner⟩ := fitsAt_dict_iff.mp hfits
  have hmem {e : Value × Value} (he : e ∈ sortEntries entries) : e ∈ entries :=
    (Text.sortByText_perm _ entries).mem_iff.mp he
  have hentry : ∀ e ∈ sortEntries entries,
      Json.entryText (.literal bounds) e.1 (Json.write (.literal bounds) (level + 1) e.2)
        = .ok (writtenEntry bounds (level + 1) e) := by
    intro e he
    rw [(h e (hmem he) (level + 1) (hinner e (hmem he))).1]
    exact entryText_of_isText rfl (hk e (hmem he)) _
  have hw : Json.write (.literal bounds) level (.dict entries)
      = .ok (enclosed '\x7b' '\x7d' ((sortEntries entries).map (writtenEntry bounds (level + 1)))) := by
    rw [Json.write, checkRoom_eq_ok.mpr hroom, ok_bind, arranged_writeValues hk, ok_bind, List.mapM_map,
      Function.comp_def, mapM_eq_ok hentry]
    exact congrArg Except.ok (enclosed_of_not_spread rfl _ _ _ _)
  rw [written, hw]
  refine ⟨rfl, ?_⟩
  rw [spell_dict]
  apply flatMap_enclosed (by decide) (by decide)
  intro e he
  exact flatMap_writtenEntry (h e (hmem he) (level + 1) (hinner e (hmem he))).2

theorem writes_of_closed (h : v.Closed) : Writes bounds v := by
  induction h with
  | bool b =>
    apply writes_of_eq fun _ _ => by rw [Json.write]
    cases b <;> decide
  | int n =>
    apply writes_of_eq fun _ hfits => by
      rw [Json.write]
      exact integerText_eq_ok.mpr ⟨rfl, hfits.digits⟩
    exact numberChar_bracketFree fun c => Text.isNumberChar_of_mem_integer
  | float hx => exact writes_float hx
  | text s =>
    apply writes_of_eq fun _ _ => by rw [Json.write]
    exact flatMap_quotedText s.toList
  | list _ ih => exact writes_list ih
  | dict hk _ ih => exact writes_dict hk ih

/-- Every closed value has a literal that keeps to the bounds. -/
theorem literal_eq_spell (h : v.Closed) (hfits : v.Fits bounds) : literal bounds v = .ok (spell v) := by
  obtain ⟨hw, hs⟩ := writes_of_closed h 0 hfits
  rw [literal, hw]
  exact congrArg Except.ok hs

/-! What is written keeps to the bounds. -/

theorem fitsAt_of_write (h : v.Closed) {text : List Char} (hlevel : bounds.room.Takes level)
    (hw : Json.write (.literal bounds) level v = .ok text) : v.FitsAt bounds level := by
  induction h generalizing level text with
  | bool _ | float _ | text _ => exact .of_plain rfl rfl hlevel
  | int n =>
    rw [Json.write] at hw
    exact ⟨(integerText_eq_ok.mp hw).2, by simpa [depth] using hlevel⟩
  | @list items _ ih =>
    rw [Json.write] at hw
    obtain ⟨_, hroom, hw⟩ := bind_eq_ok hw
    rw [checkRoom_eq_ok] at hroom
    obtain ⟨texts, hitems, -⟩ := bind_eq_ok hw
    rw [writeItems_eq_mapM] at hitems
    refine fitsAt_list_iff.mpr ⟨hroom, fun x hx => ?_⟩
    obtain ⟨text, htext⟩ := exists_mapM_eq_ok_iff.mp ⟨_, hitems⟩ x hx
    exact ih x hx hroom htext
  | @dict entries hk _ ih =>
    rw [Json.write] at hw
    obtain ⟨_, hroom, hw⟩ := bind_eq_ok hw
    rw [checkRoom_eq_ok] at hroom
    rw [arranged_writeValues hk, ok_bind] at hw
    obtain ⟨texts, hentries, -⟩ := bind_eq_ok hw
    refine fitsAt_dict_iff.mpr ⟨hroom, fun e he => ?_⟩
    have hmem : (e.1, Json.write (.literal bounds) (level + 1) e.2) ∈ (sortEntries entries).map
        fun e => (e.1, Json.write (.literal bounds) (level + 1) e.2) :=
      List.mem_map_of_mem ((Text.sortByText_perm _ entries).mem_iff.mpr he)
    obtain ⟨_, htext⟩ := exists_mapM_eq_ok_iff.mp ⟨_, hentries⟩ _ hmem
    obtain ⟨_, -, htext⟩ := bind_eq_ok htext
    obtain ⟨text, htext, -⟩ := bind_eq_ok htext
    exact ih e he hroom htext

/-- Closed data has a literal just where it keeps to the bounds. -/
theorem literal_eq_ok_iff (h : v.Closed) {text : List Char} :
    literal bounds v = .ok text ↔ v.Fits bounds ∧ text = spell v := by
  constructor
  · intro hliteral
    have hfits : v.Fits bounds := by
      cases hw : Json.write (.literal bounds) 0 v with
      | ok text => exact fitsAt_of_write h (Json.Room.takes_zero _) hw
      | error fault =>
        rw [literal, hw] at hliteral
        cases fault <;> cases hliteral
    rw [literal_eq_spell h hfits] at hliteral
    exact ⟨hfits, (Except.ok.inj hliteral).symm⟩
  · rintro ⟨hfits, rfl⟩
    exact literal_eq_spell h hfits

/-- Where there is room for the containers, only an integer can be too much. -/
theorem write_ne_tooNested (h : v.Closed) (hfits : v.FitsAt ⟨none, bounds.room⟩ level) :
    Json.write (.literal bounds) level v ≠ .error .tooNested := by
  intro hw
  induction h generalizing level with
  | bool _ | text _ => cases hw
  | float hx =>
    rw [write_float _ hx] at hw
    cases hw
  | int n =>
    rw [Json.write, Json.integerText] at hw
    split at hw
    · split at hw <;> cases hw
    · cases hw
  | @list items _ ih =>
    obtain ⟨hroom, hinner⟩ := fitsAt_list_iff.mp hfits
    rw [Json.write, checkRoom_eq_ok.mpr hroom, ok_bind, writeItems_eq_mapM] at hw
    obtain ⟨x, hx, hwrite⟩ := exists_eq_error_of_mapM (eq_error_of_map hw)
    exact ih x hx (hinner x hx) hwrite
  | @dict entries hk _ ih =>
    obtain ⟨hroom, hinner⟩ := fitsAt_dict_iff.mp hfits
    rw [Json.write, checkRoom_eq_ok.mpr hroom, ok_bind, arranged_writeValues hk, ok_bind, List.mapM_map] at hw
    obtain ⟨e, he, hwrite⟩ := exists_eq_error_of_mapM (eq_error_of_map hw)
    have hmem := (Text.sortByText_perm _ entries).mem_iff.mp he
    have hentry : Json.entryText (.literal bounds) e.1 (Json.write (.literal bounds) (level + 1) e.2) = _ :=
      entryText_of_isText rfl (hk e hmem) _
    exact ih e hmem (hinner e hmem) (eq_error_of_map (hentry.symm.trans hwrite))

/-- Nothing in a literal is a control character or an angle bracket. -/
theorem of_mem_spell (h : v.Closed) (hc : c ∈ spell v) : 32 ≤ c.toNat ∧ c ≠ '<' ∧ c ≠ '>' := by
  have number {s : List Char} (hs : ∀ c ∈ s, isNumberChar c = true) (hc : c ∈ s) :
      32 ≤ c.toNat ∧ c ≠ '<' ∧ c ≠ '>' := by
    have hn := hs c hc
    simp only [isNumberChar, Bool.or_eq_true, decide_eq_true_eq] at hn
    rcases hn with (((hn | rfl) | rfl) | rfl) | rfl
    · have := of_isAlphanum (by simp [Char.isAlphanum, hn] : c.isAlphanum = true)
      exact ⟨by omega, this.2⟩
    all_goals decide
  induction h with
  | bool b => cases b <;> simp [spell] at hc <;> rcases hc with rfl | rfl | rfl | rfl | rfl <;> decide
  | int n => exact number (fun _ => Text.isNumberChar_of_mem_integer) hc
  | float hx => exact number (fun _ => Double.isNumberChar_of_mem_text hx) hc
  | text s => exact of_mem_spellText hc
  | @list items _ ih =>
    simp only [spell, spellItems_eq_map, List.mem_cons, List.mem_append, List.not_mem_nil,
      or_false] at hc
    rcases hc with rfl | hc | rfl
    · decide
    · rcases Text.mem_joined hc with hc | ⟨_, hx, hc⟩
      · obtain rfl := List.mem_singleton.mp hc
        decide
      · obtain ⟨x, hmem, rfl⟩ := List.mem_map.mp hx
        exact ih x hmem hc
    · decide
  | @dict entries _ _ ih =>
    simp only [spell_dict, List.mem_cons, List.mem_append, List.not_mem_nil, or_false] at hc
    rcases hc with rfl | hc | rfl
    · decide
    · rcases Text.mem_joined hc with hc | ⟨_, hx, hc⟩
      · obtain rfl := List.mem_singleton.mp hc
        decide
      · obtain ⟨e, hmem, rfl⟩ := List.mem_map.mp hx
        rcases List.mem_append.mp hc with hc | hc
        · exact of_mem_spellText hc
        · rcases List.mem_cons.mp hc with rfl | hc
          · decide
          · exact ih e ((Text.sortByText_perm _ entries).mem_iff.mp hmem) hc
    · decide

end Wireframe.Markup
