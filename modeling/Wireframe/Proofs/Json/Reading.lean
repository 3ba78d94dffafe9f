import Mathlib.Data.List.Induction
import Wireframe.Proofs.Json.Compact
import Wireframe.Proofs.Json.Words

/-! What is read from closed data on one line: the data, unless an integer in it is too long. -/
namespace Wireframe.Json
open Value Outcome

variable {style : Style} {v : Value} {c : Char} {s rest : List Char} {fuel : Nat} {room : Room}
variable {items : List Value} {e : Value × Value} {entries : List (Value × Value)}

/-- A text that starts as values do: with no blank, no closing bracket and no byte order mark. -/
def Starts (s : List Char) : Prop :=
  ∃ c cs, s = c :: cs ∧ isBlank c = false ∧ c ≠ ']' ∧ c ≠ '\x7d' ∧ c ≠ '\ufeff'

theorem Starts.append (h : Starts s) (rest : List Char) : Starts (s ++ rest) := by
  obtain ⟨c, cs, rfl, hc⟩ := h
  exact ⟨c, cs ++ rest, rfl, hc⟩

theorem Starts.skipBlanks_eq (h : Starts s) : skipBlanks s = s := by
  obtain ⟨c, cs, rfl, hc, _⟩ := h
  exact skipBlanks_cons hc cs

theorem starts_of_isNumberChar (hne : s ≠ []) (h : ∀ c ∈ s, isNumberChar c = true) : Starts s := by
  obtain ⟨c, cs, rfl⟩ := List.exists_cons_of_ne_nil hne
  have differs {d : Char} (hd : isNumberChar d = false) : c ≠ d := by
    rintro rfl
    simp [h c List.mem_cons_self] at hd
  refine ⟨c, cs, rfl, ?_, differs (by decide), differs (by decide), differs (by decide)⟩
  simp [isBlank, differs (d := ' ') (by decide), differs (d := '\t') (by decide),
    differs (d := '\n') (by decide), differs (d := '\r') (by decide)]

theorem starts_compact (style : Style) (h : v.Closed) (hm : style.number.markWhole = true) :
    Starts (compact style v) := by
  cases h with
  | bool b => cases b <;> exact ⟨_, _, rfl, by decide, by decide, by decide, by decide⟩
  | int n =>
    exact starts_of_isNumberChar (Text.integer_ne_nil n) fun _ => Text.isNumberChar_of_mem_integer
  | @float x hx =>
    obtain ⟨c, hc, _⟩ := Double.exists_mark_mem_text hx hm
    exact starts_of_isNumberChar (List.ne_nil_of_mem hc) fun _ => Double.isNumberChar_of_mem_text hx
  | text s => exact ⟨_, _, rfl, by decide, by decide, by decide, by decide⟩
  | list _ => exact ⟨_, _, rfl, by decide, by decide, by decide, by decide⟩
  | dict _ _ => exact ⟨_, _, rfl, by decide, by decide, by decide, by decide⟩

/-! Names and numbers. -/

theorem readValue_signed {negative : Bool} (hc : c.isDigit = true) :
    readValue (fuel + 1) room (signed negative (c :: s)) = readNumber (signed negative (c :: s)) := by
  rw [← readPlain_signed hc]
  have hne : ∀ d : Char, d.isDigit = false → c ≠ d := by
    rintro d hd rfl
    simp [hc] at hd
  cases negative <;>
    · simp only [signed, if_true, Bool.false_eq_true, if_false, List.cons_append, List.nil_append]
      rw [readValue]
      all_goals simp [hne]

/-- A number in decimal notation starts with a digit. -/
theorem exists_digit_write {d : Decimal} (h : d.Plain) (style : NumberStyle) :
    ∃ c s, style.write d = c :: s ∧ c.isDigit = true := by
  obtain ⟨c, cs, hd⟩ := List.exists_cons_of_ne_nil h.nonempty
  have hc : c.isDigit = true := h.digit c (hd ▸ List.mem_cons_self)
  rw [NumberStyle.write, hd]
  dsimp only
  split
  · split
    · exact ⟨'0', _, rfl, by decide⟩
    · rename_i hpoint
      obtain ⟨n, hn⟩ : ∃ n, d.point.toNat = n + 1 := ⟨d.point.toNat - 1, by omega⟩
      split
      · exact ⟨c, _, rfl, hc⟩
      · rw [hn]
        exact ⟨c, _, rfl, hc⟩
  · split
    · rename_i heq
      cases heq
    · rename_i heq
      obtain ⟨rfl, rfl⟩ := List.cons.inj heq
      exact ⟨c, _, rfl, hc⟩
    · rename_i heq
      obtain ⟨rfl, rfl⟩ := List.cons.inj heq
      exact ⟨c, _, rfl, hc⟩

theorem readValue_float {negative : Bool} (r : Fin Double.finiteCount)
    (hm : style.number.markWhole = true) (hr : Ends rest) :
    readValue (fuel + 1) room ((Double.finite negative r).text style.number ++ rest)
      = .ok (.float (.finite negative r), rest) := by
  have hread := readNumber_text negative r hm hr
  obtain ⟨c, s, hs, hc⟩ := exists_digit_write (Decimal.plain_shortest r) style.number
  have htext : (Double.finite negative r).text style.number ++ rest
      = signed negative (c :: (s ++ rest)) := by
    rw [Double.text, hs, List.append_assoc]
    rfl
  rw [htext] at hread ⊢
  rw [readValue_signed hc, hread]

theorem readValue_integer (n : Int) (hr : Ends rest) :
    (readValue (fuel + 1) room (Text.integer n ++ rest)).toOption
      = if digitCount n ≤ digitLimit then some (.int n, rest) else none := by
  have hread := readNumber_integer_eq n hr
  obtain ⟨c, s, hs⟩ := List.exists_cons_of_ne_nil (whole_decimal n.natAbs).nonempty
  have hc : c.isDigit = true := Text.isDigit_of_mem_decimal (hs ▸ List.mem_cons_self)
  have htext : Text.integer n ++ rest = signed (n < 0) (c :: (s ++ rest)) := by
    rw [integer_eq_signed, hs, signed, signed, List.append_assoc]
    rfl
  rw [htext] at hread ⊢
  rw [readValue_signed hc, hread]
  split
  · rw [if_neg (by omega)]
    rfl
  · rw [if_pos (by omega)]
    rfl

theorem enter_unbounded (e : Excess) (s : List Char) : enter .unbounded e s = .ok .unbounded := rfl

/-! Sequences. -/

section
variable {α : Type} {reader : Nat → List Char → Except Stop (List α × List Char)} {close : Char}
variable {text : α → List Char} {digits : α → Nat} {as : List α}

/-- A reader that takes one item after the other, as long as commas follow. -/
structure TakesItems (reader : Nat → List Char → Except Stop (List α × List Char)) (close : Char)
    (text : α → List Char) (digits : α → Nat) (as : List α) : Prop where
  starts : ∀ a ∈ as, Starts (text a)
  last : ∀ a ∈ as, ∀ fuel rest, 2 * (text a).length ≤ fuel →
    (reader (fuel + 1) (text a ++ close :: rest)).toOption
      = if digits a ≤ digitLimit then some ([a], rest) else none
  more : ∀ a ∈ as, ∀ fuel s, Starts s → 2 * (text a).length ≤ fuel →
    (reader (fuel + 1) (text a ++ ',' :: s)).toOption
      = if digits a ≤ digitLimit then (reader fuel s).toOption.map fun (as, rest) => (a :: as, rest)
        else none

theorem TakesItems.tail {a : α} (h : TakesItems reader close text digits (a :: as)) :
    TakesItems reader close text digits as where
  starts b hb := h.starts b (List.mem_cons_of_mem _ hb)
  last b hb := h.last b (List.mem_cons_of_mem _ hb)
  more b hb := h.more b (List.mem_cons_of_mem _ hb)

theorem TakesItems.starts_joined (h : TakesItems reader close text digits as) (hne : as ≠ []) :
    Starts (Text.joined [','] (as.map text)) := by
  obtain ⟨a, as, rfl⟩ := List.exists_cons_of_ne_nil hne
  rw [List.map_cons, Text.joined_cons]
  exact (h.starts a List.mem_cons_self).append _

/-- All items are read, unless one of them has an integer that is too long. -/
theorem TakesItems.joined (h : TakesItems reader close text digits as) (hne : as ≠ []) (fuel : Nat)
    (rest : List Char) (hf : 2 * (Text.joined [','] (as.map text)).length + 1 ≤ fuel) :
    (reader fuel (Text.joined [','] (as.map text) ++ close :: rest)).toOption
      = if ∀ a ∈ as, digits a ≤ digitLimit then some (as, rest) else none := by
  induction as generalizing fuel with
  | nil => exact absurd rfl hne
  | cons a as ih =>
    obtain ⟨fuel, rfl⟩ : ∃ k, fuel = k + 1 := ⟨fuel - 1, by omega⟩
    by_cases hnil : as = []
    · subst hnil
      simp only [List.map_cons, List.map_nil, Text.joined] at hf ⊢
      rw [h.last a List.mem_cons_self fuel rest (by omega)]
      simp
    · have hjoined : Text.joined [','] ((a :: as).map text)
          = text a ++ ',' :: Text.joined [','] (as.map text) := by
        obtain ⟨b, bs, rfl⟩ := List.exists_cons_of_ne_nil hnil
        simp [Text.joined]
      rw [hjoined, List.length_append, List.length_cons] at hf
      have hstarts := (h.tail.starts_joined hnil).append (close :: rest)
      rw [hjoined, List.append_assoc, List.cons_append,
        h.more a List.mem_cons_self fuel _ hstarts (by omega), ih h.tail hnil fuel (by omega)]
      by_cases ha : digits a ≤ digitLimit <;> by_cases has : ∀ b ∈ as, digits b ≤ digitLimit
      all_goals simp [ha, has]

end

/-- A value is read from its text, unless an integer in it is too long. -/
def ReadsAs (style : Style) (v : Value) : Prop :=
  ∀ fuel rest, Ends rest → 2 * (compact style v).length ≤ fuel →
    (readValue fuel .unbounded (compact style v ++ rest)).toOption
      = if v.mostDigits ≤ digitLimit then some (v, rest) else none

theorem ends_cons (hc : c = ',' ∨ c = ']' ∨ c = '\x7d') (s : List Char) : Ends (c :: s) := by
  intro d hd
  rwa [← Option.some.inj hd]

theorem takesItems_readItems (hm : style.number.markWhole = true) (hc : ∀ x ∈ items, x.Closed)
    (h : ∀ x ∈ items, ReadsAs style x) :
    TakesItems (readItems · .unbounded) ']' (compact style) mostDigits items where
  starts x hx := starts_compact style (hc x hx) hm
  last x hx fuel rest hf := by
    rw [readItems, toOption_bind, h x hx fuel _ (ends_cons (by simp) rest) hf]
    split
    · simp only [Option.bind_some, skipBlanks_cons (c := ']') (by decide)]
      rfl
    · rfl
  more x hx fuel s hs hf := by
    rw [readItems, toOption_bind, h x hx fuel _ (ends_cons (by simp) s) hf]
    split
    · simp only [Option.bind_some, skipBlanks_cons (c := ',') (by decide), hs.skipBlanks_eq]
      cases readItems fuel .unbounded s <;> rfl
    · rfl

theorem text_keyChars {k : Value} (hk : k.isText = true) :
    Value.text (String.ofList (keyChars k)) = k := by
  cases k with
  | text s => simp [keyChars, text?]
  | _ => cases hk

/-- The entries of an object from one on whose value was read. -/
def entriesFrom (fuel : Nat) (room : Room) (key : Value) (found : Value × List Char) :
    Except Stop (List (Value × Value) × List Char) := do
  let (value, rest) := found
  match skipBlanks rest with
  | '\x7d' :: rest => return ([(key, value)], rest)
  | ',' :: rest =>
    let (entries, rest) ← readEntries fuel room (skipBlanks rest)
    return ((key, value) :: entries, rest)
  | rest => throw ⟨.expectingComma, rest⟩

/-- The key of an entry is read, and then its value. -/
theorem readEntries_succ (he : e.1.isText = true) (hs : Starts (compact style e.2)) (fuel : Nat)
    (s : List Char) :
    readEntries (fuel + 1) room (compactEntry style e ++ s)
      = readValue fuel room (compact style e.2 ++ s) >>= entriesFrom fuel room e.1 := by
  have hread := readText_quotedText style.ascii (compactEntry style e ++ s)
    (':' :: (compact style e.2 ++ s)) (keyChars e.1)
  have htext : compactEntry style e ++ s
      = '"' :: ((keyChars e.1).flatMap (escapedChar style.ascii)
        ++ '"' :: ':' :: (compact style e.2 ++ s)) := by
    simp [compactEntry, quotedText]
  rw [htext] at hread ⊢
  rw [readEntries, hread, ok_bind]
  simp only [skipBlanks_cons (c := ':') (by decide), (hs.append s).skipBlanks_eq, text_keyChars he]
  rfl

theorem starts_compactEntry (style : Style) (e : Value × Value) : Starts (compactEntry style e) :=
  ⟨'"', _, rfl, by decide, by decide, by decide, by decide⟩

theorem length_compact_le (style : Style) (e : Value × Value) :
    (compact style e.2).length ≤ (compactEntry style e).length := by
  rw [compactEntry, List.length_append, List.length_cons]
  omega

theorem takesItems_readEntries (hm : style.number.markWhole = true)
    (hk : ∀ e ∈ entries, e.1.isText = true) (hc : ∀ e ∈ entries, e.2.Closed)
    (h : ∀ e ∈ entries, ReadsAs style e.2) :
    TakesItems (readEntries · .unbounded) '\x7d' (compactEntry style) (·.2.mostDigits) entries where
  starts e _ := starts_compactEntry style e
  last e he fuel rest hf := by
    have hlength := length_compact_le style e
    rw [readEntries_succ (hk e he) (starts_compact style (hc e he) hm), toOption_bind,
      h e he fuel _ (ends_cons (by simp) rest) (by omega)]
    split
    · simp only [Option.bind_some, entriesFrom, skipBlanks_cons (c := '\x7d') (by decide)]
      rfl
    · rfl
  more e he fuel s hs hf := by
    have hlength := length_compact_le style e
    rw [readEntries_succ (hk e he) (starts_compact style (hc e he) hm), toOption_bind,
      h e he fuel _ (ends_cons (by simp) s) (by omega)]
    split
    · simp only [Option.bind_some, entriesFrom, skipBlanks_cons (c := ',') (by decide), hs.skipBlanks_eq]
      cases readEntries fuel .unbounded s <;> rfl
    · rfl

theorem put_of_new (hk : e.1.isText = true) (h : ∀ f ∈ entries, f.1.isText = true)
    (hnew : keyChars e.1 ∉ entries.map fun f => keyChars f.1) :
    put e.1 e.2 entries = entries ++ [e] := by
  induction entries with
  | nil => rfl
  | cons f rest ih =>
    rw [List.map_cons, List.mem_cons, not_or] at hnew
    have hf := h f List.mem_cons_self
    have hdiffer : same f.1 e.1 = false := by
      obtain ⟨k, v⟩ := f
      obtain ⟨k', v'⟩ := e
      cases k <;> cases hf
      cases k' <;> cases hk
      simp only [same, decide_eq_false_iff_not]
      rintro rfl
      exact hnew.1 rfl
    rw [put, hdiffer, ih (fun g hg => h g (List.mem_cons_of_mem _ hg)) hnew.2]
    rfl

/-- Entries whose keys differ are the dictionary's. -/
theorem ofEntries_eq (hk : ∀ e ∈ entries, e.1.isText = true)
    (hd : (entries.map fun e => keyChars e.1).Nodup) : ofEntries entries = .dict entries := by
  rw [ofEntries]
  congr 1
  induction entries using List.reverseRecOn with
  | nil => rfl
  | append_singleton entries e ih =>
    rw [List.map_append, List.nodup_append] at hd
    have hfront : ∀ f ∈ entries, f.1.isText = true := fun f hf =>
      hk f (List.mem_append_left _ hf)
    rw [List.foldl_append, ih hfront hd.1]
    refine put_of_new (hk e (by simp)) hfront ?_
    intro hmem
    exact hd.2.2 _ hmem _ (by simp) rfl

theorem readsAs_list (hm : style.number.markWhole = true) (hc : ∀ x ∈ items, x.Closed)
    (h : ∀ x ∈ items, ReadsAs style x) : ReadsAs style (.list items) := by
  intro fuel rest _ hf
  rw [compact_list, Markup.enclosed] at hf ⊢
  obtain ⟨fuel, rfl⟩ : ∃ k, fuel = k + 1 := ⟨fuel - 1, by rw [List.length_cons] at hf; omega⟩
  simp only [List.length_cons, List.length_append, List.length_nil] at hf
  simp only [List.cons_append, List.append_assoc, List.nil_append, mostDigits, mostDigitsOf_le_iff]
  by_cases hnil : items = []
  · subst hnil
    rw [List.map_nil, Text.joined, List.nil_append, readValue, enter_unbounded, ok_bind]
    simp only [skipBlanks_cons (c := ']') (by decide)]
    rw [if_pos (by simp)]
    rfl
  · have htakes := takesItems_readItems hm hc h
    obtain ⟨d, ds, hds, hblank, hclose, _, _⟩ := (htakes.starts_joined hnil).append (']' :: rest)
    have hread := htakes.joined hnil fuel rest (by omega)
    rw [hds] at hread ⊢
    rw [readValue, enter_unbounded, ok_bind]
    simp only [skipBlanks_cons hblank]
    split
    · rename_i heq
      exact absurd (List.cons.inj heq).1 hclose
    · rw [toOption_bind, hread]
      split <;> rfl

theorem readsAs_dict (hm : style.number.markWhole = true) (hk : ∀ e ∈ entries, e.1.isText = true)
    (hd : (entries.map fun e => keyChars e.1).Nodup) (hc : ∀ e ∈ entries, e.2.Closed)
    (h : ∀ e ∈ entries, ReadsAs style e.2) : ReadsAs style (.dict entries) := by
  intro fuel rest _ hf
  rw [compact_dict, Markup.enclosed] at hf ⊢
  obtain ⟨fuel, rfl⟩ : ∃ k, fuel = k + 1 := ⟨fuel - 1, by rw [List.length_cons] at hf; omega⟩
  simp only [List.length_cons, List.length_append, List.length_nil] at hf
  simp only [List.cons_append, List.append_assoc, List.nil_append, mostDigits, mostDigitsIn_le_iff]
  by_cases hnil : entries = []
  · subst hnil
    rw [List.map_nil, Text.joined, List.nil_append, readValue, enter_unbounded, ok_bind]
    simp only [skipBlanks_cons (c := '\x7d') (by decide)]
    rw [if_pos (by simp)]
    rfl
  · have htakes := takesItems_readEntries hm hk hc h
    obtain ⟨d, ds, hds, hblank, _, hclose, _⟩ := (htakes.starts_joined hnil).append ('\x7d' :: rest)
    have hread := htakes.joined hnil fuel rest (by omega)
    rw [hds] at hread ⊢
    rw [readValue, enter_unbounded, ok_bind]
    simp only [skipBlanks_cons hblank]
    split
    · rename_i heq
      exact absurd (List.cons.inj heq).1 hclose
    · rw [toOption_bind, hread]
      split
      · rw [Option.bind_some, ofEntries_eq hk hd]
        rfl
      · rfl

/-- Closed data is read from its line, unless an integer in it is too long. -/
theorem readsAs_of_closed (hm : style.number.markWhole = true) (h : v.Closed) (hp : v.isProper = true) :
    ReadsAs style v := by
  induction h with
  | bool b =>
    intro fuel rest _ hf
    obtain ⟨fuel, rfl⟩ : ∃ k, fuel = k + 1 := ⟨fuel - 1, by cases b <;> simp [compact] at hf <;> omega⟩
    cases b <;> rfl
  | int n =>
    intro fuel rest hr hf
    rw [compact] at hf ⊢
    have hlength := List.length_pos_of_ne_nil (Text.integer_ne_nil n)
    obtain ⟨fuel, rfl⟩ : ∃ k, fuel = k + 1 := ⟨fuel - 1, by omega⟩
    exact readValue_integer n hr
  | @float x hx =>
    intro fuel rest hr hf
    rw [compact] at hf ⊢
    obtain ⟨c, hc, _⟩ := Double.exists_mark_mem_text hx hm
    have hlength := List.length_pos_of_mem hc
    obtain ⟨fuel, rfl⟩ : ∃ k, fuel = k + 1 := ⟨fuel - 1, by omega⟩
    cases x with
    | finite negative r =>
      rw [readValue_float r hm hr]
      rfl
    | infinite _ => exact hx.elim
    | nan => exact hx.elim
  | text s =>
    intro fuel rest _ hf
    have hread := readText_quotedText style.ascii (compact style (.text s) ++ rest) rest s.toList
    have htext : compact style (.text s) ++ rest
        = '"' :: (s.toList.flatMap (escapedChar style.ascii) ++ '"' :: rest) := by
      simp [compact, quotedText]
    obtain ⟨fuel, rfl⟩ : ∃ k, fuel = k + 1 := ⟨fuel - 1, by simp [compact, quotedText] at hf; omega⟩
    rw [htext] at hread ⊢
    rw [readValue, hread, ok_bind, if_pos (by simp [mostDigits])]
    show some (Value.text (String.ofList s.toList), rest) = _
    rw [String.ofList_toList]
  | @list items hc ih =>
    have hproper := areProper_iff.mp (by simpa only [isProper] using hp)
    exact readsAs_list hm hc fun x hx => ih x hx (hproper x hx)
  | @dict entries hk hc ih =>
    simp only [isProper, Bool.and_eq_true] at hp
    have hproper := areProperEntries_iff.mp hp.2
    exact readsAs_dict hm hk (nodup_keyChars hk hp.1) hc fun e he => ih e he (hproper e he)

theorem read_compact (hm : style.number.markWhole = true) (h : v.Closed) (hp : v.isProper = true) :
    (read (compact style v)).toOption = if v.mostDigits ≤ digitLimit then some v else none := by
  have hstarts := starts_compact style h hm
  have hmark : (compact style v).head? ≠ some '\ufeff' := by
    obtain ⟨c, cs, hcs, _, _, _, hc⟩ := hstarts
    simpa [hcs] using hc
  have hread := readsAs_of_closed hm h hp (2 * (compact style v).length + 2) [] (by simp [Ends])
    (by omega)
  rw [List.append_nil] at hread
  rw [read, readWithin, if_neg hmark, toOption_bind, hstarts.skipBlanks_eq, hread]
  split <;> rfl

end Wireframe.Json
