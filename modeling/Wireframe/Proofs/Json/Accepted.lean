import Wireframe.Proofs.Json.Grammar

/-! The reader finds whatever a text spells, so it accepts the texts of the grammar and no others. -/
namespace Wireframe.Json
open Outcome

variable {s t rest raw key b d e : List Char} {c : Char} {v x : Value} {p : Part} {fuel : Nat}
variable {xs : List Value} {es : List (Value × Value)} {room inner : Room}

theorem isPlainChar_of_isBlank (h : isBlank c = true) : isPlainChar c = false := by
  simp only [isBlank, Bool.or_eq_true, decide_eq_true_eq] at h
  rcases h with ((rfl | rfl) | rfl) | rfl <;> decide

theorem Gap.stops (h : Gap b) (hc : isPlainChar c = false) (s : List Char) : Stops (b ++ c :: s) := by
  intro d hd
  cases b with
  | nil =>
    obtain rfl : c = d := Option.some.inj hd
    exact hc
  | cons a b =>
    obtain rfl : a = d := Option.some.inj hd
    exact isPlainChar_of_isBlank (h a List.mem_cons_self)

theorem readValue_word {w : List Char} (hw : IsWord w v) (hr : Stops rest) :
    readValue (fuel + 1) room (w ++ rest) = .ok (v, rest) := by
  have hread := hw.reads rest hr
  obtain ⟨c, cs, heq, hc⟩ := exists_opening_of_isWord hw rest
  have hdiffers (d : Char) (hd : isPlainChar d = false) : c ≠ d := by
    rintro rfl
    rw [hc] at hd
    cases hd
  rw [heq] at hread ⊢
  rw [readValue, hread]
  · exact fun _ h => hdiffers '"' (by decide) (List.cons.inj h).1
  · exact fun _ h => hdiffers '[' (by decide) (List.cons.inj h).1
  · exact fun _ h => hdiffers '\x7b' (by decide) (List.cons.inj h).1

/-! One step of each reader. -/

theorem readItems_last (hb : Gap b) (hx : readValue fuel room s = .ok (x, b ++ ']' :: rest)) :
    readItems (fuel + 1) room s = .ok ([x], rest) := by
  rw [readItems, hx, ok_bind]
  simp only [hb.skipBlanks_cons (c := ']') (by decide)]
  rfl

theorem readItems_more {c : List Char} (hb : Gap b) (hc : Gap c)
    (hx : readValue fuel room s = .ok (x, b ++ ',' :: (c ++ t))) (ht : skipBlanks t = t)
    (hxs : readItems fuel room t = .ok (xs, rest)) : readItems (fuel + 1) room s = .ok (x :: xs, rest) := by
  rw [readItems, hx, ok_bind]
  simp only [hb.skipBlanks_cons (c := ',') (by decide), hc.skipBlanks_append, ht, hxs, ok_bind]
  rfl

theorem readEntries_last {c : List Char} (hraw : Means raw key) (hb : Gap b) (hc : Gap c) (hd : Gap d)
    (hs : skipBlanks s = s) (hx : readValue fuel room s = .ok (x, d ++ '\x7d' :: rest)) :
    readEntries (fuel + 1) room ('"' :: (raw ++ '"' :: (b ++ ':' :: (c ++ s))))
      = .ok ([(.text (String.ofList key), x)], rest) := by
  rw [readEntries, hraw.reads, ok_bind]
  simp only [hb.skipBlanks_cons (c := ':') (by decide), hc.skipBlanks_append, hs, hx, ok_bind,
    hd.skipBlanks_cons (c := '\x7d') (by decide)]
  rfl

theorem readEntries_more {c : List Char} (hraw : Means raw key) (hb : Gap b) (hc : Gap c) (hd : Gap d)
    (he : Gap e) (hs : skipBlanks s = s) (hx : readValue fuel room s = .ok (x, d ++ ',' :: (e ++ t)))
    (ht : skipBlanks t = t) (hes : readEntries fuel room t = .ok (es, rest)) :
    readEntries (fuel + 1) room ('"' :: (raw ++ '"' :: (b ++ ':' :: (c ++ s))))
      = .ok ((.text (String.ofList key), x) :: es, rest) := by
  rw [readEntries, hraw.reads, ok_bind]
  simp only [hb.skipBlanks_cons (c := ':') (by decide), hc.skipBlanks_append, hs, hx, ok_bind,
    hd.skipBlanks_cons (c := ',') (by decide), he.skipBlanks_append, ht, hes]
  rfl

theorem readValue_list (hinner : room.inner? = some inner) (hb : Gap b) (hs : skipBlanks s = s)
    (hclose : ∀ t, s ≠ ']' :: t) (hxs : readItems fuel inner s = .ok (xs, rest)) :
    readValue (fuel + 1) room ('[' :: (b ++ s)) = .ok (.list xs, rest) := by
  rw [readValue, enter_eq_ok.mpr hinner, ok_bind]
  simp only [hb.skipBlanks_append, hs, hxs, ok_bind]
  rfl

theorem readValue_dict (hinner : room.inner? = some inner) (hb : Gap b) (hs : skipBlanks s = s)
    (hclose : ∀ t, s ≠ '\x7d' :: t) (hes : readEntries fuel inner s = .ok (es, rest)) :
    readValue (fuel + 1) room ('\x7b' :: (b ++ s)) = .ok (.ofEntries es, rest) := by
  rw [readValue, enter_eq_ok.mpr hinner, ok_bind]
  simp only [hb.skipBlanks_append, hs, hes, ok_bind]
  rfl

theorem Spells.ne_cons (h : Spells room p s v rest) (hc : isOpening c = false) (t : List Char) : s ≠ c :: t := by
  obtain ⟨d, ds, rfl, hd⟩ := h.opens
  intro heq
  rw [(List.cons.inj heq).1, hc] at hd
  cases hd

/-- The reader of a part. -/
def Part.read : Part → Nat → Room → List Char → Except Stop (Value × List Char)
  | .value, fuel, room, s => readValue fuel room s
  | .items, fuel, room, s => (readItems fuel room s).map fun (xs, rest) => (.list xs, rest)
  | .entries, fuel, room, s => (readEntries fuel room s).map fun (es, rest) => (.dict es, rest)

theorem Spells.reads (h : Spells room p s v rest) (hr : p = .value → Stops rest)
    (hf : 2 * s.length ≤ fuel + 2 * rest.length) : p.read fuel room s = .ok (v, rest) := by
  induction h generalizing fuel with
  | @word room w rest v hw =>
    have hspells : Spells room .value (w ++ rest) v rest := .word hw
    have hlt := hspells.length_lt
    obtain ⟨fuel, rfl⟩ : ∃ k, fuel = k + 1 := ⟨fuel - 1, by omega⟩
    exact readValue_word hw (hr rfl)
  | @text room raw chars rest hraw =>
    simp only [List.length_append, List.length_cons] at hf
    obtain ⟨fuel, rfl⟩ : ∃ k, fuel = k + 1 := ⟨fuel - 1, by omega⟩
    rw [Part.read, readValue, hraw.reads, ok_bind]
    rfl
  | @emptyList room inner b rest hinner hb =>
    simp only [List.length_append, List.length_cons] at hf
    obtain ⟨fuel, rfl⟩ : ∃ k, fuel = k + 1 := ⟨fuel - 1, by omega⟩
    rw [Part.read, readValue, enter_eq_ok.mpr hinner, ok_bind]
    simp only [hb.skipBlanks_cons (c := ']') (by decide)]
    rfl
  | @emptyDict room inner b rest hinner hb =>
    simp only [List.length_append, List.length_cons] at hf
    obtain ⟨fuel, rfl⟩ : ∃ k, fuel = k + 1 := ⟨fuel - 1, by omega⟩
    rw [Part.read, readValue, enter_eq_ok.mpr hinner, ok_bind]
    simp only [hb.skipBlanks_cons (c := '\x7d') (by decide)]
    rfl
  | @list room inner b s rest xs hinner hb hxs ih =>
    have hlt := hxs.length_lt
    simp only [List.length_append, List.length_cons] at hf
    obtain ⟨fuel, rfl⟩ : ∃ k, fuel = k + 1 := ⟨fuel - 1, by omega⟩
    obtain ⟨⟨_, _⟩, hread, heq⟩ := map_eq_ok (@ih fuel (by rintro ⟨⟩) (by omega))
    cases heq
    exact readValue_list hinner hb hxs.skipBlanks_eq (hxs.ne_cons (by decide)) hread
  | @dict room inner b s rest es hinner hb hes ih =>
    have hlt := hes.length_lt
    simp only [List.length_append, List.length_cons] at hf
    obtain ⟨fuel, rfl⟩ : ∃ k, fuel = k + 1 := ⟨fuel - 1, by omega⟩
    obtain ⟨⟨_, _⟩, hread, heq⟩ := map_eq_ok (@ih fuel (by rintro ⟨⟩) (by omega))
    cases heq
    exact readValue_dict hinner hb hes.skipBlanks_eq (hes.ne_cons (by decide)) hread
  | @lastItem room b s rest x hb hx ih =>
    have hlt := hx.length_lt
    simp only [List.length_append, List.length_cons] at hlt ih
    obtain ⟨fuel, rfl⟩ : ∃ k, fuel = k + 1 := ⟨fuel - 1, by omega⟩
    have hread := @ih fuel (fun _ => hb.stops (by decide) rest) (by omega)
    rw [Part.read, readItems_last hb hread]
    rfl
  | @item room b c s t rest x xs hb hc hx hxs ih ihs =>
    have hlt := hx.length_lt
    have hlts := hxs.length_lt
    simp only [List.length_append, List.length_cons] at hlt ih
    obtain ⟨fuel, rfl⟩ : ∃ k, fuel = k + 1 := ⟨fuel - 1, by omega⟩
    have hread := @ih fuel (fun _ => hb.stops (by decide) _) (by omega)
    obtain ⟨⟨_, _⟩, hreads, heq⟩ := map_eq_ok (@ihs fuel (by rintro ⟨⟩) (by omega))
    cases heq
    rw [Part.read, readItems_more hb hc hread hxs.skipBlanks_eq hreads]
    rfl
  | @lastEntry room raw key b c d s rest x hraw hb hc hd hx ih =>
    have hlt := hx.length_lt
    simp only [List.length_append, List.length_cons] at hf hlt ih
    obtain ⟨fuel, rfl⟩ : ∃ k, fuel = k + 1 := ⟨fuel - 1, by omega⟩
    have hread := @ih fuel (fun _ => hd.stops (by decide) rest) (by omega)
    rw [Part.read, readEntries_last hraw hb hc hd hx.skipBlanks_eq hread]
    rfl
  | @entry room raw key b c d e s t rest x es hraw hb hc hd he hx hes ih ihs =>
    have hlt := hx.length_lt
    have hlts := hes.length_lt
    simp only [List.length_append, List.length_cons] at hf hlt ih
    obtain ⟨fuel, rfl⟩ : ∃ k, fuel = k + 1 := ⟨fuel - 1, by omega⟩
    have hread := @ih fuel (fun _ => hd.stops (by decide) _) (by omega)
    obtain ⟨⟨_, _⟩, hreads, heq⟩ := map_eq_ok (@ihs fuel (by rintro ⟨⟩) (by omega))
    cases heq
    rw [Part.read, readEntries_more hraw hb hc hd he hx.skipBlanks_eq hread hes.skipBlanks_eq hreads]
    rfl

/-- A text is read as a value just where it spells the value within the room, with blanks around it. -/
theorem readWithin_eq_ok_iff : readWithin room s = .ok v ↔
    ∃ b t c, Gap b ∧ Gap c ∧ s = b ++ (t ++ c) ∧ Spells room .value t v [] := by
  constructor
  · intro h
    unfold readWithin at h
    split at h
    · cases h
    · obtain ⟨⟨w, rest⟩, hvalue, h⟩ := bind_eq_ok h
      obtain ⟨t, hs, -, ht⟩ := ((spells_of_fuel _).1 hvalue).exists_front
      obtain ⟨b, hb, hblanks⟩ := exists_gap s
      obtain ⟨c, hc, hrest⟩ := exists_gap rest
      dsimp only at h
      split at h
      · rename_i hnil
        cases h
        rw [hnil, List.append_nil] at hrest
        exact ⟨b, t, rest, hb, hrest ▸ hc, hs ▸ hblanks, by simpa using ht []⟩
      · cases h
  · rintro ⟨b, t, c, hb, hc, rfl, h⟩
    obtain ⟨front, rfl, -, hfront⟩ := h.exists_front
    rw [List.append_nil]
    have hmark : (b ++ (front ++ c)).head? ≠ some '\ufeff' := by
      intro hhead
      cases b with
      | nil =>
        obtain ⟨d, ds, hds, hd⟩ := (hfront c).opens
        rw [List.nil_append, hds] at hhead
        rw [Option.some.inj hhead] at hd
        cases hd
      | cons d b =>
        have hd := hb d List.mem_cons_self
        rw [Option.some.inj hhead] at hd
        cases hd
    have hstops : Stops c := fun d hd => isPlainChar_of_isBlank (hc d (List.mem_of_mem_head? hd))
    have hread : Part.value.read (2 * (b ++ (front ++ c)).length + 2) room (front ++ c) = .ok (v, c) :=
      (hfront c).reads (fun _ => hstops) (by simp only [List.length_append]; omega)
    change readValue _ _ _ = _ at hread
    have hnil : skipBlanks c = [] := by
      rw [← List.append_nil c, hc.skipBlanks_append]
      rfl
    rw [readWithin, if_neg hmark, hb.skipBlanks_append, (hfront c).skipBlanks_eq, hread, ok_bind]
    simp only [hnil]
    rfl

theorem read_eq_ok_iff : read s = .ok v ↔
    ∃ b t c, Gap b ∧ Gap c ∧ s = b ++ (t ++ c) ∧ Spells .unbounded .value t v [] :=
  readWithin_eq_ok_iff

end Wireframe.Json
