import Wireframe.Proofs.Json.Literal

/-! The literals of two closed values are the same just when the values are the same JSON value. -/
namespace Wireframe.Markup
open Value

variable {v w : Value} {c d : Char} {r q : List Char} {xs ys : List (Value × Value)}

/-- What the first character of a literal says about the value. -/
inductive Lead
  | text
  | list
  | dict
  | bool
  | number
  | other
deriving DecidableEq

def leadOf (c : Char) : Lead :=
  if c = '"' then .text
  else if c = '[' then .list
  else if c = '\x7b' then .dict
  else if c = 't' ∨ c = 'f' then .bool
  else if isNumberChar c then .number
  else .other

def leadOfValue : Value → Lead
  | .text _ => .text
  | .list _ => .list
  | .dict _ => .dict
  | .bool _ => .bool
  | .int _ | .float _ => .number
  | _ => .other

theorem leadOf_of_isNumberChar (h : isNumberChar c = true) : leadOf c = .number := by
  unfold leadOf
  split
  · subst c; revert h; decide
  split
  · subst c; revert h; decide
  split
  · subst c; revert h; decide
  split
  · rename_i hc
    rcases hc with rfl | rfl <;> revert h <;> decide
  · rfl

theorem spell_lead (h : v.Closed) :
    leadOfValue v ≠ .other ∧ ∃ c rest, spell v = c :: rest ∧ leadOf c = leadOfValue v := by
  cases h with
  | bool b => cases b <;> exact ⟨by simp [leadOfValue], _, _, rfl, by decide⟩
  | int n =>
    refine ⟨by simp [leadOfValue], ?_⟩
    obtain ⟨c, rest, hs⟩ := List.exists_cons_of_ne_nil (Text.integer_ne_nil n)
    refine ⟨c, rest, hs, leadOf_of_isNumberChar ?_⟩
    exact Text.isNumberChar_of_mem_integer (n := n) (hs ▸ List.mem_cons_self)
  | @float x hx =>
    refine ⟨by simp [leadOfValue], ?_⟩
    have hmark : ∃ c ∈ x.text .plain, isRealMark c = true := Double.exists_mark_mem_text hx rfl
    obtain ⟨c, hc, _⟩ := hmark
    obtain ⟨c, rest, hs⟩ := List.exists_cons_of_ne_nil (List.ne_nil_of_mem hc)
    refine ⟨c, rest, hs, leadOf_of_isNumberChar ?_⟩
    exact Double.isNumberChar_of_mem_text hx (hs ▸ List.mem_cons_self)
  | text s => exact ⟨by simp [leadOfValue], _, _, rfl, rfl⟩
  | list _ => exact ⟨by simp [leadOfValue], _, _, rfl, rfl⟩
  | dict _ _ => exact ⟨by simp [leadOfValue], _, _, rfl, rfl⟩

/-- What may follow a value inside a literal or behind it. -/
def Delimited (r : List Char) : Prop :=
  r.head? = some ',' ∨ r.head? = some ']' ∨ r.head? = some '\x7d'

theorem Delimited.not_isNumberChar (h : Delimited r) : ∀ c ∈ r.head?, isNumberChar c = false := by
  intro c hc
  rcases h with h | h | h <;> rw [h] at hc <;> obtain rfl := Option.some.inj hc <;> decide

/-- The text of one item in front of another, told apart by what the items are. -/
def CutsAt {α : Type} (f : α → List Char) (R : α → α → Prop) (a b : α) : Prop :=
  ∀ r q, Delimited r → Delimited q → f a ++ r = f b ++ q → R a b ∧ r = q

variable {α : Type} {f : α → List Char} {R : α → α → Prop} {close : Char} {a b : α} {as bs : List α}

theorem delimited_separated (hclose : close = ']' ∨ close = '\x7d') (as : List α) (r : List Char) :
    Delimited ((as.map f).flatMap ([','] ++ ·) ++ close :: r) := by
  cases as with
  | nil => rcases hclose with rfl | rfl <;> simp [Delimited]
  | cons a as => simp [Delimited]

/-- Items that each follow a comma are told from the end by that comma. -/
theorem separated_cut (hclose : close = ']' ∨ close = '\x7d')
    (hcut : ∀ a ∈ as, ∀ b ∈ bs, CutsAt f R a b)
    (h : (as.map f).flatMap ([','] ++ ·) ++ close :: r
      = (bs.map f).flatMap ([','] ++ ·) ++ close :: q) :
    List.Forall₂ R as bs ∧ r = q := by
  have hcomma : close ≠ ',' := by rcases hclose with rfl | rfl <;> decide
  induction as generalizing bs with
  | nil =>
    cases bs with
    | nil => exact ⟨.nil, by simpa using h⟩
    | cons b bs => exact (hcomma (by simpa using congrArg List.head? h)).elim
  | cons a as ih =>
    cases bs with
    | nil => exact (hcomma (by simpa using (congrArg List.head? h).symm)).elim
    | cons b bs =>
      simp only [List.map_cons, List.flatMap_cons, List.append_assoc, List.cons_append,
        List.cons.injEq, true_and] at h
      obtain ⟨hab, hrest⟩ := hcut a List.mem_cons_self b List.mem_cons_self _ _
        (delimited_separated hclose as r) (delimited_separated hclose bs q) h
      have hcuts : ∀ x ∈ as, ∀ y ∈ bs, CutsAt f R x y := fun x hx y hy =>
        hcut x (List.mem_cons_of_mem _ hx) y (List.mem_cons_of_mem _ hy)
      obtain ⟨htail, hrq⟩ := ih hcuts hrest
      exact ⟨.cons hab htail, hrq⟩

/-- Where two lists with the same closing agree, they agree item by item. -/
theorem joined_cut (hclose : close = ']' ∨ close = '\x7d')
    (hfront : ∀ a ∈ as ++ bs, ∃ c rest, f a = c :: rest ∧ c ≠ close)
    (hcut : ∀ a ∈ as, ∀ b ∈ bs, CutsAt f R a b)
    (h : Text.joined [','] (as.map f) ++ close :: r = Text.joined [','] (bs.map f) ++ close :: q) :
    List.Forall₂ R as bs ∧ r = q := by
  cases as with
  | nil =>
    cases bs with
    | nil => exact ⟨.nil, by simpa [Text.joined] using h⟩
    | cons b bs =>
      obtain ⟨c, rest, hb, hc⟩ := hfront b (by simp)
      rw [List.map_cons, Text.joined_cons, hb] at h
      exact (hc (by simpa [Text.joined] using (congrArg List.head? h).symm)).elim
  | cons a as =>
    cases bs with
    | nil =>
      obtain ⟨c, rest, ha, hc⟩ := hfront a (by simp)
      rw [List.map_cons, Text.joined_cons, ha] at h
      exact (hc (by simpa [Text.joined] using congrArg List.head? h)).elim
    | cons b bs =>
      rw [List.map_cons, List.map_cons, Text.joined_cons, Text.joined_cons, List.append_assoc,
        List.append_assoc] at h
      obtain ⟨hab, hrest⟩ := hcut a List.mem_cons_self b List.mem_cons_self _ _
        (delimited_separated hclose as r) (delimited_separated hclose bs q) h
      have hcuts : ∀ x ∈ as, ∀ y ∈ bs, CutsAt f R x y := fun x hx y hy =>
        hcut x (List.mem_cons_of_mem _ hx) y (List.mem_cons_of_mem _ hy)
      obtain ⟨htail, hrq⟩ := separated_cut hclose hcuts hrest
      exact ⟨.cons hab htail, hrq⟩

/-- A value that is recognised by its literal. -/
def Recognised (v : Value) : Prop := ∀ w, w.Closed → CutsAt spell Alike v w

theorem itemsAlike_of_forall₂ {xs ys : List Value} (h : List.Forall₂ Alike xs ys) :
    ItemsAlike xs ys := by
  induction h with
  | nil => trivial
  | cons hxy _ ih => exact ⟨hxy, ih⟩

/-- Numbers end where no number character follows. -/
theorem number_cut {s t : List Char} (hs : ∀ c ∈ s, isNumberChar c = true)
    (ht : ∀ c ∈ t, isNumberChar c = true) (hr : Delimited r) (hq : Delimited q)
    (h : s ++ r = t ++ q) : s = t ∧ r = q :=
  Text.append_cut hs ht hr.not_isNumberChar hq.not_isNumberChar h

theorem integer_ne_real {n : Int} {x : Double} (hx : x.IsFinite) :
    Text.integer n ≠ x.text .plain := by
  intro h
  have hreal : ∃ c ∈ x.text .plain, isRealMark c = true := Double.exists_mark_mem_text hx rfl
  obtain ⟨c, hc, hmark⟩ := hreal
  rw [← h] at hc
  rw [Text.not_isRealMark_of_mem_integer hc] at hmark
  cases hmark

theorem spell_front (close : Char) (hc : leadOf close = .other) (h : v.Closed) :
    ∃ c rest, spell v = c :: rest ∧ c ≠ close := by
  obtain ⟨hlead, c, rest, hs, heq⟩ := spell_lead h
  refine ⟨c, rest, hs, ?_⟩
  rintro rfl
  exact hlead (heq.symm.trans hc)

/-- Values whose literals agree as far as they go are of one kind. -/
theorem leadOfValue_eq (hv : v.Closed) (hw : w.Closed) (h : spell v ++ r = spell w ++ q) :
    leadOfValue v = leadOfValue w := by
  obtain ⟨_, c, s, hs, hc⟩ := spell_lead hv
  obtain ⟨_, d, t, ht, hd⟩ := spell_lead hw
  rw [hs, ht] at h
  obtain ⟨rfl, -⟩ := List.cons.inj h
  exact hc.symm.trans hd

theorem recognised_list {items : List Value} (hv : (Value.list items).Closed)
    (ih : ∀ x ∈ items, Recognised x) : Recognised (.list items) := by
  intro w hw r q hr hq h
  have hkind := leadOfValue_eq hv hw h
  cases w with
  | list others =>
    simp only [spell, spellItems_eq_map, List.cons_append, List.append_assoc, List.nil_append,
      List.cons.injEq, true_and] at h
    have hfront : ∀ x ∈ items ++ others, ∃ c rest, spell x = c :: rest ∧ c ≠ ']' := by
      intro x hx
      rcases List.mem_append.mp hx with hx | hx
      · exact spell_front ']' (by decide) (hv.items x hx)
      · exact spell_front ']' (by decide) (hw.items x hx)
    obtain ⟨hitems, hrq⟩ := joined_cut (.inl rfl) hfront
      (fun x hx y hy => ih x hx y (hw.items y hy)) h
    exact ⟨itemsAlike_of_forall₂ hitems, hrq⟩
  | _ => cases hkind

/-- An entry is recognised by its key and then by its value. -/
theorem entry_cut {e f : Value × Value} (he : e.1.isText = true) (hf : f.1.isText = true)
    (hfc : f.2.Closed) (ih : Recognised e.2) :
    CutsAt entryLiteral (fun a b => a.1 = b.1 ∧ Alike a.2 b.2) e f := by
  intro r q hr hq h
  simp only [entryLiteral, List.append_assoc, List.cons_append] at h
  obtain ⟨hkey, hrest⟩ := spellText_cut h
  obtain ⟨hval, hrq⟩ := ih f.2 hfc r q hr hq (by simpa using hrest)
  exact ⟨⟨keyChars_inj he hf hkey, hval⟩, hrq⟩

theorem recognised_dict {entries : List (Value × Value)} (hv : (Value.dict entries).Closed)
    (ih : ∀ e ∈ entries, Recognised e.2) : Recognised (.dict entries) := by
  intro w hw r q hr hq h
  have hkind := leadOfValue_eq hv hw h
  cases w with
  | dict others =>
    have hmem (es : List (Value × Value)) (e : Value × Value) (he : e ∈ sortEntries es) : e ∈ es :=
      (Text.sortByText_perm _ es).mem_iff.mp he
    simp only [spell_dict, List.cons_append, List.append_assoc, List.nil_append, List.cons.injEq,
      true_and] at h
    have hfront : ∀ e ∈ sortEntries entries ++ sortEntries others,
        ∃ c rest, entryLiteral e = c :: rest ∧ c ≠ '\x7d' :=
      fun e _ => ⟨'"', _, rfl, by decide⟩
    have hcut : ∀ e ∈ sortEntries entries, ∀ f ∈ sortEntries others,
        CutsAt entryLiteral (fun a b => a.1 = b.1 ∧ Alike a.2 b.2) e f := by
      intro e he f hf
      have he := hmem entries e he
      have hf := hmem others f hf
      exact entry_cut (hv.keys e he) (hw.keys f hf) (hw.values f hf) (ih e he)
    obtain ⟨hentries, hrq⟩ := joined_cut (.inr rfl) hfront hcut h
    refine ⟨?_, hrq⟩
    have hsorted := EntriesAlike.of_forall₂ hentries
    exact (hsorted.perm_left (Text.sortByText_perm _ entries)).perm_right
      (Text.sortByText_perm _ others)
  | _ => cases hkind

/-- Two literals that agree up to a delimiter are those of one JSON value. -/
theorem recognised_of_closed (hv : v.Closed) : Recognised v := by
  have hv' := hv
  induction hv with
  | bool b =>
    intro w hw r q hr hq h
    have hkind := leadOfValue_eq hv' hw h
    cases w with
    | bool d => cases b <;> cases d <;> simp_all [spell, Alike]
    | _ => cases hkind
  | int n =>
    intro w hw r q hr hq h
    have hkind := leadOfValue_eq hv' hw h
    have hn (m : Int) : ∀ c ∈ Text.integer m, isNumberChar c = true :=
      fun _ => Text.isNumberChar_of_mem_integer
    cases hw with
    | int m =>
      obtain ⟨heq, hrq⟩ := number_cut (hn n) (hn m) hr hq h
      exact ⟨Text.integer_inj heq, hrq⟩
    | float hx =>
      obtain ⟨heq, _⟩ := number_cut (hn n) (fun _ => Double.isNumberChar_of_mem_text hx) hr hq h
      exact (integer_ne_real hx heq).elim
    | _ => cases hkind
  | float hx =>
    intro w hw r q hr hq h
    have hkind := leadOfValue_eq hv' hw h
    have hn {y : Double} (hy : y.IsFinite) : ∀ c ∈ y.text .plain, isNumberChar c = true :=
      fun _ => Double.isNumberChar_of_mem_text hy
    cases hw with
    | int m =>
      obtain ⟨heq, _⟩ := number_cut (hn hx) (fun _ => Text.isNumberChar_of_mem_integer) hr hq h
      exact (integer_ne_real hx heq.symm).elim
    | float hy => exact number_cut (hn hx) (hn hy) hr hq h
    | _ => cases hkind
  | text s =>
    intro w hw r q hr hq h
    have hkind := leadOfValue_eq hv' hw h
    cases w with
    | text t =>
      obtain ⟨heq, hrq⟩ := spellText_cut h
      exact ⟨String.toList_inj.mp heq, hrq⟩
    | _ => cases hkind
  | list hi ih => exact recognised_list hv' fun x hx => ih x hx (hi x hx)
  | dict _ he ih => exact recognised_dict hv' fun e hm => ih e hm (he e hm)

mutual

/-- Values that are the same JSON value have one literal. -/
theorem spell_eq_of_alike : ∀ {v w : Value}, v.Alike w → v.Closed → v.isProper = true →
    spell v = spell w
  | .bool _, w, h, _, _ => by cases w <;> simp_all [Alike]
  | .int _, w, h, _, _ => by cases w <;> simp_all [Alike]
  | .float _, w, h, _, _ => by cases w <;> simp_all [Alike, spell]
  | .text _, w, h, _, _ => by cases w <;> simp_all [Alike]
  | .list xs, .list ys, h, hc, hp => by
    rw [spell, spell, spellItems_eq_of_alike h hc.items (by simpa only [isProper] using hp)]
  | .dict xs, .dict ys, h, hc, hp => by
    simp only [isProper, Bool.and_eq_true] at hp
    have hperm := spellEntries_perm_of_alike h hc.values hp.2
    have hnodup : ((spellEntries xs).map (·.1)).Nodup := by
      simpa [spellEntries_eq_map, Function.comp_def] using nodup_keyChars hc.keys hp.1
    rw [spell, spell, Text.sortByText_eq_of_perm hperm hnodup]

theorem spellItems_eq_of_alike : ∀ {xs ys : List Value}, ItemsAlike xs ys →
    (∀ x ∈ xs, x.Closed) → areProper xs = true → spellItems xs = spellItems ys
  | [], [], _, _, _ => rfl
  | x :: xs, y :: ys, h, hc, hp => by
    simp only [areProper, Bool.and_eq_true] at hp
    rw [spellItems, spellItems, spell_eq_of_alike h.1 (hc x List.mem_cons_self) hp.1,
      spellItems_eq_of_alike h.2 (fun z hz => hc z (List.mem_cons_of_mem _ hz)) hp.2]

theorem spellEntries_perm_of_alike : ∀ {xs ys : List (Value × Value)}, EntriesAlike xs ys →
    (∀ e ∈ xs, e.2.Closed) → areProperEntries xs = true →
    (spellEntries xs).Perm (spellEntries ys)
  | [], ys, h, _, _ => by
    have hy : ys = [] := h
    rw [hy]
  | (k, x) :: xs, ys, h, hc, hp => by
    obtain ⟨y, rest, hy, hxy, hrest⟩ := h
    simp only [areProperEntries, Bool.and_eq_true] at hp
    have hx := spell_eq_of_alike hxy (hc (k, x) List.mem_cons_self) hp.1
    have hxs := spellEntries_perm_of_alike hrest (fun e he => hc e (List.mem_cons_of_mem _ he)) hp.2
    have hys : (spellEntries ys).Perm (spellEntries ((k, y) :: rest)) := by
      simp only [spellEntries_eq_map]
      exact hy.map _
    rw [spellEntries, hx]
    exact (hxs.cons _).trans hys.symm

end

end Wireframe.Markup
