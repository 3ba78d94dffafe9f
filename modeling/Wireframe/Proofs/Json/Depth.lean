import Wireframe.Json.Diagnosis
import Wireframe.Proofs.Json.Reading

/-! How deep the containers of closed data stand inside each other, and which data a stored text can
hold. -/
namespace Wireframe

namespace Value

mutual

/-- The most containers that stand inside each other in a value; those without items do not count. -/
def containers : Value → Nat
  | .list items => if items.isEmpty then 0 else containersOf items + 1
  | .dict entries => if entries.isEmpty then 0 else containersIn entries + 1
  | _ => 0

def containersOf : List Value → Nat
  | [] => 0
  | x :: rest => max (containers x) (containersOf rest)

def containersIn : List (Value × Value) → Nat
  | [] => 0
  | (_, v) :: rest => max (containers v) (containersIn rest)

end

variable {n : Nat} {items : List Value} {entries : List (Value × Value)}

theorem containersOf_le_iff : containersOf items ≤ n ↔ ∀ x ∈ items, x.containers ≤ n := by
  induction items with
  | nil => simp [containersOf]
  | cons x rest ih => rw [containersOf, Nat.max_le, ih, List.forall_mem_cons]

theorem containersIn_le_iff : containersIn entries ≤ n ↔ ∀ e ∈ entries, e.2.containers ≤ n := by
  induction entries with
  | nil => simp [containersIn]
  | cons e rest ih => rw [containersIn, Nat.max_le, ih, List.forall_mem_cons]

theorem containers_list_le (h : ∀ x ∈ items, x.containers ≤ n) :
    (list items).containers ≤ n + 1 := by
  rw [containers]
  split
  · exact Nat.zero_le _
  · exact Nat.succ_le_succ (containersOf_le_iff.mpr h)

theorem containers_dict_le (h : ∀ e ∈ entries, e.2.containers ≤ n) :
    (dict entries).containers ≤ n + 1 := by
  rw [containers]
  split
  · exact Nat.zero_le _
  · exact Nat.succ_le_succ (containersIn_le_iff.mpr h)

/-- What a stored text can hold: containers that do not stand too deep, and integers that are not too
long. -/
def IsStorable (v : Value) : Prop :=
  v.containers ≤ Json.containerLimit ∧ v.mostDigits ≤ Json.digitLimit

instance (v : Value) : Decidable v.IsStorable := inferInstanceAs (Decidable (_ ∧ _))

end Value

namespace Json
open Value Outcome

variable {style : Style} {v : Value} {c : Char} {s rest : List Char} {depth n : Nat}
variable {items : List Value} {e : Value × Value} {entries : List (Value × Value)}

/-- Whether a value is found that has too many containers around it. -/
def isTooNested (depth : Nat) (mode : ScanMode) (s : List Char) : Bool :=
  (tooNested? depth mode s).isSome

/-! Texts and numbers hold no containers. -/

theorem tooNested?_text_of_free (h : ∀ c ∈ s, c ≠ '"' ∧ c ≠ '\\') (rest : List Char) :
    tooNested? depth .text (s ++ rest) = tooNested? depth .text rest := by
  induction s with
  | nil => rfl
  | cons c s ih =>
    have hc := h c List.mem_cons_self
    rw [List.cons_append, tooNested?, if_neg hc.2, if_neg hc.1]
    exact ih fun d hd => h d (List.mem_cons_of_mem _ hd)

theorem tooNested?_plain_of_free
    (h : ∀ c ∈ s, c ≠ '"' ∧ ¬ (c = '[' ∨ c = '\x7b') ∧ ¬ (c = ']' ∨ c = '\x7d')) (rest : List Char) :
    tooNested? depth .plain (s ++ rest) = tooNested? depth .plain rest := by
  induction s with
  | nil => rfl
  | cons c s ih =>
    have hc := h c List.mem_cons_self
    rw [List.cons_append, tooNested?, if_neg hc.1, if_neg hc.2.1, if_neg hc.2.2]
    exact ih fun d hd => h d (List.mem_cons_of_mem _ hd)

theorem free_of_hex (hn : n < 0x10000) : ∀ c ∈ Text.hex 4 n, c ≠ '"' ∧ c ≠ '\\' := by
  obtain ⟨a, b, d, e, hhex, hunit⟩ := exists_hex_four hn
  have free {c : Char} {k : Nat} (h : hexValue? c = some k) : c ≠ '"' ∧ c ≠ '\\' := by
    constructor <;> rintro rfl <;> cases h
  simp only [unit?, Option.bind_eq_bind, Option.bind_eq_some_iff] at hunit
  obtain ⟨_, ha, _, hb, _, hd, _, he, _⟩ := hunit
  rw [hhex]
  intro c hc
  simp only [List.mem_cons, List.not_mem_nil, or_false] at hc
  rcases hc with rfl | rfl | rfl | rfl
  · exact free ha
  · exact free hb
  · exact free hd
  · exact free he

theorem tooNested?_unit (hn : n < 0x10000) (rest : List Char) :
    tooNested? depth .text ('\\' :: 'u' :: (Text.hex 4 n ++ rest)) = tooNested? depth .text rest := by
  rw [tooNested?, if_pos rfl, tooNested?]
  exact tooNested?_text_of_free (free_of_hex hn) rest

theorem tooNested?_unitEscape (c : Char) (rest : List Char) :
    tooNested? depth .text (unitEscape c.toNat ++ rest) = tooNested? depth .text rest := by
  have hvalid := Text.valid_toNat c
  rw [unitEscape]
  split
  · rw [List.cons_append, List.cons_append, tooNested?_unit (by omega)]
  · dsimp only
    rw [List.cons_append, List.cons_append, List.append_assoc, tooNested?_unit (by omega),
      List.cons_append, List.cons_append, tooNested?_unit (by omega)]

theorem tooNested?_escapedChar (ascii : Bool) (c : Char) (rest : List Char) :
    tooNested? depth .text (escapedChar ascii c ++ rest) = tooNested? depth .text rest := by
  have hwritten := written_escapedChar ascii c
  generalize escapedChar ascii c = s at hwritten ⊢
  cases hwritten with
  | short _ _ => rfl
  | unit _ => exact tooNested?_unitEscape c rest
  | plain hq hb _ => exact tooNested?_text_of_free (List.forall_mem_singleton.mpr ⟨hq, hb⟩) rest

/-- A quoted text is passed over. -/
theorem tooNested?_quotedText (ascii : Bool) (s rest : List Char) :
    tooNested? depth .plain (quotedText ascii s ++ rest) = tooNested? depth .plain rest := by
  have htext : ∀ s : List Char, tooNested? depth .text (s.flatMap (escapedChar ascii) ++ '"' :: rest)
      = tooNested? depth .plain rest := by
    intro s
    induction s with
    | nil => rfl
    | cons c s ih => rw [List.flatMap_cons, List.append_assoc, tooNested?_escapedChar, ih]
  rw [quotedText, List.cons_append, tooNested?, if_pos rfl, List.append_assoc]
  exact htext s

theorem tooNested?_number (h : ∀ c ∈ s, isNumberChar c = true) (rest : List Char) :
    tooNested? depth .plain (s ++ rest) = tooNested? depth .plain rest := by
  apply tooNested?_plain_of_free
  intro c hc
  have differs {d : Char} (hd : isNumberChar d = false) : c ≠ d := by
    rintro rfl
    simp [h c hc] at hd
  exact ⟨differs (by decide),
    by simp [differs (d := '[') (by decide), differs (d := '\x7b') (by decide)],
    by simp [differs (d := ']') (by decide), differs (d := '\x7d') (by decide)]⟩

/-! Containers. -/

theorem firstValue?_list (h : Starts s) : firstValue? '[' s = some s := by
  have hskip := h.skipBlanks_eq
  obtain ⟨c, cs, rfl, _, hlist, hdict, _⟩ := h
  unfold firstValue?
  rw [hskip]
  split <;> simp_all

theorem firstValue?_dict (style : Style) (e : Value × Value) (rest : List Char) :
    (firstValue? '\x7b' (compactEntry style e ++ rest)).isSome = true := by
  have htext : compactEntry style e ++ rest
      = '"' :: ((keyChars e.1).flatMap (escapedChar style.ascii)
        ++ '"' :: ':' :: (compact style e.2 ++ rest)) := by
    simp [compactEntry, quotedText]
  unfold firstValue?
  rw [htext, skipBlanks_cons (by decide)]
  simp [readText_quotedText, skipBlanks_cons (c := ':') (by decide)]

section
variable {α : Type} {text : α → List Char} {inner : α → Nat} {as : List α}

/-- What a text of an item adds to a scan at a depth. -/
def ScansAs (text : α → List Char) (inner : α → Nat) (a : α) : Prop :=
  ∀ depth rest, depth ≤ containerLimit →
    isTooNested depth .plain (text a ++ rest)
      = (decide (containerLimit < inner a + depth) || isTooNested depth .plain rest)

theorem isTooNested_comma (depth : Nat) (rest : List Char) :
    isTooNested depth .plain (',' :: rest) = isTooNested depth .plain rest := rfl

theorem isTooNested_joined (h : ∀ a ∈ as, ScansAs text inner a) (hd : depth ≤ containerLimit) :
    isTooNested depth .plain (Text.joined [','] (as.map text) ++ rest)
      = (as.any (fun a => containerLimit < inner a + depth) || isTooNested depth .plain rest) := by
  have hseparated : ∀ bs : List α, (∀ b ∈ bs, ScansAs text inner b) →
      isTooNested depth .plain ((bs.map text).flatMap ([','] ++ ·) ++ rest)
        = (bs.any (fun b => containerLimit < inner b + depth) || isTooNested depth .plain rest) := by
    intro bs hbs
    induction bs with
    | nil => rfl
    | cons b bs ih =>
      rw [List.map_cons, List.flatMap_cons, List.append_assoc, List.append_assoc, List.singleton_append,
        isTooNested_comma, hbs b List.mem_cons_self depth _ hd,
        ih fun c hc => hbs c (List.mem_cons_of_mem _ hc), List.any_cons, Bool.or_assoc]
  cases as with
  | nil => rfl
  | cons a as =>
    rw [List.map_cons, Text.joined_cons, List.append_assoc, h a List.mem_cons_self depth _ hd,
      hseparated as fun b hb => h b (List.mem_cons_of_mem _ hb), List.any_cons, Bool.or_assoc]

theorem any_eq_decide {most n : Nat} (hmost : ∀ n, most ≤ n ↔ ∀ a ∈ as, inner a ≤ n)
    (hn : n ≤ containerLimit) :
    (as.any fun a => containerLimit < inner a + n) = decide (containerLimit < most + n) := by
  have hbound := hmost (containerLimit - n)
  rw [Bool.eq_iff_iff, List.any_eq_true, decide_eq_true_eq]
  constructor
  · rintro ⟨a, ha, hdeep⟩
    by_contra hle
    have hinner := hbound.mp (by omega) a ha
    have hdeep := of_decide_eq_true hdeep
    omega
  · intro hdeep
    by_contra hnone
    refine absurd (hbound.mpr fun a ha => ?_) (by omega)
    by_contra hinner
    exact hnone ⟨a, ha, decide_eq_true (by omega)⟩

/-- A container with items stands one level deeper than what it holds. -/
theorem isTooNested_enclosed {opening closing : Char} {most : Nat}
    (ho : opening = '[' ∨ opening = '\x7b') (hc : closing = ']' ∨ closing = '\x7d')
    (hfirst : ∀ rest, (firstValue? opening (Text.joined [','] (as.map text) ++ rest)).isSome = true)
    (hmost : ∀ n, most ≤ n ↔ ∀ a ∈ as, inner a ≤ n) (h : ∀ a ∈ as, ScansAs text inner a)
    (hd : depth ≤ containerLimit) :
    isTooNested depth .plain (Markup.enclosed opening closing (as.map text) ++ rest)
      = (decide (containerLimit < most + 1 + depth) || isTooNested depth .plain rest) := by
  have hquote : opening ≠ '"' := by rcases ho with rfl | rfl <;> decide
  have hclosing : isTooNested (depth + 1) .plain (closing :: rest) = isTooNested depth .plain rest := by
    rcases hc with rfl | rfl <;> rfl
  have htext : Markup.enclosed opening closing (as.map text) ++ rest
      = opening :: (Text.joined [','] (as.map text) ++ closing :: rest) := by
    simp [Markup.enclosed]
  have hvalue := hfirst (closing :: rest)
  rw [htext, isTooNested, tooNested?, if_neg hquote, if_pos ho]
  by_cases hlimit : containerLimit ≤ depth
  · obtain ⟨s, hs⟩ := Option.isSome_iff_exists.mp hvalue
    rw [if_pos hlimit, hs, decide_eq_true (by omega), Bool.true_or]
    rfl
  · rw [if_neg hlimit]
    show isTooNested (depth + 1) .plain _ = _
    rw [isTooNested_joined h (by omega), hclosing, any_eq_decide hmost (by omega), Nat.add_assoc,
      Nat.add_comm 1 depth]

end

/-- A text in which no container stands. -/
theorem scansAs_of_eq (hv : v.containers = 0)
    (h : ∀ depth rest, tooNested? depth .plain (compact style v ++ rest)
      = tooNested? depth .plain rest) :
    ScansAs (compact style) containers v := by
  intro depth rest hd
  rw [isTooNested, h, hv, decide_eq_false (by omega), Bool.false_or]
  rfl

/-- A value adds the containers that it nests. -/
theorem scansAs_compact (style : Style) (hm : style.number.markWhole = true) (h : v.Closed) :
    ScansAs (compact style) containers v := by
  induction h with
  | bool b =>
    refine scansAs_of_eq rfl fun depth rest => tooNested?_plain_of_free ?_ rest
    cases b <;> simp [compact]
  | int n =>
    exact scansAs_of_eq rfl fun depth =>
      tooNested?_number fun c hc => Text.isNumberChar_of_mem_integer (n := n) hc
  | @float x hx =>
    exact scansAs_of_eq rfl fun depth =>
      tooNested?_number fun c hc => Double.isNumberChar_of_mem_text hx hc
  | text s => exact scansAs_of_eq rfl fun depth => tooNested?_quotedText style.ascii s.toList
  | @list items hc ih =>
    by_cases hnil : items = []
    · subst hnil
      refine scansAs_of_eq rfl fun depth rest => ?_
      show tooNested? depth .plain ('[' :: ']' :: rest) = _
      simp [tooNested?, firstValue?, skipBlanks_cons (c := ']') (by decide)]
    · intro depth rest hd
      have hfirst : ∀ rest, (firstValue? '[' (Text.joined [','] (items.map (compact style))
          ++ rest)).isSome = true := by
        intro rest
        obtain ⟨x, xs, rfl⟩ := List.exists_cons_of_ne_nil hnil
        have hstarts := starts_compact style (hc x List.mem_cons_self) hm
        rw [List.map_cons, Text.joined_cons, List.append_assoc, firstValue?_list (hstarts.append _)]
        rfl
      rw [compact_list, containers, if_neg (by simpa using hnil)]
      exact isTooNested_enclosed (.inl rfl) (.inl rfl) hfirst (fun n => containersOf_le_iff) ih hd
  | @dict entries hk hc ih =>
    by_cases hnil : entries = []
    · subst hnil
      refine scansAs_of_eq rfl fun depth rest => ?_
      show tooNested? depth .plain ('\x7b' :: '\x7d' :: rest) = _
      simp [tooNested?, firstValue?, skipBlanks_cons (c := '\x7d') (by decide)]
    · intro depth rest hd
      have hfirst : ∀ rest, (firstValue? '\x7b' (Text.joined [','] (entries.map (compactEntry style))
          ++ rest)).isSome = true := by
        intro rest
        obtain ⟨e, es, rfl⟩ := List.exists_cons_of_ne_nil hnil
        rw [List.map_cons, Text.joined_cons, List.append_assoc]
        exact firstValue?_dict style e _
      have hentries : ∀ e ∈ entries, ScansAs (compactEntry style) (·.2.containers) e := by
        intro e he depth rest hd
        rw [compactEntry, List.append_assoc, isTooNested, tooNested?_quotedText]
        exact ih e he depth rest hd
      rw [compact_dict, containers, if_neg (by simpa using hnil)]
      exact isTooNested_enclosed (.inr rfl) (.inr rfl) hfirst (fun n => containersIn_le_iff) hentries hd

/-- Closed data is read from its stored text just when such a text can hold it. -/
theorem readStored_compact (hm : style.number.markWhole = true) (h : v.Closed) (hp : v.isProper = true) :
    (readStored (compact style v)).toOption = if v.IsStorable then some v else none := by
  have hread := read_compact hm h hp
  have hscan : (tooNested? 0 .plain (compact style v)).isSome
      = decide (containerLimit < v.containers) := by
    have hscan := scansAs_compact style hm h 0 [] (Nat.zero_le _)
    rw [List.append_nil, Nat.add_zero] at hscan
    rw [← isTooNested, hscan]
    exact Bool.or_false _
  unfold readStored
  cases hdeep : tooNested? 0 .plain (compact style v) with
  | none =>
    have hfits : v.containers ≤ containerLimit := by simpa [hdeep] using hscan
    have hiff : v.IsStorable ↔ v.mostDigits ≤ digitLimit := and_iff_right hfits
    rw [if_congr hiff rfl rfl, ← hread]
    cases read (compact style v) <;> rfl
  | some deep =>
    have hlimit : ¬ v.containers ≤ containerLimit := by simpa [hdeep] using hscan
    rw [if_neg fun hs => hlimit hs.1]
    cases read (compact style v) <;> rfl

end Json

end Wireframe
