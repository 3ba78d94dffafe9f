import Wireframe.Json.Recovery
import Wireframe.Proofs.Json.Accepted
import Wireframe.Proofs.Json.Commas

/-! The scan for a balanced object: it stops at the brace that closes the first one, and an object of the
grammar is balanced there and not before. -/
namespace Wireframe.Json

variable {s t a b raw front rest span object : List Char} {c : Char} {v : Value} {p : Part}
variable {mode : ScanMode} {depth : Nat} {room : Room}

/-- Where a scan stands behind one more character. -/
def ScanMode.step : ScanMode → Char → ScanMode
  | .plain, c => if c = '"' then .text else .plain
  | .text, c => if c = '\\' then .escaped else if c = '"' then .plain else .text
  | .escaped, _ => .text

/-- The characters of a text that stand outside of quotes, the quotes left out. -/
def bareFrom : ScanMode → List Char → List Char
  | _, [] => []
  | mode, c :: s => (if mode = .plain ∧ c ≠ '"' then [c] else []) ++ bareFrom (mode.step c) s

/-- How many more braces a text opens than it closes, outside of quotes. -/
def levelFrom (mode : ScanMode) (s : List Char) : Int :=
  (bareFrom mode s).count '\x7b' - (bareFrom mode s).count '\x7d'

/-- A text whose braces outside of quotes pair up, each closing one behind its opening one. -/
def Balanced (s : List Char) : Prop :=
  levelFrom .plain s = 0 ∧ ∀ t, t <+: s → 0 ≤ levelFrom .plain t

/-- A part of a text from the first opening brace of the text to the brace that closes it. -/
structure IsSpan (s span : List Char) : Prop where
  part : ∃ front rest, s = front ++ (span ++ rest) ∧ '\x7b' ∉ front
  first : span.head? = some '\x7b'
  last : span.getLast? = some '\x7d'
  balanced : Balanced span
  shortest : ∀ t, t <+: span → t ≠ [] → t ≠ span → ¬ Balanced t

/-! One step of a scan. -/

/-- How many braces are open behind one more character. -/
def depthAfter (depth : Nat) (mode : ScanMode) (c : Char) : Nat :=
  match mode with
  | .plain => if c = '\x7b' then depth + 1 else if c = '\x7d' then depth - 1 else depth
  | _ => depth

theorem balancedFrom_cons (hd : 0 < depth) (mode : ScanMode) (c : Char) (s : List Char) :
    balancedFrom depth mode (c :: s) =
      if depthAfter depth mode c = 0 then some [c]
      else (balancedFrom (depthAfter depth mode c) (mode.step c) s).map (c :: ·) := by
  have hne : depth ≠ 0 := Nat.ne_of_gt hd
  cases mode with
  | text => simp [balancedFrom, depthAfter, ScanMode.step, hne]
  | escaped => simp [balancedFrom, depthAfter, ScanMode.step, hne]
  | plain =>
    by_cases hquote : c = '"'
    · subst hquote
      simp [balancedFrom, depthAfter, ScanMode.step, hne]
    by_cases hopen : c = '\x7b'
    · subst hopen
      simp [balancedFrom, depthAfter, ScanMode.step]
    by_cases hclose : c = '\x7d'
    · subst hclose
      simp [balancedFrom, depthAfter, ScanMode.step, Nat.sub_eq_zero_iff_le]
    · simp [balancedFrom, depthAfter, ScanMode.step, hquote, hopen, hclose, hne]

@[simp] theorem levelFrom_nil (mode : ScanMode) : levelFrom mode [] = 0 := rfl

theorem levelFrom_cons (hd : 0 < depth) (mode : ScanMode) (c : Char) (s : List Char) :
    depth + levelFrom mode (c :: s) = depthAfter depth mode c + levelFrom (mode.step c) s := by
  cases mode with
  | text => simp [levelFrom, bareFrom, depthAfter]
  | escaped => simp [levelFrom, bareFrom, depthAfter]
  | plain =>
    by_cases hquote : c = '"'
    · subst hquote
      simp [levelFrom, bareFrom, depthAfter]
    by_cases hopen : c = '\x7b'
    · subst hopen
      simp [levelFrom, bareFrom, depthAfter]
      omega
    by_cases hclose : c = '\x7d'
    · subst hclose
      simp [levelFrom, bareFrom, depthAfter]
      omega
    · simp [levelFrom, bareFrom, depthAfter, hquote, hopen, hclose]

theorem depthAfter_eq_zero (hd : 0 < depth) (h : depthAfter depth mode c = 0) : c = '\x7d' := by
  unfold depthAfter at h
  split at h
  · split at h
    · cases h
    · split at h
      · assumption
      · omega
  · omega

/-! Where a scan stops. -/

/-- A text that closes `depth` braces with its last character and not before. -/
structure Lands (depth : Nat) (mode : ScanMode) (t : List Char) : Prop where
  ground : depth + levelFrom mode t = 0
  above : ∀ u, u <+: t → u ≠ t → 0 < depth + levelFrom mode u

theorem lands_nil_iff : Lands depth mode [] ↔ depth = 0 := by
  refine ⟨fun h => by simpa using h.ground, fun h => ⟨by simp [h], fun u hu hne => ?_⟩⟩
  exact absurd (List.prefix_nil.mp hu) hne

theorem lands_zero_iff : Lands 0 mode t ↔ t = [] := by
  constructor
  · intro h
    by_contra hne
    exact absurd (h.above [] List.nil_prefix (Ne.symm hne)) (by simp)
  · rintro rfl
    exact lands_nil_iff.mpr rfl

theorem lands_cons_iff (hd : 0 < depth) :
    Lands depth mode (c :: t) ↔ Lands (depthAfter depth mode c) (mode.step c) t := by
  constructor
  · rintro ⟨hground, habove⟩
    refine ⟨levelFrom_cons hd mode c t ▸ hground, fun u hu hne => ?_⟩
    have hfront : c :: u <+: c :: t := List.cons_prefix_cons.mpr ⟨rfl, hu⟩
    rw [← levelFrom_cons hd]
    exact habove (c :: u) hfront fun heq => hne (List.cons.inj heq).2
  · rintro ⟨hground, habove⟩
    refine ⟨(levelFrom_cons hd mode c t).trans hground, fun u hu hne => ?_⟩
    cases u with
    | nil => simpa using hd
    | cons d u =>
      obtain ⟨rfl, hfront⟩ := List.cons_prefix_cons.mp hu
      rw [levelFrom_cons hd]
      exact habove u hfront fun heq => hne (heq ▸ rfl)

theorem Lands.getLast? (h : Lands depth mode t) (hd : 0 < depth) : t.getLast? = some '\x7d' := by
  induction t generalizing depth mode with
  | nil => exact absurd (lands_nil_iff.mp h) (Nat.ne_of_gt hd)
  | cons c t ih =>
    rw [lands_cons_iff hd] at h
    by_cases hzero : depthAfter depth mode c = 0
    · rw [hzero, lands_zero_iff] at h
      rw [h, List.getLast?_singleton, depthAfter_eq_zero hd hzero]
    · rw [List.getLast?_cons, ih h (Nat.pos_of_ne_zero hzero), Option.getD_some]

/-- Behind an open brace a scan finds the front that closes it, if there is one. -/
theorem balancedFrom_eq_some_iff (hd : 0 < depth) :
    balancedFrom depth mode s = some t ↔ t <+: s ∧ Lands depth mode t := by
  induction s generalizing depth mode t with
  | nil =>
    rw [List.prefix_nil]
    refine ⟨nofun, ?_⟩
    rintro ⟨rfl, h⟩
    exact absurd (lands_nil_iff.mp h) (Nat.ne_of_gt hd)
  | cons c s ih =>
    have hcons : t <+: c :: s ∧ Lands depth mode t ↔
        ∃ u, (u <+: s ∧ Lands (depthAfter depth mode c) (mode.step c) u) ∧ c :: u = t := by
      constructor
      · rintro ⟨hfront, h⟩
        cases t with
        | nil => exact absurd (lands_nil_iff.mp h) (Nat.ne_of_gt hd)
        | cons d u =>
          obtain ⟨rfl, hu⟩ := List.cons_prefix_cons.mp hfront
          exact ⟨u, ⟨hu, (lands_cons_iff hd).mp h⟩, rfl⟩
      · rintro ⟨u, ⟨hu, h⟩, rfl⟩
        exact ⟨List.cons_prefix_cons.mpr ⟨rfl, hu⟩, (lands_cons_iff hd).mpr h⟩
    rw [balancedFrom_cons hd, hcons]
    split
    · rename_i hzero
      simp [hzero, lands_zero_iff, eq_comm]
    · rename_i hzero
      simp only [Option.map_eq_some_iff, ih (Nat.pos_of_ne_zero hzero)]

theorem levelFrom_brace (s : List Char) : levelFrom .plain ('\x7b' :: s) = 1 + levelFrom .plain s := by
  have hlevel : (1 : Int) + levelFrom .plain ('\x7b' :: s) = 2 + levelFrom .plain s :=
    levelFrom_cons Nat.one_pos .plain '\x7b' s
  omega

theorem lands_one_iff : Lands 1 .plain t ↔
    Balanced ('\x7b' :: t) ∧ ∀ u, u <+: '\x7b' :: t → u ≠ [] → u ≠ '\x7b' :: t → ¬ Balanced u := by
  constructor
  · rintro ⟨hground, habove⟩
    have hlevel : ∀ u, u <+: '\x7b' :: t → u ≠ [] → u ≠ '\x7b' :: t → 0 < levelFrom .plain u := by
      intro u hu hne hproper
      obtain ⟨d, u, rfl⟩ := List.exists_cons_of_ne_nil hne
      obtain ⟨rfl, hfront⟩ := List.cons_prefix_cons.mp hu
      rw [levelFrom_brace]
      exact habove u hfront fun heq => hproper (heq ▸ rfl)
    refine ⟨⟨by rwa [levelFrom_brace], fun u hu => ?_⟩, fun u hu hne hproper hbalanced => ?_⟩
    · by_cases hne : u = []
      · simp [hne]
      · by_cases hproper : u = '\x7b' :: t
        · rw [hproper, levelFrom_brace]
          exact hground.ge
        · exact (hlevel u hu hne hproper).le
    · exact absurd hbalanced.1 (hlevel u hu hne hproper).ne'
  · rintro ⟨⟨hground, hnested⟩, hshort⟩
    refine ⟨by rwa [levelFrom_brace] at hground, fun u hu hproper => ?_⟩
    have hfront : '\x7b' :: u <+: '\x7b' :: t := List.cons_prefix_cons.mpr ⟨rfl, hu⟩
    have hopen : ¬ Balanced ('\x7b' :: u) :=
      hshort _ hfront (by simp) fun heq => hproper (List.cons.inj heq).2
    -- A front of a balanced text that comes back to the ground is balanced itself.
    have hne : levelFrom .plain ('\x7b' :: u) ≠ 0 := fun hzero =>
      hopen ⟨hzero, fun w hw => hnested w (hw.trans hfront)⟩
    have hle := hnested _ hfront
    rw [levelFrom_brace] at hle hne
    push_cast
    omega

theorem firstBalanced?_behind (hf : '\x7b' ∉ front) (s : List Char) :
    firstBalanced? (front ++ '\x7b' :: s) = (balancedFrom 1 .plain s).map ('\x7b' :: ·) := by
  have hdrop : (front ++ '\x7b' :: s).dropWhile (· ≠ '\x7b') = '\x7b' :: s := by
    rw [List.dropWhile_append_of_pos, List.dropWhile_cons_of_neg (by simp)]
    exact fun c hc => decide_eq_true fun heq => hf (heq ▸ hc)
  rw [firstBalanced?, hdrop]
  rfl

theorem firstBalanced?_eq_some_iff : firstBalanced? s = some span ↔ IsSpan s span := by
  constructor
  · intro h
    have hopen : '\x7b' ∈ s := by
      by_contra hnone
      have hdrop : s.dropWhile (· ≠ '\x7b') = [] :=
        List.dropWhile_eq_nil_iff.mpr fun c hc => decide_eq_true fun heq => hnone (heq ▸ hc)
      rw [firstBalanced?, hdrop] at h
      cases h
    obtain ⟨front, inner, rfl, hf⟩ := List.eq_append_cons_of_mem hopen
    rw [firstBalanced?_behind hf] at h
    obtain ⟨t, ht, rfl⟩ := Option.map_eq_some_iff.mp h
    obtain ⟨⟨rest, rfl⟩, hlands⟩ := (balancedFrom_eq_some_iff Nat.one_pos).mp ht
    obtain ⟨hbalanced, hshort⟩ := lands_one_iff.mp hlands
    refine ⟨⟨front, rest, rfl, hf⟩, rfl, ?_, hbalanced, hshort⟩
    rw [List.getLast?_cons, hlands.getLast? Nat.one_pos, Option.getD_some]
  · rintro ⟨⟨front, rest, rfl, hf⟩, hfirst, -, hbalanced, hshort⟩
    obtain ⟨t, rfl⟩ := List.head?_eq_some_iff.mp hfirst
    have hlands : Lands 1 .plain t := lands_one_iff.mpr ⟨hbalanced, hshort⟩
    rw [List.cons_append, firstBalanced?_behind hf,
      (balancedFrom_eq_some_iff Nat.one_pos).mpr ⟨List.prefix_append t rest, hlands⟩]
    rfl

/-! Objects of the grammar. -/

/-- A text of characters outside of quotes, of texts between quotes, and of such texts between braces. -/
inductive Nested : List Char → Prop
  | nil : Nested []
  | char {c : Char} {s : List Char} : c ≠ '"' → c ≠ '\x7b' → c ≠ '\x7d' → Nested s → Nested (c :: s)
  | quoted {raw s : List Char} : Quoted raw → Nested s → Nested ('"' :: (raw ++ '"' :: s))
  | braced {a s : List Char} : Nested a → Nested s → Nested ('\x7b' :: (a ++ '\x7d' :: s))

theorem Nested.append (ha : Nested a) (h : Nested s) : Nested (a ++ s) := by
  induction ha with
  | nil => exact h
  | char hquote hopen hclose _ ih => exact .char hquote hopen hclose ih
  | quoted hraw _ ih => simpa using Nested.quoted hraw ih
  | braced ha _ _ ih => simpa using Nested.braced ha ih

theorem nested_of_ne (h : ∀ c ∈ a, c ≠ '"' ∧ c ≠ '\x7b' ∧ c ≠ '\x7d') : Nested a := by
  induction a with
  | nil => exact .nil
  | cons c a ih =>
    rw [List.forall_mem_cons] at h
    exact .char h.1.1 h.1.2.1 h.1.2.2 (ih h.2)

theorem Nested.sign (hc : c ≠ '"' ∧ c ≠ '\x7b' ∧ c ≠ '\x7d') (h : Nested s) : Nested (c :: s) :=
  .char hc.1 hc.2.1 hc.2.2 h

theorem Nested.gap (hb : Gap b) (h : Nested s) : Nested (b ++ s) :=
  (nested_of_ne fun c hc =>
    ⟨hb.ne (by decide) c hc, hb.ne (by decide) c hc, hb.ne (by decide) c hc⟩).append h

/-- The bracket behind a part that the part does not open. -/
def Part.closer : Part → List Char
  | .entries => ['\x7d']
  | _ => []

theorem Spells.exists_nested (h : Spells room p s v rest) : ∃ a, s = a ++ (p.closer ++ rest) ∧ Nested a := by
  induction h with
  | @word room w rest v hw =>
    refine ⟨w, rfl, nested_of_ne fun c hc => ?_⟩
    have hplain := hw.plain c hc
    refine ⟨?_, ?_, ?_⟩ <;>
      · rintro rfl
        cases hplain
  | @text room raw chars rest hraw =>
    exact ⟨'"' :: (raw ++ ['"']), by simp [Part.closer], .quoted hraw.quoted .nil⟩
  | @emptyList room inner b rest _ hb =>
    have hclose := Nested.nil.sign (c := ']') (by decide)
    exact ⟨'[' :: (b ++ [']']), by simp [Part.closer], (hclose.gap hb).sign (by decide)⟩
  | @emptyDict room inner b rest _ hb =>
    refine ⟨'\x7b' :: (b ++ ['\x7d']), by simp [Part.closer], .braced ?_ .nil⟩
    simpa using Nested.nil.gap hb
  | @list room inner b s rest xs _ hb _ ih =>
    obtain ⟨a, rfl, ha⟩ := ih
    exact ⟨'[' :: (b ++ a), by simp [Part.closer], (ha.gap hb).sign (by decide)⟩
  | @dict room inner b s rest es _ hb _ ih =>
    obtain ⟨a, rfl, ha⟩ := ih
    exact ⟨'\x7b' :: ((b ++ a) ++ ['\x7d']), by simp [Part.closer], .braced (ha.gap hb) .nil⟩
  | @lastItem room b s rest x hb _ ih =>
    obtain ⟨a, rfl, ha⟩ := ih
    have hclose := Nested.nil.sign (c := ']') (by decide)
    exact ⟨a ++ (b ++ [']']), by simp [Part.closer], ha.append (hclose.gap hb)⟩
  | @item room b c s t rest x xs hb hc _ _ ih ihs =>
    obtain ⟨a, rfl, ha⟩ := ih
    obtain ⟨as, rfl, has⟩ := ihs
    exact ⟨a ++ (b ++ ',' :: (c ++ as)), by simp [Part.closer],
      ha.append (((has.gap hc).sign (by decide)).gap hb)⟩
  | @lastEntry room raw key b c d s rest x hraw hb hc hd _ ih =>
    obtain ⟨a, rfl, ha⟩ := ih
    refine ⟨'"' :: (raw ++ '"' :: (b ++ ':' :: (c ++ (a ++ (d ++ []))))), by simp [Part.closer], ?_⟩
    have hvalue := ha.append (Nested.nil.gap hd)
    exact .quoted hraw.quoted (((hvalue.gap hc).sign (by decide)).gap hb)
  | @entry room raw key b c d e s t rest x es hraw hb hc hd he _ _ ih ihs =>
    obtain ⟨a, rfl, ha⟩ := ih
    obtain ⟨as, rfl, has⟩ := ihs
    refine ⟨'"' :: (raw ++ '"' :: (b ++ ':' :: (c ++ (a ++ (d ++ ',' :: (e ++ as)))))),
      by simp [Part.closer], ?_⟩
    have hvalue := ha.append (((has.gap he).sign (c := ',') (by decide)).gap hd)
    exact .quoted hraw.quoted (((hvalue.gap hc).sign (by decide)).gap hb)

theorem Spells.exists_braced (h : Spells room .value ('\x7b' :: t) v []) : ∃ a, t = a ++ ['\x7d'] ∧ Nested a := by
  generalize hs : '\x7b' :: t = s at h
  cases h with
  | word hw =>
    obtain ⟨c, cs, heq, hc⟩ := exists_opening_of_isWord hw []
    cases hs.trans heq
    cases hc
  | text => cases hs
  | emptyList => cases hs
  | list => cases hs
  | @emptyDict room inner b _ _ hb =>
    cases hs
    exact ⟨b, rfl, by simpa using Nested.nil.gap hb⟩
  | @dict room inner b s _ es _ hb hes =>
    cases hs
    obtain ⟨a, rfl, ha⟩ := hes.exists_nested
    exact ⟨b ++ a, by simp [Part.closer], ha.gap hb⟩

/-- What is read as a value, from an opening brace to a closing one, is one nested object. -/
theorem exists_nested_of_read (h : read object = .ok v) (hfirst : object.head? = some '\x7b')
    (hlast : object.getLast? = some '\x7d') : ∃ a, object = '\x7b' :: (a ++ ['\x7d']) ∧ Nested a := by
  obtain ⟨b, t, c, hb, hc, rfl, hspells⟩ := read_eq_ok_iff.mp h
  obtain rfl : b = [] := by
    cases b with
    | nil => rfl
    | cons d b => exact absurd (Option.some.inj hfirst) (hb.ne (by decide) d List.mem_cons_self)
  obtain rfl : c = [] := by
    rcases List.eq_nil_or_concat c with rfl | ⟨c, d, rfl⟩
    · rfl
    · have hd : d = '\x7d' := by simpa using hlast
      exact absurd hd (hc.ne (by decide) d (by simp))
  rw [List.nil_append, List.append_nil] at hfirst ⊢
  obtain ⟨t, rfl⟩ := List.head?_eq_some_iff.mp hfirst
  obtain ⟨a, rfl, ha⟩ := hspells.exists_braced
  exact ⟨a, rfl, ha⟩

/-! A scan passes over what is nested. -/

theorem balancedFrom_quoted (h : Quoted raw) (depth : Nat) (s : List Char) :
    balancedFrom depth .text (raw ++ '"' :: s) = (balancedFrom depth .plain s).map (raw ++ '"' :: ·) := by
  induction h with
  | nil => rfl
  | @plain c raw hquote hslash _ _ ih =>
    rw [List.cons_append, balancedFrom, if_neg hquote, if_neg hslash, ih, Option.map_map]
    rfl
  | @short c e raw _ _ ih =>
    simp only [List.cons_append]
    rw [balancedFrom, if_pos rfl, balancedFrom, ih, Option.map_map, Option.map_map]
    rfl
  | @unit a b c d n raw hunit _ ih =>
    obtain ⟨ha, hb, hc, hd⟩ := ne_of_unit (x := '"') hunit (by decide)
    obtain ⟨ha', hb', hc', hd'⟩ := ne_of_unit (x := '\\') hunit (by decide)
    simp only [List.cons_append]
    rw [balancedFrom, if_pos rfl, balancedFrom]
    simp only [balancedFrom, ha, hb, hc, hd, ha', hb', hc', hd', if_false, ih, Option.map_map]
    rfl

theorem Nested.balancedFrom_append (h : Nested a) (hd : 0 < depth) (s : List Char) :
    balancedFrom depth .plain (a ++ s) = (balancedFrom depth .plain s).map (a ++ ·) := by
  induction h generalizing depth s with
  | nil => simp
  | char hquote hopen hclose _ ih =>
    rw [List.cons_append, balancedFrom, if_neg hquote, if_neg hopen, if_neg hclose, ih hd, Option.map_map]
    rfl
  | quoted hraw _ ih =>
    rw [List.cons_append, balancedFrom, if_pos rfl, List.append_assoc, List.cons_append,
      balancedFrom_quoted hraw, ih hd, Option.map_map, Option.map_map]
    simp [Function.comp_def]
  | @braced a t _ _ iha iht =>
    rw [List.cons_append, List.append_assoc, balancedFrom, if_neg (by decide), if_pos rfl,
      iha (Nat.succ_pos depth), List.cons_append, balancedFrom, if_neg (by decide), if_neg (by decide),
      if_pos rfl, if_neg (by omega), Nat.succ_sub_one, iht hd]
    simp [Function.comp_def]

/-- The scan of a text finds the object of the grammar that its first brace opens, whatever braces and quotes
stand between the quotes of that object or behind it. What it finds in any text is the part from the first
brace to the one that closes it. -/
theorem firstBalanced?_finds_object :
    (∀ front object rest v, '\x7b' ∉ front → object.head? = some '\x7b' → object.getLast? = some '\x7d' →
        read object = .ok v → firstBalanced? (front ++ (object ++ rest)) = some object)
      ∧ ∀ s span, firstBalanced? s = some span ↔ IsSpan s span := by
  refine ⟨fun front object rest v hf hfirst hlast hread => ?_, fun s span => firstBalanced?_eq_some_iff⟩
  obtain ⟨a, rfl, ha⟩ := exists_nested_of_read hread hfirst hlast
  rw [List.cons_append, firstBalanced?_behind hf, List.append_assoc, ha.balancedFrom_append Nat.one_pos]
  rfl

theorem firstBalanced?_of_hostile_text :
    let front := "a \x7d \"".toList
    let object := "\x7b \"\x7d\\\\\": [\"\\\"\x7b\", \x7b\"\x7b\": \"\\\\\\\"\x7d\"\x7d] \x7d".toList
    let rest := " \x7d \x7b\"".toList
    '\x7b' ∉ front ∧ object.head? = some '\x7b' ∧ object.getLast? = some '\x7d'
      ∧ (∃ v, read object = .ok v) ∧ firstBalanced? (front ++ (object ++ rest)) = some object := by
  intro front object rest
  have hnone : '\x7b' ∉ front := by decide
  have hfirst : object.head? = some '\x7b' := rfl
  have hlast : object.getLast? = some '\x7d' := rfl
  have hread : (read object).toOption.isSome = true := by decide +kernel
  obtain ⟨v, hv⟩ := Outcome.exists_ok_of_isSome hread
  exact ⟨hnone, hfirst, hlast, ⟨v, hv⟩,
    firstBalanced?_finds_object.1 front object rest v hnone hfirst hlast hv⟩

end Wireframe.Json
