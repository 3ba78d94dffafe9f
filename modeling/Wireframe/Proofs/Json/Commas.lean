import Wireframe.Proofs.Json.Grammar
import Wireframe.Proofs.Json.Recovery
import Wireframe.Proofs.Text.Blanks

/-! Commas in front of closing brackets. In a text of the grammar they stand between quotes only, and without
them the text is still one of the grammar: the quoted texts in it are shorter, everything else stays. -/
namespace Wireframe.Json
open Text (replaceAll replaceFrom)

variable {s t a gap raw rest : List Char} {c close : Char} {v : Value} {p : Part} {before : Option Char}
variable {room : Room}

/-- A text without the commas that only blanks keep apart from the closing bracket behind them. -/
def uncomma (close : Char) (s : List Char) : List Char := replaceAll (strayComma close) s

/-- A closing bracket. -/
def IsClosing (c : Char) : Prop := c = '\x7d' ∨ c = ']'

theorem IsClosing.not_isBlank (h : IsClosing c) : Text.isBlank c = false := by
  rcases h with rfl | rfl <;> decide

/-- A text in which nothing but blanks stands in front of a closing bracket. -/
def Closes (close : Char) (s : List Char) : Prop :=
  ∃ gap rest, (∀ c ∈ gap, Text.isBlank c = true) ∧ s = gap ++ close :: rest

/-- What came in front makes no difference. -/
theorem replaceFrom_strayComma (before : Option Char) (s : List Char) :
    replaceFrom (strayComma close) before 0 s = uncomma close s := by
  cases s <;> rfl

theorem strayComma_of_ne (hc : c ≠ ',') : strayComma close before (c :: s) = none := by
  simp [strayComma, Text.after?, hc.symm]

theorem uncomma_cons (hc : c ≠ ',') (s : List Char) : uncomma close (c :: s) = c :: uncomma close s := by
  rw [uncomma, replaceAll, replaceFrom, strayComma_of_ne hc]
  exact congrArg (c :: ·) (replaceFrom_strayComma _ s)

theorem uncomma_append (ha : ∀ c ∈ a, c ≠ ',') (s : List Char) :
    uncomma close (a ++ s) = a ++ uncomma close s := by
  induction a with
  | nil => rfl
  | cons c a ih =>
    rw [List.forall_mem_cons] at ha
    rw [List.cons_append, uncomma_cons ha.1, ih ha.2, List.cons_append]

theorem strayComma_eq_some_iff {new : List Char} (hclose : Text.isBlank close = false) :
    strayComma close before (',' :: s) = some (new, rest) ↔
      new = [close] ∧ ∃ gap, (∀ c ∈ gap, Text.isBlank c = true) ∧ s = gap ++ close :: rest := by
  rw [← Text.after?_trimStart_eq_some_iff hclose]
  simp only [strayComma, Text.after?, if_true, Option.bind_eq_bind, Option.bind_some]
  cases Text.after? [close] (Text.trimStart s) with
  | none => simp
  | some rest => simp [eq_comm]

theorem uncomma_hit (hclose : Text.isBlank close = false) (hgap : ∀ c ∈ gap, Text.isBlank c = true)
    (s : List Char) : uncomma close (',' :: (gap ++ close :: s)) = close :: uncomma close s := by
  have hhit : strayComma close none (',' :: (gap ++ close :: s)) = some ([close], s) :=
    (strayComma_eq_some_iff hclose).mpr ⟨rfl, gap, hgap, rfl⟩
  rw [List.append_cons] at hhit ⊢
  rw [uncomma, replaceAll, Text.replaceFrom_hit hhit, replaceFrom_strayComma]
  rfl

theorem uncomma_kept (hclose : Text.isBlank close = false) (h : ¬ Closes close s) :
    uncomma close (',' :: s) = ',' :: uncomma close s := by
  have hmiss : strayComma close none (',' :: s) = none := by
    rw [Option.eq_none_iff_forall_ne_some]
    rintro ⟨new, rest⟩ hhit
    obtain ⟨-, gap, hgap, hs⟩ := (strayComma_eq_some_iff hclose).mp hhit
    exact h ⟨gap, rest, hgap, hs⟩
  rw [uncomma, replaceAll, replaceFrom, hmiss]
  exact congrArg (',' :: ·) (replaceFrom_strayComma _ s)

/-- A text behind which no bracket closes what is in front of it can be cut off. -/
theorem uncomma_cut (hclose : Text.isBlank close = false) (hs : ∀ a, Closes close (a ++ s) → Closes close a)
    (a : List Char) : uncomma close (a ++ s) = uncomma close a ++ uncomma close s := by
  induction hn : a.length using Nat.strongRecOn generalizing a with
  | ind n ih =>
    subst hn
    cases a with
    | nil => rfl
    | cons c a =>
      have htail := ih a.length (Nat.lt_succ_self _) a rfl
      rw [List.cons_append]
      by_cases hc : c = ','
      · subst hc
        by_cases hstray : Closes close a
        · obtain ⟨gap, rest, hgap, rfl⟩ := hstray
          have hrest := ih rest.length (by simp only [List.length_cons, List.length_append]; omega) rest rfl
          rw [List.append_assoc, List.cons_append, uncomma_hit hclose hgap, uncomma_hit hclose hgap, hrest,
            List.cons_append]
        · have hlong : ¬ Closes close (a ++ s) := fun h => hstray (hs a h)
          rw [uncomma_kept hclose hlong, uncomma_kept hclose hstray, htail, List.cons_append]
      · rw [uncomma_cons hc, uncomma_cons hc, htail, List.cons_append]

/-- What stands behind neither a blank nor a bracket closes nothing in front of it. -/
theorem closes_of_closes_append (hclose : c ≠ close) (hblank : Text.isBlank c = false) (a : List Char)
    (h : Closes close (a ++ c :: s)) : Closes close a := by
  obtain ⟨gap, rest, hgap, heq⟩ := h
  rcases List.append_eq_append_iff.mp heq with ⟨m, rfl, hm⟩ | ⟨m, rfl, hm⟩
  · cases m with
    | nil => exact (hclose (List.cons.inj hm).1).elim
    | cons d m =>
      have hd := hgap d (by simp)
      rw [← (List.cons.inj hm).1, hblank] at hd
      cases hd
  · cases m with
    | nil => exact (hclose (List.cons.inj hm).1.symm).elim
    | cons d m =>
      obtain ⟨rfl, -⟩ := List.cons.inj hm
      exact ⟨gap, m, hgap, rfl⟩

/-- A character that has no place between a comma and its bracket cuts a text in two. -/
theorem uncomma_split (hcomma : c ≠ ',') (hne : c ≠ close) (hblank : Text.isBlank c = false)
    (hclose : Text.isBlank close = false) (a s : List Char) :
    uncomma close (a ++ c :: s) = uncomma close a ++ c :: uncomma close s := by
  rw [uncomma_cut hclose (closes_of_closes_append hne hblank), uncomma_cons hcomma]

/-- So do blanks at the end. -/
theorem uncomma_append_blanks (hclose : Text.isBlank close = false) (hb : ∀ c ∈ s, Text.isBlank c = true)
    (a : List Char) : uncomma close (a ++ s) = uncomma close a ++ s := by
  have hcomma : ∀ c ∈ s, c ≠ ',' := by
    rintro c hc rfl
    exact Bool.false_ne_true (hb _ hc)
  have hself : uncomma close s = s := by
    rw [← List.append_nil s, uncomma_append hcomma]
    rfl
  rw [uncomma_cut hclose ?_ a, hself]
  rintro a ⟨gap, rest, hgap, heq⟩
  rcases List.append_eq_append_iff.mp heq with ⟨m, rfl, rfl⟩ | ⟨m, rfl, hm⟩
  · have hmem := hb close (by simp)
    rw [hclose] at hmem
    cases hmem
  · cases m with
    | nil =>
      rw [List.nil_append] at hm
      have hmem := hb close (hm ▸ List.mem_cons_self)
      rw [hclose] at hmem
      cases hmem
    | cons d m =>
      obtain ⟨rfl, -⟩ := List.cons.inj hm
      exact ⟨gap, m, hgap, rfl⟩

/-! Between quotes. -/

theorem Quoted.tail (h : Quoted (c :: s)) (hc : c ≠ '\\') : Quoted s := by
  cases h with
  | plain _ _ _ hs => exact hs
  | short _ _ => exact (hc rfl).elim
  | unit _ _ => exact (hc rfl).elim

theorem Quoted.suffix (h : Quoted (a ++ s)) (ha : ∀ c ∈ a, c ≠ '\\') : Quoted s := by
  induction a with
  | nil => exact h
  | cons c a ih =>
    rw [List.forall_mem_cons] at ha
    exact ih (h.tail ha.1) ha.2

/-- Without commas in front of brackets there still stands between quotes what may stand there. -/
theorem Quoted.uncomma (h : Quoted raw) (hclose : IsClosing close) :
    Quoted (uncomma close raw) := by
  have hblank := hclose.not_isBlank
  induction hn : raw.length using Nat.strongRecOn generalizing raw with
  | ind n ih =>
    subst hn
    cases h with
    | nil => exact .nil
    | @plain c s hquote hslash hc hs =>
      by_cases hcomma : c = ','
      · subst hcomma
        by_cases hstray : Closes close s
        · obtain ⟨gap, rest, hgap, rfl⟩ := hstray
          have hrest : Quoted (close :: rest) := by
            refine hs.suffix fun c hc => ?_
            rintro rfl
            exact Bool.false_ne_true (hgap _ hc)
          rw [uncomma_hit hblank hgap]
          have hshort := ih rest.length (by simp only [List.length_cons, List.length_append]; omega)
            (hrest.tail (by rcases hclose with rfl | rfl <;> decide)) rfl
          rcases hclose with rfl | rfl
          · exact .plain (by decide) (by decide) (by decide) hshort
          · exact .plain (by decide) (by decide) (by decide) hshort
        · rw [uncomma_kept hblank hstray]
          exact .plain (by decide) (by decide) (by decide) (ih s.length (Nat.lt_succ_self _) hs rfl)
      · rw [uncomma_cons hcomma]
        exact .plain hquote hslash hc (ih s.length (Nat.lt_succ_self _) hs rfl)
    | @short c e s he hs =>
      have hc : c ≠ ',' := by
        rintro rfl
        cases he
      rw [uncomma_cons (by decide), uncomma_cons hc]
      exact .short he (ih s.length (by simp only [List.length_cons]; omega) hs rfl)
    | @unit a b c d n s hunit hs =>
      obtain ⟨ha, hb, hc, hd⟩ := ne_of_unit (x := ',') hunit (by decide)
      have hdigits : ∀ x ∈ ['\\', 'u', a, b, c, d], x ≠ ',' := by
        simp only [List.forall_mem_cons]
        exact ⟨by decide, by decide, ha, hb, hc, hd, nofun⟩
      have htext : uncomma close ('\\' :: 'u' :: a :: b :: c :: d :: s)
          = '\\' :: 'u' :: a :: b :: c :: d :: uncomma close s := uncomma_append hdigits s
      rw [htext]
      exact .unit hunit (ih s.length (by simp only [List.length_cons]; omega) hs rfl)

/-! In the grammar. -/

theorem isBlank_text (h : isBlank c = true) : Text.isBlank c = true := by
  simp only [isBlank, Bool.or_eq_true, decide_eq_true_eq] at h
  rcases h with ((rfl | rfl) | rfl) | rfl <;> decide

theorem not_isBlank_text_of_isOpening (h : isOpening c = true) : Text.isBlank c = false := by
  have hall : ∀ n ∈ Text.blankCodes, isOpening (Char.ofNat n) = false := by decide +kernel
  refine Bool.eq_false_iff.mpr fun hblank => ?_
  have hclosed := hall _ (Text.toNat_mem_blankCodes hblank)
  rw [Char.ofNat_toNat, h] at hclosed
  cases hclosed

theorem Gap.ne (h : Gap a) (hc : isBlank c = false) : ∀ d ∈ a, d ≠ c := by
  rintro d hd rfl
  rw [h d hd] at hc
  cases hc

theorem Spells.not_closes (h : Spells room p s v rest) (ha : Gap a) (hclose : IsClosing close) :
    ¬ Closes close (a ++ s) := by
  obtain ⟨c, cs, rfl, hc⟩ := h.opens
  intro hcloses
  have hne : c ≠ close := by
    rintro rfl
    rcases hclose with rfl | rfl <;> cases hc
  obtain ⟨gap, rest, -, rfl⟩ :=
    closes_of_closes_append hne (not_isBlank_text_of_isOpening hc) a hcloses
  have hbracket : isBlank close = false := by rcases hclose with rfl | rfl <;> decide
  exact ha.ne hbracket close (by simp) rfl

theorem Spells.exists_list (h : Spells room .items s v rest) : ∃ xs, v = .list xs := by
  cases h <;> exact ⟨_, rfl⟩

theorem Spells.exists_dict (h : Spells room .entries s v rest) : ∃ es, v = .dict es := by
  cases h <;> exact ⟨_, rfl⟩

theorem Means.exists_uncomma {chars : List Char} (h : Means raw chars)
    (hclose : IsClosing close) (s : List Char) :
    ∃ raw' chars', Means raw' chars'
      ∧ uncomma close ('"' :: (raw ++ '"' :: s)) = '"' :: (raw' ++ '"' :: uncomma close s) := by
  obtain ⟨chars', hmeans⟩ := exists_means (h.quoted.uncomma hclose)
  refine ⟨uncomma close raw, chars', hmeans, ?_⟩
  have hquote : '"' ≠ close := by rcases hclose with rfl | rfl <;> decide
  rw [uncomma_cons (by decide), uncomma_split (by decide) hquote (by decide) hclose.not_isBlank]

/-- Without commas in front of brackets a text of the grammar is one of the grammar. -/
theorem Spells.exists_uncomma (h : Spells room p s v rest) (hclose : IsClosing close) :
    ∃ v', Spells room p (uncomma close s) v' (uncomma close rest) := by
  have hgap {b : List Char} (hb : Gap b) (s : List Char) : uncomma close (b ++ s) = b ++ uncomma close s :=
    uncomma_append (hb.ne (by decide)) s
  have hcomma {b s : List Char} (hs : ¬ Closes close (b ++ s)) (hb : Gap b) :
      uncomma close (',' :: (b ++ s)) = ',' :: (b ++ uncomma close s) := by
    rw [uncomma_kept hclose.not_isBlank hs, hgap hb]
  induction h with
  | @word room w rest v hw =>
    have hplain : ∀ c ∈ w, c ≠ ',' := by
      rintro c hc rfl
      exact Bool.false_ne_true (hw.plain _ hc)
    exact ⟨v, uncomma_append hplain rest ▸ .word hw⟩
  | @text room raw chars rest hraw =>
    obtain ⟨raw', chars', hmeans, htext⟩ := hraw.exists_uncomma hclose rest
    rw [htext]
    exact ⟨_, .text hmeans⟩
  | @emptyList room inner b rest hinner hb =>
    rw [uncomma_cons (by decide), hgap hb, uncomma_cons (by decide)]
    exact ⟨_, .emptyList hinner hb⟩
  | @emptyDict room inner b rest hinner hb =>
    rw [uncomma_cons (by decide), hgap hb, uncomma_cons (by decide)]
    exact ⟨_, .emptyDict hinner hb⟩
  | @list room inner b s rest xs hinner hb _ ih =>
    obtain ⟨v', ih⟩ := ih
    obtain ⟨xs', rfl⟩ := ih.exists_list
    rw [uncomma_cons (by decide), hgap hb]
    exact ⟨_, .list hinner hb ih⟩
  | @dict room inner b s rest es hinner hb _ ih =>
    obtain ⟨v', ih⟩ := ih
    obtain ⟨es', rfl⟩ := ih.exists_dict
    rw [uncomma_cons (by decide), hgap hb]
    exact ⟨_, .dict hinner hb ih⟩
  | @lastItem room b s rest x hb _ ih =>
    obtain ⟨x', ih⟩ := ih
    rw [hgap hb, uncomma_cons (by decide)] at ih
    exact ⟨_, .lastItem hb ih⟩
  | @item room b c s t rest x xs hb hc _ hxs ih ihs =>
    obtain ⟨x', ih⟩ := ih
    obtain ⟨v', ihs⟩ := ihs
    obtain ⟨xs', rfl⟩ := ihs.exists_list
    rw [hgap hb, hcomma (hxs.not_closes hc hclose) hc] at ih
    exact ⟨_, .item hb hc ih ihs⟩
  | @lastEntry room raw key b c d s rest x hraw hb hc hd _ ih =>
    obtain ⟨x', ih⟩ := ih
    obtain ⟨raw', key', hmeans, htext⟩ := hraw.exists_uncomma hclose (b ++ ':' :: (c ++ s))
    rw [hgap hd, uncomma_cons (by decide)] at ih
    rw [htext, hgap hb, uncomma_cons (by decide), hgap hc]
    exact ⟨_, .lastEntry hmeans hb hc hd ih⟩
  | @entry room raw key b c d e s t rest x es hraw hb hc hd he _ hes ih ihs =>
    obtain ⟨x', ih⟩ := ih
    obtain ⟨v', ihs⟩ := ihs
    obtain ⟨es', rfl⟩ := ihs.exists_dict
    obtain ⟨raw', key', hmeans, htext⟩ := hraw.exists_uncomma hclose (b ++ ':' :: (c ++ s))
    rw [hgap hd, hcomma (hes.not_closes he hclose) he] at ih
    rw [htext, hgap hb, uncomma_cons (by decide), hgap hc]
    exact ⟨_, .entry hmeans hb hc hd he ih ihs⟩

end Wireframe.Json
