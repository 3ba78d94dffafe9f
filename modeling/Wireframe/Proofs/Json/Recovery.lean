import Mathlib.Data.List.DropRight
import Wireframe.Json.Recovery
import Wireframe.Proofs.Json.Digits
import Wireframe.Proofs.Outcome
import Wireframe.Proofs.Text.Scanning

/-! Looking for an object in an answer joins no digits that were apart: what is taken out stands at the
start of a line or at its end, or leaves a bracket behind. Nor does it add an opening bracket. -/
namespace Wireframe

variable {limit count : Nat} {c : Char} {s t rest new out : List Char} {before : Option Char}
variable {r : Text.Recogniser (List Char)} {label : List Char}

namespace Text

/-- A recogniser that takes at least one character. -/
def Advances (r : Recogniser (List Char)) : Prop :=
  ∀ before s new rest, r before s = some (new, rest) → ∃ a, a ≠ [] ∧ s = a ++ rest

theorem replaceFrom_hit (h : r before (c :: (s ++ rest)) = some (new, rest)) :
    replaceFrom r before 0 (c :: (s ++ rest)) = new ++ replaceFrom r (lastRead (some c) s) 0 rest := by
  have hlen : (s ++ rest).length - rest.length = s.length := by
    rw [List.length_append]
    omega
  rw [replaceFrom, h]
  simp only [hlen, replaceFrom_skip]

/-- What holds of a text and of what replacing makes of it, step by step. -/
theorem replaceFrom_induction {P : Option Char → List Char → List Char → Prop} (hr : Advances r)
    (nil : ∀ before, P before [] [])
    (keep : ∀ before c s out, r before (c :: s) = none → P (some c) s out → P before (c :: s) (c :: out))
    (hit : ∀ before last s new rest out, r before s = some (new, rest) → P last rest out →
      P before s (new ++ out)) (before : Option Char) (s : List Char) :
    P before s (replaceFrom r before 0 s) := by
  induction hn : s.length using Nat.strong_induction_on generalizing before s with
  | h n ih =>
    subst hn
    cases s with
    | nil => exact nil before
    | cons c s =>
      cases hfound : r before (c :: s) with
      | none =>
        rw [replaceFrom, hfound]
        exact keep before c s _ hfound (ih s.length (Nat.lt_succ_self _) (some c) s rfl)
      | some found =>
        obtain ⟨new, rest⟩ := found
        obtain ⟨a, ha, hs⟩ := hr _ _ _ _ hfound
        obtain ⟨d, a, rfl⟩ := List.exists_cons_of_ne_nil ha
        obtain ⟨rfl, rfl⟩ := List.cons.inj (hs.trans (List.cons_append ..))
        have hshort : rest.length < (c :: (a ++ rest)).length := by
          rw [List.length_cons, List.length_append]
          omega
        rw [replaceFrom_hit hfound]
        exact hit before _ _ new rest _ hfound (ih rest.length hshort _ rest rfl)

theorem ShortRuns.append_left (h : ShortRuns limit 0 s) (hnew : ∀ c ∈ new, c.isDigit = false)
    (hne : new ≠ []) : ShortRuns limit count (new ++ s) := by
  induction new generalizing count with
  | nil => exact (hne rfl).elim
  | cons c new ih =>
    rw [List.cons_append, shortRuns_other (hnew c List.mem_cons_self)]
    cases new with
    | nil => exact h
    | cons d new => exact ih (fun e he => hnew e (List.mem_cons_of_mem _ he)) (by simp)

theorem ShortRuns.cons (h : ShortRuns limit count (c :: s))
    (hout : ∀ k, (0 < k → c.isDigit = true) → ShortRuns limit k s → ShortRuns limit k out) :
    ShortRuns limit count (c :: out) := by
  cases hc : c.isDigit with
  | true =>
    rw [shortRuns_digit hc] at h ⊢
    exact ⟨h.1, hout _ (fun _ => hc) h.2⟩
  | false =>
    rw [shortRuns_other hc] at h ⊢
    exact hout 0 (fun hpos => (Nat.lt_irrefl 0 hpos).elim) h

/-- What is taken out in front of no digit, or replaced by something that is none, joins no digits. -/
theorem ShortRuns.replaceAll_behind (hr : Advances r)
    (hjoin : ∀ before s new rest, r before s = some (new, rest) →
      (∀ c ∈ new, c.isDigit = false) ∧ (new = [] → ∀ c ∈ rest.head?, c.isDigit = false))
    (h : ShortRuns limit count s) : ShortRuns limit count (replaceAll r s) := by
  refine replaceFrom_induction
    (P := fun _ s out => ∀ k, ShortRuns limit k s → ShortRuns limit k out) hr
    (fun _ _ _ => trivial) (fun before c s out _ ih k hk => hk.cons fun k _ => ih k) ?_ none s count h
  intro before last s new rest out hfound ih k hk
  obtain ⟨a, -, rfl⟩ := hr _ _ _ _ hfound
  obtain ⟨hnew, hrest⟩ := hjoin _ _ _ _ hfound
  have hbehind := hk.suffix (List.suffix_append a rest)
  by_cases hne : new = []
  · rw [hne]
    exact ih k (hbehind.of_head? (hrest hne))
  · exact (ih 0 hbehind).append_left hnew hne

/-- Nor does what is taken out behind no digit. -/
theorem ShortRuns.replaceAll_front (hr : Advances r)
    (hjoin : ∀ before s new rest, r before s = some (new, rest) →
      new = [] ∧ ∀ c ∈ before, c.isDigit = false)
    (h : ShortRuns limit 0 s) : ShortRuns limit 0 (replaceAll r s) := by
  refine replaceFrom_induction
    (P := fun before s out => ∀ k, (0 < k → ∃ c ∈ before, c.isDigit = true) →
      ShortRuns limit k s → ShortRuns limit k out) hr
    (fun _ _ _ _ => trivial) ?_ ?_ none s 0 (fun hpos => (Nat.lt_irrefl 0 hpos).elim) h
  · intro before c s out _ ih k _ hk
    exact hk.cons fun k hpos => ih k fun h => ⟨c, rfl, hpos h⟩
  · intro before last s new rest out hfound ih k hcount hk
    obtain ⟨a, -, rfl⟩ := hr _ _ _ _ hfound
    obtain ⟨rfl, hbefore⟩ := hjoin _ _ _ _ hfound
    obtain rfl : k = 0 := by
      by_contra hne
      obtain ⟨c, hc, hdigit⟩ := hcount (Nat.pos_of_ne_zero hne)
      rw [hbefore c hc] at hdigit
      cases hdigit
    exact ih 0 (fun hpos => (Nat.lt_irrefl 0 hpos).elim) (hk.suffix (List.suffix_append a rest))

/-- Where what is put in was there, nothing is added. -/
theorem replaceAll_sublist (hr : Advances r)
    (hnew : ∀ before s new rest, r before s = some (new, rest) → (new ++ rest).Sublist s) (s : List Char) :
    (replaceAll r s).Sublist s := by
  refine replaceFrom_induction (P := fun _ s out => out.Sublist s) hr (fun _ => .slnil)
    (fun _ c _ _ _ ih => ih.cons_cons c) ?_ none s
  intro before last s new rest out hfound ih
  exact (ih.append_left new).trans (hnew _ _ _ _ hfound)

theorem isPrefix_dropEndWhile (p : Char → Bool) (s : List Char) : dropEndWhile p s <+: s :=
  List.rdropWhile_prefix p s

theorem isInfix_trim (s : List Char) : trim s <:+: s :=
  (isPrefix_dropEndWhile _ _).isInfix.trans (List.dropWhile_suffix _).isInfix

end Text

namespace Json
open Text

theorem of_openingFence (h : openingFence label before s = some (new, rest)) :
    (new = [] ∧ ∀ c ∈ before, c.isDigit = false) ∧ ∃ a, a ≠ [] ∧ s = a ++ rest := by
  unfold openingFence at h
  split at h
  · rename_i hstart
    obtain ⟨t, ht, heq⟩ := Option.bind_eq_some_iff.mp h
    cases heq
    obtain ⟨b, hb⟩ : trimStart t <:+ t := List.dropWhile_suffix _
    refine ⟨⟨rfl, fun c hc => ?_⟩, fence ++ label ++ b, by simp [fence], ?_⟩
    · subst hc
      obtain rfl : c = '\n' := by simpa [startsLine] using hstart
      rfl
    · rw [after?_eq_some_iff.mp ht, List.append_assoc _ b, hb]
  · cases h

theorem of_closingFence (h : closingFence before s = some (new, rest)) :
    (new = [] ∧ ∀ c ∈ rest.head?, c.isDigit = false) ∧ ∃ a, a ≠ [] ∧ s = a ++ rest := by
  obtain ⟨t, ht, h⟩ := Option.bind_eq_some_iff.mp h
  split at h
  · rename_i hends
    cases h
    obtain ⟨b, hb⟩ : trimStart s <:+ s := List.dropWhile_suffix _
    refine ⟨⟨rfl, fun c hc => ?_⟩, b ++ fence, by simp [fence], ?_⟩
    · obtain rfl : c = '\n' := by
        rw [endsLine, hc] at hends
        simpa using hends
      rfl
    · rw [List.append_assoc, ← after?_eq_some_iff.mp ht, hb]
  · cases h

theorem of_strayComma {closing : Char} (h : strayComma closing before s = some (new, rest)) :
    new = [closing] ∧ ∃ a, a ≠ [] ∧ s = a ++ rest := by
  obtain ⟨t, ht, h⟩ := Option.bind_eq_some_iff.mp h
  obtain ⟨u, hu, h⟩ := Option.bind_eq_some_iff.mp h
  cases h
  obtain ⟨b, hb⟩ : trimStart t <:+ t := List.dropWhile_suffix _
  refine ⟨rfl, [','] ++ b ++ [closing], by simp, ?_⟩
  rw [List.append_assoc, ← after?_eq_some_iff.mp hu, List.append_assoc, hb]
  exact after?_eq_some_iff.mp ht

theorem shortRuns_cleaned (h : ShortRuns limit 0 s) : ShortRuns limit 0 (cleaned s) := by
  have hfront (label : List Char) {s : List Char} (h : ShortRuns limit 0 s) :
      ShortRuns limit 0 (replaceAll (openingFence label) s) :=
    h.replaceAll_front (fun _ _ _ _ hfound => (of_openingFence hfound).2)
      fun _ _ _ _ hfound => (of_openingFence hfound).1
  have hend {s : List Char} (h : ShortRuns limit 0 s) : ShortRuns limit 0 (replaceAll closingFence s) :=
    h.replaceAll_behind (fun _ _ _ _ hfound => (of_closingFence hfound).2) fun _ _ _ _ hfound => by
      obtain ⟨⟨rfl, hrest⟩, -⟩ := of_closingFence hfound
      exact ⟨nofun, fun _ => hrest⟩
  have hcomma {closing : Char} (hc : closing.isDigit = false) {s : List Char} (h : ShortRuns limit 0 s) :
      ShortRuns limit 0 (replaceAll (strayComma closing) s) :=
    h.replaceAll_behind (fun _ _ _ _ hfound => (of_strayComma hfound).2) fun _ _ _ _ hfound => by
      obtain ⟨rfl, -⟩ := of_strayComma hfound
      exact ⟨List.forall_mem_singleton.mpr hc, nofun⟩
  exact hcomma rfl (hcomma rfl (hend (hfront _ (hfront _ (h.within (isInfix_trim s))))))

theorem strayComma_suffix {closing : Char} (h : strayComma closing before s = some (new, rest)) :
    new ++ rest <:+ s := by
  obtain ⟨t, ht, h⟩ := Option.bind_eq_some_iff.mp h
  obtain ⟨u, hu, h⟩ := Option.bind_eq_some_iff.mp h
  cases h
  rw [← after?_eq_some_iff.mp hu, after?_eq_some_iff.mp ht]
  exact (List.dropWhile_suffix _).trans (List.suffix_append _ t)

theorem cleaned_sublist (s : List Char) : (cleaned s).Sublist s := by
  have hfront (label s : List Char) : (replaceAll (openingFence label) s).Sublist s :=
    replaceAll_sublist (fun _ _ _ _ hfound => (of_openingFence hfound).2) (fun _ _ _ _ hfound => by
      obtain ⟨⟨rfl, -⟩, a, -, rfl⟩ := of_openingFence hfound
      exact List.sublist_append_right a _) s
  have hend (s : List Char) : (replaceAll closingFence s).Sublist s :=
    replaceAll_sublist (fun _ _ _ _ hfound => (of_closingFence hfound).2) (fun _ _ _ _ hfound => by
      obtain ⟨⟨rfl, -⟩, a, -, rfl⟩ := of_closingFence hfound
      exact List.sublist_append_right a _) s
  have hcomma (closing : Char) (s : List Char) : (replaceAll (strayComma closing) s).Sublist s :=
    replaceAll_sublist (fun _ _ _ _ hfound => (of_strayComma hfound).2)
      (fun _ _ _ _ hfound => (strayComma_suffix hfound).sublist) s
  exact (hcomma _ _).trans <| (hcomma _ _).trans <| (hend _).trans <| (hfront _ _).trans <|
    (hfront _ _).trans (isInfix_trim s).sublist

theorem modest_cleaned {room : Room} (h : Modest room s) : Modest room (cleaned s) :=
  ⟨shortRuns_cleaned h.short, h.shallow.mono (cleaned_sublist s).countP_le⟩

theorem isPrefix_of_balancedFrom {depth : Nat} {mode : ScanMode} (h : balancedFrom depth mode s = some t) :
    t <+: s := by
  have hstep {c : Char} {s t : List Char} {x : Option (List Char)} (h : x.map (c :: ·) = some t)
      (ih : ∀ {u}, x = some u → u <+: s) : t <+: c :: s := by
    obtain ⟨u, hu, rfl⟩ := Option.map_eq_some_iff.mp h
    exact List.cons_prefix_cons.mpr ⟨rfl, ih hu⟩
  fun_induction balancedFrom depth mode s generalizing t with
  | case1 => cases h
  | case6 =>
    cases h
    exact List.cons_prefix_cons.mpr ⟨rfl, List.nil_prefix⟩
  | case2 _ _ _ ih => exact hstep h ih
  | case3 =>
    rename_i ih
    exact hstep h ih
  | case4 _ _ ih => exact hstep h ih
  | case5 _ _ _ ih => exact hstep h ih
  | case7 _ _ _ _ _ ih => exact hstep h ih
  | case8 _ _ _ _ _ _ ih => exact hstep h ih

theorem infix_of_mem_candidates (h : t ∈ candidates s) : t <:+: s := by
  rw [candidates, List.mem_cons, List.mem_append, List.mem_append] at h
  rcases h with rfl | (h | h) | h
  · exact List.infix_rfl
  · rw [Option.mem_toList, widestBraces?] at h
    split at h <;> cases h
    exact (isPrefix_dropEndWhile _ _).isInfix.trans (List.dropWhile_suffix _).isInfix
  · obtain ⟨p, -, rfl⟩ := List.mem_map.mp h
    exact (isInfix_trim _).trans (List.drop_suffix _ s).isInfix
  · rw [Option.mem_toList, firstBalanced?] at h
    split at h
    · cases h
    · exact (isPrefix_of_balancedFrom h).isInfix.trans (List.dropWhile_suffix _).isInfix

variable {room : Room}

theorem exists_object?_eq_ok (h : Modest room s) : ∃ found, object? room s = .ok found := by
  unfold object?
  split
  · exact ⟨_, rfl⟩
  · exact ⟨_, rfl⟩
  · rename_i hread
    exact (ne_excess_of_readWithin h hread rfl).elim
  · exact ⟨_, rfl⟩

/-- In an answer with nothing too much the search for an object comes to its end. -/
theorem exists_recover?_eq_ok (h : Modest room s) : ∃ found, recover? room s = .ok found := by
  have hall : ∀ t ∈ candidates (cleaned s), ∃ found, object? room t = .ok found := fun t ht =>
    exists_object?_eq_ok ((modest_cleaned h).within (infix_of_mem_candidates ht))
  rw [recover?]
  generalize candidates (cleaned s) = texts at hall
  induction texts with
  | nil => exact ⟨none, rfl⟩
  | cons t texts ih =>
    obtain ⟨found, hfound⟩ := hall t List.mem_cons_self
    rw [firstObject?, hfound, Outcome.ok_bind]
    cases found with
    | none => exact ih fun u hu => hall u (List.mem_cons_of_mem _ hu)
    | some v => exact ⟨some v, rfl⟩

end Json

end Wireframe
