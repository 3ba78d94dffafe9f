import Wireframe.Proofs.Json.Grammar
import Wireframe.Proofs.Json.Proper
import Wireframe.Proofs.Json.Recovery
import Wireframe.Proofs.Layout.Size

/-! What is read from a text, or recovered from an answer, has no more containers inside each other than
there are opening brackets. -/
namespace Wireframe
open Outcome

variable {n : Nat} {v : Value} {xs : List Value} {es : List (Value × Value)} {s t rest : List Char}

namespace Value

/-- Entries that are put in one after the other are no deeper than all of them. -/
theorem depth_ofEntries_le (es : List (Value × Value)) : (ofEntries es).depth ≤ (dict es).depth := by
  have hfold (n : Nat) : ∀ es done : List (Value × Value), depthIn done ≤ n → depthIn es ≤ n →
      depthIn (es.foldl (fun es e => put e.1 e.2 es) done) ≤ n := by
    intro es
    induction es with
    | nil => exact fun done hdone _ => hdone
    | cons e es ih =>
      intro done hdone hes
      rw [depthIn_le_iff] at hdone hes
      obtain ⟨he, hes⟩ := List.forall_mem_cons.mp hes
      refine ih _ (depthIn_le_iff.mpr fun f hf => ?_) (depthIn_le_iff.mpr hes)
      rcases (of_mem_put hf).2 with hvalue | hvalue
      · rwa [hvalue]
      · obtain ⟨g, hg, hgf⟩ := List.mem_map.mp hvalue
        exact hgf ▸ hdone g hg
  exact Nat.succ_le_succ (hfold (depthIn es) es [] (Nat.zero_le _) (Nat.le_refl _))

theorem inherited_depth (n : Nat) : Inherited fun v => v.depth ≤ n where
  items {v xs} hv h := by
    cases v with
    | list _ | tuple _ | set _ =>
      cases h
      exact depthOf_le_iff.mp (Nat.le_of_succ_le (by simpa only [depth] using hv))
    | _ => cases h
  entries {es} hv := depthIn_le_iff.mp (Nat.le_of_succ_le (by simpa only [depth] using hv))

end Value

namespace Json

variable {room : Room} {p : Part}

theorem openers_opener {c : Char} (hc : c = '[' ∨ c = '\x7b') (s : List Char) :
    openers (c :: s) = openers s + 1 := List.countP_cons_of_pos (decide_eq_true hc)

theorem openers_other {c : Char} (hc : ¬ (c = '[' ∨ c = '\x7b')) (s : List Char) :
    openers (c :: s) = openers s := List.countP_cons_of_neg (by simpa using hc)

theorem openers_append (s t : List Char) : openers (s ++ t) = openers s + openers t := List.countP_append

/-- How many containers stand around a part. -/
def Part.around : Part → Nat
  | value => 0
  | items | entries => 1

theorem Spells.openers_le (h : Spells room p s v rest) : openers rest ≤ openers s := by
  obtain ⟨front, rfl, -, -⟩ := h.exists_front
  rw [openers_append]
  exact Nat.le_add_left _ _

/-- Each container in a value has an opening bracket of its own. -/
theorem Spells.depth_le (h : Spells room p s v rest) :
    v.depth + openers rest ≤ openers s + p.around := by
  induction h with
  | word hw =>
    rw [openers_append]
    cases hw.isPlain <;> (simp only [Value.depth, Part.around]; omega)
  | text _ =>
    simp (disch := decide) only [openers_append, openers_other, Value.depth, Part.around]
    omega
  | emptyList _ _ | emptyDict _ _ =>
    simp (disch := decide) only [openers_append, openers_opener, openers_other, Value.depth, Value.depthOf,
      Value.depthIn, Part.around]
    omega
  | list _ _ _ ih =>
    simp (disch := decide) only [openers_append, openers_opener, Part.around] at ih ⊢
    omega
  | @dict _ _ b s rest es _ _ _ ih =>
    have hes := Value.depth_ofEntries_le es
    simp (disch := decide) only [openers_append, openers_opener, Part.around] at ih ⊢
    omega
  | lastItem _ _ ih =>
    simp (disch := decide) only [openers_append, openers_other, Value.depth, Value.depthOf, Part.around] at ih ⊢
    omega
  | @item _ b c s t rest x xs _ _ _ hxs ih ihs =>
    have hrest := hxs.openers_le
    simp (disch := decide) only [openers_append, openers_other, Value.depth, Value.depthOf, Part.around]
      at ih ihs ⊢
    omega
  | lastEntry _ _ _ _ _ ih =>
    simp (disch := decide) only [openers_append, openers_other, Value.depth, Value.depthIn, Part.around] at ih ⊢
    omega
  | @entry _ raw key b c d e s t rest x es _ _ _ _ _ _ hes ih ihs =>
    have hrest := hes.openers_le
    simp (disch := decide) only [openers_append, openers_other, Value.depth, Value.depthIn, Part.around]
      at ih ihs ⊢
    omega

theorem depth_of_readWithin (h : readWithin room s = .ok v) : v.depth ≤ openers s := by
  unfold readWithin at h
  split at h
  · cases h
  · obtain ⟨⟨w, rest⟩, hvalue, h⟩ := bind_eq_ok h
    have hdepth := ((spells_of_fuel _).1 hvalue).depth_le
    have hblanks : openers (skipBlanks s) ≤ openers s := (skipBlanks_suffix s).sublist.countP_le
    dsimp only at h
    split at h <;> cases h
    simp only [Part.around] at hdepth
    omega

theorem depth_of_recover? (h : recover? room s = .ok (some v)) : v.depth ≤ openers s := by
  obtain ⟨t, ht, hread⟩ := exists_readWithin_of_recover? h
  have hcandidate : openers t ≤ openers (cleaned s) := (infix_of_mem_candidates ht).sublist.countP_le
  have hcleaned : openers (cleaned s) ≤ openers s := (cleaned_sublist s).countP_le
  have hdepth := depth_of_readWithin hread
  omega

/-! Opening brackets alone are too much where there is no room for so many lists. -/

theorem readValue_brackets {fuel count : Nat} (h : ¬ room.Takes count) (hfuel : 2 * count ≤ fuel) :
    ∃ rest, readValue fuel room (List.replicate count '[') = .error ⟨.excess .lists, rest⟩ := by
  induction count generalizing fuel room with
  | zero => exact absurd room.takes_zero h
  | succ count ih =>
    obtain ⟨fuel, rfl⟩ : ∃ n, fuel = n + 2 := ⟨fuel - 2, by omega⟩
    rw [List.replicate_succ, readValue]
    dsimp only
    cases hinner : room.inner? with
    | none =>
      rw [enter, hinner]
      exact ⟨_, rfl⟩
    | some inner =>
      rw [enter_eq_ok.mpr hinner, ok_bind]
      have hdeeper : ¬ inner.Takes count := by rwa [Room.takes_inner_iff hinner]
      obtain ⟨count, rfl⟩ : ∃ n, count = n + 1 := by
        cases count with
        | zero => exact absurd inner.takes_zero hdeeper
        | succ n => exact ⟨n, rfl⟩
      have hfuel : 2 * (count + 1) ≤ fuel := by omega
      obtain ⟨rest, hread⟩ := ih hdeeper hfuel
      refine ⟨rest, ?_⟩
      rw [List.replicate_succ] at hread ⊢
      rw [skipBlanks_cons (by decide)]
      show (readItems (fuel + 1) inner ('[' :: List.replicate count '[') >>= _) = _
      rw [readItems, hread]
      rfl

theorem readWithin_brackets {count : Nat} (h : ¬ room.Takes count) :
    ∃ rest, readWithin room (List.replicate count '[') = .error ⟨.excess .lists, rest⟩ := by
  obtain ⟨n, rfl⟩ : ∃ n, count = n + 1 := by
    cases count with
    | zero => exact absurd room.takes_zero h
    | succ n => exact ⟨n, rfl⟩
  have hfuel : 2 * (n + 1) ≤ 2 * (List.replicate (n + 1) '[').length + 2 := by
    rw [List.length_replicate]
    omega
  obtain ⟨rest, hread⟩ := readValue_brackets h hfuel
  refine ⟨rest, ?_⟩
  have hblanks : skipBlanks (List.replicate (n + 1) '[') = List.replicate (n + 1) '[' :=
    skipBlanks_cons (by decide) _
  rw [readWithin, if_neg (by simp [List.replicate_succ]), hblanks, hread]
  rfl

end Json

end Wireframe
