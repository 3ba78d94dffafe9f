import Wireframe.Json.Recovery
import Wireframe.Proofs.Json.Words
import Wireframe.Proofs.Outcome
import Wireframe.Proofs.Value.Alike

/-! What is read from a text has no dictionary with a key twice, be the text the data itself or an answer
that the data had to be recovered from. -/
namespace Wireframe
open Outcome

variable {key v : Value} {e : Value × Value} {xs : List (Value × Value)} {s rest : List Char}

namespace Value

/-- An entry that is there after another was put in has its key and its value from one of the two. -/
theorem of_mem_put (h : e ∈ put key v xs) :
    (e.1 = key ∨ e.1 ∈ xs.map (·.1)) ∧ (e.2 = v ∨ e.2 ∈ xs.map (·.2)) := by
  induction xs with
  | nil =>
    cases List.mem_singleton.mp h
    exact ⟨.inl rfl, .inl rfl⟩
  | cons first xs ih =>
    obtain ⟨k, w⟩ := first
    rw [put] at h
    split at h
    · rcases List.mem_cons.mp h with rfl | h
      · exact ⟨.inr List.mem_cons_self, .inl rfl⟩
      · exact ⟨.inr (List.mem_cons_of_mem _ (List.mem_map_of_mem h)),
          .inr (List.mem_cons_of_mem _ (List.mem_map_of_mem h))⟩
    · rcases List.mem_cons.mp h with rfl | h
      · exact ⟨.inr List.mem_cons_self, .inr List.mem_cons_self⟩
      · exact ⟨(ih h).1.imp_right (List.mem_cons_of_mem _), (ih h).2.imp_right (List.mem_cons_of_mem _)⟩

/-- A key is put at the end only if no key before it is the same. -/
theorem keysDiffer_put (h : keysDiffer xs = true) : keysDiffer (put key v xs) = true := by
  induction xs with
  | nil => rfl
  | cons first xs ih =>
    obtain ⟨k, w⟩ := first
    rw [keysDiffer, Bool.and_eq_true, Bool.not_eq_true', List.any_eq_false] at h
    rw [put]
    split
    · rw [keysDiffer, Bool.and_eq_true, Bool.not_eq_true', List.any_eq_false]
      exact h
    · rename_i hsame
      rw [keysDiffer, Bool.and_eq_true, Bool.not_eq_true', List.any_eq_false]
      refine ⟨fun e he => ?_, ih h.2⟩
      rcases (of_mem_put he).1 with hkey | hkey
      · rwa [hkey]
      · obtain ⟨f, hf, hfe⟩ := List.mem_map.mp hkey
        exact hfe ▸ h.1 f hf

theorem isProper_put (hxs : (dict xs).isProper = true) (hv : v.isProper = true) :
    (dict (put key v xs)).isProper = true := by
  rw [isProper, Bool.and_eq_true, areProperEntries_iff] at hxs ⊢
  refine ⟨keysDiffer_put hxs.1, fun e he => ?_⟩
  rcases (of_mem_put he).2 with hvalue | hvalue
  · rwa [hvalue]
  · obtain ⟨f, hf, hfe⟩ := List.mem_map.mp hvalue
    exact hfe ▸ hxs.2 f hf

theorem isProper_ofEntries (h : areProperEntries xs = true) : (ofEntries xs).isProper = true := by
  have hfold : ∀ done, (dict done).isProper = true →
      (dict (xs.foldl (fun es e => put e.1 e.2 es) done)).isProper = true := by
    induction xs with
    | nil => exact fun done hdone => hdone
    | cons e xs ih =>
      rw [areProperEntries_iff, List.forall_mem_cons] at h
      exact fun done hdone => ih (areProperEntries_iff.mpr h.2) _ (isProper_put hdone h.1)
  exact hfold [] rfl

end Value

namespace Json
open Value

variable {room : Room}

theorem IsPlain.isProper (h : IsPlain v) : v.isProper = true := by
  cases h <;> rfl

mutual

theorem isProper_of_readValue : ∀ {fuel : Nat} {room : Room} {s rest : List Char} {v : Value},
    readValue fuel room s = .ok (v, rest) → v.isProper = true
  | 0, _, _, _, _, h => by cases h
  | fuel + 1, room, s, rest, v, h => by
    unfold readValue at h
    split at h
    · obtain ⟨_, -, h⟩ := bind_eq_ok h
      cases h
      rfl
    · obtain ⟨inner, -, h⟩ := bind_eq_ok h
      dsimp only at h
      split at h
      · cases h
        rfl
      · obtain ⟨_, hitems, h⟩ := bind_eq_ok h
        cases h
        simpa only [isProper] using areProper_of_readItems hitems
    · obtain ⟨inner, -, h⟩ := bind_eq_ok h
      dsimp only at h
      split at h
      · cases h
        rfl
      · obtain ⟨_, hentries, h⟩ := bind_eq_ok h
        cases h
        exact isProper_ofEntries (areProperEntries_of_readEntries hentries)
    · exact (isPlain_of_readPlain h).isProper

theorem areProper_of_readItems : ∀ {fuel : Nat} {room : Room} {s rest : List Char} {items : List Value},
    readItems fuel room s = .ok (items, rest) → areProper items = true
  | 0, _, _, _, _, h => by cases h
  | fuel + 1, room, s, rest, items, h => by
    unfold readItems at h
    obtain ⟨⟨item, rest⟩, hitem, h⟩ := bind_eq_ok h
    have hitem := isProper_of_readValue hitem
    dsimp only at h
    split at h
    · cases h
      simpa [areProper] using hitem
    · obtain ⟨_, hitems, h⟩ := bind_eq_ok h
      cases h
      simpa [areProper, hitem] using areProper_of_readItems hitems
    · cases h

theorem areProperEntries_of_readEntries : ∀ {fuel : Nat} {room : Room} {s rest : List Char}
    {entries : List (Value × Value)}, readEntries fuel room s = .ok (entries, rest) →
      areProperEntries entries = true
  | 0, _, _, _, _, h => by cases h
  | fuel + 1, room, s, rest, entries, h => by
    unfold readEntries at h
    split at h
    · obtain ⟨⟨key, rest⟩, -, h⟩ := bind_eq_ok h
      dsimp only at h
      split at h
      · obtain ⟨⟨value, rest⟩, hvalue, h⟩ := bind_eq_ok h
        have hvalue := isProper_of_readValue hvalue
        dsimp only at h
        split at h
        · cases h
          simpa [areProperEntries] using hvalue
        · obtain ⟨_, hentries, h⟩ := bind_eq_ok h
          cases h
          simpa [areProperEntries, hvalue] using areProperEntries_of_readEntries hentries
        · cases h
      · cases h
    · cases h

end

theorem isProper_of_readWithin (h : readWithin room s = .ok v) : v.isProper = true := by
  unfold readWithin at h
  split at h
  · cases h
  · obtain ⟨⟨w, rest⟩, hvalue, h⟩ := bind_eq_ok h
    dsimp only at h
    split at h <;> cases h
    exact isProper_of_readValue hvalue

/-- What is recovered is read from one of the candidates. -/
theorem exists_readWithin_of_recover? (h : recover? room s = .ok (some v)) :
    ∃ t ∈ candidates (cleaned s), readWithin room t = .ok v := by
  rw [recover?] at h
  generalize candidates (cleaned s) = texts at h
  induction texts with
  | nil => cases h
  | cons t texts ih =>
    obtain ⟨found, hfound, h⟩ := bind_eq_ok h
    cases found with
    | none =>
      obtain ⟨u, hu, hread⟩ := ih h
      exact ⟨u, List.mem_cons_of_mem t hu, hread⟩
    | some w =>
      cases h
      refine ⟨t, List.mem_cons_self, ?_⟩
      unfold object? at hfound
      split at hfound <;> cases hfound
      assumption

theorem isProper_of_recover? (h : recover? room s = .ok (some v)) : v.isProper = true := by
  obtain ⟨t, -, hread⟩ := exists_readWithin_of_recover? h
  exact isProper_of_readWithin hread

end Json

end Wireframe
