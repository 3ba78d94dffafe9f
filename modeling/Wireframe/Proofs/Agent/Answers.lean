import Wireframe.Agent.Outcome
import Wireframe.Proofs.Json.Brackets
import Wireframe.Proofs.Json.Reading
import Wireframe.Proofs.Layout.Encoding
import Wireframe.Proofs.Layout.Height

/-! What untrusted answers are decoded into: an outcome, unless there is too much in them, and no plan that
is too high to be handed out or has a node that was not accepted. -/
namespace Wireframe
open Outcome

variable {raw : String} {data : Value} {p : Plan} {t : Tree} {n : Nat} {ds : List Char}
variable {capacity : Json.Capacity}

/-- An answer with nothing too much is decoded into an outcome. -/
theorem PlanOutcome.exists_decode (h : Json.Modest capacity.answer raw.toList)
    (hrepaired : Json.Modest capacity.repaired raw.toList) :
    ∃ outcome, decode capacity (.text raw) = .ok outcome := by
  have hobject : ∃ found, Answer.object? capacity (.text raw) = .ok found := by
    simp only [Answer.object?]
    split
    · exact ⟨_, rfl⟩
    · exact ⟨_, rfl⟩
    · rename_i hread
      exact (Json.ne_excess_of_readWithin h hread rfl).elim
    · exact Json.exists_recover?_eq_ok hrepaired
  obtain ⟨found, hfound⟩ := hobject
  rw [decode, hfound, ok_bind]
  cases found with
  | none => exact ⟨_, rfl⟩
  | some v =>
    dsimp only
    split
    · exact ⟨_, rfl⟩
    · exact ⟨_, rfl⟩
    · split <;> exact ⟨_, rfl⟩

theorem Tree.Decodable.height_le (h : t.Decodable n) : t.height ≤ n := by
  induction h with
  | node _ _ _ ih => exact height_le_succ_iff.mpr ih

/-- A plan in an answer was decoded from the object in it, or from the plan in an envelope. -/
theorem PlanOutcome.of_decode (h : decode capacity data = .ok (.ok p)) :
    ∃ found v, Answer.object? capacity data = .ok (some found) ∧ Plan.ofValue v = .ok p
      ∧ (v = found ∨ found.get? "plan" = some v) := by
  obtain ⟨found, hfound, h⟩ := bind_eq_ok h
  split at h
  · cases h
  · rename_i found
    split at h
    · cases h
    · cases h
    · rename_i v hopened
      split at h
      · rename_i hplan
        cases h
        refine ⟨found, v, hfound, hplan, ?_⟩
        unfold Answer.opened at hopened
        split at hopened
        · cases hopened
          exact .inl rfl
        · split at hopened
          · cases hopened
            exact .inr ‹_›
          · cases hopened
        · split at hopened <;> cases hopened
      · cases h

/-- A plan in an answer is that of a tree which is low enough to be handed out. -/
theorem PlanOutcome.exists_tree_of_decode (h : decode capacity data = .ok (.ok p)) :
    ∃ intent t, p = .ofTree intent t ∧ t.height ≤ Layout.nestingLimit := by
  obtain ⟨_, _, -, hplan, -⟩ := of_decode h
  obtain ⟨_, _, w, place, intent, t, -, -, htree, rfl⟩ := Plan.exists_decode_of_ofValue hplan
  exact ⟨intent, t, rfl, (Tree.decodable_of_decode htree).height_le⟩

theorem Answer.isProper_of_object? {raw : Value} (hraw : raw.isProper = true)
    (h : object? capacity raw = .ok (some data)) : data.isProper = true := by
  unfold object? at h
  split at h
  · cases h
    exact hraw
  · split at h
    · rename_i hread
      cases h
      exact Json.isProper_of_readWithin hread
    · cases h
    · cases h
    · exact Json.isProper_of_recover? h
  · cases h

/-- A plan in an answer is that of a tree whose nodes were all accepted. -/
theorem PlanOutcome.exists_accepted_of_decode {raw : Value} (hraw : raw.isProper = true)
    (h : decode capacity raw = .ok (.ok p)) :
    ∃ intent t, p = .ofTree intent t ∧ t.Decodable Tree.decodeLimit ∧ t.Accepted := by
  obtain ⟨found, v, hfound, hplan, hv⟩ := of_decode h
  have hfound := Answer.isProper_of_object? hraw hfound
  have hproper : v.isProper = true := by
    rcases hv with rfl | hv
    · exact hfound
    · exact Value.inherited_isProper.get? hfound hv
  exact Plan.exists_tree_of_ofValue hproper hplan

/-- The nodes of a plan in a text were all accepted. -/
theorem PlanOutcome.accepted_of_decode (h : decode capacity (.text raw) = .ok (.ok p)) : p.layout.Accepted := by
  obtain ⟨intent, t, rfl, -, ht⟩ := exists_accepted_of_decode rfl h
  exact Layout.accepted_ofTree ht

theorem Answer.depth_of_object? (h : object? capacity (.text raw) = .ok (some data)) :
    data.depth ≤ Json.openers raw.toList := by
  simp only [object?] at h
  split at h
  · rename_i hread
    cases h
    exact Json.depth_of_readWithin hread
  · cases h
  · cases h
  · exact Json.depth_of_recover? h

/-- Where there is room for all opening brackets of a text, there is for the props of the plan in it. -/
theorem PlanOutcome.fits_of_decode {room : Json.Room} (hroom : room.Takes (Json.openers raw.toList))
    (h : decode capacity (.text raw) = .ok (.ok p)) : p.layout.Fits ⟨none, room⟩ := by
  obtain ⟨found, v, hfound, hplan, hv⟩ := of_decode h
  obtain ⟨entries, names, w, place, intent, t, rfl, hw, htree, rfl⟩ := Plan.exists_decode_of_ofValue hplan
  have hinherited := Value.inherited_depth (Json.openers raw.toList)
  have hfound := Answer.depth_of_object? hfound
  have hdepth : (Value.dict entries).depth ≤ Json.openers raw.toList := by
    rcases hv with rfl | hv
    · exact hfound
    · exact hinherited.get? hfound hv
  refine Layout.fits_ofTree (Tree.fits_of_decode hinherited (fun x hx => ⟨nofun, ?_⟩)
    (hinherited.field hdepth hw) htree)
  rw [Nat.zero_add]
  exact hroom.mono hx

/-- What a plan is written as is decoded into the plan. -/
theorem PlanOutcome.decode_compact {style : Json.Style} (intent : String)
    (hm : style.number.markWhole = true) (ha : t.Accepted) (hd : t.Decodable Tree.decodeLimit)
    (hdigits : (Plan.wrap intent t.toValue).mostDigits ≤ Json.digitLimit) :
    decode .unbounded (.text (String.ofList (Json.compact style (Plan.wrap intent t.toValue))))
      = .ok (.ok (.ofTree intent t)) := by
  have hread := Json.read_compact hm (Plan.closed_wrap intent ha) (Plan.isProper_wrap intent ha)
  rw [if_pos hdigits] at hread
  have hobject : Answer.object? .unbounded
      (.text (String.ofList (Json.compact style (Plan.wrap intent t.toValue))))
      = .ok (some (Plan.wrap intent t.toValue)) := by
    simp only [Answer.object?, String.toList_ofList, Json.Capacity.unbounded]
    rw [show Json.readWithin .unbounded _ = _ from eq_ok_of_toOption hread]
    rfl
  have hsuccess : (Plan.wrap intent t.toValue).get? "success" = none := rfl
  rw [decode, hobject, ok_bind]
  simp only [Answer.opened, hsuccess, Plan.ofValue_wrap intent hd]
  rfl

namespace Json

theorem readNumber_digits (hw : Whole ds) (hlong : digitLimit < ds.length) :
    readNumber ds = .error ⟨.excess (.digits ds.length), ds⟩ := by
  have hend : Ends [] := by simp [Ends]
  have hread : readNumber (signed false (ds ++ [])) = _ := readNumber_signed hw hend.not_isDigit
  rw [fraction_none (by simp), exponent?_none hend, List.append_nil] at hread
  exact hread.trans (if_pos hlong)

/-- Digits alone are a number that is too long if there are too many. -/
theorem readWithin_digits {room : Room} (hw : Whole ds) (hlong : digitLimit < ds.length) :
    readWithin room ds = .error ⟨.excess (.digits ds.length), ds⟩ := by
  have hread := readNumber_digits hw hlong
  obtain ⟨c, cs, rfl, hblank, -, -, hmark⟩ : Starts ds := starts_of_isNumberChar hw.nonempty
    fun c hc => by simp [isNumberChar, hw.digit c hc]
  have hvalue : readValue (2 * (c :: cs).length + 1 + 1) room (signed false (c :: cs)) = _ :=
    readValue_signed (hw.digit c List.mem_cons_self)
  rw [readWithin, if_neg (by simpa using hmark), skipBlanks_cons hblank]
  exact congrArg (· >>= _) (hvalue.trans hread)

end Json

end Wireframe
