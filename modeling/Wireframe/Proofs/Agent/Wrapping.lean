import Mathlib
import Wireframe.Proofs.Agent.Answers
import Wireframe.Proofs.Json.Wrapping

/-! Answers that are wrapped. The plan in a fence or behind known prose is the plan of the bare text, except
that commas in front of closing brackets are lost from the texts in it. -/
namespace Wireframe
open Outcome

variable {capacity : Json.Capacity} {room : Json.Room} {s w : List Char} {es : List (Value × Value)} {p : Plan}
variable {found : Option Value}

/-- The object in an answer decides which plan it is decoded into. -/
theorem PlanOutcome.decode_eq_ok_iff {raw raw' : Value} (h : Answer.object? capacity raw = .ok found)
    (h' : Answer.object? capacity raw' = .ok found) :
    decode capacity raw = .ok (.ok p) ↔ decode capacity raw' = .ok (.ok p) := by
  rw [decode, decode, h, h', ok_bind, ok_bind]
  cases found with
  | none =>
    constructor <;> rintro ⟨⟩
  | some v =>
    dsimp only
    split
    · exact Iff.rfl
    · constructor <;> rintro ⟨⟩
    · split
      · exact Iff.rfl
      · constructor <;> rintro ⟨⟩

namespace Json

/-- An answer that is wrapped is no JSON. -/
theorem Wraps.eq_or_readWithin (h : Wraps s w) :
    w = s ∨ ∃ rest, readWithin room w = .error ⟨.expectingValue, rest⟩ := by
  cases h with
  | bare => exact .inl rfl
  | fenced _ => exact .inr ⟨_, readWithin_of_letter (by decide) _⟩
  | prose hintro _ =>
    obtain ⟨⟨c, cs, hc, hletter⟩, -⟩ := of_mem_prosePrefixes hintro
    rw [hc]
    exact .inr ⟨_, readWithin_of_letter hletter _⟩

end Json

theorem Answer.object?_of_readWithin (h : Json.readWithin capacity.answer s = .ok (.dict es)) :
    object? capacity (.text (String.ofList s)) = .ok (some (.dict es)) := by
  rw [object?, String.toList_ofList, h]

theorem Answer.object?_of_wraps (h : Json.readWithin capacity.answer s = .ok (.dict es)) (hw : Json.Wraps s w)
    (hrecover : Json.recover? capacity.repaired w = .ok (some (.dict es))) :
    object? capacity (.text (String.ofList w)) = .ok (some (.dict es)) := by
  rcases hw.eq_or_readWithin with rfl | ⟨rest, hread⟩
  · exact object?_of_readWithin h
  · rw [object?, String.toList_ofList, hread]
    exact hrecover

/-- The object in an answer that there is room for is that of its text without the commas in front of closing
brackets, and where no text between quotes holds such a comma, it is the object of the text itself and the
answer is decoded into the same plan. -/
theorem PlanOutcome.decode_of_wraps (h : Json.readWithin capacity.answer s = .ok (.dict es))
    (hrepaired : Json.readWithin capacity.repaired s = .ok (.dict es)) (hw : Json.Wraps s w) :
    (∃ es', Json.readWithin capacity.repaired (Json.withoutStray s) = .ok (.dict es')
        ∧ Json.recover? capacity.repaired w = .ok (some (.dict es')))
      ∧ ((∀ q ∈ Json.quotedTexts s, ¬ Json.HasStray q) →
        Json.recover? capacity.repaired w = .ok (some (.dict es))
          ∧ ∀ p, decode capacity (.text (String.ofList w)) = .ok (.ok p)
            ↔ decode capacity (.text (String.ofList s)) = .ok (.ok p)) := by
  obtain ⟨es', hread, hrecover⟩ := Json.exists_recover?_of_wraps hrepaired hw
  refine ⟨⟨es', hread, hrecover⟩, fun hquoted => ?_⟩
  rw [Json.withoutStray_eq h hquoted, hrepaired] at hread
  cases hread
  exact ⟨hrecover, fun p =>
    decode_eq_ok_iff (Answer.object?_of_wraps h hw hrecover) (Answer.object?_of_readWithin h)⟩

/-- The text of a plan with one button. -/
def PlanOutcome.buttonText : List Char :=
  "\x7b\"intent\": \"Save\", \"layoutTree\": \x7b\"type\": \"Button\"\x7d\x7d".toList

/-- A plan in a fence. -/
theorem PlanOutcome.decode_of_fence :
    Json.read buttonText
        = .ok (.dict [(.text "intent", .text "Save"), (.text "layoutTree", .dict [(.text "type", .text "Button")])])
      ∧ (∀ q ∈ Json.quotedTexts buttonText, ¬ Json.HasStray q)
      ∧ Json.recover? .unbounded (Json.fence ++ ("json".toList ++ '\n' :: (buttonText ++ '\n' :: Json.fence)))
        = .ok (some (.dict [(.text "intent", .text "Save"),
            (.text "layoutTree", .dict [(.text "type", .text "Button")])]))
      ∧ decode .unbounded (.text (String.ofList
          (Json.fence ++ ("json".toList ++ '\n' :: (buttonText ++ '\n' :: Json.fence)))))
        = .ok (.ok (.ofTree "Save" (.node "Button" none none))) := by
  have hread : Json.read buttonText
      = .ok (.dict [(.text "intent", .text "Save"),
          (.text "layoutTree", .dict [(.text "type", .text "Button")])]) := by
    cbv
  have hquoted : ∀ q ∈ Json.quotedTexts buttonText, ¬ Json.HasStray q := by
    have htexts : Json.quotedTexts buttonText
        = ["intent".toList, "Save".toList, "layoutTree".toList, "type".toList, "Button".toList] := by cbv
    have hfree : ∀ q ∈ ["intent".toList, "Save".toList, "layoutTree".toList, "type".toList, "Button".toList],
        ',' ∉ q := by decide
    rw [htexts]
    exact fun q hq => Json.not_hasStray_of_not_mem (hfree q hq)
  obtain ⟨-, hclean⟩ := @decode_of_wraps .unbounded _ _ _ hread hread (.fenced (.inl rfl))
  obtain ⟨hrecover, hdecode⟩ := hclean hquoted
  refine ⟨hread, hquoted, hrecover, (hdecode _).mpr ?_⟩
  cbv

/-- A comma in a text is lost when a closing bracket is behind it. -/
theorem Json.not_recover?_of_comma :
    ¬ ∀ s es, read s = .ok (.dict es) → recover? .unbounded s = .ok (some (.dict es)) := by
  intro h
  have hread : read "\x7b\"a\": \"x,\x7d\"\x7d".toList = .ok (.dict [(.text "a", .text "x,\x7d")]) := by cbv
  have hrecover : recover? .unbounded "\x7b\"a\": \"x,\x7d\"\x7d".toList
      = .ok (some (.dict [(.text "a", .text "x\x7d")])) := by cbv
  have heq := hrecover.symm.trans (h _ _ hread)
  simp at heq

end Wireframe
