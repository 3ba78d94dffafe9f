import Wireframe.Proofs.History.Change
import Wireframe.Proofs.Plan.Stored

/-! What a database gives back of a version that it has taken. -/
namespace Wireframe
open Outcome

variable {v : Version} {r : Row} {t t' : Table} {d : Database} {s : Storage} {position : Nat}

/-- A plan that a stored text can hold. -/
def Plan.IsStorable (p : Plan) : Prop := ∃ data, p.toValue = .ok data ∧ data.IsStorable

/-- A version whose plan and explanation were read from data. -/
structure Version.Accepted (v : Version) : Prop where
  plan : ∃ data, data.isProper = true ∧ Plan.ofValue data = .ok v.plan
  explanation : ∀ e ∈ v.explanation, ∃ data, Explanation.ofValue data = .ok e

namespace Row

theorem exists_text_of_ofVersion (h : ofVersion position v = .ok r) :
    ∃ text, v.plan.toText = .ok text
      ∧ r = ⟨position, v.id, v.time, v.userIntent, text, v.code, v.explanation.map Explanation.toText,
        v.isModification, v.parentId⟩ := by
  obtain ⟨text, htext, h⟩ := bind_eq_ok h
  exact ⟨text, htext, (Except.ok.inj h).symm⟩

theorem mapM_ofText (h : ∀ e ∈ v.explanation, ∃ data, Explanation.ofValue data = .ok e) :
    ((v.explanation.map Explanation.toText).filter (· ≠ "")).mapM Explanation.ofText
      = .ok v.explanation := by
  cases he : v.explanation with
  | none => rfl
  | some e =>
    obtain ⟨data, hdata⟩ := h e he
    have hne := Explanation.toText_ne e
    simp [Option.filter, hne, Explanation.ofText_toText hdata]

/-- The row of a version gives the version back, unless its plan cannot be read. -/
theorem version_of_ofVersion (hv : v.Accepted) (h : ofVersion position v = .ok r) :
    (v.plan.IsStorable → r.version = .ok v)
      ∧ (¬ v.plan.IsStorable → ∃ issues, r.version = .error issues) := by
  obtain ⟨text, htext, rfl⟩ := exists_text_of_ofVersion h
  obtain ⟨data, hproper, hdata⟩ := hv.plan
  obtain ⟨stored, hstored, hread, hunread⟩ := Plan.ofText_toText hproper hdata htext
  constructor
  · rintro ⟨data', hdata', hfits⟩
    obtain rfl : stored = data' := Except.ok.inj (hstored.symm.trans hdata')
    rw [version, hread hfits, ok_bind, mapM_ofText hv.explanation]
    rfl
  · intro hlarge
    obtain ⟨issues, hissues⟩ := hunread fun hfits => hlarge ⟨stored, hstored, hfits⟩
    exact ⟨issues, by rw [version, hissues]; rfl⟩

end Row

theorem Table.find?_of_insert? (h : t.insert? r = some t') : t'.find? r.id = some r := by
  rw [insert?] at h
  split at h
  · cases h
  · rename_i hfree
    cases h
    rw [Option.not_isSome_iff_eq_none, find?] at hfree
    rw [find?, List.find?_append, hfree, Option.none_or]
    simp

namespace Storage

theorem exists_row_of_append (h : (database d).append v = .ok s) :
    ∃ row, Row.ofVersion d.table.nextPosition v = .ok row ∧ s.get? v.id = readRow (some row) := by
  obtain ⟨table, hready, h⟩ := bind_eq_ok h
  obtain rfl := Database.table_of_ready hready
  obtain ⟨row, hrow, h⟩ := bind_eq_ok h
  have hrow := mapError_eq_ok hrow
  obtain ⟨_, -, h⟩ := bind_eq_ok h
  split at h
  · rename_i table' hinsert
    cases h
    have hid : row.id = v.id := by
      obtain ⟨text, -, rfl⟩ := Row.exists_text_of_ofVersion hrow
      rfl
    have hopen : d.isOpen = true := by
      rw [Database.ready] at hready
      split at hready
      · assumption
      · cases hready
    refine ⟨row, hrow, ?_⟩
    rw [get?, Database.ready, if_pos hopen, ok_bind, bind_string, ok_bind, ← hid, Table.find?_of_insert? hinsert]
  · cases h

/-- A version of a plan with one button that has these props. -/
def propsVersion (props : Props) : Version :=
  ⟨⟨"a button", .ofTree "a button" (.node "Button" (some props) (some [])), "",
    some ⟨"One button.", [⟨"a button", "it was asked for"⟩], ["Button"]⟩, false, none⟩, "v1", Mint.ticking 0⟩

theorem accepted_propsVersion {props : Props} (h : props.Accepted) : (propsVersion props).Accepted where
  plan := by
    have htree : Tree.Accepted (.node "Button" (some props) (some [])) :=
      .node h (by simp [Tree.childList, Tree.children])
    have hdecodable : Tree.Decodable Tree.decodeLimit (.node "Button" (some props) (some [])) :=
      .node (by simp [Tree.type]) (fun ps hps => Option.some.inj hps ▸ h.fault)
        (by simp [Tree.childList, Tree.children])
    exact ⟨_, Plan.isProper_wrap "a button" htree, Plan.ofValue_wrap "a button" hdecodable⟩
  explanation := by
    intro e he
    cases he
    exact ⟨_, Explanation.ofValue_toValue (by simp)⟩

/-- An open database without rows and without a file. -/
def volatile : Database := (Database.atPath Database.volatilePath .empty).opened

/-- A value inside lists. -/
def nested (depth : Nat) (v : Value) : Value := Nat.repeat (fun v => .list [v]) depth v

end Storage

end Wireframe
