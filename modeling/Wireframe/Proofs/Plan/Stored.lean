import Wireframe.Plan.Stored
import Wireframe.Proofs.Json.Depth
import Wireframe.Proofs.Layout.Encoding
import Wireframe.Proofs.Repeats

/-! Plans and explanations on record, and what is read back from there. -/
namespace Wireframe
open Outcome

variable {v x : Value} {t : Tree} {p : Plan} {e : Explanation} {s intent : String}

theorem toOption_storedValue (style : Json.Style) (hm : style.number.markWhole = true) (h : v.Closed)
    (hp : v.isProper = true) :
    (storedValue (String.ofList (Json.compact style v))).toOption
      = if v.IsStorable then some v else none := by
  rw [← Json.readStored_compact hm h hp, storedValue, String.toList_ofList]
  cases Json.readStored (Json.compact style v) <;> rfl

namespace Plan

/-- A plan on record is the data of its tree on one line. -/
theorem of_toText (ha : t.Accepted) (h : (ofTree intent t).toText = .ok s) :
    (ofTree intent t).toValue = .ok (wrap intent t.toValue)
      ∧ s = String.ofList (Json.compact .stored (wrap intent t.toValue)) := by
  obtain ⟨layout, hlayout, h⟩ := bind_eq_ok h
  obtain ⟨text, htext, h⟩ := bind_eq_ok h
  cases h
  have hunfold := mapError_eq_ok hlayout
  obtain ⟨levels, ht⟩ := Layout.unfolds_ofTree t
  obtain rfl : layout = t.toValue := Layout.eq_toValue_of_unfold hunfold ht
  constructor
  · rw [toValue, Layout.unfold_of_withProps hunfold]
    rfl
  · have hwrite := Json.write_eq_compact Json.Style.isCompact_stored (closed_wrap intent ha) 0
    have hsame := mapError_eq_ok htext
    rw [show (ofTree intent t).intent = intent from rfl, hwrite] at hsame
    exact congrArg String.ofList (Except.ok.inj hsame).symm

/-- A plan is read back from its text just when a stored text can hold its data. -/
theorem ofText_toText {data : Value} (hv : data.isProper = true) (hp : ofValue data = .ok p)
    (h : p.toText = .ok s) :
    ∃ stored, p.toValue = .ok stored ∧ (stored.IsStorable → ofText s = .ok p)
      ∧ (¬ stored.IsStorable → ∃ issues, ofText s = .error issues) := by
  obtain ⟨intent, t, rfl, hd, ha⟩ := exists_tree_of_ofValue hv hp
  obtain ⟨hvalue, rfl⟩ := of_toText ha h
  have hread := toOption_storedValue .stored rfl (closed_wrap intent ha)
    (isProper_wrap intent ha)
  refine ⟨_, hvalue, ?_, ?_⟩
  · intro hs
    rw [if_pos hs] at hread
    rw [ofText, eq_ok_of_toOption hread, ok_bind, ofValue_wrap intent hd]
  · intro hs
    rw [if_neg hs] at hread
    obtain ⟨issues, hissues⟩ := exists_error_of_toOption hread
    exact ⟨issues, by rw [ofText, hissues]; rfl⟩

end Plan

namespace Explanation

theorem nodup_of_ofValue (h : ofValue v = .ok e) : e.componentsUsed.Nodup := by
  unfold ofValue Decoded.record at h
  split at h
  · obtain ⟨⟨summary, decisions, names⟩, _, rfl⟩ := map_eq_ok h
    exact nodup_eraseDups names
  · cases h

theorem closed_toValue (e : Explanation) : e.toValue.Closed := by
  refine Value.closed_object fun f hf => ?_
  simp only [List.mem_cons, List.not_mem_nil, or_false] at hf
  rcases hf with rfl | rfl | rfl
  · exact .text _
  · refine .list fun x hx => ?_
    obtain ⟨d, _, rfl⟩ := List.mem_map.mp hx
    refine Value.closed_object fun f hf => ?_
    simp only [List.mem_cons, List.not_mem_nil, or_false] at hf
    rcases hf with rfl | rfl <;> exact .text _
  · refine .list fun x hx => ?_
    obtain ⟨name, _, rfl⟩ := List.mem_map.mp hx
    exact .text name

theorem isProper_toValue (e : Explanation) : e.toValue.isProper = true := by
  refine Value.isProper_object (by simp) fun f hf => ?_
  simp only [List.mem_cons, List.not_mem_nil, or_false] at hf
  rcases hf with rfl | rfl | rfl
  · rfl
  · refine Value.areProper_iff.mpr fun x hx => ?_
    obtain ⟨d, _, rfl⟩ := List.mem_map.mp hx
    rfl
  · refine Value.areProper_iff.mpr fun x hx => ?_
    obtain ⟨name, _, rfl⟩ := List.mem_map.mp hx
    rfl

/-- An explanation is flat and holds no numbers. -/
theorem isStorable_toValue (e : Explanation) : e.toValue.IsStorable := by
  have hdecision (d : Decision) : d.toValue.containers ≤ 1 ∧ d.toValue.mostDigits ≤ 0 := by
    constructor <;> exact Nat.le_of_eq rfl
  have hdecisions : ∀ x ∈ e.decisions.map Decision.toValue, x.containers ≤ 1 ∧ x.mostDigits ≤ 0 :=
    List.forall_mem_map.mpr fun d _ => hdecision d
  have hnames : ∀ x ∈ e.componentsUsed.map Value.text, x.containers ≤ 1 ∧ x.mostDigits ≤ 0 :=
    List.forall_mem_map.mpr fun _ _ => ⟨Nat.zero_le _, Nat.le_refl 0⟩
  have hcontainers : e.toValue.containers ≤ 3 := by
    refine Value.containers_dict_le fun f hf => ?_
    simp only [List.map_cons, List.map_nil, List.mem_cons, List.not_mem_nil, or_false] at hf
    rcases hf with rfl | rfl | rfl
    · exact Nat.zero_le _
    · exact Value.containers_list_le fun x hx => (hdecisions x hx).1
    · exact Value.containers_list_le fun x hx => (hnames x hx).1
  have hdigits : e.toValue.mostDigits ≤ 0 := by
    refine Value.mostDigitsIn_le_iff.mpr fun f hf => ?_
    simp only [List.map_cons, List.map_nil, List.mem_cons, List.not_mem_nil, or_false] at hf
    rcases hf with rfl | rfl | rfl
    · exact Nat.le_refl 0
    · exact Value.mostDigitsOf_le_iff.mpr fun x hx => (hdecisions x hx).2
    · exact Value.mostDigitsOf_le_iff.mpr fun x hx => (hnames x hx).2
  exact ⟨Nat.le_trans hcontainers (by decide), Nat.le_trans hdigits (Nat.zero_le _)⟩

theorem decode_decision (d : Decision) (place : List String) :
    Decision.decode place d.toValue = .ok d := by
  simp [Decision.decode, Decision.toValue, Value.object, Decoded.record, Decoded.required,
    Decoded.field?, Value.get?, Value.text?, Decoded.text, Decoded.both, Except.map]

theorem ofValue_toValue (h : e.componentsUsed.Nodup) : ofValue e.toValue = .ok e := by
  have hdecisions : ∀ place, Decoded.list Decision.decode place
      (.list (e.decisions.map Decision.toValue)) = .ok e.decisions :=
    Tree.list_eq_ok fun d _ => decode_decision d
  have hnames : ∀ place, Decoded.list Decoded.text place
      (.list (e.componentsUsed.map Value.text)) = .ok e.componentsUsed :=
    Tree.list_eq_ok fun _ _ _ => rfl
  simp [ofValue, toValue, Value.object, Decoded.record, Decoded.required, Decoded.optional,
    Decoded.field?, Value.get?, Value.text?, Decoded.text, Decoded.both, hdecisions, hnames, eraseDups_of_nodup h,
    Except.map]

theorem toText_eq (e : Explanation) :
    e.toText = String.ofList (Json.compact .line e.toValue) := by
  rw [toText, Json.text, Json.write_eq_compact Json.Style.isCompact_line (closed_toValue e)]
  rfl

theorem toText_ne (e : Explanation) : e.toText ≠ "" := by
  obtain ⟨c, cs, hcs, _⟩ := Json.starts_compact .line (closed_toValue e) rfl
  intro h
  have hlist := congrArg String.toList h
  rw [toText_eq, hcs] at hlist
  simp at hlist

/-- An explanation is read back from its text. -/
theorem ofText_toText (h : ofValue v = .ok e) : ofText e.toText = .ok e := by
  have hread := toOption_storedValue .line rfl (closed_toValue e) (isProper_toValue e)
  rw [if_pos (isStorable_toValue e)] at hread
  rw [ofText, toText_eq, eq_ok_of_toOption hread, ok_bind, ofValue_toValue (nodup_of_ofValue h)]

end Explanation

end Wireframe
