import Mathlib
import Wireframe.Proofs.Agent.Answers
import Wireframe.Proofs.Markup.TagLines

/-! What plans in answers are made of, and what their markup looks like: a closed grammar of nodes, and of
lines that are one tag each. -/
namespace Wireframe
open Markup Text

variable {raw : Value} {p : Plan} {t : Tree} {e : String × Value} {limit : Quantity} {lines : List Line}
variable {bounds : Json.Bounds} {capacity : Json.Capacity}

/-- A node inside the grammar of plans: a type, and props with identifiers for names, up to a newline at
their end, and closed data for values. -/
structure Layout.Node.InGrammar (n : Layout.Node) : Prop where
  type : ∃ type, n.type = .text type ∧ type ≠ ""
  names : ∀ e ∈ n.props.getD [],
    IsIdentifier e.1.toList ∨ ∃ name, e.1.toList = name ++ ['\n'] ∧ IsIdentifier name
  values : ∀ e ∈ n.props.getD [], e.2.Closed

theorem Layout.inGrammar_of_mem_ofTree {levels : Nat} (hd : t.Decodable levels) (ht : t.Accepted) :
    ∀ n ∈ (ofTree t).nodes, n.InGrammar := by
  intro n hn
  refine forall_mem_flatten (P := fun n => n.InGrammar) (Q := fun t => (∃ k, t.Decodable k) ∧ t.Accepted) ?_ ?_
    ⟨⟨levels, hd⟩, ht⟩ 0 n (by simpa [ofTree] using hn)
  · rintro t ⟨⟨k, hd⟩, ht⟩ c hc
    cases hd with
    | node _ _ hchildren => exact ⟨⟨_, hchildren c hc⟩, ht.children c hc⟩
  · rintro t children ⟨⟨k, hd⟩, ht⟩
    refine ⟨⟨t.type, rfl, ?_⟩, fun e he => ?_, fun e he => ht.props.closed he⟩
    · cases hd with
      | node htype _ _ => exact htype
    · exact isPropName_iff.mp (ht.props.name he)

/-- The markup of a tree, as it is rendered. -/
theorem Markup.lines_of_render (ht : t.Accepted)
    (h : render bounds (Layout.ofTree t) limit = .ok lines) : Registered t ∧ lines = linesOf 0 t := by
  rw [render_eq] at h
  obtain ⟨u, hu, hreg, hlines⟩ := renders_of_renderRef (Layout.accepted_ofTree ht) h
  obtain rfl : t = u := (Layout.unfolds_ofTree t).unique ⟨_, hu⟩
  exact ⟨hreg, hlines⟩

/-- An attribute ends its line only in its name. -/
theorem Markup.exists_attributeText (hname : isPropName e.1.toList = true) (hv : e.2.Closed) :
    ∃ s, (∀ bounds, e.2.Fits bounds → attributeText bounds e.1.toList e.2 = .ok s) ∧ '\r' ∉ s
      ∧ ('\n' ∈ s ↔ ¬ IsIdentifier e.1.toList) := by
  refine ⟨attributeOf e, fun bounds hfits => ?_, ?_, ?_⟩
  · rw [attributeText_eq hname hv, (literalFault?_eq_none_iff hv).mpr hfits]
    rfl
  · simp [attributeOf, return_notMem_name hname, return_notMem_valueText hv]
  · rw [newline_mem_attributeOf hv]
    exact ⟨fun hmem h => h.newline_notMem hmem,
      fun h => by_contra fun hmem => h (isIdentifier_of_isPropName hname hmem)⟩

/-- A plan in an answer is inside the grammar at each of its nodes. Its attributes stay in their lines, and all
lines of its markup are tags, if and only if its prop names are identifiers, with no newline at their end. -/
theorem PlanOutcome.grammar_of_decode (hraw : raw.isProper = true) (h : decode capacity raw = .ok (.ok p)) :
    (∀ n ∈ p.layout.nodes, n.InGrammar)
      ∧ (∀ n ∈ p.layout.nodes, ∀ e ∈ n.props.getD [], ∃ s,
          (∀ bounds, e.2.Fits bounds → attributeText bounds e.1.toList e.2 = .ok s) ∧ '\r' ∉ s
            ∧ ('\n' ∈ s ↔ ¬ IsIdentifier e.1.toList))
      ∧ ∀ bounds limit lines, render bounds p.layout limit = .ok lines →
        ((∀ line ∈ splitNewlines (Markup.text lines), IsTagLine line)
          ↔ ∀ n ∈ p.layout.nodes, ∀ e ∈ n.props.getD [], IsIdentifier e.1.toList) := by
  obtain ⟨intent, t, rfl, hd, ht⟩ := exists_accepted_of_decode hraw h
  have haccepted := Layout.accepted_ofTree ht
  refine ⟨Layout.inGrammar_of_mem_ofTree hd ht, fun n hn e he => ?_, fun bounds limit lines hlines => ?_⟩
  · exact exists_attributeText ((haccepted n hn).name he) ((haccepted n hn).closed he)
  · obtain ⟨hreg, rfl⟩ := lines_of_render ht hlines
    have hnodes (n : Layout.Node) : n ∈ (Layout.ofTree t).nodes ↔ n ∈ Layout.flatten 0 t := by
      simp [Layout.ofTree]
    rw [forall_isTagLine_linesOf ht hreg 0 0]
    refine forall_congr' fun n => ?_
    rw [← hnodes]
    refine forall₂_congr fun hn e => forall_congr' fun he => ?_
    exact ⟨isIdentifier_of_isPropName ((haccepted n hn).name he), IsIdentifier.newline_notMem⟩

/-- A card with a list among its props and a button in it. -/
def panel : Tree := .node "Card" (some [("title", .text "Users"), ("data", .list [.int 1, .bool true])])
  (some [.node "Button" (some [("children", .text "Go")]) none])

theorem PlanOutcome.grammar_of_panel :
    (Plan.wrap "a panel" panel.toValue).isProper = true
      ∧ decode .unbounded (Plan.wrap "a panel" panel.toValue) = .ok (.ok (.ofTree "a panel" panel))
      ∧ (∀ n ∈ (Layout.ofTree panel).nodes, n.InGrammar)
      ∧ ∃ lines, render .none (Layout.ofTree panel) (.whole 64) = .ok lines
        ∧ ∀ line ∈ splitNewlines (Markup.text lines), IsTagLine line := by
  have hraw : (Plan.wrap "a panel" panel.toValue).isProper = true := by decide
  have hdecode : decode .unbounded (Plan.wrap "a panel" panel.toValue) = .ok (.ok (.ofTree "a panel" panel)) := by
    cbv
  obtain ⟨lines, hlines⟩ := Outcome.exists_ok_of_isSome
    (by cbv : (render .none (Layout.ofTree panel) (.whole 64)).toOption.isSome = true)
  obtain ⟨hnodes, -, hmarkup⟩ := grammar_of_decode hraw hdecode
  have hfree : ∀ n ∈ (Layout.ofTree panel).nodes, ∀ e ∈ n.props.getD [], '\n' ∉ e.1.toList := by decide
  refine ⟨hraw, hdecode, hnodes, lines, hlines, (hmarkup _ _ _ hlines).mpr fun n hn e he => ?_⟩
  rcases (hnodes n hn).names e he with hname | ⟨name, hname, -⟩
  · exact hname
  · exact absurd (by rw [hname]; simp) (hfree n hn e he)

/-- A plan with a newline at the end of a prop name. -/
def brokenAnswer : String :=
  "\x7b\"intent\":\"x\",\"layoutTree\":\x7b\"type\":\"Button\",\"props\":\x7b\"a\\n\":\"x\"\x7d\x7d\x7d"

/-- It is decoded, and its tag takes two lines. -/
theorem PlanOutcome.not_isTagLine_of_brokenAnswer :
    ∃ p, decode .unbounded (.text brokenAnswer) = .ok (.ok p)
      ∧ (∃ n ∈ p.layout.nodes, ∃ e ∈ n.props.getD [], ¬ IsIdentifier e.1.toList)
      ∧ ∃ lines, render .none p.layout (.whole 64) = .ok lines
        ∧ ∃ line ∈ splitNewlines (Markup.text lines), ¬ IsTagLine line := by
  have hdecode : decode .unbounded (.text brokenAnswer)
      = .ok (.ok (.ofTree "x" (.node "Button" (some [("a\n", .text "x")]) none))) := by cbv
  refine ⟨_, hdecode, ?_, ?_⟩
  · refine ⟨⟨.text "Button", some [("a\n", .text "x")], none⟩, ?_, ("a\n", .text "x"), by simp, fun h => ?_⟩
    · simp [Plan.ofTree, Layout.ofTree, Layout.flatten]
    · exact h.newline_notMem (by decide)
  · refine ⟨[.single 0 "Button".toList " a\n=\"x\"".toList], by cbv, "    <Button a".toList, by decide, ?_⟩
    exact fun h => absurd h.mem (by decide)

end Wireframe
