import Wireframe.Proofs.Layout.Report
import Wireframe.Proofs.Layout.Warnings
import Wireframe.Proofs.Lint.Forbidden
import Wireframe.Proofs.Request.History
import Wireframe.Proofs.Request.Stored

/-! A plan with a forbidden prop at any of its nodes comes through the check of layouts with a warning, is
refused by the check of its source, and is never stored. -/
namespace Wireframe
open Lint

variable {bounds : Json.Bounds} {plan : Plan} {limit : Quantity} {source : Source} {place : Layout.Place} {id : Nat}
variable {n : Layout.Node} {name : String} {v : Value}

/-- No component declares a forbidden prop. -/
theorem Component.not_mem_props_of_isForbidden {k : Component} (hk : k ∈ Component.all)
    (hname : isForbidden name.toList = true) : name ∉ k.props := by
  have hall : ∀ k ∈ Component.all, (k.props.all fun p => !isForbidden p.toList) = true := by decide +kernel
  intro hmem
  have hfree := List.all_eq_true.mp (hall k hk) name hmem
  rw [hname] at hfree
  cases hfree

namespace Plan

/-- Whatever the value of a forbidden prop, and whatever stands around it, the source is refused and the
prop is told of. -/
theorem exists_tells (hp : plan.layout.Accepted) (h : Source.generate bounds plan limit = .ok source)
    (hn : plan.layout.nodeAt? place = some (id, n)) (hv : (name, v) ∈ n.props.getD [])
    (hname : isForbidden name.toList = true) : ∃ w, Tells name.toList w ∧ w ∈ violations source.code := by
  obtain ⟨t, ht, hacc, hreg, rfl⟩ := Markup.exists_tree_of_generate hp h
  have htext : name ≠ Component.textProp := by
    rintro rfl
    exact absurd hname (by decide)
  have hprop : isPropName name.toList = true := by
    obtain ⟨r, -, hnode⟩ := Option.bind_eq_some_iff.mp hn
    exact (hp.props hnode).name hv
  obtain ⟨x, y, hbody⟩ := exists_sourceOf_attribute ht hn hv htext
  exact Lint.exists_tells hacc hreg hprop hname hbody

/-- Where a plan has a source it is that of its tree, so a plan that is refused never passes. -/
theorem not_passes_of_mem (hp : plan.layout.Accepted) (h : Source.generate bounds plan limit = .ok source)
    {w : Violation} (hw : w ∈ violations source.code) (limits : RequestLimits) (other : Source) :
    ¬ plan.Passes limits other := by
  intro hpasses
  obtain ⟨t, ht, -, -, rfl⟩ := Markup.exists_tree_of_generate hp h
  obtain ⟨u, hu, -, -, rfl⟩ := Markup.exists_tree_of_generate hp hpasses.generated
  obtain rfl := ht.unique hu
  exact not_mem_of_isValid hpasses.linted hw

/-- A forbidden prop at any node, with any value, is found in the generated source: the check of layouts only
warns of it, the check of the source refuses it, and no request adds the plan to a history, whatever its
collaborators do. -/
theorem refused_of_forbidden (hp : plan.layout.Accepted) (h : Source.generate bounds plan limit = .ok source)
    (hn : plan.layout.nodeAt? place = some (id, n)) (hv : (name, v) ∈ n.props.getD [])
    (hname : isForbidden name.toList = true) :
    (∃ w, Tells name.toList w ∧ w ∈ violations source.code ∧ w.message ∈ (check source.code).errors)
      ∧ (check source.code).isValid = false
      ∧ (∀ bound, (plan.layout.check bound true).isValid = true →
        ∃ k ∈ Component.all, n.component? = some k ∧
          (Finding.props (k.undeclaredWarning name) place).message ∈ (plan.layout.check bound true).warnings)
      ∧ (∀ (κ σ : Type) [Interference κ] (r : Request) (limits : RequestLimits) (team : Crew κ σ)
        (store : Store) (state : σ), let run := r.serve limits team store state
          (team.leave (state, store) run.2.inquiries).2.storage.Moves (fun v => v.plan ≠ plan)
            run.2.store.storage)
      ∧ ∀ limits s vs, Store.Reachable limits s → s.storage.all = .ok vs → ∀ v ∈ vs, v.plan ≠ plan := by
  obtain ⟨w, htells, hw⟩ := exists_tells hp h hn hv hname
  have hnever := not_passes_of_mem hp h hw
  refine ⟨⟨w, htells, hw, List.mem_eraseDups.mpr (List.mem_map_of_mem hw)⟩, ?_, ?_, ?_, ?_⟩
  · exact Bool.eq_false_iff.mpr fun hvalid => not_mem_of_isValid hvalid hw
  · intro bound hvalid
    obtain ⟨k, hk, hcomponent, hwarned⟩ := Layout.undeclared_mem_warnings hvalid hn hv
    exact ⟨k, hk, hcomponent, hwarned (Component.not_mem_props_of_isForbidden hk hname)⟩
  · intro κ σ _ r limits team store state
    refine (r.moves_serve limits team store state).imp fun v ⟨other, hpasses, _⟩ hplan => ?_
    exact hnever limits other (hplan ▸ hpasses)
  · intro limits s vs hs hall v hmem hplan
    obtain ⟨m, hstorage, -, -, hsound⟩ := hs.intact
    rw [hstorage] at hall
    cases hall
    have hv := hsound v hmem
    obtain ⟨other, hother, hcode⟩ := hv.source
    have hlint := hv.lint
    rw [hcode, String.toList_ofList] at hlint
    exact hnever limits other (hplan ▸ ⟨hv.layout, hother, hlint⟩)

/-- A stack with a button in it that has a handler. -/
def handlerPlan : Plan :=
  .ofTree "a button" (.node "Stack" none (some [
    .node "Button" (some [("children", .text "Go"), ("onClick", .text "go()")]) none]))

/-- The layout is valid, with a warning, and its source is refused. -/
theorem refused_of_handler : ∃ source, Source.generate .none handlerPlan (.whole 50) = .ok source
    ∧ (handlerPlan.layout.check (.whole 50) true).isValid = true
    ∧ "root.children[0]: Prop 'onClick' is not a valid prop for component 'Button'."
      ∈ (handlerPlan.layout.check (.whole 50) true).warnings
    ∧ "Event handler 'onClick' is prohibited. Only static JSX is allowed." ∈ (check source.code).errors
    ∧ ∀ limits s vs, Store.Reachable limits s → s.storage.all = .ok vs → ∀ v ∈ vs, v.plan ≠ handlerPlan := by
  let t := Tree.node "Stack" none (some [
    .node "Button" (some [("children", .text "Go"), ("onClick", .text "go()")]) none])
  have ht : t.Accepted := .node .nil (List.forall_mem_singleton.mpr
    (.node ⟨by decide, by decide, by decide⟩ (List.forall_mem_nil _)))
  have hp : handlerPlan.layout.Accepted := Layout.accepted_ofTree ht
  have hsource : Source.generate .none handlerPlan (.whole 50) = .ok (Markup.sourceOf t) :=
    Markup.generate_of_tree? hp (Layout.fits_unbounded _) rfl (by decide)
  have hvalid : (handlerPlan.layout.check (.whole 50) true).isValid = true := by
    have herrors : (handlerPlan.layout.check (.whole 50) true).errors = t.errors (.whole 50) :=
      Layout.errors_check (Layout.unfolds_ofTree t) (Layout.distinct_ofTree t)
    rw [LayoutReport.isValid, herrors]
    decide +kernel
  have hn : handlerPlan.layout.nodeAt? [0] = some (1, ⟨.text "Button",
    some [("children", .text "Go"), ("onClick", .text "go()")], none⟩) := rfl
  have hprop : ("onClick", .text "go()")
      ∈ (some [("children", Value.text "Go"), ("onClick", .text "go()")]).getD [] := by simp
  obtain ⟨⟨w, htells, -, herror⟩, -, hwarned, -, hnever⟩ := refused_of_forbidden hp hsource hn hprop (by decide)
  obtain ⟨k, -, hk, hwarning⟩ := hwarned _ hvalid
  obtain rfl : Component.button = k := Option.some.inj hk
  have hw : w = .eventHandler "onClick" := by
    generalize hname : "onClick".toList = name at htells
    cases htells with
    | style _ => exact absurd hname (by decide)
    | innerHtml => exact absurd hname (by decide)
    | handler _ hgap =>
      rcases hgap with rfl | rfl
      · rw [List.append_nil] at hname
        rw [← hname]
        rfl
      · exact absurd (congrArg List.getLast? hname) (by simp)
  rw [hw] at herror
  exact ⟨_, hsource, hvalid, hwarning, herror, hnever⟩

end Plan

end Wireframe
