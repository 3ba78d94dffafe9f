import Wireframe.Proofs.Layout.Walk
import Wireframe.Settings.Basic

/-! A depth limit decides whether a plan has a source, but not which. A valid plan has one, if the limit
leaves room for a level. -/
namespace Wireframe
open Outcome

variable {bounds : Json.Bounds} {l : Layout} {limit limit' : Quantity} {r : Layout.Ref} {m n level : Nat}
variable {lines lines' : List Markup.Line} {plan : Plan} {s s' : Source} {withProps : Bool}

/-- What is rendered within some levels is rendered within more. -/
theorem Markup.renderRef_mono (h : renderRef bounds l limit n level r = .ok lines) (hnm : n ≤ m) :
    renderRef bounds l limit' m level r = .ok lines := by
  induction n generalizing m level r lines with
  | zero => cases h
  | succ n ih =>
    obtain ⟨m, rfl⟩ : ∃ k, m = k + 1 := ⟨m - 1, by omega⟩
    rw [renderRef] at h ⊢
    split at h
    · cases h
    · split at h
      · split at h
        · rename_i hreg
          obtain ⟨attrs, hattrs, h⟩ := bind_eq_ok h
          obtain ⟨content, hcontent, h⟩ := bind_eq_ok h
          simp only [hreg, if_true, hattrs, hcontent, ok_bind]
          split at h
          · rename_i hempty
            rw [if_pos hempty]
            exact h
          · rename_i hne
            obtain ⟨inner, hinner, h⟩ := bind_eq_ok h
            have hwider := mapM_eq_ok_of_forall₂ (f := renderRef bounds l limit' m (level + 1))
              ((forall₂_of_mapM_eq_ok hinner).imp fun _ _ hr => ih hr (by omega))
            rw [if_neg hne, hwider]
            exact h
        · cases h
      · cases h

/-- A plan has no two sources. -/
theorem Source.generate_unique (h : Source.generate bounds plan limit = .ok s)
    (h' : Source.generate bounds plan limit' = .ok s') : s = s' := by
  obtain ⟨lines, hlines, h⟩ := bind_eq_ok h
  obtain ⟨lines', hlines', h'⟩ := bind_eq_ok h'
  have hsame : lines = lines' := by
    rw [Markup.render_eq] at hlines hlines'
    rcases Nat.le_total (Markup.levels plan.layout limit)
      (Markup.levels plan.layout limit') with hle | hle
    · exact Except.ok.inj ((Markup.renderRef_mono hlines hle).symm.trans hlines')
    · exact Except.ok.inj (hlines.symm.trans (Markup.renderRef_mono hlines' hle))
  subst hsame
  exact Except.ok.inj (h.symm.trans h')

theorem Quantity.room_whole (bound : Int) (size : Nat) :
    (Quantity.whole bound).room size = bound.toNat := by
  simp [Quantity.room, Quantity.magnitude?, Magnitude.ofInt]

/-- The depth limit that an environment sets is a whole number. -/
theorem Environment.exists_depthLimit (env : Environment) (override : Option Int) :
    ∃ bound, env.depthLimit (override.map .whole) = .whole bound := by
  cases override with
  | some bound => exact ⟨bound, rfl⟩
  | none =>
    show ∃ bound, env.quantity .maxTreeDepth none = _
    rw [Environment.quantity]
    have hset : ∃ n, env.setting .maxTreeDepth .null = .value (.int n) := by
      show ∃ n, Setting.convert .int (.int 64) (env.get? "UIFORGE_MAX_TREE_DEPTH") = _
      rw [Setting.convert]
      cases env.get? "UIFORGE_MAX_TREE_DEPTH" with
      | none => exact ⟨64, rfl⟩
      | some s =>
        rw [Option.bind_some, Setting.read?]
        cases Text.readInt? s.toList with
        | none => exact ⟨64, rfl⟩
        | some n => exact ⟨n, rfl⟩
    obtain ⟨n, hn⟩ := hset
    exact ⟨n, by simp [hn]⟩

/-- A plan of accepted nodes that is valid under a bound has a source under the same bound, if the bound
leaves room for a level and no prop is too much for the platform. Where it leaves none the plan is refused, a
single node that is valid there too. -/
theorem Source.generate_of_isValid (env : Environment) (override : Option Int)
    (hp : plan.layout.Accepted)
    (hvalid : (plan.layout.check (env.depthLimit (override.map .whole)) withProps).isValid = true) :
    ∃ bound, env.depthLimit (override.map .whole) = .whole bound
      ∧ (1 ≤ bound → plan.layout.Fits bounds → ∃ source, Source.generate bounds plan (.whole bound) = .ok source)
      ∧ (bound < 1 → Source.generate bounds plan (.whole bound) = .error (.tooDeep (.whole bound))
          ∧ ∃ t, plan.layout.Unfolds t ∧ t.height = 1) := by
  obtain ⟨bound, hbound⟩ := env.exists_depthLimit override
  rw [hbound] at hvalid
  obtain ⟨t, ht, hreg⟩ := Layout.sound_of_isValid hvalid
  refine ⟨bound, hbound, fun hroom hfits => ?_, fun hnone => ⟨?_, t, ⟨_, ht⟩, ?_⟩⟩
  · have hlevels : max 1 bound.toNat = Markup.levels plan.layout (.whole bound) := by
      rw [Markup.levels, Quantity.room_whole]
      omega
    exact ⟨_, Markup.generate_of_tree? hp hfits (hlevels ▸ ht) hreg⟩
  · have hlevels : Markup.levels plan.layout (.whole bound) = 0 := by
      rw [Markup.levels, Quantity.room_whole]
      omega
    rw [Source.generate, Markup.render_eq, hlevels]
    rfl
  · have hone : max 1 bound.toNat = 1 := by omega
    have hheight := (Layout.tree?_eq_some_iff ht).mp (hone ▸ ht)
    have hpos := t.height_pos
    omega

/-- A card around a button and an empty card, as high as the environment allows. -/
theorem Source.generate_of_full_height :
    let t := Tree.node "Card" none (some [.node "Button" none none, .node "Card" none (some [])])
    let env : Environment := [("UIFORGE_MAX_TREE_DEPTH", " 2 ")]
    let plan := Plan.ofTree "" t
    plan.layout.Accepted ∧ (plan.layout.check (env.depthLimit none) true).isValid = true
      ∧ ∃ source, Source.generate .none plan (.whole 2) = .ok source := by
  intro t env plan
  have hp : plan.layout.Accepted := by
    refine Layout.accepted_ofTree (.node .nil ?_)
    intro c hc
    have hc : c = .node "Button" none none ∨ c = .node "Card" none (some []) := by
      simpa [t, Tree.childList, Tree.children] using hc
    rcases hc with rfl | rfl <;> exact .node .nil (List.forall_mem_nil _)
  have hlimit : env.depthLimit none = .whole 2 := by decide +kernel
  have hvalid : (plan.layout.check (env.depthLimit none) true).isValid = true := by
    rw [hlimit]
    simp [plan, t, Plan.ofTree, Layout.ofTree, Layout.flatten, Layout.flattenAll, Layout.refs,
      Layout.starts, Layout.check, Layout.walk, Layout.node?, Layout.Node.childList, Layout.childTasks,
      Tree.size, Layout.isReachedBy_whole]
    decide +kernel
  refine ⟨hp, hvalid, ?_⟩
  obtain ⟨bound, hbound, hsome, -⟩ := Source.generate_of_isValid env none hp hvalid
  obtain rfl : 2 = bound := Quantity.whole.inj (hlimit.symm.trans hbound)
  exact hsome (by decide) plan.layout.fits_unbounded

/-- A button alone is valid under a bound of no levels, and has no source under it. -/
theorem Source.refused_of_valid_button :
    let plan := Plan.ofTree "" (.node "Button" none none)
    plan.layout.Accepted ∧ (plan.layout.check (.whole 0) true).isValid = true
      ∧ Source.generate .none plan (.whole 0) = .error (.tooDeep (.whole 0)) := by
  intro plan
  refine ⟨Layout.accepted_ofTree (.node .nil (List.forall_mem_nil _)), ?_, ?_⟩
  · simp [plan, Plan.ofTree, Layout.ofTree, Layout.flatten, Layout.check, Layout.walk, Layout.node?,
      Layout.Node.childList]
    decide +kernel
  · rw [Source.generate, Markup.render_eq]
    rfl

end Wireframe
