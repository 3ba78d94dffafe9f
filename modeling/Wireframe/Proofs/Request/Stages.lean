import Wireframe.Proofs.Lint.Bare
import Wireframe.Proofs.Request.Failure

/-! What each stage of a request comes to, for collaborators that may change the history when they are
asked. -/
namespace Wireframe

variable {κ σ α β : Type} [Interference κ] {limits : RequestLimits} {team : Crew κ σ} {s t : Session σ}
variable {p : Plan} {text : String} {base : Option Version} {existing : Option String}
variable {source : Source} {time : Quantity} {inquiry : Inquiry} {reaction : Reaction α}
variable {kinds : List FailureKind}
variable {collaborator : σ → Conduct κ α × σ} {planner : PlanRequest → σ → Conduct κ PlannerReply × σ}
variable {explainer : ExplainRequest → σ → Conduct κ ExplainerReply × σ}

/-- The plan that a planner's reply stands for. -/
def PlannerReply.Gives (limits : RequestLimits) (reply : PlannerReply) (p : Plan) : Prop :=
  match reply with
  | .outcome o => o = .ok p
  | .undecoded raw => PlanOutcome.decode limits.capacity raw = .ok (.ok p)

/-- A valid plan whose source has a literal that is nested too deep for the platform. -/
structure Plan.Overflows (p : Plan) (limits : RequestLimits) : Prop where
  layout : (p.layout.check limits.treeDepth true).isValid = true
  generated : Source.generate limits.capacity.literal p limits.treeDepth = .error .overflow

/-- The session after a collaborator was asked. -/
def Session.heed (s : Session σ) (inquiry : Inquiry) (collaborator : σ → Conduct κ α × σ) : Session σ :=
  { s with
    store := (Interference.interfere (collaborator s.team).1.interference s.store).2
    team := (collaborator s.team).2
    inquiries := s.inquiries ++ [inquiry] }

/-- A failure that no collaborator is expected to raise. -/
def CallFault.isUnexpected : CallFault → Bool
  | value _ | runtime _ | recursion _ => true
  | service _ _ | timeout _ => false

namespace Work

theorem run_ask_expired (htime : time.isExpired = true) :
    (ask time inquiry collaborator).run s = .ok (.error .timedOut) s := by
  rw [ask, if_pos htime]
  rfl

/-- A collaborator that is asked and whose change of the history goes through. -/
theorem run_ask_heed (htime : time.isExpired = false)
    (hok : (Interference.interfere (collaborator s.team).1.interference s.store).1 = .ok ()) :
    (ask time inquiry collaborator).run s
      = (settle (collaborator s.team).1.reaction).run (s.heed inquiry collaborator) := by
  rw [ask, htime]
  simp only [undergo, Bool.false_eq_true, ↓reduceIte, EStateM.run_bind, EStateM.run_get,
    EStateM.run_modify, hok, expect, EStateM.run_pure]
  rfl

theorem exists_run_settle (h : ∀ fault, reaction = .raises fault → fault.isUnexpected = false)
    (s : Session σ) : ∃ answer, (settle reaction).run s = .ok answer s := by
  cases reaction with
  | answers a => exact ⟨.ok a, rfl⟩
  | stalls => exact ⟨.error .timedOut, rfl⟩
  | raises fault =>
    cases fault with
    | timeout _ => exact ⟨.error .timedOut, rfl⟩
    | service _ message => exact ⟨.error (.failed message), rfl⟩
    | value _ | runtime _ | recursion _ => cases h _ rfl

/-- What is made of a planner's reply. -/
def accept (limits : RequestLimits) (reply : PlannerReply) : Work σ Plan := do
  let outcome ←
    match reply with
    | .outcome o => pure o
    | .undecoded raw => expect (PlanOutcome.decode limits.capacity raw)
  match outcome with
  | .ok plan => return plan
  | .failed message => fail .collaborator [s!"Planner failed: {message}"] []
  | .malformed message _ => fail .collaborator [s!"Planner returned an invalid plan: {message}"] []

theorem run_accept {reply : PlannerReply} (h : reply.Gives limits p) (s : Session σ) :
    (accept limits reply).run s = .ok p s := by
  cases reply with
  | outcome o =>
    obtain rfl : o = .ok p := h
    rfl
  | undecoded raw =>
    have hraw : PlanOutcome.decode limits.capacity raw = .ok (.ok p) := h
    simp only [accept, hraw, expect, pure_bind]
    rfl

/-- A planner that is asked and answers. -/
theorem run_plan {reply : PlannerReply} (htime : limits.plannerTimeout.isExpired = false)
    (hexisting : base.mapM (fun v => v.plan.toText) = .ok existing)
    (hok : (Interference.interfere
      (team.planner ⟨text, base.isSome, existing⟩ s.team).1.interference s.store).1 = .ok ())
    (hreply : (team.planner ⟨text, base.isSome, existing⟩ s.team).1.reaction = .answers reply) :
    (plan limits team text base).run s = (accept limits reply).run
      (s.heed (.plan ⟨text, base.isSome, existing⟩) (team.planner ⟨text, base.isSome, existing⟩)) := by
  have hbase : (base.mapM fun v => expect v.plan.toText : Work σ (Option String)) = pure existing := by
    cases base with
    | none =>
      cases hexisting
      rfl
    | some b =>
      rw [Option.mapM_some] at hexisting ⊢
      obtain ⟨data, hdata, rfl⟩ := Outcome.map_eq_ok hexisting
      rw [hdata]
      rfl
  have hask : (ask limits.plannerTimeout (.plan ⟨text, base.isSome, existing⟩)
      (team.planner ⟨text, base.isSome, existing⟩)).run s = _ := run_ask_heed htime hok
  rw [hreply] at hask
  simp only [plan, hbase, pure_bind, EStateM.run_bind, hask, settle]
  rfl

theorem run_examine (h : p.Passes limits source) (s : Session σ) :
    ∃ warnings, (examine limits p).run s = .ok (String.ofList source.code) { s with
      stage := .explain, warnings, plan := some p, code := some (String.ofList source.code) } := by
  have hkey := Layout.keyless?_of_isValid h.layout
  refine ⟨s.warnings ++ (p.layout.check limits.treeDepth true).warnings
    ++ (Lint.check source.code).warnings, ?_⟩
  simp only [examine, enter, validate, generate, lint, hkey, h.layout, h.generated, h.linted,
    EStateM.run_bind, EStateM.run_modify, EStateM.run_pure, pure_bind, bind_assoc, Option.isSome_none,
    Bool.false_eq_true, ↓reduceIte, String.toList_ofList]

/-- A literal that is too deep is no failure that is told of. -/
theorem run_examine_of_overflows (h : p.Overflows limits) (s : Session σ) :
    ∃ warnings, (examine limits p).run s = .error .fault { s with
      stage := .generate, warnings, plan := some p } := by
  have hkey := Layout.keyless?_of_isValid h.layout
  refine ⟨s.warnings ++ (p.layout.check limits.treeDepth true).warnings, ?_⟩
  simp only [examine, enter, validate, generate, hkey, h.layout, h.generated, EStateM.run_bind,
    EStateM.run_modify, EStateM.run_pure, pure_bind, bind_assoc, Option.isSome_none, Bool.false_eq_true,
    ↓reduceIte]
  rfl

/-- A part of a request that is interrupted by failures of these kinds only. -/
def FailsAs (kinds : List FailureKind) (w : Work σ α) : Prop :=
  ∀ s i t, w.run s = .error i t → ∃ f, i = .failure f ∧ f.kind ∈ kinds

theorem failsAs_pure (a : α) : FailsAs kinds (pure a : Work σ α) := fun _ _ _ h => nomatch h

theorem failsAs_modify (f : Session σ → Session σ) : FailsAs kinds (modify f) := fun _ _ _ h => nomatch h

theorem failsAs_fail {kind : FailureKind} {errors : List String} {types : List Value}
    (h : kind ∈ kinds) : FailsAs kinds (fail kind errors types : Work σ α) := by
  intro s i t hrun
  cases hrun
  exact ⟨_, rfl, h⟩

theorem FailsAs.bind {w : Work σ α} {f : α → Work σ β} (hw : FailsAs kinds w)
    (hf : ∀ a, FailsAs kinds (f a)) : FailsAs kinds (w >>= f) := by
  intro s i t hrun
  rw [EStateM.run_bind] at hrun
  cases h : w.run s with
  | ok a u =>
    rw [h] at hrun
    exact hf a u i t hrun
  | error j u =>
    rw [h] at hrun
    cases hrun
    exact hw s _ _ h

/-- The checks of a plan whose types can be told, and whose literals can be written, fail as such. -/
theorem failsAs_examine (hkey : (p.layout.check limits.treeDepth true).keyless? = none)
    (hfits : ¬ p.Overflows limits) (hschema : .schemaViolation ∈ kinds)
    (houtput : .outputViolation ∈ kinds) : FailsAs kinds (examine limits p : Work σ String) := by
  have hvalidate {f : Unit → Work σ String} (hf : Source.generate limits.capacity.literal p limits.treeDepth
      ≠ .error .overflow → FailsAs kinds (f ())) : FailsAs kinds (validate limits p >>= f) := by
    simp only [validate, hkey, Option.isSome_none, Bool.false_eq_true, ↓reduceIte, bind_assoc]
    refine (failsAs_modify _).bind fun _ => ?_
    split
    · rename_i hvalid
      exact hf fun hoverflow => hfits ⟨hvalid, hoverflow⟩
    · exact (failsAs_fail hschema : FailsAs kinds (fail _ _ _ : Work σ String))
  have hgenerate (hfits : Source.generate limits.capacity.literal p limits.treeDepth ≠ .error .overflow) :
      FailsAs kinds (generate limits p : Work σ String) := by
    unfold generate
    split
    · exact (failsAs_modify _).bind fun _ => failsAs_pure _
    · exact absurd ‹_› hfits
    · exact failsAs_fail houtput
  have hlint (code : String) : FailsAs kinds (lint code : Work σ Unit) := by
    unfold lint
    refine (failsAs_modify _).bind fun _ => ?_
    split
    · exact failsAs_pure ()
    · exact failsAs_fail houtput
  refine (failsAs_modify _).bind fun _ => (failsAs_modify _).bind fun _ => hvalidate fun hfits => ?_
  refine (failsAs_modify _).bind fun _ => (hgenerate hfits).bind fun code => ?_
  refine (failsAs_modify _).bind fun _ => (hlint code).bind fun _ => ?_
  exact (failsAs_modify _).bind fun _ => failsAs_pure code

/-- What is made of an explainer's answer. -/
def takeUp (limits : RequestLimits) (answer : Except Silence ExplainerReply) :
    Work σ (Option Explanation) := do
  let warn (message : String) : Work σ (Option Explanation) := do
    modify fun s => { s with warnings := s.warnings ++ [s!"Explainer failed: {message}"] }
    return none
  match answer with
  | .error .timedOut => warn s!"timed out after {limits.explainerTimeout.briefText}s"
  | .error (.failed message) => warn message
  | .ok (.outcome (.ok explanation)) => return some explanation
  | .ok (.outcome (.failed message)) => warn message
  | .ok (.other kind) => warn s!"unexpected result type {kind}"

theorem explain_eq (p : Plan) (text : String) (base : Option Version) :
    let request : ExplainRequest := ⟨p, base.isSome, base.map fun _ => text⟩
    explain limits ⟨planner, some explainer⟩ p text base
      = ask limits.explainerTimeout (.explain request) (explainer request) >>= takeUp limits := rfl

theorem run_takeUp (limits : RequestLimits) (answer : Except Silence ExplainerReply) (s : Session σ) :
    ∃ found ws, ws.length ≤ 1
      ∧ (takeUp limits answer).run s = .ok found { s with warnings := s.warnings ++ ws } := by
  match answer with
  | .error .timedOut | .error (.failed _) | .ok (.outcome (.failed _)) | .ok (.other _) =>
    exact ⟨none, [_], Nat.le_refl 1, rfl⟩
  | .ok (.outcome (.ok explanation)) =>
    refine ⟨some explanation, [], Nat.zero_le 1, ?_⟩
    rw [List.append_nil]
    rfl

theorem run_finish (text : String) (p : Plan) (code : String) (base : Option Version)
    (found : Option Explanation) (s : Session σ) :
    (finish text p code base found).run s
      = match s.store.add ⟨text, p, code, found, base.isSome, base.map (·.id)⟩ with
        | (.ok v, store) =>
          match v.payload with
          | .ok payload =>
            .ok ⟨payload, p, code, base.map fun b => Diff.summary b.code.toList code.toList⟩
              { s with store, stage := .complete }
          | .error _ => .error .fault { s with store, stage := .complete }
        | (.error (.parentMissing id), store) =>
          .error (.failure ⟨.versionNotFound,
            [s!"Version {id} was rolled back before the modification was stored"], []⟩)
            { s with store, stage := .store }
        | (.error _, store) => .error .fault { s with store, stage := .store } := by
  simp only [finish, enter, add, EStateM.run_bind, EStateM.run_get, EStateM.run_modify, bind_assoc]
  generalize s.store.add ⟨text, p, code, found, base.isSome, base.map (·.id)⟩ = added
  obtain ⟨outcome, store⟩ := added
  cases outcome with
  | error fault => cases fault <;> rfl
  | ok v =>
    simp only [EStateM.run_pure]
    cases v.payload <;> rfl

/-- No collaborator is asked any more. -/
theorem inquiries_finish (text : String) (p : Plan) (code : String) (base : Option Version)
    (found : Option Explanation) (s : Session σ) :
    (Request.report ((finish text p code base found).run s)).2.inquiries = s.inquiries := by
  rw [run_finish]
  generalize s.store.add ⟨text, p, code, found, base.isSome, base.map (·.id)⟩ = added
  obtain ⟨outcome, store⟩ := added
  cases outcome with
  | error fault => cases fault <;> rfl
  | ok v =>
    dsimp only
    cases v.payload <;> rfl

/-- An explainer whose change of the history goes through and that fails in no unexpected way. -/
theorem exists_run_explain
    (hok : ∀ explainer ∈ team.explainer, ∀ request,
      (Interference.interfere (explainer request s.team).1.interference s.store).1 = .ok ())
    (hexpected : ∀ explainer ∈ team.explainer, ∀ fault,
      (explainer ⟨p, base.isSome, base.map fun _ => text⟩ s.team).1.reaction = .raises fault →
        fault.isUnexpected = false) :
    ∃ found t, (explain limits team p text base).run s = .ok found t := by
  obtain ⟨planner, explainer?⟩ := team
  cases explainer? with
  | none => exact ⟨none, s, rfl⟩
  | some explainer =>
    rw [explain_eq, EStateM.run_bind]
    cases htime : limits.explainerTimeout.isExpired with
    | true =>
      rw [run_ask_expired htime]
      obtain ⟨found, ws, -, hrun⟩ := run_takeUp limits (.error .timedOut) s
      exact ⟨found, _, hrun⟩
    | false =>
      obtain ⟨answer, hanswer⟩ := exists_run_settle (hexpected explainer rfl)
        (s.heed (.explain ⟨p, base.isSome, base.map fun _ => text⟩) (explainer _))
      rw [run_ask_heed htime (hok explainer rfl _), hanswer]
      obtain ⟨found, ws, -, hrun⟩ := run_takeUp limits answer _
      exact ⟨found, _, hrun⟩

/-- A request whose plan passes every check comes to its last stages. -/
theorem run_develop {value : Value} {clean : String} {base? : Work σ (Option Version)}
    (htext : Input.check "prompt" limits.inputLength value = .ok text)
    (hclean : String.ofList (Input.sanitize text.toList) = clean)
    (hbase : base?.run { s with stage := .input } = .ok base { s with stage := .input })
    (hplan : (plan limits team clean base).run { s with stage := .plan } = .ok p t)
    (hpasses : p.Passes limits source)
    (hexplain : ∀ u : Session σ, u.team = t.team →
      ∃ found w, (explain limits team p clean base).run u = .ok found w) :
    ∃ found w, team.Leads s w ∧ (develop limits team value base?).run s
      = (finish clean p (String.ofList source.code) base found).run w := by
  have hI := Crew.stable_leads team s
  have hled : team.Leads s t := by
    have hkeep := hI.keeps_plan limits clean base { s with stage := .plan }
      (hI.congr s _ rfl rfl rfl (Crew.leads_refl s))
    rw [hplan] at hkeep
    exact hkeep.1
  obtain ⟨warnings, hexamine⟩ := run_examine hpasses t
  have hready : team.Leads s { t with
      stage := .explain, warnings, plan := some p, code := some (String.ofList source.code) } :=
    hI.congr t _ rfl rfl rfl hled
  obtain ⟨found, w, hfound⟩ := hexplain { t with
    stage := .explain, warnings, plan := some p, code := some (String.ofList source.code) } rfl
  refine ⟨found, w, ?_, ?_⟩
  · have hkeep := hI.keeps_explain limits p clean base _ hready
    rw [hfound] at hkeep
    exact hkeep.1
  · simp only [develop_eq, htext, build, hclean, enter, EStateM.run_bind, EStateM.run_modify, hbase,
      hplan, hexamine, hfound]

end Work

/-- A tree of known components without props, for which there is room, passes every check of a plan. -/
theorem Plan.passes_bare {t : Tree} {bound : Int} (intent : String) (hreg : Markup.Registered t)
    (hlimit : limits.treeDepth = .whole bound) (hroom : t.height ≤ bound) :
    (Plan.ofTree intent t.bare).Passes limits (Markup.sourceOf t.bare) where
  layout := by
    have herrors : ((Layout.ofTree t.bare).check limits.treeDepth true).errors = [] := by
      rw [Layout.errors_check (Layout.unfolds_ofTree _) (Layout.distinct_ofTree _), Tree.errors_bare, hlimit,
        Tree.errors_eq_nil hreg hroom]
    rw [LayoutReport.isValid, List.isEmpty_iff]
    exact herrors
  generated := by
    obtain ⟨levels, ht⟩ := Layout.unfolds_ofTree t.bare
    rw [hlimit]
    refine Markup.generate_of_tree? (Layout.accepted_ofTree t.accepted_bare) (Layout.fits_ofTree t.fits_bare) ?_
      (Lint.registered_bare hreg)
    refine (Layout.tree?_eq_some_iff ht).mpr ?_
    rw [Markup.levels, Quantity.room_whole, Tree.height_bare]
    omega
  linted := Lint.isValid_bare hreg

/-- A button as a plan. -/
def buttonPlan : Plan := .ofTree "a button" (.node "Button" (some [("children", .text "Go")]) none)

theorem passes_button : ∃ source, buttonPlan.Passes Request.usualLimits source := by
  have hlayout : buttonPlan.layout.check Request.usualLimits.treeDepth true = ⟨[]⟩ := by
    simp [buttonPlan, Plan.ofTree, Layout.ofTree, Layout.flatten, Layout.check, Layout.walk,
      Layout.node?, Layout.Node.childList]
    decide +kernel
  obtain ⟨source, hsource⟩ := Outcome.exists_ok_of_isSome
    (by decide +kernel :
      (Source.generate .none buttonPlan Request.usualLimits.treeDepth).toOption.isSome = true)
  have hlint : (Lint.check source.code).isValid = true := by
    have hall : ((Source.generate .none buttonPlan Request.usualLimits.treeDepth).toOption.all fun source =>
      (Lint.check source.code).isValid) = true := by decide +kernel
    rw [hsource] at hall
    exact hall
  exact ⟨source, by rw [hlayout]; rfl, hsource, hlint⟩

end Wireframe
