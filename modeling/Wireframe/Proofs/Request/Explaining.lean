import Wireframe.Proofs.Request.Stages

/-! What an explainer can change of a request: two runs of the same request, with an explainer and
without one, side by side. They part where the explainer is asked and nowhere before. -/
namespace Wireframe

variable {κ σ α : Type} [Interference κ] {limits : RequestLimits} {s t : Session σ} {d : Draft}
variable {explanation : Option Explanation} {planner : PlanRequest → σ → Conduct κ PlannerReply × σ}
variable {explainer : ExplainRequest → σ → Conduct κ ExplainerReply × σ}

/-- The same draft with another explanation. -/
def Draft.explained (d : Draft) (explanation : Option Explanation) : Draft := { d with explanation }

/-- The same version with another explanation. -/
def Version.explained (v : Version) (explanation : Option Explanation) : Version :=
  { v with explanation }

/-- Whether a row can be made of a version does not depend on its explanation. -/
theorem Row.ofVersion_explained (position : Nat) (v : Version) (explanation : Option Explanation) :
    (∃ fault, ofVersion position v = .error fault
        ∧ ofVersion position (v.explained explanation) = .error fault)
      ∨ ∃ r r', ofVersion position v = .ok r
          ∧ ofVersion position (v.explained explanation) = .ok r' ∧ r'.id = r.id := by
  have hplan : (v.explained explanation).plan = v.plan := rfl
  simp only [ofVersion, hplan]
  cases v.plan.toText with
  | error fault => exact .inl ⟨fault, rfl, rfl⟩
  | ok text => exact .inr ⟨_, _, rfl, rfl, rfl⟩

/-- Whether a version can be appended does not depend on its explanation. -/
theorem Storage.append_explained (s : Storage) (v : Version) (explanation : Option Explanation) :
    (∃ fault, s.append v = .error fault ∧ s.append (v.explained explanation) = .error fault)
      ∨ ∃ t u, s.append v = .ok t ∧ s.append (v.explained explanation) = .ok u := by
  have hid : (v.explained explanation).id = v.id := rfl
  cases s with
  | memory m =>
    simp only [append, Memory.append?, hid]
    cases (m.get? v.id).isSome with
    | true => exact .inl ⟨_, rfl, rfl⟩
    | false => exact .inr ⟨_, _, rfl, rfl⟩
  | database d =>
    simp only [append]
    cases d.ready with
    | error fault => exact .inl ⟨fault, rfl, rfl⟩
    | ok table =>
      simp only [Outcome.ok_bind]
      obtain ⟨fault, hrow, hrow'⟩ | ⟨r, r', hrow, hrow', hrid⟩ :=
        Row.ofVersion_explained table.nextPosition v explanation
      · rw [hrow, hrow']
        exact .inl ⟨_, rfl, rfl⟩
      · rw [hrow, hrow']
        simp only [Except.mapError, bind_string, Outcome.ok_bind, Table.insert?, hrid]
        cases (table.find? r.id).isSome with
        | true => exact .inl ⟨_, rfl, rfl⟩
        | false => exact .inr ⟨_, _, rfl, rfl⟩

/-- Nor does what is added otherwise. -/
theorem Store.add_explained (s : Store) (d : Draft) (explanation : Option Explanation) :
    (∃ fault t, s.add d = (.error fault, t) ∧ s.add (d.explained explanation) = (.error fault, t))
      ∨ ∃ v t u, s.add d = (.ok v, t)
          ∧ s.add (d.explained explanation) = (.ok (v.explained explanation), u) := by
  have hparent : (d.explained explanation).parentId = d.parentId := rfl
  have hversion : (s.mint.version (d.explained explanation)).1
      = (s.mint.version d).1.explained explanation := rfl
  have hmint : (s.mint.version (d.explained explanation)).2 = (s.mint.version d).2 := rfl
  simp only [add, hparent, hversion, hmint]
  cases checkParent s.storage d.parentId with
  | error fault => exact .inl ⟨fault, _, rfl, rfl⟩
  | ok _ =>
    simp only [Outcome.ok_bind]
    obtain ⟨fault, hv, hv'⟩ | ⟨t, u, hv, hv'⟩ :=
      Storage.append_explained s.storage (s.mint.version d).1 explanation
    · rw [hv, hv']
      exact .inl ⟨fault, _, rfl, rfl⟩
    · rw [hv, hv']
      exact .inr ⟨_, _, _, rfl, rfl⟩

/-- An explanation is one more entry in what is handed out. -/
theorem Version.payload_explained {v : Version} (hv : v.explanation = none)
    (explanation : Option Explanation) :
    (∃ fault, v.payload = .error fault ∧ (v.explained explanation).payload = .error fault)
      ∨ ∃ entries, v.payload = .ok (.object entries)
          ∧ (v.explained explanation).payload = .ok (.object
              (entries ++ explanation.toList.map fun e => ("explanation", e.toValue))) := by
  have hplan : (v.explained explanation).plan = v.plan := rfl
  simp only [payload, hplan, hv]
  cases v.plan.toValue with
  | error fault => exact .inl ⟨fault, rfl, rfl⟩
  | ok data =>
    refine .inr ⟨_, rfl, ?_⟩
    simp only [Outcome.ok_bind, Option.toList_none, List.map_nil, List.append_nil]
    rfl

namespace Conduct

/-- A conduct that leaves every history as it is. -/
def Quiet (c : Conduct κ α) : Prop := ∀ store, (Interference.interfere c.interference store).2 = store

/-- A conduct that ends with an unexpected failure. -/
def Faults (c : Conduct κ α) (store : Store) : Prop :=
  (∃ fault, (Interference.interfere c.interference store).1 = .error fault)
    ∨ ∃ fault, c.reaction = .raises fault ∧ fault.isUnexpected = true

end Conduct

namespace Work

/-- What asking a collaborator comes to that leaves the history alone. -/
theorem run_ask {timeout : Quantity} {inquiry : Inquiry} {collaborator : σ → Conduct κ α × σ}
    (hquiet : (collaborator s.team).1.Quiet) :
    (∃ answer team inquiries,
        (ask timeout inquiry collaborator).run s = .ok answer { s with team, inquiries })
      ∨ (collaborator s.team).1.Faults s.store
        ∧ ∃ team, (ask timeout inquiry collaborator).run s
          = .error .fault { s with team, inquiries := s.inquiries ++ [inquiry] } := by
  simp only [ask, undergo]
  split
  · exact .inl ⟨.error .timedOut, s.team, s.inquiries, rfl⟩
  simp only [EStateM.run_bind, EStateM.run_get, EStateM.run_modify, hquiet s.store, Conduct.Faults]
  generalize collaborator s.team = answered
  obtain ⟨conduct, team⟩ := answered
  cases houtcome : (Interference.interfere conduct.interference s.store).1 with
  | error fault => exact .inr ⟨.inl ⟨fault, rfl⟩, team, rfl⟩
  | ok _ =>
    cases hreaction : conduct.reaction with
    | answers a => exact .inl ⟨.ok a, _, _, rfl⟩
    | stalls => exact .inl ⟨.error .timedOut, _, _, rfl⟩
    | raises fault =>
      cases fault with
      | timeout _ => exact .inl ⟨.error .timedOut, _, _, rfl⟩
      | service _ message => exact .inl ⟨.error (.failed message), _, _, rfl⟩
      | value _ | runtime _ | recursion _ => exact .inr ⟨.inr ⟨_, rfl, rfl⟩, team, rfl⟩

/-- An explainer that leaves the history alone adds at most a warning, unless it fails unexpectedly. -/
theorem run_explain (limits : RequestLimits) (planner : PlanRequest → σ → Conduct κ PlannerReply × σ)
    {p : Plan} {text : String} {base : Option Version} {request : ExplainRequest}
    (hrequest : request = ⟨p, base.isSome, base.map fun _ => text⟩)
    (hquiet : (explainer request s.team).1.Quiet) :
    (∃ found team inquiries ws, ws.length ≤ 1
        ∧ (explain limits ⟨planner, some explainer⟩ p text base).run s
          = .ok found { s with team, inquiries, warnings := s.warnings ++ ws })
      ∨ (explainer request s.team).1.Faults s.store
        ∧ ∃ team, (explain limits ⟨planner, some explainer⟩ p text base).run s
          = .error .fault { s with team, inquiries := s.inquiries ++ [.explain request] } := by
  subst hrequest
  rw [explain_eq, EStateM.run_bind]
  obtain ⟨answer, team, inquiries, hask⟩ | ⟨hfaults, team, hask⟩ := run_ask hquiet
  · rw [hask]
    obtain ⟨found, ws, hws, htake⟩ := run_takeUp limits answer { s with team, inquiries }
    exact .inl ⟨found, team, inquiries, ws, hws, htake⟩
  · rw [hask]
    exact .inr ⟨hfaults, team, rfl⟩

end Work

/-- Two histories that came from one by adding one version, with an explanation and without, or by
nothing. -/
inductive Store.Twins : Store → Store → Prop
  | same (s : Store) : Twins s s
  | added {s t u : Store} {d : Draft} {v : Version} {explanation : Option Explanation}
      (hd : d.explanation = none) (h : s.add d = (.ok v, t))
      (hexplained : s.add (d.explained explanation) = (.ok (v.explained explanation), u)) : Twins u t

namespace Request

/-- What is reported of a version, with an explanation and without. -/
def SameVersion (reported plain : Option Value) : Prop :=
  reported = plain ∨ ∃ entries explanation, plain = some (.object entries)
    ∧ reported = some (.object (entries ++ [("explanation", Explanation.toValue explanation)]))

/-- A run of a request that differs from another one at most in the explanation and in one more
warning. -/
structure Agrees (run plain : RequestResult × Session σ) : Prop where
  stage : run.1.stage = plain.1.stage
  failure : run.1.failure = plain.1.failure
  warnings : ∃ ws, ws.length ≤ 1 ∧ run.1.warnings = plain.1.warnings ++ ws
  version : SameVersion run.1.version plain.1.version
  plan : run.1.plan = plain.1.plan
  code : run.1.code = plain.1.code
  changes : run.1.changes = plain.1.changes
  history : run.2.store.Twins plain.2.store

/-- A run of a request that ends where the explainer is asked, with an unexpected failure. Without the
explainer a draft is added to the same history. -/
structure Spoils (explainer : ExplainRequest → σ → Conduct κ ExplainerReply × σ)
    (run plain : RequestResult × Session σ) : Prop where
  asked : ∃ request state, run.2.inquiries = plain.2.inquiries ++ [.explain request]
    ∧ (explainer request state).1.Faults run.2.store
  result : run.1
    = ⟨.explain, some ⟨.internal, [faultMessage], []⟩, plain.1.warnings, none, none, none, none⟩
  history : ∃ d, d.explanation = none ∧ plain.2.store = (run.2.store.add d).2

theorem agrees_refl (run : RequestResult × Session σ) : Agrees run run where
  stage := rfl
  failure := rfl
  warnings := ⟨[], Nat.zero_le 1, (List.append_nil _).symm⟩
  version := .inl rfl
  plan := rfl
  code := rfl
  changes := rfl
  history := .same _

/-- Once a plan is explained, a request goes on as it does without an explanation. -/
theorem agrees_finish (text : String) (p : Plan) (code : String) (base : Option Version)
    (found : Option Explanation) {team : σ} {inquiries : List Inquiry} {ws : List String}
    (hws : ws.length ≤ 1) :
    Agrees
      (report ((Work.finish text p code base found).run
        { s with team, inquiries, warnings := s.warnings ++ ws }))
      (report ((Work.finish text p code base none).run s)) := by
  let d : Draft := ⟨text, p, code, none, base.isSome, base.map (·.id)⟩
  have hd : (⟨text, p, code, found, base.isSome, base.map (·.id)⟩ : Draft) = d.explained found := rfl
  rw [Work.run_finish, Work.run_finish, hd]
  obtain ⟨fault, t, hadd, hexplained⟩ | ⟨v, t, u, hadd, hexplained⟩ :=
    Store.add_explained s.store d found
  · rw [hadd, hexplained]
    cases fault <;> exact ⟨rfl, rfl, ⟨ws, hws, rfl⟩, .inl rfl, rfl, rfl, rfl, .same _⟩
  · rw [hadd, hexplained]
    dsimp only
    have hv : v.explanation = none :=
      congrArg Draft.explanation (Store.toDraft_of_add_ok (congrArg Prod.fst hadd))
    have hhistory : u.Twins t := .added rfl hadd hexplained
    obtain ⟨fault, hpayload, hexplained⟩ | ⟨entries, hpayload, hexplained⟩ :=
      Version.payload_explained hv found
    · rw [hpayload, hexplained]
      exact ⟨rfl, rfl, ⟨ws, hws, rfl⟩, .inl rfl, rfl, rfl, rfl, hhistory⟩
    · rw [hpayload, hexplained]
      refine ⟨rfl, rfl, ⟨ws, hws, rfl⟩, ?_, rfl, rfl, rfl, hhistory⟩
      cases found with
      | none => exact .inl (congrArg (fun entries => some (Value.object entries)) (List.append_nil _))
      | some e => exact .inr ⟨entries, e, rfl, rfl⟩

theorem store_finish (text : String) (p : Plan) (code : String) (base : Option Version) (s : Session σ) :
    ∃ d, d.explanation = none
      ∧ (report ((Work.finish text p code base none).run s)).2.store = (s.store.add d).2
      ∧ (report ((Work.finish text p code base none).run s)).2.inquiries = s.inquiries
      ∧ (report ((Work.finish text p code base none).run s)).1.warnings = s.warnings := by
  refine ⟨⟨text, p, code, none, base.isSome, base.map (·.id)⟩, rfl, ?_⟩
  rw [Work.run_finish]
  generalize s.store.add ⟨text, p, code, none, base.isSome, base.map (·.id)⟩ = added
  obtain ⟨outcome, store⟩ := added
  cases outcome with
  | error fault => cases fault <;> exact ⟨rfl, rfl, rfl⟩
  | ok v =>
    dsimp only
    cases v.payload <;> exact ⟨rfl, rfl, rfl⟩

/-- The ends of two runs of which the second one is without the explainer. -/
def Parted (explainer : ExplainRequest → σ → Conduct κ ExplainerReply × σ)
    (x y : EStateM.Result Interruption (Session σ) Completion) : Prop :=
  Agrees (report x) (report y) ∨ Spoils explainer (report x) (report y)

/-- What both runs do alike does not part them. -/
theorem parted_bind {w : Work σ α} {f g : α → Work σ Completion}
    (h : ∀ a s, Parted explainer ((f a).run s) ((g a).run s)) (s : Session σ) :
    Parted explainer ((w >>= f).run s) ((w >>= g).run s) := by
  rw [EStateM.run_bind, EStateM.run_bind]
  cases w.run s with
  | ok a t => exact h a t
  | error i t => exact .inl (agrees_refl _)

theorem parted_explain (hquiet : ∀ request state, (explainer request state).1.Quiet) (text : String)
    (p : Plan) (code : String) (base : Option Version) (hs : s.stage = .explain) :
    Parted explainer
      ((Work.explain limits ⟨planner, some explainer⟩ p text base
        >>= Work.finish text p code base).run s)
      ((Work.finish text p code base none).run s) := by
  rw [EStateM.run_bind]
  obtain ⟨found, team, inquiries, ws, hws, hrun⟩ | ⟨hfaults, team, hrun⟩ :=
    Work.run_explain limits planner rfl
      (hquiet ⟨p, base.isSome, base.map fun _ => text⟩ s.team)
  · rw [hrun]
    exact .inl (agrees_finish text p code base found hws)
  · rw [hrun]
    obtain ⟨d, hd, hstore, hinquiries, hwarnings⟩ := store_finish text p code base s
    refine .inr ⟨⟨_, s.team, ?_, hfaults⟩, ?_, d, hd, hstore⟩
    · rw [hinquiries]
      rfl
    · rw [hwarnings]
      simp [report, hs]

theorem parted_develop (hquiet : ∀ request state, (explainer request state).1.Quiet) (text : Value)
    (base? : Work σ (Option Version)) (s : Session σ) :
    Parted explainer ((Work.develop limits ⟨planner, some explainer⟩ text base?).run s)
      ((Work.develop limits ⟨planner, none⟩ text base?).run s) := by
  -- all that comes before the explainer is asked is the same in both runs
  refine parted_bind (fun _ s => ?_) s
  split
  · exact .inl (agrees_refl _)
  refine parted_bind (fun base s => ?_) s
  refine parted_bind (fun _ s => ?_) s
  refine parted_bind (fun _ s => ?_) s
  refine parted_bind (fun p s => ?_) s
  refine parted_bind (fun _ s => ?_) s
  refine parted_bind (fun _ s => ?_) s
  refine parted_bind (fun _ s => ?_) s
  refine parted_bind (fun _ s => ?_) s
  refine parted_bind (fun code s => ?_) s
  refine parted_bind (fun _ s => ?_) s
  refine parted_bind (fun _ s => ?_) s
  exact parted_explain hquiet _ p code base rfl

/-- A planner that always answers with a button. -/
def buttonPlanner : PlanRequest → Unit → Conduct (Option String) PlannerReply × Unit :=
  fun _ _ => (⟨none, .answers (.outcome (.ok buttonPlan))⟩, ())

/-- An explainer that always raises a failure. -/
def raisingExplainer (fault : CallFault) :
    ExplainRequest → Unit → Conduct (Option String) ExplainerReply × Unit :=
  fun _ _ => (⟨none, .raises fault⟩, ())

def buttonRequest : Request := .generate (.text "a button")

/-- Serving the request for a button, up to the explainer. -/
theorem serve_button
    (explainer : Option (ExplainRequest → Unit → Conduct (Option String) ExplainerReply × Unit)) :
    ∃ (code : String) (s : Session Unit), s.store = .empty ∧ s.stage = .explain
      ∧ buttonRequest.serve usualLimits ⟨buttonPlanner, explainer⟩ .empty ()
        = report ((Work.explain usualLimits ⟨buttonPlanner, explainer⟩ buttonPlan "a button" none
            >>= Work.finish "a button" buttonPlan code none).run s) := by
  have htime : usualLimits.plannerTimeout.isExpired = false := by decide +kernel
  have htext : Input.check "prompt" usualLimits.inputLength (.text "a button") = .ok "a button" := by
    decide +kernel
  have hclean : String.ofList (Input.sanitize "a button".toList) = "a button" := by decide +kernel
  obtain ⟨source, hpasses⟩ := passes_button
  have hkey := Layout.keyless?_of_isValid hpasses.layout
  rw [buttonRequest, serve, Work.handle, Work.develop, htext]
  refine ⟨String.ofList source.code, ?_, ?_, ?_, congrArg report ?_⟩
  rotate_left 3
  · simp only [start, Work.enter, Work.plan, Work.ask, Work.undergo, Work.settle,
      Interference.interfere, Work.expect, Work.validate, Work.generate, Work.lint, htime, buttonPlanner,
      hkey, hpasses.layout, hpasses.generated, hpasses.linted, hclean, EStateM.run_bind,
      EStateM.run_modify, EStateM.run_get, pure_bind, bind_assoc, bind_pure_comp, bind_map_left, id_map',
      Option.mapM_none, Option.isSome_none, Option.map_none, Bool.false_eq_true, ↓reduceIte,
      String.toList_ofList, List.nil_append]
    rfl
  · rfl
  · rfl

end Request

end Wireframe
