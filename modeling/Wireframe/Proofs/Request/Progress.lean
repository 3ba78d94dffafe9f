import Mathlib.Order.Defs.LinearOrder
import Mathlib.Order.Lattice
import Wireframe.Proofs.Layout.Report
import Wireframe.Proofs.Request.Explaining

/-! What a request has produced at each stage, and whom it has asked by then. A failure reports all of it,
unless it is of the kind for which nothing else is told. -/
namespace Wireframe

variable {κ σ α β : Type} {limits : RequestLimits} {team : Crew κ σ} {state : σ}
variable {s t : Session σ} {p : Plan} {q : PlanRequest} {source : Source} {stage : Stage} {time : Quantity}
variable {text : String} {base : Option Version} {inquiry : Inquiry}
variable {collaborator : σ → Conduct κ α × σ}

/-- The place of a stage in their order. -/
def Stage.rank : Stage → Nat
  | input => 0
  | sanitize => 1
  | plan => 2
  | validate => 3
  | generate => 4
  | lint => 5
  | explain => 6
  | store => 7
  | complete => 8

theorem Stage.rank_injective : Function.Injective rank := by
  intro a b h
  cases a <;> cases b <;> first | rfl | cases h

instance : LinearOrder Stage := LinearOrder.lift' Stage.rank Stage.rank_injective

def Inquiry.isPlan : Inquiry → Bool
  | plan _ => true
  | explain _ => false

/-- The plan with which a planner answers that was not asked before. -/
def Crew.Plans (limits : RequestLimits) (team : Crew κ σ) (state : σ) (q : PlanRequest) (p : Plan) : Prop :=
  ∃ reply, (team.planner q state).1.reaction = .answers reply ∧ reply.Gives limits p

/-- What a request has produced when it is at a stage, and what it has asked: the planner from its own stage
on and once, the explainer from its own stage on and once, and about no plan but the planner's one when it has
passed every check. -/
structure Trail (limits : RequestLimits) (team : Crew κ σ) (state : σ) (stage : Stage)
    (asked : List Inquiry) (plan? : Option Plan) (code? : Option String) : Prop where
  unplanned : stage < .validate → plan? = none
  planned : .validate ≤ stage → ∃ q p, .plan q ∈ asked ∧ team.Plans limits state q p ∧ plan? = some p
  uncoded : stage < .lint → code? = none
  coded : .lint ≤ stage → ∃ p source, plan? = some p
    ∧ Source.generate limits.capacity.literal p limits.treeDepth = .ok source
    ∧ code? = some (String.ofList source.code)
  planner : ∀ q, .plan q ∈ asked → .plan ≤ stage
  planner_once : asked.countP (·.isPlan) ≤ 1
  explainer : ∀ e, .explain e ∈ asked → .explain ≤ stage
    ∧ ∃ source, plan? = some e.plan ∧ e.plan.Passes limits source
  explainer_once : asked.countP (!·.isPlan) ≤ 1

/-- The course of a request: its inquiries, plan and code change together with its stage. -/
inductive Progress (limits : RequestLimits) (team : Crew κ σ) (state : σ) :
    Stage → List Inquiry → Option Plan → Option String → Prop
  | begun {stage : Stage} : stage ≤ .plan → Progress limits team state stage [] none none
  | planning (q : PlanRequest) : Progress limits team state .plan [.plan q] none none
  | planned {stage : Stage} {q : PlanRequest} {p : Plan} : .validate ≤ stage → stage ≤ .generate →
      team.Plans limits state q p → Progress limits team state stage [.plan q] (some p) none
  | generated {q : PlanRequest} {p : Plan} {source : Source} : team.Plans limits state q p →
      Source.generate limits.capacity.literal p limits.treeDepth = .ok source →
      Progress limits team state .lint [.plan q] (some p) (some (String.ofList source.code))
  | passed {stage : Stage} {q : PlanRequest} {p : Plan} {source : Source} : .explain ≤ stage →
      team.Plans limits state q p → p.Passes limits source →
      Progress limits team state stage [.plan q] (some p) (some (String.ofList source.code))
  | explained {stage : Stage} {q : PlanRequest} {e : ExplainRequest} {source : Source} : .explain ≤ stage →
      team.Plans limits state q e.plan → e.plan.Passes limits source →
      Progress limits team state stage [.plan q, .explain e] (some e.plan) (some (String.ofList source.code))

/-- A session that is on its course. -/
def Session.Follows (limits : RequestLimits) (team : Crew κ σ) (state : σ) (s : Session σ) : Prop :=
  Progress limits team state s.stage s.inquiries s.plan s.code

namespace Progress

variable {asked : List Inquiry} {plan? : Option Plan} {code? : Option String}

theorem plan_eq_none (h : Progress limits team state stage asked plan? code?) (hs : stage < .validate) :
    plan? = none := by
  cases h with
  | begun _ | planning _ => rfl
  | planned hlow _ _ => exact absurd hs hlow.not_gt
  | generated _ _ => exact absurd hs (by decide)
  | passed hlow _ _ | explained hlow _ _ => exact absurd (hs.trans_le (by decide)) hlow.not_gt

theorem exists_plan (h : Progress limits team state stage asked plan? code?) (hs : .validate ≤ stage) :
    ∃ q p, .plan q ∈ asked ∧ team.Plans limits state q p ∧ plan? = some p := by
  cases h with
  | begun hhigh => exact absurd (hs.trans hhigh) (by decide)
  | planning _ => exact absurd hs (by decide)
  | planned _ _ hplans | generated hplans _ | passed _ hplans _ | explained _ hplans _ =>
    exact ⟨_, _, List.mem_cons_self, hplans, rfl⟩

theorem code_eq_none (h : Progress limits team state stage asked plan? code?) (hs : stage < .lint) :
    code? = none := by
  cases h with
  | begun _ | planning _ | planned _ _ _ => rfl
  | generated _ _ => exact absurd hs (by decide)
  | passed hlow _ _ | explained hlow _ _ => exact absurd (hs.trans_le (by decide)) hlow.not_gt

theorem exists_code (h : Progress limits team state stage asked plan? code?) (hs : .lint ≤ stage) :
    ∃ p source, plan? = some p ∧ Source.generate limits.capacity.literal p limits.treeDepth = .ok source
      ∧ code? = some (String.ofList source.code) := by
  cases h with
  | begun hhigh => exact absurd (hs.trans hhigh) (by decide)
  | planning _ => exact absurd hs (by decide)
  | planned _ hhigh _ => exact absurd (hs.trans hhigh) (by decide)
  | generated _ hsource => exact ⟨_, _, rfl, hsource, rfl⟩
  | passed _ _ hpasses | explained _ _ hpasses => exact ⟨_, _, rfl, hpasses.generated, rfl⟩

theorem le_of_mem_plan (h : Progress limits team state stage asked plan? code?) (hq : .plan q ∈ asked) :
    .plan ≤ stage := by
  cases h with
  | begun _ => cases hq
  | planning _ => exact le_rfl
  | planned hlow _ _ | passed hlow _ _ | explained hlow _ _ => exact le_trans (by decide) hlow
  | generated _ _ => decide

theorem of_mem_explain {e : ExplainRequest} (h : Progress limits team state stage asked plan? code?)
    (he : .explain e ∈ asked) :
    .explain ≤ stage ∧ ∃ source, plan? = some e.plan ∧ e.plan.Passes limits source := by
  cases h with
  | begun _ | planning _ | planned _ _ _ | generated _ _ | passed _ _ _ => simp at he
  | @explained _ q e' source hlow _ hpasses =>
    obtain rfl : e = e' := by simpa using he
    exact ⟨hlow, source, rfl, hpasses⟩

theorem count_le_one (h : Progress limits team state stage asked plan? code?) :
    asked.countP (·.isPlan) ≤ 1 ∧ asked.countP (!·.isPlan) ≤ 1 := by
  cases h <;> simp [Inquiry.isPlan]

/-- Once the explainer may be asked, neither the plan nor the code changes. -/
theorem later {next : Stage} (h : Progress limits team state stage asked plan? code?)
    (hs : .explain ≤ stage) (hnext : .explain ≤ next) : Progress limits team state next asked plan? code? := by
  cases h with
  | begun hhigh => exact absurd (hs.trans hhigh) (by decide)
  | planning _ | generated _ _ => exact absurd hs (by decide)
  | planned _ hhigh _ => exact absurd (hs.trans hhigh) (by decide)
  | passed _ hplans hpasses => exact .passed hnext hplans hpasses
  | explained _ hplans hpasses => exact .explained hnext hplans hpasses

theorem trail (h : Progress limits team state stage asked plan? code?) :
    Trail limits team state stage asked plan? code? where
  unplanned := h.plan_eq_none
  planned := h.exists_plan
  uncoded := h.code_eq_none
  coded := h.exists_code
  planner _ := h.le_of_mem_plan
  planner_once := h.count_le_one.1
  explainer _ := h.of_mem_explain
  explainer_once := h.count_le_one.2

end Progress

namespace Session

/-- A session in which nobody has been asked yet. -/
structure Begun (state : σ) (s : Session σ) : Prop where
  team : s.team = state
  early : s.stage ≤ .plan
  asked : s.inquiries = []
  plan : s.plan = none
  code : s.code = none

theorem Begun.follows (h : s.Begun state) : s.Follows limits team state := by
  rw [Follows, h.asked, h.plan, h.code]
  exact .begun h.early

theorem Begun.enter (h : s.Begun state) (hstage : stage ≤ .plan) :
    ({ s with stage } : Session σ).Begun state := ⟨h.team, hstage, h.asked, h.plan, h.code⟩

/-- A session in which the planner is asked, and may have been left out for want of time. -/
structure Planning (q : PlanRequest) (s : Session σ) : Prop where
  stage : s.stage = .plan
  asked : s.inquiries = [] ∨ s.inquiries = [.plan q]
  plan : s.plan = none
  code : s.code = none

theorem Planning.follows (h : s.Planning q) : s.Follows limits team state := by
  rw [Follows, h.stage, h.plan, h.code]
  rcases h.asked with hasked | hasked
  · rw [hasked]
    exact .begun le_rfl
  · rw [hasked]
    exact .planning q

/-- A session in which nobody was asked but the planner, with a plan and code as they are at a stage. -/
structure Reaches (stage : Stage) (q : PlanRequest) (plan? : Option Plan) (code? : Option String)
    (s : Session σ) : Prop where
  stage : s.stage = stage
  asked : s.inquiries = [.plan q]
  plan : s.plan = plan?
  code : s.code = code?

theorem Reaches.follows {plan? : Option Plan} {code? : Option String} (h : s.Reaches stage q plan? code?)
    (hp : Progress limits team state stage [.plan q] plan? code?) : s.Follows limits team state := by
  rw [Follows, h.stage, h.asked, h.plan, h.code]
  exact hp

end Session

namespace Work

variable {P : Session σ → Prop} {Q : α → Session σ → Prop} {R : β → Session σ → Prop}
variable {w : Work σ α} {f : α → Work σ β}

/-- A part of a request that leads from one property of the session to another. Where it is interrupted, the
session is on its course, and a failure is not of the kind for which nothing else is told. -/
def Advances (limits : RequestLimits) (team : Crew κ σ) (state : σ) (P : Session σ → Prop) (w : Work σ α)
    (Q : α → Session σ → Prop) : Prop :=
  ∀ s, P s →
    match w.run s with
    | .ok a t => Q a t
    | .error i t => t.Follows limits team state ∧ ∀ f, i = .failure f → f.kind ≠ .internal

theorem advances_pure {a : α} (h : ∀ s, P s → Q a s) : Advances limits team state P (pure a) Q := h

theorem advances_modify {g : Session σ → Session σ} {Q : PUnit → Session σ → Prop}
    (h : ∀ s, P s → Q ⟨⟩ (g s)) : Advances limits team state P (modify g) Q := h

theorem advances_fail {kind : FailureKind} {errors : List String} {types : List Value}
    (hkind : kind ≠ .internal) (h : ∀ s, P s → s.Follows limits team state) :
    Advances limits team state P (fail kind errors types) Q := by
  intro s hs
  refine ⟨h s hs, fun f hf => ?_⟩
  cases hf
  exact hkind

theorem advances_fault (h : ∀ s, P s → s.Follows limits team state) :
    Advances limits team state P (throw .fault) Q := fun s hs => ⟨h s hs, nofun⟩

theorem Advances.bind (hw : Advances limits team state P w Q)
    (hf : ∀ a, Advances limits team state (Q a) (f a) R) : Advances limits team state P (w >>= f) R := by
  intro s hs
  have hfirst := hw s hs
  rw [EStateM.run_bind]
  cases hrun : w.run s with
  | ok a t =>
    rw [hrun] at hfirst
    exact hf a t hfirst
  | error i t =>
    rw [hrun] at hfirst
    exact hfirst

theorem advances_assume {φ : Prop} (h : φ → Advances limits team state P w Q) :
    Advances limits team state (fun s => φ ∧ P s) w Q := fun s hs => h hs.1 s hs.2

theorem advances_exists {ι : Type} {P : ι → Session σ → Prop}
    (h : ∀ i, Advances limits team state (P i) w Q) :
    Advances limits team state (fun s => ∃ i, P i s) w Q := fun s ⟨i, hs⟩ => h i s hs

theorem advances_expect {ε : Type} (e : Except ε α) (h : ∀ s, P s → s.Follows limits team state) :
    Advances limits team state P (expect e) fun a s => e = .ok a ∧ P s := by
  cases e with
  | ok a => exact advances_pure fun s hs => ⟨rfl, hs⟩
  | error fault => exact advances_fault h

/-! The parts of a request in their order. -/

theorem advances_baseVersion (id : Option String) (h : ∀ s, P s → s.Follows limits team state) :
    Advances limits team state P (baseVersion id) fun _ => P := by
  have hfound (found : Except HistoryError (Option Version)) (message : String)
      (next : Option Version → Work σ Version) (hsome : ∀ v, next (some v) = pure v)
      (hnone : next none = fail .versionNotFound [message] []) :
      Advances limits team state P (expect found >>= next) fun _ => P := by
    refine (advances_expect found h).bind fun v? => ?_
    cases v? with
    | some v =>
      rw [hsome]
      exact advances_pure fun s hs => hs.2
    | none =>
      rw [hnone]
      exact advances_fail (by decide) fun s hs => h s hs.2
  intro s hs
  cases id with
  | none => exact hfound _ _ _ (fun _ => rfl) rfl s hs
  | some id => exact hfound _ _ _ (fun _ => rfl) rfl s hs

variable {plan? : Option Plan} {code? : Option String}

/-! The checks of a plan, each at a stage of its own. -/

theorem advances_enter (next : Stage) : Advances limits team state (fun s => s.Reaches stage q plan? code?)
    (enter next) fun _ s => s.Reaches next q plan? code? :=
  advances_modify fun _ hs => ⟨rfl, hs.asked, hs.plan, hs.code⟩

theorem advances_warn (ws : List String) :
    Advances limits team state (fun s => s.Reaches stage q plan? code?)
      (modify fun s => { s with warnings := s.warnings ++ ws }) fun _ s => s.Reaches stage q plan? code? :=
  advances_modify fun _ hs => ⟨hs.stage, hs.asked, hs.plan, hs.code⟩

theorem advances_validate (limits : RequestLimits) (hplans : team.Plans limits state q p) :
    Advances limits team state (fun s => s.Reaches .validate q (some p) none) (validate limits p) fun _ s =>
      (p.layout.check limits.treeDepth true).isValid = true ∧ s.Reaches .validate q (some p) none := by
  have hfollows (s : Session σ) (hs : s.Reaches .validate q (some p) none) : s.Follows limits team state :=
    hs.follows (.planned le_rfl (by decide) hplans)
  unfold validate
  dsimp only
  split
  · exact (advances_fault hfollows).bind (Q := fun _ _ => False) fun _ _ => False.elim
  · refine (advances_warn _).bind fun _ => ?_
    split
    · exact advances_pure fun s hs => ⟨‹_›, hs⟩
    · exact advances_fail (by decide) hfollows

theorem advances_generate (limits : RequestLimits) (hplans : team.Plans limits state q p) :
    Advances limits team state (fun s => s.Reaches .generate q (some p) none) (generate limits p) fun code s =>
      ∃ source, Source.generate limits.capacity.literal p limits.treeDepth = .ok source
        ∧ code = String.ofList source.code ∧ s.Reaches .generate q (some p) (some code) := by
  unfold generate
  split
  · rename_i source hsource
    refine Advances.bind (Q := fun _ s => s.Reaches .generate q (some p) (some (String.ofList source.code)))
      (advances_modify fun s hs => ⟨hs.stage, hs.asked, hs.plan, rfl⟩) fun _ => ?_
    exact advances_pure fun s hs => ⟨source, hsource, rfl, hs⟩
  · exact advances_fault fun s hs => hs.follows (.planned (by decide) le_rfl hplans)
  · exact advances_fail (by decide) fun s hs => hs.follows (.planned (by decide) le_rfl hplans)

theorem advances_lint (hplans : team.Plans limits state q p)
    (hsource : Source.generate limits.capacity.literal p limits.treeDepth = .ok source) :
    Advances limits team state (fun s => s.Reaches .lint q (some p) (some (String.ofList source.code)))
      (lint (String.ofList source.code)) fun _ s => (Lint.check source.code).isValid = true
        ∧ s.Reaches .lint q (some p) (some (String.ofList source.code)) := by
  unfold lint
  rw [String.toList_ofList]
  refine (advances_warn _).bind fun _ => ?_
  split
  · exact advances_pure fun s hs => ⟨‹_›, hs⟩
  · exact advances_fail (by decide) fun s hs => hs.follows (.generated hplans hsource)

theorem advances_examine (limits : RequestLimits) (hplans : team.Plans limits state q p) :
    Advances limits team state (fun s => s.Reaches .plan q none none) (examine limits p) fun code s =>
      ∃ source, p.Passes limits source ∧ code = String.ofList source.code
        ∧ s.Reaches .explain q (some p) (some code) := by
  refine Advances.bind (Q := fun _ s => s.Reaches .plan q (some p) none)
    (advances_modify fun s hs => ⟨hs.stage, hs.asked, rfl, hs.code⟩) fun _ => ?_
  refine (advances_enter _).bind fun _ => (advances_validate limits hplans).bind fun _ => ?_
  refine advances_assume fun hlayout => (advances_enter _).bind fun _ => ?_
  refine (advances_generate limits hplans).bind fun code => advances_exists fun source => ?_
  refine advances_assume fun hsource => advances_assume fun hcode => ?_
  subst hcode
  refine (advances_enter _).bind fun _ => (advances_lint hplans hsource).bind fun _ => ?_
  refine advances_assume fun hlint => (advances_enter _).bind fun _ => ?_
  exact advances_pure fun s hs => ⟨source, ⟨hlayout, hsource, hlint⟩, rfl, hs⟩

/-- What is left to do changes neither the plan nor the code. -/
theorem advances_finish (text : String) (p : Plan) (code : String) (base : Option Version)
    (found : Option Explanation) :
    Advances limits team state (fun s => s.Follows limits team state ∧ .explain ≤ s.stage)
      (finish text p code base found) fun _ _ => True := by
  intro s ⟨hs, hstage⟩
  have hlater (store : Store) (next : Stage) (hnext : .explain ≤ next) :
      ({ s with store, stage := next } : Session σ).Follows limits team state := hs.later hstage hnext
  rw [run_finish]
  generalize s.store.add ⟨text, p, code, found, base.isSome, base.map (·.id)⟩ = added
  obtain ⟨outcome, store⟩ := added
  cases outcome with
  | ok v =>
    dsimp only
    cases v.payload with
    | ok payload => trivial
    | error fault => exact ⟨hlater store _ (by decide), nofun⟩
  | error fault =>
    cases fault with
    | parentMissing id =>
      refine ⟨hlater store _ (by decide), fun f hf => ?_⟩
      cases hf
      exact FailureKind.noConfusion
    | _ => exact ⟨hlater store _ (by decide), nofun⟩

theorem accept_undecoded {raw : Value} {o : PlanOutcome} (h : PlanOutcome.decode limits.capacity raw = .ok o) :
    (accept limits (.undecoded raw) : Work σ Plan) = accept limits (.outcome o) := by
  simp only [accept, h, expect, pure_bind]

/-- The plan is the one that the reply gives. -/
theorem advances_accept (reply : PlannerReply) :
    Advances limits team state
      (fun t => t.Planning q ∧ t.inquiries = [.plan q] ∧ (team.planner q state).1.reaction = .answers reply)
      (accept limits reply) fun p t => ∃ q, team.Plans limits state q p ∧ t.Reaches .plan q none none := by
  have houtcome (o : PlanOutcome) (hgives : ∀ p, o = .ok p → reply.Gives limits p) :
      Advances limits team state
        (fun t => t.Planning q ∧ t.inquiries = [.plan q] ∧ (team.planner q state).1.reaction = .answers reply)
        (accept limits (.outcome o)) fun p t => ∃ q, team.Plans limits state q p ∧ t.Reaches .plan q none none := by
    cases o with
    | ok p =>
      refine advances_pure ?_
      rintro t ⟨hplanning, hasked, hanswers⟩
      exact ⟨q, ⟨reply, hanswers, hgives p rfl⟩, hplanning.stage, hasked, hplanning.plan, hplanning.code⟩
    | failed message => exact advances_fail (by decide) fun s hs => hs.1.follows
    | malformed message raw => exact advances_fail (by decide) fun s hs => hs.1.follows
  cases reply with
  | outcome o => exact houtcome o fun p hp => hp
  | undecoded raw =>
    cases hraw : PlanOutcome.decode limits.capacity raw with
    | ok o =>
      rw [accept_undecoded hraw]
      exact houtcome o fun p hp => hraw.trans (congrArg Except.ok hp)
    | error fault =>
      have hfault : (accept limits (.undecoded raw) : Work σ Plan) = throw .fault := by
        simp only [accept, hraw, expect]
        rfl
      rw [hfault]
      exact advances_fault fun s hs => hs.1.follows

variable [Interference κ]

/-- What asking a collaborator comes to: it is not asked, or it is, and then an answer is its own. -/
theorem run_ask_cases (time : Quantity) (inquiry : Inquiry) (collaborator : σ → Conduct κ α × σ)
    (s : Session σ) :
    match (ask time inquiry collaborator).run s with
    | .ok answer t => (t = s ∧ answer = .error .timedOut)
        ∨ t = s.heed inquiry collaborator
          ∧ ∀ a, answer = .ok a → (collaborator s.team).1.reaction = .answers a
    | .error i t => i = .fault ∧ t = s.heed inquiry collaborator := by
  cases htime : time.isExpired with
  | true =>
    rw [run_ask_expired htime]
    exact .inl ⟨rfl, rfl⟩
  | false =>
    cases hok : (Interference.interfere (collaborator s.team).1.interference s.store).1 with
    | error fault =>
      have hrun : (ask time inquiry collaborator).run s = .error .fault (s.heed inquiry collaborator) := by
        rw [ask, htime]
        simp only [undergo, Bool.false_eq_true, ↓reduceIte, EStateM.run_bind, EStateM.run_get,
          EStateM.run_modify, hok, expect]
        rfl
      rw [hrun]
      exact ⟨rfl, rfl⟩
    | ok done =>
      rw [run_ask_heed htime hok]
      cases hreaction : (collaborator s.team).1.reaction with
      | answers a => exact .inr ⟨rfl, fun b hb => by cases hb; rfl⟩
      | stalls => exact .inr ⟨rfl, fun b hb => by cases hb⟩
      | raises fault =>
        cases fault with
        | timeout _ | service _ _ => exact .inr ⟨rfl, fun b hb => by cases hb⟩
        | value _ | runtime _ | recursion _ => exact ⟨rfl, rfl⟩

theorem advances_plan (limits : RequestLimits) (team : Crew κ σ) (state : σ) (text : String)
    (base : Option Version) :
    Advances limits team state (fun s => s.Begun state ∧ s.stage = .plan) (plan limits team text base)
      fun p t => ∃ q, team.Plans limits state q p ∧ t.Reaches .plan q none none := by
  unfold plan
  have hbase : Advances limits team state (fun s => s.Begun state ∧ s.stage = .plan)
      (base.mapM fun v => expect v.plan.toText) fun _ s => s.Begun state ∧ s.stage = .plan := by
    cases base with
    | none => exact advances_pure fun s hs => hs
    | some v =>
      rw [Option.mapM_some]
      exact (advances_expect v.plan.toText fun s hs => hs.1.follows).bind fun _ =>
        advances_pure fun s hs => hs.2
  refine hbase.bind fun existing => ?_
  let q : PlanRequest := ⟨text, base.isSome, existing⟩
  have hask : Advances limits team state (fun s => s.Begun state ∧ s.stage = .plan)
      (ask limits.plannerTimeout (.plan q) (team.planner q)) fun answer t => t.Planning q
        ∧ ∀ reply, answer = .ok reply →
          t.inquiries = [.plan q] ∧ (team.planner q state).1.reaction = .answers reply := by
    rintro s ⟨hs, hstage⟩
    have hheed : (s.heed (.plan q) (team.planner q)).Planning q :=
      ⟨hstage, .inr (congrArg (· ++ [Inquiry.plan q]) hs.asked), hs.plan, hs.code⟩
    have hcases := run_ask_cases limits.plannerTimeout (.plan q) (team.planner q) s
    split at hcases
    · rename_i answer t hrun
      rw [hrun]
      rcases hcases with ⟨rfl, rfl⟩ | ⟨rfl, hanswer⟩
      · exact ⟨⟨hstage, .inl hs.asked, hs.plan, hs.code⟩, fun reply hreply => by cases hreply⟩
      · refine ⟨hheed, fun reply hreply => ⟨congrArg (· ++ [Inquiry.plan q]) hs.asked, ?_⟩⟩
        rw [← hs.team]
        exact hanswer reply hreply
    · rename_i i t hrun
      rw [hrun]
      obtain ⟨rfl, rfl⟩ := hcases
      exact ⟨hheed.follows, fun f hf => by cases hf⟩
  refine hask.bind fun answer => ?_
  split
  · exact advances_fail (by decide) fun s hs => hs.1.follows
  · exact advances_fail (by decide) fun s hs => hs.1.follows
  · rename_i reply
    intro s hs
    exact advances_accept reply s ⟨hs.1, hs.2 reply rfl⟩

theorem advances_explain (limits : RequestLimits) (text : String) (base : Option Version)
    (hplans : team.Plans limits state q p) (hpasses : p.Passes limits source) :
    Advances limits team state
      (fun s => s.Reaches .explain q (some p) (some (String.ofList source.code)))
      (explain limits team p text base) fun _ s => s.Follows limits team state ∧ .explain ≤ s.stage := by
  intro s hs
  have hpassed : s.Follows limits team state := hs.follows (.passed le_rfl hplans hpasses)
  obtain ⟨planner, explainer?⟩ := team
  cases explainer? with
  | none => exact ⟨hpassed, hs.stage.ge⟩
  | some explainer =>
    let e : ExplainRequest := ⟨p, base.isSome, base.map fun _ => text⟩
    have hheed : (s.heed (.explain e) (explainer e)).Follows limits ⟨planner, some explainer⟩ state := by
      rw [Session.Follows, Session.heed, hs.stage, hs.asked, hs.plan, hs.code]
      exact .explained (e := e) le_rfl hplans hpasses
    have hcases := run_ask_cases limits.explainerTimeout (.explain e) (explainer e) s
    rw [explain_eq, EStateM.run_bind]
    split at hcases
    · rename_i answer t hrun
      rw [hrun]
      obtain ⟨found, ws, -, htake⟩ := run_takeUp limits answer t
      dsimp only
      rw [htake]
      rcases hcases with ⟨rfl, -⟩ | ⟨rfl, -⟩
      · exact ⟨hpassed, hs.stage.ge⟩
      · exact ⟨hheed, hs.stage.ge⟩
    · rename_i i t hrun
      rw [hrun]
      obtain ⟨rfl, rfl⟩ := hcases
      exact ⟨hheed, nofun⟩

theorem advances_build (limits : RequestLimits) (text : String) (base : Option Version) :
    Advances limits team state (fun s => s.Begun state) (build limits team text base) fun _ _ => True := by
  refine Advances.bind (Q := fun _ s => s.Begun state)
    (advances_modify fun s hs => hs.enter (by decide)) fun _ => ?_
  refine Advances.bind (Q := fun _ s => s.Begun state ∧ s.stage = .plan)
    (advances_modify fun s hs => ⟨hs.enter le_rfl, rfl⟩) fun _ => ?_
  refine (advances_plan limits team state _ base).bind fun p => advances_exists fun q => ?_
  refine advances_assume fun hplans => (advances_examine limits hplans).bind fun code => ?_
  refine advances_exists fun source => advances_assume fun hpasses => advances_assume fun hcode => ?_
  subst hcode
  exact (advances_explain limits _ base hplans hpasses).bind fun found => advances_finish _ _ _ _ _

theorem advances_develop (limits : RequestLimits) (text : Value) {base? : Work σ (Option Version)}
    (hbase : Advances limits team state (fun s => s.Begun state) base? fun _ s => s.Begun state) :
    Advances limits team state (fun s => s.Begun state) (develop limits team text base?)
      fun _ _ => True := by
  rw [develop_eq]
  refine Advances.bind (Q := fun _ s => s.Begun state)
    (advances_modify fun s hs => hs.enter (by decide)) fun _ => ?_
  split
  · exact advances_fail (by decide) fun s hs => hs.follows
  · exact hbase.bind fun base => advances_build limits _ base

end Work

namespace Request

variable [Interference κ]

/-- A request for a plan, as opposed to one for a version that is already there. -/
def develops : Request → Bool
  | generate _ | modify _ _ => true
  | rollback _ | lookup _ => false

theorem advances_handle {r : Request} (hr : r.develops = true) (limits : RequestLimits) (team : Crew κ σ)
    (state : σ) :
    Work.Advances limits team state (fun s => s.Begun state) (Work.handle limits team r)
      fun _ _ => True := by
  cases r with
  | generate text => exact Work.advances_develop limits text (Work.advances_pure fun s hs => hs)
  | modify text id =>
    refine Work.advances_develop limits text ?_
    exact (Work.advances_baseVersion id fun s hs => hs.follows).bind fun v => Work.advances_pure fun s hs => hs
  | rollback _ | lookup _ => cases hr

/-- A failure comes at a stage of the course of its request: the plan is the planner's from the check of
layouts on, the code its source from the check of the source on, each collaborator was asked at most once and
not before its stage, and the explainer only about the plan when it had passed every check. Plan and code are
reported, but for the kind of failure for which nothing else is told. -/
theorem trail_of_failure {r : Request} (hr : r.develops = true) (limits : RequestLimits) (team : Crew κ σ)
    (store : Store) (state : σ) {f : Failure}
    (hf : (r.serve limits team store state).1.failure = some f) :
    let run := r.serve limits team store state
    ∃ plan? code?, Trail limits team state run.1.stage run.2.inquiries plan? code?
      ∧ run.1.plan = (if f.kind = .internal then none else plan?)
      ∧ run.1.code = (if f.kind = .internal then none else code?) := by
  have hcourse := advances_handle hr limits team state (start store state)
    ⟨rfl, (by decide : Stage.input ≤ .plan), rfl, rfl, rfl⟩
  rw [serve] at hf ⊢
  cases hrun : (Work.handle limits team r).run (start store state) with
  | ok c t =>
    rw [hrun] at hf
    cases hf
  | error i t =>
    rw [hrun] at hf hcourse
    obtain ⟨hfollows, hkind⟩ := hcourse
    refine ⟨t.plan, t.code, ?_⟩
    cases i with
    | fault =>
      cases hf
      exact ⟨hfollows.trail, (if_pos rfl).symm, (if_pos rfl).symm⟩
    | failure g =>
      cases hf
      exact ⟨hfollows.trail, (if_neg (hkind _ rfl)).symm, (if_neg (hkind _ rfl)).symm⟩

/-- A planner that always answers with a plan. -/
def planning (p : Plan) : PlanRequest → Unit → Conduct (Option String) PlannerReply × Unit :=
  fun _ _ => (⟨none, .answers (.outcome (.ok p))⟩, ())

/-- A layout of no component. -/
def unknownPlan : Plan := .ofTree "a blob" (.node "Blob" none none)

/-- A layout of no component is refused where layouts are checked, and reported with its plan. -/
theorem trail_of_blob :
    let run := buttonRequest.serve usualLimits ⟨planning unknownPlan, none⟩ .empty ()
    run.1.stage = .validate ∧ run.1.plan = some unknownPlan
      ∧ Trail usualLimits ⟨planning unknownPlan, none⟩ () run.1.stage run.2.inquiries run.1.plan
        run.1.code := by
  have htime : usualLimits.plannerTimeout.isExpired = false := by decide +kernel
  have htext : Input.check "prompt" usualLimits.inputLength (.text "a button") = .ok "a button" := by
    decide +kernel
  have hclean : String.ofList (Input.sanitize "a button".toList) = "a button" := by decide +kernel
  have hunfolds : unknownPlan.layout.Unfolds (.node "Blob" none none) := Layout.unfolds_ofTree _
  have hdistinct : unknownPlan.layout.Distinct := Layout.distinct_ofTree _
  have hkey : (unknownPlan.layout.check usualLimits.treeDepth true).keyless? = none :=
    Layout.keyless?_check_tree hunfolds hdistinct
  have hvalid : (unknownPlan.layout.check usualLimits.treeDepth true).isValid = false := by
    rw [LayoutReport.isValid, Layout.errors_check hunfolds hdistinct]
    decide +kernel
  have hrun : ∃ f t, buttonRequest.serve usualLimits ⟨planning unknownPlan, none⟩ .empty ()
      = report (.error (.failure f) t) ∧ f.kind = .schemaViolation ∧ t.stage = .validate
        ∧ t.plan = some unknownPlan := by
    simp only [buttonRequest, serve, Work.handle, Work.develop, htext, start, Work.enter, Work.plan,
      Work.ask, Work.undergo, Work.settle, Interference.interfere, Work.expect, Work.validate, htime,
      planning, hkey, hvalid, hclean, EStateM.run_bind, EStateM.run_modify, EStateM.run_get, pure_bind,
      bind_assoc, bind_pure_comp, bind_map_left, id_map', Option.mapM_none, Option.isSome_none,
      Option.map_none, Bool.false_eq_true, ↓reduceIte, List.nil_append]
    exact ⟨_, _, rfl, rfl, rfl, rfl⟩
  obtain ⟨f, t, hrun, hkind, hstage, hplan⟩ := hrun
  have hreported := trail_of_failure (r := buttonRequest) rfl usualLimits ⟨planning unknownPlan, none⟩
    .empty () (f := f) (by rw [hrun]; rfl)
  have hnot : f.kind ≠ .internal := by
    rw [hkind]
    exact FailureKind.noConfusion
  simp only [if_neg hnot] at hreported
  obtain ⟨plan?, code?, htrail, rfl, rfl⟩ := hreported
  refine ⟨?_, ?_, htrail⟩
  · rw [hrun]
    exact hstage
  · rw [hrun]
    exact hplan

/-- An explainer that fails unexpectedly takes the plan and the code with it. -/
theorem not_trail_of_raise :
    let run := buttonRequest.serve usualLimits
      ⟨buttonPlanner, some (raisingExplainer (.runtime "boom"))⟩ .empty ()
    run.1.stage = .explain ∧ run.1.failure = some ⟨.internal, [faultMessage], []⟩
      ∧ ¬ Trail usualLimits ⟨buttonPlanner, some (raisingExplainer (.runtime "boom"))⟩ ()
        run.1.stage run.2.inquiries run.1.plan run.1.code := by
  have htime : usualLimits.explainerTimeout.isExpired = false := by decide +kernel
  obtain ⟨code, s, -, hstage, hserve⟩ := serve_button (some (raisingExplainer (.runtime "boom")))
  have hrun : ∃ t : Session Unit, t.stage = .explain
      ∧ buttonRequest.serve usualLimits ⟨buttonPlanner, some (raisingExplainer (.runtime "boom"))⟩ .empty ()
        = report (.error .fault t) := by
    refine ⟨s.heed (.explain ⟨buttonPlan, false, none⟩)
      (raisingExplainer (.runtime "boom") ⟨buttonPlan, false, none⟩), hstage, ?_⟩
    rw [hserve, Work.explain_eq, Work.ask, htime]
    rfl
  obtain ⟨t, hstage, hrun⟩ := hrun
  rw [hrun]
  have hlate : .validate ≤ t.stage := by
    rw [hstage]
    decide
  refine ⟨hstage, rfl, fun htrail => ?_⟩
  obtain ⟨q, p, -, -, hplan⟩ := htrail.planned hlate
  cases hplan

end Request

end Wireframe
