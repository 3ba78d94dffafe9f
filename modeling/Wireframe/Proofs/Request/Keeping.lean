import Wireframe.Proofs.History.Store
import Wireframe.Request.Serve

/-! Parts of a request that keep a property of the session, however they end, and the course of a request
through them. -/
namespace Wireframe

variable {κ σ α β ε : Type} [Interference κ] {team : Crew κ σ}

/-- A plan that passes every check, and the source that is generated from it. -/
structure Plan.Passes (p : Plan) (limits : RequestLimits) (source : Source) : Prop where
  layout : (p.layout.check limits.treeDepth true).isValid = true
  generated : Source.generate limits.capacity.literal p limits.treeDepth = .ok source
  linted : (Lint.check source.code).isValid = true

namespace Crew

/-- What a collaborator makes of its record and of the history when it is asked. -/
def heedBy (collaborator : σ → Conduct κ α × σ) (x : σ × Store) : σ × Store :=
  let (conduct, state) := collaborator x.1
  (state, (Interference.interfere conduct.interference x.2).2)

/-- What an inquiry makes of the collaborators' record and of the history. -/
def heed (team : Crew κ σ) (x : σ × Store) : Inquiry → σ × Store
  | .plan r => heedBy (team.planner r) x
  | .explain r =>
    match team.explainer with
    | none => x
    | some explainer => heedBy (explainer r) x

end Crew

namespace Work

variable {I : Session σ → Prop} {w : Work σ α} {f : α → Work σ β}
variable {Q : α → Prop} {R : β → Prop}

/-- A part of a request after which a property of the session still holds, also where it was
interrupted, and what it answers has a property of its own. -/
def Keeps (I : Session σ → Prop) (w : Work σ α) (Q : α → Prop) : Prop :=
  ∀ s, I s →
    match w.run s with
    | .ok a t => I t ∧ Q a
    | .error _ t => I t

/-- A property of the history, of the collaborators' record and of what they were asked, that holds
whatever they do when they are asked. -/
structure Stable (team : Crew κ σ) (I : Session σ → Prop) : Prop where
  congr : ∀ s t, t.store = s.store → t.team = s.team → t.inquiries = s.inquiries → I s → I t
  heed : ∀ s t inquiry, t.inquiries = s.inquiries ++ [inquiry] →
    (t.team, t.store) = team.heed (s.team, s.store) inquiry → I s → I t

theorem keeps_pure {a : α} (h : Q a) : Keeps I (pure a) Q := fun _ hs => ⟨hs, h⟩

theorem keeps_throw (i : Interruption) : Keeps I (throw i) Q := fun _ hs => hs

theorem keeps_get : Keeps I get I := fun _ hs => ⟨hs, hs⟩

theorem keeps_modify {g : Session σ → Session σ} (h : ∀ s, I s → I (g s)) :
    Keeps I (modify g) fun _ => True := fun s hs => ⟨h s hs, trivial⟩

theorem Keeps.bind (hw : Keeps I w Q) (hf : ∀ a, Q a → Keeps I (f a) R) : Keeps I (w >>= f) R := by
  intro s hs
  have hfirst := hw s hs
  rw [EStateM.run_bind]
  cases hrun : w.run s with
  | ok a t =>
    rw [hrun] at hfirst
    exact hf a hfirst.2 t hfirst.1
  | error i t =>
    rw [hrun] at hfirst
    exact hfirst

theorem keeps_fail {kind : FailureKind} {errors : List String} {types : List Value} :
    Keeps I (fail kind errors types) Q := keeps_throw _

theorem keeps_expect (e : Except ε α) : Keeps I (expect e) fun a => e = .ok a := by
  cases e with
  | error _ => exact keeps_throw _
  | ok a => exact keeps_pure rfl

theorem keeps_checkId (id : Value) :
    Keeps I (checkId id) fun name => Input.check "versionId" (.whole 256) id = .ok name := by
  unfold checkId
  split
  · exact keeps_pure ‹_›
  · exact keeps_fail

/-! The parts of a request, each with what it establishes. -/

section Parts

variable (limits : RequestLimits)

/-- What leaves the history and the collaborators alone. -/
theorem Stable.keeps_modify (hI : Stable team I) {g : Session σ → Session σ}
    (h : ∀ s, (g s).store = s.store ∧ (g s).team = s.team ∧ (g s).inquiries = s.inquiries) :
    Keeps I (modify g) fun _ => True :=
  Work.keeps_modify fun s hs => hI.congr s (g s) (h s).1 (h s).2.1 (h s).2.2 hs

theorem Stable.keeps_enter (hI : Stable team I) (stage : Stage) : Keeps I (enter stage) fun _ => True :=
  hI.keeps_modify fun _ => ⟨rfl, rfl, rfl⟩

theorem keeps_settle (reaction : Reaction α) : Keeps I (settle reaction) fun _ => True := by
  unfold settle
  split
  · exact keeps_pure trivial
  · exact keeps_pure trivial
  · exact keeps_pure trivial
  · exact keeps_throw _
  · exact keeps_pure trivial

theorem Stable.keeps_ask (hI : Stable team I) {timeout : Quantity} {inquiry : Inquiry}
    {collaborator : σ → Conduct κ α × σ}
    (h : ∀ x, team.heed x inquiry = Crew.heedBy collaborator x) :
    Keeps I (ask timeout inquiry collaborator) fun _ => True := by
  unfold ask
  split
  · exact keeps_pure trivial
  · intro s hs
    -- The collaborator's record changes before the history does, so both steps are taken together.
    have hleft : I { s with
        store := (Interference.interfere (collaborator s.team).1.interference s.store).2
        team := (collaborator s.team).2
        inquiries := s.inquiries ++ [inquiry] } := hI.heed s _ inquiry rfl (h (s.team, s.store)).symm hs
    have hlast : Keeps I (do
        expect (Interference.interfere (collaborator s.team).1.interference s.store).1
        settle (collaborator s.team).1.reaction) fun _ : Except Silence α => True :=
      (keeps_expect _).bind fun _ _ => keeps_settle _
    exact hlast _ hleft

theorem keeps_baseVersion (id : Option String) : Keeps I (baseVersion id) fun _ => True := by
  cases id with
  | none =>
    refine keeps_get.bind fun s _ => (keeps_expect _).bind fun v? _ => ?_
    cases v? with
    | none => exact keeps_fail
    | some v => exact keeps_pure trivial
  | some id =>
    refine keeps_get.bind fun s _ => (keeps_expect _).bind fun v? _ => ?_
    cases v? with
    | none => exact keeps_fail
    | some v => exact keeps_pure trivial

theorem Stable.keeps_plan (hI : Stable team I) (text : String) (base : Option Version) :
    Keeps I (plan limits team text base) fun _ => True := by
  unfold plan
  refine Keeps.bind (Q := fun _ => True) ?_ fun existing _ => ?_
  · cases base with
    | none => exact keeps_pure trivial
    | some v => exact (keeps_expect v.plan.toText).bind fun _ _ => keeps_pure trivial
  · refine (hI.keeps_ask fun _ => rfl).bind fun answer _ => ?_
    split
    · exact keeps_fail
    · exact keeps_fail
    · rename_i reply
      cases reply with
      | outcome o =>
        cases o with
        | ok q => exact keeps_pure trivial
        | malformed _ _ | failed _ => exact keeps_fail
      | undecoded raw =>
        refine (keeps_expect _).bind fun o _ => ?_
        cases o with
        | ok q => exact keeps_pure trivial
        | malformed _ _ | failed _ => exact keeps_fail

/-- Only a valid layout passes. -/
theorem Stable.keeps_validate (hI : Stable team I) (q : Plan) : Keeps I (validate limits q) fun _ =>
    (q.layout.check limits.treeDepth true).isValid = true := by
  unfold validate
  dsimp only
  split
  · exact (keeps_throw _).bind (Q := fun _ => False) nofun
  · refine Keeps.bind (hI.keeps_modify fun _ => ⟨rfl, rfl, rfl⟩) fun _ _ => ?_
    split
    · rename_i hvalid
      exact keeps_pure hvalid
    · exact keeps_fail

/-- The code is the source of the plan. -/
theorem Stable.keeps_generate (hI : Stable team I) (q : Plan) : Keeps I (generate limits q) fun code =>
    ∃ source, Source.generate limits.capacity.literal q limits.treeDepth = .ok source
      ∧ code = String.ofList source.code := by
  unfold generate
  split
  · rename_i source hsource
    exact Keeps.bind (hI.keeps_modify fun _ => ⟨rfl, rfl, rfl⟩) fun _ _ =>
      keeps_pure ⟨source, hsource, rfl⟩
  · exact keeps_throw _
  · exact keeps_fail

/-- Only code without errors passes. -/
theorem Stable.keeps_lint (hI : Stable team I) (code : String) : Keeps I (lint code) fun _ =>
    (Lint.check code.toList).isValid = true := by
  unfold lint
  dsimp only
  refine Keeps.bind (hI.keeps_modify fun _ => ⟨rfl, rfl, rfl⟩) fun _ _ => ?_
  split
  · rename_i hvalid
    exact keeps_pure hvalid
  · exact keeps_fail

/-- A warning in the place of an explanation. -/
theorem Stable.keeps_warn (hI : Stable team I) (message : String) :
    Keeps (α := Option α) I (do
      modify fun s => { s with warnings := s.warnings ++ [message] }
      return none) fun _ => True :=
  Keeps.bind (hI.keeps_modify fun _ => ⟨rfl, rfl, rfl⟩) fun _ _ => keeps_pure trivial

theorem Stable.keeps_explain (hI : Stable team I) (q : Plan) (text : String) (base : Option Version) :
    Keeps I (explain limits team q text base) fun _ => True := by
  unfold explain
  dsimp only
  split
  · exact keeps_pure trivial
  · rename_i explainer hexplainer
    refine (hI.keeps_ask fun x => ?_).bind fun reply _ => ?_
    · simp only [Crew.heed, hexplainer]
    split
    · exact hI.keeps_warn _
    · exact hI.keeps_warn _
    · exact keeps_pure trivial
    · exact hI.keeps_warn _
    · exact hI.keeps_warn _

end Parts

/-! The course of a request for a plan: its plan passes every check before anything is explained. -/

/-- What a plan goes through before it is explained. -/
def examine (limits : RequestLimits) (p : Plan) : Work σ String := do
  modify fun s => { s with plan := some p }
  enter .validate
  validate limits p
  enter .generate
  let code ← generate limits p
  enter .lint
  lint code
  enter .explain
  return code

/-- Only a plan that passes every check is explained. -/
theorem Stable.keeps_examine (hI : Stable team I) (limits : RequestLimits) (p : Plan) :
    Keeps I (examine limits p) fun code => ∃ source, p.Passes limits source
      ∧ code = String.ofList source.code := by
  refine Keeps.bind (hI.keeps_modify fun _ => ⟨rfl, rfl, rfl⟩) fun _ _ => ?_
  refine (hI.keeps_enter _).bind fun _ _ => (hI.keeps_validate limits p).bind fun _ hlayout => ?_
  refine (hI.keeps_enter _).bind fun _ _ => (hI.keeps_generate limits p).bind fun code hcode => ?_
  obtain ⟨source, hsource, rfl⟩ := hcode
  refine (hI.keeps_enter _).bind fun _ _ => (hI.keeps_lint _).bind fun _ hlint => ?_
  rw [String.toList_ofList] at hlint
  exact (hI.keeps_enter _).bind fun _ _ => keeps_pure ⟨source, ⟨hlayout, hsource, hlint⟩, rfl⟩

/-- What a request does once its plan is explained. -/
def finish (text : String) (p : Plan) (code : String) (base : Option Version)
    (explanation : Option Explanation) : Work σ Completion := do
  enter .store
  let v ← add ⟨text, p, code, explanation, base.isSome, base.map (·.id)⟩
  enter .complete
  let payload ← expect v.payload
  return ⟨payload, p, code, base.map fun b => Diff.summary b.code.toList code.toList⟩

/-- What a request does with a text that passed the check. -/
def build (limits : RequestLimits) (team : Crew κ σ) (text : String) (base : Option Version) :
    Work σ Completion := do
  enter .sanitize
  let text := String.ofList (Input.sanitize text.toList)
  enter .plan
  let p ← plan limits team text base
  let code ← examine limits p
  let explanation ← explain limits team p text base
  finish text p code base explanation

theorem develop_eq (limits : RequestLimits) (text : Value) (base? : Work σ (Option Version)) :
    develop limits team text base? = (do
      enter .input
      match Input.check "prompt" limits.inputLength text with
      | .error fault => fail .input [fault.message] []
      | .ok text => base? >>= build limits team text) := by
  unfold develop build examine finish
  refine congrArg (enter .input >>= ·) (funext fun _ => ?_)
  cases Input.check "prompt" limits.inputLength text with
  | error fault => rfl
  | ok text => simp only [bind_assoc, pure_bind]

end Work

end Wireframe
