import Mathlib
import Wireframe.Agent.Planner
import Wireframe.Proofs.Outcome

/-! The attempts of a planner. It asks again as long as its answers are malformed, and each time it tells
what was wrong with the answer before and with no other. -/
namespace Wireframe.Planner

variable {answer last : ModelAnswer} {answers rest : List ModelAnswer} {message raw base prompt : String}
variable {messages : List String} {count left : Nat} {o : PlanOutcome} {result : Except AgentFault PlanOutcome}
variable {capacity : Json.Capacity} {r : PlanRequest}

/-- A text that is decoded into no plan, and what is told about it. -/
def Malformed (capacity : Json.Capacity) (answer : ModelAnswer) (message : String) : Prop :=
  ∃ content raw, answer = .ok content
    ∧ PlanOutcome.decode capacity (.text content) = .ok (.malformed message raw)

/-- What a planner that asks no more makes of the last answer. A failure of the service is an outcome, and
whatever else is raised, by the call or by decoding the text, is raised by the planner. -/
inductive Concludes (capacity : Json.Capacity) : ModelAnswer → Except AgentFault PlanOutcome → Prop
  | decoded {content : String} {o : PlanOutcome} :
      PlanOutcome.decode capacity (.text content) = .ok o → Concludes capacity (.ok content) (.ok o)
  | unreadable {content : String} {e : Json.Excess} :
      PlanOutcome.decode capacity (.text content) = .error e → Concludes capacity (.ok content) (.error (.excess e))
  | failed (kind : ServiceFault) (message : String) :
      Concludes capacity (.error (.service kind message)) (.ok (.failed message))
  | raised {fault : CallFault} : (∀ kind message, fault ≠ .service kind message) →
      Concludes capacity (.error fault) (.error (.call fault))

/-- The course of a planner that may make so many calls: all answers but the last are malformed, with these
messages, and so is the last one only if no attempt is left. -/
structure Course (capacity : Json.Capacity) (count : Nat) (answers : List ModelAnswer) (messages : List String)
    (last : ModelAnswer) : Prop where
  malformed : List.Forall₂ (Malformed capacity) (answers.take messages.length) messages
  answered : answers[messages.length]? = some last
  within : messages.length < count
  ends : (∃ message, Malformed capacity last message) → messages.length + 1 = count

theorem Course.single (h : (∃ message, Malformed capacity answer message) → left = 0) :
    Course capacity (left + 1) (answer :: rest) [] answer where
  malformed := .nil
  answered := rfl
  within := Nat.succ_pos left
  ends hmalformed := congrArg Nat.succ (h hmalformed).symm

theorem Course.cons (hm : Malformed capacity answer message) (h : Course capacity left rest messages last) :
    Course capacity (left + 1) (answer :: rest) (message :: messages) last where
  malformed := .cons hm h.malformed
  answered := h.answered
  within := Nat.succ_lt_succ h.within
  ends hmalformed := congrArg Nat.succ (h.ends hmalformed)

theorem malformed_iff :
    Malformed capacity answer message ↔ ∃ raw, outcome capacity answer = .ok (.malformed message raw) := by
  constructor
  · rintro ⟨content, raw, rfl, hdecode⟩
    exact ⟨raw, by rw [outcome, hdecode]; rfl⟩
  · rintro ⟨raw, h⟩
    cases answer with
    | ok content =>
      exact ⟨content, raw, rfl, Outcome.mapError_eq_ok h⟩
    | error fault => cases fault <;> cases h

theorem Malformed.unique {message' : String} (h : Malformed capacity answer message)
    (houtcome : outcome capacity answer = .ok (.malformed message' raw)) : message = message' := by
  obtain ⟨raw', h⟩ := malformed_iff.mp h
  rw [houtcome] at h
  cases h
  rfl

theorem concludes_outcome (capacity : Json.Capacity) (answer : ModelAnswer) :
    Concludes capacity answer (outcome capacity answer) := by
  cases answer with
  | ok content =>
    cases hdecode : PlanOutcome.decode capacity (.text content) with
    | ok o =>
      rw [outcome, hdecode]
      exact .decoded hdecode
    | error e =>
      rw [outcome, hdecode]
      exact .unreadable hdecode
  | error fault =>
    cases fault with
    | service kind message => exact .failed kind message
    | timeout _ | value _ | runtime _ | recursion _ => exact .raised nofun

/-! One attempt. -/

theorem attempts_of_malformed (last : PlanOutcome) (left : Nat) (prompt : String)
    (rest : List ModelAnswer) (h : outcome capacity answer = .ok (.malformed message raw)) :
    attempts capacity base last (left + 1) prompt (answer :: rest)
      = ⟨prompt :: (attempts capacity base (.malformed message raw) left (Prompt.retry base message) rest).prompts,
          (attempts capacity base (.malformed message raw) left (Prompt.retry base message) rest).result⟩ := by
  rw [attempts, h]

theorem attempts_of_settled (last : PlanOutcome) (left : Nat) (prompt : String) (rest : List ModelAnswer)
    (h : ∀ message, ¬ Malformed capacity answer message) :
    attempts capacity base last (left + 1) prompt (answer :: rest) = ⟨[prompt], outcome capacity answer⟩ := by
  rw [attempts]
  split
  · rename_i message raw houtcome
    exact (h message (malformed_iff.mpr ⟨raw, houtcome⟩)).elim
  · rfl

/-- The attempts that are left. The outcome before them and the prompt of the first one change from attempt
to attempt, so nothing may be known about them; the prompts behind it are made from `base` alone. -/
theorem exists_course_of_attempts (base : String) (left : Nat) (answers : List ModelAnswer) :
    ∀ (o : PlanOutcome) (prompt : String), 1 ≤ left →
      (answers.length < left → ∃ a ∈ answers, ∀ message, ¬ Malformed capacity a message) →
      ∃ messages last, Course capacity left answers messages last
        ∧ attempts capacity base o left prompt answers
          = ⟨prompt :: messages.map (Prompt.retry base), outcome capacity last⟩ := by
  induction answers generalizing left with
  | nil =>
    intro o prompt hleft hanswers
    obtain ⟨a, ha, -⟩ := hanswers hleft
    cases ha
  | cons answer rest ih =>
    intro o prompt hleft hanswers
    obtain ⟨left, rfl⟩ : ∃ k, left = k + 1 := ⟨left - 1, by omega⟩
    by_cases hm : ∃ message, Malformed capacity answer message
    · obtain ⟨message, hm⟩ := hm
      obtain ⟨raw, houtcome⟩ := malformed_iff.mp hm
      by_cases hlast : left = 0
      · subst hlast
        refine ⟨[], answer, .single fun _ => rfl, ?_⟩
        rw [attempts_of_malformed o 0 prompt rest houtcome, attempts, houtcome]
        rfl
      · have hrest : rest.length < left → ∃ a ∈ rest, ∀ message, ¬ Malformed capacity a message := by
          intro hshort
          obtain ⟨a, ha, hsettled⟩ := hanswers (by rw [List.length_cons]; omega)
          rcases List.mem_cons.mp ha with rfl | ha
          · exact (hsettled message hm).elim
          · exact ⟨a, ha, hsettled⟩
        obtain ⟨messages, last, hcourse, hrun⟩ :=
          ih left (.malformed message raw) (Prompt.retry base message) (by omega) hrest
        refine ⟨message :: messages, last, hcourse.cons hm, ?_⟩
        rw [attempts_of_malformed o left prompt rest houtcome, hrun]
        rfl
    · refine ⟨[], answer, .single fun h => (hm h).elim, ?_⟩
      rw [attempts_of_settled o left prompt rest fun message h => hm ⟨message, h⟩]
      rfl

theorem infix_forPlan (r : PlanRequest) : r.text.toList <:+: (Prompt.forPlan r).toList := by
  rw [Prompt.forPlan]
  split
  · rename_i existing _
    exact ⟨("The user wants to modify an existing UI.\n\nEXISTING PLAN:\n" ++ existing
        ++ "\n\nMODIFICATION REQUEST:\n").toList,
      ("\n\nReturn the complete updated plan as JSON. Keep every part the request does not mention "
        ++ "unchanged.").toList, by simp [String.toList_append, toString]⟩
  · exact ⟨"UI REQUEST:\n".toList, "\n\nReturn the plan as JSON using only the allowed components.".toList,
      by simp [String.toList_append, toString]⟩

theorem existing_infix_forPlan {plan : String} (hplan : r.existing = some plan) (hr : r.isModification = true) :
    plan.toList <:+: (Prompt.forPlan r).toList := by
  by_cases hempty : plan = ""
  · rw [hempty]
    exact List.nil_infix
  · have hfilled : Prompt.filled? r.existing = some plan := by
      rw [hplan, Prompt.filled?, Option.filter_some, if_pos (by simpa using hempty)]
    rw [Prompt.forPlan, if_pos hr, hfilled]
    exact ⟨"The user wants to modify an existing UI.\n\nEXISTING PLAN:\n".toList,
      ("\n\nMODIFICATION REQUEST:\n" ++ r.text ++ "\n\nReturn the complete updated plan as JSON. Keep every part the "
        ++ "request does not mention unchanged.").toList, by simp [String.toList_append, toString]⟩

/-- An envelope that reports success and holds no plan. -/
def envelope : String := "\x7b\"success\": true\x7d"

/-- Prose, then an envelope, then a service that fails. -/
def chatter : List ModelAnswer := [.ok "no plan", .ok envelope, .error (.service .rateLimit "slow down")]

def buttonRequest : PlanRequest := ⟨"a button", false, none⟩

end Wireframe.Planner
