import Wireframe.History.Store

/-!
The calls that a history and the place where it is kept answer, as data: what is asked, what is answered,
and what is left after it.
-/

namespace Wireframe

namespace Storage

/-- A call on the place where a history is kept. -/
inductive Call (τ : Type := String)
  | append (v : Version τ)
  | ids
  | count
  | summaries
  | truncateAfter (id : τ)
  | clear

inductive Answer (τ : Type := String)
  | done
  | ids (list : List τ)
  | count (n : Nat)
  | summaries (list : List (VersionSummary τ))
  | removed (ids : Option (List τ))

variable {τ : Type} [DecidableEq τ] [Bindable τ]

/-- The answer to a call, and the place after it. -/
def perform (s : Storage τ) : Call τ → Except (HistoryError τ) (Answer τ) × Storage τ
  | .append v =>
    match s.append v with
    | .ok s => (.ok .done, s)
    | .error fault => (.error fault, s)
  | .ids => (s.ids.map .ids, s)
  | .count => (s.count.map .count, s)
  | .summaries => (s.summaries.map .summaries, s)
  | .truncateAfter id =>
    match s.truncateAfter id with
    | .ok (removed, s) => (.ok (.removed removed), s)
    | .error fault => (.error fault, s)
  | .clear =>
    match s.clear with
    | .ok s => (.ok .done, s)
    | .error fault => (.error fault, s)

/-- What can happen to the place: a call, or that it is closed and made ready again. -/
inductive Step (τ : Type := String)
  | call (c : Call τ)
  | reopen

def Step.isCall : Step τ → Bool
  | .call _ => true
  | .reopen => false

/-- The place after a step. -/
def step (s : Storage τ) : Step τ → Storage τ
  | .call c => (s.perform c).2
  | .reopen => s.closed.opened

/-- The place after steps, one after the other. -/
def after (steps : List (Step τ)) (s : Storage τ) : Storage τ := steps.foldl step s

/-- What the calls among the steps are answered, one after the other. -/
def answers : List (Step τ) → Storage τ → List (Except (HistoryError τ) (Answer τ))
  | [], _ => []
  | .call c :: steps, s => (s.perform c).1 :: answers steps (s.perform c).2
  | .reopen :: steps, s => answers steps s.closed.opened

end Storage

namespace Store

/-- A call on a history. -/
inductive Call
  | add (d : Draft)
  | rollback (id : String)
  | clear
  | get (id : String)
  | latest
  | all
  | summaries
  | count

/-- What a history answers. -/
inductive Answer
  | done
  | version (v : Option Version)
  | versions (vs : List Version)
  | summaries (list : List VersionSummary)
  | count (n : Nat)

/-- The answer to a call, and the history after it. -/
def perform (s : Store) : Call → Except HistoryError Answer × Store
  | .add d =>
    let (v, s) := s.add d
    (v.map fun v => .version (some v), s)
  | .rollback id =>
    match s.rollback id with
    | .ok (v, s) => (.ok (.version v), s)
    | .error fault => (.error fault, s)
  | .clear =>
    match s.storage.clear with
    | .ok storage => (.ok .done, { s with storage })
    | .error fault => (.error fault, s)
  | .get id => ((s.storage.get? id).map .version, s)
  | .latest => (s.latest?.map .version, s)
  | .all => (s.storage.all.map .versions, s)
  | .summaries => (s.storage.summaries.map .summaries, s)
  | .count => (s.storage.count.map .count, s)

/-- The history after calls, one after the other. -/
def after (calls : List Call) (s : Store) : Store := calls.foldl (fun s c => (s.perform c).2) s

end Store

end Wireframe
