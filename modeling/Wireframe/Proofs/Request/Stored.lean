import Wireframe.Proofs.Request.Stages

/-! What a request itself makes of the history that its collaborators left, wherever it is kept: it adds one
version at the most, and that only for a plan that passed every check, or it goes back to a version. -/
namespace Wireframe
open Outcome

variable {κ σ α β : Type} [Interference κ] {team : Crew κ σ} {s : Session σ} {limits : RequestLimits}
variable {p q : Version → Prop} {left now : Storage} {text : String} {plan : Plan} {code : String}

/-- A history changed by a request: not at all, by a version with a property at its end, or by going back to
a version. -/
inductive Storage.Moves (p : Version → Prop) (left : Storage) : Storage → Prop
  | same : Moves p left left
  | added {v : Version} {now : Storage} (hv : p v) (h : left.append v = .ok now) : Moves p left now
  | back {id : String} {removed : Option (List String)} {now : Storage}
      (h : left.truncateAfter id = .ok (removed, now)) : Moves p left now

theorem Storage.Moves.imp (h : left.Moves p now) (hpq : ∀ v, p v → q v) : left.Moves q now := by
  cases h with
  | same => exact .same
  | added hv h => exact .added (hpq _ hv) h
  | back h => exact .back h

/-- A session in which the history is as the collaborators left it, but for such a change. -/
def Crew.Moves (team : Crew κ σ) (p : Version → Prop) (s t : Session σ) : Prop :=
  ∃ u, team.Leads s u ∧ u.inquiries = t.inquiries ∧ u.store.storage.Moves p t.store.storage

theorem Crew.Leads.moves {t : Session σ} (h : team.Leads s t) : team.Moves p s t := ⟨t, h, rfl, .same⟩

/-- A version whose plan passes every check, with the source of the plan. -/
def Version.Passes (limits : RequestLimits) (v : Version) : Prop :=
  ∃ source, v.plan.Passes limits source ∧ v.code = String.ofList source.code

theorem Store.moves_rollback {s s' : Store} {id : String} {found : Option Version}
    (h : s.rollback id = .ok (found, s')) : s.storage.Moves p s'.storage := by
  cases found with
  | none =>
    rw [Store.rollback_none h]
    exact .same
  | some v =>
    obtain ⟨-, removed, htruncate⟩ := Store.rollback_some h
    exact .back htruncate

namespace Work

variable {I E : Session σ → Prop} {w : Work σ α} {f : α → Work σ β} {Q : α → Prop}

/-- A part of a request that comes to a property of the session, however it ends. -/
def Ends (I : Session σ → Prop) (w : Work σ α) (E : Session σ → Prop) : Prop :=
  ∀ s, I s →
    match w.run s with
    | .ok _ t | .error _ t => E t

theorem Keeps.ends (hw : Keeps I w Q) (hE : ∀ t, I t → E t) : Ends I w E := by
  intro s hs
  have hlast := hw s hs
  cases hrun : w.run s with
  | ok a t =>
    rw [hrun] at hlast
    exact hE t hlast.1
  | error i t =>
    rw [hrun] at hlast
    exact hE t hlast

theorem Keeps.ends_bind (hw : Keeps I w Q) (hE : ∀ t, I t → E t) (hf : ∀ a, Q a → Ends I (f a) E) :
    Ends I (w >>= f) E := by
  intro s hs
  have hfirst := hw s hs
  rw [EStateM.run_bind]
  cases hrun : w.run s with
  | ok a t =>
    rw [hrun] at hfirst
    exact hf a hfirst.2 t hfirst.1
  | error i t =>
    rw [hrun] at hfirst
    exact hE t hfirst

/-- At its end a request adds what it has made. -/
theorem ends_finish (base : Option Version) (found : Option Explanation)
    (hp : ∀ v : Version, v.plan = plan → v.code = code → p v) :
    Ends (team.Leads s) (finish text plan code base found) (team.Moves p s) := by
  intro t ht
  rw [run_finish]
  have hstore fault (h : (t.store.add _).1 = .error fault) :=
    Store.storage_of_add_error (d := ⟨text, plan, code, found, base.isSome, base.map (·.id)⟩) h
  have happend v (h : (t.store.add _).1 = .ok v) :=
    Store.append_of_add_ok (d := ⟨text, plan, code, found, base.isSome, base.map (·.id)⟩) h
  have hdraft v (h : (t.store.add _).1 = .ok v) :=
    Store.toDraft_of_add_ok (d := ⟨text, plan, code, found, base.isSome, base.map (·.id)⟩) h
  generalize t.store.add ⟨text, plan, code, found, base.isSome, base.map (·.id)⟩ = added
    at hstore happend hdraft
  obtain ⟨outcome, store⟩ := added
  cases outcome with
  | ok v =>
    have hv : p v := hp v (congrArg Draft.plan (hdraft v rfl)) (congrArg Draft.code (hdraft v rfl))
    dsimp only
    cases v.payload <;> exact ⟨t, ht, rfl, .added hv (happend v rfl)⟩
  | error fault =>
    have hsame : t.store.storage.Moves p store.storage := hstore fault rfl ▸ .same
    cases fault <;> exact ⟨t, ht, rfl, hsame⟩

theorem ends_develop {value : Value} {base? : Work σ (Option Version)}
    (hbase : Keeps (team.Leads s) base? fun _ => True) :
    Ends (team.Leads s) (develop limits team value base?) (team.Moves (Version.Passes limits) s) := by
  have hI := Crew.stable_leads team s
  have hE : ∀ t, team.Leads s t → team.Moves (Version.Passes limits) s t := fun t ht => ht.moves
  rw [develop_eq]
  refine (hI.keeps_enter _).ends_bind hE fun _ _ => ?_
  split
  · exact (keeps_fail (Q := fun _ => True)).ends hE
  · refine hbase.ends_bind hE fun base _ => (hI.keeps_enter _).ends_bind hE fun _ _ => ?_
    refine (hI.keeps_enter _).ends_bind hE fun _ _ => ?_
    refine (hI.keeps_plan limits _ base).ends_bind hE fun p _ => ?_
    refine (hI.keeps_examine limits p).ends_bind hE fun code hcode => ?_
    refine (hI.keeps_explain limits p _ base).ends_bind hE fun explanation _ => ?_
    refine ends_finish base explanation fun v hplan hv => ?_
    obtain ⟨source, hpasses, hsource⟩ := hcode
    exact ⟨source, hplan ▸ hpasses, hv.trans hsource⟩

theorem ends_visit {id : Value} {find : Store → String → Except HistoryError (Option Version × Store)}
    (hfind : ∀ s name found s', find s name = .ok (found, s') → s.storage.Moves p s'.storage) :
    Ends (team.Leads s) (visit id find) (team.Moves p s) := by
  have hI := Crew.stable_leads team s
  have hE : ∀ t, team.Leads s t → team.Moves p s t := fun t ht => ht.moves
  refine (keeps_checkId id).ends_bind hE fun name _ => ?_
  refine (hI.keeps_enter _).ends_bind hE fun _ _ => ?_
  intro t ht
  rw [EStateM.run_bind, EStateM.run_get]
  cases hanswer : find t.store name with
  | error fault =>
    simp only [hanswer]
    exact ht.moves
  | ok answer =>
    obtain ⟨found, store⟩ := answer
    have hmoves := hfind _ _ _ _ hanswer
    simp only [hanswer, expect, pure_bind, EStateM.run_bind, EStateM.run_modify]
    cases found with
    | none => exact ⟨t, ht, rfl, hmoves⟩
    | some v =>
      cases hpayload : v.payload with
      | ok payload =>
        simp only [hpayload]
        exact ⟨t, ht, rfl, hmoves⟩
      | error fault =>
        simp only [hpayload]
        exact ⟨t, ht, rfl, hmoves⟩

theorem ends_handle (limits : RequestLimits) (team : Crew κ σ) (r : Request) (s : Session σ) :
    Ends (team.Leads s) (handle limits team r) (team.Moves (Version.Passes limits) s) := by
  cases r with
  | generate text => exact ends_develop (keeps_pure trivial)
  | modify text base =>
    refine ends_develop ?_
    exact (keeps_baseVersion base).bind fun _ _ => keeps_pure trivial
  | rollback id => exact ends_visit fun s name found s' h => Store.moves_rollback h
  | lookup id =>
    rw [handle]
    refine ends_visit fun s name found s' h => ?_
    obtain ⟨_, -, heq⟩ := map_eq_ok h
    cases heq
    exact .same

end Work

/-- Whatever its collaborators did to the history, a request adds nothing to it but a version that passes
every check. -/
theorem Request.moves_serve (r : Request) (limits : RequestLimits) (team : Crew κ σ) (store : Store)
    (state : σ) :
    let run := r.serve limits team store state
    (team.leave (state, store) run.2.inquiries).2.storage.Moves (Version.Passes limits)
      run.2.store.storage := by
  intro run
  have hends : team.Moves (Version.Passes limits) (start store state) run.2 := by
    have hlast := Work.ends_handle limits team r _ _ (Crew.leads_refl (start store state))
    show team.Moves _ _ (report ((Work.handle limits team r).run (start store state))).2
    cases hrun : (Work.handle limits team r).run (start store state) with
    | ok c t =>
      rw [hrun] at hlast
      exact hlast
    | error i t =>
      rw [hrun] at hlast
      cases i with
      | failure f => exact hlast
      | fault => exact hlast
  obtain ⟨u, ⟨asked, hasked, hleft⟩, hinquiries, hmoves⟩ := hends
  have hstore : u.store = (team.leave (state, store) asked).2 := congrArg Prod.snd hleft
  rw [← hinquiries, hasked]
  rw [hstore] at hmoves
  exact hmoves

end Wireframe
