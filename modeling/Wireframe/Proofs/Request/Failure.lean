import Wireframe.Proofs.History.Change
import Wireframe.Proofs.Layout.Height
import Wireframe.Proofs.Request.Keeping

/-! What a request that fails leaves of the history, beside what its collaborators made of it. -/
namespace Wireframe
open Outcome

variable {κ σ α β : Type} [Interference κ] {team : Crew κ σ} {s t u : Session σ} {r : Request}
variable {d : Draft} {id : Value} {limits : RequestLimits}

/-- What passes the check is the text itself. -/
theorem Input.eq_text_of_check {field name : String} {limit : Quantity}
    (h : Input.check field limit id = .ok name) : id = .text name := by
  unfold Input.check at h
  split at h
  · cases h
  · split at h
    · cases h
    · split at h <;> cases h
      rfl
  · cases h

namespace Crew

/-- What inquiries make of the collaborators' record and of the history, one after the other. -/
def leave (team : Crew κ σ) (x : σ × Store) (asked : List Inquiry) : σ × Store := asked.foldl team.heed x

/-- A session that came from another one by nothing but what collaborators did when they were asked. -/
def Leads (team : Crew κ σ) (s t : Session σ) : Prop :=
  ∃ asked, t.inquiries = s.inquiries ++ asked
    ∧ (t.team, t.store) = team.leave (s.team, s.store) asked

theorem leads_refl (s : Session σ) : team.Leads s s := ⟨[], (List.append_nil _).symm, rfl⟩

theorem stable_leads (team : Crew κ σ) (s : Session σ) : Work.Stable team (team.Leads s) where
  congr t u hstore hteam hinquiries h := by
    rw [Leads, hstore, hteam, hinquiries]
    exact h
  heed t u inquiry hinquiries hleft h := by
    obtain ⟨asked, hasked, hled⟩ := h
    refine ⟨asked ++ [inquiry], ?_, ?_⟩
    · rw [hinquiries, hasked, List.append_assoc]
    · rw [hleft, hled, leave, leave, List.foldl_append]
      rfl

end Crew

/-- What a request that fails may still do to the history: it put in, or went back to, a version that
cannot be handed out. -/
def Request.Lapse (limits : RequestLimits) (r : Request) (left now : Storage) : Prop :=
  ∃ v fault, v.payload = .error fault ∧
    match r with
    | .generate _ | .modify _ _ => left.append v = .ok now
        ∧ ∃ source, Source.generate limits.capacity.literal v.plan limits.treeDepth = .ok source
    | .rollback id => ∃ name removed, id = .text name ∧ left.get? name = .ok (some v)
        ∧ left.truncateAfter name = .ok (some removed, now) ∧ removed ≠ []
    | .lookup _ => False

/-- A lapse changes the history. -/
theorem Request.Lapse.ne {left now : Storage} (h : r.Lapse limits left now) : now ≠ left := by
  obtain ⟨v, fault, -, h⟩ := h
  cases r with
  | generate _ | modify _ _ => exact Storage.ne_of_append h.1
  | rollback id =>
    obtain ⟨name, removed, -, -, htruncate, hne⟩ := h
    exact Storage.ne_of_truncateAfter htruncate hne
  | lookup _ => exact h.elim

/-- A version cannot be handed out where its tree is too high, and nowhere else. -/
theorem Version.exists_payload_error_iff {v : Version} {t : Tree} (h : v.plan.layout.Unfolds t) :
    (∃ fault, v.payload = .error fault) ↔ Layout.nestingLimit < t.height := by
  rw [← Nat.not_le, ← Plan.exists_toValue_iff h, payload]
  cases v.plan.toValue with
  | ok data => exact ⟨nofun, fun hnone => absurd ⟨data, rfl⟩ hnone⟩
  | error fault => exact ⟨nofun, fun _ => ⟨fault, rfl⟩⟩

/-- With room for no more levels than can be written out nothing but a rollback lapses. -/
theorem Request.Lapse.of_room {left now : Storage} (h : r.Lapse limits left now)
    (hroom : ∀ size, limits.treeDepth.room size ≤ Layout.nestingLimit) : ∃ id, r = .rollback id := by
  obtain ⟨v, fault, hv, h⟩ := h
  cases r with
  | generate _ | modify _ _ =>
    obtain ⟨-, source, hsource⟩ := h
    obtain ⟨t, ht, hheight⟩ := Source.height_le_of_generate hsource
    have hhigh := (Version.exists_payload_error_iff ht).mp ⟨fault, hv⟩
    exact absurd (Nat.le_trans hheight (hroom _)) (Nat.not_le.mpr hhigh)
  | rollback id => exact ⟨id, rfl⟩
  | lookup _ => exact h.elim

/-- A session in which the history is as the collaborators left it, but for a lapse. -/
def Crew.Lapses (team : Crew κ σ) (limits : RequestLimits) (r : Request) (s t : Session σ) : Prop :=
  ∃ u, team.Leads s u ∧ u.inquiries = t.inquiries
    ∧ (t.store.storage = u.store.storage ∨ r.Lapse limits u.store.storage t.store.storage)

theorem Crew.Leads.lapses (h : team.Leads s t) : team.Lapses limits r s t := ⟨t, h, rfl, .inl rfl⟩

namespace Work

variable {I E : Session σ → Prop} {w : Work σ α} {f : α → Work σ β} {Q : α → Prop}

/-- A part of a request in which every interruption comes with a property of the session. -/
def Fails (I : Session σ → Prop) (w : Work σ α) (E : Session σ → Prop) : Prop :=
  ∀ s i t, I s → w.run s = .error i t → E t

theorem Keeps.fails (hw : Keeps I w Q) (hE : ∀ t, I t → E t) : Fails I w E := by
  intro s i t hs hrun
  have hlast := hw s hs
  rw [hrun] at hlast
  exact hE t hlast

theorem Keeps.fails_bind (hw : Keeps I w Q) (hE : ∀ t, I t → E t) (hf : ∀ a, Q a → Fails I (f a) E) :
    Fails I (w >>= f) E := by
  intro s i t hs hrun
  have hfirst := hw s hs
  rw [EStateM.run_bind] at hrun
  cases h : w.run s with
  | ok a u =>
    rw [h] at hfirst hrun
    exact hf a hfirst.2 u i t hfirst.1 hrun
  | error j u =>
    rw [h] at hfirst hrun
    cases hrun
    exact hE t hfirst

/-- What can still go wrong after a version was put in. -/
theorem fails_add (hr : ∀ v fault left now, v.toDraft = d → v.payload = .error fault →
    left.append v = .ok now → r.Lapse limits left now) {g : Value → Completion} :
    Fails (team.Leads s) (do
      let v ← add d
      enter .complete
      let payload ← expect v.payload
      return g payload) (team.Lapses limits r s) := by
  intro t i u ht hrun
  have hstore fault (h : (t.store.add d).1 = .error fault) := Store.storage_of_add_error h
  have happend v (h : (t.store.add d).1 = .ok v) := Store.append_of_add_ok h
  have hdraft v (h : (t.store.add d).1 = .ok v) := Store.toDraft_of_add_ok h
  simp only [add, enter, EStateM.run_bind, EStateM.run_get, EStateM.run_modify, bind_assoc] at hrun
  generalize t.store.add d = added at hstore happend hdraft hrun
  obtain ⟨outcome, store⟩ := added
  cases outcome with
  | ok v =>
    simp only [EStateM.run_pure] at hrun
    cases hpayload : v.payload with
    | ok payload =>
      rw [hpayload] at hrun
      cases hrun
    | error fault =>
      rw [hpayload] at hrun
      cases hrun
      exact ⟨t, ht, rfl, .inr (hr v fault _ _ (hdraft v rfl) hpayload (happend v rfl))⟩
  | error fault =>
    refine ⟨t, ht, ?_, .inl ?_⟩
    · cases fault <;> cases hrun <;> rfl
    · have hsame := hstore fault rfl
      cases fault <;> cases hrun <;> exact hsame

theorem fails_develop {text : Value} {base? : Work σ (Option Version)}
    (hbase : Keeps (team.Leads s) base? fun _ => True)
    (hr : ∀ v fault left now, v.payload = .error fault → left.append v = .ok now →
      (∃ source, Source.generate limits.capacity.literal v.plan limits.treeDepth = .ok source) →
        r.Lapse limits left now) :
    Fails (team.Leads s) (develop limits team text base?) (team.Lapses limits r s) := by
  have hI := Crew.stable_leads team s
  have hE : ∀ t, team.Leads s t → team.Lapses limits r s t := fun t ht => ht.lapses
  rw [develop_eq]
  refine (hI.keeps_enter _).fails_bind hE fun _ _ => ?_
  split
  · exact (keeps_fail (Q := fun _ => True)).fails hE
  · refine hbase.fails_bind hE fun base _ => (hI.keeps_enter _).fails_bind hE fun _ _ => ?_
    refine (hI.keeps_enter _).fails_bind hE fun _ _ => ?_
    refine (hI.keeps_plan limits _ base).fails_bind hE fun p _ => ?_
    refine (hI.keeps_examine limits p).fails_bind hE fun code hcode => ?_
    refine (hI.keeps_explain limits p _ base).fails_bind hE fun explanation _ => ?_
    refine (hI.keeps_enter _).fails_bind hE fun _ _ => ?_
    refine fails_add fun v fault left now hdraft hv happend => hr v fault left now hv happend ?_
    obtain ⟨source, hpasses, -⟩ := hcode
    rw [hdraft]
    exact ⟨source, hpasses.generated⟩

/-- What can go wrong when a version is found by its name. -/
theorem fails_visit {find : Store → String → Except HistoryError (Option Version × Store)}
    (hnone : ∀ s name s', find s name = .ok (none, s') → s' = s)
    (hsome : ∀ s name v s' fault, Input.check "versionId" (.whole 256) id = .ok name →
      find s name = .ok (some v, s') → v.payload = .error fault →
        s'.storage = s.storage ∨ r.Lapse limits s.storage s'.storage) :
    Fails (team.Leads s) (visit id find) (team.Lapses limits r s) := by
  have hI := Crew.stable_leads team s
  have hE : ∀ t, team.Leads s t → team.Lapses limits r s t := fun t ht => ht.lapses
  refine (keeps_checkId id).fails_bind hE fun name hname => ?_
  refine (hI.keeps_enter _).fails_bind hE fun _ _ => ?_
  intro t i u ht hrun
  rw [EStateM.run_bind, EStateM.run_get] at hrun
  cases hfind : find t.store name with
  | error fault =>
    simp only [hfind] at hrun
    cases hrun
    exact ht.lapses
  | ok answer =>
    obtain ⟨found, store⟩ := answer
    simp only [hfind, expect, pure_bind, EStateM.run_bind, EStateM.run_modify] at hrun
    cases found with
    | none =>
      cases hrun
      exact ⟨t, ht, rfl, .inl (congrArg Store.storage (hnone _ _ _ hfind))⟩
    | some v =>
      cases hpayload : v.payload with
      | ok payload =>
        simp only [hpayload] at hrun
        cases hrun
      | error fault =>
        simp only [hpayload] at hrun
        cases hrun
        exact ⟨t, ht, rfl, hsome _ _ _ _ _ hname hfind hpayload⟩

theorem fails_handle (limits : RequestLimits) (team : Crew κ σ) (r : Request) (s : Session σ) :
    Fails (team.Leads s) (handle limits team r) (team.Lapses limits r s) := by
  cases r with
  | generate text =>
    exact fails_develop (keeps_pure trivial) fun v fault _ _ hv happend hsource =>
      ⟨v, fault, hv, happend, hsource⟩
  | modify text base =>
    refine fails_develop ?_ fun v fault _ _ hv happend hsource => ⟨v, fault, hv, happend, hsource⟩
    exact (keeps_baseVersion base).bind fun _ _ => keeps_pure trivial
  | rollback id =>
    refine fails_visit (fun _ _ _ => Store.rollback_none) fun s name v s' fault hname hs hv => ?_
    obtain ⟨hget, removed?, htruncate⟩ := Store.rollback_some hs
    rcases hremoved : removed?.getD [] with _ | ⟨x, xs⟩
    · exact .inl (Storage.eq_self_of_truncateAfter htruncate hremoved)
    · obtain rfl : removed? = some (x :: xs) := by
        cases removed? with
        | none => cases hremoved
        | some removed => exact congrArg some hremoved
      exact .inr ⟨v, fault, hv, name, x :: xs, Input.eq_text_of_check hname, hget, htruncate, by simp⟩
  | lookup id =>
    rw [handle]
    refine fails_visit (fun _ _ _ h => ?_) fun s name v s' fault hname hs hv => .inl ?_
    · obtain ⟨_, -, heq⟩ := map_eq_ok h
      cases heq
      rfl
    · obtain ⟨_, -, heq⟩ := map_eq_ok hs
      cases heq
      rfl

end Work

namespace Request

/-- A request that fails changes the history in two cases only: it put in a version that cannot be handed
out, or it went back to one and there were later ones. Else it is what the collaborators left. -/
theorem changed_iff_lapse (r : Request) (limits : RequestLimits) (team : Crew κ σ) (store : Store)
    (state : σ) (hfailed : (r.serve limits team store state).1.succeeded = false) :
    (r.serve limits team store state).2.store.storage
        ≠ (team.leave (state, store) (r.serve limits team store state).2.inquiries).2.storage
      ↔ r.Lapse limits
          (team.leave (state, store) (r.serve limits team store state).2.inquiries).2.storage
          (r.serve limits team store state).2.store.storage := by
  refine ⟨fun hne => ?_, Lapse.ne⟩
  rw [serve] at hfailed hne ⊢
  have hends : team.Lapses limits r (start store state)
      (report ((Work.handle limits team r).run (start store state))).2 := by
    cases hrun : (Work.handle limits team r).run (start store state) with
    | ok c t =>
      rw [hrun] at hfailed
      cases hfailed
    | error i t =>
      have hlast := Work.fails_handle limits team r _ _ i t (Crew.leads_refl _) hrun
      cases i with
      | failure f => exact hlast
      | fault => exact hlast
  obtain ⟨u, ⟨asked, hasked, hleft⟩, hinquiries, hlapse⟩ := hends
  have hstore : u.store = (team.leave (state, store) asked).2 := congrArg Prod.snd hleft
  rw [← hinquiries, hasked] at hne ⊢
  rw [hstore] at hlapse
  rcases hlapse with hsame | hlapse
  · exact absurd hsame hne
  · exact hlapse

/-- A button inside so many stacks. -/
def stacked : Nat → Tree
  | 0 => .node "Button" none none
  | levels + 1 => .node "Stack" none (some [stacked levels])

/-- A version whose layout is a button inside so many stacks. -/
def stackedDraft (levels : Nat) : Draft :=
  ⟨"stacks", .ofTree "stacks" (stacked levels), "", none, false, none⟩

/-- A history with a version that cannot be handed out, and a later one. -/
def deepStore : Store := Store.empty.after [.add (stackedDraft 254), .add (stackedDraft 1)]

/-- The limits where no environment variable is set. -/
def usualLimits : RequestLimits := Environment.requestLimits [] .unbounded

/-- A planner that never answers, and no explainer. -/
def silentTeam : Team Unit := ⟨fun _ _ => (⟨none, .stalls⟩, ()), none⟩

/-- Going back to the version that cannot be handed out. -/
def deepRollback : Request := .rollback (.text "v1")

theorem height_stacked (levels : Nat) : (stacked levels).height = levels + 1 := by
  induction levels with
  | zero => rfl
  | succ levels ih =>
    rw [stacked, Tree.height, Tree.heightAll, Tree.heightAll, ih]
    rfl

/-- A rollback to a version that cannot be handed out fails after it was done. -/
theorem serve_rollback_of_error {name : String} {store now : Store} {v : Version} {fault : NestingError}
    (limits : RequestLimits) (team : Crew κ σ) (state : σ)
    (hname : Input.check "versionId" (.whole 256) id = .ok name)
    (hs : store.rollback name = .ok (some v, now)) (hv : v.payload = .error fault) :
    (Request.rollback id).serve limits team store state
      = (⟨.store, some ⟨.internal, [faultMessage], []⟩, [], none, none, none, none⟩,
          { start store state with store := now, stage := .store }) := by
  simp only [serve, Work.handle, Work.visit, Work.checkId, Work.enter, Work.expect, start, hname, hs, hv,
    pure_bind, EStateM.run_bind, EStateM.run_get, EStateM.run_modify]
  rfl

theorem ids_of_deepRollback :
    (deepRollback.serve usualLimits silentTeam deepStore ()).1.succeeded = false
      ∧ (deepRollback.serve usualLimits silentTeam deepStore ()).2.store.storage.ids.toOption
        = some ["v1"]
      ∧ (silentTeam.leave ((), deepStore)
          (deepRollback.serve usualLimits silentTeam deepStore ()).2.inquiries).2.storage.ids.toOption
        = some ["v1", "v2"] := by
  have hfound : ∃ v now, deepStore.rollback "v1" = .ok (some v, now)
      ∧ v.plan = (stackedDraft 254).plan ∧ now.storage.ids = .ok ["v1"] := ⟨_, _, rfl, rfl, rfl⟩
  obtain ⟨v, now, hs, hplan, hids⟩ := hfound
  have hunfolds : v.plan.layout.Unfolds (stacked 254) := hplan ▸ Layout.unfolds_ofTree _
  have hhigh : Layout.nestingLimit < (stacked 254).height := by
    rw [height_stacked]
    decide
  obtain ⟨fault, hv⟩ := (Version.exists_payload_error_iff hunfolds).mpr hhigh
  rw [deepRollback, serve_rollback_of_error usualLimits silentTeam () rfl hs hv]
  exact ⟨rfl, congrArg Except.toOption hids, rfl⟩

theorem ne_of_deepRollback : (deepRollback.serve usualLimits silentTeam deepStore ()).2.store.storage
    ≠ (silentTeam.leave ((), deepStore)
        (deepRollback.serve usualLimits silentTeam deepStore ()).2.inquiries).2.storage := by
  intro hsame
  obtain ⟨-, hnow, hleft⟩ := ids_of_deepRollback
  rw [hsame, hleft] at hnow
  cases hnow

/-- The rollback fails, and the later version is gone although no collaborator was asked. -/
theorem removed_by_failed_rollback : ¬ ∀ (r : Request) (limits : RequestLimits) (team : Team Unit)
    (store : Store), (r.serve limits team store ()).1.succeeded = false →
      (r.serve limits team store ()).2.store.storage
        = (team.leave ((), store) (r.serve limits team store ()).2.inquiries).2.storage := by
  intro hall
  have hsame := hall deepRollback usualLimits silentTeam deepStore ids_of_deepRollback.1
  exact ne_of_deepRollback hsame

theorem lapse_of_deepRollback :
    (deepRollback.serve usualLimits silentTeam deepStore ()).1.succeeded = false
      ∧ deepRollback.Lapse usualLimits
        (silentTeam.leave ((), deepStore)
          (deepRollback.serve usualLimits silentTeam deepStore ()).2.inquiries).2.storage
        (deepRollback.serve usualLimits silentTeam deepStore ()).2.store.storage := by
  have hchanged := changed_iff_lapse deepRollback usualLimits silentTeam deepStore ()
    ids_of_deepRollback.1
  exact ⟨ids_of_deepRollback.1, hchanged.mp ne_of_deepRollback⟩

end Request

end Wireframe
