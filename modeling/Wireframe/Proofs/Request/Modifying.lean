import Wireframe.Proofs.History.Runs
import Wireframe.Proofs.Request.Stages

/-! Modifications beside which others change the history: the version that a modification starts from is
looked up before the collaborators are asked, and has to be there still when the new one is stored. -/
namespace Wireframe

variable {σ : Type} {limits : RequestLimits} {team : Crew (List Store.Call) σ} {s : Store} {state : σ}
variable {vs ws : List Version} {value : Value} {base : Option String} {b : Version}
variable {clean existing : String} {p : Plan} {source : Source} {mint : Mint} {history : List Store.Call}

namespace Store

/-- The version that a modification starts from. -/
def base? (s : Store) : Option String → Except HistoryError (Option Version)
  | none => s.latest?
  | some id => s.storage.get? id

theorem exists_get?_of_base? (h : s.base? base = .ok (some b)) :
    ∃ id, s.storage.get? id = .ok (some b) := by
  cases base with
  | some id => exact ⟨id, h⟩
  | none =>
    obtain ⟨ids, -, h⟩ := Outcome.bind_eq_ok h
    split at h
    · cases h
    · exact ⟨_, h⟩

theorem Holds.mem_of_base? (hs : s.Holds vs) (h : s.base? base = .ok (some b)) : b ∈ vs := by
  obtain ⟨id, hget⟩ := exists_get?_of_base? h
  rw [hs.get?] at hget
  exact List.mem_of_find?_eq_some (Except.ok.inj hget)

end Store

namespace Crew

theorem exists_heed_eq_after (team : Crew (List Store.Call) σ) (x : σ × Store) (inquiry : Inquiry) :
    ∃ calls, (team.heed x inquiry).2 = x.2.after calls := by
  cases inquiry with
  | plan r => exact ⟨(team.planner r x.1).1.interference, rfl⟩
  | explain r =>
    obtain ⟨planner, explainer?⟩ := team
    cases explainer? with
    | none => exact ⟨[], rfl⟩
    | some explainer => exact ⟨(explainer r x.1).1.interference, rfl⟩

/-- What collaborators leave of a history is what calls leave of it. -/
theorem exists_leave_eq_after (team : Crew (List Store.Call) σ) (x : σ × Store) (asked : List Inquiry) :
    ∃ calls, (team.leave x asked).2 = x.2.after calls := by
  induction asked generalizing x with
  | nil => exact ⟨[], rfl⟩
  | cons inquiry asked ih =>
    obtain ⟨first, hfirst⟩ := team.exists_heed_eq_after x inquiry
    obtain ⟨more, hmore⟩ := ih (team.heed x inquiry)
    refine ⟨first ++ more, ?_⟩
    rw [Store.after_append, ← hfirst, ← hmore]
    rfl

end Crew

theorem Work.run_baseVersion {t : Session σ} (h : t.store.base? base = .ok (some b)) :
    (baseVersion base).run t = .ok b t := by
  cases base with
  | none =>
    have h : t.store.latest? = .ok (some b) := h
    simp only [baseVersion, EStateM.run_bind, EStateM.run_get, h, expect, EStateM.run_pure]
  | some id =>
    have h : t.store.storage.get? id = .ok (some b) := h
    simp only [baseVersion, EStateM.run_bind, EStateM.run_get, h, expect, EStateM.run_pure]

namespace Request

/-- A modification whose text passes the check and whose base is found, to which the planner answers with
a plan that passes every check, and whose explainer, if there is one, fails in no unexpected way. What the
two do to the history is left open. -/
structure Modifies (limits : RequestLimits) (team : Crew (List Store.Call) σ) (s : Store) (state : σ)
    (value : Value) (base : Option String) (b : Version) (clean existing : String) (p : Plan)
    (source : Source) : Prop where
  text : ∃ text, Input.check "prompt" limits.inputLength value = .ok text
    ∧ String.ofList (Input.sanitize text.toList) = clean
  base : s.base? base = .ok (some b)
  written : b.plan.toText = .ok existing
  time : limits.plannerTimeout.isExpired = false
  reply : ∃ reply, (team.planner ⟨clean, true, some existing⟩ state).1.reaction = .answers reply
    ∧ reply.Gives limits p
  passes : p.Passes limits source
  explainer : ∀ explainer ∈ team.explainer, ∀ fault,
    (explainer ⟨p, true, some clean⟩
      (team.planner ⟨clean, true, some existing⟩ state).2).1.reaction = .raises fault →
        fault.isUnexpected = false

/-- Such a modification comes to its last stages. -/
theorem Modifies.run_handle (h : Modifies limits team s state value base b clean existing p source) :
    ∃ found w, team.Leads (start s state) w
      ∧ (Work.handle limits team (.modify value base)).run (start s state)
        = (Work.finish clean p (String.ofList source.code) (some b) found).run w := by
  obtain ⟨text, htext, hclean⟩ := h.text
  obtain ⟨reply, hreply, hgives⟩ := h.reply
  refine Work.run_develop htext hclean ?_
    ((Work.run_plan h.time (by rw [Option.mapM_some, h.written]; rfl) rfl hreply).trans
      (Work.run_accept hgives _)) h.passes fun u hu => ?_
  · rw [EStateM.run_bind, Work.run_baseVersion h.base]
    rfl
  · refine Work.exists_run_explain (fun _ _ _ => rfl) fun explainer hmem fault => ?_
    rw [hu]
    exact h.explainer explainer hmem fault

/-- Where the base is still there the new version is put at the end, and the request succeeds if the
version can be handed out. -/
theorem report_finish_of_base {w : Session σ} {t : Tree} (clean : String) (source : Source)
    (found : Option Explanation) (hw : w.store.Holds ws) (hb : b.id ∈ ws.map (·.id)) (ht : p.layout.Unfolds t) :
    let run := report ((Work.finish clean p (String.ofList source.code) (some b) found).run w)
    ∃ v, v.toDraft = ⟨clean, p, String.ofList source.code, found, true, some b.id⟩
      ∧ v.id ∉ ws.map (·.id) ∧ run.2.store.storage = .memory (.ofVersions (ws ++ [v]))
      ∧ (t.height ≤ Layout.nestingLimit → ∃ payload, v.payload = .ok payload
        ∧ run.1 = ⟨.complete, none, w.warnings, some payload, some p, some (String.ofList source.code),
            some (Diff.summary b.code.toList source.code)⟩)
      ∧ (Layout.nestingLimit < t.height →
        run.1 = ⟨.complete, some ⟨.internal, [faultMessage], []⟩, w.warnings, none, none, none, none⟩) := by
  let d : Draft := ⟨clean, p, String.ofList source.code, found, true, some b.id⟩
  have hadd := hw.add (d := d) fun id hid => Option.some.inj hid ▸ hb
  have hheight := Version.exists_payload_error_iff (v := (w.store.mint.version d).1) ht
  refine ⟨(w.store.mint.version d).1, rfl, hw.name_notMem, ?_⟩
  rw [Work.run_finish, Option.isSome_some, Option.map_some, hadd]
  dsimp only
  cases hpayload : (w.store.mint.version d).1.payload with
  | error fault =>
    have hhigh := hheight.mp ⟨fault, hpayload⟩
    exact ⟨rfl, fun hlow => (Nat.not_le.mpr hhigh hlow).elim, fun _ => rfl⟩
  | ok payload =>
    refine ⟨rfl, fun _ => ⟨payload, rfl, ?_⟩, fun hhigh => ?_⟩
    · rw [Option.map_some, String.toList_ofList]
      rfl
    · obtain ⟨fault, hfault⟩ := hheight.mpr hhigh
      rw [hpayload] at hfault
      cases hfault

/-- Where it is gone nothing is stored. -/
theorem report_finish_of_gone {w : Session σ} (clean : String) (p : Plan) (source : Source)
    (found : Option Explanation) (hw : w.store.Holds ws) (hb : b.id ∉ ws.map (·.id)) :
    let run := report ((Work.finish clean p (String.ofList source.code) (some b) found).run w)
    run.2.store.storage = w.store.storage ∧ run.1.stage = .store
      ∧ run.1.failure = some ⟨.versionNotFound,
        [s!"Version {b.id} was rolled back before the modification was stored"], []⟩ := by
  let d : Draft := ⟨clean, p, String.ofList source.code, found, true, some b.id⟩
  have hadd := hw.add_orphan (d := d) rfl hb
  rw [Work.run_finish, Option.isSome_some, Option.map_some, hadd]
  exact ⟨rfl, rfl, rfl⟩

/-- A modification never lands on a base that is gone. Others may have done what they like to the history
before the new version is stored: if the base is there then, it is the same version, and exactly one
version is put at the end, made from the base; else the history is as the others left it. The request
succeeds in the first case if the layout can be written out. -/
theorem settle_modification (hmint : mint.Fresh)
    (h : Modifies limits team (Store.after history ⟨.empty, mint⟩) state value base b clean existing p
      source) :
    let store := Store.after history ⟨.empty, mint⟩
    let run := (Request.modify value base).serve limits team store state
    let left := (team.leave (state, store) run.2.inquiries).2
    ∃ vs t, left.storage.all = .ok vs ∧ p.layout.Unfolds t
      ∧ (left.Lists b.id → b ∈ vs ∧ ∃ v explanation, run.2.store.storage.all = .ok (vs ++ [v])
        ∧ v.toDraft = ⟨clean, p, String.ofList source.code, explanation, true, some b.id⟩
        ∧ (t.height ≤ Layout.nestingLimit → run.1.succeeded = true ∧ run.1.stage = .complete
          ∧ run.1.version = v.payload.toOption
          ∧ run.1.changes = some (Diff.summary b.code.toList source.code))
        ∧ (Layout.nestingLimit < t.height → run.1.stage = .complete
          ∧ run.1.failure = some ⟨.internal, [faultMessage], []⟩))
      ∧ (¬ left.Lists b.id → run.2.store.storage = left.storage ∧ run.1.stage = .store
        ∧ run.1.failure = some ⟨.versionNotFound,
          [s!"Version {b.id} was rolled back before the modification was stored"], []⟩) := by
  obtain ⟨us, hus⟩ := (Store.holds_empty hmint).after history
  have hb := hus.holds.mem_of_base? h.base
  obtain ⟨found, w, ⟨asked, hasked, hleft⟩, hrun⟩ := h.run_handle
  obtain ⟨t, ht, -⟩ := Source.height_le_of_generate h.passes.generated
  have hstore : w.store = (team.leave (state, Store.after history ⟨.empty, mint⟩) asked).2 :=
    congrArg Prod.snd hleft
  obtain ⟨calls, hcalls⟩ :=
    team.exists_leave_eq_after (state, Store.after history ⟨.empty, mint⟩) asked
  obtain ⟨ws, hws⟩ := hus.holds.after calls
  have hw : w.store.Holds ws := by
    rw [hstore, hcalls]
    exact hws.holds
  intro store run left
  have hserve : run = report ((Work.finish clean p (String.ofList source.code) (some b) found).run w) :=
    congrArg report hrun
  have hsame : left = w.store := by
    show (team.leave _ run.2.inquiries).2 = _
    rw [hserve, Work.inquiries_finish, hasked, hstore]
    rfl
  refine ⟨ws, t, ?_, ht, fun hlists => ?_, fun hgone => ?_⟩
  · rw [hsame, hw.storage]
    exact congrArg Except.ok (Memory.all_ofVersions hw.distinct)
  · rw [hsame, hw.lists_iff] at hlists
    obtain ⟨v, hv, hid, hstorage, hlow, hhigh⟩ := report_finish_of_base clean source found hw
      hlists ht
    rw [← hserve] at hstorage hlow hhigh
    refine ⟨hws.mem_of_name hus.holds hb hlists, v, found, ?_, hv, fun h => ?_, fun h => ?_⟩
    · rw [hstorage]
      exact congrArg Except.ok (Memory.all_ofVersions (hw.distinct.concat hid))
    · obtain ⟨payload, hpayload, hresult⟩ := hlow h
      rw [hresult, hpayload]
      exact ⟨rfl, rfl, rfl, rfl⟩
    · rw [hhigh h]
      exact ⟨rfl, rfl⟩
  · rw [hsame, hw.lists_iff] at hgone
    obtain ⟨hstorage, hstage, hfailure⟩ := report_finish_of_gone clean p source found hw
      hgone
    rw [← hserve] at hstorage hstage hfailure
    exact ⟨hsame ▸ hstorage, hstage, hfailure⟩

/-- A planner that answers with a button after it made calls on the history, and no explainer. -/
def meddler (calls : List Store.Call) : Crew (List Store.Call) Unit :=
  ⟨fun _ _ => (⟨calls, .answers (.outcome (.ok buttonPlan))⟩, ()), none⟩

/-- A history with one version, in which others put versions of their own. -/
def lone : Store := Store.after [.add (Store.buttonDraft none)] ⟨.empty, .fresh⟩

theorem holds_lone : lone.Holds [(Mint.fresh.version (Store.buttonDraft none)).1] := by
  have hfresh : Mint.fresh.Fresh := Mint.numbered_injective
  have hfollows := (Store.holds_empty hfresh).follows_add (d := Store.buttonDraft none) nofun
  exact hfollows.holds

/-- Others that put versions of their own at the end remove none. -/
theorem mem_leave_of_additions {us : List Version} {x : Unit × Store} (hx : x.2.Holds us)
    (hb : b ∈ us) (asked : List Inquiry) :
    ((meddler [.add (Store.buttonDraft none)]).leave x asked).2.Lists b.id := by
  induction asked generalizing x us with
  | nil => exact hx.lists_iff.mpr (List.mem_map_of_mem hb)
  | cons inquiry asked ih =>
    cases inquiry with
    | explain r => exact ih hx hb
    | plan r =>
      have hnext := (hx.follows_add (d := Store.buttonDraft none) nofun).holds
      exact ih (x := (meddler [.add (Store.buttonDraft none)]).heed x (.plan r)) hnext
        (List.mem_append_left _ hb)

theorem modifies_lone (calls : List Store.Call) : ∃ existing source,
    Modifies usualLimits (meddler calls) lone () (.text "a button") none
      (Mint.fresh.version (Store.buttonDraft none)).1 "a button" existing buttonPlan source := by
  obtain ⟨existing, hexisting⟩ := Outcome.exists_ok_of_isSome
    (by decide +kernel : (Store.buttonDraft none).plan.toText.toOption.isSome = true)
  obtain ⟨source, hpasses⟩ := passes_button
  refine ⟨existing, source, ⟨"a button", by decide +kernel, by decide +kernel⟩, rfl, hexisting,
    by decide +kernel, ⟨.outcome (.ok buttonPlan), rfl, rfl⟩, hpasses, nofun⟩

/-- A modification of the last version, after which another one was put while the planner was asked. -/
theorem settle_beside_addition :
    Mint.fresh.Fresh
      ∧ (∃ existing source, Modifies usualLimits (meddler [.add (Store.buttonDraft none)]) lone ()
        (.text "a button") none (Mint.fresh.version (Store.buttonDraft none)).1 "a button" existing
        buttonPlan source)
      ∧ ((Request.modify (.text "a button") none).serve usualLimits
        (meddler [.add (Store.buttonDraft none)]) lone ()).1.succeeded = true := by
  obtain ⟨existing, source, h⟩ := modifies_lone [.add (Store.buttonDraft none)]
  have hfresh : Mint.fresh.Fresh := Mint.numbered_injective
  refine ⟨hfresh, ⟨existing, source, h⟩, ?_⟩
  obtain ⟨vs, t, -, ht, hkept, -⟩ := settle_modification hfresh h
  obtain ⟨-, v, explanation, -, -, hlow, -⟩ :=
    hkept (mem_leave_of_additions holds_lone List.mem_cons_self _)
  obtain rfl := ht.unique (Layout.unfolds_ofTree _)
  exact (hlow (by decide)).1

/-- A planner that answers with a plan, and no explainer. -/
def answerer (p : Plan) : Crew (List Store.Call) Unit :=
  ⟨fun _ _ => (⟨[], .answers (.outcome (.ok p))⟩, ()), none⟩

/-- Limits that leave room for high trees. -/
def tallLimits : RequestLimits := Environment.requestLimits [("UIFORGE_MAX_TREE_DEPTH", "300")] .unbounded

theorem bare_stacked (levels : Nat) : (stacked levels).bare = stacked levels := by
  induction levels with
  | zero => rfl
  | succ levels ih => rw [stacked, Tree.bare, Tree.bareAll, Tree.bareAll, ih]

theorem registered_stacked (levels : Nat) : Markup.Registered (stacked levels) := by
  induction levels with
  | zero => decide
  | succ levels ih =>
    have hstack : Component.isRegistered "Stack" = true := by decide
    exact Markup.registered_of hstack (List.forall_mem_singleton.mpr ih)

theorem modifies_stacked : ∃ existing,
    Modifies tallLimits (answerer (.ofTree "stacks" (stacked 254))) lone () (.text "stacks") none
      (Mint.fresh.version (Store.buttonDraft none)).1 "stacks" existing (.ofTree "stacks" (stacked 254))
      (Markup.sourceOf (stacked 254)) := by
  obtain ⟨existing, hexisting⟩ := Outcome.exists_ok_of_isSome
    (by decide +kernel : (Store.buttonDraft none).plan.toText.toOption.isSome = true)
  have hlimit : tallLimits.treeDepth = .whole 300 := by decide +kernel
  have hroom : ((stacked 254).height : Int) ≤ 300 := by
    rw [height_stacked]
    decide
  have hpasses := Plan.passes_bare "stacks" (registered_stacked 254) hlimit hroom
  rw [bare_stacked] at hpasses
  exact ⟨existing, ⟨"stacks", by decide +kernel, by decide +kernel⟩, rfl, hexisting, by decide +kernel,
    ⟨.outcome (.ok (.ofTree "stacks" (stacked 254))), rfl, rfl⟩, hpasses, nofun⟩

theorem leave_answerer (p : Plan) (x : Unit × Store) (asked : List Inquiry) : (answerer p).leave x asked = x := by
  induction asked with
  | nil => rfl
  | cons inquiry asked ih =>
    cases inquiry with
    | plan r => exact ih
    | explain r => exact ih

/-- A button inside 254 stacks is put at the end as a modification of the last version, which nobody removed,
and the request fails. -/
theorem unsettled_stacks :
    let team := answerer (.ofTree "stacks" (stacked 254))
    let b := (Mint.fresh.version (Store.buttonDraft none)).1
    let run := (Request.modify (.text "stacks") none).serve tallLimits team lone ()
    (∃ existing source, Modifies tallLimits team lone () (.text "stacks") none b "stacks" existing
        (.ofTree "stacks" (stacked 254)) source)
      ∧ (team.leave ((), lone) run.2.inquiries).2.Lists b.id
      ∧ (∃ v, run.2.store.storage.all = .ok [b, v] ∧ v.plan = .ofTree "stacks" (stacked 254))
      ∧ run.1.succeeded = false ∧ run.1.stage = .complete ∧ run.1.changes = none := by
  intro team b run
  obtain ⟨existing, h⟩ := modifies_stacked
  have hlisted : b.id ∈ [b].map (·.id) := List.mem_singleton_self b.id
  obtain ⟨found, w, ⟨asked, hasked, hleft⟩, hrun⟩ := h.run_handle
  have hstore : w.store = lone := (congrArg Prod.snd hleft).trans (congrArg Prod.snd (leave_answerer _ _ asked))
  have hw : w.store.Holds [b] := hstore ▸ holds_lone
  have hunfolds : (Plan.ofTree "stacks" (stacked 254)).layout.Unfolds (stacked 254) := Layout.unfolds_ofTree _
  obtain ⟨v, hv, hid, hstorage, -, hhigh⟩ :=
    report_finish_of_base "stacks" (Markup.sourceOf (stacked 254)) found hw hlisted hunfolds
  have hserve : run = report ((Work.finish "stacks" _ _ (some b) found).run w) := congrArg report hrun
  rw [← hserve] at hstorage hhigh
  have hlast := hhigh (by rw [height_stacked]; decide)
  refine ⟨⟨existing, _, h⟩, ?_, ⟨v, ?_, congrArg Draft.plan hv⟩, ?_, ?_, ?_⟩
  · rw [leave_answerer]
    exact holds_lone.lists_iff.mpr hlisted
  · rw [hstorage]
    exact congrArg Except.ok (Memory.all_ofVersions (hw.distinct.concat hid))
  · rw [hlast]
    rfl
  · rw [hlast]
  · rw [hlast]

end Request

end Wireframe
