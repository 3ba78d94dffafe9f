import Wireframe.Proofs.Agent.Answers
import Wireframe.Proofs.Layout.Treelike
import Wireframe.Proofs.Request.Modifying

/-! Requests whose planner answers with a text that nobody has looked at. Each step that the text goes
through succeeds or fails as the request expects, but where there is too much in it to be read or written. -/
namespace Wireframe

variable {σ : Type} {limits : RequestLimits} {team : Crew (List Store.Call) σ} {s : Session σ}
variable {state : σ} {vs : List Version} {value : Value} {raw : String} {p : Plan} {t : Tree}
variable {mint : Mint} {history : List Store.Call}

/-- A history stays in order whatever collaborators do to it. -/
theorem Work.stable_holds (team : Crew (List Store.Call) σ) :
    Stable team fun s : Session σ => ∃ vs, s.store.Holds vs where
  congr s t hstore _ _ hs := by rwa [hstore]
  heed s t inquiry _ hleft hs := by
    obtain ⟨vs, hs⟩ := hs
    obtain ⟨calls, hcalls⟩ := team.exists_heed_eq_after (s.team, s.store) inquiry
    obtain ⟨ws, hws⟩ := hs.after calls
    have hstore : t.store = s.store.after calls := (congrArg Prod.snd hleft).trans hcalls
    exact ⟨ws, hstore ▸ hws.holds⟩

/-- A planner for which no time is left is not asked. -/
theorem Work.run_plan_expired (htime : limits.plannerTimeout.isExpired = true) (text : String) :
    (plan limits team text none).run s = .error (.failure ⟨.collaborator,
      [s!"Planner timed out after {limits.plannerTimeout.briefText}s"], []⟩) s := by
  have hask (request : PlanRequest) : (ask limits.plannerTimeout (.plan request)
    (team.planner request)).run s = _ := run_ask_expired htime
  simp only [plan, Option.mapM_none, pure_bind, EStateM.run_bind, hask]
  rfl

namespace Request

/-- The kinds of failure that an answer may lead to. -/
def answerFailures : List FailureKind := [.input, .collaborator, .schemaViolation, .outputViolation]

/-- A result that is a success or one of these failures. -/
def Foreseen (r : RequestResult) : Prop := ∀ f ∈ r.failure, f.kind ∈ answerFailures

/-- A planner that answers with a text, whatever it is asked. -/
def Answers (team : Crew (List Store.Call) σ) (state : σ) (raw : String) : Prop :=
  ∀ request, (team.planner request state).1.reaction = .answers (.undecoded (.text raw))

theorem foreseen_of_error {f : Failure} (hf : f.kind ∈ answerFailures) :
    Foreseen (report (.error (.failure f) s)).1 := by
  intro g hg
  rwa [← Option.some.inj hg]

/-- A request that has a planner asked for a text. -/
theorem run_plan_undecoded (htime : limits.plannerTimeout.isExpired = false)
    (hplanner : Answers team s.team raw) (text : String) :
    (Work.plan limits team text none).run s = (Work.accept limits (.undecoded (.text raw))).run
      (s.heed (.plan ⟨text, false, none⟩) (team.planner ⟨text, false, none⟩)) :=
  Work.run_plan htime rfl rfl (hplanner _)

/-- A plan that is low enough is stored and handed out. -/
theorem foreseen_finish {clean code : String} (hs : s.store.Holds vs) (ht : p.layout.Unfolds t)
    (hlow : t.height ≤ Layout.nestingLimit) :
    Foreseen (report ((Work.finish clean p code none none).run s)).1 := by
  let d : Draft := ⟨clean, p, code, none, false, none⟩
  have hadd := hs.add (d := d) nofun
  rw [Work.run_finish, Option.isSome_none, Option.map_none, hadd]
  dsimp only
  cases hpayload : (s.store.mint.version d).1.payload with
  | ok payload => exact nofun
  | error fault =>
    have hhigh := (Version.exists_payload_error_iff (v := (s.store.mint.version d).1) ht).mp
      ⟨fault, hpayload⟩
    exact absurd hlow (Nat.not_le.mpr hhigh)

/-- What a plan goes through that was read from an answer, if its literals can be written. -/
theorem foreseen_plan {data : Value} {clean : String}
    (hdecode : PlanOutcome.decode limits.capacity data = .ok (.ok p)) (hfits : ¬ p.Overflows limits)
    (hteam : team.explainer = none) (hs : ∃ vs, s.store.Holds vs) :
    Foreseen (report ((Work.examine limits p >>= fun code => Work.explain limits team p clean none >>=
      Work.finish clean p code none).run s)).1 := by
  obtain ⟨intent, t, rfl, hlow⟩ := PlanOutcome.exists_tree_of_decode hdecode
  have hkey : ((Plan.ofTree intent t).layout.check limits.treeDepth true).keyless? = none :=
    Layout.keyless?_check (Layout.exists_type_of_mem_ofTree t)
  have hfails : Work.FailsAs answerFailures
      (Work.examine limits (.ofTree intent t) : Work σ String) :=
    Work.failsAs_examine hkey hfits (by decide) (by decide)
  have hkeep := (Work.stable_holds team).keeps_examine limits (.ofTree intent t) s hs
  rw [EStateM.run_bind]
  cases hrun : (Work.examine limits (.ofTree intent t)).run s with
  | error i u =>
    obtain ⟨f, rfl, hf⟩ := hfails s i u hrun
    exact foreseen_of_error hf
  | ok code u =>
    rw [hrun] at hkeep
    obtain ⟨⟨vs, hu⟩, -⟩ := hkeep
    simp only [Work.explain, hteam, pure_bind]
    exact foreseen_finish hu (Layout.unfolds_ofTree t) hlow

theorem run_build (text : String) :
    let clean := String.ofList (Input.sanitize text.toList)
    (Work.build limits team text none).run s
      = (Work.plan limits team clean none >>= fun p => Work.examine limits p >>= fun code =>
        Work.explain limits team p clean none >>= Work.finish clean p code none).run
          { s with stage := .plan } := by
  simp only [Work.build, Work.enter, EStateM.run_bind, EStateM.run_modify]

/-- A text that is decoded into something, if there is time to ask for it, leads to a foreseen end, if the
literals of a plan in it can be written. -/
theorem foreseen_build (hs : s.store.Holds vs) (hplanner : Answers team s.team raw)
    (hteam : team.explainer = none) (text : String)
    (hdecode : limits.plannerTimeout.isExpired = false →
      ∃ outcome, PlanOutcome.decode limits.capacity (.text raw) = .ok outcome
        ∧ ∀ p, outcome = .ok p → ¬ p.Overflows limits) :
    Foreseen (report ((Work.build limits team text none).run s)).1 := by
  rw [run_build, EStateM.run_bind]
  generalize String.ofList (Input.sanitize text.toList) = clean
  cases htime : limits.plannerTimeout.isExpired with
  | true =>
    rw [Work.run_plan_expired htime]
    exact foreseen_of_error (by simp [answerFailures])
  | false =>
    obtain ⟨outcome, houtcome, hfits⟩ := hdecode htime
    obtain ⟨ws, hws⟩ := hs.after (team.planner ⟨clean, false, none⟩ s.team).1.interference
    rw [run_plan_undecoded (s := { s with stage := .plan }) htime hplanner, Work.accept, houtcome]
    cases outcome with
    | malformed message rest => exact foreseen_of_error (by simp [answerFailures])
    | failed message => exact foreseen_of_error (by simp [answerFailures])
    | ok p => exact foreseen_plan houtcome (hfits p rfl) hteam ⟨ws, hws.holds⟩

/-- A request that comes to reading an answer. -/
structure Reads (limits : RequestLimits) (value : Value) : Prop where
  text : ∃ text, Input.check "prompt" limits.inputLength value = .ok text
  time : limits.plannerTimeout.isExpired = false

/-- An answer with too much in it to be read. -/
def Excessive (limits : RequestLimits) (raw : String) : Prop :=
  ∃ e, PlanOutcome.decode limits.capacity (.text raw) = .error e

/-- An answer with a plan in which a literal is too deep to be written. -/
def Unwritable (limits : RequestLimits) (raw : String) : Prop :=
  ∃ p, PlanOutcome.decode limits.capacity (.text raw) = .ok (.ok p) ∧ p.Overflows limits

/-- A fault of which nothing else is told, at a stage. -/
def Faults (stage : Stage) (r : RequestResult) : Prop :=
  r.stage = stage ∧ r.failure = some ⟨.internal, [faultMessage], []⟩

theorem Faults.not_foreseen {stage : Stage} {r : RequestResult} (h : Faults stage r) : ¬ Foreseen r := by
  intro hforeseen
  have hkind := hforeseen _ h.2
  simp [answerFailures] at hkind

theorem faults_of_excessive (h : Reads limits value) (hexcess : Excessive limits raw)
    (hplanner : Answers team state raw) (store : Store) :
    Faults .plan ((Request.generate value).serve limits team store state).1 := by
  obtain ⟨⟨text, htext⟩, htime⟩ := h
  obtain ⟨e, he⟩ := hexcess
  rw [Request.serve, Work.handle, Work.develop_eq, htext]
  show Faults .plan (report ((Work.build limits team text none).run _)).1
  rw [run_build, EStateM.run_bind, run_plan_undecoded htime hplanner, Work.accept, he]
  exact ⟨rfl, rfl⟩

theorem faults_of_unwritable (h : Reads limits value) (hunwritable : Unwritable limits raw)
    (hplanner : Answers team state raw) (store : Store) :
    Faults .generate ((Request.generate value).serve limits team store state).1 := by
  obtain ⟨⟨text, htext⟩, htime⟩ := h
  obtain ⟨p, hp, hoverflows⟩ := hunwritable
  rw [Request.serve, Work.handle, Work.develop_eq, htext]
  show Faults .generate (report ((Work.build limits team text none).run _)).1
  rw [run_build, EStateM.run_bind, run_plan_undecoded htime hplanner,
    Work.run_accept (show (PlannerReply.undecoded (.text raw)).Gives limits p from hp)]
  dsimp only
  obtain ⟨warnings, hrun⟩ := Work.run_examine_of_overflows hoverflows _
  rw [EStateM.run_bind, hrun]
  exact ⟨rfl, rfl⟩

theorem foreseen_serve {store : Store}
    (h : Reads limits value → ¬ Excessive limits raw ∧ ¬ Unwritable limits raw) (hs : store.Holds vs)
    (hplanner : Answers team state raw) (hteam : team.explainer = none) :
    Foreseen ((Request.generate value).serve limits team store state).1 := by
  rw [Request.serve, Work.handle, Work.develop_eq]
  cases htext : Input.check "prompt" limits.inputLength value with
  | error fault => exact foreseen_of_error (by simp [answerFailures])
  | ok text =>
    refine foreseen_build (s := { start store state with stage := .input }) hs hplanner hteam text
      fun htime => ?_
    obtain ⟨hexcess, hunwritable⟩ := h ⟨⟨text, htext⟩, htime⟩
    cases hdecode : PlanOutcome.decode limits.capacity (.text raw) with
    | ok outcome =>
      exact ⟨outcome, rfl, fun p hp hoverflows => hunwritable ⟨p, hp ▸ hdecode, hoverflows⟩⟩
    | error e => exact absurd ⟨e, hdecode⟩ hexcess

/-- An answer without so many digits in a row, and for the brackets of which there is room, is neither. -/
theorem not_excessive_of_modest (hdigits : ∀ ds, ds <:+: raw.toList → (∀ c ∈ ds, c.isDigit = true) →
      ds.length ≤ Json.digitLimit)
    (hroom : ∀ room ∈ [limits.capacity.answer, limits.capacity.repaired, limits.capacity.literal.room],
      room.Takes (Json.openers raw.toList)) : ¬ Excessive limits raw ∧ ¬ Unwritable limits raw := by
  have hshort := Text.shortRuns_of_rows hdigits
  simp only [List.forall_mem_cons] at hroom
  obtain ⟨hanswer, hrepaired, hliteral, -⟩ := hroom
  constructor
  · rintro ⟨e, he⟩
    obtain ⟨outcome, houtcome⟩ := PlanOutcome.exists_decode ⟨hshort, hanswer⟩ ⟨hshort, hrepaired⟩
    rw [houtcome] at he
    cases he
  · rintro ⟨p, hp, hoverflows⟩
    exact Markup.generate_ne_overflow (PlanOutcome.accepted_of_decode hp)
      (PlanOutcome.fits_of_decode hliteral hp) hoverflows.generated

/-- A planner that answers with a text, and no explainer. -/
def speaker (raw : String) : Crew (List Store.Call) Unit :=
  ⟨fun _ _ => (⟨[], .answers (.undecoded (.text raw))⟩, ()), none⟩

theorem answers_speaker (raw : String) : Answers (speaker raw) () raw := fun _ => rfl

theorem reads_usual : Reads usualLimits (.text "a button") := ⟨⟨"a button", by decide +kernel⟩, by decide +kernel⟩

/-- A number of so many digits. -/
def ones (count : Nat) : String := String.ofList (List.replicate count '1')

theorem excessive_ones {count : Nat} (h : Json.digitLimit < count) (limits : RequestLimits) :
    Excessive limits (ones count) := by
  have hdigit : ∀ c ∈ List.replicate count '1', c.isDigit = true := fun c hc => by
    rw [List.eq_of_mem_replicate hc]
    rfl
  have hwhole : Json.Whole (List.replicate count '1') := by
    obtain ⟨n, rfl⟩ : ∃ n, count = n + 1 := ⟨count - 1, by omega⟩
    exact ⟨by simp, hdigit, by simp [List.replicate_succ]⟩
  have hread (room : Json.Room) : Json.readWithin room (List.replicate count '1') = _ :=
    Json.readWithin_digits hwhole (by rwa [List.length_replicate])
  refine ⟨.digits count, ?_⟩
  rw [PlanOutcome.decode, Answer.object?, ones, String.toList_ofList, hread, List.length_replicate]
  rfl

/-- So many opening brackets. -/
def brackets (count : Nat) : String := String.ofList (List.replicate count '[')

/-- It may also answer with lists inside each other for which there is no room. -/
theorem excessive_brackets {count : Nat} (h : ¬ limits.capacity.answer.Takes count) :
    Excessive limits (brackets count) := by
  obtain ⟨rest, hread⟩ := Json.readWithin_brackets h
  refine ⟨.lists, ?_⟩
  rw [PlanOutcome.decode, Answer.object?, brackets, String.toList_ofList, hread]
  rfl

end Request

end Wireframe
