import Wireframe.Command.Run
import Wireframe.Proofs.Agent.Answers
import Wireframe.Proofs.Disk
import Wireframe.Proofs.Lint.Ending
import Wireframe.Proofs.Request.Stages
import Wireframe.Proofs.Source.LineEnds

/-! What the program compiles passes its own check, be it read from the file that it was written to or from
what was printed. -/
namespace Wireframe.Command

variable {α β : Type} {x : Action α} {f : α → Action β} {b : β} {c d : Console} {env : Environment}
variable {capacity : Json.Capacity} {a : Arguments} {m : Manual} {words : List String}
variable {body : Arguments → Action Nat} {code : Nat}
variable {operand raw s input file : String} {replies : List ServiceReply} {place : Workplace}
variable {source : List Char}

/-- The console that a run starts with. -/
def start (input : String) (replies : List ServiceReply) (place : Workplace) : Console :=
  ⟨place, input, "", "", [], ⟨replies, []⟩⟩

/-- An action that comes to its end came to the end of its first part. -/
theorem of_bind_ok (h : (x >>= f).run c = .ok b d) :
    ∃ a e, x.run c = .ok a e ∧ (f a).run e = .ok b d := by
  rw [EStateM.run_bind] at h
  cases hx : x.run c with
  | ok a e =>
    rw [hx] at h
    exact ⟨a, e, rfl, h⟩
  | error fault e =>
    rw [hx] at h
    cases h

theorem of_orFail_ok {ε : Type} {fault : ε → CommandFault} {outcome : Except ε α} {y : α}
    (h : (orFail fault outcome).run c = .ok y d) : outcome = .ok y ∧ d = c := by
  cases outcome with
  | ok z =>
    cases h
    exact ⟨rfl, rfl⟩
  | error e => cases h

theorem run_eq_ok_iff : run env capacity words input replies place = (.ok code, c)
    ↔ (dispatch env capacity words).run (start input replies place) = .ok code c := by
  rw [run, start]
  cases (dispatch env capacity words).run ⟨place, input, "", "", [], ⟨replies, []⟩⟩ with
  | ok code' c' => simp
  | error fault c' => simp

theorem withArguments_of_read (h : m.read words = .ok a) : withArguments m words body = body a := by
  rw [withArguments, h]

/-- A command that comes to its end had its arguments read. -/
theorem of_withArguments_ok (h : (withArguments m words body).run c = .ok code d) :
    ∃ a, m.read words = .ok a ∧ (body a).run c = .ok code d := by
  unfold withArguments at h
  cases hread : m.read words with
  | ok a =>
    rw [hread] at h
    exact ⟨a, rfl, h⟩
  | error halt =>
    rw [hread] at h
    cases halt <;> cases h

/-- Reading prints nothing. -/
theorem out_of_readInput (h : (readInput operand).run c = .ok raw d) : d.out = c.out := by
  unfold readInput at h
  rw [EStateM.run_bind, EStateM.run_get] at h
  dsimp only at h
  split at h
  · cases h
    rfl
  · obtain ⟨-, rfl⟩ := of_orFail_ok h
    rfl

theorem run_report (errors warnings : List String) (c : Console) :
    ∃ err, (report errors warnings).run c = .ok () { c with err } := ⟨_, rfl⟩

/-- What a compilation that comes to a good end went through. -/
theorem of_runCompile_ok (h : (runCompile env capacity a).run c = .ok 0 d) :
    ∃ raw r plan source e, (readInput (a.operand 0)).run c = .ok raw r
      ∧ PlanOutcome.decode capacity (.text raw) = .ok (.ok plan)
      ∧ plan.Passes (env.requestLimits capacity) source ∧ e.out = c.out
      ∧ (writeOutput (String.ofList source.code) (a.value? Manual.outputFlag)).run e = .ok () d := by
  obtain ⟨raw, r, hraw, h⟩ := of_bind_ok h
  have hout := out_of_readInput hraw
  obtain ⟨outcome, e, houtcome, h⟩ := of_bind_ok h
  obtain ⟨hdecode, rfl⟩ := of_orFail_ok houtcome
  cases outcome with
  | malformed message rest => cases h
  | failed message => cases h
  | ok plan =>
    dsimp only at h
    split at h
    · cases h
    · rename_i hlayout
      split at h
      · cases h
      · cases h
      · rename_i source hsource
        obtain ⟨_, e, hreport, h⟩ := of_bind_ok h
        cases hreport
        split at h
        · cases h
        · rename_i hvalid
          obtain ⟨_, e, hwrite, h⟩ := of_bind_ok h
          cases h
          have hlayout : (plan.layout.check (env.depthLimit none) true).isValid = true := by
            simpa using hlayout
          refine ⟨raw, _, plan, source, _, hraw, hdecode, ⟨hlayout, hsource, by simpa using hvalid⟩,
            ?_, hwrite⟩
          exact hout

/-- What was put into a file is there. -/
theorem of_writeOutput_ok (h : (writeOutput s (some file)).run c = .ok () d) :
    d.place.disk.readText (path file) = .ok (String.ofList (Text.plainLines s.toList)) := by
  unfold writeOutput at h
  dsimp only at h
  rw [EStateM.run_bind, EStateM.run_get] at h
  obtain ⟨disk, e, hdisk, h⟩ := of_bind_ok h
  obtain ⟨hwrite, rfl⟩ := of_orFail_ok hdisk
  cases h
  exact Disk.readText_of_writeText hwrite

/-- The result of a check that passes a source. -/
def Clears (result : Except CommandFault Nat × Console) : Prop :=
  result.1.toOption = some 0 ∧ result.2.out = "OK\n"

/-- A source that the check lets pass, checked by the program from where it reads it. -/
theorem clears_lint (hvalid : (Lint.check source).isValid = true) (hwords : Manual.lint.read words = .ok a)
    (hread : (readInput (a.operand 0)).run (start input replies place) = .ok (String.ofList source) c)
    (hout : c.out = "") : Clears (run env capacity ("lint" :: words) input replies place) := by
  have hdispatch : dispatch env capacity ("lint" :: words) = runLint a := withArguments_of_read hwords
  obtain ⟨err, hreport⟩ := run_report (Lint.check source).errors (Lint.check source).warnings c
  have hrun : (dispatch env capacity ("lint" :: words)).run (start input replies place)
      = .ok 0 { c with err, out := c.out ++ "OK" ++ "\n" } := by
    rw [hdispatch, runLint, EStateM.run_bind, hread]
    simp only [String.toList_ofList, hvalid]
    rw [EStateM.run_bind, hreport]
    rfl
  rw [run_eq_ok_iff.mpr hrun, hout]
  exact ⟨rfl, rfl⟩

/-- The check, run by the program, passes a file under all names that it has. -/
def ClearsFile (place : Workplace) (file : String) : Prop :=
  ∀ words a, Manual.lint.read words = .ok a → a.operand 0 ≠ "-" → path (a.operand 0) = path file →
    ∀ env capacity input replies, Clears (run env capacity ("lint" :: words) input replies place)

/-- The check, run by the program, passes what it is given to read. -/
def ClearsInput (input : String) : Prop :=
  ∀ words a, Manual.lint.read words = .ok a → a.operand 0 = "-" →
    ∀ env capacity replies place, Clears (run env capacity ("lint" :: words) input replies place)

theorem clearsFile (hvalid : (Lint.check source).isValid = true)
    (hread : place.disk.readText (path file) = .ok (String.ofList source)) : ClearsFile place file := by
  intro words a hwords hdash hpath env capacity input replies
  refine clears_lint (c := start input replies place) hvalid hwords ?_ rfl
  have hfile : (start input replies place).place.disk.readText (path file)
      = .ok (String.ofList source) := hread
  rw [readInput, EStateM.run_bind, EStateM.run_get]
  simp only [hdash, ↓reduceIte, hpath, hfile, orFail]
  rfl

theorem clearsInput (hvalid : (Lint.check source).isValid = true) :
    ClearsInput (String.ofList source) := by
  intro words a hwords hdash env capacity replies place
  refine clears_lint (c := start "" replies place) hvalid hwords ?_ rfl
  rw [hdash]
  rfl

/-- No source that is generated has a carriage return, and what is compiled passes the check, whether it
was written to a file or printed. -/
theorem compiled_passes (capacity : Json.Capacity) :
    (∀ raw plan bounds limit source, PlanOutcome.decode capacity (.text raw) = .ok (.ok plan) →
      Source.generate bounds plan limit = .ok source → '\r' ∉ source.code)
    ∧ ∀ env words input replies place c,
      run env capacity ("compile" :: words) input replies place = (.ok 0, c) →
      ∃ a raw r plan source, Manual.compile.read words = .ok a
        ∧ (readInput (a.operand 0)).run (start input replies place) = .ok raw r
        ∧ PlanOutcome.decode capacity (.text raw) = .ok (.ok plan)
        ∧ Source.generate capacity.literal plan (env.depthLimit none) = .ok source
        ∧ (∀ file, a.value? Manual.outputFlag = some file →
          c.place.disk.readText (path file) = .ok (String.ofList source.code) ∧ ClearsFile c.place file)
        ∧ (a.value? Manual.outputFlag = none →
          c.out = String.ofList source.code ++ "\n" ∧ ClearsInput c.out) := by
  have hreturn : ∀ raw plan bounds limit source, PlanOutcome.decode capacity (.text raw) = .ok (.ok plan) →
      Source.generate bounds plan limit = .ok source → '\r' ∉ source.code :=
    fun _ _ _ _ _ hdecode => Markup.return_notMem_code (PlanOutcome.accepted_of_decode hdecode)
  refine ⟨hreturn, fun env words input replies place c h => ?_⟩
  have hcompile : (withArguments .compile words (runCompile env capacity)).run (start input replies place)
      = .ok 0 c := run_eq_ok_iff.mp h
  obtain ⟨a, hwords, hcompile⟩ := of_withArguments_ok hcompile
  obtain ⟨raw, r, plan, source, e, hraw, hdecode, ⟨-, hsource, hvalid⟩, hout, hwrite⟩ :=
    of_runCompile_ok hcompile
  refine ⟨a, raw, r, plan, source, hwords, hraw, hdecode, hsource, fun file hfile => ?_,
    fun hfile => ?_⟩
  · rw [hfile] at hwrite
    have hread := of_writeOutput_ok hwrite
    rw [String.toList_ofList, Text.plainLines_eq_self (hreturn _ _ _ _ _ hdecode hsource)] at hread
    exact ⟨hread, clearsFile hvalid hread⟩
  · rw [hfile] at hwrite
    cases hwrite
    -- the line end that printing adds is the only difference between the source and what is printed
    have hprinted : e.out ++ String.ofList source.code ++ "\n" = String.ofList (source.code ++ ['\n']) := by
      rw [hout.trans (rfl : _ = ""), String.empty_append, String.ofList_append]
    refine ⟨hprinted.trans (String.ofList_append ..), ?_⟩
    rw [← Lint.check_newline] at hvalid
    show ClearsInput (e.out ++ String.ofList source.code ++ "\n")
    rw [hprinted]
    exact clearsInput hvalid

/-- A plan that passes every check is compiled where the source can be written. -/
theorem exists_run_compile {plan : Plan} {source : Source} (hwords : Manual.compile.read words = .ok a)
    (hread : (readInput (a.operand 0)).run (start input replies place) = .ok raw c)
    (hdecode : PlanOutcome.decode capacity (.text raw) = .ok (.ok plan))
    (hpasses : plan.Passes (env.requestLimits capacity) source)
    (hwrite : ∀ err, ∃ d, (writeOutput (String.ofList source.code) (a.value? Manual.outputFlag)).run
      { c with err } = .ok () d) :
    ∃ d, run env capacity ("compile" :: words) input replies place = (.ok 0, d) := by
  have hdispatch : dispatch env capacity ("compile" :: words) = runCompile env capacity a :=
    withArguments_of_read hwords
  have hlayout : (plan.layout.check (env.depthLimit none) true).isValid = true := hpasses.layout
  have hgenerated : Source.generate capacity.literal plan (env.depthLimit none) = .ok source := hpasses.generated
  obtain ⟨err, hreport⟩ := run_report (Lint.check source.code).errors
    ((plan.layout.check (env.depthLimit none) true).warnings ++ (Lint.check source.code).warnings) c
  obtain ⟨d, hwrite⟩ := hwrite err
  refine ⟨d, run_eq_ok_iff.mpr ?_⟩
  rw [hdispatch, runCompile, EStateM.run_bind, hread]
  simp only [hdecode, orFail, pure_bind, hlayout, hgenerated, hpasses.linted, Bool.not_true,
    Bool.false_eq_true, ↓reduceIte]
  rw [EStateM.run_bind, hreport]
  simp only [EStateM.run_bind, hwrite, EStateM.run_pure]

/-- A text can be written where there are no files yet. -/
theorem exists_writeOutput (s : String) (h : c.place.disk = .empty) :
    ∃ d, (writeOutput s (some "out.tsx")).run c = .ok () d := by
  have hdisk : ∃ disk, c.place.disk.writeText (path "out.tsx") s = .ok disk := by
    rw [h]
    exact ⟨_, rfl⟩
  obtain ⟨disk, hdisk⟩ := hdisk
  rw [writeOutput]
  dsimp only
  rw [EStateM.run_bind, EStateM.run_get]
  dsimp only
  rw [hdisk]
  exact ⟨_, rfl⟩

/-- The text of a plan of one button. -/
def buttonText : String :=
  "\x7b\"intent\":\"a button\",\"layoutTree\":\x7b\"type\":\"Button\",\"props\":\x7b\"children\":\"Go\"\x7d\x7d\x7d"

theorem decode_buttonText : PlanOutcome.decode .unbounded (.text buttonText) = .ok (.ok buttonPlan) := by
  let t : Tree := .node "Button" (some [("children", .text "Go")]) none
  have hprops : Props.Accepted [("children", .text "Go")] := ⟨by decide, by decide, by simp [Value.isProper]⟩
  have ha : t.Accepted := .node hprops (by simp [t, Tree.childList, Tree.children])
  have hd : t.Decodable Tree.decodeLimit :=
    .node (by simp [t, Tree.type]) (fun _ hps => Option.some.inj hps ▸ hprops.fault)
      (by simp [t, Tree.childList, Tree.children])
  have htext : buttonText = String.ofList (Json.compact .line (Plan.wrap "a button" t.toValue)) := by
    decide +kernel
  rw [htext]
  exact PlanOutcome.decode_compact "a button" rfl ha hd (by decide)

/-- A button is compiled to a file and checked there. -/
theorem button_passes : ∃ c, run [] .unbounded ["compile", "-", "-o", "out.tsx"] buttonText [] .empty = (.ok 0, c)
    ∧ Clears (run [] .unbounded ["lint", "out.tsx"] "" [] c.place) := by
  have hcompile : Manual.compile.read ["-", "-o", "out.tsx"]
      = .ok ⟨[(Manual.outputFlag, "out.tsx")], ["-"], []⟩ := Outcome.eq_ok_of_toOption (by decide +kernel)
  have hlint : Manual.lint.read ["out.tsx"] = .ok ⟨[], ["out.tsx"], []⟩ :=
    Outcome.eq_ok_of_toOption (by decide +kernel)
  have hlimit : (Environment.requestLimits [] .unbounded).treeDepth = Request.usualLimits.treeDepth := by
    decide +kernel
  obtain ⟨source, hlayout, hsource, hvalid⟩ := passes_button
  have hpasses : buttonPlan.Passes (Environment.requestLimits [] .unbounded) source :=
    ⟨hlimit ▸ hlayout, hlimit ▸ hsource, hvalid⟩
  obtain ⟨c, hrun⟩ : ∃ c, run [] .unbounded ["compile", "-", "-o", "out.tsx"] buttonText [] .empty = (.ok 0, c) :=
    exists_run_compile hcompile rfl decode_buttonText hpasses fun err => exists_writeOutput _ rfl
  obtain ⟨a, -, -, -, code, ha, -, -, -, hfile, -⟩ := (compiled_passes .unbounded).2 _ _ _ _ _ _ hrun
  cases hcompile.symm.trans ha
  exact ⟨c, hrun, (hfile "out.tsx" rfl).2 _ _ hlint (by decide) rfl [] .unbounded "" []⟩

end Wireframe.Command
