import Wireframe.Command.Arguments
import Wireframe.Command.Help
import Wireframe.Command.Model
import Wireframe.Component.Catalogue
import Wireframe.Disk
import Wireframe.Plan.Schema
import Wireframe.Request.Serve
import Wireframe.Settings.LogLevel

/-!
Running commands. A command reads and writes files, prints, and keeps a history; all of this is a value
here, so a run is a function of what it finds.
-/

namespace Wireframe

/-- A line that a command logs. -/
inductive LogLine
  | info (text : String)
  | error (text : String)
deriving DecidableEq, Repr

def LogLine.text : LogLine → String
  | info text => s!"INFO: {text}"
  | error text => s!"ERROR: {text}"

/-- What commands leave for the commands after them. -/
structure Workplace where
  disk : Disk
  mint : Mint

def Workplace.empty : Workplace := ⟨.empty, .fresh⟩

/-- A command in its course: the files, what is still to be read, and what was printed and logged. -/
structure Console where
  place : Workplace
  input : String
  out : String
  err : String
  log : List LogLine
  talk : Conversation

/-- Why a command does not come to its end. -/
inductive CommandFault
  | quit (code : Nat)
  | disk (fault : DiskError)
  | history (fault : HistoryError)
  | excess (e : Json.Excess)
  | overflow
  | nesting (fault : NestingError)
  | unwritable (fault : Json.WriteError)

/-- A part of a command. What it did before it fails stays done. -/
abbrev Action := EStateM CommandFault Console

namespace Command

def printLine (s : String) : Action Unit := modify fun c => { c with out := c.out ++ s ++ "\n" }

def log (line : LogLine) : Action Unit := modify fun c => { c with log := c.log ++ [line] }

/-- Errors and warnings for people to see. -/
def report (errors warnings : List String) : Action Unit :=
  let lines := errors.map (fun m => s!"error: {m}\n") ++ warnings.map fun m => s!"warning: {m}\n"
  modify fun c => { c with err := c.err ++ String.join lines }

/-- The value of a result, or the fault that stands for its failure. -/
def orFail {α ε : Type} (fault : ε → CommandFault) : Except ε α → Action α
  | .ok a => pure a
  | .error e => throw (fault e)

/-- A path as it was given, in its plain form. -/
def path (s : String) : String := String.ofList (Text.plainPath s.toList)

/-- The text that an operand stands for: a file, or, for a dash, all that is still to be read. -/
def readInput (operand : String) : Action String := do
  let c ← get
  if operand = "-" then
    set { c with input := "" }
    return c.input
  else orFail .disk (c.place.disk.readText (path operand))

/-- A text written to a file, or printed where none is given. -/
def writeOutput (s : String) (file : Option String) : Action Unit := do
  match file with
  | none => printLine s
  | some file =>
    let file := path file
    let c ← get
    let disk ← orFail .disk (c.place.disk.writeText file s)
    set { c with place := { c.place with disk } }
    log (.info s!"Saved to {file}")

/-- The path of the database for the history: as given, or from the environment. -/
def databasePath (env : Environment) (a : Arguments) : Option String :=
  match a.value? Manual.databaseFlag with
  | some file => some file
  | none => env.text? .versionDb

/-- The history at a path. -/
def openStore (file : Option String) : Action Store := do
  let c ← get
  match file with
  | none => return ⟨.empty, c.place.mint⟩
  | some file =>
    let file := path file
    if file = Database.volatilePath then return ⟨.create (some file), c.place.mint⟩
    else
      let disk ← orFail .disk (c.place.disk.makeFolders file)
      set { c with place := { c.place with disk } }
      let table ← orFail .history (disk.rows file)
      return ⟨.database (Database.atPath file table).opened, c.place.mint⟩

/-- A history put back where it is kept. -/
def closeStore (s : Store) : Action Unit :=
  modify fun c => { c with place := ⟨c.place.disk.keep s.storage, s.mint⟩ }

def runSchema (a : Arguments) : Action Nat := do
  let data := if a.has Manual.jsonSchemaFlag then Plan.jsonSchema else Component.catalogue
  printLine (Json.text .pretty data)
  return 0

def runCompile (env : Environment) (capacity : Json.Capacity) (a : Arguments) : Action Nat := do
  let raw ← readInput (a.operand 0)
  match ← orFail .excess (PlanOutcome.decode capacity (.text raw)) with
  | .malformed message _ | .failed message =>
    report [message] []
    return 1
  | .ok plan =>
    let limit := env.depthLimit none
    let layout := plan.layout.check limit true
    if !layout.isValid then
      report layout.messages layout.warnings
      return 1
    else
      match Source.generate capacity.literal plan limit with
      | .error .overflow => throw .overflow
      | .error fault =>
        report [fault.message] layout.warnings
        return 1
      | .ok source =>
        let lint := Lint.check source.code
        report lint.errors (layout.warnings ++ lint.warnings)
        if !lint.isValid then return 1
        else
          writeOutput (String.ofList source.code) (a.value? Manual.outputFlag)
          return 0

def runLint (a : Arguments) : Action Nat := do
  let source ← readInput (a.operand 0)
  let lint := Lint.check source.toList
  report lint.errors lint.warnings
  if lint.isValid then
    printLine "OK"
    return 0
  else return 1

def runDiff (a : Arguments) : Action Nat := do
  let old ← readInput (a.operand 0)
  let new ← readInput (a.operand 1)
  printLine (Json.text .pretty (Diff.toValue old.toList new.toList))
  return 0

/-- The result of a request, printed. -/
def printResult (bounds : Json.Bounds) (r : RequestResult) (asJson : Bool) : Action Unit := do
  if asJson then
    let v ← orFail .nesting r.toValue
    let text ← orFail .unwritable (Json.write (Json.Style.pretty.within bounds) 0 v)
    printLine (String.ofList text)
  else
    report ((r.failure.map (·.errors)).getD []) r.warnings
    if r.succeeded then
      printLine (r.code.getD "")
      if let some changes := r.changes then log (.info changes)
      let id := ((r.version.bind (·.get? "id")).bind (·.text?)).getD ""
      log (.info s!"Version {id}")

/-- A request served with the help of a model. -/
def runRequest (env : Environment) (capacity : Json.Capacity) (a : Arguments) (r : Request) :
    Action Nat := do
  let model := Backend.create env (a.value? Manual.providerFlag) (a.value? Manual.modelFlag)
    (a.value? Manual.keyFlag) none
  match model with
  | .error fault =>
    log (.error s!"Cannot create LLM backend: {fault.message}")
    return 1
  | .ok b =>
    let store ← openStore (databasePath env a)
    let team := b.team capacity (!a.has Manual.noExplainFlag)
    let (result, session) := r.serve (env.requestLimits capacity) team store (← get).talk
    modify fun c => { c with talk := session.team }
    closeStore session.store
    printResult capacity.printed result (a.has Manual.jsonFlag)
    return if result.succeeded then 0 else 1

def runHistory (env : Environment) (a : Arguments) : Action Nat := do
  let store ← openStore (databasePath env a)
  let summaries ← orFail .history store.storage.summaries
  printLine (Json.text .pretty (.list (summaries.map (·.toValue))))
  closeStore store
  return 0

def runRollback (env : Environment) (a : Arguments) : Action Nat := do
  let id := a.operand 0
  let store ← openStore (databasePath env a)
  let (target, store) ← orFail .history (store.rollback id)
  closeStore store
  match target with
  | none =>
    log (.error s!"Version {id} not found")
    return 1
  | some v =>
    printLine v.code
    return 0

/-- A command with its arguments read. -/
def withArguments (m : Manual) (words : List String) (run : Arguments → Action Nat) : Action Nat := do
  match m.read words with
  | .ok a => run a
  | .error .help =>
    modify fun c => { c with out := c.out ++ m.help }
    throw (.quit 0)
  | .error (.fault fault) =>
    modify fun c => { c with err := c.err ++ m.usage ++ s!"{m.title}: error: {fault.message}\n" }
    throw (.quit 2)

def showOverview : Action Unit := modify fun c => { c with out := c.out ++ Manual.overview }

/-- The command that the first word names. -/
def dispatch (env : Environment) (capacity : Json.Capacity) : List String → Action Nat
  | [] => do
    showOverview
    return 1
  | command :: words =>
    match command with
    | "-h" | "--help" => do
      showOverview
      return 0
    | "schema" => withArguments .schema words runSchema
    | "compile" => withArguments .compile words (runCompile env capacity)
    | "lint" => withArguments .lint words runLint
    | "diff" => withArguments .diff words runDiff
    | "generate" =>
      withArguments .generate words fun a => runRequest env capacity a (.generate (.text (a.operand 0)))
    | "modify" =>
      withArguments .modify words fun a =>
        runRequest env capacity a (.modify (.text (a.operand 0)) (a.value? Manual.versionFlag))
    | "history" => withArguments .history words (runHistory env)
    | "rollback" => withArguments .rollback words (runRollback env)
    | _ => do
      log (.error s!"Unknown command: {command}")
      showOverview
      return 1

/-- A run of the program: its exit code or why it has none, and what it leaves. -/
def run (env : Environment) (capacity : Json.Capacity) (words : List String) (input : String)
    (replies : List ServiceReply) (place : Workplace) : Except CommandFault Nat × Console :=
  match (dispatch env capacity words).run ⟨place, input, "", "", [], ⟨replies, []⟩⟩ with
  | .ok code c => (.ok code, c)
  | .error fault c => (.error fault, c)

end Command

end Wireframe
