/-!
The commands of the program, each with its flags and operands.
-/

namespace Wireframe

/-- A flag: its spellings, what its value is called where it takes one, and what it is for. -/
structure Flag where
  spellings : List String
  value : Option String
  help : String
deriving DecidableEq, Repr

namespace Flag

/-- The spelling that stands for the flag. -/
def name (f : Flag) : String := f.spellings.headD ""

def takesValue (f : Flag) : Bool := f.value.isSome

end Flag

structure Operand where
  name : String
  help : String
deriving DecidableEq, Repr

/-- What a command is called, what it is for, and what it takes. -/
structure Manual where
  command : String
  summary : String
  operands : List Operand
  ownFlags : List Flag
deriving DecidableEq, Repr

namespace Manual

def programName : String := "uiforge"

def title (m : Manual) : String := s!"{programName} {m.command}"

/-- The flag that every command has. -/
def helpFlag : Flag := ⟨["-h", "--help"], none, "show this help message and exit"⟩

def flags (m : Manual) : List Flag := helpFlag :: m.ownFlags

/-- Every spelling of every flag, with its flag. -/
def spellings (m : Manual) : List (String × Flag) :=
  m.flags.flatMap fun f => f.spellings.map fun s => (s, f)

/-- The flag with a spelling. -/
def flag? (m : Manual) (spelling : String) : Option Flag :=
  (m.spellings.find? (·.1 = spelling)).map (·.2)

def jsonSchemaFlag : Flag :=
  ⟨["--json-schema"], none, "Print the JSON Schema of a plan instead of the registry"⟩

def outputFlag : Flag :=
  ⟨["--output", "-o"], some "OUTPUT", "Output file path (prints to stdout if not specified)"⟩

def databaseFlag : Flag :=
  ⟨["--db"], some "DB", "Version database path (default: UIFORGE_VERSION_DB)"⟩

def providerFlag : Flag :=
  ⟨["--provider", "-p"], some "PROVIDER",
    "LLM provider: openai or anthropic (default: UIFORGE_LLM_PROVIDER)"⟩

def modelFlag : Flag :=
  ⟨["--model", "-m"], some "MODEL",
    "LLM model name (default: UIFORGE_LLM_MODEL or provider default)"⟩

def keyFlag : Flag := ⟨["--api-key", "-k"], some "API_KEY", "API key (uses env var if not provided)"⟩

def noExplainFlag : Flag := ⟨["--no-explain"], none, "Skip the explanation step"⟩

def jsonFlag : Flag := ⟨["--json"], none, "Print the full result as JSON instead of the source"⟩

def versionFlag : Flag :=
  ⟨["--version", "-v"], some "VERSION", "Version ID to modify (default: latest)"⟩

/-- The flags of the commands that call a model. -/
def modelFlags : List Flag :=
  [providerFlag, modelFlag, keyFlag, noExplainFlag, jsonFlag, databaseFlag]

def schema : Manual where
  command := "schema"
  summary := "Print the component whitelist shared with the planner"
  operands := []
  ownFlags := [jsonSchemaFlag]

def compile : Manual where
  command := "compile"
  summary := "Validate a plan, generate source and lint it"
  operands := [⟨"plan", "Plan JSON file ('-' for stdin)"⟩]
  ownFlags := [outputFlag]

def lint : Manual where
  command := "lint"
  summary := "Check generated source against the component whitelist"
  operands := [⟨"source", "Source file ('-' for stdin)"⟩]
  ownFlags := []

def diff : Manual where
  command := "diff"
  summary := "Positional line diff of two source files"
  operands := [⟨"old", "Original source file"⟩, ⟨"new", "Updated source file"⟩]
  ownFlags := []

def generate : Manual where
  command := "generate"
  summary := "Generate UI source from natural language"
  operands := [⟨"request", "Description of the UI"⟩]
  ownFlags := modelFlags

def modify : Manual where
  command := "modify"
  summary := "Modify an existing version from natural language"
  operands := [⟨"request", "Requested change"⟩]
  ownFlags := versionFlag :: modelFlags

def history : Manual where
  command := "history"
  summary := "List version history"
  operands := []
  ownFlags := [databaseFlag]

def rollback : Manual where
  command := "rollback"
  summary := "Roll back version history (destructive, no redo)"
  operands := [⟨"version_id", "Version ID to roll back to"⟩]
  ownFlags := [databaseFlag]

end Manual

end Wireframe
