import Wireframe.Number.Double
import Wireframe.Value

/-!
The settings that are taken from environment variables, each with its default.
-/

namespace Wireframe

/-- The kind of value that a setting holds. -/
inductive SettingKind
  | text
  | int
  | float
  | bool
  | path
  | raw
deriving DecidableEq, Repr

namespace SettingKind

def name : SettingKind → String
  | text => "str"
  | int => "int"
  | float => "float"
  | bool => "bool"
  | path => "Path"
  | raw => "bytes"

end SettingKind

/-- The settings. -/
inductive Variable
  | openaiApiKey
  | anthropicApiKey
  | llmProvider
  | llmModel
  | plannerTimeout
  | explainerTimeout
  | maxTreeDepth
  | maxInputChars
  | versionDb
  | logLevel
deriving DecidableEq, Repr

/-- What is known about a setting. -/
structure Variable.Info where
  key : String
  name : String
  default : Value
  kind : SettingKind
  description : String
  category : String

namespace Variable

def all : List Variable :=
  [openaiApiKey, anthropicApiKey, llmProvider, llmModel, plannerTimeout, explainerTimeout, maxTreeDepth,
    maxInputChars, versionDb, logLevel]

/-- A number of seconds. -/
def seconds (n : Nat) : Value := .float (.ofDecimal false n 0)

def info : Variable → Info
  | openaiApiKey =>
    ⟨"OPENAI_API_KEY", "OPENAI_API_KEY", .null, .text, "OpenAI API key for GPT models", "llm"⟩
  | anthropicApiKey =>
    ⟨"ANTHROPIC_API_KEY", "ANTHROPIC_API_KEY", .null, .text, "Anthropic API key for Claude models",
      "llm"⟩
  | llmProvider =>
    ⟨"LLM_PROVIDER", "UIFORGE_LLM_PROVIDER", .text "openai", .text,
      "LLM provider backing the planner and explainer (openai, anthropic)", "llm"⟩
  | llmModel =>
    ⟨"LLM_MODEL", "UIFORGE_LLM_MODEL", .null, .text, "Model name override (None=provider default)",
      "llm"⟩
  | plannerTimeout =>
    ⟨"PLANNER_TIMEOUT", "UIFORGE_PLANNER_TIMEOUT", seconds 45, .float,
      "Seconds allowed for the planning call before the request fails", "pipeline"⟩
  | explainerTimeout =>
    ⟨"EXPLAINER_TIMEOUT", "UIFORGE_EXPLAINER_TIMEOUT", seconds 30, .float,
      "Seconds allowed for the explanation call (failure is a warning)", "pipeline"⟩
  | maxTreeDepth =>
    ⟨"MAX_TREE_DEPTH", "UIFORGE_MAX_TREE_DEPTH", .int 64, .int,
      "Maximum layout tree depth accepted by validation and codegen", "pipeline"⟩
  | maxInputChars =>
    ⟨"MAX_INPUT_CHARS", "UIFORGE_MAX_INPUT_CHARS", .int 4000, .int,
      "Maximum length of user text accepted by the pipeline", "pipeline"⟩
  | versionDb =>
    ⟨"VERSION_DB", "UIFORGE_VERSION_DB", .null, .path,
      "SQLite file for version history (unset=in-memory)", "history"⟩
  | logLevel =>
    ⟨"LOG_LEVEL", "UIFORGE_LOG_LEVEL", .text "INFO", .text,
      "Log level for the CLI (DEBUG, INFO, WARNING, ERROR)", "logging"⟩

/-- The setting with a key. -/
def ofKey? (key : String) : Option Variable := all.find? (·.info.key = key)

/-- The settings of a category, or all of them. -/
def list (category : Option String) : List Variable :=
  match category with
  | none => all
  | some c => all.filter (·.info.category = c)

end Variable

end Wireframe
