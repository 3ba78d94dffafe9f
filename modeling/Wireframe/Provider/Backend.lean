import Wireframe.Provider.Basic
import Wireframe.Provider.Fence
import Wireframe.Settings.Basic

/-!
The two providers behind one interface: what is sent for a prompt, and what is made of the reply.
-/

namespace Wireframe

inductive Provider
  | openai
  | anthropic
deriving DecidableEq, Repr

namespace Provider

def name : Provider → String
  | openai => "openai"
  | anthropic => "anthropic"

def defaultModel : Provider → String
  | openai => "gpt-4.1-mini"
  | anthropic => "claude-sonnet-4-5"

def keyVariable : Provider → Variable
  | openai => .openaiApiKey
  | anthropic => .anthropicApiKey

/-- Whether the provider has a mode for JSON of its own. -/
def hasJsonMode : Provider → Bool
  | openai => true
  | anthropic => false

/-- The provider with a name in any case. -/
def ofName? (s : String) : Option Provider :=
  match String.ofList (Text.lower s.toList) with
  | "openai" => some openai
  | "anthropic" => some anthropic
  | _ => none

def missingKey : Provider → String
  | openai =>
    "OpenAI API key required. Set OPENAI_API_KEY environment variable or pass api_key parameter."
  | anthropic =>
    "Anthropic API key required. Set ANTHROPIC_API_KEY environment variable or pass api_key parameter."

end Provider

/-- A provider made ready for calls. -/
structure Backend where
  provider : Provider
  model : String
  timeout : Value
  maxRetries : Value

/-- What the service replied. -/
structure Reply where
  content : Option String
  finish : Option String
  usage : Option (List Int)
  model : String

/-- A generated text with what is known about it. -/
structure Generation where
  content : String
  finish : String
  promptTokens : Int
  completionTokens : Int
  totalTokens : Int
  model : String

namespace Backend

def name (b : Backend) : String := s!"{b.provider.name}:{b.model}"

/-- The seconds that a call may take unless said otherwise. -/
def defaultTimeout : Value := Variable.seconds 60

/-- A text that is given and not empty. -/
def given? (s : Option String) : Option String := s.filter (· ≠ "")

/-- A backend of a provider. Its key is given or comes from the environment. -/
def make (env : Environment) (provider : Provider) (key : Option String) (model : String)
    (timeout maxRetries : Value) : Except CallFault Backend :=
  if (given? key).isSome || (given? (env.text? provider.keyVariable)).isSome then
    .ok ⟨provider, model, timeout, maxRetries⟩
  else .error (.service .authentication provider.missingKey)

/-- A backend of a provider that is given by name or comes from the environment. -/
def create (env : Environment) (provider model key : Option String) (timeout : Option Value) :
    Except CallFault Backend :=
  let name := provider.getD ((env.text? .llmProvider).getD "")
  match Provider.ofName? name with
  | none =>
    let shown := String.ofList (Text.lower name.toList)
    .error (.value s!"Unsupported LLM provider: {shown}. Available: anthropic, openai")
  | some p =>
    let model := (given? model <|> given? (env.text? .llmModel)).getD p.defaultModel
    make env p key model (timeout.getD defaultTimeout) (.int 3)

/-- What is added to a prompt for a provider without a mode for JSON. -/
def jsonInstruction : String :=
  "IMPORTANT: Respond with valid JSON only. Do not include any text, explanation, or markdown formatting "
    ++ "before or after the JSON object."

/-- A message of a conversation. -/
def message (role content : String) : Value :=
  .object [("role", .text role), ("content", .text content)]

/-- An entry that is there on a condition. -/
def entryIf (condition : Bool) (key : String) (v : Value) : List (String × Value) :=
  if condition then [(key, v)] else []

/-- The prompt as the user's message has it. -/
def userText (b : Backend) (prompt : String) (c : GenerationConfig) : String :=
  if c.jsonMode && !b.provider.hasJsonMode then s!"{prompt}\n\n{jsonInstruction}" else prompt

/-- What is sent to the service for a prompt. -/
def request (b : Backend) (prompt : String) (system : Option String) (c : GenerationConfig) : Value :=
  let stops : Value := .list (c.stopSequences.map .text)
  let user := message "user" (b.userText prompt c)
  match b.provider with
  | .openai =>
    .object ([
        ("model", .text b.model),
        ("messages", .list (((given? system).map (message "system")).toList ++ [user])),
        ("temperature", c.temperature.toValue),
        ("max_tokens", .int c.maxTokens),
        ("top_p", c.topP.toValue)]
      ++ entryIf c.jsonMode "response_format" (.object [("type", .text "json_object")])
      ++ entryIf (!c.stopSequences.isEmpty) "stop" stops
      ++ c.seed.toList.map fun n => ("seed", .int n))
  | .anthropic =>
    .object ([
        ("model", .text b.model),
        ("messages", .list [user]),
        ("max_tokens", .int c.maxTokens),
        ("temperature", c.temperature.toValue)]
      ++ (given? system).toList.map (fun s => ("system", .text s))
      ++ entryIf (!c.stopSequences.isEmpty) "stop_sequences" stops)

/-- What a reply is made into. -/
def generation (b : Backend) (r : Reply) : Generation :=
  let used (i : Nat) : Int := ((r.usage.getD [])[i]?).getD 0
  let total :=
    match b.provider with
    | .openai => used 2
    | .anthropic => used 0 + used 1
  ⟨r.content.getD "", (given? r.finish).getD "unknown", used 0, used 1, total, r.model⟩

/-- The text that is read as JSON in an answer. -/
def jsonText (b : Backend) (content : List Char) : List Char :=
  match b.provider with
  | .openai => content
  | .anthropic => Json.block content

/-- The JSON in an answer. -/
def readJson (b : Backend) (room : Json.Room) (content : String) : Except CallFault Value :=
  let text := b.jsonText content.toList
  match Json.readWithin room text with
  | .ok v => .ok v
  | .error stop =>
    match stop.locate text with
    | .excess e => .error (.ofExcess e)
    | fault =>
      let shown := String.ofList (content.toList.take 500)
      .error (.service .invalidResponse
        s!"Failed to parse JSON response: {fault.message}\nContent: {shown}")

end Backend

end Wireframe
