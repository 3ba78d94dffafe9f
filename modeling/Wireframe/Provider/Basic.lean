import Wireframe.Json.Room
import Wireframe.Number.Quantity
import Wireframe.Text.Case
import Wireframe.Text.Search

/-!
Model providers: how a generation is configured, and how a call can fail.
-/

namespace Wireframe

/-- The settings of one generation. -/
structure GenerationConfig where
  temperature : Quantity
  maxTokens : Int
  jsonMode : Bool
  stopSequences : List String
  topP : Quantity
  seed : Option Int

namespace GenerationConfig

def default : GenerationConfig :=
  ⟨.real (.ofDecimal false 7 (-1)), 4096, true, [], .real (.ofDecimal false 1 0), none⟩

/-- The same settings with JSON asked for. -/
def asJson (c : GenerationConfig) : GenerationConfig := { c with jsonMode := true }

end GenerationConfig

def Quantity.toValue : Quantity → Value
  | whole n => .int n
  | real x => .float x

def Quantity.ofValue? : Value → Option Quantity
  | .int n => some (.whole n)
  | .float x => some (.real x)
  | _ => none

def GenerationConfig.toValue (c : GenerationConfig) : Value :=
  .object [
    ("temperature", c.temperature.toValue),
    ("max_tokens", .int c.maxTokens),
    ("json_mode", .bool c.jsonMode),
    ("stop_sequences", .list (c.stopSequences.map .text)),
    ("top_p", c.topP.toValue),
    ("seed", (c.seed.map Value.int).getD .null)]

/-- The ways in which a provider's service fails. -/
inductive ServiceFault
  | general
  | rateLimit
  | contextLength
  | invalidResponse
  | authentication
deriving DecidableEq, Repr

/-- What a call can raise: a failure of the service, or something else. -/
inductive CallFault
  | service (fault : ServiceFault) (message : String)
  | timeout (message : String)
  | value (message : String)
  | runtime (message : String)
  | recursion (message : String)
deriving DecidableEq, Repr

namespace CallFault

def message : CallFault → String
  | service _ message | timeout message | value message | runtime message | recursion message => message

/-- What a reader raises that finds too much in a text. -/
def ofExcess (e : Json.Excess) : CallFault :=
  match e with
  | .digits _ => .value e.message
  | .lists | .objects => .recursion e.message

/-- Whether the text of a failure speaks of one of some phrases, in any case. -/
def mentions (s : List Char) (phrases : List String) : Bool :=
  phrases.any fun p => Text.contains p.toList (Text.lower s)

/-- The failure of the service that its own error text stands for. -/
def ofServiceText (message : String) : CallFault :=
  let s := message.toList
  if mentions s ["rate limit", "rate_limit"] then .service .rateLimit message
  else if mentions s ["context length", "maximum context", "too long"] then
    .service .contextLength message
  else if mentions s ["authentication", "invalid api key", "invalid x-api-key"] then
    .service .authentication message
  else .service .general message

end CallFault

end Wireframe
