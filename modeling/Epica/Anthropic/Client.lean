import Epica.System2.Client

/-!
# The Anthropic client

The input of a tool is a value.  Of the blocks of a response the first that uses the tool is read,
wherever it stands.
-/

set_option linter.unusedSectionVars false

namespace Epica.System2
open Lib

/-! ## the configuration -/

structure AnthropicConfig where
  apiKey : String
  model : String
  maxTokens : Nat
  baseUrl : String

inductive AnthropicConfigError where
  | missingApiKey

namespace AnthropicConfig

def new (apiKey : String) : AnthropicConfig :=
  ⟨apiKey, "claude-sonnet-4-6", 512, "https://api.anthropic.com"⟩

/-- `var` reads the environment -/
def fromEnv (var : String → Option String) : Except AnthropicConfigError AnthropicConfig :=
  match var "ANTHROPIC_API_KEY" with
  | none => .error .missingApiKey
  | some apiKey => .ok (new apiKey)

end AnthropicConfig

/-! ## what is sent and received -/

structure ContentBlock where
  type : String
  name : Option String
  input : Option Json

structure MessagesResponse where
  content : List ContentBlock

/-- the input of the first block that uses `tool` -/
def MessagesResponse.toolInput (msg : MessagesResponse) (tool : String) : Option Json :=
  (msg.content.find? fun c => decide (c.type = "tool_use") && decide (c.name = some tool)).bind
    ContentBlock.input

def readConfidenceInput [FromJson ConfidenceArgs] (msg : MessagesResponse) :
    Except LlmClientError System2Result :=
  readTool .deserialize "no report_confidence tool_use in response" ConfidenceArgs.toResult
    ((msg.toolInput "report_confidence").map FromJson.fromValue)

def readScenariosInput [FromJson ScenariosArgs] (msg : MessagesResponse) :
    Except ProspectiveClientError (List RawProspectiveScenario) :=
  readTool .deserialize "no generate_scenarios tool_use in response" ScenariosArgs.toRaw
    ((msg.toolInput "generate_scenarios").map FromJson.fromValue)

/-! ## the client -/

structure AnthropicLlmClient where
  config : AnthropicConfig

namespace AnthropicLlmClient

def request (client : AnthropicLlmClient) (model : String) (maxTokens : Nat)
    (content tool : String) : Request where
  url := client.config.baseUrl ++ "/v1/messages"
  headers := [("x-api-key", client.config.apiKey), ("anthropic-version", "2023-06-01"),
    ("content-type", "application/json")]
  model := model
  maxTokens := maxTokens
  content := content
  tool := tool
  toolChoice := .any

/-- what the server makes of a request -/
abbrev Server := Request → Nat → Reply MessagesResponse

section
variable [FromJson ConfidenceArgs] [FromJson ScenariosArgs]

def reflectRequest (client : AnthropicLlmClient) (diagnostic : DiagnosticSignal) : Request :=
  client.request client.config.model client.config.maxTokens (buildSystem2Message diagnostic)
    "report_confidence"

def tryReflect (client : AnthropicLlmClient) (server : Server) (diagnostic : DiagnosticSignal)
    (attempt : Nat) : Except LlmClientError System2Result :=
  readReflection readConfidenceInput (server (client.reflectRequest diagnostic) attempt)

def reflect (client : AnthropicLlmClient) (server : Server) (diagnostic : DiagnosticSignal) :
    List (Effect Request) × Except LlmClientError System2Result :=
  reflectWith (client.reflectRequest diagnostic) (client.tryReflect server diagnostic)

def haikuModel : String := "claude-haiku-4-5-20251001"

def scenariosRequest (client : AnthropicLlmClient) (beliefKey beliefValueRepr : String) :
    Request :=
  client.request haikuModel 512 (buildProspectiveMessage beliefKey beliefValueRepr)
    "generate_scenarios"

/-- one attempt is all that is made -/
def generateScenarios (client : AnthropicLlmClient) (server : Server)
    (beliefKey beliefValueRepr : String) :
    Except ProspectiveClientError (List RawProspectiveScenario) :=
  readScenarios readScenariosInput (server (client.scenariosRequest beliefKey beliefValueRepr) 0)

end
end AnthropicLlmClient

end Epica.System2
