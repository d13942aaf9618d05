import Epica.System2.Client

/-!
# The OpenAI client

The arguments of a tool call are a text.  Of the choices of a response the first is read, and of its
tool calls the first.
-/

set_option linter.unusedSectionVars false

namespace Epica.System2
open Lib

/-! ## the configuration -/

structure OpenAiConfig where
  apiKey : String
  model : String
  maxTokens : Nat
  baseUrl : String

inductive OpenAiConfigError where
  | missingApiKey

namespace OpenAiConfig

def new (apiKey : String) : OpenAiConfig :=
  ⟨apiKey, "gpt-4o-mini", 512, "https://api.openai.com"⟩

/-- `var` reads the environment -/
def fromEnv (var : String → Option String) : Except OpenAiConfigError OpenAiConfig :=
  match var "OPENAI_API_KEY" with
  | none => .error .missingApiKey
  | some apiKey => .ok (new apiKey)

end OpenAiConfig

/-! ## what is sent and received -/

structure ToolFunction where
  name : String
  arguments : String

structure ToolCall where
  function : ToolFunction

structure Message where
  toolCalls : List ToolCall

structure Choice where
  message : Message

structure ChatCompletionResponse where
  choices : List Choice

/-- the first call of the first choice, if it is one of `tool` -/
def ChatCompletionResponse.call (body : ChatCompletionResponse) (tool : String) : Option ToolCall :=
  (body.choices.head?.bind fun c => c.message.toolCalls.head?).filter fun c =>
    decide (c.function.name = tool)

def readConfidenceCall [FromJson ConfidenceArgs] (body : ChatCompletionResponse) :
    Except LlmClientError System2Result :=
  readTool .deserialize "no report_confidence tool_call in OpenAI response"
    ConfidenceArgs.toResult
    ((body.call "report_confidence").map fun call => FromJson.fromStr call.function.arguments)

def readScenariosCall [FromJson ScenariosArgs] (body : ChatCompletionResponse) :
    Except ProspectiveClientError (List RawProspectiveScenario) :=
  readTool .deserialize "no generate_scenarios tool_call in OpenAI response"
    ScenariosArgs.toRaw
    ((body.call "generate_scenarios").map fun call => FromJson.fromStr call.function.arguments)

/-! ## the client -/

structure OpenAiLlmClient where
  config : OpenAiConfig

namespace OpenAiLlmClient

def request (client : OpenAiLlmClient) (model : String) (maxTokens : Nat) (content tool : String) :
    Request where
  url := client.config.baseUrl ++ "/v1/chat/completions"
  headers := [("authorization", "Bearer " ++ client.config.apiKey),
    ("content-type", "application/json")]
  model := model
  maxTokens := maxTokens
  content := content
  tool := tool
  toolChoice := .function tool

/-- what the server makes of a request -/
abbrev Server := Request → Nat → Reply ChatCompletionResponse

section
variable [FromJson ConfidenceArgs] [FromJson ScenariosArgs]

def reflectRequest (client : OpenAiLlmClient) (diagnostic : DiagnosticSignal) : Request :=
  client.request client.config.model client.config.maxTokens (buildSystem2Message diagnostic)
    "report_confidence"

def tryReflect (client : OpenAiLlmClient) (server : Server) (diagnostic : DiagnosticSignal)
    (attempt : Nat) : Except LlmClientError System2Result :=
  readReflection readConfidenceCall (server (client.reflectRequest diagnostic) attempt)

def reflect (client : OpenAiLlmClient) (server : Server) (diagnostic : DiagnosticSignal) :
    List (Effect Request) × Except LlmClientError System2Result :=
  reflectWith (client.reflectRequest diagnostic) (client.tryReflect server diagnostic)

def prospectiveModel : String := "gpt-4o-mini"

def scenariosRequest (client : OpenAiLlmClient) (beliefKey beliefValueRepr : String) : Request :=
  client.request prospectiveModel 512 (buildProspectiveMessage beliefKey beliefValueRepr)
    "generate_scenarios"

/-- one attempt is all that is made -/
def generateScenarios (client : OpenAiLlmClient) (server : Server)
    (beliefKey beliefValueRepr : String) :
    Except ProspectiveClientError (List RawProspectiveScenario) :=
  readScenarios readScenariosCall (server (client.scenariosRequest beliefKey beliefValueRepr) 0)

end
end OpenAiLlmClient

end Epica.System2
