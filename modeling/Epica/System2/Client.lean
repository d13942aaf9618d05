import Epica.Lib.Retry
import Epica.Openai.Embeddings
import Epica.Runtime.Indexing

/-!
# Clients of language models

What a System 2 client and a prospective client have in common, whichever provider they call: the
errors, the prompts, how the status of a response is read, and the loop that retries.  The body of a
response is whatever the provider sends, and `read` is what the client makes of it.

* `reflectWith_spec`      a reflection makes the attempts up to its last one, and returns what that
                          attempt has ended in;
* `isTransient_reading`   which attempts are made again is read off the reply.
-/

set_option linter.unusedSectionVars false

namespace Epica.System2
open Lib

structure System2Result where
  revisedConfidence : ℚ
  reasoning : String
  deriving DecidableEq

inductive LlmClientError where
  | network (message : String)
  | clientError (message : String)
  | deserialize (message : String)
  | rateLimited
  deriving DecidableEq

inductive ProspectiveClientError where
  | network (message : String)
  | rateLimited
  | deserialize (message : String)
  deriving DecidableEq

/-! ## requests -/

inductive ToolChoice where
  | any
  | function (name : String)

/-- the tool is the name of the one whose schema is sent -/
structure Request where
  url : String
  headers : List (String × String)
  model : String
  maxTokens : Nat
  content : String
  tool : String
  toolChoice : ToolChoice

/-- in units of the fourth decimal; a tie goes to the even one -/
def tenThousandths (x : ℚ) : Nat :=
  let n := x.num.natAbs * 10000 / x.den
  let r := x.num.natAbs * 10000 % x.den
  if 2 * r < x.den then n else if x.den < 2 * r then n + 1 else n + n % 2

/-- `format!("{x:.4}")` -/
def fourDecimals (x : ℚ) : String :=
  let n := tenThousandths x
  (if x < 0 then "-" else "") ++ (n / 10000).repr ++ "." ++ (n / 1000 % 10).repr ++
    (n / 100 % 10).repr ++ (n / 10 % 10).repr ++ (n % 10).repr

def buildSystem2Message (diagnostic : DiagnosticSignal) : String :=
  "You are the System 2 (Uncertainty-Aware Reflection) module of an " ++
  "epistemic belief runtime (Epica, grounded in arXiv:2601.15703).\n\n" ++
  "A belief has triggered reflection because its System 1 confidence " ++
  "diverges significantly from the agent's reliability baseline.\n\n" ++
  "Belief key         : " ++ diagnostic.beliefKey ++ "\n" ++
  "System 1 confidence: " ++ fourDecimals diagnostic.fastConfidence ++ "\n" ++
  "Reliability baseline: " ++ fourDecimals diagnostic.reliabilityBaseline ++ "\n" ++
  "Divergence          : " ++ fourDecimals diagnostic.divergence ++ "\n\n" ++
  "Using inverse optimisation over the agent's epistemic state, determine " ++
  "the best-calibrated confidence for this belief. Reason through:\n" ++
  "1. Is the divergence indicative of underconfidence or overconfidence?\n" ++
  "2. What confidence level would maximise the likelihood of a " ++
  "satisfactory downstream outcome?\n" ++
  "3. How should the belief's provenance type and divergence magnitude " ++
  "influence recalibration?\n\n" ++
  "Call `report_confidence` with your recalibrated value and a brief " ++
  "chain-of-thought."

def buildProspectiveMessage (beliefKey beliefValueRepr : String) : String :=
  "You are the write-time prospective indexer of an epistemic belief runtime " ++
  "(Epica, grounded in Kumiho arXiv:2603.17244).\n\n" ++
  "A new belief has been inserted into the BeliefQuad:\n" ++
  "Key  : " ++ beliefKey ++ "\n" ++
  "Value: " ++ beliefValueRepr ++ "\n\n" ++
  "Your task: generate 3 to 5 concrete, specific future queries that an " ++
  "agent might ask WHERE THIS BELIEF WOULD BE THE DECISIVE PIECE OF CONTEXT.\n\n" ++
  "Requirements:\n" ++
  "- Each query must be a natural-language question (not a keyword list).\n" ++
  "- Queries must be retrievable from this belief — do not invent new facts.\n" ++
  "- Vary the query intent: some about actions, some about reasoning, some " ++
  "about dependencies.\n\n" ++
  "Call `generate_scenarios` with your list."

/-! ## responses -/

/-- what becomes of a request: it is not sent, or it is answered by a status, and by a body as text
and as json -/
inductive Reply (B : Type) where
  | notSent (message : String)
  | response (status : StatusCode) (text : String) (json : Except String B)

/-- what the arguments of the `report_confidence` tool are parsed into -/
structure ConfidenceArgs where
  revisedConfidence : ℚ
  reasoning : String

structure ScenarioItem where
  query : String

structure ScenariosArgs where
  scenarios : List ScenarioItem

/-- the parsers that are derived for the arguments of a tool: from a text, and from a value -/
class FromJson (A : Type) where
  fromStr : String → Except String A
  fromValue : Json → Except String A

def ConfidenceArgs.toResult (parsed : ConfidenceArgs) : System2Result :=
  ⟨clamp parsed.revisedConfidence 0 1, parsed.reasoning⟩

def ScenariosArgs.toRaw (parsed : ScenariosArgs) : List RawProspectiveScenario :=
  parsed.scenarios.map fun s => ⟨s.query, []⟩

/-- what becomes of the arguments of a tool, if there are any, once they are parsed -/
def readTool {E A R : Type} (deserialize : String → E) (missing : String) (finish : A → R) :
    Option (Except String A) → Except E R
  | none => .error (deserialize missing)
  | some (.error message) => .error (deserialize message)
  | some (.ok parsed) => .ok (finish parsed)

section
variable {B A : Type}

/-- `4xx` is not retried, apart from `429` -/
def readReflection (read : B → Except LlmClientError A) : Reply B → Except LlmClientError A
  | .notSent message => .error (.network message)
  | .response status text json =>
    if status.code = 429 then .error .rateLimited
    else if status.isClientError then .error (.clientError s!"HTTP {status.display}: {text}")
    else if !status.isSuccess then .error (.network s!"HTTP {status.display}: {text}")
    else
      match json with
      | .error message => .error (.deserialize message)
      | .ok body => read body

/-- `4xx` and `5xx` are one error -/
def readScenarios (read : B → Except ProspectiveClientError A) :
    Reply B → Except ProspectiveClientError A
  | .notSent message => .error (.network message)
  | .response status text json =>
    if status.code = 429 then .error .rateLimited
    else if !status.isSuccess then .error (.network s!"HTTP {status.display}: {text}")
    else
      match json with
      | .error message => .error (.deserialize message)
      | .ok body => read body

end

/-! ## the loop -/

def isRetryable : LlmClientError → Bool
  | .rateLimited => true
  | .network _ => true
  | _ => false

def maxRetries : Nat := 3

def baseDelayMs : Nat := 500

def jitterMs : Nat := 150

/-- before an attempt that is not the first -/
def backoffMs (attempt : Nat) : Nat :=
  baseDelayMs * 2 ^ (attempt - 1) + attempt * (jitterMs / maxRetries)

def reflectWith (request : Request) (tryReflect : Nat → Except LlmClientError System2Result) :
    List (Effect Request) × Except LlmClientError System2Result :=
  retry backoffMs isRetryable request tryReflect (List.range maxRetries)
    (.network "no attempts made")

/-- the request has not come through, or its status is neither `2xx` nor a `4xx` other than `429` -/
def Reply.Transient {B : Type} : Reply B → Prop
  | .notSent _ => True
  | .response status _ _ =>
    status.code = 429 ∨ status.isClientError = false ∧ status.isSuccess = false

instance {B : Type} (reply : Reply B) : Decidable reply.Transient :=
  match reply with
  | .notSent _ => inferInstanceAs (Decidable True)
  | .response status _ _ => inferInstanceAs
    (Decidable (status.code = 429 ∨ status.isClientError = false ∧ status.isSuccess = false))

theorem readReflection_ok {B A : Type} {read : B → Except LlmClientError A} {reply : Reply B}
    {a : A} (h : readReflection read reply = .ok a) : ∃ body, read body = .ok a := by
  cases reply with
  | notSent message => cases h
  | response status text json =>
    unfold readReflection at h
    simp only at h
    split at h
    · cases h
    · split at h
      · cases h
      · split at h
        · cases h
        · cases json with
          | error message => cases h
          | ok body => exact ⟨body, h⟩

/-- **which attempts are made again is read off the reply** -/
theorem isTransient_reading {B A : Type} {read : B → Except LlmClientError A}
    (hread : ∀ body, isTransient isRetryable (read body) = false) (reply : Reply B) :
    isTransient isRetryable (readReflection read reply) = decide reply.Transient := by
  cases reply with
  | notSent message => rfl
  | response status text json =>
    by_cases hlimit : status.code = 429
    · simp [readReflection, Reply.Transient, isTransient, isRetryable, hlimit]
    · cases hclient : status.isClientError with
      | true => simp [readReflection, Reply.Transient, isTransient, isRetryable, hlimit, hclient]
      | false =>
        cases hsuccess : status.isSuccess with
        | false =>
          simp [readReflection, Reply.Transient, isTransient, isRetryable, hlimit, hclient,
            hsuccess]
        | true =>
          have hno : ¬ (Reply.response status text json).Transient := by
            simp [Reply.Transient, hlimit, hclient, hsuccess]
          rw [decide_eq_false hno]
          cases json with
          | error message =>
            simp [readReflection, isTransient, isRetryable, hlimit, hclient, hsuccess]
          | ok body =>
            simp only [readReflection, hlimit, hclient, hsuccess, if_false, Bool.not_true,
              Bool.false_eq_true]
            exact hread body

theorem reflectWith_eq {tryReflect : Nat → Except LlmClientError System2Result} {n : Nat}
    (hn : LastAttempt isRetryable tryReflect maxRetries n) (request : Request) :
    reflectWith request tryReflect =
      ((List.range (n + 1)).flatMap (attemptEffects backoffMs request), tryReflect n) :=
  retry_eq hn (.network "no attempts made")

/-- **the attempts up to the last one are made, and what it has ended in is returned** -/
theorem reflectWith_spec (tryReflect : Nat → Except LlmClientError System2Result) :
    ∃ n, LastAttempt isRetryable tryReflect maxRetries n ∧
      ∀ request, reflectWith request tryReflect =
        ((List.range (n + 1)).flatMap (attemptEffects backoffMs request), tryReflect n) := by
  obtain ⟨n, hn, -⟩ := @retry_last _ _ Unit backoffMs isRetryable () tryReflect 2
    (.network "no attempts made")
  exact ⟨n, hn, fun request => reflectWith_eq hn request⟩

end Epica.System2
