import Epica.Runtime.Reflection

/-!
# The belief endpoints

`GET /v1/beliefs/:key` scans the quad.  `POST /v1/beliefs` looks its key up in the key index; it
updates the belief it finds there, or inserts one, into the quad and then into the index.  An
update that returns `System2Pending` takes a token of the reflection budget and leaves a task that
asks the LLM, and answers or refunds.  `setSection` is a request, with its task, one lock section
at a time.

* `setSections_insert`   an insertion that is not interrupted is `insertBelief`;
* `setSections_answer`   an answer that is not interrupted is `applySystem2Result`.
-/

set_option linter.unusedSectionVars false

namespace Epica
open Lib

/-! ## the reflection budget -/

/-- `n as f32`: 24 significant bits, rounded to the nearest, and from the middle to the even one -/
def asF32 (n : Nat) : Nat :=
  let unit := 2 ^ (n.log2 - 23)
  let quotient := n / unit
  let rest := n % unit
  if unit < 2 * rest ∨ 2 * rest = unit ∧ quotient % 2 = 1 then (quotient + 1) * unit
  else quotient * unit

/-- the bucket of a session whose refill rate is `0`: `available`, an `f32`, stays a whole number -/
structure TokenBucket where
  capacity : Nat
  available : Nat

namespace TokenBucket

def new (capacity : Nat) : TokenBucket := ⟨capacity, asF32 capacity⟩

def tryConsume (bucket : TokenBucket) (tokens : Nat) : Bool × TokenBucket :=
  if asF32 tokens ≤ bucket.available then
    (true, { bucket with available := asF32 (bucket.available - asF32 tokens) })
  else (false, bucket)

/-- a refund, capped at the capacity -/
def release (bucket : TokenBucket) (tokens : Nat) : TokenBucket :=
  { bucket with
    available := min (asF32 (bucket.available + asF32 tokens)) (asF32 bucket.capacity) }

end TokenBucket

/-! ## requests -/

/-- repeated `llm:` at the start are taken off -/
def trimLlm : List Char → List Char
  | 'l' :: 'l' :: 'm' :: ':' :: rest => trimLlm rest
  | chars => chars

def parseProvenance (callId : Uuid) (kind : Option String) : Provenance :=
  let kind := kind.getD "user"
  if kind = "tool" then .toolResult "external" callId
  else if "llm".toList.isPrefixOf kind.toList then
    .llmInference (.ofList (trimLlm kind.toList)) callId 0
  else .userStatement 0

/-- a request to set a belief, and what its handling draws -/
structure SetCall where
  key : String
  /-- the text of the value, `req.value.to_string()` -/
  value : String
  confidence : ℚ
  provenanceKind : Option String
  callId : Uuid
  taskId : Uuid
  nowMs : Nat
  checkpointStamp : Stamp
  revisionStamp : Stamp
  contractionOrder : HashOrder BeliefId
  propagationNow : BeliefId → Nat
  propagationOrder : BeliefId → HashOrder BeliefId
  auditMs : Nat
  historyMs : Nat
  /-- the confidence the LLM answers, if it answers -/
  reflection : Option ℚ

namespace SetCall

/-- the belief it inserts -/
def node (call : SetCall) : BeliefNode :=
  .new call.nowMs call.key (.asserted call.value) (parseProvenance call.callId call.provenanceKind)
    call.confidence

/-- the update it makes of a belief that exists -/
def update (call : SetCall) (id : BeliefId) : UpdateCall where
  id := id
  value := .asserted call.value
  provenance := parseProvenance call.callId call.provenanceKind
  confidence := call.confidence
  checkpointStamp := call.checkpointStamp
  revisionStamp := call.revisionStamp
  contractionOrder := call.contractionOrder
  propagationNow := call.propagationNow
  propagationOrder := call.propagationOrder
  auditMs := call.auditMs
  historyMs := call.historyMs

end SetCall

/-- a user's request whose clock reads `0` and whose hash sets are enumerated in order of insertion;
its checkpoint gets `uuid` -/
def SetCall.at (uuid : Uuid) (key value : String) (confidence : ℚ) (reflection : Option ℚ) :
    SetCall where
  key := key
  value := value
  confidence := confidence
  provenanceKind := none
  callId := uuid + 2
  taskId := uuid + 3
  nowMs := 0
  checkpointStamp := ⟨uuid, 0⟩
  revisionStamp := ⟨uuid + 1, 0⟩
  contractionOrder := .id
  propagationNow _ := 0
  propagationOrder _ := .id
  auditMs := 0
  historyMs := 0
  reflection := reflection

structure BeliefSetResponse where
  beliefId : BeliefId
  taskId : Option Uuid
  system2Triggered : Bool

structure BeliefGetResponse where
  key : String
  value : Json
  fastConfidence : ℚ
  slowConfidence : Option ℚ
  provenance : Provenance

/-! ## the session behind the endpoints -/

/-- the runtime, with its budget and its counters -/
structure Session (M : Type → Type) (G : Type → Type → Type) where
  runtime : BeliefRuntime M G
  reflectionBudget : TokenBucket
  system2Activations : Nat
  system2Throttled : Nat

/-- the section a request is about to enter, and what it carries there -/
inductive SetPc where
  | lookup
  | update (id : BeliefId) (pc : UpdatePc)
  | insertQuad
  | insertIndex (id : BeliefId)
  /-- `updateBelief` has returned `System2Pending` -/
  | consume (id : BeliefId) (signal : DiagnosticSignal)
  /-- from here on the response has been sent, and the task runs -/
  | reflect (id : BeliefId) (signal : DiagnosticSignal)
  | writeSlow (id : BeliefId) (revisedConfidence : ℚ)
  | countActivation (id : BeliefId) (revisedConfidence : ℚ)
  | replaceHistory (id : BeliefId) (revisedConfidence : ℚ)
  | release (id : BeliefId)
  /-- the task has answered -/
  | activated (id : BeliefId)
  /-- the task has failed, and its token is back -/
  | refunded (id : BeliefId)
  /-- there was no LLM to ask -/
  | unasked (id : BeliefId)
  /-- there was no token left -/
  | refused (id : BeliefId)
  | done (response : Except RuntimeError BeliefSetResponse)

namespace Session
section
variable {M : Type → Type} {G : Type → Type → Type} [SlotMap M] [StableDiGraph G]

def new (runtime : BeliefRuntime M G) (system2Budget : Nat) : Session M G :=
  ⟨runtime, .new system2Budget, 0, 0⟩

def tryConsumeSystem2Budget (s : Session M G) : Bool × Session M G :=
  let consumed := s.reflectionBudget.tryConsume 1
  (consumed.1, { s with reflectionBudget := consumed.2 })

def releaseSystem2Budget (s : Session M G) : Session M G :=
  { s with reflectionBudget := s.reflectionBudget.release 1 }

/-- the value of a response -/
def valueJson : BeliefValue → Json
  | .deterministic v => v
  | .inferred v => v
  | .asserted text => .string text
  | .reference id => .object [("reference", .string s!"BeliefId({id.idx}v{id.version})")]

def handleBeliefGet (s : Session M G) (key : String) : Option BeliefGetResponse :=
  ((SlotMap.iter s.runtime.quad.nodes).find? fun e => e.2.key = key).map fun e =>
    { key := e.2.key
      value := valueJson e.2.value
      fastConfidence := e.2.fastConfidence
      slowConfidence := e.2.slowConfidence
      provenance := e.2.provenance }

variable [Platform]

/-- where the handler goes when its update has returned -/
def afterUpdate (id : BeliefId) : UpdatePc → SetPc
  | .done (.error e) => .done (.error e)
  | .done (.ok .system1Only) => .done (.ok ⟨id, none, false⟩)
  | .done (.ok (.system2Pending signal)) => .consume id signal
  | pc => .update id pc

def setSection (call : SetCall) (s : Session M G) : SetPc → Session M G × SetPc
  | .lookup =>
    match s.runtime.getByKey call.key with
    | some id => (s, .update id .start)
    | none => (s, .insertQuad)
  | .update id pc =>
    let r := lockSection (call.update id) s.runtime pc
    ({ s with runtime := r.1 }, afterUpdate id r.2)
  | .insertQuad =>
    let inserted := s.runtime.quad.insert call.node
    ({ s with runtime := { s.runtime with quad := inserted.2 } }, .insertIndex inserted.1)
  | .insertIndex id =>
    let keyIndex := s.runtime.keyIndex.insert call.key id
    ({ s with runtime := { s.runtime with keyIndex := keyIndex } }, .done (.ok ⟨id, none, false⟩))
  | .consume id signal =>
    match s.tryConsumeSystem2Budget with
    | (true, s) => (s, .reflect id signal)
    | (false, s) => (s, .refused id)
  | .reflect id _ =>
    if s.runtime.llmClient then
      match call.reflection with
      | some revisedConfidence => (s, .writeSlow id revisedConfidence)
      | none => (s, .release id)
    else (s, .unasked id)
  | .writeSlow id revisedConfidence =>
    ({ s with runtime := s.runtime.writeSlow id revisedConfidence },
      .countActivation id revisedConfidence)
  | .countActivation id revisedConfidence =>
    ({ s with system2Activations := s.system2Activations + 1 },
      .replaceHistory id revisedConfidence)
  | .replaceHistory id revisedConfidence =>
    ({ s with runtime := s.runtime.replaceHistory id revisedConfidence }, .activated id)
  | .release id => (s.releaseSystem2Budget, .refunded id)
  | pc => (s, pc)

/-- what a section does to the runtime -/
theorem setSection_runtime (call : SetCall) (s : Session M G) (pc : SetPc) :
    (setSection call s pc).1.runtime =
      match pc with
      | .update id pc => (lockSection (call.update id) s.runtime pc).1
      | .insertQuad => { s.runtime with quad := (s.runtime.quad.insert call.node).2 }
      | .insertIndex id =>
        { s.runtime with keyIndex := s.runtime.keyIndex.insert call.key id }
      | .writeSlow id revisedConfidence => s.runtime.writeSlow id revisedConfidence
      | .replaceHistory id revisedConfidence => s.runtime.replaceHistory id revisedConfidence
      | _ => s.runtime := by
  cases pc with
  | lookup =>
    simp only [setSection]
    split <;> rfl
  | consume id signal =>
    simp only [setSection, tryConsumeSystem2Budget]
    rcases s.reflectionBudget.tryConsume 1 with ⟨_ | _, bucket⟩ <;> rfl
  | reflect id signal =>
    simp only [setSection]
    split
    · split <;> rfl
    · rfl
  | _ => rfl

/-- **an insertion whose two sections are not interrupted is `insertBelief`** -/
theorem setSections_insert (call : SetCall) (s : Session M G) :
    let r := setSection call s .insertQuad
    let inserted := s.runtime.insertBelief call.node none
    setSection call r.1 r.2 =
      ({ s with runtime := inserted.2 }, .done (.ok ⟨inserted.1, none, false⟩)) := rfl

/-- **an answer whose sections are not interrupted is `applySystem2Result`**, and counts one
activation -/
theorem setSections_answer (call : SetCall) (s : Session M G) (id : BeliefId)
    (revisedConfidence : ℚ) :
    let r₁ := setSection call s (.writeSlow id revisedConfidence)
    let r₂ := setSection call r₁.1 r₁.2
    setSection call r₂.1 r₂.2 =
      ({ s with
        runtime := s.runtime.applySystem2Result id revisedConfidence
        system2Activations := s.system2Activations + 1 }, .activated id) := rfl

end
end Session

/-! ## requests in flight -/

/-- a session, and where each of its requests is -/
structure Serving (T : Type) (M : Type → Type) (G : Type → Type → Type) where
  session : Session M G
  pc : T → SetPc

namespace Serving
section
variable {M : Type → Type} {G : Type → Type → Type} [SlotMap M] [StableDiGraph G] [Platform]
  {T : Type} [DecidableEq T]

def start (session : Session M G) : Serving T M G := ⟨session, fun _ => .lookup⟩

/-- the request `t` runs its next lock section -/
def step (calls : T → SetCall) (s : Serving T M G) (t : T) : Serving T M G :=
  let r := s.session.setSection (calls t) (s.pc t)
  ⟨r.1, Function.update s.pc t r.2⟩

end
end Serving
end Epica
