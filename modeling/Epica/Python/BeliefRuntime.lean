import Epica.Core.History
import Epica.Core.Tece
import Epica.Python.BeliefQuad
import Epica.Runtime.Plain
import Epica.Runtime.Retrieval
import Epica.Runtime.TokenBucket

/-!
# The runtime as Python sees it

A `PyBeliefRuntime` is a runtime, its reflection budget and its counters, addressed by key.  Python
can attach an `LlmClient`, but no contract, and it has no edges to add.  `PyDisplay` has the texts
that are not computed here.

* `session_exact`     what each update returns and what the session reports, in every run;
* `client_inert`      a client changes nothing but the status of updates;
* `dictionary_runs`   until a rollback goes through, the runtime is a dictionary.
-/

set_option linter.unusedSectionVars false

namespace Epica
open Lib

class PyDisplay where
  /-- a `serde_json::Value` -/
  json : Json → String
  /-- the `Debug` text -/
  rollbackError : RollbackError → String

/-! ## errors -/

/-- the exceptions of the runtime, beside those of the quad -/
inductive PyRuntimeErr where
  | py (e : PyErr)
  | epicaError (message : String)
  | contractViolationError (message : String)
  | sovereigntyError (message : String)
deriving DecidableEq

def RuntimeError.toText [PyDisplay] : RuntimeError → String
  | .core e => s!"core error: belief revision failed: {e.toText}"
  | .preconditionFailed domain beliefKey =>
    s!"precondition failed in contract '{domain}' for belief '{beliefKey}'"
  | .contractHalt domain invariant atVersion =>
    s!"contract halt in '{domain}': invariant '{invariant}' violated at version {atVersion}"
  | .sovereigntyViolation message => s!"sovereignty violation: {message}"
  | .governanceLimitExceeded resource limit used =>
    s!"governance limit exceeded: {resource} used {used}, limit {limit}"
  | .recoveryFailed message cause =>
    s!"recovery failed: {message}" ++ (cause.map PyDisplay.rollbackError).getD ""

def mapRuntimeErr [PyDisplay] (e : RuntimeError) : PyRuntimeErr :=
  match e with
  | .preconditionFailed _ _ => .contractViolationError e.toText
  | .contractHalt _ _ _ => .contractViolationError e.toText
  | .sovereigntyViolation _ => .sovereigntyError e.toText
  | .governanceLimitExceeded _ _ _ => .contractViolationError e.toText
  | _ => .epicaError e.toText

/-! ## results -/

structure PyBeliefNode where
  key : String
  value : String
  valueKind : String
  provenance : String
  fastConfidence : ℚ
  slowConfidence : Option ℚ
  createdAtMs : Nat
  effectiveConfidence : ℚ

/-- the `Debug` text of an id -/
def BeliefId.debug (id : BeliefId) : String := s!"BeliefId({id.idx}v{id.version})"

def provenanceText : Provenance → String
  | .userStatement _ => "user_statement"
  | .llmInference model _ _ => s!"llm_inference:{model}"
  | .toolResult tool _ => s!"tool_result:{tool}"
  | .runtimeInference _ => "runtime_inference"

/-- the text of a value, and its kind -/
def valueText [PyDisplay] : BeliefValue → String × String
  | .asserted text => (text, "asserted")
  | .inferred v => (PyDisplay.json v, "inferred")
  | .deterministic v => (PyDisplay.json v, "deterministic")
  | .reference id => (s!"ref:{BeliefId.debug id}", "reference")

def nodeToPy [PyDisplay] (node : BeliefNode) : PyBeliefNode where
  key := node.key
  value := (valueText node.value).1
  valueKind := (valueText node.value).2
  provenance := provenanceText node.provenance
  fastConfidence := node.fastConfidence
  slowConfidence := node.slowConfidence
  createdAtMs := node.createdAtMs
  effectiveConfidence := node.slowConfidence.getD node.fastConfidence

/-- what an update returns; the tasks are left to the server -/
structure PyUpdateResult where
  status : String
  taskId : Option String
deriving DecidableEq

def updateStatus : RuntimeUpdateResult → String
  | .system1Only => "system1_only"
  | .system2Pending _ => "system2_pending"

structure PySessionReport where
  trajectoryEce : Option ℚ
  totalRevisions : Nat
  contradictionsDetected : Nat
  system2Activations : Nat
  system2Throttled : Nat
  calibrationTargetMet : Bool
  softViolations : Nat
  hardViolations : Nat
  criticalViolations : Nat
  recoveryActionsTaken : Nat
  governanceTokensUsed : Nat

/-! ## the methods -/

/-- the arguments of an update, and what the call draws -/
structure PyUpdate where
  key : String
  newValue : String
  confidence : ℚ
  args : ProvenanceArgs
  callId : Uuid
  checkpointStamp : Stamp
  revisionStamp : Stamp
  contractionOrder : HashOrder BeliefId
  propagationNow : BeliefId → Nat
  propagationOrder : BeliefId → HashOrder BeliefId
  auditMs : Nat
  historyMs : Nat

/-- a user's update whose clock reads `0` and whose hash sets are enumerated in order of insertion;
its checkpoint gets `uuid` -/
def PyUpdate.at (uuid : Uuid) (key newValue : String) (confidence : ℚ) : PyUpdate where
  key := key
  newValue := newValue
  confidence := confidence
  args := ⟨none, none, none⟩
  callId := uuid + 2
  checkpointStamp := ⟨uuid, 0⟩
  revisionStamp := ⟨uuid + 1, 0⟩
  contractionOrder := .id
  propagationNow _ := 0
  propagationOrder _ := .id
  auditMs := 0
  historyMs := 0

structure PyBeliefRuntime (M : Type → Type) (G : Type → Type → Type) where
  inner : BeliefRuntime M G
  reflectionBudget : System2.TokenBucket
  system2Activations : Nat
  system2Throttled : Nat

namespace PyBeliefRuntime

/-- `callId` is the uuid that is drawn for a model's or a tool's call -/
def parseProvenance (args : ProvenanceArgs) (callId : Uuid) : Provenance :=
  match args.provenance with
  | some "llm" => .llmInference (args.llmModel.getD "unknown") callId 0
  | some "tool" => .toolResult (args.toolName.getD "unknown") callId
  | _ => .userStatement 0

end PyBeliefRuntime

/-- the update of the belief with that id -/
def PyUpdate.update (call : PyUpdate) (id : BeliefId) : UpdateCall where
  id := id
  value := .asserted call.newValue
  provenance := PyBeliefRuntime.parseProvenance call.args call.callId
  confidence := call.confidence
  checkpointStamp := call.checkpointStamp
  revisionStamp := call.revisionStamp
  contractionOrder := call.contractionOrder
  propagationNow := call.propagationNow
  propagationOrder := call.propagationOrder
  auditMs := call.auditMs
  historyMs := call.historyMs

namespace PyBeliefRuntime
section
variable {M : Type → Type} {G : Type → Type → Type} [SlotMap M] [StableDiGraph G]

/-- the first argument becomes the reliability baseline of the runtime -/
def new (reflectionThreshold : ℚ) (budget : Nat) (refillRate now : ℚ) : PyBeliefRuntime M G where
  inner := .new .new reflectionThreshold
  reflectionBudget := .new budget refillRate now
  system2Activations := 0
  system2Throttled := 0

def insertBelief (s : PyBeliefRuntime M G) (nowMs : Nat) (callId : Uuid) (key value : String)
    (confidence : ℚ) (args : ProvenanceArgs) : String × PyBeliefRuntime M G :=
  let node := BeliefNode.new nowMs key (.asserted value) (parseProvenance args callId) confidence
  (key, { s with inner := (s.inner.insertBelief node none).2 })

def getByKey (s : PyBeliefRuntime M G) (key : String) : Option String :=
  (s.inner.getByKey key).map BeliefId.debug

def getBelief [PyDisplay] (s : PyBeliefRuntime M G) (key : String) : Option PyBeliefNode :=
  (s.inner.getByKey key).bind fun id => (s.inner.quad.get id).map nodeToPy

def attachLlmClient (s : PyBeliefRuntime M G) : PyBeliefRuntime M G :=
  { s with inner := { s.inner with llmClient := true } }

def detachLlmClient (s : PyBeliefRuntime M G) : PyBeliefRuntime M G :=
  { s with inner := { s.inner with llmClient := false } }

def checkpoint [PyText] (s : PyBeliefRuntime M G) (stamp : Stamp) :
    String × PyBeliefRuntime M G :=
  let (id, inner) := s.inner.checkpoint stamp
  (CheckpointId.toText id, { s with inner := inner })

/-- the key index stays as it is -/
def rollbackTo [PyText] (s : PyBeliefRuntime M G) (checkpointId : String) :
    Except PyRuntimeErr PyBeliefDiff × PyBeliefRuntime M G :=
  match parseCheckpointId checkpointId with
  | .error e => (.error (.py e), s)
  | .ok id =>
    match s.inner.rollbackTo id with
    | (.error e, inner) => (.error (.py (mapRollbackErr e)), { s with inner := inner })
    | (.ok diff, inner) => (.ok (diffToPy diff), { s with inner := inner })

def sessionReport (s : PyBeliefRuntime M G) : PySessionReport :=
  let report := s.inner.sessionReport
  let tece := Tece.compute s.inner.confidenceHistory.asTeceInput
  { trajectoryEce := tece
    totalRevisions := report.totalRevisions
    contradictionsDetected := report.contradictionsDetected
    system2Activations := s.system2Activations
    system2Throttled := s.system2Throttled
    calibrationTargetMet := (tece.map fun t => decide (t < teceTarget)).getD true
    softViolations := report.softViolations
    hardViolations := report.hardViolations
    criticalViolations := report.criticalViolations
    recoveryActionsTaken := report.recoveryActionsTaken
    governanceTokensUsed := report.governanceTokensUsed }

def finalizeSession (s : PyBeliefRuntime M G) : PySessionReport × PyBeliefRuntime M G :=
  let s := { s with inner := s.inner.finalizeSession }
  (s.sessionReport, s)

/-- the end of a `with` block -/
def exit (s : PyBeliefRuntime M G) : PyBeliefRuntime M G :=
  { s with inner := s.inner.finalizeSession }

def repr (s : PyBeliefRuntime M G) : String :=
  let quadLen := s.inner.quad.len
  let activations := s.system2Activations
  s!"BeliefRuntime(beliefs={quadLen}, system2_activations={activations})"

variable [Platform]

/-- there is no embedder to ask about the query -/
def retrieveForQuery (s : PyBeliefRuntime M G) (nowMs budget : Nat) : List (String × ℚ) :=
  (s.inner.retrieveForQuery [] nowMs budget).map fun b => (b.key, b.fastConfidence)

def updateBelief [PyText] [PyDisplay] (s : PyBeliefRuntime M G) (call : PyUpdate) :
    Except PyRuntimeErr PyUpdateResult × PyBeliefRuntime M G :=
  match s.inner.getByKey call.key with
  | none => (.error (.py (.keyError s!"belief key not found: {PyText.debug call.key}")), s)
  | some id =>
    match s.inner.updateBelief (call.update id) with
    | (.error e, inner) => (.error (mapRuntimeErr e), { s with inner := inner })
    | (.ok result, inner) => (.ok ⟨updateStatus result, none⟩, { s with inner := inner })

end
end PyBeliefRuntime

/-! ## calls -/

inductive PyRuntimeCall where
  | insertBelief (nowMs : Nat) (callId : Uuid) (key value : String) (confidence : ℚ)
      (args : ProvenanceArgs)
  | getByKey (key : String)
  | getBelief (key : String)
  | updateBelief (call : PyUpdate)
  | retrieveForQuery (nowMs budget : Nat)
  | attachLlmClient
  | detachLlmClient
  | checkpoint (stamp : Stamp)
  | rollbackTo (checkpointId : String)
  | finalizeSession
  | sessionReport
  | exit
  | repr

inductive PyRuntimeAnswer where
  | none
  | text (s : String)
  | found (id : Option String)
  | belief (node : Option PyBeliefNode)
  | updated (result : Except PyRuntimeErr PyUpdateResult)
  | beliefs (found : List (String × ℚ))
  | rolledBack (result : Except PyRuntimeErr PyBeliefDiff)
  | report (r : PySessionReport)

namespace PyBeliefRuntime
section
variable {M : Type → Type} {G : Type → Type → Type} [SlotMap M] [StableDiGraph G] [Platform]
  [PyText] [PyDisplay]

def call (s : PyBeliefRuntime M G) : PyRuntimeCall → PyRuntimeAnswer × PyBeliefRuntime M G
  | .insertBelief nowMs callId key value confidence args =>
    let r := s.insertBelief nowMs callId key value confidence args
    (.text r.1, r.2)
  | .getByKey key => (.found (s.getByKey key), s)
  | .getBelief key => (.belief (s.getBelief key), s)
  | .updateBelief call =>
    let r := s.updateBelief call
    (.updated r.1, r.2)
  | .retrieveForQuery nowMs budget => (.beliefs (s.retrieveForQuery nowMs budget), s)
  | .attachLlmClient => (.none, s.attachLlmClient)
  | .detachLlmClient => (.none, s.detachLlmClient)
  | .checkpoint stamp =>
    let r := s.checkpoint stamp
    (.text r.1, r.2)
  | .rollbackTo checkpointId =>
    let r := s.rollbackTo checkpointId
    (.rolledBack r.1, r.2)
  | .finalizeSession =>
    let r := s.finalizeSession
    (.report r.1, r.2)
  | .sessionReport => (.report s.sessionReport, s)
  | .exit => (.none, s.exit)
  | .repr => (.text s.repr, s)

def step (s : PyBeliefRuntime M G) (c : PyRuntimeCall) : PyBeliefRuntime M G := (s.call c).2

/-! ## what every state of a run has in common -/

/-- no embeddings, and nodes as they are inserted but for their values -/
structure Untouched (q : BeliefQuad M G) : Prop where
  provider : q.embeddingProvider = none
  slow : ∀ id n, q.get id = some n → n.slowConfidence = none
  threshold : ∀ id n, q.get id = some n → n.reflectionThreshold = defaultReflectionThreshold

structure Sane (reflectionThreshold : ℚ) (s : PyBeliefRuntime M G) : Prop where
  bare : s.inner.Bare
  quad : s.inner.quad.NoInference
  current : Untouched s.inner.quad
  captured : ∀ cp ∈ s.inner.quad.checkpoints, Untouched cp.quad
  baseline : s.inner.reliabilityBaseline = reflectionThreshold
  idle : s.system2Activations = 0 ∧ s.system2Throttled = 0

variable {reflectionThreshold : ℚ} {s : PyBeliefRuntime M G}

theorem sane_new (reflectionThreshold : ℚ) (budget : Nat) (refillRate now : ℚ) :
    (new reflectionThreshold budget refillRate now : PyBeliefRuntime M G).Sane
      reflectionThreshold where
  bare := rfl
  quad := BeliefQuad.noInference_new
  current := by
    have hnone : ∀ id, (BeliefQuad.new : BeliefQuad M G).get id = none := fun id =>
      BeliefQuad.not_live_iff.mp (BeliefQuad.not_live_new id)
    refine ⟨rfl, fun id n hn => ?_, fun id n hn => ?_⟩
    · have hn' : (BeliefQuad.new : BeliefQuad M G).get id = some n := hn
      rw [hnone] at hn'
      cases hn'
    · have hn' : (BeliefQuad.new : BeliefQuad M G).get id = some n := hn
      rw [hnone] at hn'
      cases hn'
  captured cp hcp := absurd hcp List.not_mem_nil
  baseline := rfl
  idle := ⟨rfl, rfl⟩

theorem Sane.plain (h : s.Sane reflectionThreshold) : s.inner.Plain :=
  ⟨h.bare, h.quad.synced.toGraphsSynced, h.quad.current, h.current.provider⟩

/-- the runtime with another quad, which is inserted into, revised or checkpointed -/
theorem Sane.of_quad (h : s.Sane reflectionThreshold) {s' : PyBeliefRuntime M G}
    (hbare : s'.inner.Bare) (hbaseline : s'.inner.reliabilityBaseline = s.inner.reliabilityBaseline)
    (hidle : s'.system2Activations = s.system2Activations ∧
      s'.system2Throttled = s.system2Throttled)
    (hquad : s'.inner.quad.NoInference) (hcurrent : Untouched s'.inner.quad)
    (hcaptured : ∀ cp ∈ s'.inner.quad.checkpoints,
      cp ∈ s.inner.quad.checkpoints ∨ cp.quad = s.inner.quad.stripped) :
    s'.Sane reflectionThreshold where
  bare := hbare
  quad := hquad
  current := hcurrent
  captured cp hcp := by
    rcases hcaptured cp hcp with hold | hnew
    · exact h.captured cp hold
    · rw [hnew]
      exact ⟨h.current.provider, h.current.slow, h.current.threshold⟩
  baseline := hbaseline.trans h.baseline
  idle := ⟨hidle.1.trans h.idle.1, hidle.2.trans h.idle.2⟩

/-! ## what an update does -/

variable (s) in
theorem updateBelief_cases (h : s.Sane reflectionThreshold) (call : PyUpdate) :
    (s.inner.getByKey call.key = none ∧ s.updateBelief call =
      (.error (.py (.keyError s!"belief key not found: {PyText.debug call.key}")), s)) ∨
    (∃ id, s.inner.getByKey call.key = some id ∧ ¬ s.inner.quad.Live id ∧ s.updateBelief call =
      (.error (.epicaError "core error: belief revision failed: belief not found in quad"),
        { s with inner := { s.inner with
          quad := s.inner.checkpointedQuad (call.update id)
          governanceTracker := s.inner.tokenTracked } })) ∨
    (∃ id n, s.inner.getByKey call.key = some id ∧ s.inner.quad.get id = some n ∧
      s.updateBelief call =
        (.ok ⟨if shouldActivateSystem2 (clamp call.confidence 0 1) reflectionThreshold
            defaultReflectionThreshold && s.inner.llmClient then "system2_pending"
          else "system1_only", none⟩,
        { s with inner := { s.inner with
          quad := s.inner.plainQuad (call.update id)
          governanceTracker := s.inner.tokenTracked
          confidenceHistory := s.inner.confidenceHistory.push call.historyMs id
            (clamp call.confidence 0 1) } })) := by
  unfold updateBelief
  cases hkey : s.inner.getByKey call.key with
  | none => exact Or.inl ⟨rfl, rfl⟩
  | some id =>
    right
    by_cases hl : s.inner.quad.Live id
    · right
      obtain ⟨n, hn⟩ := BeliefQuad.live_iff.mp hl
      have hn' : s.inner.quad.get (call.update id).id = some n := hn
      obtain ⟨⟨signal, hresult⟩, hinner⟩ := h.plain.updateBelief_eq hn'
      have hstatus : ∃ result, (s.inner.updateBelief (call.update id)).1 = .ok result ∧
          updateStatus result = if shouldActivateSystem2 (clamp call.confidence 0 1)
            reflectionThreshold defaultReflectionThreshold && s.inner.llmClient
          then "system2_pending" else "system1_only" := by
        refine ⟨_, hresult, ?_⟩
        rw [h.current.threshold id n hn, h.baseline, apply_ite updateStatus]
        rfl
      obtain ⟨result, hresult, htext⟩ := hstatus
      refine ⟨id, n, rfl, hn, ?_⟩
      rcases hupdate : s.inner.updateBelief (call.update id) with ⟨out, inner⟩
      rw [hupdate] at hresult hinner
      simp only at hresult hinner
      subst hresult hinner
      simp only [hupdate, htext]
      rfl
    · left
      have hl' : ¬ s.inner.quad.Live (call.update id).id := hl
      have hdead := h.plain.updateBelief_dead hl'
      refine ⟨id, rfl, hl, ?_⟩
      simp only [hdead]
      rfl

/-! ## every call keeps it -/

theorem Untouched.insert {q : BeliefQuad M G} (h : Untouched q) (nowMs : Nat) (key : String)
    (v : BeliefValue) (p : Provenance) (c : ℚ) :
    Untouched (q.insert (.new nowMs key v p c)).2 := by
  refine ⟨h.provider, fun id n hn => ?_, fun id n hn => ?_⟩
  · rw [BeliefQuad.get_insert] at hn
    split at hn
    · rw [← Option.some.inj hn]
      rfl
    · exact h.slow id n hn
  · rw [BeliefQuad.get_insert] at hn
    split at hn
    · rw [← Option.some.inj hn]
      rfl
    · exact h.threshold id n hn

theorem Untouched.checkpointed {q : BeliefQuad M G} (h : Untouched q) (uuid : Uuid)
    (nowMs : Nat) : Untouched (q.checkpoint uuid nowMs).2 := ⟨h.provider, h.slow, h.threshold⟩

/-- the beliefs after an update -/
theorem Sane.get_plainQuad (h : s.Sane reflectionThreshold) {call : UpdateCall}
    (hl : s.inner.quad.Live call.id) (j : BeliefId) : (s.inner.plainQuad call).get j =
      if j = call.id then (s.inner.quad.get j).map (BeliefQuad.revisedNode
        ((s.inner.checkpointedQuad call).checkContradiction call.id call.value) call.value
        call.provenance call.confidence)
      else s.inner.quad.get j :=
  (h.plain.flat_checkpointedQuad call).get_revise hl call.revisionStamp call.contractionOrder
    call.value call.provenance call.confidence j

theorem Sane.untouched_plainQuad (h : s.Sane reflectionThreshold) {call : UpdateCall}
    (hl : s.inner.quad.Live call.id) : Untouched (s.inner.plainQuad call) := by
  have hcases : ∀ j n, (s.inner.plainQuad call).get j = some n →
      ∃ n', s.inner.quad.get j = some n' ∧ n.reflectionThreshold = n'.reflectionThreshold ∧
        (n'.slowConfidence = none → n.slowConfidence = none) := by
    intro j n hn
    rw [h.get_plainQuad hl] at hn
    split at hn
    · obtain ⟨n', hn', rfl⟩ := Option.map_eq_some_iff.mp hn
      refine ⟨n', hn', rfl, fun hslow => ?_⟩
      unfold BeliefQuad.revisedNode
      simp only [hslow, ite_self]
    · exact ⟨n, hn, rfl, id⟩
  have hprovider : (s.inner.plainQuad call).embeddingProvider = none :=
    ((h.plain.flat_checkpointedQuad call).revise hl call.revisionStamp call.contractionOrder
      call.value call.provenance call.confidence).2.1.provider
  refine ⟨hprovider, fun j n hn => ?_, fun j n hn => ?_⟩
  · obtain ⟨n', hn', -, hslow⟩ := hcases j n hn
    exact hslow (h.current.slow j n' hn')
  · obtain ⟨n', hn', hthreshold, -⟩ := hcases j n hn
    exact hthreshold.trans (h.current.threshold j n' hn')

theorem checkpointedQuad_captured (rt : BeliefRuntime M G) (call : UpdateCall) :
    ∀ cp ∈ (rt.checkpointedQuad call).checkpoints,
      cp ∈ rt.quad.checkpoints ∨ cp.quad = rt.quad.stripped := by
  intro cp hcp
  rcases List.mem_append.mp hcp with hcp | hcp
  · exact Or.inl hcp
  · rw [List.mem_singleton.mp hcp]
    exact Or.inr rfl

theorem Sane.checkpointed (h : s.Sane reflectionThreshold) (call : UpdateCall) :
    (s.inner.checkpointedQuad call).NoInference := by
  have hop : (Op.checkpoint call.checkpointStamp.uuid call.checkpointStamp.nowMs).Plain := trivial
  exact BeliefQuad.step_noInference h.quad hop

theorem Sane.updateBelief (h : s.Sane reflectionThreshold) (call : PyUpdate) :
    (s.updateBelief call).2.Sane reflectionThreshold := by
  rcases s.updateBelief_cases h call with ⟨-, e⟩ | ⟨id, -, -, e⟩ | ⟨id, n, -, hn, e⟩
  · rw [e]
    exact h
  · rw [e]
    exact h.of_quad h.bare rfl ⟨rfl, rfl⟩ (h.checkpointed _) (h.current.checkpointed _ _)
      (checkpointedQuad_captured _ _)
  · have hl : s.inner.quad.Live id := BeliefQuad.live_iff.mpr ⟨n, hn⟩
    have hop : (Op.revise call.revisionStamp call.contractionOrder id (.asserted call.newValue)
        (parseProvenance call.args call.callId) call.confidence).Plain := trivial
    have hquad : (s.inner.plainQuad (call.update id)).NoInference :=
      BeliefQuad.step_noInference (h.checkpointed (call.update id)) hop
    have hcheckpoints : (s.inner.plainQuad (call.update id)).checkpoints =
        (s.inner.checkpointedQuad (call.update id)).checkpoints :=
      BeliefQuad.revise_checkpoints _ _ _ _ _ _
    rw [e]
    refine h.of_quad h.bare rfl ⟨rfl, rfl⟩ hquad (h.untouched_plainQuad hl) fun cp hcp => ?_
    have hcp' : cp ∈ (s.inner.plainQuad (call.update id)).checkpoints := hcp
    rw [hcheckpoints] at hcp'
    exact checkpointedQuad_captured _ _ cp hcp'

theorem rollbackTo_inner (s : PyBeliefRuntime M G) (checkpointId : String) :
    (s.rollbackTo checkpointId).2 = s ∨
      ∃ id, (s.rollbackTo checkpointId).2 = { s with inner := (s.inner.rollbackTo id).2 } := by
  unfold rollbackTo
  cases parseCheckpointId checkpointId with
  | error e => exact Or.inl rfl
  | ok id =>
    refine Or.inr ⟨id, ?_⟩
    rcases hr : s.inner.rollbackTo id with ⟨e | diff, inner⟩ <;> simp only [hr]

/-- a rollback writes the quad -/
theorem rollbackTo_rest (s : PyBeliefRuntime M G) (checkpointId : String) :
    (s.rollbackTo checkpointId).2 = { s with inner := { s.inner with
      quad := (s.rollbackTo checkpointId).2.inner.quad } } := by
  rcases s.rollbackTo_inner checkpointId with e | ⟨id, e⟩
  · rw [e]
  · rw [e]
    rfl

theorem Sane.rollbackTo (h : s.Sane reflectionThreshold) (checkpointId : String) :
    (s.rollbackTo checkpointId).2.Sane reflectionThreshold := by
  rcases s.rollbackTo_inner checkpointId with e | ⟨id, e⟩
  · rw [e]
    exact h
  · rw [e]
    refine ⟨h.bare, h.quad.rollbackTo id, ?_, ?_, h.baseline, h.idle⟩
    · rcases s.inner.quad.rollbackTo_cases id with ⟨-, hq⟩ | ⟨cp, -, -, hq⟩ | ⟨snap, hsnap, hq⟩
      · exact (congrArg Untouched (congrArg Prod.snd hq)).mpr h.current
      · exact (congrArg Untouched (congrArg Prod.snd hq)).mpr h.current
      · obtain ⟨cp, hcp, -, rfl⟩ := hsnap.mem
        exact (congrArg Untouched (congrArg Prod.snd hq)).mpr (h.captured cp hcp)
    · intro cp hcp
      have hcp' : cp ∈ (s.inner.quad.rollbackTo id).2.checkpoints := hcp
      rcases s.inner.quad.rollbackTo_cases id with ⟨-, hq⟩ | ⟨cp', -, -, hq⟩ | ⟨snap, hsnap, hq⟩
      · rw [hq] at hcp'
        exact h.captured cp hcp'
      · rw [hq] at hcp'
        exact h.captured cp hcp'
      · rw [hq, ← congrArg Prod.snd hsnap.eq, hsnap.checkpoints h.quad.toWellFormed] at hcp'
        exact absurd hcp' List.not_mem_nil

theorem Sane.insertBelief (h : s.Sane reflectionThreshold) (nowMs : Nat) (callId : Uuid)
    (key value : String) (confidence : ℚ) (args : ProvenanceArgs) :
    (s.insertBelief nowMs callId key value confidence args).2.Sane reflectionThreshold := by
  have hop : (Op.insert (.new nowMs key (.asserted value) (parseProvenance args callId)
      confidence)).Plain := trivial
  exact h.of_quad h.bare rfl ⟨rfl, rfl⟩ (BeliefQuad.step_noInference h.quad hop)
    (h.current.insert _ _ _ _ _) fun _ hcp => Or.inl hcp

/-- **every call keeps it** -/
theorem Sane.step (h : s.Sane reflectionThreshold) (c : PyRuntimeCall) :
    (s.step c).Sane reflectionThreshold := by
  cases c with
  | insertBelief nowMs callId key value confidence args =>
    exact h.insertBelief nowMs callId key value confidence args
  | updateBelief call => exact h.updateBelief call
  | checkpoint stamp =>
    have hop : (Op.checkpoint stamp.uuid stamp.nowMs).Plain := trivial
    refine h.of_quad h.bare rfl ⟨rfl, rfl⟩ (BeliefQuad.step_noInference h.quad hop)
      (h.current.checkpointed _ _) fun cp hcp => ?_
    rcases List.mem_append.mp hcp with hcp | hcp
    · exact Or.inl hcp
    · rw [List.mem_singleton.mp hcp]
      exact Or.inr rfl
  | rollbackTo checkpointId => exact h.rollbackTo checkpointId
  | attachLlmClient => exact ⟨h.bare, h.quad, h.current, h.captured, h.baseline, h.idle⟩
  | detachLlmClient => exact ⟨h.bare, h.quad, h.current, h.captured, h.baseline, h.idle⟩
  | finalizeSession => exact ⟨h.bare, h.quad, h.current, h.captured, h.baseline, h.idle⟩
  | exit => exact ⟨h.bare, h.quad, h.current, h.captured, h.baseline, h.idle⟩
  | _ => exact h

theorem sane_run (reflectionThreshold : ℚ) (budget : Nat) (refillRate now : ℚ)
    (calls : List PyRuntimeCall) :
    (run step (new reflectionThreshold budget refillRate now : PyBeliefRuntime M G) calls).Sane
      reflectionThreshold :=
  run_invariant (fun _ c hs => hs.step c) (sane_new reflectionThreshold budget refillRate now)
    calls

/-! ## the session in numbers -/

/-- the calls of a run, each with its answer -/
def transcript (s : PyBeliefRuntime M G) (calls : List PyRuntimeCall) :
    List (PyRuntimeCall × PyRuntimeAnswer) :=
  outputs step (fun s c => [(c, (s.call c).1)]) s calls

theorem transcript_concat (s : PyBeliefRuntime M G) (calls : List PyRuntimeCall)
    (c : PyRuntimeCall) : s.transcript (calls ++ [c]) =
      s.transcript calls ++ [(c, ((run step s calls).call c).1)] := by
  unfold transcript
  rw [outputs_append]
  rfl

end
end PyBeliefRuntime

/-- the confidence of an update that returns -/
def PyRuntimeCall.recorded : PyRuntimeCall × PyRuntimeAnswer → Option ℚ
  | (.updateBelief call, .updated (.ok _)) => some (clamp call.confidence 0 1)
  | _ => none

/-- an update that finds its key -/
def PyRuntimeCall.charged : PyRuntimeCall × PyRuntimeAnswer → Bool
  | (.updateBelief _, .updated (.error (.py _))) => false
  | (.updateBelief _, _) => true
  | _ => false

/-- the last of the calls that attach or detach a client attaches one -/
def attachedBy (calls : List PyRuntimeCall) : Bool :=
  calls.foldl (fun attached c =>
    match c with
    | .attachLlmClient => true
    | .detachLlmClient => false
    | _ => attached) false

/-- the report of a session whose updates have recorded these confidences -/
def reportOf (confidences : List ℚ) (tokens : Nat) : PySessionReport :=
  let tece := Tece.compute (confidences.map fun c => (c, true))
  { trajectoryEce := tece
    totalRevisions := confidences.length
    contradictionsDetected := 0
    system2Activations := 0
    system2Throttled := 0
    calibrationTargetMet := (tece.map fun t => decide (t < teceTarget)).getD true
    softViolations := 0
    hardViolations := 0
    criticalViolations := 0
    recoveryActionsTaken := 0
    governanceTokensUsed := tokens }

namespace PyBeliefRuntime
section
variable {M : Type → Type} {G : Type → Type → Type} [SlotMap M] [StableDiGraph G] [Platform]
  [PyText] [PyDisplay] {reflectionThreshold : ℚ} {s : PyBeliefRuntime M G}

/-- the history, the tokens and the client are those of the calls so far -/
structure Booked (s : PyBeliefRuntime M G) (t : List (PyRuntimeCall × PyRuntimeAnswer)) : Prop where
  confidences : s.inner.confidenceHistory.records.map ConfidenceRecord.confidence =
    t.filterMap PyRuntimeCall.recorded
  right : ∀ r ∈ s.inner.confidenceHistory.records, r.wasCorrect ≠ some false
  tokens : s.inner.governanceTracker.tokensUsed = t.countP PyRuntimeCall.charged

/-- a call that is no update -/
theorem Booked.idle {t : List (PyRuntimeCall × PyRuntimeAnswer)} (h : s.Booked t)
    {s' : PyBeliefRuntime M G} {c : PyRuntimeCall} {answer : PyRuntimeAnswer}
    (hc : PyRuntimeCall.recorded (c, answer) = none)
    (hc' : PyRuntimeCall.charged (c, answer) = false)
    (hhistory : s'.inner.confidenceHistory = s.inner.confidenceHistory)
    (htokens : s'.inner.governanceTracker = s.inner.governanceTracker) :
    s'.Booked (t ++ [(c, answer)]) := by
  refine ⟨?_, ?_, ?_⟩
  · rw [hhistory, h.confidences, List.filterMap_append, List.filterMap_cons_none hc]
    exact (List.append_nil _).symm
  · rw [hhistory]
    exact h.right
  · rw [htokens, h.tokens, List.countP_append, List.countP_singleton, hc']
    rfl

/-- where nothing is marked as wrong, finalizing marks everything as right -/
theorem finalizeSession_right {h : ConfidenceHistory}
    (hright : ∀ r ∈ h.records, r.wasCorrect ≠ some false) :
    h.finalizeSession.records = h.records.map fun r => { r with wasCorrect := some true } := by
  refine List.map_congr_left fun r hr => ?_
  rcases hc : r.wasCorrect with _ | _ | _
  · rfl
  · exact absurd hc (hright r hr)
  · rw [← hc]
    exact if_neg (by rw [hc]; exact Bool.false_ne_true)

/-- finalizing changes no confidence, and marks nothing as wrong -/
theorem Booked.finalized {t : List (PyRuntimeCall × PyRuntimeAnswer)} (h : s.Booked t)
    {c : PyRuntimeCall} {answer : PyRuntimeAnswer}
    (hc : PyRuntimeCall.recorded (c, answer) = none)
    (hc' : PyRuntimeCall.charged (c, answer) = false) :
    s.exit.Booked (t ++ [(c, answer)]) := by
  have hrecords : s.exit.inner.confidenceHistory.records = s.inner.confidenceHistory.records.map
      fun r => { r with wasCorrect := some true } := finalizeSession_right h.right
  refine ⟨?_, ?_, ?_⟩
  · rw [List.filterMap_append, List.filterMap_cons_none hc, ← h.confidences, hrecords,
      List.map_map]
    exact (List.append_nil _).symm
  · rw [hrecords]
    intro r hr
    obtain ⟨r', -, rfl⟩ := List.mem_map.mp hr
    exact fun hwrong => by cases hwrong
  · rw [List.countP_append, List.countP_singleton, hc', ← h.tokens]
    rfl

theorem Booked.updateBelief {t : List (PyRuntimeCall × PyRuntimeAnswer)} (h : s.Booked t)
    (hs : s.Sane reflectionThreshold) (call : PyUpdate) :
    (s.updateBelief call).2.Booked
      (t ++ [(.updateBelief call, .updated (s.updateBelief call).1)]) := by
  rcases s.updateBelief_cases hs call with ⟨-, e⟩ | ⟨id, -, -, e⟩ | ⟨id, n, -, -, e⟩
  · rw [e]
    exact h.idle rfl rfl rfl rfl
  · rw [e]
    refine ⟨?_, h.right, ?_⟩
    · rw [List.filterMap_append, ← h.confidences]
      exact (List.append_nil _).symm
    · rw [List.countP_append, ← h.tokens]
      rfl
  · rw [e]
    refine ⟨?_, ?_, ?_⟩
    · rw [List.filterMap_append, ← h.confidences]
      exact List.map_append
    · intro r hr
      rcases List.mem_append.mp hr with hr | hr
      · exact h.right r hr
      · rw [List.mem_singleton.mp hr]
        exact fun hwrong => by cases hwrong
    · rw [List.countP_append, ← h.tokens]
      rfl

theorem Booked.step {t : List (PyRuntimeCall × PyRuntimeAnswer)} (h : s.Booked t)
    (hs : s.Sane reflectionThreshold) (c : PyRuntimeCall) :
    (s.step c).Booked (t ++ [(c, (s.call c).1)]) := by
  cases c with
  | updateBelief call => exact h.updateBelief hs call
  | finalizeSession => exact h.finalized rfl rfl
  | exit => exact h.finalized rfl rfl
  | rollbackTo checkpointId =>
    have hrest : s.step (.rollbackTo checkpointId) = _ := s.rollbackTo_rest checkpointId
    rw [hrest]
    exact h.idle rfl rfl rfl rfl
  | _ => exact h.idle rfl rfl rfl rfl

variable (budget : Nat) (refillRate now : ℚ)

theorem booked_run (calls : List PyRuntimeCall) :
    (run step (new reflectionThreshold budget refillRate now : PyBeliefRuntime M G) calls).Booked
      (transcript (new reflectionThreshold budget refillRate now : PyBeliefRuntime M G) calls) := by
  induction calls using List.reverseRecOn with
  | nil => exact ⟨rfl, fun _ hr => absurd hr List.not_mem_nil, rfl⟩
  | append_singleton calls c ih =>
    rw [transcript_concat, run_concat]
    exact ih.step (sane_run reflectionThreshold budget refillRate now calls) c

theorem llmClient_step (s : PyBeliefRuntime M G) (c : PyRuntimeCall)
    (hs : s.Sane reflectionThreshold) : (s.step c).inner.llmClient =
      match c with
      | .attachLlmClient => true
      | .detachLlmClient => false
      | _ => s.inner.llmClient := by
  cases c with
  | updateBelief call =>
    show (s.updateBelief call).2.inner.llmClient = _
    rcases s.updateBelief_cases hs call with ⟨-, e⟩ | ⟨id, -, -, e⟩ | ⟨id, n, -, -, e⟩ <;> rw [e]
  | rollbackTo checkpointId =>
    show (s.rollbackTo checkpointId).2.inner.llmClient = _
    rw [s.rollbackTo_rest checkpointId]
  | _ => rfl

theorem llmClient_run (calls : List PyRuntimeCall) :
    (run step (new reflectionThreshold budget refillRate now : PyBeliefRuntime M G)
      calls).inner.llmClient = attachedBy calls := by
  induction calls using List.reverseRecOn with
  | nil => rfl
  | append_singleton calls c ih =>
    have hs := sane_run (M := M) (G := G) reflectionThreshold budget refillRate now calls
    unfold attachedBy at ih ⊢
    rw [run_concat, llmClient_step _ c hs, List.foldl_append, ← ih]
    rfl

/-- what an update returns, by the state it finds and the client that is attached -/
def exactAnswer (s : PyBeliefRuntime M G) (reflectionThreshold : ℚ) (attached : Bool)
    (call : PyUpdate) : Except PyRuntimeErr PyUpdateResult :=
  match s.inner.getByKey call.key with
  | none => .error (.py (.keyError s!"belief key not found: {PyText.debug call.key}"))
  | some id =>
    if s.inner.quad.Live id then
      .ok ⟨if attached && decide (defaultReflectionThreshold <
          |f32Sub (clamp call.confidence 0 1) reflectionThreshold|) then "system2_pending"
        else "system1_only", none⟩
    else .error (.epicaError "core error: belief revision failed: belief not found in quad")

theorem updateBelief_exact (hs : s.Sane reflectionThreshold) (call : PyUpdate) :
    (s.updateBelief call).1 = s.exactAnswer reflectionThreshold s.inner.llmClient call := by
  unfold exactAnswer
  rcases s.updateBelief_cases hs call with ⟨hkey, e⟩ | ⟨id, hkey, hl, e⟩ | ⟨id, n, hkey, hn, e⟩
  · rw [e, hkey]
  · rw [e, hkey]
    exact (if_neg hl).symm
  · have hl : s.inner.quad.Live id := BeliefQuad.live_iff.mpr ⟨n, hn⟩
    rw [e, hkey]
    simp only [if_pos hl, Bool.and_comm s.inner.llmClient]
    rfl

theorem finalizeSession_report {t : List (PyRuntimeCall × PyRuntimeAnswer)} (h : s.Booked t)
    (hs : s.Sane reflectionThreshold) : s.finalizeSession.1 =
      reportOf (t.filterMap PyRuntimeCall.recorded) (t.countP PyRuntimeCall.charged) := by
  have hrecords := finalizeSession_right h.right
  have hinput : s.inner.confidenceHistory.finalizeSession.asTeceInput =
      (t.filterMap PyRuntimeCall.recorded).map fun c => (c, true) := by
    unfold ConfidenceHistory.asTeceInput
    rw [hrecords, ← h.confidences, List.filterMap_map, List.map_map]
    show List.filterMap (fun r : ConfidenceRecord => some (r.confidence, true)) _ = _
    rw [List.filterMap_eq_map']
    rfl
  have hlength : s.inner.confidenceHistory.finalizeSession.records.length =
      (t.filterMap PyRuntimeCall.recorded).length := by
    rw [hrecords, ← h.confidences, List.length_map, List.length_map]
  have hwrong : ((t.filterMap PyRuntimeCall.recorded).map fun c => (c, true)).filter
      (fun p => !p.2) = [] := by
    rw [List.filter_eq_nil_iff]
    intro p hp
    obtain ⟨c, -, rfl⟩ := List.mem_map.mp hp
    exact Bool.false_ne_true
  show ({ s with inner := s.inner.finalizeSession } : PyBeliefRuntime M G).sessionReport = _
  unfold sessionReport BeliefRuntime.sessionReport BeliefRuntime.finalizeSession reportOf
  simp only [hinput, hlength, hwrong, hs.idle.1, hs.idle.2, ← h.tokens]
  rw [show s.inner.contractEngine = ⟨[], none, .default⟩ from hs.bare]
  rfl

variable (budget : Nat) (refillRate now : ℚ)

/-- **what every update returns, what every session reports, and what every belief shows**: after
any calls an update goes through exactly when its key is indexed and the belief is live, and asks
for System 2 when the clamped confidence is off the first argument of the runtime, in single
precision, by more than the default threshold; a session that is finalized has no contradictions
and no reflections -/
theorem session_exact (reflectionThreshold : ℚ) (budget : Nat) (refillRate now : ℚ)
    (calls : List PyRuntimeCall) :
    let start : PyBeliefRuntime M G := new reflectionThreshold budget refillRate now
    (run step start calls).finalizeSession.1 =
      reportOf ((start.transcript calls).filterMap PyRuntimeCall.recorded)
        ((start.transcript calls).countP PyRuntimeCall.charged) ∧
    (∀ call, ((run step start calls).updateBelief call).1 =
      (run step start calls).exactAnswer reflectionThreshold (attachedBy calls) call) ∧
    ∀ key node, (run step start calls).getBelief key = some node →
      node.slowConfidence = none ∧ node.effectiveConfidence = node.fastConfidence := by
  intro start
  have hs : (run step start calls).Sane reflectionThreshold :=
    sane_run reflectionThreshold budget refillRate now calls
  refine ⟨finalizeSession_report (booked_run budget refillRate now calls) hs, fun call => ?_,
    fun key node hnode => ?_⟩
  · rw [updateBelief_exact hs, llmClient_run budget refillRate now calls]
  · obtain ⟨id, -, hread⟩ := Option.bind_eq_some_iff.mp hnode
    obtain ⟨n, hn, rfl⟩ := Option.map_eq_some_iff.mp hread
    have hslow := hs.current.slow id n hn
    refine ⟨hslow, ?_⟩
    show n.slowConfidence.getD n.fastConfidence = n.fastConfidence
    rw [hslow]
    rfl

/-! ## a client changes nothing but the status -/

end
end PyBeliefRuntime

def PyRuntimeCall.isClient : PyRuntimeCall → Bool
  | .attachLlmClient => true
  | .detachLlmClient => true
  | _ => false

/-- the answer, but for the status of an update that goes through -/
def PyRuntimeAnswer.unpending : PyRuntimeAnswer → PyRuntimeAnswer
  | .updated (.ok r) => .updated (.ok { r with status := "system1_only" })
  | answer => answer

namespace PyBeliefRuntime
section
variable {M : Type → Type} {G : Type → Type → Type} [SlotMap M] [StableDiGraph G] [Platform]
  [PyText] [PyDisplay] {reflectionThreshold : ℚ} {s : PyBeliefRuntime M G}

theorem Sane.detach (h : s.Sane reflectionThreshold) :
    s.detachLlmClient.Sane reflectionThreshold :=
  ⟨h.bare, h.quad, h.current, h.captured, h.baseline, h.idle⟩

theorem updateBelief_detached (h : s.Sane reflectionThreshold) (call : PyUpdate) :
    s.detachLlmClient.call (.updateBelief call) =
      ((s.call (.updateBelief call)).1.unpending,
        (s.step (.updateBelief call)).detachLlmClient) := by
  show (PyRuntimeAnswer.updated (s.detachLlmClient.updateBelief call).1,
      (s.detachLlmClient.updateBelief call).2) =
    ((PyRuntimeAnswer.updated (s.updateBelief call).1).unpending,
      (s.updateBelief call).2.detachLlmClient)
  have hnone : ∀ {id}, s.inner.getByKey call.key = none →
      s.detachLlmClient.inner.getByKey call.key ≠ some id := by
    intro id hkey hkey'
    have hboth : none = some id := hkey.symm.trans hkey'
    cases hboth
  have hsame : ∀ {id id'}, s.inner.getByKey call.key = some id →
      s.detachLlmClient.inner.getByKey call.key = some id' → id' = id := fun hkey hkey' =>
    Option.some.inj (hkey'.symm.trans hkey)
  rcases s.updateBelief_cases h call with ⟨hkey, e⟩ | ⟨id, hkey, hl, e⟩ | ⟨id, n, hkey, hn, e⟩
  · rcases s.detachLlmClient.updateBelief_cases h.detach call with
      ⟨-, e'⟩ | ⟨id', hkey', -⟩ | ⟨id', n', hkey', -⟩
    · rw [e, e']
      rfl
    · exact absurd hkey' (hnone hkey)
    · exact absurd hkey' (hnone hkey)
  · rcases s.detachLlmClient.updateBelief_cases h.detach call with
      ⟨hkey', -⟩ | ⟨id', hkey', -, e'⟩ | ⟨id', n', hkey', hn', -⟩
    · exact absurd hkey (hnone hkey')
    · obtain rfl := hsame hkey hkey'
      rw [e, e']
      rfl
    · obtain rfl := hsame hkey hkey'
      exact absurd (BeliefQuad.live_iff.mpr ⟨n', hn'⟩) hl
  · rcases s.detachLlmClient.updateBelief_cases h.detach call with
      ⟨hkey', -⟩ | ⟨id', hkey', hl', -⟩ | ⟨id', n', hkey', -, e'⟩
    · exact absurd hkey (hnone hkey')
    · obtain rfl := hsame hkey hkey'
      exact absurd (BeliefQuad.live_iff.mpr ⟨n, hn⟩) hl'
    · obtain rfl := hsame hkey hkey'
      rw [e, e']
      have hoff : s.detachLlmClient.inner.llmClient = false := rfl
      rw [hoff, Bool.and_false]
      rfl

/-- **a call, before and after the client is detached** -/
theorem call_detached (h : s.Sane reflectionThreshold) {c : PyRuntimeCall}
    (hc : c.isClient = false) : s.detachLlmClient.call c =
      ((s.call c).1.unpending, (s.step c).detachLlmClient) := by
  cases c with
  | updateBelief call => exact updateBelief_detached h call
  | attachLlmClient => cases hc
  | detachLlmClient => cases hc
  | rollbackTo checkpointId =>
    show (PyRuntimeAnswer.rolledBack (s.detachLlmClient.rollbackTo checkpointId).1,
        (s.detachLlmClient.rollbackTo checkpointId).2) =
      (.rolledBack (s.rollbackTo checkpointId).1, (s.rollbackTo checkpointId).2.detachLlmClient)
    unfold rollbackTo BeliefRuntime.rollbackTo
    cases parseCheckpointId checkpointId with
    | error e => rfl
    | ok id =>
      have hquad : s.detachLlmClient.inner.quad = s.inner.quad := rfl
      simp only [hquad]
      rcases s.inner.quad.rollbackTo id with ⟨e | diff, quad⟩ <;> rfl
  | _ => rfl

/-- **a client is inert**: any calls, with clients attached and detached anywhere between them,
are answered as without these calls, but for the status of updates, and lead to the same state -/
theorem client_inert (reflectionThreshold : ℚ) (budget : Nat) (refillRate now : ℚ)
    (calls : List PyRuntimeCall) :
    let start : PyBeliefRuntime M G := new reflectionThreshold budget refillRate now
    let others := calls.filter fun c => !c.isClient
    outputs step (fun s c => if c.isClient then [] else [(s.call c).1.unpending]) start calls =
      outputs step (fun s c => [(s.call c).1]) start others ∧
    (run step start calls).detachLlmClient = run step start others := by
  intro start others
  have hrun : ∀ (l : List PyRuntimeCall) (s : PyBeliefRuntime M G), s.Sane reflectionThreshold →
      outputs step (fun s c => if c.isClient then [] else [(s.call c).1.unpending]) s l =
        outputs step (fun s c => [(s.call c).1]) s.detachLlmClient
          (l.filter fun c => !c.isClient) ∧
      (run step s l).detachLlmClient =
        run step s.detachLlmClient (l.filter fun c => !c.isClient) := by
    intro l
    induction l with
    | nil => exact fun s _ => ⟨rfl, rfl⟩
    | cons c l ih =>
      intro s hs
      obtain ⟨houts, hstate⟩ := ih (s.step c) (hs.step c)
      cases hc : c.isClient with
      | true =>
        have hstays : (s.step c).detachLlmClient = s.detachLlmClient := by
          cases c with
          | attachLlmClient => rfl
          | detachLlmClient => rfl
          | _ => cases hc
        rw [hstays] at houts hstate
        rw [List.filter_cons_of_neg (by rw [hc]; exact Bool.false_ne_true)]
        refine ⟨?_, hstate⟩
        show (if c.isClient then [] else [(s.call c).1.unpending]) ++ _ = _
        rw [hc, if_pos rfl, List.nil_append]
        exact houts
      | false =>
        have hcall := call_detached hs hc
        have hnext : s.detachLlmClient.step c = (s.step c).detachLlmClient :=
          congrArg Prod.snd hcall
        rw [List.filter_cons_of_pos (by rw [hc]; rfl)]
        constructor
        · show (if c.isClient then [] else [(s.call c).1.unpending]) ++ _ =
            [(s.detachLlmClient.call c).1] ++
              outputs step (fun s c => [(s.call c).1]) (s.detachLlmClient.step c) _
          rw [hc, if_neg Bool.false_ne_true, hcall, hnext]
          exact congrArg _ houts
        · show (run step (s.step c) l).detachLlmClient = run step (s.detachLlmClient.step c) _
          rw [hnext]
          exact hstate
  exact hrun calls start (sane_new reflectionThreshold budget refillRate now)

/-! ## a dictionary -/

/-- what a call does to a dictionary of beliefs -/
def dictStep (d : String → Option PyBeliefNode) : PyRuntimeCall → String → Option PyBeliefNode
  | .insertBelief nowMs callId key value confidence args =>
    Function.update d key (some (nodeToPy
      (.new nowMs key (.asserted value) (parseProvenance args callId) confidence)))
  | .updateBelief call =>
    Function.update d call.key ((d call.key).map fun n => { n with
      value := call.newValue
      valueKind := "asserted"
      provenance := provenanceText (parseProvenance call.args call.callId)
      fastConfidence := clamp call.confidence 0 1
      effectiveConfidence := clamp call.confidence 0 1 })
  | _ => d

/-- every indexed id is that of a live belief with the key, and reading gives the dictionary -/
structure Represents (s : PyBeliefRuntime M G) (d : String → Option PyBeliefNode) : Prop where
  keyed : ∀ key id, s.inner.getByKey key = some id →
    ∃ n, s.inner.quad.get id = some n ∧ n.key = key
  reads : s.getBelief = d

variable {d : String → Option PyBeliefNode}

theorem represents_new (reflectionThreshold : ℚ) (budget : Nat) (refillRate now : ℚ) :
    (new reflectionThreshold budget refillRate now : PyBeliefRuntime M G).Represents
      fun _ => none := by
  have hindex : (new reflectionThreshold budget refillRate now :
      PyBeliefRuntime M G).inner.keyIndex = ∅ := by
    show (SlotMap.iter (BeliefQuad.new : BeliefQuad M G).nodes).foldl _ ∅ = ∅
    have hiter : SlotMap.iter (BeliefQuad.new : BeliefQuad M G).nodes = [] := by
      refine List.eq_nil_iff_forall_not_mem.mpr fun e he => ?_
      exact BeliefQuad.not_live_new (M := M) (G := G) e.1
        (BeliefQuad.live_iff.mpr ⟨e.2, (SlotMap.mem_iter _ _ _).mp he⟩)
    rw [hiter]
    rfl
  have hnone : ∀ key, (new reflectionThreshold budget refillRate now :
      PyBeliefRuntime M G).inner.getByKey key = none := by
    intro key
    unfold BeliefRuntime.getByKey
    rw [hindex]
    exact Finmap.lookup_empty key
  refine ⟨fun key id hkey => ?_, ?_⟩
  · rw [hnone] at hkey
    cases hkey
  · funext key
    unfold getBelief
    rw [hnone]
    rfl

/-- a call that touches neither the index nor the beliefs -/
theorem Represents.of_same (h : s.Represents d) {s' : PyBeliefRuntime M G}
    (hindex : s'.inner.keyIndex = s.inner.keyIndex)
    (hget : s'.inner.quad.get = s.inner.quad.get) : s'.Represents d := by
  refine ⟨fun key id hkey => ?_, ?_⟩
  · unfold BeliefRuntime.getByKey at hkey
    rw [hindex] at hkey
    rw [hget]
    exact h.keyed key id hkey
  · rw [← h.reads]
    funext key
    unfold getBelief BeliefRuntime.getByKey
    rw [hindex, hget]

theorem Represents.insertBelief (h : s.Represents d) (nowMs : Nat) (callId : Uuid)
    (key value : String) (confidence : ℚ) (args : ProvenanceArgs) :
    (s.insertBelief nowMs callId key value confidence args).2.Represents
      (dictStep d (.insertBelief nowMs callId key value confidence args)) := by
  let node := BeliefNode.new nowMs key (.asserted value) (parseProvenance args callId) confidence
  let s' := (s.insertBelief nowMs callId key value confidence args).2
  have hget : ∀ j, s'.inner.quad.get j =
      if j = s.inner.quad.nextId then some { node with id := s.inner.quad.nextId }
      else s.inner.quad.get j := s.inner.quad.get_insert node
  have hself : s'.inner.getByKey key = some s.inner.quad.nextId := Finmap.lookup_insert _
  have hother : ∀ k, k ≠ key → s'.inner.getByKey k = s.inner.getByKey k := fun k hk =>
    Finmap.lookup_insert_of_ne _ hk
  have hfresh : s.inner.quad.get s.inner.quad.nextId = none := SlotMap.get_nextKey _
  have hold : ∀ k id, s.inner.getByKey k = some id → id ≠ s.inner.quad.nextId := by
    intro k id hk hid
    obtain ⟨n, hn, -⟩ := h.keyed k id hk
    rw [hid, hfresh] at hn
    cases hn
  refine ⟨fun k id hk => ?_, ?_⟩
  · rcases eq_or_ne k key with rfl | hne
    · obtain rfl := Option.some.inj (hself.symm.trans hk)
      exact ⟨_, (hget _).trans (if_pos rfl), rfl⟩
    · have hk' : s.inner.getByKey k = some id := (hother k hne).symm.trans hk
      obtain ⟨n, hn, hkey⟩ := h.keyed k id hk'
      exact ⟨n, (hget id).trans ((if_neg (hold k id hk')).trans hn), hkey⟩
  · funext k
    show (s'.inner.getByKey k).bind (fun id => (s'.inner.quad.get id).map nodeToPy) =
      Function.update d key (some (nodeToPy node)) k
    rcases eq_or_ne k key with rfl | hne
    · rw [hself, Option.bind_some, hget, if_pos rfl, Function.update_self]
      rfl
    · rw [hother k hne, Function.update_of_ne hne, ← h.reads]
      unfold getBelief
      cases hk : s.inner.getByKey k with
      | none => rfl
      | some id => rw [Option.bind_some, Option.bind_some, hget, if_neg (hold k id hk)]

/-- the belief as Python sees it after a revision -/
theorem nodeToPy_revised {n : BeliefNode} (hslow : n.slowConfidence = none) (contracting : Bool)
    (text : String) (p : Provenance) (c : ℚ) :
    nodeToPy (BeliefQuad.revisedNode contracting (.asserted text) p c n) = { nodeToPy n with
      value := text
      valueKind := "asserted"
      provenance := provenanceText p
      fastConfidence := clamp c 0 1
      effectiveConfidence := clamp c 0 1 } := by
  unfold nodeToPy BeliefQuad.revisedNode
  simp only [hslow, ite_self, Option.getD_none, valueText]

theorem Represents.updateBelief (h : s.Represents d) (hs : s.Sane reflectionThreshold)
    (call : PyUpdate) :
    (s.updateBelief call).2.Represents (dictStep d (.updateBelief call)) := by
  have hsame : d call.key = none → dictStep d (.updateBelief call) = d := by
    intro hnone
    funext k
    show Function.update d call.key _ k = d k
    rcases eq_or_ne k call.key with rfl | hne
    · rw [Function.update_self, hnone]
      rfl
    · exact Function.update_of_ne hne _ _
  rcases s.updateBelief_cases hs call with ⟨hkey, e⟩ | ⟨id, hkey, hl, e⟩ | ⟨id, n, hkey, hn, e⟩
  · have hnone : d call.key = none := by
      rw [← h.reads]
      unfold getBelief
      rw [hkey]
      rfl
    rw [e, hsame hnone]
    exact h
  · obtain ⟨n, hn, -⟩ := h.keyed call.key id hkey
    exact absurd (BeliefQuad.live_iff.mpr ⟨n, hn⟩) hl
  · have hl : s.inner.quad.Live id := BeliefQuad.live_iff.mpr ⟨n, hn⟩
    obtain ⟨n', hn', hnkey⟩ := h.keyed call.key id hkey
    obtain rfl := Option.some.inj (hn.symm.trans hn')
    let contracting :=
      (s.inner.checkpointedQuad (call.update id)).checkContradiction id (.asserted call.newValue)
    let revised := BeliefQuad.revisedNode contracting (.asserted call.newValue)
      (parseProvenance call.args call.callId) call.confidence
    have hl' : s.inner.quad.Live (call.update id).id := hl
    have hget : ∀ j, (s.inner.plainQuad (call.update id)).get j =
        if j = id then (s.inner.quad.get j).map revised else s.inner.quad.get j :=
      hs.get_plainQuad hl'
    have hd : d call.key = some (nodeToPy n) := by
      rw [← h.reads]
      unfold getBelief
      rw [hkey, Option.bind_some, hn]
      rfl
    rw [e]
    refine ⟨fun k j hk => ?_, ?_⟩
    · obtain ⟨m, hm, hmkey⟩ := h.keyed k j hk
      by_cases hj : j = id
      · exact ⟨revised m, (hget j).trans (by rw [if_pos hj, hm]; rfl), hmkey⟩
      · exact ⟨m, (hget j).trans ((if_neg hj).trans hm), hmkey⟩
    · funext k
      show (s.inner.getByKey k).bind
          (fun j => ((s.inner.plainQuad (call.update id)).get j).map nodeToPy) =
        Function.update d call.key _ k
      rcases eq_or_ne k call.key with rfl | hne
      · rw [hkey, Option.bind_some, hget, if_pos rfl, hn, Function.update_self, hd]
        exact congrArg some (nodeToPy_revised (hs.current.slow id n hn) _ _ _ _)
      · rw [Function.update_of_ne hne, ← h.reads]
        unfold getBelief
        cases hk : s.inner.getByKey k with
        | none => rfl
        | some j =>
          have hj : j ≠ id := by
            intro hj
            obtain ⟨m, hm, hmkey⟩ := h.keyed k j hk
            rw [hj, hn] at hm
            rw [← Option.some.inj hm, hnkey] at hmkey
            exact hne hmkey.symm
          rw [Option.bind_some, Option.bind_some, hget, if_neg hj]

/-- a rollback that is refused changes nothing -/
theorem rollbackTo_refused {checkpointId : String}
    (hno : ∀ diff, (s.rollbackTo checkpointId).1 ≠ .ok diff) :
    (s.rollbackTo checkpointId).2 = s := by
  unfold rollbackTo at hno ⊢
  cases hparse : parseCheckpointId checkpointId with
  | error e => rfl
  | ok id =>
    rw [hparse] at hno
    unfold BeliefRuntime.rollbackTo at hno ⊢
    rcases s.inner.quad.rollbackTo_cases id with ⟨-, e⟩ | ⟨cp, -, -, e⟩ | ⟨snap, -, e⟩
    · simp only [e]
    · simp only [e]
    · simp only [e] at hno
      exact absurd rfl (hno _)

theorem Represents.step (h : s.Represents d) (hs : s.Sane reflectionThreshold)
    {c : PyRuntimeCall}
    (hno : ∀ id diff, c = .rollbackTo id → (s.rollbackTo id).1 ≠ .ok diff) :
    (s.step c).Represents (dictStep d c) := by
  cases c with
  | insertBelief nowMs callId key value confidence args =>
    exact h.insertBelief nowMs callId key value confidence args
  | updateBelief call => exact h.updateBelief hs call
  | rollbackTo checkpointId =>
    have hstays : s.step (.rollbackTo checkpointId) = s :=
      rollbackTo_refused fun diff => hno checkpointId diff rfl
    rw [hstays]
    exact h
  | _ => exact h.of_same rfl rfl

/-- **until a rollback goes through, the runtime is a dictionary**: a key that is read shows what
was last inserted or updated under it, and an update goes through exactly when its key is held -/
theorem dictionary_runs (reflectionThreshold : ℚ) (budget : Nat) (refillRate now : ℚ)
    (calls : List PyRuntimeCall)
    (hno : ∀ s id diff, StepOf step (new reflectionThreshold budget refillRate now :
      PyBeliefRuntime M G) calls s (.rollbackTo id) → (s.rollbackTo id).1 ≠ .ok diff) :
    let s : PyBeliefRuntime M G := run step (new reflectionThreshold budget refillRate now) calls
    let d := run dictStep (fun _ => none) calls
    s.getBelief = d ∧ (∀ key, (s.getByKey key).isSome = (d key).isSome) ∧
      ∀ call, (∃ result, (s.updateBelief call).1 = .ok result) ↔ (d call.key).isSome = true := by
  intro s d
  have hs : s.Sane reflectionThreshold := sane_run reflectionThreshold budget refillRate now calls
  have h : s.Represents d := by
    clear hs
    induction calls using List.reverseRecOn with
    | nil => exact represents_new reflectionThreshold budget refillRate now
    | append_singleton calls c ih =>
      have hprev := ih fun s' id diff hstep => hno s' id diff (hstep.append [c])
      have hlast : StepOf step (new reflectionThreshold budget refillRate now :
          PyBeliefRuntime M G) (calls ++ [c])
          (run step (new reflectionThreshold budget refillRate now) calls) c :=
        ⟨calls, [], rfl, rfl⟩
      have hs := sane_run (M := M) (G := G) reflectionThreshold budget refillRate now calls
      show (run step _ (calls ++ [c])).Represents (run dictStep _ (calls ++ [c]))
      rw [run_concat, run_concat]
      refine hprev.step hs fun id diff hc => ?_
      subst hc
      exact hno _ id diff hlast
  have hheld : ∀ key, (s.inner.getByKey key).isSome = (d key).isSome := by
    intro key
    rw [← h.reads]
    unfold getBelief
    cases hk : s.inner.getByKey key with
    | none => rfl
    | some id =>
      obtain ⟨n, hn, -⟩ := h.keyed key id hk
      rw [Option.bind_some, hn]
      rfl
  refine ⟨h.reads, fun key => ?_, fun call => ?_⟩
  · rw [← hheld key]
    exact Option.isSome_map
  · rw [← hheld call.key]
    rcases s.updateBelief_cases hs call with ⟨hkey, e⟩ | ⟨id, hkey, hl, e⟩ | ⟨id, n, hkey, -, e⟩
    · rw [e, hkey]
      exact iff_of_false (fun hr => by obtain ⟨r, hr⟩ := hr; cases hr) Bool.false_ne_true
    · obtain ⟨n, hn, -⟩ := h.keyed call.key id hkey
      exact absurd (BeliefQuad.live_iff.mpr ⟨n, hn⟩) hl
    · rw [e, hkey]
      exact iff_of_true ⟨_, rfl⟩ rfl

end

section
attribute [local instance] Platform.ascii

/-- texts as they are, and no uuid is read back -/
@[reducible] def plainText : PyText where
  debug text := text
  uuid _ := "00000000"
  parseUuid _ := none

@[reducible] def plainDisplay : PyDisplay where
  json _ := "null"
  rollbackError _ := "CheckpointNotFound"

attribute [local instance] plainText plainDisplay

/-- a goal is inserted, updated, and not rolled back -/
def deploy : List PyRuntimeCall :=
  [.insertBelief 0 1 "user_goal" "deploy service" (9 / 10) ⟨none, none, none⟩,
    .updateBelief (.at 10 "user_goal" "deploy cancelled" (3 / 10)), .rollbackTo "chk:?"]

/-- no text is read as a checkpoint -/
theorem rollbackTo_unread (s : PyBeliefRuntime SlotVec EdgeList) (id : String) :
    (s.rollbackTo id).1 = .error (.py (.checkpointError s!"invalid checkpoint ID: {id}")) := by
  have hnone : CheckpointId.parse id = none := by
    unfold CheckpointId.parse
    split <;> rfl
  have hparse : parseCheckpointId id =
      .error (.checkpointError s!"invalid checkpoint ID: {id}") := by
    unfold parseCheckpointId
    rw [hnone]
    rfl
  unfold rollbackTo
  rw [hparse]

theorem dictionary_runs_deploy :
    let s : PyBeliefRuntime SlotVec EdgeList := run step (new (15 / 100) 50 1 0) deploy
    (∃ result, (s.updateBelief (.at 20 "user_goal" "deploy again" (1 / 2))).1 = .ok result) ∧
      ¬ ∃ result, (s.updateBelief (.at 20 "blocker" "none" (1 / 2))).1 = .ok result := by
  have h := dictionary_runs (M := SlotVec) (G := EdgeList) (15 / 100) 50 1 0 deploy
    fun s id diff _ hok => by
      rw [rollbackTo_unread] at hok
      cases hok
  have hheld : (run dictStep (fun _ => none) deploy "user_goal").isSome = true := by
    decide +kernel
  have hnot : ¬ (run dictStep (fun _ => none) deploy "blocker").isSome = true := by
    decide +kernel
  exact ⟨(h.2.2 (.at 20 "user_goal" "deploy again" (1 / 2))).mpr hheld,
    fun hr => hnot ((h.2.2 (.at 20 "blocker" "none" (1 / 2))).mp hr)⟩

end
end PyBeliefRuntime
end Epica
