import Epica.Runtime.Engine
import Epica.Core.Runs

/-!
# The runtime and its update

`BeliefRuntime` is a quad with a key index, the contract engine, the governance counter and the
confidence history, each behind a lock of its own.  `updateBelief` is a call that runs alone;
`lockSection` is the same call cut at its locks: one step takes the locks once, and
`UpdatePc` says where the call is and what it carries.  What a call draws from outside (clock
readings, uuids, enumeration orders) stands beside its arguments.

* `lockSections_alone`   a call whose sections run without interruption is `updateBelief`.
-/

set_option linter.unusedSectionVars false

namespace Epica
open Lib

/-! ## the confidence history -/

structure ConfidenceRecord where
  beliefId : BeliefId
  confidence : ℚ
  wasCorrect : Option Bool
  timestampMs : Nat

structure ConfidenceHistory where
  records : List ConfidenceRecord

namespace ConfidenceHistory

def new : ConfidenceHistory := ⟨[]⟩

def push (h : ConfidenceHistory) (nowMs : Nat) (id : BeliefId) (confidence : ℚ) :
    ConfidenceHistory :=
  ⟨h.records ++ [⟨id, confidence, none, nowMs⟩]⟩

/-- set the outcome of the last record of `id`, if there is one -/
def markCorrect (h : ConfidenceHistory) (id : BeliefId) (correct : Bool) : ConfidenceHistory :=
  match h.records.reverse.findIdx? fun r => r.beliefId = id with
  | none => h
  | some i => ⟨(h.records.reverse.modify i fun r => { r with wasCorrect := some correct }).reverse⟩

end ConfidenceHistory

/-! ## governance -/

structure GovernanceTracker where
  tokensUsed : Nat
  /-- the tool calls recorded for each key -/
  toolCalls : Finmap fun _ : String => Nat
  pendingApprovals : Finset String

def GovernanceTracker.new : GovernanceTracker := ⟨0, ∅, ∅⟩

/-- the token is consumed also when the limit refuses the call -/
def GovernanceTracker.trackTokenUsage (tracker : GovernanceTracker) (limit : Option Nat) :
    Except RuntimeError Unit × GovernanceTracker :=
  let prev := tracker.tokensUsed
  let tracker' : GovernanceTracker := { tracker with tokensUsed := prev + 1 }
  match limit with
  | none => (.ok (), tracker')
  | some max =>
    if max ≤ prev then
      (.error (.governanceLimitExceeded "tokens_per_session" max (prev + 1)), tracker')
    else (.ok (), tracker')

def GovernanceTracker.trackToolCall (tracker : GovernanceTracker) (beliefKey : String)
    (limit : Option Nat) : Except RuntimeError Unit × GovernanceTracker :=
  let count := (tracker.toolCalls.lookup beliefKey).getD 0 + 1
  let tracker' : GovernanceTracker :=
    { tracker with toolCalls := tracker.toolCalls.insert beliefKey count }
  match limit with
  | none => (.ok (), tracker')
  | some max =>
    if max < count then
      (.error (.governanceLimitExceeded s!"tool_calls_for:{beliefKey}" max count), tracker')
    else (.ok (), tracker')

/-- a listed key always needs an approval: it is entered as pending each time it is asked about -/
def GovernanceTracker.requiresApproval (tracker : GovernanceTracker) (beliefKey : String)
    (requireHumanApproval : List String) : Bool × GovernanceTracker :=
  if !requireHumanApproval.any (· = beliefKey) then (false, tracker)
  else (true, { tracker with pendingApprovals := insert beliefKey tracker.pendingApprovals })

def GovernanceTracker.markApproved (tracker : GovernanceTracker) (beliefKey : String) :
    GovernanceTracker :=
  { tracker with pendingApprovals := tracker.pendingApprovals.erase beliefKey }

/-! ## the runtime -/

structure DiagnosticSignal where
  beliefKey : String
  fastConfidence : ℚ
  reliabilityBaseline : ℚ
  divergence : ℚ

inductive RuntimeUpdateResult where
  | system1Only
  | system2Pending (signal : DiagnosticSignal)

/-- the difference is an `f32` -/
def shouldActivateSystem2 (fast baseline threshold : ℚ) : Bool :=
  threshold < |f32Sub fast baseline|

structure BeliefRuntime (M : Type → Type) (G : Type → Type → Type) where
  quad : BeliefQuad M G
  reliabilityBaseline : ℚ
  keyIndex : Finmap fun _ : String => BeliefId
  confidenceHistory : ConfidenceHistory
  contractEngine : ContractEngine M G
  governanceTracker : GovernanceTracker
  /-- whether an `LlmClient` is attached -/
  llmClient : Bool
  defaultReflectionThreshold : ℚ

/-- the arguments of `updateBelief`, and what the call draws -/
structure UpdateCall where
  id : BeliefId
  value : BeliefValue
  provenance : Provenance
  confidence : ℚ
  checkpointStamp : Stamp
  revisionStamp : Stamp
  contractionOrder : HashOrder BeliefId
  propagationNow : BeliefId → Nat
  propagationOrder : BeliefId → HashOrder BeliefId
  auditMs : Nat
  historyMs : Nat

/-- a user's call whose clock reads `0` and whose hash sets are enumerated in order of insertion;
its checkpoint gets `uuid` -/
def UpdateCall.at (uuid : Uuid) (id : BeliefId) (value : BeliefValue) (confidence : ℚ) :
    UpdateCall where
  id := id
  value := value
  provenance := .userStatement 0
  confidence := confidence
  checkpointStamp := ⟨uuid, 0⟩
  revisionStamp := ⟨uuid + 1, 0⟩
  contractionOrder := .id
  propagationNow _ := 0
  propagationOrder _ := .id
  auditMs := 0
  historyMs := 0

/-- the revision of the call -/
def UpdateCall.revise {M : Type → Type} {G : Type → Type → Type} [SlotMap M] [StableDiGraph G]
    [Platform] (call : UpdateCall) (quad : BeliefQuad M G) :
    Except BeliefRevisionError RevisionRecord × BeliefQuad M G :=
  quad.revise call.revisionStamp call.contractionOrder call.id call.value call.provenance
    call.confidence

namespace BeliefRuntime
variable {M : Type → Type} {G : Type → Type → Type} [SlotMap M] [StableDiGraph G]

def new (quad : BeliefQuad M G) (reliabilityBaseline : ℚ) : BeliefRuntime M G where
  quad := quad
  reliabilityBaseline := reliabilityBaseline
  keyIndex := (SlotMap.iter quad.nodes).foldl (fun index e => index.insert e.2.key e.1) ∅
  confidenceHistory := .new
  contractEngine := ⟨[], none, .default⟩
  governanceTracker := .new
  llmClient := false
  defaultReflectionThreshold := Epica.defaultReflectionThreshold

/-- a runtime as `new` and the builder methods leave it -/
def build (quad : BeliefQuad M G) (reliabilityBaseline : ℚ)
    (contracts : List (BehavioralContract M G)) (sovereignty : Option (MnemonicSovereignty M G))
    (llmClient : Bool) (tau : ℚ) : BeliefRuntime M G :=
  { new quad reliabilityBaseline with
    contractEngine := ⟨contracts, sovereignty, .default⟩
    llmClient := llmClient
    defaultReflectionThreshold := clamp tau 0 1 }

def getByKey (rt : BeliefRuntime M G) (key : String) : Option BeliefId := rt.keyIndex.lookup key

/-- `scenarios` is what the prospective indexing has generated, when it was asked for and did not
fail -/
def insertBelief (rt : BeliefRuntime M G) (node : BeliefNode)
    (scenarios : Option (List ProspectiveEntry)) : BeliefId × BeliefRuntime M G :=
  let inserted := rt.quad.insert node
  let id := inserted.1
  let quad := inserted.2
  let quad' :=
    match node.prospect, scenarios with
    | true, some entries =>
      { quad with prospectiveIndex := quad.prospectiveIndex.insert id entries }
    | _, _ => quad
  (id, { rt with quad := quad', keyIndex := rt.keyIndex.insert node.key id })

def checkpoint (rt : BeliefRuntime M G) (stamp : Stamp) : CheckpointId × BeliefRuntime M G :=
  let captured := rt.quad.checkpoint stamp.uuid stamp.nowMs
  (captured.1, { rt with quad := captured.2 })

def rollbackTo (rt : BeliefRuntime M G) (id : CheckpointId) :
    Except RollbackError BeliefQuadDiff × BeliefRuntime M G :=
  let rolled := rt.quad.rollbackTo id
  (rolled.1, { rt with quad := rolled.2 })

/-! ## the lock sections of an update -/

/-- the key of a belief, empty when it is not live -/
def keyOf (rt : BeliefRuntime M G) (id : BeliefId) : String :=
  ((rt.quad.get id).map BeliefNode.key).getD ""

/-- only the first contract's limit counts -/
def trackTokens (rt : BeliefRuntime M G) : Except RuntimeError Unit × BeliefRuntime M G :=
  let limit := rt.contractEngine.contracts.head?.bind fun c => c.governance.maxTokensPerSession
  let tracked := rt.governanceTracker.trackTokenUsage limit
  (tracked.1, { rt with governanceTracker := tracked.2 })

section
variable [Platform]

/-- revision and System 1 under one write lock: the fast confidence, and whether something was
contracted -/
def reviseAndPropagate (rt : BeliefRuntime M G) (call : UpdateCall) :
    Except BeliefRevisionError (ℚ × Bool) × BeliefRuntime M G :=
  match call.revise rt.quad with
  | (.error e, quad) => (.error e, { rt with quad := quad })
  | (.ok record, quad) =>
    let contradicted := decide record.contracted.Nonempty
    let quad := quad.propagateSystem1 call.propagationNow call.propagationOrder call.id
    let fast := ((quad.get call.id).map BeliefNode.fastConfidence).getD call.confidence
    (.ok (fast, contradicted), { rt with quad := quad })

end

def postUpdate (rt : BeliefRuntime M G) (call : UpdateCall) (cp : CheckpointId)
    (beliefKey : String) : Except RuntimeError (Option RecoveryOutcome) × BeliefRuntime M G :=
  let r := rt.contractEngine.postUpdate rt.quad (some cp) beliefKey "system" call.auditMs
  (r.1, { rt with contractEngine := r.2.1, quad := r.2.2 })

def markIncorrect (rt : BeliefRuntime M G) (id : BeliefId) : BeliefRuntime M G :=
  { rt with confidenceHistory := rt.confidenceHistory.markCorrect id false }

/-- System 2 is called for, and there is a client to call -/
def activates (rt : BeliefRuntime M G) (id : BeliefId) (fast : ℚ) : Bool :=
  let perNodeTau :=
    ((rt.quad.get id).map BeliefNode.reflectionThreshold).getD rt.defaultReflectionThreshold
  shouldActivateSystem2 fast rt.reliabilityBaseline perNodeTau && rt.llmClient

def signal (rt : BeliefRuntime M G) (id : BeliefId) (fast : ℚ) : DiagnosticSignal where
  beliefKey := rt.keyOf id
  fastConfidence := fast
  reliabilityBaseline := rt.reliabilityBaseline
  divergence := |f32Sub fast rt.reliabilityBaseline|

def pushHistory (rt : BeliefRuntime M G) (call : UpdateCall) (fast : ℚ) : BeliefRuntime M G :=
  { rt with confidenceHistory := rt.confidenceHistory.push call.historyMs call.id fast }

/-! ## an update that runs alone -/

/-- the part of an update after the contracts -/
def finishUpdate (rt : BeliefRuntime M G) (call : UpdateCall) (fast : ℚ) (contradicted : Bool) :
    Except RuntimeError RuntimeUpdateResult × BeliefRuntime M G :=
  let rt := if contradicted then rt.markIncorrect call.id else rt
  let result :=
    if rt.activates call.id fast then .system2Pending (rt.signal call.id fast) else .system1Only
  (.ok result, rt.pushHistory call fast)

theorem finishUpdate_ok (rt : BeliefRuntime M G) (call : UpdateCall) (fast : ℚ)
    (contradicted : Bool) : ∃ result history, rt.finishUpdate call fast contradicted =
      (.ok result, { rt with confidenceHistory := history }) := by
  cases contradicted with
  | true => exact ⟨_, _, rfl⟩
  | false => exact ⟨_, _, rfl⟩

section
variable [Platform]

def updateBelief (rt : BeliefRuntime M G) (call : UpdateCall) :
    Except RuntimeError RuntimeUpdateResult × BeliefRuntime M G :=
  let beliefKey := rt.keyOf call.id
  match rt.contractEngine.preUpdate rt.quad beliefKey "system" with
  | .error e => (.error e, rt)
  | .ok () =>
  match rt.trackTokens with
  | (.error e, rt) => (.error e, rt)
  | (.ok (), rt) =>
  match rt.checkpoint call.checkpointStamp with
  | (cp, rt) =>
  match rt.reviseAndPropagate call with
  | (.error e, rt) => (.error (.core e), rt)
  | (.ok (fast, contradicted), rt) =>
  match rt.postUpdate call cp beliefKey with
  | (.error e, rt) => (.error e, rt)
  | (.ok _, rt) => rt.finishUpdate call fast contradicted

/-! ## what an update does to the quad -/

variable (rt : BeliefRuntime M G) (call : UpdateCall)

/-- the call is not refused before its revision -/
def Admits : Prop :=
  rt.contractEngine.preUpdate rt.quad (rt.keyOf call.id) "system" = .ok () ∧
    rt.trackTokens.1 = .ok ()

/-- the revision section of the call, on the quad with the call's checkpoint -/
def revision : Except BeliefRevisionError (ℚ × Bool) × BeliefRuntime M G :=
  (rt.trackTokens.2.checkpoint call.checkpointStamp).2.reviseAndPropagate call

/-- the quad the invariants of the contracts are evaluated on -/
def revisedQuad : BeliefQuad M G := (rt.revision call).2.quad

/-- the contract section of the call -/
def verdict : Except RuntimeError (Option RecoveryOutcome) × ContractEngine M G × BeliefQuad M G :=
  rt.contractEngine.postUpdate (rt.revisedQuad call) (some call.checkpointStamp.uuid)
    (rt.keyOf call.id) "system" call.auditMs

/-- the quad with the checkpoint of the call -/
def checkpointedQuad : BeliefQuad M G :=
  (rt.quad.checkpoint call.checkpointStamp.uuid call.checkpointStamp.nowMs).2

/-- the revision section: a revision that fails is left as it is, one that goes through is
propagated -/
theorem reviseAndPropagate_cases :
    (∃ e, (call.revise rt.quad).1 = .error e ∧ (rt.reviseAndPropagate call).1 = .error e ∧
      (rt.reviseAndPropagate call).2.quad = (call.revise rt.quad).2) ∨
    (∃ record out, (call.revise rt.quad).1 = .ok record ∧
      (rt.reviseAndPropagate call).1 = .ok out ∧
      (rt.reviseAndPropagate call).2.quad = (call.revise rt.quad).2.propagateSystem1
        call.propagationNow call.propagationOrder call.id) := by
  unfold reviseAndPropagate
  rcases call.revise rt.quad with ⟨e | record, quad⟩
  · exact Or.inl ⟨e, rfl, rfl, rfl⟩
  · exact Or.inr ⟨record, _, rfl, rfl, rfl⟩

theorem revision_cases :
    (∃ e, (call.revise (rt.checkpointedQuad call)).1 = .error e ∧ (rt.revision call).1 = .error e ∧
      rt.revisedQuad call = (call.revise (rt.checkpointedQuad call)).2) ∨
    (∃ record out, (call.revise (rt.checkpointedQuad call)).1 = .ok record ∧
      (rt.revision call).1 = .ok out ∧
      rt.revisedQuad call = (call.revise (rt.checkpointedQuad call)).2.propagateSystem1
        call.propagationNow call.propagationOrder call.id) :=
  reviseAndPropagate_cases (rt.trackTokens.2.checkpoint call.checkpointStamp).2 call

/-- the revised quad is the one the revision leaves, but for fast confidences -/
theorem reviseAndPropagate_only : (call.revise rt.quad).2.OnlyConfidences
    (rt.reviseAndPropagate call).2.quad := by
  rcases rt.reviseAndPropagate_cases call with ⟨e, -, -, hq⟩ | ⟨record, out, -, -, hq⟩
  · rw [hq]
    exact .refl _
  · rw [hq]
    exact BeliefQuad.propagate_only _ _ _ _

theorem revisedQuad_only :
    (call.revise (rt.checkpointedQuad call)).2.OnlyConfidences (rt.revisedQuad call) :=
  reviseAndPropagate_only (rt.trackTokens.2.checkpoint call.checkpointStamp).2 call

/-- up to the revised quad a call only appends its checkpoint -/
theorem checkpoints_revisedQuad : (rt.revisedQuad call).checkpoints =
    rt.quad.checkpoints ++
      [rt.quad.capture call.checkpointStamp.uuid call.checkpointStamp.nowMs] := by
  have hrev : (call.revise (rt.checkpointedQuad call)).2.checkpoints =
      (rt.checkpointedQuad call).checkpoints := BeliefQuad.revise_checkpoints _ _ _ _ _ _
  rw [(rt.revisedQuad_only call).checkpoints, hrev]
  rfl

/-- an error of the checks before the revision -/
def Refusal (e : RuntimeError) : Prop :=
  (∃ domain beliefKey, e = .preconditionFailed domain beliefKey) ∨
  (∃ message, e = .sovereigntyViolation message) ∨
  ∃ resource limit used, e = .governanceLimitExceeded resource limit used

theorem preUpdate_refusal {engine : ContractEngine M G} {quad : BeliefQuad M G}
    {beliefKey agentId : String} {e : RuntimeError}
    (h : engine.preUpdate quad beliefKey agentId = .error e) : Refusal e := by
  unfold ContractEngine.preUpdate at h
  cases ha : engine.checkAuth agentId with
  | error e' =>
    rw [ha] at h
    obtain rfl := Except.error.inj h
    unfold ContractEngine.checkAuth at ha
    cases hs : engine.sovereignty with
    | none =>
      rw [hs] at ha
      cases ha
    | some sov =>
      rw [hs] at ha
      cases hw : sov.checkWriteAuth agentId with
      | error message =>
        simp only [hw, Except.mapError] at ha
        exact Or.inr (Or.inl ⟨message, (Except.error.inj ha).symm⟩)
      | ok =>
        simp only [hw, Except.mapError] at ha
        cases ha
  | ok =>
    rw [ha] at h
    simp only at h
    split at h
    · exact Or.inl ⟨_, _, (Except.error.inj h).symm⟩
    · cases h

theorem trackTokens_refusal {e : RuntimeError} (h : rt.trackTokens.1 = .error e) : Refusal e := by
  unfold trackTokens GovernanceTracker.trackTokenUsage at h
  simp only at h
  split at h
  · cases h
  · split at h
    · exact Or.inr (Or.inr ⟨_, _, _, (Except.error.inj h).symm⟩)
    · cases h

theorem reviseAndPropagate_rest : (rt.reviseAndPropagate call).2 =
    { rt with quad := (rt.reviseAndPropagate call).2.quad } := by
  unfold reviseAndPropagate
  split <;> rfl

/-! ## the exits of an update -/

theorem updateBelief_refused {e : RuntimeError}
    (hp : rt.contractEngine.preUpdate rt.quad (rt.keyOf call.id) "system" = .error e) :
    rt.updateBelief call = (.error e, rt) := by
  unfold updateBelief
  simp only [hp]

theorem updateBelief_limited {e : RuntimeError}
    (hp : rt.contractEngine.preUpdate rt.quad (rt.keyOf call.id) "system" = .ok ())
    (ht : rt.trackTokens.1 = .error e) :
    rt.updateBelief call = (.error e, rt.trackTokens.2) := by
  have hpair : rt.trackTokens = (.error e, rt.trackTokens.2) := by rw [← ht]
  unfold updateBelief
  simp only [hp]
  rw [hpair]

/-- an update that is not refused is its revision and what comes after it -/
theorem updateBelief_admitted (ha : rt.Admits call) :
    rt.updateBelief call =
      match rt.revision call with
      | (.error e, rt') => (.error (.core e), rt')
      | (.ok (fast, contradicted), rt') =>
        match rt'.postUpdate call call.checkpointStamp.uuid (rt.keyOf call.id) with
        | (.error e, rt') => (.error e, rt')
        | (.ok _, rt') => rt'.finishUpdate call fast contradicted := by
  have hpair : rt.trackTokens = (.ok (), rt.trackTokens.2) := by rw [← ha.2]
  unfold updateBelief
  simp only [ha.1]
  rw [hpair]
  rfl

/-- the contract section of an admitted update is its verdict -/
theorem postUpdate_revision :
    let r := (rt.revision call).2.postUpdate call call.checkpointStamp.uuid (rt.keyOf call.id)
    r.1 = (rt.verdict call).1 ∧ r.2.quad = (rt.verdict call).2.2 := by
  have hrest := reviseAndPropagate_rest (rt.trackTokens.2.checkpoint call.checkpointStamp).2 call
  have hengine : (rt.revision call).2.contractEngine = rt.contractEngine :=
    (congrArg BeliefRuntime.contractEngine hrest).trans rfl
  unfold postUpdate verdict revisedQuad
  rw [hengine]
  exact ⟨rfl, rfl⟩

/-- the part after the contract section leaves the quad alone, and returns no error of its own -/
theorem finish_of_postUpdate (r : Except RuntimeError (Option RecoveryOutcome) × BeliefRuntime M G)
    (call : UpdateCall) (fast : ℚ) (contradicted : Bool) :
    let out : Except RuntimeError RuntimeUpdateResult × BeliefRuntime M G :=
      match r with
      | (.error e, rt) => (.error e, rt)
      | (.ok _, rt) => rt.finishUpdate call fast contradicted
    out.2.quad = r.2.quad ∧ ∀ e, out.1 = .error e ↔ r.1 = .error e := by
  rcases r with ⟨e | outcome, rt⟩
  · refine ⟨rfl, fun e' => ?_⟩
    show Except.error e = Except.error e' ↔ Except.error e = Except.error e'
    rw [Except.error.injEq, Except.error.injEq]
  · obtain ⟨result, history, hok⟩ := finishUpdate_ok rt call fast contradicted
    show (rt.finishUpdate call fast contradicted).2.quad = rt.quad ∧ _
    rw [hok]
    exact ⟨rfl, fun e => iff_of_false (fun h => nomatch h) (fun h => nomatch h)⟩

/-- **everything an update that runs alone can do to the quad and return**: it is refused; its
revision fails; or the contracts decide -/
theorem updateBelief_cases :
    (¬ rt.Admits call ∧ (rt.updateBelief call).2.quad = rt.quad ∧
      ∃ e, Refusal e ∧ (rt.updateBelief call).1 = .error e) ∨
    (rt.Admits call ∧ (rt.updateBelief call).2.quad = rt.revisedQuad call ∧
      ∃ e, (rt.revision call).1 = .error e ∧ (rt.updateBelief call).1 = .error (.core e)) ∨
    (rt.Admits call ∧ (∃ out, (rt.revision call).1 = .ok out) ∧
      (rt.updateBelief call).2.quad = (rt.verdict call).2.2 ∧
      ∀ e, (rt.updateBelief call).1 = .error e ↔ (rt.verdict call).1 = .error e) := by
  cases hp : rt.contractEngine.preUpdate rt.quad (rt.keyOf call.id) "system" with
  | error e =>
    have hna : ¬ rt.Admits call := by
      intro ha
      rw [ha.1] at hp
      cases hp
    rw [updateBelief_refused rt call hp]
    exact Or.inl ⟨hna, rfl, e, preUpdate_refusal hp, rfl⟩
  | ok =>
    cases ht : rt.trackTokens.1 with
    | error e =>
      have hna : ¬ rt.Admits call := by
        intro ha
        rw [ha.2] at ht
        cases ht
      rw [updateBelief_limited rt call hp ht]
      exact Or.inl ⟨hna, rfl, e, trackTokens_refusal rt ht, rfl⟩
    | ok =>
      right
      have ha : rt.Admits call := ⟨hp, ht⟩
      obtain ⟨hres, hquad⟩ := rt.postUpdate_revision call
      rw [updateBelief_admitted rt call ha]
      rcases hv : rt.revision call with ⟨e | ⟨fast, contradicted⟩, rt'⟩
      · have hquad : rt.revisedQuad call = rt'.quad := by
          unfold revisedQuad
          rw [hv]
        rw [hquad]
        exact Or.inl ⟨ha, rfl, e, rfl, rfl⟩
      · right
        refine ⟨ha, ⟨(fast, contradicted), rfl⟩, ?_⟩
        rw [hv] at hres hquad
        obtain ⟨hkept, herror⟩ := finish_of_postUpdate
          (rt'.postUpdate call call.checkpointStamp.uuid (rt.keyOf call.id)) call fast contradicted
        rw [← hres]
        exact ⟨hkept.trans hquad, herror⟩

end
end BeliefRuntime

/-! ## an update, one lock section at a time -/

/-- the section a call is about to enter, and what it carries there -/
inductive UpdatePc where
  | start
  | preUpdate (beliefKey : String)
  | trackTokens (beliefKey : String)
  | checkpoint (beliefKey : String)
  | revise (beliefKey : String) (cp : CheckpointId)
  | postUpdate (beliefKey : String) (cp : CheckpointId) (fast : ℚ) (contradicted : Bool)
  | markCorrect (fast : ℚ)
  | readTau (fast : ℚ)
  | readSignal (fast : ℚ)
  | pushHistory (fast : ℚ) (result : RuntimeUpdateResult)
  | done (result : Except RuntimeError RuntimeUpdateResult)

section
variable {M : Type → Type} {G : Type → Type → Type} [SlotMap M] [StableDiGraph G] [Platform]

def lockSection (call : UpdateCall) (rt : BeliefRuntime M G) :
    UpdatePc → BeliefRuntime M G × UpdatePc
  | .start => (rt, .preUpdate (rt.keyOf call.id))
  | .preUpdate beliefKey =>
    match rt.contractEngine.preUpdate rt.quad beliefKey "system" with
    | .error e => (rt, .done (.error e))
    | .ok () => (rt, .trackTokens beliefKey)
  | .trackTokens beliefKey =>
    match rt.trackTokens with
    | (.error e, rt) => (rt, .done (.error e))
    | (.ok (), rt) => (rt, .checkpoint beliefKey)
  | .checkpoint beliefKey =>
    match rt.checkpoint call.checkpointStamp with
    | (cp, rt) => (rt, .revise beliefKey cp)
  | .revise beliefKey cp =>
    match rt.reviseAndPropagate call with
    | (.error e, rt) => (rt, .done (.error (.core e)))
    | (.ok (fast, contradicted), rt) => (rt, .postUpdate beliefKey cp fast contradicted)
  | .postUpdate beliefKey cp fast contradicted =>
    match rt.postUpdate call cp beliefKey with
    | (.error e, rt) => (rt, .done (.error e))
    | (.ok _, rt) => (rt, if contradicted then .markCorrect fast else .readTau fast)
  | .markCorrect fast => (rt.markIncorrect call.id, .readTau fast)
  | .readTau fast =>
    (rt, if rt.activates call.id fast then .readSignal fast else .pushHistory fast .system1Only)
  | .readSignal fast => (rt, .pushHistory fast (.system2Pending (rt.signal call.id fast)))
  | .pushHistory fast result => (rt.pushHistory call fast, .done (.ok result))
  | .done result => (rt, .done result)

/-- what a section does to the runtime, whatever it returns -/
theorem lockSection_fst (call : UpdateCall) (rt : BeliefRuntime M G) (pc : UpdatePc) :
    (lockSection call rt pc).1 =
      match pc with
      | .trackTokens _ => rt.trackTokens.2
      | .checkpoint _ => (rt.checkpoint call.checkpointStamp).2
      | .revise _ _ => (rt.reviseAndPropagate call).2
      | .postUpdate beliefKey cp _ _ => (rt.postUpdate call cp beliefKey).2
      | .markCorrect _ => rt.markIncorrect call.id
      | .pushHistory fast _ => rt.pushHistory call fast
      | _ => rt := by
  cases pc with
  | preUpdate beliefKey =>
    simp only [lockSection]
    split <;> rfl
  | trackTokens beliefKey =>
    simp only [lockSection]
    rcases rt.trackTokens with ⟨_ | _, rt'⟩ <;> rfl
  | revise beliefKey cp =>
    simp only [lockSection]
    rcases rt.reviseAndPropagate call with ⟨_ | _, rt'⟩ <;> rfl
  | postUpdate beliefKey cp fast contradicted =>
    simp only [lockSection]
    rcases rt.postUpdate call cp beliefKey with ⟨_ | _, rt'⟩ <;> rfl
  | _ => rfl

/-- no section of an update writes the key index -/
theorem lockSection_keyIndex (call : UpdateCall) (rt : BeliefRuntime M G) (pc : UpdatePc) :
    (lockSection call rt pc).1.keyIndex = rt.keyIndex := by
  rw [lockSection_fst]
  cases pc with
  | revise beliefKey cp =>
    show (rt.reviseAndPropagate call).2.keyIndex = rt.keyIndex
    rw [rt.reviseAndPropagate_rest]
  | _ => rfl

/-- `n` sections without interruption -/
def lockSections (call : UpdateCall) : Nat → BeliefRuntime M G × UpdatePc →
    BeliefRuntime M G × UpdatePc
  | 0, s => s
  | n + 1, s => lockSections call n (lockSection call s.1 s.2)

@[simp] theorem lockSections_done (call : UpdateCall) (n : Nat) (rt : BeliefRuntime M G)
    (result : Except RuntimeError RuntimeUpdateResult) :
    lockSections call n (rt, .done result) = (rt, .done result) := by
  induction n with
  | zero => rfl
  | succ n ih => exact ih

theorem lockSections_succ (call : UpdateCall) (n : Nat) (s : BeliefRuntime M G × UpdatePc) :
    lockSections call (n + 1) s = lockSections call n (lockSection call s.1 s.2) := rfl

/-- the part after the contracts -/
theorem lockSections_readTau (call : UpdateCall) (n : Nat) (rt : BeliefRuntime M G) (fast : ℚ) :
    lockSections call (n + 3) (rt, .readTau fast) =
      (rt.pushHistory call fast, .done (.ok (if rt.activates call.id fast then
        .system2Pending (rt.signal call.id fast) else .system1Only))) := by
  rw [lockSections_succ]
  show lockSections call (n + 2) (rt, if rt.activates call.id fast then .readSignal fast
    else .pushHistory fast .system1Only) = _
  split
  · exact lockSections_done call n _ _
  · exact lockSections_done call (n + 1) _ _

/-- **a call whose lock sections run without interruption is `updateBelief`** -/
theorem lockSections_alone (call : UpdateCall) (rt : BeliefRuntime M G) :
    lockSections call 10 (rt, .start) =
      ((rt.updateBelief call).2, .done (rt.updateBelief call).1) := by
  unfold BeliefRuntime.updateBelief
  rw [lockSections_succ, lockSections_succ]
  simp only [lockSection]
  cases rt.contractEngine.preUpdate rt.quad (rt.keyOf call.id) "system" with
  | error e => exact lockSections_done call 8 rt _
  | ok =>
    rw [lockSections_succ]
    simp only [lockSection]
    rcases rt.trackTokens with ⟨_ | _, rt₁⟩
    · exact lockSections_done call 7 rt₁ _
    · rw [lockSections_succ, lockSections_succ]
      simp only [lockSection]
      rcases (rt₁.checkpoint call.checkpointStamp) with ⟨cp, rt₂⟩
      simp only
      rcases rt₂.reviseAndPropagate call with ⟨_ | ⟨fast, contradicted⟩, rt₃⟩
      · exact lockSections_done call 5 rt₃ _
      · rw [lockSections_succ]
        simp only [lockSection]
        rcases rt₃.postUpdate call cp (rt.keyOf call.id) with ⟨_ | _, rt₄⟩
        · exact lockSections_done call 4 rt₄ _
        · cases contradicted with
          | true => exact lockSections_readTau call 0 (rt₄.markIncorrect call.id) fast
          | false => exact lockSections_readTau call 1 rt₄ fast

/-- what every section keeps, an update that runs alone keeps -/
theorem updateBelief_induction (call : UpdateCall) (Inv : BeliefRuntime M G → Prop)
    (hstep : ∀ rt pc, Inv rt → Inv (lockSection call rt pc).1) {rt : BeliefRuntime M G}
    (h : Inv rt) : Inv (rt.updateBelief call).2 := by
  have hrun : ∀ n s, Inv s.1 → Inv (lockSections call n s).1 := by
    intro n
    induction n with
    | zero => exact fun s hs => hs
    | succ n ih => exact fun s hs => ih _ (hstep s.1 s.2 hs)
  have h10 := hrun 10 (rt, .start) h
  rw [lockSections_alone] at h10
  exact h10

theorem updateBelief_keyIndex (rt : BeliefRuntime M G) (call : UpdateCall) :
    (rt.updateBelief call).2.keyIndex = rt.keyIndex :=
  updateBelief_induction call (fun rt' => rt'.keyIndex = rt.keyIndex)
    (fun rt' pc h => (lockSection_keyIndex call rt' pc).trans h) rfl

end
end Epica
