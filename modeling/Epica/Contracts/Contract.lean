import Epica.Core.Checkpoint

/-!
# Behavioral contracts and sovereignty

A contract is preconditions, invariants with a severity, governance limits and a recovery policy.
Predicates are arbitrary functions of a quad; `BeliefExists` and `MinConfidence` are the two the
configuration builds.  Of sovereignty: write authorization, recovery verification and the audit.
-/

set_option linter.unusedSectionVars false

namespace Epica
open Lib

variable (M : Type → Type) (G : Type → Type → Type)

/-! ## predicates -/

structure BeliefPredicate where
  evaluate : BeliefQuad M G → Bool
  description : String

section
variable [SlotMap M] [StableDiGraph G]

def BeliefExists (key : String) : BeliefPredicate M G where
  evaluate quad := (SlotMap.iter quad.nodes).any fun e => e.2.key = key
  description := key

/-- of several beliefs with one key the first one counts -/
def MinConfidence (key : String) (threshold : ℚ) : BeliefPredicate M G where
  evaluate quad :=
    match (SlotMap.iter quad.nodes).find? fun e => e.2.key = key with
    | some e => threshold ≤ e.2.fastConfidence
    | none => false
  description := key

end

/-! ## invariants and recovery -/

inductive ViolationClass where
  /-- logged only -/
  | soft
  /-- runs the recovery policy -/
  | hard
  /-- halts the update -/
  | critical
deriving DecidableEq

structure SessionInvariant where
  predicate : BeliefPredicate M G
  violationClass : ViolationClass

structure ContractViolation where
  invariantDescription : String
  violationClass : ViolationClass
  atVersion : Nat
  lastValidCheckpoint : Option CheckpointId

inductive RecoveryPolicy where
  | rollbackToLastCheckpoint
  | rollbackToVersion (targetVersion : Nat)
  | emitCausalDiffAndHalt
  | degradeAndContinue (minConfidence : ℚ)
  | rollbackToCheckpoint (id : CheckpointId)

structure GovernancePolicies where
  maxTokensPerSession : Option Nat
  maxToolCallsPerBelief : Option Nat
  /-- the keys that need a human's approval -/
  requireHumanApproval : List String

structure BehavioralContract where
  domain : String
  preconditions : List (BeliefPredicate M G)
  invariants : List (SessionInvariant M G)
  governance : GovernancePolicies
  recovery : RecoveryPolicy

variable {M G}

namespace BehavioralContract

def checkPreconditions (contract : BehavioralContract M G) (quad : BeliefQuad M G) : Bool :=
  contract.preconditions.all fun p => p.evaluate quad

/-- every failing invariant, of whatever severity, in the order of the contract -/
def collectAllViolations (contract : BehavioralContract M G) (quad : BeliefQuad M G)
    (lastCheckpoint : Option CheckpointId) : List ContractViolation :=
  contract.invariants.filterMap fun inv =>
    if !inv.predicate.evaluate quad then some {
      invariantDescription := inv.predicate.description
      violationClass := inv.violationClass
      atVersion := quad.version
      lastValidCheckpoint := lastCheckpoint }
    else none

/-- **what is collected: the failing invariants** -/
theorem mem_collectAllViolations {contract : BehavioralContract M G} {quad : BeliefQuad M G}
    {lastCheckpoint : Option CheckpointId} {v : ContractViolation} :
    v ∈ contract.collectAllViolations quad lastCheckpoint ↔
      ∃ inv ∈ contract.invariants, inv.predicate.evaluate quad = false ∧
        v = ⟨inv.predicate.description, inv.violationClass, quad.version, lastCheckpoint⟩ := by
  unfold collectAllViolations
  rw [List.mem_filterMap]
  refine exists_congr fun inv => and_congr_right fun _ => ?_
  cases inv.predicate.evaluate quad with
  | false => exact ⟨fun h => ⟨rfl, (Option.some.inj h).symm⟩, fun h => congrArg some h.2.symm⟩
  | true => exact ⟨fun h => (nomatch h), fun h => (nomatch h.1)⟩

/-- every violation refers to the checkpoint it was collected with -/
theorem lastValidCheckpoint_of_mem {contract : BehavioralContract M G} {quad : BeliefQuad M G}
    {lastCheckpoint : Option CheckpointId} {v : ContractViolation}
    (h : v ∈ contract.collectAllViolations quad lastCheckpoint) :
    v.lastValidCheckpoint = lastCheckpoint := by
  obtain ⟨inv, -, -, rfl⟩ := mem_collectAllViolations.mp h
  rfl

end BehavioralContract

/-! ## sovereignty -/

inductive AllowedAgents where
  | any
  | allowlist (ids : List String)
  | denylist (ids : List String)
  | humanApprovalRequired

structure AuthPolicy where
  allowedAgents : AllowedAgents

def AuthPolicy.allows (policy : AuthPolicy) (agentId : String) : Bool :=
  match policy.allowedAgents with
  | .any => true
  | .allowlist ids => ids.any (· = agentId)
  | .denylist ids => !ids.any (· = agentId)
  | .humanApprovalRequired => false

inductive AuditEventType where
  | beliefWrite
  | beliefUpdate
  | beliefRead
  | beliefForgotten
  | contractViolation
  | recoveryExecuted
  | authDenied
deriving DecidableEq

structure AuditEntry where
  timestampMs : Nat
  eventType : AuditEventType
  beliefKey : Option String
  agentId : Option String
  details : Json
deriving DecidableEq

/-- the entries emitted so far, in order; an attached ledger seals the same entries -/
structure AuditPolicy where
  emitted : List AuditEntry

def AuditPolicy.emit (policy : AuditPolicy) (entry : AuditEntry) : AuditPolicy :=
  ⟨policy.emitted ++ [entry]⟩

inductive RecoveryVerificationResult where
  | verified
  | failed (reason : String)

structure MnemonicSovereignty (M : Type → Type) (G : Type → Type → Type) where
  /-- who may insert new beliefs -/
  writeAuth : AuthPolicy
  /-- who may read beliefs -/
  readAuth : AuthPolicy
  /-- who may revise existing beliefs -/
  updateAuth : AuthPolicy
  audit : AuditPolicy
  /-- who may revert the state via a checkpoint -/
  rollbackAuth : AuthPolicy
  /-- the check after a recovery -/
  verifyRecovery : BeliefQuad M G → RecoveryVerificationResult

/-- the error is the text of a `SovereigntyViolation` -/
def MnemonicSovereignty.checkWriteAuth (sov : MnemonicSovereignty M G) (agentId : String) :
    Except String Unit :=
  if sov.writeAuth.allows agentId then .ok ()
  else .error s!"sovereignty violation: write_auth denied for agent '{agentId}'"

def MnemonicSovereignty.emitAudit (sov : MnemonicSovereignty M G) (entry : AuditEntry) :
    MnemonicSovereignty M G :=
  { sov with audit := sov.audit.emit entry }

end Epica
