import Epica.Contracts.Contract

/-!
# Contracts from a configuration

A contract file lists preconditions and invariants by belief key; `fromConfig` makes predicates of
them.  The recovery of such a contract is always the rollback to the last checkpoint.
-/

set_option linter.unusedSectionVars false

namespace Epica
open Lib

inductive PreconditionConfig where
  | minConfidence (key : String) (minConfidence : ℚ)
  | exists (key : String)

structure InvariantConfig where
  key : String
  minConfidence : ℚ
  /-- `soft`, `hard` or `critical` -/
  severity : String

structure ContractConfig where
  domain : String
  preconditions : List PreconditionConfig
  invariants : List InvariantConfig
  governance : GovernancePolicies

/-- whatever is neither `soft` nor `critical` is hard -/
def InvariantConfig.violationClass (inv : InvariantConfig) : ViolationClass :=
  if inv.severity = "soft" then .soft
  else if inv.severity = "critical" then .critical
  else .hard

section
variable {M : Type → Type} {G : Type → Type → Type} [SlotMap M] [StableDiGraph G]

def PreconditionConfig.predicate : PreconditionConfig → BeliefPredicate M G
  | .minConfidence key threshold => MinConfidence M G key threshold
  | .exists key => BeliefExists M G key

def InvariantConfig.invariant (inv : InvariantConfig) : SessionInvariant M G where
  predicate := MinConfidence M G inv.key inv.minConfidence
  violationClass := inv.violationClass

def BehavioralContract.fromConfig (cfg : ContractConfig) : BehavioralContract M G where
  domain := cfg.domain
  preconditions := cfg.preconditions.map PreconditionConfig.predicate
  invariants := cfg.invariants.map InvariantConfig.invariant
  governance := cfg.governance
  recovery := .rollbackToLastCheckpoint

end
end Epica
