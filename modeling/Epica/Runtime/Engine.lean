import Epica.Lib.TryFold
import Epica.Contracts.Contract
import Epica.Core.Revision
import Epica.Core.System1

/-!
# The contract engine

`preUpdate` checks authorization and preconditions; `postUpdate` looks for violated invariants on
the revised quad, runs the recovery policy of the first hard one and halts at the first critical
one.

* `executeRecovery_cases`   a recovery restores a checkpoint, or raises confidences, or fails and
                            leaves the quad alone;
* `postUpdate_cases`        the quad only depends on the first violation that is not soft.
-/

set_option linter.unusedSectionVars false

namespace Epica
open Lib

inductive RuntimeError where
  | core (error : BeliefRevisionError)
  | preconditionFailed (domain beliefKey : String)
  | contractHalt (domain invariant : String) (atVersion : Nat)
  | sovereigntyViolation (message : String)
  | governanceLimitExceeded (resource : String) (limit used : Nat)
  /-- the text is `message`, and then the `Debug` text of `cause` -/
  | recoveryFailed (message : String) (cause : Option RollbackError)

structure ViolationLog where
  soft : List ContractViolation
  hard : List ContractViolation
  critical : List ContractViolation
  recoveryActionsTaken : Nat

def ViolationLog.default : ViolationLog := ⟨[], [], [], 0⟩

structure RecoveryOutcome where
  violation : ContractViolation
  diff : Option BeliefQuadDiff
  recoveryApplied : RecoveryPolicy
  verification : RecoveryVerificationResult

structure ContractEngine (M : Type → Type) (G : Type → Type → Type) where
  contracts : List (BehavioralContract M G)
  sovereignty : Option (MnemonicSovereignty M G)
  violationLog : ViolationLog

variable {M : Type → Type} {G : Type → Type → Type} [SlotMap M] [StableDiGraph G]

/-! ## recovery -/

def rollbackRecovery (quad : BeliefQuad M G) (policy : RecoveryPolicy) (cp : CheckpointId) :
    Except RuntimeError (Option BeliefQuadDiff × RecoveryPolicy) × BeliefQuad M G :=
  match quad.rollbackTo cp with
  | (.ok diff, quad) => (.ok (some diff, policy), quad)
  | (.error e, quad) => (.error (.recoveryFailed "rollback: " (some e)), quad)

/-- of the checkpoints at or before `targetVersion` the newest one, the last if there are several -/
def checkpointAtOrBefore (quad : BeliefQuad M G) (targetVersion : Nat) : Option CheckpointId :=
  ((quad.checkpoints.filter fun c => c.version ≤ targetVersion).reverse.argmax
    fun c => c.version).map fun c => c.id

def raiseFloor (floor : ℚ) (quad : BeliefQuad M G) (ids : List BeliefId) : BeliefQuad M G :=
  ids.foldl (fun quad id => quad.modify id fun n =>
    { n with fastConfidence := if n.fastConfidence < floor then floor else n.fastConfidence }) quad

def executeRecovery (quad : BeliefQuad M G) (violation : ContractViolation)
    (policy : RecoveryPolicy) :
    Except RuntimeError (Option BeliefQuadDiff × RecoveryPolicy) × BeliefQuad M G :=
  match policy with
  | .rollbackToLastCheckpoint =>
    match violation.lastValidCheckpoint with
    | none =>
      (.error (.recoveryFailed "RollbackToLastCheckpoint: no checkpoint available" none), quad)
    | some cp => rollbackRecovery quad policy cp
  | .rollbackToCheckpoint cp => rollbackRecovery quad policy cp
  | .rollbackToVersion targetVersion =>
    match checkpointAtOrBefore quad targetVersion with
    | none =>
      (.error (.recoveryFailed s!"no checkpoint at or before version {targetVersion}" none), quad)
    | some cp => rollbackRecovery quad policy cp
  | .degradeAndContinue minConfidence =>
    (.ok (none, policy), raiseFloor minConfidence quad ((SlotMap.iter quad.nodes).map Prod.fst))
  | .emitCausalDiffAndHalt =>
    -- the diff against the last checkpoint is traced, not returned
    (.error (.contractHalt "EmitCausalDiffAndHalt" violation.invariantDescription
      violation.atVersion), quad)

/-- the checkpoint a recovery rolls back to -/
def recoveryTarget (quad : BeliefQuad M G) (violation : ContractViolation) :
    RecoveryPolicy → Option CheckpointId
  | .rollbackToLastCheckpoint => violation.lastValidCheckpoint
  | .rollbackToCheckpoint cp => some cp
  | .rollbackToVersion targetVersion => checkpointAtOrBefore quad targetVersion
  | .degradeAndContinue _ => none
  | .emitCausalDiffAndHalt => none

/-- the recovery of `violation` rolls `quad` back to `snap` -/
def Restores (quad : BeliefQuad M G) (violation : ContractViolation) (policy : RecoveryPolicy)
    (snap : BeliefQuad M G) : Prop :=
  ∃ cp, recoveryTarget quad violation policy = some cp ∧ quad.RollsBack cp snap

theorem rollbackRecovery_cases (quad : BeliefQuad M G) (policy : RecoveryPolicy)
    (cp : CheckpointId) :
    (∃ snap, quad.RollsBack cp snap ∧
      rollbackRecovery quad policy cp = (.ok (some (quad.diff snap), policy), snap)) ∨
    ((∀ snap, ¬ quad.RollsBack cp snap) ∧
      ∃ e, rollbackRecovery quad policy cp = (.error (.recoveryFailed "rollback: " (some e)),
        quad)) := by
  unfold rollbackRecovery
  rcases quad.rollbackTo_cases cp with ⟨hn, e⟩ | ⟨c, hf, hd, e⟩ | ⟨snap, hs, e⟩
  · refine Or.inr ⟨fun snap hs => ?_, .checkpointNotFound cp, by rw [e]⟩
    rw [hs.eq] at e
    cases e
  · refine Or.inr ⟨fun snap hs => ?_, .unnecessaryContraction (quad.diff c.quad), by rw [e]⟩
    rw [hs.eq] at e
    cases e
  · exact Or.inl ⟨snap, hs, by rw [e]⟩

section
variable [Platform]

theorem raiseFloor_only (floor : ℚ) (quad : BeliefQuad M G) (ids : List BeliefId) :
    quad.OnlyConfidences (raiseFloor floor quad ids) := by
  induction ids generalizing quad with
  | nil => exact .refl quad
  | cons id ids ih => exact (BeliefQuad.modify_only quad id _).trans (ih _)

/-- what a failed recovery reports -/
def FailedRecovery (violation : ContractViolation) (policy : RecoveryPolicy) (e : RuntimeError) :
    Prop :=
  (policy = .emitCausalDiffAndHalt ∧ e = .contractHalt "EmitCausalDiffAndHalt"
    violation.invariantDescription violation.atVersion) ∨
  ∃ message cause, e = .recoveryFailed message cause

/-- the policies that roll back share their last step -/
theorem rolled_cases (quad : BeliefQuad M G) (violation : ContractViolation)
    (policy : RecoveryPolicy) {cp : CheckpointId}
    (ht : recoveryTarget quad violation policy = some cp)
    (hexec : executeRecovery quad violation policy = rollbackRecovery quad policy cp) :
    (∃ snap, Restores quad violation policy snap ∧
      executeRecovery quad violation policy = (.ok (some (quad.diff snap), policy), snap)) ∨
    (∃ e, FailedRecovery violation policy e ∧ (∀ snap, ¬ Restores quad violation policy snap) ∧
      executeRecovery quad violation policy = (.error e, quad)) := by
  rw [hexec]
  rcases rollbackRecovery_cases quad policy cp with ⟨snap, hs, e⟩ | ⟨hno, e, he⟩
  · exact Or.inl ⟨snap, ⟨cp, ht, hs⟩, e⟩
  · refine Or.inr ⟨_, Or.inr ⟨_, _, rfl⟩, ?_, he⟩
    intro snap hp
    obtain ⟨cp', ht', hs⟩ := hp
    obtain rfl := Option.some.inj (ht.symm.trans ht')
    exact hno snap hs

theorem not_restores_of_none {quad : BeliefQuad M G} {violation : ContractViolation}
    {policy : RecoveryPolicy} (ht : recoveryTarget quad violation policy = none)
    (snap : BeliefQuad M G) : ¬ Restores quad violation policy snap := by
  intro hp
  obtain ⟨cp, ht', -⟩ := hp
  rw [ht] at ht'
  cases ht'

/-- a policy that finds no checkpoint fails -/
theorem missed_case (quad : BeliefQuad M G) (violation : ContractViolation)
    (policy : RecoveryPolicy) (ht : recoveryTarget quad violation policy = none)
    (hexec : ∃ message, executeRecovery quad violation policy =
      (.error (.recoveryFailed message none), quad)) :
    ∃ e, FailedRecovery violation policy e ∧ (∀ snap, ¬ Restores quad violation policy snap) ∧
      executeRecovery quad violation policy = (.error e, quad) := by
  obtain ⟨message, he⟩ := hexec
  exact ⟨.recoveryFailed message none, Or.inr ⟨message, none, rfl⟩, not_restores_of_none ht, he⟩

/-- **everything a recovery can do** -/
theorem executeRecovery_cases (quad : BeliefQuad M G) (violation : ContractViolation)
    (policy : RecoveryPolicy) :
    (∃ snap, Restores quad violation policy snap ∧
      executeRecovery quad violation policy = (.ok (some (quad.diff snap), policy), snap)) ∨
    (∃ floor quad', policy = .degradeAndContinue floor ∧ quad.OnlyConfidences quad' ∧
      executeRecovery quad violation policy = (.ok (none, policy), quad')) ∨
    (∃ e, FailedRecovery violation policy e ∧ (∀ snap, ¬ Restores quad violation policy snap) ∧
      executeRecovery quad violation policy = (.error e, quad)) := by
  cases policy with
  | rollbackToLastCheckpoint =>
    cases h : violation.lastValidCheckpoint with
    | none =>
      refine Or.inr (Or.inr (missed_case quad violation _ h ?_))
      simp only [executeRecovery, h]
      exact ⟨_, rfl⟩
    | some cp =>
      refine (rolled_cases quad violation .rollbackToLastCheckpoint h ?_).imp_right Or.inr
      simp only [executeRecovery, h]
  | rollbackToCheckpoint cp =>
    exact (rolled_cases quad violation (.rollbackToCheckpoint cp) rfl rfl).imp_right Or.inr
  | rollbackToVersion targetVersion =>
    cases h : checkpointAtOrBefore quad targetVersion with
    | none =>
      refine Or.inr (Or.inr (missed_case quad violation _ h ?_))
      simp only [executeRecovery, h]
      exact ⟨_, rfl⟩
    | some cp =>
      refine (rolled_cases quad violation (.rollbackToVersion targetVersion) h ?_).imp_right Or.inr
      simp only [executeRecovery, h]
  | degradeAndContinue minConfidence =>
    exact Or.inr (Or.inl ⟨minConfidence, _, rfl, raiseFloor_only minConfidence quad _, rfl⟩)
  | emitCausalDiffAndHalt =>
    exact Or.inr (Or.inr ⟨_, Or.inl ⟨rfl, rfl⟩, not_restores_of_none rfl, rfl⟩)

end

/-- a recovery that rolls back leaves the restored quad -/
theorem Restores.eq {quad snap : BeliefQuad M G} {violation : ContractViolation}
    {policy : RecoveryPolicy} (h : Restores quad violation policy snap) :
    executeRecovery quad violation policy = (.ok (some (quad.diff snap), policy), snap) := by
  obtain ⟨cp, ht, hs⟩ := h
  have hroll : rollbackRecovery quad policy cp = (.ok (some (quad.diff snap), policy), snap) := by
    unfold rollbackRecovery
    rw [hs.eq]
  cases policy with
  | rollbackToLastCheckpoint =>
    have ht' : violation.lastValidCheckpoint = some cp := ht
    simp only [executeRecovery, ht', hroll]
  | rollbackToCheckpoint id =>
    obtain rfl := Option.some.inj ht
    exact hroll
  | rollbackToVersion targetVersion =>
    have ht' : checkpointAtOrBefore quad targetVersion = some cp := ht
    simp only [executeRecovery, ht', hroll]
  | degradeAndContinue minConfidence => cases ht
  | emitCausalDiffAndHalt => cases ht

/-! ## before the revision -/

namespace ContractEngine

/-- the sovereignty part of `preUpdate` -/
def checkAuth (engine : ContractEngine M G) (agentId : String) : Except RuntimeError Unit :=
  match engine.sovereignty with
  | none => .ok ()
  | some sov => (sov.checkWriteAuth agentId).mapError .sovereigntyViolation

def preUpdate (engine : ContractEngine M G) (quad : BeliefQuad M G) (beliefKey agentId : String) :
    Except RuntimeError Unit :=
  match engine.checkAuth agentId with
  | .error e => .error e
  | .ok () =>
    match engine.contracts.find? fun contract => !contract.checkPreconditions quad with
    | some contract => .error (.preconditionFailed contract.domain beliefKey)
    | none => .ok ()

end ContractEngine

/-! ## after the revision -/

/-- the state of one `postUpdate`: `sawHard` is per contract, the rest is per call -/
structure PostUpdate (M : Type → Type) (G : Type → Type → Type) where
  quad : BeliefQuad M G
  violationLog : ViolationLog
  outcome : Option RecoveryOutcome
  sawHard : Bool

def ViolationLog.pushSoft (log : ViolationLog) (v : ContractViolation) : ViolationLog :=
  { log with soft := log.soft ++ [v] }
def ViolationLog.pushHard (log : ViolationLog) (v : ContractViolation) : ViolationLog :=
  { log with hard := log.hard ++ [v] }
def ViolationLog.pushCritical (log : ViolationLog) (v : ContractViolation) : ViolationLog :=
  { log with critical := log.critical ++ [v] }
def ViolationLog.countRecovery (log : ViolationLog) : ViolationLog :=
  { log with recoveryActionsTaken := log.recoveryActionsTaken + 1 }

/-- the body of the loop over the violations of one contract -/
def handleViolation (sovereignty : Option (MnemonicSovereignty M G))
    (contract : BehavioralContract M G) (s : PostUpdate M G) (violation : ContractViolation) :
    Except RuntimeError Unit × PostUpdate M G :=
  match violation.violationClass with
  | .soft => (.ok (), { s with violationLog := s.violationLog.pushSoft violation })
  | .hard =>
    if !s.sawHard && s.outcome.isNone then
      match executeRecovery s.quad violation contract.recovery with
      | (.error e, quad) => (.error e, { s with quad := quad })
      | (.ok (diff, applied), quad) =>
        (.ok (), {
          quad := quad
          violationLog := (s.violationLog.pushHard violation).countRecovery
          outcome := some {
            violation := violation
            diff := diff
            recoveryApplied := applied
            verification := (sovereignty.map fun sov => sov.verifyRecovery quad).getD .verified }
          sawHard := true })
    -- a further hard violation is only logged
    else (.ok (), { s with violationLog := s.violationLog.pushHard violation })
  | .critical =>
    (.error (.contractHalt contract.domain violation.invariantDescription violation.atVersion),
      { s with violationLog := s.violationLog.pushCritical violation })

/-- the body of the loop over the contracts -/
def handleContract (sovereignty : Option (MnemonicSovereignty M G))
    (lastCheckpoint : Option CheckpointId) (s : PostUpdate M G)
    (contract : BehavioralContract M G) : Except RuntimeError Unit × PostUpdate M G :=
  tryFold (handleViolation sovereignty contract) { s with sawHard := false }
    (contract.collectAllViolations s.quad lastCheckpoint)

def ContractEngine.postUpdate (engine : ContractEngine M G) (quad : BeliefQuad M G)
    (lastCheckpoint : Option CheckpointId) (beliefKey agentId : String) (nowMs : Nat) :
    Except RuntimeError (Option RecoveryOutcome) × ContractEngine M G × BeliefQuad M G :=
  match tryFold (handleContract engine.sovereignty lastCheckpoint)
      ⟨quad, engine.violationLog, none, false⟩ engine.contracts with
  | (.error e, s) => (.error e, { engine with violationLog := s.violationLog }, s.quad)
  | (.ok (), s) =>
    let entry : AuditEntry := {
      timestampMs := nowMs
      eventType := .beliefUpdate
      beliefKey := some beliefKey
      agentId := some agentId
      details := .object [("recovery_triggered", .bool s.outcome.isSome)] }
    (.ok s.outcome, { engine with
      violationLog := s.violationLog
      sovereignty := engine.sovereignty.map fun sov => sov.emitAudit entry }, s.quad)

/-! ## the first violation that is not soft -/

def ContractViolation.severe (v : ContractViolation) : Bool := v.violationClass ≠ .soft

def BehavioralContract.firstSevere (contract : BehavioralContract M G) (quad : BeliefQuad M G)
    (lastCheckpoint : Option CheckpointId) : Option ContractViolation :=
  (contract.collectAllViolations quad lastCheckpoint).find? ContractViolation.severe

/-- the first severe violation over all contracts, with its contract -/
def firstSevere (contracts : List (BehavioralContract M G)) (quad : BeliefQuad M G)
    (lastCheckpoint : Option CheckpointId) :
    Option (BehavioralContract M G × ContractViolation) :=
  (contracts.find? fun contract => (contract.firstSevere quad lastCheckpoint).isSome).bind
    fun contract => (contract.firstSevere quad lastCheckpoint).map fun v => (contract, v)

/-- the violations of `quad` call for a recovery that restores `snap` -/
def RecoversTo (contracts : List (BehavioralContract M G)) (quad : BeliefQuad M G)
    (lastCheckpoint : Option CheckpointId) (snap : BeliefQuad M G) : Prop :=
  ∃ contract v, firstSevere contracts quad lastCheckpoint = some (contract, v) ∧
    v.violationClass = .hard ∧ Restores quad v contract.recovery snap

theorem RecoversTo.unique {contracts : List (BehavioralContract M G)} {quad s t : BeliefQuad M G}
    {lastCheckpoint : Option CheckpointId} (hs : RecoversTo contracts quad lastCheckpoint s)
    (ht : RecoversTo contracts quad lastCheckpoint t) : s = t := by
  obtain ⟨contract, v, hv, -, hs⟩ := hs
  obtain ⟨contract', v', hv', -, ht⟩ := ht
  obtain ⟨rfl, rfl⟩ := Prod.mk.inj (Option.some.inj (hv.symm.trans hv'))
  exact (Prod.mk.inj (hs.eq.symm.trans ht.eq)).2

/-- the target of such a recovery is a checkpoint of `quad` -/
theorem RecoversTo.mem {contracts : List (BehavioralContract M G)} {quad snap : BeliefQuad M G}
    {lastCheckpoint : Option CheckpointId} (h : RecoversTo contracts quad lastCheckpoint snap) :
    ∃ cp ∈ quad.checkpoints, cp.quad = snap := by
  obtain ⟨contract, v, -, -, cp, -, hr⟩ := h
  obtain ⟨cp', hm, -, hs⟩ := hr.mem
  exact ⟨cp', hm, hs⟩

def IsHalt (e : RuntimeError) : Prop :=
  ∃ domain invariant atVersion, e = .contractHalt domain invariant atVersion

/-- nothing severe has been met -/
structure Quiet (quad : BeliefQuad M G) (s : PostUpdate M G) : Prop where
  quad : s.quad = quad
  outcome : s.outcome = none
  sawHard : s.sawHard = false

/-- `r` is what follows from meeting the severe violation `v` of `contract` on `quad` first -/
def Grave (quad : BeliefQuad M G) (contract : BehavioralContract M G) (v : ContractViolation)
    (r : Except RuntimeError Unit × PostUpdate M G) : Prop :=
  (v.violationClass = .critical ∧ r.2.quad = quad ∧
    r.1 = .error (.contractHalt contract.domain v.invariantDescription v.atVersion)) ∨
  (v.violationClass = .hard ∧ r.2.quad = quad ∧
    ∃ e, executeRecovery quad v contract.recovery = (.error e, quad) ∧ r.1 = .error e) ∨
  (v.violationClass = .hard ∧ r.2.outcome.isSome ∧
    (∃ out, executeRecovery quad v contract.recovery = (.ok out, r.2.quad)) ∧
    ∀ e, r.1 = .error e → IsHalt e)

section
variable [Platform] {sovereignty : Option (MnemonicSovereignty M G)} {quad : BeliefQuad M G}
  {contract : BehavioralContract M G} {lastCheckpoint : Option CheckpointId}

/-- after a recovery the quad is left alone -/
def Settled (quad : BeliefQuad M G) (s : PostUpdate M G) : Prop :=
  s.quad = quad ∧ s.outcome.isSome

theorem handleViolation_settled {s : PostUpdate M G} (h : Settled quad s)
    (v : ContractViolation) :
    Settled quad (handleViolation sovereignty contract s v).2 ∧
      ∀ e, (handleViolation sovereignty contract s v).1 = .error e → IsHalt e := by
  obtain ⟨hq, ho⟩ := h
  have hcond : ¬ (!s.sawHard && s.outcome.isNone) = true := by
    rw [Bool.and_eq_true, Option.isNone_iff_eq_none]
    intro hp
    obtain ⟨-, hn⟩ := hp
    rw [hn] at ho
    cases ho
  unfold handleViolation
  cases v.violationClass with
  | soft => exact ⟨⟨hq, ho⟩, fun e he => (nomatch he)⟩
  | hard =>
    simp only [if_neg hcond]
    exact ⟨⟨hq, ho⟩, fun e he => (nomatch he)⟩
  | critical => exact ⟨⟨hq, ho⟩, fun e he => ⟨_, _, _, (Except.error.inj he).symm⟩⟩

theorem handleContract_settled {s : PostUpdate M G} (h : Settled quad s)
    (contract : BehavioralContract M G) :
    Settled quad (handleContract sovereignty lastCheckpoint s contract).2 ∧
      ∀ e, (handleContract sovereignty lastCheckpoint s contract).1 = .error e → IsHalt e := by
  have h' : Settled quad { s with sawHard := false } := h
  exact tryFold_induction (handleViolation sovereignty contract) (Settled quad) IsHalt
    (fun _ v hs => (handleViolation_settled hs v).1)
    (fun _ v e hs => (handleViolation_settled hs v).2 e) h' _

/-- what follows from a severe violation does not depend on what comes after it -/
theorem Grave.fold {A : Type} {f : PostUpdate M G → A → Except RuntimeError Unit × PostUpdate M G}
    (hf : ∀ quad' s a, Settled quad' s →
      Settled quad' (f s a).2 ∧ ∀ e, (f s a).1 = .error e → IsHalt e)
    {v : ContractViolation} {s : PostUpdate M G} {a : A} (h : Grave quad contract v (f s a))
    (post : List A) : Grave quad contract v (tryFold f s (a :: post)) := by
  rcases hr : f s a with ⟨r, s'⟩
  rw [hr] at h
  cases r with
  | error e =>
    rw [tryFold_cons_error hr]
    exact h
  | ok =>
    rw [tryFold_cons_ok hr]
    rcases h with ⟨-, -, he⟩ | ⟨-, -, e, -, he⟩ | ⟨hv, ho, ⟨out, hout⟩, -⟩
    · cases he
    · cases he
    · have hs' : Settled s'.quad s' := ⟨rfl, ho⟩
      obtain ⟨⟨hq, ho'⟩, herr⟩ := tryFold_induction f (Settled s'.quad) IsHalt
        (fun t a ht => (hf _ t a ht).1) (fun t a e ht => (hf _ t a ht).2 e) hs' post
      refine Or.inr (Or.inr ⟨hv, ho', ⟨out, ?_⟩, herr⟩)
      rw [hq]
      exact hout

theorem handleViolation_soft {s : PostUpdate M G} (h : Quiet quad s) {v : ContractViolation}
    (hv : v.severe = false) :
    ∃ s', handleViolation sovereignty contract s v = (.ok (), s') ∧ Quiet quad s' := by
  have hsoft : v.violationClass = .soft := not_not.mp (of_decide_eq_false hv)
  unfold handleViolation
  rw [hsoft]
  exact ⟨_, rfl, h.quad, h.outcome, h.sawHard⟩

theorem handleViolation_severe {s : PostUpdate M G} (h : Quiet quad s) {v : ContractViolation}
    (hv : v.severe = true) :
    Grave quad contract v (handleViolation sovereignty contract s v) := by
  have hsoft : v.violationClass ≠ .soft := of_decide_eq_true hv
  have hcond : (!s.sawHard && s.outcome.isNone) = true := by
    rw [h.sawHard, h.outcome]
    rfl
  generalize hr : handleViolation sovereignty contract s v = r
  unfold handleViolation at hr
  cases hc : v.violationClass with
  | soft => exact absurd hc hsoft
  | critical =>
    simp only [hc] at hr
    subst hr
    exact Or.inl ⟨hc, h.quad, rfl⟩
  | hard =>
    right
    simp only [hc, if_pos hcond, h.quad] at hr
    rcases executeRecovery_cases quad v contract.recovery with
      ⟨snap, -, he⟩ | ⟨floor, quad', -, -, he⟩ | ⟨e, -, -, he⟩
    · simp only [he] at hr
      subst hr
      exact Or.inr ⟨hc, rfl, ⟨_, he⟩, fun e h => (nomatch h)⟩
    · simp only [he] at hr
      subst hr
      exact Or.inr ⟨hc, rfl, ⟨_, he⟩, fun e h => (nomatch h)⟩
    · simp only [he] at hr
      subst hr
      exact Or.inl ⟨hc, rfl, e, he, rfl⟩

theorem handleContract_quiet {s : PostUpdate M G} (h : Quiet quad s)
    (hc : contract.firstSevere quad lastCheckpoint = none) :
    ∃ s', handleContract sovereignty lastCheckpoint s contract = (.ok (), s') ∧
      Quiet quad s' := by
  have h' : Quiet quad { s with sawHard := false } := ⟨h.quad, h.outcome, rfl⟩
  have hvs : contract.collectAllViolations s.quad lastCheckpoint =
      contract.collectAllViolations quad lastCheckpoint := by rw [h.quad]
  unfold handleContract
  rw [hvs]
  rcases tryFold_find (handleViolation sovereignty contract) (Quiet quad) ContractViolation.severe
      (fun s v hs hv => handleViolation_soft hs hv) h'
      (contract.collectAllViolations quad lastCheckpoint) with
    ⟨-, hok⟩ | ⟨v, s', post, hv, -, -⟩
  · exact hok
  · rw [BehavioralContract.firstSevere, hv] at hc
    cases hc

theorem handleContract_severe {s : PostUpdate M G} (h : Quiet quad s) {v : ContractViolation}
    (hc : contract.firstSevere quad lastCheckpoint = some v) :
    Grave quad contract v (handleContract sovereignty lastCheckpoint s contract) := by
  have h' : Quiet quad { s with sawHard := false } := ⟨h.quad, h.outcome, rfl⟩
  have hvs : contract.collectAllViolations s.quad lastCheckpoint =
      contract.collectAllViolations quad lastCheckpoint := by rw [h.quad]
  unfold handleContract
  rw [hvs]
  rcases tryFold_find (handleViolation sovereignty contract) (Quiet quad) ContractViolation.severe
      (fun s v hs hv => handleViolation_soft hs hv) h'
      (contract.collectAllViolations quad lastCheckpoint) with
    ⟨hn, -⟩ | ⟨v', s', post, hv, hs', e⟩
  · rw [BehavioralContract.firstSevere, hn] at hc
    cases hc
  · rw [BehavioralContract.firstSevere, hv] at hc
    obtain rfl := Option.some.inj hc
    rw [e]
    exact Grave.fold (fun _ _ v hs => handleViolation_settled hs v)
      (handleViolation_severe hs' (List.find?_some hv)) post

/-- the whole loop, by the first severe violation -/
theorem handleContracts_cases (contracts : List (BehavioralContract M G)) {s : PostUpdate M G}
    (h : Quiet quad s) :
    (firstSevere contracts quad lastCheckpoint = none ∧
      ∃ s', tryFold (handleContract sovereignty lastCheckpoint) s contracts = (.ok (), s') ∧
        Quiet quad s') ∨
    ∃ contract v, firstSevere contracts quad lastCheckpoint = some (contract, v) ∧
      Grave quad contract v (tryFold (handleContract sovereignty lastCheckpoint) s contracts) := by
  unfold firstSevere
  rcases tryFold_find (handleContract sovereignty lastCheckpoint) (Quiet quad)
      (fun contract => (contract.firstSevere quad lastCheckpoint).isSome)
      (fun s contract hs hc => handleContract_quiet hs
        (Option.isNone_iff_eq_none.mp (Option.isSome_eq_false_iff.mp hc)))
      h contracts with ⟨hn, hok⟩ | ⟨contract, s', post, hc, hs', e⟩
  · rw [hn]
    exact Or.inl ⟨rfl, hok⟩
  · right
    have hsome : (contract.firstSevere quad lastCheckpoint).isSome = true :=
      List.find?_some (p := fun c : BehavioralContract M G =>
        (c.firstSevere quad lastCheckpoint).isSome) hc
    obtain ⟨v, hv⟩ := Option.isSome_iff_exists.mp hsome
    refine ⟨contract, v, ?_, ?_⟩
    · rw [hc]
      show (contract.firstSevere quad lastCheckpoint).map (fun v => (contract, v)) = _
      rw [hv]
      rfl
    · rw [e]
      exact Grave.fold (fun _ _ contract hs => handleContract_settled hs contract)
        (handleContract_severe hs' hv) post

namespace ContractEngine
variable (engine : ContractEngine M G) (quad) (lastCheckpoint) (beliefKey agentId : String)
  (nowMs : Nat)

/-- what `r` returned, and the quad it left, when the violations of `quad` are met -/
def PostUpdated (contracts : List (BehavioralContract M G)) (quad : BeliefQuad M G)
    (lastCheckpoint : Option CheckpointId)
    (r : Except RuntimeError (Option RecoveryOutcome) × ContractEngine M G × BeliefQuad M G) :
    Prop :=
  (firstSevere contracts quad lastCheckpoint = none ∧ r.1 = .ok none ∧ r.2.2 = quad) ∨
  (∃ contract v, firstSevere contracts quad lastCheckpoint = some (contract, v) ∧
    v.violationClass = .critical ∧ r.2.2 = quad ∧
    r.1 = .error (.contractHalt contract.domain v.invariantDescription v.atVersion)) ∨
  (∃ contract v e, firstSevere contracts quad lastCheckpoint = some (contract, v) ∧
    v.violationClass = .hard ∧ executeRecovery quad v contract.recovery = (.error e, quad) ∧
    r.2.2 = quad ∧ r.1 = .error e) ∨
  (∃ contract v out, firstSevere contracts quad lastCheckpoint = some (contract, v) ∧
    v.violationClass = .hard ∧ executeRecovery quad v contract.recovery = (.ok out, r.2.2) ∧
    ∀ e, r.1 = .error e → IsHalt e)

/-- **everything `postUpdate` can do to the quad and return**, by the first severe violation: there
is none; it is critical; it is hard and its recovery fails; or it is hard and recovered from, and
then only a critical violation can still be an error -/
theorem postUpdate_cases : PostUpdated engine.contracts quad lastCheckpoint
    (engine.postUpdate quad lastCheckpoint beliefKey agentId nowMs) := by
  have hq : Quiet quad ⟨quad, engine.violationLog, none, false⟩ := ⟨rfl, rfl, rfl⟩
  unfold ContractEngine.postUpdate
  rcases handleContracts_cases engine.contracts hq with ⟨hn, s', e, hs'⟩ | ⟨contract, v, hv, hg⟩
  · rw [e]
    exact Or.inl ⟨hn, congrArg Except.ok hs'.outcome, hs'.quad⟩
  · right
    rcases hf : tryFold (handleContract engine.sovereignty lastCheckpoint)
        ⟨quad, engine.violationLog, none, false⟩ engine.contracts with ⟨result, s'⟩
    rw [hf] at hg
    rcases hg with ⟨hc, hs', he⟩ | ⟨hc, hs', e, hx, he⟩ | ⟨hc, -, ⟨out, hx⟩, herr⟩
    · obtain rfl : result = _ := he
      exact Or.inl ⟨contract, v, hv, hc, hs', rfl⟩
    · obtain rfl : result = _ := he
      exact Or.inr (Or.inl ⟨contract, v, e, hv, hc, hx, hs', rfl⟩)
    · cases result with
      | error e =>
        refine Or.inr (Or.inr ⟨contract, v, out, hv, hc, hx, fun e' h => ?_⟩)
        exact herr e' (congrArg Except.error (Except.error.inj h))
      | ok => exact Or.inr (Or.inr ⟨contract, v, out, hv, hc, hx, fun e h => (nomatch h)⟩)

/-- the quad that `postUpdate` leaves is a restored checkpoint, or the one it was given but for
fast confidences -/
theorem postUpdate_quad :
    (∃ snap, RecoversTo engine.contracts quad lastCheckpoint snap ∧
      (engine.postUpdate quad lastCheckpoint beliefKey agentId nowMs).2.2 = snap) ∨
    ((∀ snap, ¬ RecoversTo engine.contracts quad lastCheckpoint snap) ∧
      quad.OnlyConfidences
        (engine.postUpdate quad lastCheckpoint beliefKey agentId nowMs).2.2) := by
  have hno : ∀ contract v, firstSevere engine.contracts quad lastCheckpoint = some (contract, v) →
      (∀ snap, ¬ (v.violationClass = .hard ∧ Restores quad v contract.recovery snap)) →
      ∀ snap, ¬ RecoversTo engine.contracts quad lastCheckpoint snap := by
    intro contract v hv h snap hd
    obtain ⟨contract', v', hv', hs⟩ := hd
    obtain ⟨rfl, rfl⟩ := Prod.mk.inj (Option.some.inj (hv.symm.trans hv'))
    exact h snap hs
  rcases engine.postUpdate_cases quad lastCheckpoint beliefKey agentId nowMs with
    ⟨hn, -, hq⟩ | ⟨contract, v, hv, hc, hq, -⟩ | ⟨contract, v, e, hv, -, he, hq, -⟩ |
    ⟨contract, v, out, hv, hc, he, -⟩
  · right
    rw [hq]
    refine ⟨?_, .refl quad⟩
    intro snap hd
    obtain ⟨contract, v, hv, -⟩ := hd
    rw [hn] at hv
    cases hv
  · right
    rw [hq]
    refine ⟨hno contract v hv fun snap hs => ?_, .refl quad⟩
    rw [hc] at hs
    exact absurd hs.1 (by decide)
  · right
    rw [hq]
    refine ⟨hno contract v hv fun snap hs => ?_, .refl quad⟩
    rw [hs.2.eq] at he
    cases he
  · rcases executeRecovery_cases quad v contract.recovery with
      ⟨snap, hs, he'⟩ | ⟨floor, quad', hp, hquad', he'⟩ | ⟨e, -, -, he'⟩
    · rw [he] at he'
      exact Or.inl ⟨snap, ⟨contract, v, hv, hc, hs⟩, (Prod.mk.inj he').2⟩
    · right
      rw [he] at he'
      rw [(Prod.mk.inj he').2]
      refine ⟨hno contract v hv fun snap hs => ?_, hquad'⟩
      obtain ⟨-, cp, ht, -⟩ := hs
      rw [hp] at ht
      cases ht
    · rw [he] at he'
      cases (Prod.mk.inj he').1

end ContractEngine

end

end Epica
