import Epica.Contracts.LedgerLaws
import Epica.Runtime.Invariants

/-!
# What the audit ledger says of the updates

The entry of an update is emitted at the end of the contract section, behind the exits for a halt
and for a recovery that fails.

* `updateBelief_ledger`   what an update that runs alone appends to the attached ledger;
* `audit_complete_iff`    the ledger of a run lists the revisions that were applied exactly when
                          all their contract sections succeed.
-/

set_option linter.unusedSectionVars false

namespace Epica
open Lib

/-! ## the attached ledger -/

section
variable [Blake3] [AuditJson]

/-- the ledger that was attached to the policy as `attached` -/
def AuditPolicy.ledger (policy : AuditPolicy) (attached : AuditLedger) : AuditLedger :=
  policy.emitted.foldl (fun ledger entry => (ledger.append entry).2) attached

/-- what is emitted is appended -/
@[simp] theorem AuditPolicy.ledger_emit (policy : AuditPolicy) (attached : AuditLedger)
    (entry : AuditEntry) :
    (policy.emit entry).ledger attached = ((policy.ledger attached).append entry).2 := by
  unfold ledger emit
  rw [List.foldl_append]
  rfl

end

/-- the keys of the `BeliefUpdate` entries, in order -/
def AuditLedger.updatedKeys (ledger : AuditLedger) : List (Option String) :=
  (ledger.entries.filter fun e => e.entry.eventType = .beliefUpdate).map fun e => e.entry.beliefKey

theorem AuditLedger.updatedKeys_append [Blake3] [AuditJson] (ledger : AuditLedger)
    {entry : AuditEntry} (h : entry.eventType = .beliefUpdate) :
    (ledger.append entry).2.updatedKeys = ledger.updatedKeys ++ [entry.beliefKey] := by
  unfold updatedKeys append
  rw [List.filter_append, List.map_append, List.filter_singleton, h]
  rfl

theorem AuditLedger.append_ne [Blake3] [AuditJson] (ledger : AuditLedger) (entry : AuditEntry) :
    (ledger.append entry).2 ≠ ledger := by
  intro h
  have hlen := congrArg (fun l : AuditLedger => l.entries.length) h
  unfold append at hlen
  rw [List.length_append, List.length_singleton] at hlen
  omega

section
variable {M : Type → Type} {G : Type → Type → Type} [SlotMap M] [StableDiGraph G]

/-! ## the contract engine after an update -/

/-- the entry is emitted when the contract section succeeds, and only then -/
theorem ContractEngine.postUpdate_sovereignty (engine : ContractEngine M G) (quad : BeliefQuad M G)
    (lastCheckpoint : Option CheckpointId) (beliefKey agentId : String) (nowMs : Nat) :
    let r := engine.postUpdate quad lastCheckpoint beliefKey agentId nowMs
    (r.1.isOk = true ∧ ∃ entry : AuditEntry, entry.eventType = .beliefUpdate ∧
      entry.beliefKey = some beliefKey ∧
      r.2.1.sovereignty = engine.sovereignty.map fun sov => sov.emitAudit entry) ∨
    (r.1.isOk = false ∧ r.2.1.sovereignty = engine.sovereignty) := by
  unfold ContractEngine.postUpdate
  rcases tryFold (handleContract engine.sovereignty lastCheckpoint)
      ⟨quad, engine.violationLog, none, false⟩ engine.contracts with ⟨e | u, s⟩
  · exact .inr ⟨rfl, rfl⟩
  · exact .inl ⟨rfl, _, rfl, rfl, rfl⟩

namespace BeliefRuntime
variable [Platform] (rt : BeliefRuntime M G) (call : UpdateCall)

/-- the call applies a revision to the quad -/
def revises : Bool :=
  (rt.contractEngine.preUpdate rt.quad (rt.keyOf call.id) "system").isOk &&
    rt.trackTokens.1.isOk && (rt.revision call).1.isOk

theorem engine_revision : (rt.revision call).2.contractEngine = rt.contractEngine := by
  have hrest := reviseAndPropagate_rest (rt.trackTokens.2.checkpoint call.checkpointStamp).2 call
  exact (congrArg BeliefRuntime.contractEngine hrest).trans rfl

/-- the contract engine is that of the contract section, if the call gets there -/
theorem engine_updateBelief : (rt.updateBelief call).2.contractEngine =
    if rt.revises call then (rt.verdict call).2.1 else rt.contractEngine := by
  unfold revises
  cases hp : rt.contractEngine.preUpdate rt.quad (rt.keyOf call.id) "system" with
  | error e =>
    rw [updateBelief_refused rt call hp]
    rfl
  | ok =>
    cases ht : rt.trackTokens.1 with
    | error e =>
      rw [updateBelief_limited rt call hp ht]
      rfl
    | ok =>
      have hengine := rt.engine_revision call
      rw [updateBelief_admitted rt call ⟨hp, ht⟩]
      rcases hv : rt.revision call with ⟨e | ⟨fast, contradicted⟩, rt'⟩
      · rw [hv] at hengine
        exact hengine
      · have hverdict : (rt'.postUpdate call call.checkpointStamp.uuid
            (rt.keyOf call.id)).2.contractEngine = (rt.verdict call).2.1 := by
          rw [hv] at hengine
          have hquad : rt.revisedQuad call = rt'.quad := congrArg (fun r => r.2.quad) hv
          unfold postUpdate verdict
          rw [hquad, ← hengine]
        simp only
        generalize rt'.postUpdate call call.checkpointStamp.uuid (rt.keyOf call.id) = r at hverdict
        rcases r with ⟨e | outcome, rt''⟩
        · exact hverdict
        · obtain ⟨result, history, hok⟩ := finishUpdate_ok rt'' call fast contradicted
          show (rt''.finishUpdate call fast contradicted).2.contractEngine = (rt.verdict call).2.1
          rw [hok]
          exact hverdict

theorem sovereignty_updateBelief :
    (rt.revises call = true ∧ (rt.verdict call).1.isOk = true ∧
      ∃ entry : AuditEntry, entry.eventType = .beliefUpdate ∧
        entry.beliefKey = some (rt.keyOf call.id) ∧
        (rt.updateBelief call).2.contractEngine.sovereignty =
          rt.contractEngine.sovereignty.map fun sov => sov.emitAudit entry) ∨
    ((rt.revises call = true → (rt.verdict call).1.isOk = false) ∧
      (rt.updateBelief call).2.contractEngine.sovereignty = rt.contractEngine.sovereignty) := by
  rw [engine_updateBelief]
  cases hr : rt.revises call with
  | false => exact .inr ⟨fun h => (nomatch h), rfl⟩
  | true =>
    rw [if_pos rfl]
    rcases rt.contractEngine.postUpdate_sovereignty (rt.revisedQuad call)
        (some call.checkpointStamp.uuid) (rt.keyOf call.id) "system" call.auditMs with
      ⟨hok, entry, htype, hkey, hsov⟩ | ⟨hno, hsov⟩
    · exact .inl ⟨rfl, hok, entry, htype, hkey, hsov⟩
    · exact .inr ⟨fun _ => hno, hsov⟩

theorem contracts_updateBelief :
    (rt.updateBelief call).2.contractEngine.contracts = rt.contractEngine.contracts := by
  rw [engine_updateBelief]
  split
  · unfold verdict ContractEngine.postUpdate
    split <;> rfl
  · rfl

/-! ## the ledger after an update -/

section
variable [Blake3] [AuditJson] (attached : AuditLedger)

/-- the ledger that was attached as `attached`, and to which nothing else has been appended -/
def ledger : AuditLedger :=
  (rt.contractEngine.sovereignty.map fun sov => sov.audit.ledger attached).getD attached

/-- the contract section of the call succeeds, if it gets there -/
def Finishes : Prop :=
  rt.revises call = true →
    Passes (some call.checkpointStamp.uuid) (rt.revisedQuad call) rt.contractEngine.contracts

/-- the call appends one `BeliefUpdate` entry for its belief, if it applies a revision; and nothing
otherwise -/
def Records : Prop :=
  if rt.revises call then
    ∃ entry : AuditEntry, entry.eventType = .beliefUpdate ∧
      entry.beliefKey = some (rt.keyOf call.id) ∧
      (rt.updateBelief call).2.ledger attached = ((rt.ledger attached).append entry).2
  else (rt.updateBelief call).2.ledger attached = rt.ledger attached

variable {rt}

/-- **what an update appends to the ledger**: the one entry when its contract section succeeds,
and else nothing -/
theorem updateBelief_ledger (h : rt.contractEngine.sovereignty.isSome) (call : UpdateCall)
    (attached : AuditLedger) :
    (rt.revises call = true ∧ rt.Finishes call ∧ ∃ entry : AuditEntry,
      entry.eventType = .beliefUpdate ∧ entry.beliefKey = some (rt.keyOf call.id) ∧
      (rt.updateBelief call).2.ledger attached = ((rt.ledger attached).append entry).2) ∨
    ((rt.revises call = true → ¬ rt.Finishes call) ∧
      (rt.updateBelief call).2.ledger attached = rt.ledger attached) := by
  have hpasses : (rt.verdict call).1.isOk = true ↔ Passes (some call.checkpointStamp.uuid)
      (rt.revisedQuad call) rt.contractEngine.contracts := postUpdate_ok_iff _ _ _ _
  obtain ⟨sov, hsov⟩ := Option.isSome_iff_exists.mp h
  unfold ledger
  rcases rt.sovereignty_updateBelief call with
    ⟨hr, hok, entry, htype, hkey, hafter⟩ | ⟨hno, hafter⟩
  · refine .inl ⟨hr, fun _ => hpasses.mp hok, entry, htype, hkey, ?_⟩
    rw [hafter, hsov]
    exact AuditPolicy.ledger_emit sov.audit attached entry
  · refine .inr ⟨fun hr hf => ?_, by rw [hafter]⟩
    have hok := hpasses.mpr (hf hr)
    rw [hno hr] at hok
    cases hok

/-- an update keeps the ledger complete exactly when its contract section succeeds -/
theorem records_iff (h : rt.contractEngine.sovereignty.isSome) (call : UpdateCall)
    (attached : AuditLedger) : rt.Records call attached ↔ rt.Finishes call := by
  unfold Records
  rcases updateBelief_ledger h call attached with ⟨hr, hf, entry, hentry⟩ | ⟨hno, hafter⟩
  · rw [if_pos hr]
    exact iff_of_true ⟨entry, hentry⟩ hf
  · by_cases hr : rt.revises call = true
    · rw [if_pos hr]
      refine iff_of_false (fun hp => ?_) (hno hr)
      obtain ⟨entry, -, -, happended⟩ := hp
      exact (rt.ledger attached).append_ne entry (happended.symm.trans hafter)
    · rw [if_neg hr]
      exact iff_of_true hafter fun hr' => absurd hr' hr

/-! ## runs -/

/-- the runtime after a call -/
def afterUpdate (rt : BeliefRuntime M G) (call : UpdateCall) : BeliefRuntime M G :=
  (rt.updateBelief call).2

/-- what a call owes the ledger -/
def owes (rt : BeliefRuntime M G) (call : UpdateCall) : List (Option String) :=
  if rt.revises call then [some (rt.keyOf call.id)] else []

/-- what it appends -/
def pays (rt : BeliefRuntime M G) (call : UpdateCall) : List (Option String) :=
  if rt.revises call && (rt.verdict call).1.isOk then [some (rt.keyOf call.id)] else []

theorem pays_eq_or (rt : BeliefRuntime M G) (call : UpdateCall) :
    rt.pays call = rt.owes call ∨ (rt.pays call).length < (rt.owes call).length := by
  unfold pays owes
  cases rt.revises call with
  | false => exact .inl rfl
  | true =>
    cases (rt.verdict call).1.isOk with
    | false => exact .inr Nat.zero_lt_one
    | true => exact .inl rfl

theorem pays_eq_iff (rt : BeliefRuntime M G) (call : UpdateCall) :
    rt.pays call = rt.owes call ↔ rt.Finishes call := by
  have hpasses : (rt.verdict call).1.isOk = true ↔ Passes (some call.checkpointStamp.uuid)
      (rt.revisedQuad call) rt.contractEngine.contracts := postUpdate_ok_iff _ _ _ _
  unfold pays owes Finishes
  rw [← hpasses]
  cases rt.revises call with
  | false => exact iff_of_true rfl fun h => nomatch h
  | true =>
    cases (rt.verdict call).1.isOk with
    | false => exact iff_of_false (fun h => nomatch h) fun h => nomatch h rfl
    | true => exact iff_of_true rfl fun _ => rfl

theorem updatedKeys_updateBelief (h : rt.contractEngine.sovereignty.isSome) (call : UpdateCall)
    (attached : AuditLedger) : ((rt.updateBelief call).2.ledger attached).updatedKeys =
      (rt.ledger attached).updatedKeys ++ rt.pays call := by
  rcases updateBelief_ledger h call attached with
    ⟨hr, hf, entry, htype, hkey, hafter⟩ | ⟨hno, hafter⟩
  · rw [hafter, AuditLedger.updatedKeys_append _ htype, hkey, (rt.pays_eq_iff call).mpr hf]
    unfold owes
    rw [if_pos hr]
  · have hpays : rt.pays call = [] := by
      rcases rt.pays_eq_or call with he | hlt
      · rw [he]
        unfold owes
        exact if_neg fun hr => hno hr ((rt.pays_eq_iff call).mp he)
      · unfold owes at hlt
        split at hlt
        · exact List.eq_nil_of_length_eq_zero (Nat.lt_one_iff.mp hlt)
        · exact absurd hlt (Nat.not_lt_zero _)
    rw [hafter, hpays, List.append_nil]

/-- **in a run of updates each applied revision is recorded exactly when every contract section
that is reached succeeds**, and exactly then the `BeliefUpdate` entries of the ledger list the
applied revisions in order -/
theorem audit_complete_iff (rt : BeliefRuntime M G) (h : rt.contractEngine.sovereignty.isSome)
    (attached : AuditLedger) (calls : List UpdateCall) :
    ((∀ t call, StepOf afterUpdate rt calls t call → t.Records call attached) ↔
      ∀ t call, StepOf afterUpdate rt calls t call → t.Finishes call) ∧
    (((run afterUpdate rt calls).ledger attached).updatedKeys =
        (rt.ledger attached).updatedKeys ++ outputs afterUpdate owes rt calls ↔
      ∀ t call, StepOf afterUpdate rt calls t call → t.Finishes call) := by
  have hinv : ∀ (t : BeliefRuntime M G) call, t.contractEngine.sovereignty.isSome →
      (t.afterUpdate call).contractEngine.sovereignty.isSome := by
    intro t call ht
    unfold afterUpdate
    rcases t.sovereignty_updateBelief call with ⟨-, -, entry, -, -, hsov⟩ | ⟨-, hsov⟩
    · rw [hsov, Option.isSome_map]
      exact ht
    · rw [hsov]
      exact ht
  have hlog : ∀ (t : BeliefRuntime M G) call, t.contractEngine.sovereignty.isSome →
      ((t.afterUpdate call).ledger attached).updatedKeys =
        (t.ledger attached).updatedKeys ++ t.pays call :=
    fun t call ht => updatedKeys_updateBelief ht call attached
  constructor
  · refine forall₂_congr fun t call => forall_congr' fun hstep => ?_
    exact records_iff (stateOf_invariant hinv h hstep.state) call attached
  · have hcomplete := @log_complete_iff _ _ _ _ _ (fun t => (t.ledger attached).updatedKeys) pays
      owes hinv hlog pays_eq_or rt h calls
    rw [hcomplete]
    exact forall₂_congr fun t call => forall_congr' fun _ => pays_eq_iff t call

end
end BeliefRuntime
end

section
attribute [local instance] Platform.ascii Sample.blake3 Sample.json

/-- every agent may do everything, and every recovery is fine -/
def permissive : MnemonicSovereignty SlotVec EdgeList where
  writeAuth := ⟨.any⟩
  readAuth := ⟨.any⟩
  updateAuth := ⟨.any⟩
  audit := ⟨[]⟩
  rollbackAuth := ⟨.any⟩
  verifyRecovery _ := .verified

/-- the goal with an audit policy, guarded by `contracts` -/
def audited (contracts : List (BehavioralContract SlotVec EdgeList)) :
    BeliefRuntime SlotVec EdgeList :=
  .build goal (1 / 2) contracts (some permissive) false (15 / 100)

/-- without contracts the two doubts are recorded -/
theorem audit_complete_doubts :
    ((run BeliefRuntime.afterUpdate (audited []) [doubt, doubt]).ledger .new).updatedKeys =
      outputs BeliefRuntime.afterUpdate BeliefRuntime.owes (audited []) [doubt, doubt] := by
  refine (((audited []).audit_complete_iff rfl .new [doubt, doubt]).2.mpr
    fun t call hstep _ => ?_).trans (List.nil_append _)
  have hcontracts : t.contractEngine.contracts = [] :=
    @stateOf_invariant _ _ _ (fun t => t.contractEngine.contracts = [])
      (fun t call ht => (t.contracts_updateBelief call).trans ht) _ rfl _ _ hstep.state
  rw [hcontracts]
  exact trivial

/-- a halted update is applied, and not recorded -/
theorem halted_update_unrecorded : ¬ ∀ (rt : BeliefRuntime SlotVec EdgeList) (call : UpdateCall)
    (attached : AuditLedger), rt.contractEngine.sovereignty.isSome →
      rt.Records call attached := by
  intro h
  have hrecords := h (audited [keepGoal .critical]) doubt .new rfl
  unfold BeliefRuntime.Records at hrecords
  rw [if_pos (by decide +kernel)] at hrecords
  obtain ⟨entry, -, -, happended⟩ := hrecords
  have hzero : (((audited [keepGoal .critical]).updateBelief doubt).2.ledger .new).entries.length =
      0 := by decide +kernel
  rw [happended] at hzero
  unfold AuditLedger.append at hzero
  rw [List.length_append, List.length_singleton] at hzero
  omega

end
end Epica
