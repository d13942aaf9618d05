import Epica.Runtime.Update

/-!
# What an update that fails leaves behind

Revision and System 1 are committed before the invariants are checked, and no error undoes them.

* `updateBelief_error`   the beliefs and edges that each kind of error leaves.
-/

set_option linter.unusedSectionVars false

namespace Epica
open Lib

namespace BeliefRuntime
section
variable {M : Type → Type} {G : Type → Type → Type} [SlotMap M] [StableDiGraph G] [Platform]
  (rt : BeliefRuntime M G) (call : UpdateCall)

/-- a rollback to the checkpoint of the call restores the quad before it, without its history -/
theorem restores_stripped (hfresh : ∀ cp ∈ rt.quad.checkpoints,
    cp.id ≠ call.checkpointStamp.uuid) {v : ContractViolation}
    (hv : v.lastValidCheckpoint = some call.checkpointStamp.uuid) {snap : BeliefQuad M G}
    (h : Restores (rt.revisedQuad call) v .rollbackToLastCheckpoint snap) :
    snap = rt.quad.stripped := by
  obtain ⟨cp, ht, cp', hf, rfl, -⟩ := h
  obtain rfl : call.checkpointStamp.uuid = cp := Option.some.inj (hv.symm.trans ht)
  have hself := BeliefQuad.checkpointById_checkpoint_self hfresh call.checkpointStamp.nowMs
  have hsame : (rt.revisedQuad call).checkpointById call.checkpointStamp.uuid =
      (rt.checkpointedQuad call).checkpointById call.checkpointStamp.uuid := by
    unfold BeliefQuad.checkpointById
    rw [checkpoints_revisedQuad]
    rfl
  rw [hsame] at hf
  obtain rfl := Option.some.inj (hself.symm.trans hf)
  rfl

/-- and so undoes the call -/
theorem restores_before (hfresh : ∀ cp ∈ rt.quad.checkpoints,
    cp.id ≠ call.checkpointStamp.uuid) {v : ContractViolation}
    (hv : v.lastValidCheckpoint = some call.checkpointStamp.uuid) {snap : BeliefQuad M G}
    (h : Restores (rt.revisedQuad call) v .rollbackToLastCheckpoint snap) :
    snap.store = rt.quad.store := by
  rw [rt.restores_stripped call hfresh hv h]
  exact BeliefQuad.store_stripped rt.quad

/-- `quad'` is what an update that returned `e` leaves -/
def ErrorTrace (e : RuntimeError) (quad' : BeliefQuad M G) : Prop :=
  match e with
  | .preconditionFailed _ _ => quad' = rt.quad
  | .sovereigntyViolation _ => quad' = rt.quad
  | .governanceLimitExceeded _ _ _ => quad' = rt.quad
  | .core error =>
    (error = .beliefNotFound → ¬ rt.quad.Live call.id) → quad'.store = rt.quad.store
  | .recoveryFailed _ _ => quad' = rt.revisedQuad call
  | .contractHalt _ _ _ =>
    quad' = rt.revisedQuad call ∨
    -- the one recovery that was run before the halt
    ∃ contract v out, firstSevere rt.contractEngine.contracts (rt.revisedQuad call)
        (some call.checkpointStamp.uuid) = some (contract, v) ∧ v.violationClass = .hard ∧
      executeRecovery (rt.revisedQuad call) v contract.recovery = (.ok out, quad') ∧
      (contract.recovery = .rollbackToLastCheckpoint →
        (∀ cp ∈ rt.quad.checkpoints, cp.id ≠ call.checkpointStamp.uuid) →
        quad'.store = rt.quad.store)

theorem errorTrace_of_refusal {e : RuntimeError} (h : Refusal e) :
    rt.ErrorTrace call e rt.quad := by
  rcases h with ⟨domain, beliefKey, rfl⟩ | ⟨message, rfl⟩ | ⟨resource, limit, used, rfl⟩
  · rfl
  · rfl
  · rfl

theorem errorTrace_of_core {e : BeliefRevisionError} 
    (h : (call.revise (rt.checkpointedQuad call)).1 = .error e) :
    rt.ErrorTrace call (.core e) (call.revise (rt.checkpointedQuad call)).2 := by
  intro hlive
  unfold UpdateCall.revise at h ⊢
  rcases (rt.checkpointedQuad call).revise_cases call.revisionStamp call.contractionOrder call.id
      call.value call.provenance call.confidence with
    ⟨-, he⟩ | ⟨-, -, he⟩ | ⟨-, -, -, r⟩ | ⟨hl, -, -, -, he⟩ | ⟨-, -, -, -, r⟩
  · rw [he]
    rfl
  · rw [he]
    rfl
  · obtain ⟨record, hr, -⟩ := r.ok
    rw [hr] at h
    cases h
  · rw [he] at h
    exact absurd hl (hlive (Except.error.inj h).symm)
  · obtain ⟨record, hr, -⟩ := r.ok
    rw [hr] at h
    cases h

/-- a violation the contracts have met refers to the checkpoint of the call -/
theorem lastValidCheckpoint_of_firstSevere {contracts : List (BehavioralContract M G)}
    {quad : BeliefQuad M G} {lastCheckpoint : Option CheckpointId}
    {contract : BehavioralContract M G} {v : ContractViolation}
    (h : firstSevere contracts quad lastCheckpoint = some (contract, v)) :
    v.lastValidCheckpoint = lastCheckpoint := by
  obtain ⟨c, -, hc⟩ := Option.bind_eq_some_iff.mp h
  obtain ⟨v', hv', he⟩ := Option.map_eq_some_iff.mp hc
  obtain ⟨rfl, rfl⟩ := Prod.mk.inj he
  exact BehavioralContract.lastValidCheckpoint_of_mem (List.mem_of_find?_eq_some hv')

theorem errorTrace_of_verdict {e : RuntimeError} (h : (rt.verdict call).1 = .error e) :
    rt.ErrorTrace call e (rt.verdict call).2.2 := by
  rcases rt.contractEngine.postUpdate_cases (rt.revisedQuad call)
      (some call.checkpointStamp.uuid) (rt.keyOf call.id) "system" call.auditMs with
    ⟨-, he, -⟩ | ⟨contract, v, -, -, hq, he⟩ | ⟨contract, v, e', hv, -, hx, hq, he⟩ |
    ⟨contract, v, out, hv, hc, hx, he⟩
  · rw [verdict, he] at h
    cases h
  · rw [verdict, he] at h
    obtain rfl := Except.error.inj h
    exact Or.inl hq
  · rw [verdict, he] at h
    obtain rfl := Except.error.inj h
    rcases executeRecovery_cases (rt.revisedQuad call) v contract.recovery with
      ⟨snap, -, hx'⟩ | ⟨floor, quad', -, -, hx'⟩ | ⟨e, hf, -, hx'⟩
    · rw [hx] at hx'
      cases (Prod.mk.inj hx').1
    · rw [hx] at hx'
      cases (Prod.mk.inj hx').1
    · rw [hx] at hx'
      obtain rfl := Except.error.inj (Prod.mk.inj hx').1
      rcases hf with ⟨-, rfl⟩ | ⟨message, cause, rfl⟩
      · exact Or.inl hq
      · exact hq
  · obtain ⟨domain, invariant, atVersion, rfl⟩ := he e h
    refine Or.inr ⟨contract, v, out, hv, hc, hx, fun hpolicy hfresh => ?_⟩
    rw [hpolicy] at hx
    rcases executeRecovery_cases (rt.revisedQuad call) v .rollbackToLastCheckpoint with
      ⟨snap, hs, hx'⟩ | ⟨floor, quad', hp, -, -⟩ | ⟨e, -, -, hx'⟩
    · rw [hx] at hx'
      rw [show (rt.verdict call).2.2 = snap from (Prod.mk.inj hx').2]
      exact rt.restores_before call hfresh (lastValidCheckpoint_of_firstSevere hv) hs
    · cases hp
    · rw [hx] at hx'
      cases (Prod.mk.inj hx').1

/-- **what an update that fails leaves**: a refused one nothing; one whose revision fails nothing,
unless the belief was there and has contracted itself; one that fails on the contracts the revised
and propagated quad, or what the one recovery made of it -/
theorem updateBelief_error (e : RuntimeError) (h : (rt.updateBelief call).1 = .error e) :
    rt.ErrorTrace call e (rt.updateBelief call).2.quad := by
  rcases rt.updateBelief_cases call with
    ⟨-, hq, e', he', hr⟩ | ⟨-, hq, e', he', hr⟩ | ⟨-, -, hq, hr⟩
  · rw [hr] at h
    obtain rfl := Except.error.inj h
    rw [hq]
    exact rt.errorTrace_of_refusal call he'
  · rw [hr] at h
    obtain rfl := Except.error.inj h
    rcases rt.revision_cases call with ⟨e, he, hrev, hq'⟩ | ⟨record, out, -, hrev, -⟩
    · rw [he'] at hrev
      obtain rfl := Except.error.inj hrev
      rw [hq, hq']
      exact rt.errorTrace_of_core call he
    · rw [he'] at hrev
      cases hrev
  · rw [hq]
    exact rt.errorTrace_of_verdict call ((hr e).mp h)

end
end BeliefRuntime

section
attribute [local instance] Platform.ascii

def goal : BeliefQuad SlotVec EdgeList :=
  run BeliefQuad.step .new
    [.insert (.new 0 "goal" (.asserted "wait") (.userStatement 0) (9 / 10))]

/-- a contract that wants the goal to be held with confidence `1/2` -/
def keepGoal (violationClass : ViolationClass) : BehavioralContract SlotVec EdgeList where
  domain := "deploy"
  preconditions := []
  invariants := [⟨MinConfidence SlotVec EdgeList "goal" (1 / 2), violationClass⟩]
  governance := ⟨none, none, []⟩
  recovery := .rollbackToLastCheckpoint

def guarded : BeliefRuntime SlotVec EdgeList :=
  .build goal (1 / 2) [keepGoal .critical] none false (15 / 100)

def doubt : UpdateCall := .at 11 ⟨1, 1⟩ (.asserted "ship") (1 / 10)

/-- what a halt reports -/
def haltOf (r : Except RuntimeError RuntimeUpdateResult) : Option (String × String × Nat) :=
  match r with
  | .error (.contractHalt domain invariant atVersion) => some (domain, invariant, atVersion)
  | _ => none

theorem eq_of_haltOf {r : Except RuntimeError RuntimeUpdateResult} {domain invariant : String}
    {atVersion : Nat} (h : haltOf r = some (domain, invariant, atVersion)) :
    r = .error (.contractHalt domain invariant atVersion) := by
  unfold haltOf at h
  split at h
  · obtain ⟨rfl, h'⟩ := Prod.mk.inj (Option.some.inj h)
    obtain ⟨rfl, rfl⟩ := Prod.mk.inj h'
    rfl
  · cases h

theorem guarded_halts : (guarded.updateBelief doubt).1 =
    .error (.contractHalt "deploy" "goal" 2) := eq_of_haltOf (by decide +kernel)

/-- the halted update has been made -/
theorem updateBelief_error_guarded :
    guarded.ErrorTrace doubt (.contractHalt "deploy" "goal" 2)
      (guarded.updateBelief doubt).2.quad :=
  guarded.updateBelief_error doubt _ guarded_halts

theorem halted_update_stays : ¬ ∀ (rt : BeliefRuntime SlotVec EdgeList) (call : UpdateCall) e,
    (rt.updateBelief call).1 = .error e →
      (rt.updateBelief call).2.quad.store = rt.quad.store := by
  intro h
  have hstore := h guarded doubt _ guarded_halts
  have hnode : (guarded.updateBelief doubt).2.quad.get ⟨1, 1⟩ =
      guarded.quad.get ⟨1, 1⟩ := congrFun (congrArg Store.node hstore) _
  have hvalue : ((guarded.updateBelief doubt).2.quad.get ⟨1, 1⟩).map
      BeliefNode.value ≠ (guarded.quad.get ⟨1, 1⟩).map BeliefNode.value := by
    decide +kernel
  exact hvalue (congrArg _ hnode)

end
end Epica
