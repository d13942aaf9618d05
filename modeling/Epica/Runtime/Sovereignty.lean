import Epica.Runtime.Audit
import Epica.Runtime.KeyIndex
import Epica.Runtime.Retrieval

/-!
# Which operations the sovereignty guards

Four policies are attached, for inserting, reading, updating and rolling back; `writeAuth` is the
only one that is consulted, and only by an update.

* `quad_updateBelief_iff`      when an update leaves the quad as it was;
* `sovereignty_enforced_iff`   the runs in which every operation keeps to its own policy.
-/

set_option linter.unusedSectionVars false

namespace Epica
open Lib

/-- the operations that a policy is about -/
inductive GovernedOp where
  | mutate (op : RuntimeOp)
  | retrieveForQuery (queryEmb : List ℚ) (nowMs budgetTokens : Nat)

/-- the four authorizations -/
structure AuthPolicies where
  write : AuthPolicy
  read : AuthPolicy
  update : AuthPolicy
  rollback : AuthPolicy

section
variable {M : Type → Type} {G : Type → Type → Type} [SlotMap M] [StableDiGraph G]

def MnemonicSovereignty.policies (sov : MnemonicSovereignty M G) : AuthPolicies :=
  ⟨sov.writeAuth, sov.readAuth, sov.updateAuth, sov.rollbackAuth⟩

namespace BeliefRuntime
variable [Platform]

def govern (rt : BeliefRuntime M G) : GovernedOp → BeliefRuntime M G
  | .mutate op => rt.step op
  | .retrieveForQuery _ _ _ => rt

/-- every attached policy `auth` allows the agent of the runtime -/
def Allows (rt : BeliefRuntime M G) (auth : AuthPolicies → AuthPolicy) : Prop :=
  ∀ sov, rt.contractEngine.sovereignty = some sov → (auth sov.policies).allows "system" = true

/-- the operation has an effect only if its policy allows it -/
def Enforced (rt : BeliefRuntime M G) : GovernedOp → Prop
  | .mutate (.insertBelief node scenarios) =>
    (∃ id, ¬ rt.quad.Live id ∧ (rt.insertBelief node scenarios).2.quad.Live id) →
      rt.Allows AuthPolicies.write
  | .mutate (.updateBelief call) =>
    rt.quad.Live call.id → (rt.updateBelief call).2.quad ≠ rt.quad → rt.Allows AuthPolicies.update
  | .mutate (.checkpoint _) => True
  | .mutate (.rollbackTo id) =>
    (rt.rollbackTo id).2.quad ≠ rt.quad → rt.Allows AuthPolicies.rollback
  | .retrieveForQuery queryEmb nowMs budgetTokens =>
    rt.retrieveForQuery queryEmb nowMs budgetTokens ≠ [] → rt.Allows AuthPolicies.read

/-- the policy allows the operation, or it has no effect -/
def Guarded (rt : BeliefRuntime M G) (policies : AuthPolicies) : GovernedOp → Prop
  | .mutate (.insertBelief _ _) => policies.write.allows "system" = true
  | .mutate (.updateBelief call) =>
    policies.update.allows "system" = true ∨ ¬ rt.quad.Live call.id ∨ ¬ rt.Admits call ∨
      rt.Recovers call rt.quad
  | .mutate (.checkpoint _) => True
  | .mutate (.rollbackTo id) =>
    policies.rollback.allows "system" = true ∨ ∀ snap, rt.quad.RollsBack id snap → snap = rt.quad
  | .retrieveForQuery _ nowMs _ =>
    policies.read.allows "system" = true ∨
      ∀ id n, rt.quad.get id = some n → n.isExpired nowMs = true

variable {rt : BeliefRuntime M G}

/-! ## the effect of each operation -/

theorem live_insertBelief (node : BeliefNode) (scenarios : Option (List ProspectiveEntry))
    (id : BeliefId) : (rt.insertBelief node scenarios).2.quad.Live id ↔
      rt.quad.Live id ∨ id = rt.quad.nextId := by
  rw [← BeliefQuad.live_insert rt.quad node id]
  unfold insertBelief
  simp only
  split <;> rfl

/-- an insertion adds a belief, whatever the policies say -/
theorem adds_insertBelief (node : BeliefNode) (scenarios : Option (List ProspectiveEntry)) :
    ∃ id, ¬ rt.quad.Live id ∧ (rt.insertBelief node scenarios).2.quad.Live id :=
  ⟨rt.quad.nextId, rt.quad.not_live_nextId, (live_insertBelief node scenarios _).mpr (.inr rfl)⟩

/-- a quad with the checkpoint of the call is not the quad before it -/
theorem ne_of_checkpoints (call : UpdateCall) {q : BeliefQuad M G}
    (h : q.checkpoints = (rt.revisedQuad call).checkpoints) : q ≠ rt.quad := by
  intro he
  rw [he, checkpoints_revisedQuad] at h
  have hlen := congrArg List.length h
  rw [List.length_append, List.length_singleton] at hlen
  omega

/-- **when an update leaves the quad as it was**: when it is refused, or when a recovery restores
just that quad -/
theorem quad_updateBelief_iff (call : UpdateCall) : (rt.updateBelief call).2.quad = rt.quad ↔
    ¬ rt.Admits call ∨ rt.Recovers call rt.quad := by
  rcases rt.updateBelief_cases call with
    ⟨hno, hq, -⟩ | ⟨ha, hq, e, he, -⟩ | ⟨ha, hok, hq, -⟩
  · exact iff_of_true hq (.inl hno)
  · refine iff_of_false (ne_of_checkpoints call (congrArg _ hq)) (not_or.mpr ⟨not_not.mpr ha, ?_⟩)
    intro hrec
    obtain ⟨⟨out, hout⟩, -⟩ := hrec
    rw [he] at hout
    cases hout
  · rw [or_iff_right (not_not.mpr ha), hq]
    rcases rt.contractEngine.postUpdate_quad (rt.revisedQuad call)
        (some call.checkpointStamp.uuid) (rt.keyOf call.id) "system" call.auditMs with
      ⟨snap, hs, hv⟩ | ⟨hno, hv⟩
    · have hverdict : (rt.verdict call).2.2 = snap := hv
      rw [hverdict]
      constructor
      · intro hsame
        rw [hsame] at hs
        exact ⟨hok, hs⟩
      · exact fun hrec => hs.unique hrec.2
    · have hverdict : (rt.revisedQuad call).OnlyConfidences (rt.verdict call).2.2 := hv
      exact iff_of_false (ne_of_checkpoints call hverdict.checkpoints) fun hrec =>
        hno rt.quad hrec.2

theorem quad_rollbackTo_iff (id : CheckpointId) : (rt.rollbackTo id).2.quad = rt.quad ↔
    ∀ snap, rt.quad.RollsBack id snap → snap = rt.quad := by
  have hquad : (rt.rollbackTo id).2.quad = (rt.quad.rollbackTo id).2 := rfl
  rw [hquad]
  by_cases hs : ∃ snap, rt.quad.RollsBack id snap
  · obtain ⟨snap, hs⟩ := hs
    rw [hs.eq]
    constructor
    · intro hsame snap' hs'
      exact ((Prod.mk.inj (hs'.eq.symm.trans hs.eq)).2).trans hsame
    · exact fun h => h snap hs
  · have hno : ∀ snap, ¬ rt.quad.RollsBack id snap := fun snap hsnap => hs ⟨snap, hsnap⟩
    exact iff_of_true (BeliefQuad.rollbackTo_of_refused hno)
      fun snap hsnap => absurd hsnap (hno snap)

/-! ## runs -/

/-- no operation changes the policies -/
theorem policies_govern (rt : BeliefRuntime M G) (op : GovernedOp) :
    (rt.govern op).contractEngine.sovereignty.map MnemonicSovereignty.policies =
      rt.contractEngine.sovereignty.map MnemonicSovereignty.policies := by
  cases op with
  | retrieveForQuery queryEmb nowMs budgetTokens => rfl
  | mutate op =>
    cases op with
    | insertBelief node scenarios => rfl
    | checkpoint stamp => rfl
    | rollbackTo id => rfl
    | updateBelief call =>
      show (rt.updateBelief call).2.contractEngine.sovereignty.map _ = _
      rcases rt.sovereignty_updateBelief call with ⟨-, -, entry, -, -, hsov⟩ | ⟨-, hsov⟩
      · rw [hsov, Option.map_map]
        rfl
      · rw [hsov]

theorem allows_iff {policies : AuthPolicies}
    (h : rt.contractEngine.sovereignty.map MnemonicSovereignty.policies = some policies)
    (auth : AuthPolicies → AuthPolicy) :
    rt.Allows auth ↔ (auth policies).allows "system" = true := by
  obtain ⟨sov, hsov, rfl⟩ := Option.map_eq_some_iff.mp h
  constructor
  · exact fun ha => ha sov hsov
  · intro ha sov' hsov'
    obtain rfl := Option.some.inj (hsov.symm.trans hsov')
    exact ha

/-- one operation keeps to its policy exactly when the policy allows it, or it has no effect -/
theorem enforced_iff {policies : AuthPolicies}
    (h : rt.contractEngine.sovereignty.map MnemonicSovereignty.policies = some policies)
    (op : GovernedOp) : rt.Enforced op ↔ rt.Guarded policies op := by
  cases op with
  | retrieveForQuery queryEmb nowMs budgetTokens =>
    show (rt.retrieveForQuery queryEmb nowMs budgetTokens ≠ [] → rt.Allows AuthPolicies.read) ↔
      policies.read.allows "system" = true ∨
        ∀ id n, rt.quad.get id = some n → n.isExpired nowMs = true
    rw [allows_iff h, retrieveForQuery_ne_nil_iff, imp_iff_not_or, or_comm]
    refine or_congr_right ?_
    rw [not_exists]
    refine forall_congr' fun id => ?_
    rw [not_exists]
    exact forall_congr' fun n => not_and.trans (imp_congr_right fun _ => by rw [Bool.not_eq_false])
  | mutate op =>
    cases op with
    | insertBelief node scenarios =>
      exact (imp_iff_right (adds_insertBelief node scenarios)).trans
        (allows_iff h AuthPolicies.write)
    | checkpoint stamp => exact Iff.rfl
    | rollbackTo id =>
      show ((rt.rollbackTo id).2.quad ≠ rt.quad → rt.Allows AuthPolicies.rollback) ↔
        policies.rollback.allows "system" = true ∨
          ∀ snap, rt.quad.RollsBack id snap → snap = rt.quad
      rw [allows_iff h, ne_eq, quad_rollbackTo_iff, imp_iff_not_or, not_not, or_comm]
    | updateBelief call =>
      show (rt.quad.Live call.id → (rt.updateBelief call).2.quad ≠ rt.quad →
          rt.Allows AuthPolicies.update) ↔
        policies.update.allows "system" = true ∨ ¬ rt.quad.Live call.id ∨ ¬ rt.Admits call ∨
          rt.Recovers call rt.quad
      rw [allows_iff h, ne_eq, quad_updateBelief_iff, imp_iff_not_or, imp_iff_not_or, not_not]
      exact or_assoc.symm.trans or_comm

/-- **the runs in which every operation keeps to its own policy**: those whose insertions are
allowed to write, and whose updates of live beliefs, rollbacks and queries are allowed by their
policies or have no effect -/
theorem sovereignty_enforced_iff (rt : BeliefRuntime M G) (sov : MnemonicSovereignty M G)
    (h : rt.contractEngine.sovereignty = some sov) (ops : List GovernedOp) :
    (∀ t op, StepOf govern rt ops t op → t.Enforced op) ↔
      ∀ t op, StepOf govern rt ops t op → t.Guarded sov.policies op := by
  have hpolicies : ∀ t op, StepOf govern rt ops t op →
      t.contractEngine.sovereignty.map MnemonicSovereignty.policies = some sov.policies := by
    intro t op hstep
    refine @stateOf_invariant _ _ _ (fun t : BeliefRuntime M G =>
      t.contractEngine.sovereignty.map MnemonicSovereignty.policies = some sov.policies)
      (fun t op ht => (policies_govern t op).trans ht) _ ?_ _ _ hstep.state
    rw [h]
    rfl
  exact forall₂_congr fun t op => forall_congr' fun hstep => enforced_iff (hpolicies t op hstep) op

end BeliefRuntime
end

section
attribute [local instance] Platform.ascii

/-- who may do everything does nothing that is not allowed -/
theorem sovereignty_enforced_audited :
    (audited []).contractEngine.sovereignty = some permissive ∧
    ∀ t op, StepOf BeliefRuntime.govern (audited [])
      [.mutate (.updateBelief doubt), .mutate (.rollbackTo 11), .retrieveForQuery [] 0 100] t op →
        t.Enforced op := by
  refine ⟨rfl, ((audited []).sovereignty_enforced_iff permissive rfl _).mpr fun t op _ => ?_⟩
  cases op with
  | retrieveForQuery queryEmb nowMs budgetTokens => exact .inl rfl
  | mutate op =>
    cases op with
    | insertBelief node scenarios => rfl
    | checkpoint stamp => exact trivial
    | rollbackTo id => exact .inl rfl
    | updateBelief call => exact .inl rfl

def newPlan : BeliefNode := .new 0 "plan" (.asserted "go") (.userStatement 0) 1

/-- the goal in a runtime in which nobody may read, update or roll back -/
def locked (write : AllowedAgents) : BeliefRuntime SlotVec EdgeList :=
  .build goal (1 / 2) [] (some ⟨⟨write⟩, ⟨.humanApprovalRequired⟩, ⟨.denylist ["system"]⟩, ⟨[]⟩,
    ⟨.allowlist ["operator"]⟩, fun _ => .verified⟩) false (15 / 100)

theorem not_allows_locked (write : AllowedAgents) {auth : AuthPolicies → AuthPolicy}
    (hdenied : (auth ⟨⟨write⟩, ⟨.humanApprovalRequired⟩, ⟨.denylist ["system"]⟩,
      ⟨.allowlist ["operator"]⟩⟩).allows "system" = false) : ¬ (locked write).Allows auth := by
  rw [BeliefRuntime.allows_iff rfl, Bool.not_eq_true]
  exact hdenied

/-- an insertion that may not write, an update, a query and (of what a checkpoint has captured
before an insertion) a rollback: each has an effect that its policy denies -/
theorem sovereignty_bypassed :
    ¬ (locked (.allowlist ["operator"])).Enforced (.mutate (.insertBelief newPlan none)) ∧
    ¬ (locked .any).Enforced (.mutate (.updateBelief doubt)) ∧
    ¬ (locked .any).Enforced (.retrieveForQuery [] 0 100) ∧
    ¬ ∀ t op, StepOf BeliefRuntime.govern (locked .any) [.mutate (.checkpoint ⟨5, 0⟩),
      .mutate (.insertBelief newPlan none), .mutate (.rollbackTo 5)] t op →
        t.Enforced op := by
  refine ⟨fun h => ?_, fun h => ?_, fun h => ?_, fun h => ?_⟩
  · exact not_allows_locked _ rfl (h (BeliefRuntime.adds_insertBelief _ none))
  · refine not_allows_locked .any rfl (h (by decide +kernel) fun hsame => ?_)
    have hlen := congrArg (fun q : BeliefQuad SlotVec EdgeList => q.checkpoints.length) hsame
    exact absurd hlen (by decide +kernel)
  · refine not_allows_locked .any rfl (h fun hnone => ?_)
    exact absurd (congrArg List.length hnone) (by decide +kernel)
  · have hroll := h _ (.mutate (.rollbackTo 5)) ⟨[.mutate (.checkpoint ⟨5, 0⟩),
      .mutate (.insertBelief newPlan none)], [], rfl, rfl⟩
    refine not_allows_locked .any rfl (hroll fun hsame => ?_)
    have hlen := congrArg
      (fun q : BeliefQuad SlotVec EdgeList => (SlotMap.iter q.nodes).length) hsame
    exact absurd hlen (by decide +kernel)

end
end Epica
