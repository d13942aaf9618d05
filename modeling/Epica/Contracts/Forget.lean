import Epica.Core.RevisionLaws
import Epica.Core.Runs

/-!
# Forgetting

`ForgetPolicy.execute` asks its verifier about the quad as it is, and then removes the belief
whatever the answer.  `defaultCausalVerifyFn` looks for causal descendants, and at nothing else.

* `defaultCausalVerifyFn_verified_iff`   what `Verified` says: the belief is live, and nothing
                                         descends from it;
* `later_notRestorable`                  a belief that is in no captured quad does not come back;
* `forget_final_iff`                     a verified belief is forgotten for good exactly when no
                                         other edge lists it among its premises, no other belief
                                         refers to it, and no checkpoint mentions it.
-/

set_option linter.unusedSectionVars false

namespace Epica
open Lib

/-! ## policies -/

inductive ForgetTrigger where
  | ttlExpired
  | contractRevoked
  | explicitRequest (authorizedBy : String)
  | crossAgentContamination (sourceAgent : String)
  | governanceMandated (policyId : String)

inductive ForgetVerificationResult where
  | verified
  | persistenceNotVerified (backends : List String)
  | partialDeletion (remainingPaths : List (List BeliefId))
  | verificationError (message : String)
deriving DecidableEq

structure ForgetPolicy (M : Type → Type) (G : Type → Type → Type) where
  triggers : List ForgetTrigger
  verifyFn : BeliefId → BeliefQuad M G → ForgetVerificationResult

variable {M : Type → Type} {G : Type → Type → Type} [SlotMap M] [StableDiGraph G]

namespace ForgetPolicy

/-- the removal is unconditional -/
def execute (policy : ForgetPolicy M G) (id : BeliefId) (quad : BeliefQuad M G) :
    ForgetVerificationResult × BeliefQuad M G :=
  (policy.verifyFn id quad, (quad.remove id).2)

end ForgetPolicy

def defaultCausalVerifyFn (id : BeliefId) (quad : BeliefQuad M G) : ForgetVerificationResult :=
  if (quad.get id).isNone then
    .verificationError "belief not found in quad — already removed?"
  else
    let descendants := CausalGraph.descendantsOf quad.causal id
    if descendants.isEmpty then .verified else .partialDeletion [descendants]

/-- **what `Verified` says** -/
theorem defaultCausalVerifyFn_verified_iff {id : BeliefId} {quad : BeliefQuad M G} :
    defaultCausalVerifyFn id quad = .verified ↔
      quad.Live id ∧ CausalGraph.descendantsOf quad.causal id = [] := by
  unfold defaultCausalVerifyFn
  by_cases hl : quad.Live id
  · have hsome : ¬ (quad.get id).isNone = true := by
      rw [Option.isNone_iff_eq_none]
      exact fun h => BeliefQuad.not_live_iff.mpr h hl
    rw [if_neg hsome, and_iff_right hl, ← List.isEmpty_iff]
    simp only
    split
    · rename_i h
      exact iff_of_true rfl h
    · rename_i h
      exact iff_of_false (fun h' => nomatch h') h
  · rw [if_pos (Option.isNone_iff_eq_none.mpr (BeliefQuad.not_live_iff.mp hl))]
    exact iff_of_false (fun h => nomatch h) fun h => hl h.1

/-! ## what mentions a belief -/

namespace BeliefQuad

/-- an edge has `id` among its premises -/
def InPremises (q : BeliefQuad M G) (id : BeliefId) : Prop :=
  ∃ src dst premises, (src, dst, CausalEdge.inferredFrom premises) ∈ q.causal.edges ∧
    id ∈ premises

/-- a live belief refers to `id` -/
def Referenced (q : BeliefQuad M G) (id : BeliefId) : Prop :=
  ∃ j n, q.get j = some n ∧ n.value = .reference id

/-- `id` occurs somewhere in the quad -/
inductive Mentions (q : BeliefQuad M G) (id : BeliefId) : Prop where
  | live (h : q.Live id)
  | premise (h : q.InPremises id)
  | antecedent (src dst : BeliefId) (h : (src, dst, CausalEdge.counterfactual id) ∈ q.causal.edges)
  | reference (h : q.Referenced id)
  | derived (j : BeliefId) (n : BeliefNode) (ids : List BeliefId) (h : q.get j = some n)
      (hp : n.provenance = .runtimeInference ids) (hid : id ∈ ids)
  | prospective (j : BeliefId) (entries : List ProspectiveEntry)
      (h : q.prospectiveIndex.entries.lookup j = some entries)
      (hid : j = id ∨ ∃ e ∈ entries, ∃ event ∈ e.causalEvents, id ∈ event.preconditionBeliefs)

/-- `id` is in no captured quad, and not in this one -/
structure NotRestorable (q : BeliefQuad M G) (id : BeliefId) : Prop where
  dead : ¬ q.Live id
  captured : ∀ cp ∈ q.checkpoints, ¬ cp.quad.Live id

end BeliefQuad

/-- the operations on ids that exist: nothing is inserted, and no edge is added -/
def Op.Later : Op → Prop
  | .revise .. => True
  | .remove _ => True
  | .checkpoint .. => True
  | .rollbackTo _ => True
  | _ => False

namespace BeliefQuad
section
variable [Platform] {q : BeliefQuad M G} {id : BeliefId}

/-- a revision makes nothing live -/
theorem live_of_revise {stamp : Stamp} {order : HashOrder BeliefId} {j : BeliefId}
    {v : BeliefValue} {p : Provenance} {c : ℚ} (h : (q.revise stamp order j v p c).2.Live id) :
    q.Live id := by
  obtain ⟨n, hn⟩ := live_iff.mp h
  rw [get_revise] at hn
  split at hn
  · cases hn
  · split at hn
    · obtain ⟨n', hn', -⟩ := Option.map_eq_some_iff.mp hn
      exact live_iff.mpr ⟨n', hn'⟩
    · exact live_iff.mpr ⟨n, hn⟩

/-- **one later operation brings nothing back that is in no captured quad** -/
theorem later_notRestorable (hw : q.WellFormed) (h : q.NotRestorable id) {op : Op}
    (hop : op.Later) : (q.step op).NotRestorable id := by
  cases op with
  | revise stamp order j v p c =>
    refine ⟨fun hl => h.dead (live_of_revise hl), fun cp hcp => ?_⟩
    have hc : (q.revise stamp order j v p c).2.checkpoints = q.checkpoints :=
      revise_checkpoints stamp order j v p c
    exact h.captured cp (hc ▸ hcp)
  | remove j =>
    refine ⟨fun hl => h.dead ((live_remove q j id).mp hl).1, fun cp hcp => ?_⟩
    exact h.captured cp (remove_checkpoints q j ▸ hcp)
  | checkpoint uuid nowMs =>
    refine ⟨h.dead, fun cp hcp => ?_⟩
    rcases List.mem_append.mp hcp with hcp | hcp
    · exact h.captured cp hcp
    · rw [List.mem_singleton.mp hcp]
      exact h.dead
  | rollbackTo cpId =>
    show (q.rollbackTo cpId).2.NotRestorable id
    rcases q.rollbackTo_cases cpId with ⟨-, e⟩ | ⟨cp, -, -, e⟩ | ⟨snap, hs, e⟩
    · rw [e]
      exact h
    · rw [e]
      exact h
    · rw [e]
      obtain ⟨cp, hcp, -, rfl⟩ := hs.mem
      refine ⟨h.captured cp hcp, fun cp' hcp' => ?_⟩
      rw [(hw.captured cp hcp).2] at hcp'
      exact absurd hcp' List.not_mem_nil
  | _ => exact absurd hop not_false

theorem run_notRestorable (hw : q.WellFormed) (h : q.NotRestorable id) {ops : List Op}
    (hops : ∀ op ∈ ops, op.Later) : (run step q ops).NotRestorable id := by
  have hall := @run_invariant_of _ _ step (fun q : BeliefQuad M G => q.WellFormed ∧
    q.NotRestorable id) (fun _ op => op.Later)
    (fun q op hi hop => ⟨step_wellFormed q op hi.1, later_notRestorable hi.1 hi.2 hop⟩) q ops
    ⟨hw, h⟩ fun t op hop => by
      obtain ⟨pre, post, rfl, -⟩ := hop
      exact hops op (List.mem_append_right _ List.mem_cons_self)
  exact (hall _ (stateOf_last q ops)).2

/-! ## forgotten for good -/

/-- `id` is forgotten in `q`: it never comes back, and neither an edge, nor a reference, nor a
checkpoint mentions it -/
structure Forgotten (q : BeliefQuad M G) (id : BeliefId) : Prop where
  final : ∀ ops : List Op, (∀ op ∈ ops, op.Later) → ¬ (run step q ops).Live id
  premises : ¬ q.InPremises id
  references : ¬ q.Referenced id
  checkpoints : ∀ cp ∈ q.checkpoints, ¬ cp.quad.Mentions id

/-- before `id` is removed: no edge into another belief, no other belief's reference and no
checkpoint mentions it -/
structure Unmentioned (q : BeliefQuad M G) (id : BeliefId) : Prop where
  premises : ∀ src dst premises, (src, dst, CausalEdge.inferredFrom premises) ∈ q.causal.edges →
    dst ≠ id → id ∉ premises
  references : ∀ j n, j ≠ id → q.get j = some n → n.value ≠ .reference id
  checkpoints : ∀ cp ∈ q.checkpoints, ¬ cp.quad.Mentions id

/-- no edge leads from a belief without descendants to another one -/
theorem ne_of_descendantsOf_nil (h : q.GraphsSynced) (hl : q.Live id)
    (hd : CausalGraph.descendantsOf q.causal id = []) {src dst : BeliefId} {w : CausalEdge}
    (he : (src, dst, w) ∈ q.causal.edges) (hdst : dst ≠ id) : src ≠ id := by
  intro hsrc
  subst hsrc
  have hreach : dst ∈ CausalGraph.descendantsOf q.causal src :=
    (h.causal.mem_reachableFrom src dst).mpr
      ⟨hdst, hl, .single ⟨w, Projection.mem_edges.mp he⟩⟩
  rw [hd] at hreach
  exact absurd hreach List.not_mem_nil

/-- what mentions a belief without descendants after its removal -/
theorem forgotten_remove_iff (hw : q.WellFormed) (hl : q.Live id)
    (hd : CausalGraph.descendantsOf q.causal id = []) :
    (q.remove id).2.Forgotten id ↔ q.Unmentioned id := by
  have hcausal : ∀ src dst premises,
      (src, dst, CausalEdge.inferredFrom premises) ∈ (q.remove id).2.causal.edges ↔
        (src, dst, CausalEdge.inferredFrom premises) ∈ q.causal.edges ∧ src ≠ id ∧ dst ≠ id := by
    intro src dst premises
    have hstore := congrArg Store.causal (store_remove hw.synced.toGraphsSynced id)
    rw [show (q.remove id).2.causal.edges = Edges.restrict (fun j => j ≠ id) q.causal.edges
      from hstore]
    exact Multiset.mem_filter
  have hchecks : (q.remove id).2.checkpoints = q.checkpoints := remove_checkpoints q id
  constructor
  · intro h
    refine ⟨fun src dst premises he hdst hid => ?_, fun j n hj hn hv => ?_, fun cp hcp => ?_⟩
    · have hsrc := ne_of_descendantsOf_nil hw.synced.toGraphsSynced hl hd he hdst
      exact h.premises ⟨src, dst, premises, (hcausal src dst premises).mpr ⟨he, hsrc, hdst⟩, hid⟩
    · exact h.references ⟨j, n, by rw [get_remove, if_neg hj]; exact hn, hv⟩
    · exact h.checkpoints cp (hchecks ▸ hcp)
  · intro h
    have hnot : (q.remove id).2.NotRestorable id := by
      refine ⟨fun hl => ((live_remove q id id).mp hl).2 rfl, fun cp hcp hl => ?_⟩
      exact h.checkpoints cp (hchecks ▸ hcp) (.live hl)
    refine ⟨fun ops hops => ?_, ?_, ?_, fun cp hcp => ?_⟩
    · exact (run_notRestorable (step_wellFormed q (.remove id) hw) hnot hops).dead
    · intro hp
      obtain ⟨src, dst, premises, he, hid⟩ := hp
      obtain ⟨he', -, hdst⟩ := (hcausal src dst premises).mp he
      exact h.premises src dst premises he' hdst hid
    · intro hr
      obtain ⟨j, n, hn, hv⟩ := hr
      rw [get_remove] at hn
      split at hn
      · cases hn
      · rename_i hj
        exact h.references j n hj hn hv
    · exact h.checkpoints cp (hchecks ▸ hcp)

end
end BeliefQuad

section
variable [Platform]

/-- **a belief whose removal has been verified is forgotten for good exactly when nothing else
mentions it before**: no edge between other beliefs, no other belief's reference, no checkpoint -/
theorem forget_final_iff (ops : List Op) (id : BeliefId) (triggers : List ForgetTrigger)
    (hverified : (ForgetPolicy.execute ⟨triggers, defaultCausalVerifyFn⟩ id
      (run BeliefQuad.step (.new : BeliefQuad M G) ops)).1 = .verified) :
    (ForgetPolicy.execute ⟨triggers, defaultCausalVerifyFn⟩ id
        (run BeliefQuad.step (.new : BeliefQuad M G) ops)).2.Forgotten id ↔
      (run BeliefQuad.step (.new : BeliefQuad M G) ops).Unmentioned id := by
  obtain ⟨hl, hd⟩ := defaultCausalVerifyFn_verified_iff.mp hverified
  exact BeliefQuad.forgotten_remove_iff
    (BeliefQuad.wellFormed_run BeliefQuad.wellFormed_new ops) hl hd

end

section
attribute [local instance] Platform.ascii

/-- a secret, a plan, and another belief that refers to the plan -/
def secretKept : List Op :=
  [.insert (.new 0 "secret" (.asserted "token") (.userStatement 0) (4 / 5)),
   .insert (.new 0 "plan" (.asserted "ship") (.userStatement 0) (4 / 5)),
   .insert (.new 0 "alias" (.reference ⟨2, 1⟩) (.userStatement 0) (4 / 5))]

/-- what `execute` does with the default verifier -/
def forget (id : BeliefId) (q : BeliefQuad SlotVec EdgeList) :
    ForgetVerificationResult × BeliefQuad SlotVec EdgeList :=
  ForgetPolicy.execute ⟨[.ttlExpired], defaultCausalVerifyFn⟩ id q

/-- nothing else mentions the secret, and it is forgotten for good -/
theorem forget_final_secret :
    (forget ⟨1, 1⟩ (run BeliefQuad.step .new secretKept)).1 = .verified ∧
    (forget ⟨1, 1⟩ (run BeliefQuad.step .new secretKept)).2.Forgotten ⟨1, 1⟩ := by
  have hverified : (forget ⟨1, 1⟩ (run BeliefQuad.step .new secretKept)).1 = .verified := by
    decide +kernel
  refine ⟨hverified, (forget_final_iff secretKept ⟨1, 1⟩ [.ttlExpired] hverified).mpr
    ⟨fun src dst premises he => ?_, fun j n _ hn hv => ?_, fun cp hcp => ?_⟩⟩
  · have hnone : (run BeliefQuad.step (.new : BeliefQuad SlotVec EdgeList)
      secretKept).causal.allEdges = [] := by decide +kernel
    have he' := Projection.mem_edges.mp he
    rw [hnone] at he'
    exact absurd he' List.not_mem_nil
  · have hmem := (SlotMap.mem_iter (run BeliefQuad.step (.new : BeliefQuad SlotVec EdgeList)
      secretKept).nodes j n).mpr hn
    have hall : ∀ e ∈ SlotMap.iter (run BeliefQuad.step (.new : BeliefQuad SlotVec EdgeList)
      secretKept).nodes, e.2.value ≠ .reference ⟨1, 1⟩ := by decide +kernel
    exact hall _ hmem hv
  · exact absurd hcp List.not_mem_nil

/-- a checkpoint is taken, the secret is a premise of the plan beside another belief, and the alias
refers to it -/
def secretShared : List Op :=
  [.insert (.new 0 "secret" (.asserted "token") (.userStatement 0) (4 / 5)),
   .insert (.new 0 "plan" (.asserted "ship") (.userStatement 0) (4 / 5)),
   .insert (.new 0 "alias" (.reference ⟨1, 1⟩) (.userStatement 0) (4 / 5)),
   .addCausalEdge ⟨3, 1⟩ ⟨2, 1⟩ (.inferredFrom [⟨1, 1⟩, ⟨3, 1⟩]), .checkpoint 7 0]

/-- verified, and then rolled back to, and listed, and referred to -/
theorem verified_not_forgotten :
    (forget ⟨1, 1⟩ (run BeliefQuad.step .new secretShared)).1 = .verified ∧
    ((run BeliefQuad.step (forget ⟨1, 1⟩ (run BeliefQuad.step .new secretShared)).2
      [.rollbackTo 7]).get ⟨1, 1⟩).map BeliefNode.value = some (.asserted "token") ∧
    ¬ (forget ⟨1, 1⟩ (run BeliefQuad.step .new secretShared)).2.Forgotten ⟨1, 1⟩ := by
  refine ⟨by decide +kernel, by decide +kernel, fun h => ?_⟩
  refine h.final [.rollbackTo 7] (fun op hop => ?_) (by decide +kernel)
  rw [List.mem_singleton.mp hop]
  exact trivial

end
end Epica
