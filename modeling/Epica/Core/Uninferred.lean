import Epica.Core.RevisionLaws

/-!
# Quads that record no inference

What a revision contracts are premises of `InferredFrom` edges.  Where no caller adds such an edge,
a revision contracts nothing.

* `step_noInference`   an operation that adds no `InferredFrom` edge brings none in, neither into
                       the quad nor into what it captures;
* `retracts_run`       so after a run of such operations no revision contracts anything.
-/

set_option linter.unusedSectionVars false

namespace Epica
open Lib

/-- the operation adds no `InferredFrom` edge -/
def Op.Plain : Op → Prop
  | .addCausalEdge _ _ edge => edge.premises? = none
  | _ => True

namespace BeliefQuad
section
variable {M : Type → Type} {G : Type → Type → Type} [SlotMap M] [StableDiGraph G] [Platform]

def Uninferred (q : BeliefQuad M G) : Prop := ∀ e ∈ q.causal.edges, e.2.2.premises? = none

variable {q q' : BeliefQuad M G}

theorem uninferred_new : (new : BeliefQuad M G).Uninferred := by
  intro e he
  have hnone : e ∈ (Projection.new : Projection G CausalEdge).edges := he
  rw [Projection.edges_new] at hnone
  exact absurd hnone (Multiset.notMem_zero e)

theorem Uninferred.insert (h : q.Uninferred) (node : BeliefNode) :
    (q.insert node).2.Uninferred := by
  intro e he
  have hsame : (q.insert node).2.causal.edges = q.causal.edges :=
    Projection.edges_addNode q.causal q.nextId
  rw [hsame] at he
  exact h e he

theorem Uninferred.remove (hs : q.GraphsSynced) (h : q.Uninferred) (id : BeliefId) :
    (q.remove id).2.Uninferred := by
  intro e he
  have hless : (q.remove id).2.causal.edges = Edges.restrict (fun j => j ≠ id) q.causal.edges :=
    congrArg Store.causal (store_remove hs id)
  rw [hless] at he
  exact h e (Multiset.mem_filter.mp he).1

theorem Uninferred.addCausalEdge (hs : q.GraphsSynced) (h : q.Uninferred) {src dst : BeliefId}
    {edge : CausalEdge} (hplain : edge.premises? = none) :
    (q.addCausalEdge src dst edge).Uninferred := by
  intro e he
  have he' : e ∈ (q.causal.addEdge src dst edge).edges := he
  by_cases hl : q.Live src ∧ q.Live dst
  · rw [Projection.edges_addEdge hs.causal edge hl] at he'
    rcases Multiset.mem_cons.mp he' with rfl | he'
    · exact hplain
    · exact h e he'
  · rw [Projection.addEdge_of_dead hs.causal edge hl] at he'
    exact h e he'

theorem Uninferred.revise (hs : q.GraphsSynced) (h : q.Uninferred) (stamp : Stamp)
    (order : HashOrder BeliefId) (id : BeliefId) (v : BeliefValue) (p : Provenance) (c : ℚ) :
    (q.revise stamp order id v p c).2.Uninferred := by
  refine revise_quad stamp order id v p c q Uninferred h ?_ fun _ _ hb => hb
  exact (removeAll_induction (fun q' => q'.GraphsSynced ∧ q'.Uninferred)
    (fun _ j hq => ⟨hq.1.remove j, hq.2.remove hq.1 j⟩) ⟨hs, h⟩ _).2

/-- **without `InferredFrom` edges nothing is contracted** -/
theorem Uninferred.retracts_eq (hs : q.GraphsSynced) (h : q.Uninferred) (id : BeliefId)
    (v : BeliefValue) : q.retracts id v = ∅ := by
  have hset : ∀ b, b ∉ q.minimalContractionSet id := by
    intro b hb
    obtain ⟨ps, ⟨a, ha⟩, -⟩ := (mem_minimalContractionSet hs).mp hb
    have hnone := h _ (Projection.mem_edges.mpr ha)
    cases hnone
  unfold retracts
  split
  · refine Finset.eq_empty_of_forall_notMem fun b hb => ?_
    exact hset b ((mem_contractedSet_iff b).mp hb).2
  · rfl

/-! ## runs -/

/-- no `InferredFrom` edge, neither in the quad nor in a captured one -/
structure NoInference (q : BeliefQuad M G) : Prop extends q.WellFormed where
  current : q.Uninferred
  kept : ∀ cp ∈ q.checkpoints, cp.quad.Uninferred

theorem noInference_new : (new : BeliefQuad M G).NoInference :=
  ⟨wellFormed_new, uninferred_new, fun _ h => absurd h List.not_mem_nil⟩

/-- a captured quad holds none either -/
theorem NoInference.rollbackTo (h : q.NoInference) (id : CheckpointId) :
    (q.rollbackTo id).2.NoInference := by
  have hw := h.toWellFormed.rollbackTo id
  rcases q.rollbackTo_cases id with ⟨-, e⟩ | ⟨cp, -, -, e⟩ | ⟨snap, hsnap, e⟩
  · rw [e]
    exact h
  · rw [e]
    exact h
  · obtain ⟨cp, hcp, -, rfl⟩ := hsnap.mem
    have hnone := (h.captured cp hcp).2
    rw [e] at hw ⊢
    refine ⟨hw, h.kept cp hcp, fun cp' hcp' => ?_⟩
    have hcp'' : cp' ∈ cp.quad.checkpoints := hcp'
    rw [hnone] at hcp''
    exact absurd hcp'' List.not_mem_nil

/-- **a plain operation brings none in** -/
theorem step_noInference (h : q.NoInference) {op : Op} (hop : op.Plain) :
    (q.step op).NoInference := by
  have hs := h.synced.toGraphsSynced
  have hkeep : ∀ {q' : BeliefQuad M G}, q'.WellFormed → q'.Uninferred →
      q'.checkpoints = q.checkpoints → q'.NoInference :=
    fun hw hu hc => ⟨hw, hu, fun cp hcp => h.kept cp (hc ▸ hcp)⟩
  have hw := step_wellFormed q op h.toWellFormed
  cases op with
  | insert node => exact hkeep hw (h.current.insert node) rfl
  | remove id => exact hkeep hw (h.current.remove hs id) (remove_checkpoints q id)
  | addSemanticEdge src dst edge => exact hkeep hw h.current rfl
  | addTemporalEdge src dst edge => exact hkeep hw h.current rfl
  | addCausalEdge src dst edge => exact hkeep hw (h.current.addCausalEdge hs hop) rfl
  | addEntityEdge src dst edge => exact hkeep hw h.current rfl
  | revise stamp order id v p c =>
    exact hkeep hw (h.current.revise hs stamp order id v p c)
      (revise_checkpoints stamp order id v p c)
  | propagateSystem1 now order changed =>
    have ho := propagate_only now order q changed
    refine hkeep hw ?_ ho.checkpoints
    show (q.propagateSystem1 now order changed).Uninferred
    rw [ho.rest]
    exact h.current
  | checkpoint uuid nowMs =>
    refine ⟨hw, h.current, fun cp hcp => ?_⟩
    rcases List.mem_append.mp hcp with hcp | hcp
    · exact h.kept cp hcp
    · rw [List.mem_singleton.mp hcp]
      exact h.current
  | rollbackTo id => exact h.rollbackTo id
  | clearCheckpoints => exact ⟨hw, h.current, fun cp hcp => absurd hcp List.not_mem_nil⟩
  | setEmbeddingProvider provider => exact hkeep hw h.current rfl
  | setSemanticEquivalence equivalence => exact hkeep hw h.current rfl
  | indexProspective id entries => exact hkeep hw h.current rfl

/-- **after a run of plain operations no revision contracts anything** -/
theorem retracts_run (ops : List Op) (hops : ∀ op ∈ ops, op.Plain) (id : BeliefId)
    (v : BeliefValue) : (run step (new : BeliefQuad M G) ops).retracts id v = ∅ := by
  have hrun := @run_invariant_of _ _ step (NoInference (M := M) (G := G)) (fun _ op => op.Plain)
    (fun _ _ hq hop => step_noInference hq hop) new ops noInference_new ?_ _ (stateOf_last _ ops)
  · exact hrun.current.retracts_eq hrun.synced.toGraphsSynced id v
  · intro t op ht
    obtain ⟨pre, post, rfl, -⟩ := ht
    exact hops op (List.mem_append_right _ List.mem_cons_self)

end
end BeliefQuad
end Epica
