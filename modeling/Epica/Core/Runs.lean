import Epica.Lib.Run
import Epica.Core.Checkpoint
import Epica.Core.Revision
import Epica.Core.System1

/-!
# Runs of quad operations

`Op` lists the operations a caller has on a quad, each with its arguments and with what it draws
from outside: clock readings, uuids, enumeration orders of hash sets.  `step q op` is the quad the
operation leaves behind, whatever it returns.

* `WellFormed`          the quad is synced, and so is every captured quad, which holds no
                        checkpoints of its own;
* `step_wellFormed`     every operation keeps it;
* `run_wellFormed`      so every run from the empty quad does.
-/

set_option linter.unusedSectionVars false

namespace Epica
open Lib

inductive Op where
  | insert (node : BeliefNode)
  | remove (id : BeliefId)
  | addSemanticEdge (src dst : BeliefId) (edge : SemanticEdge)
  | addTemporalEdge (src dst : BeliefId) (edge : TemporalEdge)
  | addCausalEdge (src dst : BeliefId) (edge : CausalEdge)
  | addEntityEdge (src dst : BeliefId) (edge : EntityEdge)
  | revise (stamp : Stamp) (order : HashOrder BeliefId) (id : BeliefId) (newValue : BeliefValue)
      (newProvenance : Provenance) (newConfidence : ℚ)
  | propagateSystem1 (now : BeliefId → Nat) (order : BeliefId → HashOrder BeliefId)
      (changed : BeliefId)
  | checkpoint (uuid : Uuid) (nowMs : Nat)
  | rollbackTo (id : CheckpointId)
  | clearCheckpoints
  | setEmbeddingProvider (provider : Option EmbeddingProvider)
  | setSemanticEquivalence (equivalence : SemanticEquivalence)
  | indexProspective (id : BeliefId) (entries : List ProspectiveEntry)

namespace BeliefQuad
variable {M : Type → Type} {G : Type → Type → Type} [SlotMap M] [StableDiGraph G] [Platform]

def step (q : BeliefQuad M G) : Op → BeliefQuad M G
  | .insert node => (q.insert node).2
  | .remove id => (q.remove id).2
  | .addSemanticEdge src dst edge => q.addSemanticEdge src dst edge
  | .addTemporalEdge src dst edge => q.addTemporalEdge src dst edge
  | .addCausalEdge src dst edge => q.addCausalEdge src dst edge
  | .addEntityEdge src dst edge => q.addEntityEdge src dst edge
  | .revise stamp order id v p c => (q.revise stamp order id v p c).2
  | .propagateSystem1 now order changed => q.propagateSystem1 now order changed
  | .checkpoint uuid nowMs => (q.checkpoint uuid nowMs).2
  | .rollbackTo id => (q.rollbackTo id).2
  | .clearCheckpoints => q.clearCheckpoints
  | .setEmbeddingProvider provider => { q with embeddingProvider := provider }
  | .setSemanticEquivalence equivalence => { q with equivalence := equivalence }
  | .indexProspective id entries =>
    { q with prospectiveIndex := q.prospectiveIndex.insert id entries }

/-! ## revising and rolling back -/

section
variable {q : BeliefQuad M G} (stamp : Stamp) (order : HashOrder BeliefId) (id : BeliefId)
  (v : BeliefValue) (p : Provenance) (c : ℚ)

/-- whatever a revision returns, the quad it leaves is the old one, the contracted one, or one of
the two expanded -/
theorem revise_quad (q : BeliefQuad M G) (Inv : BeliefQuad M G → Prop) (h : Inv q)
    (hc : Inv (q.contracted order id))
    (he : ∀ b base, Inv base → Inv (base.expand id (revisedNode b v p c))) :
    Inv (q.revise stamp order id v p c).2 := by
  rcases q.revise_cases stamp order id v p c with
    ⟨-, e⟩ | ⟨-, -, e⟩ | ⟨-, -, -, r⟩ | ⟨-, -, -, -, e⟩ | ⟨-, -, -, -, r⟩
  · rw [e]
    exact h
  · rw [e]
    exact h
  · rw [r.quad]
    exact he _ _ h
  · rw [e]
    exact hc
  · rw [r.quad]
    exact he _ _ hc

theorem Synced.revise (h : q.Synced) : (q.revise stamp order id v p c).2.Synced :=
  revise_quad stamp order id v p c q _ h (h.applyContraction order _)
    fun _ _ hb => hb.expand id fun _ => rfl

theorem revise_checkpoints : (q.revise stamp order id v p c).2.checkpoints = q.checkpoints :=
  revise_quad stamp order id v p c q (fun q' => q'.checkpoints = q.checkpoints) rfl
    (applyContraction_checkpoints order _) fun _ _ hb => hb

end

/-! ## well-formed quads -/

structure WellFormed (q : BeliefQuad M G) : Prop where
  synced : q.Synced
  captured : ∀ cp ∈ q.checkpoints, cp.quad.Synced ∧ cp.quad.checkpoints = []

theorem wellFormed_new : (new : BeliefQuad M G).WellFormed :=
  ⟨synced_new, fun _ h => absurd h List.not_mem_nil⟩

variable {q q' : BeliefQuad M G}

/-- an operation that leaves the checkpoints alone only has to keep the quad synced -/
theorem WellFormed.of_checkpoints (h : q.WellFormed) (hs : q'.Synced)
    (hc : q'.checkpoints = q.checkpoints) : q'.WellFormed :=
  ⟨hs, fun cp hcp => h.captured cp (hc ▸ hcp)⟩

theorem WellFormed.checkpoint (h : q.WellFormed) (uuid : Uuid) (nowMs : Nat) :
    (q.checkpoint uuid nowMs).2.WellFormed := by
  refine ⟨h.synced.of_parts rfl rfl rfl rfl rfl, fun cp hcp => ?_⟩
  rcases List.mem_append.mp hcp with hcp | hcp
  · exact h.captured cp hcp
  · rw [List.mem_singleton.mp hcp]
    exact ⟨h.synced.of_parts rfl rfl rfl rfl rfl, rfl⟩

theorem WellFormed.rollbackTo (h : q.WellFormed) (id : CheckpointId) :
    (q.rollbackTo id).2.WellFormed := by
  rcases q.rollbackTo_cases id with ⟨-, e⟩ | ⟨cp, -, -, e⟩ | ⟨snap, hsnap, e⟩
  · rw [e]
    exact h
  · rw [e]
    exact h
  · rw [e]
    obtain ⟨cp, hcp, -, rfl⟩ := hsnap.mem
    obtain ⟨hs, hnone⟩ := h.captured cp hcp
    exact ⟨hs, fun cp' hcp' => by rw [hnone] at hcp'; exact absurd hcp' List.not_mem_nil⟩

/-- **every operation keeps a quad well formed** -/
theorem step_wellFormed (q : BeliefQuad M G) (op : Op) (h : q.WellFormed) :
    (q.step op).WellFormed := by
  cases op with
  | insert node => exact h.of_checkpoints (h.synced.insert node) rfl
  | remove id => exact h.of_checkpoints (h.synced.remove id) (remove_checkpoints q id)
  | addSemanticEdge src dst edge => exact h.of_checkpoints (h.synced.addSemanticEdge _ _ _) rfl
  | addTemporalEdge src dst edge => exact h.of_checkpoints (h.synced.addTemporalEdge _ _ _) rfl
  | addCausalEdge src dst edge => exact h.of_checkpoints (h.synced.addCausalEdge _ _ _) rfl
  | addEntityEdge src dst edge => exact h.of_checkpoints (h.synced.addEntityEdge _ _ _) rfl
  | revise stamp order id v p c =>
    exact h.of_checkpoints (h.synced.revise stamp order id v p c)
      (revise_checkpoints stamp order id v p c)
  | propagateSystem1 now order changed =>
    have ho := propagate_only now order q changed
    exact h.of_checkpoints (ho.synced h.synced) ho.checkpoints
  | checkpoint uuid nowMs => exact h.checkpoint uuid nowMs
  | rollbackTo id => exact h.rollbackTo id
  | clearCheckpoints =>
    exact ⟨h.synced.of_parts rfl rfl rfl rfl rfl, fun cp hcp => absurd hcp List.not_mem_nil⟩
  | setEmbeddingProvider provider =>
    exact h.of_checkpoints (h.synced.of_parts rfl rfl rfl rfl rfl) rfl
  | setSemanticEquivalence equivalence =>
    exact h.of_checkpoints (h.synced.of_parts rfl rfl rfl rfl rfl) rfl
  | indexProspective id entries =>
    exact h.of_checkpoints (h.synced.of_parts rfl rfl rfl rfl rfl) rfl

theorem wellFormed_run {q : BeliefQuad M G} (h : q.WellFormed) (ops : List Op) :
    (run step q ops).WellFormed := run_invariant step_wellFormed h ops

/-- **the five parts of a quad stay in step in every run**: whatever the operations and the ids
they are given, each graph has exactly the live ids for nodes, every edge joins two live ids, a
node's `id` is its key, the symmetric edges are symmetric, and the captured quads are the same
and hold no checkpoints -/
theorem run_in_step (ops : List Op) :
    (run step (new : BeliefQuad M G) ops).Synced ∧
      ∀ cp ∈ (run step (new : BeliefQuad M G) ops).checkpoints,
        cp.quad.Synced ∧ cp.quad.checkpoints = [] :=
  have h := wellFormed_run wellFormed_new ops
  ⟨h.synced, h.captured⟩

end BeliefQuad
end Epica
