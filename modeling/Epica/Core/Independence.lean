import Epica.Lib.Simulation
import Epica.Core.Queries
import Epica.Core.Propagation

/-!
# A quad shows nothing of its graph library

The graphs of a quad are `G`, any stable directed multigraph: which index a node gets, in what
order edges are listed, in what order a search yields, is up to the library.

* `Alike q q'`             two quads over different libraries with the same nodes, the same edges
                           between ids up to order, and the same of everything else;
* `Alike.revise`           revising both returns the same and leaves alike quads;
* `Alike.propagate`        so does propagating, when the hash sets come in corresponding orders;
* `answers_independent`    no caller can tell the two apart: for every run of calls on one there is
                           the same run on the other, up to the order of hash sets, with the same
                           answers throughout.
-/

set_option linter.unusedSectionVars false

namespace Epica
open Lib

section
variable {M : Type → Type} {G G' : Type → Type → Type} [SlotMap M] [StableDiGraph G]
  [StableDiGraph G'] [Platform]

/-! ## alike projections -/

namespace Projection
variable {E : Type} {p : Projection G E} {p' : Projection G' E} {live : BeliefId → Prop}

theorem mem_allEdges_congr (he : p.edges = p'.edges) (e : BeliefId × BeliefId × E) :
    e ∈ p.allEdges ↔ e ∈ p'.allEdges := by
  rw [← mem_edges, he, mem_edges]

theorem joined_congr (he : p.edges = p'.edges) : p.Joined = p'.Joined := by
  funext a b
  unfold Joined
  simp only [mem_allEdges_congr he]

theorem edgesAt_congr (h : p.Synced live) (h' : p'.Synced live) (he : p.edges = p'.edges)
    (id : BeliefId) (d : Direction) : (p.edgesAt id d).Perm (p'.edgesAt id d) := by
  rw [← Multiset.coe_eq_coe, coe_edgesAt h, coe_edgesAt h', he]

theorem reachableFrom_congr (h : p.Synced live) (h' : p'.Synced live) (he : p.edges = p'.edges)
    (id : BeliefId) : (p.reachableFrom id).Perm (p'.reachableFrom id) := by
  refine (List.perm_ext_iff_of_nodup ?_ ?_).mpr fun d => ?_
  · unfold reachableFrom
    split
    · exact List.nodup_nil
    · exact List.nodup_dedup _
  · unfold reachableFrom
    split
    · exact List.nodup_nil
    · exact List.nodup_dedup _
  · rw [h.mem_reachableFrom, h'.mem_reachableFrom, joined_congr he]

theorem edges_removeNode_congr (h : p.Synced live) (h' : p'.Synced live)
    (he : p.edges = p'.edges) (id : BeliefId) :
    (p.removeNode id).edges = (p'.removeNode id).edges := by
  rw [edges_removeNode h, edges_removeNode h', he]

theorem edges_addEdge_congr (h : p.Synced live) (h' : p'.Synced live) (he : p.edges = p'.edges)
    (src dst : BeliefId) (w : E) : (p.addEdge src dst w).edges = (p'.addEdge src dst w).edges := by
  by_cases hl : live src ∧ live dst
  · rw [edges_addEdge h w hl, edges_addEdge h' w hl, he]
  · rw [addEdge_of_dead h w hl, addEdge_of_dead h' w hl, he]

theorem reachingTo_congr (h : p.Synced live) (h' : p'.Synced live) (he : p.edges = p'.edges)
    (id : BeliefId) : (p.reachingTo id).Perm (p'.reachingTo id) := by
  refine (List.perm_ext_iff_of_nodup ?_ ?_).mpr fun d => ?_
  · unfold reachingTo
    split
    · exact List.nodup_nil
    · exact List.nodup_dedup _
  · unfold reachingTo
    split
    · exact List.nodup_nil
    · exact List.nodup_dedup _
  · rw [mem_reachingTo h, mem_reachingTo h', joined_congr he]

end Projection

/-- the semantic edges are added once or twice, in both -/
theorem SemanticGraph.edges_addEdge_congr {p : SemanticGraph G} {p' : SemanticGraph G'}
    {live : BeliefId → Prop} (h : Projection.Synced p live) (h' : Projection.Synced p' live)
    (he : Projection.edges p = Projection.edges p') (src dst : BeliefId) (w : SemanticEdge) :
    Projection.edges (SemanticGraph.addEdge p src dst w) =
      Projection.edges (SemanticGraph.addEdge p' src dst w) := by
  have hone := Projection.edges_addEdge_congr h h' he src dst w
  rw [SemanticGraph.addEdge_eq, SemanticGraph.addEdge_eq]
  split
  · exact Projection.edges_addEdge_congr (h.addEdge src dst w) (h'.addEdge src dst w) hone dst
      src w
  · exact hone

theorem SemanticGraph.hasContradictionEdges_congr {p : SemanticGraph G} {p' : SemanticGraph G'}
    {live : BeliefId → Prop} (h : Projection.Synced p live) (h' : Projection.Synced p' live)
    (he : Projection.edges p = Projection.edges p') (id : BeliefId) :
    hasContradictionEdges p id = hasContradictionEdges p' id := by
  rw [Bool.eq_iff_iff, hasContradictionEdges_iff h, hasContradictionEdges_iff h']
  simp only [Projection.mem_allEdges_congr he]

theorem CausalGraph.inferredFromPremises_congr {p : CausalGraph G} {p' : CausalGraph G'}
    {live : BeliefId → Prop} (h : Projection.Synced p live) (h' : Projection.Synced p' live)
    (he : Projection.edges p = Projection.edges p') (id : BeliefId) :
    (inferredFromPremises p id).Perm (inferredFromPremises p' id) := by
  rw [inferredFromPremises_eq h, inferredFromPremises_eq h']
  exact (Projection.edgesAt_congr h h' he id .incoming).filterMap _

/-! ## alike quads -/

namespace BeliefQuad

structure Alike (q : BeliefQuad M G) (q' : BeliefQuad M G') : Prop where
  nodes : q.nodes = q'.nodes
  semantic : q.semantic.edges = q'.semantic.edges
  temporal : q.temporal.edges = q'.temporal.edges
  causal : q.causal.edges = q'.causal.edges
  entity : q.entity.edges = q'.entity.edges
  version : q.version = q'.version
  prospectiveIndex : q.prospectiveIndex = q'.prospectiveIndex
  embeddingProvider : q.embeddingProvider = q'.embeddingProvider
  equivalence : q.equivalence = q'.equivalence

variable {q : BeliefQuad M G} {q' : BeliefQuad M G'}

theorem alike_new : Alike (new : BeliefQuad M G) (new : BeliefQuad M G') where
  nodes := rfl
  semantic := Projection.edges_new.trans Projection.edges_new.symm
  temporal := Projection.edges_new.trans Projection.edges_new.symm
  causal := Projection.edges_new.trans Projection.edges_new.symm
  entity := Projection.edges_new.trans Projection.edges_new.symm
  version := rfl
  prospectiveIndex := rfl
  embeddingProvider := rfl
  equivalence := rfl

section
variable (h : Alike q q')
include h

theorem Alike.get : q.get = q'.get := by
  funext id
  unfold BeliefQuad.get
  rw [h.nodes]

theorem Alike.live : q.Live = q'.Live := by
  funext id
  unfold Live
  rw [h.get]

theorem Alike.nextId : q.nextId = q'.nextId := by
  unfold BeliefQuad.nextId
  rw [h.nodes]

theorem Alike.len : q.len = q'.len := by
  unfold BeliefQuad.len
  rw [h.nodes]

theorem Alike.decayFactor (id : BeliefId) (now : Nat) :
    q.decayFactor id now = q'.decayFactor id now := by
  unfold BeliefQuad.decayFactor
  rw [h.get]

theorem Alike.diff {s : BeliefQuad M G} {s' : BeliefQuad M G'} (hs : Alike s s') :
    q.diff s = q'.diff s' := by
  unfold BeliefQuad.diff byKey
  rw [h.nodes, hs.nodes, h.version, hs.version]

/-! ### the operations -/

theorem Alike.insert (node : BeliefNode) :
    (q.insert node).1 = (q'.insert node).1 ∧ Alike (q.insert node).2 (q'.insert node).2 := by
  refine ⟨h.nextId, ?_⟩
  unfold BeliefQuad.insert
  constructor
  · show SlotMap.insert q.nodes _ = SlotMap.insert q'.nodes _
    rw [h.nodes]
  · show (q.semantic.addNode _).edges = (q'.semantic.addNode _).edges
    rw [Projection.edges_addNode, Projection.edges_addNode, h.semantic]
  · show (q.temporal.addNode _).edges = (q'.temporal.addNode _).edges
    rw [Projection.edges_addNode, Projection.edges_addNode, h.temporal]
  · show (q.causal.addNode _).edges = (q'.causal.addNode _).edges
    rw [Projection.edges_addNode, Projection.edges_addNode, h.causal]
  · show (q.entity.addNode _).edges = (q'.entity.addNode _).edges
    rw [Projection.edges_addNode, Projection.edges_addNode, h.entity]
  · exact congrArg (· + 1) h.version
  · exact h.prospectiveIndex
  · exact h.embeddingProvider
  · exact h.equivalence

theorem Alike.modify (id : BeliefId) (f : BeliefNode → BeliefNode) :
    Alike (q.modify id f) (q'.modify id f) where
  nodes := by
    show SlotMap.modify q.nodes id f = SlotMap.modify q'.nodes id f
    rw [h.nodes]
  semantic := h.semantic
  temporal := h.temporal
  causal := h.causal
  entity := h.entity
  version := h.version
  prospectiveIndex := h.prospectiveIndex
  embeddingProvider := h.embeddingProvider
  equivalence := h.equivalence

theorem Alike.expand (id : BeliefId) (f : BeliefNode → BeliefNode) :
    Alike (q.expand id f) (q'.expand id f) :=
  { h.modify id f with
    version := congrArg (· + 1) h.version
    prospectiveIndex := congrArg (fun x => x.invalidate id) h.prospectiveIndex }

end

/-! ### the operations on the edges -/

section
variable (h : Alike q q') (hs : q.GraphsSynced) (hs' : q'.GraphsSynced)
include h hs hs'

theorem Alike.synced : q'.semantic.Synced q.Live ∧ q'.temporal.Synced q.Live ∧
    q'.causal.Synced q.Live ∧ q'.entity.Synced q.Live := by
  rw [h.live]
  exact ⟨hs'.semantic, hs'.temporal, hs'.causal, hs'.entity⟩

theorem Alike.remove (id : BeliefId) :
    (q.remove id).1 = (q'.remove id).1 ∧ Alike (q.remove id).2 (q'.remove id).2 := by
  obtain ⟨h1, h2, h3, h4⟩ := h.synced hs hs'
  by_cases hl : q.Live id
  · obtain ⟨node, hn⟩ := live_iff.mp hl
    have hn' : q'.get id = some node := h.get ▸ hn
    rw [remove_of_live hn, remove_of_live hn']
    refine ⟨rfl, ?_⟩
    constructor
    · show SlotMap.remove q.nodes id = SlotMap.remove q'.nodes id
      rw [h.nodes]
    · exact Projection.edges_removeNode_congr hs.semantic h1 h.semantic id
    · exact Projection.edges_removeNode_congr hs.temporal h2 h.temporal id
    · exact Projection.edges_removeNode_congr hs.causal h3 h.causal id
    · exact Projection.edges_removeNode_congr hs.entity h4 h.entity id
    · exact congrArg (· + 1) h.version
    · exact congrArg (fun x => x.invalidate id) h.prospectiveIndex
    · exact h.embeddingProvider
    · exact h.equivalence
  · have hl' : ¬ q'.Live id := h.live ▸ hl
    rw [remove_of_dead hl, remove_of_dead hl']
    exact ⟨rfl, h⟩

theorem Alike.addSemanticEdge (src dst : BeliefId) (edge : SemanticEdge) :
    Alike (q.addSemanticEdge src dst edge) (q'.addSemanticEdge src dst edge) :=
  { h with
    semantic :=
      SemanticGraph.edges_addEdge_congr hs.semantic (h.synced hs hs').1 h.semantic src dst edge }

theorem Alike.addTemporalEdge (src dst : BeliefId) (edge : TemporalEdge) :
    Alike (q.addTemporalEdge src dst edge) (q'.addTemporalEdge src dst edge) :=
  { h with
    temporal :=
      Projection.edges_addEdge_congr hs.temporal (h.synced hs hs').2.1 h.temporal src dst edge }

theorem Alike.addCausalEdge (src dst : BeliefId) (edge : CausalEdge) :
    Alike (q.addCausalEdge src dst edge) (q'.addCausalEdge src dst edge) :=
  { h with
    causal :=
      Projection.edges_addEdge_congr hs.causal (h.synced hs hs').2.2.1 h.causal src dst edge }

theorem Alike.addEntityEdge (src dst : BeliefId) (edge : EntityEdge) :
    Alike (q.addEntityEdge src dst edge) (q'.addEntityEdge src dst edge) :=
  { h with
    entity :=
      Projection.edges_addEdge_congr hs.entity (h.synced hs hs').2.2.2 h.entity src dst edge }

omit h hs hs' in
theorem Alike.removeAll (ids : List BeliefId) {q : BeliefQuad M G} {q' : BeliefQuad M G'}
    (h : Alike q q') (hs : q.GraphsSynced) (hs' : q'.GraphsSynced) :
    Alike (q.removeAll ids) (q'.removeAll ids) := by
  induction ids generalizing q q' with
  | nil => exact h
  | cons id ids ih => exact ih (h.remove hs hs' id).2 (hs.remove id) (hs'.remove id)

/-! ### revising -/

theorem Alike.hasContradictionEdges (id : BeliefId) :
    SemanticGraph.hasContradictionEdges q.semantic id =
      SemanticGraph.hasContradictionEdges q'.semantic id :=
  SemanticGraph.hasContradictionEdges_congr hs.semantic (h.synced hs hs').1 h.semantic id

theorem Alike.checkContradictionTraced (id : BeliefId) (v : BeliefValue) :
    q.checkContradictionTraced id v = q'.checkContradictionTraced id v := by
  unfold BeliefQuad.checkContradictionTraced
  rw [h.get, h.embeddingProvider, h.equivalence, h.hasContradictionEdges hs hs']

theorem Alike.disagreesAsParaphrase (provider : EmbeddingProvider) (id : BeliefId)
    (target : BeliefValue) (newEmb : List ℚ) (expected : Bool) :
    Epica.disagreesAsParaphrase q provider id target newEmb expected =
      Epica.disagreesAsParaphrase q' provider id target newEmb expected := by
  funext other
  unfold Epica.disagreesAsParaphrase
  rw [h.equivalence, h.hasContradictionEdges hs hs']

theorem Alike.auditOf (id : BeliefId) (v : BeliefValue) : q.auditOf id v = q'.auditOf id v := by
  unfold BeliefQuad.auditOf PostulateAudit.verify checkExtensionality
  simp only [h.disagreesAsParaphrase hs hs', h.checkContradictionTraced hs hs',
    h.embeddingProvider, h.get, h.nodes]

theorem Alike.weakestPremise (ps : List BeliefId) : q.weakestPremise ps = q'.weakestPremise ps := by
  unfold BeliefQuad.weakestPremise
  have hc : q.premiseConfidence = q'.premiseConfidence := by
    funext id
    unfold premiseConfidence
    rw [h.get]
  rw [hc]

theorem Alike.minimalContractionSet (id : BeliefId) :
    (q.minimalContractionSet id).Perm (q'.minimalContractionSet id) := by
  unfold BeliefQuad.minimalContractionSet
  have hw : q.weakestPremise = q'.weakestPremise := funext fun ps => h.weakestPremise hs hs' ps
  rw [hw]
  exact ((CausalGraph.inferredFromPremises_congr hs.causal (h.synced hs hs').2.2.1 h.causal
    id).filterMap _).dedup

omit hs hs' in
theorem Alike.expandOnly (stamp : Stamp) (id : BeliefId) (v : BeliefValue) (p : Provenance) (c : ℚ)
    (audit : PostulateAudit) :
    (q.expandOnly stamp id v p c audit).1 = (q'.expandOnly stamp id v p c audit).1 ∧
      Alike (q.expandOnly stamp id v p c audit).2 (q'.expandOnly stamp id v p c audit).2 := by
  unfold BeliefQuad.expandOnly
  rw [← h.get]
  cases q.get id with
  | none => exact ⟨rfl, h⟩
  | some node =>
    refine ⟨?_, h.expand id _⟩
    simp only [h.version]
    rw [(h.expand id _).version]

omit hs hs' in
theorem Alike.expandContracted (stamp : Stamp) (id : BeliefId) (v : BeliefValue) (p : Provenance)
    (c : ℚ) {set set' : List BeliefId} (hset : set.Perm set') (audit : PostulateAudit) :
    (q.expandContracted stamp id v p c set audit).1 =
        (q'.expandContracted stamp id v p c set' audit).1 ∧
      Alike (q.expandContracted stamp id v p c set audit).2
        (q'.expandContracted stamp id v p c set' audit).2 := by
  unfold BeliefQuad.expandContracted
  rw [← h.get]
  cases q.get id with
  | none => exact ⟨rfl, h⟩
  | some node =>
    refine ⟨?_, h.expand id _⟩
    simp only [h.version, List.toFinset_eq_of_perm _ _ hset]
    rw [(h.expand id _).version]

/-- **revising alike quads returns the same and leaves alike quads** -/
theorem Alike.revise (stamp : Stamp) (order : HashOrder BeliefId) (id : BeliefId)
    (v : BeliefValue) (p : Provenance) (c : ℚ) : ∃ order' : HashOrder BeliefId,
    (q.revise stamp order id v p c).1 = (q'.revise stamp order' id v p c).1 ∧
      Alike (q.revise stamp order id v p c).2 (q'.revise stamp order' id v p c).2 := by
  have hset := h.minimalContractionSet hs hs' id
  have haudit := h.auditOf hs hs' id v
  have hcheck : q.checkContradiction id v = q'.checkContradiction id v :=
    congrArg Prod.fst (h.checkContradictionTraced hs hs' id v)
  refine ⟨order.along hset, ?_⟩
  by_cases hl : q.Live id
  · have hl' : q'.Live id := h.live ▸ hl
    cases ha : (q.auditOf id v).allCriticalPass with
    | false =>
      rw [revise_of_rejected q stamp order id v p c hl ha,
        revise_of_rejected q' stamp _ id v p c hl' (haudit ▸ ha), haudit]
      exact ⟨rfl, h⟩
    | true =>
      cases hc : q.checkContradiction id v with
      | false =>
        rw [revise_of_consistent q stamp order id v p c hl ha hc,
          revise_of_consistent q' stamp _ id v p c hl' (haudit ▸ ha) (hcheck ▸ hc), haudit]
        exact h.expandOnly stamp id v p c _
      | true =>
        rw [revise_of_contradicting q stamp order id v p c hl ha hc,
          revise_of_contradicting q' stamp _ id v p c hl' (haudit ▸ ha) (hcheck ▸ hc), haudit]
        refine Alike.expandContracted ?_ stamp id v p c hset _
        unfold contracted applyContraction
        rw [HashOrder.shuffle_along]
        exact h.removeAll _ hs hs'
  · have hl' : ¬ q'.Live id := h.live ▸ hl
    rw [revise_of_dead q stamp order id v p c hl, revise_of_dead q' stamp _ id v p c hl']
    exact ⟨rfl, h⟩

/-! ### propagating -/

omit hs hs' in
theorem Alike.pathConfidence (ps : List BeliefId) : q.pathConfidence ps = q'.pathConfidence ps := by
  unfold BeliefQuad.pathConfidence
  rw [h.get]

theorem Alike.conclusionConfidence (now : Nat) (id : BeliefId) :
    q.conclusionConfidence now id = q'.conclusionConfidence now id := by
  have hps := CausalGraph.inferredFromPremises_congr hs.causal (h.synced hs hs').2.2.1 h.causal id
  have hpath : q.pathConfidence = q'.pathConfidence := funext h.pathConfidence
  -- the best of the support paths does not depend on their order
  have hbest := (hps.map q'.pathConfidence).foldl_eq (f := max) 0
  unfold BeliefQuad.conclusionConfidence
  rw [hpath, h.decayFactor]
  show clamp (List.foldl max 0 _ * _) 0 1 = _
  rw [hbest]

theorem Alike.recompute (now : Nat) (id : BeliefId) :
    Alike (q.recompute now id) (q'.recompute now id) := by
  have hps := CausalGraph.inferredFromPremises_congr hs.causal (h.synced hs hs').2.2.1 h.causal id
  unfold BeliefQuad.recompute
  rw [hps.isEmpty_eq, h.conclusionConfidence hs hs']
  split
  · exact h
  · exact h.modify id _

omit h hs hs' in
theorem GraphsSynced.recompute (hs : q.GraphsSynced) (now : Nat) (id : BeliefId) :
    (q.recompute now id).GraphsSynced := by
  unfold BeliefQuad.recompute
  split
  · exact hs
  · exact hs.modify id _

omit h hs hs' in
theorem Alike.recomputeAll (now : BeliefId → Nat) (ids : List BeliefId) {q : BeliefQuad M G}
    {q' : BeliefQuad M G'} (h : Alike q q') (hs : q.GraphsSynced) (hs' : q'.GraphsSynced) :
    Alike (q.recomputeAll now ids) (q'.recomputeAll now ids) := by
  induction ids generalizing q q' with
  | nil => exact h
  | cons id ids ih => exact ih (h.recompute hs hs' _ id) (hs.recompute _ id) (hs'.recompute _ id)

theorem Alike.descendantsOf (id : BeliefId) :
    (CausalGraph.descendantsOf q.causal id).Perm (CausalGraph.descendantsOf q'.causal id) :=
  Projection.reachableFrom_congr hs.causal (h.synced hs hs').2.2.1 h.causal id

/-- **propagating leaves alike quads** -/
theorem Alike.propagate (now : BeliefId → Nat) (order : BeliefId → HashOrder BeliefId)
    (changed : BeliefId) : ∃ order' : BeliefId → HashOrder BeliefId,
    Alike (q.propagateSystem1 now order changed) (q'.propagateSystem1 now order' changed) := by
  refine ⟨fun d => (order d).along (h.descendantsOf hs hs' d), ?_⟩
  rw [propagateSystem1_eq, propagateSystem1_eq]
  have hnext : q'.nextVisits (fun d => (order d).along (h.descendantsOf hs hs' d)) =
      q.nextVisits order := by
    funext d
    exact (order d).shuffle_along (h.descendantsOf hs hs' d)
  unfold visitOrder
  rw [hnext, ← h.len]
  exact h.recomputeAll now _ hs hs'

end
end BeliefQuad

/-! ## alike checkpoints -/

namespace BeliefQuad

structure AlikeCheckpoint (c : BeliefQuadCheckpoint M G) (c' : BeliefQuadCheckpoint M G') :
    Prop where
  id : c.id = c'.id
  version : c.version = c'.version
  timestampMs : c.timestampMs = c'.timestampMs
  quad : Alike c.quad c'.quad

theorem find_alike {l : List (BeliefQuadCheckpoint M G)} {l' : List (BeliefQuadCheckpoint M G')}
    (h : List.Forall₂ AlikeCheckpoint l l') (id : CheckpointId) :
    (l.find? (fun c => c.id = id) = none ∧ l'.find? (fun c => c.id = id) = none) ∨
      ∃ c c', l.find? (fun c => c.id = id) = some c ∧ l'.find? (fun c => c.id = id) = some c' ∧
        AlikeCheckpoint c c' := by
  induction h with
  | nil => exact Or.inl ⟨rfl, rfl⟩
  | cons hc _ ih =>
    rename_i c c' l l' _
    rw [List.find?_cons, List.find?_cons, ← hc.id]
    by_cases e : c.id = id
    · rw [decide_eq_true e]
      exact Or.inr ⟨c, c', rfl, rfl, hc⟩
    · rw [decide_eq_false e]
      exact ih

/-- alike, captured quads included, and in step -/
structure Twins (q : BeliefQuad M G) (q' : BeliefQuad M G') : Prop extends Alike q q' where
  checkpoints : List.Forall₂ AlikeCheckpoint q.checkpoints q'.checkpoints
  left : q.WellFormed
  right : q'.WellFormed

theorem twins_new : Twins (new : BeliefQuad M G) (new : BeliefQuad M G') :=
  ⟨alike_new, .nil, wellFormed_new, wellFormed_new⟩

variable {q : BeliefQuad M G} {q' : BeliefQuad M G'}

theorem Twins.rollbackTo (h : Twins q q') (id : CheckpointId) :
    (q.rollbackTo id).1 = (q'.rollbackTo id).1 ∧
      Twins (q.rollbackTo id).2 (q'.rollbackTo id).2 := by
  have hw := h.left.rollbackTo id
  have hw' := h.right.rollbackTo id
  unfold BeliefQuad.rollbackTo at hw hw' ⊢
  rcases find_alike h.checkpoints id with ⟨hn, hn'⟩ | ⟨c, c', hc, hc', halike⟩
  · rw [hn, hn']
    exact ⟨rfl, h⟩
  · rw [hc] at hw ⊢
    rw [hc'] at hw' ⊢
    have hdiff := h.toAlike.diff halike.quad
    have hnone := (h.left.captured c (List.mem_of_find?_eq_some hc)).2
    have hnone' := (h.right.captured c' (List.mem_of_find?_eq_some hc')).2
    simp only [Option.map_some] at hw hw' ⊢
    rw [hdiff] at hw ⊢
    split
    · exact ⟨rfl, h⟩
    · rename_i hd
      rw [if_neg hd] at hw hw'
      refine ⟨rfl, halike.quad, ?_, hw, hw'⟩
      rw [hnone, hnone']
      exact .nil

/-! ## calls and answers -/

end BeliefQuad
end

/-- what a caller can do with a quad: an operation, or a question -/
inductive Call where
  | op (op : Op)
  | get (id : BeliefId)
  | decayFactor (id : BeliefId) (currentMs : Nat)
  | checkContradiction (id : BeliefId) (newValue : BeliefValue)
  | counterfactualQuery (antecedent : BeliefId)
  | descendantsOf (id : BeliefId)
  | ancestorsOf (id : BeliefId)
  | incomingEdges (id : BeliefId)
  | supersetsOf (id : BeliefId)
  | subsetsOf (id : BeliefId)
  | predecessorsOf (id : BeliefId)
  | producersOf (id : BeliefId)

/-- what a call returns; lists in the order of the graph library count as multisets -/
inductive Answer where
  | nothing
  | inserted (id : BeliefId)
  | node (node : Option BeliefNode)
  | revised (result : Except BeliefRevisionError RevisionRecord)
  | checkpoint (id : CheckpointId)
  | rolledBack (result : Except RollbackError BeliefQuadDiff)
  | factor (x : ℚ)
  | verdict (contradicts : Bool)
  | world (excluded : Finset BeliefId) (surviving : List (BeliefId × BeliefNode))
      (count : Option Nat)
  | ids (ids : Multiset BeliefId)
  | edges (edges : Multiset (BeliefId × CausalEdge))
  | agents (agents : Multiset String)

/-- the same call, but for the order in which hash sets are enumerated -/
inductive Call.UpToOrder : Call → Call → Prop
  | refl (call : Call) : UpToOrder call call
  | revise (stamp : Stamp) (order order' : HashOrder BeliefId) (id : BeliefId) (v : BeliefValue)
      (p : Provenance) (c : ℚ) :
      UpToOrder (.op (.revise stamp order id v p c)) (.op (.revise stamp order' id v p c))
  | propagateSystem1 (now : BeliefId → Nat) (order order' : BeliefId → HashOrder BeliefId)
      (changed : BeliefId) :
      UpToOrder (.op (.propagateSystem1 now order changed))
        (.op (.propagateSystem1 now order' changed))

namespace BeliefQuad
section
variable {M : Type → Type} {G : Type → Type → Type} [SlotMap M] [StableDiGraph G] [Platform]

/-- what an operation returns -/
def returns (q : BeliefQuad M G) : Op → Answer
  | .insert node => .inserted (q.insert node).1
  | .remove id => .node (q.remove id).1
  | .revise stamp order id v p c => .revised (q.revise stamp order id v p c).1
  | .checkpoint uuid nowMs => .checkpoint (q.checkpoint uuid nowMs).1
  | .rollbackTo id => .rolledBack (q.rollbackTo id).1
  | _ => .nothing

def answer (q : BeliefQuad M G) : Call → Answer
  | .op op => q.returns op
  | .get id => .node (q.get id)
  | .decayFactor id currentMs => .factor (q.decayFactor id currentMs)
  | .checkContradiction id v => .verdict (q.checkContradiction id v)
  | .counterfactualQuery id =>
    let world := q.counterfactualQuery id
    .world world.excluded world.survivingBeliefs world.survivingCount
  | .descendantsOf id => .ids (CausalGraph.descendantsOf q.causal id)
  | .ancestorsOf id => .ids (CausalGraph.ancestorsOf q.causal id)
  | .incomingEdges id => .edges (CausalGraph.incomingEdges q.causal id)
  | .supersetsOf id => .ids (SemanticGraph.supersetsOf q.semantic id)
  | .subsetsOf id => .ids (SemanticGraph.subsetsOf q.semantic id)
  | .predecessorsOf id => .ids (TemporalGraph.predecessorsOf q.temporal id)
  | .producersOf id => .agents (EntityGraph.producersOf q.entity id)

/-- a question leaves the quad alone -/
def call (q : BeliefQuad M G) : Call → BeliefQuad M G
  | .op op => q.step op
  | _ => q

end

section
variable {M : Type → Type} {G G' : Type → Type → Type} [SlotMap M] [StableDiGraph G]
  [StableDiGraph G'] [Platform] {q : BeliefQuad M G} {q' : BeliefQuad M G'}

/-- an operation that leaves the checkpoints alone -/
theorem Twins.of_alike (h : Twins q q') {r : BeliefQuad M G} {r' : BeliefQuad M G'}
    (ha : Alike r r') (hw : r.WellFormed) (hw' : r'.WellFormed)
    (hc : r.checkpoints = q.checkpoints) (hc' : r'.checkpoints = q'.checkpoints) : Twins r r' := by
  refine ⟨ha, ?_, hw, hw'⟩
  rw [hc, hc']
  exact h.checkpoints

/-- **every operation on one quad is matched by the same on the other** -/
theorem Twins.step (h : Twins q q') (op : Op) :
    ∃ op', Call.UpToOrder (.op op) (.op op') ∧ q.returns op = q'.returns op' ∧
      Twins (q.step op) (q'.step op') := by
  have hs := h.left.synced.toGraphsSynced
  have hs' := h.right.synced.toGraphsSynced
  have hsame : ∀ op', Alike (q.step op) (q'.step op') → (q.step op).checkpoints = q.checkpoints →
      (q'.step op').checkpoints = q'.checkpoints → Twins (q.step op) (q'.step op') :=
    fun op' ha hc hc' =>
      h.of_alike ha (step_wellFormed q op h.left) (step_wellFormed q' op' h.right) hc hc'
  cases op with
  | insert node =>
    obtain ⟨hid, ha⟩ := h.toAlike.insert node
    exact ⟨_, .refl _, congrArg Answer.inserted hid, hsame _ ha rfl rfl⟩
  | remove id =>
    obtain ⟨hn, ha⟩ := h.toAlike.remove hs hs' id
    exact ⟨_, .refl _, congrArg Answer.node hn,
      hsame _ ha (remove_checkpoints q id) (remove_checkpoints q' id)⟩
  | addSemanticEdge src dst edge =>
    exact ⟨_, .refl _, rfl, hsame _ (h.toAlike.addSemanticEdge hs hs' src dst edge) rfl rfl⟩
  | addTemporalEdge src dst edge =>
    exact ⟨_, .refl _, rfl, hsame _ (h.toAlike.addTemporalEdge hs hs' src dst edge) rfl rfl⟩
  | addCausalEdge src dst edge =>
    exact ⟨_, .refl _, rfl, hsame _ (h.toAlike.addCausalEdge hs hs' src dst edge) rfl rfl⟩
  | addEntityEdge src dst edge =>
    exact ⟨_, .refl _, rfl, hsame _ (h.toAlike.addEntityEdge hs hs' src dst edge) rfl rfl⟩
  | revise stamp order id v p c =>
    obtain ⟨order', hr, ha⟩ := h.toAlike.revise hs hs' stamp order id v p c
    exact ⟨.revise stamp order' id v p c, .revise stamp order order' id v p c,
      congrArg Answer.revised hr, hsame _ ha (revise_checkpoints stamp order id v p c)
        (revise_checkpoints stamp order' id v p c)⟩
  | propagateSystem1 now order changed =>
    obtain ⟨order', ha⟩ := h.toAlike.propagate hs hs' now order changed
    exact ⟨.propagateSystem1 now order' changed, .propagateSystem1 now order order' changed, rfl,
      hsame _ ha (propagate_only now order q changed).checkpoints
        (propagate_only now order' q' changed).checkpoints⟩
  | checkpoint uuid nowMs =>
    refine ⟨_, .refl _, rfl, { h.toAlike with }, ?_, step_wellFormed q _ h.left,
      step_wellFormed q' _ h.right⟩
    exact List.rel_append h.checkpoints
      (.cons ⟨rfl, h.version, rfl, { h.toAlike with }⟩ .nil)
  | rollbackTo id =>
    obtain ⟨hr, ht⟩ := h.rollbackTo id
    exact ⟨_, .refl _, congrArg Answer.rolledBack hr, ht⟩
  | clearCheckpoints =>
    exact ⟨_, .refl _, rfl, { h.toAlike with }, .nil, step_wellFormed q _ h.left,
      step_wellFormed q' _ h.right⟩
  | setEmbeddingProvider provider =>
    exact ⟨_, .refl _, rfl, hsame _ { h.toAlike with embeddingProvider := rfl } rfl rfl⟩
  | setSemanticEquivalence equivalence =>
    exact ⟨_, .refl _, rfl, hsame _ { h.toAlike with equivalence := rfl } rfl rfl⟩
  | indexProspective id entries =>
    refine ⟨_, .refl _, rfl, hsame _ ?_ rfl rfl⟩
    exact { h.toAlike with
      prospectiveIndex := congrArg (fun x => x.insert id entries) h.prospectiveIndex }

theorem Twins.counterfactual (h : Twins q q') (id : BeliefId) :
    (q.counterfactualQuery id).excluded = (q'.counterfactualQuery id).excluded ∧
      (q.counterfactualQuery id).survivingBeliefs = (q'.counterfactualQuery id).survivingBeliefs ∧
      (q.counterfactualQuery id).survivingCount = (q'.counterfactualQuery id).survivingCount := by
  have hex : (q.counterfactualQuery id).excluded = (q'.counterfactualQuery id).excluded := by
    unfold counterfactualQuery
    rw [List.toFinset_eq_of_perm _ _ (h.toAlike.descendantsOf h.left.synced.toGraphsSynced
      h.right.synced.toGraphsSynced id)]
  refine ⟨hex, ?_, ?_⟩
  · unfold CounterfactualWorld.survivingBeliefs
    rw [hex]
    show (SlotMap.iter q.nodes).filter _ = (SlotMap.iter q'.nodes).filter _
    rw [h.nodes]
  · unfold CounterfactualWorld.survivingCount
    rw [hex]
    show (if _ ≤ q.len then some (q.len - _) else none) = _
    rw [h.toAlike.len]
    rfl

/-- **every call on one quad is matched by the same on the other, with the same answer** -/
theorem simulates_call : Simulates (call (M := M) (G := G)) (call (M := M) (G := G'))
    (fun q c => [q.answer c]) (fun q c => [q.answer c]) Twins Call.UpToOrder := by
  intro q q' c h
  have hs := h.left.synced.toGraphsSynced
  have hs' := h.right.synced.toGraphsSynced
  obtain ⟨h1, h2, h3, h4⟩ := h.toAlike.synced hs hs'
  have hask : q.answer c = q'.answer c → (q.call c = q) → (q'.call c = q') →
      ∃ c', Call.UpToOrder c c' ∧ [q.answer c] = [q'.answer c'] ∧
        Twins (q.call c) (q'.call c') := by
    intro ha hq hq'
    refine ⟨c, .refl c, by rw [ha], ?_⟩
    rw [hq, hq']
    exact h
  cases c with
  | op op =>
    obtain ⟨op', hlike, hr, ht⟩ := h.step op
    exact ⟨.op op', hlike, congrArg (fun a => [a]) hr, ht⟩
  | get id => exact hask (congrArg Answer.node (congrFun h.toAlike.get id)) rfl rfl
  | decayFactor id now => exact hask (congrArg Answer.factor (h.toAlike.decayFactor id now)) rfl rfl
  | checkContradiction id v =>
    refine hask (congrArg Answer.verdict ?_) rfl rfl
    exact congrArg Prod.fst (h.toAlike.checkContradictionTraced hs hs' id v)
  | counterfactualQuery id =>
    obtain ⟨he, hb, hc⟩ := h.counterfactual id
    refine hask ?_ rfl rfl
    show Answer.world _ _ _ = Answer.world _ _ _
    rw [he, hb, hc]
  | descendantsOf id =>
    exact hask (congrArg Answer.ids (Multiset.coe_eq_coe.mpr (h.toAlike.descendantsOf hs hs' id)))
      rfl rfl
  | ancestorsOf id =>
    refine hask (congrArg Answer.ids (Multiset.coe_eq_coe.mpr ?_)) rfl rfl
    exact Projection.reachingTo_congr hs.causal h3 h.causal id
  | incomingEdges id =>
    refine hask (congrArg Answer.edges (Multiset.coe_eq_coe.mpr ?_)) rfl rfl
    exact Projection.edgesAt_congr hs.causal h3 h.causal id .incoming
  | supersetsOf id =>
    refine hask (congrArg Answer.ids (Multiset.coe_eq_coe.mpr ?_)) rfl rfl
    exact ((Projection.edgesAt_congr hs.semantic h1 h.semantic id .incoming).filter _).map _
  | subsetsOf id =>
    refine hask (congrArg Answer.ids (Multiset.coe_eq_coe.mpr ?_)) rfl rfl
    exact ((Projection.edgesAt_congr hs.semantic h1 h.semantic id .outgoing).filter _).map _
  | predecessorsOf id =>
    refine hask (congrArg Answer.ids (Multiset.coe_eq_coe.mpr ?_)) rfl rfl
    exact ((Projection.edgesAt_congr hs.temporal h2 h.temporal id .incoming).filter _).map _
  | producersOf id =>
    refine hask (congrArg Answer.agents (Multiset.coe_eq_coe.mpr ?_)) rfl rfl
    exact (Projection.edgesAt_congr hs.entity h4 h.entity id .incoming).filterMap _

end

/-- **no caller can tell two graph libraries apart**: for every run of calls on a new quad over one
there is the same run on a new quad over the other, up to the order in which hash sets are
enumerated, in which every call has the same answer, and which ends in an alike quad -/
theorem answers_independent {M : Type → Type} {G G' : Type → Type → Type} [SlotMap M]
    [StableDiGraph G] [StableDiGraph G'] [Platform] (calls : List Call) :
    ∃ calls', List.Forall₂ Call.UpToOrder calls calls' ∧
      outputs call (fun q c => [q.answer c]) (new : BeliefQuad M G) calls =
        outputs call (fun q c => [q.answer c]) (new : BeliefQuad M G') calls' ∧
      Twins (run call (new : BeliefQuad M G) calls) (run call (new : BeliefQuad M G') calls') :=
  run_simulated simulates_call twins_new calls

end BeliefQuad
end Epica
