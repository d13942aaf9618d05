import Epica.Core.Quad
import Mathlib.Data.Multiset.Count
import Mathlib.Data.Multiset.Filter

/-!
# What a quad stands for, and the invariant that keeps its five parts in step

A `Store` is the meaning of a quad: a partial map from ids to nodes and four multisets of edges
between ids, with the operations

* `extend`     one more node;
* `restrict`   keep the nodes that satisfy a predicate, and the edges between two of them;
* `assign`     rewrite one node;
* `link…`      one more edge.

`GraphsSynced q`: each graph is in step with the live ids.  `Synced q`: moreover a node's `id` is
its key, and the symmetric semantic edges come in both directions equally often.  For such quads
the operations of `Epica.Core.Quad` are those of the store (`store_insert`, `store_remove`,
`store_modify`, `semanticEdges_addEdge`), and they keep the invariant.
-/

set_option linter.unusedSectionVars false

namespace Epica
open Lib

/-! ## edges between ids -/

abbrev Edges (E : Type) := Multiset (BeliefId × BeliefId × E)

namespace Edges
variable {E : Type} (keep keep' : BeliefId → Prop) [DecidablePred keep] [DecidablePred keep']

/-- the edges between two ids that are kept -/
def restrict (m : Edges E) : Edges E := m.filter fun e => keep e.1 ∧ keep e.2.1

theorem restrict_restrict (m : Edges E) :
    restrict keep (restrict keep' m) = restrict (fun id => keep id ∧ keep' id) m := by
  unfold restrict
  rw [Multiset.filter_filter]
  exact Multiset.filter_congr fun e _ => by tauto

theorem restrict_congr {m : Edges E} (h : ∀ id, keep id ↔ keep' id) :
    restrict keep m = restrict keep' m :=
  Multiset.filter_congr fun e _ => by rw [h, h]

theorem restrict_of_all {m : Edges E} (h : ∀ id, keep id) : restrict keep m = m :=
  Multiset.filter_eq_self.mpr fun _ _ => ⟨h _, h _⟩

end Edges

namespace Projection
variable {G : Type → Type → Type} [StableDiGraph G] {E : Type}

/-- the edges of a projection, up to order -/
def edges (p : Projection G E) : Edges E := p.allEdges

@[simp] theorem mem_edges {p : Projection G E} {e : BeliefId × BeliefId × E} :
    e ∈ p.edges ↔ e ∈ p.allEdges := Multiset.mem_coe

theorem edges_new : (new : Projection G E).edges = 0 := by
  unfold edges
  rw [allEdges_new]
  rfl

theorem edges_addNode (p : Projection G E) (id : BeliefId) : (p.addNode id).edges = p.edges :=
  Multiset.coe_eq_coe.mpr (allEdges_addNode p id)

variable {p : Projection G E} {live : BeliefId → Prop}

theorem edges_removeNode (h : p.Synced live) (id : BeliefId) :
    (p.removeNode id).edges = Edges.restrict (fun j => j ≠ id) p.edges :=
  Multiset.coe_eq_coe.mpr (allEdges_removeNode h id)

theorem edges_addEdge (h : p.Synced live) {src dst : BeliefId} (w : E)
    (hl : live src ∧ live dst) : (p.addEdge src dst w).edges = (src, dst, w) ::ₘ p.edges :=
  Multiset.coe_eq_coe.mpr (allEdges_addEdge h w hl)

end Projection

/-! ## stores -/

structure Store where
  node : BeliefId → Option BeliefNode
  semantic : Edges SemanticEdge
  temporal : Edges TemporalEdge
  causal : Edges CausalEdge
  entity : Edges EntityEdge

namespace Store

@[ext] theorem ext_parts {s t : Store} (hn : ∀ id, s.node id = t.node id)
    (h1 : s.semantic = t.semantic) (h2 : s.temporal = t.temporal) (h3 : s.causal = t.causal)
    (h4 : s.entity = t.entity) : s = t := by
  cases s
  cases t
  obtain rfl := h1
  obtain rfl := h2
  obtain rfl := h3
  obtain rfl := h4
  obtain rfl := funext hn
  rfl

def empty : Store := ⟨fun _ => none, 0, 0, 0, 0⟩

def extend (s : Store) (id : BeliefId) (node : BeliefNode) : Store :=
  { s with node := fun j => if j = id then some node else s.node j }

def restrict (s : Store) (keep : BeliefId → Prop) [DecidablePred keep] : Store where
  node j := if keep j then s.node j else none
  semantic := Edges.restrict keep s.semantic
  temporal := Edges.restrict keep s.temporal
  causal := Edges.restrict keep s.causal
  entity := Edges.restrict keep s.entity

def assign (s : Store) (id : BeliefId) (f : BeliefNode → BeliefNode) : Store :=
  { s with node := fun j => if j = id then (s.node j).map f else s.node j }

section
variable (s : Store) (keep keep' : BeliefId → Prop) [DecidablePred keep] [DecidablePred keep']

theorem restrict_restrict :
    (s.restrict keep').restrict keep = s.restrict fun id => keep id ∧ keep' id := by
  apply ext_parts
  · intro id
    show (if keep id then (if keep' id then s.node id else none) else none) =
      if keep id ∧ keep' id then s.node id else none
    by_cases h : keep id <;> by_cases h' : keep' id <;> simp [h, h']
  · exact Edges.restrict_restrict keep keep' s.semantic
  · exact Edges.restrict_restrict keep keep' s.temporal
  · exact Edges.restrict_restrict keep keep' s.causal
  · exact Edges.restrict_restrict keep keep' s.entity

theorem restrict_congr (h : ∀ id, keep id ↔ keep' id) : s.restrict keep = s.restrict keep' := by
  apply ext_parts
  · intro id
    show (if keep id then s.node id else none) = if keep' id then s.node id else none
    by_cases hk : keep id
    · rw [if_pos hk, if_pos ((h id).mp hk)]
    · rw [if_neg hk, if_neg (fun hk' => hk ((h id).mpr hk'))]
  · exact Edges.restrict_congr keep keep' h
  · exact Edges.restrict_congr keep keep' h
  · exact Edges.restrict_congr keep keep' h
  · exact Edges.restrict_congr keep keep' h

theorem restrict_of_all (h : ∀ id, keep id) : s.restrict keep = s := by
  apply ext_parts
  · intro id
    exact if_pos (h id)
  · exact Edges.restrict_of_all keep h
  · exact Edges.restrict_of_all keep h
  · exact Edges.restrict_of_all keep h
  · exact Edges.restrict_of_all keep h

end
end Store

/-! ## synced quads -/

namespace BeliefQuad
variable {M : Type → Type} {G : Type → Type → Type} [SlotMap M] [StableDiGraph G]

def store (q : BeliefQuad M G) : Store where
  node := q.get
  semantic := q.semantic.edges
  temporal := q.temporal.edges
  causal := q.causal.edges
  entity := q.entity.edges

/-- every edge of a symmetric kind has as many copies in the other direction -/
def SymmetricEdges (m : Edges SemanticEdge) : Prop :=
  ∀ (w : SemanticEdge) (a b : BeliefId), w.symmetric = true →
    m.count (a, b, w) = m.count (b, a, w)

structure GraphsSynced (q : BeliefQuad M G) : Prop where
  semantic : q.semantic.Synced q.Live
  temporal : q.temporal.Synced q.Live
  causal : q.causal.Synced q.Live
  entity : q.entity.Synced q.Live

structure Synced (q : BeliefQuad M G) : Prop extends q.GraphsSynced where
  ids : ∀ id n, q.get id = some n → n.id = id
  symmetric : SymmetricEdges q.semantic.edges

theorem graphsSynced_new : (new : BeliefQuad M G).GraphsSynced where
  semantic := Projection.synced_new.congr fun id => (iff_false_intro (not_live_new id)).symm
  temporal := Projection.synced_new.congr fun id => (iff_false_intro (not_live_new id)).symm
  causal := Projection.synced_new.congr fun id => (iff_false_intro (not_live_new id)).symm
  entity := Projection.synced_new.congr fun id => (iff_false_intro (not_live_new id)).symm

theorem synced_new : (new : BeliefQuad M G).Synced where
  toGraphsSynced := graphsSynced_new
  ids id n h := by
    rw [not_live_iff.mp (not_live_new id)] at h
    cases h
  symmetric := by
    intro w a b _
    show Multiset.count _ (Projection.new : Projection G SemanticEdge).edges =
      Multiset.count _ (Projection.new : Projection G SemanticEdge).edges
    rw [Projection.edges_new, Multiset.count_zero, Multiset.count_zero]

variable {q : BeliefQuad M G}

/-! ### inserting -/

theorem GraphsSynced.insert (h : q.GraphsSynced) (node : BeliefNode) :
    (q.insert node).2.GraphsSynced where
  semantic := (h.semantic.addNode (not_live_nextId q)).congr fun id => (live_insert q node id).symm
  temporal := (h.temporal.addNode (not_live_nextId q)).congr fun id => (live_insert q node id).symm
  causal := (h.causal.addNode (not_live_nextId q)).congr fun id => (live_insert q node id).symm
  entity := (h.entity.addNode (not_live_nextId q)).congr fun id => (live_insert q node id).symm

theorem Synced.insert (h : q.Synced) (node : BeliefNode) : (q.insert node).2.Synced where
  toGraphsSynced := h.toGraphsSynced.insert node
  ids id n hn := by
    rw [get_insert] at hn
    split at hn
    · rename_i e
      rw [← Option.some.inj hn, e]
    · exact h.ids id n hn
  symmetric := by
    show SymmetricEdges (q.semantic.addNode q.nextId).edges
    rw [Projection.edges_addNode]
    exact h.symmetric

theorem store_insert (q : BeliefQuad M G) (node : BeliefNode) :
    (q.insert node).2.store = q.store.extend q.nextId { node with id := q.nextId } :=
  Store.ext_parts (fun j => get_insert q node j) (Projection.edges_addNode q.semantic q.nextId)
    (Projection.edges_addNode q.temporal q.nextId) (Projection.edges_addNode q.causal q.nextId)
    (Projection.edges_addNode q.entity q.nextId)

/-! ### removing -/

theorem SymmetricEdges.restrict {m : Edges SemanticEdge} (h : SymmetricEdges m)
    (keep : BeliefId → Prop) [DecidablePred keep] : SymmetricEdges (Edges.restrict keep m) := by
  intro w a b hw
  unfold Edges.restrict
  rw [Multiset.count_filter, Multiset.count_filter, h w a b hw]
  simp only [and_comm]

/-- in a synced quad the graphs may forget a dead id once more -/
theorem GraphsSynced.remove_eq (h : q.GraphsSynced) (id : BeliefId) :
    (q.remove id).2.semantic = q.semantic.removeNode id ∧
      (q.remove id).2.temporal = q.temporal.removeNode id ∧
      (q.remove id).2.causal = q.causal.removeNode id ∧
      (q.remove id).2.entity = q.entity.removeNode id := by
  by_cases hl : q.Live id
  · obtain ⟨node, hn⟩ := live_iff.mp hl
    rw [remove_of_live hn]
    exact ⟨rfl, rfl, rfl, rfl⟩
  · rw [remove_of_dead hl, Projection.removeNode_of_none (h.semantic.lookup_eq_none hl),
      Projection.removeNode_of_none (h.temporal.lookup_eq_none hl),
      Projection.removeNode_of_none (h.causal.lookup_eq_none hl),
      Projection.removeNode_of_none (h.entity.lookup_eq_none hl)]
    exact ⟨rfl, rfl, rfl, rfl⟩

theorem GraphsSynced.remove (h : q.GraphsSynced) (id : BeliefId) :
    (q.remove id).2.GraphsSynced := by
  obtain ⟨h1, h2, h3, h4⟩ := h.remove_eq id
  refine ⟨?_, ?_, ?_, ?_⟩
  · rw [h1]
    exact (h.semantic.removeNode id).congr fun j => (live_remove q id j).symm
  · rw [h2]
    exact (h.temporal.removeNode id).congr fun j => (live_remove q id j).symm
  · rw [h3]
    exact (h.causal.removeNode id).congr fun j => (live_remove q id j).symm
  · rw [h4]
    exact (h.entity.removeNode id).congr fun j => (live_remove q id j).symm

theorem Synced.remove (h : q.Synced) (id : BeliefId) : (q.remove id).2.Synced where
  toGraphsSynced := h.toGraphsSynced.remove id
  ids j n hn := by
    rw [get_remove] at hn
    split at hn
    · cases hn
    · exact h.ids j n hn
  symmetric := by
    rw [(h.remove_eq id).1, Projection.edges_removeNode h.semantic]
    exact h.symmetric.restrict _

theorem store_remove (h : q.GraphsSynced) (id : BeliefId) :
    (q.remove id).2.store = q.store.restrict fun j => j ≠ id := by
  obtain ⟨h1, h2, h3, h4⟩ := h.remove_eq id
  apply Store.ext_parts
  · intro j
    show (q.remove id).2.get j = if j ≠ id then q.get j else none
    rw [get_remove, ite_not]
  · show (q.remove id).2.semantic.edges = _
    rw [h1]
    exact Projection.edges_removeNode h.semantic id
  · show (q.remove id).2.temporal.edges = _
    rw [h2]
    exact Projection.edges_removeNode h.temporal id
  · show (q.remove id).2.causal.edges = _
    rw [h3]
    exact Projection.edges_removeNode h.causal id
  · show (q.remove id).2.entity.edges = _
    rw [h4]
    exact Projection.edges_removeNode h.entity id

/-! ### writing a node -/

theorem GraphsSynced.modify (h : q.GraphsSynced) (id : BeliefId) (f : BeliefNode → BeliefNode) :
    (q.modify id f).GraphsSynced where
  semantic := h.semantic.congr fun j => (live_modify q id f j).symm
  temporal := h.temporal.congr fun j => (live_modify q id f j).symm
  causal := h.causal.congr fun j => (live_modify q id f j).symm
  entity := h.entity.congr fun j => (live_modify q id f j).symm

theorem Synced.modify (h : q.Synced) (id : BeliefId) {f : BeliefNode → BeliefNode}
    (hf : ∀ n, (f n).id = n.id) : (q.modify id f).Synced where
  toGraphsSynced := h.toGraphsSynced.modify id f
  ids j n hn := by
    rw [get_modify] at hn
    split at hn
    · obtain ⟨n', hn', rfl⟩ := Option.map_eq_some_iff.mp hn
      rw [hf]
      exact h.ids j n' hn'
    · exact h.ids j n hn
  symmetric := h.symmetric

theorem store_modify (q : BeliefQuad M G) (id : BeliefId) (f : BeliefNode → BeliefNode) :
    (q.modify id f).store = q.store.assign id f :=
  Store.ext_parts (fun j => get_modify q id f j) rfl rfl rfl rfl

/-! ### adding edges -/

/-- the edges one semantic `addEdge` adds -/
def semanticLink (src dst : BeliefId) (edge : SemanticEdge) : Edges SemanticEdge :=
  if edge.symmetric then {(dst, src, edge), (src, dst, edge)} else {(src, dst, edge)}

theorem semanticEdges_addEdge {p : SemanticGraph G} {live : BeliefId → Prop} (h : p.Synced live)
    {src dst : BeliefId} (edge : SemanticEdge) (hl : live src ∧ live dst) :
    Projection.edges (SemanticGraph.addEdge p src dst edge) =
      semanticLink src dst edge + p.edges := by
  rw [SemanticGraph.addEdge_eq]
  unfold semanticLink
  split
  · rw [Projection.edges_addEdge (h.addEdge src dst edge) edge hl.symm,
      Projection.edges_addEdge h edge hl]
    rfl
  · rw [Projection.edges_addEdge h edge hl]
    rfl

theorem semantic_synced_addEdge {p : SemanticGraph G} {live : BeliefId → Prop}
    (h : p.Synced live) (src dst : BeliefId) (edge : SemanticEdge) :
    Projection.Synced (SemanticGraph.addEdge p src dst edge) live := by
  rw [SemanticGraph.addEdge_eq]
  split
  · exact (h.addEdge src dst edge).addEdge dst src edge
  · exact h.addEdge src dst edge

theorem semantic_addEdge_dead {p : SemanticGraph G} {live : BeliefId → Prop} (h : p.Synced live)
    {src dst : BeliefId} (edge : SemanticEdge) (hd : ¬ (live src ∧ live dst)) :
    SemanticGraph.addEdge p src dst edge = p := by
  rw [SemanticGraph.addEdge_eq, Projection.addEdge_of_dead h edge hd,
    Projection.addEdge_of_dead h edge (fun hl => hd hl.symm), ite_self]

/-- what is added is symmetric -/
theorem symmetric_semanticLink (src dst : BeliefId) (edge : SemanticEdge) :
    SymmetricEdges (semanticLink src dst edge) := by
  intro w a b hw
  unfold semanticLink
  split
  · rw [Multiset.insert_eq_cons, Multiset.count_cons, Multiset.count_cons,
      Multiset.count_singleton, Multiset.count_singleton]
    simp only [Prod.mk.injEq]
    rw [add_comm]
    congr 1
    · exact if_congr (by tauto) rfl rfl
    · exact if_congr (by tauto) rfl rfl
  · rename_i he
    have hne : w ≠ edge := fun e => he (e ▸ hw)
    rw [Multiset.count_singleton, Multiset.count_singleton,
      if_neg (fun e => hne (Prod.mk.inj (Prod.mk.inj e).2).2),
      if_neg (fun e => hne (Prod.mk.inj (Prod.mk.inj e).2).2)]

theorem SymmetricEdges.add {m m' : Edges SemanticEdge} (h : SymmetricEdges m)
    (h' : SymmetricEdges m') : SymmetricEdges (m + m') := by
  intro w a b hw
  rw [Multiset.count_add, Multiset.count_add, h w a b hw, h' w a b hw]

theorem Synced.addSemanticEdge (h : q.Synced) (src dst : BeliefId) (edge : SemanticEdge) :
    (q.addSemanticEdge src dst edge).Synced where
  semantic := semantic_synced_addEdge h.semantic src dst edge
  temporal := h.temporal
  causal := h.causal
  entity := h.entity
  ids := h.ids
  symmetric := by
    show SymmetricEdges (Projection.edges (SemanticGraph.addEdge q.semantic src dst edge))
    by_cases hl : q.Live src ∧ q.Live dst
    · rw [semanticEdges_addEdge h.semantic edge hl]
      exact (symmetric_semanticLink src dst edge).add h.symmetric
    · rw [semantic_addEdge_dead h.semantic edge hl]
      exact h.symmetric

/-- `Synced` says nothing about the other fields of a quad -/
theorem Synced.of_parts {q' : BeliefQuad M G} (h : q.Synced) (hn : q'.nodes = q.nodes)
    (h1 : q'.semantic = q.semantic) (h2 : q'.temporal = q.temporal) (h3 : q'.causal = q.causal)
    (h4 : q'.entity = q.entity) : q'.Synced := by
  have hg : q'.get = q.get := by
    funext id
    unfold get
    rw [hn]
  have hl : q'.Live = q.Live := by
    funext id
    unfold Live
    rw [hg]
  refine ⟨⟨?_, ?_, ?_, ?_⟩, ?_, ?_⟩
  · rw [h1, hl]
    exact h.semantic
  · rw [h2, hl]
    exact h.temporal
  · rw [h3, hl]
    exact h.causal
  · rw [h4, hl]
    exact h.entity
  · rw [hg]
    exact h.ids
  · rw [h1]
    exact h.symmetric

theorem Synced.addTemporalEdge (h : q.Synced) (src dst : BeliefId) (edge : TemporalEdge) :
    (q.addTemporalEdge src dst edge).Synced :=
  ⟨⟨h.semantic, h.temporal.addEdge src dst edge, h.causal, h.entity⟩, h.ids, h.symmetric⟩

theorem Synced.addCausalEdge (h : q.Synced) (src dst : BeliefId) (edge : CausalEdge) :
    (q.addCausalEdge src dst edge).Synced :=
  ⟨⟨h.semantic, h.temporal, h.causal.addEdge src dst edge, h.entity⟩, h.ids, h.symmetric⟩

theorem Synced.addEntityEdge (h : q.Synced) (src dst : BeliefId) (edge : EntityEdge) :
    (q.addEntityEdge src dst edge).Synced :=
  ⟨⟨h.semantic, h.temporal, h.causal, h.entity.addEdge src dst edge⟩, h.ids, h.symmetric⟩

end BeliefQuad
end Epica
