import Epica.Core.Counterfactual
import Mathlib.Data.Multiset.MapFold

/-!
# The questions a graph answers

Each projection answers questions about one belief: its neighbours along one kind of edge, and for
the causal graph what is upstream and downstream of it.  They all read the edges of the graph at
one node.

* `coe_incoming`, `coe_outgoing`   the edges at a node are those of the store at that id;
* `mem_ancestorsOf`                a search of the reversed graph finds what reaches the belief;
* `queries_converse`               each question is the converse of another one: ancestors of
                                   descendants, supersets of subsets.
-/

set_option linter.unusedSectionVars false

namespace Lib

/-- the other direction -/
def Direction.opposite : Direction → Direction
  | .outgoing => .incoming
  | .incoming => .outgoing

end Lib

namespace Epica
open Lib Lib.StableDiGraph

/-! ## the edges at a node -/

namespace Projection
variable {G : Type → Type → Type} [StableDiGraph G] {E : Type}

/-- the far ends of the edges at `id`, with the weights -/
def edgesAt (p : Projection G E) (id : BeliefId) (d : Direction) : List (BeliefId × E) :=
  match p.indices.lookup id with
  | none => []
  | some idx => (edgesDirected p.graph idx d).filterMap fun e =>
      (nodeWeight p.graph (e.endpoint d.opposite)).map fun far => (far, e.weight)

/-- the ids a search of the reversed graph from `id` finds, `id` itself left out -/
def reachingTo (p : Projection G E) (id : BeliefId) : List BeliefId :=
  match p.indices.lookup id with
  | none => []
  | some start =>
    let reversed := (edgeReferences p.graph).map fun e => (e.target, e.source)
    ((Lib.dfs reversed start).tail.filterMap (nodeWeight p.graph)).dedup

/-- the end of an edge between ids that is at the node, as `EdgeRef.endpoint` -/
def near (d : Direction) (e : BeliefId × BeliefId × E) : BeliefId :=
  match d with
  | .outgoing => e.1
  | .incoming => e.2.1

variable {p : Projection G E} {live : BeliefId → Prop}

theorem near_ne_of_none (h : p.Synced live) {id : BeliefId} (hl : p.indices.lookup id = none)
    (d : Direction) {e : BeliefId × BeliefId × E} (he : e ∈ p.edges) : near d e ≠ id := by
  obtain ⟨ha, hb⟩ := h.live_of_mem (mem_edges.mp he)
  have hdead : ¬ live id := by
    rw [← h.keys, hl]
    exact Bool.false_ne_true
  intro e
  subst e
  cases d with
  | outgoing => exact hdead ha
  | incoming => exact hdead hb

theorem nodeWeight_endpoint {g : G BeliefId E} {e : EdgeRef E} {a b : BeliefId}
    (ha : nodeWeight g e.source = some a) (hb : nodeWeight g e.target = some b) (d : Direction) :
    nodeWeight g (e.endpoint d) = some (near d (a, b, e.weight)) := by
  cases d with
  | outgoing => exact ha
  | incoming => exact hb

/-- **the edges at a node are the edges of the projection at its id** -/
theorem coe_edgesAt (h : p.Synced live) (id : BeliefId) (d : Direction) :
    (p.edgesAt id d : Multiset (BeliefId × E)) =
      (p.edges.filter fun e => near d e = id).map fun e => (near d.opposite e, e.2.2) := by
  unfold edgesAt
  cases hl : p.indices.lookup id with
  | none =>
    rw [Multiset.filter_eq_nil.mpr fun e he => near_ne_of_none h hl d he]
    rfl
  | some idx =>
    unfold edges
    rw [Multiset.filter_coe, Multiset.map_coe, Multiset.coe_eq_coe]
    refine ((edgesDirected_perm p.graph idx d).filterMap _).trans ?_
    unfold allEdges
    rw [List.filterMap_filter, List.filter_filterMap, List.map_filterMap]
    apply List.Perm.of_eq
    apply List.filterMap_congr
    intro e he
    obtain ⟨a, b, ha, hb, hr⟩ := exists_resolve p.graph he
    have hnear := nodeWeight_endpoint ha hb d
    have hfar := nodeWeight_endpoint ha hb d.opposite
    have hat : e.endpoint d = idx ↔ near d (a, b, e.weight) = id := h.index_eq_iff hnear hl
    rw [hr, hfar, Option.filter_some]
    simp only [hat]
    split <;> rfl

/-- the edges backwards -/
def reversed (g : G BeliefId E) : List (Nat × Nat) :=
  (edgeReferences g).map fun e => (e.target, e.source)

theorem reversed_reach_iff (g : G BeliefId E) (i j : Nat) :
    Relation.ReflTransGen (EdgeStep (reversed g)) i j ↔
      Relation.ReflTransGen (fun x y => ∃ e ∈ edgeReferences g, e.source = x ∧ e.target = y)
        j i := by
  rw [← Relation.reflTransGen_swap]
  have hswap : EdgeStep (reversed g) =
      Function.swap fun x y => ∃ e ∈ edgeReferences g, e.source = x ∧ e.target = y := by
    funext a b
    apply propext
    unfold EdgeStep reversed
    rw [List.mem_map]
    show (∃ e ∈ edgeReferences g, (e.target, e.source) = (a, b)) ↔
      ∃ e ∈ edgeReferences g, e.source = b ∧ e.target = a
    simp only [Prod.mk.injEq, and_comm]
  rw [hswap]

/-- **a search of the reversed graph finds what reaches the belief, the belief left out** -/
theorem mem_reachingTo (h : p.Synced live) (id a : BeliefId) :
    a ∈ p.reachingTo id ↔ a ≠ id ∧ live id ∧ Relation.ReflTransGen p.Joined a id := by
  unfold reachingTo
  by_cases hid : live id
  · obtain ⟨i, hi⟩ := h.lookup_isSome hid
    obtain ⟨l, hl⟩ : ∃ l, Lib.dfs (reversed p.graph) i = i :: l := Lib.dfs_head i
    have hnd : (Lib.dfs (reversed p.graph) i).Nodup := Lib.dfs_nodup i
    rw [hl] at hnd
    have hfound : ∀ j, j ∈ l ↔ j ≠ i ∧ Relation.ReflTransGen (EdgeStep (reversed p.graph)) i j := by
      intro j
      rw [← Lib.mem_dfs, hl, List.mem_cons]
      constructor
      · intro hj
        exact ⟨fun e => (List.nodup_cons.mp hnd).1 (e ▸ hj), Or.inr hj⟩
      · intro hj
        exact hj.2.resolve_left hj.1
    simp only [hi]
    show a ∈ (((Lib.dfs (reversed p.graph) i).tail).filterMap _).dedup ↔ _
    rw [List.mem_dedup, List.mem_filterMap, hl, List.tail_cons]
    constructor
    · intro hp
      obtain ⟨j, hj, ha⟩ := hp
      obtain ⟨hne, hr⟩ := (hfound j).mp hj
      have ha' := h.noOther _ _ ha
      refine ⟨fun e => hne ((h.index_eq_iff ha hi).mpr e), hid, ?_⟩
      exact (h.reach_iff ha' hi).mp ((reversed_reach_iff p.graph i j).mp hr)
    · intro hp
      obtain ⟨hne, -, hr⟩ := hp
      have hlive : live a := by
        rcases Relation.ReflTransGen.cases_head hr with e | ⟨c, ⟨w, hw⟩, -⟩
        · exact absurd e hne
        · exact (h.live_of_mem hw).1
      obtain ⟨j, hj⟩ := h.lookup_isSome hlive
      refine ⟨j, (hfound j).mpr ⟨fun e => ?_, ?_⟩, h.weight a j hj⟩
      · exact hne ((h.index_eq_iff (h.weight a j hj) hi).mp e)
      · exact (reversed_reach_iff p.graph i j).mpr ((h.reach_iff hj hi).mpr hr)
  · rw [h.lookup_eq_none hid]
    simp only [List.not_mem_nil, hid, false_and, and_false]

end Projection

/-! ## the questions of each graph -/

section
variable {G : Type → Type → Type} [StableDiGraph G]

/-- the beliefs that subsume `id` -/
def SemanticGraph.supersetsOf (p : SemanticGraph G) (id : BeliefId) : List BeliefId :=
  ((p.edgesAt id .incoming).filter fun e => e.2 = .subsumes).map Prod.fst

/-- the beliefs `id` subsumes -/
def SemanticGraph.subsetsOf (p : SemanticGraph G) (id : BeliefId) : List BeliefId :=
  ((p.edgesAt id .outgoing).filter fun e => e.2 = .subsumes).map Prod.fst

def TemporalEdge.isPrecedes : TemporalEdge → Bool
  | .precedes _ => true
  | _ => false

/-- the beliefs that preceded `id` -/
def TemporalGraph.predecessorsOf (p : TemporalGraph G) (id : BeliefId) : List BeliefId :=
  ((p.edgesAt id .incoming).filter fun e => e.2.isPrecedes).map Prod.fst

/-- the beliefs upstream of `id`; the list stands for the hash set -/
def CausalGraph.ancestorsOf (p : CausalGraph G) (id : BeliefId) : List BeliefId := p.reachingTo id

def CausalGraph.incomingEdges (p : CausalGraph G) (id : BeliefId) :
    List (BeliefId × CausalEdge) :=
  p.edgesAt id .incoming

def EntityEdge.producer? : EntityEdge → Option String
  | .producedBy agentId => some agentId
  | _ => none

/-- the agents that produced `id` -/
def EntityGraph.producersOf (p : EntityGraph G) (id : BeliefId) : List String :=
  (p.edgesAt id .incoming).filterMap fun e => e.2.producer?

/-- the premise lists are those of the incoming edges -/
theorem CausalGraph.inferredFromPremises_eq {p : CausalGraph G} {live : BeliefId → Prop}
    (h : p.Synced live) (id : BeliefId) :
    inferredFromPremises p id = (incomingEdges p id).filterMap fun e => e.2.premises? := by
  unfold inferredFromPremises incomingEdges Projection.edgesAt
  cases p.indices.lookup id with
  | none => rfl
  | some idx =>
    rw [List.filterMap_filterMap]
    apply List.filterMap_congr
    intro e he
    obtain ⟨he, -⟩ := (mem_edgesDirected p.graph idx .incoming e).mp he
    obtain ⟨a, b, ha, hb⟩ := h.joins e he
    show e.weight.premises? = ((nodeWeight p.graph e.source).map fun far => (far, e.weight)).bind
      fun e => e.2.premises?
    rw [ha]
    rfl

theorem CausalGraph.mem_ancestorsOf {p : CausalGraph G} {live : BeliefId → Prop}
    (h : p.Synced live) (id a : BeliefId) :
    a ∈ ancestorsOf p id ↔ a ≠ id ∧ live id ∧ Relation.ReflTransGen p.Joined a id :=
  Projection.mem_reachingTo h id a

/-- what is downstream of a belief has it upstream -/
theorem CausalGraph.mem_ancestorsOf_iff {p : CausalGraph G} {live : BeliefId → Prop}
    (h : p.Synced live) (a d : BeliefId) : a ∈ ancestorsOf p d ↔ d ∈ descendantsOf p a := by
  rw [CausalGraph.mem_ancestorsOf h, show d ∈ descendantsOf p a ↔ _ from h.mem_reachableFrom a d]
  constructor
  · intro ha
    obtain ⟨hne, -, hr⟩ := ha
    refine ⟨fun e => hne e.symm, ?_, hr⟩
    rcases Relation.ReflTransGen.cases_head hr with e | ⟨c, ⟨w, hw⟩, -⟩
    · exact absurd e hne
    · exact (h.live_of_mem hw).1
  · intro hd
    obtain ⟨hne, -, hr⟩ := hd
    refine ⟨fun e => hne e.symm, ?_, hr⟩
    rcases Relation.ReflTransGen.cases_tail hr with e | ⟨c, -, w, hw⟩
    · exact absurd e hne
    · exact (h.live_of_mem hw).2

/-- each of the two counts the `Subsumes` edges from `a` to `b` -/
theorem SemanticGraph.count_supersetsOf {p : SemanticGraph G} {live : BeliefId → Prop}
    (h : Projection.Synced p live) (a b : BeliefId) :
    (supersetsOf p b).count a = (Projection.edges p).count (a, b, .subsumes) ∧
      (subsetsOf p a).count b = (Projection.edges p).count (a, b, .subsumes) := by
  have hcount : ∀ (d : Direction) (id far : BeliefId),
      (((p.edgesAt id d).filter fun e => e.2 = SemanticEdge.subsumes).map Prod.fst).count far =
        Multiset.card ((Projection.edges p).filter fun e => Projection.near d e = id ∧
          Projection.near d.opposite e = far ∧ e.2.2 = .subsumes) := by
    intro d id far
    rw [← Multiset.coe_count, ← Multiset.map_coe, ← Multiset.filter_coe, Projection.coe_edgesAt h,
      Multiset.count_map, Multiset.filter_filter, Multiset.filter_map, Multiset.card_map,
      Multiset.filter_filter]
    congr 1
    apply Multiset.filter_congr
    intro e _
    show (far = Projection.near d.opposite e ∧ e.2.2 = .subsumes) ∧ _ ↔ _
    tauto
  rw [Multiset.count_eq_card_filter_eq]
  constructor
  · refine (hcount .incoming b a).trans (congrArg Multiset.card (Multiset.filter_congr ?_))
    intro e _
    rw [Prod.ext_iff, Prod.ext_iff]
    show e.2.1 = b ∧ e.1 = a ∧ e.2.2 = .subsumes ↔ a = e.1 ∧ b = e.2.1 ∧ .subsumes = e.2.2
    tauto
  · refine (hcount .outgoing a b).trans (congrArg Multiset.card (Multiset.filter_congr ?_))
    intro e _
    rw [Prod.ext_iff, Prod.ext_iff]
    show e.1 = a ∧ e.2.1 = b ∧ e.2.2 = .subsumes ↔ a = e.1 ∧ b = e.2.1 ∧ .subsumes = e.2.2
    tauto

end

namespace BeliefQuad
variable {M : Type → Type} {G : Type → Type → Type} [SlotMap M] [StableDiGraph G]

/-- **the questions of the graphs are the converses of each other, in every run**: ancestors of
descendants, and supersets of subsets, an edge each; and the world without a belief keeps of the
others those it is no ancestor of -/
theorem queries_converse [Platform] (ops : List Op) (a b : BeliefId) :
    let q := run step (new : BeliefQuad M G) ops
    (a ∈ CausalGraph.ancestorsOf q.causal b ↔ b ∈ CausalGraph.descendantsOf q.causal a) ∧
    (SemanticGraph.supersetsOf q.semantic b).count a =
      (SemanticGraph.subsetsOf q.semantic a).count b ∧
    ∀ n, (b, n) ∈ (q.counterfactualQuery a).survivingBeliefs ↔
      q.get b = some n ∧ b ≠ a ∧ a ∉ CausalGraph.ancestorsOf q.causal b := by
  intro q
  have h : q.GraphsSynced := (run_in_step ops).1.toGraphsSynced
  have hconv : ∀ b, a ∈ CausalGraph.ancestorsOf q.causal b ↔
      b ∈ CausalGraph.descendantsOf q.causal a := CausalGraph.mem_ancestorsOf_iff h.causal a
  have hcount := SemanticGraph.count_supersetsOf h.semantic a b
  refine ⟨hconv b, hcount.1.trans hcount.2.symm, fun n => ?_⟩
  rw [CounterfactualWorld.mem_survivingBeliefs, hconv]
  unfold counterfactualQuery
  rw [Finset.mem_insert, List.mem_toFinset, not_or]

end BeliefQuad
end Epica
