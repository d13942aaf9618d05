import Epica.Lib.DiGraph
import Epica.Core.Belief
import Mathlib.Data.Finmap

/-!
# One graph projection: a stable graph and the index of its nodes

All four graphs of a quad are a `graph` whose node weights are belief ids and a map `indices` from
ids to node indices, with the same `addNode`, `removeNode` and (but for the semantic graph)
`addEdge`.

`Synced p live`: the index holds exactly the ids that are `live`, each at its own node, and the
graph has no other node.  Under it every operation is an operation on the list `allEdges` of
edges between ids (up to order):

* `allEdges_addNode`, `allEdges_removeNode`, `allEdges_addEdge`   what happens to the edges;
* `Synced.addNode`, `Synced.removeNode`, `Synced.addEdge`         it stays in step.
-/

set_option linter.unusedSectionVars false

namespace Epica
open Lib Lib.StableDiGraph

structure Projection (G : Type → Type → Type) (E : Type) where
  graph : G BeliefId E
  indices : Finmap fun _ : BeliefId => Nat

namespace Projection
variable {G : Type → Type → Type} [StableDiGraph G] {E : Type}

def new : Projection G E := ⟨StableDiGraph.new, ∅⟩

def addNode (p : Projection G E) (id : BeliefId) : Projection G E :=
  let (idx, graph) := StableDiGraph.addNode p.graph id
  { graph := graph, indices := p.indices.insert id idx }

def removeNode (p : Projection G E) (id : BeliefId) : Projection G E :=
  match p.indices.lookup id with
  | none => p
  | some idx => { graph := StableDiGraph.removeNode p.graph idx, indices := p.indices.erase id }

def addEdge (p : Projection G E) (src dst : BeliefId) (edge : E) : Projection G E :=
  match p.indices.lookup src, p.indices.lookup dst with
  | some fi, some ti => { p with graph := StableDiGraph.addEdge p.graph fi ti edge }
  | _, _ => p

/-- the ids an edge joins -/
def resolve (g : G BeliefId E) (e : EdgeRef E) : Option (BeliefId × BeliefId × E) :=
  (nodeWeight g e.source).bind fun a =>
    (nodeWeight g e.target).map fun b => (a, b, e.weight)

/-- every edge as `(from, to, weight)` -/
def allEdges (p : Projection G E) : List (BeliefId × BeliefId × E) :=
  (edgeReferences p.graph).filterMap (resolve p.graph)

/-- the ids a search from `id` finds, `id` itself left out -/
def reachableFrom (p : Projection G E) (id : BeliefId) : List BeliefId :=
  match p.indices.lookup id with
  | none => []
  | some start => ((dfs p.graph start).tail.filterMap (nodeWeight p.graph)).dedup

/-- there is an edge from `a` to `b` -/
def Joined (p : Projection G E) (a b : BeliefId) : Prop := ∃ w, (a, b, w) ∈ p.allEdges

/-! ## in step with the live ids -/

structure Synced (p : Projection G E) (live : BeliefId → Prop) : Prop where
  keys : ∀ id, (p.indices.lookup id).isSome ↔ live id
  injective : ∀ a b i, p.indices.lookup a = some i → p.indices.lookup b = some i → a = b
  weight : ∀ id i, p.indices.lookup id = some i → nodeWeight p.graph i = some id
  noOther : ∀ i id, nodeWeight p.graph i = some id → p.indices.lookup id = some i
  joins : ∀ e ∈ edgeReferences p.graph, ∃ a b, nodeWeight p.graph e.source = some a ∧
    nodeWeight p.graph e.target = some b ∧ live a ∧ live b

/-- that the nodes are those of the index is enough -/
theorem Synced.of_nodes {p : Projection G E} {live : BeliefId → Prop}
    (keys : ∀ id, (p.indices.lookup id).isSome ↔ live id)
    (nodes : ∀ id i, p.indices.lookup id = some i ↔ nodeWeight p.graph i = some id) :
    p.Synced live where
  keys := keys
  injective a b i ha hb := by
    rw [nodes] at ha hb
    rw [ha] at hb
    exact Option.some.inj hb
  weight id i h := (nodes id i).mp h
  noOther i id h := (nodes id i).mpr h
  joins e he := by
    obtain ⟨hs, ht⟩ := edge_live p.graph e he
    obtain ⟨a, ha⟩ := Option.isSome_iff_exists.mp hs
    obtain ⟨b, hb⟩ := Option.isSome_iff_exists.mp ht
    refine ⟨a, b, ha, hb, (keys a).mp ?_, (keys b).mp ?_⟩
    · rw [(nodes a _).mpr ha]
      rfl
    · rw [(nodes b _).mpr hb]
      rfl

variable {p : Projection G E} {live : BeliefId → Prop}

theorem Synced.nodes (h : p.Synced live) (id : BeliefId) (i : Nat) :
    p.indices.lookup id = some i ↔ nodeWeight p.graph i = some id :=
  ⟨h.weight id i, h.noOther i id⟩

/-- two nodes are one exactly when their ids are -/
theorem Synced.index_eq_iff (h : p.Synced live) {a id : BeliefId} {j i : Nat}
    (ha : nodeWeight p.graph j = some a) (hi : p.indices.lookup id = some i) :
    j = i ↔ a = id := by
  have hj : p.indices.lookup a = some j := h.noOther j a ha
  constructor
  · intro e
    rw [e] at hj
    exact h.injective a id i hj hi
  · intro e
    rw [e, hi] at hj
    exact (Option.some.inj hj).symm

theorem Synced.lookup_isSome (h : p.Synced live) {id : BeliefId} (hid : live id) :
    ∃ i, p.indices.lookup id = some i :=
  Option.isSome_iff_exists.mp ((h.keys id).mpr hid)

theorem Synced.lookup_eq_none (h : p.Synced live) {id : BeliefId} (hid : ¬ live id) :
    p.indices.lookup id = none := by
  rw [← Option.not_isSome_iff_eq_none, h.keys]
  exact hid

theorem Synced.congr (h : p.Synced live) {live' : BeliefId → Prop} (e : ∀ id, live id ↔ live' id) :
    p.Synced live' := by
  have : live = live' := funext fun id => propext (e id)
  rw [← this]
  exact h

theorem resolve_eq_some {g : G BeliefId E} {e : EdgeRef E} {a b : BeliefId} {w : E} :
    resolve g e = some (a, b, w) ↔
      nodeWeight g e.source = some a ∧ nodeWeight g e.target = some b ∧ e.weight = w := by
  unfold resolve
  cases nodeWeight g e.source <;> cases nodeWeight g e.target <;>
    simp only [Option.bind_none, Option.bind_some, Option.map_none, Option.map_some,
      Option.some.injEq, Prod.mk.injEq, reduceCtorEq, false_and, and_false]

/-- no edge is dropped -/
theorem exists_resolve (g : G BeliefId E) {e : EdgeRef E} (he : e ∈ edgeReferences g) :
    ∃ a b, nodeWeight g e.source = some a ∧ nodeWeight g e.target = some b ∧
      resolve g e = some (a, b, e.weight) := by
  obtain ⟨hs, ht⟩ := edge_live g e he
  obtain ⟨a, ha⟩ := Option.isSome_iff_exists.mp hs
  obtain ⟨b, hb⟩ := Option.isSome_iff_exists.mp ht
  exact ⟨a, b, ha, hb, resolve_eq_some.mpr ⟨ha, hb, rfl⟩⟩

theorem mem_allEdges {a b : BeliefId} {w : E} :
    (a, b, w) ∈ p.allEdges ↔ ∃ e ∈ edgeReferences p.graph,
      nodeWeight p.graph e.source = some a ∧ nodeWeight p.graph e.target = some b ∧
        e.weight = w := by
  unfold allEdges
  rw [List.mem_filterMap]
  simp only [resolve_eq_some]

theorem Synced.live_of_mem (h : p.Synced live) {a b : BeliefId} {w : E}
    (he : (a, b, w) ∈ p.allEdges) : live a ∧ live b := by
  obtain ⟨e, he, ha, hb, -⟩ := mem_allEdges.mp he
  obtain ⟨a', b', ha', hb', hla, hlb⟩ := h.joins e he
  rw [ha] at ha'
  rw [hb] at hb'
  rw [Option.some.inj ha', Option.some.inj hb']
  exact ⟨hla, hlb⟩

/-! ## the operations -/

theorem synced_new : (new : Projection G E).Synced fun _ => False := by
  refine Synced.of_nodes (fun id => ?_) (fun id i => ?_)
  · show ((∅ : Finmap fun _ : BeliefId => Nat).lookup id).isSome ↔ False
    rw [Finmap.lookup_empty]
    simp
  · show (∅ : Finmap fun _ : BeliefId => Nat).lookup id = some i ↔
      nodeWeight (StableDiGraph.new : G BeliefId E) i = some id
    rw [Finmap.lookup_empty, nodeWeight_new]
    simp

theorem allEdges_new : (new : Projection G E).allEdges = [] := by
  show (edgeReferences (StableDiGraph.new : G BeliefId E)).filterMap _ = []
  rw [edgeReferences_new, List.filterMap_nil]

theorem indices_addNode (p : Projection G E) (id : BeliefId) :
    (p.addNode id).indices = p.indices.insert id (StableDiGraph.addNode p.graph id).1 := rfl
theorem graph_addNode (p : Projection G E) (id : BeliefId) :
    (p.addNode id).graph = (StableDiGraph.addNode p.graph id).2 := rfl

theorem Synced.addNode (h : p.Synced live) {id : BeliefId} (hid : ¬ live id) :
    (p.addNode id).Synced fun j => live j ∨ j = id := by
  have hnone := h.lookup_eq_none hid
  have hfresh := nodeWeight_fresh p.graph id
  refine Synced.of_nodes (fun j => ?_) (fun j i => ?_)
  · rw [indices_addNode]
    by_cases e : j = id
    · rw [e, Finmap.lookup_insert]
      simp
    · rw [Finmap.lookup_insert_of_ne _ e, h.keys]
      simp only [e, or_false]
  · rw [indices_addNode, graph_addNode, nodeWeight_addNode]
    by_cases e : j = id
    · subst e
      rw [Finmap.lookup_insert]
      by_cases hi : i = (StableDiGraph.addNode p.graph j).1
      · simp [hi]
      · rw [if_neg hi, ← h.nodes, hnone]
        simp only [Option.some.injEq, reduceCtorEq, iff_false]
        exact fun e => hi e.symm
    · rw [Finmap.lookup_insert_of_ne _ e, h.nodes]
      by_cases hi : i = (StableDiGraph.addNode p.graph id).1
      · rw [if_pos hi, hi, hfresh]
        simp only [reduceCtorEq, Option.some.injEq, false_iff]
        exact fun e' => e e'.symm
      · rw [if_neg hi]

/-- a filter-map over edges that agree on both graphs -/
theorem allEdges_congr {g g' : G BeliefId E} {l l' : List (EdgeRef E)} (hp : l'.Perm l)
    (hr : ∀ e ∈ l, resolve g' e = resolve g e) :
    (l'.filterMap (resolve g')).Perm (l.filterMap (resolve g)) := by
  refine (hp.filterMap _).trans ?_
  rw [List.filterMap_congr hr]

theorem allEdges_addNode (p : Projection G E) (id : BeliefId) :
    (p.addNode id).allEdges.Perm p.allEdges := by
  unfold allEdges
  rw [graph_addNode]
  refine allEdges_congr (edgeReferences_addNode p.graph id) (fun e he => ?_)
  obtain ⟨a, b, ha, hb, hr⟩ := exists_resolve p.graph he
  have hfresh := nodeWeight_fresh p.graph id
  rw [hr, resolve_eq_some, nodeWeight_addNode, nodeWeight_addNode]
  refine ⟨?_, ?_, rfl⟩
  · rw [if_neg (fun e => by rw [e, hfresh] at ha; cases ha), ha]
  · rw [if_neg (fun e => by rw [e, hfresh] at hb; cases hb), hb]

theorem removeNode_of_none {id : BeliefId} (h : p.indices.lookup id = none) :
    p.removeNode id = p := by
  unfold removeNode
  rw [h]

theorem removeNode_of_some {id : BeliefId} {i : Nat} (h : p.indices.lookup id = some i) :
    p.removeNode id =
      { graph := StableDiGraph.removeNode p.graph i, indices := p.indices.erase id } := by
  unfold removeNode
  rw [h]

theorem Synced.removeNode (h : p.Synced live) (id : BeliefId) :
    (p.removeNode id).Synced fun j => live j ∧ j ≠ id := by
  cases hl : p.indices.lookup id with
  | none =>
    rw [removeNode_of_none hl]
    refine h.congr fun j => ⟨fun hj => ⟨hj, fun e => ?_⟩, fun hj => hj.1⟩
    rw [← h.keys, e, hl] at hj
    cases hj
  | some i =>
    rw [removeNode_of_some hl]
    refine Synced.of_nodes (fun j => ?_) (fun j k => ?_)
    · by_cases e : j = id
      · rw [e, Finmap.lookup_erase]
        simp
      · rw [Finmap.lookup_erase_ne e, h.keys]
        simp only [ne_eq, e, not_false_eq_true, and_true]
    · rw [nodeWeight_removeNode]
      by_cases e : j = id
      · rw [e, Finmap.lookup_erase]
        by_cases hk : k = i
        · rw [if_pos hk]
          simp
        · rw [if_neg hk, ← h.nodes, hl]
          simp only [reduceCtorEq, Option.some.injEq, false_iff]
          exact fun e => hk e.symm
      · rw [Finmap.lookup_erase_ne e, h.nodes]
        by_cases hk : k = i
        · rw [if_pos hk, hk, (h.nodes id i).mp hl]
          simp only [Option.some.injEq, reduceCtorEq, iff_false]
          exact fun e' => e e'.symm
        · rw [if_neg hk]

theorem allEdges_removeNode (h : p.Synced live) (id : BeliefId) :
    (p.removeNode id).allEdges.Perm (p.allEdges.filter fun e => e.1 ≠ id ∧ e.2.1 ≠ id) := by
  cases hl : p.indices.lookup id with
  | none =>
    rw [removeNode_of_none hl, List.filter_eq_self.mpr]
    rintro ⟨a, b, w⟩ he
    obtain ⟨ha, hb⟩ := h.live_of_mem he
    rw [← h.keys] at ha hb
    refine decide_eq_true ⟨fun e => ?_, fun e => ?_⟩
    · rw [show a = id from e, hl] at ha
      cases ha
    · rw [show b = id from e, hl] at hb
      cases hb
  | some i =>
    rw [removeNode_of_some hl]
    unfold allEdges
    rw [List.filter_filterMap]
    refine ((edgeReferences_removeNode p.graph i).filterMap _).trans ?_
    rw [List.filterMap_filter]
    rw [List.filterMap_congr]
    intro e he
    obtain ⟨a, b, ha, hb, hr⟩ := exists_resolve p.graph he
    have hs : e.source = i ↔ a = id := h.index_eq_iff ha hl
    have ht : e.target = i ↔ b = id := h.index_eq_iff hb hl
    rw [hr, Option.filter_some]
    simp only [ne_eq, hs, ht]
    split
    · rename_i hne
      obtain ⟨h1, h2⟩ := of_decide_eq_true hne
      rw [resolve_eq_some, nodeWeight_removeNode, nodeWeight_removeNode,
        if_neg (fun e' => h1 (hs.mp e')), if_neg (fun e' => h2 (ht.mp e'))]
      exact ⟨ha, hb, rfl⟩
    · rfl

theorem addEdge_of_some {src dst : BeliefId} {fi ti : Nat} (w : E)
    (hs : p.indices.lookup src = some fi) (ht : p.indices.lookup dst = some ti) :
    p.addEdge src dst w = { p with graph := StableDiGraph.addEdge p.graph fi ti w } := by
  unfold addEdge
  rw [hs, ht]

theorem addEdge_of_dead (h : p.Synced live) {src dst : BeliefId} (w : E)
    (hd : ¬ (live src ∧ live dst)) : p.addEdge src dst w = p := by
  unfold addEdge
  split
  · rename_i fi ti hs ht
    refine absurd ⟨(h.keys src).mp ?_, (h.keys dst).mp ?_⟩ hd
    · rw [hs]
      rfl
    · rw [ht]
      rfl
  · rfl

theorem Synced.addEdge (h : p.Synced live) (src dst : BeliefId) (w : E) :
    (p.addEdge src dst w).Synced live := by
  by_cases hl : live src ∧ live dst
  · obtain ⟨fi, hs⟩ := h.lookup_isSome hl.1
    obtain ⟨ti, ht⟩ := h.lookup_isSome hl.2
    rw [addEdge_of_some w hs ht]
    refine Synced.of_nodes h.keys (fun id i => ?_)
    rw [nodeWeight_addEdge]
    exact h.nodes id i
  · rw [addEdge_of_dead h w hl]
    exact h

theorem allEdges_addEdge (h : p.Synced live) {src dst : BeliefId} (w : E)
    (hl : live src ∧ live dst) :
    (p.addEdge src dst w).allEdges.Perm ((src, dst, w) :: p.allEdges) := by
  obtain ⟨fi, hs⟩ := h.lookup_isSome hl.1
  obtain ⟨ti, ht⟩ := h.lookup_isSome hl.2
  have hws := h.weight src fi hs
  have hwt := h.weight dst ti ht
  rw [addEdge_of_some w hs ht]
  unfold allEdges
  have hperm := edgeReferences_addEdge p.graph fi ti w (by rw [hws]; rfl) (by rw [hwt]; rfl)
  have hr : ∀ e, resolve (StableDiGraph.addEdge p.graph fi ti w) e = resolve p.graph e := by
    intro e
    unfold resolve
    rw [nodeWeight_addEdge, nodeWeight_addEdge]
  refine (allEdges_congr hperm (fun e _ => hr e)).trans ?_
  rw [List.filterMap_cons_some (b := (src, dst, w)) (resolve_eq_some.mpr ⟨hws, hwt, rfl⟩)]

/-! ## searching -/

/-- the steps of the search, between ids -/
theorem Synced.joined_iff (h : p.Synced live) {a b : BeliefId} {i j : Nat}
    (ha : p.indices.lookup a = some i) (hb : p.indices.lookup b = some j) :
    (∃ e ∈ edgeReferences p.graph, e.source = i ∧ e.target = j) ↔ p.Joined a b := by
  constructor
  · intro hp
    obtain ⟨e, he, rfl, rfl⟩ := hp
    exact ⟨e.weight, mem_allEdges.mpr ⟨e, he, h.weight a _ ha, h.weight b _ hb, rfl⟩⟩
  · intro hp
    obtain ⟨w, hw⟩ := hp
    obtain ⟨e, he, hs, ht, -⟩ := mem_allEdges.mp hw
    have h1 := h.noOther _ _ hs
    have h2 := h.noOther _ _ ht
    rw [ha] at h1
    rw [hb] at h2
    exact ⟨e, he, (Option.some.inj h1).symm, (Option.some.inj h2).symm⟩

theorem Synced.reach_iff (h : p.Synced live) {a b : BeliefId} {i j : Nat}
    (ha : p.indices.lookup a = some i) (hb : p.indices.lookup b = some j) :
    Relation.ReflTransGen
        (fun x y => ∃ e ∈ edgeReferences p.graph, e.source = x ∧ e.target = y) i j ↔
      Relation.ReflTransGen p.Joined a b := by
  constructor
  · intro hr
    induction hr generalizing b with
    | refl => rw [h.injective a b i ha hb]
    | tail _ hs ih =>
      obtain ⟨e, he, rfl, rfl⟩ := hs
      obtain ⟨c, -, hc, -⟩ := h.joins e he
      have hc := h.noOther _ _ hc
      exact (ih hc).tail ((h.joined_iff hc hb).mp ⟨e, he, rfl, rfl⟩)
  · intro hr
    induction hr generalizing j with
    | refl =>
      rw [ha] at hb
      rw [Option.some.inj hb]
    | tail _ hs ih =>
      obtain ⟨w, hw⟩ := hs
      obtain ⟨k, hk⟩ := h.lookup_isSome (h.live_of_mem hw).1
      exact (ih hk).tail ((h.joined_iff hk hb).mpr ⟨w, hw⟩)

/-- **a search finds what is reachable, the start left out** -/
theorem Synced.mem_reachableFrom (h : p.Synced live) (id d : BeliefId) :
    d ∈ p.reachableFrom id ↔ d ≠ id ∧ live id ∧ Relation.ReflTransGen p.Joined id d := by
  unfold reachableFrom
  by_cases hid : live id
  · obtain ⟨i, hi⟩ := h.lookup_isSome hid
    have hw := h.weight id i hi
    have hsome : (nodeWeight p.graph i).isSome := by rw [hw]; rfl
    obtain ⟨l, hl⟩ := dfs_head p.graph i hsome
    have hnd := dfs_nodup p.graph i
    rw [hl] at hnd
    simp only [hi]
    rw [List.mem_dedup, List.mem_filterMap, hl, List.tail_cons]
    constructor
    · intro hp
      obtain ⟨j, hj, hd⟩ := hp
      have hj' : j ∈ dfs p.graph i := by rw [hl]; exact List.mem_cons_of_mem _ hj
      have hd' := h.noOther _ _ hd
      refine ⟨?_, hid, (h.reach_iff hi hd').mp ((mem_dfs p.graph i j hsome).mp hj')⟩
      rintro rfl
      rw [hi] at hd'
      rw [← Option.some.inj hd'] at hj
      exact (List.nodup_cons.mp hnd).1 hj
    · intro hp
      obtain ⟨hne, -, hr⟩ := hp
      have hlive : live d := by
        rcases Relation.ReflTransGen.cases_tail hr with e | ⟨c, -, w, hw⟩
        · exact absurd e hne
        · exact (h.live_of_mem hw).2
      obtain ⟨j, hj⟩ := h.lookup_isSome hlive
      refine ⟨j, ?_, h.weight d j hj⟩
      have hmem := (mem_dfs p.graph i j hsome).mpr ((h.reach_iff hi hj).mpr hr)
      rw [hl] at hmem
      rcases List.mem_cons.mp hmem with e | hmem
      · rw [e] at hj
        exact absurd (h.injective d id i hj hi) hne
      · exact hmem
  · simp only [h.lookup_eq_none hid, hid, List.not_mem_nil, false_and, and_false]

end Projection
end Epica
