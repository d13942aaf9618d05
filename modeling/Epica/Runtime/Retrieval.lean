import Epica.Runtime.Update
import Mathlib.Algebra.BigOperators.Group.Multiset.Basic
import Mathlib.Data.List.Sort

/-!
# Retrieval

`retrieveForQuery` scores the beliefs that have not expired by four criteria, and returns snapshots
of the best ones.

* `length_retrieveForQuery`   how many it returns;
* `mem_retrieveForQuery`      they are snapshots of beliefs that have not expired.
-/

set_option linter.unusedSectionVars false

namespace Epica
open Lib Lib.StableDiGraph

/-! ## the four criteria -/

namespace ProspectiveIndex
variable [Platform]

/-- the cosine of the index is clamped, that of the embeddings of two texts is not -/
def cosineSimilarity (a b : List ℚ) : ℚ :=
  if a.length ≠ b.length ∨ a = [] then 0
  else
    let dot := (a.zip b).foldl (fun s p => s + p.1 * p.2) 0
    let normA := Platform.sqrt (a.foldl (fun s x => s + x * x) 0)
    let normB := Platform.sqrt (b.foldl (fun s x => s + x * x) 0)
    if normA = 0 ∨ normB = 0 then 0 else clamp (dot / (normA * normB)) (-1) 1

def maxProspectiveSim (x : ProspectiveIndex) (id : BeliefId) (queryEmbedding : List ℚ) : ℚ :=
  match x.entries.lookup id with
  | none => 0
  | some entries =>
    if queryEmbedding = [] then 0
    else ((entries.filter fun e => e.embedding ≠ []).map fun e =>
      cosineSimilarity e.embedding queryEmbedding).foldl max 0

end ProspectiveIndex

namespace CausalGraph
variable {G : Type → Type → Type} [StableDiGraph G]

/-- the damping factor of the PageRank -/
def damping : ℚ := 85 / 100

/-- what `src`, which has the rank `rank`, passes on to `dst`; without an outgoing edge it passes
on the same to all `n` nodes -/
def rankShare (p : CausalGraph G) (n : Nat) (src : Nat) (rank : ℚ) (dst : Nat) : ℚ :=
  let out := (edgesDirected p.graph src .outgoing).map EdgeRef.target
  if out = [] then damping * rank * (1 / n) else damping * rank / out.length * out.count dst

/-- one iteration; the ranks are pairs of a node and its rank, each node once -/
def rankStep (p : CausalGraph G) (ranks : Multiset (Nat × ℚ)) : Multiset (Nat × ℚ) :=
  let n := p.indices.entries.card
  p.indices.entries.map fun e => (e.2, (1 - damping) * (1 / n) +
    (ranks.map fun r => p.rankShare n r.1 r.2 e.2).sum)

def centrality (p : CausalGraph G) (id : BeliefId) : ℚ :=
  let n := p.indices.entries.card
  match p.indices.lookup id with
  | none => 0
  | some idx =>
    let ranks := p.rankStep^[20] (p.indices.entries.map fun e => (e.2, (1 / n : ℚ)))
    ((ranks.filter fun r => r.1 = idx).map Prod.snd).sum

end CausalGraph

def computeScore (prospectiveSim fastConfidence causalCentrality decayFactor : ℚ) : ℚ :=
  let uncertaintyBonus := 1 - fastConfidence
  let decayPenalty := 1 - decayFactor
  prospectiveSim * (45 / 100) + uncertaintyBonus * (25 / 100) + causalCentrality * (20 / 100) -
    decayPenalty * (10 / 100)

def BeliefNode.isExpired (n : BeliefNode) (currentMs : Nat) : Bool :=
  match n.ttlMs with
  | none => false
  | some ttl => ttl ≤ currentMs - n.createdAtMs

/-! ## retrieval -/

namespace BeliefRuntime
variable {M : Type → Type} {G : Type → Type → Type} [SlotMap M] [StableDiGraph G] [Platform]

/-- the beliefs that have not expired, with their scores -/
def scored (rt : BeliefRuntime M G) (queryEmb : List ℚ) (nowMs : Nat) : List (BeliefId × ℚ) :=
  ((SlotMap.iter rt.quad.nodes).filter fun e => !e.2.isExpired nowMs).map fun e =>
    let prospectiveSim :=
      if queryEmb = [] then 0 else rt.quad.prospectiveIndex.maxProspectiveSim e.1 queryEmb
    let causalCentrality := CausalGraph.centrality rt.quad.causal e.1
    let decay := rt.quad.decayFactor e.1 nowMs
    (e.1, computeScore prospectiveSim e.2.fastConfidence causalCentrality decay)

/-- `queryEmb` is the embedding of the query, empty when there is no embedder or when it fails -/
def retrieveForQuery (rt : BeliefRuntime M G) (queryEmb : List ℚ) (nowMs budgetTokens : Nat) :
    List BeliefSnapshot :=
  let maxCount := max (budgetTokens / 100) 1
  (((rt.scored queryEmb nowMs).insertionSort fun a b => b.2 ≤ a.2).take maxCount).filterMap fun e =>
    (rt.quad.get e.1).map fun n =>
      ⟨e.1, n.key, n.value, n.fastConfidence, n.slowConfidence, rt.quad.version⟩

variable (rt : BeliefRuntime M G) (queryEmb : List ℚ) (nowMs budgetTokens : Nat)

theorem mem_scored {id : BeliefId} {score : ℚ} (h : (id, score) ∈ rt.scored queryEmb nowMs) :
    ∃ n, rt.quad.get id = some n ∧ n.isExpired nowMs = false := by
  obtain ⟨⟨k, n⟩, he, hk⟩ := List.mem_map.mp h
  obtain ⟨hiter, hexpired⟩ := List.mem_filter.mp he
  obtain rfl : k = id := (Prod.mk.inj hk).1
  exact ⟨n, (SlotMap.mem_iter _ _ _).mp hiter, (Bool.not_eq_true' _).mp hexpired⟩

/-- a score is that of a live belief, so nothing is lost after the sort -/
theorem length_retrieveForQuery : (rt.retrieveForQuery queryEmb nowMs budgetTokens).length =
    min (max (budgetTokens / 100) 1) (rt.scored queryEmb nowMs).length := by
  unfold retrieveForQuery
  rw [List.filterMap_length_eq_length.mpr, List.length_take, List.length_insertionSort]
  intro e he
  have hmem := (List.mem_insertionSort _).mp (List.mem_of_mem_take he)
  obtain ⟨n, hn, -⟩ := rt.mem_scored queryEmb nowMs hmem
  rw [hn]
  rfl

/-- **what is returned: snapshots of beliefs that have not expired** -/
theorem mem_retrieveForQuery {s : BeliefSnapshot}
    (h : s ∈ rt.retrieveForQuery queryEmb nowMs budgetTokens) :
    ∃ n, rt.quad.get s.id = some n ∧ n.isExpired nowMs = false ∧ s = ⟨s.id, n.key, n.value,
      n.fastConfidence, n.slowConfidence, rt.quad.version⟩ := by
  obtain ⟨e, he, hs⟩ := List.mem_filterMap.mp h
  have hmem := (List.mem_insertionSort _).mp (List.mem_of_mem_take he)
  obtain ⟨n, hn, hexpired⟩ := rt.mem_scored queryEmb nowMs hmem
  rw [hn] at hs
  obtain rfl := Option.some.inj hs
  exact ⟨n, hn, hexpired, rfl⟩

/-- a query finds something exactly when some belief has not expired -/
theorem retrieveForQuery_ne_nil_iff : rt.retrieveForQuery queryEmb nowMs budgetTokens ≠ [] ↔
    ∃ id n, rt.quad.get id = some n ∧ n.isExpired nowMs = false := by
  rw [← List.length_pos_iff, length_retrieveForQuery]
  have hcount : 0 < max (budgetTokens / 100) 1 := lt_max_of_lt_right Nat.one_pos
  rw [lt_min_iff, and_iff_right hcount, List.length_pos_iff_exists_mem]
  constructor
  · intro h
    obtain ⟨⟨id, score⟩, hmem⟩ := h
    exact ⟨id, rt.mem_scored queryEmb nowMs hmem⟩
  · intro h
    obtain ⟨id, n, hn, hexpired⟩ := h
    exact ⟨_, List.mem_map_of_mem (List.mem_filter.mpr
      ⟨(SlotMap.mem_iter _ _ _).mpr hn, (Bool.not_eq_true' _).mpr hexpired⟩)⟩

end BeliefRuntime
end Epica
