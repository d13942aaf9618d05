import Epica.Lib.Best
import Epica.Runtime.Retrieval

/-!
# A query returns the best beliefs

`scoreOf` is the score a query gives a belief.  `retrieveForQuery` returns the best of the beliefs
that have not expired, as many as the budget pays for.

* `scored_eq`                   what is sorted: the unexpired beliefs with their scores;
* `ids_retrieveForQuery`        what is returned: the ids of the best of them;
* `score_le_of_not_retrieved`   none better is left out;
* `retrieveForQuery_topK`       how many, which, in which order, and that none better is left out.
-/

set_option linter.unusedSectionVars false

namespace Epica
open Lib

namespace BeliefRuntime
variable {M : Type → Type} {G : Type → Type → Type} [SlotMap M] [StableDiGraph G] [Platform]

def unexpired (rt : BeliefRuntime M G) (nowMs : Nat) : List (BeliefId × BeliefNode) :=
  (SlotMap.iter rt.quad.nodes).filter fun e => !e.2.isExpired nowMs

/-- the score of a belief for a query with the embedding `queryEmb`; `0` for an id without one -/
def scoreOf (rt : BeliefRuntime M G) (queryEmb : List ℚ) (nowMs : Nat) (id : BeliefId) : ℚ :=
  match rt.quad.get id with
  | none => 0
  | some n =>
    let prospectiveSim :=
      if queryEmb = [] then 0 else rt.quad.prospectiveIndex.maxProspectiveSim id queryEmb
    computeScore prospectiveSim n.fastConfidence (CausalGraph.centrality rt.quad.causal id)
      (rt.quad.decayFactor id nowMs)

variable (rt : BeliefRuntime M G) (queryEmb : List ℚ) (nowMs budgetTokens : Nat)

theorem mem_unexpired (id : BeliefId) (n : BeliefNode) :
    (id, n) ∈ rt.unexpired nowMs ↔ rt.quad.get id = some n ∧ n.isExpired nowMs = false := by
  unfold unexpired
  rw [List.mem_filter, SlotMap.mem_iter, Bool.not_eq_true']
  rfl

theorem scored_eq : rt.scored queryEmb nowMs =
    (rt.unexpired nowMs).map fun e => (e.1, rt.scoreOf queryEmb nowMs e.1) := by
  unfold scored
  refine List.map_congr_left fun e he => ?_
  have hget : rt.quad.get e.1 = some e.2 := ((rt.mem_unexpired nowMs e.1 e.2).mp he).1
  unfold scoreOf
  rw [hget]

theorem ids_scored : (rt.scored queryEmb nowMs).map Prod.fst =
    (rt.unexpired nowMs).map Prod.fst := by
  rw [scored_eq, List.map_map]
  rfl

theorem nodup_ids_scored : ((rt.scored queryEmb nowMs).map Prod.fst).Nodup := by
  rw [ids_scored]
  exact (SlotMap.nodup_iter rt.quad.nodes).sublist (List.filter_sublist.map Prod.fst)

theorem snd_of_mem_scored {e : BeliefId × ℚ} (he : e ∈ rt.scored queryEmb nowMs) :
    e.2 = rt.scoreOf queryEmb nowMs e.1 := by
  rw [scored_eq] at he
  obtain ⟨x, -, rfl⟩ := List.mem_map.mp he
  rfl

/-- the scored beliefs a query returns, best first -/
def bestScored : List (BeliefId × ℚ) :=
  best Prod.snd (max (budgetTokens / 100) 1) (rt.scored queryEmb nowMs)

/-- the snapshots are of the best scored beliefs, one for each -/
theorem ids_retrieveForQuery : (rt.retrieveForQuery queryEmb nowMs budgetTokens).map (·.id) =
    (rt.bestScored queryEmb nowMs budgetTokens).map Prod.fst := by
  have hall : ∀ l : List (BeliefId × ℚ), (∀ e ∈ l, e ∈ rt.scored queryEmb nowMs) →
      (l.filterMap fun e => (rt.quad.get e.1).map fun n => (⟨e.1, n.key, n.value,
        n.fastConfidence, n.slowConfidence, rt.quad.version⟩ : BeliefSnapshot)).map (·.id) =
      l.map Prod.fst := by
    intro l hl
    induction l with
    | nil => rfl
    | cons e l ih =>
      obtain ⟨n, hn, -⟩ := rt.mem_scored queryEmb nowMs (hl e List.mem_cons_self)
      simp only [List.filterMap_cons, hn, Option.map_some, List.map_cons]
      rw [ih fun x hx => hl x (List.mem_cons_of_mem e hx)]
  exact hall _ fun e he => mem_of_mem_best he

theorem score_bestScored {e : BeliefId × ℚ} (he : e ∈ rt.bestScored queryEmb nowMs budgetTokens) :
    e.2 = rt.scoreOf queryEmb nowMs e.1 :=
  rt.snd_of_mem_scored queryEmb nowMs (mem_of_mem_best he)

theorem pairwise_retrieveForQuery : (rt.retrieveForQuery queryEmb nowMs budgetTokens).Pairwise
    fun s t => rt.scoreOf queryEmb nowMs t.id ≤ rt.scoreOf queryEmb nowMs s.id := by
  have hbest : ((rt.bestScored queryEmb nowMs budgetTokens).map Prod.fst).Pairwise
      fun a b => rt.scoreOf queryEmb nowMs b ≤ rt.scoreOf queryEmb nowMs a := by
    rw [List.pairwise_map]
    refine List.Pairwise.imp_of_mem (fun {a b} ha hb h => ?_) pairwise_best
    rw [← rt.score_bestScored queryEmb nowMs budgetTokens ha,
      ← rt.score_bestScored queryEmb nowMs budgetTokens hb]
    exact h
  rw [← ids_retrieveForQuery, List.pairwise_map] at hbest
  exact hbest

/-- a belief that is left out was scored, and is not among the best -/
theorem score_le_of_not_retrieved {id : BeliefId} {n : BeliefNode} (hn : rt.quad.get id = some n)
    (hexpired : n.isExpired nowMs = false)
    (hout : id ∉ (rt.retrieveForQuery queryEmb nowMs budgetTokens).map (·.id))
    {s : BeliefSnapshot} (hs : s ∈ rt.retrieveForQuery queryEmb nowMs budgetTokens) :
    rt.scoreOf queryEmb nowMs id ≤ rt.scoreOf queryEmb nowMs s.id := by
  have hmem : (id, rt.scoreOf queryEmb nowMs id) ∈ rt.scored queryEmb nowMs := by
    rw [scored_eq]
    exact List.mem_map.mpr ⟨(id, n), (rt.mem_unexpired nowMs id n).mpr ⟨hn, hexpired⟩, rfl⟩
  have hsid : s.id ∈ (rt.retrieveForQuery queryEmb nowMs budgetTokens).map (·.id) :=
    List.mem_map_of_mem hs
  rw [ids_retrieveForQuery] at hout hsid
  have hleft : (id, rt.scoreOf queryEmb nowMs id) ∉ rt.bestScored queryEmb nowMs budgetTokens :=
    fun h => hout (List.mem_map_of_mem h)
  obtain ⟨e, he, hes⟩ := List.mem_map.mp hsid
  have hbetter : rt.scoreOf queryEmb nowMs id ≤ e.2 := best_optimal he hmem hleft
  rw [rt.score_bestScored queryEmb nowMs budgetTokens he, hes] at hbetter
  exact hbetter

/-- **a query returns the best**: as many snapshots as the budget pays for, at least one, as long
as there are beliefs that have not expired; each of another such belief; best first; and no such
belief that is left out has a better score than one that is returned -/
theorem retrieveForQuery_topK (rt : BeliefRuntime M G) (queryEmb : List ℚ)
    (nowMs budgetTokens : Nat) :
    let found := rt.retrieveForQuery queryEmb nowMs budgetTokens
    let score := rt.scoreOf queryEmb nowMs
    found.length = min (max 1 (budgetTokens / 100)) (rt.unexpired nowMs).length ∧
    (found.map (·.id)).Nodup ∧
    (∀ s ∈ found, ∃ n, rt.quad.get s.id = some n ∧ n.isExpired nowMs = false ∧ s = ⟨s.id, n.key,
      n.value, n.fastConfidence, n.slowConfidence, rt.quad.version⟩) ∧
    found.Pairwise (fun s t => score t.id ≤ score s.id) ∧
    ∀ id n, rt.quad.get id = some n → n.isExpired nowMs = false → id ∉ found.map (·.id) →
      ∀ s ∈ found, score id ≤ score s.id := by
  intro found score
  refine ⟨?_, ?_, fun s hs => rt.mem_retrieveForQuery queryEmb nowMs budgetTokens hs,
    rt.pairwise_retrieveForQuery queryEmb nowMs budgetTokens, fun id n hn hexpired hout s hs =>
      rt.score_le_of_not_retrieved queryEmb nowMs budgetTokens hn hexpired hout hs⟩
  · rw [max_comm, rt.length_retrieveForQuery, scored_eq, List.length_map]
  · have hids : found.map (·.id) = (rt.bestScored queryEmb nowMs budgetTokens).map Prod.fst :=
      rt.ids_retrieveForQuery queryEmb nowMs budgetTokens
    rw [hids]
    exact nodup_best (rt.nodup_ids_scored queryEmb nowMs)

end BeliefRuntime
end Epica
