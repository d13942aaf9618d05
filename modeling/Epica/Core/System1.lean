import Epica.Lib.HashOrder
import Epica.Lib.Visit
import Epica.Core.Store
import Mathlib.Algebra.BigOperators.Group.List.Defs

/-!
# System 1: confidence propagation

`propagateSystem1 q now order changed` recomputes `changed`, then descends into its causal
descendants, each in the order its hash set is enumerated (`order d`), with one visited set for
the whole call.  `now d` is the clock reading of the visit of `d`.

The recursion is bounded by a depth that is never reached (`propagateInner_fuel`), and is a plain
fold over the order of the visits:

* `propagateSystem1_eq`   the quad left behind is `recompute` folded over `visitOrder`;
* `mem_visitOrder`        what is visited is `changed` and its descendants;
* `propagate_only`        nothing but fast confidences is written.
-/

set_option linter.unusedSectionVars false

namespace Epica
open Lib

/-- Noisy-OR: `1 - ∏ (1 - cᵢ)`, and `0` of nothing -/
def combine (confidences : List ℚ) : ℚ :=
  if confidences = [] then 0 else 1 - (confidences.map fun c => 1 - clamp c 0 1).prod

namespace BeliefQuad
variable {M : Type → Type} {G : Type → Type → Type} [SlotMap M] [StableDiGraph G] [Platform]

def len (q : BeliefQuad M G) : Nat := SlotMap.len q.nodes

/-- the Noisy-OR of the live premises of one support path -/
def pathConfidence (q : BeliefQuad M G) (premises : List BeliefId) : ℚ :=
  combine (premises.filterMap fun p => (q.get p).map BeliefNode.fastConfidence)

/-- what System 1 writes at `id`: best evidence over the support paths, decayed -/
def conclusionConfidence (q : BeliefQuad M G) (nowMs : Nat) (id : BeliefId) : ℚ :=
  let perEdgeConfidences :=
    (CausalGraph.inferredFromPremises q.causal id).map q.pathConfidence
  let combined := perEdgeConfidences.foldl max 0
  let decay := q.decayFactor id nowMs
  clamp (combined * decay) 0 1

/-- one visit: a belief without support paths is left alone -/
def recompute (q : BeliefQuad M G) (nowMs : Nat) (id : BeliefId) : BeliefQuad M G :=
  if (CausalGraph.inferredFromPremises q.causal id).isEmpty then q
  else
    let newConfidence := q.conclusionConfidence nowMs id
    q.modify id fun n => { n with fastConfidence := newConfidence }

/-- the recursion; the state is the visited set, in the order of the visits, and the quad -/
def propagateInner (now : BeliefId → Nat) (order : BeliefId → HashOrder BeliefId) :
    Nat → BeliefId → List BeliefId × BeliefQuad M G → List BeliefId × BeliefQuad M G
  | 0, _, s => s
  | n + 1, id, (visited, q) =>
    if id ∈ visited then (visited, q)
    else
      let q := q.recompute (now id) id
      let descendants := (order id).shuffle (CausalGraph.descendantsOf q.causal id)
      descendants.foldl (fun s d => propagateInner now order n d s) (visited ++ [id], q)

def propagateSystem1 (q : BeliefQuad M G) (now : BeliefId → Nat)
    (order : BeliefId → HashOrder BeliefId) (changed : BeliefId) : BeliefQuad M G :=
  (propagateInner now order (q.len + 2) changed ([], q)).2

/-! ## what a visit writes -/

/-- `q'` is `q` but for fast confidences -/
structure OnlyConfidences (q q' : BeliefQuad M G) : Prop where
  nodes : ∀ id, ∃ x : ℚ, q'.get id = (q.get id).map fun n => { n with fastConfidence := x }
  rest : q' = { q with nodes := q'.nodes }
  issued : ∀ k, SlotMap.Issued q'.nodes k ↔ SlotMap.Issued q.nodes k

theorem OnlyConfidences.refl (q : BeliefQuad M G) : OnlyConfidences q q where
  nodes id := ⟨((q.get id).map BeliefNode.fastConfidence).getD 0, by cases q.get id <;> rfl⟩
  rest := by cases q; rfl
  issued _ := Iff.rfl

theorem OnlyConfidences.trans {q q' q'' : BeliefQuad M G} (h : OnlyConfidences q q')
    (h' : OnlyConfidences q' q'') : OnlyConfidences q q'' where
  nodes id := by
    obtain ⟨x, hx⟩ := h.nodes id
    obtain ⟨y, hy⟩ := h'.nodes id
    refine ⟨y, ?_⟩
    rw [hy, hx]
    cases q.get id <;> rfl
  rest := h'.rest.trans (by rw [h.rest])
  issued k := (h'.issued k).trans (h.issued k)

variable {q q' : BeliefQuad M G}

theorem OnlyConfidences.live (h : OnlyConfidences q q') (id : BeliefId) :
    q'.Live id ↔ q.Live id := by
  obtain ⟨x, hx⟩ := h.nodes id
  unfold Live
  rw [hx, Option.isSome_map]

section
variable (h : OnlyConfidences q q')
include h

theorem OnlyConfidences.semantic : q'.semantic = q.semantic := by rw [h.rest]
theorem OnlyConfidences.temporal : q'.temporal = q.temporal := by rw [h.rest]
theorem OnlyConfidences.causal : q'.causal = q.causal := by rw [h.rest]
theorem OnlyConfidences.entity : q'.entity = q.entity := by rw [h.rest]
theorem OnlyConfidences.version : q'.version = q.version := by rw [h.rest]
theorem OnlyConfidences.checkpoints : q'.checkpoints = q.checkpoints := by rw [h.rest]

/-- any function of a node that does not read the fast confidence -/
theorem OnlyConfidences.map {β : Type} (g : BeliefNode → β)
    (hg : ∀ n x, g { n with fastConfidence := x } = g n) (id : BeliefId) :
    (q'.get id).map g = (q.get id).map g := by
  obtain ⟨x, hx⟩ := h.nodes id
  rw [hx]
  cases q.get id with
  | none => rfl
  | some n => exact congrArg some (hg n x)

theorem OnlyConfidences.synced (hs : q.Synced) : q'.Synced where
  semantic := h.semantic ▸ hs.semantic.congr fun id => (h.live id).symm
  temporal := h.temporal ▸ hs.temporal.congr fun id => (h.live id).symm
  causal := h.causal ▸ hs.causal.congr fun id => (h.live id).symm
  entity := h.entity ▸ hs.entity.congr fun id => (h.live id).symm
  ids id n hn := by
    obtain ⟨x, hx⟩ := h.nodes id
    rw [hx] at hn
    obtain ⟨n', hn', rfl⟩ := Option.map_eq_some_iff.mp hn
    exact hs.ids id n' hn'
  symmetric := h.semantic ▸ hs.symmetric

end

theorem modify_only (q : BeliefQuad M G) (id : BeliefId) (g : BeliefNode → ℚ) :
    OnlyConfidences q (q.modify id fun n => { n with fastConfidence := g n }) where
  nodes j := by
    rw [get_modify]
    cases q.get j with
    | none => exact ⟨0, by split <;> rfl⟩
    | some n =>
      split
      · exact ⟨g n, rfl⟩
      · exact ⟨n.fastConfidence, rfl⟩
  rest := rfl
  issued := SlotMap.issued_modify q.nodes id _

theorem recompute_only (q : BeliefQuad M G) (nowMs : Nat) (id : BeliefId) :
    OnlyConfidences q (q.recompute nowMs id) := by
  unfold recompute
  split
  · exact OnlyConfidences.refl q
  · exact modify_only q id _

/-! ## the order of the visits -/

/-- what the visit of `d` descends into -/
def nextVisits (q : BeliefQuad M G) (order : BeliefId → HashOrder BeliefId) (d : BeliefId) :
    List BeliefId :=
  (order d).shuffle (CausalGraph.descendantsOf q.causal d)

def visitOrder (q : BeliefQuad M G) (order : BeliefId → HashOrder BeliefId)
    (changed : BeliefId) : List BeliefId :=
  visit (q.nextVisits order) (q.len + 2) changed []

/-- recompute the members of `ids` one after the other -/
def recomputeAll (q : BeliefQuad M G) (now : BeliefId → Nat) (ids : List BeliefId) :
    BeliefQuad M G :=
  ids.foldl (fun q id => q.recompute (now id) id) q

theorem recomputeAll_append (q : BeliefQuad M G) (now : BeliefId → Nat) (l l' : List BeliefId) :
    q.recomputeAll now (l ++ l') = (q.recomputeAll now l).recomputeAll now l' :=
  List.foldl_append

theorem recomputeAll_only (q : BeliefQuad M G) (now : BeliefId → Nat) (ids : List BeliefId) :
    OnlyConfidences q (q.recomputeAll now ids) := by
  induction ids generalizing q with
  | nil => exact OnlyConfidences.refl q
  | cons id ids ih => exact (recompute_only q (now id) id).trans (ih _)

theorem nextVisits_recomputeAll (q : BeliefQuad M G) (now : BeliefId → Nat)
    (order : BeliefId → HashOrder BeliefId) (ids : List BeliefId) :
    (q.recomputeAll now ids).nextVisits order = q.nextVisits order := by
  funext d
  unfold nextVisits
  rw [(recomputeAll_only q now ids).causal]

variable (now : BeliefId → Nat) (order : BeliefId → HashOrder BeliefId)

/-- **the recursion visits in the order `visit` says, and recomputes at each new visit** -/
theorem propagateInner_eq (n : Nat) (id : BeliefId) (vis : List BeliefId)
    (q : BeliefQuad M G) : ∃ new, visit (q.nextVisits order) n id vis = vis ++ new ∧
      propagateInner now order n id (vis, q) = (vis ++ new, q.recomputeAll now new) := by
  induction n generalizing id vis q with
  | zero => exact ⟨[], (List.append_nil vis).symm, by rw [List.append_nil]; rfl⟩
  | succ n ih =>
    by_cases hv : id ∈ vis
    · refine ⟨[], by rw [visit_of_mem _ _ hv, List.append_nil], ?_⟩
      rw [List.append_nil]
      exact if_pos hv
    · have hfold : ∀ (ds vis' : List BeliefId) (q' : BeliefQuad M G),
          q'.nextVisits order = q.nextVisits order →
          ∃ new, visitAll (q.nextVisits order) n ds vis' = vis' ++ new ∧
            ds.foldl (fun s d => propagateInner now order n d s) (vis', q') =
              (vis' ++ new, q'.recomputeAll now new) := by
        intro ds
        induction ds with
        | nil => exact fun vis' q' _ => ⟨[], (List.append_nil vis').symm, by
            rw [List.append_nil]; rfl⟩
        | cons d ds ihds =>
          intro vis' q' hq'
          obtain ⟨new, h1, h2⟩ := ih d vis' q'
          rw [hq'] at h1
          obtain ⟨new', h3, h4⟩ := ihds (vis' ++ new) (q'.recomputeAll now new)
            ((nextVisits_recomputeAll q' now order new).trans hq')
          refine ⟨new ++ new', ?_, ?_⟩
          · rw [visitAll_cons, h1, h3, List.append_assoc]
          · rw [List.foldl_cons, h2, h4, List.append_assoc, recomputeAll_append]
      obtain ⟨new, h1, h2⟩ := hfold (q.nextVisits order id) (vis ++ [id])
        (q.recompute (now id) id) (nextVisits_recomputeAll q now order [id])
      refine ⟨id :: new, ?_, ?_⟩
      · rw [visit_of_not_mem _ n hv, h1, List.append_assoc]
        rfl
      · have hnext : (order id).shuffle
            (CausalGraph.descendantsOf (q.recompute (now id) id).causal id) =
              q.nextVisits order id := by
          rw [(recompute_only q (now id) id).causal]
          rfl
        unfold propagateInner
        rw [if_neg hv]
        simp only [hnext]
        rw [h2, List.append_assoc]
        rfl

theorem propagateSystem1_eq (q : BeliefQuad M G) (changed : BeliefId) :
    q.propagateSystem1 now order changed = q.recomputeAll now (q.visitOrder order changed) := by
  obtain ⟨new, h1, h2⟩ := propagateInner_eq now order (q.len + 2) changed [] q
  unfold propagateSystem1 visitOrder
  rw [h2, h1]
  rfl

/-- **nothing but fast confidences is written** -/
theorem propagate_only (q : BeliefQuad M G) (changed : BeliefId) :
    OnlyConfidences q (q.propagateSystem1 now order changed) := by
  rw [propagateSystem1_eq]
  exact recomputeAll_only q now _

theorem nodup_visitOrder (q : BeliefQuad M G) (changed : BeliefId) :
    (q.visitOrder order changed).Nodup := nodup_visit _ _ _ _ List.nodup_nil

theorem mem_nextVisits {q : BeliefQuad M G} (h : q.GraphsSynced) (d e : BeliefId) :
    e ∈ q.nextVisits order d ↔
      e ≠ d ∧ q.Live d ∧ Relation.ReflTransGen q.causal.Joined d e := by
  unfold nextVisits
  rw [HashOrder.mem_shuffle]
  exact h.causal.mem_reachableFrom d e

/-- what is visited: `changed` and its causal descendants -/
theorem mem_visitOrder {q : BeliefQuad M G} (h : q.GraphsSynced) (changed d : BeliefId) :
    d ∈ q.visitOrder order changed ↔
      d = changed ∨ d ∈ CausalGraph.descendantsOf q.causal changed := by
  constructor
  · intro hv
    rcases mem_visit _ _ _ _ d hv with hd | hd
    · exact absurd hd List.not_mem_nil
    · rcases eq_or_ne d changed with e | e
      · exact Or.inl e
      · refine Or.inr ((h.causal.mem_reachableFrom changed d).mpr ⟨e, ?_, ?_⟩)
        · rcases Relation.ReflTransGen.cases_head hd with he | ⟨c, hc, -⟩
          · exact absurd he.symm e
          · exact ((mem_nextVisits order h changed c).mp hc).2.1
        · clear e hv
          induction hd with
          | refl => exact .refl
          | tail _ hs ih => exact ih.trans ((mem_nextVisits order h _ _).mp hs).2.2
  · intro hp
    rcases hp with rfl | hd
    · exact mem_visit_self _ _ d []
    · unfold visitOrder
      rw [visit_of_not_mem _ _ List.not_mem_nil]
      exact mem_visitAll _ _ _ _ d ((HashOrder.mem_shuffle _ _ _).mpr hd)

/-- `changed` and the live beliefs: no visit leaves them -/
def visitable (q : BeliefQuad M G) (changed : BeliefId) : List BeliefId :=
  changed :: (SlotMap.iter q.nodes).map Prod.fst

theorem nextVisits_visitable {q : BeliefQuad M G} (h : q.GraphsSynced) (changed : BeliefId) :
    ∀ d ∈ q.visitable changed, ∀ e ∈ q.nextVisits order d, e ∈ q.visitable changed := by
  intro d _ e he
  obtain ⟨hne, -, hr⟩ := (mem_nextVisits order h d e).mp he
  rcases Relation.ReflTransGen.cases_tail hr with e' | ⟨c, -, w, hw⟩
  · exact absurd e' hne
  · exact List.mem_cons_of_mem _ ((SlotMap.mem_keys q.nodes e).mpr (h.causal.live_of_mem hw).2)

theorem unvisited_visitable (q : BeliefQuad M G) (changed : BeliefId) :
    unvisited (q.visitable changed) [] < q.len + 2 := by
  unfold unvisited
  refine Nat.lt_of_le_of_lt (List.length_filter_le _ _) ?_
  unfold visitable
  rw [List.length_cons, List.length_map]
  exact Nat.lt_succ_self _

/-- **the depth is never reached**: a deeper recursion does the same -/
theorem propagateInner_fuel {q : BeliefQuad M G} (h : q.GraphsSynced) (changed : BeliefId) (m : Nat)
    (hm : q.len + 2 ≤ m) : propagateInner now order m changed ([], q) =
      propagateInner now order (q.len + 2) changed ([], q) := by
  have hvisit := visit_fuel (q.nextVisits order) (nextVisits_visitable order h changed)
    (q.len + 2) changed [] List.mem_cons_self (q.unvisited_visitable changed) m hm
  obtain ⟨new, h1, h2⟩ := propagateInner_eq now order m changed [] q
  obtain ⟨new', h3, h4⟩ := propagateInner_eq now order (q.len + 2) changed [] q
  rw [h2, h4]
  have e : new = new' := by
    rw [h1, h3] at hvisit
    exact hvisit
  rw [e]

end BeliefQuad
end Epica
