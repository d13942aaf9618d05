import Epica.Lib.Parts
import Epica.Core.Propagation
import Mathlib.Tactic.FieldSimp
import Mathlib.Tactic.Linarith

/-!
# Variational free energy, and its prior

The prior of a belief is a Noisy-OR over the premises of all its `InferredFrom` edges, each premise
once; System 1 takes the best of the Noisy-ORs over the single edges.  Of a premise `p`,
`doubt q p` is the factor it contributes: one minus its confidence, and `1` when it is not live.

* `structuralPrior_eq`        the prior in closed form;
* `get_propagate_conclusion`  what System 1 writes at the belief it starts from;
* `structuralPrior_eq_iff`    when the two agree;
* `quadFreeEnergy_eq`         the free energy of a quad as a sum over its beliefs;
* `quadFreeEnergy_nonneg`     it is never negative.
-/

set_option linter.unusedSectionVars false

namespace Epica
open Lib

/-- the natural logarithm, with its two tangent bounds -/
class NaturalLog where
  ln : ℚ → ℚ
  le_ln : ∀ x, 0 < x → 1 - 1 / x ≤ ln x
  ln_le : ∀ x, 0 < x → ln x ≤ x - 1

/-- the upper bound itself has both -/
@[reducible] def NaturalLog.tangent : NaturalLog where
  ln x := x - 1
  le_ln x hx := by
    have hsquare : x - 1 - (1 - 1 / x) = (x - 1) ^ 2 / x := by
      field_simp
    have hpos : 0 ≤ (x - 1) ^ 2 / x := div_nonneg (sq_nonneg _) hx.le
    linarith
  ln_le x _ := le_refl (x - 1)

/-! ## the source -/

def eps : ℚ := 1 / 10 ^ 9

def bernoulliKl [NaturalLog] (p q : ℚ) : ℚ :=
  let p := clamp p eps (1 - eps)
  let q := clamp q eps (1 - eps)
  p * NaturalLog.ln (p / q) + (1 - p) * NaturalLog.ln ((1 - p) / (1 - q))

def expectedLogLikelihood [NaturalLog] (cBelief cObservation : ℚ) : ℚ :=
  let c := clamp cBelief eps (1 - eps)
  let o := clamp cObservation eps (1 - eps)
  c * NaturalLog.ln o + (1 - c) * NaturalLog.ln (1 - o)

/-- the state of the loop is `any` and `not_any` -/
def noisyOr (confidences : List ℚ) : ℚ :=
  let (any, notAny) := confidences.foldl (fun s c => (true, s.2 * (1 - clamp c 0 1))) (false, 1)
  if any then 1 - notAny else 1 / 2

structure FreeEnergyBreakdown where
  klTotal : ℚ
  logLikelihoodObs : ℚ
  fTotal : ℚ
  nBeliefs : Nat

namespace BeliefQuad
variable {M : Type → Type} {G : Type → Type → Type} [SlotMap M] [StableDiGraph G]

/-- one turn of the inner loop; the state is `seen` and `confidences` -/
def flattenPremise (q : BeliefQuad M G) (s : List BeliefId × List ℚ) (parent : BeliefId) :
    List BeliefId × List ℚ :=
  if parent ∈ s.1 then s
  else
    match q.get parent with
    | none => (s.1 ++ [parent], s.2)
    | some node => (s.1 ++ [parent], s.2 ++ [node.fastConfidence])

def structuralPrior (q : BeliefQuad M G) (id : BeliefId) : ℚ :=
  let paths := CausalGraph.inferredFromPremises q.causal id
  if paths.isEmpty then 1 / 2
  else noisyOr (paths.foldl (fun s path => path.foldl q.flattenPremise s) ([], [])).2

/-- both ways of reading the value of the observation give its confidence -/
def quadFreeEnergy [NaturalLog] (q : BeliefQuad M G) (lastObs : BeliefNode) :
    FreeEnergyBreakdown :=
  let (klTotal, nBeliefs) := (SlotMap.iter q.nodes).foldl (fun s e =>
    (s.1 + bernoulliKl e.2.fastConfidence (q.structuralPrior e.1), s.2 + 1)) (0, 0)
  let logLikelihoodObs := expectedLogLikelihood lastObs.fastConfidence lastObs.fastConfidence
  { klTotal := klTotal
    logLikelihoodObs := logLikelihoodObs
    fTotal := klTotal - logLikelihoodObs
    nBeliefs := nBeliefs }

/-! ## the prior in closed form -/

/-- what a premise leaves open -/
def doubt (q : BeliefQuad M G) (p : BeliefId) : ℚ :=
  match q.get p with
  | none => 1
  | some n => 1 - clamp n.fastConfidence 0 1

/-- the premises of all edges into `id` -/
def listed (q : BeliefQuad M G) (id : BeliefId) : Finset BeliefId :=
  (CausalGraph.inferredFromPremises q.causal id).flatten.toFinset

variable (q : BeliefQuad M G)

theorem doubt_inUnit (p : BeliefId) : 0 ≤ q.doubt p ∧ q.doubt p ≤ 1 := by
  unfold doubt
  cases q.get p with
  | none => exact ⟨zero_le_one, le_refl 1⟩
  | some n =>
    obtain ⟨h0, h1⟩ := inUnit_clamp n.fastConfidence
    exact ⟨sub_nonneg.mpr h1, sub_le_self 1 h0⟩

theorem doubt_of_dead {p : BeliefId} (hp : ¬ q.Live p) : q.doubt p = 1 := by
  unfold doubt
  rw [not_live_iff.mp hp]

theorem noisyOr_fold (l : List ℚ) (b : Bool) (x : ℚ) :
    l.foldl (fun (s : Bool × ℚ) c => (true, s.2 * (1 - clamp c 0 1))) (b, x) =
      (b || !l.isEmpty, x * (l.map fun c => 1 - clamp c 0 1).prod) := by
  induction l generalizing b x with
  | nil => simp
  | cons c l ih => simp [ih, mul_assoc]

theorem noisyOr_eq (l : List ℚ) :
    noisyOr l = if l = [] then 1 / 2 else 1 - (l.map fun c => 1 - clamp c 0 1).prod := by
  unfold noisyOr
  rw [noisyOr_fold]
  cases l with
  | nil => rfl
  | cons c l => simp

/-- the confidences of the live ones among `ids` -/
def liveConfidences (ids : List BeliefId) : List ℚ :=
  ids.filterMap fun p => (q.get p).map BeliefNode.fastConfidence

theorem liveConfidences_eq_nil_iff (ids : List BeliefId) :
    q.liveConfidences ids = [] ↔ ¬ ∃ p ∈ ids, q.Live p := by
  unfold liveConfidences
  rw [List.filterMap_eq_nil_iff]
  simp only [Option.map_eq_none_iff, ← not_live_iff, not_exists, not_and]

theorem prod_liveConfidences (ids : List BeliefId) :
    ((q.liveConfidences ids).map fun c => 1 - clamp c 0 1).prod = (ids.map q.doubt).prod := by
  unfold liveConfidences
  induction ids with
  | nil => rfl
  | cons p ids ih =>
    rw [List.map_cons, List.prod_cons, ← ih, List.filterMap_cons]
    unfold doubt
    cases q.get p with
    | none => simp
    | some n => simp

/-- the two nested loops are one over the flattened lists; `seen` keeps each premise once -/
theorem flatten_premises (l seen : List BeliefId) (hseen : seen.Nodup) :
    ∃ seen', l.foldl q.flattenPremise (seen, q.liveConfidences seen) =
        (seen', q.liveConfidences seen') ∧ seen'.Nodup ∧ ∀ p, p ∈ seen' ↔ p ∈ seen ∨ p ∈ l := by
  induction l generalizing seen with
  | nil => exact ⟨seen, rfl, hseen, fun p => by simp⟩
  | cons a l ih =>
    rw [List.foldl_cons]
    by_cases ha : a ∈ seen
    · have hstep : q.flattenPremise (seen, q.liveConfidences seen) a =
          (seen, q.liveConfidences seen) := if_pos ha
      rw [hstep]
      obtain ⟨seen', hfold, hnd, hmem⟩ := ih seen hseen
      refine ⟨seen', hfold, hnd, fun p => ?_⟩
      rw [hmem, List.mem_cons]
      constructor
      · intro h
        exact h.imp_right Or.inr
      · intro h
        rcases h with h | rfl | h
        · exact Or.inl h
        · exact Or.inl ha
        · exact Or.inr h
    · have hstep : q.flattenPremise (seen, q.liveConfidences seen) a =
          (seen ++ [a], q.liveConfidences (seen ++ [a])) := by
        unfold flattenPremise liveConfidences
        rw [if_neg ha, List.filterMap_append]
        cases hget : q.get a with
        | none => simp [hget]
        | some n => simp [hget]
      rw [hstep]
      have hnd' : (seen ++ [a]).Nodup := by
        rw [List.nodup_append]
        refine ⟨hseen, List.nodup_singleton a, fun b hb c hc e => ?_⟩
        rw [List.mem_singleton.mp hc] at e
        exact ha (e ▸ hb)
      obtain ⟨seen', hfold, hnd, hmem⟩ := ih (seen ++ [a]) hnd'
      refine ⟨seen', hfold, hnd, fun p => ?_⟩
      rw [hmem, List.mem_append, List.mem_singleton, List.mem_cons, or_assoc]

/-- **the prior**: the Noisy-OR over the listed premises, each once, if one of them is live -/
theorem structuralPrior_eq (id : BeliefId) : q.structuralPrior id =
    if ∃ p ∈ q.listed id, q.Live p then 1 - ∏ p ∈ q.listed id, q.doubt p else 1 / 2 := by
  unfold structuralPrior
  by_cases hempty : (CausalGraph.inferredFromPremises q.causal id).isEmpty = true
  · have hnone : q.listed id = ∅ := by
      unfold listed
      rw [List.isEmpty_iff.mp hempty]
      rfl
    rw [if_pos hempty, if_neg]
    intro h
    obtain ⟨p, hp, -⟩ := h
    rw [hnone] at hp
    exact Finset.notMem_empty p hp
  · obtain ⟨seen, hfold, hnd, hmem⟩ := q.flatten_premises
      (CausalGraph.inferredFromPremises q.causal id).flatten [] List.nodup_nil
    rw [List.foldl_flatten] at hfold
    have hloop : (CausalGraph.inferredFromPremises q.causal id).foldl
        (fun s path => path.foldl q.flattenPremise s) ([], []) =
        (seen, q.liveConfidences seen) := hfold
    have hseen : seen.toFinset = q.listed id := by
      ext p
      unfold listed
      rw [List.mem_toFinset, List.mem_toFinset, hmem]
      exact or_iff_right List.not_mem_nil
    have hprod : (seen.map q.doubt).prod = ∏ p ∈ q.listed id, q.doubt p := by
      rw [← hseen, List.prod_toFinset _ hnd]
    rw [if_neg hempty]
    simp only [hloop]
    rw [noisyOr_eq, prod_liveConfidences, hprod]
    by_cases hlive : ∃ p ∈ q.listed id, q.Live p
    · rw [if_pos hlive, if_neg]
      rw [liveConfidences_eq_nil_iff, not_not]
      obtain ⟨p, hp, hl⟩ := hlive
      rw [← hseen] at hp
      exact ⟨p, List.mem_toFinset.mp hp, hl⟩
    · rw [if_neg hlive, if_pos]
      rw [liveConfidences_eq_nil_iff]
      intro h
      obtain ⟨p, hp, hl⟩ := h
      exact hlive ⟨p, by rw [← hseen]; exact List.mem_toFinset.mpr hp, hl⟩

/-! ## System 1 in closed form -/

section
variable [Platform]

theorem pathConfidence_eq_sub (ps : List BeliefId) :
    q.pathConfidence ps = 1 - (ps.map q.doubt).prod := by
  rw [← prod_liveConfidences]
  show combine (q.liveConfidences ps) = _
  unfold combine
  split
  · rename_i h
    rw [h, List.map_nil, List.prod_nil, sub_self]
  · rfl

theorem pathConfidence_inUnit (ps : List BeliefId) : InUnit (q.pathConfidence ps) := by
  rw [pathConfidence_eq_sub]
  have hall : ∀ x ∈ ps.map q.doubt, 0 ≤ x ∧ x ≤ 1 := by
    intro x hx
    obtain ⟨p, -, rfl⟩ := List.mem_map.mp hx
    exact q.doubt_inUnit p
  have h0 : 0 ≤ (ps.map q.doubt).prod := List.prod_nonneg fun x hx => (hall x hx).1
  have h1 : (ps.map q.doubt).prod ≤ 1 := by
    rw [prod_part]
    exact mul_le_one₀ (Finset.prod_le_one (fun p _ => (q.doubt_inUnit p).1)
        fun p _ => (q.doubt_inUnit p).2)
      (Finset.prod_nonneg fun p _ => pow_nonneg (q.doubt_inUnit p).1 _)
      (Finset.prod_le_one (fun p _ => pow_nonneg (q.doubt_inUnit p).1 _)
        fun p _ => pow_le_one₀ (q.doubt_inUnit p).1 (q.doubt_inUnit p).2)
  exact ⟨sub_nonneg.mpr h1, sub_le_self 1 h0⟩

/-- without a ttl nothing decays, and the best of the edges is in `[0, 1]` already -/
theorem conclusionConfidence_eq_iff {id : BeliefId} {n : BeliefNode} (hn : q.get id = some n)
    (httl : n.ttlMs = none) (hedge : CausalGraph.inferredFromPremises q.causal id ≠ [])
    (nowMs : Nat) (c : ℚ) : q.conclusionConfidence nowMs id = c ↔
      (∀ ps ∈ CausalGraph.inferredFromPremises q.causal id, 1 - (ps.map q.doubt).prod ≤ c) ∧
        ∃ ps ∈ CausalGraph.inferredFromPremises q.causal id, 1 - (ps.map q.doubt).prod = c := by
  have hdecay : q.decayFactor id nowMs = 1 := by
    unfold decayFactor
    rw [hn]
    simp only [httl]
    rfl
  have hne : (CausalGraph.inferredFromPremises q.causal id).map q.pathConfidence ≠ [] :=
    fun h => hedge (List.map_eq_nil_iff.mp h)
  have hunit : ∀ x ∈ (CausalGraph.inferredFromPremises q.causal id).map q.pathConfidence,
      InUnit x := by
    intro x hx
    obtain ⟨ps, -, rfl⟩ := List.mem_map.mp hx
    exact q.pathConfidence_inUnit ps
  have hbest := fun c => @foldl_max_eq_iff ℚ _ _ 0 c hne fun x hx => (hunit x hx).1
  have hclamp : clamp (((CausalGraph.inferredFromPremises q.causal id).map
      q.pathConfidence).foldl max 0 * 1) 0 1 =
      ((CausalGraph.inferredFromPremises q.causal id).map q.pathConfidence).foldl max 0 := by
    rw [mul_one, clamp_eq_self_iff]
    exact hunit _ ((hbest _).mp rfl).2
  unfold conclusionConfidence
  simp only [hdecay, hclamp]
  rw [hbest, List.forall_mem_map, List.mem_map]
  simp only [pathConfidence_eq_sub]

/-- what System 1 writes at the belief it starts from, which it visits first and only once -/
theorem get_propagate_conclusion (now : BeliefId → Nat) (order : BeliefId → HashOrder BeliefId)
    (id : BeliefId) (hedge : CausalGraph.inferredFromPremises q.causal id ≠ []) :
    (q.propagateSystem1 now order id).get id = (q.get id).map fun n =>
      { n with fastConfidence := q.conclusionConfidence (now id) id } := by
  rw [get_propagate_self]
  unfold recompute
  rw [if_neg fun h => hedge (List.isEmpty_iff.mp h), get_modify, if_pos rfl]

/-! ## when they agree -/

/-- some listed premise is live; and either one of them leaves nothing open, or what an edge leaves
out never weighs more than what it repeats, and for some edge exactly as much -/
def PriorAgrees (q : BeliefQuad M G) (id : BeliefId) : Prop :=
  (∃ p ∈ q.listed id, q.Live p) ∧
    ((∃ p ∈ q.listed id, q.doubt p = 0) ∨
      (∀ ps ∈ CausalGraph.inferredFromPremises q.causal id,
        omitted q.doubt (q.listed id) ps ≤ repeats q.doubt ps) ∧
      ∃ ps ∈ CausalGraph.inferredFromPremises q.causal id,
        omitted q.doubt (q.listed id) ps = repeats q.doubt ps)

/-- **the prior is what System 1 computes exactly when** `PriorAgrees`, for a belief without a ttl
that some `InferredFrom` edge leads to -/
theorem structuralPrior_eq_iff (h : q.GraphsSynced) (now : BeliefId → Nat)
    (order : BeliefId → HashOrder BeliefId) (id : BeliefId)
    (httl : ∀ n, q.get id = some n → n.ttlMs = none)
    (hedge : ∃ ps, CausalGraph.Supports q.causal ps id) :
    ((q.propagateSystem1 now order id).get id).map BeliefNode.fastConfidence =
      some (q.structuralPrior id) ↔ q.PriorAgrees id := by
  obtain ⟨ps₀, hps₀⟩ := hedge
  have hmem₀ := (CausalGraph.mem_inferredFromPremises h.causal id ps₀).mpr hps₀
  have hne : CausalGraph.inferredFromPremises q.causal id ≠ [] := List.ne_nil_of_mem hmem₀
  have hlive : q.Live id := by
    obtain ⟨a, ha⟩ := hps₀
    exact (h.causal.live_of_mem ha).2
  obtain ⟨n, hn⟩ := live_iff.mp hlive
  have hU : ∀ p, p ∈ q.listed id ↔
      ∃ ps ∈ CausalGraph.inferredFromPremises q.causal id, p ∈ ps := by
    intro p
    unfold listed
    rw [List.mem_toFinset, List.mem_flatten]
  rw [get_propagate_conclusion q now order id hne, hn, Option.map_some, Option.map_some,
    Option.some.injEq, q.conclusionConfidence_eq_iff hn (httl n hn) hne, structuralPrior_eq]
  unfold PriorAgrees
  by_cases hsome : ∃ p ∈ q.listed id, q.Live p
  · rw [if_pos hsome, and_iff_right hsome,
      ← prod_whole_least_iff (fun p => (q.doubt_inUnit p).1) hU]
    refine and_congr (forall₂_congr fun ps _ => sub_le_sub_iff_left 1)
      (exists_congr fun ps => and_congr_right fun _ => ?_)
    rw [sub_right_inj, eq_comm]
  · -- no premise is live: the prior is 1/2, System 1 writes 0
    rw [if_neg hsome]
    refine iff_of_false (fun hc => ?_) (fun hc => hsome hc.1)
    obtain ⟨-, ps, hps, hval⟩ := hc
    have hone : (ps.map q.doubt).prod = 1 := by
      refine List.prod_eq_one fun x hx => ?_
      obtain ⟨p, hp, rfl⟩ := List.mem_map.mp hx
      exact q.doubt_of_dead fun hl => hsome ⟨p, (hU p).mpr ⟨ps, hps, hp⟩, hl⟩
    rw [hone, sub_self] at hval
    exact absurd hval (by decide +kernel)

/-- when no edge repeats a premise: some listed premise is live, and one has the confidence `1`, or
all that some edge leaves out are dead or have the confidence `0` -/
theorem priorAgrees_iff_of_nodup (id : BeliefId)
    (hnd : ∀ ps ∈ CausalGraph.inferredFromPremises q.causal id, ps.Nodup) :
    q.PriorAgrees id ↔ (∃ p ∈ q.listed id, q.Live p) ∧
      ((∃ p ∈ q.listed id, q.doubt p = 0) ∨
        ∃ ps ∈ CausalGraph.inferredFromPremises q.causal id,
          ∀ p ∈ q.listed id, p ∉ ps → q.doubt p = 1) := by
  unfold PriorAgrees
  refine and_congr_right fun _ => or_congr_right ?_
  constructor
  · intro h
    obtain ⟨ps, hps, heq⟩ := h.2
    rw [repeats_of_nodup q.doubt (hnd ps hps), omitted_eq_one_iff q.doubt_inUnit] at heq
    exact ⟨ps, hps, heq⟩
  · intro h
    obtain ⟨ps, hps, hall⟩ := h
    refine ⟨fun ps' hps' => ?_, ps, hps, ?_⟩
    · rw [repeats_of_nodup q.doubt (hnd ps' hps')]
      exact omitted_le_one q.doubt_inUnit ps'
    · rw [repeats_of_nodup q.doubt (hnd ps hps)]
      exact (omitted_eq_one_iff q.doubt_inUnit ps).mpr hall

end

section
attribute [local instance] Platform.ascii

/-- a conclusion with two independent supports -/
def twofold : BeliefQuad SlotVec EdgeList :=
  run step new
    [.insert (.new 0 "a" (.asserted "a") (.userStatement 0) (1 / 2)),
     .insert (.new 0 "b" (.asserted "b") (.userStatement 0) (1 / 2)),
     .insert (.new 0 "c" (.asserted "c") (.userStatement 0) 0),
     .addCausalEdge ⟨1, 1⟩ ⟨3, 1⟩ (.inferredFrom [⟨1, 1⟩]),
     .addCausalEdge ⟨2, 1⟩ ⟨3, 1⟩ (.inferredFrom [⟨2, 1⟩]),
     .addCausalEdge ⟨1, 1⟩ ⟨2, 1⟩ (.inferredFrom [⟨1, 1⟩])]

theorem twofold_edges : (⟨1, 1⟩, ⟨2, 1⟩, CausalEdge.inferredFrom [⟨1, 1⟩]) ∈
    twofold.causal.allEdges := by decide +kernel

/-- a belief with one support: the prior is what System 1 computes, if and only if `PriorAgrees` -/
theorem structuralPrior_eq_iff_twofold :
    ((twofold.propagateSystem1 (fun _ => 0) (fun _ => .id) ⟨2, 1⟩).get ⟨2, 1⟩).map
        BeliefNode.fastConfidence = some (twofold.structuralPrior ⟨2, 1⟩) ↔
      twofold.PriorAgrees ⟨2, 1⟩ := by
  refine structuralPrior_eq_iff twofold (run_in_step _).1.toGraphsSynced _ _ ⟨2, 1⟩ ?_
    ⟨_, _, twofold_edges⟩
  intro n hn
  have hall : ((twofold.get ⟨2, 1⟩).map BeliefNode.ttlMs) = some none := by decide +kernel
  rw [hn] at hall
  exact Option.some.inj hall

/-- two edges with one premise each, and no ttl: the prior is `3/4` where System 1 computes `1/2` -/
theorem twofold_prior_differs :
    (twofold.get ⟨3, 1⟩).map BeliefNode.ttlMs = some none ∧
    CausalGraph.inferredFromPremises twofold.causal ⟨3, 1⟩ = [[⟨2, 1⟩], [⟨1, 1⟩]] ∧
    twofold.structuralPrior ⟨3, 1⟩ = 3 / 4 ∧
    ((twofold.propagateSystem1 (fun _ => 0) (fun _ => .id) ⟨3, 1⟩).get ⟨3, 1⟩).map
      BeliefNode.fastConfidence = some (1 / 2) := by
  refine ⟨?_, ?_, ?_, ?_⟩
  · decide +kernel
  · decide +kernel
  · decide +kernel
  · decide +kernel

end
end BeliefQuad

/-! ## the free energy is not negative -/

theorem clamp_bounds {lo hi : ℚ} (h : lo ≤ hi) (x : ℚ) :
    lo ≤ clamp x lo hi ∧ clamp x lo hi ≤ hi := by
  unfold clamp
  split
  · exact ⟨le_refl lo, h⟩
  · rename_i hlo
    split
    · exact ⟨h, le_refl hi⟩
    · rename_i hhi
      exact ⟨not_lt.mp hlo, not_lt.mp hhi⟩

/-- what is clamped for the logarithm lies strictly between `0` and `1` -/
theorem clamp_eps_pos (x : ℚ) : 0 < clamp x eps (1 - eps) ∧ 0 < 1 - clamp x eps (1 - eps) := by
  have heps : (0 : ℚ) < eps := by decide +kernel
  obtain ⟨hlo, hhi⟩ := clamp_bounds (by decide +kernel : eps ≤ 1 - eps) x
  exact ⟨lt_of_lt_of_le heps hlo, by linarith⟩

section
variable [NaturalLog]

/-- one summand of a divergence -/
theorem sub_le_mul_ln {a b : ℚ} (ha : 0 < a) (hb : 0 < b) : a - b ≤ a * NaturalLog.ln (a / b) := by
  have hln := NaturalLog.le_ln (a / b) (div_pos ha hb)
  have hmul := mul_le_mul_of_nonneg_left hln ha.le
  have hval : a * (1 - 1 / (a / b)) = a - b := by
    field_simp
  rw [hval] at hmul
  exact hmul

/-- **Gibbs' inequality** -/
theorem bernoulliKl_nonneg (p q : ℚ) : 0 ≤ bernoulliKl p q := by
  obtain ⟨hp, hp'⟩ := clamp_eps_pos p
  obtain ⟨hq, hq'⟩ := clamp_eps_pos q
  have hyes := sub_le_mul_ln hp hq
  have hno := sub_le_mul_ln hp' hq'
  unfold bernoulliKl
  simp only
  linarith

theorem expectedLogLikelihood_nonpos (c o : ℚ) : expectedLogLikelihood c o ≤ 0 := by
  obtain ⟨hc, hc'⟩ := clamp_eps_pos c
  obtain ⟨ho, ho'⟩ := clamp_eps_pos o
  have hyes : NaturalLog.ln (clamp o eps (1 - eps)) ≤ 0 := by
    have := NaturalLog.ln_le _ ho
    linarith
  have hno : NaturalLog.ln (1 - clamp o eps (1 - eps)) ≤ 0 := by
    have := NaturalLog.ln_le _ ho'
    linarith
  have h1 := mul_nonpos_of_nonneg_of_nonpos hc.le hyes
  have h2 := mul_nonpos_of_nonneg_of_nonpos hc'.le hno
  unfold expectedLogLikelihood
  simp only
  linarith

variable {M : Type → Type} {G : Type → Type → Type} [SlotMap M] [StableDiGraph G]

/-- the free energy of a quad as a sum over its beliefs, each of which is counted -/
theorem BeliefQuad.quadFreeEnergy_eq (q : BeliefQuad M G) (lastObs : BeliefNode) :
    (q.quadFreeEnergy lastObs).fTotal =
        ((SlotMap.iter q.nodes).map fun e =>
          bernoulliKl e.2.fastConfidence (q.structuralPrior e.1)).sum -
        expectedLogLikelihood lastObs.fastConfidence lastObs.fastConfidence ∧
      (q.quadFreeEnergy lastObs).nBeliefs = (SlotMap.iter q.nodes).length := by
  have hloop : ∀ (l : List (BeliefId × BeliefNode)) (s : ℚ × Nat),
      l.foldl (fun s e => (s.1 + bernoulliKl e.2.fastConfidence (q.structuralPrior e.1),
        s.2 + 1)) s =
      (s.1 + (l.map fun e => bernoulliKl e.2.fastConfidence (q.structuralPrior e.1)).sum,
        s.2 + l.length) := by
    intro l
    induction l with
    | nil => exact fun s => Prod.ext (add_zero _).symm rfl
    | cons e l ih =>
      intro s
      rw [List.foldl_cons, ih, List.map_cons, List.sum_cons, List.length_cons, add_assoc]
      refine Prod.ext rfl ?_
      show s.2 + 1 + l.length = s.2 + (l.length + 1)
      omega
  unfold quadFreeEnergy
  simp only [hloop, zero_add]
  exact ⟨trivial, trivial⟩

/-- **the free energy of a quad is not negative** -/
theorem BeliefQuad.quadFreeEnergy_nonneg (q : BeliefQuad M G) (lastObs : BeliefNode) :
    0 ≤ (q.quadFreeEnergy lastObs).fTotal := by
  have hkl : 0 ≤ ((SlotMap.iter q.nodes).map fun e =>
      bernoulliKl e.2.fastConfidence (q.structuralPrior e.1)).sum := by
    refine List.sum_nonneg fun x hx => ?_
    obtain ⟨e, -, rfl⟩ := List.mem_map.mp hx
    exact bernoulliKl_nonneg _ _
  have hlik := expectedLogLikelihood_nonpos lastObs.fastConfidence lastObs.fastConfidence
  rw [(q.quadFreeEnergy_eq lastObs).1]
  exact sub_nonneg.mpr (le_trans hlik hkl)

end
end Epica
