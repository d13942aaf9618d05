import Epica.Core.Fixpoint
import Epica.Core.Propagation
import Epica.Core.RevisionLaws
import Epica.Runtime.Invariants

/-!
# The confidence after a contradicting update

Contraction removes one premise of every support path, but the edge of a path whose source was not
that premise stays, and System 1, started at the belief itself, recomputes its confidence from what
is left of the path.

* `fast_revised`     the confidence after revision and propagation, by what is left;
* `fast_kept_iff`    the caller's confidence is kept exactly when nothing is left, or what is left
                     happens to say the same.
-/

set_option linter.unusedSectionVars false

namespace Epica
open Lib

/-- the largest member and `a` depend on what the members are only -/
theorem foldl_max_congr {l l' : List ℚ} (h : ∀ x, x ∈ l ↔ x ∈ l') (a : ℚ) :
    l.foldl max a = l'.foldl max a := by
  have hle : ∀ (l : List ℚ) (a b : ℚ), l.foldl max a ≤ b ↔ a ≤ b ∧ ∀ x ∈ l, x ≤ b := by
    intro l
    induction l with
    | nil => exact fun a b => (and_iff_left fun x hx => absurd hx List.not_mem_nil).symm
    | cons y l ih =>
      intro a b
      rw [List.foldl_cons, ih, max_le_iff, List.forall_mem_cons, and_assoc]
  refine eq_of_forall_ge_iff fun b => ?_
  rw [hle, hle]
  exact and_congr_right fun _ => forall_congr' fun x => by rw [h]

namespace BeliefQuad
section
variable {M : Type → Type} {G : Type → Type → Type} [SlotMap M] [StableDiGraph G] [Platform]

/-! ## what is left of the support paths -/

/-- the premise lists of the `InferredFrom` edges into `id` whose source is not in `K` -/
def remainingPaths (q : BeliefQuad M G) (id : BeliefId) (K : Finset BeliefId) :
    List (List BeliefId) :=
  q.causal.allEdges.filterMap fun e =>
    if e.2.1 = id ∧ e.1 ∉ K then e.2.2.premises? else none

/-- what these paths say without the beliefs in `K`, when `id` itself is held with confidence `x` -/
def remainingConfidence (q : BeliefQuad M G) (nowMs : Nat) (id : BeliefId) (K : Finset BeliefId)
    (x : ℚ) : ℚ :=
  clamp (((q.remainingPaths id K).map fun ps =>
    combine ((ps.filter fun p => q.Live p ∧ p ∉ K).map (Function.update q.fast id x))).foldl max 0 *
      q.decayFactor id nowMs) 0 1

theorem mem_remainingPaths {q : BeliefQuad M G} {id : BeliefId} {K : Finset BeliefId}
    {ps : List BeliefId} : ps ∈ q.remainingPaths id K ↔
      ∃ a, a ∉ K ∧ (a, id, CausalEdge.inferredFrom ps) ∈ q.causal.allEdges := by
  unfold remainingPaths
  rw [List.mem_filterMap]
  constructor
  · intro h
    obtain ⟨⟨a, b, w⟩, he, h⟩ := h
    obtain ⟨hcond, hw⟩ := Option.ite_none_right_eq_some.mp h
    obtain rfl := CausalGraph.premises?_eq_some.mp hw
    obtain ⟨rfl, ha⟩ := hcond
    exact ⟨a, ha, he⟩
  · intro h
    obtain ⟨a, ha, he⟩ := h
    exact ⟨_, he, Option.ite_none_right_eq_some.mpr ⟨⟨rfl, ha⟩, rfl⟩⟩

theorem fast_of_get {q : BeliefQuad M G} {id : BeliefId} {n : BeliefNode} (h : q.get id = some n) :
    q.fast id = n.fastConfidence := by
  unfold fast
  rw [h]
  rfl

section
variable {q : BeliefQuad M G} {stamp : Stamp} {order : HashOrder BeliefId} {id : BeliefId}
  {v : BeliefValue} {p : Provenance} {c : ℚ} {record : RevisionRecord}

/-- the node of a revised belief -/
theorem get_revised (hr : (q.revise stamp order id v p c).1 = .ok record) :
    ∃ n, q.get id = some n ∧ (q.revise stamp order id v p c).2.get id =
      some (revisedNode (q.checkContradiction id v) v p c n) := by
  obtain ⟨-, hrev⟩ := revise_ok hr
  obtain ⟨n, hn⟩ := live_iff.mp hrev.live
  have hbase : (q.expandedBase order id v).get id =
      if id ∈ q.contractedSet id v then none else q.get id := get_expandedBase id
  rw [hn] at hbase
  rw [hrev.quad, get_expand, if_pos rfl, hn]
  split at hbase
  · cases hbase
  · exact ⟨n, hbase.symm, rfl⟩

/-- the paths of a frame are those that lose no source -/
theorem mem_paths_of_frame {q' : BeliefQuad M G} {R : Finset BeliefId} (h : q.GraphsSynced)
    (h' : q'.GraphsSynced) (hframe : Frame q q' id R) (hid : id ∉ R) (ps : List BeliefId) :
    ps ∈ CausalGraph.inferredFromPremises q'.causal id ↔ ps ∈ q.remainingPaths id R := by
  rw [CausalGraph.mem_inferredFromPremises h'.causal, mem_remainingPaths]
  refine exists_congr fun a => ?_
  rw [← Projection.mem_edges, hframe.causal]
  unfold Edges.restrict
  rw [Multiset.mem_filter, Projection.mem_edges, hframe.live, hframe.live]
  constructor
  · exact fun hp => ⟨hp.2.1.2, hp.1⟩
  · intro hp
    obtain ⟨hla, hlb⟩ := h.causal.live_of_mem hp.2
    exact ⟨hp.2, ⟨hla, hp.1⟩, hlb, hid⟩

/-- a premise that survives has its confidence, the revised belief the new one -/
theorem combine_of_frame {q' : BeliefQuad M G} {R : Finset BeliefId} {x : ℚ}
    (hframe : Frame q q' id R) (hx : q'.fast id = x) (ps : List BeliefId) :
    combine ((ps.filter fun j => q'.Live j).map q'.fast) =
      combine ((ps.filter fun j => q.Live j ∧ j ∉ R).map (Function.update q.fast id x)) := by
  have hlive : ∀ j, decide (q'.Live j) = decide (q.Live j ∧ j ∉ R) := fun j =>
    decide_eq_decide.mpr (hframe.live j)
  simp only [hlive]
  refine congrArg combine (List.map_congr_left fun j hj => ?_)
  have hj : j ∉ R := (of_decide_eq_true (List.mem_filter.mp hj).2).2
  by_cases hji : j = id
  · rw [hji, Function.update_self, hx]
  · rw [Function.update_of_ne hji]
    unfold fast
    rw [hframe.survivors j hji hj]

/-- **the equation of the revised belief is what is left of its support paths** -/
theorem rule_revised (h : q.GraphsSynced) (hr : (q.revise stamp order id v p c).1 = .ok record)
    (h' : (q.revise stamp order id v p c).2.GraphsSynced) (nowMs : Nat) :
    ((q.revise stamp order id v p c).2.Supported id = true ↔
      q.remainingPaths id record.contracted ≠ []) ∧
    (q.revise stamp order id v p c).2.rule nowMs id (q.revise stamp order id v p c).2.fast =
      q.remainingConfidence nowMs id record.contracted (clamp c 0 1) := by
  have hframe := frame_of_ok h hr
  obtain ⟨n, hn, hn'⟩ := get_revised hr
  generalize (q.revise stamp order id v p c).2 = q' at hframe hn' h'
  have hkept : id ∉ record.contracted := ((hframe.live id).mp (live_iff.mpr ⟨_, hn'⟩)).2
  have hpaths := mem_paths_of_frame h h' hframe hkept
  have hfast : q'.fast id = clamp c 0 1 := by
    rw [fast_of_get hn']
    rfl
  have hdecay : q'.decayFactor id nowMs = q.decayFactor id nowMs := by
    unfold decayFactor
    rw [hn, hn']
    rfl
  constructor
  · unfold Supported
    rw [Bool.not_eq_true', List.isEmpty_eq_false_iff, not_iff_not, List.eq_nil_iff_forall_not_mem,
      List.eq_nil_iff_forall_not_mem]
    exact forall_congr' fun ps => not_congr (hpaths ps)
  · unfold rule remainingConfidence
    simp only [combine_of_frame hframe hfast, hdecay]
    refine congrArg (fun x => clamp (x * q.decayFactor id nowMs) 0 1)
      (foldl_max_congr (fun x => ?_) 0)
    rw [List.mem_map, List.mem_map]
    exact exists_congr fun ps => and_congr_left fun _ => hpaths ps

end

/-! ## after the propagation -/

/-- **the confidence after revision and propagation, by what is left of the support paths** -/
theorem fast_revised {q : BeliefQuad M G} (h : q.GraphsSynced) {stamp : Stamp}
    {order : HashOrder BeliefId} {id : BeliefId} {v : BeliefValue} {p : Provenance} {c : ℚ}
    {record : RevisionRecord} (hr : (q.revise stamp order id v p c).1 = .ok record)
    (h' : (q.revise stamp order id v p c).2.GraphsSynced) (now : BeliefId → Nat)
    (visits : BeliefId → HashOrder BeliefId) :
    ((q.revise stamp order id v p c).2.propagateSystem1 now visits id).fast id =
      if q.remainingPaths id record.contracted = [] then clamp c 0 1
      else q.remainingConfidence (now id) id record.contracted (clamp c 0 1) := by
  obtain ⟨hsupported, hrule⟩ := rule_revised h hr h' (now id)
  obtain ⟨n, hn, hn'⟩ := get_revised hr
  have hfirst : ((q.revise stamp order id v p c).2.propagateSystem1 now visits id).fast id =
      ((q.revise stamp order id v p c).2.recompute (now id) id).fast id := by
    unfold fast
    rw [get_propagate_self]
  rw [hfirst, fast_recompute h']
  by_cases hpaths : q.remainingPaths id record.contracted = []
  · rw [if_neg (fun hs => hsupported.mp hs hpaths), if_pos hpaths, fast_of_get hn']
    rfl
  · rw [if_pos (hsupported.mpr hpaths), if_neg hpaths, Function.update_self, hrule]

end
end BeliefQuad

/-! ## an update that is not recovered from -/

section
variable {M : Type → Type} {G : Type → Type → Type} [SlotMap M] [StableDiGraph G] [Platform]

theorem BeliefQuad.GraphsSynced.revise {q : BeliefQuad M G} (h : q.GraphsSynced) (stamp : Stamp)
    (order : HashOrder BeliefId) (id : BeliefId) (v : BeliefValue) (p : Provenance) (c : ℚ) :
    (q.revise stamp order id v p c).2.GraphsSynced := by
  have hcontracted : (q.contracted order id).GraphsSynced :=
    BeliefQuad.GraphsSynced.removeAll h _
  exact BeliefQuad.revise_quad stamp order id v p c q _ h hcontracted
    fun b base hb => ⟨(hb.modify id (revisedNode b v p c)).semantic,
      (hb.modify id (revisedNode b v p c)).temporal, (hb.modify id (revisedNode b v p c)).causal,
      (hb.modify id (revisedNode b v p c)).entity⟩

/-- a contract section that has run no recovery leaves the quad alone -/
theorem ContractEngine.postUpdate_none {engine : ContractEngine M G} {quad : BeliefQuad M G}
    {lastCheckpoint : Option CheckpointId} {beliefKey agentId : String} {nowMs : Nat}
    (h : (engine.postUpdate quad lastCheckpoint beliefKey agentId nowMs).1 = .ok none) :
    (engine.postUpdate quad lastCheckpoint beliefKey agentId nowMs).2.2 = quad := by
  have hq : Quiet quad ⟨quad, engine.violationLog, none, false⟩ := ⟨rfl, rfl, rfl⟩
  unfold ContractEngine.postUpdate at h ⊢
  rcases handleContracts_cases engine.contracts hq with ⟨-, s, e, hs⟩ | ⟨contract, v, -, hg⟩
  · rw [e]
    exact hs.quad
  · rcases hf : tryFold (handleContract engine.sovereignty lastCheckpoint)
        ⟨quad, engine.violationLog, none, false⟩ engine.contracts with ⟨e | u, s⟩
    · rw [hf] at h
      cases h
    · rw [hf] at h hg
      have houtcome : s.outcome = none := Except.ok.inj h
      rcases hg with ⟨-, -, he⟩ | ⟨-, -, e, -, he⟩ | ⟨-, hsome, -, -⟩
      · cases he
      · cases he
      · have hsome' : s.outcome.isSome = true := hsome
        rw [houtcome] at hsome'
        cases hsome'

namespace BeliefRuntime
variable (rt : BeliefRuntime M G) (call : UpdateCall)

/-- **when a contradicting update keeps the caller's confidence**: when the contraction leaves no
support path, or when what is left of the paths says just that -/
theorem fast_kept_iff (h : rt.quad.GraphsSynced)
    (hcontradicts : (rt.quad.auditOf call.id call.value).vacuity = false)
    (hok : (rt.updateBelief call).1.isOk = true) (hquiet : (rt.verdict call).1 = .ok none) :
    ((rt.updateBelief call).2.quad.get call.id).map BeliefNode.fastConfidence =
        some (clamp call.confidence 0 1) ↔
      rt.quad.remainingPaths call.id (rt.quad.minimalContractionSet call.id).toFinset = [] ∨
      rt.quad.remainingConfidence (call.propagationNow call.id) call.id
        (rt.quad.minimalContractionSet call.id).toFinset (clamp call.confidence 0 1) =
          clamp call.confidence 0 1 := by
  have hbase : (rt.checkpointedQuad call).GraphsSynced :=
    ⟨h.semantic, h.temporal, h.causal, h.entity⟩
  have hset : (rt.checkpointedQuad call).contractedSet call.id call.value =
      (rt.quad.minimalContractionSet call.id).toFinset := by
    have hc : rt.quad.checkContradiction call.id call.value = true := by
      rw [← Bool.not_eq_false', ← hcontradicts]
      rfl
    exact if_pos hc
  have hquad : (rt.updateBelief call).2.quad = rt.revisedQuad call :=
    (rt.verdict_of_ok call hok).1.trans (ContractEngine.postUpdate_none hquiet)
  have hrevised : ∃ out, (rt.revision call).1 = .ok out := by
    rcases rt.updateBelief_cases call with ⟨-, -, e, -, he⟩ | ⟨-, -, e, -, he⟩ | ⟨-, hout, -, -⟩
    · rw [he] at hok
      cases hok
    · rw [he] at hok
      cases hok
    · exact hout
  obtain ⟨out, hout⟩ := hrevised
  rcases rt.revision_cases call with ⟨e, -, he, -⟩ | ⟨record, -, hr, -, hpropagated⟩
  · rw [hout] at he
    cases he
  · obtain ⟨hcontracted, -⟩ := BeliefQuad.revise_ok hr
    obtain ⟨n, -, hn⟩ := BeliefQuad.get_revised hr
    have hfast := BeliefQuad.fast_revised hbase hr (hbase.revise _ _ _ _ _ _)
      call.propagationNow call.propagationOrder
    rw [hcontracted, hset] at hfast
    have hlive : (rt.revisedQuad call).Live call.id := by
      rw [hpropagated, (BeliefQuad.propagate_only _ _ _ _).live]
      exact BeliefQuad.live_iff.mpr ⟨_, hn⟩
    obtain ⟨n', hn'⟩ := BeliefQuad.live_iff.mp hlive
    have hfinal : n'.fastConfidence = _ :=
      (BeliefQuad.fast_of_get hn').symm.trans
        ((congrArg (fun q : BeliefQuad M G => q.fast call.id) hpropagated).trans hfast)
    rw [hquad, hn', Option.map_some, Option.some_inj, hfinal]
    by_cases hpaths : rt.quad.remainingPaths call.id
        (rt.quad.minimalContractionSet call.id).toFinset = []
    · exact iff_of_true (if_pos hpaths) (.inl hpaths)
    · rw [or_iff_right hpaths]
      exact Eq.congr_left (if_neg hpaths)

end BeliefRuntime
end

section
attribute [local instance] Platform.ascii

/-- a plan inferred from a sure and a weak belief, by an edge whose source is `src` -/
def inferredPlan (src : BeliefId) : BeliefRuntime SlotVec EdgeList :=
  .build (run BeliefQuad.step .new
    [.insert (.new 0 "sure" (.asserted "sure") (.userStatement 0) (9 / 10)),
     .insert (.new 0 "weak" (.asserted "weak") (.userStatement 0) (1 / 10)),
     .insert (.new 0 "plan" (.asserted "go") (.userStatement 0) (9 / 10)),
     .addCausalEdge src ⟨3, 1⟩ (.inferredFrom [⟨1, 1⟩, ⟨2, 1⟩])]) (1 / 2) [] none false (15 / 100)

theorem inferredPlan_synced (src : BeliefId) : (inferredPlan src).quad.GraphsSynced :=
  (BeliefQuad.wellFormed_run BeliefQuad.wellFormed_new _).synced.toGraphsSynced

def dropPlan : UpdateCall := .at 11 ⟨3, 1⟩ (.asserted "drop") (3 / 10)

/-- no contract is attached, so no recovery is run -/
theorem inferredPlan_quiet (src : BeliefId) :
    ((inferredPlan src).verdict dropPlan).1 = .ok none := rfl

/-- the edge goes with the weak belief -/
theorem fast_kept_inferredPlan :
    (((inferredPlan ⟨2, 1⟩).updateBelief dropPlan).2.quad.get ⟨3, 1⟩).map
      BeliefNode.fastConfidence = some (3 / 10) := by
  have hclamp : clamp dropPlan.confidence 0 1 = 3 / 10 := by decide +kernel
  rw [← hclamp]
  exact ((inferredPlan ⟨2, 1⟩).fast_kept_iff dropPlan (inferredPlan_synced _) (by decide +kernel)
    (by decide +kernel) (inferredPlan_quiet _)).mpr (.inl (by decide +kernel))

/-- the edge stays, with the sure belief for its source -/
theorem fast_lost : ¬ ∀ (rt : BeliefRuntime SlotVec EdgeList) (call : UpdateCall),
    rt.quad.GraphsSynced → (rt.quad.auditOf call.id call.value).vacuity = false →
      (rt.updateBelief call).1.isOk = true → (rt.verdict call).1 = .ok none →
        ((rt.updateBelief call).2.quad.get call.id).map BeliefNode.fastConfidence =
          some (clamp call.confidence 0 1) := by
  intro h
  have hfast := h (inferredPlan ⟨1, 1⟩) dropPlan (inferredPlan_synced _) (by decide +kernel)
    (by decide +kernel) (inferredPlan_quiet _)
  have hsure : (((inferredPlan ⟨1, 1⟩).updateBelief dropPlan).2.quad.get ⟨3, 1⟩).map
      BeliefNode.fastConfidence = some (9 / 10) := by decide +kernel
  have hclamp : clamp dropPlan.confidence 0 1 = 3 / 10 := by decide +kernel
  have heq : some (3 / 10 : ℚ) = some (9 / 10) :=
    (congrArg some hclamp).symm.trans (hfast.symm.trans hsure)
  exact absurd heq (by decide +kernel)

end
end Epica
