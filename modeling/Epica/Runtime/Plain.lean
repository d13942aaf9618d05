import Epica.Core.Uninferred
import Epica.Runtime.Attached
import Epica.Runtime.Retraction
import Epica.Runtime.Trajectory

/-!
# Updates of a plain runtime

A runtime without contracts, on a quad that records no inference and asks no embedding provider.

* `Flat.revise`            a revision goes through and contracts nothing;
* `Plain.updateBelief`     an update records the confidence that it is given;
* `Plain.updateBelief_eq`  all that it does: the revision, one token, one record.
-/

set_option linter.unusedSectionVars false

namespace Epica
open Lib

/-- the target of the calibration: the `f32` nearest to `0.08` -/
def teceTarget : ℚ := 5368709 / 2 ^ 26

section
variable {M : Type → Type} {G : Type → Type → Type} [SlotMap M] [StableDiGraph G] [Platform]

namespace BeliefQuad

/-- the graphs are in step, no inference is recorded, and there is no embedding provider -/
structure Flat (q : BeliefQuad M G) : Prop extends q.GraphsSynced where
  uninferred : q.Uninferred
  provider : q.embeddingProvider = none

theorem flat_new : (new : BeliefQuad M G).Flat := ⟨graphsSynced_new, uninferred_new, rfl⟩

variable {q : BeliefQuad M G}

theorem Flat.insert (h : q.Flat) (node : BeliefNode) : (q.insert node).2.Flat :=
  ⟨h.toGraphsSynced.insert node, h.uninferred.insert node, h.provider⟩

/-- nothing supports a belief, so nothing is contracted and nothing is recomputed -/
theorem Flat.minimalContractionSet (h : q.Flat) (id : BeliefId) :
    q.minimalContractionSet id = [] := by
  refine List.eq_nil_iff_forall_not_mem.mpr fun b hb => ?_
  obtain ⟨ps, ⟨a, ha⟩, -⟩ := (mem_minimalContractionSet h.toGraphsSynced).mp hb
  have hnone := h.uninferred _ (Projection.mem_edges.mpr ha)
  cases hnone

theorem Flat.remainingPaths (h : q.Flat) (id : BeliefId) (K : Finset BeliefId) :
    q.remainingPaths id K = [] := by
  refine List.eq_nil_iff_forall_not_mem.mpr fun ps hps => ?_
  obtain ⟨a, -, ha⟩ := mem_remainingPaths.mp hps
  have hnone := h.uninferred _ (Projection.mem_edges.mpr ha)
  cases hnone

theorem Flat.contracted (h : q.Flat) (order : HashOrder BeliefId) (id : BeliefId) :
    q.contracted order id = q := by
  unfold BeliefQuad.contracted applyContraction
  rw [h.minimalContractionSet]
  have hnil : order.shuffle [] = [] := by
    refine List.eq_nil_iff_forall_not_mem.mpr fun b hb => ?_
    cases (HashOrder.mem_shuffle order [] b).mp hb
  rw [hnil]
  rfl

theorem Flat.allCriticalPass (h : q.Flat) {id : BeliefId} (hl : q.Live id) (v : BeliefValue) :
    (q.auditOf id v).allCriticalPass = true := by
  have hconsistent : isSelfContradictory v = false := by
    cases v with
    | deterministic v => exact Bool.and_false _
    | _ => rfl
  have hext : ∀ expected, checkExtensionality q id v expected = (true, none) := by
    intro expected
    unfold checkExtensionality
    rw [h.provider]
  unfold auditOf PostulateAudit.verify PostulateAudit.allCriticalPass
  rw [hconsistent, hext]
  have hl' : (q.get id).isSome = true := hl
  rw [hl']
  rfl

/-- a revision goes through, and contracts nothing -/
theorem Flat.revise (h : q.Flat) {id : BeliefId} (hl : q.Live id) (stamp : Stamp)
    (order : HashOrder BeliefId) (v : BeliefValue) (p : Provenance) (c : ℚ) :
    (∃ record, (q.revise stamp order id v p c).1 = .ok record ∧ record.contracted = ∅) ∧
      (q.revise stamp order id v p c).2.Flat ∧
      ∀ j, (q.revise stamp order id v p c).2.Live j ↔ q.Live j := by
  have hrev : ∃ contracting,
      Revised id v p c (q.revise stamp order id v p c) contracting q ∅ := by
    rcases q.revise_cases stamp order id v p c with
      ⟨hdead, -⟩ | ⟨-, hfail, -⟩ | ⟨-, -, -, hrev⟩ | ⟨-, -, -, hmem, -⟩ | ⟨-, -, -, -, hrev⟩
    · exact absurd hl hdead
    · rw [h.allCriticalPass hl v] at hfail
      cases hfail
    · exact ⟨false, hrev⟩
    · rw [h.minimalContractionSet] at hmem
      cases hmem
    · rw [h.contracted, h.minimalContractionSet] at hrev
      exact ⟨true, hrev⟩
  obtain ⟨contracting, hrev⟩ := hrev
  obtain ⟨record, hok, hcontracted, -⟩ := hrev.ok
  have hsynced := h.toGraphsSynced.revise stamp order id v p c
  have huninferred := h.uninferred.revise h.toGraphsSynced stamp order id v p c
  have hprovider : (q.revise stamp order id v p c).2.embeddingProvider = none := by
    rw [hrev.quad]
    exact h.provider
  refine ⟨⟨record, hok, hcontracted⟩, ⟨hsynced, huninferred, hprovider⟩, fun j => ?_⟩
  rw [hrev.quad]
  exact live_expand q id _ j

theorem Flat.propagate (h : q.Flat) (now : BeliefId → Nat)
    (order : BeliefId → HashOrder BeliefId) (changed : BeliefId) :
    (q.propagateSystem1 now order changed).Flat := by
  have ho := propagate_only now order q changed
  have hlive : ∀ id, q.Live id ↔ (q.propagateSystem1 now order changed).Live id := fun id =>
    (ho.live id).symm
  refine ⟨⟨?_, ?_, ?_, ?_⟩, ?_, ?_⟩
  · rw [ho.semantic]
    exact h.semantic.congr hlive
  · rw [ho.temporal]
    exact h.temporal.congr hlive
  · rw [ho.causal]
    exact h.causal.congr hlive
  · rw [ho.entity]
    exact h.entity.congr hlive
  · unfold Uninferred
    rw [ho.causal]
    exact h.uninferred
  · rw [ho.rest]
    exact h.provider

theorem Flat.inferredFromPremises (h : q.Flat) (id : BeliefId) :
    CausalGraph.inferredFromPremises q.causal id = [] := by
  refine List.eq_nil_iff_forall_not_mem.mpr fun ps hps => ?_
  obtain ⟨a, ha⟩ := (CausalGraph.mem_inferredFromPremises h.causal id ps).mp hps
  have hplain := h.uninferred _ (Projection.mem_edges.mpr ha)
  cases hplain

/-- a propagation finds nothing to recompute -/
theorem Flat.propagate_eq (h : q.Flat) (now : BeliefId → Nat)
    (order : BeliefId → HashOrder BeliefId) (changed : BeliefId) :
    q.propagateSystem1 now order changed = q := by
  have hnone : ∀ (t : Nat) (id : BeliefId), q.recompute t id = q := by
    intro t id
    unfold recompute
    rw [h.inferredFromPremises]
    rfl
  rw [propagateSystem1_eq]
  unfold recomputeAll
  induction q.visitOrder order changed with
  | nil => rfl
  | cons id ids ih =>
    rw [List.foldl_cons, hnone]
    exact ih

theorem Flat.get_revise (h : q.Flat) {id : BeliefId} (hl : q.Live id) (stamp : Stamp)
    (order : HashOrder BeliefId) (v : BeliefValue) (p : Provenance) (c : ℚ) (j : BeliefId) :
    (q.revise stamp order id v p c).2.get j =
      if j = id then (q.get j).map (revisedNode (q.checkContradiction id v) v p c)
      else q.get j := by
  rw [BeliefQuad.get_revise, h.uninferred.retracts_eq h.toGraphsSynced,
    if_neg (Finset.notMem_empty j), h.allCriticalPass hl]
  simp only [and_true]

end BeliefQuad

namespace BeliefRuntime

/-- there is no contract, and the quad is flat -/
structure Plain (rt : BeliefRuntime M G) : Prop where
  bare : rt.Bare
  flat : rt.quad.Flat

variable {rt : BeliefRuntime M G} {call : UpdateCall}

theorem Plain.admits (h : rt.Plain) (call : UpdateCall) : rt.Admits call :=
  ⟨preUpdate_bare h.bare _, by rw [trackTokens_bare h.bare]⟩

/-- the revision section of an update of a live belief -/
theorem Plain.revision (h : rt.Plain) (hl : rt.quad.Live call.id) :
    (rt.revision call).1 = .ok (clamp call.confidence 0 1, false) ∧
      (rt.revision call).2.Plain ∧ (∀ j, (rt.revision call).2.quad.Live j ↔ rt.quad.Live j) ∧
      (rt.revision call).2.confidenceHistory = rt.confidenceHistory := by
  have hcp : (rt.checkpointedQuad call).Flat :=
    ⟨⟨h.flat.semantic, h.flat.temporal, h.flat.causal, h.flat.entity⟩, h.flat.uninferred,
      h.flat.provider⟩
  have hlcp : (rt.checkpointedQuad call).Live call.id := hl
  obtain ⟨⟨record, hok, hcontracted⟩, hflat, hlive⟩ := hcp.revise hlcp call.revisionStamp
    call.contractionOrder call.value call.provenance call.confidence
  have hok' : (call.revise (rt.checkpointedQuad call)).1 = .ok record := hok
  rcases rt.revision_cases call with ⟨e, he, -⟩ | ⟨record', out, hr, hout, hquad⟩
  · rw [hok'] at he
    cases he
  · obtain rfl := Except.ok.inj (hok'.symm.trans hr)
    have hpropagated := hflat.propagate call.propagationNow call.propagationOrder call.id
    have hquad' : (rt.revision call).2.quad =
        (call.revise (rt.checkpointedQuad call)).2.propagateSystem1 call.propagationNow
          call.propagationOrder call.id := hquad
    have hlive' : ∀ j, (rt.revision call).2.quad.Live j ↔ rt.quad.Live j := fun j => by
      rw [hquad', (BeliefQuad.propagate_only _ _ _ _).live]
      exact hlive j
    obtain ⟨record'', hr'', hout'⟩ := reviseAndPropagate_out _ call hout
    obtain rfl := Except.ok.inj (hok'.symm.trans hr'')
    obtain ⟨n, hn⟩ := BeliefQuad.live_iff.mp ((hlive' call.id).mpr hl)
    have hfast : n.fastConfidence = clamp call.confidence 0 1 := by
      rw [← BeliefQuad.fast_of_get hn, hquad']
      refine (BeliefQuad.fast_revised hcp.toGraphsSynced hok hflat.toGraphsSynced _ _).trans ?_
      rw [if_pos (hcp.remainingPaths _ _)]
    have hn' : ((rt.trackTokens.2.checkpoint call.checkpointStamp).2.reviseAndPropagate
        call).2.quad.get call.id = some n := hn
    refine ⟨?_, ⟨?_, ?_⟩, hlive', rt.revision_history call⟩
    · rw [hout, hout', hn', hcontracted, Option.map_some, Option.getD_some, hfast]
      rfl
    · have hrest := reviseAndPropagate_rest
        (rt.trackTokens.2.checkpoint call.checkpointStamp).2 call
      exact (congrArg BeliefRuntime.contractEngine hrest).trans h.bare
    · rw [hquad']
      exact hpropagated

/-- **an update records the confidence that it is given** -/
theorem Plain.updateBelief (h : rt.Plain) (hl : rt.quad.Live call.id) :
    (rt.updateBelief call).2.Plain ∧
      (∀ j, (rt.updateBelief call).2.quad.Live j ↔ rt.quad.Live j) ∧
      (rt.updateBelief call).2.confidenceHistory =
        rt.confidenceHistory.push call.historyMs call.id (clamp call.confidence 0 1) := by
  obtain ⟨hout, hplain, hlive, hhistory⟩ := h.revision hl
  have hpost := postUpdate_bare hplain.bare call call.checkpointStamp.uuid (rt.keyOf call.id)
  rw [rt.updateBelief_admitted call (h.admits call)]
  rcases hrev : rt.revision call with ⟨out, rt'⟩
  rw [hrev] at hout hplain hlive hhistory hpost
  subst hout
  simp only [hpost]
  refine ⟨⟨hplain.bare, hplain.flat⟩, hlive, ?_⟩
  show rt'.confidenceHistory.push _ _ _ = _
  rw [hhistory]

/-- the quad an update leaves behind -/
def plainQuad (rt : BeliefRuntime M G) (call : UpdateCall) : BeliefQuad M G :=
  (call.revise (rt.checkpointedQuad call)).2

/-- one token more -/
def tokenTracked (rt : BeliefRuntime M G) : GovernanceTracker :=
  { rt.governanceTracker with tokensUsed := rt.governanceTracker.tokensUsed + 1 }

/-- the revision section of an update touches the quad and the tokens -/
theorem Plain.revision_rest (h : rt.Plain) (call : UpdateCall) : (rt.revision call).2 =
    { rt with quad := rt.revisedQuad call, governanceTracker := rt.tokenTracked } := by
  have hrest := reviseAndPropagate_rest
    (rt.trackTokens.2.checkpoint call.checkpointStamp).2 call
  have htokens : (rt.trackTokens.2.checkpoint call.checkpointStamp).2 =
      { rt with quad := rt.checkpointedQuad call, governanceTracker := rt.tokenTracked } := by
    rw [trackTokens_bare h.bare]
    rfl
  rw [htokens] at hrest
  show ((rt.trackTokens.2.checkpoint call.checkpointStamp).2.reviseAndPropagate call).2 =
    { rt with
      quad := ((rt.trackTokens.2.checkpoint call.checkpointStamp).2.reviseAndPropagate call).2.quad
      governanceTracker := rt.tokenTracked }
  rw [htokens]
  exact hrest

theorem Plain.flat_checkpointedQuad (h : rt.Plain) (call : UpdateCall) :
    (rt.checkpointedQuad call).Flat :=
  ⟨⟨h.flat.semantic, h.flat.temporal, h.flat.causal, h.flat.entity⟩, h.flat.uninferred,
    h.flat.provider⟩

theorem Plain.revisedQuad_eq (h : rt.Plain) (hl : rt.quad.Live call.id) :
    rt.revisedQuad call = rt.plainQuad call := by
  obtain ⟨⟨record, hok, -⟩, hflat, -⟩ := (h.flat_checkpointedQuad call).revise hl
    call.revisionStamp call.contractionOrder call.value call.provenance call.confidence
  have hok' : (call.revise (rt.checkpointedQuad call)).1 = .ok record := hok
  rcases rt.revision_cases call with ⟨e, he, -⟩ | ⟨record', out, -, -, hquad⟩
  · rw [hok'] at he
    cases he
  · rw [hquad]
    exact hflat.propagate_eq _ _ _

/-- **all that an update of a live belief does** -/
theorem Plain.updateBelief_eq (h : rt.Plain) {n : BeliefNode} (hn : rt.quad.get call.id = some n) :
    (∃ signal, (rt.updateBelief call).1 =
      .ok (if shouldActivateSystem2 (clamp call.confidence 0 1) rt.reliabilityBaseline
        n.reflectionThreshold && rt.llmClient then .system2Pending signal else .system1Only)) ∧
    (rt.updateBelief call).2 = { rt with
      quad := rt.plainQuad call
      governanceTracker := rt.tokenTracked
      confidenceHistory :=
        rt.confidenceHistory.push call.historyMs call.id (clamp call.confidence 0 1) } := by
  have hl : rt.quad.Live call.id := BeliefQuad.live_iff.mpr ⟨n, hn⟩
  obtain ⟨hout, hplain, -, -⟩ := h.revision hl
  have hrest := h.revision_rest call
  rw [h.revisedQuad_eq hl] at hrest
  have hpost := postUpdate_bare hplain.bare call call.checkpointStamp.uuid (rt.keyOf call.id)
  have hthreshold : ((rt.plainQuad call).get call.id).map BeliefNode.reflectionThreshold =
      some n.reflectionThreshold := by
    have hlcp : (rt.checkpointedQuad call).Live call.id := hl
    have hget := (h.flat_checkpointedQuad call).get_revise hlcp call.revisionStamp
      call.contractionOrder call.value call.provenance call.confidence call.id
    have hn' : (rt.checkpointedQuad call).get call.id = some n := hn
    unfold plainQuad UpdateCall.revise
    rw [hget, if_pos rfl, hn']
    rfl
  rw [rt.updateBelief_admitted call (h.admits call)]
  rcases hrev : rt.revision call with ⟨out, rt'⟩
  rw [hrev] at hout hrest hpost
  subst hout
  simp only at hrest hpost
  subst hrest
  simp only [hpost]
  refine ⟨⟨signal { rt with
    quad := rt.plainQuad call
    governanceTracker := rt.tokenTracked } call.id (clamp call.confidence 0 1), ?_⟩, rfl⟩
  unfold finishUpdate activates
  simp only [Bool.false_eq_true, if_false, hthreshold, Option.getD_some]

/-- it is as confident in its belief as it is told to be, and in the others as before -/
theorem Plain.fast_updateBelief (h : rt.Plain) (hl : rt.quad.Live call.id) :
    (rt.updateBelief call).2.quad.fast =
      Function.update rt.quad.fast call.id (clamp call.confidence 0 1) := by
  obtain ⟨n, hn⟩ := BeliefQuad.live_iff.mp hl
  rw [(h.updateBelief_eq hn).2]
  funext j
  have hlcp : (rt.checkpointedQuad call).Live call.id := hl
  have hget := (h.flat_checkpointedQuad call).get_revise hlcp call.revisionStamp
    call.contractionOrder call.value call.provenance call.confidence j
  show (((call.revise (rt.checkpointedQuad call)).2.get j).map _).getD 0 = _
  unfold UpdateCall.revise
  rw [hget]
  by_cases hj : j = call.id
  · have hn' : (rt.checkpointedQuad call).get call.id = some n := hn
    rw [if_pos hj, hj, hn', Function.update_self]
    rfl
  · rw [if_neg hj, Function.update_of_ne hj]
    rfl

/-- an update of a belief that is not live leaves its checkpoint and takes its token -/
theorem Plain.updateBelief_dead (h : rt.Plain) (hl : ¬ rt.quad.Live call.id) :
    rt.updateBelief call = (.error (.core .beliefNotFound),
      { rt with quad := rt.checkpointedQuad call, governanceTracker := rt.tokenTracked }) := by
  have hdead : ¬ (rt.checkpointedQuad call).Live call.id := hl
  have hrevise : call.revise (rt.checkpointedQuad call) =
      (.error .beliefNotFound, rt.checkpointedQuad call) := by
    rcases (rt.checkpointedQuad call).revise_cases call.revisionStamp call.contractionOrder call.id
      call.value call.provenance call.confidence with
      ⟨-, e⟩ | ⟨hl', -⟩ | ⟨hl', -⟩ | ⟨hl', -⟩ | ⟨hl', -⟩
    · exact e
    all_goals exact absurd hl' hdead
  rcases rt.revision_cases call with ⟨e, he, hout, hquad⟩ | ⟨record, out, hrecord, -⟩
  · rw [hrevise] at he
    obtain rfl := Except.error.inj he
    have hrest := h.revision_rest call
    have hquad' : rt.revisedQuad call = rt.checkpointedQuad call := by
      rw [hquad, hrevise]
    rw [hquad'] at hrest
    rw [rt.updateBelief_admitted call (h.admits call)]
    rcases hrev : rt.revision call with ⟨out, rt'⟩
    rw [hrev] at hout hrest
    subst hout hrest
    rfl
  · rw [hrevise] at hrecord
    cases hrecord

end BeliefRuntime

end
end Epica
