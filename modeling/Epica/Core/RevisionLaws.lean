import Epica.Lib.HittingSet
import Epica.Core.Runs

/-!
# Laws of revision

* `revise_ok_iff`           when a revision goes through;
* `revise_frame`            what a revision that goes through changes: the contracted beliefs and
                            their edges go, the revised belief is rewritten, nothing else;
* `revise_atomic_iff`       a revision is all or nothing, unless the belief is among its own
                            weakest premises: then it is removed and not found again;
* `contracted_minimal_iff`  the contraction set hits every support path, and is minimal exactly
                            when no weakest premise is superfluous.
-/

set_option linter.unusedSectionVars false

namespace Epica
open Lib

namespace BeliefQuad

section
variable {M : Type → Type} {G : Type → Type → Type} [SlotMap M] [StableDiGraph G] [Platform]
  (q : BeliefQuad M G) (stamp : Stamp) (order : HashOrder BeliefId) (id : BeliefId)
  (v : BeliefValue) (p : Provenance) (c : ℚ)

/-! ## revisions that go through -/

/-- the quad a revision that goes through expands, and what it contracts -/
def expandedBase : BeliefQuad M G :=
  if q.checkContradiction id v then q.contracted order id else q

def contractedSet : Finset BeliefId :=
  if q.checkContradiction id v then (q.minimalContractionSet id).toFinset else ∅

/-- **when a revision goes through** -/
theorem revise_ok_iff :
    (∃ record, (q.revise stamp order id v p c).1 = .ok record) ↔
      q.Live id ∧ (q.auditOf id v).allCriticalPass = true ∧ id ∉ q.contractedSet id v := by
  unfold contractedSet
  rcases q.revise_cases stamp order id v p c with
    ⟨hl, e⟩ | ⟨hl, ha, e⟩ | ⟨hl, ha, hc, r⟩ | ⟨hl, ha, hc, hm, e⟩ | ⟨hl, ha, hc, hm, r⟩
  · simp [e, hl]
  · simp [e, ha]
  · obtain ⟨record, hr, -⟩ := r.ok
    simp [hr, hl, ha, hc]
  · simp [e, hc, hm]
  · obtain ⟨record, hr, -⟩ := r.ok
    simp [hr, hl, ha, hc, hm]

variable {q stamp order id v p c}

theorem revise_ok {record : RevisionRecord}
    (h : (q.revise stamp order id v p c).1 = .ok record) :
    record.contracted = q.contractedSet id v ∧
      Revised id v p c (q.revise stamp order id v p c) (q.checkContradiction id v)
        (q.expandedBase order id v) (q.contractedSet id v) := by
  unfold contractedSet expandedBase
  rcases q.revise_cases stamp order id v p c with
    ⟨-, e⟩ | ⟨-, -, e⟩ | ⟨-, -, hc, r⟩ | ⟨-, -, -, -, e⟩ | ⟨-, -, hc, -, r⟩
  · rw [e] at h
    cases h
  · rw [e] at h
    cases h
  · obtain ⟨record', hr, hset, -⟩ := r.ok
    rw [h] at hr
    rw [hc, Except.ok.inj hr, if_neg Bool.false_ne_true, if_neg Bool.false_ne_true]
    exact ⟨hset, r⟩
  · rw [e] at h
    cases h
  · obtain ⟨record', hr, hset, -⟩ := r.ok
    rw [h] at hr
    rw [hc, Except.ok.inj hr, if_pos rfl, if_pos rfl]
    exact ⟨hset, r⟩

/-- the audit in the record of a revision -/
theorem revise_audit {record : RevisionRecord}
    (h : (q.revise stamp order id v p c).1 = .ok record) :
    record.postulateAudit = q.auditOf id v := by
  obtain ⟨hl, ha, -⟩ := (revise_ok_iff q stamp order id v p c).mp ⟨record, h⟩
  cases hc : q.checkContradiction id v with
  | false =>
    rw [revise_of_consistent q stamp order id v p c hl ha hc] at h
    unfold expandOnly at h
    split at h
    · cases h
    · rw [← Except.ok.inj h]
  | true =>
    rw [revise_of_contradicting q stamp order id v p c hl ha hc] at h
    unfold expandContracted at h
    split at h
    · cases h
    · rw [← Except.ok.inj h]

theorem mem_contractedSet_iff (b : BeliefId) : b ∈ q.contractedSet id v ↔
    q.checkContradiction id v = true ∧ b ∈ q.minimalContractionSet id := by
  unfold contractedSet
  split
  · rename_i h
    simp [h]
  · rename_i h
    simp [h]

theorem get_expandedBase (j : BeliefId) : (q.expandedBase order id v).get j =
    if j ∈ q.contractedSet id v then none else q.get j := by
  unfold expandedBase contractedSet
  split
  · unfold contracted
    rw [get_applyContraction]
    simp only [List.mem_toFinset]
  · rw [if_neg (Finset.notMem_empty j)]

theorem live_expandedBase (j : BeliefId) : (q.expandedBase order id v).Live j ↔
    q.Live j ∧ j ∉ q.contractedSet id v := by
  unfold Live
  rw [get_expandedBase]
  split
  · rename_i hj
    simp [hj]
  · rename_i hj
    simp [hj]

theorem store_expandedBase (h : q.GraphsSynced) : (q.expandedBase order id v).store =
    q.store.restrict fun j => j ∉ q.contractedSet id v := by
  unfold expandedBase contractedSet
  split
  · unfold contracted
    rw [store_applyContraction order _ h]
    exact Store.restrict_congr _ _ _ fun j => by rw [List.mem_toFinset]
  · exact (Store.restrict_of_all _ _ fun j => Finset.notMem_empty j).symm

/-- **a revision that goes through restricts the store and rewrites one node** -/
theorem store_revise (h : q.GraphsSynced) {record : RevisionRecord}
    (hr : (q.revise stamp order id v p c).1 = .ok record) :
    (q.revise stamp order id v p c).2.store =
      (q.store.restrict fun j => j ∉ record.contracted).assign id
        (revisedNode (q.checkContradiction id v) v p c) := by
  obtain ⟨hset, hrev⟩ := revise_ok hr
  rw [hrev.quad, store_expand, store_expandedBase h, hset]

variable (q stamp order id v p c)

/-- what a revision of `id` to `v` contracts, whether or not it then goes through -/
def retracts : Finset BeliefId :=
  if (q.auditOf id v).allCriticalPass then q.contractedSet id v else ∅

theorem audit_of_dead {q : BeliefQuad M G} {id : BeliefId} (h : ¬ q.Live id) (v : BeliefValue) :
    (q.auditOf id v).allCriticalPass = false := by
  have hdead : (q.auditOf id v).success = false := by
    show (q.get id).isSome = false
    rw [not_live_iff.mp h]
    rfl
  unfold PostulateAudit.allCriticalPass
  rw [hdead]
  rfl

/-- **the nodes after a revision, whatever it returns** -/
theorem get_revise (j : BeliefId) : (q.revise stamp order id v p c).2.get j =
    if j ∈ q.retracts id v then none
    else if j = id ∧ (q.auditOf id v).allCriticalPass = true then
      (q.get j).map (revisedNode (q.checkContradiction id v) v p c)
    else q.get j := by
  have hrefused : (q.auditOf id v).allCriticalPass = false →
      q.get j = if j ∈ q.retracts id v then none
        else if j = id ∧ (q.auditOf id v).allCriticalPass = true then
          (q.get j).map (revisedNode (q.checkContradiction id v) v p c)
        else q.get j := by
    intro ha
    unfold retracts
    rw [ha, if_neg Bool.false_ne_true, if_neg (Finset.notMem_empty j),
      if_neg fun h => Bool.false_ne_true h.2]
  have hcontracted : (q.contracted order id).get j =
      if j ∈ (q.minimalContractionSet id).toFinset then none else q.get j := by
    unfold contracted
    rw [get_applyContraction]
    simp only [List.mem_toFinset]
  rcases q.revise_cases stamp order id v p c with
    ⟨hl, e⟩ | ⟨-, ha, e⟩ | ⟨-, ha, hc, r⟩ | ⟨-, ha, hc, hm, e⟩ | ⟨-, ha, hc, -, r⟩
  · rw [e]
    exact hrefused (audit_of_dead hl v)
  · rw [e]
    exact hrefused ha
  · rw [r.quad, get_expand]
    unfold retracts contractedSet
    simp only [ha, hc, if_true, Bool.false_eq_true, if_false, and_true]
    rw [if_neg (Finset.notMem_empty j)]
  · rw [e]
    unfold retracts contractedSet
    simp only [ha, hc, if_true, and_true, hcontracted]
    by_cases h : j = id
    · rw [h, if_pos (List.mem_toFinset.mpr hm), if_pos (List.mem_toFinset.mpr hm)]
    · rw [if_neg h]
  · rw [r.quad, get_expand]
    unfold retracts contractedSet
    simp only [ha, hc, if_true, and_true, hcontracted]
    by_cases hr : j ∈ (q.minimalContractionSet id).toFinset
    · rw [if_pos hr, if_pos hr]
      split <;> rfl
    · rw [if_neg hr, if_neg hr]

variable {q stamp order id v p c}

/-! ## the frame -/

/-- between live ids, restricting to what survives is restricting to what is not contracted -/
theorem restrict_survivors {E : Type} {e : Projection G E} {live : BeliefId → Prop}
    (h : e.Synced live) (keep keep' : BeliefId → Prop) [DecidablePred keep]
    [DecidablePred keep'] (hk : ∀ j, live j → (keep j ↔ keep' j)) :
    Edges.restrict keep e.edges = Edges.restrict keep' e.edges := by
  refine Multiset.filter_congr fun x hx => ?_
  obtain ⟨ha, hb⟩ := h.live_of_mem (Projection.mem_edges.mp hx)
  rw [hk _ ha, hk _ hb]

/-- what a revision leaves: the quad `q'`, having contracted `R` -/
structure Frame (q q' : BeliefQuad M G) (id : BeliefId) (R : Finset BeliefId) : Prop where
  live : ∀ j, q'.Live j ↔ q.Live j ∧ j ∉ R
  survivors : ∀ j, j ≠ id → j ∉ R → q'.get j = q.get j
  semantic : q'.semantic.edges = Edges.restrict q'.Live q.semantic.edges
  temporal : q'.temporal.edges = Edges.restrict q'.Live q.temporal.edges
  causal : q'.causal.edges = Edges.restrict q'.Live q.causal.edges
  entity : q'.entity.edges = Edges.restrict q'.Live q.entity.edges

/-- every nonempty support path of `id` loses a premise, and what is contracted is one premise
for each path, at most -/
structure BreaksSupport (q q' : BeliefQuad M G) (id : BeliefId) (R : Finset BeliefId) : Prop where
  broken : ∀ ps, CausalGraph.Supports q.causal ps id → ps ≠ [] → ∃ b ∈ ps, ¬ q'.Live b
  onePerPath : ∃ choose : List BeliefId → Option BeliefId,
    (∀ ps b, choose ps = some b → b ∈ ps) ∧
      ∀ b, b ∈ R ↔ ∃ ps, CausalGraph.Supports q.causal ps id ∧ choose ps = some b

theorem frame_of_ok (h : q.GraphsSynced) {record : RevisionRecord}
    (hr : (q.revise stamp order id v p c).1 = .ok record) :
    Frame q (q.revise stamp order id v p c).2 id record.contracted := by
  obtain ⟨hset, hrev⟩ := revise_ok hr
  have hstore := store_revise h hr
  have hget : ∀ j, (q.revise stamp order id v p c).2.get j =
      if j = id then (if j ∉ record.contracted then q.get j else none).map
        (revisedNode (q.checkContradiction id v) v p c)
      else if j ∉ record.contracted then q.get j else none :=
    fun j => congrFun (congrArg Store.node hstore) j
  have hlive : ∀ j, (q.revise stamp order id v p c).2.Live j ↔
      q.Live j ∧ j ∉ record.contracted := fun j => by
    rw [hrev.quad, live_expand, live_expandedBase, hset]
  have hkeep : ∀ j, q.Live j →
      (j ∉ record.contracted ↔ (q.revise stamp order id v p c).2.Live j) := fun j hj => by
    rw [hlive]
    exact ⟨fun hm => ⟨hj, hm⟩, fun hm => hm.2⟩
  refine ⟨hlive, fun j hj hm => ?_, ?_, ?_, ?_, ?_⟩
  · rw [hget, if_neg hj, if_pos hm]
  · exact (congrArg Store.semantic hstore).trans (restrict_survivors h.semantic _ _ hkeep)
  · exact (congrArg Store.temporal hstore).trans (restrict_survivors h.temporal _ _ hkeep)
  · exact (congrArg Store.causal hstore).trans (restrict_survivors h.causal _ _ hkeep)
  · exact (congrArg Store.entity hstore).trans (restrict_survivors h.entity _ _ hkeep)

theorem breaksSupport_of_ok (h : q.GraphsSynced) {record : RevisionRecord}
    (hr : (q.revise stamp order id v p c).1 = .ok record)
    (hc : q.checkContradiction id v = true) :
    BreaksSupport q (q.revise stamp order id v p c).2 id record.contracted := by
  have hmem : ∀ b, b ∈ record.contracted ↔
      ∃ ps, CausalGraph.Supports q.causal ps id ∧ q.weakestPremise ps = some b := fun b => by
    rw [(revise_ok hr).1, mem_contractedSet_iff, mem_minimalContractionSet h]
    exact and_iff_right hc
  refine ⟨fun ps hps hne => ?_, q.weakestPremise, fun ps b => weakestPremise_mem, hmem⟩
  obtain ⟨b, hb⟩ := q.weakestPremise_isSome hne
  refine ⟨b, weakestPremise_mem hb, fun hl => ?_⟩
  exact (((frame_of_ok h hr).live b).mp hl).2 ((hmem b).mpr ⟨ps, hps, hb⟩)

end

/-- **the frame of revision** -/
theorem revise_frame {M : Type → Type} {G : Type → Type → Type} [SlotMap M] [StableDiGraph G]
    [Platform] (q : BeliefQuad M G) (h : q.GraphsSynced) (stamp : Stamp)
    (order : HashOrder BeliefId) (id : BeliefId) (v : BeliefValue) (p : Provenance) (c : ℚ)
    (record : RevisionRecord) (hr : (q.revise stamp order id v p c).1 = .ok record) :
    Frame q (q.revise stamp order id v p c).2 id record.contracted ∧
      (q.checkContradiction id v = false → record.contracted = ∅) ∧
      (q.checkContradiction id v = true →
        BreaksSupport q (q.revise stamp order id v p c).2 id record.contracted) := by
  refine ⟨frame_of_ok h hr, fun hc => ?_, fun hc => breaksSupport_of_ok h hr hc⟩
  rw [(revise_ok hr).1]
  unfold contractedSet
  rw [hc, if_neg Bool.false_ne_true]

section
attribute [local instance] Platform.ascii

/-- a fact, an assertion and an inference of it: `⟨1, 1⟩`, `⟨2, 1⟩`, and the edge between them -/
def supported : BeliefQuad SlotVec EdgeList :=
  run step new
    [.insert (.new 0 "fact" (.deterministic (.bool true)) (.userStatement 0) (4 / 5)),
     .insert (.new 0 "claim" (.asserted "read") (.userStatement 0) (9 / 10)),
     .addCausalEdge ⟨1, 1⟩ ⟨2, 1⟩ (.inferredFrom [⟨1, 1⟩])]

theorem supported_synced : supported.GraphsSynced :=
  (wellFormed_run wellFormed_new _).synced.toGraphsSynced

theorem supported_revise_ok : ∃ record, (supported.revise ⟨7, 0⟩ .id ⟨2, 1⟩ (.asserted "write")
    (.userStatement 1) (1 / 2)).1 = .ok record :=
  (revise_ok_iff _ _ _ _ _ _ _).mpr
    ⟨by decide +kernel, by decide +kernel, by decide +kernel⟩

/-- revising the conclusion of `supported` contracts its premise -/
theorem revise_frame_supported : ∃ record : RevisionRecord,
    Frame supported (supported.revise ⟨7, 0⟩ .id ⟨2, 1⟩ (.asserted "write") (.userStatement 1)
      (1 / 2)).2 ⟨2, 1⟩ record.contracted ∧
    BreaksSupport supported (supported.revise ⟨7, 0⟩ .id ⟨2, 1⟩ (.asserted "write")
      (.userStatement 1) (1 / 2)).2 ⟨2, 1⟩ record.contracted := by
  obtain ⟨record, hr⟩ := supported_revise_ok
  obtain ⟨hf, -, hb⟩ := revise_frame supported supported_synced _ _ _ _ _ _ record hr
  exact ⟨record, hf, hb (by decide +kernel)⟩

end

/-! ## all or nothing -/

section
variable {M : Type → Type} {G : Type → Type → Type} [SlotMap M] [StableDiGraph G] [Platform]

/-- `result` is that of an all-or-nothing revision of `id` in `q` to `v` with confidence `c` -/
structure Atomic (q : BeliefQuad M G) (id : BeliefId) (v : BeliefValue) (c : ℚ)
    (result : Except BeliefRevisionError RevisionRecord × BeliefQuad M G) : Prop where
  ok : ∀ record, result.1 = .ok record → ∃ n, result.2.get id = some n ∧ n.value = v ∧
    n.fastConfidence = clamp c 0 1
  error : ∀ e, result.1 = .error e → result.2.nodes = q.nodes ∧ result.2.semantic = q.semantic ∧
    result.2.temporal = q.temporal ∧ result.2.causal = q.causal ∧ result.2.entity = q.entity ∧
    result.2.version = q.version ∧ result.2.prospectiveIndex = q.prospectiveIndex

/-- revising `id` to `v` passes the audit, contradicts what is held, and `id` is the weakest
premise of one of its own support paths -/
def ContractsItself (q : BeliefQuad M G) (id : BeliefId) (v : BeliefValue) : Prop :=
  (q.auditOf id v).allCriticalPass = true ∧ q.checkContradiction id v = true ∧
    ∃ ps, CausalGraph.Supports q.causal ps id ∧ q.weakestPremise ps = some id

theorem Atomic.of_revised {q base : BeliefQuad M G} {id : BeliefId} {v : BeliefValue}
    {p : Provenance} {c : ℚ} {result : Except BeliefRevisionError RevisionRecord × BeliefQuad M G}
    {b : Bool} {set : Finset BeliefId} (h : Revised id v p c result b base set) :
    Atomic q id v c result := by
  obtain ⟨record, hr, -⟩ := h.ok
  obtain ⟨n, hn⟩ := live_iff.mp h.live
  refine ⟨fun _ _ => ⟨revisedNode b v p c n, ?_, rfl, rfl⟩, fun e he => ?_⟩
  · rw [h.quad, get_expand, if_pos rfl, hn]
    rfl
  · rw [hr] at he
    cases he

/-- an error that leaves the quad alone -/
theorem Atomic.of_unchanged {q : BeliefQuad M G} {id : BeliefId} {v : BeliefValue} {c : ℚ}
    (e : BeliefRevisionError) : Atomic q id v c (.error e, q) :=
  ⟨fun _ h => (nomatch h), fun _ _ => ⟨rfl, rfl, rfl, rfl, rfl, rfl, rfl⟩⟩

theorem live_of_supports {q : BeliefQuad M G} (h : q.GraphsSynced) {ps : List BeliefId}
    {id : BeliefId} (hs : CausalGraph.Supports q.causal ps id) : q.Live id := by
  obtain ⟨a, ha⟩ := hs
  exact (h.causal.live_of_mem ha).2

theorem atomic_of_synced {q : BeliefQuad M G} (h : q.GraphsSynced) (stamp : Stamp)
    (order : HashOrder BeliefId) (id : BeliefId) (v : BeliefValue) (p : Provenance) (c : ℚ) :
    Atomic q id v c (q.revise stamp order id v p c) ↔ ¬ ContractsItself q id v := by
  unfold ContractsItself
  rcases q.revise_cases stamp order id v p c with
    ⟨hl, e⟩ | ⟨hl, ha, e⟩ | ⟨hl, ha, hc, r⟩ | ⟨hl, ha, hc, hm, e⟩ | ⟨hl, ha, hc, hm, r⟩
  · refine iff_of_true (e ▸ Atomic.of_unchanged _) ?_
    intro hp
    obtain ⟨-, -, ps, hs, -⟩ := hp
    exact hl (live_of_supports h hs)
  · refine iff_of_true (e ▸ Atomic.of_unchanged _) ?_
    intro hp
    obtain ⟨ha', -⟩ := hp
    rw [ha] at ha'
    cases ha'
  · refine iff_of_true (Atomic.of_revised r) ?_
    intro hp
    obtain ⟨-, hc', -⟩ := hp
    rw [hc] at hc'
    cases hc'
  · refine iff_of_false (fun hat => ?_)
      (not_not_intro ⟨ha, hc, (mem_minimalContractionSet h).mp hm⟩)
    -- the belief was live, and is gone
    have hnodes := (hat.error .beliefNotFound (by rw [e])).1
    rw [e] at hnodes
    have hget : (q.contracted order id).get id = q.get id := by
      unfold get
      rw [hnodes]
    rw [contracted, get_applyContraction, if_pos hm] at hget
    exact not_live_iff.mpr hget.symm hl
  · refine iff_of_true (Atomic.of_revised r) ?_
    intro hp
    obtain ⟨-, -, hps⟩ := hp
    exact hm ((mem_minimalContractionSet h).mpr hps)

/-- **a revision of a reachable quad is all or nothing exactly when it does not contract the
belief it revises** -/
theorem revise_atomic_iff (ops : List Op) (stamp : Stamp) (order : HashOrder BeliefId)
    (id : BeliefId) (v : BeliefValue) (p : Provenance) (c : ℚ) :
    Atomic (run step (new : BeliefQuad M G) ops) id v c
        ((run step (new : BeliefQuad M G) ops).revise stamp order id v p c) ↔
      ¬ ContractsItself (run step (new : BeliefQuad M G) ops) id v :=
  atomic_of_synced (wellFormed_run wellFormed_new ops).synced.toGraphsSynced stamp order id v p c

end

section
attribute [local instance] Platform.ascii

/-- one belief, inferred from itself -/
def selfSupported : BeliefQuad SlotVec EdgeList :=
  run step new
    [.insert (.new 0 "intent" (.asserted "read") (.userStatement 0) (7 / 10)),
     .addCausalEdge ⟨1, 1⟩ ⟨1, 1⟩ (.inferredFrom [⟨1, 1⟩])]

/-- revising it removes it, and reports that it was not found -/
theorem revise_selfSupported : ¬ Atomic selfSupported ⟨1, 1⟩ (.asserted "write") (9 / 10)
    (selfSupported.revise ⟨7, 0⟩ .id ⟨1, 1⟩ (.asserted "write") (.userStatement 1) (9 / 10)) := by
  intro h
  have herr : (selfSupported.revise ⟨7, 0⟩ .id ⟨1, 1⟩ (.asserted "write") (.userStatement 1)
      (9 / 10)).1 = .error .beliefNotFound := by rfl
  have hget : (selfSupported.revise ⟨7, 0⟩ .id ⟨1, 1⟩ (.asserted "write") (.userStatement 1)
      (9 / 10)).2.get ⟨1, 1⟩ = selfSupported.get ⟨1, 1⟩ := by
    unfold get
    rw [(h.error _ herr).1]
  have hgone : ¬ (selfSupported.revise ⟨7, 0⟩ .id ⟨1, 1⟩ (.asserted "write") (.userStatement 1)
      (9 / 10)).2.Live ⟨1, 1⟩ := by decide +kernel
  have hlive : selfSupported.Live ⟨1, 1⟩ := by decide +kernel
  unfold Live at hgone hlive
  exact hgone (hget ▸ hlive)

end

/-! ## minimality -/

section
variable {M : Type → Type} {G : Type → Type → Type} [SlotMap M] [StableDiGraph G] [Platform]

theorem choice_weakestPremise (q : BeliefQuad M G) : Choice q.weakestPremise :=
  ⟨fun _ _ => weakestPremise_mem, fun _ => q.weakestPremise_isSome⟩

theorem contracted_eq_chosen {q : BeliefQuad M G} {stamp : Stamp} {order : HashOrder BeliefId}
    {id : BeliefId} {v : BeliefValue} {p : Provenance} {c : ℚ} {record : RevisionRecord}
    (hr : (q.revise stamp order id v p c).1 = .ok record)
    (hc : q.checkContradiction id v = true) :
    record.contracted = chosen (CausalGraph.inferredFromPremises q.causal id) q.weakestPremise := by
  rw [(revise_ok hr).1, contractedSet, if_pos hc]
  ext b
  rw [List.mem_toFinset, minimalContractionSet, List.mem_dedup, List.mem_filterMap, mem_chosen]

/-- **the contraction set is a minimal hitting set of the support paths exactly when every weakest
premise is the only weakest premise on some path it is the weakest of** -/
theorem contracted_minimal_iff (q : BeliefQuad M G) (stamp : Stamp) (order : HashOrder BeliefId)
    (id : BeliefId) (v : BeliefValue) (p : Provenance) (c : ℚ) (record : RevisionRecord)
    (hr : (q.revise stamp order id v p c).1 = .ok record)
    (hc : q.checkContradiction id v = true) :
    MinimalHitting (CausalGraph.inferredFromPremises q.causal id) record.contracted ↔
      ∀ ps ∈ CausalGraph.inferredFromPremises q.causal id, ∀ b, q.weakestPremise ps = some b →
        Sole (CausalGraph.inferredFromPremises q.causal id) q.weakestPremise b := by
  rw [contracted_eq_chosen hr hc]
  exact minimalHitting_chosen_iff q.choice_weakestPremise

/-- in particular when the support paths are disjoint -/
theorem contracted_minimal_of_disjoint {q : BeliefQuad M G} {stamp : Stamp}
    {order : HashOrder BeliefId} {id : BeliefId} {v : BeliefValue} {p : Provenance} {c : ℚ}
    {record : RevisionRecord} (hr : (q.revise stamp order id v p c).1 = .ok record)
    (hc : q.checkContradiction id v = true)
    (hd : ∀ ps ∈ CausalGraph.inferredFromPremises q.causal id,
      ∀ qs ∈ CausalGraph.inferredFromPremises q.causal id,
        q.weakestPremise ps ≠ q.weakestPremise qs → ∀ x ∈ ps, x ∉ qs) :
    MinimalHitting (CausalGraph.inferredFromPremises q.causal id) record.contracted := by
  rw [contracted_eq_chosen hr hc]
  exact minimalHitting_of_disjoint q.choice_weakestPremise hd

end

section
attribute [local instance] Platform.ascii

/-- the one path of `supported` is broken at its one premise -/
theorem contracted_minimal_supported : ∃ record,
    (supported.revise ⟨7, 0⟩ .id ⟨2, 1⟩ (.asserted "write") (.userStatement 1) (1 / 2)).1 =
      .ok record ∧
    MinimalHitting (CausalGraph.inferredFromPremises supported.causal ⟨2, 1⟩)
      record.contracted := by
  obtain ⟨record, hr⟩ := supported_revise_ok
  refine ⟨record, hr, (contracted_minimal_iff supported _ _ _ _ _ _ record hr
    (by decide +kernel)).mpr ?_⟩
  have hpaths : CausalGraph.inferredFromPremises supported.causal ⟨2, 1⟩ = [[⟨1, 1⟩]] := by
    decide +kernel
  rw [hpaths]
  intro ps hps b hb
  refine ⟨ps, hps, hb, fun qs hqs d hd _ => ?_⟩
  rw [List.mem_singleton.mp hqs, ← List.mem_singleton.mp hps, hb] at hd
  exact (Option.some.inj hd).symm

/-- two paths to `⟨4, 1⟩` that share the premise `⟨1, 1⟩`: one is broken there, the other at
`⟨3, 1⟩`, which is weaker still -/
def sharedPremise : BeliefQuad SlotVec EdgeList :=
  run step new
    [.insert (.new 0 "a" (.asserted "a") (.userStatement 0) (1 / 2)),
     .insert (.new 0 "b" (.asserted "b") (.userStatement 0) (9 / 10)),
     .insert (.new 0 "c" (.asserted "c") (.userStatement 0) (1 / 10)),
     .insert (.new 0 "claim" (.asserted "read") (.userStatement 0) (9 / 10)),
     .addCausalEdge ⟨1, 1⟩ ⟨4, 1⟩ (.inferredFrom [⟨1, 1⟩, ⟨2, 1⟩]),
     .addCausalEdge ⟨1, 1⟩ ⟨4, 1⟩ (.inferredFrom [⟨1, 1⟩, ⟨3, 1⟩])]

/-- `⟨1, 1⟩` alone would have broken both -/
theorem contracted_sharedPremise : ∃ record,
    (sharedPremise.revise ⟨7, 0⟩ .id ⟨4, 1⟩ (.asserted "write") (.userStatement 1) (1 / 2)).1 =
      .ok record ∧
    sharedPremise.checkContradiction ⟨4, 1⟩ (.asserted "write") = true ∧
    ¬ MinimalHitting (CausalGraph.inferredFromPremises sharedPremise.causal ⟨4, 1⟩)
      record.contracted := by
  have hc : sharedPremise.checkContradiction ⟨4, 1⟩ (.asserted "write") = true := by
    decide +kernel
  obtain ⟨record, hr⟩ := (revise_ok_iff sharedPremise ⟨7, 0⟩ .id ⟨4, 1⟩ (.asserted "write")
    (.userStatement 1) (1 / 2)).mpr ⟨by decide +kernel, by decide +kernel, by decide +kernel⟩
  refine ⟨record, hr, hc, fun hmin => ?_⟩
  have hset : record.contracted = {⟨1, 1⟩, ⟨3, 1⟩} := by
    rw [contracted_eq_chosen hr hc]
    decide +kernel
  have hpaths : CausalGraph.inferredFromPremises sharedPremise.causal ⟨4, 1⟩ =
      [[⟨1, 1⟩, ⟨3, 1⟩], [⟨1, 1⟩, ⟨2, 1⟩]] := by decide +kernel
  rw [hset, hpaths] at hmin
  obtain ⟨ps, hps, -, hfree⟩ := hmin.needed ⟨3, 1⟩ (by decide)
  have hmiss := hfree ⟨1, 1⟩ (by decide)
  rcases List.mem_cons.mp hps with rfl | hps
  · exact hmiss (by decide)
  · rw [List.mem_singleton.mp hps] at hmiss
    exact hmiss (by decide)

end

end BeliefQuad
end Epica
