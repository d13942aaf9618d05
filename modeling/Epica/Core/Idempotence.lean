import Epica.Core.Bounds
import Epica.Core.Extensionality

/-!
# Revising twice

A belief is `Settled` on a value, a provenance and a confidence when it holds them and, if it has a
`Contradicts` edge, every support path left has a dead premise for its weakest one.

* `Settled.revise`       revising a settled belief once more goes through and only counts the
                         version up;
* `settled_of_ok`        a revision that goes through settles the belief;
* `revise_idempotent`    so the second of two equal revisions changes nothing.
-/

set_option linter.unusedSectionVars false

namespace Epica
open Lib

theorem ProspectiveIndex.invalidate_invalidate (x : ProspectiveIndex) (id : BeliefId) :
    (x.invalidate id).invalidate id = x.invalidate id := by
  unfold invalidate
  congr 1
  refine Finmap.ext_lookup fun j => ?_
  by_cases e : j = id
  · rw [e, Finmap.lookup_erase, Finmap.lookup_erase]
  · rw [Finmap.lookup_erase_ne e]

namespace BeliefQuad
section
variable {M : Type → Type} {G : Type → Type → Type} [SlotMap M] [StableDiGraph G] [Platform]

/-- `q'` is `q` but for the version -/
structure Unchanged (q q' : BeliefQuad M G) : Prop where
  nodes : ∀ j, q'.get j = q.get j
  rest : q' = { q with nodes := q'.nodes, version := q'.version }

section
variable {q q' : BeliefQuad M G} (h : Unchanged q q')
include h

theorem Unchanged.live (j : BeliefId) : q'.Live j ↔ q.Live j := by
  unfold Live
  rw [h.nodes]

theorem Unchanged.semantic : q'.semantic = q.semantic := by rw [h.rest]
theorem Unchanged.temporal : q'.temporal = q.temporal := by rw [h.rest]
theorem Unchanged.causal : q'.causal = q.causal := by rw [h.rest]
theorem Unchanged.entity : q'.entity = q.entity := by rw [h.rest]
theorem Unchanged.prospectiveIndex : q'.prospectiveIndex = q.prospectiveIndex := by rw [h.rest]

end

variable {q : BeliefQuad M G} {id : BeliefId} {v : BeliefValue} {p : Provenance} {c : ℚ}

/-! ## the verdict on the value a belief holds -/

theorem valueContradicts_self (v : BeliefValue) : SemanticGraph.valueContradicts v v = false := by
  cases v <;> exact decide_eq_false fun h => h rfl

theorem checkContradiction_self {n : BeliefNode} (hn : q.get id = some n) :
    q.checkContradiction id n.value = SemanticGraph.hasContradictionEdges q.semantic id := by
  unfold checkContradiction checkContradictionTraced
  rw [hn]
  unfold SemanticGraph.valueContradictsSemantic
  simp only [valueContradicts_self, Bool.false_eq_true, if_false, Bool.false_or]

/-- two texts with equivalent embeddings do not contradict each other -/
theorem not_contradicts_of_equivalent {provider : EmbeddingProvider} {t t' : String}
    {a b : List ℚ} {s : ℚ} (ha : provider.embedCached t = some a)
    (hb : provider.embedCached t' = some b) {equivalence : SemanticEquivalence}
    (hs : equivalence.classify a b = .equivalent s) :
    (SemanticGraph.valueContradictsSemantic (some provider) equivalence (.asserted t)
      (.asserted t')).1 = false := by
  unfold SemanticGraph.valueContradictsSemantic
  split
  · simp only [ha, hb]
    unfold SemanticGraph.semanticVerdict
    rw [hs]
  · rfl

/-- a paraphrase of the text a belief holds is judged as that text is -/
theorem agrees_of_self {provider : EmbeddingProvider} {t : String} {a : List ℚ}
    (ha : provider.embedCached t = some a) (other : BeliefId × BeliefNode) :
    disagreesAsParaphrase q provider id (.asserted t) a
      (SemanticGraph.hasContradictionEdges q.semantic id) other = false := by
  unfold disagreesAsParaphrase
  split
  · rfl
  · split
    · rename_i t' _
      cases hb : provider.embedCached t' with
      | none => rfl
      | some b =>
        cases hs : q.equivalence.classify a b with
        | equivalent s =>
          simp only [hs, not_contradicts_of_equivalent ha hb hs, Bool.false_or, bne_self_eq_false]
        | contradicts s => simp only [hs]
        | undecided s => simp only [hs]
    · rfl

/-- **the audit lets a belief be revised to what it holds** -/
theorem audit_self {n : BeliefNode} (hn : q.get id = some n) :
    (q.auditOf id n.value).allCriticalPass = true := by
  have hverdict : (q.checkContradictionTraced id n.value).1 =
      SemanticGraph.hasContradictionEdges q.semantic id := checkContradiction_self hn
  have hconsistent : isSelfContradictory n.value = false := by
    cases n.value with
    | deterministic w => exact Bool.and_false _
    | inferred w => rfl
    | asserted w => rfl
    | reference w => rfl
  have hext : (checkExtensionality q id n.value
      (SemanticGraph.hasContradictionEdges q.semantic id)).1 = true := by
    unfold checkExtensionality
    split
    · rename_i provider t _ hv
      rw [hn]
      cases ha : provider.embedCached t with
      | none => rfl
      | some a =>
        have hnone : (SlotMap.iter q.nodes).find? (disagreesAsParaphrase q provider id n.value a
            (SemanticGraph.hasContradictionEdges q.semantic id)) = none := by
          refine List.find?_eq_none.mpr fun other _ => ?_
          rw [hv, agrees_of_self ha other]
          exact Bool.false_ne_true
        simp only [hnone]
    · rfl
  unfold auditOf PostulateAudit.verify PostulateAudit.allCriticalPass
  simp only [hverdict, hn, hconsistent, hext, Option.isSome_some, Bool.not_false, Bool.and_self]

/-! ## settled beliefs -/

structure Settled (q : BeliefQuad M G) (id : BeliefId) (v : BeliefValue) (p : Provenance)
    (c : ℚ) : Prop where
  node : ∃ n, q.get id = some n ∧ n.value = v ∧
    revisedNode (SemanticGraph.hasContradictionEdges q.semantic id) v p c n = n
  dead : SemanticGraph.hasContradictionEdges q.semantic id = true →
    ∀ ps b, CausalGraph.Supports q.causal ps id → q.weakestPremise ps = some b → ¬ q.Live b
  index : q.prospectiveIndex.invalidate id = q.prospectiveIndex

/-- removing what is not there -/
theorem removeAll_of_dead {ids : List BeliefId} (h : ∀ j ∈ ids, ¬ q.Live j) :
    q.removeAll ids = q := by
  induction ids with
  | nil => rfl
  | cons j ids ih =>
    rw [removeAll_cons, remove_of_dead (h j List.mem_cons_self)]
    exact ih fun k hk => h k (List.mem_cons_of_mem _ hk)

/-- what a settled belief would contract is dead already -/
theorem Settled.dead_of_mem (h : q.Settled id v p c) (hs : q.GraphsSynced)
    (hc : SemanticGraph.hasContradictionEdges q.semantic id = true) {b : BeliefId}
    (hb : b ∈ q.minimalContractionSet id) : ¬ q.Live b := by
  obtain ⟨ps, hps, hw⟩ := (mem_minimalContractionSet hs).mp hb
  exact h.dead hc ps b hps hw

theorem Settled.expandedBase (h : q.Settled id v p c) (hs : q.GraphsSynced)
    (order : HashOrder BeliefId) : q.expandedBase order id v = q := by
  obtain ⟨n, hn, rfl, -⟩ := h.node
  unfold BeliefQuad.expandedBase
  rw [checkContradiction_self hn]
  split
  · rename_i hc
    refine removeAll_of_dead fun j hj => h.dead_of_mem hs hc ?_
    exact (HashOrder.mem_shuffle _ _ _).mp hj
  · rfl

/-- **revising a settled belief once more** goes through, contracts nothing that lives, and only
counts the version up -/
theorem Settled.revise (h : q.Settled id v p c) (hs : q.GraphsSynced) (stamp : Stamp)
    (order : HashOrder BeliefId) : ∃ record, (q.revise stamp order id v p c).1 = .ok record ∧
      (∀ b ∈ record.contracted, ¬ q.Live b) ∧
      Unchanged q (q.revise stamp order id v p c).2 := by
  have hbase := h.expandedBase hs order
  obtain ⟨n, hn, hv, hsame⟩ := h.node
  have hself : q.checkContradiction id v = SemanticGraph.hasContradictionEdges q.semantic id := by
    rw [← hv]
    exact checkContradiction_self hn
  have hdead : ∀ b ∈ q.contractedSet id v, ¬ q.Live b := by
    intro b hb
    obtain ⟨hc, hm⟩ := (mem_contractedSet_iff b).mp hb
    exact h.dead_of_mem hs (hself ▸ hc) hm
  have hl : q.Live id := live_iff.mpr ⟨n, hn⟩
  obtain ⟨record, hr⟩ := (revise_ok_iff q stamp order id v p c).mpr
    ⟨hl, hv ▸ audit_self hn, fun hm => hdead id hm hl⟩
  obtain ⟨hset, hrev⟩ := revise_ok hr
  refine ⟨record, hr, fun b hb => hdead b (hset ▸ hb), ?_⟩
  rw [hrev.quad, hbase, hself]
  refine ⟨fun j => ?_, ?_⟩
  · rw [get_expand]
    split
    · rename_i e
      rw [e, hn, Option.map_some, hsame]
    · rfl
  · show ({ q.modify id _ with
      version := q.version + 1
      prospectiveIndex := q.prospectiveIndex.invalidate id } : BeliefQuad M G) = _
    rw [h.index]
    rfl

/-! ## a revision settles the belief -/

/-- the weakest premise of a path that has lost its weakest premise is dead -/
theorem weakestPremise_dead {q' : BeliefQuad M G} {ps : List BeliefId} {w b : BeliefId}
    (hbound : q.Bounded) (hold : ∀ j ∈ ps, q'.Live j → q'.get j = q.get j)
    (hw : q.weakestPremise ps = some w) (hgone : ¬ q'.Live w)
    (hb : q'.weakestPremise ps = some b) : ¬ q'.Live b := by
  intro hlive
  have hmw := weakestPremise_mem hw
  have hmb := weakestPremise_mem hb
  have hzero : q'.premiseConfidence w = 0 := by
    unfold premiseConfidence
    rw [not_live_iff.mp hgone]
    rfl
  have hsame : q'.premiseConfidence b = q.premiseConfidence b := by
    unfold premiseConfidence
    rw [hold b hmb hlive]
  have hnonneg : ∀ j, 0 ≤ q.premiseConfidence j := by
    intro j
    unfold premiseConfidence
    cases hj : q.get j with
    | none => exact le_refl 0
    | some n => exact (hbound j n hj).fast.1
  have hle : q'.premiseConfidence b ≤ q'.premiseConfidence w := List.le_of_mem_argmin hmw hb
  have hle' : q.premiseConfidence b ≤ q.premiseConfidence w := by
    rw [hzero, hsame] at hle
    exact hle.trans (hnonneg w)
  -- both count as `0` after the revision, so the one that comes first is taken both times
  have hfirst : ps.idxOf w ≤ ps.idxOf b := List.index_of_argmin hw hmb hle'
  have hfirst' : ps.idxOf b ≤ ps.idxOf w := by
    refine List.index_of_argmin hb hmw ?_
    rw [hzero, hsame]
    exact hnonneg b
  have he : w = b := List.idxOf_inj hmw |>.mp (Nat.le_antisymm hfirst hfirst')
  rw [he] at hgone
  exact hgone hlive

/-- what the edges of the new causal graph support, those of the old one did -/
theorem Frame.supports {q q' : BeliefQuad M G} {R : Finset BeliefId} (h : Frame q q' id R)
    {ps : List BeliefId} {d : BeliefId} (hps : CausalGraph.Supports q'.causal ps d) :
    CausalGraph.Supports q.causal ps d := by
  obtain ⟨a, ha⟩ := hps
  have hmem : (a, d, CausalEdge.inferredFrom ps) ∈ q'.causal.edges := Projection.mem_edges.mpr ha
  rw [h.causal] at hmem
  exact ⟨a, Projection.mem_edges.mp (Multiset.mem_filter.mp hmem).1⟩

/-- a belief that is contested after a revision was so before -/
theorem contradicts_of_contested (hs : q.GraphsSynced) {q' : BeliefQuad M G} (hs' : q'.GraphsSynced)
    {R : Finset BeliefId} (h : Frame q q' id R) (hl : q.Live id)
    (hc : SemanticGraph.hasContradictionEdges q'.semantic id = true) :
    q.checkContradiction id v = true := by
  obtain ⟨b, hb⟩ := (SemanticGraph.hasContradictionEdges_iff hs'.semantic id).mp hc
  have hmem : (id, b, SemanticEdge.contradicts) ∈ Projection.edges q'.semantic :=
    Projection.mem_edges.mpr hb
  rw [h.semantic] at hmem
  have hold : SemanticGraph.hasContradictionEdges q.semantic id = true :=
    (SemanticGraph.hasContradictionEdges_iff hs.semantic id).mpr
      ⟨b, Projection.mem_edges.mp (Multiset.mem_filter.mp hmem).1⟩
  obtain ⟨n, hn⟩ := live_iff.mp hl
  unfold checkContradiction checkContradictionTraced
  rw [hn]
  show (_ || SemanticGraph.hasContradictionEdges q.semantic id) = true
  rw [hold, Bool.or_true]

variable {stamp : Stamp} {order : HashOrder BeliefId} {record : RevisionRecord}

theorem settled_of_ok (hs : q.Synced) (hbound : q.Bounded)
    (hself : ∀ ps, CausalGraph.Supports q.causal ps id → id ∉ ps)
    (hr : (q.revise stamp order id v p c).1 = .ok record) :
    (q.revise stamp order id v p c).2.Settled id v p c := by
  have hframe := frame_of_ok hs.toGraphsSynced hr
  have hs' : (q.revise stamp order id v p c).2.GraphsSynced :=
    (hs.revise stamp order id v p c).toGraphsSynced
  have hl : q.Live id := ((revise_ok_iff _ _ _ _ _ _ _).mp ⟨record, hr⟩).1
  obtain ⟨hset, hrev⟩ := revise_ok hr
  refine ⟨?_, fun hc ps b hps hb => ?_, ?_⟩
  · obtain ⟨n, hn⟩ := live_iff.mp hrev.live
    have hget : (q.revise stamp order id v p c).2.get id =
        some (revisedNode (q.checkContradiction id v) v p c n) := by
      rw [hrev.quad, get_expand, if_pos rfl, hn]
      rfl
    refine ⟨_, hget, rfl, ?_⟩
    cases hc :
        SemanticGraph.hasContradictionEdges (q.revise stamp order id v p c).2.semantic id with
    | false => rfl
    | true =>
      rw [contradicts_of_contested hs.toGraphsSynced hs' hframe hl hc]
      rfl
  · have hc0 := contradicts_of_contested (v := v) hs.toGraphsSynced hs' hframe hl hc
    have hps0 := hframe.supports hps
    obtain ⟨w, hw⟩ := q.weakestPremise_isSome (List.ne_nil_of_mem (weakestPremise_mem hb))
    have hcontracted : w ∈ record.contracted := by
      rw [hset, mem_contractedSet_iff, mem_minimalContractionSet hs.toGraphsSynced]
      exact ⟨hc0, ps, hps0, hw⟩
    refine weakestPremise_dead hbound (fun j hj hjl => ?_) hw
      (fun hwl => ((hframe.live w).mp hwl).2 hcontracted) hb
    refine hframe.survivors j (fun e => ?_) ((hframe.live j).mp hjl).2
    rw [e] at hj
    exact hself ps hps0 hj
  · rw [hrev.quad]
    exact ProspectiveIndex.invalidate_invalidate _ id

end

/-- **the second of two equal revisions changes nothing** but the version: it goes through,
contracts only beliefs that are gone, and leaves every node, edge and prospective entry as it is -/
theorem revise_idempotent {M : Type → Type} {G : Type → Type → Type} [SlotMap M]
    [StableDiGraph G] [Platform] (q : BeliefQuad M G) (hs : q.Synced) (hbound : q.Bounded)
    (stamp stamp' : Stamp) (order order' : HashOrder BeliefId) (id : BeliefId) (v : BeliefValue)
    (p : Provenance) (c : ℚ) (record : RevisionRecord)
    (hself : ∀ ps, CausalGraph.Supports q.causal ps id → id ∉ ps)
    (hr : (q.revise stamp order id v p c).1 = .ok record) :
    let q' := (q.revise stamp order id v p c).2
    ∃ record', (q'.revise stamp' order' id v p c).1 = .ok record' ∧
      (∀ b ∈ record'.contracted, ¬ q'.Live b) ∧
      Unchanged q' (q'.revise stamp' order' id v p c).2 :=
  (settled_of_ok hs hbound hself hr).revise (hs.revise stamp order id v p c).toGraphsSynced
    stamp' order'

section
attribute [local instance] Platform.ascii

/-- `⟨4, 1⟩` is contested by `⟨5, 1⟩` and inferred from `⟨1, 1⟩` and `⟨2, 1⟩`, listed in both
orders, from nothing, and from `⟨3, 1⟩` and an id that is not live -/
def contested : BeliefQuad SlotVec EdgeList :=
  run step new
    [.insert (.new 0 "a" (.asserted "a") (.userStatement 0) (1 / 2)),
     .insert (.new 0 "b" (.asserted "b") (.userStatement 0) (1 / 2)),
     .insert (.new 0 "c" (.asserted "c") (.userStatement 0) 0),
     .insert (.new 0 "claim" (.asserted "read") (.userStatement 0) (9 / 10)),
     .insert (.new 0 "rival" (.asserted "write") (.userStatement 0) (9 / 10)),
     .addCausalEdge ⟨2, 1⟩ ⟨4, 1⟩ (.inferredFrom [⟨1, 1⟩, ⟨2, 1⟩]),
     .addCausalEdge ⟨2, 1⟩ ⟨4, 1⟩ (.inferredFrom [⟨2, 1⟩, ⟨1, 1⟩]),
     .addCausalEdge ⟨5, 1⟩ ⟨4, 1⟩ (.inferredFrom []),
     .addCausalEdge ⟨5, 1⟩ ⟨4, 1⟩ (.inferredFrom [⟨9, 1⟩, ⟨3, 1⟩]),
     .addSemanticEdge ⟨4, 1⟩ ⟨5, 1⟩ .contradicts]

theorem contested_synced : contested.Synced := (run_in_step _).1

theorem contested_bounded : contested.Bounded := by
  have hnodes : ∀ key t (x : ℚ),
      (BeliefNode.new 0 key (.asserted t) (.userStatement 0) x).Bounded :=
    fun _ _ x => BeliefNode.bounded_new _ _ _ _ x
  have hinserted := ((((bounded_new (M := SlotVec) (G := EdgeList)).insert (hnodes "a" "a" (1 / 2))
    |>.insert (hnodes "b" "b" (1 / 2))).insert (hnodes "c" "c" 0)).insert
    (hnodes "claim" "read" (9 / 10))).insert (hnodes "rival" "write" (9 / 10))
  exact hinserted.of_nodes rfl

/-- the claim is no premise of its own -/
theorem contested_self (ps : List BeliefId) (h : CausalGraph.Supports contested.causal ps ⟨4, 1⟩) :
    (⟨4, 1⟩ : BeliefId) ∉ ps := by
  have hall : ∀ ps ∈ CausalGraph.inferredFromPremises contested.causal ⟨4, 1⟩,
      (⟨4, 1⟩ : BeliefId) ∉ ps := by decide +kernel
  exact hall ps ((CausalGraph.mem_inferredFromPremises contested_synced.causal _ _).mpr h)

/-- the first revision of the contested claim contracts two live premises and a dead one, the
second changes nothing -/
theorem revise_idempotent_contested : ∃ record record' : RevisionRecord,
    let first := contested.revise ⟨7, 0⟩ .id ⟨4, 1⟩ (.asserted "wait") (.userStatement 1) (1 / 2)
    let again := first.2.revise ⟨8, 1⟩ .id ⟨4, 1⟩ (.asserted "wait") (.userStatement 1) (1 / 2)
    first.1 = .ok record ∧ record.contracted = {⟨1, 1⟩, ⟨2, 1⟩, ⟨9, 1⟩} ∧
      again.1 = .ok record' ∧ Unchanged first.2 again.2 := by
  obtain ⟨record, hr⟩ := (revise_ok_iff contested ⟨7, 0⟩ .id ⟨4, 1⟩ (.asserted "wait")
    (.userStatement 1) (1 / 2)).mpr ⟨by decide +kernel, by decide +kernel, by decide +kernel⟩
  obtain ⟨record', hr', -, hsame⟩ := revise_idempotent contested contested_synced contested_bounded
    ⟨7, 0⟩ ⟨8, 1⟩ .id .id ⟨4, 1⟩ (.asserted "wait") (.userStatement 1) (1 / 2) record
    contested_self hr
  refine ⟨record, record', hr, ?_, hr', hsame⟩
  rw [(revise_ok hr).1]
  decide +kernel

end
end BeliefQuad
end Epica
