import Epica.Lib.HashOrder
import Epica.Core.Store
import Mathlib.Data.List.MinMax

/-!
# Belief revision

`revise` follows the Levi identity: the audit of the postulates, then either `expandOnly`, or a
contraction (one premise of every `InferredFrom` edge into the belief, the weakest) and an
expansion.

A call reads the clock and draws a uuid (`Stamp`), and enumerates the contraction set, which is a
hash set, in some order (`HashOrder`).  It returns the result and the quad it leaves behind.

* `store_applyContraction`   contracting restricts the store to the other beliefs;
* `revise_cases`             everything a call can do, one case for each exit.
-/

set_option linter.unusedSectionVars false

namespace Epica
open Lib

/-- the clock reading and the fresh uuid of one call -/
structure Stamp where
  uuid : Uuid
  nowMs : Nat

inductive BeliefRevisionError where
  | beliefNotFound
  | inconsistentRevision
  | postulateViolation (postulate : String)

/-! ## the postulate audit -/

structure PostulateAudit where
  success : Bool
  inclusion : Bool
  vacuity : Bool
  consistency : Bool
  extensionality : Bool
  verdictTrace : VerdictTrace
  extensionalityWitness : Option BeliefId

/-- no value is found self-contradictory yet -/
def isSelfContradictory : BeliefValue → Bool
  | .deterministic v => v.isNull && false
  | _ => false

section
variable {M : Type → Type} {G : Type → Type → Type} [SlotMap M] [StableDiGraph G] [Platform]

/-- `other` paraphrases the text with the embedding `newEmb`, and revising `target` with it has
another verdict -/
def disagreesAsParaphrase (q : BeliefQuad M G) (provider : EmbeddingProvider) (id : BeliefId)
    (target : BeliefValue) (newEmb : List ℚ) (expectedContradicts : Bool)
    (other : BeliefId × BeliefNode) : Bool :=
  if other.1 = id then false
  else
    match other.2.value with
    | .asserted otherText =>
      match provider.embedCached otherText with
      | none => false
      | some otherEmb =>
        match q.equivalence.classify newEmb otherEmb with
        | .equivalent _ =>
          let altContradicts := (SemanticGraph.valueContradictsSemantic (some provider)
            q.equivalence target (.asserted otherText)).1
          let altTotal := altContradicts || SemanticGraph.hasContradictionEdges q.semantic id
          altTotal != expectedContradicts
        | _ => false
    | _ => false

/-- K*6: the first paraphrase in the quad whose verdict differs, if any -/
def checkExtensionality (q : BeliefQuad M G) (id : BeliefId) (newValue : BeliefValue)
    (expectedContradicts : Bool) : Bool × Option BeliefId :=
  match q.embeddingProvider, newValue with
  | some provider, .asserted newText =>
    match provider.embedCached newText, q.get id with
    | some newEmb, some targetNode =>
      match (SlotMap.iter q.nodes).find?
          (disagreesAsParaphrase q provider id targetNode.value newEmb expectedContradicts) with
      | some other => (false, some other.1)
      | none => (true, none)
    | _, _ => (true, none)
  | _, _ => (true, none)

namespace PostulateAudit

def verify (q : BeliefQuad M G) (id : BeliefId) (newValue : BeliefValue)
    (contradictsCurrent : Bool) (trace : VerdictTrace) : PostulateAudit :=
  let beliefExists := (q.get id).isSome
  let extensionality := checkExtensionality q id newValue contradictsCurrent
  { success := beliefExists
    inclusion := beliefExists
    vacuity := !contradictsCurrent
    consistency := !isSelfContradictory newValue
    extensionality := extensionality.1
    verdictTrace := trace
    extensionalityWitness := extensionality.2 }

/-- K*4 is left out: a contraction is a legitimate outcome -/
def allCriticalPass (a : PostulateAudit) : Bool :=
  a.success && a.inclusion && a.consistency && a.extensionality

def failedPostulateName (a : PostulateAudit) : String :=
  if !a.success then "K*2 (success)"
  else if !a.inclusion then "K*3 (inclusion)"
  else if !a.consistency then "K*5 (consistency)"
  else if !a.extensionality then "K*6 (extensionality)"
  else "none"

end PostulateAudit

/-! ## revise -/

structure RevisionRecord where
  revisionId : Uuid
  beliefId : BeliefId
  oldValue : BeliefValue
  newValue : BeliefValue
  oldConfidence : ℚ
  newConfidence : ℚ
  contracted : Finset BeliefId
  postulateAudit : PostulateAudit
  timestampMs : Nat
  fromVersion : Nat
  toVersion : Nat

namespace BeliefQuad

/-- the confidence a premise is judged by; a premise that is not live counts as `0` -/
def premiseConfidence (q : BeliefQuad M G) (id : BeliefId) : ℚ :=
  ((q.get id).map BeliefNode.fastConfidence).getD 0

/-- the weakest premise of one support path, the first one if there are several -/
def weakestPremise (q : BeliefQuad M G) (premises : List BeliefId) : Option BeliefId :=
  premises.argmin q.premiseConfidence

/-- the hash set of the weakest premises, as a list without repetitions -/
def minimalContractionSet (q : BeliefQuad M G) (id : BeliefId) : List BeliefId :=
  ((CausalGraph.inferredFromPremises q.causal id).filterMap q.weakestPremise).dedup

def removeAll (q : BeliefQuad M G) (ids : List BeliefId) : BeliefQuad M G :=
  ids.foldl (fun q id => (q.remove id).2) q

def applyContraction (q : BeliefQuad M G) (order : HashOrder BeliefId) (set : List BeliefId) :
    BeliefQuad M G :=
  q.removeAll (order.shuffle set)

/-- the write both ways of revising end with -/
def expand (q : BeliefQuad M G) (id : BeliefId) (f : BeliefNode → BeliefNode) : BeliefQuad M G :=
  { q.modify id f with
    version := q.version + 1
    prospectiveIndex := q.prospectiveIndex.invalidate id }

def expandOnly (q : BeliefQuad M G) (stamp : Stamp) (id : BeliefId) (newValue : BeliefValue)
    (newProvenance : Provenance) (newConfidence : ℚ) (audit : PostulateAudit) :
    Except BeliefRevisionError RevisionRecord × BeliefQuad M G :=
  match q.get id with
  | none => (.error .beliefNotFound, q)
  | some node =>
    let q' := q.expand id fun n => { n with
      value := newValue
      provenance := newProvenance
      fastConfidence := clamp newConfidence 0 1 }
    (.ok {
      revisionId := stamp.uuid
      beliefId := id
      oldValue := node.value
      newValue := newValue
      oldConfidence := node.fastConfidence
      newConfidence := newConfidence
      contracted := ∅
      postulateAudit := audit
      timestampMs := stamp.nowMs
      fromVersion := q.version
      toVersion := q'.version }, q')

/-- the second half of a contracting revision, on the contracted quad -/
def expandContracted (q : BeliefQuad M G) (stamp : Stamp) (id : BeliefId)
    (newValue : BeliefValue) (newProvenance : Provenance) (newConfidence : ℚ)
    (contractionSet : List BeliefId) (audit : PostulateAudit) :
    Except BeliefRevisionError RevisionRecord × BeliefQuad M G :=
  match q.get id with
  | none => (.error .beliefNotFound, q)
  | some node =>
    -- System 2 must reflect again on the new value
    let q' := q.expand id fun n => { n with
      value := newValue
      provenance := newProvenance
      fastConfidence := clamp newConfidence 0 1
      slowConfidence := none }
    (.ok {
      revisionId := stamp.uuid
      beliefId := id
      oldValue := node.value
      newValue := newValue
      oldConfidence := node.fastConfidence
      newConfidence := newConfidence
      contracted := contractionSet.toFinset
      postulateAudit := audit
      timestampMs := stamp.nowMs
      fromVersion := q.version
      toVersion := q'.version }, q')

def revise (q : BeliefQuad M G) (stamp : Stamp) (order : HashOrder BeliefId) (id : BeliefId)
    (newValue : BeliefValue) (newProvenance : Provenance) (newConfidence : ℚ) :
    Except BeliefRevisionError RevisionRecord × BeliefQuad M G :=
  match q.get id with
  | none => (.error .beliefNotFound, q)
  | some _ =>
    let verdict := q.checkContradictionTraced id newValue
    let audit := PostulateAudit.verify q id newValue verdict.1 verdict.2
    if !audit.allCriticalPass then
      (.error (.postulateViolation audit.failedPostulateName), q)
    else if !verdict.1 then
      q.expandOnly stamp id newValue newProvenance newConfidence audit
    else
      let contractionSet := q.minimalContractionSet id
      (q.applyContraction order contractionSet).expandContracted stamp id newValue newProvenance
        newConfidence contractionSet audit

/-! ## the contraction set -/

/-- **what is contracted: the weakest premise of some support path** -/
theorem mem_minimalContractionSet {q : BeliefQuad M G} (h : q.GraphsSynced) {id b : BeliefId} :
    b ∈ q.minimalContractionSet id ↔
      ∃ ps, CausalGraph.Supports q.causal ps id ∧ q.weakestPremise ps = some b := by
  unfold minimalContractionSet
  rw [List.mem_dedup, List.mem_filterMap]
  simp only [CausalGraph.mem_inferredFromPremises h.causal]

theorem weakestPremise_mem {q : BeliefQuad M G} {ps : List BeliefId} {b : BeliefId}
    (h : q.weakestPremise ps = some b) : b ∈ ps := List.argmin_mem h

theorem weakestPremise_isSome (q : BeliefQuad M G) {ps : List BeliefId} (h : ps ≠ []) :
    ∃ b, q.weakestPremise ps = some b := by
  cases e : q.weakestPremise ps with
  | some b => exact ⟨b, rfl⟩
  | none => exact absurd (List.argmin_eq_none.mp e) h

/-! ## contracting -/

theorem removeAll_cons (q : BeliefQuad M G) (id : BeliefId) (ids : List BeliefId) :
    q.removeAll (id :: ids) = (q.remove id).2.removeAll ids := rfl

/-- what every single removal keeps, `removeAll` keeps -/
theorem removeAll_induction (Inv : BeliefQuad M G → Prop)
    (hstep : ∀ q id, Inv q → Inv (q.remove id).2) {q : BeliefQuad M G} (hq : Inv q)
    (ids : List BeliefId) : Inv (q.removeAll ids) := by
  induction ids generalizing q with
  | nil => exact hq
  | cons id ids ih => exact ih (hstep q id hq)

theorem get_removeAll (q : BeliefQuad M G) (ids : List BeliefId) (j : BeliefId) :
    (q.removeAll ids).get j = if j ∈ ids then none else q.get j := by
  induction ids generalizing q with
  | nil => rw [if_neg List.not_mem_nil]; rfl
  | cons id ids ih =>
    rw [removeAll_cons, ih, get_remove]
    by_cases h : j ∈ ids
    · rw [if_pos h, if_pos (List.mem_cons_of_mem _ h)]
    · rw [if_neg h]
      by_cases e : j = id
      · rw [if_pos e, if_pos (by rw [e]; exact List.mem_cons_self)]
      · rw [if_neg e, if_neg (fun hm => (List.mem_cons.mp hm).elim e h)]

theorem GraphsSynced.removeAll {q : BeliefQuad M G} (h : q.GraphsSynced) (ids : List BeliefId) :
    (q.removeAll ids).GraphsSynced :=
  removeAll_induction _ (fun _ id h => h.remove id) h ids

theorem Synced.removeAll {q : BeliefQuad M G} (h : q.Synced) (ids : List BeliefId) :
    (q.removeAll ids).Synced :=
  removeAll_induction _ (fun _ id h => h.remove id) h ids

theorem store_removeAll {q : BeliefQuad M G} (h : q.GraphsSynced) (ids : List BeliefId) :
    (q.removeAll ids).store = q.store.restrict fun j => j ∉ ids := by
  induction ids generalizing q with
  | nil => exact (q.store.restrict_of_all _ fun _ => List.not_mem_nil).symm
  | cons id ids ih =>
    rw [removeAll_cons, ih (h.remove id), store_remove h, Store.restrict_restrict]
    refine Store.restrict_congr _ _ _ fun j => ?_
    rw [List.mem_cons, not_or, and_comm]

section
variable (q : BeliefQuad M G) (order : HashOrder BeliefId) (set : List BeliefId)

theorem get_applyContraction (j : BeliefId) :
    (q.applyContraction order set).get j = if j ∈ set then none else q.get j := by
  unfold applyContraction
  rw [get_removeAll]
  simp only [HashOrder.mem_shuffle]

theorem live_applyContraction (j : BeliefId) :
    (q.applyContraction order set).Live j ↔ q.Live j ∧ j ∉ set := by
  unfold Live
  rw [get_applyContraction]
  by_cases h : j ∈ set <;> simp [h]

variable {q}

theorem Synced.applyContraction (h : q.Synced) : (q.applyContraction order set).Synced :=
  h.removeAll _

/-- **contracting restricts the store, in whatever order the set is enumerated** -/
theorem store_applyContraction (h : q.GraphsSynced) :
    (q.applyContraction order set).store = q.store.restrict fun j => j ∉ set := by
  unfold BeliefQuad.applyContraction
  rw [store_removeAll h]
  exact Store.restrict_congr _ _ _ fun j => by rw [HashOrder.mem_shuffle]

@[simp] theorem applyContraction_checkpoints :
    (q.applyContraction order set).checkpoints = q.checkpoints :=
  removeAll_induction (fun q' => q'.checkpoints = q.checkpoints)
    (fun q' id h => (remove_checkpoints q' id).trans h) rfl _

end

/-! ## expanding -/

section
variable (q : BeliefQuad M G) (id : BeliefId) (f : BeliefNode → BeliefNode)

theorem get_expand (j : BeliefId) :
    (q.expand id f).get j = if j = id then (q.get j).map f else q.get j := get_modify q id f j

theorem live_expand (j : BeliefId) : (q.expand id f).Live j ↔ q.Live j := live_modify q id f j

theorem store_expand : (q.expand id f).store = q.store.assign id f := store_modify q id f

theorem Synced.expand {q : BeliefQuad M G} (h : q.Synced) (id : BeliefId)
    {f : BeliefNode → BeliefNode} (hf : ∀ n, (f n).id = n.id) : (q.expand id f).Synced :=
  (h.modify id hf).of_parts rfl rfl rfl rfl rfl

end

/-! ## the exits of revise -/

/-- the audit a revision of `id` to `v` is judged by -/
def auditOf (q : BeliefQuad M G) (id : BeliefId) (v : BeliefValue) : PostulateAudit :=
  PostulateAudit.verify q id v (q.checkContradictionTraced id v).1
    (q.checkContradictionTraced id v).2

/-- the quad a contracting revision of `id` has contracted -/
def contracted (q : BeliefQuad M G) (order : HashOrder BeliefId) (id : BeliefId) :
    BeliefQuad M G :=
  q.applyContraction order (q.minimalContractionSet id)

variable (q : BeliefQuad M G) (stamp : Stamp) (order : HashOrder BeliefId) (id : BeliefId)
  (v : BeliefValue) (p : Provenance) (c : ℚ)

theorem revise_of_dead (h : ¬ q.Live id) :
    q.revise stamp order id v p c = (.error .beliefNotFound, q) := by
  unfold revise
  rw [not_live_iff.mp h]

theorem revise_of_rejected (h : q.Live id) (ha : (q.auditOf id v).allCriticalPass = false) :
    q.revise stamp order id v p c =
      (.error (.postulateViolation (q.auditOf id v).failedPostulateName), q) := by
  obtain ⟨node, hn⟩ := live_iff.mp h
  have ha' : (!(q.auditOf id v).allCriticalPass) = true := by rw [ha]; rfl
  unfold revise
  rw [hn]
  exact if_pos ha'

theorem revise_of_consistent (h : q.Live id) (ha : (q.auditOf id v).allCriticalPass = true)
    (hc : q.checkContradiction id v = false) :
    q.revise stamp order id v p c = q.expandOnly stamp id v p c (q.auditOf id v) := by
  obtain ⟨node, hn⟩ := live_iff.mp h
  have ha' : ¬ (!(q.auditOf id v).allCriticalPass) = true := by rw [ha]; simp
  have hc' : (!(q.checkContradictionTraced id v).1) = true := by
    rw [show (q.checkContradictionTraced id v).1 = false from hc]
    rfl
  unfold revise
  rw [hn]
  exact (if_neg ha').trans (if_pos hc')

theorem revise_of_contradicting (h : q.Live id) (ha : (q.auditOf id v).allCriticalPass = true)
    (hc : q.checkContradiction id v = true) :
    q.revise stamp order id v p c = (q.contracted order id).expandContracted stamp id v p c
      (q.minimalContractionSet id) (q.auditOf id v) := by
  obtain ⟨node, hn⟩ := live_iff.mp h
  have ha' : ¬ (!(q.auditOf id v).allCriticalPass) = true := by rw [ha]; simp
  have hc' : ¬ (!(q.checkContradictionTraced id v).1) = true := by
    rw [show (q.checkContradictionTraced id v).1 = true from hc]
    simp
  unfold revise
  rw [hn]
  exact (if_neg ha').trans (if_neg hc')

/-- the node a revision that goes through leaves at `id` -/
def revisedNode (contracting : Bool) (v : BeliefValue) (p : Provenance) (c : ℚ)
    (n : BeliefNode) : BeliefNode :=
  { n with
    value := v
    provenance := p
    fastConfidence := clamp c 0 1
    slowConfidence := if contracting then none else n.slowConfidence }

/-- a revision that goes through: the quad it expands, and the premises it has contracted -/
structure Revised (result : Except BeliefRevisionError RevisionRecord × BeliefQuad M G)
    (contracting : Bool) (base : BeliefQuad M G) (set : Finset BeliefId) : Prop where
  ok : ∃ record, result.1 = .ok record ∧ record.contracted = set ∧ record.beliefId = id
  quad : result.2 = base.expand id (revisedNode contracting v p c)
  live : base.Live id

/-- **everything a call of `revise` can do** -/
theorem revise_cases :
    (¬ q.Live id ∧ q.revise stamp order id v p c = (.error .beliefNotFound, q)) ∨
    (q.Live id ∧ (q.auditOf id v).allCriticalPass = false ∧ q.revise stamp order id v p c =
      (.error (.postulateViolation (q.auditOf id v).failedPostulateName), q)) ∨
    (q.Live id ∧ (q.auditOf id v).allCriticalPass = true ∧ q.checkContradiction id v = false ∧
      Revised id v p c (q.revise stamp order id v p c) false q ∅) ∨
    (q.Live id ∧ (q.auditOf id v).allCriticalPass = true ∧ q.checkContradiction id v = true ∧
      id ∈ q.minimalContractionSet id ∧
      q.revise stamp order id v p c = (.error .beliefNotFound, q.contracted order id)) ∨
    (q.Live id ∧ (q.auditOf id v).allCriticalPass = true ∧ q.checkContradiction id v = true ∧
      id ∉ q.minimalContractionSet id ∧
      Revised id v p c (q.revise stamp order id v p c) true (q.contracted order id)
        (q.minimalContractionSet id).toFinset) := by
  by_cases hl : q.Live id
  · cases ha : (q.auditOf id v).allCriticalPass with
    | false =>
      exact Or.inr (Or.inl ⟨hl, rfl, revise_of_rejected q stamp order id v p c hl ha⟩)
    | true =>
      cases hc : q.checkContradiction id v with
      | false =>
        refine Or.inr (Or.inr (Or.inl ⟨hl, rfl, rfl, ?_⟩))
        obtain ⟨node, hn⟩ := live_iff.mp hl
        rw [revise_of_consistent q stamp order id v p c hl ha hc]
        unfold expandOnly
        rw [hn]
        exact ⟨⟨_, rfl, rfl, rfl⟩, rfl, hl⟩
      | true =>
        rw [revise_of_contradicting q stamp order id v p c hl ha hc]
        by_cases hm : id ∈ q.minimalContractionSet id
        · refine Or.inr (Or.inr (Or.inr (Or.inl ⟨hl, rfl, rfl, hm, ?_⟩)))
          have hd : (q.contracted order id).get id = none := by
            unfold contracted
            rw [get_applyContraction, if_pos hm]
          unfold expandContracted
          rw [hd]
        · refine Or.inr (Or.inr (Or.inr (Or.inr ⟨hl, rfl, rfl, hm, ?_⟩)))
          have hlive : (q.contracted order id).Live id :=
            (live_applyContraction q order _ id).mpr ⟨hl, hm⟩
          obtain ⟨node, hn⟩ := live_iff.mp hlive
          unfold expandContracted
          rw [hn]
          exact ⟨⟨_, rfl, rfl, rfl⟩, rfl, hlive⟩
  · exact Or.inl ⟨hl, revise_of_dead q stamp order id v p c hl⟩

end BeliefQuad
end
end Epica
