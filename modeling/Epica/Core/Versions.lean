import Epica.Core.Runs
import Epica.Core.RevisionLaws

/-!
# Versions

`version` is bumped by insertions, by removals of live beliefs and by revisions, once more for each
belief they contract.  Edges are added without bumping it, a rollback restores the version of the
captured quad, and a revision that contracts reads its `fromVersion` after it has contracted.

* `version_removeAll`       removing bumps exactly when something live is removed;
* `revise_versions`         the versions in the record of a revision;
* `versions_identify_iff`   versions tell the states of a run apart, and the records of its
                            revisions are right about them, exactly when none of that happens.
-/

set_option linter.unusedSectionVars false

namespace Epica
open Lib
namespace BeliefQuad
section
variable {M : Type → Type} {G : Type → Type → Type} [SlotMap M] [StableDiGraph G] [Platform]

/-! ## what bumps the version -/

theorem version_remove (q : BeliefQuad M G) (id : BeliefId) :
    (q.remove id).2.version = if q.Live id then q.version + 1 else q.version := by
  by_cases h : q.Live id
  · obtain ⟨node, hn⟩ := live_iff.mp h
    rw [remove_of_live hn, if_pos h]
  · rw [remove_of_dead h, if_neg h]

theorem version_le_removeAll (q : BeliefQuad M G) (ids : List BeliefId) :
    q.version ≤ (q.removeAll ids).version := by
  refine removeAll_induction (fun q' => q.version ≤ q'.version) (fun q' id h => ?_)
    (Nat.le_refl _) ids
  rw [version_remove]
  split <;> omega

/-- removing bumps the version exactly when something live is removed -/
theorem version_removeAll (q : BeliefQuad M G) (ids : List BeliefId) :
    (q.removeAll ids).version = q.version ↔ ∀ id ∈ ids, ¬ q.Live id := by
  induction ids generalizing q with
  | nil => exact iff_of_true rfl fun id h => absurd h List.not_mem_nil
  | cons id ids ih =>
    rw [removeAll_cons, List.forall_mem_cons]
    by_cases h : q.Live id
    · have hle := version_le_removeAll (q.remove id).2 ids
      rw [version_remove, if_pos h] at hle
      refine iff_of_false (fun he => ?_) fun hall => hall.1 h
      omega
    · rw [remove_of_dead h, ih q]
      exact (and_iff_right h).symm

section
variable (q : BeliefQuad M G) (stamp : Stamp) (order : HashOrder BeliefId)
  (id : BeliefId) (v : BeliefValue) (p : Provenance) (c : ℚ)

/-- contracting bumps the version exactly when a weakest premise is live -/
theorem version_contracted :
    (q.contracted order id).version = q.version ↔ ∀ b ∈ q.minimalContractionSet id, ¬ q.Live b := by
  unfold contracted applyContraction
  rw [version_removeAll]
  exact forall_congr' fun b => by rw [HashOrder.mem_shuffle]

theorem version_le_contracted : q.version ≤ (q.contracted order id).version :=
  version_le_removeAll q _

theorem version_le_expandedBase : q.version ≤ (q.expandedBase order id v).version := by
  unfold expandedBase
  split
  · exact version_le_contracted q order id
  · exact Nat.le_refl _

/-- **the versions in the record of a revision**: that of the quad it expands, and the next -/
theorem revise_versions {record : RevisionRecord}
    (h : (q.revise stamp order id v p c).1 = .ok record) :
    record.fromVersion = (q.expandedBase order id v).version ∧
      record.toVersion = (q.expandedBase order id v).version + 1 ∧
      (q.revise stamp order id v p c).2.version = (q.expandedBase order id v).version + 1 := by
  obtain ⟨hl, ha, -⟩ := (revise_ok_iff q stamp order id v p c).mp ⟨record, h⟩
  unfold expandedBase
  cases hc : q.checkContradiction id v with
  | false =>
    obtain ⟨node, hn⟩ := live_iff.mp hl
    rw [revise_of_consistent q stamp order id v p c hl ha hc] at h ⊢
    unfold expandOnly at h ⊢
    rw [hn] at h ⊢
    obtain rfl := Except.ok.inj h
    exact ⟨rfl, rfl, rfl⟩
  | true =>
    rw [revise_of_contradicting q stamp order id v p c hl ha hc] at h ⊢
    unfold expandContracted at h ⊢
    rw [if_pos rfl]
    cases hn : (q.contracted order id).get id with
    | none =>
      rw [hn] at h
      cases h
    | some node =>
      rw [hn] at h
      obtain rfl := Except.ok.inj h
      exact ⟨rfl, rfl, rfl⟩

/-- no revision lowers the version -/
theorem version_le_revise : q.version ≤ (q.revise stamp order id v p c).2.version := by
  refine revise_quad stamp order id v p c q (fun q' => q.version ≤ q'.version) (Nat.le_refl _)
    (version_le_contracted q order id) fun b base hb => ?_
  exact Nat.le_succ_of_le hb

end

/-! ## the operations -/

/-- the operation is a structural change of the quad, and goes through -/
def Changes (q : BeliefQuad M G) : Op → Prop
  | .insert _ => True
  | .remove id => q.Live id
  | .addSemanticEdge src dst _ => q.Live src ∧ q.Live dst
  | .addTemporalEdge src dst _ => q.Live src ∧ q.Live dst
  | .addCausalEdge src dst _ => q.Live src ∧ q.Live dst
  | .addEntityEdge src dst _ => q.Live src ∧ q.Live dst
  | .revise stamp order id v p c => ∃ record, (q.revise stamp order id v p c).1 = .ok record
  | .rollbackTo id => ∃ snap, q.RollsBack id snap
  | .propagateSystem1 .. => False
  | .checkpoint .. => False
  | .clearCheckpoints => False
  | .setEmbeddingProvider _ => False
  | .setSemanticEquivalence _ => False
  | .indexProspective .. => False

/-- the record the operation returns, if it is a revision that goes through -/
def recordOf (q : BeliefQuad M G) : Op → Option RevisionRecord
  | .revise stamp order id v p c => (q.revise stamp order id v p c).1.toOption
  | _ => none

/-- the condition on one operation: it adds no edge between live beliefs, it is no rollback that
goes through, and if it is a revision that contradicts and goes through, it contracts nothing
live -/
def NamesAnew (q : BeliefQuad M G) : Op → Prop
  | .addSemanticEdge src dst _ => ¬ (q.Live src ∧ q.Live dst)
  | .addTemporalEdge src dst _ => ¬ (q.Live src ∧ q.Live dst)
  | .addCausalEdge src dst _ => ¬ (q.Live src ∧ q.Live dst)
  | .addEntityEdge src dst _ => ¬ (q.Live src ∧ q.Live dst)
  | .rollbackTo id => ∀ snap, ¬ q.RollsBack id snap
  | .revise stamp order id v p c => (∃ record, (q.revise stamp order id v p c).1 = .ok record) →
    q.checkContradiction id v = true → ∀ b ∈ q.minimalContractionSet id, ¬ q.Live b
  | _ => True

/-- what the versions of a run of `ops` from the empty quad are good for -/
structure VersionsIdentify (M : Type → Type) (G : Type → Type → Type) [SlotMap M]
    [StableDiGraph G] [Platform] (ops : List Op) : Prop where
  /-- every structural change takes the version up -/
  increase : ∀ (q : BeliefQuad M G) op, StepOf step new ops q op → q.Changes op →
    q.version < (q.step op).version
  /-- two states with a structural change between them have two versions -/
  distinct : ∀ pre mid post, ops = pre ++ mid ++ post →
    (∃ (q : BeliefQuad M G) (op : Op), StepOf step (run step new pre) mid q op ∧ q.Changes op) →
    (run step (new : BeliefQuad M G) pre).version ≠
      (run step (new : BeliefQuad M G) (pre ++ mid)).version
  /-- a record has the versions before and after the call -/
  records : ∀ (q : BeliefQuad M G) op record, StepOf step new ops q op →
    q.recordOf op = some record →
      record.fromVersion = q.version ∧ record.toVersion = (q.step op).version
  /-- a record spans an interval, and the intervals follow one another -/
  spans : ∀ record ∈ outputs step (fun (q : BeliefQuad M G) op => (q.recordOf op).toList) new ops,
    record.fromVersion < record.toVersion
  successive : (outputs step (fun (q : BeliefQuad M G) op => (q.recordOf op).toList) new
    ops).Pairwise fun r r' => r.toVersion ≤ r'.fromVersion

/-! ## one operation -/

variable {q : BeliefQuad M G}

/-- nothing but a rollback lowers the version -/
theorem version_le_step (op : Op) (h : ∀ id snap, op = .rollbackTo id → ¬ q.RollsBack id snap) :
    q.version ≤ (q.step op).version := by
  cases op with
  | insert node => exact Nat.le_succ q.version
  | remove id =>
    show q.version ≤ (q.remove id).2.version
    rw [version_remove]
    split <;> omega
  | revise stamp order id v p c => exact version_le_revise q stamp order id v p c
  | propagateSystem1 now order changed =>
    exact Nat.le_of_eq (propagate_only now order q changed).version.symm
  | rollbackTo id =>
    show q.version ≤ (q.rollbackTo id).2.version
    rw [rollbackTo_of_refused fun snap => h id snap rfl]
  | _ => exact Nat.le_refl q.version

theorem NamesAnew.le {op : Op} (h : q.NamesAnew op) : q.version ≤ (q.step op).version := by
  refine version_le_step op fun id snap ho => ?_
  subst ho
  exact h snap

/-- a change that meets the condition takes the version up -/
theorem NamesAnew.lt {op : Op} (h : q.NamesAnew op) (hc : q.Changes op) :
    q.version < (q.step op).version := by
  cases op with
  | insert node => exact Nat.lt_succ_self q.version
  | remove id =>
    have hl : q.Live id := hc
    show q.version < (q.remove id).2.version
    rw [version_remove, if_pos hl]
    exact Nat.lt_succ_self q.version
  | addSemanticEdge src dst edge => exact absurd hc h
  | addTemporalEdge src dst edge => exact absurd hc h
  | addCausalEdge src dst edge => exact absurd hc h
  | addEntityEdge src dst edge => exact absurd hc h
  | revise stamp order id v p c =>
    obtain ⟨record, hr⟩ := hc
    obtain ⟨-, -, hafter⟩ := revise_versions q stamp order id v p c hr
    have hle := version_le_expandedBase q order id v
    show q.version < (q.revise stamp order id v p c).2.version
    omega
  | rollbackTo id =>
    obtain ⟨snap, hs⟩ := hc
    exact absurd hs (h snap)
  | propagateSystem1 => exact absurd hc not_false
  | checkpoint => exact absurd hc not_false
  | clearCheckpoints => exact absurd hc not_false
  | setEmbeddingProvider => exact absurd hc not_false
  | setSemanticEquivalence => exact absurd hc not_false
  | indexProspective => exact absurd hc not_false

theorem eq_revise_of_recordOf {op : Op} {record : RevisionRecord}
    (h : q.recordOf op = some record) :
    ∃ stamp order id v p c, op = .revise stamp order id v p c ∧
      (q.revise stamp order id v p c).1 = .ok record := by
  cases op with
  | revise stamp order id v p c =>
    refine ⟨stamp, order, id, v, p, c, rfl, ?_⟩
    have h' : (q.revise stamp order id v p c).1.toOption = some record := h
    rcases he : (q.revise stamp order id v p c).1 with e | r
    · rw [he] at h'
      cases h'
    · rw [he] at h'
      exact congrArg Except.ok (Option.some.inj h')
  | _ => cases h

/-- the record of a revision that meets the condition has the versions before and after it -/
theorem NamesAnew.record {op : Op} (h : q.NamesAnew op) {record : RevisionRecord}
    (hr : q.recordOf op = some record) :
    record.fromVersion = q.version ∧ record.toVersion = (q.step op).version := by
  obtain ⟨stamp, order, id, v, p, c, rfl, hok⟩ := eq_revise_of_recordOf hr
  obtain ⟨hfrom, hto, hafter⟩ := revise_versions q stamp order id v p c hok
  refine ⟨hfrom.trans ?_, hto.trans hafter.symm⟩
  unfold expandedBase
  split
  · rename_i hc
    exact (version_contracted q order id).mpr (h ⟨record, hok⟩ hc)
  · rfl

/-! ## runs -/

/-- what has been captured is no newer than the quad -/
structure CapturedBelow (q : BeliefQuad M G) : Prop where
  wellFormed : q.WellFormed
  version : ∀ cp ∈ q.checkpoints, cp.quad.version ≤ q.version

theorem step_capturedBelow (q : BeliefQuad M G) (op : Op) (h : q.CapturedBelow) :
    (q.step op).CapturedBelow := by
  refine ⟨step_wellFormed q op h.wellFormed, ?_⟩
  have hsame : (q.step op).checkpoints = q.checkpoints → q.version ≤ (q.step op).version →
      ∀ cp ∈ (q.step op).checkpoints, cp.quad.version ≤ (q.step op).version := by
    intro hc hv cp hcp
    rw [hc] at hcp
    exact Nat.le_trans (h.version cp hcp) hv
  cases op with
  | insert node => exact hsame rfl (Nat.le_succ q.version)
  | remove id => exact hsame (remove_checkpoints q id) (version_le_step _ fun _ _ ho => nomatch ho)
  | revise stamp order id v p c =>
    exact hsame (revise_checkpoints stamp order id v p c) (version_le_revise q stamp order id v p c)
  | propagateSystem1 now order changed =>
    have ho := propagate_only now order q changed
    exact hsame ho.checkpoints (Nat.le_of_eq ho.version.symm)
  | checkpoint uuid nowMs =>
    intro cp hcp
    rcases List.mem_append.mp hcp with hcp | hcp
    · exact h.version cp hcp
    · rw [List.mem_singleton.mp hcp]
      exact Nat.le_refl q.version
  | rollbackTo id =>
    by_cases hs : ∃ snap, q.RollsBack id snap
    · obtain ⟨snap, hs⟩ := hs
      obtain ⟨cp, hcp, -, rfl⟩ := hs.mem
      show ∀ cp' ∈ (q.rollbackTo id).2.checkpoints, cp'.quad.version ≤ _
      rw [hs.eq, (h.wellFormed.captured cp hcp).2]
      exact fun cp' hcp' => absurd hcp' List.not_mem_nil
    · have hq : (q.rollbackTo id).2 = q :=
        rollbackTo_of_refused fun snap hsnap => hs ⟨snap, hsnap⟩
      exact hsame (congrArg _ hq) (Nat.le_of_eq (congrArg _ hq.symm))
  | clearCheckpoints => exact fun cp hcp => absurd hcp List.not_mem_nil
  | _ => exact hsame rfl (Nat.le_refl q.version)

/-- a rollback does not take the version up -/
theorem CapturedBelow.rollbackTo {snap : BeliefQuad M G} (h : q.CapturedBelow) {id : CheckpointId}
    (hs : q.RollsBack id snap) : (q.step (.rollbackTo id)).version ≤ q.version := by
  show (q.rollbackTo id).2.version ≤ q.version
  rw [hs.eq]
  obtain ⟨cp, hcp, -, rfl⟩ := hs.mem
  exact h.version cp hcp

/-- what the versions are good for asks the condition of every operation -/
theorem VersionsIdentify.namesAnew {ops : List Op} (h : VersionsIdentify M G ops) {op : Op}
    (hop : StepOf step new ops q op) : q.NamesAnew op := by
  have hbelow : q.CapturedBelow := by
    refine stateOf_invariant step_capturedBelow ⟨wellFormed_new, ?_⟩ hop.state
    exact fun cp hcp => absurd hcp List.not_mem_nil
  cases op with
  | addSemanticEdge src dst edge => exact fun hl => lt_irrefl _ (h.increase q _ hop hl)
  | addTemporalEdge src dst edge => exact fun hl => lt_irrefl _ (h.increase q _ hop hl)
  | addCausalEdge src dst edge => exact fun hl => lt_irrefl _ (h.increase q _ hop hl)
  | addEntityEdge src dst edge => exact fun hl => lt_irrefl _ (h.increase q _ hop hl)
  | rollbackTo id =>
    intro snap hs
    exact absurd (h.increase q _ hop ⟨snap, hs⟩) (Nat.not_lt.mpr (hbelow.rollbackTo hs))
  | revise stamp order id v p c =>
    intro hok hc
    obtain ⟨record, hok⟩ := hok
    obtain ⟨hfrom, -, -⟩ := revise_versions q stamp order id v p c hok
    have hrecord : q.recordOf (.revise stamp order id v p c) = some record := by
      show (q.revise stamp order id v p c).1.toOption = some record
      rw [hok]
      rfl
    have hbefore := (h.records q _ record hop hrecord).1
    rw [hfrom] at hbefore
    unfold expandedBase at hbefore
    rw [if_pos hc] at hbefore
    exact (version_contracted q order id).mp hbefore
  | _ => trivial

/-- **the versions of a run identify its states, and the records of its revisions are right about
them, exactly when every operation meets the condition** -/
theorem versions_identify_iff (ops : List Op) :
    VersionsIdentify M G ops ↔
      ∀ (q : BeliefQuad M G) op, StepOf step new ops q op → q.NamesAnew op := by
  refine ⟨fun h q op hop => h.namesAnew hop, fun hok => ?_⟩
  have hmono : ∀ (t : BeliefQuad M G) op, StepOf step new ops t op →
      t.version ≤ (t.step op).version := fun t op hop => (hok t op hop).le
  have hrecords : ∀ (q : BeliefQuad M G) op record, StepOf step new ops q op →
      q.recordOf op = some record →
        record.fromVersion = q.version ∧ record.toVersion = (q.step op).version :=
    fun q op record hop hr => (hok q op hop).record hr
  refine ⟨fun q op hop hc => (hok q op hop).lt hc, ?_, hrecords, ?_, ?_⟩
  · -- the version goes up at the change, and does not go down before or after it
    intro pre mid post hops hp
    obtain ⟨q, op, hop, hc⟩ := hp
    subst hops
    have hmid : ∀ {t : BeliefQuad M G} {a : Op}, StepOf step (run step new pre) mid t a →
        StepOf step new (pre ++ mid ++ post) t a := fun ht => StepOf.append (StepOf.drop ht) post
    have hlt := run_lt (fun t a ht => hmono t a (hmid ht)) hop ((hok q op (hmid hop)).lt hc)
    rw [run_append]
    exact Nat.ne_of_lt hlt
  · intro record hrecord
    obtain ⟨q, op, hop, hr⟩ := mem_outputs.mp hrecord
    have hr' : q.recordOf op = some record := Option.mem_toList.mp hr
    obtain ⟨hfrom, hto⟩ := hrecords q op record hop hr'
    obtain ⟨stamp, order, id, v, p, c, rfl, hrev⟩ := eq_revise_of_recordOf hr'
    have hlt := (hok q _ hop).lt ⟨record, hrev⟩
    omega
  · refine pairwise_outputs hmono (fun t op => ?_) fun t op hop record hr => ?_
    · cases t.recordOf op with
      | none => exact Nat.zero_le 1
      | some r => exact Nat.le_refl 1
    · obtain ⟨hfrom, hto⟩ := hrecords t op record hop (Option.mem_toList.mp hr)
      omega

end

section
attribute [local instance] Platform.ascii

/-- a fact and a claim, and the claim is inferred from the fact -/
def inferredClaim : List Op :=
  [.insert (.new 0 "fact" (.deterministic (.bool true)) (.userStatement 0) (4 / 5)),
   .insert (.new 0 "claim" (.asserted "read") (.userStatement 0) (9 / 10)),
   .addCausalEdge ⟨1, 1⟩ ⟨2, 1⟩ (.inferredFrom [⟨1, 1⟩])]

/-- an assertion is checkpointed, revised and rolled back -/
def rolledBack : List Op :=
  [.insert (.new 0 "claim" (.asserted "read") (.userStatement 0) (9 / 10)), .checkpoint 7 0,
   .revise ⟨8, 0⟩ .id ⟨1, 1⟩ (.asserted "write") (.userStatement 1) (1 / 2), .rollbackTo 7]

/-- the edge does not bump the version, the rollback takes it down, and a revision that contracts
the fact says that it starts at the version after the contraction -/
theorem versions_not_identifying :
    ¬ VersionsIdentify SlotVec EdgeList inferredClaim ∧
    ¬ VersionsIdentify SlotVec EdgeList rolledBack ∧
    ¬ VersionsIdentify SlotVec EdgeList (inferredClaim ++
      [.revise ⟨8, 0⟩ .id ⟨2, 1⟩ (.asserted "write") (.userStatement 1) (1 / 2)]) := by
  refine ⟨fun h => ?_, fun h => ?_, fun h => ?_⟩
  · have hedge : StepOf step (new : BeliefQuad SlotVec EdgeList) inferredClaim _ _ :=
      ⟨inferredClaim.take 2, [], rfl, rfl⟩
    exact absurd (h.increase _ _ hedge ⟨by decide +kernel, by decide +kernel⟩) (by decide +kernel)
  · have hrev : StepOf step (run step (new : BeliefQuad SlotVec EdgeList) (rolledBack.take 1))
      (rolledBack.drop 1) _ _ := ⟨[.checkpoint 7 0], [.rollbackTo 7], rfl, rfl⟩
    exact h.distinct (rolledBack.take 1) (rolledBack.drop 1) [] rfl
      ⟨_, _, hrev, (revise_ok_iff _ _ _ _ _ _ _).mpr
        ⟨by decide +kernel, by decide +kernel, by decide +kernel⟩⟩ (by decide +kernel)
  · exact absurd (h.records _ _ _ ⟨inferredClaim, [], rfl, rfl⟩ rfl).1 (by decide +kernel)

end
end BeliefQuad
end Epica
