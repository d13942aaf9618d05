import Epica.Lib.KeyedIndex
import Epica.Core.RevisionLaws
import Epica.Runtime.Update

/-!
# The key index

Only `insertBelief` writes the key index; contractions and rollbacks do not.

* `key_index_sound_iff`   the index stays sound exactly in the runs that contract no belief the
                          index finds, unless the update is rolled back, and that roll back only
                          to quads in which what the index finds is held.
-/

set_option linter.unusedSectionVars false

namespace Epica
open Lib

/-! ## the keys of a quad -/

namespace BeliefQuad
section
variable {M : Type → Type} {G : Type → Type → Type} [SlotMap M] [StableDiGraph G] [Platform]

/-- the key of a live belief -/
def keyAt (q : BeliefQuad M G) (id : BeliefId) : Option String := (q.get id).map BeliefNode.key

theorem keyAt_insert (q : BeliefQuad M G) (node : BeliefNode) :
    (q.insert node).2.keyAt = Function.update q.keyAt q.nextId (some node.key) := by
  funext j
  unfold keyAt
  rw [get_insert]
  by_cases h : j = q.nextId
  · rw [if_pos h, h, Function.update_self]
    rfl
  · rw [if_neg h, Function.update_of_ne h]

theorem keyAt_nextId (q : BeliefQuad M G) : q.keyAt q.nextId = none := by
  unfold keyAt
  rw [not_live_iff.mp q.not_live_nextId]
  rfl

theorem OnlyConfidences.keyAt {q q' : BeliefQuad M G} (h : q.OnlyConfidences q') :
    q'.keyAt = q.keyAt := funext fun id => h.map BeliefNode.key (fun _ _ => rfl) id

/-- **a revision takes the keys it retracts out of the quad**, and no others -/
theorem keyAt_revise (q : BeliefQuad M G) (stamp : Stamp) (order : HashOrder BeliefId)
    (id : BeliefId) (v : BeliefValue) (p : Provenance) (c : ℚ) :
    (q.revise stamp order id v p c).2.keyAt =
      fun j => if j ∈ q.retracts id v then none else q.keyAt j := by
  funext j
  unfold keyAt
  rw [get_revise]
  split
  · rfl
  · split
    · cases q.get j <;> rfl
    · rfl

end
end BeliefQuad

/-! ## the index over the operations of a runtime -/

inductive RuntimeOp where
  | insertBelief (node : BeliefNode) (scenarios : Option (List ProspectiveEntry))
  | updateBelief (call : UpdateCall)
  | checkpoint (stamp : Stamp)
  | rollbackTo (id : CheckpointId)

namespace BeliefRuntime
section
variable {M : Type → Type} {G : Type → Type → Type} [SlotMap M] [StableDiGraph G] [Platform]

def step (rt : BeliefRuntime M G) : RuntimeOp → BeliefRuntime M G
  | .insertBelief node scenarios => (rt.insertBelief node scenarios).2
  | .updateBelief call => (rt.updateBelief call).2
  | .checkpoint stamp => (rt.checkpoint stamp).2
  | .rollbackTo id => (rt.rollbackTo id).2

/-- what `getByKey` finds is live and has that key, and every live belief's key is found -/
def IndexSound (rt : BeliefRuntime M G) : Prop := SoundIndex rt.getByKey rt.quad.keyAt

/-- `snap` holds every belief that is found by its key, under that key, and only keys that are
held now -/
structure KeysAgree (rt : BeliefRuntime M G) (snap : BeliefQuad M G) : Prop where
  kept : ∀ id key, rt.quad.keyAt id = some key → rt.getByKey key = some id →
    snap.keyAt id = some key
  known : ∀ id key, snap.keyAt id = some key → ∃ j, rt.quad.keyAt j = some key

/-- the revision of the call goes through, and a recovery then restores `snap` -/
def Recovers (rt : BeliefRuntime M G) (call : UpdateCall) (snap : BeliefQuad M G) : Prop :=
  (∃ out, (rt.revision call).1 = .ok out) ∧ RecoversTo rt.contractEngine.contracts
    (rt.revisedQuad call) (some call.checkpointStamp.uuid) snap

/-- the call retracts no belief that is found by its key -/
def RetractsUnfound (rt : BeliefRuntime M G) (call : UpdateCall) : Prop :=
  ∀ id ∈ rt.quad.retracts call.id call.value, ∀ key, rt.quad.keyAt id = some key →
    rt.getByKey key ≠ some id

/-- the condition on one operation -/
def KeepsIndex (rt : BeliefRuntime M G) : RuntimeOp → Prop
  | .insertBelief _ _ => True
  | .checkpoint _ => True
  | .rollbackTo id => ∀ snap, rt.quad.RollsBack id snap → rt.KeysAgree snap
  | .updateBelief call => rt.Admits call →
    (∀ snap, rt.Recovers call snap → rt.KeysAgree snap) ∧
      ((∀ snap, ¬ rt.Recovers call snap) → rt.RetractsUnfound call)

variable {rt : BeliefRuntime M G}

theorem sound_snap_iff (h : rt.IndexSound) (snap : BeliefQuad M G) :
    SoundIndex rt.getByKey snap.keyAt ↔ rt.KeysAgree snap := by
  rw [sound_replace_iff h]
  exact ⟨fun ⟨hkept, hknown⟩ => ⟨hkept, hknown⟩, fun ha => ⟨ha.kept, ha.known⟩⟩

theorem keyAt_revisedQuad (rt : BeliefRuntime M G) (call : UpdateCall) :
    (rt.revisedQuad call).keyAt =
      fun j => if j ∈ rt.quad.retracts call.id call.value then none else rt.quad.keyAt j := by
  rw [(rt.revisedQuad_only call).keyAt]
  exact BeliefQuad.keyAt_revise _ _ _ _ _ _ _

theorem sound_revised_iff (h : rt.IndexSound) (call : UpdateCall) :
    SoundIndex rt.getByKey (rt.revisedQuad call).keyAt ↔ rt.RetractsUnfound call := by
  rw [keyAt_revisedQuad, sound_remove_iff h fun j => j ∈ rt.quad.retracts call.id call.value]
  exact forall_congr' fun id => ⟨fun hr hm key => hr key hm, fun hr key hm => hr hm key⟩

theorem insertBelief_sound (h : rt.IndexSound) (node : BeliefNode)
    (scenarios : Option (List ProspectiveEntry)) :
    (rt.insertBelief node scenarios).2.IndexSound := by
  have hkeys : (rt.insertBelief node scenarios).2.quad.keyAt =
      Function.update rt.quad.keyAt rt.quad.nextId (some node.key) := by
    rw [← BeliefQuad.keyAt_insert]
    unfold insertBelief
    simp only
    split <;> rfl
  have hindex : (rt.insertBelief node scenarios).2.getByKey =
      Function.update rt.getByKey node.key (some rt.quad.nextId) := by
    funext key
    by_cases hk : key = node.key
    · rw [hk, Function.update_self]
      exact Finmap.lookup_insert _
    · rw [Function.update_of_ne hk]
      exact Finmap.lookup_insert_of_ne _ hk
  unfold IndexSound
  rw [hkeys, hindex]
  exact SoundIndex.insert h rt.quad.keyAt_nextId node.key

theorem rollbackTo_sound_iff (h : rt.IndexSound) (id : CheckpointId) :
    (rt.rollbackTo id).2.IndexSound ↔ ∀ snap, rt.quad.RollsBack id snap → rt.KeysAgree snap := by
  show SoundIndex rt.getByKey (rt.quad.rollbackTo id).2.keyAt ↔ _
  have hrefused : (rt.quad.rollbackTo id).2 = rt.quad →
      (∀ snap, ¬ rt.quad.RollsBack id snap) →
      (SoundIndex rt.getByKey (rt.quad.rollbackTo id).2.keyAt ↔
        ∀ snap, rt.quad.RollsBack id snap → rt.KeysAgree snap) := by
    intro hq hno
    rw [hq]
    exact iff_of_true h fun snap hs => absurd hs (hno snap)
  by_cases hs : ∃ snap, rt.quad.RollsBack id snap
  · obtain ⟨snap, hs⟩ := hs
    rw [hs.eq, sound_snap_iff h]
    refine ⟨fun ha snap' hs' => ?_, fun ha => ha snap hs⟩
    rw [show snap' = snap from (Prod.mk.inj (hs'.eq.symm.trans hs.eq)).2]
    exact ha
  · have hno : ∀ snap, ¬ rt.quad.RollsBack id snap := fun snap hsnap => hs ⟨snap, hsnap⟩
    exact hrefused (BeliefQuad.rollbackTo_of_refused hno) hno

theorem updateBelief_sound_iff (h : rt.IndexSound) (call : UpdateCall) :
    (rt.updateBelief call).2.IndexSound ↔ rt.KeepsIndex (.updateBelief call) := by
  have hindex : (rt.updateBelief call).2.getByKey = rt.getByKey := by
    unfold getByKey
    rw [updateBelief_keyIndex]
  unfold IndexSound KeepsIndex
  rw [hindex]
  rcases rt.updateBelief_cases call with
    ⟨hno, hq, -⟩ | ⟨ha, hq, e, he, -⟩ | ⟨ha, hok, hq, -⟩
  · rw [hq]
    exact iff_of_true h fun ha => absurd ha hno
  · have hnone : ∀ snap, ¬ rt.Recovers call snap := by
      intro snap hp
      obtain ⟨⟨out, hout⟩, -⟩ := hp
      rw [he] at hout
      cases hout
    rw [hq, sound_revised_iff h]
    exact ⟨fun hr _ => ⟨fun snap hs => absurd hs (hnone snap), fun _ => hr⟩,
      fun hk => (hk ha).2 hnone⟩
  · rw [hq]
    rcases rt.contractEngine.postUpdate_quad (rt.revisedQuad call)
        (some call.checkpointStamp.uuid) (rt.keyOf call.id) "system" call.auditMs with
      ⟨snap, hs, hv⟩ | ⟨hno, hv⟩
    · rw [show (rt.verdict call).2.2 = snap from hv, sound_snap_iff h]
      have hrec : rt.Recovers call snap := ⟨hok, hs⟩
      refine ⟨fun hk _ => ⟨fun snap' hs' => ?_, fun hnone => absurd hrec (hnone snap)⟩,
        fun hk => (hk ha).1 snap hrec⟩
      rw [hs'.2.unique hs]
      exact hk
    · have hnone : ∀ snap, ¬ rt.Recovers call snap := fun snap hs => hno snap hs.2
      rw [show (rt.verdict call).2.2.keyAt = (rt.revisedQuad call).keyAt from hv.keyAt,
        sound_revised_iff h]
      exact ⟨fun hr _ => ⟨fun snap hs => absurd hs (hnone snap), fun _ => hr⟩,
        fun hk => (hk ha).2 hnone⟩

/-- one operation keeps the index sound exactly when it meets the condition -/
theorem step_sound_iff (h : rt.IndexSound) (op : RuntimeOp) :
    (rt.step op).IndexSound ↔ rt.KeepsIndex op := by
  cases op with
  | insertBelief node scenarios => exact iff_of_true (insertBelief_sound h node scenarios) trivial
  | checkpoint stamp => exact iff_of_true h trivial
  | rollbackTo id => exact rollbackTo_sound_iff h id
  | updateBelief call => exact updateBelief_sound_iff h call

/-! ## the index of a new runtime -/

theorem lookup_foldl (l : List (BeliefId × BeliefNode)) (index : Finmap fun _ : String => BeliefId)
    (key : String) :
    (∀ id, (l.foldl (fun index e => index.insert e.2.key e.1) index).lookup key = some id →
      (∃ n, (id, n) ∈ l ∧ n.key = key) ∨ index.lookup key = some id) ∧
    ((∃ e ∈ l, e.2.key = key) ∨ (index.lookup key).isSome →
      ((l.foldl (fun index e => index.insert e.2.key e.1) index).lookup key).isSome) := by
  induction l generalizing index with
  | nil =>
    refine ⟨fun id h => Or.inr h, fun h => ?_⟩
    rcases h with ⟨e, he, -⟩ | h
    · exact absurd he List.not_mem_nil
    · exact h
  | cons e l ih =>
    obtain ⟨ih₁, ih₂⟩ := ih (index.insert e.2.key e.1)
    refine ⟨fun id h => ?_, fun h => ih₂ ?_⟩
    · rcases ih₁ id h with ⟨n, hn, hk⟩ | h'
      · exact Or.inl ⟨n, List.mem_cons_of_mem e hn, hk⟩
      · by_cases hk : key = e.2.key
        · rw [hk, Finmap.lookup_insert] at h'
          obtain rfl := Option.some.inj h'
          exact Or.inl ⟨e.2, List.mem_cons_self, hk.symm⟩
        · rw [Finmap.lookup_insert_of_ne _ hk] at h'
          exact Or.inr h'
    · by_cases hk : key = e.2.key
      · rw [hk, Finmap.lookup_insert]
        exact Or.inr rfl
      · rw [Finmap.lookup_insert_of_ne _ hk]
        rcases h with ⟨e', he', hk'⟩ | h
        · rcases List.mem_cons.mp he' with rfl | he'
          · exact absurd hk'.symm hk
          · exact Or.inl ⟨e', he', hk'⟩
        · exact Or.inr h

/-- an index that is collected from a quad -/
theorem soundIndex_collect (quad : BeliefQuad M G) :
    SoundIndex ((SlotMap.iter quad.nodes).foldl (fun index e => index.insert e.2.key e.1)
      (∅ : Finmap fun _ : String => BeliefId)).lookup quad.keyAt where
  found key id h := by
    rcases (lookup_foldl (SlotMap.iter quad.nodes) ∅ key).1 id h with ⟨n, hn, rfl⟩ | h'
    · have hget : quad.get id = some n := (SlotMap.mem_iter quad.nodes id n).mp hn
      show (quad.get id).map BeliefNode.key = some n.key
      rw [hget]
      rfl
    · rw [Finmap.lookup_empty] at h'
      cases h'
  indexed id key h := by
    obtain ⟨n, hn, rfl⟩ := Option.map_eq_some_iff.mp h
    have hmem : (id, n) ∈ SlotMap.iter quad.nodes := (SlotMap.mem_iter quad.nodes id n).mpr hn
    exact (lookup_foldl (SlotMap.iter quad.nodes) ∅ n.key).2 (Or.inl ⟨_, hmem, rfl⟩)

theorem build_sound (quad : BeliefQuad M G) (reliabilityBaseline : ℚ)
    (contracts : List (BehavioralContract M G)) (sovereignty : Option (MnemonicSovereignty M G))
    (llmClient : Bool) (tau : ℚ) :
    (build quad reliabilityBaseline contracts sovereignty llmClient tau).IndexSound :=
  soundIndex_collect quad

/-- **the key index stays sound in exactly the runs whose operations meet the condition** -/
theorem key_index_sound_iff (quad : BeliefQuad M G) (reliabilityBaseline : ℚ)
    (contracts : List (BehavioralContract M G)) (sovereignty : Option (MnemonicSovereignty M G))
    (llmClient : Bool) (tau : ℚ) (ops : List RuntimeOp) :
    (∀ rt, StateOf step (build quad reliabilityBaseline contracts sovereignty llmClient tau) ops
      rt → rt.IndexSound) ↔
    ∀ rt op, StepOf step (build quad reliabilityBaseline contracts sovereignty llmClient tau) ops
      rt op → rt.KeepsIndex op :=
  @forall_state_iff _ _ step (fun _ => True) IndexSound (fun _ _ => True) KeepsIndex
    (fun _ _ _ => trivial) (fun _ op _ h _ => step_sound_iff h op) _ trivial
    (build_sound quad reliabilityBaseline contracts sovereignty llmClient tau) ops
    fun _ _ _ => trivial

end

section
attribute [local instance] Platform.ascii

/-- the runtime over a fact and a claim inferred from it, whose keys differ -/
def informed : BeliefRuntime SlotVec EdgeList :=
  .build BeliefQuad.supported (1 / 2) [] none false (15 / 100)

/-- the claim is updated, which contracts the fact; the fact is still found -/
theorem key_index_stale :
    ((SlotMap.iter BeliefQuad.supported.nodes).map fun e => e.2.key).Nodup ∧
    ¬ ∀ rt, StateOf step informed
      [.updateBelief (.at 11 ⟨2, 1⟩ (.asserted "write") (1 / 2))] rt → rt.IndexSound := by
  refine ⟨by decide +kernel, fun h => ?_⟩
  have hsound := h _ (stateOf_last _ _)
  have hfound := hsound.found "fact" ⟨1, 1⟩ (by decide +kernel)
  have hgone : (run step informed
      [.updateBelief (.at 11 ⟨2, 1⟩ (.asserted "write") (1 / 2))]).quad.keyAt ⟨1, 1⟩ = none := by
    decide +kernel
  rw [hgone] at hfound
  cases hfound

end
end BeliefRuntime
end Epica
