import Epica.Core.Runs

/-!
# What a run remembers: checkpoints and ids

Runs with two ghost records beside the quad: the checkpoints captured since the last
`clearCheckpoints`, and the ids the inserts have returned.

* `history_kept_iff`   a rollback restores what was captured; every captured checkpoint stays
                       findable exactly in the runs in which no rollback goes through, since a
                       rollback that does throws the whole history away;
* `ids_distinct`       inserts return distinct ids in the runs whose rollbacks restore only slot
                       maps that have issued every key issued since.
-/

set_option linter.unusedSectionVars false

namespace Epica
open Lib

namespace BeliefQuad
section
variable {M : Type → Type} {G : Type → Type → Type} [SlotMap M] [StableDiGraph G] [Platform]

/-! ## the checkpoints of a quad along a step -/

/-- operations other than these leave the checkpoints alone -/
theorem step_checkpoints (q : BeliefQuad M G) (op : Op) : (q.step op).checkpoints =
    match op with
    | .checkpoint uuid nowMs => q.checkpoints ++ [q.capture uuid nowMs]
    | .rollbackTo id => (q.rollbackTo id).2.checkpoints
    | .clearCheckpoints => []
    | _ => q.checkpoints := by
  cases op with
  | remove id => exact remove_checkpoints q id
  | revise stamp order id v p c => exact revise_checkpoints stamp order id v p c
  | propagateSystem1 now order changed => exact (propagate_only now order q changed).checkpoints
  | _ => rfl

/-- after a rollback that goes through there are no checkpoints -/
theorem RollsBack.checkpoints {q snap : BeliefQuad M G} {id : CheckpointId} (h : q.WellFormed)
    (hr : q.RollsBack id snap) : (q.rollbackTo id).2.checkpoints = [] := by
  obtain ⟨cp, hcp, -, rfl⟩ := hr.mem
  rw [hr.eq]
  exact (h.captured cp hcp).2

/-! ## the captured checkpoints -/

/-- a quad, and what has been captured since the last clearing -/
structure Tracked (M : Type → Type) (G : Type → Type → Type) where
  quad : BeliefQuad M G
  history : List (BeliefQuadCheckpoint M G)

namespace Tracked

def start : Tracked M G := ⟨new, []⟩

def step (t : Tracked M G) (op : Op) : Tracked M G where
  quad := t.quad.step op
  history :=
    match op with
    | .checkpoint uuid nowMs => t.history ++ [t.quad.capture uuid nowMs]
    | .clearCheckpoints => []
    | _ => t.history

/-- the uuids the checkpoints of a run draw -/
def drawn (ops : List Op) : List Uuid :=
  ops.filterMap fun
    | .checkpoint uuid _ => some uuid
    | _ => none

/-- every captured checkpoint is found, and a rollback to it does not miss it -/
def Retained (t : Tracked M G) : Prop :=
  ∀ cp ∈ t.history, t.quad.checkpointById cp.id = some cp ∧
    ∀ id, (t.quad.rollbackTo cp.id).1 ≠ .error (.checkpointNotFound id)

/-- if `op` is a rollback that goes through, it restores what its checkpoint captured -/
def Restores (t : Tracked M G) (op : Op) : Prop :=
  ∀ id diff, op = .rollbackTo id → (t.quad.rollbackTo id).1 = .ok diff →
    ∃ cp ∈ t.history, cp.id = id ∧ (t.quad.step op).nodes = cp.quad.nodes ∧
      (t.quad.step op).semantic = cp.quad.semantic ∧
      (t.quad.step op).temporal = cp.quad.temporal ∧ (t.quad.step op).causal = cp.quad.causal ∧
      (t.quad.step op).entity = cp.quad.entity ∧
      (t.quad.step op).prospectiveIndex = cp.quad.prospectiveIndex

/-- `op` is a rollback that goes through -/
def GoesThrough (t : Tracked M G) (op : Op) : Prop :=
  ∃ id snap, op = .rollbackTo id ∧ t.quad.RollsBack id snap

structure Inv (t : Tracked M G) : Prop where
  wellFormed : t.quad.WellFormed
  recorded : ∀ cp ∈ t.quad.checkpoints, cp ∈ t.history

theorem inv_start : (start : Tracked M G).Inv :=
  ⟨wellFormed_new, fun _ h => absurd h List.not_mem_nil⟩

theorem inv_step (t : Tracked M G) (op : Op) (h : t.Inv) : (t.step op).Inv := by
  refine ⟨step_wellFormed t.quad op h.wellFormed, fun cp hcp => ?_⟩
  have hcp' : cp ∈ (t.quad.step op).checkpoints := hcp
  rw [step_checkpoints] at hcp'
  cases op with
  | checkpoint uuid nowMs =>
    rcases List.mem_append.mp hcp' with hcp' | hcp'
    · exact List.mem_append_left _ (h.recorded cp hcp')
    · exact List.mem_append_right _ hcp'
  | clearCheckpoints => exact absurd hcp' List.not_mem_nil
  | rollbackTo id =>
    replace hcp' : cp ∈ (t.quad.rollbackTo id).2.checkpoints := hcp'
    rcases Classical.em (∃ snap, t.quad.RollsBack id snap) with ⟨snap, hs⟩ | hno
    · rw [hs.checkpoints h.wellFormed] at hcp'
      exact absurd hcp' List.not_mem_nil
    · rw [rollbackTo_of_refused fun snap hs => hno ⟨snap, hs⟩] at hcp'
      exact h.recorded cp hcp'
  | _ => exact h.recorded cp hcp'

theorem retained_iff {t : Tracked M G} :
    t.Retained ↔ ∀ cp ∈ t.history, t.quad.checkpointById cp.id = some cp := by
  refine forall₂_congr fun cp _ => and_iff_left_of_imp fun hf id hid => ?_
  rcases t.quad.rollbackTo_cases cp.id with ⟨hn, -⟩ | ⟨cp', -, -, e⟩ | ⟨snap, -, e⟩
  · rw [hn] at hf
    cases hf
  · rw [e] at hid
    cases hid
  · rw [e] at hid
    cases hid

/-- one step keeps the history findable exactly when it is not a rollback that goes through -/
theorem retained_step_iff {t : Tracked M G} {op : Op} (h : t.Inv) (hr : t.Retained)
    (hfresh : ∀ uuid nowMs, op = .checkpoint uuid nowMs → uuid ∉ t.history.map (·.id)) :
    (t.step op).Retained ↔ ¬ t.GoesThrough op := by
  rw [retained_iff] at hr ⊢
  have hkeep : (t.step op).quad.checkpoints = t.quad.checkpoints →
      (t.step op).history = t.history →
      ∀ cp ∈ (t.step op).history, (t.step op).quad.checkpointById cp.id = some cp := by
    intro hc hh cp hcp
    rw [hh] at hcp
    unfold checkpointById
    rw [hc]
    exact hr cp hcp
  cases op with
  | checkpoint uuid nowMs =>
    refine iff_of_true ?_ (by rintro ⟨id, snap, hop, -⟩; cases hop)
    intro cp hcp
    rcases List.mem_append.mp hcp with hcp | hcp
    · exact checkpointById_checkpoint (hr cp hcp) uuid nowMs
    · rw [List.mem_singleton.mp hcp]
      refine checkpointById_checkpoint_self (fun c hc he => ?_) nowMs
      exact hfresh uuid nowMs rfl (List.mem_map.mpr ⟨c, h.recorded c hc, he⟩)
  | clearCheckpoints =>
    refine iff_of_true ?_ (by rintro ⟨id, snap, hop, -⟩; cases hop)
    exact fun cp hcp => absurd hcp List.not_mem_nil
  | rollbackTo id =>
    constructor
    · intro hfound hp
      obtain ⟨id', snap, hop, hs⟩ := hp
      obtain rfl := Op.rollbackTo.inj hop
      obtain ⟨cp, hcp, -, -⟩ := hs.mem
      have hf := hfound cp (h.recorded cp hcp)
      have hmem := (mem_of_checkpointById hf).1
      rw [show (t.step (.rollbackTo id)).quad.checkpoints = [] from
        hs.checkpoints h.wellFormed] at hmem
      exact absurd hmem List.not_mem_nil
    · intro hno
      refine hkeep ?_ rfl
      exact congrArg checkpoints
        (rollbackTo_of_refused fun snap hs => hno ⟨id, snap, rfl, hs⟩)
  | _ =>
    exact iff_of_true (hkeep (step_checkpoints t.quad _) rfl)
      (by rintro ⟨id, snap, hop, -⟩; cases hop)

/-- what is in the history was drawn by the run -/
theorem history_drawn (ops : List Op) :
    ∀ cp ∈ (run step (start : Tracked M G) ops).history, cp.id ∈ drawn ops := by
  induction ops using List.reverseRecOn with
  | nil => exact fun cp h => absurd h List.not_mem_nil
  | append_singleton ops op ih =>
    intro cp hcp
    unfold drawn at ih ⊢
    rw [run_concat] at hcp
    rw [List.filterMap_append, List.mem_append]
    cases op with
    | checkpoint uuid nowMs =>
      rcases List.mem_append.mp hcp with hcp | hcp
      · exact Or.inl (ih cp hcp)
      · rw [List.mem_singleton.mp hcp]
        exact Or.inr (List.mem_singleton.mpr rfl)
    | clearCheckpoints => exact absurd hcp List.not_mem_nil
    | _ => exact Or.inl (ih cp hcp)

/-- in a run that draws no uuid twice, every checkpoint gets one that is not in the history -/
theorem fresh_of_nodup {ops : List Op} (h : (drawn ops).Nodup) {t : Tracked M G} {op : Op}
    (ht : StepOf step start ops t op) :
    ∀ uuid nowMs, op = .checkpoint uuid nowMs → uuid ∉ t.history.map (·.id) := by
  rintro uuid nowMs rfl hmem
  obtain ⟨pre, post, rfl, rfl⟩ := ht
  obtain ⟨cp, hcp, rfl⟩ := List.mem_map.mp hmem
  have hpre := history_drawn pre cp hcp
  unfold drawn at h hpre
  rw [List.filterMap_append, List.nodup_append] at h
  exact h.2.2 _ hpre _ List.mem_cons_self rfl

theorem restores_of_inv {t : Tracked M G} (h : t.Inv) (op : Op) : t.Restores op := by
  rintro id diff rfl hok
  rcases t.quad.rollbackTo_cases id with ⟨-, e⟩ | ⟨cp, -, -, e⟩ | ⟨snap, hs, e⟩
  · rw [e] at hok
    cases hok
  · rw [e] at hok
    cases hok
  · obtain ⟨cp, hcp, hid, rfl⟩ := hs.mem
    refine ⟨cp, h.recorded cp hcp, hid, ?_⟩
    have hq : t.quad.step (.rollbackTo id) = cp.quad := by
      show (t.quad.rollbackTo id).2 = _
      rw [e]
    rw [hq]
    exact ⟨rfl, rfl, rfl, rfl, rfl, rfl⟩

end Tracked

/-- **the checkpoint history survives exactly the runs in which no rollback goes through** -/
theorem history_kept_iff (ops : List Op) (hfresh : (Tracked.drawn ops).Nodup) :
    ((∀ (t : Tracked M G) op, StepOf Tracked.step .start ops t op → t.Restores op) ∧
      ∀ t : Tracked M G, StateOf Tracked.step .start ops t → t.Retained) ↔
    ∀ (t : Tracked M G) op, StepOf Tracked.step .start ops t op → ¬ t.GoesThrough op := by
  have hinv : ∀ t : Tracked M G, StateOf Tracked.step .start ops t → t.Inv :=
    fun t => stateOf_invariant Tracked.inv_step Tracked.inv_start
  rw [and_iff_right fun t op ht => Tracked.restores_of_inv (hinv t ht.state) op]
  exact forall_state_iff Tracked.inv_step
    (fun t op h hr hpre => Tracked.retained_step_iff h hr hpre) Tracked.inv_start
    (fun cp hcp => absurd hcp List.not_mem_nil) ops fun t op ht => Tracked.fresh_of_nodup hfresh ht

end

section
attribute [local instance] Platform.ascii

/-- a run that captures twice and rolls nothing back -/
theorem history_kept_captures :
    (∀ (t : Tracked SlotVec EdgeList) op, StepOf Tracked.step .start
      [.checkpoint 1 0, .checkpoint 2 0] t op → t.Restores op) ∧
    ∀ t : Tracked SlotVec EdgeList, StateOf Tracked.step .start
      [.checkpoint 1 0, .checkpoint 2 0] t → t.Retained := by
  refine (history_kept_iff _ (by decide)).mpr fun t op ht => ?_
  intro hp
  obtain ⟨id, snap, rfl, -⟩ := hp
  rcases stepOf_cons.mp ht with ⟨-, h⟩ | ht
  · cases h
  · rcases stepOf_cons.mp ht with ⟨-, h⟩ | ht
    · cases h
    · exact not_stepOf_nil ht

/-- capture, insert, roll back -/
def rollbackRun : List Op :=
  [.checkpoint 1 0, .insert (.new 0 "a" (.asserted "a") (.userStatement 0) 1), .rollbackTo 1]

/-- the rollback goes through, and the checkpoint it went to is not found again -/
theorem history_lost : (Tracked.drawn rollbackRun).Nodup ∧
    ¬ ((∀ (t : Tracked SlotVec EdgeList) op, StepOf Tracked.step .start rollbackRun t op →
        t.Restores op) ∧
      ∀ t : Tracked SlotVec EdgeList, StateOf Tracked.step .start rollbackRun t →
        t.Retained) := by
  refine ⟨by decide, fun h => ?_⟩
  have hr := h.2 _ (stateOf_last _ _)
  have hhist : (run Tracked.step (Tracked.start : Tracked SlotVec EdgeList)
      rollbackRun).history = [(new : BeliefQuad SlotVec EdgeList).capture 1 0] := rfl
  have hfound := (hr _ (by rw [hhist]; exact List.mem_cons_self)).1
  have hnone : ((run Tracked.step (Tracked.start : Tracked SlotVec EdgeList)
      rollbackRun).quad.checkpointById 1).isNone = true := by decide +kernel
  rw [show (run Tracked.step (Tracked.start : Tracked SlotVec EdgeList)
      rollbackRun).quad.checkpointById 1 = some _ from hfound] at hnone
  cases hnone

end

/-! ## the ids the inserts return -/

section
variable {M : Type → Type} {G : Type → Type → Type} [SlotMap M] [StableDiGraph G] [Platform]

/-- `k` was handed out by the slot map of `q` -/
def Issued (q : BeliefQuad M G) (k : BeliefId) : Prop := SlotMap.Issued q.nodes k

/-- if `op` is a rollback that goes through, the restored slot map has issued all keys that the
current one has -/
def KeepsIssued (q : BeliefQuad M G) (op : Op) : Prop :=
  ∀ id snap, op = .rollbackTo id → q.RollsBack id snap → ∀ k, q.Issued k → snap.Issued k

theorem issued_remove (q : BeliefQuad M G) (id k : BeliefId) :
    (q.remove id).2.Issued k ↔ q.Issued k := by
  by_cases h : q.Live id
  · obtain ⟨node, hn⟩ := live_iff.mp h
    rw [remove_of_live hn]
    exact SlotMap.issued_remove q.nodes id k
  · rw [remove_of_dead h]

theorem issued_revise (q : BeliefQuad M G) (stamp : Stamp) (order : HashOrder BeliefId)
    (id : BeliefId) (v : BeliefValue) (p : Provenance) (c : ℚ) (k : BeliefId) :
    (q.revise stamp order id v p c).2.Issued k ↔ q.Issued k :=
  revise_quad stamp order id v p c q (fun q' => q'.Issued k ↔ q.Issued k) Iff.rfl
    (removeAll_induction _ (fun q' j h => (issued_remove q' j k).trans h) Iff.rfl _)
    fun _ base hb => (SlotMap.issued_modify base.nodes id _ k).trans hb

/-- no key is forgotten, unless a rollback forgets it -/
theorem issued_step {q : BeliefQuad M G} {op : Op} (h : q.KeepsIssued op) {k : BeliefId}
    (hk : q.Issued k) : (q.step op).Issued k := by
  cases op with
  | insert node => exact (SlotMap.issued_insert q.nodes _ k).mpr (Or.inl hk)
  | remove id => exact (issued_remove q id k).mpr hk
  | revise stamp order id v p c => exact (issued_revise q stamp order id v p c k).mpr hk
  | propagateSystem1 now order changed =>
    exact ((propagate_only now order q changed).issued k).mpr hk
  | rollbackTo id =>
    rcases q.rollbackTo_cases id with ⟨-, e⟩ | ⟨cp, -, -, e⟩ | ⟨snap, hs, e⟩
    · show (q.rollbackTo id).2.Issued k
      rw [e]
      exact hk
    · show (q.rollbackTo id).2.Issued k
      rw [e]
      exact hk
    · show (q.rollbackTo id).2.Issued k
      rw [e]
      exact h id snap rfl hs k hk
  | _ => exact hk

/-- a quad, and the ids its inserts have returned -/
structure Minting (M : Type → Type) (G : Type → Type → Type) where
  quad : BeliefQuad M G
  returned : List BeliefId

namespace Minting

def start : Minting M G := ⟨new, []⟩

def step (t : Minting M G) (op : Op) : Minting M G where
  quad := t.quad.step op
  returned :=
    match op with
    | .insert node => t.returned ++ [(t.quad.insert node).1]
    | _ => t.returned

structure Inv (t : Minting M G) : Prop where
  issued : ∀ k ∈ t.returned, t.quad.Issued k
  nodup : t.returned.Nodup

theorem inv_step {t : Minting M G} {op : Op} (h : t.Inv) (hok : t.quad.KeepsIssued op) :
    (t.step op).Inv := by
  have hold : ∀ k ∈ t.returned, (t.quad.step op).Issued k :=
    fun k hk => issued_step hok (h.issued k hk)
  cases op with
  | insert node =>
    constructor
    · intro k hk
      rcases List.mem_append.mp hk with hk | hk
      · exact hold k hk
      · rw [List.mem_singleton.mp hk]
        exact (SlotMap.issued_insert t.quad.nodes _ _).mpr (Or.inr rfl)
    · refine List.nodup_append.mpr ⟨h.nodup, List.nodup_singleton _, ?_⟩
      intro k hk j hj e
      have hissued := h.issued k hk
      rw [e, List.mem_singleton.mp hj] at hissued
      exact SlotMap.not_issued_nextKey t.quad.nodes hissued
  | _ => exact ⟨hold, h.nodup⟩

end Minting

/-- **inserts return distinct ids in every run whose rollbacks forget no key** -/
theorem ids_distinct (ops : List Op)
    (h : ∀ (t : Minting M G) op, StepOf Minting.step .start ops t op → t.quad.KeepsIssued op) :
    ∀ t : Minting M G, StateOf Minting.step .start ops t → t.returned.Nodup :=
  fun t ht => (run_invariant_of (fun _ _ hi hok => Minting.inv_step hi hok)
    ⟨fun _ hk => absurd hk List.not_mem_nil, List.nodup_nil⟩ h t ht).nodup

end

section
attribute [local instance] Platform.ascii

def noted (key : String) : BeliefNode := .new 0 key (.asserted key) (.userStatement 0) 1

/-- a removal is rolled back, then another belief is inserted -/
def removalRun : List Op :=
  [.insert (noted "a"), .checkpoint 1 0, .remove ⟨1, 1⟩, .rollbackTo 1, .insert (noted "b")]

theorem ids_distinct_removalRun :
    (run Minting.step (Minting.start : Minting SlotVec EdgeList) removalRun).returned.Nodup := by
  refine ids_distinct removalRun (fun t op ht id snap hop hs k hk => ?_) _ (stateOf_last _ _)
  subst hop
  rcases stepOf_cons.mp ht with ⟨-, h⟩ | ht
  · cases h
  rcases stepOf_cons.mp ht with ⟨-, h⟩ | ht
  · cases h
  rcases stepOf_cons.mp ht with ⟨-, h⟩ | ht
  · cases h
  rcases stepOf_cons.mp ht with ⟨rfl, -⟩ | ht
  · obtain ⟨cp, hcp, -, rfl⟩ := hs.mem
    rw [show cp = _ from List.mem_singleton.mp hcp]
    exact (issued_remove _ ⟨1, 1⟩ k).mp hk
  rcases stepOf_cons.mp ht with ⟨-, h⟩ | ht
  · cases h
  exact absurd ht not_stepOf_nil

/-- an insertion is rolled back, then another belief is inserted -/
def insertionRun : List Op :=
  [.checkpoint 1 0, .insert (noted "a"), .rollbackTo 1, .insert (noted "b")]

/-- both inserts return `⟨1, 1⟩` -/
theorem ids_repeated : ¬ ∀ t : Minting SlotVec EdgeList,
    StateOf Minting.step .start insertionRun t → t.returned.Nodup := by
  intro h
  have hnd := h _ (stateOf_last _ _)
  have hret : (run Minting.step (Minting.start : Minting SlotVec EdgeList)
      insertionRun).returned = [⟨1, 1⟩, ⟨1, 1⟩] := by decide +kernel
  rw [hret] at hnd
  exact (List.nodup_cons.mp hnd).1 List.mem_cons_self

end
end BeliefQuad
end Epica
