import Epica.Core.Store
import Epica.Lib.Binary
import Mathlib.Data.List.AList

/-!
# Diffs, checkpoints and rollback

`diff self other` compares two quads by belief key (of several nodes with one key the last one
iterated counts); edges are not compared.  `rollbackTo` replaces the quad by the captured one when
the diff is not empty.  A captured quad holds no checkpoints of its own.

* `rollbackTo_cases`   the three exits of a rollback.
-/

set_option linter.unusedSectionVars false

namespace Epica
open Lib

/-! ## diffs -/

structure BeliefSnapshot where
  id : BeliefId
  key : String
  value : BeliefValue
  fastConfidence : ℚ
  slowConfidence : Option ℚ
  versionAtSnapshot : Nat

def BeliefSnapshot.fromNode (node : BeliefNode) (version : Nat) : BeliefSnapshot :=
  ⟨node.id, node.key, node.value, node.fastConfidence, node.slowConfidence, version⟩

structure BeliefModification where
  id : BeliefId
  key : String
  oldValue : BeliefValue
  newValue : BeliefValue
  oldConfidence : ℚ
  newConfidence : ℚ

/-- the order of the lists is that of a hash map: nothing reads it -/
structure BeliefQuadDiff where
  added : List BeliefSnapshot
  removed : List BeliefSnapshot
  modified : List BeliefModification
  confidenceDelta : List (String × ℚ × ℚ)

def BeliefQuadDiff.hasContradictions (d : BeliefQuadDiff) : Bool :=
  !d.added.isEmpty || !d.modified.isEmpty || !d.removed.isEmpty

abbrev ByKey := AList fun _ : String => BeliefNode

/-- the `f32` nearest to `10⁻⁶` -/
def changeThreshold : ℚ := 8796093 / 2 ^ 43

example : f32.round (1 / 1000000) = changeThreshold := by decide +kernel

/-- the difference is an `f32` -/
def confChanged (a b : BeliefNode) : Bool :=
  changeThreshold < |f32Sub a.fastConfidence b.fastConfidence|

inductive RollbackError where
  | checkpointNotFound (id : CheckpointId)
  | unnecessaryContraction (diff : BeliefQuadDiff)

namespace BeliefQuad
variable {M : Type → Type} {G : Type → Type → Type} [SlotMap M] [StableDiGraph G]

/-- the nodes by key, the later one of two with the same key -/
def byKey (q : BeliefQuad M G) : ByKey :=
  (SlotMap.iter q.nodes).foldl (fun m e => m.insert e.2.key e.2) ∅

def diff (self other : BeliefQuad M G) : BeliefQuadDiff where
  added := self.byKey.entries.filterMap fun e =>
    if (other.byKey.lookup e.1).isNone then some (.fromNode e.2 self.version) else none
  removed := other.byKey.entries.filterMap fun e =>
    if (self.byKey.lookup e.1).isNone then some (.fromNode e.2 other.version) else none
  modified := self.byKey.entries.filterMap fun e =>
    (other.byKey.lookup e.1).bind fun otherNode =>
      if e.2.value ≠ otherNode.value ∨ confChanged e.2 otherNode then some {
        id := e.2.id
        key := e.2.key
        oldValue := otherNode.value
        newValue := e.2.value
        oldConfidence := otherNode.fastConfidence
        newConfidence := e.2.fastConfidence }
      else none
  confidenceDelta := self.byKey.entries.filterMap fun e =>
    (other.byKey.lookup e.1).bind fun otherNode =>
      if confChanged e.2 otherNode then
        some (e.2.key, otherNode.fastConfidence, e.2.fastConfidence)
      else none

/-! ## checkpoints -/

/-- the quad as a checkpoint holds it -/
def stripped (q : BeliefQuad M G) : BeliefQuad M G := { q with checkpoints := [] }

def capture (q : BeliefQuad M G) (uuid : Uuid) (nowMs : Nat) : BeliefQuadCheckpoint M G where
  id := uuid
  version := q.version
  timestampMs := nowMs
  quad := q.stripped

def checkpoint (q : BeliefQuad M G) (uuid : Uuid) (nowMs : Nat) :
    CheckpointId × BeliefQuad M G :=
  let cp := q.capture uuid nowMs
  (cp.id, { q with checkpoints := q.checkpoints ++ [cp] })

def checkpointById (q : BeliefQuad M G) (id : CheckpointId) : Option (BeliefQuadCheckpoint M G) :=
  q.checkpoints.find? fun c => c.id = id

def clearCheckpoints (q : BeliefQuad M G) : BeliefQuad M G := { q with checkpoints := [] }

def rollbackTo (q : BeliefQuad M G) (id : CheckpointId) :
    Except RollbackError BeliefQuadDiff × BeliefQuad M G :=
  match (q.checkpoints.find? fun c => c.id = id).map BeliefQuadCheckpoint.quad with
  | none => (.error (.checkpointNotFound id), q)
  | some snapQuad =>
    let diff := q.diff snapQuad
    if !diff.hasContradictions then (.error (.unnecessaryContraction diff), q)
    else (.ok diff, snapQuad)

/-- a rollback of `q` to `id` goes through, and restores `snap` -/
def RollsBack (q : BeliefQuad M G) (id : CheckpointId) (snap : BeliefQuad M G) : Prop :=
  ∃ cp, q.checkpointById id = some cp ∧ cp.quad = snap ∧ (q.diff snap).hasContradictions = true

/-- **everything a rollback can do** -/
theorem rollbackTo_cases (q : BeliefQuad M G) (id : CheckpointId) :
    (q.checkpointById id = none ∧ q.rollbackTo id = (.error (.checkpointNotFound id), q)) ∨
    (∃ cp, q.checkpointById id = some cp ∧ (q.diff cp.quad).hasContradictions = false ∧
      q.rollbackTo id = (.error (.unnecessaryContraction (q.diff cp.quad)), q)) ∨
    (∃ snap, q.RollsBack id snap ∧ q.rollbackTo id = (.ok (q.diff snap), snap)) := by
  have hf : q.checkpoints.find? (fun c => decide (c.id = id)) = q.checkpointById id := rfl
  cases h : q.checkpointById id with
  | none =>
    refine Or.inl ⟨rfl, ?_⟩
    unfold rollbackTo
    rw [hf, h]
    rfl
  | some cp =>
    right
    have hr : q.rollbackTo id =
        if !(q.diff cp.quad).hasContradictions then
          (.error (.unnecessaryContraction (q.diff cp.quad)), q)
        else (.ok (q.diff cp.quad), cp.quad) := by
      unfold rollbackTo
      rw [hf, h]
      rfl
    cases hd : (q.diff cp.quad).hasContradictions with
    | false =>
      refine Or.inl ⟨cp, rfl, hd, ?_⟩
      rw [hr, hd]
      rfl
    | true =>
      refine Or.inr ⟨cp.quad, ⟨cp, h, rfl, hd⟩, ?_⟩
      rw [hr, hd]
      rfl

theorem RollsBack.eq {q snap : BeliefQuad M G} {id : CheckpointId} (h : q.RollsBack id snap) :
    q.rollbackTo id = (.ok (q.diff snap), snap) := by
  obtain ⟨cp, hf, rfl, hd⟩ := h
  rcases q.rollbackTo_cases id with ⟨hn, -⟩ | ⟨cp', hf', hd', -⟩ | ⟨snap', ⟨cp', hf', hs, -⟩, e⟩
  · rw [hn] at hf
    cases hf
  · rw [hf] at hf'
    rw [← Option.some.inj hf', hd] at hd'
    cases hd'
  · rw [hf] at hf'
    rw [e, ← hs, Option.some.inj hf']

/-- a rollback that does not go through changes nothing -/
theorem rollbackTo_of_refused {q : BeliefQuad M G} {id : CheckpointId}
    (h : ∀ snap, ¬ q.RollsBack id snap) : (q.rollbackTo id).2 = q := by
  rcases q.rollbackTo_cases id with ⟨-, e⟩ | ⟨cp, -, -, e⟩ | ⟨snap, hs, -⟩
  · rw [e]
  · rw [e]
  · exact absurd hs (h snap)

theorem mem_of_checkpointById {q : BeliefQuad M G} {id : CheckpointId}
    {cp : BeliefQuadCheckpoint M G} (h : q.checkpointById id = some cp) :
    cp ∈ q.checkpoints ∧ cp.id = id := by
  have hp := List.find?_some (p := fun c : BeliefQuadCheckpoint M G => decide (c.id = id)) h
  exact ⟨List.mem_of_find?_eq_some h, of_decide_eq_true hp⟩

/-- a new checkpoint hides no old one -/
theorem checkpointById_checkpoint {q : BeliefQuad M G} {id : CheckpointId}
    {cp : BeliefQuadCheckpoint M G} (h : q.checkpointById id = some cp) (uuid : Uuid)
    (nowMs : Nat) : (q.checkpoint uuid nowMs).2.checkpointById id = some cp := by
  have h' : q.checkpoints.find? (fun c => decide (c.id = id)) = some cp := h
  show (q.checkpoints ++ [q.capture uuid nowMs]).find? (fun c => decide (c.id = id)) = some cp
  rw [List.find?_append, h', Option.some_or]

/-- a new checkpoint is found under an unused uuid -/
theorem checkpointById_checkpoint_self {q : BeliefQuad M G} {uuid : Uuid}
    (hfresh : ∀ cp ∈ q.checkpoints, cp.id ≠ uuid) (nowMs : Nat) :
    (q.checkpoint uuid nowMs).2.checkpointById uuid = some (q.capture uuid nowMs) := by
  have hnone : q.checkpoints.find? (fun c => decide (c.id = uuid)) = none :=
    List.find?_eq_none.mpr fun c hc he => hfresh c hc (of_decide_eq_true he)
  show (q.checkpoints ++ [q.capture uuid nowMs]).find? (fun c => decide (c.id = uuid)) = _
  rw [List.find?_append, hnone, Option.none_or, List.find?_singleton]
  exact if_pos (decide_eq_true rfl)

theorem RollsBack.mem {q : BeliefQuad M G} {id : CheckpointId} {snap : BeliefQuad M G}
    (h : q.RollsBack id snap) : ∃ cp ∈ q.checkpoints, cp.id = id ∧ cp.quad = snap := by
  obtain ⟨cp, hf, hs, -⟩ := h
  obtain ⟨hm, hid⟩ := mem_of_checkpointById hf
  exact ⟨cp, hm, hid, hs⟩

theorem store_stripped (q : BeliefQuad M G) : q.stripped.store = q.store := rfl

end BeliefQuad
end Epica
