import Epica.Core.RevisionLaws
import Epica.Core.System1

/-!
# Confidence bounds

A node is `Bounded` when its fast confidence, and its slow one if it has one, lie in `[0, 1]`;
a quad is when all its nodes are.  Construction, revision and propagation clamp what they write.

* `Bounded.revise`, `Bounded.propagate`   what a quad does by itself keeps the bounds;
* `bounded_setSlow_iff`                   a slow confidence that is written must lie in `[0, 1]`.
-/

set_option linter.unusedSectionVars false

namespace Epica
open Lib

def InUnit (x : ℚ) : Prop := 0 ≤ x ∧ x ≤ 1

instance (x : ℚ) : Decidable (InUnit x) := inferInstanceAs (Decidable (0 ≤ x ∧ x ≤ 1))

theorem inUnit_clamp (x : ℚ) : InUnit (clamp x 0 1) := by
  unfold clamp
  split
  · exact ⟨le_refl 0, zero_le_one⟩
  · rename_i h0
    split
    · exact ⟨zero_le_one, le_refl 1⟩
    · rename_i h1
      exact ⟨not_lt.mp h0, not_lt.mp h1⟩

theorem clamp_eq_self_iff {x : ℚ} : clamp x 0 1 = x ↔ InUnit x := by
  constructor
  · intro h
    rw [← h]
    exact inUnit_clamp x
  · intro h
    unfold clamp
    rw [if_neg (not_lt.mpr h.1), if_neg (not_lt.mpr h.2)]

/-- a value in `[0, 1]` raised to a floor, if it is below it -/
theorem inUnit_floor_iff {x : ℚ} (hx : InUnit x) (floor : ℚ) :
    InUnit (if x < floor then floor else x) ↔ floor ≤ 1 := by
  split
  · rename_i h
    exact ⟨fun hf => hf.2, fun hf => ⟨le_of_lt (lt_of_le_of_lt hx.1 h), hf⟩⟩
  · rename_i h
    exact iff_of_true hx (le_trans (not_lt.mp h) hx.2)

structure BeliefNode.Bounded (n : BeliefNode) : Prop where
  fast : InUnit n.fastConfidence
  slow : ∀ x, n.slowConfidence = some x → InUnit x

theorem BeliefNode.bounded_new (nowMs : Nat) (key : String) (value : BeliefValue)
    (provenance : Provenance) (confidence : ℚ) :
    (BeliefNode.new nowMs key value provenance confidence).Bounded where
  fast := inUnit_clamp confidence
  slow _ h := nomatch h

namespace BeliefQuad
variable {M : Type → Type} {G : Type → Type → Type} [SlotMap M] [StableDiGraph G]

def Bounded (q : BeliefQuad M G) : Prop := ∀ id n, q.get id = some n → n.Bounded

theorem bounded_new : (new : BeliefQuad M G).Bounded := by
  intro id n hn
  have hdead : (new : BeliefQuad M G).get id = none := SlotMap.get_withKey id
  rw [hdead] at hn
  cases hn

/-- the bounds are a matter of the nodes -/
theorem Bounded.of_nodes {q q' : BeliefQuad M G} (h : q.Bounded) (hn : q'.nodes = q.nodes) :
    q'.Bounded := by
  intro id n hid
  refine h id n ?_
  show SlotMap.get q.nodes id = some n
  rw [← hn]
  exact hid

theorem Bounded.insert {q : BeliefQuad M G} (h : q.Bounded) {node : BeliefNode}
    (hnode : node.Bounded) : (q.insert node).2.Bounded := by
  intro id n hn
  rw [get_insert] at hn
  split at hn
  · obtain rfl := Option.some.inj hn
    exact ⟨hnode.fast, hnode.slow⟩
  · exact h id n hn

/-- writing a node that stays bounded -/
theorem Bounded.modify {q : BeliefQuad M G} (h : q.Bounded) (id : BeliefId)
    {f : BeliefNode → BeliefNode} (hf : ∀ n, n.Bounded → (f n).Bounded) :
    (q.modify id f).Bounded := by
  intro j n hn
  rw [get_modify] at hn
  split at hn
  · obtain ⟨n', hn', rfl⟩ := Option.map_eq_some_iff.mp hn
    exact hf n' (h j n' hn')
  · exact h j n hn

/-- **a slow confidence may be written exactly when it lies in `[0, 1]`**, or is written nowhere -/
theorem bounded_setSlow_iff {q : BeliefQuad M G} (h : q.Bounded) (id : BeliefId) (x : ℚ) :
    (q.modify id fun n => { n with slowConfidence := some x }).Bounded ↔
      (q.Live id → InUnit x) := by
  constructor
  · intro hb hl
    obtain ⟨n, hn⟩ := live_iff.mp hl
    have hget : (q.modify id fun n => { n with slowConfidence := some x }).get id =
        some { n with slowConfidence := some x } := by
      rw [get_modify, if_pos rfl, hn]
      rfl
    exact (hb id _ hget).slow x rfl
  · intro hx j n hn
    rw [get_modify] at hn
    split at hn
    · obtain ⟨n', hn', rfl⟩ := Option.map_eq_some_iff.mp hn
      rename_i hj
      subst hj
      refine ⟨(h j n' hn').fast, fun y hy => ?_⟩
      obtain rfl := Option.some.inj hy
      exact hx (live_iff.mpr ⟨n', hn'⟩)
    · exact h j n hn

section
variable [Platform] {q : BeliefQuad M G}

theorem Bounded.revise (h : q.Bounded) (stamp : Stamp) (order : HashOrder BeliefId)
    (id : BeliefId) (v : BeliefValue) (p : Provenance) (c : ℚ) :
    (q.revise stamp order id v p c).2.Bounded := by
  intro j n hn
  rw [get_revise] at hn
  split at hn
  · cases hn
  · split at hn
    · obtain ⟨n', hn', rfl⟩ := Option.map_eq_some_iff.mp hn
      refine ⟨inUnit_clamp c, fun x hx => ?_⟩
      have hx' :
        (if q.checkContradiction id v = true then none else n'.slowConfidence) = some x := hx
      split at hx'
      · cases hx'
      · exact (h j n' hn').slow x hx'
    · exact h j n hn

theorem Bounded.recompute (h : q.Bounded) (nowMs : Nat) (id : BeliefId) :
    (q.recompute nowMs id).Bounded := by
  unfold BeliefQuad.recompute
  split
  · exact h
  · exact h.modify id fun n hn => ⟨inUnit_clamp _, hn.slow⟩

theorem Bounded.recomputeAll (h : q.Bounded) (now : BeliefId → Nat) (ids : List BeliefId) :
    (q.recomputeAll now ids).Bounded := by
  induction ids generalizing q with
  | nil => exact h
  | cons id ids ih => exact ih (h.recompute (now id) id)

/-- **Noisy-OR and decay stay within the bounds** -/
theorem Bounded.propagate (h : q.Bounded) (now : BeliefId → Nat)
    (order : BeliefId → HashOrder BeliefId) (changed : BeliefId) :
    (q.propagateSystem1 now order changed).Bounded := by
  rw [propagateSystem1_eq]
  exact h.recomputeAll now _

end

/-! ## captured quads -/

/-- the bounds hold in the quad, and in the quads it can be rolled back to, which hold no
checkpoints -/
structure BoundedThrough (q : BeliefQuad M G) : Prop where
  bounded : q.Bounded
  captured : ∀ cp ∈ q.checkpoints, cp.quad.Bounded ∧ cp.quad.checkpoints = []

/-- a quad of which the old one or one of its captured quads has the checkpoints -/
theorem BoundedThrough.of_bounded {q q' : BeliefQuad M G} (h : q.BoundedThrough) (hb : q'.Bounded)
    (hc : q'.checkpoints = q.checkpoints ∨ q'.checkpoints = []) : q'.BoundedThrough := by
  refine ⟨hb, fun cp hcp => ?_⟩
  rcases hc with hc | hc
  · rw [hc] at hcp
    exact h.captured cp hcp
  · rw [hc] at hcp
    exact absurd hcp List.not_mem_nil

theorem BoundedThrough.checkpoint {q : BeliefQuad M G} (h : q.BoundedThrough) (uuid : Uuid)
    (nowMs : Nat) : (q.checkpoint uuid nowMs).2.BoundedThrough := by
  refine ⟨h.bounded.of_nodes rfl, fun cp hcp => ?_⟩
  rcases List.mem_append.mp hcp with hcp | hcp
  · exact h.captured cp hcp
  · rw [List.mem_singleton.mp hcp]
    exact ⟨h.bounded.of_nodes rfl, rfl⟩

theorem BoundedThrough.rollbackTo {q : BeliefQuad M G} (h : q.BoundedThrough)
    (id : CheckpointId) : (q.rollbackTo id).2.BoundedThrough := by
  rcases q.rollbackTo_cases id with ⟨-, e⟩ | ⟨cp, -, -, e⟩ | ⟨snap, hs, e⟩
  · rw [e]
    exact h
  · rw [e]
    exact h
  · rw [e]
    obtain ⟨cp, hcp, -, rfl⟩ := hs.mem
    obtain ⟨hb, hnone⟩ := h.captured cp hcp
    exact h.of_bounded hb (Or.inr hnone)

end BeliefQuad
end Epica
