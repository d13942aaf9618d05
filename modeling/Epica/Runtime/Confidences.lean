import Epica.Core.Bounds
import Epica.Runtime.KeyIndex
import Epica.Runtime.Reflection

/-!
# Confidence bounds over the operations of a runtime

Beside the operations of `RuntimeOp` a session has `applySystem2Result`.  The revision and the
propagation of an update keep the bounds; the floor of a degrading recovery and the answer of
System 2 are written as they come.

* `postUpdate_effect`        what the contracts do to a quad;
* `bounded_raiseFloor_iff`   raising the confidences keeps the bounds exactly when the floor does;
* `confidences_bounded_iff`  the bounds hold throughout exactly in the runs that come to no floor
                             above `1` and write no answer outside `[0, 1]`.
-/

set_option linter.unusedSectionVars false

namespace Epica
open Lib

/-! ## the floor of a degrading recovery -/

section
variable {M : Type → Type} {G : Type → Type → Type} [SlotMap M] [StableDiGraph G]

def raise (floor : ℚ) (n : BeliefNode) : BeliefNode :=
  { n with fastConfidence := if n.fastConfidence < floor then floor else n.fastConfidence }

theorem raise_of_le {floor : ℚ} {n : BeliefNode} (h : ¬ n.fastConfidence < floor) :
    raise floor n = n := by
  unfold raise
  rw [if_neg h]

theorem raise_raise (floor : ℚ) (n : BeliefNode) : raise floor (raise floor n) = raise floor n := by
  apply raise_of_le
  show ¬ (if n.fastConfidence < floor then floor else n.fastConfidence) < floor
  split
  · exact lt_irrefl floor
  · assumption

theorem get_raiseFloor (floor : ℚ) (quad : BeliefQuad M G) (ids : List BeliefId) (j : BeliefId) :
    (raiseFloor floor quad ids).get j =
      if j ∈ ids then (quad.get j).map (raise floor) else quad.get j := by
  induction ids generalizing quad with
  | nil => rfl
  | cons id ids ih =>
    show (raiseFloor floor (quad.modify id (raise floor)) ids).get j = _
    rw [ih, BeliefQuad.get_modify]
    by_cases hj : j = id
    · subst hj
      rw [if_pos rfl, if_pos List.mem_cons_self]
      split
      · rw [Option.map_map]
        exact congrArg (fun f => (quad.get j).map f) (funext (raise_raise floor))
      · rfl
    · rw [if_neg hj]
      exact if_congr (List.mem_cons.trans (or_iff_right hj)).symm rfl rfl

/-- a recovery that degrades raises every node -/
theorem get_raiseFloor_all (floor : ℚ) (quad : BeliefQuad M G) (j : BeliefId) :
    (raiseFloor floor quad ((SlotMap.iter quad.nodes).map Prod.fst)).get j =
      (quad.get j).map (raise floor) := by
  rw [get_raiseFloor]
  split
  · rfl
  · rename_i hj
    have hdead : quad.get j = none :=
      BeliefQuad.not_live_iff.mp fun hl => hj ((SlotMap.mem_keys quad.nodes j).mpr hl)
    rw [hdead]
    rfl

/-- a raised quad keeps the bounds exactly when the floor is at most `1`, or nothing is live -/
theorem bounded_raiseFloor_iff {quad : BeliefQuad M G} (h : quad.Bounded) (floor : ℚ) :
    (raiseFloor floor quad ((SlotMap.iter quad.nodes).map Prod.fst)).Bounded ↔
      ∀ id, quad.Live id → floor ≤ 1 := by
  constructor
  · intro hb id hl
    obtain ⟨n, hn⟩ := BeliefQuad.live_iff.mp hl
    have hraised := hb id (raise floor n) (by rw [get_raiseFloor_all, hn]; rfl)
    exact (inUnit_floor_iff (h id n hn).fast floor).mp hraised.fast
  · intro hf j n hn
    rw [get_raiseFloor_all] at hn
    obtain ⟨n', hn', rfl⟩ := Option.map_eq_some_iff.mp hn
    have hfloor : floor ≤ 1 := hf j (BeliefQuad.live_iff.mpr ⟨n', hn'⟩)
    exact ⟨(inUnit_floor_iff (h j n' hn').fast floor).mpr hfloor, (h j n' hn').slow⟩

/-- the floor of the recovery that the violations of `quad` call for, if it degrades -/
def degradeFloor (contracts : List (BehavioralContract M G)) (quad : BeliefQuad M G)
    (lastCheckpoint : Option CheckpointId) : Option ℚ :=
  (firstSevere contracts quad lastCheckpoint).bind fun cv =>
    match cv.2.violationClass, cv.1.recovery with
    | .hard, .degradeAndContinue minConfidence => some minConfidence
    | _, _ => none

theorem degradeFloor_eq_some_iff {contracts : List (BehavioralContract M G)}
    {quad : BeliefQuad M G} {lastCheckpoint : Option CheckpointId} {floor : ℚ} :
    degradeFloor contracts quad lastCheckpoint = some floor ↔
      ∃ contract v, firstSevere contracts quad lastCheckpoint = some (contract, v) ∧
        v.violationClass = .hard ∧ contract.recovery = .degradeAndContinue floor := by
  unfold degradeFloor
  constructor
  · intro h
    obtain ⟨⟨contract, v⟩, hv, h⟩ := Option.bind_eq_some_iff.mp h
    refine ⟨contract, v, hv, ?_⟩
    simp only at h
    split at h
    · rename_i hc hr
      obtain rfl := Option.some.inj h
      exact ⟨hc, hr⟩
    · cases h
  · intro h
    obtain ⟨contract, v, hv, hc, hr⟩ := h
    rw [hv, Option.bind_some]
    simp only [hc, hr]

/-- a recovery that degrades restores nothing -/
theorem degradeFloor_eq_none {contracts : List (BehavioralContract M G)}
    {quad snap : BeliefQuad M G} {lastCheckpoint : Option CheckpointId}
    (h : RecoversTo contracts quad lastCheckpoint snap) :
    degradeFloor contracts quad lastCheckpoint = none := by
  by_contra hne
  obtain ⟨floor, hf⟩ := Option.ne_none_iff_exists'.mp hne
  obtain ⟨contract, v, hv, -, hr⟩ := degradeFloor_eq_some_iff.mp hf
  obtain ⟨contract', v', hv', -, cp, ht, -⟩ := h
  obtain ⟨rfl, rfl⟩ := Prod.mk.inj (Option.some.inj (hv.symm.trans hv'))
  rw [hr] at ht
  cases ht

/-- a recovery that fails raises nothing and restores nothing -/
theorem no_effect_of_failing [Platform] {contracts : List (BehavioralContract M G)}
    {quad : BeliefQuad M G} {lastCheckpoint : Option CheckpointId}
    (hfail : ∀ contract v, firstSevere contracts quad lastCheckpoint = some (contract, v) →
      v.violationClass = .hard → ∃ e, executeRecovery quad v contract.recovery = (.error e, quad)) :
    degradeFloor contracts quad lastCheckpoint = none ∧
      ∀ snap, ¬ RecoversTo contracts quad lastCheckpoint snap := by
  constructor
  · by_contra hne
    obtain ⟨floor, hf⟩ := Option.ne_none_iff_exists'.mp hne
    obtain ⟨contract, v, hv, hc, hr⟩ := degradeFloor_eq_some_iff.mp hf
    obtain ⟨e, he⟩ := hfail contract v hv hc
    rw [hr] at he
    cases (Prod.mk.inj he).1
  · intro snap hs
    obtain ⟨contract, v, hv, hc, hrestores⟩ := hs
    obtain ⟨e, he⟩ := hfail contract v hv hc
    rw [hrestores.eq] at he
    cases (Prod.mk.inj he).1

/-- **what the contracts do to the quad**: nothing, or they restore a checkpoint, or they raise the
confidences to a floor -/
theorem postUpdate_effect [Platform] (engine : ContractEngine M G) (quad : BeliefQuad M G)
    (lastCheckpoint : Option CheckpointId) (beliefKey agentId : String) (nowMs : Nat) :
    (degradeFloor engine.contracts quad lastCheckpoint = none ∧
      (∀ snap, ¬ RecoversTo engine.contracts quad lastCheckpoint snap) ∧
      (engine.postUpdate quad lastCheckpoint beliefKey agentId nowMs).2.2 = quad) ∨
    (∃ snap, RecoversTo engine.contracts quad lastCheckpoint snap ∧
      (engine.postUpdate quad lastCheckpoint beliefKey agentId nowMs).2.2 = snap) ∨
    (∃ floor, degradeFloor engine.contracts quad lastCheckpoint = some floor ∧
      (engine.postUpdate quad lastCheckpoint beliefKey agentId nowMs).2.2 =
        raiseFloor floor quad ((SlotMap.iter quad.nodes).map Prod.fst)) := by
  rcases engine.postUpdate_cases quad lastCheckpoint beliefKey agentId nowMs with
    ⟨hn, -, hq⟩ | ⟨contract, v, hv, hc, hq, -⟩ | ⟨contract, v, e, hv, hc, he, hq, -⟩ |
    ⟨contract, v, out, hv, hc, he, -⟩
  · obtain ⟨hd, hno⟩ := no_effect_of_failing fun contract v hv => by
      rw [hn] at hv
      cases hv
    exact Or.inl ⟨hd, hno, hq⟩
  · obtain ⟨hd, hno⟩ := no_effect_of_failing fun contract' v' hv' hc' => by
      obtain ⟨rfl, rfl⟩ := Prod.mk.inj (Option.some.inj (hv.symm.trans hv'))
      rw [hc] at hc'
      cases hc'
    exact Or.inl ⟨hd, hno, hq⟩
  · obtain ⟨hd, hno⟩ := no_effect_of_failing fun contract' v' hv' hc' => by
      obtain ⟨rfl, rfl⟩ := Prod.mk.inj (Option.some.inj (hv.symm.trans hv'))
      exact ⟨e, he⟩
    exact Or.inl ⟨hd, hno, hq⟩
  · right
    rcases executeRecovery_cases quad v contract.recovery with
      ⟨snap, hs, he'⟩ | ⟨floor, quad', hp, -, -⟩ | ⟨e, -, -, he'⟩
    · rw [he] at he'
      exact Or.inl ⟨snap, ⟨contract, v, hv, hc, hs⟩, (Prod.mk.inj he').2⟩
    · rw [hp] at he
      exact Or.inr ⟨floor, degradeFloor_eq_some_iff.mpr ⟨contract, v, hv, hc, hp⟩,
        (Prod.mk.inj he).2.symm⟩
    · rw [he] at he'
      cases (Prod.mk.inj he').1

/-- the contracts keep the bounds exactly when they call for no floor above `1` -/
theorem bounded_postUpdate_iff [Platform] (engine : ContractEngine M G) {quad : BeliefQuad M G}
    (h : quad.BoundedThrough) (hlive : ∃ id, quad.Live id) (lastCheckpoint : Option CheckpointId)
    (beliefKey agentId : String) (nowMs : Nat) :
    (engine.postUpdate quad lastCheckpoint beliefKey agentId nowMs).2.2.Bounded ↔
      ∀ floor ∈ degradeFloor engine.contracts quad lastCheckpoint, floor ≤ 1 := by
  have hnone : degradeFloor engine.contracts quad lastCheckpoint = none →
      ∀ floor ∈ degradeFloor engine.contracts quad lastCheckpoint, floor ≤ 1 := by
    intro hd floor hf
    rw [hd] at hf
    cases hf
  rcases postUpdate_effect engine quad lastCheckpoint beliefKey agentId nowMs with
    ⟨hd, -, hq⟩ | ⟨snap, hs, hq⟩ | ⟨floor, hd, hq⟩
  · rw [hq]
    exact iff_of_true h.bounded (hnone hd)
  · rw [hq]
    obtain ⟨cp, hcp, rfl⟩ := hs.mem
    exact iff_of_true (h.captured cp hcp).1 (hnone (degradeFloor_eq_none hs))
  · rw [hq, bounded_raiseFloor_iff h.bounded, hd]
    obtain ⟨id, hid⟩ := hlive
    constructor
    · intro hf floor' hfloor'
      obtain rfl := Option.some.inj hfloor'
      exact hf id hid
    · exact fun hf _ _ => hf floor rfl

end

/-! ## the operations of a session -/

inductive SessionOp where
  | runtime (op : RuntimeOp)
  | applySystem2Result (id : BeliefId) (revisedConfidence : ℚ)

/-- a node as `BeliefNode::new` and the builder methods make it -/
def BeliefNode.Made (node : BeliefNode) : Prop :=
  ∃ nowMs key value provenance confidence ttlMs tau prospect,
    node = { BeliefNode.new nowMs key value provenance confidence with
      ttlMs := ttlMs
      reflectionThreshold := tau
      prospect := prospect }

theorem BeliefNode.Made.bounded {node : BeliefNode} (h : node.Made) : node.Bounded := by
  obtain ⟨nowMs, key, value, provenance, confidence, ttlMs, tau, prospect, rfl⟩ := h
  have hnew := bounded_new nowMs key value provenance confidence
  exact ⟨hnew.fast, hnew.slow⟩

/-- what is inserted is made by `BeliefNode::new` -/
def SessionOp.InsertsMade : SessionOp → Prop
  | .runtime (.insertBelief node _) => node.Made
  | _ => True

namespace BeliefRuntime
section
variable {M : Type → Type} {G : Type → Type → Type} [SlotMap M] [StableDiGraph G] [Platform]

def sessionStep (rt : BeliefRuntime M G) : SessionOp → BeliefRuntime M G
  | .runtime op => rt.step op
  | .applySystem2Result id revisedConfidence => rt.applySystem2Result id revisedConfidence

/-- the condition on one operation -/
def KeepsBounds (rt : BeliefRuntime M G) : SessionOp → Prop
  | .runtime (.updateBelief call) => rt.Admits call → (∃ out, (rt.revision call).1 = .ok out) →
    ∀ floor ∈ degradeFloor rt.contractEngine.contracts (rt.revisedQuad call)
      (some call.checkpointStamp.uuid), floor ≤ 1
  | .applySystem2Result id revisedConfidence => rt.quad.Live id → InUnit revisedConfidence
  | .runtime _ => True

variable {rt : BeliefRuntime M G}

theorem boundedThrough_revisedQuad (h : rt.quad.BoundedThrough) (call : UpdateCall) :
    (rt.revisedQuad call).BoundedThrough := by
  have hcp : (rt.checkpointedQuad call).BoundedThrough := h.checkpoint _ _
  have hrev : (call.revise (rt.checkpointedQuad call)).2.Bounded := hcp.bounded.revise _ _ _ _ _ _
  refine hcp.of_bounded ?_ (Or.inl (rt.checkpoints_revisedQuad call))
  rcases rt.revision_cases call with ⟨e, -, -, hq⟩ | ⟨record, out, -, -, hq⟩
  · rw [hq]
    exact hrev
  · rw [hq]
    exact hrev.propagate _ _ _

/-- a belief whose revision has gone through is live -/
theorem live_revisedQuad {call : UpdateCall} (h : ∃ out, (rt.revision call).1 = .ok out) :
    (rt.revisedQuad call).Live call.id := by
  obtain ⟨out, hout⟩ := h
  rcases rt.revision_cases call with ⟨e, -, he, -⟩ | ⟨record, -, hrecord, -, -⟩
  · rw [he] at hout
    cases hout
  · have hvalue := (BeliefQuad.valueAt_revise_self _ _ _ _ _ _ _ hrecord).2
    obtain ⟨n, hn, -⟩ := Option.map_eq_some_iff.mp hvalue
    rw [(rt.revisedQuad_only call).live]
    exact BeliefQuad.live_iff.mpr ⟨n, hn⟩

theorem updateBelief_bounded_iff (h : rt.quad.BoundedThrough) (call : UpdateCall) :
    (rt.updateBelief call).2.quad.Bounded ↔ rt.KeepsBounds (.runtime (.updateBelief call)) := by
  have hrevised := boundedThrough_revisedQuad h call
  rcases rt.updateBelief_cases call with
    ⟨hno, hq, -⟩ | ⟨-, hq, e, he, -⟩ | ⟨ha, hok, hq, -⟩
  · rw [hq]
    exact iff_of_true h.bounded fun ha => absurd ha hno
  · rw [hq]
    refine iff_of_true hrevised.bounded fun _ hok => ?_
    obtain ⟨out, hout⟩ := hok
    rw [he] at hout
    cases hout
  · rw [hq]
    have hiff := bounded_postUpdate_iff rt.contractEngine hrevised ⟨_, live_revisedQuad hok⟩
      (some call.checkpointStamp.uuid) (rt.keyOf call.id) "system" call.auditMs
    exact hiff.trans ⟨fun hf _ _ => hf, fun hf => hf ha hok⟩

/-- the checkpoints after an update: those of the revised quad, or none -/
theorem checkpoints_updateBelief (h : rt.quad.BoundedThrough) (call : UpdateCall) :
    (rt.updateBelief call).2.quad.checkpoints = rt.quad.checkpoints ∨
      (rt.updateBelief call).2.quad.checkpoints = (rt.revisedQuad call).checkpoints ∨
      (rt.updateBelief call).2.quad.checkpoints = [] := by
  rcases rt.updateBelief_cases call with ⟨-, hq, -⟩ | ⟨-, hq, -⟩ | ⟨-, -, hq, -⟩
  · exact Or.inl (congrArg _ hq)
  · exact Or.inr (Or.inl (congrArg _ hq))
  · right
    rw [hq]
    rcases rt.contractEngine.postUpdate_quad (rt.revisedQuad call)
        (some call.checkpointStamp.uuid) (rt.keyOf call.id) "system" call.auditMs with
      ⟨snap, hs, hv⟩ | ⟨-, hv⟩
    · obtain ⟨cp, hcp, rfl⟩ := hs.mem
      exact Or.inr ((congrArg _ hv).trans ((boundedThrough_revisedQuad h call).captured cp hcp).2)
    · exact Or.inl hv.checkpoints

/-- **one operation keeps the bounds exactly when it meets the condition** -/
theorem sessionStep_bounded_iff (h : rt.quad.BoundedThrough) (op : SessionOp)
    (hmade : op.InsertsMade) : (rt.sessionStep op).quad.Bounded ↔ rt.KeepsBounds op := by
  cases op with
  | runtime op =>
    cases op with
    | insertBelief node scenarios =>
      have hmade' : node.Made := hmade
      refine iff_of_true ((h.bounded.insert hmade'.bounded).of_nodes ?_) trivial
      show (rt.insertBelief node scenarios).2.quad.nodes = (rt.quad.insert node).2.nodes
      unfold insertBelief
      simp only
      split <;> rfl
    | updateBelief call => exact updateBelief_bounded_iff h call
    | checkpoint stamp => exact iff_of_true (h.checkpoint _ _).bounded trivial
    | rollbackTo id => exact iff_of_true (h.rollbackTo id).bounded trivial
  | applySystem2Result id x => exact BeliefQuad.bounded_setSlow_iff h.bounded id x

theorem sessionStep_boundedThrough (h : rt.quad.BoundedThrough) (op : SessionOp)
    (hb : (rt.sessionStep op).quad.Bounded) : (rt.sessionStep op).quad.BoundedThrough := by
  cases op with
  | runtime op =>
    cases op with
    | insertBelief node scenarios =>
      refine h.of_bounded hb (Or.inl ?_)
      show (rt.insertBelief node scenarios).2.quad.checkpoints = rt.quad.checkpoints
      unfold insertBelief
      simp only
      split <;> rfl
    | updateBelief call =>
      rcases checkpoints_updateBelief h call with hc | hc | hc
      · exact h.of_bounded hb (Or.inl hc)
      · exact (boundedThrough_revisedQuad h call).of_bounded hb (Or.inl hc)
      · exact h.of_bounded hb (Or.inr hc)
    | checkpoint stamp => exact h.checkpoint _ _
    | rollbackTo id => exact h.rollbackTo id
  | applySystem2Result id x => exact h.of_bounded hb (Or.inl rfl)

/-- **the confidences stay within `[0, 1]` in exactly the runs whose operations meet the
condition**: each degrading recovery that is come to has a floor of at most `1`, and each answer to
a live belief lies in `[0, 1]` -/
theorem confidences_bounded_iff (reliabilityBaseline : ℚ)
    (contracts : List (BehavioralContract M G)) (sovereignty : Option (MnemonicSovereignty M G))
    (llmClient : Bool) (tau : ℚ) (ops : List SessionOp) (hmade : ∀ op ∈ ops, op.InsertsMade) :
    (∀ rt, StateOf sessionStep (build .new reliabilityBaseline contracts sovereignty llmClient tau)
      ops rt → rt.quad.Bounded) ↔
    ∀ rt op, StepOf sessionStep (build .new reliabilityBaseline contracts sovereignty llmClient tau)
      ops rt op → rt.KeepsBounds op := by
  let start : BeliefRuntime M G :=
    build .new reliabilityBaseline contracts sovereignty llmClient tau
  have hstart : start.quad.BoundedThrough :=
    ⟨BeliefQuad.bounded_new, fun cp hcp => absurd hcp List.not_mem_nil⟩
  have hpre : ∀ rt op, StepOf sessionStep start ops rt op → op.InsertsMade := by
    intro rt op hop
    obtain ⟨pre, post, rfl, -⟩ := hop
    exact hmade op (List.mem_append.mpr (Or.inr List.mem_cons_self))
  have hiff := @forall_state_iff _ _ sessionStep (fun _ => True)
    (fun rt : BeliefRuntime M G => rt.quad.BoundedThrough) (fun _ op => op.InsertsMade) KeepsBounds
    (fun _ _ _ => trivial)
    (fun rt op _ h hop => by
      rw [← sessionStep_bounded_iff h op hop]
      exact ⟨fun hb => hb.bounded, sessionStep_boundedThrough h op⟩)
    start trivial hstart ops hpre
  refine Iff.trans ⟨fun hall => ?_, fun hall rt hrt => (hall rt hrt).bounded⟩ hiff
  -- the states are bounded, so what has been captured from them is
  refine run_invariant_of (fun rt op h hb => sessionStep_boundedThrough h op hb) hstart ?_
  intro rt op hop
  obtain ⟨pre, post, rfl, rfl⟩ := hop
  exact hall _ ⟨pre ++ [op], post, by rw [List.append_assoc]; rfl,
    (run_concat sessionStep start pre op).symm⟩

end

section
attribute [local instance] Platform.ascii

/-- a user states a plan, and System 2 answers with `answer` -/
def reflectedOn (answer : ℚ) : List SessionOp :=
  [.runtime (.insertBelief (.new 0 "plan" (.asserted "ship") (.userStatement 0) (9 / 10)) none),
    .applySystem2Result ⟨1, 1⟩ answer]

/-- an answer within the bounds is taken -/
theorem confidences_bounded_reflectedOn :
    (reflectedOn (77 / 100)).length = 2 ∧
      ∀ rt, StateOf sessionStep (build (.new : BeliefQuad SlotVec EdgeList) (1 / 2) [] none true
        (15 / 100)) (reflectedOn (77 / 100)) rt → rt.quad.Bounded := by
  refine ⟨rfl, (confidences_bounded_iff (1 / 2) [] none true (15 / 100) (reflectedOn (77 / 100))
    fun op hop => ?_).mpr fun rt op hop => ?_⟩
  · rcases List.mem_cons.mp hop with rfl | hop
    · exact ⟨0, "plan", .asserted "ship", .userStatement 0, 9 / 10, none,
        Epica.defaultReflectionThreshold, false, rfl⟩
    · rw [List.mem_singleton.mp hop]
      exact trivial
  · rcases stepOf_cons.mp hop with ⟨rfl, rfl⟩ | hop
    · exact trivial
    · rcases stepOf_cons.mp hop with ⟨rfl, rfl⟩ | hop
      · exact fun _ => by decide +kernel
      · exact absurd hop not_stepOf_nil

/-- an answer of `2` is written as it comes -/
theorem confidence_above_one :
    (∀ op ∈ reflectedOn 2, op.InsertsMade) ∧
    ¬ ∀ rt, StateOf sessionStep (build (.new : BeliefQuad SlotVec EdgeList) (1 / 2) [] none true
      (15 / 100)) (reflectedOn 2) rt → rt.quad.Bounded := by
  refine ⟨fun op hop => ?_, fun h => ?_⟩
  · rcases List.mem_cons.mp hop with rfl | hop
    · exact ⟨0, "plan", .asserted "ship", .userStatement 0, 9 / 10, none,
        Epica.defaultReflectionThreshold, false, rfl⟩
    · rw [List.mem_singleton.mp hop]
      exact trivial
  · have hbounded := h _ (stateOf_last _ _)
    have hslow : ((run sessionStep (build (.new : BeliefQuad SlotVec EdgeList) (1 / 2) [] none true
        (15 / 100)) (reflectedOn 2)).quad.get ⟨1, 1⟩).bind BeliefNode.slowConfidence = some 2 := by
      decide +kernel
    obtain ⟨n, hn, hx⟩ := Option.bind_eq_some_iff.mp hslow
    exact absurd ((hbounded _ n hn).slow 2 hx) (by decide)

end
end BeliefRuntime
end Epica
