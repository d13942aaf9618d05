import Epica.Core.RevisionLaws
import Epica.Runtime.Errors

/-!
# Updates that interleave

Any number of calls of `updateBelief` on one runtime, each at its own lock section: a step lets one
call run its next section.  A call that recovers restores a whole quad, as it was at a checkpoint
that may predate what the other calls have written since.

* `step_holds_iff`       the sections that decide whether the value a call has written is held;
* `update_kept_iff`      the value is held in the end exactly when the last of them favours it.
-/

set_option linter.unusedSectionVars false

namespace Epica
open Lib

/-! ## the values of a quad -/

namespace BeliefQuad
section
variable {M : Type → Type} {G : Type → Type → Type} [SlotMap M] [StableDiGraph G] [Platform]

/-- the value of a live belief -/
def valueAt (q : BeliefQuad M G) (id : BeliefId) : Option BeliefValue :=
  (q.get id).map BeliefNode.value

theorem OnlyConfidences.valueAt {q q' : BeliefQuad M G} (h : q.OnlyConfidences q')
    (id : BeliefId) : q'.valueAt id = q.valueAt id := h.map BeliefNode.value (fun _ _ => rfl) id

variable (q : BeliefQuad M G) (stamp : Stamp) (order : HashOrder BeliefId) (id : BeliefId)
  (v : BeliefValue) (p : Provenance) (c : ℚ)

theorem valueAt_revise_retracted {j : BeliefId} (h : j ∈ q.retracts id v) :
    (q.revise stamp order id v p c).2.valueAt j = none := by
  unfold BeliefQuad.valueAt
  rw [get_revise, if_pos h]
  rfl

theorem valueAt_revise_other {j : BeliefId} (h : j ∉ q.retracts id v) (hj : j ≠ id) :
    (q.revise stamp order id v p c).2.valueAt j = q.valueAt j := by
  unfold BeliefQuad.valueAt
  rw [get_revise, if_neg h, if_neg fun h => hj h.1]

/-- a revision that goes through writes the value -/
theorem valueAt_revise_self {record : RevisionRecord}
    (h : (q.revise stamp order id v p c).1 = .ok record) :
    id ∉ q.retracts id v ∧ (q.revise stamp order id v p c).2.valueAt id = some v := by
  obtain ⟨hl, ha, hm⟩ := (revise_ok_iff q stamp order id v p c).mp ⟨record, h⟩
  have hr : id ∉ q.retracts id v := by
    unfold retracts
    rw [if_pos ha]
    exact hm
  refine ⟨hr, ?_⟩
  obtain ⟨n, hn⟩ := live_iff.mp hl
  unfold BeliefQuad.valueAt
  rw [get_revise, if_neg hr, if_pos ⟨rfl, ha⟩, hn]
  rfl

/-- a revision that fails writes no value -/
theorem valueAt_revise_failed {e : BeliefRevisionError}
    (h : (q.revise stamp order id v p c).1 = .error e) (hr : id ∉ q.retracts id v) :
    (q.revise stamp order id v p c).2.valueAt id = q.valueAt id := by
  unfold BeliefQuad.valueAt
  rw [get_revise, if_neg hr]
  by_cases ha : (q.auditOf id v).allCriticalPass = true
  · have hdead : ¬ q.Live id := by
      intro hl
      unfold retracts at hr
      rw [if_pos ha] at hr
      obtain ⟨record, hok⟩ := (revise_ok_iff q stamp order id v p c).mpr ⟨hl, ha, hr⟩
      rw [h] at hok
      cases hok
    rw [if_pos ⟨rfl, ha⟩, not_live_iff.mp hdead]
    rfl
  · rw [if_neg fun h => ha h.2]

end
end BeliefQuad

/-! ## calls in flight -/

/-- the call has returned, and not an error -/
def UpdatePc.returnedOk : UpdatePc → Bool
  | .done (.ok _) => true
  | _ => false

/-- a runtime, and where each of its callers is -/
structure InFlight (T : Type) (M : Type → Type) (G : Type → Type → Type) where
  runtime : BeliefRuntime M G
  pc : T → UpdatePc

namespace InFlight
section
variable {M : Type → Type} {G : Type → Type → Type} [SlotMap M] [StableDiGraph G] [Platform]
  {T : Type} [DecidableEq T]

def start (rt : BeliefRuntime M G) : InFlight T M G := ⟨rt, fun _ => .start⟩

/-- the caller `t` runs its next lock section -/
def step (calls : T → UpdateCall) (s : InFlight T M G) (t : T) : InFlight T M G :=
  let r := lockSection (calls t) s.runtime (s.pc t)
  ⟨r.1, Function.update s.pc t r.2⟩

/-- the value that `b` writes is held -/
def Holds (calls : T → UpdateCall) (b : T) (s : InFlight T M G) : Prop :=
  s.runtime.quad.valueAt (calls b).id = some (calls b).value

/-- `t` is about to revise on behalf of `b`, and the revision goes through -/
def Writes (calls : T → UpdateCall) (b : T) (s : InFlight T M G) (t : T) : Prop :=
  t = b ∧ (∃ beliefKey cp, s.pc t = .revise beliefKey cp) ∧
    ∃ out, (s.runtime.reviseAndPropagate (calls t)).1 = .ok out

/-- `t` is about to revise, and retracts the belief of `b` -/
def Retracts (calls : T → UpdateCall) (b : T) (s : InFlight T M G) (t : T) : Prop :=
  (∃ beliefKey cp, s.pc t = .revise beliefKey cp) ∧
    (calls b).id ∈ s.runtime.quad.retracts (calls t).id (calls t).value

/-- `t` is about to check the invariants, and recovers to `snap` -/
def RollsBackTo (s : InFlight T M G) (t : T) (snap : BeliefQuad M G) : Prop :=
  ∃ beliefKey cp fast contradicted, s.pc t = .postUpdate beliefKey cp fast contradicted ∧
    RecoversTo s.runtime.contractEngine.contracts s.runtime.quad (some cp) snap

/-- the section `t` is about to run decides whether the value of `b` is held -/
def Decides (calls : T → UpdateCall) (b : T) (s : InFlight T M G) (t : T) : Prop :=
  Writes calls b s t ∨ Retracts calls b s t ∨ ∃ snap, RollsBackTo s t snap

/-- it is the write of `b`, or it restores a quad that holds the value -/
def Favours (calls : T → UpdateCall) (b : T) (s : InFlight T M G) (t : T) : Prop :=
  Writes calls b s t ∨
    ∃ snap, RollsBackTo s t snap ∧ snap.valueAt (calls b).id = some (calls b).value

variable {calls : T → UpdateCall} {b : T}

/-- what the revision section of `t` does to the value of `b` -/
theorem revise_holds (hne : ∀ t, t ≠ b → (calls t).id ≠ (calls b).id) {s : InFlight T M G} {t : T}
    {beliefKey : String} {cp : CheckpointId} (hpc : s.pc t = .revise beliefKey cp) :
    (Writes calls b s t ∧ ¬ Retracts calls b s t ∧
      (s.runtime.reviseAndPropagate (calls t)).2.quad.valueAt (calls b).id =
        some (calls b).value) ∨
    (¬ Writes calls b s t ∧ Retracts calls b s t ∧
      (s.runtime.reviseAndPropagate (calls t)).2.quad.valueAt (calls b).id = none) ∨
    (¬ Writes calls b s t ∧ ¬ Retracts calls b s t ∧
      (s.runtime.reviseAndPropagate (calls t)).2.quad.valueAt (calls b).id =
        s.runtime.quad.valueAt (calls b).id) := by
  have honly := (s.runtime.reviseAndPropagate_only (calls t)).valueAt (calls b).id
  rw [honly]
  by_cases hr : (calls b).id ∈ s.runtime.quad.retracts (calls t).id (calls t).value
  · refine Or.inr (Or.inl ⟨?_, ⟨⟨_, _, hpc⟩, hr⟩, ?_⟩)
    · intro hp
      obtain ⟨rfl, -, out, hout⟩ := hp
      rcases s.runtime.reviseAndPropagate_cases (calls t) with
        ⟨e, -, he, -⟩ | ⟨record, -, hok, -, -⟩
      · rw [he] at hout
        cases hout
      · exact (BeliefQuad.valueAt_revise_self _ _ _ _ _ _ _ hok).1 hr
    · exact BeliefQuad.valueAt_revise_retracted _ _ _ _ _ _ _ hr
  · have hnr : ¬ Retracts calls b s t := fun h => hr h.2
    by_cases ht : t = b
    · subst ht
      rcases s.runtime.reviseAndPropagate_cases (calls t) with
        ⟨e, he, he', -⟩ | ⟨record, out, hok, hok', -⟩
      · refine Or.inr (Or.inr ⟨?_, hnr, ?_⟩)
        · intro hp
          obtain ⟨-, -, out, hout⟩ := hp
          rw [he'] at hout
          cases hout
        · exact BeliefQuad.valueAt_revise_failed _ _ _ _ _ _ _ he hr
      · exact Or.inl ⟨⟨rfl, ⟨_, _, hpc⟩, out, hok'⟩, hnr,
          (BeliefQuad.valueAt_revise_self _ _ _ _ _ _ _ hok).2⟩
    · exact Or.inr (Or.inr ⟨fun hw => ht hw.1, hnr,
        BeliefQuad.valueAt_revise_other _ _ _ _ _ _ _ hr (hne t ht).symm⟩)

/-- a section that neither writes nor retracts nor rolls back does not decide -/
theorem not_decides {s : InFlight T M G} {t : T} (hw : ¬ Writes calls b s t)
    (hr : ¬ Retracts calls b s t) (hs : ∀ snap, ¬ RollsBackTo s t snap) :
    ¬ Decides calls b s t := by
  intro hd
  rcases hd with h | h | ⟨snap, h⟩
  · exact hw h
  · exact hr h
  · exact hs snap h

/-- outside a revision section nothing is written and nothing retracted -/
theorem not_writes_of_pc {s : InFlight T M G} {t : T}
    (hpc : ∀ beliefKey cp, s.pc t ≠ .revise beliefKey cp) :
    ¬ Writes calls b s t ∧ ¬ Retracts calls b s t := by
  constructor
  · intro hw
    obtain ⟨-, ⟨beliefKey, cp, h⟩, -⟩ := hw
    exact hpc beliefKey cp h
  · intro hr
    obtain ⟨⟨beliefKey, cp, h⟩, -⟩ := hr
    exact hpc beliefKey cp h

/-- outside a check of the invariants nothing is rolled back -/
theorem not_rollsBackTo_of_pc {s : InFlight T M G} {t : T} (hpc : ∀ beliefKey cp fast contradicted,
    s.pc t ≠ .postUpdate beliefKey cp fast contradicted) (snap : BeliefQuad M G) :
    ¬ RollsBackTo s t snap := by
  intro hs
  obtain ⟨beliefKey, cp, fast, contradicted, h, -⟩ := hs
  exact hpc beliefKey cp fast contradicted h

/-- in a check of the invariants, what is rolled back to is what the contracts recover to -/
theorem rollsBackTo_iff {s : InFlight T M G} {t : T} {beliefKey : String} {cp : CheckpointId}
    {fast : ℚ} {contradicted : Bool}
    (hpc : s.pc t = .postUpdate beliefKey cp fast contradicted) (snap : BeliefQuad M G) :
    RollsBackTo s t snap ↔
      RecoversTo s.runtime.contractEngine.contracts s.runtime.quad (some cp) snap := by
  constructor
  · intro hs
    obtain ⟨_, _, _, _, hpc', h⟩ := hs
    rw [hpc] at hpc'
    cases hpc'
    exact h
  · exact fun h => ⟨_, _, _, _, hpc, h⟩

/-- a revision section decides, or it keeps the value of `b` -/
theorem revise_holds_iff (hne : ∀ t, t ≠ b → (calls t).id ≠ (calls b).id) {s : InFlight T M G}
    {t : T} {beliefKey : String} {cp : CheckpointId} (hpc : s.pc t = .revise beliefKey cp) :
    (Decides calls b s t →
      ((s.runtime.reviseAndPropagate (calls t)).2.quad.valueAt (calls b).id =
        some (calls b).value ↔ Favours calls b s t)) ∧
    (¬ Decides calls b s t →
      ((s.runtime.reviseAndPropagate (calls t)).2.quad.valueAt (calls b).id =
        some (calls b).value ↔ Holds calls b s)) := by
  have hs : ∀ snap, ¬ RollsBackTo s t snap :=
    not_rollsBackTo_of_pc fun _ _ _ _ h => by
      rw [hpc] at h
      cases h
  rcases revise_holds hne hpc with ⟨hw, -, hv⟩ | ⟨hw, hr, hv⟩ | ⟨hw, hr, hv⟩
  · have hd : Decides calls b s t := Or.inl hw
    exact ⟨fun _ => iff_of_true hv (Or.inl hw), fun hnd => absurd hd hnd⟩
  · have hd : Decides calls b s t := Or.inr (Or.inl hr)
    have hnf : ¬ Favours calls b s t := by
      intro hf
      rcases hf with h | ⟨snap, h, -⟩
      · exact hw h
      · exact hs snap h
    rw [hv]
    exact ⟨fun _ => iff_of_false (fun h => nomatch h) hnf, fun hnd => absurd hd hnd⟩
  · have hnd : ¬ Decides calls b s t := not_decides hw hr hs
    rw [hv]
    exact ⟨fun hd => absurd hd hnd, fun _ => Iff.rfl⟩

/-- a check of the invariants decides, or it keeps the value of `b` -/
theorem postUpdate_holds_iff {s : InFlight T M G} {t : T} {beliefKey : String} {cp : CheckpointId}
    {fast : ℚ} {contradicted : Bool}
    (hpc : s.pc t = .postUpdate beliefKey cp fast contradicted) :
    (Decides calls b s t →
      ((s.runtime.postUpdate (calls t) cp beliefKey).2.quad.valueAt (calls b).id =
        some (calls b).value ↔ Favours calls b s t)) ∧
    (¬ Decides calls b s t →
      ((s.runtime.postUpdate (calls t) cp beliefKey).2.quad.valueAt (calls b).id =
        some (calls b).value ↔ Holds calls b s)) := by
  have hrec := rollsBackTo_iff hpc
  obtain ⟨hw, hr⟩ : ¬ Writes calls b s t ∧ ¬ Retracts calls b s t :=
    not_writes_of_pc fun _ _ h => by
      rw [hpc] at h
      cases h
  rcases s.runtime.contractEngine.postUpdate_quad s.runtime.quad (some cp) beliefKey "system"
      (calls t).auditMs with ⟨snap, hs, hv⟩ | ⟨hno, hv⟩
  · have hd : Decides calls b s t := Or.inr (Or.inr ⟨snap, (hrec snap).mpr hs⟩)
    have hquad : (s.runtime.postUpdate (calls t) cp beliefKey).2.quad = snap := hv
    rw [hquad]
    refine ⟨fun _ => ?_, fun hnd => absurd hd hnd⟩
    constructor
    · exact fun h => Or.inr ⟨snap, (hrec snap).mpr hs, h⟩
    · intro hf
      rcases hf with h | ⟨snap', h', hheld⟩
      · exact absurd h hw
      · have huniq : snap = snap' := hs.unique ((hrec snap').mp h')
        rw [huniq]
        exact hheld
  · have hnd : ¬ Decides calls b s t :=
      not_decides hw hr fun snap h => hno snap ((hrec snap).mp h)
    have hval : (s.runtime.postUpdate (calls t) cp beliefKey).2.quad.valueAt (calls b).id =
        s.runtime.quad.valueAt (calls b).id := hv.valueAt _
    rw [hval]
    exact ⟨fun hd => absurd hd hnd, fun _ => Iff.rfl⟩

/-- **what one section does to the value of `b`**: it decides, or it keeps -/
theorem step_holds_iff (hne : ∀ t, t ≠ b → (calls t).id ≠ (calls b).id) (s : InFlight T M G)
    (t : T) :
    (Decides calls b s t → (Holds calls b (step calls s t) ↔ Favours calls b s t)) ∧
    (¬ Decides calls b s t → (Holds calls b (step calls s t) ↔ Holds calls b s)) := by
  have hfst := lockSection_fst (calls t) s.runtime (s.pc t)
  have hholds : Holds calls b (step calls s t) ↔
      (lockSection (calls t) s.runtime (s.pc t)).1.quad.valueAt (calls b).id =
        some (calls b).value := Iff.rfl
  rw [hholds, hfst]
  cases hpc : s.pc t with
  | revise beliefKey cp => exact revise_holds_iff hne hpc
  | postUpdate beliefKey cp fast contradicted => exact postUpdate_holds_iff hpc
  | _ =>
    obtain ⟨hw, hr⟩ : ¬ Writes calls b s t ∧ ¬ Retracts calls b s t :=
      not_writes_of_pc fun _ _ h => by
        rw [hpc] at h
        cases h
    have hs : ∀ snap, ¬ RollsBackTo s t snap :=
      not_rollsBackTo_of_pc fun _ _ _ _ h => by
        rw [hpc] at h
        cases h
    exact ⟨fun hd => absurd hd (not_decides hw hr hs), fun _ => Iff.rfl⟩

/-! ## runs of calls in flight -/

/-- the revision of the call has gone through -/
def revised : UpdatePc → Bool
  | .postUpdate _ _ _ _ => true
  | .markCorrect _ => true
  | .readTau _ => true
  | .readSignal _ => true
  | .pushHistory _ _ => true
  | .done (.ok _) => true
  | _ => false

theorem revised_of_returnedOk {pc : UpdatePc} (h : pc.returnedOk = true) : revised pc = true := by
  unfold UpdatePc.returnedOk at h
  split at h
  · rfl
  · cases h

/-- only the revision section gets there -/
theorem lockSection_revised {call : UpdateCall} {rt : BeliefRuntime M G} {pc : UpdatePc}
    (hpc : revised pc = false) (h : revised (lockSection call rt pc).2 = true) :
    (∃ beliefKey cp, pc = .revise beliefKey cp) ∧
      ∃ out, (rt.reviseAndPropagate call).1 = .ok out := by
  cases pc with
  | start => cases h
  | preUpdate beliefKey =>
    simp only [lockSection] at h
    split at h <;> cases h
  | trackTokens beliefKey =>
    simp only [lockSection] at h
    split at h <;> cases h
  | checkpoint beliefKey => cases h
  | revise beliefKey cp =>
    refine ⟨⟨beliefKey, cp, rfl⟩, ?_⟩
    simp only [lockSection] at h
    rcases hr : rt.reviseAndPropagate call with ⟨_ | out, rt'⟩
    · rw [hr] at h
      cases h
    · exact ⟨out, rfl⟩
  | done result =>
    rw [show (lockSection call rt (.done result)).2 = .done result from rfl, hpc] at h
    cases h
  | _ => cases hpc

/-- a call that returns without an error has written -/
theorem exists_write (calls : T → UpdateCall) (b : T) (rt : BeliefRuntime M G) (sched : List T)
    (h : ((run (step calls) (start rt) sched).pc b).returnedOk = true) :
    ∃ s t, StepOf (step calls) (start rt) sched s t ∧ Writes calls b s t := by
  have hrun : revised ((run (step calls) (start rt) sched).pc b) = true := revised_of_returnedOk h
  have hstart : ¬ revised ((start rt : InFlight T M G).pc b) = true := Bool.false_ne_true
  obtain ⟨s, t, hst, hno, hyes⟩ := @exists_flip _ _ (step calls)
    (fun s : InFlight T M G => revised (s.pc b) = true) (start rt) sched hstart hrun
  refine ⟨s, t, hst, ?_⟩
  have hpc : revised (s.pc b) = false := Bool.eq_false_iff.mpr hno
  have hupd : (step calls s t).pc b =
      if b = t then (lockSection (calls t) s.runtime (s.pc t)).2 else s.pc b := by
    show Function.update s.pc t _ b = _
    rw [Function.update_apply]
  rw [hupd] at hyes
  by_cases hbt : b = t
  · subst hbt
    rw [if_pos rfl] at hyes
    obtain ⟨hrev, hout⟩ := lockSection_revised hpc hyes
    exact ⟨rfl, hrev, hout⟩
  · rw [if_neg hbt, hpc] at hyes
    cases hyes

/-- **the value a call has written is held in the end exactly when the last section that decides
it favours it**: the last of the write itself, of the revisions that retract the belief, and of
the recoveries that restore a checkpoint, is the write, or restores a quad with the value -/
theorem update_kept_iff (calls : T → UpdateCall) (b : T)
    (hne : ∀ t, t ≠ b → (calls t).id ≠ (calls b).id) (rt : BeliefRuntime M G) (sched : List T)
    (hok : ((run (step calls) (start rt) sched).pc b).returnedOk = true) :
    Holds calls b (run (step calls) (start rt) sched) ↔
      ∃ s t, LastStepOf (step calls) (Decides calls b) (start rt) sched s t ∧
        Favours calls b s t := by
  refine last_decides (fun s t hd => (step_holds_iff hne s t).2 hd)
    (fun s t hd => (step_holds_iff hne s t).1 hd) (start rt) sched ?_
  obtain ⟨s, t, hst, hw⟩ := exists_write calls b rt sched hok
  exact ⟨s, t, hst, Or.inl hw⟩

end

section
attribute [local instance] Platform.ascii

inductive Caller where
  | doubter
  | planner
deriving DecidableEq

/-- a goal, which a contract wants to be held with confidence `1/2`, and a plan -/
def planned : BeliefRuntime SlotVec EdgeList :=
  .build (run BeliefQuad.step .new
    [.insert (.new 0 "goal" (.asserted "wait") (.userStatement 0) (9 / 10)),
     .insert (.new 0 "plan" (.asserted "draft") (.userStatement 0) (9 / 10))])
    (1 / 2) [keepGoal .hard] none false (15 / 100)

/-- one caller doubts the goal, the other changes the plan -/
def callOf : Caller → UpdateCall
  | .doubter => .at 11 ⟨1, 1⟩ (.asserted "ship") (1 / 10)
  | .planner => .at 21 ⟨2, 1⟩ (.asserted "final") (9 / 10)

def inTurn : List Caller := List.replicate 8 .doubter ++ List.replicate 8 .planner

/-- one after the other, the plan stays -/
theorem update_kept_inTurn : ∃ s t, LastStepOf (step callOf) (Decides callOf .planner)
    (start planned) inTurn s t ∧ Favours callOf .planner s t := by
  have hne : ∀ t, t ≠ Caller.planner → (callOf t).id ≠ (callOf .planner).id := by
    intro t ht
    cases t with
    | doubter => decide
    | planner => exact absurd rfl ht
  have hholds : Holds callOf .planner (run (step callOf) (start planned) inTurn) := by
    unfold Holds
    decide +kernel
  exact (update_kept_iff callOf .planner hne planned inTurn (by decide +kernel)).mp hholds

/-- the doubter up to its checkpoint, the whole planner, the rest of the doubter -/
def overlapping : List Caller :=
  List.replicate 4 .doubter ++ List.replicate 8 .planner ++ List.replicate 4 .doubter

/-- there are no causal edges, both calls return without an error, the invariants hold when the
planner has revised and when it has returned, and yet the recovery of the doubter takes the plan
back -/
theorem update_lost : planned.quad.causal.allEdges = [] ∧
    (callOf .doubter).id ≠ (callOf .planner).id ∧
    (∀ t, ((run (step callOf) (start planned) overlapping).pc t).returnedOk = true) ∧
    (∀ n ∈ [9, 10, 12], ∀ inv ∈ (keepGoal .hard).invariants, inv.predicate.evaluate
      (run (step callOf) (start planned) (overlapping.take n)).runtime.quad = true) ∧
    (run (step callOf) (start planned) (overlapping.take 12)).runtime.quad.valueAt ⟨2, 1⟩ =
      some (.asserted "final") ∧
    ¬ Holds callOf .planner (run (step callOf) (start planned) overlapping) := by
  refine ⟨by decide +kernel, by decide, ?_, by decide +kernel, by decide +kernel, ?_⟩
  · intro t
    cases t with
    | doubter => decide +kernel
    | planner => decide +kernel
  · unfold Holds
    decide +kernel

end
end InFlight
end Epica
