import Epica.Runtime.Errors

/-!
# Which invariants an update keeps

One recovery is run in a call, on the first hard violation; what it leaves is checked for critical
violations only, and only by that contract's remaining violations and the contracts after it.

* `postUpdate_ok_iff`     when the contract section succeeds (`Passes`);
* `updateBelief_upholds`  the invariants that a successful update keeps.
-/

set_option linter.unusedSectionVars false

namespace Epica
open Lib

section
variable {M : Type → Type} {G : Type → Type → Type} [SlotMap M] [StableDiGraph G]

/-! ## the severe invariants of a contract -/

namespace BehavioralContract

/-- the hard and critical invariants hold -/
def Upholds (contract : BehavioralContract M G) (quad : BeliefQuad M G) : Prop :=
  ∀ inv ∈ contract.invariants, inv.violationClass ≠ .soft → inv.predicate.evaluate quad = true

/-- the critical invariants hold -/
def UpholdsCritical (contract : BehavioralContract M G) (quad : BeliefQuad M G) : Prop :=
  ∀ inv ∈ contract.invariants, inv.violationClass = .critical → inv.predicate.evaluate quad = true

instance (contract : BehavioralContract M G) (quad : BeliefQuad M G) :
    Decidable (contract.Upholds quad) :=
  inferInstanceAs (Decidable (∀ inv ∈ contract.invariants, _))

theorem firstSevere_eq_none_iff (contract : BehavioralContract M G) (quad : BeliefQuad M G)
    (lastCheckpoint : Option CheckpointId) :
    contract.firstSevere quad lastCheckpoint = none ↔ contract.Upholds quad := by
  unfold firstSevere
  rw [List.find?_eq_none]
  constructor
  · intro h inv hinv hsevere
    by_contra hfails
    have hv := mem_collectAllViolations.mpr
      ⟨inv, hinv, Bool.eq_false_iff.mpr hfails, (rfl : _ = ContractViolation.mk _ _ quad.version
        lastCheckpoint)⟩
    exact h _ hv (decide_eq_true hsevere)
  · intro h v hv hsevere
    obtain ⟨inv, hinv, hfails, rfl⟩ := mem_collectAllViolations.mp hv
    have hholds := h inv hinv (of_decide_eq_true hsevere)
    rw [hfails] at hholds
    cases hholds

theorem upholdsCritical_iff (contract : BehavioralContract M G) (quad : BeliefQuad M G)
    (lastCheckpoint : Option CheckpointId) : contract.UpholdsCritical quad ↔
      ∀ v ∈ contract.collectAllViolations quad lastCheckpoint, v.violationClass ≠ .critical := by
  constructor
  · intro h v hv hcritical
    obtain ⟨inv, hinv, hfails, rfl⟩ := mem_collectAllViolations.mp hv
    have hholds := h inv hinv hcritical
    rw [hfails] at hholds
    cases hholds
  · intro h inv hinv hcritical
    by_contra hfails
    exact h _ (mem_collectAllViolations.mpr
      ⟨inv, hinv, Bool.eq_false_iff.mpr hfails, rfl⟩) hcritical

theorem Upholds.critical {contract : BehavioralContract M G} {quad : BeliefQuad M G}
    (h : contract.Upholds quad) : contract.UpholdsCritical quad := fun inv hinv hcritical =>
  h inv hinv (by rw [hcritical]; decide)

end BehavioralContract

/-! ## when the contract section succeeds -/

section
variable [Platform]

/-- nothing severe is violated on `quad`; or what is violated first is hard, its recovery succeeds,
its contract violates nothing critical, nor does a later one on the recovered quad -/
def Passes (lastCheckpoint : Option CheckpointId) (quad : BeliefQuad M G) :
    List (BehavioralContract M G) → Prop
  | [] => True
  | contract :: post =>
    match contract.firstSevere quad lastCheckpoint with
    | none => Passes lastCheckpoint quad post
    | some v => v.violationClass = .hard ∧ contract.UpholdsCritical quad ∧
        ∃ out recovered, executeRecovery quad v contract.recovery = (.ok out, recovered) ∧
          ∀ later ∈ post, later.UpholdsCritical recovered

variable {sovereignty : Option (MnemonicSovereignty M G)} {quad : BeliefQuad M G}
  {contract : BehavioralContract M G} {lastCheckpoint : Option CheckpointId}

theorem handleViolation_settled_ok_iff {s : PostUpdate M G} (h : Settled quad s)
    (v : ContractViolation) :
    (handleViolation sovereignty contract s v).1 = .ok () ↔ v.violationClass ≠ .critical := by
  have hcond : ¬ (!s.sawHard && s.outcome.isNone) = true := by
    rw [Bool.and_eq_true, Option.isNone_iff_eq_none]
    intro hp
    have ho := h.2
    rw [hp.2] at ho
    cases ho
  unfold handleViolation
  cases v.violationClass with
  | soft => exact iff_of_true rfl (by decide)
  | hard =>
    simp only [if_neg hcond]
    exact iff_of_true trivial (by decide)
  | critical => exact iff_of_false (fun he => nomatch he) (fun hne => hne rfl)

/-- after a recovery only critical violations are errors -/
theorem handleContract_settled_ok_iff {s : PostUpdate M G} (h : Settled quad s)
    (contract : BehavioralContract M G) :
    (handleContract sovereignty lastCheckpoint s contract).1 = .ok () ↔
      contract.UpholdsCritical quad := by
  have h' : Settled quad { s with sawHard := false } := h
  have hvs : contract.collectAllViolations s.quad lastCheckpoint =
      contract.collectAllViolations quad lastCheckpoint := by rw [h.1]
  rw [contract.upholdsCritical_iff quad lastCheckpoint]
  unfold handleContract
  rw [hvs]
  exact tryFold_ok_iff (handleViolation sovereignty contract) (Settled quad)
    (fun v => v.violationClass ≠ .critical) (fun _ v hs => (handleViolation_settled hs v).1)
    (fun _ v hs => handleViolation_settled_ok_iff hs v) h' _

/-- the first hard violation runs the recovery -/
theorem handleViolation_hard (sovereignty : Option (MnemonicSovereignty M G))
    (contract : BehavioralContract M G) {s : PostUpdate M G} (h : Quiet quad s)
    {v : ContractViolation} (hv : v.violationClass = .hard) :
    (∃ out recovered s', executeRecovery quad v contract.recovery = (.ok out, recovered) ∧
      handleViolation sovereignty contract s v = (.ok (), s') ∧ Settled recovered s') ∨
    (∃ e recovered s', executeRecovery quad v contract.recovery = (.error e, recovered) ∧
      handleViolation sovereignty contract s v = (.error e, s')) := by
  have hcond : (!s.sawHard && s.outcome.isNone) = true := by
    rw [h.sawHard, h.outcome]
    rfl
  unfold handleViolation
  simp only [hv, if_pos hcond, h.quad]
  rcases executeRecovery quad v contract.recovery with ⟨e | ⟨diff, applied⟩, recovered⟩
  · exact .inr ⟨e, recovered, _, rfl, rfl⟩
  · exact .inl ⟨(diff, applied), recovered, _, rfl, rfl, rfl, rfl⟩

/-- the violations after a recovery: one that is critical is an error -/
theorem handleViolations_settled (sovereignty : Option (MnemonicSovereignty M G))
    (contract : BehavioralContract M G) (vs : List ContractViolation) {s : PostUpdate M G}
    (h : Settled quad s) :
    ((∀ w ∈ vs, w.violationClass ≠ .critical) ∧
      ∃ s', tryFold (handleViolation sovereignty contract) s vs = (.ok (), s') ∧
        Settled quad s') ∨
    (¬ (∀ w ∈ vs, w.violationClass ≠ .critical) ∧
      ∃ e s', tryFold (handleViolation sovereignty contract) s vs = (.error e, s')) := by
  have hok := tryFold_ok_iff (handleViolation sovereignty contract) (Settled quad)
    (fun v => v.violationClass ≠ .critical) (fun _ v hs => (handleViolation_settled hs v).1)
    (fun _ v hs => handleViolation_settled_ok_iff hs v) h vs
  have hkept := (tryFold_induction (handleViolation sovereignty contract)
    (Settled quad) IsHalt (fun _ v hs => (handleViolation_settled hs v).1)
    (fun _ v e hs => (handleViolation_settled hs v).2 e) h vs).1
  rcases hf : tryFold (handleViolation sovereignty contract) s vs with ⟨e | u, s'⟩
  · rw [hf] at hok
    exact .inr ⟨fun hp => (nomatch hok.mpr hp), e, s', rfl⟩
  · rw [hf] at hok hkept
    exact .inl ⟨hok.mp rfl, s', rfl, hkept⟩

/-- the violations of the contract that has the first severe one -/
theorem handleViolations_severe (sovereignty : Option (MnemonicSovereignty M G))
    (contract : BehavioralContract M G) (vs : List ContractViolation) {s : PostUpdate M G}
    (h : Quiet quad s) {v : ContractViolation} (hv : vs.find? ContractViolation.severe = some v) :
    (v.violationClass = .hard ∧ (∀ w ∈ vs, w.violationClass ≠ .critical) ∧
      ∃ out recovered s', executeRecovery quad v contract.recovery = (.ok out, recovered) ∧
        tryFold (handleViolation sovereignty contract) s vs = (.ok (), s') ∧
        Settled recovered s') ∨
    (¬ (v.violationClass = .hard ∧ (∀ w ∈ vs, w.violationClass ≠ .critical) ∧
      ∃ out recovered, executeRecovery quad v contract.recovery = (.ok out, recovered)) ∧
      ∃ e s', tryFold (handleViolation sovereignty contract) s vs = (.error e, s')) := by
  induction vs generalizing s with
  | nil => cases hv
  | cons w vs ih =>
    rw [List.forall_mem_cons]
    cases hw : w.severe with
    | false =>
      have hsoft : w.violationClass = .soft := not_not.mp (of_decide_eq_false hw)
      have hnot : w.violationClass ≠ .critical := by
        rw [hsoft]
        decide
      obtain ⟨s', hs, hs'⟩ : ∃ s', handleViolation sovereignty contract s w = (.ok (), s') ∧
        Quiet quad s' := handleViolation_soft h hw
      have hfind : (w :: vs).find? ContractViolation.severe = vs.find? ContractViolation.severe :=
        List.find?_cons_of_neg (by rw [hw]; exact Bool.false_ne_true)
      rw [hfind] at hv
      rw [tryFold_cons_ok hs, and_iff_right hnot]
      exact ih hs' hv
    | true =>
      have hfind : (w :: vs).find? ContractViolation.severe = some w := List.find?_cons_of_pos hw
      obtain rfl := Option.some.inj (hfind.symm.trans hv)
      cases hc : w.violationClass with
      | soft => exact absurd hc (of_decide_eq_true hw)
      | critical =>
        have hr : handleViolation sovereignty contract s w =
            (.error (.contractHalt contract.domain w.invariantDescription w.atVersion),
              { s with violationLog := s.violationLog.pushCritical w }) := by
          unfold handleViolation
          rw [hc]
        rw [tryFold_cons_error hr]
        exact .inr ⟨fun hp => (nomatch hp.1), _, _, rfl⟩
      | hard =>
        rcases handleViolation_hard sovereignty contract h hc with
          ⟨out, recovered, s', hx, hr, hs'⟩ | ⟨e, recovered, s', hx, hr⟩
        · have hne : ViolationClass.hard ≠ .critical := by decide
          rw [tryFold_cons_ok hr]
          rcases handleViolations_settled sovereignty contract vs hs' with
            ⟨hvs, s'', hf, hkept⟩ | ⟨hvs, e, s'', hf⟩
          · exact .inl ⟨rfl, ⟨hne, hvs⟩, out, recovered, s'', hx, hf, hkept⟩
          · exact .inr ⟨fun hp => hvs hp.2.1.2, e, s'', hf⟩
        · rw [tryFold_cons_error hr]
          refine .inr ⟨fun hp => ?_, e, s', rfl⟩
          obtain ⟨-, -, out, recovered', hx'⟩ := hp
          cases (Prod.mk.inj (hx.symm.trans hx')).1

theorem handleContracts_ok_iff (sovereignty : Option (MnemonicSovereignty M G))
    (contracts : List (BehavioralContract M G)) {s : PostUpdate M G}
    (h : Quiet quad s) :
    (tryFold (handleContract sovereignty lastCheckpoint) s contracts).1 = .ok () ↔
      Passes lastCheckpoint quad contracts := by
  induction contracts generalizing s with
  | nil => exact iff_of_true rfl trivial
  | cons contract post ih =>
    unfold Passes
    cases hc : contract.firstSevere quad lastCheckpoint with
    | none =>
      obtain ⟨s', hr, hs'⟩ : ∃ s', handleContract sovereignty lastCheckpoint s contract =
        (.ok (), s') ∧ Quiet quad s' := handleContract_quiet h hc
      rw [tryFold_cons_ok hr]
      exact ih hs'
    | some v =>
      have h' : Quiet quad { s with sawHard := false } := ⟨h.quad, h.outcome, rfl⟩
      have hvs : contract.collectAllViolations s.quad lastCheckpoint =
          contract.collectAllViolations quad lastCheckpoint := by rw [h.quad]
      have hrun : handleContract sovereignty lastCheckpoint s contract =
          tryFold (handleViolation sovereignty contract) { s with sawHard := false }
            (contract.collectAllViolations quad lastCheckpoint) := by
        unfold handleContract
        rw [hvs]
      simp only [contract.upholdsCritical_iff quad lastCheckpoint]
      rcases handleViolations_severe sovereignty contract
          (contract.collectAllViolations quad lastCheckpoint) h' hc with
        ⟨hhard, hcritical, out, recovered, s', hx, hr, hs'⟩ | ⟨hno, e, s', hr⟩
      · rw [tryFold_cons_ok (hrun.trans hr),
          tryFold_ok_iff (handleContract sovereignty lastCheckpoint) (Settled recovered)
          (fun later => later.UpholdsCritical recovered)
          (fun _ later hs => (handleContract_settled hs later).1)
          (fun _ later hs => handleContract_settled_ok_iff hs later) hs' post]
        refine ⟨fun hpost => ⟨hhard, hcritical, out, recovered, hx, hpost⟩, fun hp => ?_⟩
        obtain ⟨-, -, out', recovered', hx', hpost⟩ := hp
        obtain rfl := (Prod.mk.inj (hx.symm.trans hx')).2
        exact hpost
      · rw [tryFold_cons_error (hrun.trans hr)]
        refine iff_of_false (fun he => nomatch he) fun hp => ?_
        obtain ⟨hhard, hcritical, out, recovered, hx, -⟩ := hp
        exact hno ⟨hhard, hcritical, out, recovered, hx⟩

/-- **when the contract section succeeds** -/
theorem postUpdate_ok_iff (engine : ContractEngine M G) (beliefKey agentId : String)
    (nowMs : Nat) :
    (engine.postUpdate quad lastCheckpoint beliefKey agentId nowMs).1.isOk = true ↔
      Passes lastCheckpoint quad engine.contracts := by
  have hq : Quiet quad ⟨quad, engine.violationLog, none, false⟩ := ⟨rfl, rfl, rfl⟩
  rw [← handleContracts_ok_iff engine.sovereignty engine.contracts hq]
  unfold ContractEngine.postUpdate
  rcases tryFold (handleContract engine.sovereignty lastCheckpoint)
      ⟨quad, engine.violationLog, none, false⟩ engine.contracts with ⟨e | u, s⟩
  · exact iff_of_false (fun h => nomatch h) (fun h => nomatch h)
  · exact iff_of_true rfl rfl

/-! ## the first severe violation over the contracts -/

theorem firstSevere_cons_none {post : List (BehavioralContract M G)}
    (h : contract.firstSevere quad lastCheckpoint = none) :
    firstSevere (contract :: post) quad lastCheckpoint = firstSevere post quad lastCheckpoint := by
  unfold firstSevere
  rw [List.find?_cons_of_neg]
  rw [h]
  exact Bool.false_ne_true

theorem firstSevere_cons_some {post : List (BehavioralContract M G)} {v : ContractViolation}
    (h : contract.firstSevere quad lastCheckpoint = some v) :
    firstSevere (contract :: post) quad lastCheckpoint = some (contract, v) := by
  have hsome : (contract.firstSevere quad lastCheckpoint).isSome = true := by
    rw [h]
    rfl
  have hfind : (contract :: post).find? (fun c => (c.firstSevere quad lastCheckpoint).isSome) =
      some contract := List.find?_cons_of_pos hsome
  unfold firstSevere
  rw [hfind]
  show (contract.firstSevere quad lastCheckpoint).map (fun v => (contract, v)) = _
  rw [h]
  rfl

theorem upholds_of_firstSevere_none {contracts : List (BehavioralContract M G)}
    (h : firstSevere contracts quad lastCheckpoint = none) :
    ∀ contract ∈ contracts, contract.Upholds quad := by
  induction contracts with
  | nil => exact fun contract hc => absurd hc List.not_mem_nil
  | cons first post ih =>
    cases hf : first.firstSevere quad lastCheckpoint with
    | none =>
      rw [firstSevere_cons_none hf] at h
      exact List.forall_mem_cons.mpr ⟨(first.firstSevere_eq_none_iff quad _).mp hf, ih h⟩
    | some v =>
      rw [firstSevere_cons_some hf] at h
      cases h

/-- the contracts after the one that recovers have their critical invariants checked once more -/
theorem Passes.critical_after {pre post : List (BehavioralContract M G)}
    (h : Passes lastCheckpoint quad (pre ++ contract :: post))
    (hpre : ∃ earlier ∈ pre, ¬ earlier.Upholds quad) :
    ∃ first v out recovered,
      firstSevere (pre ++ contract :: post) quad lastCheckpoint = some (first, v) ∧
      executeRecovery quad v first.recovery = (.ok out, recovered) ∧
      contract.UpholdsCritical recovered := by
  induction pre with
  | nil =>
    obtain ⟨earlier, hmem, -⟩ := hpre
    exact absurd hmem List.not_mem_nil
  | cons first pre ih =>
    rw [List.cons_append] at h ⊢
    unfold Passes at h
    cases hf : first.firstSevere quad lastCheckpoint with
    | none =>
      rw [hf] at h
      rw [firstSevere_cons_none hf]
      refine ih h ?_
      obtain ⟨earlier, hmem, hfails⟩ := hpre
      rcases List.mem_cons.mp hmem with rfl | hmem
      · exact absurd ((earlier.firstSevere_eq_none_iff quad _).mp hf) hfails
      · exact ⟨earlier, hmem, hfails⟩
    | some v =>
      rw [hf] at h
      obtain ⟨-, -, out, recovered, hx, hpost⟩ := h
      rw [firstSevere_cons_some hf]
      exact ⟨first, v, out, recovered, rfl, hx,
        hpost contract (List.mem_append_right _ List.mem_cons_self)⟩

end

/-! ## what a successful update keeps -/

/-- the severe invariants do not read the checkpoint history -/
def BehavioralContract.ReadsNoHistory (contract : BehavioralContract M G) : Prop :=
  ∀ inv ∈ contract.invariants, inv.violationClass ≠ .soft →
    ∀ quad, inv.predicate.evaluate quad.stripped = inv.predicate.evaluate quad

namespace BeliefRuntime
variable [Platform] (rt : BeliefRuntime M G) (call : UpdateCall)

/-- a successful update has passed the contracts -/
theorem verdict_of_ok (h : (rt.updateBelief call).1.isOk = true) :
    (rt.updateBelief call).2.quad = (rt.verdict call).2.2 ∧ (rt.verdict call).1.isOk = true := by
  rcases rt.updateBelief_cases call with
    ⟨-, -, e, -, hr⟩ | ⟨-, -, e, -, hr⟩ | ⟨-, -, hq, hr⟩
  · rw [hr] at h
    cases h
  · rw [hr] at h
    cases h
  · refine ⟨hq, ?_⟩
    cases hv : (rt.verdict call).1 with
    | error e =>
      rw [(hr e).mpr hv] at h
      cases h
    | ok => rfl

/-- a contract that rolls back to the last checkpoint undoes the call -/
theorem quad_of_rollback (hfresh : ∀ cp ∈ rt.quad.checkpoints, cp.id ≠ call.checkpointStamp.uuid)
    {contract : BehavioralContract M G} {v : ContractViolation}
    (hv : v.lastValidCheckpoint = some call.checkpointStamp.uuid)
    (hpolicy : contract.recovery = .rollbackToLastCheckpoint)
    {out : Option BeliefQuadDiff × RecoveryPolicy} {recovered : BeliefQuad M G}
    (hx : executeRecovery (rt.revisedQuad call) v contract.recovery = (.ok out, recovered)) :
    recovered = rt.quad.stripped := by
  rw [hpolicy] at hx
  rcases executeRecovery_cases (rt.revisedQuad call) v .rollbackToLastCheckpoint with
    ⟨snap, hs, hx'⟩ | ⟨floor, quad', hp, -, -⟩ | ⟨e, -, -, hx'⟩
  · rw [(Prod.mk.inj (hx.symm.trans hx')).2]
    exact rt.restores_stripped call hfresh hv hs
  · cases hp
  · cases (Prod.mk.inj (hx.symm.trans hx')).1

/-- **the invariants of a contract that a successful update keeps**: all severe ones, if the one
recovery of the call (when there is one) rolls back to the last checkpoint, be it this contract's or
another's; the critical ones, if an earlier contract has run the recovery -/
theorem updateBelief_upholds (pre post : List (BehavioralContract M G))
    (contract : BehavioralContract M G)
    (hcontracts : rt.contractEngine.contracts = pre ++ contract :: post)
    (hreads : contract.ReadsNoHistory)
    (hfresh : ∀ cp ∈ rt.quad.checkpoints, cp.id ≠ call.checkpointStamp.uuid)
    (hbefore : contract.Upholds rt.quad) (hok : (rt.updateBelief call).1.isOk = true) :
    ((∀ first v, firstSevere rt.contractEngine.contracts (rt.revisedQuad call)
        (some call.checkpointStamp.uuid) = some (first, v) →
          first.recovery = .rollbackToLastCheckpoint) →
        contract.Upholds (rt.updateBelief call).2.quad) ∧
      ((∃ earlier ∈ pre, ¬ earlier.Upholds (rt.revisedQuad call)) →
        contract.UpholdsCritical (rt.updateBelief call).2.quad) := by
  obtain ⟨hquad, hverdict⟩ := rt.verdict_of_ok call hok
  have hpasses : Passes (some call.checkpointStamp.uuid) (rt.revisedQuad call)
      rt.contractEngine.contracts := (postUpdate_ok_iff _ _ _ _).mp hverdict
  have hmem : contract ∈ rt.contractEngine.contracts := by
    rw [hcontracts]
    exact List.mem_append_right _ List.mem_cons_self
  rw [hquad]
  rcases rt.contractEngine.postUpdate_cases (rt.revisedQuad call)
      (some call.checkpointStamp.uuid) (rt.keyOf call.id) "system" call.auditMs with
    ⟨hnone, -, hq⟩ | ⟨first, v, -, -, -, he⟩ | ⟨first, v, e, -, -, -, -, he⟩ |
    ⟨first, v, out, hv, -, hx, -⟩
  · -- nothing severe is violated, and the quad stays
    have hall := upholds_of_firstSevere_none hnone contract hmem
    have hq' : (rt.verdict call).2.2 = rt.revisedQuad call := hq
    rw [hq']
    exact ⟨fun _ => hall, fun _ => hall.critical⟩
  · have hverdict' : (rt.verdict call).1 = .error _ := he
    rw [hverdict'] at hverdict
    cases hverdict
  · have hverdict' : (rt.verdict call).1 = .error e := he
    rw [hverdict'] at hverdict
    cases hverdict
  · constructor
    · intro hfirst
      have hstripped := rt.quad_of_rollback call hfresh (lastValidCheckpoint_of_firstSevere hv)
        (hfirst first v hv) hx
      have hstripped' : (rt.verdict call).2.2 = rt.quad.stripped := hstripped
      rw [hstripped']
      intro inv hinv hsevere
      rw [hreads inv hinv hsevere]
      exact hbefore inv hinv hsevere
    · intro hpre
      rw [hcontracts] at hpasses hv
      obtain ⟨first', v', out', recovered, hv', hx', hcritical⟩ := hpasses.critical_after hpre
      obtain ⟨rfl, rfl⟩ := Prod.mk.inj (Option.some.inj (hv.symm.trans hv'))
      have hrecovered : (rt.verdict call).2.2 = recovered :=
        (Prod.mk.inj (hx.symm.trans hx')).2
      rw [hrecovered]
      exact hcritical

end BeliefRuntime
end

section
attribute [local instance] Platform.ascii

/-- a contract that wants the same of the goal, but raises all confidences to `1/5` instead -/
def raiseGoal : BehavioralContract SlotVec EdgeList :=
  { keepGoal .hard with recovery := .degradeAndContinue (1 / 5) }

def guardedBy (contracts : List (BehavioralContract SlotVec EdgeList)) :
    BeliefRuntime SlotVec EdgeList :=
  .build goal (1 / 2) contracts none false (15 / 100)

/-- the goal is rolled back, and so kept -/
theorem updateBelief_upholds_keepGoal :
    (keepGoal .hard).Upholds
      ((guardedBy [keepGoal .hard, raiseGoal]).updateBelief doubt).2.quad := by
  refine ((guardedBy [keepGoal .hard, raiseGoal]).updateBelief_upholds doubt [] [raiseGoal]
    (keepGoal .hard) rfl (fun inv hinv _ quad => ?_) (by decide +kernel) (by decide +kernel)
    (by decide +kernel)).1 fun first v hv => ?_
  · obtain rfl := List.mem_singleton.mp hinv
    rfl
  · have hv' : firstSevere (keepGoal .hard :: [raiseGoal])
        ((guardedBy [keepGoal .hard, raiseGoal]).revisedQuad doubt) (some 11) =
          some (first, v) := hv
    cases hf : (keepGoal .hard).firstSevere
        ((guardedBy [keepGoal .hard, raiseGoal]).revisedQuad doubt) (some 11) with
    | none =>
      have hholds := (BehavioralContract.firstSevere_eq_none_iff _ _ _).mp hf
      exact absurd hholds (by decide +kernel)
    | some w =>
      rw [firstSevere_cons_some hf] at hv'
      obtain ⟨rfl, -⟩ := Prod.mk.inj (Option.some.inj hv')
      rfl

/-- the confidences are raised first, and the goal is not rolled back -/
theorem hard_invariant_lost : ¬ ∀ (rt : BeliefRuntime SlotVec EdgeList) (call : UpdateCall),
    ∀ contract ∈ rt.contractEngine.contracts, contract.recovery = .rollbackToLastCheckpoint →
      contract.Upholds rt.quad → (rt.updateBelief call).1.isOk = true →
        contract.Upholds (rt.updateBelief call).2.quad := by
  intro h
  have hkept := h (guardedBy [raiseGoal, keepGoal .hard]) doubt (keepGoal .hard)
    (List.mem_cons_of_mem _ List.mem_cons_self) rfl (by decide +kernel) (by decide +kernel)
  exact absurd hkept (by decide +kernel)

end
end Epica
