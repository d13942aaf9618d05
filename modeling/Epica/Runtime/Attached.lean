import Epica.Core.DiffLaws
import Epica.Contracts.Config
import Epica.Runtime.Update

/-!
# An attached contract

A runtime starts without contracts, and `withContract` attaches one.  `attached contract log rt` is
`rt` with that contract, and with the violations it has logged so far.  A lock section of an update
runs on both alike until the contract has something to object to.

* `lockSection_attached`   a section to which the contract does not object is the same on both;
* `lockSection_objects`    one to which it objects fails with the contract or leaves other beliefs,
                           and goes on without it.
-/

set_option linter.unusedSectionVars false

namespace Epica
open Lib

namespace BeliefRuntime
section
variable {M : Type → Type} {G : Type → Type → Type} [SlotMap M] [StableDiGraph G]

def withDefaultTau (rt : BeliefRuntime M G) (tau : ℚ) : BeliefRuntime M G :=
  { rt with defaultReflectionThreshold := clamp tau 0 1 }

def withLlmClient (rt : BeliefRuntime M G) : BeliefRuntime M G := { rt with llmClient := true }

def withContract (rt : BeliefRuntime M G) (contract : BehavioralContract M G) :
    BeliefRuntime M G :=
  { rt with contractEngine :=
      { rt.contractEngine with contracts := rt.contractEngine.contracts ++ [contract] } }

/-- the runtime without contracts, without sovereignty, and without logged violations -/
def Bare (rt : BeliefRuntime M G) : Prop := rt.contractEngine = ⟨[], none, .default⟩

/-- a bare runtime with the contract -/
def attached (contract : BehavioralContract M G) (log : ViolationLog) (rt : BeliefRuntime M G) :
    BeliefRuntime M G :=
  { rt with contractEngine := ⟨[contract], none, log⟩ }

/-- the beliefs with their ids, as they are iterated -/
def beliefs (rt : BeliefRuntime M G) : List (BeliefId × BeliefNode) := SlotMap.iter rt.quad.nodes

theorem withContract_of_bare {rt : BeliefRuntime M G} (h : rt.Bare)
    (contract : BehavioralContract M G) :
    rt.withContract contract = rt.attached contract .default := by
  unfold withContract attached
  rw [h]
  rfl

end
end BeliefRuntime

/-! ## objections -/

section
variable {M : Type → Type} {G : Type → Type → Type} [SlotMap M] [StableDiGraph G] [Platform]

/-- the contract objects to the section that the call is about to enter: a precondition is false,
the limit of the session is reached, or a hard or critical invariant is violated -/
def Objects (contract : BehavioralContract M G) (rt : BeliefRuntime M G) : UpdatePc → Prop
  | .preUpdate _ => contract.checkPreconditions rt.quad = false
  | .trackTokens _ => ∃ max, contract.governance.maxTokensPerSession = some max ∧
    max ≤ rt.governanceTracker.tokensUsed
  | .postUpdate _ cp _ _ => (contract.firstSevere rt.quad (some cp)).isSome = true
  | _ => False

variable {contract : BehavioralContract M G} {rt : BeliefRuntime M G}

variable (contract rt) in
theorem preUpdate_attached (log : ViolationLog) (beliefKey : String) :
    (rt.attached contract log).contractEngine.preUpdate rt.quad beliefKey "system" =
      if contract.checkPreconditions rt.quad then .ok ()
      else .error (.preconditionFailed contract.domain beliefKey) := by
  unfold BeliefRuntime.attached ContractEngine.preUpdate ContractEngine.checkAuth
  simp only [List.find?_cons, List.find?_nil]
  cases contract.checkPreconditions rt.quad <;> rfl

theorem preUpdate_bare (h : rt.Bare) (beliefKey : String) :
    rt.contractEngine.preUpdate rt.quad beliefKey "system" = .ok () := by
  rw [h]
  rfl

theorem trackTokens_bare (h : rt.Bare) : rt.trackTokens = (.ok (), { rt with
    governanceTracker :=
      { rt.governanceTracker with tokensUsed := rt.governanceTracker.tokensUsed + 1 } }) := by
  unfold BeliefRuntime.trackTokens
  rw [h]
  rfl

variable (contract rt) in
theorem trackTokens_attached (log : ViolationLog) :
    (∃ max, contract.governance.maxTokensPerSession = some max ∧
      max ≤ rt.governanceTracker.tokensUsed ∧
      ∃ e, (rt.attached contract log).trackTokens.1 = .error e) ∨
    ((∀ max, contract.governance.maxTokensPerSession = some max →
      ¬ max ≤ rt.governanceTracker.tokensUsed) ∧
      (rt.attached contract log).trackTokens =
        (.ok (), BeliefRuntime.attached contract log { rt with governanceTracker :=
          { rt.governanceTracker with tokensUsed := rt.governanceTracker.tokensUsed + 1 } })) := by
  unfold BeliefRuntime.trackTokens BeliefRuntime.attached GovernanceTracker.trackTokenUsage
  simp only [List.head?_cons, Option.bind_some]
  cases hlimit : contract.governance.maxTokensPerSession with
  | none => exact Or.inr ⟨(fun _ h => nomatch h), rfl⟩
  | some max =>
    by_cases hmax : max ≤ rt.governanceTracker.tokensUsed
    · left
      simp only [if_pos hmax]
      exact ⟨max, rfl, hmax, _, rfl⟩
    · right
      simp only [if_neg hmax]
      refine ⟨fun max' h => ?_, trivial⟩
      obtain rfl := Option.some.inj h
      exact hmax

theorem reviseAndPropagate_attached (log : ViolationLog) (call : UpdateCall) :
    (rt.attached contract log).reviseAndPropagate call =
      ((rt.reviseAndPropagate call).1,
        (rt.reviseAndPropagate call).2.attached contract log) := by
  unfold BeliefRuntime.reviseAndPropagate BeliefRuntime.attached
  simp only
  rcases call.revise rt.quad with ⟨e | record, quad⟩ <;> rfl

theorem firstSevere_singleton (quad : BeliefQuad M G) (lastCheckpoint : Option CheckpointId) :
    firstSevere [contract] quad lastCheckpoint =
      (contract.firstSevere quad lastCheckpoint).map fun v => (contract, v) := by
  unfold firstSevere
  cases hs : contract.firstSevere quad lastCheckpoint with
  | none => simp [hs]
  | some v => simp [hs]

theorem postUpdate_bare (h : rt.Bare) (call : UpdateCall) (cp : CheckpointId)
    (beliefKey : String) : rt.postUpdate call cp beliefKey = (.ok none, rt) := by
  have hpost : rt.contractEngine.postUpdate rt.quad (some cp) beliefKey "system" call.auditMs =
      (.ok none, rt.contractEngine, rt.quad) := by
    rw [h]
    rfl
  unfold BeliefRuntime.postUpdate
  rw [hpost]

/-- without a hard or critical violation only the log changes -/
theorem postUpdate_quiet (log : ViolationLog) {cp : CheckpointId}
    (hnone : contract.firstSevere rt.quad (some cp) = none) (call : UpdateCall)
    (beliefKey : String) :
    ∃ log', (rt.attached contract log).postUpdate call cp beliefKey =
      (.ok none, rt.attached contract log') := by
  have hquiet : Quiet rt.quad ⟨rt.quad, log, none, false⟩ := ⟨rfl, rfl, rfl⟩
  have hfirst : firstSevere [contract] rt.quad (some cp) = none := by
    rw [firstSevere_singleton, hnone]
    rfl
  rcases @handleContracts_cases M G _ _ _ none rt.quad (some cp) [contract] _ hquiet with
    ⟨-, s', hs', hq⟩ | ⟨contract', v, hv, -⟩
  · refine ⟨s'.violationLog, ?_⟩
    unfold BeliefRuntime.postUpdate BeliefRuntime.attached ContractEngine.postUpdate
    simp only [hs', hq.outcome, hq.quad]
    rfl
  · rw [hfirst] at hv
    cases hv

/-- what is rolled back to has other beliefs -/
theorem BeliefQuad.RollsBack.beliefs_ne {q snap : BeliefQuad M G} {id : CheckpointId}
    (h : q.RollsBack id snap) : SlotMap.iter snap.nodes ≠ SlotMap.iter q.nodes := by
  obtain ⟨cp, -, -, hdiff⟩ := h
  intro hsame
  rw [BeliefQuad.hasContradictions_eq_false_iff.mpr
    (BeliefQuad.agrees_of_beliefs hsame.symm)] at hdiff
  cases hdiff

/-- a hard or critical violation makes the section fail, or rolls back to other beliefs -/
theorem postUpdate_severe (log : ViolationLog) {cp : CheckpointId}
    (hrecovery : contract.recovery = .rollbackToLastCheckpoint)
    (hsome : (contract.firstSevere rt.quad (some cp)).isSome = true) (call : UpdateCall)
    (beliefKey : String) :
    (∃ e, ((rt.attached contract log).postUpdate call cp beliefKey).1 = .error e) ∨
      ((rt.attached contract log).postUpdate call cp beliefKey).2.beliefs ≠ rt.beliefs := by
  obtain ⟨v, hv⟩ := Option.isSome_iff_exists.mp hsome
  have hfirst : firstSevere [contract] rt.quad (some cp) = some (contract, v) := by
    rw [firstSevere_singleton, hv]
    rfl
  rcases (rt.attached contract log).contractEngine.postUpdate_cases rt.quad (some cp) beliefKey
      "system" call.auditMs with
    ⟨hnone, -⟩ | ⟨_, _, -, -, -, he⟩ | ⟨_, _, e, -, -, -, -, he⟩ |
    ⟨contract', v', out, hv', -, hexec, -⟩
  · have hnone' : firstSevere [contract] rt.quad (some cp) = none := hnone
    rw [hfirst] at hnone'
    cases hnone'
  · exact Or.inl ⟨_, he⟩
  · exact Or.inl ⟨e, he⟩
  · right
    obtain ⟨rfl, rfl⟩ := Prod.mk.inj (Option.some.inj (hfirst.symm.trans hv'))
    rcases executeRecovery_cases rt.quad v contract.recovery with
      ⟨snap, hs, he⟩ | ⟨floor, quad', hp, -, -⟩ | ⟨e, -, -, he⟩
    · obtain ⟨id, -, hs⟩ := hs
      rw [hexec] at he
      rw [← (Prod.mk.inj he).2] at hs
      exact hs.beliefs_ne
    · rw [hrecovery] at hp
      cases hp
    · rw [hexec] at he
      cases (Prod.mk.inj he).1

/-! ## the sections of an update -/

theorem lockSection_bare (h : rt.Bare) (call : UpdateCall) (pc : UpdatePc) :
    (lockSection call rt pc).1.Bare := by
  rw [lockSection_fst]
  cases pc with
  | trackTokens beliefKey =>
    show rt.trackTokens.2.Bare
    rw [trackTokens_bare h]
    exact h
  | revise beliefKey cp =>
    show (rt.reviseAndPropagate call).2.Bare
    rw [rt.reviseAndPropagate_rest]
    exact h
  | postUpdate beliefKey cp fast contradicted =>
    show (rt.postUpdate call cp beliefKey).2.Bare
    rw [postUpdate_bare h]
    exact h
  | _ => exact h

/-- **a section to which the contract does not object is the same with it and without it** -/
theorem lockSection_attached (h : rt.Bare) (log : ViolationLog) (call : UpdateCall)
    {pc : UpdatePc} (hno : ¬ Objects contract rt pc) :
    ∃ log', lockSection call (rt.attached contract log) pc =
      ((lockSection call rt pc).1.attached contract log', (lockSection call rt pc).2) := by
  cases pc with
  | preUpdate beliefKey =>
    refine ⟨log, ?_⟩
    have hholds : contract.checkPreconditions rt.quad = true := Bool.of_not_eq_false hno
    have hpre := preUpdate_attached contract rt log beliefKey
    rw [if_pos hholds] at hpre
    have hquad : (rt.attached contract log).quad = rt.quad := rfl
    simp only [lockSection, preUpdate_bare h, hquad, hpre]
  | trackTokens beliefKey =>
    refine ⟨log, ?_⟩
    rcases trackTokens_attached contract rt log with
      ⟨max, hmax, hle, -⟩ | ⟨-, hok⟩
    · exact absurd ⟨max, hmax, hle⟩ hno
    · simp only [lockSection, trackTokens_bare h, hok]
  | revise beliefKey cp =>
    refine ⟨log, ?_⟩
    simp only [lockSection, reviseAndPropagate_attached]
    rcases rt.reviseAndPropagate call with ⟨e | ⟨fast, contradicted⟩, rt'⟩ <;> rfl
  | postUpdate beliefKey cp fast contradicted =>
    have hnone : contract.firstSevere rt.quad (some cp) = none := by
      cases hs : contract.firstSevere rt.quad (some cp) with
      | none => rfl
      | some v =>
        refine absurd ?_ hno
        show (contract.firstSevere rt.quad (some cp)).isSome = true
        rw [hs]
        rfl
    obtain ⟨log', hpost⟩ := postUpdate_quiet log hnone call beliefKey
    refine ⟨log', ?_⟩
    simp only [lockSection, postUpdate_bare h, hpost]
  | _ => exact ⟨log, rfl⟩

/-- a call that has not returned -/
def UpdatePc.running : UpdatePc → Bool
  | .done _ => false
  | _ => true

/-- **a section to which the contract objects**: without it the call goes on, with it the call fails
or the beliefs are others -/
theorem lockSection_objects (h : rt.Bare)
    (hrecovery : contract.recovery = .rollbackToLastCheckpoint) (log : ViolationLog)
    (call : UpdateCall) {pc : UpdatePc} (hobjects : Objects contract rt pc) :
    (lockSection call rt pc).2.running = true ∧
      ((∃ e, (lockSection call (rt.attached contract log) pc).2 = .done (.error e)) ∨
        (lockSection call (rt.attached contract log) pc).1.beliefs ≠
          (lockSection call rt pc).1.beliefs) := by
  cases pc with
  | preUpdate beliefKey =>
    have hfails : contract.checkPreconditions rt.quad = false := hobjects
    have hpre := preUpdate_attached contract rt log beliefKey
    rw [hfails, if_neg Bool.false_ne_true] at hpre
    have hquad : (rt.attached contract log).quad = rt.quad := rfl
    simp only [lockSection, preUpdate_bare h, hquad, hpre]
    exact ⟨rfl, Or.inl ⟨_, rfl⟩⟩
  | trackTokens beliefKey =>
    rcases trackTokens_attached contract rt log with
      ⟨-, -, -, e, he⟩ | ⟨hno, -⟩
    · have hpair : (rt.attached contract log).trackTokens =
          (.error e, (rt.attached contract log).trackTokens.2) := by rw [← he]
      simp only [lockSection, trackTokens_bare h]
      rw [hpair]
      exact ⟨rfl, Or.inl ⟨e, rfl⟩⟩
    · obtain ⟨max, hmax, hle⟩ := hobjects
      exact absurd hle (hno max hmax)
  | postUpdate beliefKey cp fast contradicted =>
    have hrunning : (lockSection call rt (.postUpdate beliefKey cp fast contradicted)).2.running =
        true := by
      simp only [lockSection, postUpdate_bare h]
      cases contradicted <;> rfl
    refine ⟨hrunning, ?_⟩
    have hbare : (rt.postUpdate call cp beliefKey).2 = rt := by rw [postUpdate_bare h]
    rw [lockSection_fst, lockSection_fst]
    show _ ∨ ((rt.attached contract log).postUpdate call cp beliefKey).2.beliefs ≠
      (rt.postUpdate call cp beliefKey).2.beliefs
    rw [hbare]
    rcases postUpdate_severe log hrecovery hobjects call beliefKey with ⟨e, he⟩ | hne
    · left
      have hpair : (rt.attached contract log).postUpdate call cp beliefKey =
          (.error e, ((rt.attached contract log).postUpdate call cp beliefKey).2) := by rw [← he]
      refine ⟨e, ?_⟩
      simp only [lockSection]
      rw [hpair]
    · exact Or.inr hne
  | _ => cases hobjects

end
end Epica
