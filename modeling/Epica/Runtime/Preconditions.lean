import Epica.Contracts.Config
import Epica.Core.Propagation
import Epica.Runtime.Floors
import Epica.Runtime.Governance
import Epica.Runtime.KeyIndex

/-!
# Preconditions at the moment of the revision

A call checks the preconditions of the contracts in one lock section and revises three sections
later; in between other calls may revise, contract and roll back, and the call itself adds a
checkpoint.

* `preconditions_of_ok`       a check that lets a call pass has found every precondition true;
* `Touches`                   the beliefs that a revision writes, takes away or recomputes;
* `evaluate_step`             the sections that bear on a predicate are some of the revisions and
                              the recoveries, and for some predicates the checkpoints;
* `preconditions_hold_iff`    the preconditions are true at every revision of a run exactly when,
                              between each check and its revision, the last section that bears on
                              one leaves it true;
* `preconditions_hold_apart`  so they are when no other call runs a section in between.
-/

set_option linter.unusedSectionVars false

namespace Epica
open Lib

section
variable {M : Type → Type} {G : Type → Type → Type} [SlotMap M] [StableDiGraph G]

/-! ## what a predicate reads -/

namespace BeliefPredicate

/-- it reads nothing but the nodes -/
def OfNodes (p : BeliefPredicate M G) : Prop :=
  ∀ q q' : BeliefQuad M G, q'.nodes = q.nodes → p.evaluate q' = p.evaluate q

/-- where keys are unique, it reads nothing but the belief under `key` -/
def Reads (p : BeliefPredicate M G) (key : String) : Prop :=
  ∀ q q' : BeliefQuad M G, q.UniqueKeys → q'.UniqueKeys →
    (∀ id n, n.key = key → (q'.get id = some n ↔ q.get id = some n)) →
    p.evaluate q' = p.evaluate q

end BeliefPredicate

theorem ofNodes_minConfidence (key : String) (x : ℚ) : (MinConfidence M G key x).OfNodes := by
  intro q q' hnodes
  unfold MinConfidence
  simp only [hnodes]

theorem ofNodes_beliefExists (key : String) : (BeliefExists M G key).OfNodes := by
  intro q q' hnodes
  unfold BeliefExists
  simp only [hnodes]

theorem reads_minConfidence (key : String) (x : ℚ) : (MinConfidence M G key x).Reads key := by
  intro q q' hu hu' hsame
  rw [Bool.eq_iff_iff, hu'.evaluate_minConfidence, hu.evaluate_minConfidence]
  unfold BeliefQuad.AtLeast
  refine exists_congr fun n => and_congr_left fun _ => ?_
  rw [hu'.holder_iff, hu.holder_iff]
  exact and_congr_left fun hkey => exists_congr fun id => hsame id n hkey

theorem reads_beliefExists (key : String) : (BeliefExists M G key).Reads key := by
  intro q q' _ _ hsame
  rw [Bool.eq_iff_iff, BeliefQuad.evaluate_beliefExists, BeliefQuad.evaluate_beliefExists]
  refine exists_congr fun n => and_congr_left fun hkey => ?_
  exact exists_congr fun id => hsame id n hkey

/-- **a precondition of a contract file reads one key, and of the quad only the nodes** -/
theorem PreconditionConfig.predicate_reads (cfg : PreconditionConfig) :
    (cfg.predicate : BeliefPredicate M G).OfNodes ∧
      ∃ key, (cfg.predicate : BeliefPredicate M G).Reads key := by
  cases cfg with
  | minConfidence key threshold =>
    exact ⟨ofNodes_minConfidence key threshold, key, reads_minConfidence key threshold⟩
  | «exists» key => exact ⟨ofNodes_beliefExists key, key, reads_beliefExists key⟩

/-! ## the check -/

/-- every precondition of every contract is true of `quad` -/
def ContractEngine.PreconditionsHold (engine : ContractEngine M G) (quad : BeliefQuad M G) :
    Prop :=
  ∀ contract ∈ engine.contracts, ∀ p ∈ contract.preconditions, p.evaluate quad = true

instance (engine : ContractEngine M G) (quad : BeliefQuad M G) :
    Decidable (engine.PreconditionsHold quad) :=
  inferInstanceAs (Decidable (∀ contract ∈ engine.contracts, ∀ p ∈ contract.preconditions,
    p.evaluate quad = true))

theorem ContractEngine.preconditions_of_ok {engine : ContractEngine M G} {quad : BeliefQuad M G}
    {beliefKey agentId : String} (h : engine.preUpdate quad beliefKey agentId = .ok ()) :
    engine.PreconditionsHold quad := by
  unfold ContractEngine.preUpdate at h
  cases ha : engine.checkAuth agentId with
  | error e =>
    rw [ha] at h
    cases h
  | ok =>
    rw [ha] at h
    simp only at h
    split at h
    · cases h
    · rename_i hnone
      intro contract hc p hp
      have hpass := List.find?_eq_none.mp hnone contract hc
      have hall : contract.checkPreconditions quad = true := by simpa using hpass
      exact List.all_eq_true.mp hall p hp

/-- the call has passed the check, and has not revised -/
def UpdatePc.admitted : UpdatePc → Bool
  | .trackTokens _ => true
  | .checkpoint _ => true
  | .revise _ _ => true
  | _ => false

variable [Platform]

/-- only a check that passes gets there -/
theorem lockSection_admitted {call : UpdateCall} {rt : BeliefRuntime M G} {pc : UpdatePc}
    (hpc : pc.admitted = false) (h : (lockSection call rt pc).2.admitted = true) :
    ∃ beliefKey, pc = .preUpdate beliefKey ∧
      rt.contractEngine.preUpdate rt.quad beliefKey "system" = .ok () := by
  cases pc with
  | start => cases h
  | preUpdate beliefKey =>
    refine ⟨beliefKey, rfl, ?_⟩
    simp only [lockSection] at h
    cases hp : rt.contractEngine.preUpdate rt.quad beliefKey "system" with
    | error e =>
      rw [hp] at h
      cases h
    | ok => rfl
  | trackTokens beliefKey => cases hpc
  | checkpoint beliefKey => cases hpc
  | revise beliefKey cp => cases hpc
  | postUpdate beliefKey cp fast contradicted =>
    simp only [lockSection] at h
    split at h
    · cases h
    · cases contradicted <;> cases h
  | markCorrect fast => cases h
  | readTau fast =>
    simp only [lockSection] at h
    split at h <;> cases h
  | readSignal fast => cases h
  | pushHistory fast result => cases h
  | done result => cases h

/-- the call is past its revision, or has returned -/
def UpdatePc.past : UpdatePc → Bool
  | .postUpdate _ _ _ _ => true
  | .markCorrect _ => true
  | .readTau _ => true
  | .readSignal _ => true
  | .pushHistory _ _ => true
  | .done _ => true
  | _ => false

/-- and stays there -/
theorem lockSection_past {call : UpdateCall} {rt : BeliefRuntime M G} {pc : UpdatePc}
    (hpc : pc.past = true) : (lockSection call rt pc).2.past = true := by
  cases pc with
  | postUpdate beliefKey cp fast contradicted =>
    simp only [lockSection]
    split
    · rfl
    · cases contradicted <;> rfl
  | readTau fast =>
    simp only [lockSection]
    split <;> rfl
  | markCorrect fast => rfl
  | readSignal fast => rfl
  | pushHistory fast result => rfl
  | done result => rfl
  | _ => cases hpc

theorem past_of_revise (call : UpdateCall) (rt : BeliefRuntime M G) (beliefKey : String)
    (cp : CheckpointId) : (lockSection call rt (.revise beliefKey cp)).2.past = true := by
  simp only [lockSection]
  split <;> rfl

/-! ## what a revision bears on -/

/-- the revision section of the call writes the belief, takes it away, or recomputes its
confidence -/
def UpdateCall.Touches (call : UpdateCall) (q : BeliefQuad M G) (id : BeliefId) : Prop :=
  id = call.id ∨ id ∈ q.retracts call.id call.value ∨
    id ∈ (call.revise q).2.visitOrder call.propagationOrder call.id

/-- **what it does not touch it leaves as it was** -/
theorem get_reviseAndPropagate {rt : BeliefRuntime M G} {call : UpdateCall} {id : BeliefId}
    (h : ¬ call.Touches rt.quad id) :
    (rt.reviseAndPropagate call).2.quad.get id = rt.quad.get id := by
  have hself : id ≠ call.id := fun e => h (Or.inl e)
  have hkept : id ∉ rt.quad.retracts call.id call.value := fun hr => h (Or.inr (Or.inl hr))
  have hrevised : (call.revise rt.quad).2.get id = rt.quad.get id := by
    unfold UpdateCall.revise
    rw [BeliefQuad.get_revise, if_neg hkept, if_neg fun hw => hself hw.1]
  rcases rt.reviseAndPropagate_cases call with ⟨e, -, -, hq⟩ | ⟨record, out, -, -, hq⟩
  · rw [hq]
    exact hrevised
  · rw [hq, BeliefQuad.propagateSystem1_eq, ← hrevised]
    rcases BeliefQuad.get_recomputeAll call.propagationNow (call.revise rt.quad).2
      ((call.revise rt.quad).2.visitOrder call.propagationOrder call.id) id with hget | ⟨hmem, -⟩
    · exact hget
    · exact absurd (Or.inr (Or.inr hmem)) h

/-- no key is new after a revision section -/
theorem keyAt_reviseAndPropagate (rt : BeliefRuntime M G) (call : UpdateCall) {id : BeliefId}
    {key : String} (h : (rt.reviseAndPropagate call).2.quad.keyAt id = some key) :
    rt.quad.keyAt id = some key := by
  rw [(rt.reviseAndPropagate_only call).keyAt] at h
  unfold UpdateCall.revise at h
  rw [BeliefQuad.keyAt_revise] at h
  simp only at h
  split at h
  · cases h
  · exact h

theorem uniqueKeys_reviseAndPropagate {rt : BeliefRuntime M G} (hu : rt.quad.UniqueKeys)
    (call : UpdateCall) : (rt.reviseAndPropagate call).2.quad.UniqueKeys := by
  have hkeys : ∀ id n, (rt.reviseAndPropagate call).2.quad.get id = some n →
      ∃ m, rt.quad.get id = some m ∧ m.key = n.key := by
    intro id n hn
    have hkey : (rt.reviseAndPropagate call).2.quad.keyAt id = some n.key := by
      unfold BeliefQuad.keyAt
      rw [hn]
      rfl
    exact Option.map_eq_some_iff.mp (keyAt_reviseAndPropagate rt call hkey)
  intro i j n n' hi hj hkey
  obtain ⟨m, hm, hmkey⟩ := hkeys i n hi
  obtain ⟨m', hm', hmkey'⟩ := hkeys j n' hj
  exact hu i j m m' hm hm' (hmkey.trans (hkey.trans hmkey'.symm))

/-- it does not change a predicate that reads one key, when no belief under this key is touched -/
theorem evaluate_reviseAndPropagate {p : BeliefPredicate M G} {key : String} (hp : p.Reads key)
    {rt : BeliefRuntime M G} (hu : rt.quad.UniqueKeys) {call : UpdateCall}
    (h : ∀ id n, rt.quad.get id = some n → n.key = key → ¬ call.Touches rt.quad id) :
    p.evaluate (rt.reviseAndPropagate call).2.quad = p.evaluate rt.quad := by
  refine hp _ _ hu (uniqueKeys_reviseAndPropagate hu call) fun id n hkey => ?_
  constructor
  · intro hn
    have hkeyAt : (rt.reviseAndPropagate call).2.quad.keyAt id = some key := by
      unfold BeliefQuad.keyAt
      rw [hn, ← hkey]
      rfl
    obtain ⟨m, hm, hmkey⟩ := Option.map_eq_some_iff.mp (keyAt_reviseAndPropagate rt call hkeyAt)
    rw [← get_reviseAndPropagate (h id m hm hmkey)]
    exact hn
  · intro hn
    rw [get_reviseAndPropagate (h id n hn hkey)]
    exact hn

end

namespace InFlight
section
variable {M : Type → Type} {G : Type → Type → Type} [SlotMap M] [StableDiGraph G] [Platform]
  {T : Type} [DecidableEq T]

def PreconditionsHold (s : InFlight T M G) : Prop :=
  s.runtime.contractEngine.PreconditionsHold s.runtime.quad

instance (s : InFlight T M G) : Decidable s.PreconditionsHold :=
  inferInstanceAs (Decidable (s.runtime.contractEngine.PreconditionsHold s.runtime.quad))

/-- `t` is about to check the preconditions -/
def Checks (s : InFlight T M G) (t : T) : Prop := ∃ beliefKey, s.pc t = .preUpdate beliefKey

/-- `t` is about to revise -/
def Revises (s : InFlight T M G) (t : T) : Prop := ∃ beliefKey cp, s.pc t = .revise beliefKey cp

/-- `t` is about to revise, and touches what `p` reads: unless `p` reads one key and no belief
under it is touched -/
def RevisesRead (calls : T → UpdateCall) (p : BeliefPredicate M G) (s : InFlight T M G) (t : T) :
    Prop :=
  Revises s t ∧ ∀ key, p.Reads key → s.runtime.quad.UniqueKeys →
    ∃ id n, s.runtime.quad.get id = some n ∧ n.key = key ∧ (calls t).Touches s.runtime.quad id

/-- `t` is about to check the invariants, and recovers from a hard violation -/
def Recovers (s : InFlight T M G) (t : T) : Prop :=
  ∃ beliefKey cp fast contradicted, s.pc t = .postUpdate beliefKey cp fast contradicted ∧
    ∃ contract v out quad, firstSevere s.runtime.contractEngine.contracts s.runtime.quad (some cp) =
      some (contract, v) ∧ v.violationClass = .hard ∧
      executeRecovery s.runtime.quad v contract.recovery = (.ok out, quad)

/-- `t` is about to add its checkpoint, and `p` reads more than the nodes -/
def CapturesRead (p : BeliefPredicate M G) (s : InFlight T M G) (t : T) : Prop :=
  (∃ beliefKey, s.pc t = .checkpoint beliefKey) ∧ ¬ p.OfNodes

/-- the section `t` is about to run bears on `p` -/
def BearsOn (calls : T → UpdateCall) (p : BeliefPredicate M G) (s : InFlight T M G) (t : T) :
    Prop :=
  RevisesRead calls p s t ∨ Recovers s t ∨ CapturesRead p s t

variable {calls : T → UpdateCall}

theorem pc_step (calls : T → UpdateCall) (s : InFlight T M G) (t b : T) :
    (step calls s t).pc b =
      if b = t then (lockSection (calls t) s.runtime (s.pc t)).2 else s.pc b := by
  show Function.update s.pc t _ b = _
  rw [Function.update_apply]

/-- **a section that does not bear on a predicate leaves it as it was** -/
theorem evaluate_step {p : BeliefPredicate M G} {s : InFlight T M G} {t : T}
    (h : ¬ BearsOn calls p s t) :
    p.evaluate (step calls s t).runtime.quad = p.evaluate s.runtime.quad := by
  show p.evaluate (lockSection (calls t) s.runtime (s.pc t)).1.quad = _
  rw [lockSection_fst]
  cases hpc : s.pc t with
  | checkpoint beliefKey =>
    have hnodes : p.OfNodes := by
      by_contra hno
      exact h (Or.inr (Or.inr ⟨⟨beliefKey, hpc⟩, hno⟩))
    exact hnodes _ _ rfl
  | revise beliefKey cp =>
    by_contra hne
    refine h (Or.inl ⟨⟨beliefKey, cp, hpc⟩, fun key hp hu => ?_⟩)
    by_contra huntouched
    exact hne (evaluate_reviseAndPropagate hp hu fun id n hn hkey ht =>
      huntouched ⟨id, n, hn, hkey, ht⟩)
  | postUpdate beliefKey cp fast contradicted =>
    have hkept : (s.runtime.postUpdate (calls t) cp beliefKey).2.quad = s.runtime.quad := by
      rcases s.runtime.contractEngine.postUpdate_cases s.runtime.quad (some cp) beliefKey "system"
          (calls t).auditMs with ⟨-, -, hq⟩ | ⟨contract, v, -, -, hq, -⟩ |
          ⟨contract, v, e, -, -, -, hq, -⟩ | ⟨contract, v, out, hv, hc, he, -⟩
      · exact hq
      · exact hq
      · exact hq
      · exact absurd (Or.inr (Or.inl ⟨_, _, _, _, hpc, contract, v, out, _, hv, hc, he⟩)) h
    show p.evaluate (s.runtime.postUpdate (calls t) cp beliefKey).2.quad = _
    rw [hkept]
  | _ => rfl

/-- a call that is past its revision does not revise any more -/
theorem not_revises_of_past (calls : T → UpdateCall) {s : InFlight T M G} {t : T}
    (h : (s.pc t).past = true) (sched : List T) : ¬ Revises (run (step calls) s sched) t := by
  have hrun : ((run (step calls) s sched).pc t).past = true := by
    refine @run_invariant _ _ (step calls) (fun s : InFlight T M G => (s.pc t).past = true)
      (fun s u hs => ?_) s h sched
    rw [pc_step]
    split
    · rename_i e
      subst e
      exact lockSection_past hs
    · exact hs
  intro hrev
  obtain ⟨beliefKey, cp, hpc⟩ := hrev
  rw [hpc] at hrun
  cases hrun

/-- a check that passes leaves the preconditions true -/
theorem preconditions_of_check {s : InFlight T M G} {t : T} {beliefKey : String}
    (hpc : s.pc t = .preUpdate beliefKey)
    (hok : s.runtime.contractEngine.preUpdate s.runtime.quad beliefKey "system" = .ok ()) :
    (step calls s t).PreconditionsHold := by
  have hsame : (step calls s t).runtime = s.runtime := by
    show (lockSection (calls t) s.runtime (s.pc t)).1 = s.runtime
    rw [lockSection_fst, hpc]
  unfold PreconditionsHold
  rw [hsame]
  exact ContractEngine.preconditions_of_ok hok

/-- a call that is about to revise has passed its check -/
theorem check_passed {s : InFlight T M G} {t : T} {between : List T} (hcheck : Checks s t)
    (hrev : Revises (run (step calls) (step calls s t) between) t) :
    (step calls s t).PreconditionsHold := by
  obtain ⟨beliefKey, hpc⟩ := hcheck
  cases hp : s.runtime.contractEngine.preUpdate s.runtime.quad beliefKey "system" with
  | ok => exact preconditions_of_check hpc hp
  | error e =>
    have hpast : ((step calls s t).pc t).past = true := by
      rw [pc_step, if_pos rfl, hpc]
      simp only [lockSection, hp]
      rfl
    exact absurd hrev (not_revises_of_past calls hpast between)

/-- and that check lies behind it -/
theorem exists_check {rt : BeliefRuntime M G} {t : T} {pre : List T}
    (hrev : Revises (run (step calls) (start rt) pre) t) :
    ∃ before between, pre = before ++ t :: between ∧
      Checks (run (step calls) (start rt) before) t := by
  obtain ⟨key, cp, hpc⟩ := hrev
  have hend : ((run (step calls) (start rt) pre).pc t).admitted = true := by
    rw [hpc]
    rfl
  have hstart : ¬ ((start rt : InFlight T M G).pc t).admitted = true := Bool.false_ne_true
  obtain ⟨s, u, ⟨before, between, rfl, rfl⟩, hno, hyes⟩ := @exists_flip _ _ (step calls)
    (fun s : InFlight T M G => (s.pc t).admitted = true) (start rt) pre hstart hend
  rw [pc_step] at hyes
  by_cases he : t = u
  · subst he
    rw [if_pos rfl] at hyes
    obtain ⟨beliefKey, hkey, -⟩ := lockSection_admitted (Bool.eq_false_iff.mpr hno) hyes
    exact ⟨before, between, rfl, beliefKey, hkey⟩
  · rw [if_neg he] at hyes
    exact absurd hyes hno

theorem contracts_run (calls : T → UpdateCall) (rt : BeliefRuntime M G) (sched : List T) :
    (run (step calls) (start rt) sched).runtime.contractEngine.contracts =
      rt.contractEngine.contracts := by
  refine @run_invariant _ _ (step calls)
    (fun s : InFlight T M G => s.runtime.contractEngine.contracts = rt.contractEngine.contracts)
    (fun s t hs => ?_) (start rt) rfl sched
  exact (lockSection_contracts (calls t) s.runtime (s.pc t)).trans hs

/-- a predicate that a check has found true is true at the revision exactly if the last section in
between that bears on it leaves it true -/
theorem evaluate_at_revision (calls : T → UpdateCall) (rt : BeliefRuntime M G) {before : List T}
    {t : T} {between : List T} (hcheck : Checks (run (step calls) (start rt) before) t)
    (hrev : Revises (run (step calls) (start rt) (before ++ t :: between)) t)
    {contract : BehavioralContract M G} (hc : contract ∈ rt.contractEngine.contracts)
    {p : BeliefPredicate M G} (hp : p ∈ contract.preconditions) :
    p.evaluate (run (step calls) (start rt) (before ++ t :: between)).runtime.quad = true ↔
      ∀ s u, LastStepOf (step calls) (BearsOn calls p)
        (run (step calls) (start rt) (before ++ [t])) between s u →
        p.evaluate (step calls s u).runtime.quad = true := by
  rw [run_append_cons] at hrev ⊢
  have hchecked : (run (step calls) (start rt) (before ++ [t])).PreconditionsHold := by
    rw [run_concat] at hrev ⊢
    exact check_passed hcheck hrev
  have htrue : p.evaluate (run (step calls) (start rt) (before ++ [t])).runtime.quad = true := by
    refine hchecked contract ?_ p hp
    rw [contracts_run]
    exact hc
  exact @last_change _ _ (step calls)
    (fun s : InFlight T M G => p.evaluate s.runtime.quad = true) (BearsOn calls p)
    (fun s u h => by rw [evaluate_step h]) _ htrue between

/-- **when the preconditions hold at the moment of mutation**: at every revision of a run every
precondition of every contract is true exactly when, of the sections between the check of a call
and its revision that bear on a precondition, the last one leaves it true -/
theorem preconditions_hold_iff (calls : T → UpdateCall) (rt : BeliefRuntime M G)
    (sched : List T) :
    (∀ s t, StepOf (step calls) (start rt) sched s t → Revises s t → s.PreconditionsHold) ↔
    ∀ before t between after, sched = before ++ t :: (between ++ t :: after) →
      Checks (run (step calls) (start rt) before) t →
      Revises (run (step calls) (start rt) (before ++ t :: between)) t →
      ∀ contract ∈ rt.contractEngine.contracts, ∀ p ∈ contract.preconditions,
      ∀ s u, LastStepOf (step calls) (BearsOn calls p)
        (run (step calls) (start rt) (before ++ [t])) between s u →
        p.evaluate (step calls s u).runtime.quad = true := by
  constructor
  · intro hall before t between after hsched hcheck hrev contract hc p hp
    have hend := hall _ t ⟨before ++ t :: between, after, by rw [hsched, List.append_assoc]; rfl,
      rfl⟩ hrev
    refine (evaluate_at_revision calls rt hcheck hrev hc hp).mp (hend contract ?_ p hp)
    rw [contracts_run]
    exact hc
  · intro hlast s t hst hrev contract hc p hp
    obtain ⟨pre, after, rfl, rfl⟩ := hst
    rw [contracts_run] at hc
    obtain ⟨before, between, rfl, hcheck⟩ := exists_check hrev
    exact (evaluate_at_revision calls rt hcheck hrev hc hp).mpr
      (hlast before t between after (by rw [List.append_assoc]; rfl) hcheck hrev contract hc p hp)

/-- **calls that do not overlap revise where their preconditions are true**, when these read nothing
but the nodes -/
theorem preconditions_hold_apart {rt : BeliefRuntime M G} {sched : List T}
    (hnodes : ∀ contract ∈ rt.contractEngine.contracts, ∀ p ∈ contract.preconditions, p.OfNodes)
    (hapart : ∀ before t between after, sched = before ++ t :: (between ++ t :: after) →
      Checks (run (step calls) (start rt) before) t →
      Revises (run (step calls) (start rt) (before ++ t :: between)) t → ∀ u ∈ between, u = t) :
    ∀ s t, StepOf (step calls) (start rt) sched s t → Revises s t → s.PreconditionsHold := by
  intro s t hst hrev contract hc p hp
  obtain ⟨sections, after, rfl, rfl⟩ := hst
  rw [contracts_run] at hc
  obtain ⟨before, between, rfl, hcheck⟩ := exists_check hrev
  have hown := hapart before t between after (by rw [List.append_assoc]; rfl) hcheck hrev
  refine (evaluate_at_revision calls rt hcheck hrev hc hp).mpr fun s u hlast => ?_
  obtain ⟨pre, post, rfl, hs, hbears, -⟩ := hlast
  obtain rfl : u = t := hown u (List.mem_append_right pre List.mem_cons_self)
  have hnotPast : ¬ ((step calls s u).pc u).past = true := by
    intro hpast
    rw [run_append_cons, run_append, ← hs] at hrev
    exact not_revises_of_past calls hpast post hrev
  rw [pc_step, if_pos rfl] at hnotPast
  rcases hbears with ⟨⟨beliefKey, cp, hpc⟩, -⟩ | ⟨beliefKey, cp, fast, contradicted, hpc, -⟩ |
    ⟨-, hmore⟩
  · rw [hpc] at hnotPast
    exact absurd (past_of_revise (calls u) s.runtime beliefKey cp) hnotPast
  · rw [hpc] at hnotPast
    exact absurd (lockSection_past rfl) hnotPast
  · exact absurd (hnodes contract hc p hp) hmore

end

section
attribute [local instance] Platform.ascii

/-- the call is about to revise -/
def revising : UpdatePc → Bool
  | .revise _ _ => true
  | _ => false

theorem revises_of_revising {M : Type → Type} {G : Type → Type → Type} {T : Type}
    {s : InFlight T M G} {t : T} (h : revising (s.pc t) = true) : s.Revises t := by
  unfold revising at h
  split at h
  · rename_i beliefKey cp hpc
    exact ⟨beliefKey, cp, hpc⟩
  · cases h

/-- a contract that wants the goal to be held with confidence `1/2` before anything is done -/
def needGoal : BehavioralContract SlotVec EdgeList where
  domain := "deploy"
  preconditions := [MinConfidence SlotVec EdgeList "goal" (1 / 2)]
  invariants := []
  governance := ⟨none, none, []⟩
  recovery := .rollbackToLastCheckpoint

/-- the goal and the plan, under that contract -/
def goalNeeded : BeliefRuntime SlotVec EdgeList :=
  .build planned.quad (1 / 2) [needGoal] none false (15 / 100)

/-- the planner is past its check when the whole doubter runs; then it goes on -/
def overtaken : List Caller := List.replicate 2 .planner ++ List.replicate 8 .doubter ++
  List.replicate 6 .planner

/-- the planner revises, and returns without an error, while the goal is held with `1/10` -/
theorem precondition_false_at_revision :
    ∃ s, StepOf (step callOf) (start goalNeeded) overtaken s .planner ∧ Revises s .planner ∧
      ¬ s.PreconditionsHold ∧
      ((run (step callOf) (start goalNeeded) overtaken).pc .planner).returnedOk = true := by
  refine ⟨_, ⟨overtaken.take 12, List.replicate 3 .planner, by decide, rfl⟩,
    revises_of_revising ?_, ?_, ?_⟩
  · decide +kernel
  · decide +kernel
  · decide +kernel

end
end InFlight
end Epica
