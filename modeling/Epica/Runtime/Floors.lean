import Mathlib.Tactic.Linarith
import Epica.Core.DiffLaws
import Epica.Runtime.Audit
import Epica.Runtime.Retraction

/-!
# The confidences that a contract keeps

A runtime under one contract that rolls back to the last checkpoint, and whose severe invariants are
hard ones that ask of some beliefs a least confidence.  A rollback is refused as unnecessary when no
confidence has moved by `leastChange` or more, and then the violation stays; so what the contract
keeps, it keeps but for `leastChange` for each recovery that has failed.

* `Thins`                 an update takes beliefs and causal edges away, and adds none;
* `Watched.updated`       what an update does under such a contract;
* `floors_run`            what is kept in a run of updates;
* `Watched.refused_run`   when the preconditions fail, no update does anything any more.
-/

set_option linter.unusedSectionVars false

namespace Epica
open Lib

section
variable {M : Type → Type} {G : Type → Type → Type} [SlotMap M] [StableDiGraph G]

/-! ## the confidence of a key -/

namespace BeliefQuad

/-- the belief with this key has at least the confidence `x` -/
def AtLeast (q : BeliefQuad M G) (key : String) (x : ℚ) : Prop :=
  ∃ n, q.holder key = some n ∧ x ≤ n.fastConfidence

variable {q q' : BeliefQuad M G} {key : String} {x y : ℚ}

theorem AtLeast.mono (h : q.AtLeast key x) (hle : y ≤ x) : q.AtLeast key y := by
  obtain ⟨n, hn, hx⟩ := h
  exact ⟨n, hn, hle.trans hx⟩

theorem AtLeast.congr (h : q.AtLeast key x) (hnodes : q'.nodes = q.nodes) : q'.AtLeast key x := by
  have hholder : q'.holder key = q.holder key := by
    unfold holder
    rw [hnodes]
  unfold AtLeast
  rw [hholder]
  exact h

/-- a quad that agrees with another one has lost less than `leastChange` of a confidence -/
theorem Agrees.atLeast (h : q.Agrees q') (ha : q'.AtLeast key x) :
    q.AtLeast key (x - leastChange) := by
  obtain ⟨n', hn', hx⟩ := ha
  have hrel := h key
  rw [hn'] at hrel
  cases hq : q.holder key with
  | none =>
    rw [hq] at hrel
    cases hrel
  | some n =>
    rw [hq] at hrel
    cases hrel with
    | some hc =>
      have hclose : |n.fastConfidence - n'.fastConfidence| < leastChange :=
        not_le.mp fun hfar => hc (Or.inr hfar)
      have hbelow := (abs_lt.mp hclose).1
      exact ⟨n, hq, by linarith⟩

/-- with unique keys the first belief of a key is the last one -/
theorem UniqueKeys.evaluate_minConfidence (h : q.UniqueKeys) :
    (MinConfidence M G key x).evaluate q = true ↔ q.AtLeast key x := by
  unfold MinConfidence AtLeast
  simp only
  cases hfind : (SlotMap.iter q.nodes).find? fun e => e.2.key = key with
  | none =>
    refine iff_of_false Bool.false_ne_true fun ha => ?_
    obtain ⟨n, hn, -⟩ := ha
    obtain ⟨⟨id, hid⟩, hkey⟩ := holds_of_holder hn
    have hno := List.find?_eq_none.mp hfind (id, n) ((SlotMap.mem_iter _ _ _).mpr hid)
    exact hno (decide_eq_true hkey)
  | some e =>
    have hmem := (SlotMap.mem_iter _ _ _).mp (List.mem_of_find?_eq_some hfind)
    have hkey : e.2.key = key := of_decide_eq_true
      (@List.find?_some (BeliefId × BeliefNode) (fun e => decide (e.2.key = key)) _ _ hfind)
    have hholder : q.holder key = some e.2 := h.holder_iff.mpr ⟨⟨e.1, hmem⟩, hkey⟩
    rw [hholder]
    simp

theorem evaluate_beliefExists : (BeliefExists M G key).evaluate q = true ↔
    ∃ n, q.Holds n ∧ n.key = key := by
  unfold BeliefExists
  rw [List.any_eq_true]
  constructor
  · intro h
    obtain ⟨e, he, hkey⟩ := h
    exact ⟨e.2, ⟨e.1, (SlotMap.mem_iter _ _ _).mp he⟩, of_decide_eq_true hkey⟩
  · intro h
    obtain ⟨n, ⟨id, hid⟩, hkey⟩ := h
    exact ⟨(id, n), (SlotMap.mem_iter _ _ _).mpr hid, decide_eq_true hkey⟩

/-! ## beliefs and causal edges are taken away -/

/-- what is left keeps its key, and no causal edge is new -/
structure Thins (q q' : BeliefQuad M G) : Prop where
  keys : ∀ id n', q'.get id = some n' → ∃ n, q.get id = some n ∧ n.key = n'.key
  causal : q'.causal.edges ≤ q.causal.edges

theorem Thins.refl (q : BeliefQuad M G) : q.Thins q := ⟨fun _ n hn => ⟨n, hn, rfl⟩, le_refl _⟩

theorem Thins.trans {q'' : BeliefQuad M G} (h : q.Thins q') (h' : q'.Thins q'') : q.Thins q'' where
  keys id n'' hn'' := by
    obtain ⟨n', hn', hkey'⟩ := h'.keys id n'' hn''
    obtain ⟨n, hn, hkey⟩ := h.keys id n' hn'
    exact ⟨n, hn, hkey.trans hkey'⟩
  causal := h'.causal.trans h.causal

theorem Thins.uniqueKeys (h : q.Thins q') (hu : q.UniqueKeys) : q'.UniqueKeys := by
  intro i j n n' hi hj hkey
  obtain ⟨m, hm, hmkey⟩ := h.keys i n hi
  obtain ⟨m', hm', hmkey'⟩ := h.keys j n' hj
  exact hu i j m m' hm hm' (hmkey.trans (hkey.trans hmkey'.symm))

/-- no belief is a premise of its own inference -/
def Selfless (q : BeliefQuad M G) : Prop :=
  ∀ e ∈ q.causal.edges, ∀ premises, e.2.2.premises? = some premises → e.2.1 ∉ premises

theorem Thins.selfless (h : q.Thins q') (hs : q.Selfless) : q'.Selfless := fun e he =>
  hs e (Multiset.mem_of_le h.causal he)

theorem thins_modify (q : BeliefQuad M G) (id : BeliefId) {f : BeliefNode → BeliefNode}
    (hf : ∀ n, (f n).key = n.key) : q.Thins (q.modify id f) where
  keys j n' hn' := by
    rw [get_modify] at hn'
    split at hn'
    · obtain ⟨n, hn, rfl⟩ := Option.map_eq_some_iff.mp hn'
      exact ⟨n, hn, (hf n).symm⟩
    · exact ⟨n', hn', rfl⟩
  causal := le_refl _

theorem GraphsSynced.thins_remove (h : q.GraphsSynced) (id : BeliefId) :
    q.Thins (q.remove id).2 where
  keys j n' hn' := by
    rw [get_remove] at hn'
    split at hn'
    · cases hn'
    · exact ⟨n', hn', rfl⟩
  causal := by
    have hless : (q.remove id).2.causal.edges = Edges.restrict (fun j => j ≠ id) q.causal.edges :=
      congrArg Store.causal (store_remove h id)
    rw [hless]
    exact Multiset.filter_le _ _

variable [Platform]

theorem OnlyConfidences.thins (h : q.OnlyConfidences q') : q.Thins q' where
  keys id n' hn' := by
    obtain ⟨x, hx⟩ := h.nodes id
    rw [hx] at hn'
    obtain ⟨n, hn, rfl⟩ := Option.map_eq_some_iff.mp hn'
    exact ⟨n, hn, rfl⟩
  causal := by rw [h.causal]

theorem GraphsSynced.thins_revise (h : q.GraphsSynced) (stamp : Stamp) (order : HashOrder BeliefId)
    (id : BeliefId) (v : BeliefValue) (p : Provenance) (c : ℚ) :
    q.Thins (q.revise stamp order id v p c).2 := by
  refine revise_quad stamp order id v p c q (fun q' => q.Thins q') (.refl q) ?_ fun b base hb => ?_
  · exact (removeAll_induction (fun q' => q'.GraphsSynced ∧ q.Thins q')
      (fun q' j hq => ⟨hq.1.remove j, hq.2.trans (hq.1.thins_remove j)⟩) ⟨h, .refl q⟩ _).2
  · have hkey : ∀ n, (revisedNode b v p c n).key = n.key := fun n => rfl
    have hwritten := thins_modify base id hkey
    exact hb.trans ⟨hwritten.keys, hwritten.causal⟩

/-- a belief that is no premise of its own is not contracted with its premises -/
theorem Selfless.not_mem (hs : q.Selfless) (h : q.GraphsSynced) (id : BeliefId) :
    id ∉ q.minimalContractionSet id := by
  intro hmem
  obtain ⟨premises, ⟨a, ha⟩, hweakest⟩ := (mem_minimalContractionSet h).mp hmem
  exact hs _ (Projection.mem_edges.mpr ha) premises rfl (weakestPremise_mem hweakest)

/-- a revision that fails has changed nothing -/
theorem Selfless.revise_error (hs : q.Selfless) (h : q.GraphsSynced) {stamp : Stamp}
    {order : HashOrder BeliefId} {id : BeliefId} {v : BeliefValue} {p : Provenance} {c : ℚ}
    {e : BeliefRevisionError} (he : (q.revise stamp order id v p c).1 = .error e) :
    (q.revise stamp order id v p c).2 = q := by
  rcases q.revise_cases stamp order id v p c with
    ⟨-, hr⟩ | ⟨-, -, hr⟩ | ⟨-, -, -, hr⟩ | ⟨-, -, -, hmem, -⟩ | ⟨-, -, -, -, hr⟩
  · rw [hr]
  · rw [hr]
  · obtain ⟨record, hok, -⟩ := hr.ok
    rw [hok] at he
    cases he
  · exact absurd hmem (hs.not_mem h id)
  · obtain ⟨record, hok, -⟩ := hr.ok
    rw [hok] at he
    cases he

end BeliefQuad

/-! ## an update under such a contract -/

/-- a failed recovery, as a caller sees it -/
def failsRecovery : Except RuntimeError RuntimeUpdateResult → Bool
  | .error (.recoveryFailed _ _) => true
  | _ => false

/-- `contract` rolls back to the last checkpoint, has no critical invariant, and asks of each key in
`floors` its least confidence, as a hard invariant -/
structure BehavioralContract.Keeps (contract : BehavioralContract M G)
    (floors : String → ℚ → Prop) : Prop where
  recovery : contract.recovery = .rollbackToLastCheckpoint
  uncritical : ∀ inv ∈ contract.invariants, inv.violationClass ≠ .critical
  floor : ∀ key x, floors key x → ⟨MinConfidence M G key x, .hard⟩ ∈ contract.invariants

namespace BeliefRuntime
variable [Platform] {rt : BeliefRuntime M G} {call : UpdateCall}
  {contract : BehavioralContract M G} {floors : String → ℚ → Prop}

/-- the runtime is under `contract` alone, and its quad is in order -/
structure Watched (contract : BehavioralContract M G) (rt : BeliefRuntime M G) : Prop where
  contracts : rt.contractEngine.contracts = [contract]
  sovereignty : rt.contractEngine.sovereignty = none
  graphs : rt.quad.GraphsSynced
  unique : rt.quad.UniqueKeys
  selfless : rt.quad.Selfless

/-- the only contract is the one whose violation is met first -/
theorem Watched.of_firstSevere (h : Watched contract rt) {quad : BeliefQuad M G}
    {lastCheckpoint : Option CheckpointId} {first : BehavioralContract M G} {v : ContractViolation}
    (hv : firstSevere rt.contractEngine.contracts quad lastCheckpoint = some (first, v)) :
    first = contract ∧ v ∈ contract.collectAllViolations quad lastCheckpoint := by
  rw [h.contracts] at hv
  obtain ⟨c, hc, hmap⟩ := Option.bind_eq_some_iff.mp hv
  obtain ⟨v', hv', heq⟩ := Option.map_eq_some_iff.mp hmap
  obtain ⟨rfl, rfl⟩ := Prod.mk.inj heq
  obtain rfl := List.mem_singleton.mp (List.mem_of_find?_eq_some hc)
  exact ⟨rfl, List.mem_of_find?_eq_some hv'⟩

/-- the quad after an update: the beliefs are those before it; or the contract is upheld; or its
recovery has failed, and then the beliefs agree with those before it -/
def Updated (contract : BehavioralContract M G) (rt : BeliefRuntime M G)
    (r : Except RuntimeError RuntimeUpdateResult × BeliefRuntime M G) : Prop :=
  r.2.quad.nodes = rt.quad.nodes ∨ contract.Upholds r.2.quad ∨
    failsRecovery r.1 = true ∧ r.2.quad.Agrees rt.quad

theorem graphs_checkpointed (h : rt.quad.GraphsSynced) (call : UpdateCall) :
    (rt.checkpointedQuad call).GraphsSynced := ⟨h.semantic, h.temporal, h.causal, h.entity⟩

theorem graphs_revisedQuad (h : rt.quad.GraphsSynced) (call : UpdateCall) :
    (rt.revisedQuad call).GraphsSynced :=
  ((graphs_checkpointed h call).revise _ _ _ _ _ _).of_only (rt.revisedQuad_only call)

theorem thins_revisedQuad (h : rt.quad.GraphsSynced) (call : UpdateCall) :
    rt.quad.Thins (rt.revisedQuad call) := by
  have hrevise := (graphs_checkpointed h call).thins_revise call.revisionStamp
    call.contractionOrder call.id call.value call.provenance call.confidence
  have hbefore : rt.quad.Thins (rt.checkpointedQuad call) :=
    ⟨fun _ n hn => ⟨n, hn, rfl⟩, le_refl _⟩
  exact hbefore.trans (hrevise.trans (rt.revisedQuad_only call).thins)

theorem checkpointById_revisedQuad
    (hfresh : ∀ cp ∈ rt.quad.checkpoints, cp.id ≠ call.checkpointStamp.uuid) :
    (rt.revisedQuad call).checkpointById call.checkpointStamp.uuid =
      some (rt.quad.capture call.checkpointStamp.uuid call.checkpointStamp.nowMs) := by
  rw [← BeliefQuad.checkpointById_checkpoint_self hfresh call.checkpointStamp.nowMs]
  unfold BeliefQuad.checkpointById
  rw [checkpoints_revisedQuad]
  rfl

/-- a rollback to the checkpoint of the call fails only where there is nothing to roll back -/
theorem agrees_of_failed
    (hfresh : ∀ cp ∈ rt.quad.checkpoints, cp.id ≠ call.checkpointStamp.uuid)
    {v : ContractViolation} (hv : v.lastValidCheckpoint = some call.checkpointStamp.uuid)
    {e : RuntimeError} {quad : BeliefQuad M G}
    (h : executeRecovery (rt.revisedQuad call) v .rollbackToLastCheckpoint = (.error e, quad)) :
    (∃ message cause, e = .recoveryFailed message cause) ∧
      (rt.revisedQuad call).Agrees rt.quad := by
  have hcp := checkpointById_revisedQuad hfresh
  unfold executeRecovery rollbackRecovery at h
  simp only [hv] at h
  rcases (rt.revisedQuad call).rollbackTo_cases call.checkpointStamp.uuid with
    ⟨hnone, -⟩ | ⟨cp, hcp', hsame, hr⟩ | ⟨snap, -, hr⟩
  · rw [hcp] at hnone
    cases hnone
  · rw [hcp] at hcp'
    obtain rfl := Option.some.inj hcp'
    rw [hr] at h
    refine ⟨⟨_, _, (Except.error.inj (Prod.mk.inj h).1).symm⟩, ?_⟩
    exact BeliefQuad.hasContradictions_eq_false_iff.mp hsame
  · rw [hr] at h
    cases (Prod.mk.inj h).1

/-- **what an update does under such a contract** -/
theorem Watched.updated (h : Watched contract rt) (hkeeps : contract.Keeps floors)
    (hfresh : ∀ cp ∈ rt.quad.checkpoints, cp.id ≠ call.checkpointStamp.uuid) :
    Updated contract rt (rt.updateBelief call) := by
  rcases rt.updateBelief_cases call with
    ⟨-, hq, -⟩ | ⟨-, hq, e, hrev, -⟩ | ⟨-, -, hq, he⟩
  · exact Or.inl (congrArg BeliefQuad.nodes hq)
  · left
    rw [hq]
    rcases rt.revision_cases call with ⟨e', he', -, hq'⟩ | ⟨record, out, -, hok, -⟩
    · have hselfless : (rt.checkpointedQuad call).Selfless := h.selfless
      have hsame : (call.revise (rt.checkpointedQuad call)).2 = rt.checkpointedQuad call :=
        hselfless.revise_error (graphs_checkpointed h.graphs call) he'
      rw [hq', hsame]
      rfl
    · rw [hok] at hrev
      cases hrev
  · rcases rt.contractEngine.postUpdate_cases (rt.revisedQuad call)
      (some call.checkpointStamp.uuid) (rt.keyOf call.id) "system" call.auditMs with
      ⟨hnone, -, hv⟩ | ⟨first, v, hv, hclass, -, -⟩ | ⟨first, v, e, hv, -, hx, hv', hve⟩ |
      ⟨first, v, out, hv, -, hx, -⟩
    · have hverdict : (rt.verdict call).2.2 = rt.revisedQuad call := hv
      rw [h.contracts] at hnone
      refine Or.inr (Or.inl ?_)
      rw [hq, hverdict]
      exact upholds_of_firstSevere_none hnone contract List.mem_cons_self
    · obtain ⟨rfl, hmem⟩ := h.of_firstSevere hv
      obtain ⟨inv, hinv, -, rfl⟩ := BehavioralContract.mem_collectAllViolations.mp hmem
      exact absurd hclass (hkeeps.uncritical inv hinv)
    · obtain ⟨rfl, -⟩ := h.of_firstSevere hv
      rw [hkeeps.recovery] at hx
      obtain ⟨⟨message, cause, rfl⟩, hagrees⟩ :=
        agrees_of_failed hfresh (lastValidCheckpoint_of_firstSevere hv) hx
      have hverdict : (rt.verdict call).2.2 = rt.revisedQuad call := hv'
      right
      right
      rw [(he _).mpr hve, hq, hverdict]
      exact ⟨rfl, hagrees⟩
    · obtain ⟨rfl, -⟩ := h.of_firstSevere hv
      have hstripped := rt.quad_of_rollback call hfresh (lastValidCheckpoint_of_firstSevere hv)
        hkeeps.recovery hx
      have hverdict : (rt.verdict call).2.2 = rt.quad.stripped := hstripped
      left
      rw [hq, hverdict]
      rfl

/-- the quad after an update is the one before it or the revised one, but for the history -/
theorem Watched.quad_updateBelief (h : Watched contract rt) (hkeeps : contract.Keeps floors)
    (hfresh : ∀ cp ∈ rt.quad.checkpoints, cp.id ≠ call.checkpointStamp.uuid) :
    (rt.updateBelief call).2.quad = rt.quad ∨ (rt.updateBelief call).2.quad = rt.quad.stripped ∨
      (rt.updateBelief call).2.quad = rt.revisedQuad call := by
  rcases rt.updateBelief_cases call with ⟨-, hq, -⟩ | ⟨-, hq, -⟩ | ⟨-, -, hq, -⟩
  · exact Or.inl hq
  · exact Or.inr (Or.inr hq)
  · right
    rw [hq]
    rcases rt.contractEngine.postUpdate_cases (rt.revisedQuad call)
      (some call.checkpointStamp.uuid) (rt.keyOf call.id) "system" call.auditMs with
      ⟨-, -, hv⟩ | ⟨first, v, -, -, hv, -⟩ | ⟨first, v, e, -, -, -, hv, -⟩ |
      ⟨first, v, out, hv, -, hx, -⟩
    · exact Or.inr hv
    · exact Or.inr hv
    · exact Or.inr hv
    · obtain ⟨rfl, -⟩ := h.of_firstSevere hv
      exact Or.inl (rt.quad_of_rollback call hfresh (lastValidCheckpoint_of_firstSevere hv)
        hkeeps.recovery hx)

theorem Watched.updateBelief (h : Watched contract rt) (hkeeps : contract.Keeps floors)
    (hfresh : ∀ cp ∈ rt.quad.checkpoints, cp.id ≠ call.checkpointStamp.uuid) :
    Watched contract (rt.updateBelief call).2 ∧
      ∀ cp ∈ (rt.updateBelief call).2.quad.checkpoints,
        cp ∈ rt.quad.checkpoints ∨ cp.id = call.checkpointStamp.uuid := by
  have hcontracts := (contracts_updateBelief rt call).trans h.contracts
  have hsovereignty : (rt.updateBelief call).2.contractEngine.sovereignty = none := by
    rcases rt.sovereignty_updateBelief call with ⟨-, -, entry, -, -, hs⟩ | ⟨-, hs⟩
    · rw [hs, h.sovereignty]
      rfl
    · rw [hs, h.sovereignty]
  rcases h.quad_updateBelief hkeeps hfresh with hq | hq | hq
  · refine ⟨⟨hcontracts, hsovereignty, ?_, ?_, ?_⟩, ?_⟩ <;> rw [hq]
    · exact h.graphs
    · exact h.unique
    · exact h.selfless
    · exact fun cp hcp => Or.inl hcp
  · refine ⟨⟨hcontracts, hsovereignty, ?_, ?_, ?_⟩, ?_⟩ <;> rw [hq]
    · exact ⟨h.graphs.semantic, h.graphs.temporal, h.graphs.causal, h.graphs.entity⟩
    · exact h.unique
    · exact h.selfless
    · exact fun cp hcp => absurd hcp List.not_mem_nil
  · have hthins := thins_revisedQuad h.graphs call
    refine ⟨⟨hcontracts, hsovereignty, ?_, ?_, ?_⟩, ?_⟩ <;> rw [hq]
    · exact graphs_revisedQuad h.graphs call
    · exact hthins.uniqueKeys h.unique
    · exact hthins.selfless h.selfless
    · intro cp hcp
      rw [checkpoints_revisedQuad] at hcp
      rcases List.mem_append.mp hcp with hcp | hcp
      · exact Or.inl hcp
      · rw [List.mem_singleton.mp hcp]
        exact Or.inr rfl

/-! ## a run of updates -/

/-- what the calls of a run return -/
def results (rt : BeliefRuntime M G) (calls : List UpdateCall) :
    List (Except RuntimeError RuntimeUpdateResult) :=
  outputs afterUpdate (fun rt call => [(rt.updateBelief call).1]) rt calls

/-- how many recoveries fail in a run -/
def failedRecoveries (rt : BeliefRuntime M G) (calls : List UpdateCall) : Nat :=
  (rt.results calls).countP failsRecovery

theorem failedRecoveries_cons (rt : BeliefRuntime M G) (call : UpdateCall)
    (calls : List UpdateCall) : rt.failedRecoveries (call :: calls) =
      (if failsRecovery (rt.updateBelief call).1 then 1 else 0) +
        (rt.afterUpdate call).failedRecoveries calls := by
  show List.countP failsRecovery ([(rt.updateBelief call).1] ++ _) = _
  rw [List.countP_append, List.countP_singleton]
  rfl

theorem Watched.atLeast_updateBelief (h : Watched contract rt) (hkeeps : contract.Keeps floors)
    (hfresh : ∀ cp ∈ rt.quad.checkpoints, cp.id ≠ call.checkpointStamp.uuid)
    {key : String} {x slack : ℚ} (hfloor : floors key x) (hslack : 0 ≤ slack)
    (hbefore : rt.quad.AtLeast key (x - slack)) :
    (rt.afterUpdate call).quad.AtLeast key
      (x - (slack +
        (if failsRecovery (rt.updateBelief call).1 then 1 else 0 : ℕ) * leastChange)) := by
  have hmore :
      0 ≤ ((if failsRecovery (rt.updateBelief call).1 then 1 else 0 : ℕ) : ℚ) * leastChange :=
    mul_nonneg (Nat.cast_nonneg _) leastChange_pos.le
  rcases h.updated hkeeps hfresh with hnodes | hupholds | ⟨hfails, hagrees⟩
  · exact (hbefore.congr hnodes).mono (by linarith)
  · have hunique := (h.updateBelief hkeeps hfresh).1.unique
    have hhard : (⟨MinConfidence M G key x, .hard⟩ : SessionInvariant M G).violationClass ≠ .soft :=
      fun hsoft => by cases hsoft
    have hholds := hupholds _ (hkeeps.floor key x hfloor) hhard
    exact (hunique.evaluate_minConfidence.mp hholds).mono (by linarith)
  · refine (hagrees.atLeast hbefore).mono ?_
    rw [hfails, if_pos rfl]
    push_cast
    linarith

/-- **what the contract asks of the beliefs is kept in every run, but for** `leastChange` **for each
recovery that fails** -/
theorem floors_run (hkeeps : contract.Keeps floors) {rt : BeliefRuntime M G}
    (h : Watched contract rt) {slack : ℚ} (hslack : 0 ≤ slack)
    (hstart : ∀ key x, floors key x → rt.quad.AtLeast key (x - slack)) {calls : List UpdateCall}
    (hnodup : (calls.map fun call => call.checkpointStamp.uuid).Nodup)
    (hfresh : ∀ cp ∈ rt.quad.checkpoints, ∀ call ∈ calls, cp.id ≠ call.checkpointStamp.uuid) :
    Watched contract (run afterUpdate rt calls) ∧ ∀ key x, floors key x →
      (run afterUpdate rt calls).quad.AtLeast key
        (x - (slack + rt.failedRecoveries calls * leastChange)) := by
  induction calls generalizing rt slack with
  | nil =>
    refine ⟨h, fun key x hfloor => (hstart key x hfloor).mono ?_⟩
    show x - (slack + ((0 : ℕ) : ℚ) * leastChange) ≤ x - slack
    simp
  | cons call calls ih =>
    obtain ⟨hcall, hnodup'⟩ := List.nodup_cons.mp hnodup
    have hfresh' : ∀ cp ∈ rt.quad.checkpoints, cp.id ≠ call.checkpointStamp.uuid := fun cp hcp =>
      hfresh cp hcp call List.mem_cons_self
    obtain ⟨hwatched, hcheckpoints⟩ := h.updateBelief hkeeps hfresh'
    have hrest := ih hwatched (add_nonneg hslack (mul_nonneg
        (Nat.cast_nonneg (if failsRecovery (rt.updateBelief call).1 then 1 else 0))
        leastChange_pos.le))
      (fun key x hfloor => h.atLeast_updateBelief hkeeps hfresh' hfloor hslack
        (hstart key x hfloor)) hnodup' ?_
    · refine ⟨hrest.1, fun key x hfloor => ?_⟩
      have hlater := hrest.2 key x hfloor
      rw [failedRecoveries_cons]
      push_cast at hlater ⊢
      rw [add_mul, ← add_assoc]
      exact hlater
    · intro cp hcp later hlater
      rcases hcheckpoints cp hcp with hcp | hcp
      · exact hfresh cp hcp later (List.mem_cons_of_mem _ hlater)
      · intro heq
        refine hcall (List.mem_map.mpr ⟨later, hlater, ?_⟩)
        rw [← heq, hcp]

/-! ## when the preconditions fail -/

/-- with no sovereignty only the preconditions are checked -/
theorem Watched.preUpdate_eq (h : Watched contract rt) (beliefKey agentId : String) :
    rt.contractEngine.preUpdate rt.quad beliefKey agentId =
      if contract.checkPreconditions rt.quad then .ok ()
      else .error (.preconditionFailed contract.domain beliefKey) := by
  unfold ContractEngine.preUpdate ContractEngine.checkAuth
  rw [h.sovereignty, h.contracts]
  cases hp : contract.checkPreconditions rt.quad with
  | true => simp [hp]
  | false => simp [hp]

theorem Watched.admits (h : Watched contract rt)
    (hp : contract.checkPreconditions rt.quad = true)
    (hunlimited : contract.governance.maxTokensPerSession = none) (call : UpdateCall) :
    rt.Admits call := by
  refine ⟨?_, ?_⟩
  · rw [h.preUpdate_eq, if_pos hp]
  · have hlimit : (rt.contractEngine.contracts.head?.bind fun c =>
        c.governance.maxTokensPerSession) = none := by
      rw [h.contracts]
      exact hunlimited
    unfold trackTokens
    rw [hlimit]
    rfl

theorem Watched.refused (h : Watched contract rt)
    (hp : contract.checkPreconditions rt.quad = false) (call : UpdateCall) :
    rt.updateBelief call =
      (.error (.preconditionFailed contract.domain (rt.keyOf call.id)), rt) := by
  refine rt.updateBelief_refused call ?_
  rw [h.preUpdate_eq, hp]
  rfl

/-- **when the preconditions fail, no update does anything any more** -/
theorem Watched.refused_run (h : Watched contract rt)
    (hp : contract.checkPreconditions rt.quad = false) (calls : List UpdateCall) :
    run afterUpdate rt calls = rt ∧ rt.results calls =
      calls.map fun call => .error (.preconditionFailed contract.domain (rt.keyOf call.id)) := by
  induction calls with
  | nil => exact ⟨rfl, rfl⟩
  | cons call calls ih =>
    have hstays : rt.afterUpdate call = rt := congrArg Prod.snd (h.refused hp call)
    constructor
    · show run afterUpdate (rt.afterUpdate call) calls = rt
      rw [hstays]
      exact ih.1
    · show [(rt.updateBelief call).1] ++ (rt.afterUpdate call).results calls = _
      rw [hstays, ih.2, h.refused hp call]
      rfl

end BeliefRuntime

end
end Epica
