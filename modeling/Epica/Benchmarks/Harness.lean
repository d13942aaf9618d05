import Epica.ActiveInference.Monitor
import Epica.Benchmarks.Traces
import Epica.Core.Tece
import Epica.Lib.Last
import Epica.Runtime.Plain

/-!
# The benchmark harness

`runTrace` drives a trace through a fresh runtime, with an active-inference monitor or without, and
reports its metrics.  `Ledger` is what the metrics are about, without a runtime: the beliefs by
their position, how confident they are, what is known of their truth, and the confidences of the
updates and the free energies at the insertions, in order.

* `Flat.fTotal_eq`         the free energy of a quad that records no inference;
* `markCorrect_labelled`   an outcome goes to the last record of a belief;
* `simulates_step`         a step of the harness is a step of the ledger;
* `runTrace_scored`        the metrics of a trace are those of its ledger.
-/

set_option linter.unusedSectionVars false

namespace Epica.Benchmarks
open Lib

/-! ## the harness -/

structure HarnessConfig where
  reliabilityBaseline : ℚ
  system2Budget : Nat
  system2RefillRate : ℚ
  enableActiveInference : Bool

def HarnessConfig.default : HarnessConfig := ⟨1 / 2, 0, 0, true⟩

structure PerTrajectory where
  trajectoryId : UInt32
  steps : Nat
  contradictionsDetected : Nat
  tece : Option ℚ
  calibrationTargetMet : Bool
  softViolations : Nat
  hardViolations : Nat
  criticalViolations : Nat
  freeEnergyMean : Option ℚ
  freeEnergySamples : Nat
  insertLatenciesUs : List Nat

/-- what a step draws, and how long it takes -/
structure StepEnv where
  elapsedUs : Nat
  nodeMs : Nat
  checkpointStamp : Stamp
  revisionStamp : Stamp
  contractionOrder : HashOrder BeliefId
  propagationNow : BeliefId → Nat
  propagationOrder : BeliefId → HashOrder BeliefId
  auditMs : Nat
  historyMs : Nat

def StepEnv.node (env : StepEnv) (key value : String) (turn : Nat) (confidence : ℚ) : BeliefNode :=
  .new env.nodeMs key (.asserted value) (.userStatement turn) confidence

def StepEnv.call (env : StepEnv) (id : BeliefId) (value : String) (turn : Nat) (confidence : ℚ) :
    UpdateCall where
  id := id
  value := .asserted value
  provenance := .userStatement turn
  confidence := confidence
  checkpointStamp := env.checkpointStamp
  revisionStamp := env.revisionStamp
  contractionOrder := env.contractionOrder
  propagationNow := env.propagationNow
  propagationOrder := env.propagationOrder
  auditMs := env.auditMs
  historyMs := env.historyMs

/-- the runtime with the monitor that is attached to it -/
structure Harness (M : Type → Type) (G : Type → Type → Type) where
  rt : BeliefRuntime M G
  monitor : Option ActiveInferenceMonitor
  latencies : List Nat
  keyToId : Finmap fun _ : String => BeliefId
  groundTruth : List (BeliefId × Bool)

/-- the last entry of `id` gets the new truth, or there is a new entry -/
def setLatest (id : BeliefId) (correct : Bool) (truth : List (BeliefId × Bool)) :
    List (BeliefId × Bool) :=
  match truth.reverse.findIdx? fun e => e.1 = id with
  | none => truth ++ [(id, correct)]
  | some i => (truth.reverse.modify i fun e => (e.1, correct)).reverse

section
variable {M : Type → Type} {G : Type → Type → Type} [SlotMap M] [StableDiGraph G] [Platform]
  [NaturalLog]

def buildRuntime (cfg : HarnessConfig) : BeliefRuntime M G := .new .new cfg.reliabilityBaseline

/-- a belief that has gone by then is not observed -/
def observeActiveInference (monitor : Option ActiveInferenceMonitor) (quad : BeliefQuad M G)
    (id : BeliefId) : Option ActiveInferenceMonitor :=
  match quad.get id with
  | none => monitor
  | some node => monitor.map fun m => (m.observeQuad quad node).2

def Harness.start (cfg : HarnessConfig) : Harness M G where
  rt := buildRuntime cfg
  monitor := if cfg.enableActiveInference then some (.withConfig .default) else none
  latencies := []
  keyToId := ∅
  groundTruth := []

/-- a step of a key that has not been inserted is skipped -/
def executeStep (env : StepEnv) (s : Harness M G) : TraceStep → Harness M G
  | .insert key value confidence correct =>
    let inserted := s.rt.insertBelief (env.node key value s.groundTruth.length confidence) none
    { rt := inserted.2
      monitor := observeActiveInference s.monitor inserted.2.quad inserted.1
      latencies := s.latencies ++ [env.elapsedUs]
      keyToId := s.keyToId.insert key inserted.1
      groundTruth := s.groundTruth ++ [(inserted.1, correct)] }
  | .update key value confidence correct =>
    match s.keyToId.lookup key with
    | none => s
    | some id =>
      { rt := (s.rt.updateBelief (env.call id value s.groundTruth.length confidence)).2
        monitor := s.monitor
        latencies := s.latencies ++ [env.elapsedUs]
        keyToId := s.keyToId
        groundTruth := setLatest id correct s.groundTruth }

/-- the steps from the `i`th on -/
def executeSteps (env : Nat → StepEnv) : Nat → List TraceStep → Harness M G → Harness M G
  | _, [], s => s
  | i, step :: steps, s => executeSteps env (i + 1) steps (executeStep (env i) s step)

/-- the ground truth is applied when all steps have been executed -/
def corrected (s : Harness M G) : ConfidenceHistory :=
  s.groundTruth.foldl (fun h e => if e.2 then h else h.markCorrect e.1 false)
    s.rt.confidenceHistory

end

section
variable (M : Type → Type) (G : Type → Type → Type) [SlotMap M] [StableDiGraph G] [Platform]
  [NaturalLog]

def runTrace (env : Nat → StepEnv) (trace : Trace) (cfg : HarnessConfig) : PerTrajectory :=
  let s := executeSteps env 0 trace.steps (Harness.start (M := M) (G := G) cfg)
  let rt := { s.rt with confidenceHistory := corrected s }.finalizeSession
  let tece := Tece.compute rt.confidenceHistory.asTeceInput
  let report := rt.sessionReport
  { trajectoryId := trace.trajectoryId
    steps := trace.steps.length
    contradictionsDetected := report.contradictionsDetected
    tece := tece
    calibrationTargetMet := (tece.map fun t => decide (t < teceTarget)).getD true
    softViolations := report.softViolations
    hardViolations := report.hardViolations
    criticalViolations := report.criticalViolations
    freeEnergyMean := s.monitor.bind fun m =>
      if 0 < m.history.length then some m.meanFreeEnergy else none
    freeEnergySamples := s.monitor.elim 0 fun m => m.history.length
    insertLatenciesUs := s.latencies }

end

/-! ## the last record of a belief -/

/-- the last record of each belief for which `wrong` holds is marked as incorrect -/
def labelLast (wrong : BeliefId → Bool) : List ConfidenceRecord → List ConfidenceRecord
  | [] => []
  | r :: rs =>
    (if wrong r.beliefId && !rs.any fun r' => r'.beliefId = r.beliefId then
      { r with wasCorrect := some false } else r) :: labelLast wrong rs

theorem labelLast_none (rs : List ConfidenceRecord) : labelLast (fun _ => false) rs = rs := by
  induction rs with
  | nil => rfl
  | cons r rs ih =>
    rw [labelLast, ih]
    rfl

theorem labelLast_congr {wrong wrong' : BeliefId → Bool} {rs : List ConfidenceRecord}
    (h : ∀ r ∈ rs, wrong r.beliefId = wrong' r.beliefId) :
    labelLast wrong rs = labelLast wrong' rs := by
  induction rs with
  | nil => rfl
  | cons r rs ih =>
    rw [labelLast, labelLast, h r List.mem_cons_self,
      ih fun r' hr' => h r' (List.mem_cons_of_mem r hr')]

/-- a mark does not change which belief a record is of -/
theorem any_labelLast (wrong : BeliefId → Bool) (id : BeliefId) (rs : List ConfidenceRecord) :
    ((labelLast wrong rs).any fun r => decide (r.beliefId = id)) =
      rs.any fun r => decide (r.beliefId = id) := by
  induction rs with
  | nil => rfl
  | cons r rs ih =>
    rw [labelLast, List.any_cons, List.any_cons, ih]
    split <;> rfl

theorem markCorrect_eq (id : BeliefId) (rs : List ConfidenceRecord) :
    (⟨rs⟩ : ConfidenceHistory).markCorrect id false =
      ⟨changeLast (fun r => decide (r.beliefId = id)) (fun r => { r with wasCorrect := some false })
        rs⟩ := by
  rw [← modify_reverse_eq]
  unfold ConfidenceHistory.markCorrect
  simp only
  cases rs.reverse.findIdx? fun r => decide (r.beliefId = id) <;> rfl

/-- **an outcome goes to the last record of its belief** -/
theorem markCorrect_labelled (wrong : BeliefId → Bool) (id : BeliefId)
    (rs : List ConfidenceRecord) :
    (⟨labelLast wrong rs⟩ : ConfidenceHistory).markCorrect id false =
      ⟨labelLast (fun j => wrong j || decide (j = id)) rs⟩ := by
  rw [markCorrect_eq]
  refine congrArg ConfidenceHistory.mk ?_
  induction rs with
  | nil => rfl
  | cons r rs ih =>
    rw [labelLast, labelLast, changeLast, any_labelLast]
    cases hlater : rs.any fun r' => decide (r'.beliefId = id) with
    | true =>
      rw [if_pos rfl, ih]
      by_cases hr : r.beliefId = id
      · simp [hr, hlater]
      · simp [hr]
    | false =>
      have hkeep : labelLast (fun j => wrong j || decide (j = id)) rs = labelLast wrong rs := by
        refine labelLast_congr fun r' hr' => ?_
        have hne : decide (r'.beliefId = id) = false := by
          simpa using List.any_eq_false.mp hlater r' hr'
        rw [hne, Bool.or_false]
      rw [hkeep, if_neg Bool.false_ne_true]
      by_cases hr : r.beliefId = id
      · cases hw : wrong id <;> simp [hr, hlater, hw]
      · have hsame : ∀ b : Bool, decide ((if b = true then
            ({ r with wasCorrect := some false } : ConfidenceRecord) else r).beliefId = id) =
              false := by
          intro b
          cases b <;> exact decide_eq_false hr
        rw [hsame, decide_eq_false hr, Bool.or_false]
        rfl

/-- which beliefs the ground truth finds wrong -/
def wrongIn (truth : List (BeliefId × Bool)) (id : BeliefId) : Bool :=
  truth.any fun e => !e.2 && decide (id = e.1)

theorem corrected_labelled (truth : List (BeliefId × Bool)) (wrong : BeliefId → Bool)
    (rs : List ConfidenceRecord) :
    truth.foldl (fun h e => if e.2 then h else h.markCorrect e.1 false)
        (⟨labelLast wrong rs⟩ : ConfidenceHistory) =
      ⟨labelLast (fun j => wrong j || wrongIn truth j) rs⟩ := by
  induction truth generalizing wrong with
  | nil => simp [wrongIn]
  | cons e truth ih =>
    obtain ⟨id, correct⟩ := e
    rw [List.foldl_cons]
    cases correct with
    | true =>
      rw [if_pos rfl, ih]
      rfl
    | false =>
      rw [if_neg Bool.false_ne_true, markCorrect_labelled, ih]
      refine congrArg ConfidenceHistory.mk (labelLast_congr fun r _ => ?_)
      unfold wrongIn
      rw [List.any_cons, Bool.or_assoc]
      rfl

/-! ## the ledger -/

/-- the belief of a key, and the confidence and the truth of a belief, by position, the updates of
beliefs, the free energies, and how long the steps have taken that were not skipped -/
structure Ledger where
  keys : String → Option Nat
  confidences : List ℚ
  truth : List Bool
  entries : List (Nat × ℚ)
  freeEnergies : List ℚ
  latencies : List Nat

namespace Ledger

def empty : Ledger := ⟨fun _ => none, [], [], [], [], []⟩

section
variable [NaturalLog]

/-- of beliefs with these confidences, none of which is inferred, when one with the last confidence
has been observed -/
def freeEnergy (confidences : List ℚ) (observed : ℚ) : ℚ :=
  (confidences.map fun c => bernoulliKl c (1 / 2)).sum - expectedLogLikelihood observed observed

def step (elapsedUs : Nat) (l : Ledger) : TraceStep → Ledger
  | .insert key _ confidence correct =>
    let c := clamp confidence 0 1
    { keys := Function.update l.keys key (some l.truth.length)
      confidences := l.confidences ++ [c]
      truth := l.truth ++ [correct]
      entries := l.entries
      freeEnergies := l.freeEnergies ++ [freeEnergy (l.confidences ++ [c]) c]
      latencies := l.latencies ++ [elapsedUs] }
  | .update key _ confidence correct =>
    match l.keys key with
    | none => l
    | some b =>
      { keys := l.keys
        confidences := l.confidences.set b (clamp confidence 0 1)
        truth := l.truth.set b correct
        entries := l.entries ++ [(b, clamp confidence 0 1)]
        freeEnergies := l.freeEnergies
        latencies := l.latencies ++ [elapsedUs] }

def steps (elapsedUs : Nat → Nat) : Ledger → Nat → List TraceStep → Ledger
  | l, _, [] => l
  | l, i, s :: ss => steps elapsedUs (l.step (elapsedUs i) s) (i + 1) ss

end

/-- an update was right unless it was the last one of a belief that turned out to be wrong -/
def score (truth : List Bool) : List (Nat × ℚ) → List (ℚ × Bool)
  | [] => []
  | e :: es => (e.2, truth.getD e.1 true || es.any fun e' => e'.1 = e.1) :: score truth es

/-- the free energies that the monitor remembers, if there is one -/
def sampled (l : Ledger) (monitored : Bool) : List ℚ :=
  if monitored then l.freeEnergies.drop (l.freeEnergies.length - 256) else []

theorem sampled_ne_nil {l : Ledger} (h : l.freeEnergies ≠ []) : l.sampled true ≠ [] := by
  have hpos := List.length_pos_iff.mpr h
  unfold sampled
  rw [if_pos rfl, Ne, List.drop_eq_nil_iff]
  omega

/-- the metrics of a trace with this ledger -/
def metrics (l : Ledger) (trace : Trace) (cfg : HarnessConfig) : PerTrajectory :=
  let scores := score l.truth l.entries
  let tece := Tece.compute scores
  let samples := l.sampled cfg.enableActiveInference
  { trajectoryId := trace.trajectoryId
    steps := trace.steps.length
    contradictionsDetected := (scores.filter fun s => !s.2).length
    tece := tece
    calibrationTargetMet := (tece.map fun t => decide (t < teceTarget)).getD true
    softViolations := 0
    hardViolations := 0
    criticalViolations := 0
    freeEnergyMean := if samples = [] then none else some (samples.sum / samples.length)
    freeEnergySamples := samples.length
    insertLatenciesUs := l.latencies }

end Ledger

namespace Ledger
section

theorem score_eq_nil {truth : List Bool} {es : List (Nat × ℚ)} :
    score truth es = [] ↔ es = [] := by
  cases es with
  | nil => exact ⟨fun _ => rfl, fun _ => rfl⟩
  | cons e es => exact ⟨fun h => (List.cons_ne_nil _ _ h).elim, fun h => by cases h⟩

/-- the confidences of the scores are those of the entries -/
theorem confidence_of_score {truth : List Bool} {es : List (Nat × ℚ)} {o : ℚ × Bool}
    (h : o ∈ score truth es) : ∃ e ∈ es, o.1 = e.2 := by
  induction es with
  | nil => cases h
  | cons e es ih =>
    rcases List.mem_cons.mp h with rfl | h
    · exact ⟨e, List.mem_cons_self, rfl⟩
    · obtain ⟨e', he', heq⟩ := ih h
      exact ⟨e', List.mem_cons_of_mem e he', heq⟩

variable [NaturalLog]

/-- what a step adds when it is not skipped -/
theorem step_spec (elapsedUs : Nat) (l : Ledger) {s : TraceStep}
    (h : ∀ key ∈ s.updated?, (l.keys key).isSome = true) :
    (l.step elapsedUs s).latencies.length = l.latencies.length + 1 ∧
      (∀ key, ((l.step elapsedUs s).keys key).isSome = true ↔
        (l.keys key).isSome = true ∨ key ∈ s.inserted?) ∧
      (s.updated?.isSome = true → (l.step elapsedUs s).entries ≠ []) ∧
      l.entries <+: (l.step elapsedUs s).entries ∧
      ((∀ e ∈ l.entries, InUnit e.2) → ∀ e ∈ (l.step elapsedUs s).entries, InUnit e.2) := by
  cases s with
  | insert key value confidence correct =>
    refine ⟨List.length_append, fun key' => ?_, (fun hu => by cases hu), List.prefix_rfl, id⟩
    show (Function.update l.keys key (some l.truth.length) key').isSome = true ↔
      _ ∨ some key = some key'
    by_cases hk : key' = key
    · rw [hk, Function.update_self]
      simp
    · rw [Function.update_of_ne hk, Option.some_inj]
      simp [Ne.symm hk]
  | update key value confidence correct =>
    obtain ⟨b, hb⟩ := Option.isSome_iff_exists.mp (h key rfl)
    unfold step
    simp only [hb]
    refine ⟨List.length_append, fun key' => ?_, fun _ => by simp, List.prefix_append _ _, ?_⟩
    · exact ⟨Or.inl, fun hk => hk.elim id fun hk => by cases hk⟩
    · intro hunit e he
      rcases List.mem_append.mp he with he | he
      · exact hunit e he
      · rw [List.mem_singleton.mp he]
        exact inUnit_clamp confidence

/-- no step is skipped when every update is of a known key -/
theorem steps_spec (elapsedUs : Nat → Nat) (l : Ledger) (i : Nat) (ss : List TraceStep)
    (h : Keyed (fun key => (l.keys key).isSome = true) ss) :
    (steps elapsedUs l i ss).latencies.length = l.latencies.length + ss.length ∧
      ((∃ s ∈ ss, s.updated?.isSome = true) ∨ l.entries ≠ [] →
        (steps elapsedUs l i ss).entries ≠ []) ∧
      ((∀ e ∈ l.entries, InUnit e.2) → ∀ e ∈ (steps elapsedUs l i ss).entries, InUnit e.2) := by
  induction ss generalizing l i with
  | nil => exact ⟨rfl, fun h => h.elim (fun ⟨s, hs, _⟩ => absurd hs List.not_mem_nil) id, id⟩
  | cons s ss ih =>
    obtain ⟨hlatencies, hkeys, hupdate, hprefix, hunit⟩ := l.step_spec (elapsedUs i) h.1
    have hknown : (fun key => ((l.step (elapsedUs i) s).keys key).isSome = true) =
        fun key => (l.keys key).isSome = true ∨ key ∈ s.inserted? :=
      funext fun key => propext (hkeys key)
    obtain ⟨hl, he, hu⟩ := ih (l.step (elapsedUs i) s) (i + 1) (by rw [hknown]; exact h.2)
    refine ⟨?_, fun hsome => he ?_, fun hin => hu (hunit hin)⟩
    · show (steps elapsedUs (l.step (elapsedUs i) s) (i + 1) ss).latencies.length = _
      rw [hl, hlatencies, List.length_cons]
      omega
    · rcases hsome with ⟨s', hs', hup⟩ | hne
      · rcases List.mem_cons.mp hs' with rfl | hs'
        · exact Or.inr (hupdate hup)
        · exact Or.inl ⟨s', hs', hup⟩
      · exact Or.inr fun hnil => hne (List.prefix_nil.mp (hnil ▸ hprefix))

/-- where keys are known only when there is a free energy, there is one after an update of a known
key -/
theorem freeEnergies_steps (elapsedUs : Nat → Nat) (l : Ledger) (i : Nat) (ss : List TraceStep)
    (h : Keyed (fun key => (l.keys key).isSome = true) ss)
    (hl : ∀ key, (l.keys key).isSome = true → l.freeEnergies ≠ [])
    (hne : (∃ s ∈ ss, s.updated?.isSome = true) ∨ l.freeEnergies ≠ []) :
    (steps elapsedUs l i ss).freeEnergies ≠ [] := by
  induction ss generalizing l i with
  | nil => exact hne.elim (fun ⟨s, hs, _⟩ => absurd hs List.not_mem_nil) id
  | cons s ss ih =>
    obtain ⟨-, hkeys, -⟩ := l.step_spec (elapsedUs i) h.1
    have hknown : (fun key => ((l.step (elapsedUs i) s).keys key).isSome = true) =
        fun key => (l.keys key).isSome = true ∨ key ∈ s.inserted? :=
      funext fun key => propext (hkeys key)
    cases s with
    | insert key value confidence correct =>
      have hnew : (l.step (elapsedUs i) (.insert key value confidence correct)).freeEnergies ≠ [] :=
        List.append_ne_nil_of_right_ne_nil _ (List.cons_ne_nil _ _)
      exact ih _ _ (by rw [hknown]; exact h.2) (fun _ _ => hnew) (Or.inr hnew)
    | update key value confidence correct =>
      have hold : l.freeEnergies ≠ [] := hl key (h.1 key rfl)
      have hsame : (l.step (elapsedUs i) (.update key value confidence correct)).freeEnergies =
          l.freeEnergies := by
        unfold step
        simp only
        split <;> rfl
      refine ih _ _ (by rw [hknown]; exact h.2) (fun _ _ => ?_) (Or.inr ?_)
      · rw [hsame]
        exact hold
      · rw [hsame]
        exact hold

end
end Ledger

/-! ## the harness and the ledger -/

/-- a record is of the belief at the position of the entry, and has no outcome yet -/
structure Records (ids : List BeliefId) (r : ConfidenceRecord) (e : Nat × ℚ) : Prop where
  belief : ids[e.1]? = some r.beliefId
  confidence : r.confidence = e.2
  unlabelled : r.wasCorrect = none

section
variable {M : Type → Type} {G : Type → Type → Type} [SlotMap M] [StableDiGraph G] [Platform]
  [NaturalLog]

/-- **the free energy of a quad that records no inference is that of its confidences** -/
theorem Flat.fTotal_eq {q : BeliefQuad M G} (h : q.Flat) {ids : List BeliefId} (hn : ids.Nodup)
    (hlive : ∀ id, q.Live id ↔ id ∈ ids) (lastObs : BeliefNode) :
    (q.quadFreeEnergy lastObs).fTotal =
      Ledger.freeEnergy (ids.map q.fast) lastObs.fastConfidence := by
  have hprior : ∀ id, q.structuralPrior id = 1 / 2 := by
    intro id
    unfold BeliefQuad.structuralPrior
    rw [h.inferredFromPremises]
    rfl
  have hperm : ((SlotMap.iter q.nodes).map Prod.fst).Perm ids :=
    (List.perm_ext_iff_of_nodup (SlotMap.nodup_iter q.nodes) hn).mpr fun id =>
      (SlotMap.mem_keys q.nodes id).trans (hlive id)
  have hsum : ((SlotMap.iter q.nodes).map fun e =>
        bernoulliKl e.2.fastConfidence (q.structuralPrior e.1)) =
      ((SlotMap.iter q.nodes).map Prod.fst).map fun id => bernoulliKl (q.fast id) (1 / 2) := by
    rw [List.map_map]
    refine List.map_congr_left fun e he => ?_
    show _ = bernoulliKl (q.fast e.1) (1 / 2)
    rw [hprior, BeliefQuad.fast_of_get ((SlotMap.mem_iter q.nodes e.1 e.2).mp he)]
  unfold Ledger.freeEnergy
  rw [(q.quadFreeEnergy_eq lastObs).1, hsum, (hperm.map _).sum_eq, List.map_map]
  rfl

/-- the monitor has seen these free energies, if there is one -/
def Seen (monitored : Bool) (freeEnergies : List ℚ) (monitor : Option ActiveInferenceMonitor) :
    Prop :=
  ∃ readings : List FreeEnergyBreakdown, readings.map FreeEnergyBreakdown.fTotal = freeEnergies ∧
    monitor = if monitored then
      some (run ActiveInferenceMonitor.next (.withConfig .default) readings) else none

/-- `ids` are the beliefs by their position -/
structure Simulates (monitored : Bool) (ids : List BeliefId) (l : Ledger) (s : Harness M G) :
    Prop where
  plain : s.rt.Plain
  live : ∀ id, s.rt.quad.Live id ↔ id ∈ ids
  nodup : ids.Nodup
  length : ids.length = l.truth.length
  known : ∀ key b, l.keys key = some b → b < ids.length
  keyed : ∀ key, s.keyToId.lookup key = (l.keys key).bind fun b => ids[b]?
  truth : s.groundTruth = ids.zip l.truth
  records : List.Forall₂ (Records ids) s.rt.confidenceHistory.records l.entries
  latencies : s.latencies = l.latencies
  confidences : ids.map s.rt.quad.fast = l.confidences
  monitor : Seen monitored l.freeEnergies s.monitor

theorem simulates_start (cfg : HarnessConfig) :
    Simulates cfg.enableActiveInference [] .empty (Harness.start cfg : Harness M G) where
  plain := ⟨rfl, BeliefQuad.flat_new⟩
  live id := iff_of_false (BeliefQuad.not_live_iff.mpr (SlotMap.get_withKey id)) List.not_mem_nil
  nodup := List.nodup_nil
  length := rfl
  known key b h := by cases h
  keyed key := Finmap.lookup_empty key
  truth := rfl
  records := List.Forall₂.nil
  latencies := rfl
  confidences := rfl
  monitor := ⟨[], rfl, rfl⟩

/-- more beliefs do not change which records are of which belief -/
theorem Records.mono {ids : List BeliefId} {r : ConfidenceRecord} {e : Nat × ℚ}
    (h : Records ids r e) (id : BeliefId) : Records (ids ++ [id]) r e where
  belief := by
    obtain ⟨hlt, -⟩ := List.getElem?_eq_some_iff.mp h.belief
    rw [List.getElem?_append_left hlt]
    exact h.belief
  confidence := h.confidence
  unlabelled := h.unlabelled

theorem setLatest_eq (id : BeliefId) (correct : Bool) (truth : List (BeliefId × Bool))
    (h : (truth.any fun e => decide (e.1 = id)) = true) : setLatest id correct truth =
      changeLast (fun e => decide (e.1 = id)) (fun e => (e.1, correct)) truth := by
  rw [← modify_reverse_eq]
  unfold setLatest
  cases hi : truth.reverse.findIdx? fun e => decide (e.1 = id) with
  | none =>
    obtain ⟨e, he, hid⟩ := List.any_eq_true.mp h
    rw [List.findIdx?_eq_none_iff] at hi
    rw [hi e (List.mem_reverse.mpr he)] at hid
    cases hid
  | some i => rfl

theorem any_zip {ids : List BeliefId} {truth : List Bool} (hlength : ids.length = truth.length)
    (id : BeliefId) : ((ids.zip truth).any fun e => decide (e.1 = id)) = decide (id ∈ ids) := by
  induction ids generalizing truth with
  | nil => rfl
  | cons j ids ih =>
    cases truth with
    | nil => cases hlength
    | cons t truth =>
      rw [List.zip_cons_cons, List.any_cons, ih (Nat.succ.inj hlength)]
      simp [eq_comm]

theorem changeLast_zip {ids : List BeliefId} (hn : ids.Nodup) {b : Nat} {id : BeliefId}
    (hb : ids[b]? = some id) {truth : List Bool} (hlength : ids.length = truth.length)
    (correct : Bool) :
    changeLast (fun e => decide (e.1 = id)) (fun e => (e.1, correct)) (ids.zip truth) =
      ids.zip (truth.set b correct) := by
  induction ids generalizing truth b with
  | nil => cases hb
  | cons j ids ih =>
    cases truth with
    | nil => cases hlength
    | cons t truth =>
      have hlength' : ids.length = truth.length := Nat.succ.inj hlength
      obtain ⟨hj, hn'⟩ := List.nodup_cons.mp hn
      rw [List.zip_cons_cons, changeLast, any_zip hlength']
      cases b with
      | zero =>
        obtain rfl : j = id := Option.some.inj hb
        simp [hj]
      | succ b =>
        have hmem : id ∈ ids := List.mem_of_getElem? hb
        rw [if_pos (decide_eq_true hmem), ih hn' hb hlength']
        rfl

theorem setLatest_zip {ids : List BeliefId} (hn : ids.Nodup) {b : Nat} {id : BeliefId}
    (hb : ids[b]? = some id) {truth : List Bool} (hlength : ids.length = truth.length)
    (correct : Bool) : setLatest id correct (ids.zip truth) = ids.zip (truth.set b correct) := by
  rw [setLatest_eq, changeLast_zip hn hb hlength]
  rw [any_zip hlength]
  exact decide_eq_true (List.mem_of_getElem? hb)

/-- an insertion adds a belief that is as confident as it is told to be -/
theorem fast_insert (q : BeliefQuad M G) (node : BeliefNode) :
    (q.insert node).2.fast = Function.update q.fast q.nextId node.fastConfidence := by
  funext j
  unfold BeliefQuad.fast
  rw [BeliefQuad.get_insert]
  by_cases hj : j = q.nextId
  · rw [if_pos hj, hj, Function.update_self]
    rfl
  · rw [if_neg hj, Function.update_of_ne hj]

/-- a monitor sees the free energy of the quad with the belief that has been inserted -/
theorem seen_insert {monitored : Bool} {freeEnergies : List ℚ}
    {monitor : Option ActiveInferenceMonitor} (h : Seen monitored freeEnergies monitor)
    {q : BeliefQuad M G} {id : BeliefId} {node : BeliefNode} (hnode : q.get id = some node) :
    Seen monitored (freeEnergies ++ [(q.quadFreeEnergy node).fTotal])
      (observeActiveInference monitor q id) := by
  obtain ⟨readings, hreadings, hmonitor⟩ := h
  refine ⟨readings ++ [q.quadFreeEnergy node], ?_, ?_⟩
  · rw [List.map_append, hreadings]
    rfl
  · unfold observeActiveInference
    rw [hnode, hmonitor]
    cases monitored with
    | false => rfl
    | true =>
      rw [run_concat]
      rfl

/-- the beliefs after an insertion -/
theorem live_insert_iff {q : BeliefQuad M G} {ids : List BeliefId} (hn : ids.Nodup)
    (hlive : ∀ id, q.Live id ↔ id ∈ ids) (node : BeliefNode) :
    (ids ++ [q.nextId]).Nodup ∧ ∀ id, (q.insert node).2.Live id ↔ id ∈ ids ++ [q.nextId] := by
  refine ⟨?_, fun id => ?_⟩
  · refine List.nodup_append.mpr ⟨hn, List.nodup_singleton _, fun a ha b hb hab => ?_⟩
    rw [List.mem_singleton.mp hb] at hab
    exact BeliefQuad.not_live_nextId q (hab ▸ (hlive a).mpr ha)
  · rw [BeliefQuad.live_insert, List.mem_append, List.mem_singleton, hlive]

theorem map_fast_insert {q : BeliefQuad M G} {ids : List BeliefId}
    (hlive : ∀ id, q.Live id ↔ id ∈ ids) (node : BeliefNode) :
    (ids ++ [q.nextId]).map (q.insert node).2.fast = ids.map q.fast ++ [node.fastConfidence] := by
  have hnew : ∀ id ∈ ids, id ≠ q.nextId := by
    rintro id hid rfl
    exact BeliefQuad.not_live_nextId q ((hlive _).mpr hid)
  rw [fast_insert, List.map_append, List.map_singleton, Function.update_self]
  congr 1
  exact List.map_congr_left fun id hid => Function.update_of_ne (hnew id hid) _ _

theorem simulates_insert (env : StepEnv) {monitored : Bool} {ids : List BeliefId} {l : Ledger}
    {s : Harness M G} (h : Simulates monitored ids l s) (key value : String) (confidence : ℚ)
    (correct : Bool) :
    Simulates monitored (ids ++ [s.rt.quad.nextId])
      (l.step env.elapsedUs (.insert key value confidence correct))
      (executeStep env s (.insert key value confidence correct)) where
  plain := ⟨h.plain.bare, h.plain.flat.insert _⟩
  live := (live_insert_iff h.nodup h.live _).2
  nodup := (live_insert_iff h.nodup h.live
    (env.node key value s.groundTruth.length confidence)).1
  length := by
    show (ids ++ [s.rt.quad.nextId]).length = (l.truth ++ [correct]).length
    rw [List.length_append, List.length_append, h.length]
    rfl
  known key' b hb := by
    have hb' : Function.update l.keys key (some l.truth.length) key' = some b := hb
    rw [List.length_append, List.length_singleton]
    by_cases hk : key' = key
    · rw [hk, Function.update_self] at hb'
      obtain rfl := Option.some.inj hb'
      rw [h.length]
      exact Nat.lt_succ_self _
    · rw [Function.update_of_ne hk] at hb'
      exact Nat.lt_succ_of_lt (h.known key' b hb')
  keyed key' := by
    show (s.keyToId.insert key s.rt.quad.nextId).lookup key' =
      (Function.update l.keys key (some l.truth.length) key').bind fun b =>
        (ids ++ [s.rt.quad.nextId])[b]?
    by_cases hk : key' = key
    · rw [hk, Finmap.lookup_insert, Function.update_self, Option.bind_some, ← h.length]
      exact List.getElem?_concat_length.symm
    · rw [Finmap.lookup_insert_of_ne _ hk, Function.update_of_ne hk, h.keyed]
      cases hb : l.keys key' with
      | none => rfl
      | some b => exact (List.getElem?_append_left (h.known key' b hb)).symm
  truth := by
    show s.groundTruth ++ [(s.rt.quad.nextId, correct)] =
      (ids ++ [s.rt.quad.nextId]).zip (l.truth ++ [correct])
    rw [List.zip_append h.length, h.truth]
    rfl
  records := h.records.imp fun r e hre => hre.mono _
  latencies := congrArg (· ++ [env.elapsedUs]) h.latencies
  confidences := by
    refine (map_fast_insert h.live _).trans ?_
    rw [h.confidences]
    rfl
  monitor := by
    obtain ⟨hnodup, hlive⟩ := live_insert_iff h.nodup h.live
      (env.node key value s.groundTruth.length confidence)
    have hnode := (BeliefQuad.get_insert s.rt.quad
      (env.node key value s.groundTruth.length confidence) _).trans (if_pos rfl)
    have hseen := seen_insert h.monitor hnode
    rw [Flat.fTotal_eq (h.plain.flat.insert _) hnodup hlive, map_fast_insert h.live,
      h.confidences] at hseen
    exact hseen

theorem map_update {ids : List BeliefId} (hn : ids.Nodup) {b : Nat} {id : BeliefId}
    (hb : ids[b]? = some id) (f : BeliefId → ℚ) (c : ℚ) :
    ids.map (Function.update f id c) = (ids.map f).set b c := by
  obtain ⟨hlt, hid⟩ := List.getElem?_eq_some_iff.mp hb
  rw [hn.map_update, if_pos (List.mem_of_getElem? hb), ← hid, hn.idxOf_getElem b hlt]

theorem simulates_update (env : StepEnv) {monitored : Bool} {ids : List BeliefId} {l : Ledger}
    {s : Harness M G} (h : Simulates monitored ids l s) (key value : String) (confidence : ℚ)
    (correct : Bool) :
    Simulates monitored ids (l.step env.elapsedUs (.update key value confidence correct))
      (executeStep env s (.update key value confidence correct)) := by
  unfold Ledger.step executeStep
  have hkeyed := h.keyed key
  cases hb : l.keys key with
  | none =>
    rw [hb] at hkeyed
    simp only [hkeyed, hb, Option.bind_none]
    exact h
  | some b =>
    obtain ⟨id, hid⟩ : ∃ id, ids[b]? = some id :=
      ⟨_, List.getElem?_eq_getElem (h.known key b hb)⟩
    rw [hb, Option.bind_some, hid] at hkeyed
    simp only [hkeyed, hb]
    have hlive : s.rt.quad.Live (env.call id value s.groundTruth.length confidence).id :=
      (h.live id).mpr (List.mem_of_getElem? hid)
    obtain ⟨hplain, hlive', hhistory⟩ := h.plain.updateBelief hlive
    refine ⟨hplain, fun id => (hlive' id).trans (h.live id), h.nodup, ?_, h.known, h.keyed,
      ?_, ?_, congrArg (· ++ [env.elapsedUs]) h.latencies, ?_, h.monitor⟩
    · rw [List.length_set]
      exact h.length
    · show setLatest _ correct s.groundTruth = _
      rw [h.truth]
      exact setLatest_zip h.nodup hid h.length correct
    · show List.Forall₂ _ _ _
      rw [hhistory]
      have hnew : Records ids ⟨_, clamp confidence 0 1, none, env.historyMs⟩
          (b, clamp confidence 0 1) := ⟨hid, rfl, rfl⟩
      exact List.rel_append h.records (List.Forall₂.cons hnew List.Forall₂.nil)
    · show ids.map (s.rt.updateBelief _).2.quad.fast = l.confidences.set b _
      rw [h.plain.fast_updateBelief hlive, ← h.confidences]
      exact map_update h.nodup hid _ _

/-- **a step of the harness is a step of the ledger** -/
theorem simulates_step (env : StepEnv) {monitored : Bool} {ids : List BeliefId} {l : Ledger}
    {s : Harness M G} (h : Simulates monitored ids l s) (step : TraceStep) :
    ∃ ids', Simulates monitored ids' (l.step env.elapsedUs step) (executeStep env s step) := by
  cases step with
  | insert key value confidence correct => exact ⟨_, simulates_insert env h key value _ correct⟩
  | update key value confidence correct => exact ⟨_, simulates_update env h key value _ correct⟩

theorem simulates_steps (env : Nat → StepEnv) (steps : List TraceStep) (i : Nat)
    {monitored : Bool} {ids : List BeliefId} {l : Ledger} {s : Harness M G}
    (h : Simulates monitored ids l s) :
    ∃ ids', Simulates monitored ids' (Ledger.steps (fun i => (env i).elapsedUs) l i steps)
      (executeSteps env i steps s) := by
  induction steps generalizing i ids l s with
  | nil => exact ⟨ids, h⟩
  | cons step steps ih =>
    obtain ⟨ids', h'⟩ := simulates_step (env i) h step
    exact ih (i + 1) h'

end

/-! ## the scores -/

theorem wrongIn_zip {ids : List BeliefId} (hn : ids.Nodup) {b : Nat} {id : BeliefId}
    (hb : ids[b]? = some id) {truth : List Bool} (hlength : ids.length = truth.length) :
    wrongIn (ids.zip truth) id = !truth.getD b true := by
  unfold wrongIn
  induction ids generalizing truth b with
  | nil => cases hb
  | cons j ids ih =>
    cases truth with
    | nil => cases hlength
    | cons t truth =>
      have hlength' : ids.length = truth.length := Nat.succ.inj hlength
      obtain ⟨hj, hn'⟩ := List.nodup_cons.mp hn
      rw [List.zip_cons_cons, List.any_cons]
      cases b with
      | zero =>
        obtain rfl : j = id := Option.some.inj hb
        have hrest : ((ids.zip truth).any fun e => !e.2 && decide (j = e.1)) = false := by
          refine List.any_eq_false.mpr fun e he => ?_
          have hne : j ≠ e.1 := fun h => hj (h ▸ (List.of_mem_zip he).1)
          simp [hne]
        rw [hrest]
        simp
      | succ b =>
        have hne : id ≠ j := fun h => hj (h ▸ List.mem_of_getElem? hb)
        rw [ih hn' hb hlength']
        simp [hne]

/-- records are of one belief when their entries are at one position -/
theorem any_records {ids : List BeliefId} (hn : ids.Nodup) {b : Nat} {id : BeliefId}
    (hb : ids[b]? = some id) {rs : List ConfidenceRecord} {es : List (Nat × ℚ)}
    (h : List.Forall₂ (Records ids) rs es) :
    (rs.any fun r => decide (r.beliefId = id)) = es.any fun e => decide (e.1 = b) := by
  induction h with
  | nil => rfl
  | @cons r e rs es hre _ ih =>
    rw [List.any_cons, List.any_cons, ih]
    refine congrArg (· || _) (decide_eq_decide.mpr ⟨fun h => ?_, fun h => ?_⟩)
    · obtain ⟨hlt, -⟩ := List.getElem?_eq_some_iff.mp hre.belief
      refine (List.getElem?_inj hlt hn).mp ?_
      rw [hre.belief, hb, h]
    · rw [← Option.some_inj, ← hre.belief, h, hb]

/-- when a session is finished, what has not been marked as incorrect is correct -/
theorem asTeceInput_finished (rs : List ConfidenceRecord) :
    (⟨rs⟩ : ConfidenceHistory).finalizeSession.asTeceInput =
      rs.map fun r => (r.confidence, r.wasCorrect != some false) := by
  unfold ConfidenceHistory.asTeceInput ConfidenceHistory.finalizeSession
  induction rs with
  | nil => rfl
  | cons r rs ih =>
    rcases hc : r.wasCorrect with _ | _ | _ <;> simp [hc] at ih ⊢ <;> exact ih

/-- **the outcomes of the records are the scores of the entries** -/
theorem asTeceInput_labelled {ids : List BeliefId} (hn : ids.Nodup) {truth : List Bool}
    (hlength : ids.length = truth.length) {rs : List ConfidenceRecord} {es : List (Nat × ℚ)}
    (h : List.Forall₂ (Records ids) rs es) :
    (⟨labelLast (wrongIn (ids.zip truth)) rs⟩ : ConfidenceHistory).finalizeSession.asTeceInput =
      Ledger.score truth es := by
  rw [asTeceInput_finished]
  induction h with
  | nil => rfl
  | @cons r e rs es hre htail ih =>
    rw [labelLast, Ledger.score, List.map_cons, ih, wrongIn_zip hn hre.belief hlength,
      any_records hn hre.belief htail, ← hre.confidence]
    refine congrArg (· :: _) ?_
    cases truth.getD e.1 true <;> cases es.any fun e' => decide (e'.1 = e.1) <;>
      simp [hre.unlabelled]

/-- **what the monitor reports is what it has seen of late** -/
theorem sampled_of_seen [Platform] {l : Ledger} {monitored : Bool}
    {monitor : Option ActiveInferenceMonitor} (h : Seen monitored l.freeEnergies monitor) :
    (monitor.bind fun m => if 0 < m.history.length then some m.meanFreeEnergy else none) =
      (if l.sampled monitored = [] then none
        else some ((l.sampled monitored).sum / (l.sampled monitored).length)) ∧
    (monitor.elim 0 fun m => m.history.length) = (l.sampled monitored).length := by
  obtain ⟨readings, hreadings, rfl⟩ := h
  cases monitored with
  | false => exact ⟨rfl, rfl⟩
  | true =>
    have hhistory : (run ActiveInferenceMonitor.next (.withConfig .default) readings).history =
        l.sampled true := by
      have hcapacity : MonitorConfig.default.sanitizedCapacity = 256 := by decide +kernel
      have hlength : readings.length = l.freeEnergies.length := by
        rw [← hreadings, List.length_map]
      unfold Ledger.sampled
      rw [ActiveInferenceMonitor.history_run, hreadings, hcapacity, hlength, if_pos rfl]
    simp only [if_true, Option.bind_some, Option.elim_some, ActiveInferenceMonitor.meanFreeEnergy,
      hhistory]
    refine ⟨?_, trivial⟩
    by_cases hnil : l.sampled true = []
    · rw [hnil]
      rfl
    · rw [if_pos (List.length_pos_iff.mpr hnil), if_neg hnil, if_neg hnil]

section
variable (M : Type → Type) (G : Type → Type → Type) [SlotMap M] [StableDiGraph G] [Platform]
  [NaturalLog]

/-- the metrics of a trace are those of its ledger, whatever the runtime draws -/
theorem runTrace_eq (env : Nat → StepEnv) (trace : Trace) (cfg : HarnessConfig) :
    runTrace M G env trace cfg =
      (Ledger.steps (fun i => (env i).elapsedUs) .empty 0 trace.steps).metrics trace cfg := by
  obtain ⟨ids, h⟩ := simulates_steps env trace.steps 0 (simulates_start (M := M) (G := G) cfg)
  unfold runTrace
  simp only
  generalize executeSteps env 0 trace.steps (Harness.start cfg : Harness M G) = s at h ⊢
  generalize Ledger.steps (fun i => (env i).elapsedUs) .empty 0 trace.steps = l at h ⊢
  have hcorrected : corrected s =
      ⟨labelLast (wrongIn (ids.zip l.truth)) s.rt.confidenceHistory.records⟩ := by
    have hlabelled := corrected_labelled s.groundTruth (fun _ => false)
      s.rt.confidenceHistory.records
    rw [labelLast_none] at hlabelled
    refine hlabelled.trans ?_
    rw [h.truth]
    rfl
  have hinput : (corrected s).finalizeSession.asTeceInput = Ledger.score l.truth l.entries := by
    rw [hcorrected]
    exact asTeceInput_labelled h.nodup h.length h.records
  have hlog : s.rt.contractEngine.violationLog = .default := by
    rw [h.plain.bare]
  obtain ⟨hmean, hsamples⟩ := sampled_of_seen h.monitor
  unfold Ledger.metrics BeliefRuntime.sessionReport BeliefRuntime.finalizeSession
  simp only [hinput, hlog, h.latencies, hmean, hsamples]
  rfl

end

section
attribute [local instance] Platform.ascii NaturalLog.tangent

def quietEnv : StepEnv where
  elapsedUs := 7
  nodeMs := 0
  checkpointStamp := ⟨1, 0⟩
  revisionStamp := ⟨2, 0⟩
  contractionOrder := .id
  propagationNow _ := 0
  propagationOrder _ := .id
  auditMs := 0
  historyMs := 0

/-- the monitor sees the insertion, and the update is scored -/
example :
    let trace : Trace := ⟨.alfworldLike, 0,
      [.insert "door" "open" (1 / 2) true, .update "door" "shut" (9 / 10) false]⟩
    let per := runTrace SlotVec EdgeList (fun _ => quietEnv) trace .default
    per.freeEnergySamples = 1 ∧ per.contradictionsDetected = 1 ∧ per.tece = some (9 / 10) := by
  decide +kernel

end
end Epica.Benchmarks
