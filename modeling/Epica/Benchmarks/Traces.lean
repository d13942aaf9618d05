import Mathlib.Algebra.Order.Field.Basic
import Mathlib.Algebra.Order.Field.Rat
import Mathlib.Tactic.Linarith
import Mathlib.Tactic.NormNum
import Epica.Core.Bounds

/-!
# Synthetic trajectories

Two suites of traces, generated from a trajectory id by a `SplitMix` generator of 64 bits.  A loop
of a generator is `forSteps`: each pass draws from the generator and pushes some steps.

* `forSteps_pass`, `mem_forSteps`  what a loop pushes is what its passes push;
* `wellFormed_generate`            every update of a generated trace is of a key inserted before it,
                                   and all its confidences are between `0` and `1`.
-/

set_option linter.unusedSectionVars false

namespace Epica.Benchmarks

inductive Suite where
  | alfworldLike
  | webshopLike
  deriving DecidableEq

namespace Suite

def fromStr (s : String) : Except String Suite :=
  if s = "alfworld" ∨ s = "alfworld_like" ∨ s = "alfworld-like" then .ok alfworldLike
  else if s = "webshop" ∨ s = "webshop_like" ∨ s = "webshop-like" then .ok webshopLike
  else .error s!"unknown suite: {s}"

end Suite

inductive TraceStep where
  | insert (key value : String) (confidence : ℚ) (correct : Bool)
  | update (key value : String) (confidence : ℚ) (correct : Bool)
  deriving DecidableEq

def TraceStep.confidence : TraceStep → ℚ
  | insert _ _ confidence _ => confidence
  | update _ _ confidence _ => confidence

structure Trace where
  suite : Suite
  trajectoryId : UInt32
  steps : List TraceStep

/-! ## the generator -/

structure SplitMix where
  state : UInt64

namespace SplitMix

def seedFrom (suiteTag : UInt64) (trajectoryId : UInt32) : SplitMix :=
  ⟨(suiteTag <<< 32) ^^^ trajectoryId.toUInt64 ^^^ 0x9E3779B97F4A7C15⟩

def nextU64 (rng : SplitMix) : UInt64 × SplitMix :=
  let state := rng.state + 0x9E3779B97F4A7C15
  let z := (state ^^^ (state >>> 30)) * 0xBF58476D1CE4E5B9
  let z := (z ^^^ (z >>> 27)) * 0x94D049BB133111EB
  (z ^^^ (z >>> 31), ⟨state⟩)

/-- the top 24 bits, as a fraction -/
def nextF32 (rng : SplitMix) : ℚ × SplitMix :=
  let drawn := rng.nextU64
  (((drawn.1.toNat / 2 ^ 40 : Nat) : ℚ) / 2 ^ 24, drawn.2)

def bernoulli (rng : SplitMix) (p : ℚ) : Bool × SplitMix :=
  let drawn := rng.nextF32
  (decide (drawn.1 < p), drawn.2)

def pick (rng : SplitMix) (options : List String) : String × SplitMix :=
  let drawn := rng.nextU64
  (options.getD (drawn.1.toNat % options.length) "", drawn.2)

theorem nextF32_bounds (rng : SplitMix) : 0 ≤ rng.nextF32.1 ∧ rng.nextF32.1 < 1 := by
  have hlt : rng.nextU64.1.toNat / 2 ^ 40 < 2 ^ 24 := by
    have := rng.nextU64.1.toNat_lt
    omega
  have hcast : ((rng.nextU64.1.toNat / 2 ^ 40 : Nat) : ℚ) < 2 ^ 24 := by exact_mod_cast hlt
  constructor
  · exact div_nonneg (Nat.cast_nonneg _) (by norm_num)
  · exact (div_lt_one (by norm_num)).mpr hcast

-- a proof never computes what is drawn
attribute [irreducible] nextU64 nextF32

/-- what is drawn from an interval of the unit interval -/
theorem inUnit_drawn (rng : SplitMix) {lo width : ℚ} (hlo : 0 ≤ lo) (hw : 0 ≤ width)
    (hhi : lo + width ≤ 1) : InUnit (lo + rng.nextF32.1 * width) := by
  obtain ⟨h0, h1⟩ := rng.nextF32_bounds
  have hnonneg : 0 ≤ rng.nextF32.1 * width := mul_nonneg h0 hw
  have hle : rng.nextF32.1 * width ≤ 1 * width := mul_le_mul_of_nonneg_right h1.le hw
  constructor <;> linarith

end SplitMix

/-- a loop over `is`: what its passes push, and the generator at its end -/
def forSteps (body : Nat → SplitMix → List TraceStep × SplitMix) :
    List Nat → SplitMix → List TraceStep × SplitMix
  | [], rng => ([], rng)
  | i :: is, rng =>
    let pass := body i rng
    let rest := forSteps body is pass.2
    (pass.1 ++ rest.1, rest.2)

/-! ## the suites -/

def alfworldTag : UInt64 := 0xA1F40E0D

def webshopTag : UInt64 := 0x4E854039

def objects : List String := ["apple", "book", "key", "remote", "vase", "knife", "candle"]

def containers : List String := ["fridge", "shelf", "drawer", "table", "cabinet"]

/-- the confidence of a probe -/
def probeConfidence (found agentCorrect : Bool) (rng : SplitMix) : ℚ × SplitMix :=
  let drawn := rng.nextF32
  let conf := match agentCorrect, found with
    | true, true => 85 / 100 + drawn.1 * (10 / 100)
    | true, false => 10 / 100 + drawn.1 * (15 / 100)
    | false, true => 20 / 100 + drawn.1 * (15 / 100)
    | false, false => 70 / 100 + drawn.1 * (15 / 100)
  (conf, drawn.2)

def probe (trueLocation : String) (i : Nat) (rng : SplitMix) : List TraceStep × SplitMix :=
  let location := rng.pick containers
  let found := decide (location.1 = trueLocation)
  let agentCorrect := location.2.bernoulli (70 / 100)
  let conf := probeConfidence found agentCorrect.1 agentCorrect.2
  let reportsFound := decide (1 / 2 < conf.1)
  let report := if reportsFound then "found" else "absent"
  ([.insert s!"probe_{i}" s!"at {location.1}: {report}" conf.1 (reportsFound == found)], conf.2)

def alfworldLike (trajectoryId : UInt32) : List TraceStep :=
  let rng := SplitMix.seedFrom alfworldTag trajectoryId
  let object := rng.pick objects
  let container := object.2.pick containers
  let goal := TraceStep.insert "goal" s!"place {object.1} in {container.1}" (95 / 100) true
  let drawn := container.2.nextU64
  let probes := 5 + drawn.1.toNat % 5
  let trueLocation := drawn.2.pick containers
  let probed := forSteps (probe trueLocation.1) (List.range probes) trueLocation.2
  let probeIdx := probes - 1
  let revised :=
    if 0 < probeIdx then
      let reviseIdx := probed.2.nextU64.1.toNat % probeIdx
      [TraceStep.update s!"probe_{reviseIdx}" s!"at {trueLocation.1}: found (revised)"
        (92 / 100) true]
    else []
  [goal] ++ probed.1 ++ revised ++
    [.insert "resolution" s!"{object.1} located at {trueLocation.1}" (93 / 100) true]

def categories : List String := ["laptop", "kettle", "lamp", "headphones", "monitor"]

def paraphrases : List String := ["the user is looking for", "user request:", "shopper wants"]

/-- the confidence of a candidate -/
def candidateConfidence (agentRight isWinner : Bool) (rng : SplitMix) : ℚ × SplitMix :=
  let drawn := rng.nextF32
  (if agentRight = isWinner then 75 / 100 + drawn.1 * (15 / 100)
    else 25 / 100 + drawn.1 * (20 / 100), drawn.2)

def candidate (winner i : Nat) (rng : SplitMix) : List TraceStep × SplitMix :=
  let isWinner := decide (i = winner)
  let agentRight := rng.bernoulli (75 / 100)
  let conf := candidateConfidence agentRight.1 isWinner agentRight.2
  ([.insert s!"candidate_{i}" s!"product #{i} matches" conf.1
    (isWinner == decide (1 / 2 < conf.1))], conf.2)

/-- one candidate is excluded, or not -/
def exclude (winner f c : Nat) (rng : SplitMix) : List TraceStep × SplitMix :=
  let excluded := rng.bernoulli (1 / 2)
  if excluded.1 then
    let drawn := excluded.2.nextF32
    ([.update s!"candidate_{c}" s!"product #{c} excluded by filter_{f}"
      (10 / 100 + drawn.1 * (20 / 100)) (decide (c ≠ winner))], drawn.2)
  else ([], excluded.2)

def filterStep (winner candidates f : Nat) (rng : SplitMix) : List TraceStep × SplitMix :=
  let excluded := forSteps (exclude winner f) (List.range candidates) rng
  (.insert s!"filter_{f}" s!"price band #{f}" (90 / 100) true :: excluded.1, excluded.2)

def webshopLike (trajectoryId : UInt32) : List TraceStep :=
  let rng := SplitMix.seedFrom webshopTag trajectoryId
  let cat := rng.pick categories
  let intent := TraceStep.insert "user_intent" s!"user wants a {cat.1}" (95 / 100) true
  let drawn := cat.2.nextU64
  let candidates := 4 + drawn.1.toNat % 5
  let winning := drawn.2.nextU64
  let winner := winning.1.toNat % candidates
  let offered := forSteps (candidate winner) (List.range candidates) winning.2
  let para := offered.2.pick paraphrases
  let paraphrase := TraceStep.update "user_intent" s!"{para.1} a {cat.1}" (93 / 100) true
  let filters := para.2.nextU64
  let filtered := forSteps (filterStep winner candidates) (List.range (2 + filters.1.toNat % 3))
    filters.2
  [intent] ++ offered.1 ++ [paraphrase] ++ filtered.1 ++
    [.insert "purchase" s!"purchase product #{winner}" (92 / 100) true]

def Trace.generate (suite : Suite) (trajectoryId : UInt32) : Trace where
  suite := suite
  trajectoryId := trajectoryId
  steps := match suite with
    | .alfworldLike => alfworldLike trajectoryId
    | .webshopLike => webshopLike trajectoryId

/-! ## the steps of a loop -/

/-- what a loop pushes is what its passes push -/
theorem mem_forSteps {body : Nat → SplitMix → List TraceStep × SplitMix} {step : TraceStep}
    {is : List Nat} {rng : SplitMix} (h : step ∈ (forSteps body is rng).1) :
    ∃ i ∈ is, ∃ rng', step ∈ (body i rng').1 := by
  induction is generalizing rng with
  | nil => cases h
  | cons i is ih =>
    rcases List.mem_append.mp h with h | h
    · exact ⟨i, List.mem_cons_self, rng, h⟩
    · obtain ⟨j, hj, rng', hmem⟩ := ih h
      exact ⟨j, List.mem_cons_of_mem i hj, rng', hmem⟩

theorem forSteps_pass (body : Nat → SplitMix → List TraceStep × SplitMix) {is : List Nat} {i : Nat}
    (hi : i ∈ is) (rng : SplitMix) :
    ∃ rng', ∀ step ∈ (body i rng').1, step ∈ (forSteps body is rng).1 := by
  induction is generalizing rng with
  | nil => cases hi
  | cons j is ih =>
    rcases List.mem_cons.mp hi with rfl | hi
    · exact ⟨rng, fun step h => List.mem_append_left _ h⟩
    · obtain ⟨rng', h⟩ := ih hi (body j rng).2
      exact ⟨rng', fun step hs => List.mem_append_right _ (h step hs)⟩

/-! ## well-formed traces -/

def TraceStep.inserted? : TraceStep → Option String
  | insert key _ _ _ => some key
  | update _ _ _ _ => none

def TraceStep.updated? : TraceStep → Option String
  | insert _ _ _ _ => none
  | update key _ _ _ => some key

/-- every update is of a key that is known, or has been inserted before -/
def Keyed (known : String → Prop) : List TraceStep → Prop
  | [] => True
  | step :: steps => (∀ key ∈ step.updated?, known key) ∧
      Keyed (fun key => known key ∨ key ∈ step.inserted?) steps

theorem keyed_of_updates {known : String → Prop} {steps : List TraceStep}
    (h : ∀ step ∈ steps, ∀ key ∈ step.updated?, known key) : Keyed known steps := by
  induction steps generalizing known with
  | nil => trivial
  | cons step steps ih =>
    refine ⟨h step List.mem_cons_self, ih fun step' hs key hk => Or.inl ?_⟩
    exact h step' (List.mem_cons_of_mem step hs) key hk

theorem keyed_insert (known : String → Prop) (key value : String) (confidence : ℚ)
    (correct : Bool) : Keyed known [.insert key value confidence correct] := by
  refine ⟨fun key' hk => ?_, trivial⟩
  cases hk

theorem keyed_append {known : String → Prop} {a b : List TraceStep} (ha : Keyed known a)
    (hb : Keyed (fun key => known key ∨ ∃ step ∈ a, key ∈ step.inserted?) b) :
    Keyed known (a ++ b) := by
  induction a generalizing known with
  | nil =>
    have hknown : (fun key => known key ∨ ∃ step ∈ ([] : List TraceStep),
        key ∈ step.inserted?) = known := by
      funext key
      simp
    rwa [hknown] at hb
  | cons step a ih =>
    refine ⟨ha.1, ih ha.2 ?_⟩
    have hknown : (fun key => known key ∨ ∃ s ∈ step :: a, key ∈ s.inserted?) =
        fun key => (known key ∨ key ∈ step.inserted?) ∨ ∃ s ∈ a, key ∈ s.inserted? := by
      funext key
      simp [or_assoc]
    rwa [hknown] at hb

/-! ## what the passes push -/

theorem inUnit_probeConfidence (found agentCorrect : Bool) (rng : SplitMix) :
    InUnit (probeConfidence found agentCorrect rng).1 := by
  have hdrawn := fun lo width => @SplitMix.inUnit_drawn rng lo width
  cases agentCorrect with
  | true =>
    cases found with
    | true => exact hdrawn (85 / 100) (10 / 100) (by norm_num) (by norm_num) (by norm_num)
    | false => exact hdrawn (10 / 100) (15 / 100) (by norm_num) (by norm_num) (by norm_num)
  | false =>
    cases found with
    | true => exact hdrawn (20 / 100) (15 / 100) (by norm_num) (by norm_num) (by norm_num)
    | false => exact hdrawn (70 / 100) (15 / 100) (by norm_num) (by norm_num) (by norm_num)

theorem inUnit_candidateConfidence (agentRight isWinner : Bool) (rng : SplitMix) :
    InUnit (candidateConfidence agentRight isWinner rng).1 := by
  have hdrawn := fun lo width => @SplitMix.inUnit_drawn rng lo width
  show InUnit (if agentRight = isWinner then 75 / 100 + rng.nextF32.1 * (15 / 100)
    else 25 / 100 + rng.nextF32.1 * (20 / 100))
  split
  · exact hdrawn (75 / 100) (15 / 100) (by norm_num) (by norm_num) (by norm_num)
  · exact hdrawn (25 / 100) (20 / 100) (by norm_num) (by norm_num) (by norm_num)

theorem confidence_insert (key value : String) (confidence : ℚ) (correct : Bool) :
    (TraceStep.insert key value confidence correct).confidence = confidence := rfl

theorem confidence_update (key value : String) (confidence : ℚ) (correct : Bool) :
    (TraceStep.update key value confidence correct).confidence = confidence := rfl

theorem probe_spec (trueLocation : String) (i : Nat) (rng : SplitMix) {step : TraceStep}
    (h : step ∈ (probe trueLocation i rng).1) :
    InUnit step.confidence ∧ step.inserted? = some s!"probe_{i}" ∧ step.updated? = none := by
  unfold probe at h
  rw [List.mem_singleton] at h
  subst h
  refine ⟨?_, rfl, rfl⟩
  rw [confidence_insert]
  exact inUnit_probeConfidence _ _ _

theorem candidate_spec (winner i : Nat) (rng : SplitMix) {step : TraceStep}
    (h : step ∈ (candidate winner i rng).1) :
    InUnit step.confidence ∧ step.inserted? = some s!"candidate_{i}" ∧ step.updated? = none := by
  unfold candidate at h
  rw [List.mem_singleton] at h
  subst h
  refine ⟨?_, rfl, rfl⟩
  rw [confidence_insert]
  exact inUnit_candidateConfidence _ _ _

theorem exclude_spec (winner f c : Nat) (rng : SplitMix) {step : TraceStep}
    (h : step ∈ (exclude winner f c rng).1) :
    InUnit step.confidence ∧ step.updated? = some s!"candidate_{c}" := by
  unfold exclude at h
  simp only at h
  split at h
  · rw [List.mem_singleton] at h
    subst h
    refine ⟨?_, rfl⟩
    rw [confidence_update]
    exact @SplitMix.inUnit_drawn _ (10 / 100) (20 / 100) (by norm_num) (by norm_num) (by norm_num)
  · cases h

theorem inUnit_percent {n : Nat} (hn : n ≤ 100) : InUnit ((n : ℚ) / 100) := by
  constructor
  · exact div_nonneg (Nat.cast_nonneg n) (by norm_num)
  · refine (div_le_one (by norm_num)).mpr ?_
    exact_mod_cast hn

theorem filterStep_spec (winner candidates f : Nat) (rng : SplitMix) {step : TraceStep}
    (h : step ∈ (filterStep winner candidates f rng).1) :
    InUnit step.confidence ∧ ∀ key ∈ step.updated?, ∃ c < candidates, key = s!"candidate_{c}" := by
  rcases List.mem_cons.mp h with rfl | h
  · exact ⟨inUnit_percent (n := 90) (by decide), fun key hk => by cases hk⟩
  · obtain ⟨c, hc, rng', hmem⟩ := mem_forSteps h
    obtain ⟨hunit, hupdated⟩ := exclude_spec winner f c rng' hmem
    refine ⟨hunit, fun key hk => ⟨c, List.mem_range.mp hc, ?_⟩⟩
    exact (Option.some.inj (hupdated.symm.trans hk)).symm

/-! ## generated traces -/

/-- every update is of a key inserted before, all confidences are between `0` and `1`, and there is
an update -/
structure WellFormed (steps : List TraceStep) : Prop where
  keyed : Keyed (fun _ => False) steps
  inUnit : ∀ step ∈ steps, InUnit step.confidence
  updates : ∃ step ∈ steps, step.updated?.isSome = true

theorem alfworldLike_shape (trajectoryId : UInt32) :
    ∃ goal trueLocation probes rng revised found resolution, revised < probes ∧
      alfworldLike trajectoryId =
        [.insert "goal" goal (95 / 100) true] ++
          (forSteps (probe trueLocation) (List.range probes) rng).1 ++
          [.update s!"probe_{revised}" found (92 / 100) true] ++
          [.insert "resolution" resolution (93 / 100) true] := by
  unfold alfworldLike
  dsimp only
  rw [if_pos (by omega)]
  refine ⟨_, _, _, _, _, _, _, ?_, rfl⟩
  exact (Nat.mod_lt _ (by omega)).trans (by omega)

theorem wellFormed_alfworldLike (trajectoryId : UInt32) :
    WellFormed (alfworldLike trajectoryId) := by
  obtain ⟨goal, trueLocation, probes, rng, revised, found, resolution, hrevised, h⟩ :=
    alfworldLike_shape trajectoryId
  rw [h]
  have hprobed : ∀ step ∈ (forSteps (probe trueLocation) (List.range probes) rng).1,
      InUnit step.confidence ∧ step.updated? = none := by
    intro step hs
    obtain ⟨i, -, rng', hmem⟩ := mem_forSteps hs
    obtain ⟨hunit, -, hupdated⟩ := probe_spec trueLocation i rng' hmem
    exact ⟨hunit, hupdated⟩
  obtain ⟨rng', hpass⟩ := forSteps_pass (probe trueLocation) (List.mem_range.mpr hrevised) rng
  constructor
  · refine keyed_append (keyed_append (keyed_append ?_ ?_) ?_) ?_
    · exact keyed_insert _ _ _ _ _
    · refine keyed_of_updates fun step hs key hk => ?_
      rw [(hprobed step hs).2] at hk
      cases hk
    · refine ⟨fun key hk => Or.inr ?_, trivial⟩
      obtain rfl := Option.some.inj hk
      obtain ⟨step, hstep⟩ : ∃ step, step ∈ (probe trueLocation revised rng').1 :=
        ⟨_, List.mem_singleton_self _⟩
      refine ⟨step, List.mem_append_right _ (hpass step hstep), ?_⟩
      exact (probe_spec trueLocation revised rng' hstep).2.1
    · exact keyed_insert _ _ _ _ _
  · intro step hs
    simp only [List.mem_append, List.mem_singleton] at hs
    rcases hs with ((rfl | hs) | rfl) | rfl
    · exact inUnit_percent (by decide)
    · exact (hprobed step hs).1
    · exact inUnit_percent (by decide)
    · exact inUnit_percent (by decide)
  · refine ⟨.update s!"probe_{revised}" found (92 / 100) true, ?_, rfl⟩
    exact List.mem_append_left _ (List.mem_append_right _ (List.mem_singleton_self _))

theorem webshopLike_shape (trajectoryId : UInt32) :
    ∃ intent winner candidates rng para filters rng' purchase,
      webshopLike trajectoryId =
        [.insert "user_intent" intent (95 / 100) true] ++
          (forSteps (candidate winner) (List.range candidates) rng).1 ++
          [.update "user_intent" para (93 / 100) true] ++
          (forSteps (filterStep winner candidates) (List.range filters) rng').1 ++
          [.insert "purchase" purchase (92 / 100) true] :=
  ⟨_, _, _, _, _, _, _, _, rfl⟩

theorem wellFormed_webshopLike (trajectoryId : UInt32) :
    WellFormed (webshopLike trajectoryId) := by
  obtain ⟨intent, winner, candidates, rng, para, filters, rng', purchase, h⟩ :=
    webshopLike_shape trajectoryId
  rw [h]
  have hoffered : ∀ step ∈ (forSteps (candidate winner) (List.range candidates) rng).1,
      InUnit step.confidence ∧ step.updated? = none := by
    intro step hs
    obtain ⟨i, -, rng'', hmem⟩ := mem_forSteps hs
    obtain ⟨hunit, -, hupdated⟩ := candidate_spec winner i rng'' hmem
    exact ⟨hunit, hupdated⟩
  have hfiltered : ∀ step ∈ (forSteps (filterStep winner candidates) (List.range filters) rng').1,
      InUnit step.confidence ∧
        ∀ key ∈ step.updated?, ∃ c < candidates, key = s!"candidate_{c}" := by
    intro step hs
    obtain ⟨f, -, rng'', hmem⟩ := mem_forSteps hs
    exact filterStep_spec winner candidates f rng'' hmem
  constructor
  · refine keyed_append (keyed_append (keyed_append (keyed_append ?_ ?_) ?_) ?_) ?_
    · exact keyed_insert _ _ _ _ _
    · refine keyed_of_updates fun step hs key hk => ?_
      rw [(hoffered step hs).2] at hk
      cases hk
    · refine ⟨fun key hk => Or.inr ?_, trivial⟩
      obtain rfl := Option.some.inj hk
      exact ⟨_, List.mem_append_left _ (List.mem_singleton_self _), rfl⟩
    · refine keyed_of_updates fun step hs key hk => Or.inr ?_
      obtain ⟨c, hc, rfl⟩ := (hfiltered step hs).2 key hk
      obtain ⟨rng'', hpass⟩ := forSteps_pass (candidate winner) (List.mem_range.mpr hc) rng
      obtain ⟨step', hstep⟩ : ∃ step, step ∈ (candidate winner c rng'').1 :=
        ⟨_, List.mem_singleton_self _⟩
      refine ⟨step', ?_, (candidate_spec winner c rng'' hstep).2.1⟩
      exact List.mem_append_left _ (List.mem_append_right _ (hpass step' hstep))
    · exact keyed_insert _ _ _ _ _
  · intro step hs
    simp only [List.mem_append, List.mem_singleton] at hs
    rcases hs with (((rfl | hs) | rfl) | hs) | rfl
    · exact inUnit_percent (by decide)
    · exact (hoffered step hs).1
    · exact inUnit_percent (by decide)
    · exact (hfiltered step hs).1
    · exact inUnit_percent (by decide)
  · refine ⟨.update "user_intent" para (93 / 100) true, ?_, rfl⟩
    exact List.mem_append_left _ (List.mem_append_left _
      (List.mem_append_right _ (List.mem_singleton_self _)))

theorem wellFormed_generate (suite : Suite) (trajectoryId : UInt32) :
    WellFormed (Trace.generate suite trajectoryId).steps := by
  cases suite with
  | alfworldLike => exact wellFormed_alfworldLike trajectoryId
  | webshopLike => exact wellFormed_webshopLike trajectoryId

end Epica.Benchmarks
