import Epica.Lib.Run
import Epica.ActiveInference.FreeEnergy

/-!
# The homeostatic monitor

An observation deducts its free energy from a reservoir, which gains one unit a call and is capped
at the budget, and enters a window of past observations.  What is reported compares the single
observation with the budget, and never reads the reservoir.

* `history_run`        the window holds the last observations, as many as its capacity;
* `reservoir_run_le`   a run leaves at most what there was, less what it spent beyond its refills;
* `homeostatic_iff`    the reports are those of the reservoir exactly when no observation within
                       the budget overdraws it.
-/

set_option linter.unusedSectionVars false

namespace Epica
open Lib

structure MonitorConfig where
  surpriseThreshold : ℚ
  homeostaticBudget : ℚ
  historyCapacity : Nat

def MonitorConfig.default : MonitorConfig := ⟨3, 10, 256⟩

def MonitorConfig.sanitizedCapacity (config : MonitorConfig) : Nat :=
  max 16 (min config.historyCapacity 16384)

structure SurpriseSignal where
  freeEnergy : ℚ
  rollingMean : ℚ
  rollingStd : ℚ
  exceedsBudget : Bool
  budgetRemaining : ℚ
  nBeliefs : Nat

structure ActiveInferenceMonitor where
  config : MonitorConfig
  history : List ℚ
  reservoir : ℚ
  observations : Nat

/-- the sample standard deviation of a window -/
def rollingStd [Platform] (window : List ℚ) (mean : ℚ) : ℚ :=
  if window.length < 2 then 0
  else
    let var := (window.map fun x => (x - mean) ^ 2).sum / ((window.length : ℚ) - 1)
    Platform.sqrt var

namespace ActiveInferenceMonitor

def withConfig (config : MonitorConfig) : ActiveInferenceMonitor where
  config := config
  history := []
  reservoir := config.homeostaticBudget
  observations := 0

def meanFreeEnergy (m : ActiveInferenceMonitor) : ℚ :=
  if m.history = [] then 0 else m.history.sum / m.history.length

def budgetRemaining (m : ActiveInferenceMonitor) : ℚ := max m.reservoir 0

section
variable [Platform]

/-- one observation, given the free energy of the quad it was made on -/
def observe (m : ActiveInferenceMonitor) (breakdown : FreeEnergyBreakdown) :
    SurpriseSignal × ActiveInferenceMonitor :=
  let rollingMean := m.meanFreeEnergy
  let m' : ActiveInferenceMonitor := { m with
    history := (if m.history.length = m.config.sanitizedCapacity then m.history.tail
      else m.history) ++ [breakdown.fTotal]
    reservoir := min (m.reservoir - breakdown.fTotal + 1) m.config.homeostaticBudget
    observations := m.observations + 1 }
  ({ freeEnergy := breakdown.fTotal
     rollingMean := rollingMean
     rollingStd := Epica.rollingStd m.history rollingMean
     exceedsBudget := m.config.homeostaticBudget < breakdown.fTotal
     budgetRemaining := m'.budgetRemaining
     nBeliefs := breakdown.nBeliefs }, m')

def observeQuad [NaturalLog] {M : Type → Type} {G : Type → Type → Type} [SlotMap M]
    [StableDiGraph G] (m : ActiveInferenceMonitor) (quad : BeliefQuad M G)
    (lastObs : BeliefNode) : SurpriseSignal × ActiveInferenceMonitor :=
  m.observe (quad.quadFreeEnergy lastObs)

/-- the monitor one observation leaves -/
def next (m : ActiveInferenceMonitor) (breakdown : FreeEnergyBreakdown) :
    ActiveInferenceMonitor := (m.observe breakdown).2

/-! ## what a run leaves -/

theorem config_run (m : ActiveInferenceMonitor) (readings : List FreeEnergyBreakdown) :
    (run next m readings).config = m.config :=
  @run_invariant _ _ next (fun m' => m'.config = m.config) (fun _ _ h => h) m rfl readings

/-- **the window holds the last observations** -/
theorem history_run (config : MonitorConfig) (readings : List FreeEnergyBreakdown) :
    (run next (withConfig config) readings).history =
      (readings.map FreeEnergyBreakdown.fTotal).drop
        (readings.length - config.sanitizedCapacity) := by
  have hcap : 0 < config.sanitizedCapacity := lt_of_lt_of_le (by decide) (le_max_left _ _)
  induction readings using List.reverseRecOn with
  | nil => exact List.drop_nil.symm
  | append_singleton readings b ih =>
    have hconfig : (run next (withConfig config) readings).config = config :=
      config_run (withConfig config) readings
    rw [run_concat]
    show (if _ = _ then _ else _) ++ [b.fTotal] = _
    rw [hconfig, ih, List.length_drop, List.length_map, List.map_append, List.length_append,
      List.length_singleton]
    by_cases hfull : config.sanitizedCapacity ≤ readings.length
    · rw [if_pos (by omega), List.tail_drop, List.drop_append_of_le_length (by
        rw [List.length_map]; omega)]
      congr 2
      omega
    · have h0 : readings.length - config.sanitizedCapacity = 0 := by omega
      have h1 : readings.length + 1 - config.sanitizedCapacity = 0 := by omega
      rw [if_neg (by omega), h0, h1, List.drop_zero, List.drop_zero]
      rfl

/-- what a run has spent beyond its refills -/
def excess (readings : List FreeEnergyBreakdown) : ℚ := (readings.map fun b => b.fTotal - 1).sum

theorem reservoir_run_le (m : ActiveInferenceMonitor) (readings : List FreeEnergyBreakdown) :
    (run next m readings).reservoir ≤ m.reservoir - excess readings := by
  induction readings generalizing m with
  | nil => exact le_of_eq (sub_zero m.reservoir).symm
  | cons b readings ih =>
    have hrest := ih (m.next b)
    have hfirst : (m.next b).reservoir ≤ m.reservoir - b.fTotal + 1 := min_le_left _ _
    have hsum : excess (b :: readings) = (b.fTotal - 1) + excess readings := List.sum_cons
    show (run next (m.next b) readings).reservoir ≤ _
    rw [hsum]
    linarith

/-- the reservoir never exceeds the budget -/
theorem reservoir_run_capped (config : MonitorConfig) {readings : List FreeEnergyBreakdown}
    {m : ActiveInferenceMonitor} (hm : StateOf next (withConfig config) readings m) :
    m.config = config ∧ m.reservoir ≤ config.homeostaticBudget := by
  refine @stateOf_invariant _ _ next
    (fun m => m.config = config ∧ m.reservoir ≤ config.homeostaticBudget) (fun m b h => ?_)
    (withConfig config) ⟨rfl, le_refl _⟩ readings m hm
  refine ⟨h.1, ?_⟩
  rw [← h.1]
  exact min_le_right _ _

/-! ## what is reported -/

/-- the reservoir follows its recurrence, and the reports are those of the reservoir -/
structure Homeostatic (config : MonitorConfig) (readings : List FreeEnergyBreakdown) : Prop where
  recurrence : ∀ m b, StepOf next (withConfig config) readings m b →
    (m.observe b).2.reservoir = min config.homeostaticBudget (m.reservoir - b.fTotal + 1)
  capped : ∀ m, StateOf next (withConfig config) readings m →
    m.reservoir ≤ config.homeostaticBudget
  reported : ∀ m b, StepOf next (withConfig config) readings m b →
    ((m.observe b).1.exceedsBudget = true ↔
      config.homeostaticBudget < b.fTotal ∨ (m.observe b).2.reservoir < 0)
  /-- a stretch of small observations that uses up the reservoir it starts from ends reported -/
  exhausted : ∀ pre stretch b post, readings = pre ++ (stretch ++ b :: post) →
    (∀ x ∈ stretch ++ [b], x.fTotal ≤ config.homeostaticBudget) →
    (run next (withConfig config) pre).reservoir < excess (stretch ++ [b]) →
    ((run next (withConfig config) (pre ++ stretch)).observe b).1.exceedsBudget = true
  /-- the report does not stop while the reservoir is overdrawn -/
  persistent : ∀ m b, StepOf next (withConfig config) readings m b →
    (m.observe b).1.exceedsBudget = false → 0 ≤ (m.observe b).2.reservoir

/-- an observation is above the budget, or the reservoir and the refill pay for it -/
def Covered (m : ActiveInferenceMonitor) (b : FreeEnergyBreakdown) : Prop :=
  m.config.homeostaticBudget < b.fTotal ∨ b.fTotal ≤ m.reservoir + 1

theorem exceedsBudget_iff (m : ActiveInferenceMonitor) (b : FreeEnergyBreakdown) :
    (m.observe b).1.exceedsBudget = true ↔ m.config.homeostaticBudget < b.fTotal :=
  decide_eq_true_iff

/-- one observation is reported as the reservoir asks exactly when it is covered -/
theorem reported_iff_covered (m : ActiveInferenceMonitor) (b : FreeEnergyBreakdown)
    (hbudget : 0 ≤ m.config.homeostaticBudget) :
    ((m.observe b).1.exceedsBudget = true ↔
      m.config.homeostaticBudget < b.fTotal ∨ (m.observe b).2.reservoir < 0) ↔ m.Covered b := by
  have hafter : (m.observe b).2.reservoir < 0 ↔ m.reservoir - b.fTotal + 1 < 0 := by
    show min _ _ < 0 ↔ _
    rw [min_lt_iff]
    exact or_iff_left (not_lt.mpr hbudget)
  rw [exceedsBudget_iff, hafter]
  unfold Covered
  by_cases h : m.config.homeostaticBudget < b.fTotal
  · simp only [h, true_or]
  · simp only [h, false_or, false_iff, not_lt]
    constructor
    · intro hle
      linarith
    · intro hle
      linarith

theorem config_of_step (config : MonitorConfig) {readings : List FreeEnergyBreakdown}
    {m : ActiveInferenceMonitor} {b : FreeEnergyBreakdown}
    (h : StepOf next (withConfig config) readings m b) : m.config = config :=
  (reservoir_run_capped config h.state).1

/-- the other parts follow from what is reported, for the reservoir itself is right -/
theorem homeostatic_of_reported (config : MonitorConfig) (readings : List FreeEnergyBreakdown)
    (hreported : ∀ m b, StepOf next (withConfig config) readings m b →
      ((m.observe b).1.exceedsBudget = true ↔
        config.homeostaticBudget < b.fTotal ∨ (m.observe b).2.reservoir < 0)) :
    Homeostatic config readings := by
  refine
    { recurrence := fun m b hstep => ?_
      capped := fun m hm => (reservoir_run_capped config hm).2
      reported := hreported
      exhausted := fun pre stretch b post hreadings _ hexcess => ?_
      persistent := fun m b hstep hsilent => ?_ }
  · rw [← config_of_step config hstep]
    exact min_comm _ _
  · have hstep : StepOf next (withConfig config) readings
        (run next (withConfig config) (pre ++ stretch)) b :=
      ⟨pre ++ stretch, post, by rw [hreadings, List.append_assoc], rfl⟩
    refine (hreported _ b hstep).mpr (Or.inr ?_)
    have hle := reservoir_run_le (run next (withConfig config) pre) (stretch ++ [b])
    rw [← run_append, ← List.append_assoc, run_concat] at hle
    exact lt_of_le_of_lt hle (sub_neg.mpr hexcess)
  · by_contra hneg
    have htrue := (hreported m b hstep).mpr (Or.inr (not_le.mp hneg))
    rw [hsilent] at htrue
    cases htrue

/-- **the monitor reports what its reservoir says exactly when no observation within the budget
overdraws the reservoir**: each one is above the budget, or at most the reservoir and one unit -/
theorem homeostatic_iff (config : MonitorConfig) (hbudget : 0 ≤ config.homeostaticBudget)
    (readings : List FreeEnergyBreakdown) :
    Homeostatic config readings ↔ EachStep next Covered (withConfig config) readings := by
  have hcovered : ∀ m b, StepOf next (withConfig config) readings m b →
      (((m.observe b).1.exceedsBudget = true ↔
        config.homeostaticBudget < b.fTotal ∨ (m.observe b).2.reservoir < 0) ↔ m.Covered b) := by
    intro m b hstep
    have hc := config_of_step config hstep
    have hiff := reported_iff_covered m b (by rw [hc]; exact hbudget)
    rw [hc] at hiff
    exact hiff
  rw [eachStep_iff]
  constructor
  · intro h m b hstep
    exact (hcovered m b hstep).mp (h.reported m b hstep)
  · intro h
    refine homeostatic_of_reported config readings fun m b hstep => ?_
    exact (hcovered m b hstep).mpr (h m b hstep)

end

section
attribute [local instance] Platform.ascii

/-- a free energy read off a quad of two beliefs -/
def reading (f : ℚ) : FreeEnergyBreakdown := ⟨f, 0, f, 2⟩

/-- with a small budget: two observations that the reservoir and the refills pay for -/
theorem homeostatic_iff_quiet :
    Homeostatic ⟨3, 2, 256⟩ [reading 2, reading 1] ↔
      EachStep next Covered (withConfig ⟨3, 2, 256⟩) [reading 2, reading 1] :=
  homeostatic_iff ⟨3, 2, 256⟩ (by decide +kernel) [reading 2, reading 1]

/-- four observations at the budget overdraw the reservoir, and none is reported -/
theorem overdrawn_not_reported :
    ¬ Homeostatic ⟨3, 2, 256⟩ [reading 2, reading 2, reading 2, reading 2] := by
  intro h
  have hreport := h.exhausted [] [reading 2, reading 2, reading 2] (reading 2) [] rfl
    (by decide +kernel) (by decide +kernel)
  have hsilent : ((run next (withConfig ⟨3, 2, 256⟩)
      [reading 2, reading 2, reading 2]).observe (reading 2)).1.exceedsBudget = false := by
    decide +kernel
  have hclash := hreport.symm.trans hsilent
  cases hclash

end
end ActiveInferenceMonitor
end Epica
