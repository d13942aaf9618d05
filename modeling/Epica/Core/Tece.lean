import Mathlib.Algebra.BigOperators.Group.List.Basic
import Mathlib.Algebra.Order.BigOperators.Group.List
import Mathlib.Algebra.Order.Field.Basic
import Mathlib.Tactic.Linarith
import Epica.Core.Bounds

/-!
# Trajectory-ECE

The mean distance between the confidences of a session and what they turned out to be worth.

* `compute_isSome`   there is an error as soon as there is an observation;
* `inUnit_compute`   it is between `0` and `1` when the confidences are.
-/

set_option linter.unusedSectionVars false

namespace Epica.Tece

/-- the distance of a confidence from the accuracy `1` or `0` -/
def distance (observation : ℚ × Bool) : ℚ := |observation.1 - if observation.2 then 1 else 0|

def compute (history : List (ℚ × Bool)) : Option ℚ :=
  if history.isEmpty then none else some ((history.map distance).sum / history.length)

theorem compute_isSome {history : List (ℚ × Bool)} :
    (compute history).isSome = true ↔ history ≠ [] := by
  cases history with
  | nil => simp [compute]
  | cons observation history => simp [compute]

theorem inUnit_distance {observation : ℚ × Bool} (h : InUnit observation.1) :
    InUnit (distance observation) := by
  obtain ⟨x, correct⟩ := observation
  obtain ⟨h0, h1⟩ := h
  unfold distance
  refine ⟨abs_nonneg _, ?_⟩
  cases correct with
  | true => exact abs_le.mpr ⟨by simp only [if_true]; linarith, by simp only [if_true]; linarith⟩
  | false =>
    simp only [Bool.false_eq_true, if_false, sub_zero]
    rwa [abs_of_nonneg h0]

theorem inUnit_compute {history : List (ℚ × Bool)} (h : ∀ o ∈ history, InUnit o.1) {tece : ℚ}
    (ht : compute history = some tece) : InUnit tece := by
  have hne : history ≠ [] := compute_isSome.mp (by rw [ht]; rfl)
  have hlength : (0 : ℚ) < history.length := by
    exact_mod_cast List.length_pos_iff.mpr hne
  have hsum : 0 ≤ (history.map distance).sum ∧
      (history.map distance).sum ≤ history.length := by
    clear ht hne hlength
    induction history with
    | nil => simp
    | cons o history ih =>
      obtain ⟨h0, h1⟩ := ih fun o' ho' => h o' (List.mem_cons_of_mem o ho')
      obtain ⟨d0, d1⟩ := inUnit_distance (h o List.mem_cons_self)
      rw [List.map_cons, List.sum_cons, List.length_cons]
      push_cast
      constructor <;> linarith
  unfold compute at ht
  rw [if_neg (by simpa using hne)] at ht
  obtain rfl := Option.some.inj ht
  exact ⟨div_nonneg hsum.1 hlength.le, (div_le_one hlength).mpr hsum.2⟩

end Epica.Tece
