import Epica.Lib.Run
import Mathlib.Data.List.Forall2

/-!
# Simulations

Two systems, each with its own states and steps, and what a step of each hands back (`out`).  Under
a simulation every step of the first is matched by a `Like` step of the second that hands back the
same and leads to related states.

* `run_simulated`   then every run of the first is matched by a run of the second.
-/

set_option linter.unusedSectionVars false

namespace Lib

section
variable {S S' A A' E : Type} {step : S → A → S} {step' : S' → A' → S'}
  {out : S → A → List E} {out' : S' → A' → List E}

/-- related states take like steps to related states, and hand back the same -/
def Simulates (step : S → A → S) (step' : S' → A' → S') (out : S → A → List E)
    (out' : S' → A' → List E) (Rel : S → S' → Prop) (Like : A → A' → Prop) : Prop :=
  ∀ s s' a, Rel s s' → ∃ a', Like a a' ∧ out s a = out' s' a' ∧ Rel (step s a) (step' s' a')

/-- **a simulation lifts to runs** -/
theorem run_simulated {Rel : S → S' → Prop} {Like : A → A' → Prop}
    (h : Simulates step step' out out' Rel Like) {s : S} {s' : S'} (hs : Rel s s') (as : List A) :
    ∃ as', List.Forall₂ Like as as' ∧ outputs step out s as = outputs step' out' s' as' ∧
      Rel (run step s as) (run step' s' as') := by
  induction as generalizing s s' with
  | nil => exact ⟨[], .nil, rfl, hs⟩
  | cons a as ih =>
    obtain ⟨a', hlike, hout, hrel⟩ := h s s' a hs
    obtain ⟨as', hlikes, houts, hrels⟩ := ih hrel
    refine ⟨a' :: as', .cons hlike hlikes, ?_, hrels⟩
    show out s a ++ outputs step out (step s a) as =
      out' s' a' ++ outputs step' out' (step' s' a') as'
    rw [hout, houts]

end
end Lib
