import Mathlib.Data.Fintype.Basic
import Mathlib.Algebra.BigOperators.Group.Finset.Basic

/-!
# Counting parties by their state

`tally p pc` is the number of the parties `t` whose state `pc t` satisfies `p`.

* `tally_update`   when one party changes its state, only its own share of the tally changes.
-/

namespace Lib

section
variable {T S : Type} [Fintype T]

def tally (p : S → Bool) (pc : T → S) : Nat := ∑ t, (p (pc t)).toNat

variable [DecidableEq T]

/-- the share of one party, and the rest -/
theorem tally_eq_add (p : S → Bool) (pc : T → S) (t : T) :
    tally p pc = (p (pc t)).toNat + ∑ u ∈ Finset.univ.erase t, (p (pc u)).toNat :=
  (Finset.add_sum_erase Finset.univ _ (Finset.mem_univ t)).symm

/-- **what one party's change of state does to the tally** -/
theorem tally_update (p : S → Bool) (pc : T → S) (t : T) (x : S) :
    tally p (Function.update pc t x) + (p (pc t)).toNat = tally p pc + (p x).toNat := by
  have hrest : ∑ u ∈ Finset.univ.erase t, (p (Function.update pc t x u)).toNat =
      ∑ u ∈ Finset.univ.erase t, (p (pc u)).toNat := by
    refine Finset.sum_congr rfl fun u hu => ?_
    rw [Function.update_of_ne (Finset.ne_of_mem_erase hu)]
  rw [tally_eq_add p (Function.update pc t x) t, tally_eq_add p pc t, hrest, Function.update_self]
  omega

omit [DecidableEq T] in
theorem tally_const {p : S → Bool} {x : S} (h : p x = false) : tally p (fun _ : T => x) = 0 := by
  refine Finset.sum_eq_zero fun t _ => ?_
  rw [h]
  rfl

end
end Lib
