import Mathlib.Data.List.Perm.Basic
import Mathlib.Data.List.Nodup

/-!
# The order in which a hash set is enumerated

A hash set hands out its members in an order that depends on a random seed.  `HashOrder α` is one
such order: any function that permutes the list of members.
-/

set_option linter.unusedSectionVars false

namespace Lib

structure HashOrder (α : Type) where
  shuffle : List α → List α
  perm : ∀ l, (shuffle l).Perm l

namespace HashOrder
variable {α : Type}

/-- the order of insertion -/
def id : HashOrder α := ⟨fun l => l, fun l => List.Perm.refl l⟩

/-- the order of insertion, backwards -/
def backwards : HashOrder α := ⟨List.reverse, List.reverse_perm⟩

variable (o : HashOrder α)

@[simp] theorem mem_shuffle (l : List α) (x : α) : x ∈ o.shuffle l ↔ x ∈ l := (o.perm l).mem_iff

/-! ## one set, listed twice -/

section
variable [DecidableEq α] {l l' : List α}

theorem perm_along (h : l.Perm l') (m : List α) :
    (if m = l' then o.shuffle l else m).Perm m := by
  split
  · rename_i e
    rw [e]
    exact (o.perm l).trans h
  · exact List.Perm.refl m

/-- the order that enumerates `l'` as `o` does `l` -/
def along (h : l.Perm l') : HashOrder α := ⟨fun m => if m = l' then o.shuffle l else m,
  o.perm_along h⟩

theorem shuffle_along (h : l.Perm l') : (o.along h).shuffle l' = o.shuffle l := if_pos rfl

end
end HashOrder
end Lib
