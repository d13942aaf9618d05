import Mathlib.Data.List.Basic

/-!
# The last element that meets a predicate

`changeLast p f as` changes the last member of `as` that meets `p`.

* `modify_reverse_eq`   so does a search from the back.
-/

set_option linter.unusedSectionVars false

namespace Lib

/-- the last element that meets `p` is changed, from the front -/
def changeLast {A : Type} (p : A → Bool) (f : A → A) : List A → List A
  | [] => []
  | a :: as => if as.any p then a :: changeLast p f as else (if p a then f a else a) :: as

theorem modify_append_of_lt {A : Type} (f : A → A) {as : List A} (bs : List A) {i : Nat}
    (h : i < as.length) : (as ++ bs).modify i f = as.modify i f ++ bs := by
  induction as generalizing i with
  | nil => cases h
  | cons a as ih =>
    cases i with
    | zero => rfl
    | succ i => exact congrArg (a :: ·) (ih (Nat.lt_of_succ_lt_succ h))

theorem modify_concat {A : Type} (f : A → A) (as : List A) (a : A) :
    (as ++ [a]).modify as.length f = as ++ [f a] := by
  induction as with
  | nil => rfl
  | cons b as ih => exact congrArg (b :: ·) ih

/-- **searching from the back changes the last** -/
theorem modify_reverse_eq {A : Type} (p : A → Bool) (f : A → A) (as : List A) :
    (match as.reverse.findIdx? p with
      | none => as
      | some i => (as.reverse.modify i f).reverse) = changeLast p f as := by
  induction as with
  | nil => rfl
  | cons a as ih =>
    rw [List.reverse_cons, List.findIdx?_append, changeLast]
    cases hi : as.reverse.findIdx? p with
    | none =>
      have hnone : as.any p = false := by
        rw [List.findIdx?_eq_none_iff] at hi
        rw [List.any_eq_false]
        intro x hx
        rw [hi x (List.mem_reverse.mpr hx)]
        exact Bool.false_ne_true
      rw [hnone]
      cases ha : p a with
      | false => simp [List.findIdx?_cons, ha]
      | true =>
        have hmodify := modify_concat f as.reverse a
        rw [List.length_reverse] at hmodify
        simp [List.findIdx?_cons, ha, hmodify]
    | some i =>
      rw [hi] at ih
      have hsome : as.any p = true := by
        obtain ⟨hlt, hp, -⟩ := List.findIdx?_eq_some_iff_getElem.mp hi
        exact List.any_eq_true.mpr ⟨_, List.mem_reverse.mp (List.getElem_mem hlt), hp⟩
      have hlt : i < as.reverse.length := (List.findIdx?_eq_some_iff_getElem.mp hi).1
      rw [hsome, if_pos rfl, ← ih]
      show ((as.reverse ++ [a]).modify i f).reverse = a :: (as.reverse.modify i f).reverse
      rw [modify_append_of_lt f [a] hlt]
      exact List.reverse_concat

end Lib
