import Mathlib.Algebra.BigOperators.Group.List.Basic
import Mathlib.Algebra.BigOperators.Group.Finset.Basic
import Mathlib.Algebra.Order.BigOperators.Ring.Finset
import Mathlib.Algebra.Order.Field.Rat
import Mathlib.Data.List.Count

/-!
# The product over a set against the products over lists that cover it

`f` takes values in `[0, 1]`, the lists are parts of the set `U`.  The product over one list has a
factor for every repetition (`repeats`) and none for what the list leaves out (`omitted`).

* `prod_part`, `prod_whole`   the two products, with what the list shares with the set set apart;
* `prod_whole_least_iff`      when the product over `U` is the least of those over the lists;
* `foldl_max_eq_iff`          the greatest of a list, as a fold from a lower bound.
-/

set_option linter.unusedSectionVars false

namespace Lib

section
variable {α : Type} [DecidableEq α] (f : α → ℚ)

/-- the factors that occur in `l` beyond the first time -/
def repeats (l : List α) : ℚ := ∏ a ∈ l.toFinset, f a ^ (l.count a - 1)

/-- the factors of `U` that do not occur in `l` -/
def omitted (U : Finset α) (l : List α) : ℚ := ∏ a ∈ U \ l.toFinset, f a

theorem repeats_of_nodup {l : List α} (h : l.Nodup) : repeats f l = 1 := by
  refine Finset.prod_eq_one fun a ha => ?_
  rw [List.count_eq_one_of_mem h (List.mem_toFinset.mp ha), Nat.sub_self, pow_zero]

theorem prod_part (l : List α) : (l.map f).prod = (∏ a ∈ l.toFinset, f a) * repeats f l := by
  unfold repeats
  rw [Finset.prod_list_map_count, ← Finset.prod_mul_distrib]
  refine Finset.prod_congr rfl fun a ha => ?_
  have hcount : 0 < l.count a := List.count_pos_iff.mpr (List.mem_toFinset.mp ha)
  rw [← pow_succ', Nat.sub_add_cancel hcount]

variable {f} {U : Finset α} {ls : List (List α)}

theorem prod_whole {l : List α} (h : l.toFinset ⊆ U) :
    ∏ a ∈ U, f a = (∏ a ∈ l.toFinset, f a) * omitted f U l := by
  unfold omitted
  rw [mul_comm, Finset.prod_sdiff h]

/-- when no factor is zero, what is shared cancels -/
theorem prod_whole_le_iff (hpos : ∀ a ∈ U, 0 < f a) {l : List α} (h : l.toFinset ⊆ U) :
    ∏ a ∈ U, f a ≤ (l.map f).prod ↔ omitted f U l ≤ repeats f l := by
  have hshared : 0 < ∏ a ∈ l.toFinset, f a := Finset.prod_pos fun a ha => hpos a (h ha)
  rw [prod_part, prod_whole h]
  exact mul_le_mul_iff_right₀ hshared

theorem prod_whole_eq_iff (hpos : ∀ a ∈ U, 0 < f a) {l : List α} (h : l.toFinset ⊆ U) :
    ∏ a ∈ U, f a = (l.map f).prod ↔ omitted f U l = repeats f l := by
  have hshared : ∏ a ∈ l.toFinset, f a ≠ 0 :=
    (Finset.prod_pos fun a ha => hpos a (h ha)).ne'
  rw [prod_part, prod_whole h]
  exact mul_right_inj' hshared

/-- **when the product over a set is the least of the products over lists that cover it**: one of
the factors is zero, or no list omits more than it repeats and some list exactly as much -/
theorem prod_whole_least_iff (hf : ∀ a, 0 ≤ f a) (hU : ∀ a, a ∈ U ↔ ∃ l ∈ ls, a ∈ l) :
    ((∀ l ∈ ls, ∏ a ∈ U, f a ≤ (l.map f).prod) ∧ ∃ l ∈ ls, ∏ a ∈ U, f a = (l.map f).prod) ↔
      (∃ a ∈ U, f a = 0) ∨
        (∀ l ∈ ls, omitted f U l ≤ repeats f l) ∧ ∃ l ∈ ls, omitted f U l = repeats f l := by
  have hsub : ∀ l ∈ ls, l.toFinset ⊆ U := fun l hl a ha =>
    (hU a).mpr ⟨l, hl, List.mem_toFinset.mp ha⟩
  by_cases hzero : ∃ a ∈ U, f a = 0
  · refine iff_of_true ?_ (Or.inl hzero)
    obtain ⟨a, ha, hfa⟩ := hzero
    have hwhole : ∏ a ∈ U, f a = 0 := Finset.prod_eq_zero ha hfa
    obtain ⟨l, hl, hal⟩ := (hU a).mp ha
    rw [hwhole]
    refine ⟨fun l _ => List.prod_nonneg fun x hx => ?_, l, hl, ?_⟩
    · obtain ⟨b, -, rfl⟩ := List.mem_map.mp hx
      exact hf b
    · exact (List.prod_eq_zero (List.mem_map.mpr ⟨a, hal, hfa⟩)).symm
  · have hpos : ∀ a ∈ U, 0 < f a := fun a ha =>
      lt_of_le_of_ne (hf a) fun e => hzero ⟨a, ha, e.symm⟩
    rw [or_iff_right hzero]
    refine and_congr (forall₂_congr fun l hl => prod_whole_le_iff hpos (hsub l hl))
      (exists_congr fun l => and_congr_right fun hl => prod_whole_eq_iff hpos (hsub l hl))

/-- a list without repetitions that covers the set but for factors `1` omits and repeats nothing -/
theorem omitted_eq_one_iff (hf : ∀ a, 0 ≤ f a ∧ f a ≤ 1) (l : List α) :
    omitted f U l = 1 ↔ ∀ a ∈ U, a ∉ l → f a = 1 := by
  unfold omitted
  constructor
  · intro h a ha hal
    by_contra hne
    have hmem : a ∈ U \ l.toFinset :=
      Finset.mem_sdiff.mpr ⟨ha, fun hm => hal (List.mem_toFinset.mp hm)⟩
    have hrest : ∏ b ∈ (U \ l.toFinset).erase a, f b ≤ 1 :=
      Finset.prod_le_one (fun b _ => (hf b).1) fun b _ => (hf b).2
    have hlt : f a < 1 := lt_of_le_of_ne (hf a).2 hne
    have hle : f a * ∏ b ∈ (U \ l.toFinset).erase a, f b ≤ f a :=
      mul_le_of_le_one_right (hf a).1 hrest
    rw [Finset.mul_prod_erase _ f hmem, h] at hle
    exact absurd hlt (not_lt.mpr hle)
  · intro h
    refine Finset.prod_eq_one fun a ha => ?_
    obtain ⟨haU, hal⟩ := Finset.mem_sdiff.mp ha
    exact h a haU fun hm => hal (List.mem_toFinset.mpr hm)

theorem omitted_le_one (hf : ∀ a, 0 ≤ f a ∧ f a ≤ 1) (l : List α) : omitted f U l ≤ 1 :=
  Finset.prod_le_one (fun a _ => (hf a).1) fun a _ => (hf a).2

end

/-! ## the greatest of a list -/

section
variable {β : Type} [LinearOrder β]

theorem le_foldl_max (l : List β) (b : β) :
    b ≤ l.foldl max b ∧ (∀ x ∈ l, x ≤ l.foldl max b) ∧ (l.foldl max b = b ∨ l.foldl max b ∈ l) := by
  induction l generalizing b with
  | nil => exact ⟨le_refl b, fun x hx => absurd hx List.not_mem_nil, Or.inl rfl⟩
  | cons a l ih =>
    obtain ⟨hb, hl, hmem⟩ := ih (max b a)
    rw [List.foldl_cons]
    refine ⟨le_trans (le_max_left b a) hb, fun x hx => ?_, ?_⟩
    · rcases List.mem_cons.mp hx with rfl | hx
      · exact le_trans (le_max_right b x) hb
      · exact hl x hx
    · rcases hmem with e | hmem
      · rcases max_choice b a with h | h
        · exact Or.inl (e.trans h)
        · exact Or.inr (List.mem_cons.mpr (Or.inl (e.trans h)))
      · exact Or.inr (List.mem_cons_of_mem a hmem)

/-- **the greatest of a list that is not empty and not below `b`** -/
theorem foldl_max_eq_iff {l : List β} {b c : β} (hne : l ≠ []) (hb : ∀ x ∈ l, b ≤ x) :
    l.foldl max b = c ↔ (∀ x ∈ l, x ≤ c) ∧ c ∈ l := by
  obtain ⟨-, hle, hmem⟩ := le_foldl_max l b
  have hin : l.foldl max b ∈ l := by
    rcases hmem with e | hmem
    · obtain ⟨x, hx⟩ := List.exists_mem_of_ne_nil l hne
      have hxb : x = b := le_antisymm (e ▸ hle x hx) (hb x hx)
      rw [e, ← hxb]
      exact hx
    · exact hmem
  constructor
  · intro h
    rw [← h]
    exact ⟨hle, hin⟩
  · intro h
    exact le_antisymm (h.1 _ hin) (hle c h.2)

end
end Lib
