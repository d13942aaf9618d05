import Mathlib.Data.Int.Log
import Mathlib.Data.Rat.Floor
import Mathlib.Algebra.Order.Archimedean.Basic
import Mathlib.Algebra.Order.AbsoluteValue.Basic
import Mathlib.Tactic.FieldSimp
import Mathlib.Tactic.Linarith
import Mathlib.Tactic.Ring

/-!
# Binary numbers of bounded precision

A `Binary` format keeps `digits` binary digits of a number, and none below the place `least`.
`round` goes to the nearest number of the format, and from the middle to the even one; there is no
greatest number.  `f32` is single precision.

* `round_mono`     rounding keeps the order;
* `lt_round_iff`   what rounds to more than an odd number of the format is what lies at least half a
                   place above it.
-/

set_option linter.unusedSectionVars false

namespace Lib

/-! ## to a whole number -/

/-- the nearest whole number, of two the even one -/
def roundEven (x : ℚ) : ℤ :=
  if x - ⌊x⌋ < 1 / 2 ∨ x - ⌊x⌋ = 1 / 2 ∧ ⌊x⌋ % 2 = 0 then ⌊x⌋ else ⌊x⌋ + 1

theorem roundEven_near (x : ℚ) :
    |x - roundEven x| < 1 / 2 ∨ |x - roundEven x| = 1 / 2 ∧ roundEven x % 2 = 0 := by
  have hlow := Int.floor_le x
  have hhigh := Int.lt_floor_add_one x
  unfold roundEven
  split
  · rename_i h
    rw [abs_of_nonneg (by linarith)]
    exact h
  · rename_i h
    obtain ⟨hge, heven⟩ := not_or.mp h
    have hge : 1 / 2 ≤ x - ⌊x⌋ := not_lt.mp hge
    have habs : |x - ((⌊x⌋ + 1 : ℤ) : ℚ)| = ⌊x⌋ + 1 - x := by
      rw [abs_sub_comm, abs_of_nonneg (by push_cast; linarith)]
      push_cast
      ring
    rw [habs]
    rcases hge.lt_or_eq with hgt | heq
    · exact Or.inl (by linarith)
    · refine Or.inr ⟨by linarith, ?_⟩
      have hodd : ¬ ⌊x⌋ % 2 = 0 := fun h => heven ⟨heq.symm, h⟩
      omega

/-- it is half a unit off at most, and less than that when it is odd -/
theorem near_bounds {x : ℚ} {m : ℤ} (h : |x - m| < 1 / 2 ∨ |x - m| = 1 / 2 ∧ m % 2 = 0) :
    (m : ℚ) - 1 / 2 ≤ x ∧ x ≤ m + 1 / 2 ∧
      (m % 2 = 0 ∨ (m : ℚ) - 1 / 2 < x ∧ x < m + 1 / 2) := by
  rcases h with h | ⟨h, heven⟩
  · obtain ⟨hlow, hhigh⟩ := abs_lt.mp h
    exact ⟨by linarith, by linarith, Or.inr ⟨by linarith, by linarith⟩⟩
  · obtain ⟨hlow, hhigh⟩ := abs_le.mp h.le
    exact ⟨by linarith, by linarith, Or.inl heven⟩

/-- a greater one is not near as well: the two would both be even, and one apart -/
theorem near_le {x : ℚ} {m n : ℤ} (hm : |x - m| < 1 / 2 ∨ |x - m| = 1 / 2 ∧ m % 2 = 0)
    (hn : |x - n| < 1 / 2 ∨ |x - n| = 1 / 2 ∧ n % 2 = 0) : n ≤ m := by
  obtain ⟨-, hmhigh, hmeven⟩ := near_bounds hm
  obtain ⟨hnlow, -, hneven⟩ := near_bounds hn
  by_contra hlt
  have hq : (m : ℚ) + 1 ≤ n := by exact_mod_cast not_le.mp hlt
  have hgap : n = m + 1 := by
    have hle : (n : ℚ) ≤ ((m + 1 : ℤ) : ℚ) := by push_cast; linarith
    have hle : n ≤ m + 1 := Int.cast_le.mp hle
    omega
  rcases hmeven with hmeven | ⟨-, hmhigh⟩
  · rcases hneven with hneven | ⟨hnlow, -⟩
    · omega
    · linarith
  · linarith

/-- **the nearest, and in the middle the even one** -/
theorem roundEven_eq_iff {x : ℚ} {n : ℤ} :
    roundEven x = n ↔ |x - n| < 1 / 2 ∨ |x - n| = 1 / 2 ∧ n % 2 = 0 := by
  constructor
  · intro h
    rw [← h]
    exact roundEven_near x
  · intro h
    exact le_antisymm (near_le h (roundEven_near x)) (near_le (roundEven_near x) h)

@[simp] theorem roundEven_intCast (n : ℤ) : roundEven n = n := by
  rw [roundEven_eq_iff, sub_self, abs_zero]
  exact Or.inl one_half_pos

theorem roundEven_neg (x : ℚ) : roundEven (-x) = -roundEven x := by
  have h := roundEven_near x
  have habs : |(-x) - ((-roundEven x : ℤ) : ℚ)| = |x - roundEven x| := by
    rw [← abs_neg]
    push_cast
    congr 1
    ring
  rw [roundEven_eq_iff, habs, Int.neg_emod_two]
  exact h

theorem roundEven_mono {x y : ℚ} (h : x ≤ y) : roundEven x ≤ roundEven y := by
  obtain ⟨hxlow, -, hxeven⟩ := near_bounds (roundEven_near x)
  obtain ⟨-, hyhigh, hyeven⟩ := near_bounds (roundEven_near y)
  by_contra hlt
  have hq : (roundEven y : ℚ) + 1 ≤ roundEven x := by exact_mod_cast not_le.mp hlt
  -- nothing but the middle between the two is left, and one of them is odd
  have hgap : roundEven x = roundEven y + 1 := by
    have hgap : (roundEven x : ℚ) = ((roundEven y + 1 : ℤ) : ℚ) := by push_cast; linarith
    exact Int.cast_injective hgap
  rcases hxeven with hxeven | ⟨hxlow, -⟩
  · rcases hyeven with hyeven | ⟨-, hyhigh⟩
    · omega
    · linarith
  · linarith

/-- just below the middle it goes down -/
theorem roundEven_le {x : ℚ} {n : ℤ} (h : x < n + 1 / 2) : roundEven x ≤ n := by
  obtain ⟨hlow, -, -⟩ := near_bounds (roundEven_near x)
  by_contra hlt
  have hq : (n : ℚ) + 1 ≤ roundEven x := by exact_mod_cast not_le.mp hlt
  linarith

/-- from the middle it goes up when the lower number is odd -/
theorem roundEven_middle {n : ℤ} (hodd : n % 2 = 1) : roundEven (n + 1 / 2) = n + 1 := by
  rw [roundEven_eq_iff]
  refine Or.inr ⟨?_, by omega⟩
  push_cast
  rw [show (n : ℚ) + 1 / 2 - (n + 1) = -(1 / 2) by ring, abs_neg, abs_of_pos one_half_pos]

/-! ## to a number of a format -/

structure Binary where
  digits : ℕ
  least : ℤ

/-- single precision -/
def f32 : Binary := ⟨24, -149⟩

namespace Binary

/-- the last place that is kept of `x` -/
def place (F : Binary) (x : ℚ) : ℤ := max (Int.log 2 |x| - (F.digits - 1)) F.least

def round (F : Binary) (x : ℚ) : ℚ := roundEven (x / 2 ^ F.place x) * 2 ^ F.place x

variable (F : Binary)

theorem two_zpow_pos (k : ℤ) : (0 : ℚ) < 2 ^ k := zpow_pos two_pos k

theorem round_neg (x : ℚ) : F.round (-x) = -F.round x := by
  unfold round place
  rw [abs_neg, neg_div, roundEven_neg]
  push_cast
  ring

@[simp] theorem round_zero : F.round 0 = 0 := by
  unfold round
  have h : roundEven (0 / 2 ^ F.place 0) = 0 := by
    rw [zero_div]
    exact_mod_cast roundEven_intCast 0
  rw [h]
  exact_mod_cast zero_mul _

/-- a whole number of places stays below what is rounded -/
theorem le_round {x : ℚ} {m : ℤ} (h : m * 2 ^ F.place x ≤ x) : m * 2 ^ F.place x ≤ F.round x := by
  have hpos := two_zpow_pos (F.place x)
  have hle : m ≤ roundEven (x / 2 ^ F.place x) := by
    rw [← roundEven_intCast m]
    exact roundEven_mono ((le_div_iff₀ hpos).mpr h)
  exact mul_le_mul_of_nonneg_right (by exact_mod_cast hle) hpos.le

theorem round_le {x : ℚ} {m : ℤ} (h : x ≤ m * 2 ^ F.place x) : F.round x ≤ m * 2 ^ F.place x := by
  have hpos := two_zpow_pos (F.place x)
  have hle : roundEven (x / 2 ^ F.place x) ≤ m := by
    rw [← roundEven_intCast m]
    exact roundEven_mono ((div_le_iff₀ hpos).mpr h)
  exact mul_le_mul_of_nonneg_right (by exact_mod_cast hle) hpos.le

theorem round_nonneg {x : ℚ} (h : 0 ≤ x) : 0 ≤ F.round x := by
  have hle := F.le_round (x := x) (m := 0) (by rw [Int.cast_zero, zero_mul]; exact h)
  rwa [Int.cast_zero, zero_mul] at hle

theorem abs_round (x : ℚ) : |F.round x| = F.round |x| := by
  rcases le_total 0 x with h | h
  · rw [abs_of_nonneg h, abs_of_nonneg (F.round_nonneg h)]
  · have hneg := F.round_nonneg (neg_nonneg.mpr h)
    rw [abs_of_nonpos h, F.round_neg]
    rw [F.round_neg] at hneg
    exact abs_of_nonpos (neg_nonneg.mp hneg)

theorem place_mono {x y : ℚ} (hx : 0 < x) (h : x ≤ y) : F.place x ≤ F.place y := by
  unfold place
  rw [abs_of_pos hx, abs_of_pos (hx.trans_le h)]
  exact max_le_max (sub_le_sub_right (Int.log_mono_right hx h) _) le_rfl

/-- a power of two that is no lower than the last place is a number of it -/
theorem exists_mul_two_zpow {k j : ℤ} (h : k ≤ j) : ∃ m : ℤ, (m : ℚ) * 2 ^ k = 2 ^ j := by
  refine ⟨2 ^ (j - k).toNat, ?_⟩
  push_cast
  rw [← zpow_natCast, Int.toNat_of_nonneg (by omega), ← zpow_add₀ two_ne_zero]
  congr 1
  omega

/-- **rounding keeps the order** -/
theorem round_mono (hd : 0 < F.digits) {x y : ℚ} (hx : 0 ≤ x) (h : x ≤ y) :
    F.round x ≤ F.round y := by
  rcases hx.lt_or_eq with hx | rfl
  swap
  · rw [round_zero]
    exact F.round_nonneg h
  rcases (F.place_mono hx h).lt_or_eq with hlt | heq
  · -- the power of two at which the place changes lies between the two
    have hy : 0 < y := hx.trans_le h
    have hlog : F.place y = Int.log 2 y - (F.digits - 1) := by
      unfold place at hlt ⊢
      rw [abs_of_pos hx, abs_of_pos hy] at hlt
      rw [abs_of_pos hy]
      refine max_eq_left ?_
      by_contra hle
      rw [max_eq_right (not_le.mp hle).le] at hlt
      exact absurd hlt (not_lt.mpr (le_max_right _ _))
    have hxlog : Int.log 2 x < Int.log 2 y := by
      have hle : Int.log 2 x - (F.digits - 1) ≤ F.place x := by
        unfold place
        rw [abs_of_pos hx]
        exact le_max_left _ _
      omega
    have hxlt : x < 2 ^ Int.log 2 y := by
      have hb := (Int.lt_zpow_iff_log_lt (R := ℚ) Nat.one_lt_two hx).mpr hxlog
      exact_mod_cast hb
    have hyle : (2 : ℚ) ^ Int.log 2 y ≤ y := by
      have hb := Int.zpow_log_le_self (R := ℚ) Nat.one_lt_two hy
      exact_mod_cast hb
    have hd' : (0 : ℤ) < F.digits := by exact_mod_cast hd
    obtain ⟨m, hm⟩ := exists_mul_two_zpow (k := F.place x) (j := Int.log 2 y) (by omega)
    obtain ⟨n, hn⟩ := exists_mul_two_zpow (k := F.place y) (j := Int.log 2 y) (by omega)
    have hlow : F.round x ≤ 2 ^ Int.log 2 y := by
      rw [← hm]
      exact F.round_le (by rw [hm]; exact hxlt.le)
    have hhigh : 2 ^ Int.log 2 y ≤ F.round y := by
      rw [← hn]
      exact F.le_round (by rw [hn]; exact hyle)
    exact hlow.trans hhigh
  · have hpos := two_zpow_pos (F.place y)
    unfold round
    rw [heq]
    have hle := roundEven_mono ((div_le_div_iff_of_pos_right hpos).mpr h)
    exact mul_le_mul_of_nonneg_right (by exact_mod_cast hle) hpos.le

/-- the place of a number with all its digits -/
theorem place_eq {x : ℚ} {k : ℤ} (hk : F.least ≤ k) (hlow : 2 ^ ((F.digits : ℤ) - 1) * 2 ^ k ≤ x)
    (hhigh : x < 2 ^ (F.digits : ℤ) * 2 ^ k) : F.place x = k := by
  rw [← zpow_add₀ two_ne_zero] at hlow hhigh
  have hx : 0 < x := (two_zpow_pos _).trans_le hlow
  have hle : (F.digits : ℤ) - 1 + k ≤ Int.log 2 x := by
    refine (Int.zpow_le_iff_le_log (R := ℚ) Nat.one_lt_two hx).mp ?_
    exact_mod_cast hlow
  have hlt : Int.log 2 x < F.digits + k := by
    refine (Int.lt_zpow_iff_log_lt (R := ℚ) Nat.one_lt_two hx).mp ?_
    exact_mod_cast hhigh
  unfold place
  rw [abs_of_pos hx, max_eq_left (by omega)]
  omega

section
variable {m k : ℤ} (hk : F.least ≤ k) (hlow : (2 : ℚ) ^ ((F.digits : ℤ) - 1) ≤ m)
  (hhigh : (m : ℚ) + 1 ≤ 2 ^ (F.digits : ℤ))
include hk hlow hhigh

/-- between a number of the format and the next one the place is theirs -/
theorem place_between {x : ℚ} (hx : m * 2 ^ k ≤ x) (hx' : x < (m + 1) * 2 ^ k) :
    F.place x = k := by
  have hpos := two_zpow_pos k
  refine F.place_eq hk ?_ ?_
  · exact (mul_le_mul_of_nonneg_right hlow hpos.le).trans hx
  · exact hx'.trans_le (mul_le_mul_of_nonneg_right hhigh hpos.le)

/-- what lies below the middle to the next number does not get above this one -/
theorem round_le_of_lt (hd : 0 < F.digits) {x : ℚ} (hx : 0 ≤ x) (h : x < (m + 1 / 2) * 2 ^ k) :
    F.round x ≤ m * 2 ^ k := by
  have hpos := two_zpow_pos k
  rcases lt_or_ge x (m * 2 ^ k) with hsmall | hlarge
  · have hnext : (m : ℚ) * 2 ^ k < (m + 1) * 2 ^ k :=
      mul_lt_mul_of_pos_right (lt_add_one _) hpos
    have hp : F.place (m * 2 ^ k) = k := F.place_between hk hlow hhigh le_rfl hnext
    have hr := F.round_le (x := m * 2 ^ k) (m := m) (by rw [hp])
    rw [hp] at hr
    exact (F.round_mono hd hx hsmall.le).trans hr
  · have hnext : ((m : ℚ) + 1 / 2) * 2 ^ k ≤ (m + 1) * 2 ^ k :=
      mul_le_mul_of_nonneg_right (by linarith) hpos.le
    have hp : F.place x = k := F.place_between hk hlow hhigh hlarge (h.trans_le hnext)
    have hr : roundEven (x / 2 ^ k) ≤ m := roundEven_le ((div_lt_iff₀ hpos).mpr h)
    unfold round
    rw [hp]
    exact mul_le_mul_of_nonneg_right (by exact_mod_cast hr) hpos.le

/-- from an odd number the middle goes up -/
theorem round_middle (hodd : m % 2 = 1) :
    F.round ((m + 1 / 2) * 2 ^ k) = (m + 1) * 2 ^ k := by
  have hpos := two_zpow_pos k
  have hp : F.place ((m + 1 / 2) * 2 ^ k) = k := by
    refine F.place_between hk hlow hhigh ?_ ?_
    · exact mul_le_mul_of_nonneg_right (by linarith) hpos.le
    · exact mul_lt_mul_of_pos_right (by linarith) hpos
  unfold round
  rw [hp, mul_div_assoc, div_self hpos.ne', mul_one, roundEven_middle hodd]
  push_cast
  rfl

/-- **what rounds to more than an odd number of the format**: what lies in the middle to the next
one, or above -/
theorem lt_round_iff (hd : 0 < F.digits) (hodd : m % 2 = 1) {x : ℚ} (hx : 0 ≤ x) :
    m * 2 ^ k < F.round x ↔ (m + 1 / 2) * 2 ^ k ≤ x := by
  have hpos := two_zpow_pos k
  constructor
  · intro h
    by_contra hlt
    exact absurd h (not_lt.mpr (F.round_le_of_lt hk hlow hhigh hd hx (not_le.mp hlt)))
  · intro h
    have hstart : 0 ≤ ((m : ℚ) + 1 / 2) * 2 ^ k := by
      have hm : (0 : ℚ) < m := (two_zpow_pos _).trans_le hlow
      exact mul_nonneg (by linarith) hpos.le
    calc (m : ℚ) * 2 ^ k < (m + 1) * 2 ^ k := mul_lt_mul_of_pos_right (lt_add_one _) hpos
      _ = F.round ((m + 1 / 2) * 2 ^ k) := (F.round_middle hk hlow hhigh hodd).symm
      _ ≤ F.round x := F.round_mono hd hstart h

end

end Binary

/-- single precision subtraction -/
def f32Sub (x y : ℚ) : ℚ := f32.round (x - y)

theorem abs_f32Sub (x y : ℚ) : |f32Sub x y| = f32.round |x - y| := f32.abs_round (x - y)

end Lib
