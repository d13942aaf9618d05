import Epica.Lib.Meter
import Mathlib.Algebra.Order.Field.Rat

/-!
# The token bucket of System 2

`refill` is applied when tokens are asked for.  It reads the clock for the time that has passed and
once more for the time of the refill, so what accrues between the two readings is lost.

`level b t` is what the bucket would hold at the time `t`, the refill that has not been applied yet
included.

* `refill_available`   a refill raises the bucket to its level at the first reading;
* `metered`            a call gives what it takes from the level;
* `tokenBucket_bound`  the bounds on what is available and on what is granted in an interval.
-/

set_option linter.unusedSectionVars false

namespace Epica.System2
open Lib

structure TokenBucket where
  capacity : Nat
  available : ℚ
  refillRatePerSec : ℚ
  lastRefill : ℚ

namespace TokenBucket

/-- full, at the time `now` -/
def new (capacity : Nat) (refillRatePerSec now : ℚ) : TokenBucket :=
  ⟨capacity, capacity, refillRatePerSec, now⟩

/-- `now` and `now'` are the two readings; no time has passed when the clock is behind -/
def refill (b : TokenBucket) (now now' : ℚ) : TokenBucket :=
  if b.refillRatePerSec ≤ 0 then b
  else
    let elapsed := max (now - b.lastRefill) 0
    { b with
      available := min (b.available + elapsed * b.refillRatePerSec) b.capacity
      lastRefill := now' }

def tryConsume (b : TokenBucket) (tokens : Nat) (now now' : ℚ) : Bool × TokenBucket :=
  let b := b.refill now now'
  if tokens ≤ b.available then (true, { b with available := b.available - tokens })
  else (false, b)

/-- a refund, capped at the capacity -/
def release (b : TokenBucket) (tokens : Nat) : TokenBucket :=
  { b with available := min (b.available + tokens) b.capacity }

end TokenBucket

/-- a call, with the two readings it makes, or with the time it is made at -/
inductive BucketCall where
  | tryConsume (tokens : Nat) (now now' : ℚ)
  | release (tokens : Nat) (now : ℚ)

namespace BucketCall

def start : BucketCall → ℚ
  | .tryConsume _ now _ => now
  | .release _ now => now

def stop : BucketCall → ℚ
  | .tryConsume _ _ now' => now'
  | .release _ now => now

end BucketCall

namespace TokenBucket

def step (b : TokenBucket) : BucketCall → TokenBucket
  | .tryConsume tokens now now' => (b.tryConsume tokens now now').2
  | .release tokens _ => b.release tokens

/-- the tokens a call grants, or, with a minus sign, those it releases -/
def granted (b : TokenBucket) : BucketCall → ℚ
  | .tryConsume tokens now now' => if (b.tryConsume tokens now now').1 then tokens else 0
  | .release tokens _ => -(tokens : ℚ)

/-! ## the level -/

def level (b : TokenBucket) (t : ℚ) : ℚ :=
  min (b.available + b.refillRatePerSec * (t - b.lastRefill)) b.capacity

/-- a bucket of this capacity and this rate, last refilled not after `t` -/
structure Sound (capacity : Nat) (rate : ℚ) (b : TokenBucket) (t : ℚ) : Prop where
  capacity_eq : b.capacity = capacity
  rate_eq : b.refillRatePerSec = rate
  nonneg : 0 ≤ b.available
  le_capacity : b.available ≤ capacity
  refilled : b.lastRefill ≤ t

variable {capacity : Nat} {rate : ℚ} {b : TokenBucket} {t now now' : ℚ}

theorem Sound.later (h : Sound capacity rate b t) {t' : ℚ} (ht : t ≤ t') :
    Sound capacity rate b t' := { h with refilled := le_trans h.refilled ht }

theorem Sound.available_le_level (h : Sound capacity rate b t) (hrate : 0 ≤ rate) :
    b.available ≤ b.level t := by
  have haccrued : 0 ≤ b.refillRatePerSec * (t - b.lastRefill) := by
    rw [h.rate_eq]
    exact mul_nonneg hrate (sub_nonneg.mpr h.refilled)
  refine le_min (le_add_of_nonneg_right haccrued) ?_
  rw [h.capacity_eq]
  exact h.le_capacity

/-- a refill raises the bucket to its level at the first reading -/
theorem refill_available (h : Sound capacity rate b now) (hrate : 0 ≤ rate) :
    (b.refill now now').available = b.level now := by
  unfold refill level
  rw [h.rate_eq, h.capacity_eq]
  split
  · rename_i hle
    rw [le_antisymm hle hrate, zero_mul, add_zero, min_eq_left h.le_capacity]
  · rw [max_eq_left (sub_nonneg.mpr h.refilled), mul_comm]

/-- nothing has accrued at the second reading -/
theorem refill_accrued (h : Sound capacity rate b now) (hrate : 0 ≤ rate) :
    (b.refill now now').refillRatePerSec * (now' - (b.refill now now').lastRefill) = 0 := by
  unfold refill
  split
  · rename_i hle
    rw [h.rate_eq] at hle ⊢
    rw [le_antisymm hle hrate, zero_mul]
  · rw [sub_self, mul_zero]

theorem Sound.refill (h : Sound capacity rate b now) (hrate : 0 ≤ rate) (hnow : now ≤ now') :
    Sound capacity rate (b.refill now now') now' := by
  have havailable := @refill_available capacity rate b now now' h hrate
  have hlevel := h.available_le_level hrate
  refine
    { capacity_eq := ?_
      rate_eq := ?_
      nonneg := havailable ▸ le_trans h.nonneg hlevel
      le_capacity := ?_
      refilled := ?_ }
  · unfold TokenBucket.refill
    split
    · exact h.capacity_eq
    · exact h.capacity_eq
  · unfold TokenBucket.refill
    split
    · exact h.rate_eq
    · exact h.rate_eq
  · rw [havailable, ← h.capacity_eq]
    exact min_le_right _ _
  · unfold TokenBucket.refill
    split
    · exact le_trans h.refilled hnow
    · exact le_refl now'

/-- a request is granted when the level at the first reading is enough -/
theorem tryConsume_cases (h : Sound capacity rate b now) (hrate : 0 ≤ rate) (tokens : Nat)
    (now' : ℚ) :
    (tokens ≤ b.level now ∧ b.tryConsume tokens now now' = (true, { b.refill now now' with
      available := b.level now - tokens })) ∨
    (b.level now < tokens ∧ b.tryConsume tokens now now' = (false, b.refill now now')) := by
  have havailable := @refill_available capacity rate b now now' h hrate
  unfold tryConsume
  simp only [havailable]
  by_cases hle : tokens ≤ b.level now
  · exact Or.inl ⟨hle, if_pos hle⟩
  · exact Or.inr ⟨not_le.mp hle, if_neg hle⟩

theorem Sound.step (hrate : 0 ≤ rate) (call : BucketCall)
    (h : Sound capacity rate b call.start) (hcall : call.start ≤ call.stop) :
    Sound capacity rate (b.step call) call.stop := by
  cases call with
  | tryConsume tokens now now' =>
    have hnow : Sound capacity rate b now := h
    have hrefilled : Sound capacity rate (b.refill now now') now' := hnow.refill hrate hcall
    have havailable := @refill_available capacity rate b now now' h hrate
    show Sound capacity rate (b.tryConsume tokens now now').2 now'
    rcases tryConsume_cases hnow hrate tokens now' with ⟨hle, hres⟩ | ⟨-, hres⟩
    · rw [hres]
      have hspent : b.level now - tokens ≤ b.level now := sub_le_self _ (Nat.cast_nonneg tokens)
      exact { hrefilled with
        nonneg := sub_nonneg.mpr hle
        le_capacity := le_trans hspent (havailable ▸ hrefilled.le_capacity) }
    · rw [hres]
      exact hrefilled
  | release tokens now =>
    have hsum : 0 ≤ b.available + tokens := add_nonneg h.nonneg (Nat.cast_nonneg tokens)
    exact { h with
      nonneg := le_min hsum (Nat.cast_nonneg b.capacity)
      le_capacity := h.capacity_eq ▸ min_le_right _ _ }

/-! ## the meter -/

/-- what a call gives comes out of the level -/
theorem granted_add_level (hrate : 0 ≤ rate) (call : BucketCall)
    (h : Sound capacity rate b call.start) (hcall : call.start ≤ call.stop) :
    b.granted call + (b.step call).level call.stop ≤ b.level call.start := by
  cases call with
  | tryConsume tokens now now' =>
    have hnow : Sound capacity rate b now := h
    have haccrued := @refill_accrued capacity rate b now now' h hrate
    have havailable := @refill_available capacity rate b now now' h hrate
    show (if (b.tryConsume tokens now now').1 then (tokens : ℚ) else 0) +
      (b.tryConsume tokens now now').2.level now' ≤ b.level now
    rcases tryConsume_cases hnow hrate tokens now' with ⟨hle, hres⟩ | ⟨-, hres⟩
    · have hleft : (b.tryConsume tokens now now').2.level now' ≤ b.level now - tokens := by
        rw [hres]
        refine le_trans (min_le_left _ _) (le_of_eq ?_)
        show b.level now - tokens + (b.refill now now').refillRatePerSec *
          (now' - (b.refill now now').lastRefill) = _
        rw [haccrued, add_zero]
      rw [hres] at hleft ⊢
      rw [if_pos rfl]
      linarith
    · have hleft : (b.refill now now').level now' ≤ b.level now := by
        refine le_trans (min_le_left _ _) (le_of_eq ?_)
        rw [haccrued, add_zero, havailable]
      rw [hres, if_neg Bool.false_ne_true, zero_add]
      exact hleft
  | release tokens now =>
    have htokens : (0 : ℚ) ≤ tokens := Nat.cast_nonneg tokens
    show -(tokens : ℚ) + min (min (b.available + tokens) b.capacity +
      b.refillRatePerSec * (now - b.lastRefill)) b.capacity ≤
        min (b.available + b.refillRatePerSec * (now - b.lastRefill)) b.capacity
    have hrefund : min (b.available + tokens) (b.capacity : ℚ) ≤ b.available + tokens :=
      min_le_left _ _
    refine le_min ?_ ?_
    · have hsum := min_le_left (min (b.available + tokens) (b.capacity : ℚ) +
        b.refillRatePerSec * (now - b.lastRefill)) (b.capacity : ℚ)
      linarith
    · have hcap := min_le_right (min (b.available + tokens) (b.capacity : ℚ) +
        b.refillRatePerSec * (now - b.lastRefill)) (b.capacity : ℚ)
      linarith

/-- **the bucket is metered by its level** -/
theorem metered (hrate : 0 ≤ rate) :
    Metered step BucketCall.start BucketCall.stop granted level (Sound capacity rate)
      (capacity : ℚ) rate where
  rate_nonneg := hrate
  waits _ _ _ h ht := h.later ht
  keeps _ call h hcall := Sound.step hrate call h hcall
  nonneg _ _ h := le_trans h.nonneg (h.available_le_level hrate)
  capped b t h := h.capacity_eq ▸ min_le_right _ _
  rises b t t' h ht := by
    have hwait : 0 ≤ rate * (t' - t) := mul_nonneg hrate (sub_nonneg.mpr ht)
    have hsum : rate * (t' - b.lastRefill) = rate * (t - b.lastRefill) + rate * (t' - t) := by ring
    unfold level
    rw [h.rate_eq, ← min_add_add_right]
    refine min_le_min (le_of_eq ?_) (le_add_of_nonneg_right hwait)
    rw [hsum, add_assoc]
  pays _ call h hcall := granted_add_level hrate call h hcall

theorem sound_new (capacity : Nat) (rate created : ℚ) :
    Sound capacity rate (new capacity rate created) created where
  capacity_eq := rfl
  rate_eq := rfl
  nonneg := Nat.cast_nonneg capacity
  le_capacity := le_refl _
  refilled := le_refl created

/-- **the token bucket bound**: in every run of calls that follow each other, what is available
stays between zero and the capacity, a request that is refused deducts nothing, and in no interval
are more tokens granted, the released ones deducted, than the capacity and what is refilled in it -/
theorem tokenBucket_bound (capacity : Nat) (rate created : ℚ) (calls : List BucketCall)
    (hrate : 0 ≤ rate) (hin : InOrder BucketCall.start BucketCall.stop created calls) :
    (∀ b, StateOf step (new capacity rate created) calls b →
      0 ≤ b.available ∧ b.available ≤ capacity) ∧
    (∀ b tokens now now', StepOf step (new capacity rate created) calls b
        (.tryConsume tokens now now') → (b.tryConsume tokens now now').1 = false →
      (b.tryConsume tokens now now').2 = b.refill now now' ∧
        b.available ≤ (b.refill now now').available) ∧
    ∀ lo hi, lo ≤ hi → givenDuring step BucketCall.start BucketCall.stop granted lo hi
      (new capacity rate created) calls ≤ capacity + rate * (hi - lo) := by
  have hmeter := @metered capacity rate hrate
  have hsound := sound_new capacity rate created
  refine ⟨fun b hb => ?_, fun b tokens now now' hb hrefused => ?_, fun lo hi hlohi =>
    hmeter.during_le hsound hin hlohi⟩
  · obtain ⟨pre, post, rfl, rfl⟩ := hb
    obtain ⟨t, -, h⟩ := hmeter.invariant hsound hin.of_append
    exact ⟨h.nonneg, h.le_capacity⟩
  · obtain ⟨pre, post, rfl, rfl⟩ := hb
    obtain ⟨t, hat, h⟩ := hmeter.before hsound hin
    have hnow : Sound capacity rate (run step (new capacity rate created) pre) now :=
      h.later hat
    rcases tryConsume_cases hnow hrate tokens now' with ⟨-, hres⟩ | ⟨-, hres⟩
    · rw [hres] at hrefused
      cases hrefused
    · rw [hres]
      refine ⟨rfl, ?_⟩
      rw [refill_available hnow hrate]
      exact hnow.available_le_level hrate

/-- a burst, a refusal and a refund, the last two calls after a refill -/
theorem tokenBucket_bound_burst :
    givenDuring step BucketCall.start BucketCall.stop granted 0 3 (new 2 (1 / 2) 0)
      [.tryConsume 2 0 1, .tryConsume 1 1 2, .release 1 2, .tryConsume 1 3 3] ≤
      (2 : Nat) + 1 / 2 * (3 - 0) :=
  (tokenBucket_bound 2 (1 / 2) 0
    [.tryConsume 2 0 1, .tryConsume 1 1 2, .release 1 2, .tryConsume 1 3 3] (by decide +kernel)
    (by decide +kernel)).2.2 0 3 (by decide +kernel)

end TokenBucket
end Epica.System2
