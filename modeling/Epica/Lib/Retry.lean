import Mathlib.Data.List.Basic

/-!
# Retrying what has failed for the moment

`retry` makes one attempt after the other, as long as they end in errors that are `transient`, and
sleeps before each attempt but the first.  What it does on the way is a list of `Effect`s.

* `LastAttempt`           `n` is the last attempt: the ones before are transient, and it is not, or
                      there are no more;
* `retry_last`     the effects are those of the attempts up to the last one, and the result is
                      the one of the last attempt;
* `LastAttempt.congr`     attempts that are transient together are the last ones together.
-/

set_option linter.unusedSectionVars false

namespace Lib

inductive Effect (R : Type) where
  | sleep (ms : Nat)
  | send (request : R)
  deriving DecidableEq

def Effect.map {R R' : Type} (f : R → R') : Effect R → Effect R'
  | .sleep ms => .sleep ms
  | .send request => .send (f request)

section
variable {E A R : Type} (backoff : Nat → Nat) (transient : E → Bool) (request : R)
  (attempts : Nat → Except E A)

/-- what one attempt does -/
def attemptEffects (attempt : Nat) : List (Effect R) :=
  (if 0 < attempt then [.sleep (backoff attempt)] else []) ++ [.send request]

/-- the attempts that are left, after the last one has failed with `lastErr` -/
def retry : List Nat → E → List (Effect R) × Except E A
  | [], lastErr => ([], .error lastErr)
  | attempt :: left, _ =>
    match attempts attempt with
    | .ok a => (attemptEffects backoff request attempt, .ok a)
    | .error e =>
      if transient e then
        let rest := retry left e
        (attemptEffects backoff request attempt ++ rest.1, rest.2)
      else (attemptEffects backoff request attempt, .error e)

/-- the attempt is made again -/
def isTransient : Except E A → Bool
  | .ok _ => false
  | .error e => transient e

structure LastAttempt (bound n : Nat) : Prop where
  lt : n < bound
  before : ∀ m < n, isTransient transient (attempts m) = true
  last : isTransient transient (attempts n) = true → n + 1 = bound

variable {backoff transient request attempts}

theorem map_attemptEffects {R' : Type} (f : R → R') (attempt : Nat) :
    (attemptEffects backoff request attempt).map (Effect.map f) =
      attemptEffects backoff (f request) attempt := by
  unfold attemptEffects
  split <;> rfl

theorem LastAttempt.unique {bound n m : Nat} (hn : LastAttempt transient attempts bound n)
    (hm : LastAttempt transient attempts bound m) : n = m := by
  rcases Nat.lt_trichotomy n m with h | h | h
  · have := hn.last (hm.before n h)
    have := hm.lt
    omega
  · exact h
  · have := hm.last (hn.before m h)
    have := hn.lt
    omega

theorem LastAttempt.congr {E' A' : Type} {transient' : E' → Bool} {attempts' : Nat → Except E' A'}
    (h : ∀ n, isTransient transient (attempts n) = isTransient transient' (attempts' n))
    {bound n : Nat} (hn : LastAttempt transient attempts bound n) :
    LastAttempt transient' attempts' bound n where
  lt := hn.lt
  before m hm := (h m).symm.trans (hn.before m hm)
  last hlast := hn.last ((h n).trans hlast)

/-- one attempt, and those after it if it is transient -/
theorem retry_cons (attempt : Nat) (left : List Nat) (lastErr : E) :
    (isTransient transient (attempts attempt) = false ∧
      retry backoff transient request attempts (attempt :: left) lastErr =
        (attemptEffects backoff request attempt, attempts attempt)) ∨
    ∃ e, transient e = true ∧ attempts attempt = .error e ∧
      retry backoff transient request attempts (attempt :: left) lastErr =
        (attemptEffects backoff request attempt ++
            (retry backoff transient request attempts left e).1,
          (retry backoff transient request attempts left e).2) := by
  rw [retry]
  cases h : attempts attempt with
  | ok a => exact Or.inl ⟨rfl, rfl⟩
  | error e =>
    cases ht : transient e with
    | false => exact Or.inl ⟨ht, by simp [ht]⟩
    | true => exact Or.inr ⟨e, ht, rfl, by simp [ht]⟩

/-- the attempts from `first` on -/
theorem retry_from (first left : Nat) (lastErr : E)
    (hbefore : ∀ m < first, isTransient transient (attempts m) = true) :
    ∃ n, LastAttempt transient attempts (first + (left + 1)) n ∧ first ≤ n ∧
      retry backoff transient request attempts (List.range' first (left + 1)) lastErr =
        ((List.range' first (n + 1 - first)).flatMap (attemptEffects backoff request),
          attempts n) := by
  induction left generalizing first lastErr with
  | zero =>
    refine ⟨first, ⟨Nat.lt_succ_self first, hbefore, fun _ => rfl⟩, Nat.le_refl _, ?_⟩
    rw [Nat.add_sub_cancel_left]
    show retry backoff transient request attempts [first] lastErr =
      ([first].flatMap (attemptEffects backoff request), attempts first)
    rw [List.flatMap_singleton]
    rcases retry_cons first [] lastErr with ⟨-, h⟩ | ⟨e, -, he, h⟩
    · exact h
    · rw [h, he, retry]
      simp only [List.append_nil]
  | succ left ih =>
    rw [List.range'_succ]
    rcases retry_cons first (List.range' (first + 1) (left + 1)) lastErr with
      ⟨hsettles, h⟩ | ⟨e, ht, he, h⟩
    · refine ⟨first, ⟨by omega, hbefore, fun ht => ?_⟩, Nat.le_refl _, ?_⟩
      · rw [hsettles] at ht
        cases ht
      · rw [h, Nat.add_sub_cancel_left]
        show _ = ([first].flatMap (attemptEffects backoff request), attempts first)
        rw [List.flatMap_singleton]
    · have hbefore' : ∀ m < first + 1, isTransient transient (attempts m) = true := by
        intro m hm
        rcases Nat.lt_succ_iff_lt_or_eq.mp hm with hm | rfl
        · exact hbefore m hm
        · rw [he]
          exact ht
      obtain ⟨n, hn, hle, hrest⟩ := ih (first + 1) e hbefore'
      have hbound : first + 1 + (left + 1) = first + (left + 1 + 1) := by omega
      rw [hbound] at hn
      refine ⟨n, hn, by omega, ?_⟩
      have hlength : n + 1 - first = n + 1 - (first + 1) + 1 := by omega
      rw [h, hrest, hlength, List.range'_succ, List.flatMap_cons]

/-- **the effects are those of the attempts up to the last one, the result is that of the last** -/
theorem retry_last (bound : Nat) (lastErr : E) : ∃ n, LastAttempt transient attempts (bound + 1) n ∧
    retry backoff transient request attempts (List.range (bound + 1)) lastErr =
      ((List.range (n + 1)).flatMap (attemptEffects backoff request), attempts n) := by
  obtain ⟨n, hn, -, h⟩ := @retry_from E A R backoff transient request attempts 0 bound lastErr
    fun m hm => absurd hm (Nat.not_lt_zero m)
  rw [Nat.zero_add] at hn
  rw [Nat.sub_zero, ← List.range_eq_range', ← List.range_eq_range'] at h
  exact ⟨n, hn, h⟩

theorem retry_eq {bound n : Nat} (hn : LastAttempt transient attempts (bound + 1) n) (lastErr : E) :
    retry backoff transient request attempts (List.range (bound + 1)) lastErr =
      ((List.range (n + 1)).flatMap (attemptEffects backoff request), attempts n) := by
  obtain ⟨m, hm, h⟩ := @retry_last E A R backoff transient request attempts bound lastErr
  rw [hn.unique hm]
  exact h

end

end Lib
