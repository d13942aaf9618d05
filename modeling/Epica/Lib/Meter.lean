import Epica.Lib.Run
import Mathlib.Algebra.Order.Ring.Defs
import Mathlib.Tactic.Linarith
import Mathlib.Tactic.Ring

/-!
# Metered runs

An action takes from `start a` to `stop a` and gives `given s a`, which may be negative, out of a
`level` that is at most `cap` and rises at most at the rate `r`.

* `InOrder`        the actions come one after the other;
* `givenDuring`    what the actions of a run that overlap an interval give;
* `Metered.during_le`   in no interval more than `cap` and what the level can rise in it.

The level at a time may count what has not been added yet, so that a system that catches up lazily
is metered all the same.
-/

set_option linter.unusedSectionVars false

namespace Lib

section
variable {S A K : Type} [CommRing K] [LinearOrder K] [IsStrictOrderedRing K]

/-- the actions follow each other, the first one not before `t` -/
def InOrder (start stop : A → K) : K → List A → Prop
  | _, [] => True
  | t, a :: as => t ≤ start a ∧ start a ≤ stop a ∧ InOrder start stop (stop a) as

instance decidableInOrder {start stop : A → K} [∀ x y : K, Decidable (x ≤ y)] :
    ∀ (t : K) (as : List A), Decidable (InOrder start stop t as)
  | _, [] => .isTrue trivial
  | t, a :: as =>
    have : Decidable (InOrder start stop (stop a) as) := decidableInOrder (stop a) as
    inferInstanceAs (Decidable (t ≤ start a ∧ start a ≤ stop a ∧ InOrder start stop (stop a) as))

/-- what the actions that overlap the interval from `lo` to `hi` give -/
def givenDuring (step : S → A → S) (start stop : A → K) (given : S → A → K) (lo hi : K) :
    S → List A → K
  | _, [] => 0
  | s, a :: as =>
    (if start a ≤ hi ∧ lo ≤ stop a then given s a else 0) +
      givenDuring step start stop given lo hi (step s a) as

theorem InOrder.of_append {start stop : A → K} {t : K} {pre post : List A}
    (h : InOrder start stop t (pre ++ post)) : InOrder start stop t pre := by
  induction pre generalizing t with
  | nil => trivial
  | cons a pre ih =>
    obtain ⟨hstart, hstop, hrest⟩ := h
    exact ⟨hstart, hstop, ih hrest⟩

/-- `Inv s t` says that `s` is a state the system can be in at the time `t` -/
structure Metered (step : S → A → S) (start stop : A → K) (given : S → A → K) (level : S → K → K)
    (Inv : S → K → Prop) (cap r : K) : Prop where
  rate_nonneg : 0 ≤ r
  waits : ∀ s t t', Inv s t → t ≤ t' → Inv s t'
  keeps : ∀ s a, Inv s (start a) → start a ≤ stop a → Inv (step s a) (stop a)
  nonneg : ∀ s t, Inv s t → 0 ≤ level s t
  capped : ∀ s t, Inv s t → level s t ≤ cap
  rises : ∀ s t t', Inv s t → t ≤ t' → level s t' ≤ level s t + r * (t' - t)
  pays : ∀ s a, Inv s (start a) → start a ≤ stop a →
    given s a + level (step s a) (stop a) ≤ level s (start a)

variable {step : S → A → S} {start stop : A → K} {given : S → A → K} {level : S → K → K}
  {Inv : S → K → Prop} {cap r : K}

/-- the invariant holds after every run, at every time from its end on -/
theorem Metered.invariant (h : Metered step start stop given level Inv cap r) {s : S} {t : K}
    {as : List A} (hs : Inv s t) (hin : InOrder start stop t as) :
    ∃ t', t ≤ t' ∧ Inv (run step s as) t' := by
  induction as generalizing s t with
  | nil => exact ⟨t, le_refl t, hs⟩
  | cons a as ih =>
    obtain ⟨hstart, hstop, hrest⟩ := hin
    obtain ⟨t', ht', hinv⟩ := ih (h.keeps s a (h.waits s t _ hs hstart) hstop) hrest
    exact ⟨t', le_trans (le_trans hstart hstop) ht', hinv⟩

/-- and it holds when an action of the run starts -/
theorem Metered.before (h : Metered step start stop given level Inv cap r) {s : S} {t : K}
    {pre post : List A} {a : A} (hs : Inv s t) (hin : InOrder start stop t (pre ++ a :: post)) :
    ∃ t', t' ≤ start a ∧ Inv (run step s pre) t' := by
  induction pre generalizing s t with
  | nil => exact ⟨t, hin.1, hs⟩
  | cons b pre ih =>
    obtain ⟨hstart, hstop, hrest⟩ := hin
    exact ih (h.keeps s b (h.waits s t _ hs hstart) hstop) hrest

/-- what starts after the interval is not counted -/
theorem givenDuring_after {lo hi t : K} {s : S} {as : List A} (hin : InOrder start stop t as)
    (ht : hi < t) : givenDuring step start stop given lo hi s as = 0 := by
  induction as generalizing s t with
  | nil => rfl
  | cons a as ih =>
    obtain ⟨hstart, hstop, hrest⟩ := hin
    have hlate : hi < start a := lt_of_lt_of_le ht hstart
    unfold givenDuring
    rw [if_neg fun h => absurd h.1 (not_le.mpr hlate), zero_add]
    exact ih hrest (lt_of_lt_of_le hlate hstop)

/-- what follows an action that overlaps the interval comes out of the level the action leaves -/
theorem Metered.rest_le (h : Metered step start stop given level Inv cap r) {lo hi : K} {s : S}
    {a : A} {as : List A} (hs : Inv s (start a)) (hstop : start a ≤ stop a)
    (hrest : InOrder start stop (stop a) as)
    (hend : stop a ≤ hi → givenDuring step start stop given lo hi (step s a) as ≤
      level (step s a) (stop a) + r * (hi - stop a)) :
    given s a + givenDuring step start stop given lo hi (step s a) as ≤
      level s (start a) + r * (hi - min (stop a) hi) := by
  have hafter := h.keeps s a hs hstop
  have hpays := h.pays s a hs hstop
  by_cases hle : stop a ≤ hi
  · have hbound := hend hle
    rw [min_eq_left hle]
    linarith
  · have hnonneg := h.nonneg _ _ hafter
    rw [givenDuring_after hrest (not_le.mp hle), min_eq_right (le_of_not_ge hle), sub_self,
      mul_zero]
    linarith

/-- from inside the interval, at most the level and what it can rise until the end -/
theorem Metered.inside_le (h : Metered step start stop given level Inv cap r) {lo hi t : K} {s : S}
    {as : List A} (hs : Inv s t) (hin : InOrder start stop t as) (hlo : lo ≤ t) (hhi : t ≤ hi) :
    givenDuring step start stop given lo hi s as ≤ level s t + r * (hi - t) := by
  induction as generalizing s t with
  | nil => exact add_nonneg (h.nonneg s t hs) (mul_nonneg h.rate_nonneg (sub_nonneg.mpr hhi))
  | cons a as ih =>
    obtain ⟨hstart, hstop, hrest⟩ := hin
    have hbefore := h.waits s t _ hs hstart
    unfold givenDuring
    by_cases hle : start a ≤ hi
    · have hrises := h.rises s t _ hs hstart
      have hgiven := h.rest_le hbefore hstop hrest fun hend : stop a ≤ hi =>
        ih (h.keeps s a hbefore hstop) hrest (le_trans hlo (le_trans hstart hstop)) hend
      have hspan : start a ≤ min (stop a) hi := le_min hstop hle
      have hrate : r * (hi - min (stop a) hi) ≤ r * (hi - start a) :=
        mul_le_mul_of_nonneg_left (sub_le_sub_left hspan hi) h.rate_nonneg
      have hsum : r * (hi - t) = r * (start a - t) + r * (hi - start a) := by ring
      rw [if_pos ⟨hle, le_trans hlo (le_trans hstart hstop)⟩]
      linarith
    · have hlate : hi < stop a := lt_of_lt_of_le (not_le.mp hle) hstop
      rw [if_neg fun hc => hle hc.1, zero_add, givenDuring_after hrest hlate]
      exact add_nonneg (h.nonneg s t hs) (mul_nonneg h.rate_nonneg (sub_nonneg.mpr hhi))

/-- **in no interval is more given than the cap and what the level can rise in it** -/
theorem Metered.during_le (h : Metered step start stop given level Inv cap r) {lo hi t : K} {s : S}
    {as : List A} (hs : Inv s t) (hin : InOrder start stop t as) (hlohi : lo ≤ hi) :
    givenDuring step start stop given lo hi s as ≤ cap + r * (hi - lo) := by
  have hcap : 0 ≤ cap := le_trans (h.nonneg s t hs) (h.capped s t hs)
  have hspan : 0 ≤ r * (hi - lo) := mul_nonneg h.rate_nonneg (sub_nonneg.mpr hlohi)
  induction as generalizing s t with
  | nil => exact add_nonneg hcap hspan
  | cons a as ih =>
    obtain ⟨hstart, hstop, hrest⟩ := hin
    have hbefore := h.waits s t _ hs hstart
    have hafter := h.keeps s a hbefore hstop
    unfold givenDuring
    by_cases hover : start a ≤ hi ∧ lo ≤ stop a
    · -- the first action that overlaps finds at most the cap
      have hgiven := h.rest_le hbefore hstop hrest fun hend : stop a ≤ hi =>
        h.inside_le hafter hrest hover.2 hend
      have hcapped := h.capped s _ hbefore
      have hrate : r * (hi - min (stop a) hi) ≤ r * (hi - lo) :=
        mul_le_mul_of_nonneg_left (sub_le_sub_left (le_min hover.2 hlohi) hi) h.rate_nonneg
      rw [if_pos hover]
      linarith
    · rw [if_neg hover, zero_add]
      exact ih hafter hrest

end
end Lib
