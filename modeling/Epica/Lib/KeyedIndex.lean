import Mathlib.Logic.Function.Basic

/-!
# An index of a keyed store

A store gives every id it holds a key (`keyAt`), an index gives some keys an id (`lookup`).  The
index is `Sound` for the store when what it finds is held under that key, and every key that is
held is found.

* `Sound.insert`         an insertion into both keeps soundness;
* `sound_remove_iff`     a removal from the store alone keeps it when nothing found is removed;
* `sound_replace_iff`    another store under the same index.

It is `Exact` when moreover no key is held twice: it then finds an id under a key exactly where the
store holds it.
-/

set_option linter.unusedSectionVars false

namespace Lib
variable {I K : Type}

structure SoundIndex (lookup : K → Option I) (keyAt : I → Option K) : Prop where
  found : ∀ k i, lookup k = some i → keyAt i = some k
  indexed : ∀ i k, keyAt i = some k → (lookup k).isSome

variable {lookup : K → Option I} {keyAt keyAt' : I → Option K}

/-- a new id under any key, also one that is taken: the index then finds the new id -/
theorem SoundIndex.insert [DecidableEq I] [DecidableEq K] (h : SoundIndex lookup keyAt) {i : I}
    (hi : keyAt i = none) (k : K) :
    SoundIndex (Function.update lookup k (some i)) (Function.update keyAt i (some k)) where
  found k' j hj := by
    by_cases hk : k' = k
    · subst hk
      rw [Function.update_self] at hj
      rw [← Option.some.inj hj, Function.update_self]
    · rw [Function.update_of_ne hk] at hj
      have hjk : keyAt j = some k' := h.found k' j hj
      have hne : j ≠ i := by
        rintro rfl
        rw [hi] at hjk
        cases hjk
      rw [Function.update_of_ne hne]
      exact hjk
  indexed j k' hj := by
    by_cases hk : k' = k
    · rw [hk, Function.update_self]
      rfl
    · have hne : j ≠ i := by
        rintro rfl
        rw [Function.update_self] at hj
        exact hk (Option.some.inj hj).symm
      rw [Function.update_of_ne hne] at hj
      rw [Function.update_of_ne hk]
      exact h.indexed j k' hj

/-- **removing ids from the store alone**: harmful exactly when the index finds one of them -/
theorem sound_remove_iff (h : SoundIndex lookup keyAt) (R : I → Prop) [DecidablePred R] :
    SoundIndex lookup (fun i => if R i then none else keyAt i) ↔
      ∀ i k, R i → keyAt i = some k → lookup k ≠ some i := by
  constructor
  · intro h' i k hR _ hl
    have hkey := h'.found k i hl
    rw [if_pos hR] at hkey
    cases hkey
  · intro hR
    refine ⟨fun k i hl => ?_, fun i k hkey => ?_⟩
    · have hkey : keyAt i = some k := h.found k i hl
      rw [if_neg fun hi => hR i k hi hkey hl]
      exact hkey
    · split at hkey
      · cases hkey
      · exact h.indexed i k hkey

/-- **another store under the same index**: what is found must be held there too, under its key,
and every key held there must be held here -/
theorem sound_replace_iff (h : SoundIndex lookup keyAt) :
    SoundIndex lookup keyAt' ↔
      (∀ i k, keyAt i = some k → lookup k = some i → keyAt' i = some k) ∧
        ∀ i k, keyAt' i = some k → ∃ j, keyAt j = some k := by
  constructor
  · intro h'
    refine ⟨fun i k _ hl => h'.found k i hl, fun i k hkey => ?_⟩
    obtain ⟨j, hj⟩ := Option.isSome_iff_exists.mp (h'.indexed i k hkey)
    exact ⟨j, h.found k j hj⟩
  · intro hp
    obtain ⟨hkept, hknown⟩ := hp
    refine ⟨fun k i hl => hkept i k (h.found k i hl) hl, fun i k hkey => ?_⟩
    obtain ⟨j, hj⟩ := hknown i k hkey
    exact h.indexed j k hj

/-! ## exact indices -/

def ExactIndex (lookup : K → Option I) (keyAt : I → Option K) : Prop :=
  ∀ k i, lookup k = some i ↔ keyAt i = some k

/-- a sound index of a store that holds every key once -/
theorem SoundIndex.exact (h : SoundIndex lookup keyAt)
    (hunique : ∀ i j k, keyAt i = some k → keyAt j = some k → i = j) : ExactIndex lookup keyAt := by
  intro k i
  constructor
  · exact h.found k i
  · intro hi
    obtain ⟨j, hj⟩ := Option.isSome_iff_exists.mp (h.indexed i k hi)
    rw [hj, hunique i j k hi (h.found k j hj)]

theorem ExactIndex.sound (h : ExactIndex lookup keyAt) : SoundIndex lookup keyAt where
  found k i hk := (h k i).mp hk
  indexed i k hi := by
    rw [(h k i).mpr hi]
    rfl

theorem ExactIndex.unique (h : ExactIndex lookup keyAt) {i j : I} {k : K}
    (hi : keyAt i = some k) (hj : keyAt j = some k) : i = j :=
  Option.some.inj (((h k i).mpr hi).symm.trans ((h k j).mpr hj))

/-- a new id under a key that is not held -/
theorem ExactIndex.insert [DecidableEq I] [DecidableEq K] (h : ExactIndex lookup keyAt) {i : I}
    (hi : keyAt i = none) {k : K} (hk : lookup k = none) :
    ExactIndex (Function.update lookup k (some i)) (Function.update keyAt i (some k)) := by
  refine (h.sound.insert hi k).exact fun a b k' ha hb => ?_
  have hold : ∀ c, Function.update keyAt i (some k) c = some k' →
      (c = i ∧ k = k') ∨ (c ≠ i ∧ keyAt c = some k') := by
    intro c hc
    by_cases hci : c = i
    · rw [hci, Function.update_self] at hc
      exact .inl ⟨hci, Option.some.inj hc⟩
    · rw [Function.update_of_ne hci] at hc
      exact .inr ⟨hci, hc⟩
  have hfree : ∀ c, keyAt c ≠ some k := by
    intro c hc
    rw [(h k c).mpr hc] at hk
    cases hk
  rcases hold a ha with ⟨rfl, rfl⟩ | ⟨-, ha⟩
  · rcases hold b hb with ⟨rfl, -⟩ | ⟨-, hb⟩
    · rfl
    · exact absurd hb (hfree b)
  · rcases hold b hb with ⟨-, rfl⟩ | ⟨-, hb⟩
    · exact absurd ha (hfree a)
    · exact h.unique ha hb

/-- an id and its key, out of both -/
theorem ExactIndex.remove [DecidableEq I] [DecidableEq K] (h : ExactIndex lookup keyAt) {i : I}
    {k : K} (hk : lookup k = some i) :
    ExactIndex (Function.update lookup k none) (Function.update keyAt i none) := by
  have hi : keyAt i = some k := (h k i).mp hk
  intro k' j
  by_cases hkk : k' = k
  · subst hkk
    rw [Function.update_self]
    constructor
    · intro hj
      cases hj
    · intro hj
      by_cases hji : j = i
      · rw [hji, Function.update_self] at hj
        cases hj
      · rw [Function.update_of_ne hji] at hj
        exact absurd (h.unique hj hi) hji
  · rw [Function.update_of_ne hkk]
    by_cases hji : j = i
    · subst hji
      rw [Function.update_self, h k' j, hi]
      constructor
      · exact fun hj => absurd (Option.some.inj hj).symm hkk
      · intro hj
        cases hj
    · rw [Function.update_of_ne hji]
      exact h k' j

end Lib
