import Epica.Lib.HashPath
import Mathlib.Data.Nat.Log

/-!
# The paths that lead to the root are the inclusion paths

A climb may take any siblings, from any element at any position.

* `length_inclusionPath`   an inclusion path is as long as the tree is high;
* `climb_sound`            a climb from a leaf that ends in the root started from the leaf at its
                           position, and took the inclusion path of that position.

The tree is compared with the climb from the root downwards: what is combined into the root is
known, so the last sibling is, and so on.
-/

set_option linter.unusedSectionVars false

namespace Lib

section
variable {D : Type} {node : D → D → D} {leaves : Set D} {pairs : Set (D × D)}

/-- **an inclusion path has one sibling for each level** -/
theorem length_inclusionPath [Inhabited D] (n : Nat) (l : List D) (path : Nat)
    (hn : l.length ≤ n) : (inclusionPath node n l path).length = Nat.clog 2 l.length := by
  induction n generalizing l path with
  | zero =>
    rw [Nat.le_zero.mp hn, Nat.clog_zero_right]
    rfl
  | succ n ih =>
    by_cases hl : 1 < l.length
    · have hlen := length_pairUp node l
      rw [inclusionPath_long node n path hl, List.length_cons,
        ih (pairUp node l) (path / 2) (by omega), hlen, Nat.clog_of_one_lt (by omega) hl]
      rfl
    · rw [inclusionPath_short node (n + 1) path hl, Nat.clog_of_right_le_one (by omega)]
      rfl

/-- what a climb starts from is as much lower than its end as it takes siblings -/
theorem height_of_climb (hu : Unambiguous node leaves pairs) (s : Climb D) (proof : List D)
    {m : Nat} (hp : ∀ q ∈ climbPairs node s proof, q ∈ pairs)
    (h : Height node leaves pairs m (proof.foldl (climbStep node) s).hash) :
    ∃ k, m = k + proof.length ∧ Height node leaves pairs k s.hash := by
  induction proof generalizing s with
  | nil => exact ⟨m, rfl, h⟩
  | cons sib proof ih =>
    obtain ⟨k, hm, hk⟩ := ih (climbStep node s sib)
      (fun q hq => hp q (List.mem_cons_of_mem _ hq)) h
    have hpair : climbPair s sib ∈ pairs := hp _ List.mem_cons_self
    rw [climbStep_hash] at hk
    generalize hy : node (climbPair s sib).1 (climbPair s sib).2 = y at hk
    cases hk with
    | leaf hx => exact absurd hy.symm (hu.leaf_ne _ hx _ hpair)
    | @node k q hq h₁ h₂ =>
      obtain rfl : climbPair s sib = q := hu.inj hpair hq hy
      refine ⟨k, by rw [hm, List.length_cons]; omega, ?_⟩
      unfold climbPair at h₁ h₂
      by_cases heven : s.path % 2 = 0
      · rw [if_pos heven] at h₁
        exact h₁
      · rw [if_neg heven] at h₂
        exact h₂

theorem climbPair_inj {s t : Climb D} {x y : D} (h : climbPair s x = climbPair t y)
    (hpath : s.path = t.path) : s.hash = t.hash ∧ x = y := by
  unfold climbPair at h
  rw [hpath] at h
  by_cases heven : t.path % 2 = 0
  · rw [if_pos heven, if_pos heven] at h
    exact Prod.mk.inj h
  · rw [if_neg heven, if_neg heven] at h
    exact (Prod.mk.inj h).symm

/-- the pair that leads to the element above a position is the position and its sibling -/
theorem climbPair_pairUp [Inhabited D] (hu : Unambiguous node leaves pairs) {l : List D}
    (hp : ∀ q ∈ neighbours l, q ∈ pairs) {s : Climb D} {sib : D} (hlt : s.path < l.length)
    (hpair : climbPair s sib ∈ pairs)
    (h : (pairUp node l)[s.path / 2]? = some (climbStep node s sib).hash) :
    l[s.path]? = some s.hash ∧ sib = l.getD (siblingIndex l.length s.path) default := by
  have hnext := getElem?_neighbours_half hlt
  have hup : (pairUp node l)[s.path / 2]? = _ := List.getElem?_map
  rw [hup, hnext, climbStep_hash] at h
  have hsame := hu.inj (hp _ (List.mem_of_getElem? hnext)) hpair (Option.some.inj h)
  obtain ⟨hself, hsib⟩ := climbPair_inj hsame rfl
  exact ⟨(getElem?_of_lt hlt).trans (congrArg some hself), hsib.symm⟩

/-- **a climb that ends in the root started at its position, and took that position's path** -/
theorem climb_sound [Inhabited D] (hu : Unambiguous node leaves pairs) (n : Nat) {k : Nat}
    {l : List D} (s : Climb D) (proof : List D) (hn : l.length ≤ n) (hlt : s.path < l.length)
    (hl : ∀ x ∈ l, Height node leaves pairs k x) (hs : Height node leaves pairs k s.hash)
    (hpl : ∀ q ∈ treePairs node n l, q ∈ pairs) (hpc : ∀ q ∈ climbPairs node s proof, q ∈ pairs)
    (h : (proof.foldl (climbStep node) s).hash ∈ reduce node n l) :
    l[s.path]? = some s.hash ∧ proof = inclusionPath node n l s.path := by
  induction n generalizing k l s proof with
  | zero => omega
  | succ n ih =>
    rw [treePairs_succ] at hpl
    rw [reduce_succ] at h
    by_cases hlong : 1 < l.length
    · rw [if_pos hlong] at hpl h
      have hin : ∀ q ∈ neighbours l, q ∈ pairs := fun q hq => hpl q (List.mem_append_left _ hq)
      have htree : ∀ q ∈ treePairs node n (pairUp node l), q ∈ pairs :=
        fun q hq => hpl q (List.mem_append_right _ hq)
      have hup := height_pairUp hl hin
      obtain ⟨m, hm, hroot⟩ := height_reduce n hup htree _ h
      obtain ⟨j, hj, hj'⟩ := height_of_climb hu s proof hpc hroot
      have hkj : k = j := hs.unique hu hj' rfl
      cases proof with
      | nil =>
        rw [List.length_nil] at hj
        omega
      | cons sib proof =>
        have hpair : climbPair s sib ∈ pairs := hpc _ List.mem_cons_self
        have hrest := fun q hq => hpc q (List.mem_cons_of_mem _ hq)
        -- one step up, the climb is as high as its level
        obtain ⟨i, hi, hi'⟩ := height_of_climb hu (climbStep node s sib) proof hrest hroot
        rw [List.length_cons] at hj
        obtain rfl : i = k + 1 := by omega
        have hlen := length_pairUp node l
        have hhalf : s.path / 2 < (pairUp node l).length := by omega
        obtain ⟨hget, hproof⟩ :=
          ih (climbStep node s sib) proof (by omega) hhalf hup hi' htree hrest h
        obtain ⟨hself, hsib⟩ := climbPair_pairUp hu hin hlt hpair hget
        rw [inclusionPath_long node n s.path hlong, ← hsib]
        exact ⟨hself, congrArg (sib :: ·) hproof⟩
    · rw [if_neg hlong] at h
      obtain ⟨j, hj, hj'⟩ := height_of_climb hu s proof hpc (hl _ h)
      have hkj : k = j := hs.unique hu hj' rfl
      obtain rfl : proof = [] := List.length_eq_zero_iff.mp (by omega)
      obtain ⟨x, hx⟩ := List.length_eq_one_iff.mp (show l.length = 1 by omega)
      have hzero : s.path = 0 := by omega
      subst hx
      have hself : s.hash = x := List.mem_singleton.mp h
      rw [inclusionPath_short node (n + 1) s.path hlong, hzero, hself]
      exact ⟨rfl, rfl⟩

end
end Lib
