import Epica.Lib.HashTree
import Mathlib.Logic.Relation

/-!
# Inclusion paths and the roots of other trees

A path of one tree is climbed from any position, towards the root of another tree.

* `below_climb`      what a path leads to is above all other elements of the path's level;
* `leaf_mem`         a leaf below the root of a tree is one of the tree's leaves;
* `subset_of_climb`  so a path that leads to the root of another tree takes all leaves there.
-/

set_option linter.unusedSectionVars false

namespace Lib

section
variable {D : Type} (node : D → D → D)

/-- the pairs that a climb combines -/
def climbPairs : Climb D → List D → List (D × D)
  | _, [] => []
  | s, sib :: path => climbPair s sib :: climbPairs (climbStep node s sib) path

/-- `x` is combined into `y` by a pair of `pairs` -/
def Child (pairs : Set (D × D)) (x y : D) : Prop :=
  ∃ p ∈ pairs, y = node p.1 p.2 ∧ (x = p.1 ∨ x = p.2)

/-- and repeatedly -/
def Below (pairs : Set (D × D)) : D → D → Prop := Relation.ReflTransGen (Child node pairs)

variable {node} {leaves : Set D} {pairs : Set (D × D)}

theorem child_climbStep {s : Climb D} {sib : D} (hp : climbPair s sib ∈ pairs) :
    Child node pairs s.hash (climbStep node s sib).hash ∧
      Child node pairs sib (climbStep node s sib).hash := by
  have hends : (s.hash = (climbPair s sib).1 ∧ sib = (climbPair s sib).2) ∨
      (sib = (climbPair s sib).1 ∧ s.hash = (climbPair s sib).2) := by
    unfold climbPair
    by_cases h : s.path % 2 = 0
    · rw [if_pos h]
      exact .inl ⟨rfl, rfl⟩
    · rw [if_neg h]
      exact .inr ⟨rfl, rfl⟩
  rcases hends with ⟨h₁, h₂⟩ | ⟨h₁, h₂⟩
  · exact ⟨⟨_, hp, climbStep_hash node s sib, .inl h₁⟩, ⟨_, hp, climbStep_hash node s sib, .inr h₂⟩⟩
  · exact ⟨⟨_, hp, climbStep_hash node s sib, .inr h₂⟩, ⟨_, hp, climbStep_hash node s sib, .inl h₁⟩⟩

/-- an element is a child of the one above it -/
theorem child_pairUp {l : List D} (hp : ∀ p ∈ neighbours l, p ∈ pairs) {i : Nat} {x : D}
    (hx : l[i]? = some x) :
    ∃ y, (pairUp node l)[i / 2]? = some y ∧ Child node pairs x y := by
  have hi : i < l.length := (List.getElem?_eq_some_iff.mp hx).1
  have hpair := getElem?_neighbours l (i / 2)
  have hfirst : 2 * (i / 2) < l.length := by omega
  rw [List.getElem?_eq_getElem hfirst] at hpair
  have hup : (pairUp node l)[i / 2]? = _ := List.getElem?_map
  rw [hpair] at hup
  refine ⟨_, hup, _, hp _ (List.mem_of_getElem? hpair), rfl, ?_⟩
  by_cases heven : i % 2 = 0
  · have hpos : 2 * (i / 2) = i := by omega
    refine .inl (Option.some.inj ?_)
    rw [← hx, ← List.getElem?_eq_getElem hfirst, hpos]
  · have hpos : 2 * (i / 2) + 1 = i := by omega
    refine .inr ?_
    show x = (l[2 * (i / 2) + 1]?).getD _
    rw [hpos, hx]
    rfl

/-- the sibling of a position is the other element of its pair -/
theorem siblingIndex_eq {len p i : Nat} (hi : i < len) (hne : i ≠ p) (hsame : i / 2 = p / 2) :
    siblingIndex len p = i := by
  unfold siblingIndex
  by_cases heven : p % 2 = 0
  · rw [if_pos heven, if_pos (by omega)]
    omega
  · rw [if_neg heven]
    omega

/-- **what a path leads to is above the rest of its level**, wherever the climb starts -/
theorem below_climb [Inhabited D] (n : Nat) {l : List D} {p : Nat} (s : Climb D)
    (hn : l.length ≤ n) (hlt : p < l.length) (hpairs : ∀ q ∈ treePairs node n l, q ∈ pairs)
    (hclimb : ∀ q ∈ climbPairs node s (inclusionPath node n l p), q ∈ pairs) :
    let last := (inclusionPath node n l p).foldl (climbStep node) s
    Below node pairs s.hash last.hash ∧
      ∀ i x, l[i]? = some x → i ≠ p → Below node pairs x last.hash := by
  induction n generalizing l p s with
  | zero => omega
  | succ n ih =>
    by_cases hl : 1 < l.length
    · have hlen := length_pairUp node l
      rw [treePairs_succ, if_pos hl] at hpairs
      rw [inclusionPath_long node n p hl] at hclimb ⊢
      obtain ⟨hself, hsib⟩ := child_climbStep (hclimb _ List.mem_cons_self)
      obtain ⟨hown, hrest⟩ := ih (climbStep node s _) (by omega) (by omega)
        (fun q hq => hpairs q (List.mem_append_right _ hq))
        (fun q hq => hclimb q (List.mem_cons_of_mem _ hq))
      refine ⟨.head hself hown, fun i x hx hne => ?_⟩
      have hi := (List.getElem?_eq_some_iff.mp hx).1
      by_cases hsame : i / 2 = p / 2
      · -- the sibling itself
        have hx' : l.getD (siblingIndex l.length p) default = x := by
          rw [siblingIndex_eq hi hne hsame, List.getD_eq_getElem?_getD, hx]
          rfl
        rw [hx'] at hsib hown ⊢
        exact .head hsib hown
      · obtain ⟨y, hy, hchild⟩ :=
          child_pairUp (fun q hq => hpairs q (List.mem_append_left _ hq)) hx
        exact .head hchild (hrest (i / 2) y hy hsame)
    · rw [inclusionPath_short node (n + 1) p hl]
      refine ⟨.refl, fun i x hx hne => ?_⟩
      have hi := (List.getElem?_eq_some_iff.mp hx).1
      omega

/-- nothing is below a leaf but itself -/
theorem Below.eq_of_leaf (hu : Unambiguous node leaves pairs) {x y : D}
    (h : Below node pairs x y) (hy : y ∈ leaves) : x = y := by
  rcases Relation.ReflTransGen.cases_tail h with rfl | ⟨z, -, p, hp, rfl, -⟩
  · rfl
  · exact absurd rfl (hu.leaf_ne _ hy p hp)

/-- what is below an element and is a leaf is below the level under it -/
theorem Below.of_pairUp (hu : Unambiguous node leaves pairs) {l : List D}
    (hp : ∀ p ∈ neighbours l, p ∈ pairs) {x y : D} (hx : x ∈ leaves) (hy : y ∈ pairUp node l)
    (h : Below node pairs x y) : ∃ z ∈ l, Below node pairs x z := by
  obtain ⟨p, hmem, rfl⟩ := List.mem_map.mp hy
  obtain ⟨h₁, h₂⟩ := mem_of_mem_neighbours hmem
  rcases Relation.ReflTransGen.cases_tail h with heq | ⟨z, hz, q, hq, heq, hends⟩
  · exact absurd heq.symm (hu.leaf_ne x hx p (hp p hmem))
  · obtain rfl : p = q := hu.inj (hp p hmem) hq heq
    rcases hends with rfl | rfl
    · exact ⟨_, h₁, hz⟩
    · exact ⟨_, h₂, hz⟩

/-- **a leaf below the root is a leaf of the tree** -/
theorem leaf_mem (hu : Unambiguous node leaves pairs) (n : Nat) {l : List D}
    (hl : ∀ x ∈ l, x ∈ leaves) (hp : ∀ p ∈ treePairs node n l, p ∈ pairs) {x y : D}
    (hx : x ∈ leaves) (hy : y ∈ reduce node n l) (h : Below node pairs x y) : x ∈ l := by
  have hbelow : ∃ z ∈ l, Below node pairs x z := by
    clear hl
    induction n generalizing l with
    | zero => exact ⟨y, hy, h⟩
    | succ n ih =>
      rw [reduce_succ] at hy
      rw [treePairs_succ] at hp
      by_cases hlong : 1 < l.length
      · rw [if_pos hlong] at hy hp
        obtain ⟨z, hz, hz'⟩ := ih (fun p hm => hp p (List.mem_append_right _ hm)) hy
        exact hz'.of_pairUp hu (fun p hm => hp p (List.mem_append_left _ hm)) hx hz
      · rw [if_neg hlong] at hy
        exact ⟨y, hy, h⟩
  obtain ⟨z, hz, hz'⟩ := hbelow
  rw [hz'.eq_of_leaf hu (hl z hz)]
  exact hz

/-- **a path that leads to the root of another tree takes all leaves there**, at whatever position
it is climbed -/
theorem subset_of_climb [Inhabited D] (hu : Unambiguous node leaves pairs) (n k : Nat)
    {l m : List D} {p : Nat} (s : Climb D) (hn : l.length ≤ n) (hl : ∀ x ∈ l, x ∈ leaves)
    (hm : ∀ x ∈ m, x ∈ leaves) (hpl : ∀ q ∈ treePairs node n l, q ∈ pairs)
    (hpm : ∀ q ∈ treePairs node k m, q ∈ pairs)
    (hpc : ∀ q ∈ climbPairs node s (inclusionPath node n l p), q ∈ pairs)
    (hs : l[p]? = some s.hash)
    (h : ((inclusionPath node n l p).foldl (climbStep node) s).hash ∈ reduce node k m) :
    l ⊆ m := by
  obtain ⟨hown, hrest⟩ := below_climb n s hn (List.getElem?_eq_some_iff.mp hs).1 hpl hpc
  intro x hx
  obtain ⟨i, hi⟩ := List.mem_iff_getElem?.mp hx
  have hbelow : Below node pairs x ((inclusionPath node n l p).foldl (climbStep node) s).hash := by
    by_cases hip : i = p
    · subst hip
      obtain rfl := Option.some.inj (hs.symm.trans hi)
      exact hown
    · exact hrest i x hi hip
  exact leaf_mem hu k hm hpm (hl x hx) h hbelow

end
end Lib
