import Mathlib.Data.List.Nodup
import Mathlib.Data.Set.Function

/-!
# Binary hash trees in which an odd node is doubled

A level is a list; `pairUp` combines its neighbours, and a last element without a neighbour with
itself.  `reduce` repeats this until one element is left, the root.

* `climb_inclusionPath`   the siblings of a position lead from its element to the root;
* `reduce_injective`      the root determines its leaves, if no leaf occurs twice: doubling makes
                          a tree ambiguous only where the doubled element is also a neighbour.

`node` is injective on the pairs it is applied to, and no leaf is one of its values; what these
pairs are is `treePairs`.
-/

set_option linter.unusedSectionVars false

namespace Lib

section
variable {D : Type} (node : D → D → D)

/-! ## levels -/

/-- the pairs of a level, from the left -/
def neighbours : List D → List (D × D)
  | [] => []
  | [a] => [(a, a)]
  | a :: b :: l => (a, b) :: neighbours l

def pairUp (l : List D) : List D := (neighbours l).map fun p => node p.1 p.2

/-- at most `n` levels up -/
def reduce : Nat → List D → List D
  | 0, l => l
  | n + 1, l => if 1 < l.length then reduce n (pairUp node l) else l

theorem reduce_succ (n : Nat) (l : List D) :
    reduce node (n + 1) l = if 1 < l.length then reduce node n (pairUp node l) else l := rfl

theorem length_neighbours (l : List D) : (neighbours l).length = (l.length + 1) / 2 := by
  induction l using neighbours.induct with
  | case1 => simp [neighbours]
  | case2 a => simp [neighbours]
  | case3 a b l ih =>
    show (neighbours l).length + 1 = (l.length + 1 + 1 + 1) / 2
    omega

theorem length_pairUp (l : List D) : (pairUp node l).length = (l.length + 1) / 2 := by
  unfold pairUp
  rw [List.length_map, length_neighbours]

/-- as many levels as elements are enough -/
theorem length_reduce (n : Nat) (l : List D) (hn : l.length ≤ n) (hl : l ≠ []) :
    (reduce node n l).length = 1 := by
  have hpos : 0 < l.length := List.length_pos_of_ne_nil hl
  induction n generalizing l with
  | zero => omega
  | succ n ih =>
    rw [reduce_succ]
    by_cases h : 1 < l.length
    · have hlen := length_pairUp node l
      have hpos' : 0 < (pairUp node l).length := by omega
      rw [if_pos h]
      exact ih (pairUp node l) (by omega) (List.ne_nil_of_length_pos hpos') hpos'
    · rw [if_neg h]
      omega

theorem getElem?_neighbours (l : List D) (i : Nat) :
    (neighbours l)[i]? = (l[2 * i]?).map fun a => (a, (l[2 * i + 1]?).getD a) := by
  induction l using neighbours.induct generalizing i with
  | case1 => rfl
  | case2 a =>
    cases i with
    | zero => rfl
    | succ i => rfl
  | case3 a b l ih =>
    cases i with
    | zero => rfl
    | succ i =>
      have e₁ : 2 * (i + 1) = 2 * i + 1 + 1 := by omega
      show (neighbours l)[i]? = ((a :: b :: l)[2 * (i + 1)]?).map _
      rw [e₁, List.getElem?_cons_succ, List.getElem?_cons_succ, List.getElem?_cons_succ,
        List.getElem?_cons_succ]
      exact ih i

/-! ## inclusion paths -/

/-- the neighbour of a position, itself for an odd last one -/
def siblingIndex (len path : Nat) : Nat :=
  if path % 2 = 0 then
    if path + 1 < len then path + 1 else path
  else path - 1

/-- the siblings on the way up from a position -/
def inclusionPath [Inhabited D] : Nat → List D → Nat → List D
  | 0, _, _ => []
  | n + 1, l, path =>
    if 1 < l.length then
      l.getD (siblingIndex l.length path) default ::
        inclusionPath n (pairUp node l) (path / 2)
    else []

theorem inclusionPath_long [Inhabited D] (n : Nat) {l : List D} (path : Nat) (hl : 1 < l.length) :
    inclusionPath node (n + 1) l path = l.getD (siblingIndex l.length path) default ::
      inclusionPath node n (pairUp node l) (path / 2) := if_pos hl

theorem inclusionPath_short [Inhabited D] (n : Nat) {l : List D} (path : Nat)
    (hl : ¬ 1 < l.length) : inclusionPath node n l path = [] := by
  cases n with
  | zero => rfl
  | succ n => exact if_neg hl

/-- where a climb is: the hash, its position, and the size of its level -/
structure Climb (D : Type) where
  hash : D
  path : Nat
  size : Nat

/-- one level up, by the sibling -/
def climbStep (s : Climb D) (sib : D) : Climb D where
  hash := if s.path % 2 = 0 then node s.hash sib else node sib s.hash
  path := s.path / 2
  size := (s.size + 1) / 2

/-- the pair that `climbStep` combines -/
def climbPair (s : Climb D) (sib : D) : D × D :=
  if s.path % 2 = 0 then (s.hash, sib) else (sib, s.hash)

theorem climbStep_hash (s : Climb D) (sib : D) :
    (climbStep node s sib).hash = node (climbPair s sib).1 (climbPair s sib).2 := by
  unfold climbStep climbPair
  by_cases h : s.path % 2 = 0
  · rw [if_pos h, if_pos h]
  · rw [if_neg h, if_neg h]

theorem getElem?_of_lt [Inhabited D] {l : List D} {i : Nat} (hi : i < l.length) :
    l[i]? = some (l.getD i default) := by
  rw [List.getD_eq_getElem?_getD, List.getElem?_eq_getElem hi]
  rfl

/-- a position is combined with its sibling -/
theorem getElem?_neighbours_half [Inhabited D] {l : List D} {path : Nat} (h : path < l.length) :
    (neighbours l)[path / 2]? = some (climbPair ⟨l.getD path default, path, l.length⟩
      (l.getD (siblingIndex l.length path) default)) := by
  unfold climbPair siblingIndex
  rw [getElem?_neighbours]
  by_cases hp : path % 2 = 0
  · have e₀ : 2 * (path / 2) = path := by omega
    rw [e₀, getElem?_of_lt h, if_pos hp, if_pos hp]
    by_cases hs : path + 1 < l.length
    · rw [if_pos hs, getElem?_of_lt hs]
      rfl
    · -- the last element of an odd level, combined with itself
      rw [if_neg hs, List.getElem?_eq_none (by omega)]
      rfl
  · have e₀ : 2 * (path / 2) = path - 1 := by omega
    have e₁ : path - 1 + 1 = path := by omega
    have hleft : path - 1 < l.length := by omega
    rw [e₀, e₁, getElem?_of_lt h, getElem?_of_lt hleft, if_neg hp, if_neg hp]
    rfl

/-- the climb from `l[path]` is at its element after one step too -/
theorem climbStep_pairUp [Inhabited D] {l : List D} {path : Nat} (h : path < l.length) :
    climbStep node ⟨l.getD path default, path, l.length⟩
        (l.getD (siblingIndex l.length path) default) =
      ⟨(pairUp node l).getD (path / 2) default, path / 2, (pairUp node l).length⟩ := by
  have hup : (pairUp node l).getD (path / 2) default =
      (climbStep node ⟨l.getD path default, path, l.length⟩
        (l.getD (siblingIndex l.length path) default)).hash := by
    rw [List.getD_eq_getElem?_getD, climbStep_hash]
    unfold pairUp
    rw [List.getElem?_map, getElem?_neighbours_half h]
    rfl
  rw [hup, length_pairUp]
  rfl

/-- **the siblings of a position lead from its element to the root** -/
theorem climb_inclusionPath [Inhabited D] (n : Nat) (l : List D) (path : Nat) (hn : l.length ≤ n)
    (h : path < l.length) :
    (inclusionPath node n l path).foldl (climbStep node) ⟨l.getD path default, path, l.length⟩ =
      ⟨(reduce node n l).getD 0 default, 0, 1⟩ := by
  induction n generalizing l path with
  | zero => omega
  | succ n ih =>
    rw [reduce_succ]
    by_cases hl : 1 < l.length
    · have hlen := length_pairUp node l
      rw [inclusionPath_long node n path hl, if_pos hl, List.foldl_cons, climbStep_pairUp node h]
      exact ih (pairUp node l) (path / 2) (by omega) (by omega)
    · have h0 : path = 0 := by omega
      have h1 : l.length = 1 := by omega
      rw [inclusionPath_short node (n + 1) path hl, if_neg hl, h0, h1]
      rfl

/-! ## the pairs a tree is made of -/

/-- the pairs that `reduce` combines -/
def treePairs : Nat → List D → List (D × D)
  | 0, _ => []
  | n + 1, l => if 1 < l.length then neighbours l ++ treePairs n (pairUp node l) else []

theorem treePairs_succ (n : Nat) (l : List D) : treePairs node (n + 1) l =
    if 1 < l.length then neighbours l ++ treePairs node n (pairUp node l) else [] := rfl

/-- an element of the level `k` of a tree over `leaves` whose pairs are in `pairs` -/
inductive Height (leaves : Set D) (pairs : Set (D × D)) : Nat → D → Prop
  | leaf {x : D} : x ∈ leaves → Height leaves pairs 0 x
  | node {k : Nat} {p : D × D} : p ∈ pairs → Height leaves pairs k p.1 →
      Height leaves pairs k p.2 → Height leaves pairs (k + 1) (node p.1 p.2)

/-- `node` does not confuse the pairs it is applied to, nor with a leaf -/
structure Unambiguous (leaves : Set D) (pairs : Set (D × D)) : Prop where
  inj : Set.InjOn (fun p : D × D => node p.1 p.2) pairs
  leaf_ne : ∀ x ∈ leaves, ∀ p ∈ pairs, x ≠ node p.1 p.2

variable {node} {leaves : Set D} {pairs : Set (D × D)}

theorem Height.unique (hu : Unambiguous node leaves pairs) {k m : Nat} {x y : D}
    (hk : Height node leaves pairs k x) (hm : Height node leaves pairs m y) (he : x = y) :
    k = m := by
  induction hk generalizing m y with
  | leaf hx =>
    cases hm with
    | leaf hy => rfl
    | node hp => exact absurd he (hu.leaf_ne _ hx _ hp)
  | @node k p hp h₁ h₂ ih₁ ih₂ =>
    cases hm with
    | leaf hy => exact absurd he.symm (hu.leaf_ne _ hy _ hp)
    | @node m q hq h₃ h₄ =>
      obtain rfl : p = q := hu.inj hp hq he
      rw [ih₁ h₃ rfl]

/-- both ends of a pair are in the level -/
theorem mem_of_mem_neighbours {l : List D} {p : D × D} (h : p ∈ neighbours l) :
    p.1 ∈ l ∧ p.2 ∈ l := by
  induction l using neighbours.induct with
  | case1 => cases h
  | case2 a =>
    rw [List.mem_singleton.mp h]
    exact ⟨List.mem_singleton.mpr rfl, List.mem_singleton.mpr rfl⟩
  | case3 a b l ih =>
    rcases List.mem_cons.mp h with rfl | h
    · exact ⟨List.mem_cons_self, List.mem_cons_of_mem _ List.mem_cons_self⟩
    · obtain ⟨h₁, h₂⟩ := ih h
      exact ⟨List.mem_cons_of_mem _ (List.mem_cons_of_mem _ h₁),
        List.mem_cons_of_mem _ (List.mem_cons_of_mem _ h₂)⟩

/-- the level above is one higher -/
theorem height_pairUp {k : Nat} {l : List D} (hl : ∀ x ∈ l, Height node leaves pairs k x)
    (hp : ∀ p ∈ neighbours l, p ∈ pairs) :
    ∀ x ∈ pairUp node l, Height node leaves pairs (k + 1) x := by
  intro x hx
  obtain ⟨p, hm, rfl⟩ := List.mem_map.mp hx
  obtain ⟨h₁, h₂⟩ := mem_of_mem_neighbours hm
  exact .node (hp p hm) (hl p.1 h₁) (hl p.2 h₂)

theorem height_reduce (n : Nat) {k : Nat} {l : List D}
    (hl : ∀ x ∈ l, Height node leaves pairs k x) (hp : ∀ p ∈ treePairs node n l, p ∈ pairs) :
    ∀ x ∈ reduce node n l, ∃ m, k ≤ m ∧ Height node leaves pairs m x := by
  induction n generalizing k l with
  | zero => exact fun x hx => ⟨k, Nat.le_refl k, hl x hx⟩
  | succ n ih =>
    rw [reduce_succ]
    rw [treePairs_succ] at hp
    by_cases h : 1 < l.length
    · rw [if_pos h] at hp ⊢
      have hup := height_pairUp hl fun p hm => hp p (List.mem_append_left _ hm)
      intro x hx
      obtain ⟨m, hm, hx'⟩ := ih hup (fun p hm => hp p (List.mem_append_right _ hm)) x hx
      exact ⟨m, by omega, hx'⟩
    · rw [if_neg h]
      exact fun x hx => ⟨k, Nat.le_refl k, hl x hx⟩

/-! ## the root determines the leaves -/

/-- without repetitions a doubled element cannot be taken for a neighbour -/
theorem neighbours_injective {l₁ l₂ : List D} (h₁ : l₁.Nodup) (h₂ : l₂.Nodup)
    (h : neighbours l₁ = neighbours l₂) : l₁ = l₂ := by
  induction l₁ using neighbours.induct generalizing l₂ with
  | case1 =>
    cases l₂ with
    | nil => rfl
    | cons c l =>
      cases l with
      | nil => cases h
      | cons d l => cases h
  | case2 a =>
    cases l₂ with
    | nil => cases h
    | cons c l =>
      cases l with
      | nil =>
        obtain ⟨hp, -⟩ := List.cons.inj h
        rw [(Prod.mk.inj hp).1]
      | cons d l =>
        obtain ⟨hp, -⟩ := List.cons.inj h
        obtain ⟨rfl, rfl⟩ := Prod.mk.inj hp
        exact absurd List.mem_cons_self (List.nodup_cons.mp h₂).1
  | case3 a b l₁ ih =>
    cases l₂ with
    | nil => cases h
    | cons c l =>
      cases l with
      | nil =>
        obtain ⟨hp, -⟩ := List.cons.inj h
        obtain ⟨rfl, rfl⟩ := Prod.mk.inj hp
        exact absurd List.mem_cons_self (List.nodup_cons.mp h₁).1
      | cons d l =>
        obtain ⟨hp, hl⟩ := List.cons.inj h
        obtain ⟨rfl, rfl⟩ := Prod.mk.inj hp
        rw [ih (List.nodup_cons.mp (List.nodup_cons.mp h₁).2).2
          (List.nodup_cons.mp (List.nodup_cons.mp h₂).2).2 hl]

theorem nodup_neighbours {l : List D} (h : l.Nodup) : (neighbours l).Nodup := by
  induction l using neighbours.induct with
  | case1 => exact List.nodup_nil
  | case2 a => exact List.nodup_singleton _
  | case3 a b l ih =>
    obtain ⟨ha, hbl⟩ := List.nodup_cons.mp h
    refine List.nodup_cons.mpr ⟨fun hm => ?_, ih (List.nodup_cons.mp hbl).2⟩
    exact ha (List.mem_cons_of_mem _ (mem_of_mem_neighbours hm).1)

theorem nodup_pairUp (hu : Unambiguous node leaves pairs) {l : List D} (h : l.Nodup)
    (hp : ∀ p ∈ neighbours l, p ∈ pairs) : (pairUp node l).Nodup :=
  (nodup_neighbours h).map_on fun p hm q hm' he => hu.inj (hp p hm) (hp q hm') he

/-- lists with one image under a function that is injective on what they hold -/
theorem map_injOn {α β : Type} {f : α → β} {s : Set α} (hf : Set.InjOn f s) {as bs : List α}
    (has : ∀ a ∈ as, a ∈ s) (hbs : ∀ b ∈ bs, b ∈ s) (h : as.map f = bs.map f) : as = bs := by
  induction as generalizing bs with
  | nil => exact (List.map_eq_nil_iff.mp h.symm).symm
  | cons a as ih =>
    cases bs with
    | nil => cases h
    | cons b bs =>
      obtain ⟨hab, hrest⟩ := List.cons.inj h
      rw [hf (has a List.mem_cons_self) (hbs b List.mem_cons_self) hab,
        ih (fun a hm => has a (List.mem_cons_of_mem _ hm))
          (fun b hm => hbs b (List.mem_cons_of_mem _ hm)) hrest]

theorem pairUp_injective (hu : Unambiguous node leaves pairs) {l₁ l₂ : List D} (h₁ : l₁.Nodup)
    (h₂ : l₂.Nodup) (hp₁ : ∀ p ∈ neighbours l₁, p ∈ pairs) (hp₂ : ∀ p ∈ neighbours l₂, p ∈ pairs)
    (h : pairUp node l₁ = pairUp node l₂) : l₁ = l₂ :=
  neighbours_injective h₁ h₂ (map_injOn hu.inj hp₁ hp₂ h)

/-- a root that is itself in the level is lower than one that is not -/
theorem ne_reduce_pairUp (hu : Unambiguous node leaves pairs) {n k : Nat} {l l' : List D}
    (hl : ∀ x ∈ l, Height node leaves pairs k x) (hl' : ∀ x ∈ l', Height node leaves pairs k x)
    (hne : l ≠ []) (hp : ∀ p ∈ neighbours l' ++ treePairs node n (pairUp node l'), p ∈ pairs) :
    l ≠ reduce node n (pairUp node l') := by
  intro he
  obtain ⟨x, hx⟩ := List.exists_mem_of_ne_nil l hne
  have hup := height_pairUp hl' fun p hm => hp p (List.mem_append_left _ hm)
  obtain ⟨m, hm, hx'⟩ := height_reduce n hup (fun p hm => hp p (List.mem_append_right _ hm)) x
    (he ▸ hx)
  have hkm : k = m := (hl x hx).unique hu hx' rfl
  omega

/-- **the root determines the leaves**: two levels of one height, neither with repetitions, of
which the trees have one root, are equal; their lengths need not be known -/
theorem reduce_injective (hu : Unambiguous node leaves pairs) (n₁ n₂ : Nat) {k : Nat}
    {l₁ l₂ : List D} (hn₁ : l₁.length ≤ n₁) (hn₂ : l₂.length ≤ n₂) (hne₁ : l₁ ≠ [])
    (hne₂ : l₂ ≠ []) (hl₁ : ∀ x ∈ l₁, Height node leaves pairs k x)
    (hl₂ : ∀ x ∈ l₂, Height node leaves pairs k x) (h₁ : l₁.Nodup) (h₂ : l₂.Nodup)
    (hp₁ : ∀ p ∈ treePairs node n₁ l₁, p ∈ pairs) (hp₂ : ∀ p ∈ treePairs node n₂ l₂, p ∈ pairs)
    (h : reduce node n₁ l₁ = reduce node n₂ l₂) : l₁ = l₂ := by
  have hpos₁ := List.length_pos_of_ne_nil hne₁
  have hpos₂ := List.length_pos_of_ne_nil hne₂
  induction n₁ generalizing n₂ k l₁ l₂ with
  | zero => omega
  | succ n₁ ih =>
    cases n₂ with
    | zero => omega
    | succ n₂ =>
      rw [treePairs_succ] at hp₁ hp₂
      rw [reduce_succ, reduce_succ] at h
      by_cases hlong₁ : 1 < l₁.length
      · by_cases hlong₂ : 1 < l₂.length
        · rw [if_pos hlong₁] at hp₁ h
          rw [if_pos hlong₂] at hp₂ h
          have hlen₁ := length_pairUp node l₁
          have hlen₂ := length_pairUp node l₂
          have hin₁ : ∀ p ∈ neighbours l₁, p ∈ pairs :=
            fun p hm => hp₁ p (List.mem_append_left _ hm)
          have hin₂ : ∀ p ∈ neighbours l₂, p ∈ pairs :=
            fun p hm => hp₂ p (List.mem_append_left _ hm)
          have hup : pairUp node l₁ = pairUp node l₂ :=
            ih n₂ (by omega) (by omega) (List.ne_nil_of_length_pos (by omega))
              (List.ne_nil_of_length_pos (by omega)) (height_pairUp hl₁ hin₁)
              (height_pairUp hl₂ hin₂) (nodup_pairUp hu h₁ hin₁) (nodup_pairUp hu h₂ hin₂)
              (fun p hm => hp₁ p (List.mem_append_right _ hm))
              (fun p hm => hp₂ p (List.mem_append_right _ hm)) h (by omega) (by omega)
          exact pairUp_injective hu h₁ h₂ hin₁ hin₂ hup
        · rw [if_pos hlong₁] at hp₁ h
          rw [if_neg hlong₂] at h
          exact absurd h.symm (ne_reduce_pairUp hu hl₂ hl₁ hne₂ hp₁)
      · rw [if_neg hlong₁] at h
        by_cases hlong₂ : 1 < l₂.length
        · rw [if_pos hlong₂] at hp₂ h
          exact absurd h (ne_reduce_pairUp hu hl₁ hl₂ hne₁ hp₂)
        · rw [if_neg hlong₂] at h
          exact h

end
end Lib
