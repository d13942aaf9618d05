import Mathlib.Data.Finmap
import Mathlib.Data.List.Sort

/-!
# Batches

What is asked for in batches goes through three lists: the items not known yet, each once
(`collectNew`), the answers in the order of their positions (`sortByKey`), and the pairs of an item
and its answer that are stored one after the other (`insertAll`).

* `mem_collectNew`, `nodup_collectNew`   what is collected, and that it is collected once;
* `getElem_sortByKey`                    when the keys are the positions, each answer comes to stand
                                         at its key, in whatever order the answers come;
* `lookup_insertAll`                     what is stored for a batch without repetitions.
-/

set_option linter.unusedSectionVars false

namespace Lib

/-! ## collecting -/

section
variable {α : Type} [DecidableEq α] (skip : α → Bool)

def addNew (out : List α) (x : α) : List α := if skip x || decide (x ∈ out) then out else out ++ [x]

def collectNew (out xs : List α) : List α := xs.foldl (addNew skip) out

theorem mem_addNew (out : List α) (x y : α) :
    y ∈ addNew skip out x ↔ y ∈ out ∨ (y = x ∧ skip x = false) := by
  unfold addNew
  by_cases h : (skip x || decide (x ∈ out)) = true
  · rw [if_pos h]
    constructor
    · exact Or.inl
    · intro hy
      rcases hy with hy | ⟨rfl, hskip⟩
      · exact hy
      · rw [hskip, Bool.false_or] at h
        exact of_decide_eq_true h
  · rw [if_neg h, List.mem_append, List.mem_singleton]
    have hskip : skip x = false := by
      cases hx : skip x with
      | false => rfl
      | true => exact absurd (by rw [hx, Bool.true_or]) h
    exact or_congr_right (and_iff_left hskip).symm

theorem mem_collectNew (out xs : List α) (y : α) :
    y ∈ collectNew skip out xs ↔ y ∈ out ∨ (y ∈ xs ∧ skip y = false) := by
  induction xs generalizing out with
  | nil =>
    show y ∈ out ↔ _
    rw [or_iff_left fun h => List.not_mem_nil h.1]
  | cons x xs ih =>
    show y ∈ collectNew skip (addNew skip out x) xs ↔ _
    rw [ih, mem_addNew, or_assoc, List.mem_cons, or_and_right]
    refine or_congr_right (or_congr_left ?_)
    constructor
    · intro h
      obtain ⟨rfl, hskip⟩ := h
      exact ⟨rfl, hskip⟩
    · intro h
      obtain ⟨rfl, hskip⟩ := h
      exact ⟨rfl, hskip⟩

theorem nodup_collectNew {out : List α} (h : out.Nodup) (xs : List α) :
    (collectNew skip out xs).Nodup := by
  induction xs generalizing out with
  | nil => exact h
  | cons x xs ih =>
    refine ih ?_
    unfold addNew
    split
    · exact h
    · rename_i hnew
      have hx : x ∉ out := by
        intro hx
        exact hnew (by rw [decide_eq_true hx, Bool.or_true])
      refine List.Nodup.append h (List.nodup_singleton x) ?_
      exact List.disjoint_singleton.mpr hx

end

/-! ## sorting by position -/

section
variable {α : Type} (key : α → Nat)

/-- stable -/
def sortByKey (l : List α) : List α := l.insertionSort fun a b => key a ≤ key b

theorem perm_sortByKey (l : List α) : (sortByKey key l).Perm l := List.perm_insertionSort _ l

theorem length_sortByKey (l : List α) : (sortByKey key l).length = l.length :=
  (perm_sortByKey key l).length_eq

/-- when the keys are the positions, sorting puts each entry at its key -/
theorem map_sortByKey {l : List α} (h : (l.map key).Perm (List.range l.length)) :
    (sortByKey key l).map key = List.range l.length := by
  have hsorted : ((sortByKey key l).map key).SortedLE := by
    refine List.Pairwise.sortedLE ?_
    rw [List.pairwise_map]
    have : Std.Total fun a b => key a ≤ key b := ⟨fun a b => Nat.le_total _ _⟩
    have : IsTrans α fun a b => key a ≤ key b := ⟨fun a b c => Nat.le_trans⟩
    exact List.pairwise_insertionSort _ l
  have hrange : (List.range l.length).SortedLE := List.pairwise_le_range.sortedLE
  exact List.Perm.eq_of_sortedLE hsorted hrange (((perm_sortByKey key l).map key).trans h)

/-- **the entry at a position has it for its key** -/
theorem key_sortByKey {l : List α} (h : (l.map key).Perm (List.range l.length)) {i : Nat}
    (hi : i < (sortByKey key l).length) : key (sortByKey key l)[i] = i := by
  have hmap := map_sortByKey key h
  have hi' : i < ((sortByKey key l).map key).length := by
    rw [List.length_map]
    exact hi
  have hget : ((sortByKey key l).map key)[i] = i := by
    simp only [hmap, List.getElem_range]
  rw [List.getElem_map] at hget
  exact hget

end

/-! ## storing -/

section
variable {α β : Type} [DecidableEq α]

def insertAll (m : Finmap fun _ : α => β) (l : List (α × β)) : Finmap fun _ : α => β :=
  l.foldl (fun m e => m.insert e.1 e.2) m

theorem lookup_insertAll_of_not_mem (m : Finmap fun _ : α => β) {l : List (α × β)} {x : α}
    (h : x ∉ l.map Prod.fst) : (insertAll m l).lookup x = m.lookup x := by
  induction l generalizing m with
  | nil => rfl
  | cons e l ih =>
    obtain ⟨hne, hx⟩ := not_or.mp fun hx => h (List.mem_cons.mpr hx)
    show (insertAll (m.insert e.1 e.2) l).lookup x = _
    rw [ih _ hx, Finmap.lookup_insert_of_ne _ hne]

/-- each item of a batch without repetitions is stored with its answer -/
theorem lookup_insertAll (m : Finmap fun _ : α => β) {l : List (α × β)}
    (h : (l.map Prod.fst).Nodup) {e : α × β} (he : e ∈ l) :
    (insertAll m l).lookup e.1 = some e.2 := by
  induction l generalizing m with
  | nil => exact absurd he List.not_mem_nil
  | cons d l ih =>
    obtain ⟨hd, hl⟩ := List.nodup_cons.mp h
    show (insertAll (m.insert d.1 d.2) l).lookup e.1 = _
    rcases List.mem_cons.mp he with rfl | he
    · rw [lookup_insertAll_of_not_mem _ hd, Finmap.lookup_insert]
    · exact ih _ hl he

/-- what is stored stays stored -/
theorem mem_insertAll (m : Finmap fun _ : α => β) (l : List (α × β)) (x : α) :
    x ∈ insertAll m l ↔ x ∈ l.map Prod.fst ∨ x ∈ m := by
  induction l generalizing m with
  | nil => exact (or_iff_right List.not_mem_nil).symm
  | cons e l ih =>
    show x ∈ insertAll (m.insert e.1 e.2) l ↔ _
    rw [ih, Finmap.mem_insert, List.map_cons, List.mem_cons, or_left_comm, or_assoc]

end

end Lib
