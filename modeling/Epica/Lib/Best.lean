import Mathlib.Data.List.Sort

/-!
# The best of a list by a score

`best score k l` sorts `l` by falling score, ties in the order of `l`, and takes the first `k`.

* `mem_of_mem_best`, `nodup_best`   they are of `l`, each once;
* `pairwise_best`                   they come best first;
* `best_optimal`                    nothing left out scores more than anything taken.
-/

set_option linter.unusedSectionVars false

namespace Lib

section
variable {α β γ : Type} [LinearOrder β] (score : α → β)

def best (k : Nat) (l : List α) : List α :=
  (l.insertionSort fun a b => score b ≤ score a).take k

variable {score} {k : Nat} {l : List α}

theorem mem_of_mem_best {a : α} (h : a ∈ best score k l) : a ∈ l :=
  (List.mem_insertionSort _).mp (List.mem_of_mem_take h)

theorem nodup_best {f : α → γ} (h : (l.map f).Nodup) : ((best score k l).map f).Nodup := by
  have hsorted : ((l.insertionSort fun a b => score b ≤ score a).map f).Nodup :=
    ((List.perm_insertionSort _ l).map f).nodup_iff.mpr h
  exact hsorted.sublist ((List.take_sublist k _).map f)

theorem pairwise_sorted :
    (l.insertionSort fun a b => score b ≤ score a).Pairwise fun a b => score b ≤ score a :=
  have : Std.Total fun a b : α => score b ≤ score a := ⟨fun a b => le_total (score b) (score a)⟩
  have : IsTrans α fun a b => score b ≤ score a := ⟨fun _ _ _ hab hbc => hbc.trans hab⟩
  List.pairwise_insertionSort _ l

theorem pairwise_best : (best score k l).Pairwise fun a b => score b ≤ score a :=
  pairwise_sorted.sublist (List.take_sublist k _)

/-- **nothing that is left out scores more than anything that is taken** -/
theorem best_optimal {a b : α} (ha : a ∈ best score k l) (hb : b ∈ l)
    (hout : b ∉ best score k l) : score b ≤ score a := by
  have hsplit := List.take_append_drop k (l.insertionSort fun a b => score b ≤ score a)
  have hrest : b ∈ (l.insertionSort fun a b => score b ≤ score a).drop k := by
    have hmem := (List.mem_insertionSort fun a b => score b ≤ score a).mpr hb
    rw [← hsplit] at hmem
    rcases List.mem_append.mp hmem with h | h
    · exact absurd h hout
    · exact h
  have hsorted := @pairwise_sorted α β _ score l
  rw [← hsplit] at hsorted
  exact (List.pairwise_append.mp hsorted).2.2 a ha b hrest

end
end Lib
