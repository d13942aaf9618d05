import Mathlib.Data.List.AList
import Mathlib.Logic.Function.Basic

/-!
# Maps written entry by entry

`patch es f` makes the edits `es` of a partial map `f` one after the other; an edit sets a key, or
clears it.  Collecting a list into a map by a key keeps the last entry of each key.

* `patch_of_mem`, `patch_of_not_mem`   edits of distinct keys: each takes effect, and nothing else;
* `lookup_collect`                     what a map collected from a list holds.
-/

set_option linter.unusedSectionVars false

namespace Lib

section
variable {K V : Type} [DecidableEq K]

def patch (es : List (K × Option V)) (f : K → Option V) : K → Option V :=
  es.foldl (fun f e => Function.update f e.1 e.2) f

theorem patch_cons (e : K × Option V) (es : List (K × Option V)) (f : K → Option V) :
    patch (e :: es) f = patch es (Function.update f e.1 e.2) := rfl

theorem patch_of_not_mem {es : List (K × Option V)} {k : K} (h : k ∉ es.map Prod.fst)
    (f : K → Option V) : patch es f k = f k := by
  induction es generalizing f with
  | nil => rfl
  | cons e es ih =>
    rw [List.map_cons, List.mem_cons, not_or] at h
    rw [patch_cons, ih h.2, Function.update_of_ne h.1]

theorem patch_of_mem {es : List (K × Option V)} (h : (es.map Prod.fst).Nodup) {k : K}
    {x : Option V} (hk : (k, x) ∈ es) (f : K → Option V) : patch es f k = x := by
  induction es generalizing f with
  | nil => exact absurd hk List.not_mem_nil
  | cons e es ih =>
    obtain ⟨hfresh, hnd⟩ := List.nodup_cons.mp h
    rw [patch_cons]
    rcases List.mem_cons.mp hk with rfl | hk
    · rw [patch_of_not_mem hfresh, Function.update_self]
    · exact ih hnd hk _

end

section
variable {K E : Type} [DecidableEq K] (key : E → K)

/-- what is found under `k`: the last entry with that key, or what was there before -/
theorem lookup_collect (es : List E) (m : AList fun _ : K => E) (k : K) :
    (es.foldl (fun m e => m.insert (key e) e) m).lookup k =
      (es.reverse.find? fun e => key e = k).or (m.lookup k) := by
  induction es generalizing m with
  | nil => rfl
  | cons e es ih =>
    rw [List.foldl_cons, ih, List.reverse_cons, List.find?_append, Option.or_assoc]
    congr 1
    rw [List.find?_singleton]
    by_cases he : key e = k
    · rw [he, AList.lookup_insert]
      simp
    · rw [AList.lookup_insert_ne fun h => he h.symm]
      simp [he]

end
end Lib
