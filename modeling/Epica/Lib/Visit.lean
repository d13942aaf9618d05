import Mathlib.Data.List.Nodup
import Mathlib.Logic.Relation

/-!
# Recursive descent with one shared visited set

`visit next n x vis` appends to `vis` the vertices a recursion from `x` visits: `x` itself unless
it is visited already, then, one after the other and with the set grown so far, the members of
`next x`.  `n` bounds the depth.

* `visit_extends`, `nodup_visit`   the list only grows, by new vertices;
* `mem_visit`                     what is visited is reachable;
* `visit_fuel`                    a depth beyond the number of vertices changes nothing.
-/

set_option linter.unusedSectionVars false

namespace Lib

section
variable {α : Type} [DecidableEq α] (next : α → List α)

def visit : Nat → α → List α → List α
  | 0, _, vis => vis
  | n + 1, x, vis =>
    if x ∈ vis then vis
    else (next x).foldl (fun vis y => visit n y vis) (vis ++ [x])

/-- the members of `xs` one after the other -/
def visitAll (n : Nat) (xs : List α) (vis : List α) : List α :=
  xs.foldl (fun vis y => visit next n y vis) vis

theorem visit_of_mem (n : Nat) {x : α} {vis : List α} (h : x ∈ vis) :
    visit next n x vis = vis := by
  cases n with
  | zero => rfl
  | succ n => exact if_pos h

theorem visit_of_not_mem (n : Nat) {x : α} {vis : List α} (h : x ∉ vis) :
    visit next (n + 1) x vis = visitAll next n (next x) (vis ++ [x]) := if_neg h

theorem visitAll_cons (n : Nat) (y : α) (ys vis : List α) :
    visitAll next n (y :: ys) vis = visitAll next n ys (visit next n y vis) := rfl

/-! ## what is visited -/

/-- what one visit keeps, `visitAll` keeps -/
theorem visitAll_induction (Inv : List α → Prop) {n : Nat} (xs : List α)
    (hstep : ∀ y ∈ xs, ∀ vis, Inv vis → Inv (visit next n y vis)) {vis : List α}
    (h : Inv vis) : Inv (visitAll next n xs vis) := by
  induction xs generalizing vis with
  | nil => exact h
  | cons y ys ih =>
    rw [visitAll_cons]
    exact ih (fun z hz => hstep z (List.mem_cons_of_mem _ hz)) (hstep y List.mem_cons_self vis h)

theorem visit_extends (n : Nat) (x : α) (vis : List α) : vis <+: visit next n x vis := by
  induction n generalizing x vis with
  | zero => exact List.prefix_refl vis
  | succ n ih =>
    by_cases h : x ∈ vis
    · exact ⟨[], by rw [visit_of_mem next _ h, List.append_nil]⟩
    · rw [visit_of_not_mem next n h]
      refine visitAll_induction next (fun l => vis <+: l) _ (fun y _ l hl => ?_)
        (List.prefix_append vis [x])
      exact hl.trans (ih y l)

theorem visitAll_extends (n : Nat) (xs vis : List α) : vis <+: visitAll next n xs vis :=
  visitAll_induction next (fun l => vis <+: l) xs
    (fun y _ l hl => hl.trans (visit_extends next n y l)) (List.prefix_refl vis)

theorem nodup_visit (n : Nat) (x : α) (vis : List α) (h : vis.Nodup) :
    (visit next n x vis).Nodup := by
  induction n generalizing x vis with
  | zero => exact h
  | succ n ih =>
    by_cases hx : x ∈ vis
    · rw [visit_of_mem next _ hx]
      exact h
    · rw [visit_of_not_mem next n hx]
      refine visitAll_induction next List.Nodup _ (fun y _ l hl => ih y l hl) ?_
      refine List.nodup_append.mpr ⟨h, List.nodup_singleton x, ?_⟩
      intro a ha b hb e
      rw [List.mem_singleton.mp hb] at e
      exact hx (e ▸ ha)

theorem mem_visit_self (n : Nat) (x : α) (vis : List α) : x ∈ visit next (n + 1) x vis := by
  by_cases hx : x ∈ vis
  · rw [visit_of_mem next _ hx]
    exact hx
  · rw [visit_of_not_mem next n hx]
    exact (visitAll_extends next n (next x) (vis ++ [x])).subset
      (List.mem_append_right _ (List.mem_singleton.mpr rfl))

theorem mem_visitAll (n : Nat) (xs vis : List α) :
    ∀ x ∈ xs, x ∈ visitAll next (n + 1) xs vis := by
  induction xs generalizing vis with
  | nil => exact fun x hx => absurd hx List.not_mem_nil
  | cons y ys ih =>
    intro x hx
    rw [visitAll_cons]
    rcases List.mem_cons.mp hx with rfl | hx
    · exact (visitAll_extends next _ ys _).subset (mem_visit_self next n x vis)
    · exact ih _ x hx

theorem mem_visit (n : Nat) (x : α) (vis : List α) :
    ∀ y ∈ visit next n x vis, y ∈ vis ∨ Relation.ReflTransGen (fun a b => b ∈ next a) x y := by
  induction n generalizing x vis with
  | zero => exact fun y hy => Or.inl hy
  | succ n ih =>
    by_cases hx : x ∈ vis
    · rw [visit_of_mem next _ hx]
      exact fun y hy => Or.inl hy
    · rw [visit_of_not_mem next n hx]
      refine visitAll_induction next
        (fun l => ∀ y ∈ l, y ∈ vis ∨ Relation.ReflTransGen (fun a b => b ∈ next a) x y)
        _ (fun z hz l hl y hy => ?_) (fun y hy => ?_)
      · rcases ih z l y hy with h | h
        · exact hl y h
        · exact Or.inr (Relation.ReflTransGen.head hz h)
      · rcases List.mem_append.mp hy with h | h
        · exact Or.inl h
        · rw [List.mem_singleton.mp h]
          exact Or.inr .refl

/-! ## the depth -/

/-- vertices of `U` still to visit -/
def unvisited (U vis : List α) : Nat := (U.filter fun x => x ∉ vis).length

theorem unvisited_mono (U : List α) {vis vis' : List α} (h : vis ⊆ vis') :
    unvisited U vis' ≤ unvisited U vis := by
  unfold unvisited
  refine (List.monotone_filter_right U fun x hx => ?_).length_le
  exact decide_eq_true fun hm => of_decide_eq_true hx (h hm)

theorem unvisited_see {U vis : List α} {x : α} (hU : x ∈ U) (hx : x ∉ vis) :
    unvisited U (vis ++ [x]) < unvisited U vis := by
  unfold unvisited
  have hsub : ∀ l : List α, (l.filter fun y => decide (y ∉ vis ++ [x])).length ≤
      (l.filter fun y => decide (y ∉ vis)).length := by
    intro l
    refine (List.monotone_filter_right l fun y hy => ?_).length_le
    exact decide_eq_true fun hm => of_decide_eq_true hy (List.mem_append_left _ hm)
  induction U with
  | nil => exact absurd hU List.not_mem_nil
  | cons y ys ih =>
    rw [List.filter_cons, List.filter_cons]
    by_cases e : y = x
    · subst e
      rw [if_neg (by simp), if_pos (by simpa using hx), List.length_cons]
      exact Nat.lt_succ_of_le (hsub ys)
    · have hys : x ∈ ys := (List.mem_cons.mp hU).resolve_left (fun h => e h.symm)
      have := ih hys
      by_cases hy : y ∈ vis
      · rw [if_neg (by simp [hy]), if_neg (by simp [hy])]
        exact this
      · rw [if_pos (by simp [hy, e]), if_pos (by simp [hy]), List.length_cons, List.length_cons]
        omega

/-- **depth is enough when it exceeds the number of vertices still to visit** -/
theorem visit_fuel {U : List α} (hU : ∀ x ∈ U, ∀ y ∈ next x, y ∈ U) (n : Nat) (x : α)
    (vis : List α) (hx : x ∈ U) (hn : unvisited U vis < n) (m : Nat) (hm : n ≤ m) :
    visit next m x vis = visit next n x vis := by
  induction n generalizing x vis m with
  | zero => exact absurd hn (Nat.not_lt_zero _)
  | succ n ih =>
    obtain ⟨m, rfl⟩ : ∃ k, m = k + 1 := ⟨m - 1, by omega⟩
    by_cases hv : x ∈ vis
    · rw [visit_of_mem next _ hv, visit_of_mem next _ hv]
    · rw [visit_of_not_mem next m hv, visit_of_not_mem next n hv]
      have hlt : unvisited U (vis ++ [x]) < n := by
        have := unvisited_see hx hv
        omega
      have key : ∀ (ys : List α) (vis' : List α), (∀ y ∈ ys, y ∈ U) → unvisited U vis' < n →
          visitAll next m ys vis' = visitAll next n ys vis' := by
        intro ys
        induction ys with
        | nil => exact fun _ _ _ => rfl
        | cons y ys ihys =>
          intro vis' hys hvis'
          rw [visitAll_cons, visitAll_cons,
            ih y vis' (hys y List.mem_cons_self) hvis' m (by omega)]
          refine ihys _ (fun z hz => hys z (List.mem_cons_of_mem _ hz)) ?_
          exact Nat.lt_of_le_of_lt (unvisited_mono U (visit_extends next n y vis').subset) hvis'
      exact key (next x) _ (hU x hx) hlt

end
end Lib
