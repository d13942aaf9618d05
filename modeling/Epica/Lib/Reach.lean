import Mathlib.Data.List.Nodup
import Mathlib.Logic.Relation

/-!
# Depth-first search over a list of edges

`dfsLoop edges n stack seen` pops a vertex, appends it to `seen` if it is new, and pushes its
successors.  One unit of fuel pays for one pop, and every edge is pushed at most once, so
`edges.length + 1` units are enough (`dfs`).

* `dfs_head`, `dfs_nodup`   the start is yielded first, no vertex is yielded twice;
* `mem_dfs`                 the vertices yielded are those reachable from the start.
-/

set_option linter.unusedSectionVars false

namespace Lib

section
variable {α : Type} [DecidableEq α]

/-- one edge from `a` to `b` -/
def EdgeStep (edges : List (α × α)) (a b : α) : Prop := (a, b) ∈ edges

def succs (edges : List (α × α)) (x : α) : List α :=
  (edges.filter fun e => e.1 = x).map Prod.snd

def dfsLoop (edges : List (α × α)) : Nat → List α → List α → List α
  | 0, _, seen => seen
  | _ + 1, [], seen => seen
  | n + 1, x :: stack, seen =>
    if x ∈ seen then dfsLoop edges n stack seen
    else dfsLoop edges n (succs edges x ++ stack) (seen ++ [x])

/-- the vertices in the order a depth-first search from `s` yields them -/
def dfs (edges : List (α × α)) (s : α) : List α := dfsLoop edges (edges.length + 1) [s] []

variable {edges : List (α × α)}

theorem mem_succs (x y : α) : y ∈ succs edges x ↔ EdgeStep edges x y := by
  unfold succs EdgeStep
  rw [List.mem_map]
  constructor
  · intro hp
    obtain ⟨⟨a, b⟩, h, rfl⟩ := hp
    obtain ⟨h1, h2⟩ := List.mem_filter.mp h
    rw [← of_decide_eq_true h2]
    exact h1
  · intro h
    exact ⟨(x, y), List.mem_filter.mpr ⟨h, decide_eq_true rfl⟩, rfl⟩

/-! ## what is yielded -/

theorem seen_extends (n : Nat) (stack seen : List α) :
    seen <+: dfsLoop edges n stack seen := by
  induction n generalizing stack seen with
  | zero => exact List.prefix_refl seen
  | succ n ih =>
    cases stack with
    | nil => exact List.prefix_refl seen
    | cons x stack =>
      unfold dfsLoop
      split
      · exact ih stack seen
      · exact (List.prefix_append seen [x]).trans (ih _ _)

theorem nodup_dfsLoop (n : Nat) (stack seen : List α) (h : seen.Nodup) :
    (dfsLoop edges n stack seen).Nodup := by
  induction n generalizing stack seen with
  | zero => exact h
  | succ n ih =>
    cases stack with
    | nil => exact h
    | cons x stack =>
      unfold dfsLoop
      split
      · exact ih stack seen h
      · rename_i hx
        refine ih _ _ (List.nodup_append.mpr ⟨h, List.nodup_singleton x, ?_⟩)
        intro a ha b hb e
        rw [List.mem_singleton.mp hb] at e
        exact hx (e ▸ ha)

/-- whatever is yielded was seen or is reachable from the stack -/
theorem dfsLoop_sound (n : Nat) (stack seen : List α) (x : α)
    (hx : x ∈ dfsLoop edges n stack seen) :
    x ∈ seen ∨ ∃ s ∈ stack, Relation.ReflTransGen (EdgeStep edges) s x := by
  induction n generalizing stack seen with
  | zero => exact Or.inl hx
  | succ n ih =>
    cases stack with
    | nil => exact Or.inl hx
    | cons y stack =>
      unfold dfsLoop at hx
      split at hx
      · rcases ih _ _ hx with h | ⟨s, hs, h⟩
        · exact Or.inl h
        · exact Or.inr ⟨s, List.mem_cons_of_mem _ hs, h⟩
      · rcases ih _ _ hx with h | ⟨s, hs, h⟩
        · rcases List.mem_append.mp h with h | h
          · exact Or.inl h
          · rw [List.mem_singleton.mp h]
            exact Or.inr ⟨y, List.mem_cons_self, .refl⟩
        · rcases List.mem_append.mp hs with hs | hs
          · exact Or.inr ⟨y, List.mem_cons_self, .head ((mem_succs y s).mp hs) h⟩
          · exact Or.inr ⟨s, List.mem_cons_of_mem _ hs, h⟩

/-! ## fuel -/

/-- pops still to come: the stack, and the edges out of vertices not seen yet -/
def pending (edges : List (α × α)) (stack seen : List α) : Nat :=
  stack.length + (edges.filter fun e => e.1 ∉ seen).length

/-- seeing a new vertex pays for pushing its successors -/
theorem pending_see (x : α) (stack seen : List α) (hx : x ∉ seen) :
    pending edges (succs edges x ++ stack) (seen ++ [x]) = pending edges stack seen := by
  have key : (succs edges x).length + (edges.filter fun e => e.1 ∉ seen ++ [x]).length
      = (edges.filter fun e => e.1 ∉ seen).length := by
    unfold succs
    rw [List.length_map]
    induction edges with
    | nil => rfl
    | cons e es ih =>
      simp only [List.filter_cons, List.mem_append, List.mem_singleton, decide_eq_true_eq] at ih ⊢
      by_cases h1 : e.1 = x
      · have h2 : e.1 ∉ seen := h1 ▸ hx
        simp only [h1, hx, or_true, not_true_eq_false, not_false_eq_true, if_true, if_false,
          List.length_cons]
        omega
      · by_cases h2 : e.1 ∈ seen
        · simp only [h1, h2, or_false, not_true_eq_false, if_false]
          omega
        · simp only [h1, h2, or_false, not_false_eq_true, if_true, if_false, List.length_cons]
          omega
  unfold pending
  rw [List.length_append]
  omega

/-- with enough fuel the stack is yielded, and what is yielded is closed under successors -/
theorem dfsLoop_complete (n : Nat) (stack seen : List α) (hn : pending edges stack seen ≤ n) :
    (∀ x ∈ stack, x ∈ dfsLoop edges n stack seen) ∧
      ∀ x ∈ dfsLoop edges n stack seen, x ∉ seen → ∀ y, EdgeStep edges x y →
        y ∈ dfsLoop edges n stack seen := by
  induction n generalizing stack seen with
  | zero =>
    have h0 : stack = [] := List.length_eq_zero_iff.mp (by unfold pending at hn; omega)
    subst h0
    exact ⟨fun x hx => absurd hx List.not_mem_nil, fun x hx hs => absurd hx hs⟩
  | succ n ih =>
    cases stack with
    | nil => exact ⟨fun x hx => absurd hx List.not_mem_nil, fun x hx hs => absurd hx hs⟩
    | cons x stack =>
      have hcons : pending edges (x :: stack) seen = pending edges stack seen + 1 := by
        unfold pending
        rw [List.length_cons]
        omega
      unfold dfsLoop
      split
      · rename_i hx
        obtain ⟨h1, h2⟩ := ih stack seen (by omega)
        refine ⟨fun y hy => ?_, h2⟩
        rcases List.mem_cons.mp hy with rfl | hy
        · exact (seen_extends n stack seen).subset hx
        · exact h1 y hy
      · rename_i hx
        obtain ⟨h1, h2⟩ := ih (succs edges x ++ stack) (seen ++ [x])
          (by rw [pending_see x stack seen hx]; omega)
        constructor
        · intro y hy
          rcases List.mem_cons.mp hy with rfl | hy
          · exact (seen_extends n _ _).subset (List.mem_append_right _ List.mem_cons_self)
          · exact h1 y (List.mem_append_right _ hy)
        · intro z hz hs y hy
          by_cases e : z = x
          · subst e
            exact h1 y (List.mem_append_left _ ((mem_succs z y).mpr hy))
          · refine h2 z hz (fun hm => ?_) y hy
            rcases List.mem_append.mp hm with hm | hm
            · exact hs hm
            · exact e (List.mem_singleton.mp hm)

/-! ## the search -/

theorem dfs_head (s : α) : ∃ l, dfs edges s = s :: l := by
  unfold dfs dfsLoop
  rw [if_neg List.not_mem_nil]
  obtain ⟨l, h⟩ := @seen_extends α _ edges edges.length (succs edges s ++ []) ([] ++ [s])
  exact ⟨l, h.symm⟩

theorem dfs_nodup (s : α) : (dfs edges s).Nodup := nodup_dfsLoop _ _ _ List.nodup_nil

theorem mem_dfs (s x : α) : x ∈ dfs edges s ↔ Relation.ReflTransGen (EdgeStep edges) s x := by
  constructor
  · intro h
    rcases dfsLoop_sound _ _ _ x h with h | ⟨s', hs, h⟩
    · exact absurd h List.not_mem_nil
    · rw [List.mem_singleton.mp hs] at h
      exact h
  · intro h
    obtain ⟨h1, h2⟩ := @dfsLoop_complete α _ edges (edges.length + 1) [s] [] (by
      unfold pending
      have := List.length_filter_le (fun e : α × α => decide (e.1 ∉ ([] : List α))) edges
      simp only [List.length_singleton]
      omega)
    induction h with
    | refl => exact h1 s List.mem_cons_self
    | tail _ hstep ih => exact h2 _ ih List.not_mem_nil _ hstep

end
end Lib
