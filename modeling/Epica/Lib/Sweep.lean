import Mathlib.Data.List.Nodup
import Mathlib.Data.Set.Finite.Basic
import Mathlib.Order.WellFoundedSet

/-!
# One pass over a system of equations

Every vertex `x` has an equation `v x = f x v`, where `f x v` reads `v` only at the vertices `y`
with `Reads y x`.  `sweep f l v` evaluates the equations of the members of `l` once each, in the
order of `l`, every value written at once.

When no vertex reads itself, directly or through others:

* `exists_solution`, `solution_unique`   the equations of `l` have exactly one solution that
                                         agrees with `v` elsewhere;
* `sweep_eq_iff`                         the sweep ends in the solution exactly when no stale read
                                         matters: at each member, what has been written so far and
                                         the old values of the rest give the value of the
                                         solution;
* `sweep_eq_of_sorted`                   in particular when all that is read has been written;
* `sweeps_solve`                         sweeps that are repeated, each in an order of its own,
                                         end in the solution after at most as many sweeps as there
                                         are equations.

For ordered values and monotone equations a sweep is monotone (`sweep_mono`).
-/

set_option linter.unusedSectionVars false

namespace Lib

section
variable {α β : Type} [DecidableEq α] (f : α → (α → β) → β)

def sweep (l : List α) (v : α → β) : α → β :=
  l.foldl (fun v x => Function.update v x (f x v)) v

theorem sweep_nil (v : α → β) : sweep f [] v = v := rfl
theorem sweep_cons (x : α) (l : List α) (v : α → β) :
    sweep f (x :: l) v = sweep f l (Function.update v x (f x v)) := rfl
theorem sweep_append (l l' : List α) (v : α → β) :
    sweep f (l ++ l') v = sweep f l' (sweep f l v) := List.foldl_append

theorem sweep_of_not_mem (l : List α) (v : α → β) {x : α} (hx : x ∉ l) : sweep f l v x = v x := by
  induction l generalizing v with
  | nil => rfl
  | cons y l ih =>
    have hne : x ≠ y := fun e => hx (by rw [e]; exact List.mem_cons_self)
    rw [sweep_cons, ih _ (fun h => hx (List.mem_cons_of_mem _ h)), Function.update_of_ne hne]

/-- `s` agrees with `v` outside `l` and satisfies the equations of `l` -/
structure Solves (l : List α) (v s : α → β) : Prop where
  outside : ∀ x, x ∉ l → s x = v x
  equation : ∀ x ∈ l, s x = f x s

/-- the values once the members of `done` have theirs -/
def partway (v s : α → β) (done : List α) : α → β := fun x => if x ∈ done then s x else v x

variable {f}

/-- `f x` reads only what `Reads` allows -/
def LocalTo (f : α → (α → β) → β) (Reads : α → α → Prop) : Prop :=
  ∀ x v v', (∀ y, Reads y x → v y = v' y) → f x v = f x v'

variable {Reads : α → α → Prop}

/-! ## the solution -/

/-- **at most one solution**, by induction along `Reads` -/
theorem solution_unique (hlocal : LocalTo f Reads) {l : List α} {v s s' : α → β}
    (hwf : {x | x ∈ l}.WellFoundedOn Reads) (h : Solves f l v s) (h' : Solves f l v s') :
    s = s' := by
  funext x
  by_cases hx : x ∈ l
  · refine hwf.induction hx (P := fun x => s x = s' x) fun y hy ih => ?_
    rw [h.equation y hy, h'.equation y hy]
    refine hlocal y s s' fun z hz => ?_
    by_cases hzl : z ∈ l
    · exact ih z hzl hz
    · rw [h.outside z hzl, h'.outside z hzl]
  · rw [h.outside x hx, h'.outside x hx]

/-- a finite set on which `Reads` has no cycle has a member that reads no other -/
theorem exists_source {l : List α} (hl : l ≠ []) (hwf : {x | x ∈ l}.WellFoundedOn Reads) :
    ∃ x ∈ l, ∀ y ∈ l, ¬ Reads y x := by
  obtain ⟨a, ha⟩ := List.exists_mem_of_ne_nil l hl
  by_contra hno
  push Not at hno
  exact hwf.induction ha (P := fun _ => False) fun y hy ih => by
    obtain ⟨z, hz, hr⟩ := hno y hy
    exact ih z hz hr

/-- **a solution exists**: evaluate a member that reads no other, then the rest -/
theorem exists_solution (hlocal : LocalTo f Reads) (l : List α) (v : α → β)
    (hwf : {x | x ∈ l}.WellFoundedOn Reads) : ∃ s, Solves f l v s := by
  induction hn : l.length using Nat.strong_induction_on generalizing l v with
  | _ n ih =>
    by_cases hl : l = []
    · subst hl
      exact ⟨v, fun _ _ => rfl, fun x hx => absurd hx List.not_mem_nil⟩
    · obtain ⟨a, ha, hsrc⟩ := exists_source hl hwf
      let l' := l.filter fun x => x ≠ a
      have hmem : ∀ x, x ∈ l' ↔ x ∈ l ∧ x ≠ a := fun x => by
        simp only [l', List.mem_filter, decide_eq_true_eq]
      have hlen : l'.length < n := by
        rw [← hn]
        exact List.length_filter_lt_length_iff_exists.mpr ⟨a, ha, by simp⟩
      have hwf' : {x | x ∈ l'}.WellFoundedOn Reads :=
        hwf.mono (le_refl _) fun x hx => ((hmem x).mp hx).1
      obtain ⟨s, hs⟩ := ih _ hlen l' (Function.update v a (f a v)) hwf' rfl
      have hsa : s a = f a v := by
        rw [hs.outside a (fun h => ((hmem a).mp h).2 rfl), Function.update_self]
      have hout : ∀ x, x ∉ l → s x = v x := fun x hx => by
        have hne : x ≠ a := fun e => hx (by rw [e]; exact ha)
        rw [hs.outside x (fun h => hx ((hmem x).mp h).1), Function.update_of_ne hne]
      refine ⟨s, hout, fun x hx => ?_⟩
      by_cases e : x = a
      · rw [e, hsa]
        exact hlocal a v s fun y hy => (hout y (fun hyl => hsrc y hyl hy)).symm
      · exact hs.equation x ((hmem x).mpr ⟨hx, e⟩)

/-! ## the sweep -/

/-- while no stale read matters, the values so far are those of the solution -/
theorem sweep_eq_partway {v s : α → β} (l : List α) (hnd : l.Nodup)
    (h : ∀ done x rest, l = done ++ x :: rest → f x (partway v s done) = s x) :
    sweep f l v = partway v s l := by
  induction l using List.reverseRecOn with
  | nil =>
    funext x
    exact (if_neg List.not_mem_nil).symm
  | append_singleton l x ih =>
    have hnd' := List.nodup_append.mp hnd
    have ih := ih hnd'.1 fun done y rest e => h done y (rest ++ [x]) (by rw [e]; simp)
    rw [sweep_append, ih, sweep_cons, sweep_nil, h l x [] rfl]
    funext y
    unfold partway
    by_cases e : y = x
    · subst e
      rw [Function.update_self, if_pos (by simp)]
    · rw [Function.update_of_ne e]
      simp only [List.mem_append, List.mem_singleton, e, or_false]

/-- **the sweep ends in the solution exactly when no stale read matters** -/
theorem sweep_eq_iff {v s : α → β} {l : List α} (hnd : l.Nodup) (hs : Solves f l v s) :
    sweep f l v = s ↔
      ∀ done x rest, l = done ++ x :: rest → f x (partway v s done) = s x := by
  constructor
  · rintro h done x rest rfl
    have hd := List.nodup_append.mp hnd
    have hx : x ∉ rest := (List.nodup_cons.mp hd.2.1).1
    have hdisj : ∀ y ∈ done, y ∉ x :: rest := fun y hy hy' => hd.2.2 y hy y hy' rfl
    have hpart : sweep f done v = partway v s done := by
      funext y
      unfold partway
      split
      · rename_i hy
        rw [← h, sweep_append, sweep_of_not_mem f _ _ (hdisj y hy)]
      · rename_i hy
        exact sweep_of_not_mem f done v hy
    rw [← hpart, ← h, sweep_append, sweep_cons, sweep_of_not_mem f rest _ hx,
      Function.update_self]
  · intro h
    rw [sweep_eq_partway l hnd h]
    funext x
    unfold partway
    split
    · rfl
    · rename_i hx
      exact (hs.outside x hx).symm

/-- the sweep leaves the values outside alone, so it solves as soon as the equations hold -/
theorem sweep_solves_iff_eq (hlocal : LocalTo f Reads) {v s : α → β} {l : List α}
    (hwf : {x | x ∈ l}.WellFoundedOn Reads) (hs : Solves f l v s) :
    (∀ x ∈ l, sweep f l v x = f x (sweep f l v)) ↔ sweep f l v = s := by
  constructor
  · intro h
    exact solution_unique hlocal hwf ⟨fun x hx => sweep_of_not_mem f l v hx, h⟩ hs
  · intro h x hx
    rw [h]
    exact hs.equation x hx

/-- **when all that is read has been written before, the sweep ends in the solution** -/
theorem sweep_eq_of_sorted (hlocal : LocalTo f Reads) {v s : α → β} {l : List α} (hnd : l.Nodup)
    (hs : Solves f l v s)
    (hsorted : ∀ done x rest, l = done ++ x :: rest → ∀ y ∈ x :: rest, ¬ Reads y x) :
    sweep f l v = s := by
  rw [sweep_eq_iff hnd hs]
  intro done x rest hl
  rw [hs.equation x (by rw [hl]; simp)]
  refine hlocal x _ _ fun y hy => ?_
  unfold partway
  split
  · rfl
  · rename_i hyd
    refine (hs.outside y fun hyl => ?_).symm
    rw [hl] at hyl
    rcases List.mem_append.mp hyl with h | h
    · exact hyd h
    · exact hsorted done x rest hl y h hy

/-! ## repeated sweeps -/

/-- a set that is closed under `Reads` and has its values keeps them -/
theorem sweep_settled (hlocal : LocalTo f Reads) {p : α → Prop} {l : List α} {v s : α → β}
    (heq : ∀ x ∈ l, s x = f x s) (hclosed : ∀ x ∈ l, p x → ∀ y, Reads y x → p y)
    (hv : ∀ x, p x → v x = s x) : ∀ x, p x → sweep f l v x = s x := by
  induction l generalizing v with
  | nil => exact hv
  | cons a l ih =>
    intro z hz
    rw [sweep_cons]
    refine ih (fun x hx => heq x (List.mem_cons_of_mem _ hx))
      (fun x hx => hclosed x (List.mem_cons_of_mem _ hx)) (fun x hp => ?_) z hz
    by_cases e : x = a
    · subst e
      rw [Function.update_self, heq x List.mem_cons_self]
      exact hlocal x v s fun y hy => hv y (hclosed x List.mem_cons_self hp y hy)
    · rw [Function.update_of_ne e]
      exact hv x hp

/-- and a sweep adds each member that reads only the set -/
theorem sweep_settles (hlocal : LocalTo f Reads) {p : α → Prop} {l : List α} {v s : α → β}
    (heq : ∀ x ∈ l, s x = f x s) (hclosed : ∀ x ∈ l, p x → ∀ y, Reads y x → p y)
    (hv : ∀ x, p x → v x = s x) {a : α} (ha : a ∈ l) (hreads : ∀ y, Reads y a → p y) :
    sweep f l v a = s a := by
  obtain ⟨before, after, rfl⟩ := List.append_of_mem ha
  have hbefore : ∀ x, p x → sweep f before v x = s x :=
    sweep_settled hlocal (fun x hx => heq x (List.mem_append_left _ hx))
      (fun x hx => hclosed x (List.mem_append_left _ hx)) hv
  rw [sweep_append, sweep_cons]
  refine sweep_settled hlocal (p := fun x => p x ∨ x = a)
    (fun x hx => heq x (List.mem_append_right _ (List.mem_cons_of_mem _ hx))) ?_ ?_ a (Or.inr rfl)
  · intro x hx hp y hy
    left
    rcases hp with hp | hp
    · exact hclosed x (List.mem_append_right _ (List.mem_cons_of_mem _ hx)) hp y hy
    · rw [hp] at hy
      exact hreads y hy
  · intro x hp
    by_cases e : x = a
    · subst e
      rw [Function.update_self, heq x ha]
      exact hlocal x _ s fun y hy => hbefore y (hreads y hy)
    · rw [Function.update_of_ne e]
      exact hbefore x (hp.resolve_right e)

/-- each sweep settles at least one of the members of `rest` that are not settled yet -/
theorem sweeps_settle (hlocal : LocalTo f Reads) {l : List α} {s : α → β}
    (heq : ∀ x ∈ l, s x = f x s) {orders : List (List α)}
    (horders : ∀ l' ∈ orders, ∀ x, x ∈ l' ↔ x ∈ l) {rest : List α} (hrest : ∀ x ∈ rest, x ∈ l)
    (hwf : {x | x ∈ rest}.WellFoundedOn Reads)
    (hclosed : ∀ x ∈ l, x ∉ rest → ∀ y, Reads y x → y ∉ rest) {v : α → β}
    (hv : ∀ x, x ∉ rest → v x = s x) (hlen : rest.length ≤ orders.length) :
    orders.foldl (fun v l' => sweep f l' v) v = s := by
  induction orders generalizing rest v with
  | nil =>
    funext x
    have hnil : rest = [] := List.length_eq_zero_iff.mp (Nat.le_zero.mp hlen)
    exact hv x (by rw [hnil]; exact List.not_mem_nil)
  | cons l' orders ih =>
    have hmem := horders l' List.mem_cons_self
    have horders' : ∀ l'' ∈ orders, ∀ x, x ∈ l'' ↔ x ∈ l := fun l'' h =>
      horders l'' (List.mem_cons_of_mem _ h)
    have heq' : ∀ x ∈ l', s x = f x s := fun x hx => heq x ((hmem x).mp hx)
    have hclosed' : ∀ x ∈ l', x ∉ rest → ∀ y, Reads y x → y ∉ rest := fun x hx =>
      hclosed x ((hmem x).mp hx)
    have hsettled := sweep_settled hlocal heq' hclosed' hv
    rw [List.foldl_cons]
    by_cases hnil : rest = []
    · exact ih horders' hrest hwf hclosed hsettled (by rw [hnil]; exact Nat.zero_le _)
    · obtain ⟨a, ha, hsource⟩ := exists_source hnil hwf
      have hreads : ∀ y, Reads y a → y ∉ rest := fun y hy hyr => hsource y hyr hy
      let rest' := rest.filter fun x => x ≠ a
      have hrest' : ∀ x, x ∈ rest' ↔ x ∈ rest ∧ x ≠ a := fun x => by
        simp only [rest', List.mem_filter, decide_eq_true_eq]
      have hshrinks : rest'.length < rest.length :=
        List.length_filter_lt_length_iff_exists.mpr ⟨a, ha, by simp⟩
      rw [List.length_cons] at hlen
      refine ih horders' (fun x hx => hrest x ((hrest' x).mp hx).1)
        (hwf.mono (le_refl _) fun x hx => ((hrest' x).mp hx).1) ?_ ?_ (by omega)
      · intro x hx hxr y hy hyr
        have hyr := ((hrest' y).mp hyr).1
        by_cases e : x = a
        · rw [e] at hy
          exact hreads y hy hyr
        · exact hclosed x hx (fun h => hxr ((hrest' x).mpr ⟨h, e⟩)) y hy hyr
      · intro x hxr
        by_cases e : x = a
        · rw [e]
          exact sweep_settles hlocal heq' hclosed' hv ((hmem a).mpr (hrest a ha)) hreads
        · exact hsettled x fun h => hxr ((hrest' x).mpr ⟨h, e⟩)

/-- **repeated sweeps end in the solution**, whatever order each of them takes -/
theorem sweeps_solve (hlocal : LocalTo f Reads) {l : List α} {v s : α → β}
    (hwf : {x | x ∈ l}.WellFoundedOn Reads) (hs : Solves f l v s) {orders : List (List α)}
    (horders : ∀ l' ∈ orders, ∀ x, x ∈ l' ↔ x ∈ l) (hlen : l.length ≤ orders.length) :
    orders.foldl (fun v l' => sweep f l' v) v = s :=
  sweeps_settle hlocal hs.equation horders (fun _ hx => hx) hwf
    (fun _ hx hno => absurd hx hno) (fun x hx => (hs.outside x hx).symm) hlen

/-! ## monotone equations -/

theorem sweep_mono [Preorder β] {f g : α → (α → β) → β}
    (hfg : ∀ x v w, (∀ y, v y ≤ w y) → f x v ≤ g x w) (l : List α) {v w : α → β}
    (hvw : ∀ y, v y ≤ w y) : ∀ y, sweep f l v y ≤ sweep g l w y := by
  induction l generalizing v w with
  | nil => exact hvw
  | cons a l ih =>
    intro z
    rw [sweep_cons, sweep_cons]
    refine ih (fun y => ?_) z
    by_cases e : y = a
    · subst e
      rw [Function.update_self, Function.update_self]
      exact hfg y v w hvw
    · rw [Function.update_of_ne e, Function.update_of_ne e]
      exact hvw y

end
end Lib
