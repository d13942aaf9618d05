import Mathlib.Data.List.Basic

/-!
# Folding a step that may fail

`tryFold f s as` folds `f` over `as`; the first step that fails ends it, and its state stays.

* `tryFold_induction`   what every step keeps, the fold keeps;
* `tryFold_ok_iff`      a fold is `ok` when its steps are, if an invariant tells which these are;
* `tryFold_find`        steps that do not fail before the first member of interest can be skipped;
* `bind_eq_ok`, `forM_eq_ok`   a sequence of computations is `ok` when each of them is.
-/

set_option linter.unusedSectionVars false

namespace Lib

section
variable {S A E : Type} (f : S → A → Except E Unit × S)

def tryFold : S → List A → Except E Unit × S
  | s, [] => (.ok (), s)
  | s, a :: as =>
    match f s a with
    | (.error e, s') => (.error e, s')
    | (.ok (), s') => tryFold s' as

variable {f}

theorem tryFold_cons_ok {s s' : S} {a : A} (h : f s a = (.ok (), s')) (as : List A) :
    tryFold f s (a :: as) = tryFold f s' as := by
  rw [tryFold]
  rw [h]

theorem tryFold_cons_error {s s' : S} {a : A} {e : E} (h : f s a = (.error e, s'))
    (as : List A) : tryFold f s (a :: as) = (.error e, s') := by
  rw [tryFold]
  rw [h]

/-- **what every step keeps, failing or not, the fold keeps**, and its error is that of a step -/
theorem tryFold_induction (f : S → A → Except E Unit × S) (Inv : S → Prop) (Err : E → Prop)
    (hstep : ∀ s a, Inv s → Inv (f s a).2) (herr : ∀ s a e, Inv s → (f s a).1 = .error e → Err e)
    {s : S} (hs : Inv s) (as : List A) :
    Inv (tryFold f s as).2 ∧ ∀ e, (tryFold f s as).1 = .error e → Err e := by
  induction as generalizing s with
  | nil => exact ⟨hs, fun e h => nomatch h⟩
  | cons a as ih =>
    have ha := hstep s a hs
    have hae := herr s a
    rcases h : f s a with ⟨r, s'⟩
    rw [h] at ha hae
    cases r with
    | error e =>
      rw [tryFold_cons_error h]
      refine ⟨ha, fun e' he => ?_⟩
      obtain rfl := Except.error.inj he
      exact hae e hs rfl
    | ok =>
      rw [tryFold_cons_ok h]
      exact ih ha

/-- **a fold is `ok` when its steps are**, if under an invariant a step is `ok` by its member
only -/
theorem tryFold_ok_iff (f : S → A → Except E Unit × S) (Inv : S → Prop) (p : A → Prop)
    (hstep : ∀ s a, Inv s → Inv (f s a).2)
    (hok : ∀ s a, Inv s → ((f s a).1 = .ok () ↔ p a)) {s : S} (hs : Inv s) (as : List A) :
    (tryFold f s as).1 = .ok () ↔ ∀ a ∈ as, p a := by
  induction as generalizing s with
  | nil => exact iff_of_true rfl fun a ha => absurd ha List.not_mem_nil
  | cons a as ih =>
    have ha := hstep s a hs
    have hpa := hok s a hs
    rw [List.forall_mem_cons]
    rcases h : f s a with ⟨r, s'⟩
    rw [h] at ha hpa
    cases r with
    | error e =>
      rw [tryFold_cons_error h]
      exact iff_of_false (fun he => nomatch he) fun hp => nomatch hpa.mpr hp.1
    | ok =>
      rw [tryFold_cons_ok h, ih ha]
      exact (and_iff_right (hpa.mp rfl)).symm

/-- the fold up to the first member that satisfies `p`, when the others do not fail -/
theorem tryFold_find (f : S → A → Except E Unit × S) (Inv : S → Prop) (p : A → Bool)
    (hskip : ∀ s a, Inv s → p a = false → ∃ s', f s a = (.ok (), s') ∧ Inv s') {s : S} (hs : Inv s)
    (as : List A) :
    (as.find? p = none ∧ ∃ s', tryFold f s as = (.ok (), s') ∧ Inv s') ∨
      ∃ a s' post, as.find? p = some a ∧ Inv s' ∧
        tryFold f s as = tryFold f s' (a :: post) := by
  induction as generalizing s with
  | nil => exact Or.inl ⟨rfl, s, rfl, hs⟩
  | cons a as ih =>
    cases ha : p a with
    | true => exact Or.inr ⟨a, s, as, List.find?_cons_of_pos ha, hs, rfl⟩
    | false =>
      obtain ⟨s', h, hs'⟩ := hskip s a hs ha
      have hfind : (a :: as).find? p = as.find? p :=
        List.find?_cons_of_neg (by rw [ha]; exact Bool.false_ne_true)
      rw [hfind, tryFold_cons_ok h]
      exact ih hs'

end

section
variable {α β E F : Type}

theorem bind_eq_ok {x : Except E α} {f : α → Except E β} {b : β} :
    (x >>= f) = .ok b ↔ ∃ a, x = .ok a ∧ f a = .ok b := by
  cases x with
  | error e => exact ⟨fun h => (nomatch h), fun ⟨a, h, _⟩ => (nomatch h)⟩
  | ok a =>
    refine ⟨fun h => ⟨a, rfl, h⟩, fun ⟨a', ha, h⟩ => ?_⟩
    obtain rfl := Except.ok.inj ha
    exact h

theorem mapError_eq_ok {x : Except E α} {f : E → F} {a : α} :
    x.mapError f = .ok a ↔ x = .ok a := by
  cases x with
  | error e => exact ⟨fun h => (nomatch h), fun h => (nomatch h)⟩
  | ok b => exact ⟨fun h => congrArg _ (Except.ok.inj h), fun h => congrArg _ (Except.ok.inj h)⟩

/-- a check that refuses when `p` holds -/
theorem refuse_eq_ok {p : Prop} [Decidable p] {e : E} {x : Except E α} {a : α} :
    (if p then .error e else x) = .ok a ↔ ¬ p ∧ x = .ok a := by
  by_cases hp : p
  · rw [if_pos hp]
    exact ⟨fun h => (nomatch h), fun h => absurd hp h.1⟩
  · rw [if_neg hp]
    exact ⟨fun h => ⟨hp, h⟩, fun h => h.2⟩

/-- a check of every member -/
theorem forM_eq_ok {f : α → Except E Unit} {as : List α} :
    as.forM f = .ok () ↔ ∀ a ∈ as, f a = .ok () := by
  induction as with
  | nil => exact ⟨fun _ a ha => absurd ha List.not_mem_nil, fun _ => rfl⟩
  | cons a as ih =>
    have hcons : (a :: as).forM f = f a >>= fun _ => as.forM f := rfl
    rw [hcons, bind_eq_ok, List.forall_mem_cons]
    exact ⟨fun ⟨_, ha, has⟩ => ⟨ha, ih.mp has⟩, fun ⟨ha, has⟩ => ⟨(), ha, ih.mpr has⟩⟩

end
end Lib
