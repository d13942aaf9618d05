import Mathlib.Data.List.Basic
import Mathlib.Data.List.Induction

/-!
# Runs of a step function

`run step s as` takes the steps `as` one after the other.  `StateOf step s as t` says that the run
is in the state `t` at some time, and `StepOf step s as t a` that it then takes the step `a`.

* `run_invariant`       what every step keeps, every run keeps;
* `run_invariant_of`    the same for runs all of whose steps meet a condition, in every state;
* `stateOf_good`        what the states of a run show, with what every step keeps, carries over to
                        what lies behind it;
* `forall_state_iff`    when one step keeps `Good` exactly if it meets `Ok`, a run stays `Good`
                        throughout exactly if all its steps meet `Ok`;
* `lockstep_iff`        two systems that take the same steps look the same throughout exactly when
                        each step meets the condition under which they stay related;
* `last_decides`        when some steps decide a property of the state and the others keep it, the
                        last step that decides it decides it for the run;
* `last_change`         what holds at the start holds at the end when the last step that may change
                        it leaves it true;
* `register_iff`        when some steps write a register and the others leave it alone, it reads
                        what the last of the writes has written;
* `exists_flip`         a property that a run makes true is made true by one of its steps;
* `run_mono`, `run_lt`  what no step of a run decreases, the run does not decrease, and increases
                        if a step does;
* `pairwise_outputs`    what the steps give one after the other, a clock orders;
* `log_complete_iff`    a log that may miss what a step owes is complete exactly when it misses
                        nothing.
-/

set_option linter.unusedSectionVars false

namespace Lib

section
variable {S A : Type} (step : S → A → S)

def run (s : S) (as : List A) : S := as.foldl step s

theorem run_append (s : S) (as bs : List A) :
    run step s (as ++ bs) = run step (run step s as) bs := List.foldl_append

theorem run_concat (s : S) (as : List A) (a : A) :
    run step s (as ++ [a]) = step (run step s as) a := run_append step s as [a]

theorem run_append_cons (s : S) (as : List A) (a : A) (bs : List A) :
    run step s (as ++ a :: bs) = run step (run step s (as ++ [a])) bs := by
  rw [run_concat, run_append]
  rfl

/-- the run of `as` from `s` takes the step `a` in the state `t` -/
def StepOf (s : S) (as : List A) (t : S) (a : A) : Prop :=
  ∃ pre post, as = pre ++ a :: post ∧ t = run step s pre

/-- the states of a run, the first and the last included -/
def StateOf (s : S) (as : List A) (t : S) : Prop :=
  ∃ pre post, as = pre ++ post ∧ t = run step s pre

variable {step}

theorem stepOf_cons {s : S} {b : A} {as : List A} {t : S} {a : A} :
    StepOf step s (b :: as) t a ↔ (t = s ∧ a = b) ∨ StepOf step (step s b) as t a := by
  constructor
  · intro hp
    obtain ⟨pre, post, h, rfl⟩ := hp
    cases pre with
    | nil =>
      obtain ⟨rfl, -⟩ := List.cons.inj h
      exact Or.inl ⟨rfl, rfl⟩
    | cons c pre =>
      obtain ⟨rfl, hr⟩ := List.cons.inj h
      exact Or.inr ⟨pre, post, hr, rfl⟩
  · intro hp
    rcases hp with ⟨rfl, rfl⟩ | ⟨pre, post, rfl, rfl⟩
    · exact ⟨[], as, rfl, rfl⟩
    · exact ⟨b :: pre, post, rfl, rfl⟩

theorem not_stepOf_nil {s t : S} {a : A} : ¬ StepOf step s [] t a := by
  intro hp
  obtain ⟨pre, post, h, -⟩ := hp
  cases pre <;> cases h

theorem stateOf_nil {s t : S} : StateOf step s [] t ↔ t = s := by
  constructor
  · intro hp
    obtain ⟨pre, post, h, rfl⟩ := hp
    rw [(List.append_eq_nil_iff.mp h.symm).1]
    rfl
  · rintro rfl
    exact ⟨[], [], rfl, rfl⟩

theorem stateOf_cons {s : S} {b : A} {as : List A} {t : S} :
    StateOf step s (b :: as) t ↔ t = s ∨ StateOf step (step s b) as t := by
  constructor
  · intro hp
    obtain ⟨pre, post, h, rfl⟩ := hp
    cases pre with
    | nil => exact Or.inl rfl
    | cons c pre =>
      obtain ⟨rfl, hr⟩ := List.cons.inj h
      exact Or.inr ⟨pre, post, hr, rfl⟩
  · intro hp
    rcases hp with rfl | ⟨pre, post, rfl, rfl⟩
    · exact ⟨[], b :: as, rfl, rfl⟩
    · exact ⟨b :: pre, post, rfl, rfl⟩

theorem stateOf_last (s : S) (as : List A) : StateOf step s as (run step s as) :=
  ⟨as, [], (List.append_nil as).symm, rfl⟩

theorem StepOf.state {s t : S} {as : List A} {a : A} (h : StepOf step s as t a) :
    StateOf step s as t := by
  obtain ⟨pre, post, rfl, rfl⟩ := h
  exact ⟨pre, a :: post, rfl, rfl⟩

/-- a step of a run is one of every longer run -/
theorem StepOf.append {s t : S} {as : List A} {a : A} (h : StepOf step s as t a) (bs : List A) :
    StepOf step s (as ++ bs) t a := by
  obtain ⟨pre, post, rfl, rfl⟩ := h
  exact ⟨pre, post ++ bs, by rw [List.append_assoc]; rfl, rfl⟩

/-- the same of what a run goes on with -/
theorem StepOf.drop {s t : S} {as bs : List A} {a : A} (h : StepOf step (run step s as) bs t a) :
    StepOf step s (as ++ bs) t a := by
  obtain ⟨pre, post, rfl, rfl⟩ := h
  exact ⟨as ++ pre, post, by rw [List.append_assoc], (run_append step s as pre).symm⟩

variable (step) in
/-- each step of the run of `as` from `s` meets `Ok` -/
def EachStep (Ok : S → A → Prop) : S → List A → Prop
  | _, [] => True
  | s, a :: as => Ok s a ∧ EachStep Ok (step s a) as

theorem eachStep_iff {Ok : S → A → Prop} {s : S} {as : List A} :
    EachStep step Ok s as ↔ ∀ t a, StepOf step s as t a → Ok t a := by
  induction as generalizing s with
  | nil => exact iff_of_true trivial fun t a h => absurd h not_stepOf_nil
  | cons b as ih =>
    show Ok s b ∧ EachStep step Ok (step s b) as ↔ _
    rw [ih]
    constructor
    · intro h t a ha
      rcases stepOf_cons.mp ha with ⟨rfl, rfl⟩ | ha
      · exact h.1
      · exact h.2 t a ha
    · intro h
      exact ⟨h s b (stepOf_cons.mpr (Or.inl ⟨rfl, rfl⟩)),
        fun t a ha => h t a (stepOf_cons.mpr (Or.inr ha))⟩

instance decidableEachStep {Ok : S → A → Prop} [∀ s a, Decidable (Ok s a)] :
    ∀ (s : S) (as : List A), Decidable (EachStep step Ok s as)
  | _, [] => .isTrue trivial
  | s, a :: as =>
    have : Decidable (EachStep step Ok (step s a) as) := decidableEachStep (step s a) as
    inferInstanceAs (Decidable (Ok s a ∧ EachStep step Ok (step s a) as))

/-! ## invariants -/

/-- **what every step that meets `Ok` keeps, a run of such steps keeps** -/
theorem run_invariant_of {Inv : S → Prop} {Ok : S → A → Prop}
    (hstep : ∀ s a, Inv s → Ok s a → Inv (step s a)) {s : S} {as : List A} (hs : Inv s)
    (hok : ∀ t a, StepOf step s as t a → Ok t a) : ∀ t, StateOf step s as t → Inv t := by
  induction as generalizing s with
  | nil =>
    intro t ht
    rw [stateOf_nil.mp ht]
    exact hs
  | cons b as ih =>
    intro t ht
    rcases stateOf_cons.mp ht with rfl | ht
    · exact hs
    · have hb : Ok s b := hok s b (stepOf_cons.mpr (Or.inl ⟨rfl, rfl⟩))
      exact ih (hstep s b hs hb) (fun t a h => hok t a (stepOf_cons.mpr (Or.inr h))) t ht

/-- what every step keeps holds in every state of every run -/
theorem stateOf_invariant {Inv : S → Prop} (hstep : ∀ s a, Inv s → Inv (step s a)) {s : S}
    (hs : Inv s) {as : List A} {t : S} (ht : StateOf step s as t) : Inv t :=
  @run_invariant_of S A step Inv (fun _ _ => True) (fun s a h _ => hstep s a h) s as hs
    (fun _ _ _ => trivial) t ht

theorem run_invariant {Inv : S → Prop} (hstep : ∀ s a, Inv s → Inv (step s a)) {s : S}
    (hs : Inv s) (as : List A) : Inv (run step s as) :=
  stateOf_invariant hstep hs (stateOf_last s as)

/-- a run whose states are all `Shown` is `Good` throughout, when a step from a good state to a
shown one leads to a good one -/
theorem stateOf_good {Inv Good Shown : S → Prop} (hinv : ∀ s a, Inv s → Inv (step s a))
    (hstep : ∀ s a, Inv s → Good s → Shown (step s a) → Good (step s a)) {s : S} (hs : Inv s)
    (hg : Good s) {as : List A} (h : ∀ t, StateOf step s as t → Shown t) :
    ∀ t, StateOf step s as t → Good t := by
  have hrun := @run_invariant_of S A step (fun t => Inv t ∧ Good t)
    (fun t a => Shown (step t a)) (fun t a ht ha => ⟨hinv t a ht.1, hstep t a ht.1 ht.2 ha⟩) s as
    ⟨hs, hg⟩ ?_
  · exact fun t ht => (hrun t ht).2
  · intro t a ht
    obtain ⟨pre, post, rfl, rfl⟩ := ht
    exact h _ ⟨pre ++ [a], post, by rw [List.append_assoc]; rfl, (run_concat step s pre a).symm⟩

/-- what no step of a run decreases, the run does not decrease -/
theorem run_mono {clock : S → Nat} {s : S} {as : List A}
    (h : ∀ t a, StepOf step s as t a → clock t ≤ clock (step t a)) :
    clock s ≤ clock (run step s as) := by
  have hall := @run_invariant_of S A step (fun t => clock s ≤ clock t)
    (fun t a => clock t ≤ clock (step t a)) (fun _ _ ht ha => Nat.le_trans ht ha) s as
    (Nat.le_refl (clock s)) h
  exact hall _ (stateOf_last s as)

/-- and it increases what one of its steps increases -/
theorem run_lt {clock : S → Nat} {s t : S} {a : A} {as : List A}
    (h : ∀ t a, StepOf step s as t a → clock t ≤ clock (step t a)) (hstep : StepOf step s as t a)
    (hlt : clock t < clock (step t a)) : clock s < clock (run step s as) := by
  obtain ⟨pre, post, rfl, rfl⟩ := hstep
  have hbefore : clock s ≤ clock (run step s pre) :=
    run_mono fun t b hb => h t b (hb.append (a :: post))
  have hafter : clock (step (run step s pre) a) ≤
      clock (run step (step (run step s pre) a) post) :=
    run_mono fun t b hb => h t b (StepOf.drop (stepOf_cons.mpr (Or.inr hb)))
  have hlast : run step s (pre ++ a :: post) = run step (step (run step s pre) a) post :=
    run_append step s pre (a :: post)
  rw [hlast]
  omega

/-- **a run is `Good` throughout exactly when each of its steps meets `Ok`**, where `Ok` says of a
good state that satisfies the invariant, and of a step that meets `Pre`, whether the step leaves a
good state -/
theorem forall_state_iff {Inv Good : S → Prop} {Pre Ok : S → A → Prop}
    (hinv : ∀ s a, Inv s → Inv (step s a))
    (hstep : ∀ s a, Inv s → Good s → Pre s a → (Good (step s a) ↔ Ok s a)) {s : S} (hs : Inv s)
    (hg : Good s) (as : List A) (hpre : ∀ t a, StepOf step s as t a → Pre t a) :
    (∀ t, StateOf step s as t → Good t) ↔ ∀ t a, StepOf step s as t a → Ok t a := by
  induction as generalizing s with
  | nil =>
    constructor
    · intro _ t a h
      exact absurd h not_stepOf_nil
    · intro _ t h
      rw [stateOf_nil.mp h]
      exact hg
  | cons b as ih =>
    have hb : Pre s b := hpre s b (stepOf_cons.mpr (Or.inl ⟨rfl, rfl⟩))
    have hpre' : ∀ t a, StepOf step (step s b) as t a → Pre t a :=
      fun t a h => hpre t a (stepOf_cons.mpr (Or.inr h))
    constructor
    · intro h t a ha
      have hgood : Good (step s b) := h _ (stateOf_cons.mpr (Or.inr ⟨[], as, rfl, rfl⟩))
      rcases stepOf_cons.mp ha with ⟨rfl, rfl⟩ | ha
      · exact (hstep t a hs hg hb).mp hgood
      · exact (ih (hinv s b hs) hgood hpre').mp
          (fun t ht => h t (stateOf_cons.mpr (Or.inr ht))) t a ha
    · intro h t ht
      have hgood : Good (step s b) :=
        (hstep s b hs hg hb).mpr (h s b (stepOf_cons.mpr (Or.inl ⟨rfl, rfl⟩)))
      rcases stateOf_cons.mp ht with rfl | ht
      · exact hg
      · exact (ih (hinv s b hs) hgood hpre').mpr
          (fun t a ha => h t a (stepOf_cons.mpr (Or.inr ha))) t ht

/-! ## two runs of the same steps -/

/-- **two systems that take the same steps look the same throughout exactly when each step of the
first meets `Ok`**, where `Rel` relates states that look the same, a step that meets `Ok` keeps it,
and one that does not leaves states that look different -/
theorem lockstep_iff {S' : Type} {step' : S' → A → S'} {Rel Same : S → S' → Prop}
    {Ok : S → A → Prop} (hsame : ∀ s s', Rel s s' → Same s s')
    (hkeep : ∀ s s' a, Rel s s' → Ok s a → Rel (step s a) (step' s' a))
    (hbreak : ∀ s s' a, Rel s s' → ¬ Ok s a → ¬ Same (step s a) (step' s' a)) {s : S} {s' : S'}
    (h : Rel s s') (as : List A) :
    (∀ pre post, as = pre ++ post → Same (run step s pre) (run step' s' pre)) ↔
      ∀ t a, StepOf step s as t a → Ok t a := by
  induction as generalizing s s' with
  | nil =>
    refine iff_of_true (fun pre post hp => ?_) fun t a ht => absurd ht not_stepOf_nil
    rw [(List.append_eq_nil_iff.mp hp.symm).1]
    exact hsame s s' h
  | cons b as ih =>
    constructor
    · intro hall
      have hb : Ok s b := by
        by_contra hno
        exact hbreak s s' b h hno (hall [b] as rfl)
      have hrest := (ih (hkeep s s' b h hb)).mp fun pre post hp =>
        hall (b :: pre) post (by rw [hp]; rfl)
      intro t a ht
      rcases stepOf_cons.mp ht with ⟨rfl, rfl⟩ | ht
      · exact hb
      · exact hrest t a ht
    · intro hall pre post hp
      have hb : Ok s b := hall s b (stepOf_cons.mpr (Or.inl ⟨rfl, rfl⟩))
      cases pre with
      | nil => exact hsame s s' h
      | cons c pre =>
        obtain ⟨rfl, hrest⟩ := List.cons.inj hp
        exact (ih (hkeep s s' b h hb)).mpr
          (fun t a ht => hall t a (stepOf_cons.mpr (Or.inr ht))) pre post hrest

/-! ## the last step that decides -/

theorem stepOf_concat {s : S} {as : List A} {b : A} {t : S} {a : A} :
    StepOf step s (as ++ [b]) t a ↔ StepOf step s as t a ∨ (t = run step s as ∧ a = b) := by
  constructor
  · intro hp
    obtain ⟨pre, post, h, rfl⟩ := hp
    rcases List.eq_nil_or_concat' post with rfl | ⟨post', c, rfl⟩
    · obtain ⟨rfl, h'⟩ := List.append_inj' h rfl
      exact Or.inr ⟨rfl, (List.cons.inj h').1.symm⟩
    · have h' : as ++ [b] = (pre ++ a :: post') ++ [c] := by
        rw [h, List.append_assoc]
        rfl
      exact Or.inl ⟨pre, post', (List.append_inj' h' rfl).1, rfl⟩
  · intro hp
    rcases hp with ⟨pre, post, rfl, rfl⟩ | ⟨rfl, rfl⟩
    · exact ⟨pre, post ++ [b], by rw [List.append_assoc]; rfl, rfl⟩
    · exact ⟨as, [], rfl, rfl⟩

/-- of the steps of a run that satisfy `D`, `(t, a)` is the last -/
def LastStepOf (step : S → A → S) (D : S → A → Prop) (s : S) (as : List A) (t : S) (a : A) :
    Prop :=
  ∃ pre post, as = pre ++ a :: post ∧ t = run step s pre ∧ D t a ∧
    ∀ u b, StepOf step (step t a) post u b → ¬ D u b

theorem lastStepOf_concat {D : S → A → Prop} {s : S} {as : List A} {b : A} {t : S} {a : A} :
    LastStepOf step D s (as ++ [b]) t a ↔
      (D (run step s as) b ∧ t = run step s as ∧ a = b) ∨
      (¬ D (run step s as) b ∧ LastStepOf step D s as t a) := by
  have hlast : ∀ pre post,
      run step (step (run step s pre) a) post = run step s (pre ++ a :: post) :=
    fun pre post => (run_append step s pre (a :: post)).symm
  constructor
  · intro hp
    obtain ⟨pre, post, h, rfl, hd, hno⟩ := hp
    rcases List.eq_nil_or_concat' post with rfl | ⟨post', c, rfl⟩
    · obtain ⟨rfl, h'⟩ := List.append_inj' h rfl
      obtain rfl := (List.cons.inj h').1
      exact Or.inl ⟨hd, rfl, rfl⟩
    · have h' : as ++ [b] = (pre ++ a :: post') ++ [c] := by
        rw [h, List.append_assoc]
        rfl
      obtain ⟨rfl, hc⟩ := List.append_inj' h' rfl
      obtain rfl := (List.cons.inj hc).1
      refine Or.inr ⟨fun hb => ?_, pre, post', rfl, rfl, hd, fun u c hu => ?_⟩
      · exact hno _ b (stepOf_concat.mpr (Or.inr ⟨(hlast pre post').symm, rfl⟩)) hb
      · exact hno u c (stepOf_concat.mpr (Or.inl hu))
  · intro hp
    rcases hp with ⟨hd, rfl, rfl⟩ | ⟨hb, pre, post, rfl, rfl, hd, hno⟩
    · exact ⟨as, [], rfl, rfl, hd, fun u b h => absurd h not_stepOf_nil⟩
    · refine ⟨pre, post ++ [b], by rw [List.append_assoc]; rfl, rfl, hd, fun u c hu => ?_⟩
      rcases stepOf_concat.mp hu with hu | ⟨rfl, rfl⟩
      · exact hno u c hu
      · rw [hlast]
        exact hb

/-- **the last step that decides `P` decides it for the run** -/
theorem last_decides {P : S → Prop} {D Good : S → A → Prop}
    (hkeep : ∀ s a, ¬ D s a → (P (step s a) ↔ P s))
    (hset : ∀ s a, D s a → (P (step s a) ↔ Good s a))
    (s : S) (as : List A) (hex : ∃ t a, StepOf step s as t a ∧ D t a) :
    P (run step s as) ↔ ∃ t a, LastStepOf step D s as t a ∧ Good t a := by
  induction as using List.reverseRecOn with
  | nil =>
    obtain ⟨t, a, h, -⟩ := hex
    exact absurd h not_stepOf_nil
  | append_singleton as b ih =>
    rw [run_concat]
    by_cases hb : D (run step s as) b
    · rw [hset _ b hb]
      constructor
      · exact fun hg => ⟨_, b, lastStepOf_concat.mpr (Or.inl ⟨hb, rfl, rfl⟩), hg⟩
      · intro hp
        obtain ⟨t, a, hl, hg⟩ := hp
        rcases lastStepOf_concat.mp hl with ⟨-, rfl, rfl⟩ | ⟨hno, -⟩
        · exact hg
        · exact absurd hb hno
    · have hex' : ∃ t a, StepOf step s as t a ∧ D t a := by
        obtain ⟨t, a, h, hd⟩ := hex
        rcases stepOf_concat.mp h with h | ⟨rfl, rfl⟩
        · exact ⟨t, a, h, hd⟩
        · exact absurd hd hb
      rw [hkeep _ b hb, ih hex']
      refine exists₂_congr fun t a => and_congr_left fun _ => ?_
      constructor
      · exact fun hl => lastStepOf_concat.mpr (Or.inr ⟨hb, hl⟩)
      · intro hl
        rcases lastStepOf_concat.mp hl with ⟨hb', -⟩ | ⟨-, hl⟩
        · exact absurd hb' hb
        · exact hl

/-- **what holds at the start holds at the end exactly when the last step that may change it, if
there is one, leaves it true**: `D` says which steps may -/
theorem last_change {P : S → Prop} {D : S → A → Prop}
    (hkeep : ∀ s a, ¬ D s a → (P (step s a) ↔ P s)) {s : S} (hs : P s) (as : List A) :
    P (run step s as) ↔ ∀ t a, LastStepOf step D s as t a → P (step t a) := by
  induction as using List.reverseRecOn with
  | nil =>
    refine iff_of_true hs fun t a hl => ?_
    obtain ⟨pre, post, h, -⟩ := hl
    cases pre <;> cases h
  | append_singleton as b ih =>
    rw [run_concat]
    by_cases hb : D (run step s as) b
    · constructor
      · intro hp t a hl
        rcases lastStepOf_concat.mp hl with ⟨-, rfl, rfl⟩ | ⟨hno, -⟩
        · exact hp
        · exact absurd hb hno
      · exact fun h => h _ b (lastStepOf_concat.mpr (Or.inl ⟨hb, rfl, rfl⟩))
    · rw [hkeep _ b hb, ih]
      constructor
      · intro h t a hl
        rcases lastStepOf_concat.mp hl with ⟨hd, -, -⟩ | ⟨-, hl⟩
        · exact absurd hd hb
        · exact h t a hl
      · exact fun h t a hl => h t a (lastStepOf_concat.mpr (Or.inr ⟨hb, hl⟩))

/-- **a register reads what the last step that writes it has written**: `read` is the register,
`W` says which steps write it, and it is empty at the start -/
theorem register_iff {V : Type} {W : S → A → Prop} {read : S → Option V} {written : A → V} {s : S}
    {as : List A} (hs : read s = none)
    (hset : ∀ t a, StepOf step s as t a → W t a → read (step t a) = some (written a))
    (hkeep : ∀ t a, StepOf step s as t a → ¬ W t a → read (step t a) = read t) (v : V) :
    read (run step s as) = some v ↔ ∃ t a, LastStepOf step W s as t a ∧ written a = v := by
  induction as using List.reverseRecOn with
  | nil =>
    have hread : read (run step s []) = none := hs
    rw [hread]
    refine iff_of_false (fun h => nomatch h) fun h => ?_
    obtain ⟨t, a, hl, -⟩ := h
    obtain ⟨pre, post, h, -⟩ := hl
    cases pre <;> cases h
  | append_singleton as b ih =>
    have hlast : StepOf step s (as ++ [b]) (run step s as) b :=
      stepOf_concat.mpr (Or.inr ⟨rfl, rfl⟩)
    have ih := ih (fun t a h => hset t a (h.append [b])) (fun t a h => hkeep t a (h.append [b]))
    rw [run_concat]
    by_cases hb : W (run step s as) b
    · rw [hset _ b hlast hb]
      constructor
      · exact fun h => ⟨_, b, lastStepOf_concat.mpr (Or.inl ⟨hb, rfl, rfl⟩), Option.some.inj h⟩
      · intro h
        obtain ⟨t, a, hl, hv⟩ := h
        rcases lastStepOf_concat.mp hl with ⟨-, -, rfl⟩ | ⟨hno, -⟩
        · exact congrArg some hv
        · exact absurd hb hno
    · rw [hkeep _ b hlast hb, ih]
      refine exists₂_congr fun t a => and_congr_left fun _ => ?_
      constructor
      · exact fun hl => lastStepOf_concat.mpr (Or.inr ⟨hb, hl⟩)
      · intro hl
        rcases lastStepOf_concat.mp hl with ⟨hb', -⟩ | ⟨-, hl⟩
        · exact absurd hb' hb
        · exact hl

/-- a property that a run makes true is made true by one of its steps -/
theorem exists_flip {Q : S → Prop} {s : S} {as : List A} (hs : ¬ Q s) (h : Q (run step s as)) :
    ∃ t a, StepOf step s as t a ∧ ¬ Q t ∧ Q (step t a) := by
  induction as generalizing s with
  | nil => exact absurd h hs
  | cons b as ih =>
    by_cases hb : Q (step s b)
    · exact ⟨s, b, stepOf_cons.mpr (Or.inl ⟨rfl, rfl⟩), hs, hb⟩
    · obtain ⟨t, a, ht, hq⟩ := ih hb h
      exact ⟨t, a, stepOf_cons.mpr (Or.inr ht), hq⟩

/-! ## a log of what the steps give -/

variable {E : Type} (step)

/-- what the steps of a run give, in order -/
def outputs (out : S → A → List E) : S → List A → List E
  | _, [] => []
  | s, a :: as => out s a ++ outputs out (step s a) as

variable {step}

/-- the log of a run is what its steps have added to it -/
theorem log_run {Inv : S → Prop} {log : S → List E} {out : S → A → List E}
    (hinv : ∀ s a, Inv s → Inv (step s a))
    (hlog : ∀ s a, Inv s → log (step s a) = log s ++ out s a) {s : S} (hs : Inv s) (as : List A) :
    log (run step s as) = log s ++ outputs step out s as := by
  induction as generalizing s with
  | nil => exact (List.append_nil (log s)).symm
  | cons a as ih =>
    show log (run step (step s a) as) = log s ++ (out s a ++ outputs step out (step s a) as)
    rw [ih (hinv s a hs), hlog s a hs, List.append_assoc]

theorem mem_outputs {out : S → A → List E} {s : S} {as : List A} {e : E} :
    e ∈ outputs step out s as ↔ ∃ t a, StepOf step s as t a ∧ e ∈ out t a := by
  induction as generalizing s with
  | nil =>
    refine iff_of_false List.not_mem_nil ?_
    intro h
    obtain ⟨t, a, ha, -⟩ := h
    exact not_stepOf_nil ha
  | cons b as ih =>
    show e ∈ out s b ++ outputs step out (step s b) as ↔ _
    rw [List.mem_append, ih]
    constructor
    · intro h
      rcases h with h | ⟨t, a, ha, h⟩
      · exact ⟨s, b, stepOf_cons.mpr (Or.inl ⟨rfl, rfl⟩), h⟩
      · exact ⟨t, a, stepOf_cons.mpr (Or.inr ha), h⟩
    · intro h
      obtain ⟨t, a, ha, h⟩ := h
      rcases stepOf_cons.mp ha with ⟨rfl, rfl⟩ | ha
      · exact Or.inl h
      · exact Or.inr ⟨t, a, ha, h⟩

theorem outputs_append {out : S → A → List E} (s : S) (as bs : List A) :
    outputs step out s (as ++ bs) =
      outputs step out s as ++ outputs step out (run step s as) bs := by
  induction as generalizing s with
  | nil => rfl
  | cons a as ih =>
    show out s a ++ outputs step out (step s a) (as ++ bs) =
      (out s a ++ outputs step out (step s a) as) ++ outputs step out (run step (step s a) as) bs
    rw [ih, List.append_assoc]

theorem eq_nil_or_singleton {l : List E} (h : l.length ≤ 1) : l = [] ∨ ∃ e, l = [e] := by
  cases l with
  | nil => exact Or.inl rfl
  | cons e l =>
    have hl : l.length = 0 := by
      rw [List.length_cons] at h
      omega
    rw [List.length_eq_zero_iff.mp hl]
    exact Or.inr ⟨e, rfl⟩

/-- what is given, with what has been given before it, step by step -/
theorem forall_output_iff {out : S → A → List E} {P : List E → E → Prop}
    (hone : ∀ t a, (out t a).length ≤ 1) {s : S} {as : List A} :
    (∀ pre e post, outputs step out s as = pre ++ e :: post → P pre e) ↔
      ∀ pre a post, as = pre ++ a :: post → ∀ e ∈ out (run step s pre) a,
        P (outputs step out s pre) e := by
  constructor
  · intro h pre a post has e he
    have hout : out (run step s pre) a = [e] := by
      rcases eq_nil_or_singleton (hone (run step s pre) a) with hl | ⟨x, hl⟩
      · rw [hl] at he
        exact absurd he List.not_mem_nil
      · rw [hl] at he
        rw [hl, List.mem_singleton.mp he]
    refine h _ e (outputs step out (step (run step s pre) a) post) ?_
    rw [has, outputs_append]
    show outputs step out s pre ++ (out (run step s pre) a ++ _) = _
    rw [hout]
    rfl
  · intro h pre e post
    induction as generalizing s P pre with
    | nil =>
      intro heq
      cases pre <;> cases heq
    | cons b as ih =>
      intro heq
      have htail : ∀ pre' a post', as = pre' ++ a :: post' →
          ∀ e ∈ out (run step (step s b) pre') a,
            P (out s b ++ outputs step out (step s b) pre') e :=
        fun pre' a post' has => h (b :: pre') a post' (congrArg (b :: ·) has)
      have heq' : out s b ++ outputs step out (step s b) as = pre ++ e :: post := heq
      rcases eq_nil_or_singleton (hone s b) with hl | ⟨x, hl⟩
      · rw [hl] at heq' htail
        exact ih htail pre heq'
      · rw [hl] at heq' htail
        cases pre with
        | nil =>
          obtain ⟨rfl, -⟩ := List.cons.inj heq'
          have hrun : run step s [] = s := rfl
          refine h [] b as rfl x ?_
          rw [hrun, hl]
          exact List.mem_cons_self
        | cons y pre =>
          obtain ⟨rfl, heq''⟩ := List.cons.inj heq'
          exact @ih (fun pre e => P (x :: pre) e) (step s b) htail pre heq''

/-- **what the steps give one after the other, a clock orders**: each begins no earlier than the
ones before it end -/
theorem pairwise_outputs {out : S → A → List E} {clock : S → Nat} {start stop : E → Nat} {s : S}
    {as : List A} (hclock : ∀ t a, StepOf step s as t a → clock t ≤ clock (step t a))
    (hone : ∀ t a, (out t a).length ≤ 1)
    (hspan : ∀ t a, StepOf step s as t a → ∀ e ∈ out t a,
      clock t ≤ start e ∧ stop e ≤ clock (step t a)) :
    (outputs step out s as).Pairwise fun e e' => stop e ≤ start e' := by
  induction as generalizing s with
  | nil => exact List.Pairwise.nil
  | cons b as ih =>
    have hb : StepOf step s (b :: as) s b := stepOf_cons.mpr (Or.inl ⟨rfl, rfl⟩)
    have hrest : ∀ t a, StepOf step (step s b) as t a → StepOf step s (b :: as) t a :=
      fun t a ha => stepOf_cons.mpr (Or.inr ha)
    refine List.pairwise_append.mpr ⟨?_, ih (fun t a ha => hclock t a (hrest t a ha))
      (fun t a ha => hspan t a (hrest t a ha)), fun e he e' he' => ?_⟩
    · rcases hl : out s b with _ | ⟨e, _ | ⟨e', l⟩⟩
      · exact List.Pairwise.nil
      · exact List.pairwise_singleton _ e
      · have hlen := hone s b
        rw [hl] at hlen
        simp at hlen
    · obtain ⟨t, a, ha, he'⟩ := mem_outputs.mp he'
      obtain ⟨pre, post, rfl, rfl⟩ := ha
      have hpre : clock (step s b) ≤ clock (run step (step s b) pre) := by
        exact run_mono fun t a ht => hclock t a (hrest t a (ht.append _))
      have hend := (hspan s b hb e he).2
      have hstart := (hspan _ _ (hrest _ _ ⟨pre, post, rfl, rfl⟩) e' he').1
      omega

theorem length_outputs_le {paid owed : S → A → List E}
    (h : ∀ s a, (paid s a).length ≤ (owed s a).length) (s : S) (as : List A) :
    (outputs step paid s as).length ≤ (outputs step owed s as).length := by
  induction as generalizing s with
  | nil => exact Nat.le_refl 0
  | cons a as ih =>
    show (paid s a ++ outputs step paid (step s a) as).length ≤
      (owed s a ++ outputs step owed (step s a) as).length
    have ha := h s a
    have has := ih (step s a)
    rw [List.length_append, List.length_append]
    omega

/-- **a log is complete exactly when each step pays what it owes**, if what it pays is that, or
less -/
theorem log_complete_iff {Inv : S → Prop} {log : S → List E} {paid owed : S → A → List E}
    (hinv : ∀ s a, Inv s → Inv (step s a))
    (hlog : ∀ s a, Inv s → log (step s a) = log s ++ paid s a)
    (hpaid : ∀ s a, paid s a = owed s a ∨ (paid s a).length < (owed s a).length) {s : S}
    (hs : Inv s) (as : List A) :
    log (run step s as) = log s ++ outputs step owed s as ↔
      ∀ t a, StepOf step s as t a → paid t a = owed t a := by
  have hle : ∀ s a, (paid s a).length ≤ (owed s a).length := by
    intro s a
    rcases hpaid s a with h | h
    · exact Nat.le_of_eq (congrArg List.length h)
    · exact Nat.le_of_lt h
  rw [log_run hinv hlog hs, List.append_cancel_left_eq]
  clear hs
  induction as generalizing s with
  | nil => exact iff_of_true rfl fun t a h => absurd h not_stepOf_nil
  | cons b as ih =>
    constructor
    · intro h t a ha
      have hcons : paid s b ++ outputs step paid (step s b) as =
          owed s b ++ outputs step owed (step s b) as := h
      have hlen := congrArg List.length hcons
      rw [List.length_append, List.length_append] at hlen
      have hrest := @length_outputs_le S A step E paid owed hle (step s b) as
      have hb : paid s b = owed s b := by
        rcases hpaid s b with hb | hb
        · exact hb
        · omega
      rw [hb, List.append_cancel_left_eq] at hcons
      rcases stepOf_cons.mp ha with ⟨rfl, rfl⟩ | ha
      · exact hb
      · exact ih.mp hcons t a ha
    · intro h
      show paid s b ++ outputs step paid (step s b) as =
        owed s b ++ outputs step owed (step s b) as
      rw [h s b (stepOf_cons.mpr (Or.inl ⟨rfl, rfl⟩)),
        ih.mpr fun t a ha => h t a (stepOf_cons.mpr (Or.inr ha))]

end
end Lib
