import Epica.Lib.Tally
import Epica.Mcp.Handlers

/-!
# System 2 budget accounting

A token of the reflection budget is at any time available, held by a task, or spent on a counted
activation.  The endpoint takes it, the task counts or refunds it; a request that finds none is
answered, and not counted.

* `tokens_accounted`      no token gets lost, as long as an `f32` counts them exactly;
* `accounts_balance_iff`  tokens and signals are accounted for throughout exactly in the runs that
                          refuse no request, and whose counts an `f32` holds exactly.
-/

set_option linter.unusedSectionVars false

namespace Epica
open Lib

/-! ## counts up to `2 ^ 24` are exact -/

theorem asF32_of_le {n : Nat} (h : n ≤ 2 ^ 24) : asF32 n = n := by
  rcases Nat.lt_or_eq_of_le h with hlt | rfl
  · have hunit : 2 ^ (n.log2 - 23) = 1 := by
      rcases Nat.eq_zero_or_pos n with rfl | hpos
      · rfl
      · have hlog : n.log2 < 24 := (Nat.log2_lt (by omega)).mpr hlt
        rw [Nat.sub_eq_zero_of_le (by omega)]
        rfl
    unfold asF32
    rw [hunit]
    simp only [Nat.mod_one, Nat.div_one]
    rw [if_neg (by omega)]
    exact Nat.mul_one n
  · decide

/-! ## the tasks of a session -/

/-- the update of the request has returned `System2Pending` -/
def SetPc.signalled : SetPc → Bool
  | .consume _ _ => true
  | .reflect _ _ => true
  | .writeSlow _ _ => true
  | .countActivation _ _ => true
  | .replaceHistory _ _ => true
  | .release _ => true
  | .activated _ => true
  | .refunded _ => true
  | .unasked _ => true
  | .refused _ => true
  | _ => false

/-- the request has a token, neither counted nor refunded -/
def SetPc.holdsToken : SetPc → Bool
  | .reflect _ _ => true
  | .writeSlow _ _ => true
  | .countActivation _ _ => true
  | .release _ => true
  | .unasked _ => true
  | _ => false

/-- the signal has no outcome yet: it waits for a token, or its task holds one -/
def SetPc.unfinished : SetPc → Bool
  | .consume _ _ => true
  | pc => pc.holdsToken

def SetPc.isRefunded : SetPc → Bool
  | .refunded _ => true
  | _ => false

/-- the next section asks for a token, counts an activation or refunds -/
def SetPc.settles : SetPc → Bool
  | .consume _ _ => true
  | .countActivation _ _ => true
  | .release _ => true
  | _ => false

theorem afterUpdate_counts (id : BeliefId) (pc : UpdatePc) :
    (Session.afterUpdate id pc).signalled = (Session.afterUpdate id pc).unfinished ∧
    (Session.afterUpdate id pc).holdsToken = false ∧
    (Session.afterUpdate id pc).isRefunded = false := by
  unfold Session.afterUpdate
  split <;> exact ⟨rfl, rfl, rfl⟩

namespace Serving
section
variable {M : Type → Type} {G : Type → Type → Type} [SlotMap M] [StableDiGraph G] [Platform]
  {T : Type} [DecidableEq T] [Fintype T]

/-- what is not available is held by a task, or has been spent on an activation -/
def TokensAccounted (capacity : Nat) (s : Serving T M G) : Prop :=
  capacity = s.session.reflectionBudget.available + tally SetPc.holdsToken s.pc +
    s.session.system2Activations

/-- every signal is unfinished, activated, throttled or refunded -/
def SignalsAccounted (s : Serving T M G) : Prop :=
  tally SetPc.signalled s.pc = tally SetPc.unfinished s.pc + s.session.system2Activations +
    s.session.system2Throttled + tally SetPc.isRefunded s.pc

structure Balanced (capacity : Nat) (s : Serving T M G) : Prop where
  tokens : s.TokensAccounted capacity
  signals : s.SignalsAccounted

/-- the count that the turn of `t` leaves in the bucket is held exactly -/
def Exact (s : Serving T M G) (t : T) : Prop :=
  match s.pc t with
  | .consume _ _ => 1 ≤ s.session.reflectionBudget.available →
      asF32 (s.session.reflectionBudget.available - 1) = s.session.reflectionBudget.available - 1
  | .release _ =>
      asF32 (s.session.reflectionBudget.available + 1) = s.session.reflectionBudget.available + 1
  | _ => True

/-- if `t` asks for a token, there is one -/
def Unrefused (s : Serving T M G) (t : T) : Prop :=
  match s.pc t with
  | .consume _ _ => 1 ≤ s.session.reflectionBudget.available
  | _ => True

/-! ## one section -/

/-- activations are at most as many as tokens -/
theorem TokensAccounted.activations_le {capacity : Nat} {s : Serving T M G}
    (h : s.TokensAccounted capacity) : s.session.system2Activations ≤ capacity := by
  unfold TokensAccounted at h
  omega

/-- who holds a token has one of those that are not available -/
theorem TokensAccounted.available_lt {capacity : Nat} {s : Serving T M G} {t : T}
    (h : s.TokensAccounted capacity) (ht : (s.pc t).holdsToken = true) :
    s.session.reflectionBudget.available < capacity := by
  have hshare := tally_eq_add SetPc.holdsToken s.pc t
  rw [ht] at hshare
  have hone : true.toNat = 1 := rfl
  unfold TokensAccounted at h
  omega

theorem tryConsume_one (bucket : TokenBucket) : bucket.tryConsume 1 =
    if 1 ≤ bucket.available then
      (true, { bucket with available := asF32 (bucket.available - 1) })
    else (false, bucket) := rfl

/-- a section that neither asks for a token nor counts nor refunds leaves the bucket and the
counters alone, and settles no signal -/
theorem setSection_other (call : SetCall) (s : Session M G) {pc : SetPc}
    (h : pc.settles = false) :
    (s.setSection call pc).1.reflectionBudget = s.reflectionBudget ∧
    (s.setSection call pc).1.system2Activations = s.system2Activations ∧
    (s.setSection call pc).1.system2Throttled = s.system2Throttled ∧
    (s.setSection call pc).2.holdsToken = pc.holdsToken ∧
    (s.setSection call pc).2.isRefunded = pc.isRefunded ∧
    (s.setSection call pc).2.signalled.toNat + pc.unfinished.toNat =
      pc.signalled.toNat + (s.setSection call pc).2.unfinished.toNat := by
  cases pc with
  | lookup =>
    unfold Session.setSection
    simp only
    split <;> exact ⟨rfl, rfl, rfl, rfl, rfl, rfl⟩
  | update id pc =>
    obtain ⟨hsignal, hholds, hrefunded⟩ :=
      afterUpdate_counts id (lockSection (call.update id) s.runtime pc).2
    refine ⟨rfl, rfl, rfl, hholds, hrefunded, ?_⟩
    show (Session.afterUpdate id _).signalled.toNat + 0 =
      0 + (Session.afterUpdate id _).unfinished.toNat
    rw [hsignal, Nat.add_comm]
  | reflect id signal =>
    unfold Session.setSection
    simp only
    split
    · split <;> exact ⟨rfl, rfl, rfl, rfl, rfl, rfl⟩
    · exact ⟨rfl, rfl, rfl, rfl, rfl, rfl⟩
  | consume id signal => cases h
  | countActivation id revised => cases h
  | release id => cases h
  | _ => exact ⟨rfl, rfl, rfl, rfl, rfl, Nat.add_comm _ _⟩

theorem setSection_granted (call : SetCall) (s : Session M G) (id : BeliefId)
    (signal : DiagnosticSignal) (h : 1 ≤ s.reflectionBudget.available) :
    s.setSection call (.consume id signal) =
      ({ s with reflectionBudget := { s.reflectionBudget with
        available := asF32 (s.reflectionBudget.available - 1) } }, .reflect id signal) := by
  unfold Session.setSection Session.tryConsumeSystem2Budget
  rw [tryConsume_one, if_pos h]

theorem setSection_refused (call : SetCall) (s : Session M G) (id : BeliefId)
    (signal : DiagnosticSignal) (h : ¬ 1 ≤ s.reflectionBudget.available) :
    s.setSection call (.consume id signal) = (s, .refused id) := by
  unfold Session.setSection Session.tryConsumeSystem2Budget
  rw [tryConsume_one, if_neg h]

/-- a token that is given back is counted, exactly if the count it leaves is exact -/
theorem give_back_iff {capacity available rest : Nat} (hexact : asF32 capacity = capacity)
    (h : capacity = available + (1 + rest)) :
    capacity = min (asF32 (available + 1)) capacity + rest ↔
      asF32 (available + 1) = available + 1 := by
  constructor
  · intro heq
    rcases Nat.lt_or_eq_of_le (show available + 1 ≤ capacity by omega) with hbelow | htop
    · omega
    · rw [htop]
      exact hexact
  · intro heq
    rw [heq]
    omega

/-- **one section loses no token, exactly if the count it leaves is exact** -/
theorem tokens_step_iff (calls : T → SetCall) {capacity : Nat} {s : Serving T M G}
    (hcap : s.session.reflectionBudget.capacity = capacity) (hexact : asF32 capacity = capacity)
    (h : s.TokensAccounted capacity) (t : T) :
    (step calls s t).TokensAccounted capacity ↔ s.Exact t := by
  have hholds := tally_update SetPc.holdsToken s.pc t (s.session.setSection (calls t) (s.pc t)).2
  have hstep : (step calls s t).TokensAccounted capacity ↔
      capacity = (s.session.setSection (calls t) (s.pc t)).1.reflectionBudget.available +
        tally SetPc.holdsToken
          (Function.update s.pc t (s.session.setSection (calls t) (s.pc t)).2) +
        (s.session.setSection (calls t) (s.pc t)).1.system2Activations := Iff.rfl
  rw [hstep]
  unfold TokensAccounted at h
  unfold Exact
  cases hpc : s.pc t with
  | consume id signal =>
    rw [hpc] at hholds
    simp only
    by_cases ha : 1 ≤ s.session.reflectionBudget.available
    · rw [setSection_granted (calls t) s.session id signal ha] at hholds ⊢
      simp only [SetPc.holdsToken, Bool.toNat_true, Bool.toNat_false] at hholds ⊢
      constructor
      · intro heq _
        omega
      · intro heq
        have heq := heq ha
        omega
    · rw [setSection_refused (calls t) s.session id signal ha] at hholds ⊢
      simp only [SetPc.holdsToken, Bool.toNat_false] at hholds ⊢
      exact iff_of_true (by omega) fun ha' => absurd ha' ha
  | countActivation id revised =>
    rw [hpc] at hholds
    simp only [Session.setSection, SetPc.holdsToken, Bool.toNat_true, Bool.toNat_false]
      at hholds ⊢
    exact iff_of_true (by omega) trivial
  | release id =>
    rw [hpc] at hholds
    have hbucket : (s.session.setSection (calls t) (.release id)).1.reflectionBudget.available =
        min (asF32 (s.session.reflectionBudget.available + 1)) capacity := by
      rw [← hexact, ← hcap]
      rfl
    rw [hbucket]
    simp only [Session.setSection, Session.releaseSystem2Budget, SetPc.holdsToken,
      Bool.toNat_true, Bool.toNat_false] at hholds ⊢
    rw [Nat.add_assoc]
    exact give_back_iff hexact (by omega)
  | _ =>
    have hother : (s.pc t).settles = false := by rw [hpc]; rfl
    obtain ⟨hbucket, hactivations, -, hkept, -, -⟩ :=
      setSection_other (calls t) s.session hother
    rw [hkept] at hholds
    rw [hpc] at hbucket hactivations hholds
    rw [hbucket, hactivations]
    exact iff_of_true (by omega) trivial

/-- **one section settles no signal uncounted, exactly if it is not refused a token** -/
theorem signals_step_iff (calls : T → SetCall) {s : Serving T M G} (h : s.SignalsAccounted)
    (t : T) : (step calls s t).SignalsAccounted ↔ s.Unrefused t := by
  have hsignalled := tally_update SetPc.signalled s.pc t
    (s.session.setSection (calls t) (s.pc t)).2
  have hunfinished := tally_update SetPc.unfinished s.pc t
    (s.session.setSection (calls t) (s.pc t)).2
  have hrefunded := tally_update SetPc.isRefunded s.pc t
    (s.session.setSection (calls t) (s.pc t)).2
  have hstep : (step calls s t).SignalsAccounted ↔
      tally SetPc.signalled (Function.update s.pc t (s.session.setSection (calls t) (s.pc t)).2) =
        tally SetPc.unfinished
          (Function.update s.pc t (s.session.setSection (calls t) (s.pc t)).2) +
        (s.session.setSection (calls t) (s.pc t)).1.system2Activations +
        (s.session.setSection (calls t) (s.pc t)).1.system2Throttled +
        tally SetPc.isRefunded
          (Function.update s.pc t (s.session.setSection (calls t) (s.pc t)).2) := Iff.rfl
  rw [hstep]
  unfold SignalsAccounted at h
  unfold Unrefused
  cases hpc : s.pc t with
  | consume id signal =>
    rw [hpc] at hsignalled hunfinished hrefunded
    by_cases ha : 1 ≤ s.session.reflectionBudget.available
    · rw [setSection_granted (calls t) s.session id signal ha] at hsignalled hunfinished hrefunded ⊢
      simp only [SetPc.signalled, SetPc.unfinished, SetPc.holdsToken, SetPc.isRefunded,
        Bool.toNat_true, Bool.toNat_false] at hsignalled hunfinished hrefunded ⊢
      exact iff_of_true (by omega) ha
    · rw [setSection_refused (calls t) s.session id signal ha] at hsignalled hunfinished hrefunded ⊢
      simp only [SetPc.signalled, SetPc.unfinished, SetPc.holdsToken, SetPc.isRefunded,
        Bool.toNat_true, Bool.toNat_false] at hsignalled hunfinished hrefunded ⊢
      exact iff_of_false (by omega) ha
  | countActivation id revised =>
    rw [hpc] at hsignalled hunfinished hrefunded
    simp only [Session.setSection, SetPc.signalled, SetPc.unfinished, SetPc.holdsToken,
      SetPc.isRefunded, Bool.toNat_true, Bool.toNat_false] at hsignalled hunfinished hrefunded ⊢
    exact iff_of_true (by omega) trivial
  | release id =>
    rw [hpc] at hsignalled hunfinished hrefunded
    simp only [Session.setSection, Session.releaseSystem2Budget, SetPc.signalled,
      SetPc.unfinished, SetPc.holdsToken, SetPc.isRefunded, Bool.toNat_true, Bool.toNat_false]
      at hsignalled hunfinished hrefunded ⊢
    exact iff_of_true (by omega) trivial
  | _ =>
    have hother : (s.pc t).settles = false := by rw [hpc]; rfl
    obtain ⟨-, hactivations, hthrottled, -, hkept, hsettled⟩ :=
      setSection_other (calls t) s.session hother
    rw [hkept] at hrefunded
    rw [hpc] at hactivations hthrottled hsettled hsignalled hunfinished hrefunded
    rw [hactivations, hthrottled]
    exact iff_of_true (by omega) trivial

theorem capacity_step (calls : T → SetCall) (s : Serving T M G) (t : T) :
    (step calls s t).session.reflectionBudget.capacity = s.session.reflectionBudget.capacity := by
  show (s.session.setSection (calls t) (s.pc t)).1.reflectionBudget.capacity = _
  cases hpc : s.pc t with
  | consume id signal =>
    by_cases ha : 1 ≤ s.session.reflectionBudget.available
    · rw [setSection_granted (calls t) s.session id signal ha]
    · rw [setSection_refused (calls t) s.session id signal ha]
  | countActivation id revised => rfl
  | release id => rfl
  | _ =>
    have hother : (s.pc t).settles = false := by rw [hpc]; rfl
    obtain ⟨hbucket, -⟩ := setSection_other (calls t) s.session hother
    rw [← hpc, hbucket]

/-! ## runs -/

variable (calls : T → SetCall) (rt : BeliefRuntime M G) (capacity : Nat)

theorem tokens_start_iff :
    (start (T := T) (.new rt capacity)).TokensAccounted capacity ↔ asF32 capacity = capacity := by
  have hnone : tally SetPc.holdsToken (fun _ : T => SetPc.lookup) = 0 := tally_const rfl
  show capacity = asF32 capacity + tally SetPc.holdsToken (fun _ : T => SetPc.lookup) + 0 ↔ _
  rw [hnone]
  exact eq_comm

theorem signals_start : (start (T := T) (.new rt capacity)).SignalsAccounted := by
  have hnone : ∀ p : SetPc → Bool, p .lookup = false → tally p (fun _ : T => SetPc.lookup) = 0 :=
    fun p h => tally_const h
  show tally SetPc.signalled (fun _ : T => SetPc.lookup) =
    tally SetPc.unfinished (fun _ : T => SetPc.lookup) + 0 + 0 +
      tally SetPc.isRefunded (fun _ : T => SetPc.lookup)
  rw [hnone _ rfl, hnone _ rfl, hnone _ rfl]

/-- **no token gets lost in any run, if an `f32` counts up to the capacity**, so that there are at
most as many activations as tokens -/
theorem tokens_accounted (h : capacity ≤ 2 ^ 24) (sched : List T) (s : Serving T M G)
    (hs : StateOf (step calls) (start (.new rt capacity)) sched s) :
    s.TokensAccounted capacity ∧ s.session.system2Activations ≤ capacity := by
  have hexact : asF32 capacity = capacity := asF32_of_le h
  have hstep : ∀ (s : Serving T M G) (t : T),
      s.TokensAccounted capacity ∧ s.session.reflectionBudget.capacity = capacity →
      (step calls s t).TokensAccounted capacity ∧
        (step calls s t).session.reflectionBudget.capacity = capacity := by
    intro s t hinv
    refine ⟨(tokens_step_iff calls hinv.2 hexact hinv.1 t).mpr ?_,
      (capacity_step calls s t).trans hinv.2⟩
    have hlt := @TokensAccounted.available_lt M G _ _ _ T _ _ capacity s t hinv.1
    have hle : s.session.reflectionBudget.available ≤ capacity := by
      have htokens := hinv.1
      unfold TokensAccounted at htokens
      omega
    unfold Exact
    cases hpc : s.pc t with
    | consume id signal => exact fun _ => asF32_of_le (by omega)
    | release id =>
      rw [hpc] at hlt
      have hbound := hlt rfl
      exact asF32_of_le (by omega)
    | _ => exact trivial
  have htokens : s.TokensAccounted capacity :=
    (stateOf_invariant hstep ⟨(tokens_start_iff rt capacity).mpr hexact, rfl⟩ hs).1
  exact ⟨htokens, htokens.activations_le⟩

/-- **the budget is accounted for in every state of a run exactly when the capacity and the counts
it leaves are exact, and no request is refused a token** -/
theorem accounts_balance_iff (sched : List T) :
    (∀ s, StateOf (step calls) (start (.new rt capacity)) sched s → s.Balanced capacity) ↔
      asF32 capacity = capacity ∧ ∀ s t, StepOf (step calls) (start (.new rt capacity)) sched s t →
        s.Exact t ∧ s.Unrefused t := by
  have hiff := fun hexact : asF32 capacity = capacity => @forall_state_iff _ _ (step calls)
    (fun s : Serving T M G => s.session.reflectionBudget.capacity = capacity)
    (Balanced capacity) (fun _ _ => True) (fun s t => s.Exact t ∧ s.Unrefused t)
    (fun s t h => (capacity_step calls s t).trans h)
    (fun s t hcap hgood _ => by
      have htokens := tokens_step_iff calls hcap hexact hgood.tokens t
      have hsignals := signals_step_iff calls hgood.signals t
      exact ⟨fun h => ⟨htokens.mp h.tokens, hsignals.mp h.signals⟩,
        fun h => ⟨htokens.mpr h.1, hsignals.mpr h.2⟩⟩)
    (start (.new rt capacity)) rfl
    ⟨(tokens_start_iff rt capacity).mpr hexact, signals_start rt capacity⟩ sched
    (fun _ _ _ => trivial)
  constructor
  · intro h
    have hexact := (tokens_start_iff rt capacity).mp (h _ ⟨[], sched, rfl, rfl⟩).tokens
    exact ⟨hexact, (hiff hexact).mp h⟩
  · exact fun h => (hiff h.1).mpr h.2

end

section
attribute [local instance] Platform.ascii

/-- two clients set the goal, whose confidence calls for System 2 -/
def goalSet : Fin 2 → SetCall
  | 0 => .at 11 "goal" "ship" (9 / 10) (some (7 / 10))
  | 1 => .at 21 "goal" "ship" (9 / 10) (some (6 / 10))

/-- a session with an LLM -/
def reflective (capacity : Nat) : Session SlotVec EdgeList :=
  .new (.build goal (1 / 2) [] none true (15 / 100)) capacity

/-- the requests of both clients, with their tasks, one after the other -/
def oneByOne : List (Fin 2) := List.replicate 15 0 ++ List.replicate 15 1

/-- with one token, the second signal is refused, and shows up nowhere -/
theorem refusal_not_counted :
    let s := run (step goalSet) (start (reflective 1)) oneByOne
    tally SetPc.signalled s.pc = 2 ∧ tally SetPc.unfinished s.pc = 0 ∧
    s.session.system2Activations = 1 ∧ s.session.system2Throttled = 0 ∧
    tally SetPc.isRefunded s.pc = 0 ∧ ¬ s.Balanced 1 := by
  have hsignalled : tally SetPc.signalled
      (run (step goalSet) (start (reflective 1)) oneByOne).pc = 2 := by decide +kernel
  have hunfinished : tally SetPc.unfinished
      (run (step goalSet) (start (reflective 1)) oneByOne).pc = 0 := by decide +kernel
  have hactivations : (run (step goalSet) (start (reflective 1))
      oneByOne).session.system2Activations = 1 := by decide +kernel
  have hthrottled : (run (step goalSet) (start (reflective 1))
      oneByOne).session.system2Throttled = 0 := by decide +kernel
  have hrefunded : tally SetPc.isRefunded
      (run (step goalSet) (start (reflective 1)) oneByOne).pc = 0 := by decide +kernel
  refine ⟨hsignalled, hunfinished, hactivations, hthrottled, hrefunded, fun h => ?_⟩
  have hsignals := h.signals
  unfold SignalsAccounted at hsignals
  omega

end
end Serving
end Epica
