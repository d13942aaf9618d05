import Epica.Runtime.Freshness

/-!
# Stale answers

An answer patches the last record of its belief, which may be the one of a later call.

* `historyEffect_step`    what one step does to the history and the ghosts of its records;
* `ownAnswers_step_iff`   a step keeps the records to their own answers exactly when it is in time;
* `answers_fresh_iff`     a run is free of stale answers exactly when its steps are in time.
-/

set_option linter.unusedSectionVars false

namespace Epica
open Lib

namespace Reflecting
section
variable {M : Type → Type} {G : Type → Type → Type} [SlotMap M] [StableDiGraph G] [Platform]
  {T : Type} [DecidableEq T]

section
variable (calls : T → UpdateCall) (results : T → ℚ)

/-- an answer finds the record that its call has pushed to be the last of the belief -/
def HistoryInTime (s : Reflecting T M G) : Turn T → Prop
  | .update _ => True
  | .answer t => s.signalled t = true → s.answers t = .slowWritten →
    ∀ i ∈ s.history.lastOf (calls t).id, s.pushedBy i = some t

def InTime (s : Reflecting T M G) (turn : Turn T) : Prop :=
  QuadInTime calls s turn ∧ HistoryInTime calls s turn

instance (s : Reflecting T M G) : ∀ turn, Decidable (InTime calls s turn)
  | .update t => inferInstanceAs (Decidable ((revises calls s t = true →
      s.quad.checkContradiction (calls t).id (calls t).value = true ∨
        s.quad.slowAt (calls t).id = none) ∧ True))
  | .answer t => inferInstanceAs (Decidable ((s.signalled t = true → s.answers t = .waiting →
      s.quad.Live (calls t).id → s.authors.value (calls t).id = some t) ∧
    (s.signalled t = true → s.answers t = .slowWritten →
      ∀ i ∈ s.history.lastOf (calls t).id, s.pushedBy i = some t)))

/-! ## the effect of a step on the history -/

/-- what a step from `s` to `s'` may do to the history and to the ghosts of its records -/
inductive HistoryEffect (s s' : Reflecting T M G) : Turn T → Prop where
  | keeps {turn : Turn T} (hin : HistoryInTime calls s turn)
      (hconfidence : ∀ i, s'.history.confidenceAt i = s.history.confidenceAt i)
      (hlength : s'.history.records.length = s.history.records.length)
      (hpushed : s'.pushedBy = s.pushedBy) (hreplaced : s'.replacedBy = s.replacedBy) :
      HistoryEffect s s' turn
  | pushes (t : T)
      (hconfidence : ∀ i, i < s.history.records.length →
        s'.history.confidenceAt i = s.history.confidenceAt i)
      (hlength : s'.history.records.length = s.history.records.length + 1)
      (hpushed : s'.pushedBy = Function.update s.pushedBy s.history.records.length (some t))
      (hreplaced : s'.replacedBy = s.replacedBy) :
      HistoryEffect s s' (.update t)
  | patches (t : T) (i : Nat) (hsignalled : s.signalled t = true)
      (hwritten : s.answers t = .slowWritten) (hlast : s.history.lastOf (calls t).id = some i)
      (hconfidence : ∀ j, s'.history.confidenceAt j =
        if j = i then some (results t) else s.history.confidenceAt j)
      (hlength : s'.history.records.length = s.history.records.length)
      (hpushed : s'.pushedBy = s.pushedBy)
      (hreplaced : s'.replacedBy = Function.update s.replacedBy i (s.replacedBy i ++ [t]))
      (hrecorded : s'.answers t = .recorded) :
      HistoryEffect s s' (.answer t)

variable {calls results}

theorem keepsHistory_of_eq {s s' : Reflecting T M G} {turn : Turn T}
    (hin : HistoryInTime calls s turn) (hhistory : s'.history = s.history)
    (hpushed : s'.pushedBy = s.pushedBy) (hreplaced : s'.replacedBy = s.replacedBy) :
    HistoryEffect calls results s s' turn := by
  refine .keeps hin (fun i => ?_) ?_ hpushed hreplaced
  · rw [hhistory]
  · rw [hhistory]

theorem historyEffect_update (s : Reflecting T M G) (t : T) :
    HistoryEffect calls results s (stepUpdate calls s t) (.update t) := by
  have hhistory : (stepUpdate calls s t).history =
      (lockSection (calls t) s.flight.runtime (s.flight.pc t)).1.confidenceHistory := by
    unfold history
    rw [flight_stepUpdate]
    rfl
  rw [lockSection_fst] at hhistory
  obtain ⟨-, -, hreplaced, hpushed⟩ := @stepUpdate_rest M G _ _ _ T _ calls s t
  cases hpc : s.flight.pc t with
  | revise beliefKey cp =>
    rw [hpc] at hhistory hpushed
    refine keepsHistory_of_eq trivial ?_ hpushed hreplaced
    rw [hhistory]
    show (s.flight.runtime.reviseAndPropagate (calls t)).2.confidenceHistory = _
    rw [s.flight.runtime.reviseAndPropagate_rest]
    rfl
  | markCorrect fast =>
    rw [hpc] at hhistory hpushed
    have hmarked : (stepUpdate calls s t).history =
        s.history.markCorrect (calls t).id false := hhistory
    refine .keeps trivial (fun i => ?_) ?_ hpushed hreplaced
    · rw [hmarked]
      exact ConfidenceHistory.confidenceAt_markCorrect s.history _ _ i
    · rw [hmarked]
      exact ConfidenceHistory.length_markCorrect s.history _ _
  | pushHistory fast result =>
    rw [hpc] at hhistory hpushed
    have hpush : (stepUpdate calls s t).history =
        s.history.push (calls t).historyMs (calls t).id fast := hhistory
    refine .pushes t (fun i hi => ?_) ?_ hpushed hreplaced
    · rw [hpush]
      exact ConfidenceHistory.confidenceAt_push s.history _ _ _ hi
    · rw [hpush]
      exact List.length_append
  | _ =>
    rw [hpc] at hhistory hpushed
    exact keepsHistory_of_eq trivial hhistory hpushed hreplaced

/-- **what a step does to the history** -/
theorem historyEffect_step (s : Reflecting T M G) (turn : Turn T) :
    HistoryEffect calls results s (step calls results s turn) turn := by
  cases turn with
  | update t => exact historyEffect_update s t
  | answer t =>
    show HistoryEffect calls results s (stepAnswer calls results s t) (.answer t)
    unfold stepAnswer
    by_cases hs : s.signalled t = true
    · rw [if_pos hs]
      cases ha : s.answers t with
      | waiting =>
        exact keepsHistory_of_eq (fun _ h => by rw [ha] at h; cases h) rfl rfl rfl
      | recorded =>
        exact keepsHistory_of_eq (fun _ h => by rw [ha] at h; cases h) rfl rfl rfl
      | slowWritten =>
        cases hlast : s.history.lastOf (calls t).id with
        | none =>
          refine keepsHistory_of_eq (fun _ _ i hi => ?_) ?_ rfl rfl
          · rw [hlast] at hi
            cases hi
          · show s.history.replaceLastConfidence (calls t).id (results t) = s.history
            unfold ConfidenceHistory.replaceLastConfidence
            rw [hlast]
        | some i =>
          refine .patches t i hs ha hlast (fun j => ?_) ?_ rfl rfl (Function.update_self t _ _)
          · show (s.history.replaceLastConfidence (calls t).id (results t)).confidenceAt j = _
            rw [ConfidenceHistory.confidenceAt_replaceLastConfidence, hlast]
            simp only [Option.some.injEq, eq_comm]
          · exact ConfidenceHistory.length_replaceLastConfidence s.history _ _
    · rw [if_neg hs]
      exact keepsHistory_of_eq (fun h => absurd h hs) rfl rfl rfl

/-- the ghosts of the records are right -/
structure Logged (s : Reflecting T M G) : Prop where
  unwritten : ∀ i, s.history.records.length ≤ i → s.replacedBy i = []
  recorded : ∀ i t, t ∈ s.replacedBy i → s.answers t = .recorded

/-- the ghosts of the records stay right -/
theorem HistoryEffect.logged {s s' : Reflecting T M G} {turn : Turn T}
    (e : HistoryEffect calls results s s' turn) (h : s.Logged)
    (hrecorded : ∀ t, s.answers t = .recorded → s'.answers t = .recorded) : s'.Logged := by
  have hold : ∀ i t, t ∈ s.replacedBy i → s'.answers t = .recorded :=
    fun i t ht => hrecorded t (h.recorded i t ht)
  cases e with
  | keeps hin hconfidence hlength hpushed hreplaced =>
    rw [← hreplaced] at hold
    refine ⟨?_, hold⟩
    rw [hlength, hreplaced]
    exact h.unwritten
  | pushes t hconfidence hlength hpushed hreplaced =>
    rw [← hreplaced] at hold
    refine ⟨fun i hi => ?_, hold⟩
    rw [hreplaced]
    exact h.unwritten i (by omega)
  | patches t i hsignalled hwritten hlast hconfidence hlength hpushed hreplaced hdone =>
    have hi := ConfidenceHistory.lt_of_lastOf hlast
    constructor
    · intro j hj
      rw [hreplaced, Function.update_of_ne (show j ≠ i by omega)]
      exact h.unwritten j (by omega)
    · intro j u hu
      rw [hreplaced] at hu
      by_cases hji : j = i
      · subst hji
        rw [Function.update_self] at hu
        rcases List.mem_append.mp hu with hu | hu
        · exact hold j u hu
        · rw [List.mem_singleton.mp hu]
          exact hdone
      · rw [Function.update_of_ne hji] at hu
        exact hold j u hu

theorem Logged.step {s : Reflecting T M G} (h : s.Logged) (turn : Turn T) :
    (step calls results s turn).Logged :=
  (historyEffect_step s turn).logged h fun _ => recorded_step

/-! ## which steps keep the records -/

variable (results) in
/-- a record whose confidence is replaced is replaced once, by the answer to the call that has
pushed it -/
def OwnAnswers (s : Reflecting T M G) : Prop :=
  ∀ i t, t ∈ s.replacedBy i →
    s.pushedBy i = some t ∧ s.replacedBy i = [t] ∧ s.history.confidenceAt i = some (results t)

/-- **a step keeps the records to their own answers exactly when it is in time** -/
theorem ownAnswers_step_iff {s s' : Reflecting T M G} {turn : Turn T} (h : s.Logged)
    (ho : OwnAnswers results s) (e : HistoryEffect calls results s s' turn) :
    OwnAnswers results s' ↔ HistoryInTime calls s turn := by
  cases e with
  | keeps hin hconfidence hlength hpushed hreplaced =>
    refine iff_of_true (fun i t ht => ?_) hin
    rw [hpushed, hreplaced, hconfidence i]
    rw [hreplaced] at ht
    exact ho i t ht
  | pushes t hconfidence hlength hpushed hreplaced =>
    refine iff_of_true (fun i u hu => ?_) trivial
    rw [hreplaced] at hu
    have hi : i < s.history.records.length := by
      by_contra hge
      rw [h.unwritten i (by omega)] at hu
      exact absurd hu List.not_mem_nil
    rw [hpushed, hreplaced, hconfidence i hi,
      Function.update_of_ne (show i ≠ s.history.records.length by omega)]
    exact ho i u hu
  | patches t i hsignalled hwritten hlast hconfidence hlength hpushed hreplaced hdone =>
    have hmem : t ∈ s'.replacedBy i := by
      rw [hreplaced, Function.update_self]
      exact List.mem_append_right _ (List.mem_singleton.mpr rfl)
    constructor
    · intro ho' _ _ j hj
      obtain rfl := Option.some.inj (hlast.symm.trans hj)
      rw [← hpushed]
      exact (ho' i t hmem).1
    · intro hin j u hu
      have hown := hin hsignalled hwritten i hlast
      rw [hreplaced] at hu
      rw [hpushed, hreplaced, hconfidence j]
      by_cases hji : j = i
      · subst hji
        -- an earlier answer would be `t` itself, which has not recorded yet
        have hfirst : s.replacedBy j = [] := by
          refine List.eq_nil_iff_forall_not_mem.mpr fun w hw => ?_
          obtain rfl := Option.some.inj ((ho j w hw).1.symm.trans hown)
          have hdone := h.recorded j w hw
          rw [hwritten] at hdone
          cases hdone
        rw [Function.update_self, hfirst, List.nil_append] at hu ⊢
        rw [List.mem_singleton.mp hu, if_pos rfl]
        exact ⟨hown, rfl, rfl⟩
      · rw [Function.update_of_ne hji] at hu ⊢
        rw [if_neg hji]
        exact ho j u hu

/-! ## runs of calls and answers -/

/-- no call of the runtime has been answered yet; `bare` is part of `WellFormed`, which every run of
quad operations keeps -/
structure Unanswered (rt : BeliefRuntime M G) : Prop where
  quad : ∀ e ∈ SlotMap.iter rt.quad.nodes, e.2.slowConfidence = none
  captured : ∀ c ∈ rt.quad.checkpoints, ∀ e ∈ SlotMap.iter c.quad.nodes,
    e.2.slowConfidence = none
  bare : ∀ c ∈ rt.quad.checkpoints, c.quad.checkpoints = []

theorem slowAt_of_unanswered {q : BeliefQuad M G}
    (h : ∀ e ∈ SlotMap.iter q.nodes, e.2.slowConfidence = none) (id : BeliefId) :
    q.slowAt id = none := by
  unfold BeliefQuad.slowAt
  cases hn : q.get id with
  | none => rfl
  | some n => exact h (id, n) ((SlotMap.mem_iter q.nodes id n).mpr hn)

/-- nothing is attributed where nothing is answered -/
theorem attributedAt_start {q : BeliefQuad M G}
    (h : ∀ e ∈ SlotMap.iter q.nodes, e.2.slowConfidence = none) (id : BeliefId) :
    AttributedAt calls results (fun _ => .waiting) q ⟨fun _ => none, fun _ => none⟩ id where
  slow r hr := by
    rw [slowAt_of_unanswered h] at hr
    cases hr
  value t v ht hv := by cases ht

theorem freshAt_start {q : BeliefQuad M G}
    (h : ∀ e ∈ SlotMap.iter q.nodes, e.2.slowConfidence = none) (a : Authors T) (id : BeliefId) :
    FreshAt calls results q a id := by
  intro r hr
  rw [slowAt_of_unanswered h] at hr
  cases hr

theorem traced_start {rt : BeliefRuntime M G} (h : Unanswered rt) :
    Traced calls results (start rt) where
  checkpoints := by
    show (rt.quad.checkpoints.map _).map Prod.fst = rt.quad.checkpoints
    rw [List.map_map]
    exact List.map_id _
  bare c hc := by
    obtain ⟨cp, hcp, rfl⟩ := List.mem_map.mp hc
    exact h.bare cp hcp
  quad := attributedAt_start h.quad
  captured c hc := by
    obtain ⟨cp, hcp, rfl⟩ := List.mem_map.mp hc
    exact attributedAt_start (h.captured cp hcp)
  signalled t ht := absurd rfl ht

theorem logged_start (rt : BeliefRuntime M G) : (start rt : Reflecting T M G).Logged where
  unwritten _ _ := rfl
  recorded _ _ ht := absurd ht List.not_mem_nil

theorem freshThroughout_start {rt : BeliefRuntime M G} (h : Unanswered rt) :
    FreshThroughout calls results (start rt) := by
  refine ⟨freshAt_start h.quad _, fun c hc => ?_⟩
  obtain ⟨cp, hcp, rfl⟩ := List.mem_map.mp hc
  exact freshAt_start (h.captured cp hcp) _

/-- a run that is fresh in every state captures nothing stale -/
theorem freshThroughout_of_fresh {rt : BeliefRuntime M G} (hrt : Unanswered rt)
    {sched : List (Turn T)}
    (h : ∀ s, StateOf (step calls results) (start rt) sched s → Fresh calls results s) :
    ∀ s, StateOf (step calls results) (start rt) sched s → FreshThroughout calls results s := by
  exact @stateOf_good _ _ (step calls results) (Traced calls results)
    (FreshThroughout calls results) (Fresh calls results) (fun s turn hs => hs.step turn)
    (fun s turn hs hf hfresh => ⟨hfresh,
      captured_fresh_step hf (quadEffect_step hs.checkpoints turn)⟩) (start rt)
    (traced_start hrt) (freshThroughout_start hrt) sched h

/-- **no answer is stale in any state of a run exactly when every step of it is in time** -/
theorem answers_fresh_iff (calls : T → UpdateCall) (results : T → ℚ) {rt : BeliefRuntime M G}
    (hrt : Unanswered rt) (sched : List (Turn T)) :
    (∀ s, StateOf (step calls results) (start rt) sched s →
      Fresh calls results s ∧ OwnAnswers results s) ↔
    ∀ s turn, StepOf (step calls results) (start rt) sched s turn → InTime calls s turn := by
  have hstart : FreshThroughout calls results (start rt) ∧
      OwnAnswers results (start rt : Reflecting T M G) :=
    ⟨freshThroughout_start hrt, fun i t ht => absurd ht List.not_mem_nil⟩
  have hiff := @forall_state_iff _ _ (step calls results)
    (fun s : Reflecting T M G => Traced calls results s ∧ s.Logged)
    (fun s : Reflecting T M G => FreshThroughout calls results s ∧ OwnAnswers results s)
    (fun _ _ => True) (InTime calls) (fun s turn hs => ⟨hs.1.step turn, hs.2.step turn⟩) ?_
    (start rt) ⟨traced_start hrt, logged_start rt⟩ hstart sched fun _ _ _ => trivial
  · rw [← hiff]
    constructor
    · intro h s hs
      exact ⟨freshThroughout_of_fresh hrt (fun s hs => (h s hs).1) s hs, (h s hs).2⟩
    · intro h s hs
      exact ⟨(h s hs).1.1, (h s hs).2⟩
  · intro s turn hs hgood _
    have he : QuadEffect calls results s (step calls results s turn) turn :=
      quadEffect_step hs.1.checkpoints turn
    have hquad := fresh_step_iff hs.1 hgood.1 he
    have hpatch : HistoryEffect calls results s (step calls results s turn) turn :=
      historyEffect_step s turn
    have hhistory := ownAnswers_step_iff hs.2 hgood.2 hpatch
    have hcaptured := captured_fresh_step hgood.1 he
    constructor
    · exact fun h => ⟨hquad.mp h.1.1, hhistory.mp h.2⟩
    · exact fun h => ⟨⟨hquad.mpr h.1, hcaptured⟩, hhistory.mpr h.2⟩

end

end

section
attribute [local instance] Platform.ascii

inductive Asker where
  | first
  | second
deriving DecidableEq

/-- the goal in a runtime whose calls ask System 2 about it -/
def reflecting : BeliefRuntime SlotVec EdgeList := .build goal (1 / 2) [] none true (15 / 100)

def questionOf : Asker → UpdateCall
  | .first => .at 11 ⟨1, 1⟩ (.asserted "ship") (9 / 10)
  | .second => .at 21 ⟨1, 1⟩ (.asserted "hold") (9 / 10)

def answerOf : Asker → ℚ
  | .first => 2 / 10
  | .second => 7 / 10

/-- the call of `t` to its end -/
def asks (t : Asker) : List (Turn Asker) := List.replicate 10 (.update t)

/-- the answer to it -/
def answered (t : Asker) : List (Turn Asker) := List.replicate 2 (.answer t)

theorem unanswered_reflecting : Unanswered reflecting where
  quad := by decide +kernel
  captured c hc := absurd hc List.not_mem_nil
  bare c hc := absurd hc List.not_mem_nil

/-- each answer comes before the next question -/
theorem answers_fresh_inTurn : Unanswered reflecting ∧
    ∀ s, StateOf (step questionOf answerOf) (start reflecting)
      (asks .first ++ answered .first ++ asks .second ++ answered .second) s →
        Fresh questionOf answerOf s ∧ OwnAnswers answerOf s :=
  ⟨unanswered_reflecting, (answers_fresh_iff questionOf answerOf unanswered_reflecting _).mpr
    (eachStep_iff.mp (by decide +kernel))⟩

/-- the answer to the first call comes after the second call: it lands beside the value of the
second, and in its record -/
theorem answer_too_late : Unanswered reflecting ∧
    ∃ s, StateOf (step questionOf answerOf) (start reflecting)
      (asks .first ++ asks .second ++ answered .first) s ∧
      ¬ Fresh questionOf answerOf s ∧ ¬ OwnAnswers answerOf s := by
  refine ⟨unanswered_reflecting, _, stateOf_last _ _, fun hfresh => ?_, fun hown => ?_⟩
  · obtain ⟨t, -, -, hanswer, -, hvalue⟩ := hfresh ⟨1, 1⟩ (2 / 10) (by decide +kernel)
    cases t with
    | first => exact absurd hvalue (by decide +kernel)
    | second => exact absurd hanswer (by decide +kernel)
  · have hpushed := (hown 1 .first (by decide +kernel)).1
    exact absurd hpushed (by decide +kernel)

end
end Reflecting
end Epica
