import Epica.Runtime.Interleaving

/-!
# The answers of System 2

A call that returns `System2Pending` is answered later, if at all: its caller runs
`applySystem2Result` with the id of the belief, in two lock sections, one for the quad and one for
the history.  `Reflecting` is a runtime with the calls that update it and the answers to them, and
with ghost records of who wrote what:

* `authors`      for each belief the call that has written its value, and the one whose answer is
                 its slow confidence; `captured` has the same for the quads of the checkpoints;
* `pushedBy`     for each history record the call that has pushed it;
* `replacedBy`   the calls whose answers have replaced its confidence, in order.

The results are

* `slowAt_revise`       which slow confidences a revision keeps;
* `stepAnswer_alone`    an answer whose sections run without interruption is `applySystem2Result`;
* `flight_stepUpdate`   without the ghosts, an update steps as in `InFlight`;
* `restored_spec`       what a contract section restores has been captured.
-/

set_option linter.unusedSectionVars false

namespace Epica
open Lib

/-! ## applying an answer -/

namespace ConfidenceHistory

/-- the index of the last record of `id` -/
def lastOf (h : ConfidenceHistory) (id : BeliefId) : Option Nat :=
  (h.records.reverse.findIdx? fun r => r.beliefId = id).map fun i => h.records.length - 1 - i

def replaceLastConfidence (h : ConfidenceHistory) (id : BeliefId) (confidence : ℚ) :
    ConfidenceHistory :=
  match h.lastOf id with
  | none => h
  | some i => ⟨h.records.modify i fun r => { r with confidence := confidence }⟩

/-- the confidence of a record -/
def confidenceAt (h : ConfidenceHistory) (i : Nat) : Option ℚ :=
  (h.records[i]?).map ConfidenceRecord.confidence

theorem lt_of_lastOf {h : ConfidenceHistory} {id : BeliefId} {i : Nat}
    (hi : h.lastOf id = some i) : i < h.records.length := by
  obtain ⟨j, hj, rfl⟩ := Option.map_eq_some_iff.mp hi
  have hlt := (List.findIdx?_eq_some_iff_getElem.mp hj).1
  rw [List.length_reverse] at hlt
  omega

theorem length_replaceLastConfidence (h : ConfidenceHistory) (id : BeliefId) (confidence : ℚ) :
    (h.replaceLastConfidence id confidence).records.length = h.records.length := by
  unfold replaceLastConfidence
  split
  · rfl
  · exact List.length_modify _ _ _

theorem length_markCorrect (h : ConfidenceHistory) (id : BeliefId) (correct : Bool) :
    (h.markCorrect id correct).records.length = h.records.length := by
  unfold markCorrect
  split
  · rfl
  · rw [List.length_reverse, List.length_modify, List.length_reverse]

theorem confidenceAt_replaceLastConfidence (h : ConfidenceHistory) (id : BeliefId)
    (confidence : ℚ) (j : Nat) : (h.replaceLastConfidence id confidence).confidenceAt j =
      if h.lastOf id = some j then some confidence else h.confidenceAt j := by
  unfold replaceLastConfidence confidenceAt
  cases hi : h.lastOf id with
  | none => rfl
  | some i =>
    rw [List.getElem?_modify]
    by_cases hij : i = j
    · subst hij
      rw [if_pos rfl, List.getElem?_eq_getElem (lt_of_lastOf hi)]
      show some (if i = i then _ else _ : ConfidenceRecord).confidence = some confidence
      rw [if_pos rfl]
    · rw [if_neg fun h => hij (Option.some.inj h)]
      cases h.records[j]? with
      | none => rfl
      | some r =>
        show some (if i = j then _ else r).confidence = some r.confidence
        rw [if_neg hij]

/-- a field that is not modified -/
theorem map_modify_of_eq {α β : Type} {g : α → β} {f : α → α} (hgf : ∀ x, g (f x) = g x)
    (l : List α) (i : Nat) : (l.modify i f).map g = l.map g := by
  refine List.ext_getElem? fun j => ?_
  rw [List.getElem?_map, List.getElem?_map, List.getElem?_modify]
  cases l[j]? with
  | none => rfl
  | some x =>
    show some (g (if i = j then f x else x)) = some (g x)
    rw [apply_ite g, hgf, ite_self]

/-- marking a record leaves the confidences alone -/
theorem confidenceAt_markCorrect (h : ConfidenceHistory) (id : BeliefId) (correct : Bool)
    (j : Nat) : (h.markCorrect id correct).confidenceAt j = h.confidenceAt j := by
  have hmodify : ∀ i, (h.records.reverse.modify i fun r =>
      { r with wasCorrect := some correct }).map ConfidenceRecord.confidence =
        h.records.reverse.map ConfidenceRecord.confidence :=
    map_modify_of_eq (by intro r; rfl) h.records.reverse
  have hmap : (h.markCorrect id correct).records.map ConfidenceRecord.confidence =
      h.records.map ConfidenceRecord.confidence := by
    unfold markCorrect
    split
    · rfl
    · rw [List.map_reverse, hmodify, List.map_reverse, List.reverse_reverse]
  unfold confidenceAt
  rw [← List.getElem?_map, ← List.getElem?_map, hmap]

theorem confidenceAt_push (h : ConfidenceHistory) (nowMs : Nat) (id : BeliefId) (confidence : ℚ)
    {j : Nat} (hj : j < h.records.length) :
    (h.push nowMs id confidence).confidenceAt j = h.confidenceAt j := by
  unfold push confidenceAt
  rw [List.getElem?_append_left hj]

end ConfidenceHistory

namespace BeliefRuntime
variable {M : Type → Type} {G : Type → Type → Type} [SlotMap M] [StableDiGraph G]

/-- the section of an answer that writes the quad -/
def writeSlow (rt : BeliefRuntime M G) (id : BeliefId) (revisedConfidence : ℚ) :
    BeliefRuntime M G :=
  { rt with quad := rt.quad.modify id fun n => { n with slowConfidence := some revisedConfidence } }

/-- the section that patches the history -/
def replaceHistory (rt : BeliefRuntime M G) (id : BeliefId) (revisedConfidence : ℚ) :
    BeliefRuntime M G :=
  { rt with
    confidenceHistory := rt.confidenceHistory.replaceLastConfidence id revisedConfidence }

def applySystem2Result (rt : BeliefRuntime M G) (id : BeliefId) (revisedConfidence : ℚ) :
    BeliefRuntime M G :=
  (rt.writeSlow id revisedConfidence).replaceHistory id revisedConfidence

end BeliefRuntime

/-! ## the slow confidences of a quad -/

namespace BeliefQuad
section
variable {M : Type → Type} {G : Type → Type → Type} [SlotMap M] [StableDiGraph G] [Platform]

/-- the slow confidence of a live belief, if it has one -/
def slowAt (q : BeliefQuad M G) (id : BeliefId) : Option ℚ :=
  (q.get id).bind BeliefNode.slowConfidence

theorem OnlyConfidences.slowAt {q q' : BeliefQuad M G} (h : q.OnlyConfidences q') (id : BeliefId) :
    q'.slowAt id = q.slowAt id := by
  obtain ⟨x, hx⟩ := h.nodes id
  unfold BeliefQuad.slowAt
  rw [hx]
  cases q.get id <;> rfl

variable (q : BeliefQuad M G) (stamp : Stamp) (order : HashOrder BeliefId) (id : BeliefId)
  (v : BeliefValue) (p : Provenance) (c : ℚ)

/-- **a revision clears the slow confidences it retracts or contradicts, and keeps the others** -/
theorem slowAt_revise (j : BeliefId) : (q.revise stamp order id v p c).2.slowAt j =
    if j ∈ q.retracts id v then none
    else if j = id ∧ (q.auditOf id v).allCriticalPass = true ∧ q.checkContradiction id v = true then
      none
    else q.slowAt j := by
  unfold slowAt
  rw [get_revise]
  split
  · rfl
  · by_cases hj : j = id ∧ (q.auditOf id v).allCriticalPass = true
    · rw [if_pos hj]
      cases hc : q.checkContradiction id v with
      | true =>
        rw [if_pos ⟨hj.1, hj.2, rfl⟩]
        cases q.get j <;> rfl
      | false =>
        rw [if_neg fun h => Bool.false_ne_true h.2.2]
        cases q.get j <;> rfl
    · rw [if_neg hj, if_neg fun h => hj ⟨h.1, h.2.1⟩]

/-- a slow confidence after a revision is one from before it -/
theorem slowAt_of_revise {j : BeliefId} {r : ℚ}
    (h : (q.revise stamp order id v p c).2.slowAt j = some r) : q.slowAt j = some r := by
  rw [slowAt_revise] at h
  split at h
  · cases h
  · split at h
    · cases h
    · exact h

/-- a revision that goes through keeps the slow confidence when it contradicts nothing -/
theorem slowAt_revise_self {record : RevisionRecord}
    (h : (q.revise stamp order id v p c).1 = .ok record) :
    (q.revise stamp order id v p c).2.slowAt id =
      if q.checkContradiction id v = true then none else q.slowAt id := by
  obtain ⟨hr, -⟩ := valueAt_revise_self q stamp order id v p c h
  obtain ⟨-, ha, -⟩ := (revise_ok_iff q stamp order id v p c).mp ⟨record, h⟩
  rw [slowAt_revise, if_neg hr]
  refine if_congr ?_ rfl rfl
  rw [and_iff_right rfl, and_iff_right ha]

/-- a value after a revision of another belief, or after one that fails, is one from before it -/
theorem valueAt_of_revise {j : BeliefId} {w : BeliefValue}
    (h : (q.revise stamp order id v p c).2.valueAt j = some w)
    (hj : j ≠ id ∨ ∃ e, (q.revise stamp order id v p c).1 = .error e) : q.valueAt j = some w := by
  by_cases hr : j ∈ q.retracts id v
  · rw [valueAt_revise_retracted q stamp order id v p c hr] at h
    cases h
  · by_cases hji : j = id
    · subst hji
      obtain ⟨e, he⟩ := hj.resolve_left (not_not.mpr rfl)
      rw [valueAt_revise_failed q stamp order j v p c he hr] at h
      exact h
    · rw [valueAt_revise_other q stamp order id v p c hr hji] at h
      exact h

end
end BeliefQuad

/-! ## the checkpoint a contract section goes back to -/

section
variable {M : Type → Type} {G : Type → Type → Type} [SlotMap M] [StableDiGraph G] [Platform]

/-- the checkpoint to which the violations of `quad` roll it back -/
def recoveredCheckpoint (contracts : List (BehavioralContract M G)) (quad : BeliefQuad M G)
    (lastCheckpoint : Option CheckpointId) : Option CheckpointId :=
  (firstSevere contracts quad lastCheckpoint).bind fun cv =>
    if cv.2.violationClass = .hard then
      (recoveryTarget quad cv.2 cv.1.recovery).filter fun cp => (quad.rollbackTo cp).1.isOk
    else none

theorem rollbackTo_isOk_iff (quad : BeliefQuad M G) (cp : CheckpointId) :
    (quad.rollbackTo cp).1.isOk = true ↔ ∃ snap, quad.RollsBack cp snap := by
  have hno : ∀ e, quad.rollbackTo cp = (.error e, quad) → ¬ ∃ snap, quad.RollsBack cp snap := by
    intro e he h
    obtain ⟨snap, hs⟩ := h
    rw [hs.eq] at he
    cases he
  rcases quad.rollbackTo_cases cp with ⟨-, he⟩ | ⟨c, -, -, he⟩ | ⟨snap, hs, he⟩
  · rw [he]
    exact iff_of_false Bool.false_ne_true (hno _ he)
  · rw [he]
    exact iff_of_false Bool.false_ne_true (hno _ he)
  · rw [he]
    exact iff_of_true rfl ⟨snap, hs⟩

theorem recoversTo_iff {contracts : List (BehavioralContract M G)} {quad : BeliefQuad M G}
    {lastCheckpoint : Option CheckpointId} {snap : BeliefQuad M G} :
    RecoversTo contracts quad lastCheckpoint snap ↔
      ∃ cp, recoveredCheckpoint contracts quad lastCheckpoint = some cp ∧
        quad.RollsBack cp snap := by
  unfold recoveredCheckpoint
  constructor
  · intro h
    obtain ⟨contract, v, hv, hhard, cp, htarget, hs⟩ := h
    refine ⟨cp, Option.bind_eq_some_iff.mpr ⟨_, hv, ?_⟩, hs⟩
    rw [if_pos hhard, Option.filter_eq_some_iff]
    exact ⟨htarget, (rollbackTo_isOk_iff quad cp).mpr ⟨snap, hs⟩⟩
  · intro h
    obtain ⟨cp, hcp, hs⟩ := h
    obtain ⟨⟨contract, v⟩, hv, hcv⟩ := Option.bind_eq_some_iff.mp hcp
    obtain ⟨hhard, hfilter⟩ := Option.ite_none_right_eq_some.mp hcv
    exact ⟨contract, v, hv, hhard, cp, (Option.filter_eq_some_iff.mp hfilter).1, hs⟩

/-- the rollback to that checkpoint goes through -/
theorem rollsBack_of_recovered {contracts : List (BehavioralContract M G)}
    {quad : BeliefQuad M G} {lastCheckpoint : Option CheckpointId} {id : CheckpointId}
    (h : recoveredCheckpoint contracts quad lastCheckpoint = some id) :
    ∃ snap, quad.RollsBack id snap := by
  unfold recoveredCheckpoint at h
  obtain ⟨cv, -, hcv⟩ := Option.bind_eq_some_iff.mp h
  obtain ⟨-, hfilter⟩ := Option.ite_none_right_eq_some.mp hcv
  exact (rollbackTo_isOk_iff quad id).mp (Option.filter_eq_some_iff.mp hfilter).2

/-- where each checkpoint stands with a label, a rollback restores a labelled one -/
theorem BeliefQuad.RollsBack.captured {L : Type} {quad snap : BeliefQuad M G} {id : CheckpointId}
    (h : quad.RollsBack id snap) {captured : List (BeliefQuadCheckpoint M G × L)}
    (hcaptured : captured.map Prod.fst = quad.checkpoints) :
    ∃ c, (captured.find? fun c => c.1.id = id) = some c ∧ c ∈ captured ∧ c.1.quad = snap := by
  obtain ⟨found, hfound, rfl, -⟩ := h
  unfold BeliefQuad.checkpointById at hfound
  rw [← hcaptured, List.find?_map] at hfound
  obtain ⟨c, hc, rfl⟩ := Option.map_eq_some_iff.mp hfound
  exact ⟨c, hc, List.mem_of_find?_eq_some hc, rfl⟩

end

/-! ## calls and answers in flight -/

/-- how far the answer to a call has got -/
inductive AnswerPc where
  | waiting
  | slowWritten
  | recorded
deriving DecidableEq

/-- `t` runs the next section of its update, or the next section of the answer to it -/
inductive Turn (T : Type) where
  | update (t : T)
  | answer (t : T)

/-- for each belief, whose revision has written its value, and whose answer its slow confidence -/
structure Authors (T : Type) where
  value : BeliefId → Option T
  slow : BeliefId → Option T

structure Reflecting (T : Type) (M : Type → Type) (G : Type → Type → Type) where
  flight : InFlight T M G
  answers : T → AnswerPc
  authors : Authors T
  captured : List (BeliefQuadCheckpoint M G × Authors T)
  pushedBy : Nat → Option T
  replacedBy : Nat → List T

namespace Reflecting
section
variable {M : Type → Type} {G : Type → Type → Type} [SlotMap M] [StableDiGraph G] [Platform]
  {T : Type} [DecidableEq T]

def start (rt : BeliefRuntime M G) : Reflecting T M G where
  flight := .start rt
  answers _ := .waiting
  authors := ⟨fun _ => none, fun _ => none⟩
  captured := rt.quad.checkpoints.map fun cp => (cp, ⟨fun _ => none, fun _ => none⟩)
  pushedBy _ := none
  replacedBy _ := []

def runtime (s : Reflecting T M G) : BeliefRuntime M G := s.flight.runtime

def quad (s : Reflecting T M G) : BeliefQuad M G := s.flight.runtime.quad

def history (s : Reflecting T M G) : ConfidenceHistory := s.flight.runtime.confidenceHistory

/-- the call has returned `System2Pending` -/
def signalled (s : Reflecting T M G) (t : T) : Bool :=
  match s.flight.pc t with
  | .done (.ok (.system2Pending _)) => true
  | _ => false

/-- what a contract section goes back to, with the authors of then -/
def restored (s : Reflecting T M G) (cp : CheckpointId) :
    Option (BeliefQuadCheckpoint M G × Authors T) :=
  (recoveredCheckpoint s.runtime.contractEngine.contracts s.quad (some cp)).bind fun id =>
    s.captured.find? fun c => c.1.id = id

def stepUpdate (calls : T → UpdateCall) (s : Reflecting T M G) (t : T) : Reflecting T M G :=
  let flight := InFlight.step calls s.flight t
  match s.flight.pc t with
  | .checkpoint _ =>
    let cp := s.quad.capture (calls t).checkpointStamp.uuid (calls t).checkpointStamp.nowMs
    { s with flight := flight, captured := s.captured ++ [(cp, s.authors)] }
  | .revise _ _ =>
    if (s.runtime.reviseAndPropagate (calls t)).1.isOk then { s with
      flight := flight
      authors := { s.authors with value := Function.update s.authors.value (calls t).id (some t) } }
    else { s with flight := flight }
  | .postUpdate _ cp _ _ =>
    match s.restored cp with
    | some c => { s with flight := flight, authors := c.2, captured := [] }
    | none => { s with flight := flight }
  | .pushHistory _ _ => { s with
    flight := flight
    pushedBy := Function.update s.pushedBy s.history.records.length (some t) }
  | _ => { s with flight := flight }

/-- `results t` is the answer to `t`; there is none before the signal, and no second one -/
def stepAnswer (calls : T → UpdateCall) (results : T → ℚ) (s : Reflecting T M G) (t : T) :
    Reflecting T M G :=
  if s.signalled t then
    match s.answers t with
    | .waiting => { s with
      flight := { s.flight with runtime := s.runtime.writeSlow (calls t).id (results t) }
      answers := Function.update s.answers t .slowWritten
      authors := { s.authors with slow := Function.update s.authors.slow (calls t).id (some t) } }
    | .slowWritten => { s with
      flight := { s.flight with runtime := s.runtime.replaceHistory (calls t).id (results t) }
      answers := Function.update s.answers t .recorded
      replacedBy :=
        match s.history.lastOf (calls t).id with
        | none => s.replacedBy
        | some i => Function.update s.replacedBy i (s.replacedBy i ++ [t]) }
    | .recorded => s
  else s

def step (calls : T → UpdateCall) (results : T → ℚ) (s : Reflecting T M G) :
    Turn T → Reflecting T M G
  | .update t => stepUpdate calls s t
  | .answer t => stepAnswer calls results s t

/-- the two sections of an answer that are not interrupted are `applySystem2Result` -/
theorem stepAnswer_alone (calls : T → UpdateCall) (results : T → ℚ) {s : Reflecting T M G} {t : T}
    (hs : s.signalled t = true) (ha : s.answers t = .waiting) :
    (stepAnswer calls results (stepAnswer calls results s t) t).runtime =
      s.runtime.applySystem2Result (calls t).id (results t) := by
  have hfirst : stepAnswer calls results s t = { s with
      flight := { s.flight with runtime := s.runtime.writeSlow (calls t).id (results t) }
      answers := Function.update s.answers t .slowWritten
      authors :=
        { s.authors with slow := Function.update s.authors.slow (calls t).id (some t) } } := by
    unfold stepAnswer
    rw [if_pos hs, ha]
  have hs' : (stepAnswer calls results s t).signalled t = true := by
    rw [hfirst]
    exact hs
  have ha' : (stepAnswer calls results s t).answers t = .slowWritten := by
    rw [hfirst]
    exact Function.update_self t _ s.answers
  have hruntime : (stepAnswer calls results s t).runtime =
      s.runtime.writeSlow (calls t).id (results t) := by
    rw [hfirst]
    rfl
  have hsecond : (stepAnswer calls results (stepAnswer calls results s t) t).runtime =
      (stepAnswer calls results s t).runtime.replaceHistory (calls t).id (results t) := by
    rw [stepAnswer.eq_def _ _ (stepAnswer calls results s t), if_pos hs', ha']
    rfl
  rw [hsecond, hruntime]
  rfl

/-! ## what a step does to the flight -/

section
variable {calls : T → UpdateCall} {results : T → ℚ}

theorem stepUpdate_rest (s : Reflecting T M G) (t : T) :
    (stepUpdate calls s t).flight = InFlight.step calls s.flight t ∧
    (stepUpdate calls s t).answers = s.answers ∧
    (stepUpdate calls s t).replacedBy = s.replacedBy ∧
    (stepUpdate calls s t).pushedBy =
      match s.flight.pc t with
      | .pushHistory _ _ => Function.update s.pushedBy s.history.records.length (some t)
      | _ => s.pushedBy := by
  unfold stepUpdate
  cases s.flight.pc t with
  | revise beliefKey cp =>
    simp only
    split <;> exact ⟨rfl, rfl, rfl, rfl⟩
  | postUpdate beliefKey cp fast contradicted =>
    simp only
    split <;> exact ⟨rfl, rfl, rfl, rfl⟩
  | _ => exact ⟨rfl, rfl, rfl, rfl⟩

/-- without the ghosts, an update steps as in `InFlight` -/
theorem flight_stepUpdate (s : Reflecting T M G) (t : T) :
    (stepUpdate calls s t).flight = InFlight.step calls s.flight t := (stepUpdate_rest s t).1

theorem answers_stepUpdate (s : Reflecting T M G) (t : T) :
    (stepUpdate calls s t).answers = s.answers := (stepUpdate_rest s t).2.1

/-- what a contract section restores is captured, and it is what its recovery leaves -/
theorem restored_spec {s : Reflecting T M G}
    (hcaptured : s.captured.map Prod.fst = s.quad.checkpoints) (cp : CheckpointId) :
    (∃ c, s.restored cp = some c ∧ c ∈ s.captured ∧
      RecoversTo s.runtime.contractEngine.contracts s.quad (some cp) c.1.quad) ∨
    (s.restored cp = none ∧
      ∀ snap, ¬ RecoversTo s.runtime.contractEngine.contracts s.quad (some cp) snap) := by
  unfold restored
  cases hid : recoveredCheckpoint s.runtime.contractEngine.contracts s.quad (some cp) with
  | none =>
    refine Or.inr ⟨rfl, fun snap h => ?_⟩
    obtain ⟨id, hid', -⟩ := recoversTo_iff.mp h
    rw [hid] at hid'
    cases hid'
  | some id =>
    left
    obtain ⟨snap, hroll⟩ := rollsBack_of_recovered hid
    obtain ⟨c, hc, hmem, rfl⟩ := hroll.captured hcaptured
    exact ⟨c, hc, hmem, recoversTo_iff.mpr ⟨id, hid, hroll⟩⟩

/-! ## answers go forward -/

/-- an answer goes one section further, and only after the signal -/
theorem answers_step (s : Reflecting T M G) (turn : Turn T) (t : T) :
    (step calls results s turn).answers t = s.answers t ∨
    (s.signalled t = true ∧ (step calls results s turn).answers t ≠ .waiting ∧
      s.answers t ≠ .recorded) := by
  cases turn with
  | update u =>
    left
    show (stepUpdate calls s u).answers t = s.answers t
    rw [answers_stepUpdate]
  | answer u =>
    show (stepAnswer calls results s u).answers t = s.answers t ∨
      (s.signalled t = true ∧ (stepAnswer calls results s u).answers t ≠ .waiting ∧
        s.answers t ≠ .recorded)
    unfold stepAnswer
    by_cases hs : s.signalled u = true
    · rw [if_pos hs]
      by_cases htu : t = u
      · subst htu
        cases ha : s.answers t with
        | recorded => exact Or.inl ha
        | waiting =>
          refine Or.inr ⟨hs, ?_, fun h => nomatch h⟩
          show Function.update s.answers t AnswerPc.slowWritten t ≠ .waiting
          rw [Function.update_self]
          exact fun h => nomatch h
        | slowWritten =>
          refine Or.inr ⟨hs, ?_, fun h => nomatch h⟩
          show Function.update s.answers t AnswerPc.recorded t ≠ .waiting
          rw [Function.update_self]
          exact fun h => nomatch h
      · left
        cases s.answers u with
        | recorded => rfl
        | _ => exact Function.update_of_ne htu _ _
    · rw [if_neg hs]
      exact Or.inl rfl

theorem answered_step {s : Reflecting T M G} {turn : Turn T} {t : T}
    (h : s.answers t ≠ .waiting) : (step calls results s turn).answers t ≠ .waiting := by
  rcases @answers_step M G _ _ _ T _ calls results s turn t with heq | ⟨-, hne, -⟩
  · rw [heq]
    exact h
  · exact hne

theorem recorded_step {s : Reflecting T M G} {turn : Turn T} {t : T}
    (h : s.answers t = .recorded) : (step calls results s turn).answers t = .recorded := by
  rcases @answers_step M G _ _ _ T _ calls results s turn t with heq | ⟨-, -, hne⟩
  · rw [heq]
    exact h
  · exact absurd h hne

/-- a call that has returned has returned for good -/
theorem signalled_step {s : Reflecting T M G} {turn : Turn T} {t : T}
    (h : s.signalled t = true) : (step calls results s turn).signalled t = true := by
  have hpc : (step calls results s turn).flight.pc t = s.flight.pc t := by
    cases turn with
    | update u =>
      show (stepUpdate calls s u).flight.pc t = s.flight.pc t
      rw [flight_stepUpdate]
      show Function.update s.flight.pc u _ t = s.flight.pc t
      by_cases htu : t = u
      · subst htu
        rw [Function.update_self]
        unfold signalled at h
        cases hdone : s.flight.pc t with
        | done result => rfl
        | _ =>
          rw [hdone] at h
          cases h
      · exact Function.update_of_ne htu _ _
    | answer u =>
      show (stepAnswer calls results s u).flight.pc t = s.flight.pc t
      unfold stepAnswer
      split
      · split <;> rfl
      · rfl
  unfold signalled at h ⊢
  rw [hpc]
  exact h

end

end
end Reflecting
end Epica
