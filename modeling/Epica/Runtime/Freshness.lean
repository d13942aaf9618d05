import Epica.Runtime.Reflection

/-!
# Slow confidences that are fresh

An answer carries the id of a belief and nothing of the revision it was asked about, and a revision
that contradicts nothing keeps the slow confidence that was there.  A slow confidence is fresh when
it is the answer to the call that has written the value beside it.

* `quadEffect_step`   what one step does to the quad, its checkpoints and its authors;
* `Traced.step`       the ghosts stay right;
* `fresh_step_iff`    a step leaves no stale slow confidence exactly when it is in time.
-/

set_option linter.unusedSectionVars false

namespace Epica
open Lib

/-! ## what a section may drop -/

namespace BeliefQuad
section
variable {M : Type → Type} {G : Type → Type → Type} [SlotMap M] [StableDiGraph G] [Platform]

/-- of the slow confidence and the value of `id`, `q'` has what `q` has, or nothing -/
structure WithinAt (q' q : BeliefQuad M G) (id : BeliefId) : Prop where
  slow : ∀ r, q'.slowAt id = some r → q.slowAt id = some r
  value : ∀ v, q'.valueAt id = some v → q.valueAt id = some v

theorem WithinAt.refl (q : BeliefQuad M G) (id : BeliefId) : q.WithinAt q id :=
  ⟨fun _ h => h, fun _ h => h⟩

theorem OnlyConfidences.within {q q' : BeliefQuad M G} (h : q.OnlyConfidences q')
    (id : BeliefId) : q'.WithinAt q id where
  slow r hr := by
    rw [h.slowAt id] at hr
    exact hr
  value v hv := by
    rw [h.valueAt id] at hv
    exact hv

theorem live_of_slowAt {q : BeliefQuad M G} {id : BeliefId} {r : ℚ}
    (h : q.slowAt id = some r) : q.Live id := by
  obtain ⟨n, hn, -⟩ := Option.bind_eq_some_iff.mp h
  exact live_iff.mpr ⟨n, hn⟩

/-- a belief with a slow confidence has a value -/
theorem exists_valueAt {q : BeliefQuad M G} {id : BeliefId} {r : ℚ} (h : q.slowAt id = some r) :
    ∃ v, q.valueAt id = some v := by
  obtain ⟨n, hn⟩ := live_iff.mp (live_of_slowAt h)
  unfold valueAt
  rw [hn]
  exact ⟨n.value, rfl⟩

theorem slowAt_writeSlow (q : BeliefQuad M G) (id : BeliefId) (r : ℚ) (j : BeliefId) :
    (q.modify id fun n => { n with slowConfidence := some r }).slowAt j =
      if j = id ∧ q.Live id then some r else q.slowAt j := by
  unfold slowAt
  rw [get_modify]
  by_cases hj : j = id
  · subst hj
    rw [if_pos rfl]
    cases hn : q.get j with
    | none =>
      rw [if_neg fun h => not_live_iff.mpr hn h.2]
      rfl
    | some n =>
      rw [if_pos ⟨rfl, live_iff.mpr ⟨n, hn⟩⟩]
      rfl
  · rw [if_neg hj, if_neg fun h => hj h.1]

theorem valueAt_writeSlow (q : BeliefQuad M G) (id : BeliefId) (r : ℚ) (j : BeliefId) :
    (q.modify id fun n => { n with slowConfidence := some r }).valueAt j = q.valueAt j := by
  unfold valueAt
  rw [get_modify]
  split
  · cases q.get j <;> rfl
  · rfl

end
end BeliefQuad

namespace BeliefRuntime
section
variable {M : Type → Type} {G : Type → Type → Type} [SlotMap M] [StableDiGraph G] [Platform]
  (rt : BeliefRuntime M G) (call : UpdateCall)

/-- a revision section writes to no belief but its own, and to none when it fails -/
theorem reviseAndPropagate_within {j : BeliefId}
    (hj : j ≠ call.id ∨ ∃ e, (rt.reviseAndPropagate call).1 = .error e) :
    (rt.reviseAndPropagate call).2.quad.WithinAt rt.quad j := by
  have honly := rt.reviseAndPropagate_only call
  have hfail : j ≠ call.id ∨ ∃ e, (call.revise rt.quad).1 = .error e := by
    refine hj.imp_right fun he => ?_
    obtain ⟨e, he⟩ := he
    rcases rt.reviseAndPropagate_cases call with ⟨e', he', -⟩ | ⟨record, out, -, hok, -⟩
    · exact ⟨e', he'⟩
    · rw [hok] at he
      cases he
  constructor
  · intro r hr
    rw [honly.slowAt j] at hr
    exact BeliefQuad.slowAt_of_revise _ _ _ _ _ _ _ hr
  · intro v hv
    rw [honly.valueAt j] at hv
    exact BeliefQuad.valueAt_of_revise _ _ _ _ _ _ _ hv hfail

/-- a revision section that goes through writes the value, and keeps the slow confidence when it
contradicts nothing -/
theorem reviseAndPropagate_self {out : ℚ × Bool} (h : (rt.reviseAndPropagate call).1 = .ok out) :
    (rt.reviseAndPropagate call).2.quad.valueAt call.id = some call.value ∧
    (rt.reviseAndPropagate call).2.quad.slowAt call.id =
      if rt.quad.checkContradiction call.id call.value = true then none
      else rt.quad.slowAt call.id := by
  have honly := rt.reviseAndPropagate_only call
  rcases rt.reviseAndPropagate_cases call with ⟨e, -, he, -⟩ | ⟨record, out, hok, -, -⟩
  · rw [he] at h
    cases h
  · rw [honly.valueAt, honly.slowAt]
    exact ⟨(BeliefQuad.valueAt_revise_self _ _ _ _ _ _ _ hok).2,
      BeliefQuad.slowAt_revise_self _ _ _ _ _ _ _ hok⟩

end
end BeliefRuntime

/-! ## fresh slow confidences -/

namespace Reflecting
section
variable {M : Type → Type} {G : Type → Type → Type} [SlotMap M] [StableDiGraph G] [Platform]
  {T : Type}

/-- the slow confidence of `id`, if there is one, is the answer to the call that has written the
value beside it -/
def FreshAt (calls : T → UpdateCall) (results : T → ℚ) (q : BeliefQuad M G) (a : Authors T)
    (id : BeliefId) : Prop :=
  ∀ r, q.slowAt id = some r → ∃ t, a.value id = some t ∧ a.slow id = some t ∧ results t = r ∧
    (calls t).id = id ∧ q.valueAt id = some (calls t).value

/-- the authors are those of the quad, and the ones of slow confidences have answered -/
structure AttributedAt (calls : T → UpdateCall) (results : T → ℚ) (answers : T → AnswerPc)
    (q : BeliefQuad M G) (a : Authors T) (id : BeliefId) : Prop where
  slow : ∀ r, q.slowAt id = some r →
    ∃ t, a.slow id = some t ∧ results t = r ∧ answers t ≠ .waiting
  value : ∀ t v, a.value id = some t → q.valueAt id = some v →
    (calls t).id = id ∧ (calls t).value = v

section
variable {calls : T → UpdateCall} {results : T → ℚ} {answers answers' : T → AnswerPc}
  {q q' : BeliefQuad M G} {a a' : Authors T} {id : BeliefId}

theorem FreshAt.within (h : FreshAt calls results q a id) (hq : q'.WithinAt q id)
    (hvalue : a'.value id = a.value id) (hslow : a'.slow id = a.slow id) :
    FreshAt calls results q' a' id := by
  intro r hr
  obtain ⟨t, hv, hs, hres, hid, hval⟩ := h r (hq.slow r hr)
  obtain ⟨v, hv'⟩ := BeliefQuad.exists_valueAt hr
  have heq : v = (calls t).value := Option.some.inj ((hq.value v hv').symm.trans hval)
  rw [hvalue, hslow, hv', heq]
  exact ⟨t, hv, hs, hres, hid, rfl⟩

theorem AttributedAt.within (h : AttributedAt calls results answers q a id)
    (hq : q'.WithinAt q id) (hvalue : a'.value id = a.value id) (hslow : a'.slow id = a.slow id)
    (hanswers : ∀ t, answers t ≠ .waiting → answers' t ≠ .waiting) :
    AttributedAt calls results answers' q' a' id where
  slow r hr := by
    obtain ⟨t, hs, hres, ht⟩ := h.slow r (hq.slow r hr)
    exact ⟨t, hslow.trans hs, hres, hanswers t ht⟩
  value t v ht hv := h.value t v (hvalue.symm.trans ht) (hq.value v hv)

end

/-! ## steps that are in time -/

section
variable [DecidableEq T] (calls : T → UpdateCall)

/-- `t` is about to revise, and the revision goes through -/
def revises (s : Reflecting T M G) (t : T) : Bool :=
  match s.flight.pc t with
  | .revise _ _ => (s.runtime.reviseAndPropagate (calls t)).1.isOk
  | _ => false

/-- a revision that contradicts nothing finds no slow confidence; an answer finds the value that
its call has written -/
def QuadInTime (s : Reflecting T M G) : Turn T → Prop
  | .update t => revises calls s t = true →
    s.quad.checkContradiction (calls t).id (calls t).value = true ∨
      s.quad.slowAt (calls t).id = none
  | .answer t => s.signalled t = true → s.answers t = .waiting →
    s.quad.Live (calls t).id → s.authors.value (calls t).id = some t

/-- a call that is about to revise has not returned -/
theorem not_signalled_of_revises {s : Reflecting T M G} {t : T} (h : revises calls s t = true) :
    s.signalled t = false := by
  unfold revises at h
  unfold signalled
  cases hpc : s.flight.pc t with
  | done result =>
    rw [hpc] at h
    cases h
  | _ => rfl

/-! ## the effect of a step on the quad -/

variable (results : T → ℚ)

/-- what a step from `s` to `s'` may do to the quad, its checkpoints and its authors -/
inductive QuadEffect (s s' : Reflecting T M G) : Turn T → Prop where
  | keeps {turn : Turn T} (hin : QuadInTime calls s turn)
      (hquad : ∀ id, s'.quad.WithinAt s.quad id)
      (hcheckpoints : s'.quad.checkpoints = s.quad.checkpoints)
      (hauthors : s'.authors = s.authors) (hcaptured : s'.captured = s.captured) :
      QuadEffect s s' turn
  | captures {turn : Turn T} (hin : QuadInTime calls s turn) (cp : BeliefQuadCheckpoint M G)
      (hcp : cp.quad = s.quad.stripped)
      (hquad : s'.quad = { s.quad with checkpoints := s.quad.checkpoints ++ [cp] })
      (hauthors : s'.authors = s.authors)
      (hcaptured : s'.captured = s.captured ++ [(cp, s.authors)]) :
      QuadEffect s s' turn
  | revises (t : T) (hrevises : revises calls s t = true)
      (hquad : ∀ j, j ≠ (calls t).id → s'.quad.WithinAt s.quad j)
      (hvalue : s'.quad.valueAt (calls t).id = some (calls t).value)
      (hslow : s'.quad.slowAt (calls t).id =
        if s.quad.checkContradiction (calls t).id (calls t).value = true then none
        else s.quad.slowAt (calls t).id)
      (hcheckpoints : s'.quad.checkpoints = s.quad.checkpoints)
      (hauthors : s'.authors = { s.authors with
        value := Function.update s.authors.value (calls t).id (some t) })
      (hcaptured : s'.captured = s.captured) :
      QuadEffect s s' (.update t)
  | restores {turn : Turn T} (hin : QuadInTime calls s turn)
      (c : BeliefQuadCheckpoint M G × Authors T) (hc : c ∈ s.captured)
      (hquad : s'.quad = c.1.quad) (hauthors : s'.authors = c.2) (hcaptured : s'.captured = []) :
      QuadEffect s s' turn
  | answers (t : T) (hsignalled : s.signalled t = true) (hanswers : s.answers t = .waiting)
      (hquad : s'.quad =
        s.quad.modify (calls t).id fun n => { n with slowConfidence := some (results t) })
      (hauthors : s'.authors = { s.authors with
        slow := Function.update s.authors.slow (calls t).id (some t) })
      (hanswered : s'.answers t = .slowWritten) (hcaptured : s'.captured = s.captured) :
      QuadEffect s s' (.answer t)

variable {calls results}

/-- a section of an update that touches neither the quad nor its ghosts -/
theorem keeps_of_eq {s s' : Reflecting T M G} {turn : Turn T} (hin : QuadInTime calls s turn)
    (hquad : s'.quad = s.quad) (hauthors : s'.authors = s.authors)
    (hcaptured : s'.captured = s.captured) : QuadEffect calls results s s' turn := by
  refine .keeps hin (fun id => ?_) (congrArg _ hquad) hauthors hcaptured
  rw [hquad]
  exact .refl _ id

theorem quadEffect_revise {s : Reflecting T M G} {t : T} {beliefKey : String} {cp : CheckpointId}
    (hpc : s.flight.pc t = .revise beliefKey cp) :
    QuadEffect calls results s (stepUpdate calls s t) (.update t) := by
  have hrevises : revises calls s t = (s.runtime.reviseAndPropagate (calls t)).1.isOk := by
    unfold revises
    rw [hpc]
  have hquad : (stepUpdate calls s t).quad = (s.runtime.reviseAndPropagate (calls t)).2.quad := by
    unfold quad
    rw [flight_stepUpdate]
    show (lockSection (calls t) s.flight.runtime (s.flight.pc t)).1.quad = _
    rw [lockSection_fst, hpc]
    rfl
  have hcheckpoints : (stepUpdate calls s t).quad.checkpoints = s.quad.checkpoints := by
    rw [hquad, (s.runtime.reviseAndPropagate_only (calls t)).checkpoints]
    exact BeliefQuad.revise_checkpoints _ _ _ _ _ _
  cases hr : (s.runtime.reviseAndPropagate (calls t)).1 with
  | error e =>
    have hfails : revises calls s t = false := by
      rw [hrevises, hr]
      rfl
    have hstep : stepUpdate calls s t = { s with flight := InFlight.step calls s.flight t } := by
      unfold stepUpdate
      rw [hpc, hr]
      rfl
    refine .keeps (fun h => ?_) (fun id => ?_) hcheckpoints (by rw [hstep]) (by rw [hstep])
    · rw [hfails] at h
      cases h
    · rw [hquad]
      exact s.runtime.reviseAndPropagate_within (calls t) (Or.inr ⟨e, hr⟩)
  | ok out =>
    have hgoes : revises calls s t = true := by
      rw [hrevises, hr]
      rfl
    have hstep : stepUpdate calls s t = { s with
        flight := InFlight.step calls s.flight t
        authors := { s.authors with
          value := Function.update s.authors.value (calls t).id (some t) } } := by
      unfold stepUpdate
      rw [hpc, hr]
      rfl
    obtain ⟨hvalue, hslow⟩ := s.runtime.reviseAndPropagate_self (calls t) hr
    rw [← hquad] at hvalue hslow
    refine .revises t hgoes (fun j hj => ?_) hvalue hslow hcheckpoints (by rw [hstep])
      (by rw [hstep])
    rw [hquad]
    exact s.runtime.reviseAndPropagate_within (calls t) (Or.inl hj)

theorem quadEffect_postUpdate {s : Reflecting T M G} {t : T}
    (hcaptured : s.captured.map Prod.fst = s.quad.checkpoints)
    (hin : QuadInTime calls s (.update t)) {beliefKey : String} {cp : CheckpointId} {fast : ℚ}
    {contradicted : Bool} (hpc : s.flight.pc t = .postUpdate beliefKey cp fast contradicted) :
    QuadEffect calls results s (stepUpdate calls s t) (.update t) := by
  have hquad : (stepUpdate calls s t).quad =
      (s.runtime.postUpdate (calls t) cp beliefKey).2.quad := by
    unfold quad
    rw [flight_stepUpdate]
    show (lockSection (calls t) s.flight.runtime (s.flight.pc t)).1.quad = _
    rw [lockSection_fst, hpc]
    rfl
  have hpost := s.runtime.contractEngine.postUpdate_quad s.quad (some cp) beliefKey "system"
    (calls t).auditMs
  rcases restored_spec hcaptured cp with ⟨c, hc, hmem, hrec⟩ | ⟨hnone, hno⟩
  · have hstep : stepUpdate calls s t = { s with
        flight := InFlight.step calls s.flight t
        authors := c.2
        captured := [] } := by
      unfold stepUpdate
      rw [hpc]
      simp only [hc]
    refine .restores hin c hmem ?_ (by rw [hstep]) (by rw [hstep])
    rcases hpost with ⟨snap, hrec', hsnap⟩ | ⟨hno, -⟩
    · rw [hquad, hrec.unique hrec']
      exact hsnap
    · exact absurd hrec (hno c.1.quad)
  · have hstep : stepUpdate calls s t = { s with flight := InFlight.step calls s.flight t } := by
      unfold stepUpdate
      rw [hpc]
      simp only [hnone]
    rcases hpost with ⟨snap, hrec, -⟩ | ⟨-, honly⟩
    · exact absurd hrec (hno snap)
    · refine .keeps hin (fun id => ?_) ?_ (by rw [hstep]) (by rw [hstep])
      · rw [hquad]
        exact BeliefQuad.OnlyConfidences.within honly id
      · rw [hquad]
        exact honly.checkpoints

/-- a section of an update -/
theorem quadEffect_update {s : Reflecting T M G}
    (hcaptured : s.captured.map Prod.fst = s.quad.checkpoints) (t : T) :
    QuadEffect calls results s (stepUpdate calls s t) (.update t) := by
  have hin : (∀ beliefKey cp, s.flight.pc t ≠ .revise beliefKey cp) →
      QuadInTime calls s (.update t) := by
    intro hne h
    unfold revises at h
    split at h
    · exact absurd ‹_› (hne _ _)
    · cases h
  have hquad : (stepUpdate calls s t).quad =
      (lockSection (calls t) s.flight.runtime (s.flight.pc t)).1.quad := by
    unfold quad
    rw [flight_stepUpdate]
    rfl
  rw [lockSection_fst] at hquad
  cases hpc : s.flight.pc t with
  | checkpoint beliefKey =>
    rw [hpc] at hquad hin
    have hstep : stepUpdate calls s t = { s with
        flight := InFlight.step calls s.flight t
        captured := s.captured ++ [(s.quad.capture (calls t).checkpointStamp.uuid
          (calls t).checkpointStamp.nowMs, s.authors)] } := by
      unfold stepUpdate
      rw [hpc]
    exact .captures (hin fun _ _ h => nomatch h) _ rfl hquad (by rw [hstep])
      (by rw [hstep]; rfl)
  | revise beliefKey cp => exact quadEffect_revise hpc
  | postUpdate beliefKey cp fast contradicted =>
    rw [hpc] at hin
    exact quadEffect_postUpdate hcaptured (hin fun _ _ h => nomatch h) hpc
  | _ =>
    rw [hpc] at hquad hin
    have hauthors : (stepUpdate calls s t).authors = s.authors := by
      unfold stepUpdate
      rw [hpc]
    have hkept : (stepUpdate calls s t).captured = s.captured := by
      unfold stepUpdate
      rw [hpc]
    exact keeps_of_eq (hin fun _ _ h => nomatch h) hquad hauthors hkept

/-- only the first section of an answer writes the quad -/
theorem quadEffect_answer (s : Reflecting T M G) (t : T) :
    QuadEffect calls results s (stepAnswer calls results s t) (.answer t) := by
  unfold stepAnswer
  by_cases hs : s.signalled t = true
  · rw [if_pos hs]
    cases ha : s.answers t with
    | waiting => exact .answers t hs ha rfl rfl (Function.update_self t _ _) rfl
    | slowWritten =>
      exact keeps_of_eq (fun _ h => by rw [ha] at h; cases h) rfl rfl rfl
    | recorded =>
      exact keeps_of_eq (fun _ h => by rw [ha] at h; cases h) rfl rfl rfl
  · rw [if_neg hs]
    exact keeps_of_eq (fun h => absurd h hs) rfl rfl rfl

/-- **what a step does to the quad** -/
theorem quadEffect_step {s : Reflecting T M G}
    (hcaptured : s.captured.map Prod.fst = s.quad.checkpoints) (turn : Turn T) :
    QuadEffect calls results s (step calls results s turn) turn := by
  cases turn with
  | update t => exact quadEffect_update hcaptured t
  | answer t => exact quadEffect_answer s t

/-! ## the ghosts are right -/

variable (calls results)

/-- the ghosts of the quad and of its checkpoints are right -/
structure Traced (s : Reflecting T M G) : Prop where
  checkpoints : s.captured.map Prod.fst = s.quad.checkpoints
  bare : ∀ c ∈ s.captured, c.1.quad.checkpoints = []
  quad : ∀ id, AttributedAt calls results s.answers s.quad s.authors id
  captured : ∀ c ∈ s.captured, ∀ id, AttributedAt calls results s.answers c.1.quad c.2 id
  signalled : ∀ t, s.answers t ≠ .waiting → s.signalled t = true

/-- no slow confidence is stale -/
def Fresh (s : Reflecting T M G) : Prop := ∀ id, FreshAt calls results s.quad s.authors id

/-- none is in a checkpoint either -/
def FreshThroughout (s : Reflecting T M G) : Prop :=
  Fresh calls results s ∧ ∀ c ∈ s.captured, ∀ id, FreshAt calls results c.1.quad c.2 id

variable {calls results}

theorem within_captured (q : BeliefQuad M G) (cps : List (BeliefQuadCheckpoint M G))
    (id : BeliefId) : BeliefQuad.WithinAt { q with checkpoints := cps } q id :=
  ⟨fun _ h => h, fun _ h => h⟩

/-- a revision writes the value that its author is asked about -/
theorem AttributedAt.revised {s s' : Reflecting T M G} {t : T} {a : Authors T}
    {answers' : T → AnswerPc}
    (h : ∀ id, AttributedAt calls results s.answers s.quad a id)
    (hanswers : ∀ t, s.answers t ≠ .waiting → answers' t ≠ .waiting)
    (hquad : ∀ j, j ≠ (calls t).id → s'.quad.WithinAt s.quad j)
    (hvalue : s'.quad.valueAt (calls t).id = some (calls t).value)
    (hslow : ∀ r, s'.quad.slowAt (calls t).id = some r → s.quad.slowAt (calls t).id = some r)
    (id : BeliefId) : AttributedAt calls results answers' s'.quad
      { a with value := Function.update a.value (calls t).id (some t) } id := by
  by_cases hid : id = (calls t).id
  · subst hid
    constructor
    · intro r hr
      obtain ⟨u, hu, hres, hans⟩ := (h _).slow r (hslow r hr)
      exact ⟨u, hu, hres, hanswers u hans⟩
    · intro u v hu hv
      have hself : Function.update a.value (calls t).id (some t) (calls t).id = some u := hu
      rw [Function.update_self] at hself
      obtain rfl := Option.some.inj hself
      exact ⟨rfl, Option.some.inj (hvalue.symm.trans hv)⟩
  · exact (h id).within (hquad id hid) (Function.update_of_ne hid _ _) rfl hanswers

/-- an answer writes the slow confidence of its author -/
theorem AttributedAt.answered {s : Reflecting T M G} {t : T} {a : Authors T}
    {answers' : T → AnswerPc} (h : ∀ id, AttributedAt calls results s.answers s.quad a id)
    (hanswers : ∀ t, s.answers t ≠ .waiting → answers' t ≠ .waiting)
    (ht : answers' t ≠ .waiting) (id : BeliefId) :
    AttributedAt calls results answers'
      (s.quad.modify (calls t).id fun n => { n with slowConfidence := some (results t) })
      { a with slow := Function.update a.slow (calls t).id (some t) } id where
  slow r hr := by
    have hlive : s.quad.Live id :=
      (BeliefQuad.live_modify s.quad (calls t).id _ id).mp (BeliefQuad.live_of_slowAt hr)
    rw [BeliefQuad.slowAt_writeSlow] at hr
    by_cases hid : id = (calls t).id
    · subst hid
      rw [if_pos ⟨rfl, hlive⟩] at hr
      exact ⟨t, Function.update_self _ _ _, Option.some.inj hr, ht⟩
    · rw [if_neg fun h => hid h.1] at hr
      obtain ⟨u, hu, hres, hans⟩ := (h id).slow r hr
      exact ⟨u, (Function.update_of_ne hid _ _).trans hu, hres, hanswers u hans⟩
  value u v hu hv := by
    rw [BeliefQuad.valueAt_writeSlow] at hv
    exact (h id).value u v hu hv

/-- what is captured was captured before, or it is the quad with its authors -/
theorem QuadEffect.mem_captured {s s' : Reflecting T M G} {turn : Turn T}
    (e : QuadEffect calls results s s' turn) {c : BeliefQuadCheckpoint M G × Authors T}
    (hc : c ∈ s'.captured) : c ∈ s.captured ∨ c.1.quad = s.quad.stripped ∧ c.2 = s.authors := by
  cases e with
  | keeps hin hquad hcheckpoints hauthors hcaptured =>
    rw [hcaptured] at hc
    exact Or.inl hc
  | captures hin cp hcp hquad hauthors hcaptured =>
    rw [hcaptured] at hc
    refine (List.mem_append.mp hc).imp_right fun hc => ?_
    rw [List.mem_singleton.mp hc]
    exact ⟨hcp, rfl⟩
  | revises t hrevises hquad hvalue hslow hcheckpoints hauthors hcaptured =>
    rw [hcaptured] at hc
    exact Or.inl hc
  | restores hin c' hc' hquad hauthors hcaptured =>
    rw [hcaptured] at hc
    exact absurd hc List.not_mem_nil
  | answers t hsent hwaiting hquad hauthors hanswered hcaptured =>
    rw [hcaptured] at hc
    exact Or.inl hc

/-- what is captured are the checkpoints of the quad -/
theorem QuadEffect.map_captured {s s' : Reflecting T M G} {turn : Turn T}
    (e : QuadEffect calls results s s' turn) (h : Traced calls results s) :
    s'.captured.map Prod.fst = s'.quad.checkpoints := by
  cases e with
  | keeps hin hquad hcheckpoints hauthors hcaptured =>
    rw [hcaptured, hcheckpoints]
    exact h.checkpoints
  | captures hin cp hcp hquad hauthors hcaptured =>
    rw [hcaptured, hquad, List.map_append, h.checkpoints]
    rfl
  | revises t hrevises hquad hvalue hslow hcheckpoints hauthors hcaptured =>
    rw [hcaptured, hcheckpoints]
    exact h.checkpoints
  | restores hin c hc hquad hauthors hcaptured =>
    rw [hcaptured, hquad]
    exact (h.bare c hc).symm
  | answers t hsent hwaiting hquad hauthors hanswered hcaptured =>
    rw [hcaptured, hquad]
    exact h.checkpoints

/-- the authors of the quad stay right -/
theorem QuadEffect.attributedAt {s s' : Reflecting T M G} {turn : Turn T}
    (e : QuadEffect calls results s s' turn) (h : Traced calls results s)
    (hanswers : ∀ t, s.answers t ≠ .waiting → s'.answers t ≠ .waiting) (id : BeliefId) :
    AttributedAt calls results s'.answers s'.quad s'.authors id := by
  cases e with
  | keeps hin hquad hcheckpoints hauthors hcaptured =>
    rw [hauthors]
    exact (h.quad id).within (hquad id) rfl rfl hanswers
  | captures hin cp hcp hquad hauthors hcaptured =>
    rw [hquad, hauthors]
    exact (h.quad id).within (within_captured s.quad _ id) rfl rfl hanswers
  | revises t hrevises hquad hvalue hslow hcheckpoints hauthors hcaptured =>
    rw [hauthors]
    refine AttributedAt.revised h.quad hanswers hquad hvalue (fun r hr => ?_) id
    rw [hslow] at hr
    split at hr
    · cases hr
    · exact hr
  | restores hin c hc hquad hauthors hcaptured =>
    rw [hquad, hauthors]
    exact (h.captured c hc id).within (.refl _ id) rfl rfl hanswers
  | answers t hsent hwaiting hquad hauthors hanswered hcaptured =>
    rw [hquad, hauthors]
    refine AttributedAt.answered h.quad hanswers ?_ id
    rw [hanswered]
    exact fun h => nomatch h

/-- **the ghosts of the quad stay right** -/
theorem Traced.step {s : Reflecting T M G} (h : Traced calls results s) (turn : Turn T) :
    Traced calls results (step calls results s turn) := by
  have e : QuadEffect calls results s (Reflecting.step calls results s turn) turn :=
    quadEffect_step h.checkpoints turn
  have hanswers : ∀ t, s.answers t ≠ .waiting →
      (Reflecting.step calls results s turn).answers t ≠ .waiting := fun _ => answered_step
  refine ⟨e.map_captured h, fun c hc => ?_, e.attributedAt h hanswers, fun c hc id => ?_,
    fun t ht => ?_⟩
  · rcases e.mem_captured hc with hc | ⟨hquad, -⟩
    · exact h.bare c hc
    · rw [hquad]
      rfl
  · rcases e.mem_captured hc with hc | ⟨hquad, hauthors⟩
    · exact (h.captured c hc id).within (.refl _ id) rfl rfl hanswers
    · rw [hquad, hauthors]
      exact (h.quad id).within (within_captured s.quad _ id) rfl rfl hanswers
  · rcases @answers_step M G _ _ _ T _ calls results s turn t with heq | ⟨hsig, -, -⟩
    · rw [heq] at ht
      exact signalled_step (h.signalled t ht)
    · exact signalled_step hsig

/-! ## which steps keep the quad fresh -/

/-- a revision keeps the quad fresh exactly when it leaves no slow confidence on its belief -/
theorem fresh_revise_iff {s s' : Reflecting T M G} (h : Traced calls results s)
    (hf : Fresh calls results s) {t : T} (hrevises : revises calls s t = true)
    (hquad : ∀ j, j ≠ (calls t).id → s'.quad.WithinAt s.quad j)
    (hslow : s'.quad.slowAt (calls t).id =
      if s.quad.checkContradiction (calls t).id (calls t).value = true then none
      else s.quad.slowAt (calls t).id)
    (hauthors : s'.authors = { s.authors with
      value := Function.update s.authors.value (calls t).id (some t) }) :
    Fresh calls results s' ↔ QuadInTime calls s (.update t) := by
  have hother : ∀ j, j ≠ (calls t).id → FreshAt calls results s'.quad s'.authors j := by
    intro j hj
    rw [hauthors]
    exact (hf j).within (hquad j hj) (Function.update_of_ne hj _ _) rfl
  constructor
  · intro hf' _
    by_contra hlate
    obtain ⟨hcontra, hkept⟩ := not_or.mp hlate
    rw [if_neg hcontra] at hslow
    obtain ⟨r, hr⟩ := Option.ne_none_iff_exists'.mp hkept
    obtain ⟨u, hu, hans, -⟩ := hf' _ r (hslow.trans hr)
    rw [hauthors] at hu hans
    have hself : Function.update s.authors.value (calls t).id (some t) (calls t).id = some u := hu
    rw [Function.update_self] at hself
    obtain rfl := Option.some.inj hself
    -- the author of the slow confidence has answered, but `t` has not returned yet
    obtain ⟨w, hw, -, hanswered⟩ := (h.quad _).slow r hr
    obtain rfl := Option.some.inj (hw.symm.trans hans)
    have hsig := h.signalled _ hanswered
    rw [not_signalled_of_revises calls hrevises] at hsig
    cases hsig
  · intro hin j
    by_cases hj : j = (calls t).id
    · subst hj
      intro r hr
      rw [hslow] at hr
      rcases hin hrevises with hcontra | hnone
      · rw [if_pos hcontra] at hr
        cases hr
      · rw [hnone, ite_self] at hr
        cases hr
    · exact hother j hj

/-- an answer keeps the quad fresh exactly when its call has written the value it finds -/
theorem fresh_answer_iff {s s' : Reflecting T M G} (h : Traced calls results s)
    (hf : Fresh calls results s) {t : T} (hsignalled : s.signalled t = true)
    (hwaiting : s.answers t = .waiting)
    (hquad : s'.quad =
      s.quad.modify (calls t).id fun n => { n with slowConfidence := some (results t) })
    (hauthors : s'.authors = { s.authors with
      slow := Function.update s.authors.slow (calls t).id (some t) }) :
    Fresh calls results s' ↔ QuadInTime calls s (.answer t) := by
  have hslow : ∀ j, s'.quad.slowAt j =
      if j = (calls t).id ∧ s.quad.Live (calls t).id then some (results t)
      else s.quad.slowAt j := by
    intro j
    rw [hquad]
    exact BeliefQuad.slowAt_writeSlow s.quad (calls t).id (results t) j
  have hvalue : ∀ j, s'.quad.valueAt j = s.quad.valueAt j := by
    intro j
    rw [hquad]
    exact BeliefQuad.valueAt_writeSlow s.quad (calls t).id (results t) j
  constructor
  · intro hf' _ _ hlive
    obtain ⟨u, hu, hans, -⟩ := hf' (calls t).id (results t) ((hslow _).trans (if_pos ⟨rfl, hlive⟩))
    rw [hauthors] at hu hans
    have hself : Function.update s.authors.slow (calls t).id (some t) (calls t).id = some u := hans
    rw [Function.update_self] at hself
    rw [hself]
    exact hu
  · intro hin j r hr
    by_cases hj : j = (calls t).id
    · subst hj
      have hlive : s.quad.Live (calls t).id := by
        have hlive' := BeliefQuad.live_of_slowAt hr
        rw [hquad] at hlive'
        exact (BeliefQuad.live_modify s.quad _ _ _).mp hlive'
      have hauthor := hin hsignalled hwaiting hlive
      obtain ⟨v, hv⟩ := BeliefQuad.exists_valueAt hr
      obtain ⟨-, hcall⟩ := (h.quad _).value t v hauthor ((hvalue _).symm.trans hv)
      rw [hslow, if_pos ⟨rfl, hlive⟩] at hr
      rw [hauthors]
      exact ⟨t, hauthor, Function.update_self _ _ _, Option.some.inj hr, rfl,
        by rw [hv, hcall]⟩
    · have hr' : s.quad.slowAt j = some r := by
        rw [hslow, if_neg fun h => hj h.1] at hr
        exact hr
      obtain ⟨u, hu, hans, hres, hid, hval⟩ := hf j r hr'
      rw [hauthors, hvalue]
      exact ⟨u, hu, (Function.update_of_ne hj _ _).trans hans, hres, hid, hval⟩

/-- what is captured when no slow confidence is stale is fresh -/
theorem captured_fresh_step {s s' : Reflecting T M G} {turn : Turn T}
    (hf : FreshThroughout calls results s) (e : QuadEffect calls results s s' turn) :
    ∀ c ∈ s'.captured, ∀ id, FreshAt calls results c.1.quad c.2 id := by
  intro c hc id
  rcases e.mem_captured hc with hc | ⟨hquad, hauthors⟩
  · exact hf.2 c hc id
  · rw [hquad, hauthors]
    exact (hf.1 id).within (within_captured s.quad _ id) rfl rfl

/-- **a step leaves no stale slow confidence exactly when it is in time** -/
theorem fresh_step_iff {s s' : Reflecting T M G} {turn : Turn T} (h : Traced calls results s)
    (hf : FreshThroughout calls results s) (e : QuadEffect calls results s s' turn) :
    Fresh calls results s' ↔ QuadInTime calls s turn := by
  cases e with
  | keeps hin hquad hcheckpoints hauthors hcaptured =>
    refine iff_of_true (fun id => ?_) hin
    rw [hauthors]
    exact (hf.1 id).within (hquad id) rfl rfl
  | captures hin cp hcp hquad hauthors hcaptured =>
    refine iff_of_true (fun id => ?_) hin
    rw [hquad, hauthors]
    exact (hf.1 id).within (within_captured s.quad _ id) rfl rfl
  | revises t hrevises hquad hvalue hslow hcheckpoints hauthors hcaptured =>
    exact fresh_revise_iff h hf.1 hrevises hquad hslow hauthors
  | restores hin c hc hquad hauthors hcaptured =>
    refine iff_of_true (fun id => ?_) hin
    rw [hquad, hauthors]
    exact hf.2 c hc id
  | answers t hsignalled hwaiting hquad hauthors hanswered hcaptured =>
    exact fresh_answer_iff h hf.1 hsignalled hwaiting hquad hauthors

end

end
end Reflecting
end Epica
