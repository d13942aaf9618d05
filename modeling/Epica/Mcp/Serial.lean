import Epica.Mcp.Keys

/-!
# Sets of one key that do not overlap

What goes wrong with keys goes wrong between sets that overlap.  When no set starts while another
one of its key is pending, the index knows every belief but those about to be registered, and a set
that has written, and not yet answered, can read its text.

* `apart_step`         one section keeps `Apart`, if it starts no set beside a pending one;
* `faithful_of_apart`  then keys stay unique, and what has been set is read.
-/

set_option linter.unusedSectionVars false

namespace Epica
open Lib

namespace Serving
section
variable {M : Type → Type} {G : Type → Type → Type} [SlotMap M] [StableDiGraph G] [Platform]
  {T : Type} [DecidableEq T]

/-! ## where a request goes -/

/-- the request has started, and not been answered -/
def pending (pc : SetPc) : Bool := started pc && !responded pc

/-- the request has written its text -/
def wrote : SetPc → Bool
  | .lookup => false
  | .insertQuad => false
  | .update _ upc => InFlight.revised upc
  | .done (.error _) => false
  | _ => true

theorem pending_iff {pc : SetPc} :
    pending pc = true ↔ started pc = true ∧ responded pc = false := by
  unfold pending
  rw [Bool.and_eq_true, Bool.not_eq_true']

/-- a request that has run a section has started -/
theorem started_next (call : SetCall) (s : Session M G) (pc : SetPc) :
    started (s.setSection call pc).2 = true := by
  cases pc with
  | lookup =>
    unfold Session.setSection
    simp only
    split <;> rfl
  | update id upc =>
    show started (Session.afterUpdate id (lockSection (call.update id) s.runtime upc).2) = true
    unfold Session.afterUpdate
    split <;> rfl
  | consume id signal =>
    unfold Session.setSection
    simp only
    split <;> rfl
  | reflect id signal =>
    unfold Session.setSection
    simp only
    split
    · split <;> rfl
    · rfl
  | _ => rfl

/-- an answer is not taken back -/
theorem responded_next (call : SetCall) (s : Session M G) {pc : SetPc}
    (h : responded pc = true) : responded (s.setSection call pc).2 = true := by
  cases pc with
  | reflect id signal =>
    unfold Session.setSection
    simp only
    split
    · split <;> rfl
    · rfl
  | done response => exact h
  | lookup => cases h
  | update id upc => cases h
  | insertQuad => cases h
  | insertIndex id => cases h
  | consume id signal => cases h
  | _ => rfl

/-- what is pending after a section was pending before it, or starts with it -/
theorem pending_of_next (call : SetCall) (s : Session M G) {pc : SetPc}
    (h : pending (s.setSection call pc).2 = true) : pc = .lookup ∨ pending pc = true := by
  by_cases hpc : pc = .lookup
  · exact Or.inl hpc
  · right
    refine pending_iff.mpr ⟨?_, ?_⟩
    · cases pc with
      | lookup => exact absurd rfl hpc
      | _ => rfl
    · by_contra hr
      rw [Bool.not_eq_false] at hr
      have hno := (pending_iff.mp h).2
      rw [responded_next call s hr] at hno
      cases hno

/-- the text is written by the section that `Writes` names -/
theorem writes_or_wrote {calls : T → SetCall} {s : Serving T M G} {t : T}
    (h : wrote (s.session.setSection (calls t) (s.pc t)).2 = true) :
    Writes calls s t ∨ wrote (s.pc t) = true := by
  unfold Writes
  cases hpc : s.pc t with
  | lookup =>
    rw [hpc] at h
    unfold Session.setSection at h
    simp only at h
    split at h <;> cases h
  | insertQuad => exact Or.inl (Or.inl rfl)
  | update id upc =>
    rw [hpc] at h
    have hnext : wrote (Session.afterUpdate id
        (lockSection ((calls t).update id) s.session.runtime upc).2) = true := h
    have hrevised : InFlight.revised
        (lockSection ((calls t).update id) s.session.runtime upc).2 = true := by
      unfold Session.afterUpdate at hnext
      split at hnext
      · cases hnext
      · rename_i heq
        rw [heq]
        rfl
      · rename_i heq
        rw [heq]
        rfl
      · exact hnext
    cases hold : InFlight.revised upc with
    | true => exact Or.inr hold
    | false =>
      obtain ⟨hrev, hout⟩ := InFlight.lockSection_revised hold hrevised
      exact Or.inl (Or.inr ⟨id, upc, rfl, hrev, hout⟩)
  | done response =>
    rw [hpc] at h
    exact Or.inr h
  | _ => exact Or.inr rfl

/-- who has written does not write again -/
theorem not_writes_of_wrote {calls : T → SetCall} {s : Serving T M G} {t : T}
    (h : wrote (s.pc t) = true) : ¬ Writes calls s t := by
  intro hw
  rcases hw with hpc | ⟨id, upc, hpc, ⟨beliefKey, cp, rfl⟩, -⟩
  · rw [hpc] at h
    cases h
  · rw [hpc] at h
    cases h

/-- who writes is pending -/
theorem pending_of_writes {calls : T → SetCall} {s : Serving T M G} {t : T}
    (h : Writes calls s t) : pending (s.pc t) = true := by
  rcases h with hpc | ⟨id, upc, hpc, -⟩
  · rw [hpc]
    rfl
  · rw [hpc]
    rfl

/-- a section that completes a request with success finds the text written -/
theorem wrote_of_succeeds {calls : T → SetCall} {s : Serving T M G} {t : T}
    (hr : responded (s.pc t) = false)
    (h : succeeded (s.session.setSection (calls t) (s.pc t)).2 = true) :
    pending (s.pc t) = true ∧ wrote (s.pc t) = true := by
  cases hpc : s.pc t with
  | lookup =>
    rw [hpc] at h
    unfold Session.setSection at h
    simp only at h
    split at h <;> cases h
  | insertQuad =>
    rw [hpc] at h
    cases h
  | update id upc =>
    refine ⟨rfl, ?_⟩
    rw [hpc] at h
    have hnext : succeeded (Session.afterUpdate id
        (lockSection ((calls t).update id) s.session.runtime upc).2) = true := h
    obtain ⟨result, hdone⟩ : ∃ result,
        (lockSection ((calls t).update id) s.session.runtime upc).2 = .done (.ok result) := by
      unfold Session.afterUpdate at hnext
      split at hnext
      · cases hnext
      · rename_i heq
        exact ⟨_, heq⟩
      · cases hnext
      · cases hnext
    by_contra hno
    rw [Bool.not_eq_true] at hno
    have hrevised : InFlight.revised
        (lockSection ((calls t).update id) s.session.runtime upc).2 = true := by
      rw [hdone]
      rfl
    obtain ⟨⟨beliefKey, cp, rfl⟩, -⟩ := InFlight.lockSection_revised hno hrevised
    -- after its revision a call goes on to the contracts
    simp only [lockSection] at hdone
    split at hdone <;> cases hdone
  | insertIndex id => exact ⟨rfl, rfl⟩
  | consume id signal => exact ⟨rfl, rfl⟩
  | _ =>
    rw [hpc] at hr
    cases hr

/-! ## one pending set to a key -/

/-- if `t` is about to start, no other set of its key is pending -/
def StartsAlone (calls : T → SetCall) (s : Serving T M G) (t : T) : Prop :=
  s.pc t = .lookup → ∀ u, (calls u).key = (calls t).key → pending (s.pc u) = false

/-- no two sets of one key are pending, the index finds every belief that is not about to be
registered, and who has written can read it -/
structure Apart (calls : T → SetCall) (s : Serving T M G) : Prop where
  registered : s.Registered calls
  unique : s.UniqueKeys
  alone : ∀ u v, (calls u).key = (calls v).key → pending (s.pc u) = true →
    pending (s.pc v) = true → u = v
  found : ∀ id key, s.quad.keyAt id = some key → s.session.runtime.getByKey key = some id ∨
    ∃ u, (calls u).key = key ∧ s.pc u = .insertIndex id
  fresh : ∀ t, InsertsFresh calls s t
  written : ∀ t, pending (s.pc t) = true → wrote (s.pc t) = true →
    getValue (calls t).key s = some (.string (calls t).value)

/-- what is pending after a step was pending before it, or has started with it -/
theorem pending_step {calls : T → SetCall} {s : Serving T M G} {t u : T}
    (h : pending ((step calls s t).pc u) = true) :
    pending (s.pc u) = true ∨ (u = t ∧ s.pc t = .lookup) := by
  rw [pc_step] at h
  by_cases hut : u = t
  · subst hut
    rw [if_pos rfl] at h
    rcases pending_of_next (calls u) s.session h with hl | hp
    · exact Or.inr ⟨rfl, hl⟩
    · exact Or.inl hp
  · rw [if_neg hut] at h
    exact Or.inl h

section
variable {calls : T → SetCall} {s : Serving T M G} {t : T}

theorem alone_step (h : Apart calls s) (ha : StartsAlone calls s t) (u v : T)
    (hk : (calls u).key = (calls v).key) (hu : pending ((step calls s t).pc u) = true)
    (hv : pending ((step calls s t).pc v) = true) : u = v := by
  rcases pending_step hu with hu' | ⟨hut, hl⟩
  · rcases pending_step hv with hv' | ⟨hvt, hl⟩
    · exact h.alone u v hk hu' hv'
    · rw [hvt] at hk
      rw [ha hl u hk] at hu'
      cases hu'
  · rcases pending_step hv with hv' | ⟨hvt, -⟩
    · rw [hut] at hk
      rw [ha hl v hk.symm] at hv'
      cases hv'
    · rw [hut, hvt]

/-- what the index finds, it goes on finding: another belief under that key there is none -/
theorem getByKey_step (h : Apart calls s) {key : String} {id : BeliefId}
    (hk : s.quad.keyAt id = some key) (hi : s.session.runtime.getByKey key = some id) :
    (step calls s t).session.runtime.getByKey key = some id := by
  show (s.session.setSection (calls t) (s.pc t)).1.runtime.getByKey key = some id
  rw [Session.setSection_runtime]
  cases hpc : s.pc t with
  | insertIndex id' =>
    show (s.session.runtime.keyIndex.insert (calls t).key id').lookup key = some id
    by_cases hkey : key = (calls t).key
    · have hid := h.registered.inserts t id' hpc
      rw [← hkey] at hid
      rw [hkey, Finmap.lookup_insert, h.unique id' id key hid hk]
    · rw [Finmap.lookup_insert_of_ne _ hkey]
      exact hi
  | update id' upc =>
    have hsame := lockSection_keyIndex ((calls t).update id') s.session.runtime upc
    show (lockSection ((calls t).update id') s.session.runtime upc).1.keyIndex.lookup key = _
    rw [hsame]
    exact hi
  | _ => exact hi

/-- a request that registers what it has inserted makes the index find it -/
theorem getByKey_insertIndex {id : BeliefId} (hpc : s.pc t = .insertIndex id) :
    (step calls s t).session.runtime.getByKey (calls t).key = some id := by
  show (s.session.setSection (calls t) (s.pc t)).1.runtime.getByKey _ = some id
  rw [Session.setSection_runtime, hpc]
  exact Finmap.lookup_insert _

theorem found_step (h : Apart calls s) (id : BeliefId) (key : String)
    (hk : (step calls s t).quad.keyAt id = some key) :
    (step calls s t).session.runtime.getByKey key = some id ∨
      ∃ u, (calls u).key = key ∧ (step calls s t).pc u = .insertIndex id := by
  have hold : s.quad.keyAt id = some key →
      (step calls s t).session.runtime.getByKey key = some id ∨
        ∃ u, (calls u).key = key ∧ (step calls s t).pc u = .insertIndex id := by
    intro hk
    rcases h.found id key hk with hi | ⟨u, hu, hpc⟩
    · exact Or.inl (getByKey_step h hk hi)
    · by_cases hut : u = t
      · rw [hut] at hu hpc
        rw [← hu]
        exact Or.inl (getByKey_insertIndex hpc)
      · refine Or.inr ⟨u, hu, ?_⟩
        rw [pc_step, if_neg hut]
        exact hpc
  rcases step_keys calls h.registered t with ⟨hins, hkeys⟩ | ⟨-, hkeys⟩
  · rw [hkeys] at hk
    by_cases hid : id = s.quad.nextId
    · rw [hid, Function.update_self] at hk
      refine Or.inr ⟨t, Option.some.inj hk, ?_⟩
      rw [pc_step, if_pos rfl, hins, hid]
      rfl
    · rw [Function.update_of_ne hid] at hk
      exact hold hk
  · rw [hkeys] at hk
    exact hold hk

/-- a request inserts when the index has not found its key -/
theorem setSection_insertQuad (call : SetCall) (s : Session M G) {pc : SetPc}
    (h : (s.setSection call pc).2 = .insertQuad) :
    pc = .lookup ∧ s.runtime.getByKey call.key = none := by
  cases pc with
  | lookup =>
    unfold Session.setSection at h
    simp only at h
    split at h
    · cases h
    · rename_i heq
      exact ⟨rfl, heq⟩
  | update id upc =>
    have hnext : Session.afterUpdate id (lockSection (call.update id) s.runtime upc).2 =
        .insertQuad := h
    unfold Session.afterUpdate at hnext
    split at hnext <;> cases hnext
  | consume id signal =>
    unfold Session.setSection at h
    simp only at h
    split at h <;> cases h
  | reflect id signal =>
    unfold Session.setSection at h
    simp only at h
    split at h
    · split at h <;> cases h
    · cases h
  | _ => cases h

theorem fresh_step (h : Apart calls s) (ha : StartsAlone calls s t) (u : T) :
    InsertsFresh calls (step calls s t) u := by
  intro hpc id hk
  rw [pc_step] at hpc
  by_cases hut : u = t
  · subst hut
    rw [if_pos rfl] at hpc
    obtain ⟨hl, hnone⟩ := setSection_insertQuad (calls u) s.session hpc
    have hq : (step calls s u).quad = s.quad := by
      rw [quad_step, Session.setSection_runtime, hl]
      rfl
    rw [hq] at hk
    rcases h.found id _ hk with hi | ⟨v, hv, hpcv⟩
    · rw [hnone] at hi
      cases hi
    · have hno := ha hl v hv
      rw [hpcv] at hno
      cases hno
  · rw [if_neg hut] at hpc
    have hold := h.fresh u hpc id
    rcases step_keys calls h.registered t with ⟨hins, hkeys⟩ | ⟨-, hkeys⟩
    · rw [hkeys] at hk
      by_cases hid : id = s.quad.nextId
      · rw [hid, Function.update_self] at hk
        have hkey : (calls u).key = (calls t).key := (Option.some.inj hk).symm
        exact hut (h.alone u t hkey (by rw [hpc]; rfl) (by rw [hins]; rfl))
      · rw [Function.update_of_ne hid] at hk
        exact hold hk
    · rw [hkeys] at hk
      exact hold hk

theorem written_step (h : Apart calls s) (u : T)
    (hp : pending ((step calls s t).pc u) = true) (hw : wrote ((step calls s t).pc u) = true) :
    getValue (calls u).key (step calls s t) = some (.string (calls u).value) := by
  have hread := getValue_step h.registered h.unique (h.fresh t) (calls u).key
  by_cases hwk : WritesKey calls (calls u).key s t
  · have hut : u = t := by
      rcases pending_step hp with hp' | ⟨hut, -⟩
      · exact h.alone u t hwk.1.symm hp' (pending_of_writes hwk.2)
      · exact hut
    rw [hread.1 hwk, hut]
  · rw [hread.2 hwk]
    by_cases hut : u = t
    · subst hut
      rw [pc_step, if_pos rfl] at hw
      rcases writes_or_wrote hw with hwrites | hwrote
      · exact absurd ⟨rfl, hwrites⟩ hwk
      · rcases pending_step hp with hp' | ⟨-, hl⟩
        · exact h.written u hp' hwrote
        · rw [hl] at hwrote
          cases hwrote
    · rw [pc_step, if_neg hut] at hp hw
      exact h.written u hp hw

/-- **one section keeps the sets of a key apart, if it starts none beside a pending one** -/
theorem apart_step (h : Apart calls s) (ha : StartsAlone calls s t) :
    Apart calls (step calls s t) where
  registered := registered_step calls h.registered t
  unique := (uniqueKeys_step_iff h.registered h.unique t).mpr (h.fresh t)
  alone := alone_step h ha
  found := found_step h
  fresh := fresh_step h ha
  written u := written_step h u

end

/-! ## runs -/

section
variable {calls : T → SetCall} {s₀ : Serving T M G} {sched : List T}

theorem started_run {s : Serving T M G} {u : T} (h : started (s.pc u) = true) (sched : List T) :
    started ((run (step calls) s sched).pc u) = true :=
  @run_invariant _ _ (step calls) (fun s => started (s.pc u) = true)
    (fun s t h => by
      rw [pc_step]
      split
      · exact started_next (calls t) s.session (s.pc t)
      · exact h) s h sched

/-- who steps in a run has started when it ends -/
theorem started_of_stepOf {s₁ s : Serving T M G} {v : T} (h : StepOf (step calls) s₁ sched s v) :
    started ((run (step calls) s₁ sched).pc v) = true := by
  obtain ⟨pre, post, hsched, hs⟩ := h
  have hend : run (step calls) s₁ sched = run (step calls) (step calls s v) post := by
    rw [hsched, hs]
    exact run_append (step calls) s₁ pre (v :: post)
  have hnow : started ((step calls s v).pc v) = true := by
    rw [pc_step, if_pos rfl]
    exact started_next (calls v) s.session (s.pc v)
  rw [hend]
  exact started_run hnow post

/-- who has not started at a step of a run had not started when it began -/
theorem not_started_of_stepOf {s₁ s : Serving T M G} {u v : T}
    (h : StepOf (step calls) s₁ sched s v) (hl : s.pc u = .lookup) :
    started (s₁.pc u) = false := by
  obtain ⟨pre, post, -, hs⟩ := h
  by_contra hst
  rw [Bool.not_eq_false] at hst
  have hstart : started ((run (step calls) s₁ pre).pc u) = true := started_run hst pre
  rw [← hs, hl] at hstart
  cases hstart

/-- the sets of a key that have started have been answered, and the text of `t` is read -/
structure Quiet (calls : T → SetCall) (t : T) (s : Serving T M G) : Prop where
  apart : Apart calls s
  read : getValue (calls t).key s = some (.string (calls t).value)
  answered : ∀ u, (calls u).key = (calls t).key → pending (s.pc u) = false

/-- when `t` completes alone, its key is quiet -/
theorem Quiet.of_settled {t : T} (h₀ : Apart calls s₀) (ha : StartsAlone calls s₀ t)
    (hp : responded (s₀.pc t) = false) (hc : succeeded ((step calls s₀ t).pc t) = true) :
    Quiet calls t (step calls s₀ t) := by
  have hnext : succeeded (s₀.session.setSection (calls t) (s₀.pc t)).2 = true := by
    rw [pc_step, if_pos rfl] at hc
    exact hc
  obtain ⟨hpend, hwrote⟩ := wrote_of_succeeds hp hnext
  refine ⟨apart_step h₀ ha, ?_, fun u hu => ?_⟩
  · rw [(getValue_step h₀.registered h₀.unique (h₀.fresh t) (calls t).key).2
      fun hw => not_writes_of_wrote hwrote hw.2]
    exact h₀.written t hpend hwrote
  · by_contra hpu
    rw [Bool.not_eq_false] at hpu
    have hut : u = t := by
      rcases pending_step hpu with hp' | ⟨hut, -⟩
      · exact h₀.alone u t hu hp' hpend
      · exact hut
    have hresponded : responded ((step calls s₀ t).pc t) = true := by
      unfold responded
      split
      · rfl
      · exact hc
    rw [hut] at hpu
    rw [(pending_iff.mp hpu).2] at hresponded
    cases hresponded

/-- **a quiet key stays quiet until a set of it starts** -/
theorem Quiet.step {t v : T} {s : Serving T M G} (h : Quiet calls t s)
    (ha : StartsAlone calls s v) (hno : (calls v).key = (calls t).key → s.pc v ≠ .lookup) :
    Quiet calls t (step calls s v) := by
  refine ⟨apart_step h.apart ha, ?_, fun u hu => ?_⟩
  · have hnot : ¬ WritesKey calls (calls t).key s v := by
      intro hw
      have hp := pending_of_writes hw.2
      rw [h.answered v hw.1] at hp
      cases hp
    rw [(getValue_step h.apart.registered h.apart.unique (h.apart.fresh v) (calls t).key).2 hnot]
    exact h.read
  · by_contra hp
    rw [Bool.not_eq_false] at hp
    rcases pending_step hp with hp' | ⟨huv, hl⟩
    · rw [h.answered u hu] at hp'
      cases hp'
    · rw [huv] at hu
      exact hno hu hl

/-- **a set that has settled is read**, if the sets of its key are apart -/
theorem getValue_settled (h₀ : Apart calls s₀) {t : T} {mid : List T}
    (halone : ∀ s v, StepOf (step calls) s₀ (t :: mid) s v → StartsAlone calls s v)
    (ht : Settled calls s₀ (run (step calls) s₀ (t :: mid)) t) :
    getValue (calls t).key (run (step calls) s₀ (t :: mid)) = some (.string (calls t).value) := by
  have hquiet : Quiet calls t (step calls s₀ t) :=
    .of_settled h₀ (halone s₀ t (stepOf_cons.mpr (Or.inl ⟨rfl, rfl⟩))) ht.pending ht.completed
  have hrun := @run_invariant_of _ _ (step calls) (Quiet calls t)
    (fun s v => StartsAlone calls s v ∧ ((calls v).key = (calls t).key → s.pc v ≠ .lookup))
    (fun s v h hok => h.step hok.1 hok.2) (step calls s₀ t) mid hquiet ?_
  · exact (hrun _ (stateOf_last (step calls s₀ t) mid)).read
  · intro s v hstep
    refine ⟨halone s v (stepOf_cons.mpr (Or.inr hstep)), fun hv hl => ?_⟩
    -- a set that starts after `t` has completed would not have started when it completes
    have hlater : started ((run (step calls) s₀ (t :: mid)).pc v) = true :=
      started_of_stepOf (stepOf_cons.mpr (Or.inr hstep))
    rw [ht.noStart v hv (not_started_of_stepOf hstep hl)] at hlater
    cases hlater

/-- sets of one key that start apart from each other are faithful -/
theorem faithful_of_alone (h₀ : Apart calls s₀)
    (halone : ∀ s t, StepOf (step calls) s₀ sched s t → StartsAlone calls s t) :
    Faithful calls s₀ sched := by
  have hapart : ∀ s, StateOf (step calls) s₀ sched s → Apart calls s :=
    run_invariant_of (fun s t h ha => apart_step h ha) h₀ halone
  refine ⟨fun s hs => (hapart s hs).unique, fun pre t mid post hsched ht => ?_⟩
  have hrun : run (step calls) s₀ (pre ++ t :: mid) =
      run (step calls) (run (step calls) s₀ pre) (t :: mid) := run_append (step calls) s₀ pre _
  rw [hrun] at ht ⊢
  refine getValue_settled (hapart _ ⟨pre, t :: mid ++ post, ?_, rfl⟩) (fun s v hs => ?_) ht
  · rw [hsched, List.append_assoc]
  · refine halone s v ?_
    rw [hsched]
    exact (hs.drop).append post

end

/-- **from an empty session, keys stay unique and what has been set is read, if no set starts while
another one of its key is pending** -/
theorem faithful_of_apart (calls : T → SetCall) (reliabilityBaseline : ℚ)
    (sovereignty : Option (MnemonicSovereignty M G)) (llmClient : Bool) (tau : ℚ) (capacity : Nat)
    (sched : List T)
    (h : ∀ s t, StepOf (step calls)
      (empty reliabilityBaseline sovereignty llmClient tau capacity) sched s t →
        StartsAlone calls s t) :
    Faithful calls (empty reliabilityBaseline sovereignty llmClient tau capacity) sched := by
  have hnone := @keyAt_empty M G _ _ _ T _ reliabilityBaseline sovereignty llmClient tau capacity
  refine faithful_of_alone ⟨registered_empty calls, fun i j key hi _ => ?_, fun u v _ hu => ?_,
    fun id key hk => ?_, fun t ht => ?_, fun t ht => ?_⟩ h
  · rw [hnone] at hi
    cases hi
  · cases hu
  · rw [hnone] at hk
    cases hk
  · cases ht
  · cases ht

end
end Serving
end Epica
