import Epica.Runtime.Indexing

/-!
# Entries that are fresh

The entries of a belief are fresh when it is live and they have been generated from the value that
it holds.  Revisions and removals drop the entries of what they touch, and a rollback restores the
entries with the quad, so only the last section of an insertion can make the index stale.

* `indexEffect_step`   what one step does to the quad and to the ghosts;
* `fresh_step_iff`     a step leaves the index fresh exactly when it does not write it late;
* `index_fresh_iff`    the index is fresh in every state of a run exactly when no step of it writes
                       it late.
-/

set_option linter.unusedSectionVars false

namespace Epica
open Lib

namespace Indexing
section
variable {M : Type → Type} {G : Type → Type → Type} [SlotMap M] [StableDiGraph G] [Platform]
  {T U : Type} [DecidableEq T] [DecidableEq U]

/-! ## the effect of a step -/

variable {attached : Bool} {inserts : T → InsertCall} {updates : U → UpdateCall}

/-- what a step from `s` to `s'` may do to the quad, its checkpoints and its ghosts -/
inductive IndexEffect (inserts : T → InsertCall) (s s' : Indexing T U M G) :
    IndexTurn T U → Prop where
  | keeps {turn : IndexTurn T U} (hin : ¬ LateWrite inserts s turn)
      (hquad : s'.quad.IndexWithin s.quad) (horigins : s'.origins = s.origins)
      (hcheckpoints : s'.captured.map Prod.fst = s'.quad.checkpoints)
      (hcaptured : ∀ c ∈ s'.captured, c ∈ s.captured ∨
        c.1.quad = s.quad.stripped ∧ c.2 = s.origins) :
      IndexEffect inserts s s' turn
  | restores {turn : IndexTurn T U} (hin : ¬ LateWrite inserts s turn)
      (c : BeliefQuadCheckpoint M G × Origins) (hc : c ∈ s.captured)
      (hquad : s'.quad = c.1.quad) (horigins : s'.origins = c.2) (hcaptured : s'.captured = []) :
      IndexEffect inserts s s' turn
  | writes (t : T) (id : BeliefId) (entries : List ProspectiveEntry)
      (hpc : s.inserting t = .writeIndex id entries)
      (hquad : s'.quad = { s.quad with
        prospectiveIndex := s.quad.prospectiveIndex.insert id entries })
      (horigins : s'.origins =
        Function.update s.origins id (some (inserts t).node.value))
      (hcaptured : s'.captured = s.captured) :
      IndexEffect inserts s s' (.insert t)

/-- a step that leaves the checkpoints and the ghosts alone -/
theorem keeps_of_within {s s' : Indexing T U M G} (h : s.Tracked) {turn : IndexTurn T U}
    (hin : ¬ LateWrite inserts s turn) (hquad : s'.quad.IndexWithin s.quad)
    (hcheckpoints : s'.quad.checkpoints = s.quad.checkpoints) (horigins : s'.origins = s.origins)
    (hcaptured : s'.captured = s.captured) : IndexEffect inserts s s' turn := by
  refine .keeps hin hquad horigins ?_ fun c hc => ?_
  · rw [hcaptured, hcheckpoints]
    exact h.checkpoints
  · rw [hcaptured] at hc
    exact Or.inl hc

/-- a step that leaves the quad alone, too -/
theorem keeps_of_same {s s' : Indexing T U M G} (h : s.Tracked) {turn : IndexTurn T U}
    (hin : ¬ LateWrite inserts s turn) (hquad : s'.quad = s.quad)
    (horigins : s'.origins = s.origins) (hcaptured : s'.captured = s.captured) :
    IndexEffect inserts s s' turn := by
  refine keeps_of_within h hin ?_ (congrArg _ hquad) horigins hcaptured
  rw [hquad]
  exact .refl _

/-- a step that captures the quad -/
theorem keeps_of_capture {s s' : Indexing T U M G} (h : s.Tracked) {turn : IndexTurn T U}
    (hin : ¬ LateWrite inserts s turn) (uuid : Uuid) (nowMs : Nat)
    (hquad : s'.quad = (s.quad.checkpoint uuid nowMs).2) (horigins : s'.origins = s.origins)
    (hcaptured : s'.captured = s.captured ++ [(s.quad.capture uuid nowMs, s.origins)]) :
    IndexEffect inserts s s' turn := by
  refine .keeps hin ?_ horigins ?_ fun c hc => ?_
  · rw [hquad]
    exact BeliefQuad.indexWithin_of_eq rfl rfl
  · rw [hcaptured, hquad, List.map_append, h.checkpoints]
    rfl
  · rw [hcaptured] at hc
    refine (List.mem_append.mp hc).imp_right fun hc => ?_
    rw [List.mem_singleton.mp hc]
    exact ⟨rfl, rfl⟩

/-- a step that rolls back to `id` -/
theorem restores_of_rollsBack {s : Indexing T U M G} (h : s.Tracked) {turn : IndexTurn T U}
    (hin : ¬ LateWrite inserts s turn) {id : CheckpointId} {snap : BeliefQuad M G}
    (hs : s.quad.RollsBack id snap) (flight : InFlight U M G)
    (hquad : flight.runtime.quad = snap) :
    IndexEffect inserts s (s.restore flight (some id)) turn := by
  obtain ⟨c, hfind, hc, hsnap⟩ := hs.captured h.checkpoints
  have hstep : s.restore flight (some id) =
      { s with flight := flight, origins := c.2, captured := [] } := by
    unfold restore
    rw [Option.bind_some, hfind]
  rw [hstep]
  exact .restores hin c hc (hquad.trans hsnap.symm) rfl rfl

/-- an insertion that is not at its last section writes no entries -/
theorem idle_insert {s : Indexing T U M G} {t : T}
    (hne : ∀ id entries, s.inserting t ≠ .writeIndex id entries) :
    ¬ LateWrite inserts s (.insert t) ∧
      (stepInsert attached inserts s t).origins = s.origins := by
  refine ⟨fun hlate => ?_, ?_⟩
  · obtain ⟨id, entries, hpc, -⟩ := hlate
    exact hne id entries hpc
  · unfold stepInsert
    split
    · next id entries hpc => exact absurd hpc (hne id entries)
    · rfl

theorem indexEffect_insert {s : Indexing T U M G} (h : s.Tracked) (t : T) :
    IndexEffect inserts s (stepInsert attached inserts s t) (.insert t) := by
  have hquad : (stepInsert attached inserts s t).quad =
      (insertSection attached (inserts t) s.runtime (s.inserting t)).1.quad := rfl
  cases hpc : s.inserting t with
  | start =>
    rw [hpc] at hquad
    obtain ⟨hin, horigins⟩ := idle_insert (s := s) (t := t) (by simp [hpc])
    refine keeps_of_within h hin ?_ ?_ horigins rfl
    · rw [hquad]
      exact BeliefQuad.indexWithin_insert s.quad (inserts t).node
    · rw [hquad]
      rfl
  | registerKey id =>
    rw [hpc] at hquad
    obtain ⟨hin, horigins⟩ := idle_insert (s := s) (t := t) (by simp [hpc])
    have hsame : (stepInsert attached inserts s t).quad = s.quad := by
      rw [hquad]
      unfold insertSection
      simp only
      split <;> rfl
    exact keeps_of_same h hin hsame horigins rfl
  | readKey id =>
    rw [hpc] at hquad
    obtain ⟨hin, horigins⟩ := idle_insert (s := s) (t := t) (by simp [hpc])
    have hsame : (stepInsert attached inserts s t).quad = s.quad := by
      rw [hquad]
      unfold insertSection
      simp only
      split <;> rfl
    exact keeps_of_same h hin hsame horigins rfl
  | writeIndex id entries =>
    rw [hpc] at hquad
    refine .writes t id entries hpc hquad ?_ rfl
    unfold stepInsert
    rw [hpc]
  | done id =>
    rw [hpc] at hquad
    obtain ⟨hin, horigins⟩ := idle_insert (s := s) (t := t) (by simp [hpc])
    exact keeps_of_same h hin hquad horigins rfl

/-- the last section of an update keeps the quad up to confidences, or recovers it -/
theorem indexEffect_postUpdate {s : Indexing T U M G} (h : s.Tracked) {turn : IndexTurn T U}
    (hin : ¬ LateWrite inserts s turn) (call : UpdateCall) (cp : CheckpointId) (beliefKey : String)
    (flight : InFlight U M G)
    (hquad : flight.runtime.quad = (s.runtime.postUpdate call cp beliefKey).2.quad) :
    IndexEffect inserts s (s.restore flight
      (recoveredCheckpoint s.runtime.contractEngine.contracts s.quad (some cp))) turn := by
  have hpost := s.runtime.contractEngine.postUpdate_quad s.quad (some cp) beliefKey "system"
    call.auditMs
  cases hid : recoveredCheckpoint s.runtime.contractEngine.contracts s.quad (some cp) with
  | some id =>
    obtain ⟨snap, hs⟩ := rollsBack_of_recovered hid
    refine restores_of_rollsBack h hin hs _ ?_
    have hrec := recoversTo_iff.mpr ⟨id, hid, hs⟩
    rcases hpost with ⟨snap', hrec', hsnap⟩ | ⟨hno, -⟩
    · rw [hquad, hrec.unique hrec']
      exact hsnap
    · exact absurd hrec (hno snap)
  | none =>
    rcases hpost with ⟨snap, hrec, -⟩ | ⟨-, honly⟩
    · obtain ⟨id, hid', -⟩ := recoversTo_iff.mp hrec
      rw [hid] at hid'
      cases hid'
    · have honly' : s.quad.OnlyConfidences flight.runtime.quad := by
        rw [hquad]
        exact honly
      exact keeps_of_within h hin honly'.indexWithin honly'.checkpoints rfl rfl

theorem indexEffect_update {s : Indexing T U M G} (h : s.Tracked) (u : U) :
    IndexEffect inserts s (stepUpdate updates s u) (.update u) := by
  have hin : ¬ LateWrite inserts s (.update u) := fun hlate => hlate
  have hflight : (InFlight.step updates s.flight u).runtime =
      (lockSection (updates u) s.flight.runtime (s.flight.pc u)).1 := rfl
  rw [lockSection_fst] at hflight
  unfold stepUpdate
  cases hpc : s.flight.pc u with
  | checkpoint beliefKey =>
    rw [hpc] at hflight
    exact keeps_of_capture h hin (updates u).checkpointStamp.uuid
      (updates u).checkpointStamp.nowMs (congrArg _ hflight) rfl rfl
  | revise beliefKey cp =>
    rw [hpc] at hflight
    have honly := s.runtime.reviseAndPropagate_only (updates u)
    have hrevise : (InFlight.step updates s.flight u).runtime.quad =
        (s.runtime.reviseAndPropagate (updates u)).2.quad := congrArg _ hflight
    refine keeps_of_within h hin ?_ ?_ rfl rfl
    · show (InFlight.step updates s.flight u).runtime.quad.IndexWithin s.quad
      rw [hrevise]
      exact (honly.indexWithin).trans (BeliefQuad.indexWithin_revise _ _ _ _ _ _ _)
    · show (InFlight.step updates s.flight u).runtime.quad.checkpoints = s.quad.checkpoints
      rw [hrevise, honly.checkpoints]
      exact BeliefQuad.revise_checkpoints _ _ _ _ _ _
  | postUpdate beliefKey cp fast contradicted =>
    rw [hpc] at hflight
    exact indexEffect_postUpdate h hin (updates u) cp beliefKey _ (congrArg _ hflight)
  | _ =>
    rw [hpc] at hflight
    have hquad : (InFlight.step updates s.flight u).runtime.quad = s.quad := by
      rw [hflight]
      rfl
    exact keeps_of_same h hin hquad rfl rfl

theorem indexEffect_rollback {s : Indexing T U M G} (h : s.Tracked) {turn : IndexTurn T U}
    (hin : ¬ LateWrite inserts s turn) (id : CheckpointId) (flight : InFlight U M G)
    (hquad : flight.runtime.quad = (s.quad.rollbackTo id).2) :
    IndexEffect inserts s
      (s.restore flight (if (s.quad.rollbackTo id).1.isOk then some id else none)) turn := by
  by_cases hok : (s.quad.rollbackTo id).1.isOk = true
  · obtain ⟨snap, hs⟩ := (rollbackTo_isOk_iff s.quad id).mp hok
    rw [if_pos hok]
    refine restores_of_rollsBack h hin hs flight ?_
    rw [hquad, hs.eq]
  · have hno : ∀ snap, ¬ s.quad.RollsBack id snap :=
      fun snap hs => hok ((rollbackTo_isOk_iff s.quad id).mpr ⟨snap, hs⟩)
    rw [if_neg hok]
    have hsame : flight.runtime.quad = s.quad := by
      rw [hquad]
      exact BeliefQuad.rollbackTo_of_refused hno
    exact keeps_of_same h hin hsame rfl rfl

theorem indexEffect_operate {s : Indexing T U M G} (h : s.Tracked) (op : Op)
    (hop : op.writesIndex = false) :
    IndexEffect inserts s (s.operate op) (.operate op hop) := by
  have hin : ¬ LateWrite inserts s (.operate op hop) := fun hlate => hlate
  have heq : ∀ {q' : BeliefQuad M G}, q'.nodes = s.quad.nodes →
      q'.prospectiveIndex = s.quad.prospectiveIndex → q'.IndexWithin s.quad :=
    BeliefQuad.indexWithin_of_eq
  cases op with
  | insert node => exact keeps_of_within h hin (s.quad.indexWithin_insert node) rfl rfl rfl
  | remove id =>
    exact keeps_of_within h hin (s.quad.indexWithin_remove id) (s.quad.remove_checkpoints id)
      rfl rfl
  | addSemanticEdge src dst edge => exact keeps_of_within h hin (heq rfl rfl) rfl rfl rfl
  | addTemporalEdge src dst edge => exact keeps_of_within h hin (heq rfl rfl) rfl rfl rfl
  | addCausalEdge src dst edge => exact keeps_of_within h hin (heq rfl rfl) rfl rfl rfl
  | addEntityEdge src dst edge => exact keeps_of_within h hin (heq rfl rfl) rfl rfl rfl
  | revise stamp order id v p c =>
    exact keeps_of_within h hin (s.quad.indexWithin_revise stamp order id v p c)
      (BeliefQuad.revise_checkpoints stamp order id v p c) rfl rfl
  | propagateSystem1 now order changed =>
    have honly := BeliefQuad.propagate_only now order s.quad changed
    exact keeps_of_within h hin honly.indexWithin honly.checkpoints rfl rfl
  | checkpoint uuid nowMs => exact keeps_of_capture h hin uuid nowMs rfl rfl rfl
  | rollbackTo id => exact indexEffect_rollback h hin id _ rfl
  | clearCheckpoints =>
    exact .keeps hin (heq rfl rfl) rfl rfl fun c hc => absurd hc List.not_mem_nil
  | setEmbeddingProvider provider => exact keeps_of_within h hin (heq rfl rfl) rfl rfl rfl
  | setSemanticEquivalence equivalence => exact keeps_of_within h hin (heq rfl rfl) rfl rfl rfl
  | indexProspective id entries => cases hop

/-- **what a step does to the quad and to its ghosts** -/
theorem indexEffect_step {s : Indexing T U M G} (h : s.Tracked) (turn : IndexTurn T U) :
    IndexEffect inserts s (step attached inserts updates s turn) turn := by
  cases turn with
  | insert t => exact indexEffect_insert h t
  | update u => exact indexEffect_update h u
  | operate op hop => exact indexEffect_operate h op hop

/-! ## what stays fresh -/

theorem FreshIn.within {q q' : BeliefQuad M G} {origins : Origins} (h : FreshIn q origins)
    (hq : q'.IndexWithin q) : FreshIn q' origins := by
  intro id hid
  obtain ⟨hl, horigin⟩ := h id (hq.indexed hid)
  have hvalue := hq.value id hid hl
  exact ⟨(BeliefQuad.live_iff_of_valueAt hvalue).mpr hl, horigin.trans hvalue.symm⟩

/-- what is captured was captured before, or it is the quad -/
theorem IndexEffect.mem_captured {s s' : Indexing T U M G} {turn : IndexTurn T U}
    (e : IndexEffect inserts s s' turn) {c : BeliefQuadCheckpoint M G × Origins}
    (hc : c ∈ s'.captured) : c ∈ s.captured ∨ c.1.quad = s.quad.stripped ∧ c.2 = s.origins := by
  cases e with
  | keeps hin hquad horigins hcheckpoints hcaptured => exact hcaptured c hc
  | restores hin c' hc' hquad horigins hcaptured =>
    rw [hcaptured] at hc
    exact absurd hc List.not_mem_nil
  | writes t id entries hpc hquad horigins hcaptured =>
    rw [hcaptured] at hc
    exact Or.inl hc

theorem Tracked.step {s s' : Indexing T U M G} (h : s.Tracked) {turn : IndexTurn T U}
    (e : IndexEffect inserts s s' turn) : s'.Tracked := by
  constructor
  · cases e with
    | keeps hin hquad horigins hcheckpoints hcaptured => exact hcheckpoints
    | restores hin c hc hquad horigins hcaptured =>
      rw [hcaptured, hquad]
      exact (h.bare c hc).symm
    | writes t id entries hpc hquad horigins hcaptured =>
      rw [hcaptured, hquad]
      exact h.checkpoints
  · intro c hc
    rcases e.mem_captured hc with hc | ⟨hquad, -⟩
    · exact h.bare c hc
    · rw [hquad]
      rfl

/-- what is captured when the index is fresh is fresh -/
theorem captured_fresh {s s' : Indexing T U M G} (hf : s.FreshThroughout) {turn : IndexTurn T U}
    (e : IndexEffect inserts s s' turn) : ∀ c ∈ s'.captured, FreshIn c.1.quad c.2 := by
  intro c hc
  rcases e.mem_captured hc with hc | ⟨hquad, horigins⟩
  · exact hf.2 c hc
  · rw [hquad, horigins]
    exact hf.1.within (BeliefQuad.indexWithin_of_eq rfl rfl)

/-- a write keeps the index fresh exactly when the belief holds the value of the insertion -/
theorem freshIn_write_iff {q : BeliefQuad M G} {origins : Origins} (h : FreshIn q origins)
    (id : BeliefId) (entries : List ProspectiveEntry) (v : BeliefValue) :
    FreshIn { q with prospectiveIndex := q.prospectiveIndex.insert id entries }
      (Function.update origins id (some v)) ↔ q.valueAt id = some v := by
  have hindexed : ∀ j, BeliefQuad.Indexed
      { q with prospectiveIndex := q.prospectiveIndex.insert id entries } j ↔
        j = id ∨ q.Indexed j := by
    intro j
    unfold BeliefQuad.Indexed
    rw [ProspectiveIndex.get_insert]
    by_cases hj : j = id
    · rw [if_pos hj]
      exact iff_of_true rfl (Or.inl hj)
    · rw [if_neg hj]
      exact (or_iff_right hj).symm
  constructor
  · intro hfresh
    have horigin := (hfresh id ((hindexed id).mpr (Or.inl rfl))).2
    rw [Function.update_self] at horigin
    exact horigin.symm
  · intro hv j hj
    by_cases hji : j = id
    · subst hji
      rw [Function.update_self]
      refine ⟨?_, hv.symm⟩
      obtain ⟨node, hn, -⟩ := Option.map_eq_some_iff.mp hv
      exact BeliefQuad.live_iff.mpr ⟨node, hn⟩
    · rw [Function.update_of_ne hji]
      exact h j (((hindexed j).mp hj).resolve_left hji)

/-- **a step leaves the index fresh exactly when it is no late write** -/
theorem fresh_step_iff {s s' : Indexing T U M G} (hf : s.FreshThroughout)
    {turn : IndexTurn T U} (e : IndexEffect inserts s s' turn) :
    s'.Fresh ↔ ¬ LateWrite inserts s turn := by
  unfold Fresh
  cases e with
  | keeps hin hquad horigins hcheckpoints hcaptured =>
    rw [horigins]
    exact iff_of_true (hf.1.within hquad) hin
  | restores hin c hc hquad horigins hcaptured =>
    rw [hquad, horigins]
    exact iff_of_true (hf.2 c hc) hin
  | writes t id entries hpc hquad horigins hcaptured =>
    rw [hquad, horigins, freshIn_write_iff hf.1]
    constructor
    · intro hv hlate
      obtain ⟨id', entries', hpc', hne⟩ := hlate
      rw [hpc] at hpc'
      cases hpc'
      exact hne hv
    · intro hin
      by_contra hne
      exact hin ⟨id, entries, hpc, hne⟩

/-! ## runs -/

/-- a runtime around an empty quad has no entries yet -/
theorem freshThroughout_start {rt : BeliefRuntime M G} (h : rt.quad = .new) :
    (start rt : Indexing T U M G).FreshThroughout := by
  constructor
  · intro id hid
    have hindexed : rt.quad.Indexed id := hid
    rw [h] at hindexed
    cases hindexed
  · intro c hc
    obtain ⟨cp, hcp, -⟩ := List.mem_map.mp hc
    rw [h] at hcp
    exact absurd hcp List.not_mem_nil

theorem tracked_start {rt : BeliefRuntime M G} (h : rt.quad = .new) :
    (start rt : Indexing T U M G).Tracked := by
  have hnil : (start rt : Indexing T U M G).captured = [] := by
    show rt.quad.checkpoints.map _ = []
    rw [h]
    rfl
  refine ⟨?_, fun c hc => ?_⟩
  · show (start rt : Indexing T U M G).captured.map Prod.fst = rt.quad.checkpoints
    rw [hnil, h]
    rfl
  · rw [hnil] at hc
    exact absurd hc List.not_mem_nil

/-- **when the prospective index is fresh**: whatever insertions, updates and operations run on a
runtime around an empty quad, and whatever the client and the embedder answer, in every state each
belief with entries is live and they come from the value that it holds, exactly when no insertion
writes the index late -/
theorem index_fresh_iff (attached : Bool) (inserts : T → InsertCall) (updates : U → UpdateCall)
    (baseline : ℚ) (contracts : List (BehavioralContract M G))
    (sovereignty : Option (MnemonicSovereignty M G)) (llmClient : Bool) (tau : ℚ)
    (turns : List (IndexTurn T U)) :
    (∀ s, StateOf (step attached inserts updates)
      (start (.build .new baseline contracts sovereignty llmClient tau)) turns s → s.Fresh) ↔
    ∀ s turn, StepOf (step attached inserts updates)
      (start (.build .new baseline contracts sovereignty llmClient tau)) turns s turn →
        ¬ LateWrite inserts s turn := by
  have heffect : ∀ (s : Indexing T U M G) turn, s.Tracked →
      IndexEffect inserts s (step attached inserts updates s turn) turn :=
    fun _ turn h => indexEffect_step h turn
  have htracked : ∀ (s : Indexing T U M G) turn, s.Tracked →
      (step attached inserts updates s turn).Tracked :=
    fun s turn h => h.step (heffect s turn h)
  have hstart : (start (.build .new baseline contracts sovereignty llmClient tau) :
      Indexing T U M G).Tracked := tracked_start rfl
  have hfresh : (start (.build .new baseline contracts sovereignty llmClient tau) :
      Indexing T U M G).FreshThroughout := freshThroughout_start rfl
  have hiff := @forall_state_iff _ _ (step attached inserts updates) Tracked FreshThroughout
    (fun _ _ => True) (fun s turn => ¬ LateWrite inserts s turn) htracked
    (fun s turn hs hf _ => ?_) _ hstart hfresh turns fun _ _ _ => trivial
  · rw [← hiff]
    constructor
    · exact stateOf_good htracked
        (fun s turn hs hf hshown => ⟨hshown, captured_fresh hf (heffect s turn hs)⟩) hstart hfresh
    · exact fun h s hs => (h s hs).1
  · rw [← fresh_step_iff hf (heffect s turn hs)]
    exact and_iff_left (captured_fresh hf (heffect s turn hs))

end

section
attribute [local instance] Platform.ascii

/-- an insertion of a plan that asks for prospective indexing; the client answers with one scenario,
which cannot be embedded -/
def plannedAhead : InsertCall where
  node := { BeliefNode.new 0 "plan" (.asserted "ship") (.userStatement 0) (9 / 10) with
    prospect := true }
  generateScenarios _ := some [⟨"when do we ship?", []⟩]
  embed _ _ := none

/-- the plan is given up -/
def givenUp : UpdateCall := .at 11 ⟨1, 1⟩ (.asserted "hold") (9 / 10)

def aheadStart : Indexing Unit Unit SlotVec EdgeList :=
  start (.build .new (1 / 2) [] none false (15 / 100))

/-- the insertion up to its write, then `between`, then the write -/
def writesAfter (between : List (IndexTurn Unit Unit)) : List (IndexTurn Unit Unit) :=
  List.replicate 3 (.insert ()) ++ between ++ [.insert ()]

/-- the entries come from the plan to ship when the plan is to hold, and they are written when the
plan has been removed -/
theorem index_written_late :
    (∃ s, StateOf (step true (fun _ => plannedAhead) fun _ => givenUp) aheadStart
      (writesAfter (List.replicate 10 (.update ()))) s ∧
      s.quad.valueAt ⟨1, 1⟩ = some (.asserted "hold") ∧ ¬ s.Fresh) ∧
    ∃ s, StateOf (step true (fun _ => plannedAhead) fun _ => givenUp) aheadStart
      (writesAfter [.operate (.remove ⟨1, 1⟩) rfl]) s ∧
      ¬ s.quad.Live ⟨1, 1⟩ ∧ ¬ s.Fresh := by
  constructor
  · refine ⟨_, stateOf_last _ _, by decide +kernel, fun hfresh => ?_⟩
    have horigin := (hfresh ⟨1, 1⟩ (by decide +kernel)).2
    exact absurd horigin (by decide +kernel)
  · refine ⟨_, stateOf_last _ _, by decide +kernel, fun hfresh => ?_⟩
    have hlive := (hfresh ⟨1, 1⟩ (by decide +kernel)).1
    exact absurd hlive (by decide +kernel)

end
end Indexing
end Epica
