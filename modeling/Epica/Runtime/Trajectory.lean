import Epica.Core.RevisionLaws
import Epica.Lib.Outcomes
import Epica.Runtime.Confidences
import Epica.Runtime.Invariants

/-!
# The trajectory of a session

An update that returns `Ok` enters the fast confidence it has captured into the history, and before
that marks the last record of its belief as incorrect when its revision has contracted something.
`finalizeSession` marks the records without an outcome as correct.

* `history_updateBelief`   what an update does to the history;
* `history_matches_iff`    the record of an update is the confidence in the quad exactly when the
                           contracts have left that confidence alone;
* `labels_follow_iff`      the labels are those of the contradictions exactly when no contradiction
                           that contracts nothing meets an earlier record of its belief.
-/

set_option linter.unusedSectionVars false

namespace Epica
open Lib

/-! ## outcomes -/

namespace ConfidenceHistory

/-- what has no outcome yet has been correct -/
def finalizeSession (h : ConfidenceHistory) : ConfidenceHistory :=
  ⟨h.records.map fun r => if r.wasCorrect.isNone then { r with wasCorrect := some true } else r⟩

/-- the confidences with a known outcome -/
def asTeceInput (h : ConfidenceHistory) : List (ℚ × Bool) :=
  h.records.filterMap fun r => r.wasCorrect.map fun correct => (r.confidence, correct)

/-- a record's belief, and whether it has not been marked as incorrect -/
def standing (r : ConfidenceRecord) : BeliefId × Bool := (r.beliefId, r.wasCorrect != some false)

/-- a record's belief and its label -/
def labelled (r : ConfidenceRecord) : BeliefId × Option Bool := (r.beliefId, r.wasCorrect)

theorem standing_push (h : ConfidenceHistory) (nowMs : Nat) (id : BeliefId) (confidence : ℚ) :
    (h.push nowMs id confidence).records.map standing = h.records.map standing ++ [(id, true)] :=
  List.map_append

theorem standing_modify (id : BeliefId) (records : List ConfidenceRecord) :
    (match records.findIdx? fun r : ConfidenceRecord => r.beliefId = id with
      | none => records
      | some i => records.modify i fun r => { r with wasCorrect := some false }).map standing =
      unsetFirst id (records.map standing) := by
  induction records with
  | nil => rfl
  | cons r records ih =>
    show _ = if r.beliefId = id then (id, false) :: records.map standing
      else standing r :: unsetFirst id (records.map standing)
    rw [List.findIdx?_cons]
    by_cases hr : r.beliefId = id
    · rw [if_pos hr, decide_eq_true hr, ← hr]
      rfl
    · rw [if_neg hr, decide_eq_false hr, ← ih]
      cases records.findIdx? fun r : ConfidenceRecord => r.beliefId = id with
      | none => rfl
      | some i => rfl

/-- **marking as incorrect takes the standing from the last record** -/
theorem standing_markCorrect (h : ConfidenceHistory) (id : BeliefId) :
    (h.markCorrect id false).records.map standing = unsetLast id (h.records.map standing) := by
  unfold unsetLast markCorrect
  rw [← List.map_reverse, ← standing_modify, ← List.map_reverse]
  cases h.records.reverse.findIdx? fun r : ConfidenceRecord => r.beliefId = id with
  | none =>
    show _ = h.records.reverse.reverse.map standing
    rw [List.reverse_reverse]
  | some i => rfl

/-- the labels of a finished session -/
theorem labelled_finalizeSession (h : ConfidenceHistory) :
    h.finalizeSession.records.map labelled =
      (h.records.map standing).map fun e => (e.1, some e.2) := by
  unfold finalizeSession
  rw [List.map_map, List.map_map]
  refine List.map_congr_left fun r _ => ?_
  show labelled (if r.wasCorrect.isNone then _ else r) =
    (r.beliefId, some (r.wasCorrect != some false))
  rcases hc : r.wasCorrect with _ | _ | _ <;> simp [labelled, hc]

/-- the wrong ones of a finished session -/
theorem asTeceInput_finalizeSession (h : ConfidenceHistory) :
    (h.finalizeSession.asTeceInput.filter fun p => !p.2).length =
      ((h.records.map standing).filter fun e => !e.2).length := by
  unfold asTeceInput finalizeSession
  induction h.records with
  | nil => rfl
  | cons r records ih =>
    rcases hc : r.wasCorrect with _ | _ | _ <;> simp [standing, hc] at ih ⊢ <;> omega

end ConfidenceHistory

/-- the fast confidence of a live belief -/
def BeliefQuad.fastAt {M : Type → Type} {G : Type → Type → Type} [SlotMap M] [StableDiGraph G]
    (q : BeliefQuad M G) (id : BeliefId) : Option ℚ := (q.get id).map BeliefNode.fastConfidence

/-- the counts of a session report -/
structure SessionReport where
  totalRevisions : Nat
  contradictionsDetected : Nat
  softViolations : Nat
  hardViolations : Nat
  criticalViolations : Nat
  recoveryActionsTaken : Nat
  governanceTokensUsed : Nat

namespace BeliefRuntime
section
variable {M : Type → Type} {G : Type → Type → Type} [SlotMap M] [StableDiGraph G]

def finalizeSession (rt : BeliefRuntime M G) : BeliefRuntime M G :=
  { rt with confidenceHistory := rt.confidenceHistory.finalizeSession }

def sessionReport (rt : BeliefRuntime M G) : SessionReport where
  totalRevisions := rt.confidenceHistory.records.length
  contradictionsDetected := (rt.confidenceHistory.asTeceInput.filter fun p => !p.2).length
  softViolations := rt.contractEngine.violationLog.soft.length
  hardViolations := rt.contractEngine.violationLog.hard.length
  criticalViolations := rt.contractEngine.violationLog.critical.length
  recoveryActionsTaken := rt.contractEngine.violationLog.recoveryActionsTaken
  governanceTokensUsed := rt.governanceTracker.tokensUsed

variable [Platform] (rt : BeliefRuntime M G) (call : UpdateCall)

/-! ## what an update does to the history -/

/-- the history with the record of an update whose revision has found `out` -/
def recordedHistory (out : ℚ × Bool) : ConfidenceHistory :=
  (if out.2 then rt.confidenceHistory.markCorrect call.id false else rt.confidenceHistory).push
    call.historyMs call.id out.1

theorem revision_history : (rt.revision call).2.confidenceHistory = rt.confidenceHistory := by
  unfold revision
  rw [reviseAndPropagate_rest]
  rfl

/-- a signal carries the confidence that was captured -/
theorem finishUpdate_signal (fast : ℚ) (contradicted : Bool) {signal : DiagnosticSignal}
    (h : (rt.finishUpdate call fast contradicted).1 = .ok (.system2Pending signal)) :
    signal.fastConfidence = fast := by
  unfold finishUpdate at h
  generalize (if contradicted then rt.markIncorrect call.id else rt) = rt' at h
  have h' := Except.ok.inj h
  by_cases ha : rt'.activates call.id fast = true
  · rw [if_pos ha] at h'
    obtain rfl := RuntimeUpdateResult.system2Pending.inj h'
    rfl
  · rw [if_neg ha] at h'
    cases h'

/-- **what an update does to the history**: nothing if it returns an error, and otherwise it enters
what its revision has found; a signal carries the same confidence -/
theorem history_updateBelief :
    ((∃ e, (rt.updateBelief call).1 = .error e) ∧
      (rt.updateBelief call).2.confidenceHistory = rt.confidenceHistory) ∨
    (∃ out result, (rt.updateBelief call).1 = .ok result ∧ rt.Admits call ∧
      (rt.revision call).1 = .ok out ∧
      (rt.updateBelief call).2.confidenceHistory = rt.recordedHistory call out ∧
      (rt.updateBelief call).2.quad = (rt.verdict call).2.2 ∧
      (∃ outcome, (rt.verdict call).1 = .ok outcome) ∧
      ∀ signal, result = .system2Pending signal → signal.fastConfidence = out.1) := by
  cases hp : rt.contractEngine.preUpdate rt.quad (rt.keyOf call.id) "system" with
  | error e =>
    rw [updateBelief_refused rt call hp]
    exact Or.inl ⟨⟨e, rfl⟩, rfl⟩
  | ok =>
    cases ht : rt.trackTokens.1 with
    | error e =>
      rw [updateBelief_limited rt call hp ht]
      exact Or.inl ⟨⟨e, rfl⟩, rfl⟩
    | ok =>
      have ha : rt.Admits call := ⟨hp, ht⟩
      have hh := rt.revision_history call
      obtain ⟨hres, hquad⟩ := rt.postUpdate_revision call
      rw [updateBelief_admitted rt call ha]
      rcases hv : rt.revision call with ⟨e | out, rt'⟩
      · rw [hv] at hh
        exact Or.inl ⟨⟨.core e, rfl⟩, hh⟩
      · rw [hv] at hres hquad hh
        have hpost : (rt'.postUpdate call call.checkpointStamp.uuid
            (rt.keyOf call.id)).2.confidenceHistory = rt'.confidenceHistory := rfl
        rcases hr : rt'.postUpdate call call.checkpointStamp.uuid (rt.keyOf call.id) with
          ⟨e | outcome, rt''⟩
        · rw [hr] at hpost
          simp only [hr]
          exact Or.inl ⟨⟨e, rfl⟩, hpost.trans hh⟩
        · rw [hr] at hpost hres hquad
          right
          simp only [hr]
          obtain ⟨fast, contradicted⟩ := out
          have hkept : rt''.confidenceHistory = rt.confidenceHistory := hpost.trans hh
          refine ⟨(fast, contradicted), _, rfl, ha, rfl, ?_, ?_, ⟨outcome, hres.symm⟩, ?_⟩
          · unfold finishUpdate recordedHistory
            rw [← hkept]
            cases contradicted with
            | true => rfl
            | false => rfl
          · rw [← hquad]
            cases contradicted with
            | true => rfl
            | false => rfl
          · intro signal hs
            exact finishUpdate_signal rt'' call fast contradicted (congrArg Except.ok hs)

/-! ## the record and the quad -/

/-- what a revision section that goes through has found -/
theorem reviseAndPropagate_out {out : ℚ × Bool} (h : (rt.reviseAndPropagate call).1 = .ok out) :
    ∃ record, (call.revise rt.quad).1 = .ok record ∧ out =
      ((((rt.reviseAndPropagate call).2.quad.get call.id).map BeliefNode.fastConfidence).getD
        call.confidence, decide record.contracted.Nonempty) := by
  revert h
  unfold reviseAndPropagate
  rcases call.revise rt.quad with ⟨e | record, q⟩
  · intro h
    cases h
  · exact fun h => ⟨record, rfl, (Except.ok.inj h).symm⟩

/-- the confidence that is captured is that of the revised quad -/
theorem fastAt_revisedQuad {out : ℚ × Bool} (h : (rt.revision call).1 = .ok out) :
    (rt.revisedQuad call).fastAt call.id = some out.1 := by
  obtain ⟨n, hn⟩ := BeliefQuad.live_iff.mp (live_revisedQuad ⟨out, h⟩)
  obtain ⟨record, -, rfl⟩ := reviseAndPropagate_out _ call h
  have hn' : (rt.revision call).2.quad.get call.id = some n := hn
  show ((rt.revision call).2.quad.get call.id).map BeliefNode.fastConfidence =
    some ((((rt.revision call).2.quad.get call.id).map BeliefNode.fastConfidence).getD
      call.confidence)
  rw [hn']
  rfl

/-- what the contracts do after the revision leaves the confidence of the belief as it is: a
restored quad holds the belief with the same one, and a floor is not above it -/
structure Undisturbed : Prop where
  restored : ∀ snap, RecoversTo rt.contractEngine.contracts (rt.revisedQuad call)
    (some call.checkpointStamp.uuid) snap →
      snap.fastAt call.id = (rt.revisedQuad call).fastAt call.id
  raised : ∀ floor ∈ degradeFloor rt.contractEngine.contracts (rt.revisedQuad call)
    (some call.checkpointStamp.uuid), ∀ fast ∈ (rt.revisedQuad call).fastAt call.id, floor ≤ fast

/-- the record the call appends, and its signal, have the confidence that the belief has in the
quad the call leaves -/
structure HistoryMatches (result : RuntimeUpdateResult) : Prop where
  recorded : ∃ pre record,
    (rt.updateBelief call).2.confidenceHistory.records = pre ++ [record] ∧
      pre.length = rt.confidenceHistory.records.length ∧ record.beliefId = call.id ∧
      (rt.updateBelief call).2.quad.fastAt call.id = some record.confidence
  signalled : ∀ signal, result = .system2Pending signal →
    (rt.updateBelief call).2.quad.fastAt call.id = some signal.fastConfidence

theorem fastAt_verdict_iff {fast : ℚ} (hfast : (rt.revisedQuad call).fastAt call.id = some fast) :
    (rt.verdict call).2.2.fastAt call.id = some fast ↔ rt.Undisturbed call := by
  have hfloor : degradeFloor rt.contractEngine.contracts (rt.revisedQuad call)
      (some call.checkpointStamp.uuid) = none → ∀ floor ∈ degradeFloor rt.contractEngine.contracts
        (rt.revisedQuad call) (some call.checkpointStamp.uuid),
          ∀ fast ∈ (rt.revisedQuad call).fastAt call.id, floor ≤ fast := by
    intro hd floor hf
    rw [hd] at hf
    cases hf
  rcases postUpdate_effect rt.contractEngine (rt.revisedQuad call)
      (some call.checkpointStamp.uuid) (rt.keyOf call.id) "system" call.auditMs with
    ⟨hd, hno, hq⟩ | ⟨snap, hs, hq⟩ | ⟨floor, hd, hq⟩
  · rw [show (rt.verdict call).2.2 = rt.revisedQuad call from hq]
    exact iff_of_true hfast ⟨fun snap hs => absurd hs (hno snap), hfloor hd⟩
  · rw [show (rt.verdict call).2.2 = snap from hq]
    constructor
    · intro hsnap
      refine ⟨fun snap' hs' => ?_, hfloor (degradeFloor_eq_none hs)⟩
      rw [hs'.unique hs, hsnap, hfast]
    · exact fun hu => (hu.restored snap hs).trans hfast
  · have hraise : (rt.verdict call).2.2.fastAt call.id =
        some (if fast < floor then floor else fast) := by
      obtain ⟨n, hn, rfl⟩ := Option.map_eq_some_iff.mp hfast
      rw [show (rt.verdict call).2.2 = _ from hq]
      unfold BeliefQuad.fastAt
      rw [get_raiseFloor_all, hn]
      rfl
    rw [hraise, Option.some.injEq]
    constructor
    · intro he
      refine ⟨fun snap hs => ?_, fun floor' hf' fast' hfast' => ?_⟩
      · rw [degradeFloor_eq_none hs] at hd
        cases hd
      · obtain rfl := Option.some.inj (hd.symm.trans hf')
        obtain rfl := Option.some.inj (hfast.symm.trans hfast')
        by_contra hlt
        rw [if_pos (not_le.mp hlt)] at he
        exact hlt (le_of_eq he)
    · intro hu
      exact if_neg (not_lt.mpr (hu.raised floor hd fast hfast))

/-- **the record of an update and its signal have the confidence in the quad exactly when the
contracts have left that confidence as the revision and the propagation had set it** -/
theorem history_matches_iff {result : RuntimeUpdateResult}
    (h : (rt.updateBelief call).1 = .ok result) :
    rt.HistoryMatches call result ↔ rt.Undisturbed call := by
  rcases rt.history_updateBelief call with
    ⟨⟨e, he⟩, -⟩ | ⟨⟨fast, contradicted⟩, result', hok, -, hout, hhistory, hquad, -, hsignal⟩
  · rw [h] at he
    cases he
  · obtain rfl := Except.ok.inj (h.symm.trans hok)
    rw [← fastAt_verdict_iff rt call (fastAt_revisedQuad rt call hout), ← hquad]
    have happend : ∃ pre, (rt.updateBelief call).2.confidenceHistory.records =
        pre ++ [⟨call.id, fast, none, call.historyMs⟩] ∧
          pre.length = rt.confidenceHistory.records.length := by
      rw [hhistory]
      refine ⟨_, rfl, ?_⟩
      cases contradicted with
      | true => exact ConfidenceHistory.length_markCorrect _ _ _
      | false => rfl
    obtain ⟨pre, hrecords, hlen⟩ := happend
    constructor
    · intro hm
      obtain ⟨pre', record, hrecords', -, -, hfast⟩ := hm.recorded
      obtain ⟨-, hrecord⟩ := List.append_inj' (hrecords.symm.trans hrecords') rfl
      rw [hfast, ← (List.cons.inj hrecord).1]
    · intro hfast
      refine ⟨⟨pre, _, hrecords, hlen, rfl, hfast⟩, fun signal hs => ?_⟩
      rw [hsignal signal hs]
      exact hfast

end

section
attribute [local instance] Platform.ascii

theorem ok_of_isOk {E A : Type} {r : Except E A} (h : r.isOk = true) : ∃ a, r = .ok a := by
  cases r with
  | error e => cases h
  | ok a => exact ⟨a, rfl⟩

/-- without contracts the record is right -/
theorem history_matches_doubt : ∃ result,
    ((guardedBy []).updateBelief doubt).1 = .ok result ∧
      (guardedBy []).HistoryMatches doubt result := by
  obtain ⟨result, h⟩ := ok_of_isOk (show ((guardedBy []).updateBelief doubt).1.isOk = true by
    decide +kernel)
  refine ⟨result, h, ((guardedBy []).history_matches_iff doubt h).mpr ⟨fun snap hs => ?_, ?_⟩⟩
  · obtain ⟨contract, v, hv, -⟩ := hs
    cases hv
  · intro floor hf
    cases hf

/-- a doubt that is rolled back, or raised to a floor, is recorded as it was stated -/
theorem history_differs : ∃ result result',
    ((guardedBy [keepGoal .hard]).updateBelief doubt).1 = .ok result ∧
    ¬ (guardedBy [keepGoal .hard]).HistoryMatches doubt result ∧
    ((guardedBy [raiseGoal]).updateBelief doubt).1 = .ok result' ∧
    ¬ (guardedBy [raiseGoal]).HistoryMatches doubt result' := by
  have hlast : ∀ contracts result, (guardedBy contracts).HistoryMatches doubt result →
      (((guardedBy contracts).updateBelief doubt).2.confidenceHistory.records.getLast?.map
        ConfidenceRecord.confidence) =
          ((guardedBy contracts).updateBelief doubt).2.quad.fastAt doubt.id := by
    intro contracts result h
    obtain ⟨pre, record, hrecords, -, -, hfast⟩ := h.recorded
    rw [hrecords, List.getLast?_concat, hfast]
    rfl
  obtain ⟨result, h⟩ := ok_of_isOk
    (show ((guardedBy [keepGoal .hard]).updateBelief doubt).1.isOk = true by decide +kernel)
  obtain ⟨result', h'⟩ := ok_of_isOk
    (show ((guardedBy [raiseGoal]).updateBelief doubt).1.isOk = true by decide +kernel)
  exact ⟨result, result', h, fun hm => absurd (hlast _ _ hm) (by decide +kernel), h',
    fun hm => absurd (hlast _ _ hm) (by decide +kernel)⟩

end

/-! ## the labels -/

/-- what an update that returns `Ok` has found -/
structure Finding where
  id : BeliefId
  /-- its `audit.vacuity` is false -/
  contradicts : Bool
  contracts : Bool

section
variable {M : Type → Type} {G : Type → Type → Type} [SlotMap M] [StableDiGraph G] [Platform]

/-- the finding of the call, if it returns `Ok` -/
def finding (rt : BeliefRuntime M G) (call : UpdateCall) : List Finding :=
  match (rt.updateBelief call).1, (call.revise (rt.checkpointedQuad call)).1 with
  | .ok _, .ok record =>
    [⟨call.id, !record.postulateAudit.vacuity, decide record.contracted.Nonempty⟩]
  | _, _ => []

/-- the calls run one after the other -/
def update (rt : BeliefRuntime M G) (call : UpdateCall) : BeliefRuntime M G :=
  (rt.updateBelief call).2

/-- the findings of a run of updates -/
def findings (rt : BeliefRuntime M G) (calls : List UpdateCall) : List Finding :=
  outputs update finding rt calls

/-- the label of each record says whether the next finding about its belief contradicts it, and the
report counts the ones that are contradicted -/
structure LabelsFollow (rt : BeliefRuntime M G) (calls : List UpdateCall) : Prop where
  labels : (run update rt calls).finalizeSession.confidenceHistory.records.map
    ConfidenceHistory.labelled =
      (outcomes (readAs Finding.id Finding.contradicts (rt.findings calls))).map
        fun e => (e.1, some e.2)
  counted : (run update rt calls).finalizeSession.sessionReport.contradictionsDetected =
    ((outcomes (readAs Finding.id Finding.contradicts (rt.findings calls))).filter
      fun e => !e.2).length

/-- the condition on one call: if it returns `Ok`, contradicts and contracts nothing, its belief has
no record yet -/
def LabelsWhatItContradicts (rt : BeliefRuntime M G) (call : UpdateCall) : Prop :=
  ∀ f ∈ rt.finding call, f.contradicts = true → f.contracts = false →
    f.id ∉ rt.confidenceHistory.records.map ConfidenceRecord.beliefId

variable (rt : BeliefRuntime M G) (call : UpdateCall)

theorem finding_length : (rt.finding call).length ≤ 1 := by
  unfold finding
  split
  · exact Nat.le_refl 1
  · exact Nat.zero_le 1

/-- what contracts contradicts -/
theorem contradicts_of_contracts {f : Finding} (h : f ∈ rt.finding call)
    (hc : f.contracts = true) : f.contradicts = true := by
  unfold finding at h
  split at h
  · rename_i record _ hrecord
    obtain rfl := List.mem_singleton.mp h
    have hrev : ((rt.checkpointedQuad call).revise call.revisionStamp call.contractionOrder call.id
      call.value call.provenance call.confidence).1 = .ok record := hrecord
    obtain ⟨b, hb⟩ := of_decide_eq_true hc
    rw [(BeliefQuad.revise_ok hrev).1] at hb
    have hcontra := (BeliefQuad.mem_contractedSet_iff b).mp hb
    show (!record.postulateAudit.vacuity) = true
    rw [BeliefQuad.revise_audit hrev]
    show (!!(rt.checkpointedQuad call).checkContradiction call.id call.value) = true
    rw [hcontra.1]
    rfl
  · exact absurd h List.not_mem_nil

/-- **one update enters its finding, by what it contracts** -/
theorem standing_update : (rt.update call).confidenceHistory.records.map
    ConfidenceHistory.standing =
      (readAs Finding.id Finding.contracts (rt.finding call)).foldl enter
        (rt.confidenceHistory.records.map ConfidenceHistory.standing) := by
  unfold update finding
  rcases rt.history_updateBelief call with
    ⟨⟨e, he⟩, hh⟩ | ⟨out, result, hok, -, hout, hh, -⟩
  · rw [hh, he]
    rfl
  · obtain ⟨record, hrecord, rfl⟩ := reviseAndPropagate_out _ call hout
    have hrev : (call.revise (rt.checkpointedQuad call)).1 = .ok record := hrecord
    rw [hh, hok, hrev]
    unfold recordedHistory
    rw [ConfidenceHistory.standing_push]
    show _ = enter _ (call.id, decide record.contracted.Nonempty)
    unfold enter
    cases decide record.contracted.Nonempty with
    | true => rw [if_pos rfl, if_pos rfl, ConfidenceHistory.standing_markCorrect]
    | false => rfl

theorem standing_run (calls : List UpdateCall) :
    (run update rt calls).confidenceHistory.records.map ConfidenceHistory.standing =
      (readAs Finding.id Finding.contracts (rt.findings calls)).foldl enter
        (rt.confidenceHistory.records.map ConfidenceHistory.standing) := by
  induction calls generalizing rt with
  | nil => rfl
  | cons call calls ih =>
    show (run update (rt.update call) calls).confidenceHistory.records.map _ =
      (readAs Finding.id Finding.contracts (rt.finding call ++
        (rt.update call).findings calls)).foldl enter _
    unfold readAs
    rw [List.map_append, List.foldl_append, ih, standing_update]
    rfl

/-- the history of a run from an empty one: the outcomes by what is contracted -/
theorem standing_of_new (h : rt.confidenceHistory = .new) (calls : List UpdateCall) :
    (run update rt calls).confidenceHistory.records.map ConfidenceHistory.standing =
      outcomes (readAs Finding.id Finding.contracts (rt.findings calls)) := by
  rw [standing_run, h, ← foldl_enter]
  rfl

/-- the beliefs of the records are those of the findings so far -/
theorem beliefs_of_new (h : rt.confidenceHistory = .new) (calls : List UpdateCall) :
    (run update rt calls).confidenceHistory.records.map ConfidenceRecord.beliefId =
      (rt.findings calls).map Finding.id := by
  have hkeys := congrArg (List.map Prod.fst) (standing_of_new rt h calls)
  rw [keys_outcomes, List.map_map] at hkeys
  unfold readAs at hkeys
  rw [List.map_map] at hkeys
  exact hkeys

/-- **the labels are those of the contradictions exactly when every call meets the condition** -/
theorem labels_follow_iff (h : rt.confidenceHistory = .new) (calls : List UpdateCall) :
    rt.LabelsFollow calls ↔
      ∀ s call, StepOf update rt calls s call → s.LabelsWhatItContradicts call := by
  have hlabels : rt.LabelsFollow calls ↔
      outcomes (readAs Finding.id Finding.contracts (rt.findings calls)) =
        outcomes (readAs Finding.id Finding.contradicts (rt.findings calls)) := by
    have hlog := standing_of_new rt h calls
    constructor
    · intro hf
      have hl := hf.labels
      have hfinal := ConfidenceHistory.labelled_finalizeSession
        (run update rt calls).confidenceHistory
      rw [hlog] at hfinal
      refine List.map_injective_iff.mpr (fun a b hab => ?_) (hfinal.symm.trans hl)
      obtain ⟨hid, hstands⟩ := Prod.mk.inj hab
      exact Prod.ext hid (Option.some.inj hstands)
    · intro ho
      refine ⟨?_, ?_⟩
      · rw [← ho, ← hlog]
        exact ConfidenceHistory.labelled_finalizeSession _
      · rw [← ho, ← hlog]
        exact ConfidenceHistory.asTeceInput_finalizeSession _
  rw [hlabels, outcomes_eq_iff, show rt.findings calls = outputs update finding rt calls from rfl]
  rw [@forall_output_iff _ _ update _ finding
    (fun pre f => f.contracts ≠ f.contradicts → f.id ∉ pre.map Finding.id) finding_length rt calls]
  constructor
  · intro hall s call hs f hf hcontra hnone
    obtain ⟨pre, post, hcalls, rfl⟩ := hs
    rw [beliefs_of_new rt h pre]
    exact hall pre call post hcalls f hf (by rw [hcontra, hnone]; exact Bool.false_ne_true)
  · intro hall pre call post hcalls f hf hne
    have hcall := hall _ call ⟨pre, post, hcalls, rfl⟩ f hf
    rw [beliefs_of_new rt h pre] at hcall
    cases hc : f.contracts with
    | true =>
      rw [hc, contradicts_of_contracts _ call hf hc] at hne
      exact absurd rfl hne
    | false =>
      rw [hc] at hne
      exact hcall (Bool.eq_true_of_not_eq_false fun hf' => hne hf'.symm) hc

end

section
attribute [local instance] Platform.ascii

/-- the claim is restated, and then contradicted, which contracts the fact -/
theorem labels_follow_informed : (informed.LabelsFollow
    [.at 11 ⟨2, 1⟩ (.asserted "read") (4 / 5), .at 13 ⟨2, 1⟩ (.asserted "write") (1 / 2)]) :=
  (labels_follow_iff informed rfl _).mpr (eachStep_iff.mp (by
    unfold LabelsWhatItContradicts
    decide +kernel))

/-- a goal that rests on nothing is contradicted twice, and no record says so -/
theorem contradiction_not_labelled : ¬ (guardedBy []).LabelsFollow
    [.at 11 ⟨1, 1⟩ (.asserted "ship") (4 / 5), .at 13 ⟨1, 1⟩ (.asserted "stop") (1 / 2)] :=
  fun h => absurd h.labels (by decide +kernel)

end
end BeliefRuntime
end Epica
