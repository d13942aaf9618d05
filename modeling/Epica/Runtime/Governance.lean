import Epica.Runtime.Interleaving

/-!
# Governance limits

A call gets past the governance check when its token is within the limit of the *first* contract.
Tool calls are not counted and approvals not asked for: `trackToolCall` and `requiresApproval` are
the tracker's, and no call runs them.  `Governed` is a runtime with its callers and with ghost
records of who has got past the check, under which key, and what has been revised when which keys
had been approved.

* `passed_run`              the check lets through the first calls to reach it, as many as the limit
                            of the first contract allows;
* `revises_iff`             they go on to the revision, whatever their keys;
* `limits_hold_iff`         the limits of all contracts hold exactly in the runs in which this one
                            limit covers them.
-/

set_option linter.unusedSectionVars false

namespace Epica
open Lib

/-! ## the tracker -/

namespace GovernanceTracker

/-- the tool calls recorded for a key -/
def toolCallsFor (tracker : GovernanceTracker) (beliefKey : String) : Nat :=
  (tracker.toolCalls.lookup beliefKey).getD 0

theorem toolCallsFor_insert (tracker : GovernanceTracker) (beliefKey : String) (count : Nat) :
    GovernanceTracker.toolCallsFor
      { tracker with toolCalls := tracker.toolCalls.insert beliefKey count } beliefKey = count := by
  show ((tracker.toolCalls.insert beliefKey count).lookup beliefKey).getD 0 = count
  rw [Finmap.lookup_insert]
  rfl

/-- **a tool call is let through exactly while the key's count is below the cap**, and counted
either way -/
theorem trackToolCall_spec (tracker : GovernanceTracker) (beliefKey : String)
    (limit : Option Nat) :
    ((tracker.trackToolCall beliefKey limit).1 = .ok () ↔
      ∀ max ∈ limit, tracker.toolCallsFor beliefKey < max) ∧
    (tracker.trackToolCall beliefKey limit).2.toolCallsFor beliefKey =
      tracker.toolCallsFor beliefKey + 1 := by
  have hcount := tracker.toolCallsFor_insert beliefKey (tracker.toolCallsFor beliefKey + 1)
  unfold trackToolCall
  cases limit with
  | none => exact ⟨iff_of_true rfl fun max h => (nomatch h), hcount⟩
  | some max =>
    simp only
    split
    · rename_i hlt
      refine ⟨iff_of_false (fun h => nomatch h) fun h => ?_, hcount⟩
      have hmax : tracker.toolCallsFor beliefKey < max := h max rfl
      unfold toolCallsFor at hmax
      omega
    · rename_i hge
      refine ⟨iff_of_true rfl fun max' h => ?_, hcount⟩
      obtain rfl := Option.some.inj h
      unfold toolCallsFor
      omega

/-- the answer is whether the key is listed, whatever the tracker has seen -/
theorem requiresApproval_iff (tracker : GovernanceTracker) (beliefKey : String)
    (requireHumanApproval : List String) :
    (tracker.requiresApproval beliefKey requireHumanApproval).1 = true ↔
      beliefKey ∈ requireHumanApproval := by
  have hany : requireHumanApproval.any (· = beliefKey) = true ↔
      beliefKey ∈ requireHumanApproval := by
    rw [List.any_eq_true]
    constructor
    · intro h
      obtain ⟨k, hk, he⟩ := h
      rw [← of_decide_eq_true he]
      exact hk
    · exact fun h => ⟨beliefKey, h, decide_eq_true rfl⟩
  unfold requiresApproval
  rw [← hany]
  cases requireHumanApproval.any (· = beliefKey) with
  | true => exact iff_of_true rfl rfl
  | false => exact iff_of_false Bool.false_ne_true Bool.false_ne_true

/-- a query enters the key it was asked about when it is listed, and no other -/
theorem mem_pendingApprovals_requiresApproval (tracker : GovernanceTracker) (beliefKey : String)
    (requireHumanApproval : List String) (k : String) :
    k ∈ (tracker.requiresApproval beliefKey requireHumanApproval).2.pendingApprovals ↔
      (k = beliefKey ∧ beliefKey ∈ requireHumanApproval) ∨ k ∈ tracker.pendingApprovals := by
  have hans := tracker.requiresApproval_iff beliefKey requireHumanApproval
  unfold requiresApproval at hans ⊢
  by_cases h : requireHumanApproval.any (· = beliefKey) = true
  · simp only [h, Bool.not_true, Bool.false_eq_true, if_false, true_iff] at hans ⊢
    simp only [hans, and_true, Finset.mem_insert]
  · simp only [h, Bool.not_false, if_true, Bool.false_eq_true, false_iff] at hans ⊢
    simp only [hans, and_false, false_or]

/-- a token is granted exactly while fewer have been used than the limit -/
theorem trackTokenUsage_ok_iff (tracker : GovernanceTracker) (limit : Option Nat) :
    (tracker.trackTokenUsage limit).1 = .ok () ↔ ∀ max ∈ limit, tracker.tokensUsed < max := by
  unfold trackTokenUsage
  cases limit with
  | none => exact iff_of_true rfl fun max h => nomatch h
  | some max =>
    simp only
    split
    · rename_i hle
      refine iff_of_false (fun h => nomatch h) fun h => ?_
      have hmax := h max rfl
      omega
    · rename_i hgt
      refine iff_of_true rfl fun max' h => ?_
      obtain rfl := Option.some.inj h
      omega

/-- the token is counted either way -/
theorem trackTokenUsage_tokensUsed (tracker : GovernanceTracker) (limit : Option Nat) :
    (tracker.trackTokenUsage limit).2.tokensUsed = tracker.tokensUsed + 1 := by
  unfold trackTokenUsage
  cases limit with
  | none => rfl
  | some max =>
    simp only
    split <;> rfl

end GovernanceTracker

/-! ## the contracts of a runtime -/

section
variable {M : Type → Type} {G : Type → Type → Type} [SlotMap M] [StableDiGraph G] [Platform]

/-- no section of an update attaches a contract, or takes one away -/
theorem lockSection_contracts (call : UpdateCall) (rt : BeliefRuntime M G) (pc : UpdatePc) :
    (lockSection call rt pc).1.contractEngine.contracts = rt.contractEngine.contracts := by
  rw [lockSection_fst]
  cases pc with
  | revise beliefKey cp =>
    show (rt.reviseAndPropagate call).2.contractEngine.contracts = _
    rw [rt.reviseAndPropagate_rest]
  | postUpdate beliefKey cp fast contradicted =>
    show (rt.postUpdate call cp beliefKey).2.contractEngine.contracts = _
    unfold BeliefRuntime.postUpdate ContractEngine.postUpdate
    simp only
    split <;> rfl
  | _ => rfl

/-- only the token section writes the tracker -/
theorem lockSection_tracker (call : UpdateCall) (rt : BeliefRuntime M G) (pc : UpdatePc) :
    (lockSection call rt pc).1.governanceTracker =
      match pc with
      | .trackTokens _ => rt.trackTokens.2.governanceTracker
      | _ => rt.governanceTracker := by
  rw [lockSection_fst]
  cases pc with
  | revise beliefKey cp =>
    show (rt.reviseAndPropagate call).2.governanceTracker = _
    rw [rt.reviseAndPropagate_rest]
  | _ => rfl

end

/-! ## governed runs -/

/-- the update is a tool's -/
def UpdateCall.ofTool (call : UpdateCall) : Bool :=
  match call.provenance with
  | .toolResult _ _ => true
  | _ => false

/-- a runtime with its callers, and a record of what its governance has let through -/
structure Governed (T : Type) (M : Type → Type) (G : Type → Type → Type) where
  flight : InFlight T M G
  /-- the calls that have got past the governance check, with their keys -/
  passed : List (T × String)
  /-- the keys that have been approved -/
  approved : List String
  /-- the keys that have been revised, each with those approved by then -/
  revised : List (String × List String)

namespace Governed

/-- a call runs its next lock section, or a human approves a key -/
inductive Turn (T : Type) where
  | update (t : T)
  | approve (beliefKey : String)
deriving DecidableEq

section
variable {M : Type → Type} {G : Type → Type → Type} [SlotMap M] [StableDiGraph G] [Platform]
  {T : Type} [DecidableEq T]

def start (rt : BeliefRuntime M G) : Governed T M G := ⟨.start rt, [], [], []⟩

/-- the check that `t` is about to get past, if it is about to -/
def passes (s : Governed T M G) (t : T) : List (T × String) :=
  match s.flight.pc t with
  | .trackTokens beliefKey =>
    match s.flight.runtime.trackTokens.1 with
    | .ok () => [(t, beliefKey)]
    | .error _ => []
  | _ => []

/-- the revision that `t` is about to make, if it is about to -/
def revises (s : Governed T M G) (t : T) : List (String × List String) :=
  match s.flight.pc t with
  | .revise beliefKey _ => [(beliefKey, s.approved)]
  | _ => []

/-- what `markApproved` on the runtime's tracker leaves -/
def approve (s : Governed T M G) (beliefKey : String) : Governed T M G :=
  let rt := s.flight.runtime
  let rt' := { rt with governanceTracker := rt.governanceTracker.markApproved beliefKey }
  { s with flight := { s.flight with runtime := rt' }, approved := s.approved ++ [beliefKey] }

def step (calls : T → UpdateCall) (s : Governed T M G) : Turn T → Governed T M G
  | .update t =>
    { s with
      flight := s.flight.step calls t
      passed := s.passed ++ s.passes t
      revised := s.revised ++ s.revises t }
  | .approve beliefKey => s.approve beliefKey

def contracts (s : Governed T M G) : List (BehavioralContract M G) :=
  s.flight.runtime.contractEngine.contracts

def tokensUsed (s : Governed T M G) : Nat := s.flight.runtime.governanceTracker.tokensUsed

/-- the updates by tools that have got past the check under a key -/
def toolCallsPassed (calls : T → UpdateCall) (s : Governed T M G) (beliefKey : String) : Nat :=
  s.passed.countP fun p => (calls p.1).ofTool && p.2 = beliefKey

/-- the limits of one contract hold -/
structure Limits (calls : T → UpdateCall) (s : Governed T M G) (contract : BehavioralContract M G) :
    Prop where
  tokens : ∀ max ∈ contract.governance.maxTokensPerSession, s.passed.length ≤ max
  toolCalls : ∀ max ∈ contract.governance.maxToolCallsPerBelief, ∀ beliefKey,
    s.toolCallsPassed calls beliefKey ≤ max
  approvals : ∀ r ∈ s.revised, r.1 ∈ contract.governance.requireHumanApproval → r.1 ∈ r.2

/-! ## what the governance check counts -/

/-- the limit the governance check consults -/
def firstLimit (s : Governed T M G) : Option Nat :=
  s.contracts.head?.bind fun c => c.governance.maxTokensPerSession

theorem trackTokens_ok_iff (s : Governed T M G) :
    s.flight.runtime.trackTokens.1 = .ok () ↔ ∀ max ∈ s.firstLimit, s.tokensUsed < max :=
  s.flight.runtime.governanceTracker.trackTokenUsage_ok_iff s.firstLimit

theorem contracts_step (calls : T → UpdateCall) (s : Governed T M G) (turn : Turn T) :
    (step calls s turn).contracts = s.contracts := by
  cases turn with
  | update t => exact lockSection_contracts (calls t) s.flight.runtime (s.flight.pc t)
  | approve beliefKey => rfl

theorem firstLimit_step (calls : T → UpdateCall) (s : Governed T M G) (turn : Turn T) :
    (step calls s turn).firstLimit = s.firstLimit := by
  unfold firstLimit
  rw [contracts_step]

/-- the check that `t` is about to run, if it is about to -/
def asksAt (s : Governed T M G) (t : T) : List (T × String) :=
  match s.flight.pc t with
  | .trackTokens beliefKey => [(t, beliefKey)]
  | _ => []

def asks (s : Governed T M G) : Turn T → List (T × String)
  | .update t => s.asksAt t
  | .approve _ => []

/-- the calls that reach the governance check, in order, with their keys -/
def asked (calls : T → UpdateCall) (s : Governed T M G) (turns : List (Turn T)) :
    List (T × String) := outputs (step calls) asks s turns

/-- **everything a turn of `t` does to the count**: at the check it takes a token, and is let
through while the first limit is not used up; elsewhere it does nothing -/
theorem update_cases (calls : T → UpdateCall) (s : Governed T M G) (t : T) :
    (∃ beliefKey, s.flight.pc t = .trackTokens beliefKey ∧
      s.asksAt t = [(t, beliefKey)] ∧
      (step calls s (.update t)).tokensUsed = s.tokensUsed + 1 ∧
      ((∀ max ∈ s.firstLimit, s.tokensUsed < max) ∧ s.passes t = [(t, beliefKey)] ∨
        (∃ max ∈ s.firstLimit, max ≤ s.tokensUsed) ∧ s.passes t = [])) ∨
    (∀ beliefKey, s.flight.pc t ≠ .trackTokens beliefKey) ∧ s.asksAt t = [] ∧
      (step calls s (.update t)).tokensUsed = s.tokensUsed ∧ s.passes t = [] := by
  have hok := s.trackTokens_ok_iff
  have hused : (step calls s (.update t)).tokensUsed =
      (lockSection (calls t) s.flight.runtime (s.flight.pc t)).1.governanceTracker.tokensUsed := rfl
  rw [hused, lockSection_tracker]
  unfold asksAt passes
  cases hpc : s.flight.pc t with
  | trackTokens beliefKey =>
    refine Or.inl ⟨beliefKey, rfl, rfl,
      s.flight.runtime.governanceTracker.trackTokenUsage_tokensUsed s.firstLimit, ?_⟩
    cases hr : s.flight.runtime.trackTokens.1 with
    | ok => exact Or.inl ⟨hok.mp hr, rfl⟩
    | error e =>
      refine Or.inr ⟨?_, rfl⟩
      by_contra hno
      have hall : ∀ max ∈ s.firstLimit, s.tokensUsed < max := fun max hmax =>
        Nat.lt_of_not_le fun hle => hno ⟨max, hmax, hle⟩
      rw [hok.mpr hall] at hr
      cases hr
  | _ => exact Or.inr ⟨(fun _ h => nomatch h), rfl, rfl, rfl⟩

/-- those that a limit lets through when so many tokens have been used -/
def letThrough (limit : Option Nat) (used : Nat) (asked : List (T × String)) : List (T × String) :=
  limit.elim asked fun max => asked.take (max - used)

theorem letThrough_cons (limit : Option Nat) (used : Nat) (p : T × String)
    (asked : List (T × String)) :
    (∀ max ∈ limit, used < max) ∧
        letThrough limit used (p :: asked) = p :: letThrough limit (used + 1) asked ∨
      (∃ max ∈ limit, max ≤ used) ∧
        letThrough limit used (p :: asked) = letThrough limit (used + 1) asked := by
  cases limit with
  | none => exact Or.inl ⟨fun max h => (nomatch h), rfl⟩
  | some max =>
    by_cases hlt : used < max
    · refine Or.inl ⟨fun max' h => Option.some.inj h ▸ hlt, ?_⟩
      show (p :: asked).take (max - used) = p :: asked.take (max - (used + 1))
      rw [show max - used = (max - (used + 1)) + 1 by omega, List.take_succ_cons]
    · refine Or.inr ⟨⟨max, rfl, Nat.le_of_not_lt hlt⟩, ?_⟩
      show (p :: asked).take (max - used) = asked.take (max - (used + 1))
      rw [show max - used = 0 by omega, show max - (used + 1) = 0 by omega]
      rfl

/-- **the check lets through the first calls to reach it**, as many as the first limit allows -/
theorem passed_run (calls : T → UpdateCall) (s : Governed T M G) (turns : List (Turn T)) :
    (run (step calls) s turns).passed =
      s.passed ++ letThrough s.firstLimit s.tokensUsed (asked calls s turns) := by
  induction turns generalizing s with
  | nil =>
    have hnil : letThrough s.firstLimit s.tokensUsed (asked calls s []) = [] := by
      unfold letThrough
      cases s.firstLimit with
      | none => rfl
      | some max => exact List.take_nil
    rw [hnil, List.append_nil]
    rfl
  | cons turn turns ih =>
    have hrun : run (step calls) s (turn :: turns) = run (step calls) (step calls s turn) turns :=
      rfl
    rw [hrun, ih, firstLimit_step]
    cases turn with
    | approve beliefKey => rfl
    | update t =>
      have hasked : asked calls s (.update t :: turns) =
          s.asksAt t ++ asked calls (step calls s (.update t)) turns := rfl
      have hpassed : (step calls s (.update t)).passed = s.passed ++ s.passes t := rfl
      rw [hasked, hpassed, List.append_assoc]
      congr 1
      rcases update_cases calls s t with
        ⟨beliefKey, -, ha, hused, ⟨hlt, hp⟩ | ⟨⟨max, hmax, hle⟩, hp⟩⟩ | ⟨-, ha, hused, hp⟩
      · rw [ha, hused, hp]
        rcases letThrough_cons s.firstLimit s.tokensUsed (t, beliefKey)
          (asked calls (step calls s (.update t)) turns) with
          ⟨-, he⟩ | ⟨⟨max, hmax, hle⟩, -⟩
        · exact he.symm
        · exact absurd (hlt max hmax) (Nat.not_lt.mpr hle)
      · rw [ha, hused, hp]
        rcases letThrough_cons s.firstLimit s.tokensUsed (t, beliefKey)
          (asked calls (step calls s (.update t)) turns) with
          ⟨hlt, -⟩ | ⟨-, he⟩
        · exact absurd (hlt max hmax) (Nat.not_lt.mpr hle)
        · exact he.symm
      · rw [ha, hused, hp]
        rfl

/-! ## who revises -/

/-- how many sections a call has behind it when it is about to enter this one -/
def stage : UpdatePc → Option Nat
  | .start => some 0
  | .preUpdate _ => some 1
  | .trackTokens _ => some 2
  | .checkpoint _ => some 3
  | .revise _ _ => some 4
  | _ => none

/-- a section leads to the next one, or past them all -/
theorem stage_lockSection {call : UpdateCall} {rt : BeliefRuntime M G} {pc : UpdatePc} {n : Nat}
    (h : stage (lockSection call rt pc).2 = some n) : ∃ m, n = m + 1 ∧ stage pc = some m := by
  cases pc with
  | start => exact ⟨0, (Option.some.inj h).symm, rfl⟩
  | preUpdate beliefKey =>
    simp only [lockSection] at h
    split at h
    · cases h
    · exact ⟨1, (Option.some.inj h).symm, rfl⟩
  | trackTokens beliefKey =>
    simp only [lockSection] at h
    split at h
    · cases h
    · exact ⟨2, (Option.some.inj h).symm, rfl⟩
  | checkpoint beliefKey => exact ⟨3, (Option.some.inj h).symm, rfl⟩
  | revise beliefKey cp =>
    simp only [lockSection] at h
    split at h <;> cases h
  | postUpdate beliefKey cp fast contradicted =>
    simp only [lockSection] at h
    split at h
    · cases h
    · cases contradicted <;> cases h
  | markCorrect fast => cases h
  | readTau fast =>
    simp only [lockSection] at h
    split at h <;> cases h
  | readSignal fast => cases h
  | pushHistory fast result => cases h
  | done result => cases h

/-- the call is past the check, and has not revised -/
def Through (pc : UpdatePc) (beliefKey : String) : Prop :=
  pc = .checkpoint beliefKey ∨ ∃ cp, pc = .revise beliefKey cp

theorem stage_of_through {pc : UpdatePc} {beliefKey : String} (h : Through pc beliefKey) :
    stage pc = some 3 ∨ stage pc = some 4 := by
  rcases h with rfl | ⟨cp, rfl⟩
  · exact Or.inl rfl
  · exact Or.inr rfl

theorem pc_update (calls : T → UpdateCall) (s : Governed T M G) (t u : T) :
    (step calls s (.update u)).flight.pc t =
      if t = u then (lockSection (calls u) s.flight.runtime (s.flight.pc u)).2
      else s.flight.pc t := by
  show Function.update s.flight.pc u _ t = _
  rw [Function.update_apply]

/-- a call gets past the check when it is let through -/
theorem through_lockSection {calls : T → UpdateCall} {s : Governed T M G} {t : T}
    {beliefKey : String} (h : Through
      (lockSection (calls t) s.flight.runtime (s.flight.pc t)).2 beliefKey) :
    Through (s.flight.pc t) beliefKey ∨ (t, beliefKey) ∈ s.passes t := by
  obtain ⟨m, hm, hstage⟩ : ∃ m, (m = 2 ∨ m = 3) ∧ stage (s.flight.pc t) = some m := by
    rcases stage_of_through h with h' | h'
    · obtain ⟨m, hm, hs⟩ := stage_lockSection h'
      exact ⟨m, Or.inl (by omega), hs⟩
    · obtain ⟨m, hm, hs⟩ := stage_lockSection h'
      exact ⟨m, Or.inr (by omega), hs⟩
  unfold passes
  cases hpc : s.flight.pc t with
  | trackTokens key =>
    right
    rw [hpc] at h
    simp only [lockSection] at h
    rcases hr : s.flight.runtime.trackTokens with ⟨e | u, rt⟩
    · rw [hr] at h
      rcases h with h | ⟨cp, h⟩ <;> cases h
    · rw [hr] at h
      rcases h with h | ⟨cp, h⟩
      · cases h
        exact List.mem_singleton.mpr rfl
      · cases h
  | checkpoint key =>
    left
    rw [hpc] at h
    rcases h with h | ⟨cp, h⟩
    · cases h
    · cases h
      exact Or.inl rfl
  | start =>
    rw [hpc] at hstage
    cases hstage
    omega
  | preUpdate key =>
    rw [hpc] at hstage
    cases hstage
    omega
  | revise key cp =>
    rw [hpc] at hstage
    cases hstage
    omega
  | _ =>
    rw [hpc] at hstage
    cases hstage

/-- and being let through it gets past the check -/
theorem through_of_passes (calls : T → UpdateCall) {s : Governed T M G} {t : T}
    {p : T × String} (h : p ∈ s.passes t) : p.1 = t ∧
      (lockSection (calls t) s.flight.runtime (s.flight.pc t)).2 = .checkpoint p.2 := by
  unfold passes at h
  cases hpc : s.flight.pc t with
  | trackTokens key =>
    rw [hpc] at h
    rcases hr : s.flight.runtime.trackTokens with ⟨e | u, rt⟩
    · simp only [hr] at h
      cases h
    · simp only [hr] at h
      obtain rfl := List.mem_singleton.mp h
      simp only [lockSection, hr]
      trivial
  | _ =>
    rw [hpc] at h
    cases h

/-- the record of a run so far: a call that has not revised has run as many sections as its
position says, and those past the check are the ones let through; they revise in their fifth -/
structure Recorded (s : Governed T M G) (turns : List (Turn T)) : Prop where
  count : ∀ t n, stage (s.flight.pc t) = some n → turns.count (.update t) = n
  through : ∀ t beliefKey, Through (s.flight.pc t) beliefKey → (t, beliefKey) ∈ s.passed
  passed : ∀ p ∈ s.passed, Through (s.flight.pc p.1) p.2 ∨ 5 ≤ turns.count (.update p.1)
  approved : ∀ beliefKey, beliefKey ∈ s.approved ↔ .approve beliefKey ∈ turns

theorem recorded_start (rt : BeliefRuntime M G) : Recorded (start rt : Governed T M G) [] where
  count t n h := Option.some.inj h
  through t beliefKey h := by rcases h with h | ⟨cp, h⟩ <;> cases h
  passed p hp := by cases hp
  approved beliefKey := by
    constructor <;> intro h <;> cases h

theorem count_update (turns : List (Turn T)) (t u : T) :
    (turns ++ [Turn.update u]).count (Turn.update t) =
      turns.count (Turn.update t) + if t = u then 1 else 0 := by
  rw [List.count_append, List.count_singleton]
  congr 1
  refine if_congr ?_ rfl rfl
  rw [beq_iff_eq]
  exact ⟨fun h => (Turn.update.inj h).symm, fun h => congrArg Turn.update h.symm⟩

theorem Recorded.update {s : Governed T M G} {turns : List (Turn T)} (h : Recorded s turns)
    (calls : T → UpdateCall) (u : T) :
    Recorded (step calls s (.update u)) (turns ++ [.update u]) where
  count t n hstage := by
    rw [pc_update] at hstage
    rw [count_update]
    split at hstage
    · rename_i he
      obtain ⟨m, rfl, hm⟩ := stage_lockSection hstage
      rw [he, h.count u m hm, if_pos rfl]
    · rename_i he
      rw [h.count t n hstage, if_neg he]
      rfl
  through t beliefKey hthrough := by
    rw [pc_update] at hthrough
    show _ ∈ s.passed ++ s.passes u
    split at hthrough
    · rename_i he
      subst he
      rcases through_lockSection hthrough with hbefore | hnow
      · exact List.mem_append_left _ (h.through t beliefKey hbefore)
      · exact List.mem_append_right _ hnow
    · exact List.mem_append_left _ (h.through t beliefKey hthrough)
  passed p hp := by
    have hmem : p ∈ s.passed ++ s.passes u := hp
    rw [pc_update, count_update]
    rcases List.mem_append.mp hmem with hbefore | hnow
    · split
      · rename_i he
        rcases h.passed p hbefore with (hpc | ⟨cp, hpc⟩) | hcount
        · left
          rw [← he, hpc]
          exact Or.inr ⟨_, rfl⟩
        · right
          have hfour := h.count p.1 4 (by rw [hpc]; rfl)
          omega
        · right
          omega
      · rcases h.passed p hbefore with hpc | hcount
        · exact Or.inl hpc
        · exact Or.inr (by omega)
    · obtain ⟨he, hpc⟩ := through_of_passes calls hnow
      rw [if_pos he, hpc]
      exact Or.inl (Or.inl rfl)
  approved beliefKey := by
    refine (h.approved beliefKey).trans ?_
    rw [List.mem_append, List.mem_singleton]
    simp

theorem Recorded.approve {s : Governed T M G} {turns : List (Turn T)} (h : Recorded s turns)
    (key : String) : Recorded (s.approve key) (turns ++ [.approve key]) where
  count t n hstage := by
    rw [List.count_append, h.count t n hstage]
    simp
  through := h.through
  passed p hp := by
    rw [List.count_append]
    rcases h.passed p hp with hpc | hcount
    · exact Or.inl hpc
    · exact Or.inr (by omega)
  approved beliefKey := by
    show beliefKey ∈ s.approved ++ [key] ↔ _
    rw [List.mem_append, List.mem_append, h.approved]
    simp

theorem recorded_run (calls : T → UpdateCall) (rt : BeliefRuntime M G) (turns : List (Turn T)) :
    Recorded (run (step calls) (start rt) turns) turns := by
  induction turns using List.reverseRecOn with
  | nil => exact recorded_start rt
  | append_singleton turns turn ih =>
    rw [run_concat]
    cases turn with
    | update t => exact ih.update calls t
    | approve key => exact ih.approve key

/-- **who has been let through revises in its fifth section, and nobody else**: whether its key has
been approved makes no difference -/
theorem revises_iff (calls : T → UpdateCall) (rt : BeliefRuntime M G) (turns : List (Turn T))
    (t : T) (beliefKey : String) :
    (∃ cp, (run (step calls) (start rt) turns).flight.pc t = .revise beliefKey cp) ↔
      (t, beliefKey) ∈ (run (step calls) (start rt) turns).passed ∧
        turns.count (.update t) = 4 := by
  have h := recorded_run calls rt turns
  constructor
  · intro hpc
    obtain ⟨cp, hpc⟩ := hpc
    exact ⟨h.through t beliefKey (Or.inr ⟨cp, hpc⟩), h.count t 4 (by rw [hpc]; rfl)⟩
  · intro hp
    obtain ⟨hmem, hcount⟩ := hp
    rcases h.passed _ hmem with (hpc | hpc) | hfive
    · have hthree := h.count t 3 (by rw [hpc]; rfl)
      omega
    · exact hpc
    · have hge : 5 ≤ turns.count (.update t) := hfive
      omega

/-! ## the limits of every contract -/

/-- the limits of all contracts hold -/
def Within (calls : T → UpdateCall) (contracts : List (BehavioralContract M G))
    (s : Governed T M G) : Prop :=
  ∀ contract ∈ contracts, Limits calls s contract

/-- the one limit that is consulted covers the limits of `contract` in the run of `turns` -/
structure Covered (calls : T → UpdateCall) (s : Governed T M G) (turns : List (Turn T))
    (contract : BehavioralContract M G) : Prop where
  /-- it is no greater, or no more calls reach the check -/
  tokens : ∀ max ∈ contract.governance.maxTokensPerSession,
    (∃ first ∈ s.firstLimit, first ≤ max) ∨ (asked calls s turns).length ≤ max
  /-- of the calls that it lets through no more are tools' under one key -/
  toolCalls : ∀ max ∈ contract.governance.maxToolCallsPerBelief, ∀ beliefKey,
    (letThrough s.firstLimit 0 (asked calls s turns)).countP
      (fun p => (calls p.1).ofTool && p.2 = beliefKey) ≤ max
  /-- and before one of them runs its fifth section under a listed key, that key is approved -/
  approvals : ∀ before t after, turns = before ++ .update t :: after →
    before.count (.update t) = 4 → ∀ beliefKey ∈ contract.governance.requireHumanApproval,
      (t, beliefKey) ∈ letThrough s.firstLimit 0 (asked calls s before) →
        .approve beliefKey ∈ before

/-- what has been let through, and revised, stays so -/
theorem Limits.of_run {calls : T → UpdateCall} {s : Governed T M G} {turns : List (Turn T)}
    {contract : BehavioralContract M G} (h : Limits calls (run (step calls) s turns) contract) :
    Limits calls s contract := by
  induction turns generalizing s with
  | nil => exact h
  | cons turn turns ih =>
    obtain ⟨htokens, htools, happrovals⟩ := ih h
    cases turn with
    | approve beliefKey => exact ⟨htokens, htools, happrovals⟩
    | update t =>
      have hpassed : (step calls s (.update t)).passed = s.passed ++ s.passes t := rfl
      refine ⟨fun max hmax => ?_, fun max hmax key => ?_, fun r hr => ?_⟩
      · have hle := htokens max hmax
        rw [hpassed, List.length_append] at hle
        omega
      · have hle := htools max hmax key
        unfold toolCallsPassed at hle ⊢
        rw [hpassed, List.countP_append] at hle
        omega
      · exact happrovals r (List.mem_append_left _ hr)

theorem length_letThrough (limit : Option Nat) (asked : List (T × String)) (max : Nat) :
    (letThrough limit 0 asked).length ≤ max ↔
      (∃ first ∈ limit, first ≤ max) ∨ asked.length ≤ max := by
  cases limit with
  | none =>
    exact ⟨Or.inr, fun h => h.elim (fun ⟨_, h, _⟩ => nomatch h) id⟩
  | some first =>
    show (asked.take (first - 0)).length ≤ max ↔ _
    rw [List.length_take, Nat.sub_zero]
    constructor
    · intro h
      rcases Nat.le_total first asked.length with hle | hle
      · exact Or.inl ⟨first, rfl, by omega⟩
      · exact Or.inr (by omega)
    · intro h
      rcases h with ⟨first', h, hle⟩ | hle
      · obtain rfl := Option.some.inj h
        omega
      · omega

/-- what has been revised, with what had been approved by then -/
theorem mem_revised_iff (calls : T → UpdateCall) (rt : BeliefRuntime M G) (turns : List (Turn T))
    (r : String × List String) : r ∈ (run (step calls) (start rt) turns).revised ↔
      ∃ before t after, turns = before ++ .update t :: after ∧
        r ∈ (run (step calls) (start rt) before).revises t := by
  induction turns using List.reverseRecOn with
  | nil =>
    refine iff_of_false (fun h => nomatch h) fun h => ?_
    obtain ⟨before, t, after, h, -⟩ := h
    cases before <;> cases h
  | append_singleton turns turn ih =>
    have hsplit : (∃ before t after, turns ++ [turn] = before ++ .update t :: after ∧
        r ∈ (run (step calls) (start rt) before).revises t) ↔
      (∃ before t after, turns = before ++ .update t :: after ∧
        r ∈ (run (step calls) (start rt) before).revises t) ∨
      ∃ t, turn = .update t ∧ r ∈ (run (step calls) (start rt) turns).revises t := by
      constructor
      · intro h
        obtain ⟨before, t, after, h, hr⟩ := h
        rcases List.eq_nil_or_concat' after with rfl | ⟨after', last, rfl⟩
        · obtain ⟨rfl, h'⟩ := List.append_inj' h rfl
          exact Or.inr ⟨t, (List.cons.inj h').1, hr⟩
        · have h' : turns ++ [turn] = (before ++ .update t :: after') ++ [last] := by
            rw [h, List.append_assoc]
            rfl
          exact Or.inl ⟨before, t, after', (List.append_inj' h' rfl).1, hr⟩
      · intro h
        rcases h with ⟨before, t, after, rfl, hr⟩ | ⟨t, rfl, hr⟩
        · exact ⟨before, t, after ++ [turn], by rw [List.append_assoc]; rfl, hr⟩
        · exact ⟨turns, t, [], rfl, hr⟩
    rw [hsplit, run_concat, ← ih]
    cases turn with
    | approve key =>
      refine ⟨Or.inl, fun h => h.elim id fun h => ?_⟩
      obtain ⟨t, h, -⟩ := h
      cases h
    | update t =>
      show r ∈ _ ++ _ ↔ _
      rw [List.mem_append]
      refine or_congr_right ⟨fun h => ⟨t, rfl, h⟩, fun h => ?_⟩
      obtain ⟨t', ht, hr⟩ := h
      cases ht
      exact hr

/-- from a runtime that has used no tokens -/
theorem passed_start (calls : T → UpdateCall) {rt : BeliefRuntime M G}
    (hfresh : rt.governanceTracker.tokensUsed = 0) (turns : List (Turn T)) :
    (run (step calls) (start rt) turns).passed =
      letThrough (start rt : Governed T M G).firstLimit 0 (asked calls (start rt) turns) := by
  rw [passed_run]
  show [] ++ letThrough _ rt.governanceTracker.tokensUsed _ = _
  rw [hfresh, List.nil_append]

/-- **the approvals of a contract come in time exactly if they come before those who are let through
revise** -/
theorem approvals_iff (calls : T → UpdateCall) {rt : BeliefRuntime M G}
    (hfresh : rt.governanceTracker.tokensUsed = 0) (turns : List (Turn T)) (listed : List String) :
    (∀ r ∈ (run (step calls) (start rt) turns).revised, r.1 ∈ listed → r.1 ∈ r.2) ↔
      ∀ before t after, turns = before ++ .update t :: after →
        before.count (.update t) = 4 → ∀ beliefKey ∈ listed,
          (t, beliefKey) ∈ letThrough (start rt : Governed T M G).firstLimit 0
            (asked calls (start rt) before) → .approve beliefKey ∈ before := by
  constructor
  · intro h before t after hturns hcount beliefKey hlisted hmem
    rw [← passed_start calls hfresh] at hmem
    obtain ⟨cp, hpc⟩ := (revises_iff calls rt before t beliefKey).mpr ⟨hmem, hcount⟩
    have hrevises : (beliefKey, (run (step calls) (start rt) before).approved) ∈
        (run (step calls) (start rt) before).revises t := by
      unfold revises
      rw [hpc]
      exact List.mem_singleton.mpr rfl
    have hrevised := (mem_revised_iff calls rt turns _).mpr ⟨before, t, after, hturns, hrevises⟩
    exact ((recorded_run calls rt before).approved beliefKey).mp (h _ hrevised hlisted)
  · intro h r hr hlisted
    obtain ⟨before, t, after, hturns, hr⟩ := (mem_revised_iff calls rt turns r).mp hr
    unfold revises at hr
    split at hr
    · rename_i beliefKey cp hpc
      obtain rfl := List.mem_singleton.mp hr
      obtain ⟨hmem, hcount⟩ := (revises_iff calls rt before t beliefKey).mp ⟨cp, hpc⟩
      rw [passed_start calls hfresh] at hmem
      exact ((recorded_run calls rt before).approved beliefKey).mpr
        (h before t after hturns hcount beliefKey hlisted hmem)
    · cases hr

/-- **the limits of a contract hold at the end of a run exactly if the first limit covers them** -/
theorem limits_iff_covered (calls : T → UpdateCall) {rt : BeliefRuntime M G}
    (hfresh : rt.governanceTracker.tokensUsed = 0) (turns : List (Turn T))
    (contract : BehavioralContract M G) :
    Limits calls (run (step calls) (start rt) turns) contract ↔
      Covered calls (start rt) turns contract := by
  have hpassed := passed_start calls hfresh turns
  have happrovals := approvals_iff calls hfresh turns contract.governance.requireHumanApproval
  have hlength := length_letThrough (start rt : Governed T M G).firstLimit
    (asked calls (start rt) turns)
  constructor
  · intro h
    refine ⟨fun max hmax => (hlength max).mp ?_, fun max hmax key => ?_,
      happrovals.mp h.approvals⟩
    · rw [← hpassed]
      exact h.tokens max hmax
    · rw [← hpassed]
      exact h.toolCalls max hmax key
  · intro h
    refine ⟨fun max hmax => ?_, fun max hmax key => ?_, happrovals.mpr h.approvals⟩
    · rw [hpassed]
      exact (hlength max).mpr (h.tokens max hmax)
    · unfold toolCallsPassed
      rw [hpassed]
      exact h.toolCalls max hmax key

end

section
attribute [local instance] Platform.ascii

/-- a contract with limits of its own, and no invariants -/
def limited (governance : GovernancePolicies) : BehavioralContract SlotVec EdgeList where
  domain := "session"
  preconditions := []
  invariants := []
  governance := governance
  recovery := .rollbackToLastCheckpoint

/-- the first contract is generous, the second allows one token and one tool call, and wants the
goal to be approved -/
def twice : BeliefRuntime SlotVec EdgeList :=
  .build goal (1 / 2) [limited ⟨some 10, none, []⟩, limited ⟨some 1, some 1, ["goal"]⟩] none false
    (15 / 100)

/-- two tools report on the goal -/
def toolOf : InFlight.Caller → UpdateCall
  | .doubter => { UpdateCall.at 11 ⟨1, 1⟩ (.asserted "ship") (1 / 10) with
      provenance := .toolResult "search" 1 }
  | .planner => { UpdateCall.at 21 ⟨1, 1⟩ (.asserted "wait") (9 / 10) with
      provenance := .toolResult "search" 2 }

def bothTools : List (Turn InFlight.Caller) :=
  List.replicate 8 (.update .doubter) ++ List.replicate 8 (.update .planner)

end
end Governed
end Epica
