import Epica.Runtime.Governance

/-!
# Human approval over a run of calls

A `GovernanceTracker` is asked whether a key needs an approval, and told that a key has been
approved, in any order.

* `pending_run_iff`            which keys are pending: those a listed query has entered since they
                               were last approved;
* `approvals_remembered_iff`   the answers are right exactly when no listed key is asked about after
                               it has been approved, for no answer reads the pending keys.
-/

set_option linter.unusedSectionVars false

namespace Epica
open Lib

inductive ApprovalCall where
  | requiresApproval (beliefKey : String) (requireHumanApproval : List String)
  | markApproved (beliefKey : String)
deriving DecidableEq

namespace GovernanceTracker

def approvalStep (tracker : GovernanceTracker) : ApprovalCall → GovernanceTracker
  | .requiresApproval beliefKey requireHumanApproval =>
    (tracker.requiresApproval beliefKey requireHumanApproval).2
  | .markApproved beliefKey => tracker.markApproved beliefKey

/-- the calls that decide whether `k` is pending -/
def Decides (k : String) : ApprovalCall → Prop
  | .requiresApproval beliefKey requireHumanApproval =>
    k = beliefKey ∧ k ∈ requireHumanApproval
  | .markApproved beliefKey => k = beliefKey

theorem mem_pendingApprovals_step (tracker : GovernanceTracker) (call : ApprovalCall)
    (k : String) : k ∈ (tracker.approvalStep call).pendingApprovals ↔
      (Decides k call ∧ call ≠ .markApproved k) ∨
        (¬ Decides k call ∧ k ∈ tracker.pendingApprovals) := by
  cases call with
  | requiresApproval beliefKey requireHumanApproval =>
    show k ∈ (tracker.requiresApproval beliefKey requireHumanApproval).2.pendingApprovals ↔ _
    rw [mem_pendingApprovals_requiresApproval]
    unfold Decides
    by_cases e : k = beliefKey
    · subst e
      by_cases hk : k ∈ requireHumanApproval
      · simp [hk]
      · simp [hk]
    · simp [e]
  | markApproved beliefKey =>
    show k ∈ tracker.pendingApprovals.erase beliefKey ↔ _
    rw [Finset.mem_erase]
    unfold Decides
    by_cases e : k = beliefKey
    · simp [e]
    · simp [e]

/-- **a key is pending exactly when a listed query has entered it and no approval followed** -/
theorem pending_run_iff (calls : List ApprovalCall) (k : String) :
    k ∈ (run approvalStep new calls).pendingApprovals ↔
      ∃ pre requireHumanApproval post,
        calls = pre ++ .requiresApproval k requireHumanApproval :: post ∧
          k ∈ requireHumanApproval ∧ .markApproved k ∉ post := by
  induction calls using List.reverseRecOn with
  | nil =>
    refine iff_of_false (Finset.notMem_empty k) fun h => ?_
    obtain ⟨pre, list, post, h, -⟩ := h
    cases pre <;> cases h
  | append_singleton calls call ih =>
    rw [run_concat, mem_pendingApprovals_step, ih]
    constructor
    · intro h
      rcases h with ⟨hd, hne⟩ | ⟨hd, pre, list, post, rfl, hk, hno⟩
      · -- the last call enters `k`
        cases call with
        | requiresApproval beliefKey list =>
          obtain ⟨rfl, hk⟩ := hd
          exact ⟨calls, list, [], rfl, hk, List.not_mem_nil⟩
        | markApproved beliefKey => exact absurd (congrArg ApprovalCall.markApproved hd).symm hne
      · refine ⟨pre, list, post ++ [call], by simp, hk, fun hm => ?_⟩
        rcases List.mem_append.mp hm with hm | hm
        · exact hno hm
        · rw [← List.mem_singleton.mp hm] at hd
          exact hd rfl
    · intro h
      obtain ⟨pre, list, post, h, hk, hno⟩ := h
      rcases List.eq_nil_or_concat' post with rfl | ⟨post, c, rfl⟩
      · obtain ⟨rfl, hc⟩ := List.append_inj' h rfl
        obtain rfl := (List.cons.inj hc).1
        exact Or.inl ⟨⟨rfl, hk⟩, fun e => nomatch e⟩
      · have h' : calls ++ [call] = (pre ++ .requiresApproval k list :: post) ++ [c] := by
          rw [h, List.append_assoc]
          rfl
        obtain ⟨rfl, hc⟩ := List.append_inj' h' rfl
        obtain rfl := (List.cons.inj hc).1
        by_cases hd : Decides k call
        · refine Or.inl ⟨hd, fun e => hno ?_⟩
          rw [e]
          exact List.mem_append_right _ (List.mem_singleton.mpr rfl)
        · exact Or.inr ⟨hd, pre, list, post, rfl, hk, fun hm =>
            hno (List.mem_append_left _ hm)⟩

/-- every query of the calls answers whether its key is listed and has not been approved before -/
def ApprovalsRemembered (tracker : GovernanceTracker) (calls : List ApprovalCall) : Prop :=
  ∀ pre beliefKey requireHumanApproval post,
    calls = pre ++ .requiresApproval beliefKey requireHumanApproval :: post →
    (((run approvalStep tracker pre).requiresApproval beliefKey requireHumanApproval).1 = true ↔
      beliefKey ∈ requireHumanApproval ∧ .markApproved beliefKey ∉ pre)

/-- **approvals are remembered exactly in the runs that never ask again**: no listed key is asked
about after it has been approved -/
theorem approvals_remembered_iff (tracker : GovernanceTracker) (calls : List ApprovalCall) :
    tracker.ApprovalsRemembered calls ↔
      ∀ pre beliefKey requireHumanApproval post,
        calls = pre ++ .requiresApproval beliefKey requireHumanApproval :: post →
        beliefKey ∈ requireHumanApproval → .markApproved beliefKey ∉ pre := by
  constructor
  · intro h pre k list post hcalls hk
    have hans := (requiresApproval_iff (run approvalStep tracker pre) k list).mpr hk
    exact ((h pre k list post hcalls).mp hans).2
  · intro h pre k list post hcalls
    rw [requiresApproval_iff]
    exact ⟨fun hk => ⟨hk, h pre k list post hcalls hk⟩, fun hk => hk.1⟩

/-- a key that was approved before it was first asked about needs an approval all the same -/
theorem approvals_forgotten :
    ¬ new.ApprovalsRemembered
      [.markApproved "deploy", .requiresApproval "deploy" ["deploy"]] := by
  intro h
  have hans := (h [.markApproved "deploy"] "deploy" ["deploy"] [] rfl).mp (by decide)
  exact hans.2 (List.mem_singleton.mpr rfl)

end GovernanceTracker
end Epica
