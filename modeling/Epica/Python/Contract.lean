import Epica.Python.BeliefRuntime
import Epica.Runtime.Attached
import Epica.Runtime.Floors

/-!
# Behavioral contracts in Python

A contract is built call by call and checked against a quad.

* `checks_exact`    what the checks of a built contract say about a quad that is a dictionary;
* `engine_agrees`   an engine with this contract lets pass what the checks let pass.
-/

set_option linter.unusedSectionVars false

namespace Epica
open Lib

section
variable {M : Type → Type} {G : Type → Type → Type} [SlotMap M] [StableDiGraph G]

/-- the first violation that is not soft -/
def BehavioralContract.checkInvariants (contract : BehavioralContract M G) (quad : BeliefQuad M G)
    (lastCheckpoint : Option CheckpointId) : Option ContractViolation :=
  (contract.invariants.find? fun inv => !inv.predicate.evaluate quad &&
    (inv.violationClass = .hard || inv.violationClass = .critical)).map fun inv => {
      invariantDescription := inv.predicate.description
      violationClass := inv.violationClass
      atVersion := quad.version
      lastValidCheckpoint := lastCheckpoint }

/-- **it is the first of all violations that the engine acts on** -/
theorem BehavioralContract.checkInvariants_eq (contract : BehavioralContract M G)
    (quad : BeliefQuad M G) (lastCheckpoint : Option CheckpointId) :
    contract.checkInvariants quad lastCheckpoint = contract.firstSevere quad lastCheckpoint := by
  unfold checkInvariants firstSevere collectAllViolations
  induction contract.invariants with
  | nil => rfl
  | cons inv invs ih =>
    cases he : inv.predicate.evaluate quad with
    | true =>
      rw [List.find?_cons_of_neg (by rw [he]; exact Bool.false_ne_true), ih,
        List.filterMap_cons_none (by rw [he]; rfl)]
    | false =>
      rw [List.filterMap_cons_some (by rw [he]; rfl)]
      cases hc : inv.violationClass with
      | soft =>
        rw [List.find?_cons_of_neg (by rw [he, hc]; decide), ih,
          List.find?_cons_of_neg (by unfold ContractViolation.severe; simp)]
      | hard =>
        rw [List.find?_cons_of_pos (by rw [he, hc]; decide),
          List.find?_cons_of_pos (by unfold ContractViolation.severe; simp), Option.map_some, hc]
      | critical =>
        rw [List.find?_cons_of_pos (by rw [he, hc]; decide),
          List.find?_cons_of_pos (by unfold ContractViolation.severe; simp), Option.map_some, hc]

/-! ## the methods -/

/-- the drift numbers are left out -/
structure PyBehavioralContract (M : Type → Type) (G : Type → Type → Type) where
  inner : BehavioralContract M G

/-- the debug text -/
def ViolationClass.toText : ViolationClass → String
  | .soft => "Soft"
  | .hard => "Hard"
  | .critical => "Critical"

/-- the builder methods -/
inductive PyContractCall where
  | addPrecondition (key : String) (minConfidence : ℚ)
  | addPresencePrecondition (key : String)
  | addInvariant (key : String) (minConfidence : ℚ) (severity : String)
  | setMaxTokens (limit : Nat)

namespace PyBehavioralContract

def new (domain : String) : PyBehavioralContract M G where
  inner := {
    domain := domain
    preconditions := []
    invariants := []
    governance := ⟨none, none, []⟩
    recovery := .rollbackToLastCheckpoint }

def addPredicate (c : PyBehavioralContract M G) (p : BeliefPredicate M G) :
    PyBehavioralContract M G :=
  ⟨{ c.inner with preconditions := c.inner.preconditions ++ [p] }⟩

def addPrecondition (c : PyBehavioralContract M G) (key : String) (minConfidence : ℚ) :
    PyBehavioralContract M G := c.addPredicate (MinConfidence M G key minConfidence)

def addPresencePrecondition (c : PyBehavioralContract M G) (key : String) :
    PyBehavioralContract M G := c.addPredicate (BeliefExists M G key)

def setMaxTokens (c : PyBehavioralContract M G) (limit : Nat) : PyBehavioralContract M G :=
  ⟨{ c.inner with governance := { c.inner.governance with maxTokensPerSession := some limit } }⟩

def checkPreconditions (c : PyBehavioralContract M G) (s : PyBeliefQuad M G) : Bool :=
  c.inner.checkPreconditions s.quad

def checkPreconditionsRaising (c : PyBehavioralContract M G) (s : PyBeliefQuad M G) :
    Except PyRuntimeErr Unit :=
  if c.checkPreconditions s then .ok ()
  else .error (.contractViolationError s!"precondition failed in contract '{c.inner.domain}'")

def checkInvariants (c : PyBehavioralContract M G) (s : PyBeliefQuad M G) : Bool :=
  (c.inner.checkInvariants s.quad none).isNone

/-- the error of a violated invariant -/
def violated (domain description : String) (violationClass : ViolationClass) : PyRuntimeErr :=
  .contractViolationError (s!"invariant violated in contract '{domain}': {description} " ++
    s!"(class={violationClass.toText})")

def checkInvariantsRaising (c : PyBehavioralContract M G) (s : PyBeliefQuad M G) :
    Except PyRuntimeErr Unit :=
  match c.inner.checkInvariants s.quad none with
  | some v => .error (violated c.inner.domain v.invariantDescription v.violationClass)
  | none => .ok ()

variable [PyText]

def parseSeverity (severity : String) : Except PyRuntimeErr ViolationClass :=
  match severity with
  | "soft" => .ok .soft
  | "hard" => .ok .hard
  | "critical" => .ok .critical
  | other => .error (.py (.valueError
      s!"unknown severity: {PyText.debug other}; use 'soft', 'hard', or 'critical'"))

def addInvariant (c : PyBehavioralContract M G) (key : String) (minConfidence : ℚ)
    (severity : String) : Except PyRuntimeErr Unit × PyBehavioralContract M G :=
  match parseSeverity severity with
  | .error e => (.error e, c)
  | .ok violationClass =>
    (.ok (), ⟨{ c.inner with
      invariants := c.inner.invariants ++
        [⟨MinConfidence M G key minConfidence, violationClass⟩] }⟩)

def step (c : PyBehavioralContract M G) : PyContractCall → PyBehavioralContract M G
  | .addPrecondition key minConfidence => c.addPrecondition key minConfidence
  | .addPresencePrecondition key => c.addPresencePrecondition key
  | .addInvariant key minConfidence severity => (c.addInvariant key minConfidence severity).2
  | .setMaxTokens limit => c.setMaxTokens limit

end PyBehavioralContract

/-! ## what has been asked for -/

/-- a belief is held, with some confidence or with any -/
inductive Rule where
  | atLeast (key : String) (minConfidence : ℚ)
  | present (key : String)

/-- the rule as the quad's own methods read it -/
def Rule.Met (s : PyBeliefQuad M G) : Rule → Prop
  | .atLeast key minConfidence => ∃ n, s.get key = some n ∧ minConfidence ≤ n.fastConfidence
  | .present key => s.get key ≠ none

def Rule.predicate : Rule → BeliefPredicate M G
  | .atLeast key minConfidence => MinConfidence M G key minConfidence
  | .present key => BeliefExists M G key

/-- an invariant that has been added -/
structure Guarding where
  key : String
  minConfidence : ℚ
  violationClass : ViolationClass

def Guarding.Met (s : PyBeliefQuad M G) (g : Guarding) : Prop :=
  (Rule.atLeast g.key g.minConfidence).Met s

def Guarding.invariant (g : Guarding) : SessionInvariant M G :=
  ⟨MinConfidence M G g.key g.minConfidence, g.violationClass⟩

namespace PyContractCall

def rule? : PyContractCall → Option Rule
  | .addPrecondition key minConfidence => some (.atLeast key minConfidence)
  | .addPresencePrecondition key => some (.present key)
  | .addInvariant _ _ _ => none
  | .setMaxTokens _ => none

/-- a call with an unknown severity adds nothing -/
def guarding? [PyText] : PyContractCall → Option Guarding
  | .addInvariant key minConfidence severity =>
    (PyBehavioralContract.parseSeverity severity).toOption.map fun violationClass =>
      ⟨key, minConfidence, violationClass⟩
  | .addPrecondition _ _ => none
  | .addPresencePrecondition _ => none
  | .setMaxTokens _ => none

end PyContractCall

/-! ## a contract is what has been asked for -/

namespace PyBehavioralContract
variable [PyText]

theorem run_inner (c : PyBehavioralContract M G) (calls : List PyContractCall) :
    (run step c calls).inner.domain = c.inner.domain ∧
    (run step c calls).inner.preconditions =
      c.inner.preconditions ++ (calls.filterMap PyContractCall.rule?).map Rule.predicate ∧
    (run step c calls).inner.invariants =
      c.inner.invariants ++ (calls.filterMap PyContractCall.guarding?).map Guarding.invariant := by
  induction calls generalizing c with
  | nil => exact ⟨rfl, (List.append_nil _).symm, (List.append_nil _).symm⟩
  | cons call calls ih =>
    obtain ⟨hdomain, hpre, hinv⟩ := ih (c.step call)
    have hrun : run step c (call :: calls) = run step (c.step call) calls := rfl
    rw [hrun, hdomain, hpre, hinv]
    cases call with
    | addPrecondition key minConfidence =>
      exact ⟨rfl, List.append_assoc _ _ _, rfl⟩
    | addPresencePrecondition key => exact ⟨rfl, List.append_assoc _ _ _, rfl⟩
    | addInvariant key minConfidence severity =>
      cases hs : parseSeverity severity with
      | error e =>
        have hstep : c.step (.addInvariant key minConfidence severity) = c := by
          show (c.addInvariant key minConfidence severity).2 = c
          unfold addInvariant
          rw [hs]
        have hnone : (PyContractCall.addInvariant key minConfidence severity).guarding? = none := by
          show (parseSeverity severity).toOption.map _ = _
          rw [hs]
          rfl
        rw [hstep, List.filterMap_cons_none rfl, List.filterMap_cons_none hnone]
        exact ⟨rfl, rfl, rfl⟩
      | ok violationClass =>
        have hstep : (c.step (.addInvariant key minConfidence severity)).inner = { c.inner with
            invariants := c.inner.invariants ++
              [⟨MinConfidence M G key minConfidence, violationClass⟩] } := by
          show (c.addInvariant key minConfidence severity).2.inner = _
          unfold addInvariant
          rw [hs]
        have hsome : (PyContractCall.addInvariant key minConfidence severity).guarding? =
            some ⟨key, minConfidence, violationClass⟩ := by
          show (parseSeverity severity).toOption.map _ = _
          rw [hs]
          rfl
        rw [hstep, List.filterMap_cons_none rfl, List.filterMap_cons_some hsome]
        exact ⟨rfl, rfl, List.append_assoc _ _ _⟩
    | setMaxTokens limit => exact ⟨rfl, rfl, rfl⟩

end PyBehavioralContract

/-! ## the checks of a dictionary -/

section
variable [Platform] [PyText] {s : PyBeliefQuad M G}

theorem PyBeliefQuad.Good.get_iff (h : s.Good) {key : String} {n : BeliefNode} :
    s.get key = some n ↔ s.quad.Holds n ∧ n.key = key := by
  unfold PyBeliefQuad.get
  rw [Option.bind_eq_some_iff]
  constructor
  · intro hn
    obtain ⟨id, hid, hn⟩ := hn
    obtain ⟨n', hn', hkey⟩ := Option.map_eq_some_iff.mp ((h.exact key id).mp hid)
    obtain rfl := Option.some.inj (hn.symm.trans hn')
    exact ⟨⟨id, hn⟩, hkey⟩
  · intro hn
    obtain ⟨⟨id, hid⟩, hkey⟩ := hn
    exact ⟨id, (h.exact key id).mpr (Option.map_eq_some_iff.mpr ⟨n, hid, hkey⟩), hid⟩

theorem Rule.evaluate_iff (h : s.Good) (rule : Rule) :
    (rule.predicate : BeliefPredicate M G).evaluate s.quad = true ↔ rule.Met s := by
  cases rule with
  | atLeast key minConfidence =>
    refine h.uniqueKeys.evaluate_minConfidence.trans ?_
    refine exists_congr fun n => and_congr_left fun _ => ?_
    rw [h.uniqueKeys.holder_iff, h.get_iff]
  | present key =>
    refine BeliefQuad.evaluate_beliefExists.trans ?_
    show _ ↔ s.get key ≠ none
    rw [Option.ne_none_iff_exists']
    exact exists_congr fun n => h.get_iff.symm

namespace PyBehavioralContract

/-- the invariant is violated, and not a soft one -/
def fails (s : PyBeliefQuad M G) (g : Guarding) : Bool :=
  !(g.invariant : SessionInvariant M G).predicate.evaluate s.quad &&
    (g.violationClass = .hard || g.violationClass = .critical)

theorem fails_iff (h : s.Good) (g : Guarding) :
    fails s g = true ↔ ¬ g.Met s ∧ g.violationClass ≠ .soft := by
  have hmet := Rule.evaluate_iff h (.atLeast g.key g.minConfidence)
  have hsevere : (g.violationClass = .hard || g.violationClass = .critical : Bool) = true ↔
      g.violationClass ≠ .soft := by
    cases g.violationClass <;> decide
  unfold fails
  rw [Bool.and_eq_true, hsevere, Bool.not_eq_true', ← Bool.not_eq_true]
  exact and_congr_left fun _ => not_congr hmet

/-- the invariants of a built contract, checked in the order of the calls -/
theorem checkInvariants_run (domain : String) (calls : List PyContractCall)
    (s : PyBeliefQuad M G) :
    (run step (new domain) calls).inner.checkInvariants s.quad none =
      ((calls.filterMap PyContractCall.guarding?).find? (fails s)).map fun g =>
        ⟨g.key, g.violationClass, s.quad.version, none⟩ := by
  obtain ⟨-, -, hinv⟩ := run_inner (new domain : PyBehavioralContract M G) calls
  unfold BehavioralContract.checkInvariants
  rw [hinv]
  show (List.find? _ ([] ++ _)).map _ = _
  rw [List.nil_append, List.find?_map, Option.map_map]
  rfl

theorem not_fails_iff (h : s.Good) (g : Guarding) :
    ¬ fails s g = true ↔ (g.violationClass ≠ .soft → g.Met s) := by
  rw [fails_iff h, not_and, not_imp_not]

/-- the first invariant that fails -/
theorem find_fails_iff (h : s.Good) {guards : List Guarding} {g : Guarding} :
    guards.find? (fails s) = some g ↔ ∃ pre post, guards = pre ++ g :: post ∧
      (∀ g' ∈ pre, g'.violationClass ≠ .soft → g'.Met s) ∧ g.violationClass ≠ .soft ∧
      ¬ g.Met s := by
  rw [List.find?_eq_some_iff_append]
  constructor
  · intro hfind
    obtain ⟨hg, pre, post, hguards, hbefore⟩ := hfind
    obtain ⟨hunmet, hsevere⟩ := (fails_iff h g).mp hg
    refine ⟨pre, post, hguards, fun g' hg' => (not_fails_iff h g').mp ?_, hsevere, hunmet⟩
    have hpass : (!fails s g') = true := hbefore g' hg'
    rw [Bool.not_eq_true'] at hpass
    rw [hpass]
    exact Bool.false_ne_true
  · intro hfind
    obtain ⟨pre, post, hguards, hbefore, hsevere, hunmet⟩ := hfind
    refine ⟨(fails_iff h g).mpr ⟨hunmet, hsevere⟩, pre, post, hguards, fun g' hg' => ?_⟩
    have hpass : ¬ fails s g' = true := (not_fails_iff h g').mpr (hbefore g' hg')
    rw [Bool.not_eq_true']
    exact Bool.eq_false_iff.mpr hpass

theorem checkPreconditions_iff (h : s.Good) (domain : String) (calls : List PyContractCall) :
    (run step (new domain : PyBehavioralContract M G) calls).checkPreconditions s = true ↔
      ∀ rule ∈ calls.filterMap PyContractCall.rule?, rule.Met s := by
  obtain ⟨-, hpre, -⟩ := run_inner (new domain : PyBehavioralContract M G) calls
  unfold checkPreconditions BehavioralContract.checkPreconditions
  rw [hpre]
  show (([] ++ _ : List (BeliefPredicate M G)).all _) = true ↔ _
  rw [List.nil_append, List.all_map, List.all_eq_true]
  exact forall_congr' fun rule => imp_congr_right fun _ => Rule.evaluate_iff h rule

/-- the raising check raises exactly when the other one is false -/
theorem checkPreconditionsRaising_iff (domain : String) (calls : List PyContractCall)
    (s : PyBeliefQuad M G) (e : PyRuntimeErr) :
    (run step (new domain : PyBehavioralContract M G) calls).checkPreconditionsRaising s =
        .error e ↔
      (run step (new domain : PyBehavioralContract M G) calls).checkPreconditions s = false ∧
        e = .contractViolationError s!"precondition failed in contract '{domain}'" := by
  obtain ⟨hdomain, -, -⟩ := run_inner (new domain : PyBehavioralContract M G) calls
  unfold checkPreconditionsRaising
  rw [hdomain]
  cases (run step (new domain : PyBehavioralContract M G) calls).checkPreconditions s with
  | true => exact iff_of_false (fun h => nomatch h) fun h => nomatch h.1
  | false =>
    constructor
    · exact fun h => ⟨rfl, (Except.error.inj h).symm⟩
    · exact fun h => congrArg Except.error h.2.symm

theorem checkInvariants_iff (h : s.Good) (domain : String) (calls : List PyContractCall) :
    (run step (new domain : PyBehavioralContract M G) calls).checkInvariants s = true ↔
      ∀ g ∈ calls.filterMap PyContractCall.guarding?, g.violationClass ≠ .soft → g.Met s := by
  unfold checkInvariants
  rw [checkInvariants_run, Option.isNone_map, Option.isNone_iff_eq_none, List.find?_eq_none]
  exact forall_congr' fun g => imp_congr_right fun _ => not_fails_iff h g

theorem checkInvariantsRaising_iff (domain : String) (calls : List PyContractCall)
    (s : PyBeliefQuad M G) (e : PyRuntimeErr) :
    (run step (new domain : PyBehavioralContract M G) calls).checkInvariantsRaising s = .error e ↔
      ∃ g, (calls.filterMap PyContractCall.guarding?).find? (fails s) = some g ∧
        e = violated domain g.key g.violationClass := by
  obtain ⟨hdomain, -, -⟩ := run_inner (new domain : PyBehavioralContract M G) calls
  unfold checkInvariantsRaising
  rw [checkInvariants_run, hdomain]
  cases (calls.filterMap PyContractCall.guarding?).find? (fails s) with
  | none => exact iff_of_false (fun h => nomatch h) fun h => nomatch h.choose_spec.1
  | some g =>
    constructor
    · intro h
      exact ⟨g, rfl, (Except.error.inj h).symm⟩
    · intro h
      obtain ⟨g', hg', rfl⟩ := h
      obtain rfl := Option.some.inj hg'
      rfl

/-- **the checks are what has been asked for**: on a quad that is a dictionary, a contract that was
built call by call checks the beliefs under the keys that were given, and names the invariant that
was added first among the violated ones that are not soft; the raising check of the preconditions
names the domain -/
theorem checks_exact (domain : String) (calls : List PyContractCall) (ops : List PyOp)
    (hops : ∀ (s : PyBeliefQuad M G) op, StepOf PyBeliefQuad.step PyBeliefQuad.new ops s op →
      s.InsertsNew op) :
    let c : PyBehavioralContract M G := run step (new domain) calls
    let s : PyBeliefQuad M G := run PyBeliefQuad.step PyBeliefQuad.new ops
    let guards := calls.filterMap PyContractCall.guarding?
    (c.checkPreconditions s = true ↔
      ∀ rule ∈ calls.filterMap PyContractCall.rule?, rule.Met s) ∧
    (∀ e, c.checkPreconditionsRaising s = .error e ↔
      (∃ rule ∈ calls.filterMap PyContractCall.rule?, ¬ rule.Met s) ∧
        e = .contractViolationError s!"precondition failed in contract '{domain}'") ∧
    (c.checkInvariants s = true ↔ ∀ g ∈ guards, g.violationClass ≠ .soft → g.Met s) ∧
    ∀ e, c.checkInvariantsRaising s = .error e ↔ ∃ pre g post, guards = pre ++ g :: post ∧
      (∀ g' ∈ pre, g'.violationClass ≠ .soft → g'.Met s) ∧ g.violationClass ≠ .soft ∧ ¬ g.Met s ∧
      e = violated domain g.key g.violationClass := by
  intro c s guards
  have hgood : s.Good := PyBeliefQuad.good_of_insertsNew hops (stateOf_last _ _)
  have hpre := checkPreconditions_iff hgood domain calls
  have hfails : c.checkPreconditions s = false ↔
      ∃ rule ∈ calls.filterMap PyContractCall.rule?, ¬ rule.Met s := by
    rw [← Bool.not_eq_true, hpre]
    simp only [not_forall, exists_prop]
  refine ⟨hpre, fun e => ?_, checkInvariants_iff hgood domain calls,
    fun e => (checkInvariantsRaising_iff domain calls s e).trans ?_⟩
  · rw [← hfails]
    exact checkPreconditionsRaising_iff domain calls s e
  constructor
  · intro h
    obtain ⟨g, hg, he⟩ := h
    obtain ⟨pre, post, hguards, hbefore, hsevere, hunmet⟩ := (find_fails_iff hgood).mp hg
    exact ⟨pre, g, post, hguards, hbefore, hsevere, hunmet, he⟩
  · intro h
    obtain ⟨pre, g, post, hguards, hbefore, hsevere, hunmet, he⟩ := h
    exact ⟨g, (find_fails_iff hgood).mpr ⟨pre, post, hguards, hbefore, hsevere, hunmet⟩, he⟩

end PyBehavioralContract
end

section
attribute [local instance] Platform.ascii PyBeliefQuad.plainText

/-- a goal is held as it is asked for, a plan is not, and one severity is unknown -/
theorem PyBehavioralContract.checks_exact_goal :
    let c : PyBehavioralContract SlotVec EdgeList := run step (new "session")
      [.addPrecondition "goal" (1 / 2), .addInvariant "goal" 1 "fatal",
        .addInvariant "plan" (1 / 2) "hard"]
    let s : PyBeliefQuad SlotVec EdgeList :=
      run PyBeliefQuad.step PyBeliefQuad.new [.setitem ⟨7, 0⟩ "goal" "done"]
    c.checkPreconditions s = true ∧
      c.checkInvariantsRaising s = .error (violated "session" "plan" .hard) := by
  intro c s
  have hnew : ∀ (t : PyBeliefQuad SlotVec EdgeList) op,
      StepOf PyBeliefQuad.step PyBeliefQuad.new [.setitem ⟨7, 0⟩ "goal" "done"] t op →
        t.InsertsNew op := by
    intro t op hs
    rcases stepOf_cons.mp hs with ⟨rfl, rfl⟩ | hs
    · show "goal" ∉ (PyBeliefQuad.new : PyBeliefQuad SlotVec EdgeList).keys
      decide +kernel
    · exact absurd hs not_stepOf_nil
  obtain ⟨hpre, -, -, hraise⟩ := checks_exact "session"
    [.addPrecondition "goal" (1 / 2), .addInvariant "goal" 1 "fatal",
      .addInvariant "plan" (1 / 2) "hard"] _ hnew
  refine ⟨hpre.mpr ?_, (hraise _).mpr ⟨[], ⟨"plan", 1 / 2, .hard⟩, [], rfl, nofun, nofun, ?_, rfl⟩⟩
  · intro rule hrule
    rw [List.mem_singleton.mp hrule]
    have hsome : ((s.get "goal").any fun n => decide ((1 / 2 : ℚ) ≤ n.fastConfidence)) = true := by
      decide +kernel
    obtain ⟨n, hn, hle⟩ := (Option.any_eq_true _ _).mp hsome
    exact ⟨n, hn, of_decide_eq_true hle⟩
  · intro hmet
    obtain ⟨n, hn, -⟩ := hmet
    have hnone : (s.get "plan").isSome = false := by decide +kernel
    rw [hn] at hnone
    cases hnone

end

/-! ## the checks of the engine -/

section
variable [Platform]

/-- after the update the engine has nothing to do exactly if no violation is severe -/
theorem postUpdate_quiet_iff (engine : ContractEngine M G) (quad : BeliefQuad M G)
    (lastCheckpoint : Option CheckpointId) (beliefKey agentId : String) (nowMs : Nat) :
    (engine.postUpdate quad lastCheckpoint beliefKey agentId nowMs).1 = .ok none ↔
      firstSevere engine.contracts quad lastCheckpoint = none := by
  have hq : Quiet quad ⟨quad, engine.violationLog, none, false⟩ := ⟨rfl, rfl, rfl⟩
  unfold ContractEngine.postUpdate
  rcases handleContracts_cases engine.contracts hq with ⟨hn, s', e, hs'⟩ | ⟨contract, v, hv, hg⟩
  · rw [e]
    exact iff_of_true (congrArg Except.ok hs'.outcome) hn
  · have hsome : ¬ firstSevere engine.contracts quad lastCheckpoint = none := by
      rw [hv]
      exact Option.some_ne_none _
    refine iff_of_false (fun hquiet => ?_) hsome
    rcases hf : tryFold (handleContract engine.sovereignty lastCheckpoint)
        ⟨quad, engine.violationLog, none, false⟩ engine.contracts with ⟨result, s'⟩
    rw [hf] at hg hquiet
    cases result with
    | error e => cases hquiet
    | ok u =>
      have hnone : s'.outcome = none := Except.ok.inj hquiet
      rcases hg with ⟨-, -, he⟩ | ⟨-, -, e, -, he⟩ | ⟨-, hout, -⟩
      · cases he
      · cases he
      · have hout' : s'.outcome.isSome = true := hout
        rw [hnone] at hout'
        cases hout'

theorem preUpdate_singleton (contract : BehavioralContract M G)
    (sovereignty : Option (MnemonicSovereignty M G)) (log : ViolationLog) (quad : BeliefQuad M G)
    (beliefKey agentId : String) :
    let engine : ContractEngine M G := ⟨[contract], sovereignty, log⟩
    engine.preUpdate quad beliefKey agentId = .ok () ↔
      engine.checkAuth agentId = .ok () ∧ contract.checkPreconditions quad = true := by
  intro engine
  unfold ContractEngine.preUpdate
  cases engine.checkAuth agentId with
  | error e => exact iff_of_false (fun h => nomatch h) fun h => nomatch h.1
  | ok u =>
    cases hpre : contract.checkPreconditions quad with
    | true =>
      have hfind : engine.contracts.find? (fun contract => !contract.checkPreconditions quad) =
          none := List.find?_eq_none.mpr fun contract' hmem => by
        rw [List.mem_singleton.mp hmem, hpre]
        decide
      simp only [hfind]
      exact iff_of_true trivial ⟨trivial, trivial⟩
    | false =>
      have hfind : engine.contracts.find? (fun contract => !contract.checkPreconditions quad) =
          some contract := List.find?_cons_of_pos (by rw [hpre]; rfl)
      simp only [hfind]
      exact iff_of_false (fun h => nomatch h) fun h => Bool.false_ne_true h.2

/-- **an engine with the contract alone lets pass what its checks let pass**, before an update and
after it -/
theorem PyBehavioralContract.engine_agrees (c : PyBehavioralContract M G) (s : PyBeliefQuad M G)
    (sovereignty : Option (MnemonicSovereignty M G)) (log : ViolationLog)
    (beliefKey agentId : String) (nowMs : Nat) :
    let engine : ContractEngine M G := ⟨[c.inner], sovereignty, log⟩
    (engine.preUpdate s.quad beliefKey agentId = .ok () ↔
      engine.checkAuth agentId = .ok () ∧ c.checkPreconditions s = true) ∧
    (∀ last, (engine.postUpdate s.quad last beliefKey agentId nowMs).1 = .ok none ↔
      c.checkInvariants s = true) := by
  intro engine
  refine ⟨preUpdate_singleton c.inner sovereignty log s.quad beliefKey agentId, fun last => ?_⟩
  have hchecks : c.checkInvariants s = true ↔ c.inner.firstSevere s.quad none = none := by
    unfold checkInvariants
    rw [BehavioralContract.checkInvariants_eq, Option.isNone_iff_eq_none]
  rw [postUpdate_quiet_iff, firstSevere_singleton, Option.map_eq_none_iff, hchecks,
    BehavioralContract.firstSevere_eq_none_iff, BehavioralContract.firstSevere_eq_none_iff]

end

end
end Epica
