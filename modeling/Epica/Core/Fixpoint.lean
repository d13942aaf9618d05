import Epica.Lib.Sweep
import Epica.Core.Runs
import Mathlib.Order.WellFoundedSet

/-!
# Does System 1 reach its fixpoint

A propagation is one sweep (`Epica.Lib.Sweep`) over the supported beliefs it visits, in the order
of the visits: `fast_propagate`.  The equation of a belief is `rule`: best evidence over its
support paths, decayed, as a function of the confidences of the premises.

When the causal graph has no cycle and contains an edge for every listed premise, the equations
have exactly one solution, and

* `propagate_fixpoint_iff`        the propagation ends at it exactly when no premise that is
                                  visited after its conclusion was read at a value that matters;
* `propagate_fixpoint_of_sorted`  in particular when every premise that is visited is visited
                                  before its conclusions.

The enumeration order of the hash sets decides: `chain` has a run that ends elsewhere.
-/

set_option linter.unusedSectionVars false

namespace Epica
open Lib

namespace BeliefQuad
section
variable {M : Type → Type} {G : Type → Type → Type} [SlotMap M] [StableDiGraph G] [Platform]

/-- the fast confidences of a quad -/
def fast (q : BeliefQuad M G) (id : BeliefId) : ℚ :=
  ((q.get id).map BeliefNode.fastConfidence).getD 0

/-- the equation of `d`, as a function of all confidences -/
def rule (q : BeliefQuad M G) (nowMs : Nat) (d : BeliefId) (x : BeliefId → ℚ) : ℚ :=
  clamp (((CausalGraph.inferredFromPremises q.causal d).map fun ps =>
    combine ((ps.filter fun p => q.Live p).map x)).foldl max 0 * q.decayFactor d nowMs) 0 1

/-- an `InferredFrom` edge leads to `d` -/
def Supported (q : BeliefQuad M G) (d : BeliefId) : Bool :=
  !(CausalGraph.inferredFromPremises q.causal d).isEmpty

/-- the beliefs a propagation recomputes, in the order of the visits -/
def swept (q : BeliefQuad M G) (order : BeliefId → HashOrder BeliefId) (changed : BeliefId) :
    List BeliefId :=
  (q.visitOrder order changed).filter q.Supported

/-- `p` is a live premise on a support path of `d` -/
def Reads (q : BeliefQuad M G) (p d : BeliefId) : Prop :=
  q.Live p ∧ ∃ ps ∈ CausalGraph.inferredFromPremises q.causal d, p ∈ ps

/-! ## a propagation is a sweep -/

theorem pathConfidence_eq (q : BeliefQuad M G) (ps : List BeliefId) :
    q.pathConfidence ps = combine ((ps.filter fun p => q.Live p).map q.fast) := by
  unfold pathConfidence
  congr 1
  induction ps with
  | nil => rfl
  | cons p ps ih =>
    rw [List.filterMap_cons, List.filter_cons]
    by_cases hp : q.Live p
    · obtain ⟨n, hn⟩ := live_iff.mp hp
      have hfast : q.fast p = n.fastConfidence := by
        unfold fast
        rw [hn]
        rfl
      simp only [hn, Option.map_some, hp, decide_true, if_true, List.map_cons, hfast, ih]
    · simp only [not_live_iff.mp hp, Option.map_none, hp, decide_false, Bool.false_eq_true,
        if_false, ih]

/-- what System 1 writes is the equation, at the confidences of the moment -/
theorem conclusionConfidence_eq (q : BeliefQuad M G) (nowMs : Nat) (d : BeliefId) :
    q.conclusionConfidence nowMs d = q.rule nowMs d q.fast := by
  unfold conclusionConfidence rule
  rw [show q.pathConfidence = _ from funext q.pathConfidence_eq]

theorem rule_congr {q q' : BeliefQuad M G} (h : OnlyConfidences q q') (nowMs : Nat) :
    q'.rule nowMs = q.rule nowMs := by
  funext d x
  have hdecay : q'.decayFactor d nowMs = q.decayFactor d nowMs := by
    obtain ⟨y, hy⟩ := h.nodes d
    unfold decayFactor
    rw [hy]
    cases q.get d <;> rfl
  have hlive : ∀ p, decide (q'.Live p) = decide (q.Live p) := fun p =>
    decide_eq_decide.mpr (h.live p)
  unfold rule
  simp only [hdecay, h.causal, hlive]

theorem supported_congr {q q' : BeliefQuad M G} (h : OnlyConfidences q q') :
    q'.Supported = q.Supported := by
  funext d
  unfold Supported
  rw [h.causal]

theorem live_of_supported {q : BeliefQuad M G} (h : q.GraphsSynced) {d : BeliefId}
    (hd : q.Supported d = true) : q.Live d := by
  by_contra hno
  have hnone := h.causal.lookup_eq_none hno
  unfold Supported CausalGraph.inferredFromPremises at hd
  rw [hnone] at hd
  cases hd

theorem fast_recompute {q : BeliefQuad M G} (h : q.GraphsSynced) (nowMs : Nat) (d : BeliefId) :
    (q.recompute nowMs d).fast =
      if q.Supported d then Function.update q.fast d (q.rule nowMs d q.fast) else q.fast := by
  cases hs : q.Supported d with
  | false =>
    have he : (CausalGraph.inferredFromPremises q.causal d).isEmpty = true := by
      unfold Supported at hs
      simpa using hs
    unfold recompute
    rw [if_pos he, if_neg Bool.false_ne_true]
  | true =>
    have he : ¬ (CausalGraph.inferredFromPremises q.causal d).isEmpty = true := by
      unfold Supported at hs
      simpa using hs
    obtain ⟨n, hn⟩ := live_iff.mp (live_of_supported h hs)
    unfold recompute
    rw [if_neg he, if_pos rfl]
    funext j
    unfold fast
    rw [get_modify]
    by_cases e : j = d
    · rw [if_pos e, e, Function.update_self, hn, conclusionConfidence_eq]
      rfl
    · rw [if_neg e, Function.update_of_ne e]

theorem GraphsSynced.of_only {q q' : BeliefQuad M G} (h : q.GraphsSynced)
    (ho : OnlyConfidences q q') : q'.GraphsSynced where
  semantic := ho.semantic ▸ h.semantic.congr fun id => (ho.live id).symm
  temporal := ho.temporal ▸ h.temporal.congr fun id => (ho.live id).symm
  causal := ho.causal ▸ h.causal.congr fun id => (ho.live id).symm
  entity := ho.entity ▸ h.entity.congr fun id => (ho.live id).symm

theorem fast_recomputeAll {q : BeliefQuad M G} (h : q.GraphsSynced) (nowMs : Nat)
    (ids : List BeliefId) : (q.recomputeAll (fun _ => nowMs) ids).fast =
      sweep (q.rule nowMs) (ids.filter q.Supported) q.fast := by
  induction ids generalizing q with
  | nil => rfl
  | cons d ids ih =>
    have ho := recompute_only q nowMs d
    show ((q.recompute nowMs d).recomputeAll (fun _ => nowMs) ids).fast = _
    rw [ih (h.of_only ho), rule_congr ho, supported_congr ho, fast_recompute h]
    cases hs : q.Supported d with
    | false => rw [List.filter_cons_of_neg (by simp [hs]), if_neg Bool.false_ne_true]
    | true => rw [List.filter_cons_of_pos hs, sweep_cons, if_pos rfl]

/-- **a propagation with one clock reading is a sweep** -/
theorem fast_propagate {q : BeliefQuad M G} (h : q.GraphsSynced) (nowMs : Nat)
    (order : BeliefId → HashOrder BeliefId) (changed : BeliefId) :
    (q.propagateSystem1 (fun _ => nowMs) order changed).fast =
      sweep (q.rule nowMs) (q.swept order changed) q.fast := by
  rw [propagateSystem1_eq, fast_recomputeAll h]
  rfl

/-! ## the equations -/

theorem rule_local (q : BeliefQuad M G) (nowMs : Nat) : LocalTo (q.rule nowMs) q.Reads := by
  intro d x y hxy
  unfold rule
  have hpaths : ((CausalGraph.inferredFromPremises q.causal d).map fun ps =>
      combine ((ps.filter fun p => q.Live p).map x)) =
      (CausalGraph.inferredFromPremises q.causal d).map fun ps =>
        combine ((ps.filter fun p => q.Live p).map y) := by
    refine List.map_congr_left fun ps hps => congrArg combine (List.map_congr_left fun p hp => ?_)
    obtain ⟨hp, hl⟩ := List.mem_filter.mp hp
    exact hxy p ⟨of_decide_eq_true hl, ps, hps, hp⟩
  rw [hpaths]

/-- no causal cycle -/
def Acyclic (q : BeliefQuad M G) : Prop := ∀ d, ¬ Relation.TransGen q.causal.Joined d d

/-- every listed premise has a causal edge to the conclusion -/
def PremisesJoined (q : BeliefQuad M G) : Prop :=
  ∀ ps d, CausalGraph.Supports q.causal ps d → ∀ p ∈ ps, q.causal.Joined p d

theorem reads_wellFounded {q : BeliefQuad M G} (h : q.GraphsSynced) (hacyclic : q.Acyclic)
    (hjoined : q.PremisesJoined) (l : List BeliefId) :
    {x | x ∈ l}.WellFoundedOn q.Reads := by
  have : IsStrictOrder BeliefId (Relation.TransGen q.causal.Joined) :=
    { irrefl := hacyclic, trans := fun _ _ _ => Relation.TransGen.trans }
  refine (l.finite_toSet.wellFoundedOn (r := Relation.TransGen q.causal.Joined)).mono
    (fun p d hr => ?_) (fun _ hx => hx)
  obtain ⟨-, ps, hps, hp⟩ := hr
  exact .single (hjoined ps d ((CausalGraph.mem_inferredFromPremises h.causal d ps).mp hps) p hp)

theorem mem_swept {q : BeliefQuad M G} (h : q.GraphsSynced)
    (order : BeliefId → HashOrder BeliefId) (changed d : BeliefId) : d ∈ q.swept order changed ↔
      (d = changed ∨ d ∈ CausalGraph.descendantsOf q.causal changed) ∧
        ∃ ps, CausalGraph.Supports q.causal ps d := by
  unfold swept
  rw [List.mem_filter, mem_visitOrder order h]
  refine and_congr_right fun _ => ?_
  unfold Supported
  rw [Bool.not_eq_true', List.isEmpty_eq_false_iff_exists_mem]
  exact exists_congr fun ps => CausalGraph.mem_inferredFromPremises h.causal d ps

theorem nodup_swept (q : BeliefQuad M G) (order : BeliefId → HashOrder BeliefId)
    (changed : BeliefId) : (q.swept order changed).Nodup :=
  (nodup_visitOrder order q changed).filter _

/-! ## the fixpoint -/

/-- after the propagation, every supported belief among `changed` and its descendants has the
confidence its equation gives at the final confidences of its live premises -/
def AtFixpoint (q : BeliefQuad M G) (nowMs : Nat) (order : BeliefId → HashOrder BeliefId)
    (changed : BeliefId) : Prop :=
  ∀ d, d = changed ∨ d ∈ CausalGraph.descendantsOf q.causal changed →
    (∃ ps, CausalGraph.Supports q.causal ps d) →
      ∃ n, (q.propagateSystem1 (fun _ => nowMs) order changed).get d = some n ∧
        n.fastConfidence =
          (q.propagateSystem1 (fun _ => nowMs) order changed).conclusionConfidence nowMs d

/-- `x` solves the equations of the beliefs a propagation recomputes, and agrees with the
confidences before it elsewhere -/
def Solution (q : BeliefQuad M G) (nowMs : Nat) (order : BeliefId → HashOrder BeliefId)
    (changed : BeliefId) (x : BeliefId → ℚ) : Prop :=
  Solves (q.rule nowMs) (q.swept order changed) q.fast x

/-- wherever `d` is recomputed, its equation gives the solution's value although the premises
recomputed after it (and `d` itself) still have the confidences from before the propagation -/
def StaleReadsHarmless (q : BeliefQuad M G) (nowMs : Nat)
    (order : BeliefId → HashOrder BeliefId) (changed : BeliefId) (x : BeliefId → ℚ) : Prop :=
  ∀ done d rest, q.swept order changed = done ++ d :: rest →
    q.rule nowMs d (partway q.fast x done) = x d

theorem atFixpoint_iff {q : BeliefQuad M G} (h : q.GraphsSynced) (nowMs : Nat)
    (order : BeliefId → HashOrder BeliefId) (changed : BeliefId) :
    q.AtFixpoint nowMs order changed ↔ ∀ d ∈ q.swept order changed,
      sweep (q.rule nowMs) (q.swept order changed) q.fast d =
        q.rule nowMs d (sweep (q.rule nowMs) (q.swept order changed) q.fast) := by
  have ho := propagate_only (fun _ => nowMs) order q changed
  unfold AtFixpoint
  simp only [mem_swept h, and_imp]
  refine forall₃_congr fun d _ hsup => ?_
  rw [← fast_propagate h, ← rule_congr ho, ← conclusionConfidence_eq]
  have hlive : q.Live d := by
    obtain ⟨ps, a, ha⟩ := hsup
    exact (h.causal.live_of_mem ha).2
  obtain ⟨n, hn⟩ := live_iff.mp ((ho.live d).mpr hlive)
  have hfast : (q.propagateSystem1 (fun _ => nowMs) order changed).fast d = n.fastConfidence := by
    unfold fast
    rw [hn]
    rfl
  rw [hfast]
  constructor
  · intro hp
    obtain ⟨n', hn', he⟩ := hp
    rw [hn] at hn'
    rw [Option.some.inj hn']
    exact he
  · exact fun he => ⟨n, hn, he⟩

/-- **System 1 ends at the one solution of its equations exactly when no stale read matters** -/
theorem propagate_fixpoint_iff (q : BeliefQuad M G) (h : q.GraphsSynced) (hacyclic : q.Acyclic)
    (hjoined : q.PremisesJoined) (nowMs : Nat) (order : BeliefId → HashOrder BeliefId)
    (changed : BeliefId) :
    ∃ x, q.Solution nowMs order changed x ∧ (∀ y, q.Solution nowMs order changed y → y = x) ∧
      (q.AtFixpoint nowMs order changed ↔ q.StaleReadsHarmless nowMs order changed x) ∧
      (q.AtFixpoint nowMs order changed →
        (q.propagateSystem1 (fun _ => nowMs) order changed).fast = x) := by
  have hwf := reads_wellFounded h hacyclic hjoined (q.swept order changed)
  have hlocal := q.rule_local nowMs
  obtain ⟨x, hx⟩ := exists_solution hlocal (q.swept order changed) q.fast hwf
  have hends : q.AtFixpoint nowMs order changed ↔
      sweep (q.rule nowMs) (q.swept order changed) q.fast = x := by
    rw [atFixpoint_iff h]
    exact sweep_solves_iff_eq hlocal hwf hx
  refine ⟨x, hx, fun y hy => solution_unique hlocal hwf hy hx, ?_, fun hfix => ?_⟩
  · rw [hends]
    exact sweep_eq_iff (q.nodup_swept order changed) hx
  · rw [fast_propagate h]
    exact hends.mp hfix

/-- premises that are visited are visited before their conclusions -/
def VisitsSorted (q : BeliefQuad M G) (order : BeliefId → HashOrder BeliefId)
    (changed : BeliefId) : Prop :=
  ∀ done d rest, q.swept order changed = done ++ d :: rest → ∀ p ∈ d :: rest, ¬ q.Reads p d

theorem propagate_fixpoint_of_sorted {q : BeliefQuad M G} (h : q.GraphsSynced)
    (hacyclic : q.Acyclic) (hjoined : q.PremisesJoined) (nowMs : Nat)
    {order : BeliefId → HashOrder BeliefId} {changed : BeliefId}
    (hsorted : q.VisitsSorted order changed) : q.AtFixpoint nowMs order changed := by
  have hwf := reads_wellFounded h hacyclic hjoined (q.swept order changed)
  have hlocal := q.rule_local nowMs
  obtain ⟨x, hx⟩ := exists_solution hlocal (q.swept order changed) q.fast hwf
  rw [atFixpoint_iff h, sweep_solves_iff_eq hlocal hwf hx]
  exact sweep_eq_of_sorted hlocal (q.nodup_swept order changed) hx hsorted

end

/-! ## a chain of three -/

section
attribute [local instance] Platform.ascii

def rated (key : String) (confidence : ℚ) : BeliefNode :=
  .new 0 key (.asserted key) (.userStatement 0) confidence

/-- `⟨1, 1⟩` supports `⟨2, 1⟩`, which supports `⟨3, 1⟩` -/
def chain : BeliefQuad SlotVec EdgeList :=
  run step new
    [.insert (rated "changed" (1 / 2)), .insert (rated "a" (1 / 10)), .insert (rated "b" (1 / 10)),
     .addCausalEdge ⟨1, 1⟩ ⟨2, 1⟩ (.inferredFrom [⟨1, 1⟩]),
     .addCausalEdge ⟨2, 1⟩ ⟨3, 1⟩ (.inferredFrom [⟨2, 1⟩])]

theorem chain_synced : chain.GraphsSynced :=
  (wellFormed_run wellFormed_new _).synced.toGraphsSynced

theorem chain_edges : chain.causal.allEdges =
    [(⟨1, 1⟩, ⟨2, 1⟩, .inferredFrom [⟨1, 1⟩]), (⟨2, 1⟩, ⟨3, 1⟩, .inferredFrom [⟨2, 1⟩])] := by
  decide +kernel

theorem chain_joined {a b : BeliefId} (h : chain.causal.Joined a b) : a.idx < b.idx := by
  obtain ⟨w, hw⟩ := h
  rw [chain_edges] at hw
  rcases List.mem_cons.mp hw with e | hw
  · rw [(Prod.mk.inj e).1, (Prod.mk.inj (Prod.mk.inj e).2).1]
    decide
  · have e := List.mem_singleton.mp hw
    rw [(Prod.mk.inj e).1, (Prod.mk.inj (Prod.mk.inj e).2).1]
    decide

theorem chain_acyclic : chain.Acyclic := by
  intro d hd
  have hlt : ∀ e, Relation.TransGen chain.causal.Joined d e → d.idx < e.idx := by
    intro e he
    induction he with
    | single h => exact chain_joined h
    | tail _ h ih => exact Nat.lt_trans ih (chain_joined h)
  exact Nat.lt_irrefl _ (hlt d hd)

theorem chain_premisesJoined : chain.PremisesJoined := by
  rintro ps d ⟨a, ha⟩ p hp
  refine ⟨.inferredFrom ps, ?_⟩
  rw [chain_edges] at ha ⊢
  simp only [List.mem_cons, Prod.mk.injEq, CausalEdge.inferredFrom.injEq, List.not_mem_nil,
    or_false] at ha
  rcases ha with ⟨rfl, rfl, rfl⟩ | ⟨rfl, rfl, rfl⟩
  · rw [List.mem_singleton.mp hp]
    exact List.mem_cons_self
  · rw [List.mem_singleton.mp hp]
    exact List.mem_cons_of_mem _ List.mem_cons_self

theorem propagate_fixpoint_chain : ∃ x, chain.Solution 0 (fun _ => .id) ⟨1, 1⟩ x ∧
    (∀ y, chain.Solution 0 (fun _ => .id) ⟨1, 1⟩ y → y = x) ∧
    (chain.AtFixpoint 0 (fun _ => .id) ⟨1, 1⟩ ↔
      chain.StaleReadsHarmless 0 (fun _ => .id) ⟨1, 1⟩ x) ∧
    (chain.AtFixpoint 0 (fun _ => .id) ⟨1, 1⟩ →
      (chain.propagateSystem1 (fun _ => 0) (fun _ => .id) ⟨1, 1⟩).fast = x) :=
  propagate_fixpoint_iff chain chain_synced chain_acyclic chain_premisesJoined 0 _ _

/-- enumerated backwards, `⟨3, 1⟩` is recomputed from the old confidence of `⟨2, 1⟩` -/
theorem chain_backwards : chain.Acyclic ∧ chain.PremisesJoined ∧
    ¬ chain.AtFixpoint 0 (fun _ => .backwards) ⟨1, 1⟩ ∧
    (chain.propagateSystem1 (fun _ => 0) (fun _ => .backwards) ⟨1, 1⟩).fast ⟨3, 1⟩ = 1 / 10 ∧
    (chain.propagateSystem1 (fun _ => 0) (fun _ => .id) ⟨1, 1⟩).fast ⟨3, 1⟩ = 1 / 2 := by
  refine ⟨chain_acyclic, chain_premisesJoined, fun h => ?_, by decide +kernel,
    by decide +kernel⟩
  obtain ⟨n, hn, he⟩ := h ⟨3, 1⟩ (Or.inr (by decide +kernel))
    ⟨[⟨2, 1⟩], ⟨2, 1⟩, by rw [chain_edges]; exact List.mem_cons_of_mem _ List.mem_cons_self⟩
  have hfast : (chain.propagateSystem1 (fun _ => 0) (fun _ => .backwards) ⟨1, 1⟩).fast ⟨3, 1⟩ =
      n.fastConfidence := by
    unfold fast
    rw [hn]
    rfl
  rw [← hfast] at he
  revert he
  decide +kernel

end
end BeliefQuad
end Epica
