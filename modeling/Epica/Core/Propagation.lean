import Epica.Core.Bounds
import Epica.Core.Runs

/-!
# What a propagation visits

`Descends now order ds s s'` is the recursion of System 1 without a bound on its depth: it visits
the members of `ds` one after the other, from `s` to `s'`.

* `descends_inner`             the bounded recursion is that one, so that one ends;
* `propagate_visits_once`      it visits a belief and its descendants once each, and writes nothing
                               but the fast confidences, in `[0, 1]`, of supported ones;
* `propagate_reaches_iff`      it recomputes every dependent of a belief exactly when the edges
                               lead there: premises are listed on one edge, and edges are followed.
-/

set_option linter.unusedSectionVars false

namespace Epica
open Lib

namespace BeliefQuad
section
variable {M : Type → Type} {G : Type → Type → Type} [SlotMap M] [StableDiGraph G] [Platform]

inductive Descends (now : BeliefId → Nat) (order : BeliefId → HashOrder BeliefId) :
    List BeliefId → List BeliefId × BeliefQuad M G → List BeliefId × BeliefQuad M G → Prop
  | done (s : List BeliefId × BeliefQuad M G) : Descends now order [] s s
  | seen {d : BeliefId} {ds visited : List BeliefId} {q : BeliefQuad M G}
      {s : List BeliefId × BeliefQuad M G} (hd : d ∈ visited)
      (rest : Descends now order ds (visited, q) s) :
      Descends now order (d :: ds) (visited, q) s
  | visit {d : BeliefId} {ds visited : List BeliefId} {q : BeliefQuad M G}
      {s s' : List BeliefId × BeliefQuad M G} (hd : d ∉ visited)
      (below : Descends now order ((q.recompute (now d) d).nextVisits order d)
        (visited ++ [d], q.recompute (now d) d) s)
      (rest : Descends now order ds s s') :
      Descends now order (d :: ds) (visited, q) s'

variable {now : BeliefId → Nat} {order : BeliefId → HashOrder BeliefId}

/-! ## the recursion ends -/

theorem Descends.append {ds ds' : List BeliefId} {s s' s'' : List BeliefId × BeliefQuad M G}
    (h : Descends now order ds s s') (h' : Descends now order ds' s' s'') :
    Descends now order (ds ++ ds') s s'' := by
  induction h with
  | done s => exact h'
  | seen hd _ ih => exact .seen hd (ih h')
  | visit hd below _ _ ih => exact .visit hd below (ih h')

/-- what is left behind is determined -/
theorem Descends.unique {ds : List BeliefId} {s t t' : List BeliefId × BeliefQuad M G}
    (h : Descends now order ds s t) (h' : Descends now order ds s t') : t = t' := by
  induction h generalizing t' with
  | done s =>
    cases h'
    rfl
  | seen hd _ ih =>
    cases h' with
    | seen _ rest => exact ih rest
    | visit hd' _ _ => exact absurd hd hd'
  | visit hd _ _ ihbelow ihrest =>
    cases h' with
    | seen hd' _ => exact absurd hd' hd
    | visit _ below rest =>
      obtain rfl := ihbelow below
      exact ihrest rest

/-- **with enough depth the bounded recursion is the unbounded one** -/
theorem descends_inner (now : BeliefId → Nat) {U : List BeliefId} {next : BeliefId → List BeliefId}
    (hU : ∀ d ∈ U, ∀ e ∈ next d, e ∈ U) (n : Nat) (d : BeliefId) (vis : List BeliefId)
    (q : BeliefQuad M G) (hq : q.nextVisits order = next) (hd : d ∈ U)
    (hn : unvisited U vis < n) :
    Descends now order [d] (vis, q) (propagateInner now order n d (vis, q)) := by
  induction n generalizing d vis q with
  | zero => exact absurd hn (Nat.not_lt_zero _)
  | succ n ih =>
    by_cases hv : d ∈ vis
    · rw [show propagateInner now order (n + 1) d (vis, q) = (vis, q) from if_pos hv]
      exact .seen hv (.done _)
    · have hnext : (q.recompute (now d) d).nextVisits order = next :=
        (nextVisits_recomputeAll q now order [d]).trans hq
      have hlt : unvisited U (vis ++ [d]) < n := by
        have := unvisited_see hd hv
        omega
      -- the members of `ds` one after the other, each with the depth that is left
      have key : ∀ (ds vis' : List BeliefId) (q' : BeliefQuad M G), (∀ e ∈ ds, e ∈ U) →
          q'.nextVisits order = next → unvisited U vis' < n →
          Descends now order ds (vis', q')
            (ds.foldl (fun s e => propagateInner now order n e s) (vis', q')) := by
        intro ds
        induction ds with
        | nil => exact fun vis' q' _ _ _ => .done _
        | cons e ds ihds =>
          intro vis' q' hds hq' hvis'
          have hhead := ih e vis' q' hq' (hds e List.mem_cons_self) hvis'
          obtain ⟨new, -, he⟩ := propagateInner_eq now order n e vis' q'
          rw [List.foldl_cons]
          rw [he] at hhead ⊢
          refine hhead.append (ihds _ _ (fun x hx => hds x (List.mem_cons_of_mem _ hx)) ?_ ?_)
          · exact (nextVisits_recomputeAll q' now order new).trans hq'
          · exact Nat.lt_of_le_of_lt (unvisited_mono U (List.subset_append_left vis' new)) hvis'
      have hbelow := key ((q.recompute (now d) d).nextVisits order d) (vis ++ [d])
        (q.recompute (now d) d) (fun e he => hU d hd e (hnext ▸ he)) hnext hlt
      rw [show propagateInner now order (n + 1) d (vis, q) = _ from if_neg hv]
      exact .visit hv hbelow (.done _)

/-- a propagation is a run of the recursion -/
theorem descends_propagate (now : BeliefId → Nat) (order : BeliefId → HashOrder BeliefId)
    {q : BeliefQuad M G} (h : q.GraphsSynced) (changed : BeliefId) :
    Descends now order [changed] ([], q)
      (q.visitOrder order changed, q.propagateSystem1 now order changed) := by
  have hrun := descends_inner now (nextVisits_visitable order h changed) (q.len + 2) changed [] q
    rfl List.mem_cons_self (q.unvisited_visitable changed)
  obtain ⟨new, hvisit, heq⟩ := propagateInner_eq now order (q.len + 2) changed [] q
  have hpair : propagateInner now order (q.len + 2) changed ([], q) =
      (q.visitOrder order changed, q.propagateSystem1 now order changed) := by
    refine Prod.ext ?_ rfl
    rw [heq]
    exact hvisit.symm
  rw [hpair] at hrun
  exact hrun

/-! ## what is written -/

/-- what recomputing `ids` can do to the node of `d` -/
theorem get_recomputeAll (now : BeliefId → Nat) (q : BeliefQuad M G) (ids : List BeliefId)
    (d : BeliefId) : (q.recomputeAll now ids).get d = q.get d ∨
      (d ∈ ids ∧ CausalGraph.inferredFromPremises q.causal d ≠ [] ∧ ∃ x, InUnit x ∧
        (q.recomputeAll now ids).get d =
          (q.get d).map fun n => { n with fastConfidence := x }) := by
  induction ids generalizing q with
  | nil => exact Or.inl rfl
  | cons id ids ih =>
    have hstep : (q.recompute (now id) id).get d = q.get d ∨
        (d = id ∧ CausalGraph.inferredFromPremises q.causal d ≠ [] ∧ ∃ x, InUnit x ∧
          (q.recompute (now id) id).get d =
            (q.get d).map fun n => { n with fastConfidence := x }) := by
      unfold recompute
      split
      · exact Or.inl rfl
      · rename_i hs
        rw [get_modify]
        split
        · rename_i e
          subst e
          exact Or.inr ⟨rfl, fun hnil => hs (by rw [hnil]; rfl), _, inUnit_clamp _, rfl⟩
        · exact Or.inl rfl
    have hcausal : (q.recompute (now id) id).causal = q.causal :=
      (recompute_only q (now id) id).causal
    show ((q.recompute (now id) id).recomputeAll now ids).get d = q.get d ∨ _
    rcases ih (q.recompute (now id) id) with h | ⟨hd, hs, x, hx, h⟩
    · rcases hstep with h' | ⟨e, hs, x, hx, h'⟩
      · exact Or.inl (h.trans h')
      · exact Or.inr ⟨by rw [e]; exact List.mem_cons_self, hs, x, hx, h.trans h'⟩
    · rw [hcausal] at hs
      refine Or.inr ⟨List.mem_cons_of_mem _ hd, hs, x, hx, h.trans ?_⟩
      rcases hstep with h' | ⟨-, -, y, -, h'⟩
      · rw [h']
      · rw [h', Option.map_map]
        rfl

/-- the belief a propagation starts at is visited first, and once -/
theorem get_propagate_self (q : BeliefQuad M G) (now : BeliefId → Nat)
    (order : BeliefId → HashOrder BeliefId) (id : BeliefId) :
    (q.propagateSystem1 now order id).get id = (q.recompute (now id) id).get id := by
  have hvisits : q.visitOrder order id =
      visitAll (q.nextVisits order) (q.len + 1) (q.nextVisits order id) ([] ++ [id]) :=
    visit_of_not_mem _ _ List.not_mem_nil
  obtain ⟨rest, hrest⟩ := visitAll_extends (q.nextVisits order) (q.len + 1)
    (q.nextVisits order id) ([] ++ [id])
  rw [← hvisits] at hrest
  have hnodup := nodup_visitOrder order q id
  rw [← hrest] at hnodup
  rw [propagateSystem1_eq, ← hrest]
  rcases get_recomputeAll now (q.recompute (now id) id) rest id with h | ⟨hin, -⟩
  · exact h
  · exact absurd hin (List.nodup_cons.mp hnodup).1

end

/-- **a propagation ends, visits once, and touches nothing else**: the recursion has a run; it
recomputes the belief and its causal descendants, each once; what is left is the quad with other
fast confidences, all of them in `[0, 1]` and of visited beliefs that an `InferredFrom` edge leads
to -/
theorem propagate_visits_once {M : Type → Type} {G : Type → Type → Type} [SlotMap M]
    [StableDiGraph G] [Platform] (q : BeliefQuad M G) (h : q.GraphsSynced)
    (now : BeliefId → Nat) (order : BeliefId → HashOrder BeliefId) (changed : BeliefId) :
    let q' := q.propagateSystem1 now order changed
    ∃ visited : List BeliefId, Descends now order [changed] ([], q) (visited, q') ∧
      q' = q.recomputeAll now visited ∧ visited.Nodup ∧
      (∀ d, d ∈ visited ↔ d = changed ∨ d ∈ CausalGraph.descendantsOf q.causal changed) ∧
      OnlyConfidences q q' ∧
      ∀ d, q'.get d ≠ q.get d → d ∈ visited ∧ (∃ ps, CausalGraph.Supports q.causal ps d) ∧
        ∀ n, q'.get d = some n → InUnit n.fastConfidence := by
  refine ⟨q.visitOrder order changed, descends_propagate now order h changed,
    propagateSystem1_eq now order q changed, nodup_visitOrder order q changed,
    mem_visitOrder order h changed, propagate_only now order q changed, fun d hd => ?_⟩
  rw [propagateSystem1_eq] at hd ⊢
  rcases get_recomputeAll now q (q.visitOrder order changed) d with e | ⟨hv, hs, x, hx, e⟩
  · exact absurd e hd
  · obtain ⟨ps, hps⟩ := List.exists_mem_of_ne_nil _ hs
    refine ⟨hv, ⟨ps, (CausalGraph.mem_inferredFromPremises h.causal d ps).mp hps⟩, ?_⟩
    intro n hn
    rw [e] at hn
    obtain ⟨m, -, rfl⟩ := Option.map_eq_some_iff.mp hn
    exact hx

section
attribute [local instance] Platform.ascii

/-- two beliefs inferred from each other, one of them twice and also from itself -/
def cyclic : BeliefQuad SlotVec EdgeList :=
  run step new
    [.insert (.new 0 "a" (.asserted "a") (.userStatement 0) (4 / 5)),
     .insert (.new 0 "b" (.asserted "b") (.userStatement 0) (7 / 10)),
     .addCausalEdge ⟨1, 1⟩ ⟨2, 1⟩ (.inferredFrom [⟨1, 1⟩]),
     .addCausalEdge ⟨1, 1⟩ ⟨2, 1⟩ (.inferredFrom [⟨1, 1⟩]),
     .addCausalEdge ⟨2, 1⟩ ⟨2, 1⟩ (.inferredFrom [⟨2, 1⟩]),
     .addCausalEdge ⟨2, 1⟩ ⟨1, 1⟩ (.inferredFrom [⟨2, 1⟩])]

/-- each is visited once -/
theorem propagate_visits_once_cyclic : ∃ visited : List BeliefId,
    Descends (fun _ => 0) (fun _ => .id) [⟨1, 1⟩] ([], cyclic)
      (visited, cyclic.propagateSystem1 (fun _ => 0) (fun _ => .id) ⟨1, 1⟩) ∧
    visited.Nodup ∧ ⟨1, 1⟩ ∈ visited ∧ ⟨2, 1⟩ ∈ visited := by
  obtain ⟨visited, hrun, -, hnd, hmem, -, -⟩ := propagate_visits_once cyclic
    (run_in_step _).1.toGraphsSynced (fun _ => 0) (fun _ => .id) ⟨1, 1⟩
  refine ⟨visited, hrun, hnd, (hmem _).mpr (Or.inl rfl), (hmem _).mpr (Or.inr ?_)⟩
  decide +kernel

end

/-! ## who is reached -/

section
variable {M : Type → Type} {G : Type → Type → Type} [SlotMap M] [StableDiGraph G]

/-- `p` is listed as a premise of `d` -/
def Feeds (q : BeliefQuad M G) (p d : BeliefId) : Prop :=
  ∃ ps, CausalGraph.Supports q.causal ps d ∧ p ∈ ps

/-- `e` depends on `p`, directly or through others -/
def Dependent (q : BeliefQuad M G) (p e : BeliefId) : Prop :=
  ∃ d, d ≠ p ∧ q.Feeds p d ∧ Relation.ReflTransGen q.Feeds d e

/-- a path of causal edges leads from `p` to `e` -/
def Downstream (q : BeliefQuad M G) (p e : BeliefId) : Prop :=
  Relation.ReflTransGen q.causal.Joined p e

variable {q : BeliefQuad M G}

theorem Dependent.tail {p x d : BeliefId} (hx : q.Dependent p x) (hf : q.Feeds x d) :
    q.Dependent p d := by
  obtain ⟨e, hne, hstart, hchain⟩ := hx
  exact ⟨e, hne, hstart, hchain.tail hf⟩

theorem Feeds.live (h : q.GraphsSynced) {p d : BeliefId} (hf : q.Feeds p d) : q.Live d := by
  obtain ⟨ps, ⟨a, ha⟩, -⟩ := hf
  exact (h.causal.live_of_mem ha).2

/-- a belief that something is downstream of is live -/
theorem Downstream.live (h : q.GraphsSynced) {p e : BeliefId} (hd : q.Downstream p e)
    (hne : e ≠ p) : q.Live p := by
  rcases Relation.ReflTransGen.cases_head hd with he | ⟨c, ⟨w, hw⟩, -⟩
  · exact absurd he.symm hne
  · exact (h.causal.live_of_mem hw).1

/-- a visit reaches what is downstream -/
theorem mem_visitOrder_iff [Platform] (order : BeliefId → HashOrder BeliefId)
    (h : q.GraphsSynced) (p e : BeliefId) : e ∈ q.visitOrder order p ↔ q.Downstream p e := by
  rw [mem_visitOrder order h]
  constructor
  · intro he
    rcases he with rfl | he
    · exact .refl
    · exact ((h.causal.mem_reachableFrom p e).mp he).2.2
  · intro hd
    rcases eq_or_ne e p with he | hne
    · exact Or.inl he
    · exact Or.inr ((h.causal.mem_reachableFrom p e).mpr ⟨hne, hd.live h hne, hd⟩)

/-- when every listed premise leads to its conclusion, dependents are downstream -/
theorem Dependent.downstream (h : q.GraphsSynced)
    (hlead : ∀ p d, q.Live p → q.Feeds p d → q.Downstream p d) {p e : BeliefId} (hp : q.Live p)
    (hd : q.Dependent p e) : q.Downstream p e := by
  obtain ⟨d, -, hf, hchain⟩ := hd
  have hstart := hlead p d hp hf
  have hlive := hf.live h
  clear hf
  induction hchain with
  | refl => exact hstart
  | tail hpre hstep ih =>
    refine ih.trans (hlead _ _ ?_ hstep)
    rcases Relation.ReflTransGen.cases_tail hpre with rfl | ⟨c, -, hc⟩
    · exact hlive
    · exact hc.live h

end

/-- **when a propagation reaches every dependent**: from a belief `p`, exactly when no listing as a
premise, of `p` or of a dependent that is reached, leads out of what is downstream of `p`; from
every belief, exactly when causal edges lead from each listed premise to its conclusion -/
theorem propagate_reaches_iff {M : Type → Type} {G : Type → Type → Type} [SlotMap M]
    [StableDiGraph G] [Platform] (q : BeliefQuad M G) (h : q.GraphsSynced)
    (order : BeliefId → HashOrder BeliefId) :
    (∀ p, (∀ e, q.Dependent p e → e ∈ q.visitOrder order p) ↔
      ∀ x d, x = p ∨ (q.Dependent p x ∧ q.Downstream p x) → q.Feeds x d → q.Downstream p d) ∧
    ((∀ p, q.Live p → ∀ e, q.Dependent p e → e ∈ q.visitOrder order p) ↔
      ∀ p d, q.Live p → q.Feeds p d → q.Downstream p d) := by
  simp only [mem_visitOrder_iff order h]
  have hdirect : ∀ p d, q.Feeds p d → (∀ e, q.Dependent p e → q.Downstream p e) →
      q.Downstream p d := by
    intro p d hf hall
    rcases eq_or_ne d p with rfl | hne
    · exact .refl
    · exact hall d ⟨d, hne, hf, .refl⟩
  refine ⟨fun p => ⟨fun hall x d hx hf => ?_, fun hclosed e he => ?_⟩,
    fun hall p d hp hf => hdirect p d hf (hall p hp), fun hlead p hp e hd => ?_⟩
  · rcases hx with rfl | ⟨hx, -⟩
    · exact hdirect x d hf hall
    · exact hall d (hx.tail hf)
  · obtain ⟨d, hne, hf, hchain⟩ := he
    induction hchain with
    | refl => exact hclosed p d (Or.inl rfl) hf
    | tail hpre hstep ih => exact hclosed _ _ (Or.inr ⟨⟨d, hne, hf, hpre⟩, ih⟩) hstep
  · exact hd.downstream h hlead hp

section
attribute [local instance] Platform.ascii

/-- a conclusion of two premises, with the edge from the first of them -/
def joint : BeliefQuad SlotVec EdgeList :=
  run step new
    [.insert (.new 0 "p1" (.asserted "a") (.userStatement 0) (4 / 5)),
     .insert (.new 0 "p2" (.asserted "b") (.userStatement 0) (7 / 10)),
     .insert (.new 0 "conclusion" (.asserted "c") (.userStatement 0) 0),
     .addCausalEdge ⟨1, 1⟩ ⟨3, 1⟩ (.inferredFrom [⟨1, 1⟩, ⟨2, 1⟩])]

theorem joint_synced : joint.GraphsSynced := (run_in_step _).1.toGraphsSynced

theorem joint_edges :
    joint.causal.allEdges = [(⟨1, 1⟩, ⟨3, 1⟩, .inferredFrom [⟨1, 1⟩, ⟨2, 1⟩])] := by
  decide +kernel

/-- the conclusion depends on the first premise, and from there everything is reached -/
theorem propagate_reaches_joint : joint.Dependent ⟨1, 1⟩ ⟨3, 1⟩ ∧
    ∀ e, joint.Dependent ⟨1, 1⟩ e → e ∈ joint.visitOrder (fun _ => .id) ⟨1, 1⟩ := by
  constructor
  · refine ⟨⟨3, 1⟩, by decide, ⟨[⟨1, 1⟩, ⟨2, 1⟩], ⟨⟨1, 1⟩, ?_⟩, by decide⟩, .refl⟩
    rw [joint_edges]
    exact List.mem_singleton.mpr rfl
  refine ((propagate_reaches_iff joint joint_synced fun _ => .id).1 ⟨1, 1⟩).mpr ?_
  intro x d _ hf
  obtain ⟨ps, ⟨a, ha⟩, -⟩ := hf
  rw [joint_edges, List.mem_singleton] at ha
  obtain rfl : d = ⟨3, 1⟩ := (Prod.mk.inj (Prod.mk.inj ha).2).1
  refine .single ⟨.inferredFrom [⟨1, 1⟩, ⟨2, 1⟩], ?_⟩
  rw [joint_edges]
  exact List.mem_singleton.mpr rfl

/-- the conclusion depends on the second premise, but a propagation from there does not visit it:
it keeps the confidence `0`, where its equation says `47 / 50` -/
theorem joint_not_reached : joint.Dependent ⟨2, 1⟩ ⟨3, 1⟩ ∧
    (∀ order, (⟨3, 1⟩ : BeliefId) ∉ joint.visitOrder order ⟨2, 1⟩) ∧
    ((joint.propagateSystem1 (fun _ => 0) (fun _ => .id) ⟨2, 1⟩).get ⟨3, 1⟩).map
      BeliefNode.fastConfidence = some 0 ∧
    joint.conclusionConfidence 0 ⟨3, 1⟩ = 47 / 50 := by
  refine ⟨⟨⟨3, 1⟩, by decide, ⟨[⟨1, 1⟩, ⟨2, 1⟩], ⟨⟨1, 1⟩, ?_⟩, by decide⟩, .refl⟩, ?_,
    by decide +kernel, by decide +kernel⟩
  · rw [joint_edges]
    exact List.mem_singleton.mpr rfl
  · intro order hv
    rcases Relation.ReflTransGen.cases_head ((mem_visitOrder_iff order joint_synced _ _).mp hv) with
      he | ⟨c, ⟨w, hw⟩, -⟩
    · revert he
      decide
    · rw [joint_edges, List.mem_singleton] at hw
      have hsource : (⟨2, 1⟩ : BeliefId) = ⟨1, 1⟩ := (Prod.mk.inj hw).1
      revert hsource
      decide

end
end BeliefQuad
end Epica
