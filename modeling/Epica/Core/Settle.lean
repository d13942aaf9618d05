import Epica.Core.Fixpoint
import Mathlib.Algebra.Order.BigOperators.GroupWithZero.List
import Mathlib.Algebra.Order.Field.Rat
import Mathlib.Tactic.Linarith

/-!
# System 1, again and again

One propagation may stop short of the fixpoint of its equations (`Epica.Core.Fixpoint`): the hash
sets decide the order of the visits, and a conclusion that is visited too early reads a stale
premise.  What several propagations do:

* `propagations_mono`    on two quads that differ in fast confidences only, the quad with the
                         higher confidences keeps the higher ones, at every belief;
* `propagations_settle`  in a causal graph without cycles, as many propagations as there are
                         supported beliefs downstream end at the fixpoint, whatever the hash sets
                         do: two runs end with the same beliefs, and no further propagation
                         changes one.
-/

set_option linter.unusedSectionVars false

namespace Epica
open Lib

/-! ## Noisy-OR, best evidence and decay are monotone -/

theorem clamp_mono {lo hi x y : ℚ} (hlohi : lo ≤ hi) (hxy : x ≤ y) :
    clamp x lo hi ≤ clamp y lo hi := by
  unfold clamp
  split_ifs <;> linarith

theorem clamp_unit (x : ℚ) : 0 ≤ clamp x 0 1 ∧ clamp x 0 1 ≤ 1 := by
  unfold clamp
  split_ifs <;> constructor <;> linarith

section
variable {α : Type} {x y : α → ℚ}

/-- what is left of the doubt after the members of `l` have spoken -/
theorem doubt_nonneg (x : α → ℚ) (l : List α) :
    0 ≤ ((l.map x).map fun c => 1 - clamp c 0 1).prod := by
  refine List.prod_nonneg fun d hd => ?_
  obtain ⟨c, -, hc⟩ := List.mem_map.mp hd
  have := (clamp_unit c).2
  linarith

theorem doubt_anti (hxy : ∀ p, x p ≤ y p) (l : List α) :
    ((l.map y).map fun c => 1 - clamp c 0 1).prod ≤
      ((l.map x).map fun c => 1 - clamp c 0 1).prod := by
  induction l with
  | nil => exact le_refl _
  | cons p l ih =>
    have hhead : 1 - clamp (y p) 0 1 ≤ 1 - clamp (x p) 0 1 := by
      have := clamp_mono zero_le_one (hxy p)
      linarith
    have hnonneg : 0 ≤ 1 - clamp (x p) 0 1 := by
      have := (clamp_unit (x p)).2
      linarith
    simp only [List.map_cons, List.prod_cons]
    exact mul_le_mul hhead ih (doubt_nonneg y l) hnonneg

theorem combine_mono (hxy : ∀ p, x p ≤ y p) (l : List α) :
    combine (l.map x) ≤ combine (l.map y) := by
  unfold combine
  cases l with
  | nil => exact le_refl _
  | cons p l =>
    rw [if_neg (by simp), if_neg (by simp)]
    exact sub_le_sub_left (doubt_anti hxy (p :: l)) 1

theorem best_mono (hxy : ∀ p, x p ≤ y p) (l : List α) {a b : ℚ} (hab : a ≤ b) :
    (l.map x).foldl max a ≤ (l.map y).foldl max b := by
  induction l generalizing a b with
  | nil => exact hab
  | cons p l ih => exact ih (max_le_max hab (hxy p))

end

namespace BeliefQuad
section
variable {M : Type → Type} {G : Type → Type → Type} [SlotMap M] [StableDiGraph G] [Platform]

theorem decayFactor_nonneg (q : BeliefQuad M G) (id : BeliefId) (nowMs : Nat) :
    0 ≤ q.decayFactor id nowMs := by
  unfold decayFactor
  cases q.get id with
  | none => exact zero_le_one
  | some n =>
    show 0 ≤ TemporalGraph.computeDecay n.createdAtMs n.ttlMs nowMs
    unfold TemporalGraph.computeDecay
    split
    · exact zero_le_one
    · exact le_refl _
    · exact (clamp_unit _).1

theorem rule_mono (q : BeliefQuad M G) (nowMs : Nat) (d : BeliefId) {x y : BeliefId → ℚ}
    (hxy : ∀ p, x p ≤ y p) : q.rule nowMs d x ≤ q.rule nowMs d y := by
  unfold rule
  refine clamp_mono zero_le_one (mul_le_mul_of_nonneg_right ?_ (q.decayFactor_nonneg d nowMs))
  exact best_mono (fun ps => combine_mono hxy _) _ (le_refl _)

/-! ## one propagation after the other -/

/-- what decides one propagation: where it starts, the clock at each visit, and the order in which
the hash sets are enumerated -/
structure Propagation where
  changed : BeliefId
  now : BeliefId → Nat
  order : BeliefId → HashOrder BeliefId

def propagations (q : BeliefQuad M G) (ps : List Propagation) : BeliefQuad M G :=
  ps.foldl (fun q p => q.propagateSystem1 p.now p.order p.changed) q

theorem propagations_only (q : BeliefQuad M G) (ps : List Propagation) :
    OnlyConfidences q (q.propagations ps) := by
  induction ps generalizing q with
  | nil => exact OnlyConfidences.refl q
  | cons p ps ih => exact (propagate_only p.now p.order q p.changed).trans (ih _)

variable {q q' : BeliefQuad M G}

theorem OnlyConfidences.symm (h : OnlyConfidences q q') : OnlyConfidences q' q where
  nodes id := by
    obtain ⟨x, hx⟩ := h.nodes id
    refine ⟨q.fast id, ?_⟩
    unfold fast
    rw [hx]
    cases q.get id <;> rfl
  rest := by
    rw [h.rest]
    cases q
    rfl
  issued k := (h.issued k).symm

/-- the fast confidences are the whole difference -/
theorem OnlyConfidences.get_eq (h : OnlyConfidences q q') (hfast : q'.fast = q.fast) :
    q'.get = q.get := by
  funext id
  obtain ⟨x, hx⟩ := h.nodes id
  have hid := congrFun hfast id
  unfold fast at hid
  rw [hx] at hid ⊢
  cases hn : q.get id with
  | none => rfl
  | some n =>
    rw [hn] at hid
    have hx' : x = n.fastConfidence := hid
    rw [hx']
    rfl

/-- quads that differ in fast confidences only are visited in the same order -/
theorem visitOrder_congr (h : q.GraphsSynced) (ho : OnlyConfidences q q')
    (order : BeliefId → HashOrder BeliefId) (changed : BeliefId) :
    q'.visitOrder order changed = q.visitOrder order changed := by
  have hnext : q'.nextVisits order = q.nextVisits order := by
    funext d
    unfold nextVisits
    rw [ho.causal]
  have hdeep := fun m => visit_fuel (q.nextVisits order) (nextVisits_visitable order h changed)
    (q.len + 2) changed [] List.mem_cons_self (q.unvisited_visitable changed) m
  have hdeep' := fun m => visit_fuel (q'.nextVisits order)
    (nextVisits_visitable order (h.of_only ho) changed)
    (q'.len + 2) changed [] List.mem_cons_self (q'.unvisited_visitable changed) m
  unfold visitOrder
  rw [← hdeep' (max q.len q'.len + 2) (by omega), ← hdeep (max q.len q'.len + 2) (by omega), hnext]

theorem swept_congr (h : q.GraphsSynced) (ho : OnlyConfidences q q')
    (order : BeliefId → HashOrder BeliefId) (changed : BeliefId) :
    q'.swept order changed = q.swept order changed := by
  unfold swept
  rw [visitOrder_congr h ho, supported_congr ho]

/-- a propagation is a sweep, with the clock of each visit in its equation -/
theorem fast_propagate_clocks (h : q.GraphsSynced) (now : BeliefId → Nat)
    (order : BeliefId → HashOrder BeliefId) (changed : BeliefId) :
    (q.propagateSystem1 now order changed).fast =
      sweep (fun d => q.rule (now d) d) (q.swept order changed) q.fast := by
  rw [propagateSystem1_eq]
  unfold swept
  generalize q.visitOrder order changed = ids
  induction ids generalizing q with
  | nil => rfl
  | cons d ids ih =>
    have ho := recompute_only q (now d) d
    show ((q.recompute (now d) d).recomputeAll now ids).fast = _
    rw [ih (h.of_only ho), supported_congr ho, fast_recompute h]
    simp only [rule_congr ho]
    cases hs : q.Supported d with
    | false => rw [List.filter_cons_of_neg (by simp [hs]), if_neg Bool.false_ne_true]
    | true => rw [List.filter_cons_of_pos hs, sweep_cons, if_pos rfl]

theorem propagate_mono (h : q.GraphsSynced) (ho : OnlyConfidences q q')
    (hle : ∀ id, q.fast id ≤ q'.fast id) (now : BeliefId → Nat)
    (order : BeliefId → HashOrder BeliefId) (changed : BeliefId) (id : BeliefId) :
    (q.propagateSystem1 now order changed).fast id ≤
      (q'.propagateSystem1 now order changed).fast id := by
  rw [fast_propagate_clocks h, fast_propagate_clocks (h.of_only ho), swept_congr h ho]
  refine sweep_mono (fun d v w hvw => ?_) _ hle id
  rw [rule_congr ho]
  exact q.rule_mono (now d) d hvw

/-- **higher confidences stay higher through every run of propagations** -/
theorem propagations_mono (q q' : BeliefQuad M G) (h : q.GraphsSynced) (ho : OnlyConfidences q q')
    (hle : ∀ id, q.fast id ≤ q'.fast id) (ps : List Propagation) (id : BeliefId) :
    (q.propagations ps).fast id ≤ (q'.propagations ps).fast id := by
  induction ps generalizing q q' with
  | nil => exact hle id
  | cons p ps ih =>
    have hq := propagate_only p.now p.order q p.changed
    have hq' := propagate_only p.now p.order q' p.changed
    exact ih _ _ (h.of_only hq) (hq.symm.trans (ho.trans hq'))
      (propagate_mono h ho hle p.now p.order p.changed)

/-! ## until nothing changes -/

/-- System 1 run on `changed` once for each enumeration of the hash sets, with one clock reading -/
def propagationsAt (q : BeliefQuad M G) (nowMs : Nat) (changed : BeliefId)
    (orders : List (BeliefId → HashOrder BeliefId)) : BeliefQuad M G :=
  q.propagations (orders.map fun order => ⟨changed, fun _ => nowMs, order⟩)

theorem fast_propagationsAt (h : q.GraphsSynced) (nowMs : Nat) (changed : BeliefId)
    (orders : List (BeliefId → HashOrder BeliefId)) :
    (q.propagationsAt nowMs changed orders).fast =
      (orders.map fun order => q.swept order changed).foldl
        (fun v l => sweep (q.rule nowMs) l v) q.fast := by
  induction orders generalizing q with
  | nil => rfl
  | cons order orders ih =>
    have ho := propagate_only (fun _ => nowMs) order q changed
    show ((q.propagateSystem1 (fun _ => nowMs) order changed).propagationsAt nowMs changed
      orders).fast = _
    rw [ih (h.of_only ho), rule_congr ho, List.map_cons, List.foldl_cons, fast_propagate h]
    simp only [swept_congr h ho]

/-- the number of beliefs one propagation recomputes -/
def supportedDownstream (q : BeliefQuad M G) (changed : BeliefId) : Nat :=
  (q.swept (fun _ => .id) changed).length

theorem fast_propagationsAt_eq (h : q.GraphsSynced) (hacyclic : q.Acyclic)
    (hjoined : q.PremisesJoined) (nowMs : Nat) (changed : BeliefId) {x : BeliefId → ℚ}
    (hx : q.Solution nowMs (fun _ => .id) changed x)
    {orders : List (BeliefId → HashOrder BeliefId)}
    (hlen : q.supportedDownstream changed ≤ orders.length) :
    (q.propagationsAt nowMs changed orders).fast = x := by
  rw [fast_propagationsAt h]
  refine sweeps_solve (q.rule_local nowMs) (reads_wellFounded h hacyclic hjoined _) hx ?_
    (by rw [List.length_map]; exact hlen)
  intro l hl d
  obtain ⟨order, -, rfl⟩ := List.mem_map.mp hl
  rw [mem_swept h, mem_swept h]

/-- **repeated propagations end at the fixpoint, and all at the same one** -/
theorem propagations_settle (q : BeliefQuad M G) (h : q.GraphsSynced) (hacyclic : q.Acyclic)
    (hjoined : q.PremisesJoined) (nowMs : Nat) (changed : BeliefId)
    (orders : List (BeliefId → HashOrder BeliefId))
    (hlen : q.supportedDownstream changed ≤ orders.length) :
    (∀ d, d = changed ∨ d ∈ CausalGraph.descendantsOf q.causal changed →
      (∃ ps, CausalGraph.Supports q.causal ps d) →
        ∃ n, (q.propagationsAt nowMs changed orders).get d = some n ∧
          n.fastConfidence =
            (q.propagationsAt nowMs changed orders).conclusionConfidence nowMs d) ∧
    (∀ order, ((q.propagationsAt nowMs changed orders).propagateSystem1 (fun _ => nowMs) order
      changed).get = (q.propagationsAt nowMs changed orders).get) ∧
    ∀ orders', q.supportedDownstream changed ≤ orders'.length →
      (q.propagationsAt nowMs changed orders').get =
        (q.propagationsAt nowMs changed orders).get := by
  obtain ⟨x, hx⟩ := exists_solution (q.rule_local nowMs) (q.swept (fun _ => .id) changed) q.fast
    (reads_wellFounded h hacyclic hjoined _)
  have hfast : ∀ orders', q.supportedDownstream changed ≤ orders'.length →
      (q.propagationsAt nowMs changed orders').fast = x := fun orders' hlen' =>
    fast_propagationsAt_eq h hacyclic hjoined nowMs changed hx hlen'
  have honly := fun orders' : List (BeliefId → HashOrder BeliefId) => q.propagations_only
    (orders'.map fun order => (⟨changed, fun _ => nowMs, order⟩ : Propagation))
  refine ⟨fun d hd hsup => ?_, fun order => ?_, fun orders' hlen' => ?_⟩
  · have hlive : q.Live d := by
      obtain ⟨ps, a, ha⟩ := hsup
      exact (h.causal.live_of_mem ha).2
    obtain ⟨n, hn⟩ := live_iff.mp (((honly orders).live d).mpr hlive)
    refine ⟨n, hn, ?_⟩
    have hn' : (q.propagationsAt nowMs changed orders).fast d = n.fastConfidence := by
      unfold fast propagationsAt
      rw [hn]
      rfl
    rw [← hn', conclusionConfidence_eq]
    unfold propagationsAt at hfast ⊢
    rw [rule_congr (honly orders), hfast orders hlen]
    exact hx.equation d ((mem_swept h _ changed d).mpr ⟨hd, hsup⟩)
  · refine (propagate_only (fun _ => nowMs) order _ changed).get_eq ?_
    have hmore := hfast (orders ++ [order]) (by rw [List.length_append]; omega)
    unfold propagationsAt propagations at hmore hfast ⊢
    rw [List.map_append, List.foldl_append] at hmore
    rw [hfast orders hlen]
    exact hmore
  · refine ((honly orders).symm.trans (honly orders')).get_eq ?_
    exact (hfast orders' hlen').trans (hfast orders hlen).symm

end

/-! ## the chain of three -/

section
attribute [local instance] Platform.ascii

/-- `chain`, with `⟨1, 1⟩` at 9/10 -/
def surer : BeliefQuad SlotVec EdgeList :=
  chain.modify ⟨1, 1⟩ fun n => { n with fastConfidence := 9 / 10 }

theorem surer_ge (id : BeliefId) : chain.fast id ≤ surer.fast id := by
  have hfirst : chain.fast ⟨1, 1⟩ ≤ surer.fast ⟨1, 1⟩ := by decide +kernel
  by_cases e : id = ⟨1, 1⟩
  · rw [e]
    exact hfirst
  · unfold fast surer
    rw [get_modify, if_neg e]

theorem propagations_mono_chain :
    (chain.propagations [⟨⟨1, 1⟩, fun _ => 0, fun _ => .backwards⟩]).fast ⟨3, 1⟩ ≤
      (surer.propagations [⟨⟨1, 1⟩, fun _ => 0, fun _ => .backwards⟩]).fast ⟨3, 1⟩ :=
  propagations_mono chain surer chain_synced (modify_only chain ⟨1, 1⟩ fun _ => 9 / 10) surer_ge
    _ ⟨3, 1⟩

/-- one propagation in this order stops short (`chain_backwards`), two do not -/
theorem propagations_settle_chain :
    (chain.propagationsAt 0 ⟨1, 1⟩ [fun _ => .backwards, fun _ => .backwards]).get =
      (chain.propagationsAt 0 ⟨1, 1⟩ [fun _ => .id, fun _ => .id]).get := by
  have hlen : chain.supportedDownstream ⟨1, 1⟩ = 2 := by decide +kernel
  exact (propagations_settle chain chain_synced chain_acyclic chain_premisesJoined 0 ⟨1, 1⟩
    [fun _ => .id, fun _ => .id] (le_of_eq hlen)).2.2 [fun _ => .backwards, fun _ => .backwards]
    (le_of_eq hlen)

end
end BeliefQuad
end Epica
