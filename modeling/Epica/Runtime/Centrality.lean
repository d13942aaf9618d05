import Epica.Core.Runs
import Epica.Runtime.Retrieval
import Mathlib.Algebra.BigOperators.Field
import Mathlib.Algebra.BigOperators.Group.Finset.Sigma
import Mathlib.Algebra.Order.BigOperators.Group.List
import Mathlib.Tactic.FieldSimp
import Mathlib.Tactic.Ring

/-!
# PageRank, loop by loop

`centralityLoop` is the power iteration with its hash maps: `rank` and `next` are partial functions
on the nodes, and the indexing of `rank` and the `unwrap` on `next` fail with `none`.  `values` is
the order in which the index is enumerated.

* `spread_spec`, `iteration_spec`   one source, and one iteration, add what `rankShare` says;
* `sum_rankShare`                   what a node passes on sums to its damped rank;
* `rankAfter_mass`                  no iteration fails, and each keeps the mass;
* `centrality_mass`                 for the causal graph of a quad: so the centralities sum to `1`.
-/

set_option linter.unusedSectionVars false

namespace Epica
open Lib Lib.StableDiGraph

/-- a `HashMap` from nodes to ranks -/
abbrev RankMap := Nat → Option ℚ

namespace RankMap

def collect (values : List Nat) (x : ℚ) : RankMap := fun i => if i ∈ values then some x else none

/-- the loop over `values_mut` -/
def addAll (m : RankMap) (share : ℚ) : RankMap := fun i => (m i).map (· + share)

/-- `none` is the panic of the `unwrap` -/
def addAt (m : RankMap) (share : ℚ) (t : Nat) : Option RankMap :=
  (m t).map fun y => Function.update m t (some (y + share))

def value (m : RankMap) (i : Nat) : ℚ := (m i).getD 0

/-- the keys of `m` are the nodes -/
def Covers (m : RankMap) (values : List Nat) : Prop := ∀ i, (m i).isSome ↔ i ∈ values

end RankMap

namespace CausalGraph
variable {G : Type → Type → Type} [StableDiGraph G]

/-- the targets of the edges out of a node, an edge each -/
def targets (p : CausalGraph G) (src : Nat) : List Nat :=
  (edgesDirected p.graph src .outgoing).map EdgeRef.target

/-- the body of the loop over the sources; `none` is a panic -/
def spread (p : CausalGraph G) (n : Nat) (rank next : RankMap) (src : Nat) : Option RankMap :=
  match rank src with
  | none => none
  | some x =>
    let out := p.targets src
    if out.isEmpty then some (next.addAll (damping * x * (1 / n)))
    else out.foldlM (fun next t => next.addAt (damping * x / out.length) t) next

/-- the body of the loop over the iterations -/
def iteration (p : CausalGraph G) (values : List Nat) (rank : RankMap) : Option RankMap :=
  values.foldlM (p.spread values.length rank)
    (.collect values ((1 - damping) * (1 / values.length)))

/-- the ranks after `k` iterations -/
def rankAfter (p : CausalGraph G) (values : List Nat) : Nat → Option RankMap
  | 0 => some (.collect values (1 / values.length))
  | k + 1 => (p.rankAfter values k).bind (p.iteration values)

def centralityLoop (p : CausalGraph G) (values : List Nat) (id : BeliefId) : Option ℚ :=
  if values.length = 0 then some 0
  else (p.rankAfter values 20).map fun rank => ((p.indices.lookup id).bind rank).getD 0

/-! ## what a node passes on -/

theorem damping_bounds : 0 ≤ damping ∧ 0 ≤ 1 - damping := ⟨by decide +kernel, by decide +kernel⟩

theorem rankShare_eq (p : CausalGraph G) (n src : Nat) (x : ℚ) (i : Nat) :
    p.rankShare n src x i = if p.targets src = [] then damping * x * (1 / n)
      else damping * x / (p.targets src).length * (p.targets src).count i := rfl

theorem rankShare_nonneg (p : CausalGraph G) (n src : Nat) {x : ℚ} (hx : 0 ≤ x) (i : Nat) :
    0 ≤ p.rankShare n src x i := by
  have hdx : 0 ≤ damping * x := mul_nonneg damping_bounds.1 hx
  rw [rankShare_eq]
  split
  · exact mul_nonneg hdx (div_nonneg zero_le_one (Nat.cast_nonneg n))
  · exact mul_nonneg (div_nonneg hdx (Nat.cast_nonneg _)) (Nat.cast_nonneg _)

/-- **what a node passes on sums to its damped rank**, on both branches -/
theorem sum_rankShare (p : CausalGraph G) {values : List Nat} (hnd : values.Nodup)
    (hne : values ≠ []) {src : Nat} (hout : ∀ t ∈ p.targets src, t ∈ values) (x : ℚ) :
    ∑ i ∈ values.toFinset, p.rankShare values.length src x i = damping * x := by
  have hcard : values.toFinset.card = values.length := List.toFinset_card_of_nodup hnd
  have hn : (values.length : ℚ) ≠ 0 :=
    Nat.cast_ne_zero.mpr fun h => hne (List.length_eq_zero_iff.mp h)
  simp only [rankShare_eq]
  split
  · rw [Finset.sum_const, hcard, nsmul_eq_mul]
    field_simp
  · rename_i hsome
    have hlen : ((p.targets src).length : ℚ) ≠ 0 :=
      Nat.cast_ne_zero.mpr fun h => hsome (List.length_eq_zero_iff.mp h)
    have hcount : ∑ i ∈ values.toFinset, (p.targets src).count i = (p.targets src).length := by
      have hall : ∀ t ∈ (p.targets src : Multiset Nat), t ∈ values.toFinset :=
        fun t ht => List.mem_toFinset.mpr (hout t ht)
      have hmulti := Multiset.sum_count_eq_card hall
      simpa only [Multiset.coe_count, Multiset.coe_card] using hmulti
    rw [← Finset.mul_sum, ← Nat.cast_sum, hcount, div_mul_cancel₀ _ hlen]

/-! ## the loops -/

section
variable {p : CausalGraph G} {values : List Nat} {rank : RankMap}

theorem addAt_fold (share : ℚ) (out : List Nat) {next : RankMap} (hnext : next.Covers values)
    (hout : ∀ t ∈ out, t ∈ values) :
    ∃ next', out.foldlM (fun next t => next.addAt share t) next = some next' ∧
      next'.Covers values ∧ ∀ i, next'.value i = next.value i + share * out.count i := by
  induction out generalizing next with
  | nil => exact ⟨next, rfl, hnext, fun i => by simp⟩
  | cons t out ih =>
    obtain ⟨y, hy⟩ := Option.isSome_iff_exists.mp ((hnext t).mpr (hout t List.mem_cons_self))
    have hstep : next.addAt share t = some (Function.update next t (some (y + share))) := by
      unfold RankMap.addAt
      rw [hy]
      rfl
    have hcovers : RankMap.Covers (Function.update next t (some (y + share))) values := by
      intro i
      by_cases e : i = t
      · rw [e, Function.update_self]
        exact iff_of_true rfl (hout t List.mem_cons_self)
      · rw [Function.update_of_ne e]
        exact hnext i
    have hrest : ∀ u ∈ out, u ∈ values := fun u hu => hout u (List.mem_cons_of_mem t hu)
    obtain ⟨next', hfold, hcovers', hval⟩ := ih hcovers hrest
    refine ⟨next', ?_, hcovers', fun i => ?_⟩
    · rw [List.foldlM_cons, hstep]
      exact hfold
    · rw [hval, List.count_cons]
      unfold RankMap.value
      by_cases e : i = t
      · rw [e, Function.update_self, hy]
        simp only [Option.getD_some, beq_self_eq_true, if_true]
        push_cast
        ring
      · rw [Function.update_of_ne e]
        rw [if_neg (fun h => e (beq_iff_eq.mp h).symm), add_zero]

/-- **one source**: the lookup and the `unwrap` succeed, and every node gains its share -/
theorem spread_spec (hrank : rank.Covers values) {next : RankMap} (hnext : next.Covers values)
    {src : Nat} (hsrc : src ∈ values) (hout : ∀ t ∈ p.targets src, t ∈ values) :
    ∃ next', p.spread values.length rank next src = some next' ∧ next'.Covers values ∧
      ∀ i ∈ values, next'.value i =
        next.value i + p.rankShare values.length src (rank.value src) i := by
  obtain ⟨x, hx⟩ := Option.isSome_iff_exists.mp ((hrank src).mpr hsrc)
  have hval : rank.value src = x := by
    unfold RankMap.value
    rw [hx]
    rfl
  unfold spread
  rw [hx, hval]
  simp only
  by_cases hempty : p.targets src = []
  · refine ⟨_, if_pos (by rw [hempty]; rfl), fun i => ?_, fun i hi => ?_⟩
    · unfold RankMap.addAll
      rw [Option.isSome_map]
      exact hnext i
    · obtain ⟨y, hy⟩ := Option.isSome_iff_exists.mp ((hnext i).mpr hi)
      rw [rankShare_eq, if_pos hempty]
      show ((next i).map (· + damping * x * (1 / values.length))).getD 0 = (next i).getD 0 + _
      rw [hy]
      rfl
  · obtain ⟨next', hfold, hcovers, hvals⟩ :=
      addAt_fold (damping * x / (p.targets src).length) (p.targets src) hnext hout
    refine ⟨next', ?_, hcovers, fun i _ => ?_⟩
    · rw [if_neg fun h => hempty (List.isEmpty_iff.mp h)]
      exact hfold
    · rw [hvals, rankShare_eq, if_neg hempty]

theorem spread_fold (hrank : rank.Covers values)
    (hout : ∀ src ∈ values, ∀ t ∈ p.targets src, t ∈ values) (srcs : List Nat)
    (hsrcs : ∀ src ∈ srcs, src ∈ values) {next : RankMap} (hnext : next.Covers values) :
    ∃ next', srcs.foldlM (p.spread values.length rank) next = some next' ∧ next'.Covers values ∧
      ∀ i ∈ values, next'.value i = next.value i +
        (srcs.map fun src => p.rankShare values.length src (rank.value src) i).sum := by
  induction srcs generalizing next with
  | nil => exact ⟨next, rfl, hnext, fun i _ => by simp⟩
  | cons src srcs ih =>
    have hsrc : src ∈ values := hsrcs src List.mem_cons_self
    obtain ⟨next₁, hstep, hnext₁, hval₁⟩ := spread_spec hrank hnext hsrc (hout src hsrc)
    obtain ⟨next₂, hfold, hnext₂, hval₂⟩ :=
      ih (fun s hs => hsrcs s (List.mem_cons_of_mem src hs)) hnext₁
    refine ⟨next₂, ?_, hnext₂, fun i hi => ?_⟩
    · rw [List.foldlM_cons, hstep]
      exact hfold
    · rw [hval₂ i hi, hval₁ i hi, List.map_cons, List.sum_cons, add_assoc]

theorem covers_collect (values : List Nat) (x : ℚ) : (RankMap.collect values x).Covers values := by
  intro i
  unfold RankMap.collect
  split
  · rename_i h
    exact iff_of_true rfl h
  · rename_i h
    exact iff_of_false Bool.false_ne_true h

theorem value_collect {x : ℚ} {i : Nat} (hi : i ∈ values) :
    (RankMap.collect values x).value i = x := by
  show (if i ∈ values then some x else none).getD 0 = x
  rw [if_pos hi]
  rfl

/-- **one iteration**: it does not fail, and gives every node its base and the shares of all -/
theorem iteration_spec (hrank : rank.Covers values)
    (hout : ∀ src ∈ values, ∀ t ∈ p.targets src, t ∈ values) :
    ∃ next, p.iteration values rank = some next ∧ next.Covers values ∧
      ∀ i ∈ values, next.value i = (1 - damping) * (1 / values.length) +
        (values.map fun src => p.rankShare values.length src (rank.value src) i).sum := by
  obtain ⟨next, hfold, hcovers, hval⟩ := spread_fold hrank hout values (fun _ h => h)
    (covers_collect values ((1 - damping) * (1 / values.length)))
  refine ⟨next, hfold, hcovers, fun i hi => ?_⟩
  rw [hval i hi, value_collect hi]

end

/-! ## mass -/

/-- every node has a rank, none below its base, and they sum to `1` -/
structure Mass (values : List Nat) (rank : RankMap) : Prop where
  covers : rank.Covers values
  base : ∀ i ∈ values, (1 - damping) / values.length ≤ rank.value i
  total : (values.map rank.value).sum = 1

section
variable {p : CausalGraph G} {values : List Nat} (hnd : values.Nodup) (hne : values ≠ [])
  (hout : ∀ src ∈ values, ∀ t ∈ p.targets src, t ∈ values)
include hnd hne

theorem length_pos_cast : (0 : ℚ) < values.length :=
  Nat.cast_pos.mpr (List.length_pos_iff.mpr hne)

theorem mass_uniform : Mass values (.collect values (1 / values.length)) where
  covers := covers_collect values _
  base i hi := by
    rw [value_collect hi]
    refine div_le_div_of_nonneg_right ?_ (Nat.cast_nonneg _)
    exact sub_le_self 1 damping_bounds.1
  total := by
    have hpos := length_pos_cast hnd hne
    have hconst : values.map (RankMap.collect values (1 / values.length : ℚ)).value =
        values.map fun _ => (1 / values.length : ℚ) :=
      List.map_congr_left fun i hi => value_collect hi
    rw [hconst, List.map_const', List.sum_replicate, nsmul_eq_mul, mul_one_div_cancel hpos.ne']

include hout

/-- **an iteration keeps the mass** -/
theorem iteration_mass {rank : RankMap} (h : Mass values rank) :
    ∃ next, p.iteration values rank = some next ∧ Mass values next := by
  obtain ⟨next, hstep, hcovers, hval⟩ := iteration_spec h.covers hout
  have hpos := length_pos_cast hnd hne
  have hnonneg : ∀ src ∈ values, 0 ≤ rank.value src := fun src hsrc =>
    le_trans (div_nonneg damping_bounds.2 hpos.le) (h.base src hsrc)
  refine ⟨next, hstep, hcovers, fun i hi => ?_, ?_⟩
  · rw [hval i hi, mul_one_div]
    refine le_add_of_nonneg_right (List.sum_nonneg fun x hx => ?_)
    obtain ⟨src, hsrc, rfl⟩ := List.mem_map.mp hx
    exact p.rankShare_nonneg values.length src (hnonneg src hsrc) i
  · have hcard : (values.toFinset.card : ℚ) = values.length := by
      rw [List.toFinset_card_of_nodup hnd]
    have htotal : ∑ src ∈ values.toFinset, rank.value src = 1 := by
      rw [List.sum_toFinset _ hnd]
      exact h.total
    calc (values.map next.value).sum
        = ∑ i ∈ values.toFinset, next.value i := (List.sum_toFinset _ hnd).symm
      _ = ∑ i ∈ values.toFinset, ((1 - damping) * (1 / values.length) +
            ∑ src ∈ values.toFinset, p.rankShare values.length src (rank.value src) i) := by
          refine Finset.sum_congr rfl fun i hi => ?_
          rw [hval i (List.mem_toFinset.mp hi), List.sum_toFinset _ hnd]
      _ = values.length * ((1 - damping) * (1 / values.length)) +
            ∑ src ∈ values.toFinset, ∑ i ∈ values.toFinset,
              p.rankShare values.length src (rank.value src) i := by
          rw [Finset.sum_add_distrib, Finset.sum_const, nsmul_eq_mul, hcard, Finset.sum_comm]
      _ = (1 - damping) + ∑ src ∈ values.toFinset, damping * rank.value src := by
          congr 1
          · field_simp
          · refine Finset.sum_congr rfl fun src hsrc => ?_
            exact p.sum_rankShare hnd hne (hout src (List.mem_toFinset.mp hsrc)) _
      _ = 1 := by
          rw [← Finset.mul_sum, htotal]
          ring

/-- **no iteration fails, and the mass is kept throughout** -/
theorem rankAfter_mass (k : Nat) :
    ∃ rank, p.rankAfter values k = some rank ∧ Mass values rank := by
  induction k with
  | zero => exact ⟨_, rfl, mass_uniform hnd hne⟩
  | succ k ih =>
    obtain ⟨rank, hrank, hmass⟩ := ih
    obtain ⟨next, hstep, hnext⟩ := iteration_mass hnd hne hout hmass
    refine ⟨next, ?_, hnext⟩
    show (p.rankAfter values k).bind (p.iteration values) = some next
    rw [hrank]
    exact hstep

end

/-! ## the graph of a quad -/

/-- `values` enumerates the nodes of the index -/
def Enumerates (p : CausalGraph G) (values : List Nat) : Prop :=
  (values : Multiset Nat) = p.indices.entries.map Sigma.snd

instance (p : CausalGraph G) (values : List Nat) : Decidable (p.Enumerates values) :=
  inferInstanceAs (Decidable ((values : Multiset Nat) = p.indices.entries.map Sigma.snd))

section
variable {p : CausalGraph G} {values : List Nat} {live : BeliefId → Prop}

theorem Enumerates.mem (hv : p.Enumerates values) (i : Nat) :
    i ∈ values ↔ ∃ id, p.indices.lookup id = some i := by
  rw [← Multiset.mem_coe, hv, Multiset.mem_map]
  constructor
  · intro h
    obtain ⟨⟨id, j⟩, he, rfl⟩ := h
    exact ⟨id, Finmap.lookup_eq_some_iff.mpr he⟩
  · intro h
    obtain ⟨id, hid⟩ := h
    exact ⟨⟨id, i⟩, Finmap.lookup_eq_some_iff.mp hid, rfl⟩

theorem Enumerates.nodup (hv : p.Enumerates values) (h : p.Synced live) : values.Nodup := by
  rw [← Multiset.coe_nodup, hv]
  refine Multiset.Nodup.map_on (fun e he e' he' heq => ?_) p.indices.nodup_entries
  have hlookup := Finmap.lookup_eq_some_iff.mpr he
  have hlookup' := Finmap.lookup_eq_some_iff.mpr he'
  rw [← heq] at hlookup'
  have hid := h.injective e.1 e'.1 e.2 hlookup hlookup'
  obtain ⟨id, i⟩ := e
  obtain ⟨id', i'⟩ := e'
  subst hid
  subst heq
  rfl

theorem Enumerates.targets (hv : p.Enumerates values) (h : p.Synced live) (src : Nat) :
    ∀ t ∈ p.targets src, t ∈ values := by
  intro t ht
  obtain ⟨e, he, rfl⟩ := List.mem_map.mp ht
  obtain ⟨a, b, -, hb, -⟩ := h.joins e ((mem_edgesDirected _ _ _ _).mp he).1
  exact (hv.mem _).mpr ⟨b, h.noOther _ _ hb⟩

/-- the ranks as pairs, as `rankStep` has them -/
def ranksOf (values : List Nat) (rank : RankMap) : Multiset (Nat × ℚ) :=
  (values.map fun i => (i, rank.value i) : List (Nat × ℚ))

theorem Enumerates.card (hv : p.Enumerates values) : p.indices.entries.card = values.length := by
  rw [← Multiset.coe_card, hv, Multiset.card_map]

theorem Enumerates.map_entries {β : Type} (hv : p.Enumerates values) (g : Nat → β) :
    p.indices.entries.map (fun e => g e.2) = (values.map g : List β) := by
  rw [← Multiset.map_coe, hv, Multiset.map_map]
  rfl

theorem rankStep_ranksOf (hv : p.Enumerates values) {rank next : RankMap}
    (hval : ∀ i ∈ values, next.value i = (1 - damping) * (1 / values.length) +
      (values.map fun src => p.rankShare values.length src (rank.value src) i).sum) :
    p.rankStep (ranksOf values rank) = ranksOf values next := by
  unfold rankStep ranksOf
  simp only [hv.card, Multiset.map_coe, Multiset.sum_coe, List.map_map]
  rw [hv.map_entries fun i => (i, (1 - damping) * (1 / values.length) + (values.map
    ((fun r : Nat × ℚ => p.rankShare values.length r.1 r.2 i) ∘ fun i => (i, rank.value i))).sum)]
  refine congrArg _ (List.map_congr_left fun i hi => ?_)
  rw [hval i hi]
  rfl

/-- the loops compute the ranks of the iteration -/
theorem rankAfter_eq (hv : p.Enumerates values) (h : p.Synced live) (k : Nat) :
    ∃ rank, p.rankAfter values k = some rank ∧ rank.Covers values ∧
      p.rankStep^[k] (p.indices.entries.map fun e => (e.2, (1 / p.indices.entries.card : ℚ))) =
        ranksOf values rank := by
  induction k with
  | zero =>
    refine ⟨_, rfl, covers_collect values _, ?_⟩
    rw [hv.card]
    refine (hv.map_entries fun i => (i, (1 / values.length : ℚ))).trans ?_
    refine congrArg _ (List.map_congr_left fun i hi => ?_)
    rw [value_collect hi]
  | succ k ih =>
    obtain ⟨rank, hrank, hcovers, heq⟩ := ih
    obtain ⟨next, hstep, hnext, hval⟩ := iteration_spec hcovers fun src _ => hv.targets h src
    refine ⟨next, ?_, hnext, ?_⟩
    · show (p.rankAfter values k).bind (p.iteration values) = some next
      rw [hrank]
      exact hstep
    · rw [Function.iterate_succ_apply', heq, rankStep_ranksOf hv hval]

/-- **the loops compute the centrality** -/
theorem centralityLoop_eq (hv : p.Enumerates values) (h : p.Synced live) (hne : values ≠ [])
    (id : BeliefId) : p.centralityLoop values id = some (p.centrality id) := by
  obtain ⟨rank, hrank, hcovers, heq⟩ := rankAfter_eq hv h 20
  unfold centralityLoop centrality
  rw [if_neg fun h0 => hne (List.length_eq_zero_iff.mp h0), hrank, Option.map_some]
  simp only [heq]
  congr 1
  cases hid : p.indices.lookup id with
  | none => rfl
  | some idx =>
    have hmem : idx ∈ values := (hv.mem idx).mpr ⟨id, hid⟩
    have hone : (values.map fun i => (i, rank.value i)).filter (fun r => r.1 = idx) =
        [(idx, rank.value idx)] := by
      rw [List.filter_map]
      have hfilter : values.filter ((fun r : Nat × ℚ => decide (r.1 = idx)) ∘
          fun i => (i, rank.value i)) = [idx] := by
        have hcount := List.count_eq_one_of_mem (hv.nodup h) hmem
        have hrep := List.filter_eq (l := values) idx
        rw [hcount] at hrep
        exact hrep
      rw [hfilter]
      rfl
    unfold ranksOf
    simp only [Multiset.filter_coe, hone, Multiset.map_coe, Multiset.sum_coe, List.map_cons,
      List.map_nil, List.sum_singleton]
    rfl

end
end CausalGraph

namespace BeliefQuad
variable {M : Type → Type} {G : Type → Type → Type} [SlotMap M] [StableDiGraph G]

/-- the centralities of the live beliefs are the ranks of the nodes -/
theorem map_centrality {q : BeliefQuad M G} (h : q.GraphsSynced) {values : List Nat}
    (hv : CausalGraph.Enumerates q.causal values) {f : BeliefId → ℚ} {g : Nat → ℚ}
    (hfg : ∀ id i, q.causal.indices.lookup id = some i → f id = g i) :
    ((SlotMap.iter q.nodes).map fun e => f e.1).sum = (values.map g).sum := by
  have hids : ((SlotMap.iter q.nodes).map Prod.fst : Multiset BeliefId) =
      q.causal.indices.entries.map Sigma.fst := by
    refine (Multiset.Nodup.ext (Multiset.coe_nodup.mpr (SlotMap.nodup_iter q.nodes))
      q.causal.indices.nodupKeys.nodup_keys).mpr fun id => ?_
    show id ∈ _ ↔ id ∈ q.causal.indices.entries.map Sigma.fst
    rw [Multiset.mem_coe, SlotMap.mem_keys, Multiset.mem_map]
    refine (h.causal.keys id).symm.trans ?_
    rw [Option.isSome_iff_exists]
    constructor
    · intro hid
      obtain ⟨i, hi⟩ := hid
      exact ⟨⟨id, i⟩, Finmap.lookup_eq_some_iff.mp hi, rfl⟩
    · intro hid
      obtain ⟨⟨id', i⟩, hi, rfl⟩ := hid
      exact ⟨i, Finmap.lookup_eq_some_iff.mpr hi⟩
  have hleft : ((SlotMap.iter q.nodes).map fun e => f e.1).sum =
      (((SlotMap.iter q.nodes).map Prod.fst : Multiset BeliefId).map f).sum := by
    rw [Multiset.map_coe, Multiset.sum_coe, List.map_map]
    rfl
  have hright : (values.map g).sum = (q.causal.indices.entries.map fun e => g e.2).sum := by
    rw [hv.map_entries, Multiset.sum_coe]
  rw [hleft, hids, hright, Multiset.map_map]
  refine congrArg _ (Multiset.map_congr rfl fun e he => ?_)
  exact hfg e.1 e.2 (Finmap.lookup_eq_some_iff.mpr he)

/-- **PageRank keeps its mass**: in the causal graph of every quad with a belief, in whatever order
the index is enumerated, no lookup of an iteration fails, after each iteration every rank is at
least its base and they sum to `1`, and so do the centralities of the live beliefs -/
theorem centrality_mass [Platform] (ops : List Op) (values : List Nat) :
    let q := run step (new : BeliefQuad M G) ops
    CausalGraph.Enumerates q.causal values → 1 ≤ q.len →
    (∀ k, ∃ rank, CausalGraph.rankAfter q.causal values k = some rank ∧
      CausalGraph.Mass values rank) ∧
    (∀ id, CausalGraph.centralityLoop q.causal values id =
      some (CausalGraph.centrality q.causal id)) ∧
    ((SlotMap.iter q.nodes).map fun e => CausalGraph.centrality q.causal e.1).sum = 1 := by
  intro q hv hlen
  have h : q.GraphsSynced := (run_in_step ops).1.toGraphsSynced
  have hnd := hv.nodup h.causal
  have hout : ∀ src ∈ values, ∀ t ∈ CausalGraph.targets q.causal src, t ∈ values :=
    fun src _ => hv.targets h.causal src
  have hne : values ≠ [] := by
    obtain ⟨⟨id, n⟩, he⟩ := List.length_pos_iff_exists_mem.mp hlen
    have hlive : q.Live id := live_iff.mpr ⟨n, (SlotMap.mem_iter _ _ _).mp he⟩
    obtain ⟨i, hi⟩ := h.causal.lookup_isSome hlive
    exact List.ne_nil_of_mem ((hv.mem i).mpr ⟨id, hi⟩)
  have hloop := CausalGraph.centralityLoop_eq hv h.causal hne
  refine ⟨CausalGraph.rankAfter_mass hnd hne hout, hloop, ?_⟩
  obtain ⟨rank, hrank, hmass⟩ := CausalGraph.rankAfter_mass hnd hne hout 20
  rw [map_centrality h hv (g := rank.value), hmass.total]
  intro id i hi
  have hval := hloop id
  unfold CausalGraph.centralityLoop at hval
  rw [if_neg fun h0 => hne (List.length_eq_zero_iff.mp h0), hrank, hi] at hval
  exact (Option.some.inj hval).symm

section
attribute [local instance] Platform.ascii

/-- parallel edges, a loop, a dangling node, and a node that is removed -/
def branching : List Op :=
  [.insert (.new 0 "a" (.asserted "a") (.userStatement 0) (4 / 5)),
   .insert (.new 0 "b" (.asserted "b") (.userStatement 0) (7 / 10)),
   .insert (.new 0 "c" (.asserted "c") (.userStatement 0) (1 / 2)),
   .insert (.new 0 "d" (.asserted "d") (.userStatement 0) 0),
   .addCausalEdge ⟨1, 1⟩ ⟨3, 1⟩ (.inferredFrom [⟨1, 1⟩]),
   .addCausalEdge ⟨1, 1⟩ ⟨3, 1⟩ (.causes 1 1),
   .addCausalEdge ⟨1, 1⟩ ⟨1, 1⟩ (.causes 1 1),
   .addCausalEdge ⟨4, 1⟩ ⟨2, 1⟩ (.causes 1 1),
   .remove ⟨2, 1⟩]

def branched : BeliefQuad SlotVec EdgeList := run step new branching

/-- its nodes are `0`, `2` and `3` -/
theorem centrality_mass_branching : ((SlotMap.iter branched.nodes).map fun e =>
    CausalGraph.centrality branched.causal e.1).sum = 1 :=
  (@centrality_mass SlotVec EdgeList _ _ _ branching [3, 0, 2] (by decide +kernel)
    (by decide +kernel)).2.2

end
end BeliefQuad
end Epica
