import Epica.Core.Runs
import Mathlib.Data.Finset.Card

/-!
# Counterfactual worlds

`counterfactualQuery q id` is the view of `q` without `id` and without what `id` caused.

* `excluded_counterfactualQuery`   what is left out: `id` and what a non-empty path of causal edges
                                   leads to, whether `id` is live or not;
* `mem_survivingBeliefs`           the survivors are the other live beliefs, each once;
* `survivingCount_of_dead`         the count is a difference of two sizes, so it is one short (or
                                   underflows) when `id` itself is not live;
* `counterfactualQuery_exact_iff`  all of it is right exactly for live ids.
-/

set_option linter.unusedSectionVars false

namespace Epica
open Lib

/-- `quad` is the quad the beliefs are read from -/
structure CounterfactualWorld (M : Type → Type) (G : Type → Type → Type) where
  antecedent : BeliefId
  excluded : Finset BeliefId
  quad : BeliefQuad M G

namespace CounterfactualWorld
variable {M : Type → Type} {G : Type → Type → Type} [SlotMap M]

def survivingBeliefs (w : CounterfactualWorld M G) : List (BeliefId × BeliefNode) :=
  (SlotMap.iter w.quad.nodes).filter fun e => e.1 ∉ w.excluded

/-- a difference of two `usize`, `none` where it underflows -/
def survivingCount (w : CounterfactualWorld M G) : Option Nat :=
  if w.excluded.card ≤ w.quad.len then some (w.quad.len - w.excluded.card) else none

/-- the view is that of a world without the antecedent and what it caused -/
structure Exact [StableDiGraph G] (w : CounterfactualWorld M G) : Prop where
  excluded : ∀ d, d ∈ w.excluded ↔
    d = w.antecedent ∨ Relation.TransGen w.quad.causal.Joined w.antecedent d
  surviving : ∀ d n, (d, n) ∈ w.survivingBeliefs ↔ w.quad.get d = some n ∧ d ∉ w.excluded
  once : (w.survivingBeliefs.map Prod.fst).Nodup
  count : w.survivingCount = some w.survivingBeliefs.length

variable (w : CounterfactualWorld M G)

theorem mem_survivingBeliefs (d : BeliefId) (n : BeliefNode) :
    (d, n) ∈ w.survivingBeliefs ↔ w.quad.get d = some n ∧ d ∉ w.excluded := by
  unfold survivingBeliefs
  rw [List.mem_filter, SlotMap.mem_iter, decide_eq_true_eq]
  rfl

theorem nodup_survivingBeliefs : (w.survivingBeliefs.map Prod.fst).Nodup :=
  (SlotMap.nodup_iter w.quad.nodes).sublist (List.filter_sublist.map Prod.fst)

/-- the live beliefs that are excluded -/
def excludedLive : List BeliefId :=
  ((SlotMap.iter w.quad.nodes).map Prod.fst).filter fun d => d ∈ w.excluded

theorem nodup_excludedLive : w.excludedLive.Nodup :=
  (SlotMap.nodup_iter w.quad.nodes).sublist List.filter_sublist

theorem mem_excludedLive (d : BeliefId) : d ∈ w.excludedLive ↔ w.quad.Live d ∧ d ∈ w.excluded := by
  unfold excludedLive
  rw [List.mem_filter, SlotMap.mem_keys, decide_eq_true_eq]
  rfl

/-- every live belief survives or is excluded -/
theorem length_survivingBeliefs :
    w.survivingBeliefs.length + w.excludedLive.length = w.quad.len := by
  have hsplit := List.length_eq_length_filter_add (l := SlotMap.iter w.quad.nodes)
    (fun e => decide (e.1 ∉ w.excluded))
  have hexcluded : w.excludedLive.length =
      ((SlotMap.iter w.quad.nodes).filter fun e => !decide (e.1 ∉ w.excluded)).length := by
    unfold excludedLive
    rw [List.filter_map, List.length_map]
    congr 2
    funext e
    simp
  rw [hexcluded]
  exact hsplit.symm

end CounterfactualWorld

namespace BeliefQuad
variable {M : Type → Type} {G : Type → Type → Type} [SlotMap M] [StableDiGraph G]

def counterfactualQuery (q : BeliefQuad M G) (antecedent : BeliefId) : CounterfactualWorld M G where
  antecedent := antecedent
  excluded := Insert.insert antecedent (CausalGraph.descendantsOf q.causal antecedent).toFinset
  quad := q

variable {q : BeliefQuad M G}

/-- **what is left out is the antecedent and what a non-empty path of causal edges leads to** -/
theorem excluded_counterfactualQuery (h : q.GraphsSynced) (id d : BeliefId) :
    d ∈ (q.counterfactualQuery id).excluded ↔
      d = id ∨ Relation.TransGen q.causal.Joined id d := by
  unfold counterfactualQuery CausalGraph.descendantsOf
  rw [Finset.mem_insert, List.mem_toFinset, h.causal.mem_reachableFrom]
  constructor
  · intro hd
    rcases hd with e | ⟨hne, -, hpath⟩
    · exact Or.inl e
    · rcases Relation.reflTransGen_iff_eq_or_transGen.mp hpath with e | hpath
      · exact Or.inl e
      · exact Or.inr hpath
  · intro hd
    rcases hd with e | hpath
    · exact Or.inl e
    · by_cases e : d = id
      · exact Or.inl e
      · -- the first edge of the path leaves `id`, so `id` is live
        obtain ⟨c, ⟨w, hw⟩, -⟩ := Relation.TransGen.head'_iff.mp hpath
        exact Or.inr ⟨e, (h.causal.live_of_mem hw).1, hpath.to_reflTransGen⟩

/-- besides the antecedent, only live beliefs are left out -/
theorem live_of_excluded (h : q.GraphsSynced) {id d : BeliefId}
    (hd : d ∈ (q.counterfactualQuery id).excluded) : d = id ∨ q.Live d := by
  rcases (excluded_counterfactualQuery h id d).mp hd with e | hpath
  · exact Or.inl e
  · obtain ⟨c, -, w, hw⟩ := Relation.TransGen.tail'_iff.mp hpath
    exact Or.inr (h.causal.live_of_mem hw).2

/-- nothing but the antecedent is left out when it is not live -/
theorem excluded_of_dead (h : q.GraphsSynced) {id : BeliefId} (hid : ¬ q.Live id) :
    (q.counterfactualQuery id).excluded = {id} := by
  ext d
  rw [excluded_counterfactualQuery h, Finset.mem_singleton, or_iff_left_iff_imp]
  intro hpath
  obtain ⟨c, ⟨w, hw⟩, -⟩ := Relation.TransGen.head'_iff.mp hpath
  exact absurd (h.causal.live_of_mem hw).1 hid

/-- for a live antecedent the two sizes are those of a set and a part of it -/
theorem survivingCount_of_live (h : q.GraphsSynced) {id : BeliefId} (hid : q.Live id) :
    (q.counterfactualQuery id).survivingCount =
      some (q.counterfactualQuery id).survivingBeliefs.length := by
  have hall : (q.counterfactualQuery id).excluded =
      (q.counterfactualQuery id).excludedLive.toFinset := by
    ext d
    rw [List.mem_toFinset, CounterfactualWorld.mem_excludedLive]
    refine ⟨fun hd => ⟨?_, hd⟩, fun hd => hd.2⟩
    rcases live_of_excluded h hd with e | hlive
    · exact e ▸ hid
    · exact hlive
  have hcard : (q.counterfactualQuery id).excluded.card =
      (q.counterfactualQuery id).excludedLive.length := by
    rw [hall, List.toFinset_card_of_nodup (CounterfactualWorld.nodup_excludedLive _)]
  have hlen := (q.counterfactualQuery id).length_survivingBeliefs
  unfold CounterfactualWorld.survivingCount
  rw [hcard, if_pos (by omega), ← hlen, Nat.add_sub_cancel]

/-- for another antecedent every live belief survives, and the count is one less -/
theorem survivingCount_of_dead (h : q.GraphsSynced) {id : BeliefId} (hid : ¬ q.Live id) :
    (q.counterfactualQuery id).survivingBeliefs.length = q.len ∧
      (q.counterfactualQuery id).survivingCount = if 1 ≤ q.len then some (q.len - 1) else none := by
  have hexcluded := excluded_of_dead h hid
  constructor
  · have hnone : (q.counterfactualQuery id).excludedLive = [] := by
      refine List.eq_nil_iff_forall_not_mem.mpr fun d hd => ?_
      obtain ⟨hlive, hd⟩ := (CounterfactualWorld.mem_excludedLive _ d).mp hd
      rw [hexcluded, Finset.mem_singleton] at hd
      exact hid (hd ▸ hlive)
    have hlen := (q.counterfactualQuery id).length_survivingBeliefs
    rw [hnone, List.length_nil, Nat.add_zero] at hlen
    exact hlen
  · unfold CounterfactualWorld.survivingCount
    rw [hexcluded, Finset.card_singleton]
    rfl

/-- **a counterfactual world is exact, its count included, exactly when the antecedent is live** -/
theorem counterfactualQuery_exact_iff [Platform] (ops : List Op) (id : BeliefId) :
    let q := run step (new : BeliefQuad M G) ops
    (q.counterfactualQuery id).Exact ↔ q.Live id := by
  intro q
  have h : q.GraphsSynced := (run_in_step ops).1.toGraphsSynced
  constructor
  · intro hexact
    by_contra hid
    obtain ⟨hlen, hcount⟩ := survivingCount_of_dead h hid
    rw [hexact.count, hlen] at hcount
    split at hcount
    · have := Option.some.inj hcount
      omega
    · cases hcount
  · intro hid
    exact
      { excluded := excluded_counterfactualQuery h id
        surviving := CounterfactualWorld.mem_survivingBeliefs _
        once := CounterfactualWorld.nodup_survivingBeliefs _
        count := survivingCount_of_live h hid }

section
attribute [local instance] Platform.ascii

/-- two beliefs, the first one removed again -/
def bereft : BeliefQuad SlotVec EdgeList :=
  run step new
    [.insert (.new 0 "a" (.asserted "a") (.userStatement 0) (4 / 5)),
     .insert (.new 0 "b" (.asserted "b") (.userStatement 0) (7 / 10)),
     .remove ⟨1, 1⟩]

/-- the other belief survives, the count says none does; for the empty quad the count underflows -/
theorem bereft_not_exact :
    ¬ (bereft.counterfactualQuery ⟨1, 1⟩).Exact ∧
      (bereft.counterfactualQuery ⟨1, 1⟩).survivingBeliefs.length = 1 ∧
      (bereft.counterfactualQuery ⟨1, 1⟩).survivingCount = some 0 ∧
      ((new : BeliefQuad SlotVec EdgeList).counterfactualQuery ⟨1, 1⟩).survivingCount = none := by
  have hlen : (bereft.counterfactualQuery ⟨1, 1⟩).survivingBeliefs.length = 1 := by decide +kernel
  have hcount : (bereft.counterfactualQuery ⟨1, 1⟩).survivingCount = some 0 := by decide +kernel
  refine ⟨fun h => ?_, hlen, hcount, by decide +kernel⟩
  have := h.count
  rw [hlen, hcount] at this
  cases this

end
end BeliefQuad
end Epica
