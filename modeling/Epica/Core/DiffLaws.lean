import Epica.Lib.Patch
import Epica.Core.Runs

/-!
# Laws of diffs

A diff goes by keys.  Of several nodes with one key it sees the `holder`, the last one in the
order of the slots; when the keys are unique it sees every node.  Confidences are compared in single
precision, which finds a change from `leastChange` on, a little more than `10⁻⁶`.

* `confChanged_iff`             from which difference on a confidence has changed;
* `mem_added`, `mem_modified`   what a diff lists;
* `rollback_refused_iff`        a rollback is refused as unnecessary exactly when the holders agree
                                on values and fast confidences: nothing else is compared;
* `diff_law`                    over unique keys a diff is exact, its mirror image the other way,
                                and a patch from one quad to the other.
-/

set_option linter.unusedSectionVars false

namespace Epica
open Lib

/-- the least difference that is rounded to more than the `f32` nearest to `10⁻⁶` -/
def leastChange : ℚ := 17592187 / 2 ^ 44

theorem leastChange_pos : 0 < leastChange := by
  unfold leastChange
  norm_num

/-- what counts as a change between two nodes with one key -/
def BeliefNode.Changed (n n' : BeliefNode) : Prop :=
  n.value ≠ n'.value ∨ leastChange ≤ |n.fastConfidence - n'.fastConfidence|

/-- **single precision sees the changes from `leastChange` on, and no other** -/
theorem confChanged_iff (n n' : BeliefNode) :
    confChanged n n' = true ↔ leastChange ≤ |n.fastConfidence - n'.fastConfidence| := by
  have hlow : (2 : ℚ) ^ ((f32.digits : ℤ) - 1) ≤ ((8796093 : ℤ) : ℚ) := by
    show (2 : ℚ) ^ (23 : ℤ) ≤ _
    norm_num
  have hhigh : ((8796093 : ℤ) : ℚ) + 1 ≤ 2 ^ (f32.digits : ℤ) := by
    show _ ≤ (2 : ℚ) ^ (24 : ℤ)
    norm_num
  have hiff := f32.lt_round_iff (k := -43) (by decide) hlow hhigh (by decide) (by decide)
    (abs_nonneg (n.fastConfidence - n'.fastConfidence))
  have hthreshold : changeThreshold = ((8796093 : ℤ) : ℚ) * 2 ^ (-43 : ℤ) := by
    unfold changeThreshold
    norm_num
  have hleast : leastChange = (((8796093 : ℤ) : ℚ) + 1 / 2) * 2 ^ (-43 : ℤ) := by
    unfold leastChange
    norm_num
  unfold confChanged
  rw [decide_eq_true_iff, abs_f32Sub, hthreshold, hleast]
  exact hiff

theorem BeliefNode.changed_comm {n n' : BeliefNode} : n.Changed n' ↔ n'.Changed n := by
  unfold BeliefNode.Changed
  rw [ne_comm, abs_sub_comm]

/-- the modification from `n'` to `n` -/
def BeliefModification.ofNodes (n n' : BeliefNode) : BeliefModification where
  id := n.id
  key := n.key
  oldValue := n'.value
  newValue := n.value
  oldConfidence := n'.fastConfidence
  newConfidence := n.fastConfidence

namespace BeliefQuad
section
variable {M : Type → Type} {G : Type → Type → Type} [SlotMap M] [StableDiGraph G]

def Holds (q : BeliefQuad M G) (n : BeliefNode) : Prop := ∃ id, q.get id = some n

/-- the last node with that key -/
def holder (q : BeliefQuad M G) (key : String) : Option BeliefNode :=
  ((SlotMap.iter q.nodes).map Prod.snd).reverse.find? fun n => n.key = key

def UniqueKeys (q : BeliefQuad M G) : Prop :=
  ∀ i j n n', q.get i = some n → q.get j = some n' → n.key = n'.key → i = j

/-- it is enough to look at the live pairs -/
theorem uniqueKeys_iff (q : BeliefQuad M G) : q.UniqueKeys ↔
    ∀ e ∈ SlotMap.iter q.nodes, ∀ e' ∈ SlotMap.iter q.nodes, e.2.key = e'.2.key → e.1 = e'.1 := by
  constructor
  · intro h e he e' he'
    exact h e.1 e'.1 e.2 e'.2 ((SlotMap.mem_iter _ _ _).mp he) ((SlotMap.mem_iter _ _ _).mp he')
  · intro h i j n n' hi hj
    exact h (i, n) ((SlotMap.mem_iter _ _ _).mpr hi) (j, n') ((SlotMap.mem_iter _ _ _).mpr hj)

instance (q : BeliefQuad M G) : Decidable q.UniqueKeys := decidable_of_iff _ q.uniqueKeys_iff.symm

variable {q : BeliefQuad M G} {key : String} {n : BeliefNode}

theorem lookup_byKey (q : BeliefQuad M G) (key : String) :
    q.byKey.lookup key = q.holder key := by
  have hcollect : q.byKey = ((SlotMap.iter q.nodes).map Prod.snd).foldl
      (fun m n => m.insert n.key n) ∅ := by
    rw [List.foldl_map]
    rfl
  rw [hcollect, lookup_collect, AList.lookup_empty, Option.or_none]
  rfl

theorem mem_nodes : n ∈ (SlotMap.iter q.nodes).map Prod.snd ↔ q.Holds n := by
  rw [List.mem_map]
  constructor
  · intro h
    obtain ⟨⟨id, n⟩, hm, rfl⟩ := h
    exact ⟨id, (SlotMap.mem_iter q.nodes id n).mp hm⟩
  · intro h
    obtain ⟨id, hid⟩ := h
    exact ⟨(id, n), (SlotMap.mem_iter q.nodes id n).mpr hid, rfl⟩

theorem holds_of_holder (h : q.holder key = some n) : q.Holds n ∧ n.key = key := by
  have hm := List.mem_reverse.mp (List.mem_of_find?_eq_some h)
  have hk := List.find?_some (p := fun n : BeliefNode => decide (n.key = key)) h
  exact ⟨mem_nodes.mp hm, of_decide_eq_true hk⟩

theorem holder_eq_none_iff : q.holder key = none ↔ ∀ n, q.Holds n → n.key ≠ key := by
  unfold holder
  rw [List.find?_eq_none]
  constructor
  · intro h n hn hk
    exact h n (List.mem_reverse.mpr (mem_nodes.mpr hn)) (decide_eq_true hk)
  · intro h n hn hk
    exact h n (mem_nodes.mp (List.mem_reverse.mp hn)) (of_decide_eq_true hk)

/-- with unique keys, a node is the holder of its key -/
theorem UniqueKeys.holder_iff (h : q.UniqueKeys) :
    q.holder key = some n ↔ q.Holds n ∧ n.key = key := by
  refine ⟨holds_of_holder, fun hn => ?_⟩
  cases hh : q.holder key with
  | none => exact absurd hn.2 (holder_eq_none_iff.mp hh n hn.1)
  | some n' =>
    obtain ⟨⟨j, hj⟩, hk'⟩ := holds_of_holder hh
    obtain ⟨⟨i, hi⟩, hk⟩ := hn
    rw [h i j n n' hi hj (hk.trans hk'.symm), hj] at hi
    exact hi

theorem mem_byKey (e : Sigma fun _ : String => BeliefNode) :
    e ∈ q.byKey.entries ↔ q.holder e.1 = some e.2 := by
  rw [← lookup_byKey]
  exact AList.mem_lookup_iff.symm

/-! ## what a diff lists -/

variable {a b : BeliefQuad M G}

theorem mem_added (s : BeliefSnapshot) : s ∈ (a.diff b).added ↔
    ∃ key n, a.holder key = some n ∧ b.holder key = none ∧ s = .fromNode n a.version := by
  show s ∈ a.byKey.entries.filterMap _ ↔ _
  rw [List.mem_filterMap]
  simp only [lookup_byKey, Option.isNone_iff_eq_none, Option.ite_none_right_eq_some,
    Option.some.injEq]
  constructor
  · intro h
    obtain ⟨e, he, hb, rfl⟩ := h
    exact ⟨e.1, e.2, (mem_byKey e).mp he, hb, rfl⟩
  · intro h
    obtain ⟨key, n, ha, hb, rfl⟩ := h
    exact ⟨⟨key, n⟩, (mem_byKey _).mpr ha, hb, rfl⟩

/-- what is removed one way is added the other way -/
theorem removed_diff : (a.diff b).removed = (b.diff a).added := rfl

theorem mem_modified (m : BeliefModification) : m ∈ (a.diff b).modified ↔
    ∃ key n n', a.holder key = some n ∧ b.holder key = some n' ∧ n.Changed n' ∧
      m = .ofNodes n n' := by
  show m ∈ a.byKey.entries.filterMap _ ↔ _
  rw [List.mem_filterMap]
  simp only [lookup_byKey, Option.bind_eq_some_iff, Option.ite_none_right_eq_some,
    Option.some.injEq]
  constructor
  · intro h
    obtain ⟨e, he, n', hb, hc, rfl⟩ := h
    refine ⟨e.1, e.2, n', (mem_byKey e).mp he, hb, ?_, rfl⟩
    exact hc.imp_right (confChanged_iff e.2 n').mp
  · intro h
    obtain ⟨key, n, n', ha, hb, hc, rfl⟩ := h
    exact ⟨⟨key, n⟩, (mem_byKey _).mpr ha, n', hb, hc.imp_right (confChanged_iff n n').mpr, rfl⟩

/-! ## when a rollback is refused -/

/-- the two quads hold the same keys, each with the same value and, up to `leastChange`, the same
fast confidence -/
def Agrees (q q' : BeliefQuad M G) : Prop :=
  ∀ key, Option.Rel (fun n n' => ¬ BeliefNode.Changed n n') (q.holder key) (q'.holder key)

theorem hasContradictions_eq_false_iff :
    (a.diff b).hasContradictions = false ↔ a.Agrees b := by
  have hlists : (a.diff b).hasContradictions = false ↔
      (a.diff b).added = [] ∧ (a.diff b).modified = [] ∧ (b.diff a).added = [] := by
    unfold BeliefQuadDiff.hasContradictions
    rw [removed_diff]
    simp only [Bool.or_eq_false_iff, Bool.not_eq_false', List.isEmpty_iff, and_assoc]
  simp only [hlists, List.eq_nil_iff_forall_not_mem]
  constructor
  · intro h key
    obtain ⟨hadded, hmodified, hremoved⟩ := h
    cases ha : a.holder key with
    | none =>
      cases hb : b.holder key with
      | none => exact Option.Rel.none
      | some n' => exact absurd ((mem_added _).mpr ⟨key, n', hb, ha, rfl⟩) (hremoved _)
    | some n =>
      cases hb : b.holder key with
      | none => exact absurd ((mem_added _).mpr ⟨key, n, ha, hb, rfl⟩) (hadded _)
      | some n' =>
        refine Option.Rel.some fun hc => ?_
        exact hmodified _ ((mem_modified _).mpr ⟨key, n, n', ha, hb, hc, rfl⟩)
  · intro h
    refine ⟨fun s hs => ?_, fun m hm => ?_, fun s hs => ?_⟩
    · obtain ⟨key, n, ha, hb, -⟩ := (mem_added s).mp hs
      have hrel := h key
      rw [ha, hb] at hrel
      cases hrel
    · obtain ⟨key, n, n', ha, hb, hc, -⟩ := (mem_modified m).mp hm
      have hrel := h key
      rw [ha, hb] at hrel
      cases hrel with
      | some hn => exact hn hc
    · obtain ⟨key, n, hb, ha, -⟩ := (mem_added s).mp hs
      have hrel := h key
      rw [ha, hb] at hrel
      cases hrel

/-- two quads with the same beliefs agree, whatever their edges -/
theorem agrees_of_beliefs {q' : BeliefQuad M G}
    (h : SlotMap.iter q.nodes = SlotMap.iter q'.nodes) : q.Agrees q' := by
  intro key
  have hholder : q'.holder key = q.holder key := by
    unfold holder
    rw [h]
  rw [hholder]
  cases q.holder key with
  | none => exact Option.Rel.none
  | some n =>
    refine Option.Rel.some fun hc => ?_
    rcases hc with hc | hc
    · exact hc rfl
    · rw [sub_self, abs_zero] at hc
      exact absurd hc (not_le.mpr leastChange_pos)

end

/-- **when a rollback is refused as unnecessary**: exactly when the quad agrees with the captured
one on keys, values and fast confidences; and whatever it is refused for, the quad stays -/
theorem rollback_refused_iff {M : Type → Type} {G : Type → Type → Type} [SlotMap M]
    [StableDiGraph G] (q : BeliefQuad M G) (id : CheckpointId) :
    ((∃ diff, (q.rollbackTo id).1 = .error (.unnecessaryContraction diff)) ↔
      ∃ cp, q.checkpointById id = some cp ∧ q.Agrees cp.quad) ∧
    ∀ e, (q.rollbackTo id).1 = .error e → (q.rollbackTo id).2 = q := by
  rcases q.rollbackTo_cases id with ⟨hn, e⟩ | ⟨cp, hcp, hd, e⟩ | ⟨snap, ⟨cp, hcp, rfl, hd⟩, e⟩
  · rw [e]
    refine ⟨iff_of_false (fun h => nomatch h.choose_spec) fun h => ?_, fun _ _ => rfl⟩
    obtain ⟨cp, hcp, -⟩ := h
    rw [hn] at hcp
    cases hcp
  · rw [e]
    exact ⟨iff_of_true ⟨_, rfl⟩ ⟨cp, hcp, hasContradictions_eq_false_iff.mp hd⟩, fun _ _ => rfl⟩
  · rw [e]
    refine ⟨iff_of_false (fun h => nomatch h.choose_spec) fun h => ?_, fun _ he => nomatch he⟩
    obtain ⟨cp', hcp', ha⟩ := h
    rw [hcp] at hcp'
    rw [← Option.some.inj hcp', ← hasContradictions_eq_false_iff, hd] at ha
    cases ha

section
attribute [local instance] Platform.ascii

/-- two beliefs, a checkpoint of them, and then an inference of one from the other -/
def linked : BeliefQuad SlotVec EdgeList :=
  run step new
    [.insert (.new 0 "fact" (.asserted "a") (.userStatement 0) (1 / 2)),
     .insert (.new 0 "claim" (.asserted "b") (.userStatement 0) (1 / 2)),
     .checkpoint 7 0,
     .addCausalEdge ⟨1, 1⟩ ⟨2, 1⟩ (.inferredFrom [⟨1, 1⟩])]

/-- the edge cannot be rolled back -/
theorem rollback_refused_linked : ∃ cp diff, linked.checkpointById 7 = some cp ∧
    (linked.rollbackTo 7).1 = .error (.unnecessaryContraction diff) ∧
    linked.causal.edges ≠ cp.quad.causal.edges := by
  obtain ⟨cp, hcp⟩ : ∃ cp, linked.checkpointById 7 = some cp := ⟨_, rfl⟩
  have hnodes : linked.nodes = cp.quad.nodes := by
    rw [← Option.some.inj hcp]
    rfl
  rcases linked.rollbackTo_cases 7 with ⟨hn, -⟩ | ⟨cp', hcp', -, e⟩ | ⟨_, ⟨cp', hcp', rfl, hd⟩, -⟩
  · rw [hn] at hcp
    cases hcp
  · refine ⟨cp', _, hcp', by rw [e], fun h => ?_⟩
    have hcard := congrArg Multiset.card h
    rw [← Option.some.inj hcp'] at hcard
    revert hcard
    decide +kernel
  · rw [hcp] at hcp'
    rw [Option.some.inj hcp'] at hnodes
    rw [hasContradictions_eq_false_iff.mpr (agrees_of_beliefs (congrArg SlotMap.iter hnodes))] at hd
    cases hd

end

/-! ## exact, mirrored, a patch -/

section
variable {M : Type → Type} {G : Type → Type → Type} [SlotMap M] [StableDiGraph G]
  {a b q : BeliefQuad M G}

/-- the map from keys to values and fast confidences -/
def contents (q : BeliefQuad M G) (key : String) : Option (BeliefValue × ℚ) :=
  (q.holder key).map fun n => (n.value, n.fastConfidence)

/-- the same value and, up to `leastChange`, the same confidence -/
def Close (x y : BeliefValue × ℚ) : Prop := x.1 = y.1 ∧ |x.2 - y.2| < leastChange

end
end BeliefQuad

/-- a diff as edits of such a map -/
def BeliefQuadDiff.edits (d : BeliefQuadDiff) : List (String × Option (BeliefValue × ℚ)) :=
  d.removed.map (fun s => (s.key, none)) ++
    d.added.map (fun s => (s.key, some (s.value, s.fastConfidence))) ++
    d.modified.map fun m => (m.key, some (m.newValue, m.newConfidence))

namespace BeliefQuad
section
variable {M : Type → Type} {G : Type → Type → Type} [SlotMap M] [StableDiGraph G]
  {a b q : BeliefQuad M G}

/-- `d` lists what `a` has and `b` has not, what `b` has and `a` has not, what both have and
differs, and no key twice -/
structure Exact (a b : BeliefQuad M G) (d : BeliefQuadDiff) : Prop where
  added : ∀ s, s ∈ d.added ↔
    ∃ n, a.Holds n ∧ (∀ n', b.Holds n' → n'.key ≠ n.key) ∧ s = .fromNode n a.version
  removed : ∀ s, s ∈ d.removed ↔
    ∃ n, b.Holds n ∧ (∀ n', a.Holds n' → n'.key ≠ n.key) ∧ s = .fromNode n b.version
  modified : ∀ m, m ∈ d.modified ↔
    ∃ n n', a.Holds n ∧ b.Holds n' ∧ n.key = n'.key ∧ n.Changed n' ∧ m = .ofNodes n n'
  once : (d.edits.map Prod.fst).Nodup

/-- `d'` is `d` seen from the other side, ids left out -/
structure Mirror (d d' : BeliefQuadDiff) : Prop where
  added : d'.added.Perm d.removed
  removed : d'.removed.Perm d.added
  modified : (d'.modified.map fun m =>
      (m.key, m.oldValue, m.newValue, m.oldConfidence, m.newConfidence)).Perm
    (d.modified.map fun m =>
      (m.key, m.newValue, m.oldValue, m.newConfidence, m.oldConfidence))

theorem added_exact (ha : a.UniqueKeys) (s : BeliefSnapshot) : s ∈ (a.diff b).added ↔
    ∃ n, a.Holds n ∧ (∀ n', b.Holds n' → n'.key ≠ n.key) ∧ s = .fromNode n a.version := by
  rw [mem_added]
  constructor
  · intro h
    obtain ⟨key, n, hn, hb, hs⟩ := h
    obtain ⟨hold, rfl⟩ := holds_of_holder hn
    exact ⟨n, hold, holder_eq_none_iff.mp hb, hs⟩
  · intro h
    obtain ⟨n, hn, hb, hs⟩ := h
    exact ⟨n.key, n, ha.holder_iff.mpr ⟨hn, rfl⟩, holder_eq_none_iff.mpr hb, hs⟩

theorem modified_exact (ha : a.UniqueKeys) (hb : b.UniqueKeys) (m : BeliefModification) :
    m ∈ (a.diff b).modified ↔
      ∃ n n', a.Holds n ∧ b.Holds n' ∧ n.key = n'.key ∧ n.Changed n' ∧ m = .ofNodes n n' := by
  rw [mem_modified]
  constructor
  · intro h
    obtain ⟨key, n, n', hn, hn', hc, hm⟩ := h
    obtain ⟨hold, hk⟩ := holds_of_holder hn
    obtain ⟨hold', hk'⟩ := holds_of_holder hn'
    exact ⟨n, n', hold, hold', hk.trans hk'.symm, hc, hm⟩
  · intro h
    obtain ⟨n, n', hn, hn', hk, hc, hm⟩ := h
    exact ⟨n.key, n, n', ha.holder_iff.mpr ⟨hn, rfl⟩, hb.holder_iff.mpr ⟨hn', hk.symm⟩, hc, hm⟩

/-! ### no key twice -/

/-- what is made of entries with different keys has different keys -/
theorem nodup_filterMap {β : Type} (m : ByKey) (f : (Sigma fun _ : String => BeliefNode) → Option β)
    (key : β → String) (h : ∀ e ∈ m.entries, ∀ x, f e = some x → key x = e.1) :
    ((m.entries.filterMap f).map key).Nodup := by
  unfold List.Nodup
  rw [List.pairwise_map, List.pairwise_filterMap]
  refine (List.nodupKeys_iff_pairwise.mp m.nodupKeys).imp_of_mem ?_
  intro e e' he he' hne x hx x' hx' hk
  rw [h e he x hx, h e' he' x' hx'] at hk
  exact hne hk

theorem nodup_added (a b : BeliefQuad M G) : ((a.diff b).added.map BeliefSnapshot.key).Nodup := by
  refine nodup_filterMap a.byKey _ _ fun e he x hx => ?_
  obtain ⟨-, hx⟩ := Option.ite_none_right_eq_some.mp hx
  rw [← Option.some.inj hx]
  exact (holds_of_holder ((mem_byKey e).mp he)).2

theorem nodup_modified (a b : BeliefQuad M G) :
    ((a.diff b).modified.map BeliefModification.key).Nodup := by
  refine nodup_filterMap a.byKey _ _ fun e he x hx => ?_
  obtain ⟨n', -, hx⟩ := Option.bind_eq_some_iff.mp hx
  obtain ⟨-, hx⟩ := Option.ite_none_right_eq_some.mp hx
  rw [← Option.some.inj hx]
  exact (holds_of_holder ((mem_byKey e).mp he)).2

theorem keys_edits (d : BeliefQuadDiff) : d.edits.map Prod.fst =
    d.removed.map BeliefSnapshot.key ++ d.added.map BeliefSnapshot.key ++
      d.modified.map BeliefModification.key := by
  unfold BeliefQuadDiff.edits
  rw [List.map_append, List.map_append, List.map_map, List.map_map, List.map_map]
  rfl

/-- the keys of what is added are held here, and not there -/
theorem holder_of_mem_added {key : String}
    (h : key ∈ (a.diff b).added.map BeliefSnapshot.key) :
    (∃ n, a.holder key = some n) ∧ b.holder key = none := by
  obtain ⟨s, hs, rfl⟩ := List.mem_map.mp h
  obtain ⟨key, n, hn, hb, rfl⟩ := (mem_added s).mp hs
  obtain rfl : n.key = key := (holds_of_holder hn).2
  exact ⟨⟨n, hn⟩, hb⟩

theorem holder_of_mem_modified {key : String}
    (h : key ∈ (a.diff b).modified.map BeliefModification.key) :
    ∃ n n', a.holder key = some n ∧ b.holder key = some n' ∧ n.Changed n' := by
  obtain ⟨m, hm, rfl⟩ := List.mem_map.mp h
  obtain ⟨key, n, n', hn, hn', hc, rfl⟩ := (mem_modified m).mp hm
  obtain rfl : n.key = key := (holds_of_holder hn).2
  exact ⟨n, n', hn, hn', hc⟩

theorem nodup_edits (a b : BeliefQuad M G) : ((a.diff b).edits.map Prod.fst).Nodup := by
  rw [keys_edits, removed_diff]
  refine List.nodup_append.mpr ⟨List.nodup_append.mpr ⟨nodup_added b a, nodup_added a b, ?_⟩,
    nodup_modified a b, ?_⟩
  · intro k hk k' hk' e
    subst e
    obtain ⟨⟨n, hn⟩, -⟩ := holder_of_mem_added hk
    rw [(holder_of_mem_added hk').2] at hn
    cases hn
  · intro k hk k' hk' e
    subst e
    obtain ⟨n, n', hn, hn', -⟩ := holder_of_mem_modified hk'
    rcases List.mem_append.mp hk with hk | hk
    · rw [(holder_of_mem_added hk).2] at hn
      cases hn
    · rw [(holder_of_mem_added hk).2] at hn'
      cases hn'

/-! ### the other way round -/

theorem mem_modified_swap (m : BeliefModification) (hm : m ∈ (a.diff b).modified) :
    ∃ m' ∈ (b.diff a).modified, m'.key = m.key ∧ m'.oldValue = m.newValue ∧
      m'.newValue = m.oldValue ∧ m'.oldConfidence = m.newConfidence ∧
      m'.newConfidence = m.oldConfidence := by
  obtain ⟨key, n, n', hn, hn', hc, rfl⟩ := (mem_modified m).mp hm
  refine ⟨.ofNodes n' n, (mem_modified _).mpr
    ⟨key, n', n, hn', hn, BeliefNode.changed_comm.mp hc, rfl⟩, ?_, rfl, rfl, rfl, rfl⟩
  exact (holds_of_holder hn').2.trans (holds_of_holder hn).2.symm

theorem mirror_diff (a b : BeliefQuad M G) : Mirror (a.diff b) (b.diff a) where
  added := .refl _
  removed := .refl _
  modified := by
    have hnd : ∀ (l : List BeliefModification) {β : Type} (f : BeliefModification → String × β),
        (∀ m, (f m).1 = m.key) → (l.map BeliefModification.key).Nodup → (l.map f).Nodup := by
      intro l β f hf hl
      refine List.Nodup.of_map Prod.fst ?_
      rw [List.map_map, show Prod.fst ∘ f = BeliefModification.key from funext hf]
      exact hl
    refine (List.perm_ext_iff_of_nodup (hnd _ _ (fun _ => rfl) (nodup_modified b a))
      (hnd _ _ (fun _ => rfl) (nodup_modified a b))).mpr fun x => ?_
    rw [List.mem_map, List.mem_map]
    constructor
    · intro h
      obtain ⟨m, hm, rfl⟩ := h
      obtain ⟨m', hm', hk, h1, h2, h3, h4⟩ := mem_modified_swap m hm
      exact ⟨m', hm', by rw [hk, h1, h2, h3, h4]⟩
    · intro h
      obtain ⟨m, hm, rfl⟩ := h
      obtain ⟨m', hm', hk, h1, h2, h3, h4⟩ := mem_modified_swap m hm
      exact ⟨m', hm', by rw [hk, h1, h2, h3, h4]⟩

/-! ### as a patch -/

theorem close_refl (x : BeliefValue × ℚ) : Close x x := by
  refine ⟨rfl, ?_⟩
  rw [sub_self, abs_zero]
  exact leastChange_pos

/-- the three kinds of edits, each for its keys -/
theorem edited_cases {key : String} (h : key ∈ (a.diff b).edits.map Prod.fst) :
    ((∃ n', b.holder key = some n') ∧ a.holder key = none) ∨
    ((∃ n, a.holder key = some n) ∧ b.holder key = none) ∨
    ∃ n n', a.holder key = some n ∧ b.holder key = some n' ∧ n.Changed n' := by
  rw [keys_edits, removed_diff, List.mem_append, List.mem_append] at h
  rcases h with (h | h) | h
  · exact Or.inl (holder_of_mem_added h)
  · exact Or.inr (Or.inl (holder_of_mem_added h))
  · exact Or.inr (Or.inr (holder_of_mem_modified h))

theorem edits_removed {key : String} {n' : BeliefNode} (ha : a.holder key = none)
    (hb : b.holder key = some n') : (key, none) ∈ (a.diff b).edits := by
  refine List.mem_append_left _ (List.mem_append_left _ (List.mem_map.mpr
    ⟨.fromNode n' b.version, (mem_added _).mpr ⟨key, n', hb, ha, rfl⟩, ?_⟩))
  exact Prod.ext (holds_of_holder hb).2 rfl

theorem edits_added {key : String} {n : BeliefNode} (ha : a.holder key = some n)
    (hb : b.holder key = none) :
    (key, some (n.value, n.fastConfidence)) ∈ (a.diff b).edits := by
  refine List.mem_append_left _ (List.mem_append_right _ (List.mem_map.mpr
    ⟨.fromNode n a.version, (mem_added _).mpr ⟨key, n, ha, hb, rfl⟩, ?_⟩))
  exact Prod.ext (holds_of_holder ha).2 rfl

theorem edits_modified {key : String} {n n' : BeliefNode} (ha : a.holder key = some n)
    (hb : b.holder key = some n') (hc : n.Changed n') :
    (key, some (n.value, n.fastConfidence)) ∈ (a.diff b).edits := by
  refine List.mem_append_right _ (List.mem_map.mpr
    ⟨.ofNodes n n', (mem_modified _).mpr ⟨key, n, n', ha, hb, hc, rfl⟩, ?_⟩)
  exact Prod.ext (holds_of_holder ha).2 rfl

/-- what has not changed is close -/
theorem close_of_unchanged {n n' : BeliefNode} (h : ¬ n.Changed n') :
    Close (n'.value, n'.fastConfidence) (n.value, n.fastConfidence) := by
  obtain ⟨hvalue, hconfidence⟩ := not_or.mp h
  refine ⟨(not_not.mp hvalue).symm, ?_⟩
  show |n'.fastConfidence - n.fastConfidence| < leastChange
  rw [abs_sub_comm]
  exact not_le.mp hconfidence

/-- **the edits of a diff lead from the one quad to the other** -/
theorem patch_diff (a b : BeliefQuad M G) (key : String) :
    Option.Rel Close (patch (a.diff b).edits b.contents key) (a.contents key) := by
  have hnd := nodup_edits a b
  unfold contents
  cases ha : a.holder key with
  | none =>
    cases hb : b.holder key with
    | none =>
      have hmiss : key ∉ (a.diff b).edits.map Prod.fst := by
        intro h
        have hcases := edited_cases h
        simp [ha, hb] at hcases
      rw [patch_of_not_mem hmiss, hb]
      exact Option.Rel.none
    | some n' =>
      rw [patch_of_mem hnd (edits_removed ha hb)]
      exact Option.Rel.none
  | some n =>
    cases hb : b.holder key with
    | none =>
      rw [patch_of_mem hnd (edits_added ha hb)]
      exact Option.Rel.some (close_refl _)
    | some n' =>
      by_cases hc : n.Changed n'
      · rw [patch_of_mem hnd (edits_modified ha hb hc)]
        exact Option.Rel.some (close_refl _)
      · have hmiss : key ∉ (a.diff b).edits.map Prod.fst := by
          intro h
          have hcases := edited_cases h
          simp only [ha, hb, Option.some.injEq, reduceCtorEq, and_false, false_or] at hcases
          obtain ⟨x, x', rfl, rfl, hchanged⟩ := hcases
          exact hc hchanged
        rw [patch_of_not_mem hmiss, hb]
        exact Option.Rel.some (close_of_unchanged hc)

end

/-- **the law of diffs**: over unique keys the diff from `b` to `a` lists exactly what differs and
no key twice, the diff back is its mirror image, and its edits turn what `b` holds into what `a`
holds, up to `leastChange` in the confidences -/
theorem diff_law {M : Type → Type} {G : Type → Type → Type} [SlotMap M] [StableDiGraph G]
    (a b : BeliefQuad M G) (ha : a.UniqueKeys) (hb : b.UniqueKeys) :
    Exact a b (a.diff b) ∧ Mirror (a.diff b) (b.diff a) ∧
      ∀ key, Option.Rel Close (patch (a.diff b).edits b.contents key) (a.contents key) :=
  ⟨⟨added_exact ha, added_exact hb, modified_exact ha hb, nodup_edits a b⟩, mirror_diff a b,
    patch_diff a b⟩

section
attribute [local instance] Platform.ascii

/-- `linked` with one belief gone, one revised and one new -/
def relinked : BeliefQuad SlotVec EdgeList :=
  run step linked
    [.remove ⟨1, 1⟩,
     .revise ⟨8, 0⟩ .id ⟨2, 1⟩ (.asserted "b") (.userStatement 1) (9 / 10),
     .insert (.new 0 "goal" (.asserted "c") (.userStatement 0) (1 / 2))]

/-- the three passes each list one belief -/
theorem diff_law_relinked :
    ((relinked.diff linked).added.length, (relinked.diff linked).removed.length,
      (relinked.diff linked).modified.length) = (1, 1, 1) ∧
    Exact relinked linked (relinked.diff linked) ∧
    ∀ key, Option.Rel Close (patch (relinked.diff linked).edits linked.contents key)
      (relinked.contents key) := by
  obtain ⟨hexact, -, hpatch⟩ := diff_law relinked linked (by decide +kernel) (by decide +kernel)
  exact ⟨by decide +kernel, hexact, hpatch⟩

/-- one belief, with that confidence -/
def single (confidence : ℚ) : BeliefQuad SlotVec EdgeList :=
  run step new [.insert (.new 0 "fact" (.asserted "a") (.userStatement 0) confidence)]

/-- the two `f32` are more than `10⁻⁶` apart, but their difference is rounded to the threshold: the
key is not listed, and its patched confidence is more than `10⁻⁶` off -/
theorem diff_misses_rounded :
    let a := single (8892161 / 2 ^ 43)
    let b := single (12296680 / 2 ^ 50)
    a.UniqueKeys ∧ b.UniqueKeys ∧ (a.diff b).modified = [] ∧
    ∃ n n', a.Holds n ∧ b.Holds n' ∧ n.key = n'.key ∧
      (0 ≤ n'.fastConfidence ∧ n.fastConfidence ≤ 1) ∧
      1 / 1000000 < |n.fastConfidence - n'.fastConfidence| ∧
      a.contents "fact" = some (n.value, n.fastConfidence) ∧
      patch (a.diff b).edits b.contents "fact" = some (n'.value, n'.fastConfidence) := by
  intro a b
  obtain ⟨n, hn⟩ : ∃ n, a.get ⟨1, 1⟩ = some n := ⟨_, rfl⟩
  obtain ⟨n', hn'⟩ : ∃ n', b.get ⟨1, 1⟩ = some n' := ⟨_, rfl⟩
  have hnone : (a.diff b).modified.isEmpty = true := by decide +kernel
  have hfar : ((a.get ⟨1, 1⟩).bind fun n => (b.get ⟨1, 1⟩).map fun n' =>
      decide (n.key = n'.key ∧ (0 ≤ n'.fastConfidence ∧ n.fastConfidence ≤ 1) ∧
        1 / 1000000 < |n.fastConfidence - n'.fastConfidence|)) = some true := by decide +kernel
  rw [hn, hn'] at hfar
  obtain ⟨hkey, hunit, hmore⟩ := of_decide_eq_true (Option.some.inj hfar)
  refine ⟨by decide +kernel, by decide +kernel, List.isEmpty_iff.mp hnone, n, n', ⟨_, hn⟩,
    ⟨_, hn'⟩, hkey, hunit, hmore, ?_, ?_⟩
  · have hcontents :
        a.contents "fact" = (a.get ⟨1, 1⟩).map fun n => (n.value, n.fastConfidence) := by
      decide +kernel
    rw [hcontents, hn]
    rfl
  · have hpatched : patch (a.diff b).edits b.contents "fact" =
        (b.get ⟨1, 1⟩).map fun n => (n.value, n.fastConfidence) := by
      decide +kernel
    rw [hpatched, hn']
    rfl

end

end BeliefQuad
end Epica
