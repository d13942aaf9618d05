import Epica.Memory.Redis

/-!
# The Neo4j store, and the two stores side by side

The long-term graph.  A flush merges each snapshot into the node of its key, and a load matches the
keys that the schema lists, skips the rows that the installed retention policy has let expire, and
decodes the others.  A row carries no slow confidence.

* `neo4j_keeps_iff`           the handovers that the store keeps;
* `backends_agree_iff`        the handovers that both stores keep.
-/

set_option linter.unusedSectionVars false

namespace Epica
open Lib

/-- the properties of a `:Belief` node, which is matched by its key; the slow confidence is a NaN
when there is none -/
structure BeliefProperties where
  valueJson : BeliefValue
  fastConfidence : ℚ
  slowConfidence : Option ℚ
  versionAtSnapshot : Nat
  updatedAtMs : Nat

/-- what a query returns of a node -/
structure BeliefRow where
  key : String
  value : BeliefValue
  confidence : ℚ
  updated : Nat

structure Neo4jMemoryStore where
  graph : AList fun _ : String => BeliefProperties
  sovereignty : RetentionPolicy

namespace Neo4jMemoryStore

def connect : Neo4jMemoryStore := ⟨∅, .permanent⟩

def withSovereignty (store : Neo4jMemoryStore) (sovereignty : RetentionPolicy) : Neo4jMemoryStore :=
  { store with sovereignty := sovereignty }

/-- the properties that are set for a snapshot -/
def properties (nowMs : Nat) (snap : BeliefSnapshot) : BeliefProperties where
  valueJson := snap.value
  fastConfidence := snap.fastConfidence
  slowConfidence := snap.slowConfidence
  versionAtSnapshot := snap.versionAtSnapshot
  updatedAtMs := nowMs

def merge (nowMs : Nat) (store : Neo4jMemoryStore) (snap : BeliefSnapshot) : Neo4jMemoryStore :=
  { store with graph := store.graph.insert snap.key (properties nowMs snap) }

/-- one snapshot of a flush, with the number of those written so far -/
def flushOne (nowMs : Nat) (s : Neo4jMemoryStore × Nat) (snap : BeliefSnapshot) :
    Neo4jMemoryStore × Nat :=
  (s.1.merge nowMs snap, s.2 + 1)

/-- the clock is read once, and the policy that is passed is not looked at -/
def flush (times : FlushTimes) (beliefs : List BeliefSnapshot) (_sovereignty : RetentionPolicy)
    (store : Neo4jMemoryStore) : Except MemoryError FlushResult × Neo4jMemoryStore :=
  let s := beliefs.foldl (flushOne times.startMs) (store, 0)
  (.ok ⟨s.2, 0, times.endMs - times.startMs⟩, s.1)

def rowOf (key : String) (p : BeliefProperties) : BeliefRow :=
  ⟨key, p.valueJson, p.fastConfidence, p.updatedAtMs⟩

/-- the rows of the nodes whose keys are asked for -/
def matchKeys (order : HashOrder String) (keys : List String) (store : Neo4jMemoryStore) :
    List BeliefRow :=
  (order.shuffle (store.graph.keys.filter fun key => key ∈ keys)).filterMap fun key =>
    (store.graph.lookup key).map (rowOf key)

/-- the node of a row, unless the row has expired -/
def loadRow (nowMs : Nat) (recencyDecay : ℚ) (sovereignty : RetentionPolicy) (row : BeliefRow) :
    Option BeliefNode :=
  if sovereignty.isExpired row.updated nowMs then none
  else some (BeliefNode.new nowMs row.key row.value (.runtimeInference [])
    (clamp (row.confidence * recencyDecay) 0 1))

def load (order : HashOrder String) (times : LoadTimes) (domainSchema : SchemaDescriptor)
    (recencyDecay : ℚ) (store : Neo4jMemoryStore) : Except MemoryError (List BeliefNode) :=
  .ok ((store.matchKeys order (domainSchema.beliefKeys.map BeliefKeyDescriptor.key)).filterMap
    (loadRow times.nowMs recencyDecay store.sovereignty))

instance : LongTermMemoryStore Neo4jMemoryStore where
  flush := flush
  load := load
  sovereignty := sovereignty

/-! ## what a flush writes -/

/-- the store with all the snapshots merged into its graph -/
def mergeAll (nowMs : Nat) (store : Neo4jMemoryStore) (beliefs : List BeliefSnapshot) :
    Neo4jMemoryStore :=
  { store with graph := writeAll BeliefSnapshot.key (properties nowMs) store.graph beliefs }

theorem foldl_flushOne (nowMs : Nat) (beliefs : List BeliefSnapshot) (store : Neo4jMemoryStore)
    (n : Nat) : beliefs.foldl (flushOne nowMs) (store, n) =
      (store.mergeAll nowMs beliefs, n + beliefs.length) := by
  induction beliefs generalizing store n with
  | nil => rfl
  | cons snap beliefs ih =>
    rw [List.foldl_cons, List.length_cons, Nat.add_comm beliefs.length, ← Nat.add_assoc]
    exact ih (store.merge nowMs snap) (n + 1)

theorem flush_ok (times : FlushTimes) (beliefs : List BeliefSnapshot)
    (sovereignty : RetentionPolicy) (store : Neo4jMemoryStore) :
    store.flush times beliefs sovereignty =
      (.ok ⟨beliefs.length, 0, times.endMs - times.startMs⟩,
        store.mergeAll times.startMs beliefs) := by
  unfold flush
  rw [foldl_flushOne, Nat.zero_add]

/-! ## what a load returns -/

/-- what is loaded for a key -/
def loadOne (nowMs : Nat) (recencyDecay : ℚ) (store : Neo4jMemoryStore) (key : String) :
    Option BeliefNode :=
  ((store.graph.lookup key).map (rowOf key)).bind (loadRow nowMs recencyDecay store.sovereignty)

theorem key_of_loadOne {nowMs : Nat} {recencyDecay : ℚ} {store : Neo4jMemoryStore} {key : String}
    {node : BeliefNode} (h : store.loadOne nowMs recencyDecay key = some node) :
    node.key = key := by
  unfold loadOne at h
  obtain ⟨row, hrow, hload⟩ := Option.bind_eq_some_iff.mp h
  obtain ⟨p, -, rfl⟩ := Option.map_eq_some_iff.mp hrow
  unfold loadRow at hload
  split at hload
  · cases hload
  · obtain rfl := Option.some.inj hload
    rfl

/-- a load returns for a key what it loads for it, if the key is asked for -/
theorem filter_load (order : HashOrder String) (nowMs : Nat) (recencyDecay : ℚ)
    (store : Neo4jMemoryStore) (keys : List String) (key : String) :
    (((store.matchKeys order keys).filterMap
      (loadRow nowMs recencyDecay store.sovereignty)).filter fun node => node.key = key) =
        if key ∈ keys then (store.loadOne nowMs recencyDecay key).toList else [] := by
  have hnodup : (order.shuffle (store.graph.keys.filter fun key => key ∈ keys)).Nodup :=
    (order.perm _).nodup_iff.mpr (store.graph.keys_nodup.filter _)
  have hmem : key ∈ order.shuffle (store.graph.keys.filter fun key => key ∈ keys) ↔
      key ∈ store.graph ∧ key ∈ keys := by
    rw [HashOrder.mem_shuffle, List.mem_filter, decide_eq_true_iff, AList.mem_keys]
  unfold matchKeys
  rw [List.filterMap_filterMap]
  show ((order.shuffle _).filterMap (store.loadOne nowMs recencyDecay)).filter _ = _
  rw [filter_filterMap BeliefNode.key (fun _ _ h => key_of_loadOne h) hnodup]
  by_cases hkey : key ∈ keys
  · rw [if_pos hkey]
    split
    · rfl
    · rename_i hgone
      have hnone : store.graph.lookup key = none :=
        AList.lookup_eq_none.mpr fun hin => hgone (hmem.mpr ⟨hin, hkey⟩)
      unfold loadOne
      rw [hnone]
      rfl
  · rw [if_neg hkey, if_neg fun hin => hkey (hmem.mp hin).2]

end Neo4jMemoryStore

/-! ## the handovers that are kept -/

namespace Handover
variable (h : Handover)

/-- what the Neo4j store needs of a flushed belief, if it is listed and has not expired -/
structure Neo4jRecalls (snapshot : BeliefSnapshot) : Prop where
  confidence : h.schema.Lists snapshot.key →
    h.retention.isExpired h.flushed.startMs h.loaded.nowMs = false →
    InUnit (snapshot.fastConfidence * h.recencyDecay)
  slow : h.schema.Lists snapshot.key →
    h.retention.isExpired h.flushed.startMs h.loaded.nowMs = false →
    snapshot.slowConfidence = none

end Handover

namespace Neo4jMemoryStore
variable {h : Handover} {snapshot : BeliefSnapshot}

/-- what is loaded for a flushed belief -/
theorem loadOne_flush (store : Neo4jMemoryStore) (hmem : snapshot ∈ h.beliefs) :
    ((store.withSovereignty h.retention).mergeAll h.flushed.startMs h.beliefs).loadOne
        h.loaded.nowMs h.recencyDecay snapshot.key =
      if h.retention.isExpired h.flushed.startMs h.loaded.nowMs then none
      else some (BeliefNode.new h.loaded.nowMs snapshot.key snapshot.value (.runtimeInference [])
        (clamp (snapshot.fastConfidence * h.recencyDecay) 0 1)) := by
  unfold loadOne mergeAll
  rw [lookup_writeAll BeliefSnapshot.key (properties h.flushed.startMs) _ h.nodup hmem]
  rfl

theorem restored_new (nowMs : Nat) (recencyDecay : ℚ) (snapshot : BeliefSnapshot) :
    Restored recencyDecay snapshot (BeliefNode.new nowMs snapshot.key snapshot.value
      (.runtimeInference []) (clamp (snapshot.fastConfidence * recencyDecay) 0 1)) ↔
      InUnit (snapshot.fastConfidence * recencyDecay) ∧ snapshot.slowConfidence = none := by
  constructor
  · intro hrestored
    have hslow : none = snapshot.slowConfidence.map (· * recencyDecay) := hrestored.slowConfidence
    exact ⟨clamp_clamp_eq_iff.mp hrestored.fastConfidence, Option.map_eq_none_iff.mp hslow.symm⟩
  · intro hnode
    refine ⟨rfl, clamp_clamp_eq_iff.mpr hnode.1, ?_⟩
    rw [hnode.2]
    rfl

theorem recalled_iff (store : Neo4jMemoryStore) (hmem : snapshot ∈ h.beliefs) :
    Recalled h 0 h.flushed.startMs h.loaded.nowMs snapshot
        (if snapshot.key ∈ h.schema.beliefKeys.map BeliefKeyDescriptor.key then
          (((store.withSovereignty h.retention).mergeAll h.flushed.startMs h.beliefs).loadOne
            h.loaded.nowMs h.recencyDecay snapshot.key).toList
        else []) ↔ h.Neo4jRecalls snapshot := by
  split
  · rename_i hlisted
    rw [loadOne_flush store hmem]
    split
    · rename_i hexpired
      rw [Option.toList_none, recalled_nil]
      refine iff_of_true (Or.inr hexpired) ?_
      constructor <;> intro _ hkept <;> rw [hexpired] at hkept <;> cases hkept
    · rename_i hkept
      have hkept := Bool.eq_false_iff.mpr hkept
      rw [Option.toList_some, recalled_singleton, restored_new]
      constructor
      · intro hnode
        exact ⟨fun _ _ => hnode.2.2.1, fun _ _ => hnode.2.2.2⟩
      · intro hrecalls
        exact ⟨hlisted, hkept, hrecalls.confidence hlisted hkept, hrecalls.slow hlisted hkept⟩
  · rename_i hunlisted
    rw [recalled_nil]
    refine iff_of_true (Or.inl hunlisted) ?_
    exact ⟨fun hlisted => absurd hlisted hunlisted, fun hlisted => absurd hlisted hunlisted⟩

/-- **the handovers that the Neo4j store keeps** -/
theorem neo4j_keeps_iff (h : Handover) (store : Neo4jMemoryStore) :
    h.Keeps 0 (fun _ => h.flushed.startMs) (fun _ => h.loaded.nowMs)
        (store.withSovereignty h.retention) ↔
      ∀ snapshot ∈ h.beliefs, h.Neo4jRecalls snapshot := by
  rw [Handover.keeps_iff (flush_ok h.flushed h.beliefs h.retention _) rfl]
  refine forall₂_congr fun snapshot hmem => ?_
  have hfilter := filter_load h.order h.loaded.nowMs h.recencyDecay
    ((store.withSovereignty h.retention).mergeAll h.flushed.startMs h.beliefs)
    (h.schema.beliefKeys.map BeliefKeyDescriptor.key) snapshot.key
  rw [← recalled_iff store hmem, ← hfilter]

end Neo4jMemoryStore

/-! ## both stores -/

namespace Handover

/-- both stores keep the handover, the Redis store to within a second; the times that count are
those at which Redis writes and reads a key, and those at which the flush and the load of Neo4j read
the clock -/
def BothKeep (h : Handover) (redis : RedisMemoryStore) (neo4j : Neo4jMemoryStore) : Prop :=
  h.Keeps 1000 h.flushed.writtenMs h.loaded.readMs (redis.withSovereignty h.retention) ∧
  h.Keeps 0 (fun _ => h.flushed.startMs) (fun _ => h.loaded.nowMs)
    (neo4j.withSovereignty h.retention)

/-- **the handovers that both stores keep** -/
theorem backends_agree_iff (h : Handover) (redis : RedisMemoryStore) (neo4j : Neo4jMemoryStore) :
    h.BothKeep redis neo4j ↔
      (h.beliefs = [] ∨ ∀ ms, h.retention = .duration ms → 1000 ≤ ms) ∧
      ∀ snapshot ∈ h.beliefs, h.RedisRecalls snapshot ∧ h.Neo4jRecalls snapshot := by
  unfold BothKeep
  rw [RedisMemoryStore.redis_keeps_iff, Neo4jMemoryStore.neo4j_keeps_iff, and_assoc]
  exact and_congr_right fun _ => forall₂_and.symm

end Handover

namespace Handover
section

/-- one belief is flushed at the time `0` and loaded at `readMs`, with half of its confidence -/
def ofOne (retention : RetentionPolicy) (listed : List String) (slow : Option ℚ) (readMs : Nat) :
    Handover where
  retention := retention
  beliefs := [⟨KeyData.null, "environment", .asserted "staging", 9 / 10, slow, 1⟩]
  nodup := List.nodup_singleton _
  flushed := .once 0
  order := .id
  loaded := .once readMs
  schema := ⟨listed.map BeliefKeyDescriptor.mk⟩
  recencyDecay := 1 / 2

/-- the confidences that an empty store gives back, and whether it has accepted the flush -/
def givesBack {S : Type} [LongTermMemoryStore S] (store : S) (h : Handover) :
    Bool × List (String × ℚ × Option ℚ) :=
  let flushed := LongTermMemoryStore.flush h.flushed h.beliefs h.retention store
  let loaded := LongTermMemoryStore.load h.order h.loaded h.schema h.recencyDecay flushed.2
  (flushed.1.toBool, match loaded with
    | .ok nodes => nodes.map fun node => (node.key, node.fastConfidence, node.slowConfidence)
    | .error _ => [])

/-- Neo4j forgets a slow confidence; Redis returns what the schema does not list, refuses a policy
of less than a second, and forgets the beliefs of a session after an hour -/
theorem backends_disagree :
    givesBack RedisMemoryStore.connect (ofOne .permanent ["environment"] (some (8 / 10)) 10) =
      (true, [("environment", 9 / 20, some (2 / 5))]) ∧
    givesBack Neo4jMemoryStore.connect (ofOne .permanent ["environment"] (some (8 / 10)) 10) =
      (true, [("environment", 9 / 20, none)]) ∧
    givesBack RedisMemoryStore.connect (ofOne .permanent [] none 10) =
      (true, [("environment", 9 / 20, none)]) ∧
    givesBack Neo4jMemoryStore.connect (ofOne .permanent [] none 10) = (true, []) ∧
    givesBack RedisMemoryStore.connect (ofOne (.duration 500) ["environment"] none 10) =
      (false, []) ∧
    givesBack RedisMemoryStore.connect (ofOne .sessionScoped ["environment"] none 3600000) =
      (true, []) ∧
    ¬ (ofOne .permanent ["environment"] (some (8 / 10)) 10).BothKeep .connect .connect ∧
    ¬ (ofOne .permanent [] none 10).BothKeep .connect .connect ∧
    ¬ (ofOne (.duration 500) ["environment"] none 10).BothKeep .connect .connect ∧
    ¬ (ofOne .sessionScoped ["environment"] none 3600000).BothKeep .connect .connect := by
  refine ⟨by decide +kernel, by decide +kernel, by decide +kernel, by decide +kernel,
    by decide +kernel, by decide +kernel, ?_, ?_, ?_, ?_⟩
  · intro h
    have hrecalls := (Neo4jMemoryStore.neo4j_keeps_iff _ _).mp h.2 _ List.mem_cons_self
    cases hrecalls.slow (by decide +kernel) rfl
  · intro h
    have hrecalls := ((RedisMemoryStore.redis_keeps_iff _ _).mp h.1).2 _ List.mem_cons_self
    exact hrecalls.unlisted (by decide +kernel)
  · intro h
    rcases ((RedisMemoryStore.redis_keeps_iff _ _).mp h.1).1 with hnil | hlong
    · cases hnil
    · exact absurd (hlong 500 rfl) (by decide)
  · intro h
    have hrecalls := ((RedisMemoryStore.redis_keeps_iff _ _).mp h.1).2 _ List.mem_cons_self
    exact hrecalls.session (by decide +kernel) rfl (by decide +kernel)

end
end Handover
end Epica
