import Epica.Core.Bounds
import Epica.Lib.Expiry
import Epica.Lib.HashOrder

/-!
# Long-term memory

A run flushes snapshots of its beliefs to a store, and a later run loads nodes from it.
`LongTermMemoryStore` is what a store offers, `Keeps` what one expects of it: each flushed belief
comes back once if the schema lists it and the retention policy has not let it expire, and otherwise
it does not come back.

* `Recalled`                         the ways in which a load may treat a flushed belief;
* `recalled_singleton`, `recalled_nil`   what it takes to come back, and not to come back.
-/

set_option linter.unusedSectionVars false

namespace Epica
open Lib

/-! ## retention -/

inductive RetentionPolicy where
  | permanent
  /-- in milliseconds -/
  | duration (ms : Nat)
  | until (condition : String)
  | sessionScoped

/-- `sessionScoped` and `until` are left to the runtime, at the end of the session -/
def RetentionPolicy.isExpired (retention : RetentionPolicy) (createdAtMs nowMs : Nat) : Bool :=
  match retention with
  | .permanent => false
  | .duration ms => decide (ms < nowMs - createdAtMs)
  | .sessionScoped => false
  | .until _ => false

theorem RetentionPolicy.isExpired_duration {ms createdAtMs nowMs : Nat} :
    (duration ms).isExpired createdAtMs nowMs = true ↔ ms < nowMs - createdAtMs :=
  decide_eq_true_iff

/-! ## what goes in and out -/

structure FlushResult where
  beliefsWritten : Nat
  causalEdgesWritten : Nat
  durationMs : Nat
deriving DecidableEq

structure BeliefKeyDescriptor where
  key : String

structure SchemaDescriptor where
  beliefKeys : List BeliefKeyDescriptor

/-- the schema lists the key -/
def SchemaDescriptor.Lists (schema : SchemaDescriptor) (key : String) : Prop :=
  key ∈ schema.beliefKeys.map BeliefKeyDescriptor.key

instance (schema : SchemaDescriptor) (key : String) : Decidable (schema.Lists key) :=
  inferInstanceAs (Decidable (key ∈ schema.beliefKeys.map BeliefKeyDescriptor.key))

/-- `message` is the text of what the server answers -/
inductive MemoryError where
  | connection (message : String)

/-- the clock during a flush: when it starts and ends, and when the server writes each key -/
structure FlushTimes where
  startMs : Nat
  endMs : Nat
  writtenMs : String → Nat

/-- the clock during a load: when the keys are asked for, and when each of them is read -/
structure LoadTimes where
  nowMs : Nat
  readMs : String → Nat
  le_readMs : ∀ key, nowMs ≤ readMs key

/-- a flush and a load take place within one reading of the clock -/
def FlushTimes.once (nowMs : Nat) : FlushTimes := ⟨nowMs, nowMs, fun _ => nowMs⟩
def LoadTimes.once (nowMs : Nat) : LoadTimes := ⟨nowMs, fun _ => nowMs, fun _ => Nat.le_refl nowMs⟩

/-- of a sovereignty the retention policy alone is read; the order is the one in which the server
enumerates keys -/
class LongTermMemoryStore (S : Type) where
  flush (times : FlushTimes) (beliefs : List BeliefSnapshot) (sovereignty : RetentionPolicy)
    (store : S) : Except MemoryError FlushResult × S
  load (order : HashOrder String) (times : LoadTimes) (domainSchema : SchemaDescriptor)
    (recencyDecay : ℚ) (store : S) : Except MemoryError (List BeliefNode)
  sovereignty (store : S) : RetentionPolicy

/-! ## what is expected -/

/-- what one run flushes and a later one loads -/
structure Handover where
  retention : RetentionPolicy
  beliefs : List BeliefSnapshot
  nodup : (beliefs.map BeliefSnapshot.key).Nodup
  flushed : FlushTimes
  order : HashOrder String
  loaded : LoadTimes
  schema : SchemaDescriptor
  recencyDecay : ℚ

/-- the node that a snapshot comes back as -/
structure Restored (recencyDecay : ℚ) (snapshot : BeliefSnapshot) (node : BeliefNode) : Prop where
  value : node.value = snapshot.value
  fastConfidence : node.fastConfidence = snapshot.fastConfidence * recencyDecay
  slowConfidence : node.slowConfidence = snapshot.slowConfidence.map (· * recencyDecay)

/-- both stores clamp a decayed confidence, and the new node clamps it again -/
theorem clamp_clamp_eq_iff {x : ℚ} : clamp (clamp x 0 1) 0 1 = x ↔ InUnit x := by
  rw [clamp_eq_self_iff.mpr (inUnit_clamp x), clamp_eq_self_iff]

section
variable (h : Handover) (granularityMs written read : Nat) (snapshot : BeliefSnapshot)

/-- the nodes of a load under the key of a flushed snapshot are as they should be, where the store
expires records to within `granularityMs` -/
inductive Recalled : List BeliefNode → Prop where
  | restored {node : BeliefNode} (listed : h.schema.Lists snapshot.key)
      (kept : h.retention.isExpired written read = false)
      (restored : Restored h.recencyDecay snapshot node) : Recalled [node]
  | unlisted (unlisted : ¬ h.schema.Lists snapshot.key) : Recalled []
  | expired (expired : h.retention.isExpired written (read + granularityMs) = true) : Recalled []

variable {h granularityMs written read snapshot}

theorem recalled_singleton {node : BeliefNode} :
    Recalled h granularityMs written read snapshot [node] ↔ h.schema.Lists snapshot.key ∧
      h.retention.isExpired written read = false ∧ Restored h.recencyDecay snapshot node := by
  constructor
  · intro hrecalled
    cases hrecalled with
    | restored listed kept restored => exact ⟨listed, kept, restored⟩
  · intro hnode
    obtain ⟨hlisted, hkept, hrestored⟩ := hnode
    exact .restored hlisted hkept hrestored

theorem recalled_nil : Recalled h granularityMs written read snapshot [] ↔
    ¬ h.schema.Lists snapshot.key ∨
      h.retention.isExpired written (read + granularityMs) = true := by
  constructor
  · intro hrecalled
    cases hrecalled with
    | unlisted hunlisted => exact Or.inl hunlisted
    | expired hexpired => exact Or.inr hexpired
  · intro hnone
    rcases hnone with hunlisted | hexpired
    · exact .unlisted hunlisted
    · exact .expired hexpired

end

namespace Handover
variable (h : Handover)

/-- the flush succeeds, and the load after it recalls every flushed belief; `written` and `read` are
the times that count for a key -/
def Keeps {S : Type} [LongTermMemoryStore S] (granularityMs : Nat) (written read : String → Nat)
    (store : S) : Prop :=
  ∃ result store' nodes,
    LongTermMemoryStore.flush h.flushed h.beliefs h.retention store = (.ok result, store') ∧
    LongTermMemoryStore.load h.order h.loaded h.schema h.recencyDecay store' = .ok nodes ∧
    ∀ snapshot ∈ h.beliefs,
      Recalled h granularityMs (written snapshot.key) (read snapshot.key) snapshot
        (nodes.filter fun node => node.key = snapshot.key)

variable {h} in
theorem keeps_iff {S : Type} [LongTermMemoryStore S] {granularityMs : Nat}
    {written read : String → Nat} {store store' : S} {result : FlushResult}
    {nodes : List BeliefNode}
    (hflush : LongTermMemoryStore.flush h.flushed h.beliefs h.retention store =
      (.ok result, store'))
    (hload : LongTermMemoryStore.load h.order h.loaded h.schema h.recencyDecay store' =
      .ok nodes) :
    h.Keeps granularityMs written read store ↔ ∀ snapshot ∈ h.beliefs,
      Recalled h granularityMs (written snapshot.key) (read snapshot.key) snapshot
        (nodes.filter fun node => node.key = snapshot.key) := by
  constructor
  · intro hkeeps
    obtain ⟨_, _, _, hflush', hload', hall⟩ := hkeeps
    obtain ⟨-, rfl⟩ := Prod.mk.inj (hflush.symm.trans hflush')
    obtain rfl := Except.ok.inj (hload.symm.trans hload')
    exact hall
  · intro hall
    exact ⟨result, store', nodes, hflush, hload, hall⟩

end Handover

end Epica
