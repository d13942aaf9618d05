import Epica.Lib.TryFold
import Epica.Memory.Store

/-!
# The Redis store

The working memory.  A flush writes each snapshot under its key, with a time to live that comes from
the retention policy, and a load returns whatever is there.  The store is the part of the database
under the prefix of the belief keys, and its invariant is that each record is that of its key.

* `flush_ok_iff`       a flush fails exactly when it has something to write with a time to live of
                       `0` seconds;
* `get_flush`          what is there for a key after a flush;
* `redis_keeps_iff`    the handovers that the store keeps.
-/

set_option linter.unusedSectionVars false

namespace Epica
open Lib

structure RedisMemoryStore where
  db : TimedMap String BeliefSnapshot
  keyed : ∀ key record, db.lookup key = some record → record.value.key = key
  sovereignty : RetentionPolicy

/-- the answer to a time to live of `0` -/
def invalidExpireTime : String := "invalid expire time in 'setex' command"

namespace RedisMemoryStore

def connect : RedisMemoryStore where
  db := ∅
  keyed key record h := by
    rw [AList.lookup_empty] at h
    cases h
  sovereignty := .permanent

def withSovereignty (store : RedisMemoryStore) (sovereignty : RetentionPolicy) : RedisMemoryStore :=
  { store with sovereignty := sovereignty }

/-- the record that is written for a snapshot -/
def record (times : FlushTimes) (lifetimeMs : Option Nat) (snapshot : BeliefSnapshot) :
    Timed BeliefSnapshot :=
  ⟨snapshot, times.writtenMs snapshot.key, lifetimeMs⟩

/-- a write, with its lifetime in milliseconds if it has one -/
def put (times : FlushTimes) (lifetimeMs : Option Nat) (store : RedisMemoryStore)
    (snapshot : BeliefSnapshot) : RedisMemoryStore where
  db := store.db.insert snapshot.key (record times lifetimeMs snapshot)
  keyed key e h := by
    by_cases hkey : key = snapshot.key
    · subst hkey
      rw [AList.lookup_insert] at h
      obtain rfl := Option.some.inj h
      rfl
    · rw [AList.lookup_insert_ne hkey] at h
      exact store.keyed key e h
  sovereignty := store.sovereignty

def set (times : FlushTimes) (store : RedisMemoryStore) (snapshot : BeliefSnapshot) :
    RedisMemoryStore :=
  store.put times none snapshot

def setEx (times : FlushTimes) (ttl : Nat) (store : RedisMemoryStore) (snapshot : BeliefSnapshot) :
    Except MemoryError RedisMemoryStore :=
  if ttl = 0 then .error (.connection invalidExpireTime)
  else .ok (store.put times (some (ttl * 1000)) snapshot)

def ttlSeconds : RetentionPolicy → Option Nat
  | .permanent => none
  | .duration ms => some (ms / 1000)
  | .sessionScoped => some 3600
  | .until _ => none

/-- one snapshot of a flush, with the number of those written so far -/
def flushOne (times : FlushTimes) (ttl : Option Nat) (s : RedisMemoryStore × Nat)
    (snapshot : BeliefSnapshot) : Except MemoryError Unit × RedisMemoryStore × Nat :=
  match ttl with
  | some ttl =>
    match s.1.setEx times ttl snapshot with
    | .ok store => (.ok (), store, s.2 + 1)
    | .error e => (.error e, s)
  | none => (.ok (), s.1.set times snapshot, s.2 + 1)

def flush (times : FlushTimes) (beliefs : List BeliefSnapshot) (sovereignty : RetentionPolicy)
    (store : RedisMemoryStore) : Except MemoryError FlushResult × RedisMemoryStore :=
  match tryFold (flushOne times (ttlSeconds sovereignty)) (store, 0) beliefs with
  | (.ok (), s) => (.ok ⟨s.2, 0, times.endMs - times.startMs⟩, s.1)
  | (.error e, s) => (.error e, s.1)

/-- the node of a snapshot that is loaded at the time `nowMs` -/
def toNode (nowMs : Nat) (recencyDecay : ℚ) (snapshot : BeliefSnapshot) : BeliefNode :=
  { BeliefNode.new nowMs snapshot.key snapshot.value (.runtimeInference [])
      (clamp (snapshot.fastConfidence * recencyDecay) 0 1) with
    slowConfidence := snapshot.slowConfidence.map (· * recencyDecay) }

/-- what is loaded for a key, which may have expired since the keys were listed -/
def loadOne (times : LoadTimes) (recencyDecay : ℚ) (store : RedisMemoryStore) (key : String) :
    Option BeliefNode :=
  (store.db.get (times.readMs key) key).map (toNode (times.readMs key) recencyDecay)

def load (order : HashOrder String) (times : LoadTimes) (_domainSchema : SchemaDescriptor)
    (recencyDecay : ℚ) (store : RedisMemoryStore) : Except MemoryError (List BeliefNode) :=
  .ok ((order.shuffle (store.db.keysAt times.nowMs)).filterMap
    (store.loadOne times recencyDecay))

instance : LongTermMemoryStore RedisMemoryStore where
  flush := flush
  load := load
  sovereignty := sovereignty

/-! ## what a flush writes -/

section
variable {times : FlushTimes} {retention : RetentionPolicy}

/-- the lifetime of the records that a flush writes -/
def lifetimeMs (retention : RetentionPolicy) : Option Nat := (ttlSeconds retention).map (· * 1000)

def putAll (times : FlushTimes) (lifetime : Option Nat) (store : RedisMemoryStore)
    (beliefs : List BeliefSnapshot) : RedisMemoryStore :=
  beliefs.foldl (put times lifetime) store

theorem db_putAll (lifetime : Option Nat) (store : RedisMemoryStore)
    (beliefs : List BeliefSnapshot) : (putAll times lifetime store beliefs).db =
      writeAll BeliefSnapshot.key (record times lifetime) store.db beliefs := by
  induction beliefs generalizing store with
  | nil => rfl
  | cons snapshot beliefs ih => exact ih (store.put times lifetime snapshot)

theorem flushOne_ok (h : ttlSeconds retention ≠ some 0) (s : RedisMemoryStore × Nat)
    (snapshot : BeliefSnapshot) : flushOne times (ttlSeconds retention) s snapshot =
      (.ok (), s.1.put times (lifetimeMs retention) snapshot, s.2 + 1) := by
  unfold flushOne lifetimeMs
  cases httl : ttlSeconds retention with
  | none => rfl
  | some ttl =>
    have hpos : ttl ≠ 0 := fun hzero => h (by rw [httl, hzero])
    simp only [setEx, if_neg hpos, Option.map_some]

theorem tryFold_flushOne (h : ttlSeconds retention ≠ some 0) (beliefs : List BeliefSnapshot)
    (store : RedisMemoryStore) (n : Nat) :
    tryFold (flushOne times (ttlSeconds retention)) (store, n) beliefs =
      (.ok (), putAll times (lifetimeMs retention) store beliefs, n + beliefs.length) := by
  induction beliefs generalizing store n with
  | nil => rfl
  | cons snapshot beliefs ih =>
    rw [tryFold_cons_ok (flushOne_ok h (store, n) snapshot), ih, List.length_cons,
      Nat.add_right_comm, Nat.add_assoc]
    rfl

/-- a flush writes all its snapshots -/
theorem flush_ok {beliefs : List BeliefSnapshot}
    (h : beliefs = [] ∨ ttlSeconds retention ≠ some 0) (store : RedisMemoryStore) :
    store.flush times beliefs retention =
      (.ok ⟨beliefs.length, 0, times.endMs - times.startMs⟩,
        putAll times (lifetimeMs retention) store beliefs) := by
  rcases h with hnil | httl
  · subst hnil
    rfl
  · unfold flush
    rw [tryFold_flushOne httl, Nat.zero_add]

/-- a time to live of `0` seconds makes the first write fail -/
theorem flush_fails (h : ttlSeconds retention = some 0) (snapshot : BeliefSnapshot)
    (beliefs : List BeliefSnapshot) (store : RedisMemoryStore) :
    store.flush times (snapshot :: beliefs) retention =
      (.error (.connection invalidExpireTime), store) := by
  have hone : flushOne times (ttlSeconds retention) (store, 0) snapshot =
      (.error (.connection invalidExpireTime), (store, 0)) := by
    unfold flushOne
    rw [h]
    rfl
  unfold flush
  rw [tryFold_cons_error hone]

/-- **a flush fails exactly when it has something to write with a time to live of `0` seconds** -/
theorem flush_ok_iff {beliefs : List BeliefSnapshot} {store : RedisMemoryStore} :
    (∃ result store', store.flush times beliefs retention = (.ok result, store')) ↔
      beliefs = [] ∨ ttlSeconds retention ≠ some 0 := by
  constructor
  · intro hok
    obtain ⟨result, store', hflush⟩ := hok
    cases beliefs with
    | nil => exact Or.inl rfl
    | cons snapshot beliefs =>
      refine Or.inr fun httl => ?_
      rw [flush_fails httl] at hflush
      cases (Prod.mk.inj hflush).1
  · intro h
    exact ⟨_, _, flush_ok h store⟩

/-- the record of a flushed snapshot -/
theorem lookup_flush (lifetime : Option Nat) {beliefs : List BeliefSnapshot}
    (hnodup : (beliefs.map BeliefSnapshot.key).Nodup) {snapshot : BeliefSnapshot}
    (h : snapshot ∈ beliefs) (store : RedisMemoryStore) :
    (putAll times lifetime store beliefs).db.lookup snapshot.key =
      some (record times lifetime snapshot) := by
  rw [db_putAll]
  exact lookup_writeAll BeliefSnapshot.key (record times lifetime) store.db hnodup h

end

/-! ## what a load returns -/

theorem key_of_loadOne {times : LoadTimes} {recencyDecay : ℚ} {store : RedisMemoryStore}
    {key : String} {node : BeliefNode} (h : store.loadOne times recencyDecay key = some node) :
    node.key = key := by
  unfold loadOne at h
  obtain ⟨snapshot, hget, rfl⟩ := Option.map_eq_some_iff.mp h
  obtain ⟨record, hlookup, -, rfl⟩ := TimedMap.get_eq_some.mp hget
  exact store.keyed key record hlookup

/-- a load returns for a key what is there when it is read -/
theorem filter_load (order : HashOrder String) (times : LoadTimes) (recencyDecay : ℚ)
    (store : RedisMemoryStore) (key : String) :
    (((order.shuffle (store.db.keysAt times.nowMs)).filterMap
      (store.loadOne times recencyDecay)).filter fun node => node.key = key) =
        (store.loadOne times recencyDecay key).toList := by
  have hnodup : (order.shuffle (store.db.keysAt times.nowMs)).Nodup :=
    (order.perm _).nodup_iff.mpr (TimedMap.nodup_keysAt times.nowMs)
  rw [filter_filterMap BeliefNode.key (fun _ _ h => key_of_loadOne h) hnodup]
  split
  · rfl
  · rename_i hgone
    have hnone : store.db.get (times.readMs key) key = none := by
      cases hget : store.db.get (times.readMs key) key with
      | none => rfl
      | some snapshot =>
        refine absurd ((order.mem_shuffle _ key).mpr (TimedMap.mem_keysAt.mpr ?_)) hgone
        rw [TimedMap.get_of_le (times.le_readMs key) hget]
        rfl
    unfold loadOne
    rw [hnone]
    rfl

end RedisMemoryStore

/-! ## the handovers that are kept -/

namespace RetentionPolicy

/-- the time that Redis gives a record has passed -/
def Lapsed (retention : RetentionPolicy) (writtenMs readMs : Nat) : Prop :=
  match retention with
  | .permanent => False
  | .duration ms => writtenMs + ms / 1000 * 1000 ≤ readMs
  | .sessionScoped => writtenMs + 3600000 ≤ readMs
  | .until _ => False

instance : (retention : RetentionPolicy) → (writtenMs readMs : Nat) →
    Decidable (retention.Lapsed writtenMs readMs)
  | .permanent, _, _ => .isFalse fun h => h
  | .duration ms, writtenMs, readMs =>
    inferInstanceAs (Decidable (writtenMs + ms / 1000 * 1000 ≤ readMs))
  | .sessionScoped, writtenMs, readMs => inferInstanceAs (Decidable (writtenMs + 3600000 ≤ readMs))
  | .until _, _, _ => .isFalse fun h => h

variable {retention : RetentionPolicy} {writtenMs readMs : Nat}

/-- the seconds are rounded down, so that a record does not outlive its policy -/
theorem isExpired_of_not_lapsed (h : ¬ retention.Lapsed writtenMs readMs) :
    retention.isExpired writtenMs readMs = false := by
  cases retention with
  | duration ms =>
    have hlt : readMs < writtenMs + ms / 1000 * 1000 := not_le.mp h
    have hle : ms / 1000 * 1000 ≤ ms := Nat.div_mul_le_self ms 1000
    refine Bool.eq_false_iff.mpr fun hexpired => ?_
    have hover := isExpired_duration.mp hexpired
    omega
  | _ => rfl

/-- a second later the policy has let the record expire, except at the end of a session -/
theorem isExpired_of_lapsed (h : retention.Lapsed writtenMs readMs) :
    retention.isExpired writtenMs (readMs + 1000) = true ↔ retention ≠ .sessionScoped := by
  cases retention with
  | permanent => cases h
  | duration ms =>
    have hle : writtenMs + ms / 1000 * 1000 ≤ readMs := h
    refine iff_of_true (isExpired_duration.mpr ?_) (fun hsession => nomatch hsession)
    omega
  | «until» condition => cases h
  | sessionScoped => exact iff_of_false Bool.false_ne_true fun hne => hne rfl

theorem ttlSeconds_ne_zero_iff : RedisMemoryStore.ttlSeconds retention ≠ some 0 ↔
    ∀ ms, retention = .duration ms → 1000 ≤ ms := by
  cases retention with
  | duration ms =>
    have hzero : RedisMemoryStore.ttlSeconds (.duration ms) = some 0 ↔ ms / 1000 = 0 :=
      ⟨fun h => Option.some.inj h, fun h => congrArg some h⟩
    rw [Ne, hzero]
    constructor
    · intro h ms' hms
      obtain rfl := duration.inj hms
      omega
    · intro h hdiv
      have hle := h ms rfl
      omega
  | sessionScoped =>
    exact iff_of_true (fun h => by cases Option.some.inj h) fun ms hms => nomatch hms
  | permanent => exact iff_of_true (fun h => nomatch h) fun ms hms => nomatch hms
  | «until» condition => exact iff_of_true (fun h => nomatch h) fun ms hms => nomatch hms

end RetentionPolicy

namespace Handover
variable (h : Handover)

/-- what the Redis store needs of a flushed belief -/
structure RedisRecalls (snapshot : BeliefSnapshot) : Prop where
  session : h.schema.Lists snapshot.key → h.retention = .sessionScoped →
    ¬ h.retention.Lapsed (h.flushed.writtenMs snapshot.key) (h.loaded.readMs snapshot.key)
  confidence : h.schema.Lists snapshot.key →
    ¬ h.retention.Lapsed (h.flushed.writtenMs snapshot.key) (h.loaded.readMs snapshot.key) →
    InUnit (snapshot.fastConfidence * h.recencyDecay)
  unlisted : ¬ h.schema.Lists snapshot.key →
    h.retention.Lapsed (h.flushed.writtenMs snapshot.key) (h.loaded.readMs snapshot.key)

end Handover

namespace RedisMemoryStore
variable {h : Handover} {snapshot : BeliefSnapshot}

theorem restored_toNode (nowMs : Nat) (recencyDecay : ℚ) (snapshot : BeliefSnapshot) :
    Restored recencyDecay snapshot (toNode nowMs recencyDecay snapshot) ↔
      InUnit (snapshot.fastConfidence * recencyDecay) := by
  constructor
  · intro hrestored
    exact clamp_clamp_eq_iff.mp hrestored.fastConfidence
  · intro hunit
    exact ⟨rfl, clamp_clamp_eq_iff.mpr hunit, rfl⟩

/-- what is loaded for a flushed belief -/
theorem loadOne_flush (store : RedisMemoryStore) (hmem : snapshot ∈ h.beliefs) :
    (putAll h.flushed (lifetimeMs h.retention) store h.beliefs).loadOne h.loaded h.recencyDecay
        snapshot.key =
      if h.retention.Lapsed (h.flushed.writtenMs snapshot.key) (h.loaded.readMs snapshot.key) then
        none
      else some (toNode (h.loaded.readMs snapshot.key) h.recencyDecay snapshot) := by
  unfold loadOne
  rw [TimedMap.get_of_lookup (lookup_flush _ h.nodup hmem store)]
  have halive : (record h.flushed (lifetimeMs h.retention) snapshot).alive
      (h.loaded.readMs snapshot.key) = true ↔
      ¬ h.retention.Lapsed (h.flushed.writtenMs snapshot.key)
        (h.loaded.readMs snapshot.key) := by
    unfold Timed.alive record lifetimeMs
    cases h.retention with
    | permanent => exact iff_of_true rfl fun hlapsed => hlapsed
    | duration ms => exact decide_eq_true_iff.trans not_le.symm
    | sessionScoped => exact decide_eq_true_iff.trans not_le.symm
    | «until» condition => exact iff_of_true rfl fun hlapsed => hlapsed
  split
  · rename_i hthere
    rw [if_neg (halive.mp hthere)]
    rfl
  · rename_i hgone
    rw [if_pos (not_not.mp fun hlapsed => hgone (halive.mpr hlapsed))]
    rfl

theorem recalled_iff (store : RedisMemoryStore) (hmem : snapshot ∈ h.beliefs) :
    Recalled h 1000 (h.flushed.writtenMs snapshot.key) (h.loaded.readMs snapshot.key) snapshot
        ((putAll h.flushed (lifetimeMs h.retention) store h.beliefs).loadOne h.loaded
          h.recencyDecay snapshot.key).toList ↔ h.RedisRecalls snapshot := by
  rw [loadOne_flush store hmem]
  split
  · rename_i hlapsed
    rw [Option.toList_none, recalled_nil, RetentionPolicy.isExpired_of_lapsed hlapsed]
    constructor
    · intro hnone
      refine ⟨fun hlisted hsession => ?_, fun _ hnot => absurd hlapsed hnot, fun _ => hlapsed⟩
      exact absurd hsession (hnone.resolve_left fun hunlisted => hunlisted hlisted)
    · intro hrecalls
      by_cases hlisted : h.schema.Lists snapshot.key
      · exact Or.inr fun hsession => hrecalls.session hlisted hsession hlapsed
      · exact Or.inl hlisted
  · rename_i hwarm
    rw [Option.toList_some, recalled_singleton, restored_toNode]
    constructor
    · intro hnode
      obtain ⟨hlisted, -, hunit⟩ := hnode
      exact ⟨fun _ _ => hwarm, fun _ _ => hunit, fun hunlisted => absurd hlisted hunlisted⟩
    · intro hrecalls
      have hlisted : h.schema.Lists snapshot.key :=
        not_not.mp fun hunlisted => hwarm (hrecalls.unlisted hunlisted)
      exact ⟨hlisted, RetentionPolicy.isExpired_of_not_lapsed hwarm,
        hrecalls.confidence hlisted hwarm⟩

/-- **the handovers that the Redis store keeps**, to within a second -/
theorem redis_keeps_iff (h : Handover) (store : RedisMemoryStore) :
    h.Keeps 1000 h.flushed.writtenMs h.loaded.readMs store ↔
      (h.beliefs = [] ∨ ∀ ms, h.retention = .duration ms → 1000 ≤ ms) ∧
        ∀ snapshot ∈ h.beliefs, h.RedisRecalls snapshot := by
  rw [← RetentionPolicy.ttlSeconds_ne_zero_iff]
  have hall (hok : h.beliefs = [] ∨ ttlSeconds h.retention ≠ some 0) :
      h.Keeps 1000 h.flushed.writtenMs h.loaded.readMs store ↔
        ∀ snapshot ∈ h.beliefs, h.RedisRecalls snapshot := by
    rw [Handover.keeps_iff (flush_ok hok store) rfl]
    refine forall₂_congr fun snapshot hmem => ?_
    rw [filter_load]
    exact recalled_iff store hmem
  constructor
  · intro hkeeps
    obtain ⟨result, store', -, hflush, -, -⟩ := id hkeeps
    have hok := flush_ok_iff.mp ⟨result, store', hflush⟩
    exact ⟨hok, (hall hok).mp hkeeps⟩
  · intro hkept
    exact (hall hkept.1).mpr hkept.2

end RedisMemoryStore
end Epica
