import Epica.Core.DiffLaws
import Epica.Core.Uninferred
import Epica.Runtime.KeyIndex

/-!
# The quad as a Python dictionary

A `PyBeliefQuad` is a quad and an index from keys to ids.  `keys` and `len` read the quad,
`contains` the index, `get` both.  Errors are Python exceptions with a text.  `PyText` has what is
not computed here: the `Debug` text of a string, and the texts of uuids.

* `step_quad`             a method is at most one operation of the quad, and records no inference;
* `dictionary_iff`        a run from the empty quad behaves as a dictionary throughout exactly when
                          no call inserts a key that is held.
-/

set_option linter.unusedSectionVars false

namespace Epica
open Lib

class PyText where
  debug : String → String
  uuid : Uuid → String
  parseUuid : String → Option Uuid

/-! ## errors -/

inductive PyErr where
  | beliefRevisionError (message : String)
  | checkpointError (message : String)
  | keyError (message : String)
  | valueError (message : String)
deriving DecidableEq

def BeliefRevisionError.toText : BeliefRevisionError → String
  | .beliefNotFound => "belief not found in quad"
  | .inconsistentRevision => "revision would produce an inconsistent belief set"
  | .postulateViolation postulate => s!"postulate audit failed: {postulate}"

def mapRevisionErr (e : BeliefRevisionError) : PyErr := .beliefRevisionError e.toText

section
variable [PyText]

def RollbackError.toText : RollbackError → String
  | .checkpointNotFound id => s!"checkpoint CheckpointId({PyText.uuid id}) not found"
  | .unnecessaryContraction _ => "rollback would unnecessarily contract beliefs (K*4 violation)"

def mapRollbackErr (e : RollbackError) : PyErr := .checkpointError e.toText

/-! ## arguments and results -/

def CheckpointId.toText (id : CheckpointId) : String := s!"chk:{PyText.uuid id}"

/-- with or without `chk:` before the uuid -/
def CheckpointId.parse (s : String) : Option CheckpointId :=
  match s.toList with
  | 'c' :: 'h' :: 'k' :: ':' :: cs => PyText.parseUuid (.ofList cs)
  | _ => PyText.parseUuid s

def parseCheckpointId (s : String) : Except PyErr CheckpointId :=
  match CheckpointId.parse s with
  | some id => .ok id
  | none => .error (.checkpointError s!"invalid checkpoint ID: {PyText.debug s}")

end

/-- where a belief comes from, as it is passed -/
structure ProvenanceArgs where
  provenance : Option String
  llmModel : Option String
  toolName : Option String

/-- `callId` is the uuid that is drawn for a model's or a tool's call -/
def PyBeliefQuad.parseProvenance (args : ProvenanceArgs) (callId : Uuid) : Provenance :=
  match args.provenance with
  | some "llm" => .llmInference (args.llmModel.getD "unknown") callId 0
  | some "tool" => .toolResult (args.toolName.getD "unknown") callId
  | _ => .userStatement 0

/-- a diff, its beliefs by their keys -/
structure PyBeliefDiff where
  added : List String
  removed : List String
  modified : List String
  hasContradictions : Bool

def diffToPy (diff : BeliefQuadDiff) : PyBeliefDiff where
  added := diff.added.map BeliefSnapshot.key
  removed := diff.removed.map BeliefSnapshot.key
  modified := diff.modified.map BeliefModification.key
  hasContradictions := !(diff.added.map BeliefSnapshot.key).isEmpty ||
    !(diff.removed.map BeliefSnapshot.key).isEmpty ||
    !(diff.modified.map BeliefModification.key).isEmpty

/-! ## the methods -/

structure PyBeliefQuad (M : Type → Type) (G : Type → Type → Type) where
  quad : BeliefQuad M G
  /-- kept in sync with the quad -/
  keyToId : Finmap fun _ : String => BeliefId

namespace PyBeliefQuad
section
variable {M : Type → Type} {G : Type → Type → Type} [SlotMap M] [StableDiGraph G]

def new : PyBeliefQuad M G := ⟨.new, ∅⟩

def rebuildIndex (s : PyBeliefQuad M G) : PyBeliefQuad M G :=
  { s with
    keyToId := (SlotMap.iter s.quad.nodes).foldl (fun index e => index.insert e.2.key e.1) ∅ }

def insert (s : PyBeliefQuad M G) (stamp : Stamp) (key value : String) (confidence : ℚ)
    (args : ProvenanceArgs) : PyBeliefQuad M G :=
  let prov := parseProvenance args stamp.uuid
  let node := BeliefNode.new stamp.nowMs key (.asserted value) prov confidence
  let (id, quad) := s.quad.insert node
  ⟨quad, s.keyToId.insert key id⟩

def get (s : PyBeliefQuad M G) (key : String) : Option BeliefNode :=
  (s.keyToId.lookup key).bind s.quad.get

def remove (s : PyBeliefQuad M G) (key : String) : Bool × PyBeliefQuad M G :=
  match s.keyToId.lookup key with
  | some id =>
    let (node, quad) := s.quad.remove id
    (node.isSome, ⟨quad, s.keyToId.erase key⟩)
  | none => (false, s)

def keys (s : PyBeliefQuad M G) : List String := (SlotMap.iter s.quad.nodes).map fun e => e.2.key

def len (s : PyBeliefQuad M G) : Nat := SlotMap.len s.quad.nodes

def contains (s : PyBeliefQuad M G) (key : String) : Bool := (s.keyToId.lookup key).isSome

def setitem (s : PyBeliefQuad M G) (stamp : Stamp) (key value : String) : PyBeliefQuad M G :=
  s.insert stamp key value 1 ⟨none, none, none⟩

variable [PyText]

def delitem (s : PyBeliefQuad M G) (key : String) : Except PyErr Unit × PyBeliefQuad M G :=
  let (removed, s') := s.remove key
  if !removed then (.error (.keyError s!"belief key not found: {PyText.debug key}"), s')
  else (.ok (), s')

def checkpoint (s : PyBeliefQuad M G) (stamp : Stamp) : String × PyBeliefQuad M G :=
  let (id, quad) := s.quad.checkpoint stamp.uuid stamp.nowMs
  (CheckpointId.toText id, { s with quad := quad })

def rollbackTo (s : PyBeliefQuad M G) (checkpointId : String) :
    Except PyErr PyBeliefDiff × PyBeliefQuad M G :=
  match parseCheckpointId checkpointId with
  | .error e => (.error e, s)
  | .ok id =>
    match s.quad.rollbackTo id with
    | (.error e, quad) => (.error (mapRollbackErr e), { s with quad := quad })
    | (.ok diff, quad) => (.ok (diffToPy diff), rebuildIndex { s with quad := quad })

/-- the id of a key, or an error -/
def lookup (s : PyBeliefQuad M G) (key : String) : Except PyErr BeliefId :=
  match s.keyToId.lookup key with
  | some id => .ok id
  | none => .error (.keyError s!"key not found: {PyText.debug key}")

/-- both ends are looked up before an edge is added -/
def addEdge (s : PyBeliefQuad M G) (fromKey toKey : String)
    (add : BeliefId → BeliefId → BeliefQuad M G) : Except PyErr Unit × PyBeliefQuad M G :=
  match s.lookup fromKey with
  | .error e => (.error e, s)
  | .ok src =>
    match s.lookup toKey with
    | .error e => (.error e, s)
    | .ok dst => (.ok (), { s with quad := add src dst })

def parseSemanticEdge (edgeType : String) : Except PyErr SemanticEdge :=
  match edgeType with
  | "subsumes" => .ok .subsumes
  | "contradicts" => .ok .contradicts
  | "synonymous" => .ok .synonymous
  | other => .error (.valueError (s!"unknown semantic edge type: {PyText.debug other}; " ++
      "use 'subsumes', 'contradicts', or 'synonymous'"))

def addSemanticEdge (s : PyBeliefQuad M G) (fromKey toKey edgeType : String) :
    Except PyErr Unit × PyBeliefQuad M G :=
  match parseSemanticEdge edgeType with
  | .error e => (.error e, s)
  | .ok edge => s.addEdge fromKey toKey fun src dst => s.quad.addSemanticEdge src dst edge

def addCausalEdge (s : PyBeliefQuad M G) (causeKey effectKey : String)
    (effectSize confidence : ℚ) : Except PyErr Unit × PyBeliefQuad M G :=
  s.addEdge causeKey effectKey fun src dst =>
    s.quad.addCausalEdge src dst (.causes effectSize confidence)

def addTemporalEdge (s : PyBeliefQuad M G) (earlierKey laterKey : String) :
    Except PyErr Unit × PyBeliefQuad M G :=
  s.addEdge earlierKey laterKey fun src dst => s.quad.addTemporalEdge src dst (.precedes 0)

variable [Platform]

def revise (s : PyBeliefQuad M G) (callId : Uuid) (stamp : Stamp) (order : HashOrder BeliefId)
    (key newValue : String) (confidence : ℚ) (args : ProvenanceArgs) :
    Except PyErr Unit × PyBeliefQuad M G :=
  let prov := parseProvenance args callId
  match s.keyToId.lookup key with
  | none => (.error (.beliefRevisionError s!"belief key not found: {PyText.debug key}"), s)
  | some id =>
    match s.quad.revise stamp order id (.asserted newValue) prov confidence with
    | (.error e, quad) => (.error (mapRevisionErr e), { s with quad := quad })
    | (.ok _, quad) => (.ok (), { s with quad := quad })

end
end PyBeliefQuad

/-! ## calls -/

inductive PyOp where
  | insert (stamp : Stamp) (key value : String) (confidence : ℚ) (args : ProvenanceArgs)
  | setitem (stamp : Stamp) (key value : String)
  | revise (callId : Uuid) (stamp : Stamp) (order : HashOrder BeliefId) (key newValue : String)
      (confidence : ℚ) (args : ProvenanceArgs)
  | remove (key : String)
  | delitem (key : String)
  | addSemanticEdge (fromKey toKey edgeType : String)
  | addCausalEdge (causeKey effectKey : String) (effectSize confidence : ℚ)
  | addTemporalEdge (earlierKey laterKey : String)
  | checkpoint (stamp : Stamp)
  | rollbackTo (checkpointId : String)

namespace PyBeliefQuad
section
variable {M : Type → Type} {G : Type → Type → Type} [SlotMap M] [StableDiGraph G] [Platform]
  [PyText]

def step (s : PyBeliefQuad M G) : PyOp → PyBeliefQuad M G
  | .insert stamp key value confidence args => s.insert stamp key value confidence args
  | .setitem stamp key value => s.setitem stamp key value
  | .revise callId stamp order key newValue confidence args =>
    (s.revise callId stamp order key newValue confidence args).2
  | .remove key => (s.remove key).2
  | .delitem key => (s.delitem key).2
  | .addSemanticEdge fromKey toKey edgeType => (s.addSemanticEdge fromKey toKey edgeType).2
  | .addCausalEdge causeKey effectKey effectSize confidence =>
    (s.addCausalEdge causeKey effectKey effectSize confidence).2
  | .addTemporalEdge earlierKey laterKey => (s.addTemporalEdge earlierKey laterKey).2
  | .checkpoint stamp => (s.checkpoint stamp).2
  | .rollbackTo checkpointId => (s.rollbackTo checkpointId).2

/-- the key is held in none of the views -/
structure Gone (s : PyBeliefQuad M G) (key : String) : Prop where
  keys : key ∉ s.keys
  contains : s.contains key = false
  get : s.get key = none

/-- the views of the quad agree, and are those of a dictionary -/
structure IsDict (s : PyBeliefQuad M G) : Prop where
  nodup : s.keys.Nodup
  len : s.len = s.keys.length
  contains_iff : ∀ key, s.contains key = true ↔ key ∈ s.keys
  get_iff : ∀ key, s.get key ≠ none ↔ key ∈ s.keys

/-- the call removes `key`, and says so -/
def Removes (s : PyBeliefQuad M G) (key : String) : PyOp → Prop
  | .remove k => k = key ∧ (s.remove k).1 = true
  | .delitem k => k = key ∧ (s.delitem k).1 = .ok ()
  | _ => False

/-- the call inserts no key that is held -/
def InsertsNew (s : PyBeliefQuad M G) : PyOp → Prop
  | .insert _ key _ _ _ => key ∉ s.keys
  | .setitem _ key _ => key ∉ s.keys
  | _ => True

/-! ## a method is at most one operation of the quad -/

variable {s s' : PyBeliefQuad M G}

theorem addEdge_cases (s : PyBeliefQuad M G) (fromKey toKey : String)
    (add : BeliefId → BeliefId → BeliefQuad M G) :
    (s.addEdge fromKey toKey add).2 = s ∨
      ∃ src dst, (s.addEdge fromKey toKey add).2 = { s with quad := add src dst } := by
  unfold addEdge
  cases s.lookup fromKey with
  | error e => exact .inl rfl
  | ok src =>
    cases s.lookup toKey with
    | error e => exact .inl rfl
    | ok dst => exact .inr ⟨src, dst, rfl⟩

theorem addSemanticEdge_cases (s : PyBeliefQuad M G) (fromKey toKey edgeType : String) :
    (s.addSemanticEdge fromKey toKey edgeType).2 = s ∨
      ∃ src dst edge, (s.addSemanticEdge fromKey toKey edgeType).2 =
        { s with quad := s.quad.addSemanticEdge src dst edge } := by
  unfold addSemanticEdge
  cases parseSemanticEdge edgeType with
  | error e => exact .inl rfl
  | ok edge =>
    rcases s.addEdge_cases fromKey toKey (fun src dst => s.quad.addSemanticEdge src dst edge) with
      h | ⟨src, dst, h⟩
    · exact .inl h
    · exact .inr ⟨src, dst, edge, h⟩

theorem revise_cases (s : PyBeliefQuad M G) (callId : Uuid) (stamp : Stamp)
    (order : HashOrder BeliefId) (key newValue : String) (confidence : ℚ) (args : ProvenanceArgs) :
    (s.revise callId stamp order key newValue confidence args).2 = s ∨
      ∃ id, (s.revise callId stamp order key newValue confidence args).2 = { s with
        quad := (s.quad.revise stamp order id (.asserted newValue) (parseProvenance args callId)
          confidence).2 } := by
  unfold revise
  cases s.keyToId.lookup key with
  | none => exact .inl rfl
  | some id =>
    refine .inr ⟨id, ?_⟩
    simp only
    split
    · rename_i h
      rw [h]
    · rename_i h
      rw [h]

/-- a rollback that goes through rebuilds the index from what it has restored -/
theorem rollbackTo_cases (s : PyBeliefQuad M G) (checkpointId : String) :
    (s.rollbackTo checkpointId).2 = s ∨
      ∃ id snap, s.quad.RollsBack id snap ∧
        (s.rollbackTo checkpointId).2 = rebuildIndex { s with quad := snap } := by
  unfold rollbackTo
  cases parseCheckpointId checkpointId with
  | error e => exact .inl rfl
  | ok id =>
    rcases s.quad.rollbackTo_cases id with ⟨-, h⟩ | ⟨cp, -, -, h⟩ | ⟨snap, hsnap, h⟩
    · refine .inl ?_
      simp only [h]
    · refine .inl ?_
      simp only [h]
    · refine .inr ⟨id, snap, hsnap, ?_⟩
      simp only [h]

theorem remove_cases (s : PyBeliefQuad M G) (key : String) :
    (s.keyToId.lookup key = none ∧ s.remove key = (false, s)) ∨
      ∃ id, s.keyToId.lookup key = some id ∧ s.remove key = ((s.quad.remove id).1.isSome,
        ⟨(s.quad.remove id).2, s.keyToId.erase key⟩) := by
  unfold remove
  cases s.keyToId.lookup key with
  | none => exact .inl ⟨rfl, rfl⟩
  | some id => exact .inr ⟨id, rfl, rfl⟩

theorem delitem_eq (s : PyBeliefQuad M G) (key : String) :
    (s.delitem key).2 = (s.remove key).2 ∧
      ((s.delitem key).1 = .ok () → (s.remove key).1 = true) := by
  unfold delitem
  cases h : (s.remove key).1 with
  | false =>
    simp only [h]
    exact ⟨rfl, fun hok => nomatch hok⟩
  | true =>
    simp only [h]
    exact ⟨rfl, fun _ => trivial⟩

/-- **a method is at most one operation of the quad, and adds no `InferredFrom` edge** -/
theorem step_quad (s : PyBeliefQuad M G) (op : PyOp) :
    (s.step op).quad = s.quad ∨ ∃ qop : Op, qop.Plain ∧ (s.step op).quad = s.quad.step qop := by
  have hremove : ∀ key, (s.remove key).2.quad = s.quad ∨
      ∃ qop : Op, qop.Plain ∧ (s.remove key).2.quad = s.quad.step qop := by
    intro key
    rcases s.remove_cases key with ⟨-, h⟩ | ⟨id, -, h⟩
    · exact .inl (by rw [h])
    · exact .inr ⟨.remove id, trivial, by rw [h]; rfl⟩
  cases op with
  | insert stamp key value confidence args => exact .inr ⟨.insert _, trivial, rfl⟩
  | setitem stamp key value => exact .inr ⟨.insert _, trivial, rfl⟩
  | revise callId stamp order key newValue confidence args =>
    rcases s.revise_cases callId stamp order key newValue confidence args with h | ⟨id, h⟩
    · exact .inl (congrArg quad h)
    · exact .inr ⟨.revise stamp order id _ _ _, trivial, congrArg quad h⟩
  | remove key => exact hremove key
  | delitem key =>
    have heq := (s.delitem_eq key).1
    show (s.delitem key).2.quad = s.quad ∨ ∃ qop : Op, _ ∧ (s.delitem key).2.quad = _
    rw [heq]
    exact hremove key
  | addSemanticEdge fromKey toKey edgeType =>
    rcases s.addSemanticEdge_cases fromKey toKey edgeType with h | ⟨src, dst, edge, h⟩
    · exact .inl (congrArg quad h)
    · exact .inr ⟨.addSemanticEdge src dst edge, trivial, congrArg quad h⟩
  | addCausalEdge causeKey effectKey effectSize confidence =>
    rcases s.addEdge_cases causeKey effectKey fun src dst =>
      s.quad.addCausalEdge src dst (.causes effectSize confidence) with h | ⟨src, dst, h⟩
    · exact .inl (congrArg quad h)
    · exact .inr ⟨.addCausalEdge src dst (.causes effectSize confidence), rfl, congrArg quad h⟩
  | addTemporalEdge earlierKey laterKey =>
    rcases s.addEdge_cases earlierKey laterKey fun src dst =>
      s.quad.addTemporalEdge src dst (.precedes 0) with h | ⟨src, dst, h⟩
    · exact .inl (congrArg quad h)
    · exact .inr ⟨.addTemporalEdge src dst (.precedes 0), trivial, congrArg quad h⟩
  | checkpoint stamp => exact .inr ⟨.checkpoint stamp.uuid stamp.nowMs, trivial, rfl⟩
  | rollbackTo checkpointId =>
    rcases s.rollbackTo_cases checkpointId with h | ⟨id, snap, hsnap, h⟩
    · exact .inl (congrArg quad h)
    · refine .inr ⟨.rollbackTo id, trivial, ?_⟩
      show (s.rollbackTo checkpointId).2.quad = (s.quad.rollbackTo id).2
      rw [h, hsnap.eq]
      rfl

theorem step_noInference (h : s.quad.NoInference) (op : PyOp) :
    (s.step op).quad.NoInference := by
  rcases s.step_quad op with hq | ⟨qop, hplain, hq⟩
  · rw [hq]
    exact h
  · rw [hq]
    exact BeliefQuad.step_noInference h hplain

/-! ## the views, where the index is exact -/

theorem mem_keys {key : String} : key ∈ s.keys ↔ ∃ id, s.quad.keyAt id = some key := by
  unfold keys
  rw [List.mem_map]
  constructor
  · intro h
    obtain ⟨⟨id, n⟩, hm, rfl⟩ := h
    have hget : s.quad.get id = some n := (SlotMap.mem_iter _ id n).mp hm
    exact ⟨id, congrArg (Option.map BeliefNode.key) hget⟩
  · intro h
    obtain ⟨id, hid⟩ := h
    obtain ⟨n, hn, rfl⟩ := Option.map_eq_some_iff.mp hid
    exact ⟨(id, n), (SlotMap.mem_iter _ id n).mpr hn, rfl⟩

theorem uniqueKeys_iff_keyAt {q : BeliefQuad M G} : q.UniqueKeys ↔
    ∀ i j key, q.keyAt i = some key → q.keyAt j = some key → i = j := by
  constructor
  · intro h i j key hi hj
    obtain ⟨n, hn, hk⟩ := Option.map_eq_some_iff.mp hi
    obtain ⟨n', hn', hk'⟩ := Option.map_eq_some_iff.mp hj
    exact h i j n n' hn hn' (hk.trans hk'.symm)
  · intro h i j n n' hi hj hk
    exact h i j n.key (congrArg (Option.map BeliefNode.key) hi)
      ((congrArg (Option.map BeliefNode.key) hj).trans (congrArg some hk.symm))

theorem nodup_keys_iff : s.keys.Nodup ↔ s.quad.UniqueKeys := by
  rw [BeliefQuad.uniqueKeys_iff]
  have hnodup : (SlotMap.iter s.quad.nodes).Nodup :=
    List.Nodup.of_map Prod.fst (SlotMap.nodup_iter s.quad.nodes)
  constructor
  · intro h e he e' he' hk
    exact congrArg Prod.fst (List.inj_on_of_nodup_map h he he' hk)
  · intro h
    refine hnodup.map_on fun e he e' he' hk => ?_
    exact List.inj_on_of_nodup_map (SlotMap.nodup_iter s.quad.nodes) he he' (h e he e' he' hk)

/-- the index finds an id under a key exactly where the quad holds it, and no captured quad holds a
key twice -/
structure Good (s : PyBeliefQuad M G) : Prop where
  exact : ExactIndex (fun key => s.keyToId.lookup key) s.quad.keyAt
  captured : ∀ cp ∈ s.quad.checkpoints, cp.quad.UniqueKeys

theorem Good.uniqueKeys (h : s.Good) : s.quad.UniqueKeys :=
  uniqueKeys_iff_keyAt.mpr fun _ _ _ hi hj => h.exact.unique hi hj

theorem Good.mem_keys_iff (h : s.Good) {key : String} :
    key ∈ s.keys ↔ ∃ id, s.keyToId.lookup key = some id := by
  rw [mem_keys]
  exact exists_congr fun id => (h.exact key id).symm

theorem Good.isDict (h : s.Good) : s.IsDict where
  nodup := nodup_keys_iff.mpr h.uniqueKeys
  len := (List.length_map _).symm
  contains_iff key := by
    rw [h.mem_keys_iff]
    exact Option.isSome_iff_exists
  get_iff key := by
    rw [h.mem_keys_iff, Option.ne_none_iff_exists']
    constructor
    · intro hg
      obtain ⟨n, hn⟩ := hg
      obtain ⟨id, hid, -⟩ := Option.bind_eq_some_iff.mp hn
      exact ⟨id, hid⟩
    · intro hk
      obtain ⟨id, hid⟩ := hk
      obtain ⟨n, hn, -⟩ := Option.map_eq_some_iff.mp ((h.exact key id).mp hid)
      exact ⟨n, Option.bind_eq_some_iff.mpr ⟨id, hid, hn⟩⟩

theorem good_new : (new : PyBeliefQuad M G).Good where
  exact key id := by
    constructor
    · intro h
      have hnone : (∅ : Finmap fun _ : String => BeliefId).lookup key = some id := h
      rw [Finmap.lookup_empty] at hnone
      cases hnone
    · intro h
      obtain ⟨n, hn, -⟩ := Option.map_eq_some_iff.mp h
      exact absurd (BeliefQuad.live_iff.mpr ⟨n, hn⟩) (BeliefQuad.not_live_new id)
  captured cp hcp := absurd hcp List.not_mem_nil

/-! ## what a call keeps -/

theorem Good.of_keyAt (h : s.Good) (hkey : s'.quad.keyAt = s.quad.keyAt)
    (hindex : s'.keyToId = s.keyToId) (hc : s'.quad.checkpoints = s.quad.checkpoints) :
    s'.Good where
  exact := by
    rw [hkey, hindex]
    exact h.exact
  captured cp hcp := h.captured cp (hc ▸ hcp)

theorem Good.addEdge (h : s.Good) (fromKey toKey : String)
    {add : BeliefId → BeliefId → BeliefQuad M G}
    (hadd : ∀ src dst, (add src dst).keyAt = s.quad.keyAt ∧
      (add src dst).checkpoints = s.quad.checkpoints) :
    (s.addEdge fromKey toKey add).2.Good := by
  rcases s.addEdge_cases fromKey toKey add with hr | ⟨src, dst, hr⟩
  · rw [hr]
    exact h
  · rw [hr]
    exact h.of_keyAt (hadd src dst).1 rfl (hadd src dst).2

theorem lookup_insert_eq (index : Finmap fun _ : String => BeliefId) (key : String)
    (id : BeliefId) : (fun k => (index.insert key id).lookup k) =
      Function.update (fun k => index.lookup k) key (some id) := by
  funext k
  by_cases hk : k = key
  · rw [hk, Function.update_self]
    exact Finmap.lookup_insert _
  · rw [Function.update_of_ne hk]
    exact Finmap.lookup_insert_of_ne _ hk

theorem lookup_erase_eq (index : Finmap fun _ : String => BeliefId) (key : String) :
    (fun k => (index.erase key).lookup k) = Function.update (fun k => index.lookup k) key none := by
  funext k
  by_cases hk : k = key
  · rw [hk, Function.update_self]
    exact Finmap.lookup_erase _ _
  · rw [Function.update_of_ne hk]
    exact Finmap.lookup_erase_ne hk

theorem Good.insert (h : s.Good) (stamp : Stamp) {key : String} (hnew : key ∉ s.keys)
    (value : String) (confidence : ℚ) (args : ProvenanceArgs) :
    (s.insert stamp key value confidence args).Good where
  exact := by
    have hfree : s.keyToId.lookup key = none := by
      by_contra hsome
      exact hnew (h.mem_keys_iff.mpr (Option.ne_none_iff_exists'.mp hsome))
    have hexact := h.exact.insert s.quad.keyAt_nextId hfree
    rw [← lookup_insert_eq] at hexact
    show ExactIndex _ (s.quad.insert _).2.keyAt
    rw [BeliefQuad.keyAt_insert]
    exact hexact
  captured cp hcp := h.captured cp hcp

theorem Good.remove (h : s.Good) (key : String) : (s.remove key).2.Good := by
  rcases s.remove_cases key with ⟨-, hr⟩ | ⟨id, hid, hr⟩
  · rw [hr]
    exact h
  · rw [hr]
    refine ⟨?_, fun cp hcp => h.captured cp (BeliefQuad.remove_checkpoints s.quad id ▸ hcp)⟩
    have hexact := h.exact.remove hid
    rw [← lookup_erase_eq] at hexact
    have hkeys : (s.quad.remove id).2.keyAt = Function.update s.quad.keyAt id none := by
      funext j
      unfold BeliefQuad.keyAt
      rw [BeliefQuad.get_remove]
      by_cases hj : j = id
      · rw [if_pos hj, hj, Function.update_self]
        rfl
      · rw [if_neg hj, Function.update_of_ne hj]
    rw [hkeys]
    exact hexact

/-- an index that is collected from a quad with unique keys is exact -/
theorem exact_rebuildIndex (hunique : s.quad.UniqueKeys) :
    ExactIndex (fun key => s.rebuildIndex.keyToId.lookup key) s.rebuildIndex.quad.keyAt :=
  (BeliefRuntime.soundIndex_collect s.quad).exact (uniqueKeys_iff_keyAt.mp hunique)

theorem Good.rollbackTo (h : s.Good) (hq : s.quad.NoInference) (checkpointId : String) :
    (s.rollbackTo checkpointId).2.Good := by
  rcases s.rollbackTo_cases checkpointId with hr | ⟨id, snap, hsnap, hr⟩
  · rw [hr]
    exact h
  · obtain ⟨cp, hcp, -, rfl⟩ := hsnap.mem
    have hnone : cp.quad.checkpoints = [] := (hq.captured cp hcp).2
    rw [hr]
    refine ⟨exact_rebuildIndex (h.captured cp hcp), fun cp' hcp' => ?_⟩
    have hcp'' : cp' ∈ cp.quad.checkpoints := hcp'
    rw [hnone] at hcp''
    exact absurd hcp'' List.not_mem_nil

/-- a revision contracts nothing here, so that it leaves every key where it is -/
theorem Good.revise (h : s.Good) (hq : s.quad.NoInference) (callId : Uuid) (stamp : Stamp)
    (order : HashOrder BeliefId) (key newValue : String) (confidence : ℚ) (args : ProvenanceArgs) :
    (s.revise callId stamp order key newValue confidence args).2.Good := by
  rcases s.revise_cases callId stamp order key newValue confidence args with hr | ⟨id, hr⟩
  · rw [hr]
    exact h
  · rw [hr]
    refine h.of_keyAt ?_ rfl (BeliefQuad.revise_checkpoints stamp order id _ _ _)
    have hnone := hq.current.retracts_eq hq.synced.toGraphsSynced id (.asserted newValue)
    show (s.quad.revise _ _ _ _ _ _).2.keyAt = _
    rw [BeliefQuad.keyAt_revise, hnone]
    funext j
    exact if_neg (Finset.notMem_empty j)

/-- **a call that inserts no held key keeps the index exact** -/
theorem step_good (hq : s.quad.NoInference) (h : s.Good) {op : PyOp} (hop : s.InsertsNew op) :
    (s.step op).Good := by
  cases op with
  | insert stamp key value confidence args => exact h.insert stamp hop value confidence args
  | setitem stamp key value => exact h.insert stamp hop value 1 ⟨none, none, none⟩
  | revise callId stamp order key newValue confidence args =>
    exact h.revise hq callId stamp order key newValue confidence args
  | remove key => exact h.remove key
  | delitem key =>
    show (s.delitem key).2.Good
    rw [(s.delitem_eq key).1]
    exact h.remove key
  | addSemanticEdge fromKey toKey edgeType =>
    show (s.addSemanticEdge fromKey toKey edgeType).2.Good
    rcases s.addSemanticEdge_cases fromKey toKey edgeType with hr | ⟨src, dst, edge, hr⟩
    · rw [hr]
      exact h
    · rw [hr]
      exact h.of_keyAt rfl rfl rfl
  | addCausalEdge causeKey effectKey effectSize confidence =>
    exact h.addEdge causeKey effectKey fun _ _ => ⟨rfl, rfl⟩
  | addTemporalEdge earlierKey laterKey =>
    exact h.addEdge earlierKey laterKey fun _ _ => ⟨rfl, rfl⟩
  | checkpoint stamp =>
    refine ⟨h.exact, fun cp hcp => ?_⟩
    rcases List.mem_append.mp hcp with hcp | hcp
    · exact h.captured cp hcp
    · rw [List.mem_singleton.mp hcp]
      exact h.uniqueKeys
  | rollbackTo checkpointId => exact h.rollbackTo hq checkpointId

/-- a key that is inserted again is listed twice -/
theorem not_isDict_insert {key : String} (hheld : key ∈ s.keys) (stamp : Stamp) (value : String)
    (confidence : ℚ) (args : ProvenanceArgs) :
    ¬ (s.insert stamp key value confidence args).IsDict := by
  intro h
  obtain ⟨id, hid⟩ := mem_keys.mp hheld
  have hunique := uniqueKeys_iff_keyAt.mp (nodup_keys_iff.mp h.nodup)
  have hkeys : (s.insert stamp key value confidence args).quad.keyAt =
      Function.update s.quad.keyAt s.quad.nextId (some key) := BeliefQuad.keyAt_insert s.quad _
  rw [hkeys] at hunique
  have hne : id ≠ s.quad.nextId := by
    intro he
    rw [he, s.quad.keyAt_nextId] at hid
    cases hid
  refine hne (hunique id s.quad.nextId key ?_ (Function.update_self _ _ _))
  rw [Function.update_of_ne hne]
  exact hid

theorem insertsNew_of_isDict {op : PyOp} (h : (s.step op).IsDict) : s.InsertsNew op := by
  cases op with
  | insert stamp key value confidence args =>
    exact fun hheld => not_isDict_insert hheld stamp value confidence args h
  | setitem stamp key value =>
    exact fun hheld => not_isDict_insert hheld stamp value 1 ⟨none, none, none⟩ h
  | revise _ _ _ _ _ _ _ => trivial
  | remove _ => trivial
  | delitem _ => trivial
  | addSemanticEdge _ _ _ => trivial
  | addCausalEdge _ _ _ _ => trivial
  | addTemporalEdge _ _ => trivial
  | checkpoint _ => trivial
  | rollbackTo _ => trivial

/-- a key that is removed is gone from the index, and so from every view -/
theorem Good.gone (h : s.Good) {key : String} (hnone : s.keyToId.lookup key = none) :
    s.Gone key where
  keys hk := by
    obtain ⟨id, hid⟩ := h.mem_keys_iff.mp hk
    rw [hnone] at hid
    cases hid
  contains := by
    unfold PyBeliefQuad.contains
    rw [hnone]
    rfl
  get := by
    unfold PyBeliefQuad.get
    rw [hnone]
    rfl

theorem remove_gone (h : s.Good) {key : String} (hr : (s.remove key).1 = true) :
    (s.remove key).2.Gone key := by
  refine (h.remove key).gone ?_
  rcases s.remove_cases key with ⟨-, hc⟩ | ⟨id, -, hc⟩
  · rw [hc] at hr
    cases hr
  · rw [hc]
    exact Finmap.lookup_erase _ _

theorem removes_gone (h : s.Good) {key : String} {op : PyOp} (hr : s.Removes key op) :
    (s.step op).Gone key := by
  cases op with
  | remove k =>
    obtain ⟨rfl, hr⟩ := hr
    exact remove_gone h hr
  | delitem k =>
    obtain ⟨rfl, hr⟩ := hr
    show (s.delitem k).2.Gone k
    rw [(s.delitem_eq k).1]
    exact remove_gone h ((s.delitem_eq k).2 hr)
  | insert _ _ _ _ _ => exact hr.elim
  | setitem _ _ _ => exact hr.elim
  | revise _ _ _ _ _ _ _ => exact hr.elim
  | addSemanticEdge _ _ _ => exact hr.elim
  | addCausalEdge _ _ _ _ => exact hr.elim
  | addTemporalEdge _ _ => exact hr.elim
  | checkpoint _ => exact hr.elim
  | rollbackTo _ => exact hr.elim

end

/-! ## runs -/

theorem good_of_insertsNew {M : Type → Type} {G : Type → Type → Type} [SlotMap M]
    [StableDiGraph G] [Platform] [PyText] {ops : List PyOp}
    (h : ∀ (s : PyBeliefQuad M G) op, StepOf step new ops s op → s.InsertsNew op)
    {s : PyBeliefQuad M G} (hs : StateOf step new ops s) : s.Good := by
  have hrun := @run_invariant_of _ _ step
    (fun s : PyBeliefQuad M G => s.quad.NoInference ∧ s.Good) InsertsNew
    (fun s op hs hop => ⟨step_noInference hs.1 op, step_good hs.1 hs.2 hop⟩) new ops
    ⟨BeliefQuad.noInference_new, good_new⟩ h
  exact (hrun s hs).2

/-- **a run behaves as a dictionary throughout exactly when no call inserts a key that is held**:
in every state the keys are listed once, `len` is their number, and `contains` and `get` know just
these; and a key that was removed is in none of them -/
theorem dictionary_iff {M : Type → Type} {G : Type → Type → Type} [SlotMap M] [StableDiGraph G]
    [Platform] [PyText] (ops : List PyOp) :
    ((∀ s : PyBeliefQuad M G, StateOf step new ops s → s.IsDict) ∧
      ∀ (s : PyBeliefQuad M G) op key, StepOf step new ops s op → s.Removes key op →
        (s.step op).Gone key) ↔
      ∀ (s : PyBeliefQuad M G) op, StepOf step new ops s op → s.InsertsNew op := by
  constructor
  · intro h s op hs
    obtain ⟨pre, post, rfl, rfl⟩ := hs
    refine insertsNew_of_isDict (h.1 _ ⟨pre ++ [op], post, ?_, (run_concat step new pre op).symm⟩)
    rw [List.append_assoc]
    rfl
  · intro h
    exact ⟨fun s hs => (good_of_insertsNew h hs).isDict,
      fun s op key hs hr => removes_gone (good_of_insertsNew h hs.state) hr⟩

section
attribute [local instance] Platform.ascii

/-- uuids are their decimal texts -/
@[reducible] def plainText : PyText where
  debug key := "\"" ++ key ++ "\""
  uuid id := toString id
  parseUuid s := s.toNat?

attribute [local instance] plainText

/-- after `q["a"] = "1"` and `q["a"] = "2"` -/
def reassigned : PyBeliefQuad SlotVec EdgeList :=
  run step new [.setitem ⟨7, 0⟩ "a" "1", .setitem ⟨8, 1⟩ "a" "2"]

/-- the key is listed twice; when `q.remove("a")` has returned `True`, it is still listed -/
theorem reassigned_listed_twice :
    ¬ (∀ s : PyBeliefQuad SlotVec EdgeList,
        StateOf step new [.setitem ⟨7, 0⟩ "a" "1", .setitem ⟨8, 1⟩ "a" "2"] s → s.IsDict) ∧
      reassigned.Removes "a" (.remove "a") ∧ ¬ (reassigned.step (.remove "a")).Gone "a" := by
  refine ⟨fun h => ?_, ⟨rfl, by decide +kernel⟩, fun h => ?_⟩
  · have hdict : reassigned.IsDict := h _ (stateOf_last _ _)
    have htwice : ¬ reassigned.keys.Nodup := by decide +kernel
    exact htwice hdict.nodup
  · have hlisted : "a" ∈ (reassigned.step (.remove "a")).keys := by decide +kernel
    exact h.keys hlisted

end
end PyBeliefQuad
end Epica
