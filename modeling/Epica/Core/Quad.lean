import Epica.Core.Graphs

/-!
# The quad: a slot map of nodes and four graphs over its keys

`insert` and `remove` update the nodes and all four graphs; the `add…Edge` functions update one
graph and do nothing when an end is not live.  `checkpoints` holds captured quads, so the types of
a quad and of a checkpoint are mutually recursive.

`Live q id` says that `id` is the key of a node.  The lemmas say what each operation does to
the nodes, field by field.
-/

set_option linter.unusedSectionVars false

namespace Epica
open Lib

/-! ## the prospective index -/

structure CausalEvent where
  trigger : String
  consequence : String
  probability : ℚ
  preconditionBeliefs : List BeliefId

structure ProspectiveEntry where
  scenario : String
  embedding : List ℚ
  causalEvents : List CausalEvent

structure ProspectiveIndex where
  entries : Finmap fun _ : BeliefId => List ProspectiveEntry

namespace ProspectiveIndex

def new : ProspectiveIndex := ⟨∅⟩

def invalidate (x : ProspectiveIndex) (id : BeliefId) : ProspectiveIndex := ⟨x.entries.erase id⟩

def insert (x : ProspectiveIndex) (id : BeliefId) (entries : List ProspectiveEntry) :
    ProspectiveIndex :=
  ⟨x.entries.insert id entries⟩

end ProspectiveIndex

/-! ## quads and checkpoints -/

abbrev CheckpointId := Uuid

mutual

structure BeliefQuad (M : Type → Type) (G : Type → Type → Type) where
  nodes : M BeliefNode
  semantic : Projection G SemanticEdge
  temporal : Projection G TemporalEdge
  causal : Projection G CausalEdge
  entity : Projection G EntityEdge
  version : Nat
  checkpoints : List (BeliefQuadCheckpoint M G)
  prospectiveIndex : ProspectiveIndex
  embeddingProvider : Option EmbeddingProvider
  equivalence : SemanticEquivalence

structure BeliefQuadCheckpoint (M : Type → Type) (G : Type → Type → Type) where
  id : CheckpointId
  version : Nat
  timestampMs : Nat
  quad : BeliefQuad M G

end

namespace BeliefQuad
variable {M : Type → Type} {G : Type → Type → Type} [SlotMap M] [StableDiGraph G]

def new : BeliefQuad M G where
  nodes := SlotMap.withKey
  semantic := .new
  temporal := .new
  causal := .new
  entity := .new
  version := 0
  checkpoints := []
  prospectiveIndex := .new
  embeddingProvider := none
  equivalence := .default

def get (q : BeliefQuad M G) (id : BeliefId) : Option BeliefNode := SlotMap.get q.nodes id

def Live (q : BeliefQuad M G) (id : BeliefId) : Prop := (q.get id).isSome

instance (q : BeliefQuad M G) (id : BeliefId) : Decidable (q.Live id) :=
  inferInstanceAs (Decidable ((q.get id).isSome = true))

/-- the id the next `insert` returns -/
def nextId (q : BeliefQuad M G) : BeliefId := SlotMap.nextKey q.nodes

def insert (q : BeliefQuad M G) (node : BeliefNode) : BeliefId × BeliefQuad M G :=
  let id := SlotMap.nextKey q.nodes
  (id, { q with
    nodes := SlotMap.insert q.nodes { node with id := id }
    semantic := q.semantic.addNode id
    temporal := q.temporal.addNode id
    causal := q.causal.addNode id
    entity := q.entity.addNode id
    version := q.version + 1 })

def remove (q : BeliefQuad M G) (id : BeliefId) : Option BeliefNode × BeliefQuad M G :=
  match SlotMap.get q.nodes id with
  | none => (none, q)
  | some node => (some node, { q with
      nodes := SlotMap.remove q.nodes id
      semantic := q.semantic.removeNode id
      temporal := q.temporal.removeNode id
      causal := q.causal.removeNode id
      entity := q.entity.removeNode id
      prospectiveIndex := q.prospectiveIndex.invalidate id
      version := q.version + 1 })

/-- write the node of a live id (`get_mut`) -/
def modify (q : BeliefQuad M G) (id : BeliefId) (f : BeliefNode → BeliefNode) : BeliefQuad M G :=
  { q with nodes := SlotMap.modify q.nodes id f }

def addSemanticEdge (q : BeliefQuad M G) (src dst : BeliefId) (edge : SemanticEdge) :
    BeliefQuad M G :=
  { q with semantic := SemanticGraph.addEdge q.semantic src dst edge }

def addTemporalEdge (q : BeliefQuad M G) (src dst : BeliefId) (edge : TemporalEdge) :
    BeliefQuad M G :=
  { q with temporal := q.temporal.addEdge src dst edge }

def addCausalEdge (q : BeliefQuad M G) (src dst : BeliefId) (edge : CausalEdge) :
    BeliefQuad M G :=
  { q with causal := q.causal.addEdge src dst edge }

def addEntityEdge (q : BeliefQuad M G) (src dst : BeliefId) (edge : EntityEdge) :
    BeliefQuad M G :=
  { q with entity := q.entity.addEdge src dst edge }

section
variable [Platform]

def decayFactor (q : BeliefQuad M G) (id : BeliefId) (currentMs : Nat) : ℚ :=
  match q.get id with
  | none => 1
  | some n => TemporalGraph.computeDecay n.createdAtMs n.ttlMs currentMs

/-- would setting `id` to `newValue` contradict what the quad holds, and by which path -/
def checkContradictionTraced (q : BeliefQuad M G) (id : BeliefId) (newValue : BeliefValue) :
    Bool × VerdictTrace :=
  match q.get id with
  | none => (false, .literalAgree)
  | some node =>
    let (valueContra, trace) := SemanticGraph.valueContradictsSemantic q.embeddingProvider
      q.equivalence node.value newValue
    let edgeContra := SemanticGraph.hasContradictionEdges q.semantic id
    (valueContra || edgeContra, trace)

def checkContradiction (q : BeliefQuad M G) (id : BeliefId) (newValue : BeliefValue) : Bool :=
  (q.checkContradictionTraced id newValue).1

end

/-! ## what the operations do to the nodes -/

theorem live_iff {q : BeliefQuad M G} {id : BeliefId} : q.Live id ↔ ∃ n, q.get id = some n :=
  Option.isSome_iff_exists

theorem not_live_iff {q : BeliefQuad M G} {id : BeliefId} : ¬ q.Live id ↔ q.get id = none := by
  unfold Live
  rw [Bool.not_eq_true, Option.isSome_eq_false_iff, Option.isNone_iff_eq_none]

theorem not_live_new (id : BeliefId) : ¬ (new : BeliefQuad M G).Live id := by
  rw [not_live_iff]
  exact SlotMap.get_withKey id

theorem not_live_nextId (q : BeliefQuad M G) : ¬ q.Live q.nextId := by
  rw [not_live_iff]
  exact SlotMap.get_nextKey q.nodes

theorem get_insert (q : BeliefQuad M G) (node : BeliefNode) (j : BeliefId) :
    (q.insert node).2.get j =
      if j = q.nextId then some { node with id := q.nextId } else q.get j :=
  SlotMap.get_insert q.nodes _ j

theorem live_insert (q : BeliefQuad M G) (node : BeliefNode) (j : BeliefId) :
    (q.insert node).2.Live j ↔ q.Live j ∨ j = q.nextId := by
  unfold Live
  rw [get_insert]
  split
  · rename_i h
    simp [h]
  · rename_i h
    simp [h]

theorem remove_of_dead {q : BeliefQuad M G} {id : BeliefId} (h : ¬ q.Live id) :
    q.remove id = (none, q) := by
  have h' : SlotMap.get q.nodes id = none := not_live_iff.mp h
  unfold remove
  rw [h']

theorem remove_of_live {q : BeliefQuad M G} {id : BeliefId} {node : BeliefNode}
    (h : q.get id = some node) : q.remove id = (some node, { q with
      nodes := SlotMap.remove q.nodes id
      semantic := q.semantic.removeNode id
      temporal := q.temporal.removeNode id
      causal := q.causal.removeNode id
      entity := q.entity.removeNode id
      prospectiveIndex := q.prospectiveIndex.invalidate id
      version := q.version + 1 }) := by
  have h' : SlotMap.get q.nodes id = some node := h
  unfold remove
  rw [h']

theorem get_remove (q : BeliefQuad M G) (id j : BeliefId) :
    (q.remove id).2.get j = if j = id then none else q.get j := by
  by_cases h : q.Live id
  · obtain ⟨node, hn⟩ := live_iff.mp h
    rw [remove_of_live hn]
    exact SlotMap.get_remove q.nodes id j
  · rw [remove_of_dead h]
    split
    · rename_i e
      rw [e]
      exact not_live_iff.mp h
    · rfl

theorem live_remove (q : BeliefQuad M G) (id j : BeliefId) :
    (q.remove id).2.Live j ↔ q.Live j ∧ j ≠ id := by
  unfold Live
  rw [get_remove]
  split
  · rename_i h
    simp [h]
  · rename_i h
    simp [h]

theorem get_modify (q : BeliefQuad M G) (id : BeliefId) (f : BeliefNode → BeliefNode)
    (j : BeliefId) : (q.modify id f).get j = if j = id then (q.get j).map f else q.get j :=
  SlotMap.get_modify q.nodes id f j

@[simp] theorem live_modify (q : BeliefQuad M G) (id : BeliefId) (f : BeliefNode → BeliefNode)
    (j : BeliefId) : (q.modify id f).Live j ↔ q.Live j := by
  unfold Live
  rw [get_modify]
  split
  · rw [Option.isSome_map]
  · rfl

/-- `remove` keeps the checkpoints -/
theorem remove_checkpoints (q : BeliefQuad M G) (id : BeliefId) :
    (q.remove id).2.checkpoints = q.checkpoints := by
  unfold remove
  split <;> rfl

end BeliefQuad
end Epica
