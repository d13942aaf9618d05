import Epica.Macros.BeliefState
import Epica.Runtime.Floors

/-!
# The derived contract and the derived schema

`derive(BeliefState)` also generates a default contract, a schema descriptor, and accessors for the
confidences of the fields.

* `placed_toBeliefQuad`  the quad of a struct: a belief for each field, and an edge for each parent;
* `schema_describes`     the schema descriptor says of this quad what is the case;
* `derived_contract`     what a runtime that starts there keeps under the default contract.
-/

set_option linter.unusedSectionVars false

namespace Epica
open Lib

/-! ## the schema -/

namespace Schema

structure BeliefFieldDescriptor where
  key : String
  source : String
  initialConfidence : ℚ
  ttlMs : Option Nat
  prospect : Bool
  reflectionThreshold : ℚ
  causalParent : Option String
  governance : Option String
  audit : Option String
  cacheAffinity : Option String

structure SchemaDescriptor where
  name : String
  beliefs : List BeliefFieldDescriptor

end Schema

/-- the attributes of a belief field that the conversions do not read -/
structure FieldHints where
  governance : Option String
  audit : Option String
  cacheAffinity : Option String

/-- a struct with its name and, by field, the hints -/
structure DeriveInput extends BeliefStruct where
  name : String
  hints : String → FieldHints

section
variable {M : Type → Type} {G : Type → Type → Type} [SlotMap M] [StableDiGraph G]

/-- the accessor of one field; a belief that is not there has no confidence -/
def BeliefFieldMeta.typedConfidence (f : BeliefFieldMeta) (q : BeliefQuad M G) : ℚ × Option ℚ :=
  (((SlotMap.iter q.nodes).find? fun e => e.2.key = f.ident).map fun e =>
    (e.2.fastConfidence, e.2.slowConfidence)).getD (0, none)

/-- only the keys of belief fields have an arm -/
def BeliefStruct.fieldConfidence (S : BeliefStruct) (q : BeliefQuad M G) (key : String) :
    Option (ℚ × Option ℚ) :=
  if key ∈ S.beliefFields.map BeliefFieldMeta.ident then
    ((SlotMap.iter q.nodes).find? fun e => e.2.key = key).map fun e =>
      (e.2.fastConfidence, e.2.slowConfidence)
  else none

end

namespace DeriveInput
variable (input : DeriveInput)

def needsApproval (f : BeliefFieldMeta) : Bool :=
  (input.hints f.ident).governance = some "human_approval"

def fieldDescriptor (f : BeliefFieldMeta) : Schema.BeliefFieldDescriptor where
  key := f.ident
  source := f.source
  initialConfidence := f.confidence
  ttlMs := f.ttlMs
  prospect := f.prospect
  reflectionThreshold := f.reflectionThreshold
  causalParent := f.causalParent
  governance := (input.hints f.ident).governance
  audit := (input.hints f.ident).audit
  cacheAffinity := (input.hints f.ident).cacheAffinity

def schemaDescriptor : Schema.SchemaDescriptor :=
  ⟨input.name, input.beliefFields.map input.fieldDescriptor⟩

section
variable (M : Type → Type) (G : Type → Type → Type) [SlotMap M] [StableDiGraph G]

def contractInvariant (f : BeliefFieldMeta) : SessionInvariant M G where
  predicate := MinConfidence M G f.ident (f.confidence * (1 / 2))
  violationClass := if input.needsApproval f then .hard else .soft

def defaultContract : BehavioralContract M G where
  domain := input.name
  preconditions := input.beliefFields.map fun f => BeliefExists M G f.ident
  invariants := input.beliefFields.map (input.contractInvariant M G)
  governance := ⟨none, none,
    (input.beliefFields.filter input.needsApproval).map BeliefFieldMeta.ident⟩
  recovery := .rollbackToLastCheckpoint

end
end DeriveInput

/-! ## the quad of a struct -/

theorem lookup_of_mem {α β : Type} [DecidableEq α] {l : List (α × β)} (hn : (l.map Prod.fst).Nodup)
    {a : α} {b : β} (h : (a, b) ∈ l) : l.lookup a = some b := by
  obtain ⟨l₁, l₂, rfl⟩ := List.append_of_mem h
  refine List.lookup_eq_some_iff.mpr ⟨l₁, l₂, rfl, fun p hp => bne_iff_ne.mpr fun heq => ?_⟩
  rw [List.map_append, List.nodup_append] at hn
  exact hn.2.2 p.1 (List.mem_map_of_mem hp) a (List.mem_map_of_mem List.mem_cons_self) heq.symm

namespace BeliefStruct
variable {M : Type → Type} {G : Type → Type → Type} [SlotMap M] [StableDiGraph G]
  (S : BeliefStruct) (stamp : String → Stamp) (x : S.Value)

/-- the node that is inserted for a field -/
def beliefNode (f : BeliefFieldMeta) : BeliefNode :=
  { BeliefNode.new (stamp f.ident).nowMs f.ident (S.encodeField x f)
      (genProvenance f.source (stamp f.ident).uuid) f.confidence with
    reflectionThreshold := f.reflectionThreshold
    prospect := f.prospect
    ttlMs := f.ttlMs }

/-- the beliefs of `q` are those of `fields`, under the ids that the inserts have bound -/
structure Placed (fields : List BeliefFieldMeta) (ids : List (String × BeliefId))
    (q : BeliefQuad M G) : Prop where
  keys : ids.map Prod.fst = fields.map BeliefFieldMeta.ident
  node : ∀ f ∈ fields, ∀ id, (f.ident, id) ∈ ids →
    q.get id = some { S.beliefNode stamp x f with id := id }
  only : ∀ id, q.Live id → ∃ key, (key, id) ∈ ids
  graphs : q.GraphsSynced
  checkpoints : q.checkpoints = []

variable {S stamp x} {fields : List BeliefFieldMeta} {ids : List (String × BeliefId)}
  {q : BeliefQuad M G}

theorem Placed.id_of_mem (h : Placed S stamp x fields ids q) {f : BeliefFieldMeta}
    (hf : f ∈ fields) : ∃ id, (f.ident, id) ∈ ids := by
  have hkey : f.ident ∈ ids.map Prod.fst := by
    rw [h.keys]
    exact List.mem_map_of_mem hf
  obtain ⟨⟨key, id⟩, hmem, rfl⟩ := List.mem_map.mp hkey
  exact ⟨id, hmem⟩

theorem Placed.field_of_mem (h : Placed S stamp x fields ids q) {key : String} {id : BeliefId}
    (hmem : (key, id) ∈ ids) : ∃ f ∈ fields, f.ident = key := by
  have hkey : key ∈ fields.map BeliefFieldMeta.ident := by
    rw [← h.keys]
    exact List.mem_map_of_mem hmem
  obtain ⟨f, hf, hident⟩ := List.mem_map.mp hkey
  exact ⟨f, hf, hident⟩

theorem Placed.live (h : Placed S stamp x fields ids q) {key : String} {id : BeliefId}
    (hmem : (key, id) ∈ ids) : q.Live id := by
  obtain ⟨f, hf, rfl⟩ := h.field_of_mem hmem
  exact BeliefQuad.live_iff.mpr ⟨_, h.node f hf id hmem⟩

/-- a field whose name is new is placed under the next id -/
theorem Placed.insert (h : Placed S stamp x fields ids q) {f : BeliefFieldMeta}
    (hnew : f.ident ∉ fields.map BeliefFieldMeta.ident) :
    Placed S stamp x (fields ++ [f]) (ids ++ [(f.ident, q.nextId)])
      (q.insert (S.beliefNode stamp x f)).2 where
  keys := by
    rw [List.map_append, List.map_append, h.keys]
    rfl
  node g hg id hmem := by
    rw [BeliefQuad.get_insert]
    rcases List.mem_append.mp hmem with hmem | hmem
    · have hold : id ≠ q.nextId := fun heq =>
        BeliefQuad.not_live_nextId q (heq ▸ h.live hmem)
      obtain ⟨g', hg', hident⟩ := h.field_of_mem hmem
      rw [if_neg hold]
      rcases List.mem_append.mp hg with hg | hg
      · exact h.node g hg id hmem
      · rw [List.mem_singleton.mp hg] at hident
        exact absurd (hident ▸ List.mem_map_of_mem hg') hnew
    · obtain ⟨hident, rfl⟩ := Prod.mk.inj (List.mem_singleton.mp hmem)
      rw [if_pos rfl]
      rcases List.mem_append.mp hg with hg | hg
      · exact absurd (hident ▸ List.mem_map_of_mem hg) hnew
      · rw [List.mem_singleton.mp hg]
  only id hl := by
    rcases (BeliefQuad.live_insert q _ id).mp hl with hl | rfl
    · obtain ⟨key, hmem⟩ := h.only id hl
      exact ⟨key, List.mem_append_left _ hmem⟩
    · exact ⟨f.ident, List.mem_append_right _ List.mem_cons_self⟩
  graphs := h.graphs.insert _
  checkpoints := h.checkpoints

variable (S stamp x)

theorem placed_insertStmts (hn : (fields.map BeliefFieldMeta.ident).Nodup) :
    Placed S stamp x fields (S.insertStmts stamp x fields : _ × BeliefQuad M G).1
        (S.insertStmts stamp x fields : _ × BeliefQuad M G).2 ∧
      (S.insertStmts stamp x fields : _ × BeliefQuad M G).2.causal.edges = 0 := by
  induction fields using List.reverseRecOn with
  | nil =>
    refine ⟨⟨rfl, fun f hf => absurd hf List.not_mem_nil, fun id hl => ?_, ?_, rfl⟩, ?_⟩
    · exact absurd hl (BeliefQuad.not_live_new id)
    · exact BeliefQuad.graphsSynced_new
    · exact Projection.edges_new
  | append_singleton fields f ih =>
    rw [List.map_append, List.nodup_append] at hn
    obtain ⟨hplaced, hedges⟩ := ih hn.1
    have hnew : f.ident ∉ fields.map BeliefFieldMeta.ident := fun hmem =>
      hn.2.2 f.ident hmem f.ident List.mem_cons_self rfl
    unfold BeliefStruct.insertStmts at hplaced hedges ⊢
    rw [List.foldl_append]
    refine ⟨hplaced.insert hnew, ?_⟩
    rw [← hedges]
    exact Projection.edges_addNode _ _

/-- the edge of a field with a parent, when both have been inserted -/
def parentEdge (ids : List (String × BeliefId)) (f : BeliefFieldMeta)
    (e : BeliefId × BeliefId × CausalEdge) : Prop :=
  ∃ parent ∈ f.causalParent, ∃ parentId childId, (parent, parentId) ∈ ids ∧
    (f.ident, childId) ∈ ids ∧ e = (parentId, childId, .inferredFrom [parentId])

variable {S stamp x}

theorem Placed.addCausalEdge (h : Placed S stamp x fields ids q) (src dst : BeliefId)
    (edge : CausalEdge) : Placed S stamp x fields ids (q.addCausalEdge src dst edge) where
  keys := h.keys
  node := h.node
  only := h.only
  graphs := ⟨h.graphs.semantic, h.graphs.temporal, h.graphs.causal.addEdge src dst edge,
    h.graphs.entity⟩
  checkpoints := h.checkpoints

theorem Placed.causalEdgeStmt (h : Placed S stamp x fields ids q)
    (hn : (fields.map BeliefFieldMeta.ident).Nodup) {f : BeliefFieldMeta} (hf : f ∈ fields)
    (hparent : ∀ parent ∈ f.causalParent, parent ∈ fields.map BeliefFieldMeta.ident) :
    Placed S stamp x fields ids (BeliefStruct.causalEdgeStmt ids q f) ∧
      ∀ e, e ∈ (BeliefStruct.causalEdgeStmt ids q f).causal.edges ↔
        parentEdge ids f e ∨ e ∈ q.causal.edges := by
  have hids : (ids.map Prod.fst).Nodup := by rwa [h.keys]
  unfold BeliefStruct.causalEdgeStmt parentEdge
  cases hc : f.causalParent with
  | none =>
    refine ⟨h, fun e => (or_iff_right fun hp => ?_).symm⟩
    obtain ⟨parent, hparent, -⟩ := hp
    cases hparent
  | some parent =>
    obtain ⟨g, hg, rfl⟩ := List.mem_map.mp (hparent parent hc)
    obtain ⟨parentId, hparentId⟩ := h.id_of_mem hg
    obtain ⟨childId, hchildId⟩ := h.id_of_mem hf
    simp only [lookup_of_mem hids hparentId, lookup_of_mem hids hchildId]
    refine ⟨h.addCausalEdge _ _ _, fun e => ?_⟩
    have hedges : (q.addCausalEdge parentId childId (.inferredFrom [parentId])).causal.edges =
        (parentId, childId, .inferredFrom [parentId]) ::ₘ q.causal.edges :=
      Projection.edges_addEdge h.graphs.causal _ ⟨h.live hparentId, h.live hchildId⟩
    rw [hedges, Multiset.mem_cons]
    refine or_congr_left ⟨fun he => ⟨_, rfl, parentId, childId, hparentId, hchildId, he⟩, ?_⟩
    intro he
    obtain ⟨_, hsame, p, c, hp, hchild, rfl⟩ := he
    obtain rfl := Option.some.inj hsame
    have hp' := (lookup_of_mem hids hp).symm.trans (lookup_of_mem hids hparentId)
    have hc' := (lookup_of_mem hids hchild).symm.trans (lookup_of_mem hids hchildId)
    rw [Option.some.inj hp', Option.some.inj hc']

theorem Placed.causalEdgeStmts (h : Placed S stamp x fields ids q)
    (hn : (fields.map BeliefFieldMeta.ident).Nodup) {children : List BeliefFieldMeta}
    (hsub : ∀ f ∈ children, f ∈ fields)
    (hparents : ∀ f ∈ children, ∀ parent ∈ f.causalParent,
      parent ∈ fields.map BeliefFieldMeta.ident) :
    Placed S stamp x fields ids (children.foldl (BeliefStruct.causalEdgeStmt ids) q) ∧
      ∀ e, e ∈ (children.foldl (BeliefStruct.causalEdgeStmt ids) q).causal.edges ↔
        (∃ f ∈ children, parentEdge ids f e) ∨ e ∈ q.causal.edges := by
  induction children generalizing q with
  | nil =>
    refine ⟨h, fun e => (or_iff_right fun hp => ?_).symm⟩
    obtain ⟨f, hf, -⟩ := hp
    cases hf
  | cons f children ih =>
    obtain ⟨hplaced, hedges⟩ := h.causalEdgeStmt hn (hsub f List.mem_cons_self)
      (hparents f List.mem_cons_self)
    obtain ⟨hall, hedges'⟩ := ih hplaced (fun g hg => hsub g (List.mem_cons_of_mem f hg))
      fun g hg => hparents g (List.mem_cons_of_mem f hg)
    refine ⟨hall, fun e => ?_⟩
    rw [List.foldl_cons, hedges', hedges, List.exists_mem_cons_iff, or_left_comm, or_assoc]

variable (S stamp x)

/-- **the quad of a struct**: a belief for each field, and an edge for each parent -/
theorem placed_toBeliefQuad : ∃ ids : List (String × BeliefId),
    Placed S stamp x S.beliefFields ids (S.toBeliefQuad stamp x : BeliefQuad M G) ∧
      ∀ e, e ∈ (S.toBeliefQuad stamp x : BeliefQuad M G).causal.edges ↔
        ∃ f ∈ S.beliefFields, parentEdge ids f e := by
  obtain ⟨hplaced, hnone⟩ := S.placed_insertStmts stamp x (M := M) (G := G) S.distinct
  obtain ⟨hall, hedges⟩ := hplaced.causalEdgeStmts S.distinct (fun f hf => hf) S.parents
  refine ⟨_, hall, fun e => (hedges e).trans (or_iff_left ?_)⟩
  rw [hnone]
  exact Multiset.notMem_zero e

/-! ## what the schema says of the quad -/

variable {S stamp x}

theorem Placed.field_of_get (h : Placed S stamp x fields ids q) {id : BeliefId} {n : BeliefNode}
    (hn : q.get id = some n) : ∃ f ∈ fields, (f.ident, id) ∈ ids ∧
      n = { S.beliefNode stamp x f with id := id } := by
  obtain ⟨key, hmem⟩ := h.only id (BeliefQuad.live_iff.mpr ⟨n, hn⟩)
  obtain ⟨f, hf, rfl⟩ := h.field_of_mem hmem
  exact ⟨f, hf, hmem, Option.some.inj (hn.symm.trans (h.node f hf id hmem))⟩

/-- the id of a key is that of the belief with this key -/
theorem Placed.mem_ids_iff (h : Placed S stamp x fields ids q) {key : String} {id : BeliefId} :
    (key, id) ∈ ids ↔ ∃ n, q.get id = some n ∧ n.key = key := by
  constructor
  · intro hmem
    obtain ⟨f, hf, rfl⟩ := h.field_of_mem hmem
    exact ⟨_, h.node f hf id hmem, rfl⟩
  · intro hn
    obtain ⟨n, hn, rfl⟩ := hn
    obtain ⟨f, hf, hmem, rfl⟩ := h.field_of_get hn
    exact hmem

theorem Placed.uniqueKeys (h : Placed S stamp x fields ids q)
    (hn : (fields.map BeliefFieldMeta.ident).Nodup) : q.UniqueKeys := by
  have hids : (ids.map Prod.fst).Nodup := by rwa [h.keys]
  intro i j n n' hi hj hkey
  have hi' := h.mem_ids_iff.mpr ⟨n, hi, rfl⟩
  have hj' := h.mem_ids_iff.mpr ⟨n', hj, hkey.symm⟩
  exact Option.some.inj ((lookup_of_mem hids hi').symm.trans (lookup_of_mem hids hj'))

end BeliefStruct

/-- the descriptor says what the belief is -/
structure Schema.Described (d : Schema.BeliefFieldDescriptor) (n : BeliefNode) : Prop where
  key : d.key = n.key
  initialConfidence : clamp d.initialConfidence 0 1 = n.fastConfidence
  ttlMs : d.ttlMs = n.ttlMs
  prospect : d.prospect = n.prospect
  reflectionThreshold : d.reflectionThreshold = n.reflectionThreshold
  source : ∃ callId, n.provenance = genProvenance d.source callId

namespace DeriveInput
variable {M : Type → Type} {G : Type → Type → Type} [SlotMap M] [StableDiGraph G]

/-- the accessor returns what the belief was inserted with -/
theorem fieldConfidence_eq {input : DeriveInput} {stamp : String → Stamp} {x : input.Value}
    {ids : List (String × BeliefId)} {q : BeliefQuad M G}
    (h : input.Placed stamp x input.beliefFields ids q) (key : String) :
    input.fieldConfidence q key =
      (input.schemaDescriptor.beliefs.find? fun d => d.key = key).map fun d =>
        (clamp d.initialConfidence 0 1, none) := by
  unfold BeliefStruct.fieldConfidence
  cases hd : input.schemaDescriptor.beliefs.find? fun d => d.key = key with
  | none =>
    refine if_neg fun hkey => ?_
    obtain ⟨f, hf, hident⟩ := List.mem_map.mp hkey
    exact List.find?_eq_none.mp hd _ (List.mem_map_of_mem hf) (decide_eq_true hident)
  | some d =>
    have hdkey : d.key = key := of_decide_eq_true
      (@List.find?_some _ (fun d : Schema.BeliefFieldDescriptor => decide (d.key = key)) _ _ hd)
    obtain ⟨f, hf, rfl⟩ := List.mem_map.mp (List.mem_of_find?_eq_some hd)
    have hident : f.ident = key := hdkey
    rw [if_pos (List.mem_map.mpr ⟨f, hf, hident⟩)]
    cases he : (SlotMap.iter q.nodes).find? fun e => e.2.key = key with
    | none =>
      obtain ⟨id, hid⟩ := h.id_of_mem hf
      have hmem := (SlotMap.mem_iter _ _ _).mpr (h.node f hf id hid)
      exact absurd (decide_eq_true hident) (List.find?_eq_none.mp he _ hmem)
    | some e =>
      have hekey : e.2.key = key := of_decide_eq_true
        (@List.find?_some (BeliefId × BeliefNode) (fun e => decide (e.2.key = key)) _ _ he)
      obtain ⟨g, hg, -, hnode⟩ := h.field_of_get
        ((SlotMap.mem_iter _ _ _).mp (List.mem_of_find?_eq_some he))
      have hgkey : g.ident = key := by
        rw [hnode] at hekey
        exact hekey
      obtain rfl : g = f := List.inj_on_of_nodup_map input.distinct hg hf (hgkey.trans hident.symm)
      rw [Option.map_some, hnode]
      rfl

/-- the accessors agree on a belief that is there -/
theorem fieldConfidence_typed {input : DeriveInput} {f : BeliefFieldMeta}
    (hf : f ∈ input.beliefFields) {q : BeliefQuad M G}
    (hthere : ∃ id n, q.get id = some n ∧ n.key = f.ident) :
    input.fieldConfidence q f.ident = some (f.typedConfidence q) := by
  obtain ⟨id, n, hn, hkey⟩ := hthere
  unfold BeliefStruct.fieldConfidence BeliefFieldMeta.typedConfidence
  rw [if_pos (List.mem_map_of_mem hf)]
  cases he : (SlotMap.iter q.nodes).find? fun e => e.2.key = f.ident with
  | none =>
    have hmem := (SlotMap.mem_iter q.nodes id n).mpr hn
    exact absurd (decide_eq_true hkey) (List.find?_eq_none.mp he _ hmem)
  | some e => rfl

/-- **the schema descriptor says of the quad of a struct what is the case**: what each belief is,
that there is one for each descriptor, which inferences there are, and the confidences that the
accessor returns -/
theorem schema_describes (input : DeriveInput) (stamp : String → Stamp) (x : input.Value) :
    let q : BeliefQuad M G := input.toBeliefQuad stamp x
    let descriptors := input.schemaDescriptor.beliefs
    (∀ id n, q.get id = some n → ∃ d ∈ descriptors, Schema.Described d n) ∧
    (∀ d ∈ descriptors, ∃! id, ∃ n, q.get id = some n ∧ n.key = d.key) ∧
    (∀ e, e ∈ q.causal.edges ↔ ∃ d ∈ descriptors, ∃ parent ∈ d.causalParent, ∃ p c,
      (∃ n, q.get p = some n ∧ n.key = parent) ∧ (∃ n, q.get c = some n ∧ n.key = d.key) ∧
      e = (p, c, .inferredFrom [p])) ∧
    (∀ key, input.fieldConfidence q key = (descriptors.find? fun d => d.key = key).map fun d =>
      (clamp d.initialConfidence 0 1, none)) ∧
    ∀ f ∈ input.beliefFields, input.fieldConfidence q f.ident = some (f.typedConfidence q) := by
  intro q descriptors
  obtain ⟨ids, hplaced, hedges⟩ := input.placed_toBeliefQuad stamp x (M := M) (G := G)
  have hids : (ids.map Prod.fst).Nodup := by
    rw [hplaced.keys]
    exact input.distinct
  refine ⟨fun id n hn => ?_, fun d hd => ?_, fun e => ?_, fieldConfidence_eq hplaced,
    fun f hf => ?_⟩
  · obtain ⟨f, hf, -, rfl⟩ := hplaced.field_of_get hn
    exact ⟨_, List.mem_map_of_mem hf, rfl, rfl, rfl, rfl, rfl, _, rfl⟩
  · obtain ⟨f, hf, rfl⟩ := List.mem_map.mp hd
    obtain ⟨id, hid⟩ := hplaced.id_of_mem hf
    refine ⟨id, hplaced.mem_ids_iff.mp hid, fun j hj => ?_⟩
    have hj' := hplaced.mem_ids_iff.mpr hj
    exact Option.some.inj ((lookup_of_mem hids hj').symm.trans (lookup_of_mem hids hid))
  · rw [hedges]
    constructor
    · intro h
      obtain ⟨f, hf, parent, hparent, p, c, hp, hc, rfl⟩ := h
      exact ⟨_, List.mem_map_of_mem hf, parent, hparent, p, c, hplaced.mem_ids_iff.mp hp,
        hplaced.mem_ids_iff.mp hc, rfl⟩
    · intro h
      obtain ⟨d, hd, parent, hparent, p, c, hp, hc, rfl⟩ := h
      obtain ⟨f, hf, rfl⟩ := List.mem_map.mp hd
      exact ⟨f, hf, parent, hparent, p, c, hplaced.mem_ids_iff.mpr hp,
        hplaced.mem_ids_iff.mpr hc, rfl⟩
  · obtain ⟨id, hid⟩ := hplaced.id_of_mem hf
    exact fieldConfidence_typed hf ⟨id, _, hplaced.node f hf id hid, rfl⟩

/-! ## what the default contract keeps -/

section
variable (input : DeriveInput)

/-- what the default contract asks of the fields that need an approval -/
def floors (key : String) (x : ℚ) : Prop :=
  ∃ f ∈ input.beliefFields, input.needsApproval f = true ∧ key = f.ident ∧
    x = f.confidence * (1 / 2)

theorem keeps_defaultContract : (input.defaultContract M G).Keeps input.floors where
  recovery := rfl
  uncritical inv hinv := by
    obtain ⟨f, -, rfl⟩ := List.mem_map.mp hinv
    show (if input.needsApproval f then ViolationClass.hard else .soft) ≠ .critical
    split <;> exact fun h => by cases h
  floor key x hfloor := by
    obtain ⟨f, hf, hneeds, rfl, rfl⟩ := hfloor
    refine List.mem_map.mpr ⟨f, hf, ?_⟩
    unfold contractInvariant
    rw [if_pos hneeds]

theorem half_le_clamp {c : ℚ} (hc : c ≤ 2) : c * (1 / 2) ≤ clamp c 0 1 := by
  unfold clamp
  split
  · linarith
  · split
    · linarith
    · linarith

theorem selfless_toBeliefQuad (hself : ∀ f ∈ input.beliefFields, f.causalParent ≠ some f.ident)
    (stamp : String → Stamp) (x : input.Value) :
    (input.toBeliefQuad stamp x : BeliefQuad M G).Selfless := by
  obtain ⟨ids, hplaced, hedges⟩ := input.placed_toBeliefQuad stamp x (M := M) (G := G)
  intro e he premises hpremises hmem
  obtain ⟨f, hf, parent, hparent, p, c, hp, hc, rfl⟩ := (hedges e).mp he
  obtain rfl := Option.some.inj hpremises
  have hpc : c = p := List.mem_singleton.mp hmem
  rw [hpc] at hc
  obtain ⟨n, hn, rfl⟩ := hplaced.mem_ids_iff.mp hp
  obtain ⟨n', hn', hkey⟩ := hplaced.mem_ids_iff.mp hc
  rw [hn] at hn'
  rw [← Option.some.inj hn'] at hkey
  exact hself f hf (hkey ▸ hparent)

/-- the default contract wants a belief for every field -/
theorem checkPreconditions_iff (q : BeliefQuad M G) :
    (input.defaultContract M G).checkPreconditions q = true ↔
      ∀ f ∈ input.beliefFields, ∃ n, q.Holds n ∧ n.key = f.ident := by
  unfold BehavioralContract.checkPreconditions defaultContract
  rw [List.all_map, List.all_eq_true]
  exact forall₂_congr fun f _ => BeliefQuad.evaluate_beliefExists

variable [Platform]

theorem watched_derived (hself : ∀ f ∈ input.beliefFields, f.causalParent ≠ some f.ident)
    (stamp : String → Stamp) (x : input.Value) (reliabilityBaseline : ℚ) (llmClient : Bool)
    (tau : ℚ) : BeliefRuntime.Watched (input.defaultContract M G)
      (.build (input.toBeliefQuad stamp x) reliabilityBaseline [input.defaultContract M G] none
        llmClient tau) := by
  obtain ⟨ids, hplaced, -⟩ := input.placed_toBeliefQuad stamp x (M := M) (G := G)
  exact ⟨rfl, rfl, hplaced.graphs, hplaced.uniqueKeys input.distinct,
    input.selfless_toBeliefQuad hself stamp x⟩

/-- **what a runtime that starts from a struct keeps under its default contract**: in every run of
updates a field that needs an approval keeps half of its confidence, but for `leastChange` for each
recovery that fails; as long as every field has its belief, every update passes the checks before
the revision; and when one has lost it, no update does anything any more -/
theorem derived_contract (hself : ∀ f ∈ input.beliefFields, f.causalParent ≠ some f.ident)
    (hceiling : ∀ f ∈ input.beliefFields, input.needsApproval f = true → f.confidence ≤ 2)
    (stamp : String → Stamp) (x : input.Value) (reliabilityBaseline : ℚ) (llmClient : Bool)
    (tau : ℚ) (calls : List UpdateCall)
    (hnodup : (calls.map fun call => call.checkpointStamp.uuid).Nodup) :
    let start : BeliefRuntime M G := .build (input.toBeliefQuad stamp x) reliabilityBaseline
      [input.defaultContract M G] none llmClient tau
    let rt := run BeliefRuntime.afterUpdate start calls
    (∀ f ∈ input.beliefFields, input.needsApproval f = true →
      ∃ n, rt.quad.Holds n ∧ n.key = f.ident ∧
        f.confidence / 2 - start.failedRecoveries calls * leastChange ≤ n.fastConfidence) ∧
    ((∀ f ∈ input.beliefFields, ∃ n, rt.quad.Holds n ∧ n.key = f.ident) →
      ∀ call, rt.Admits call) ∧
    ((∃ f ∈ input.beliefFields, ∀ n, rt.quad.Holds n → n.key ≠ f.ident) → ∀ more,
      run BeliefRuntime.afterUpdate rt more = rt ∧
        rt.results more = more.map fun call =>
          .error (.preconditionFailed input.name (rt.keyOf call.id))) := by
  intro start rt
  have hwatched := input.watched_derived hself stamp x reliabilityBaseline llmClient tau
    (M := M) (G := G)
  obtain ⟨ids, hplaced, -⟩ := input.placed_toBeliefQuad stamp x (M := M) (G := G)
  have hnone : start.quad.checkpoints = [] := hplaced.checkpoints
  have hstart : ∀ key c, input.floors key c → start.quad.AtLeast key (c - 0) := by
    intro key c hfloor
    obtain ⟨f, hf, hneeds, rfl, rfl⟩ := hfloor
    obtain ⟨id, hid⟩ := hplaced.id_of_mem hf
    have hget := hplaced.node f hf id hid
    refine ⟨_, hwatched.unique.holder_iff.mpr ⟨⟨id, hget⟩, rfl⟩, ?_⟩
    rw [sub_zero]
    exact half_le_clamp (hceiling f hf hneeds)
  obtain ⟨hrt, hfloors⟩ := BeliefRuntime.floors_run input.keeps_defaultContract hwatched le_rfl
    hstart hnodup fun cp hcp => by
      rw [hnone] at hcp
      cases hcp
  refine ⟨fun f hf hneeds => ?_, fun hall => ?_, fun hlost more => ?_⟩
  · obtain ⟨n, hn, hx⟩ := hfloors f.ident _ ⟨f, hf, hneeds, rfl, rfl⟩
    obtain ⟨hholds, hkey⟩ := BeliefQuad.holds_of_holder hn
    exact ⟨n, hholds, hkey, by linarith⟩
  · exact hrt.admits ((input.checkPreconditions_iff rt.quad).mpr hall) rfl
  · refine hrt.refused_run (Bool.eq_false_iff.mpr fun hp => ?_) more
    obtain ⟨f, hf, hno⟩ := hlost
    obtain ⟨n, hn, hkey⟩ := (input.checkPreconditions_iff rt.quad).mp hp f hf
    exact hno n hn hkey

end

section
attribute [local instance] Platform.ascii

/-- the struct of what the user said and what is inferred from it; the former needs an approval -/
def approvedBeliefs : DeriveInput where
  toBeliefStruct := BeliefStruct.twoFieldBeliefs
  name := "TwoFieldBeliefs"
  hints ident := ⟨if ident = "intent" then some "human_approval" else none, none, none⟩

/-- the suggestion is revised, which would contract the intent -/
def reviseSuggestion : UpdateCall := .at 11 ⟨2, 1⟩ (.asserted "use sessions") (9 / 10)

def approvedRuntime : BeliefRuntime SlotVec EdgeList :=
  .build (approvedBeliefs.toBeliefQuad (fun _ => ⟨0, 0⟩) BeliefStruct.beliefs) (1 / 2)
    [approvedBeliefs.defaultContract SlotVec EdgeList] none false (15 / 100)

/-- the intent is kept -/
theorem derived_contract_approvedBeliefs : ∃ n,
    (run BeliefRuntime.afterUpdate approvedRuntime [reviseSuggestion]).quad.Holds n ∧
      n.key = "intent" ∧ 1 / 4 ≤ n.fastConfidence := by
  have hself : ∀ f ∈ approvedBeliefs.beliefFields, f.causalParent ≠ some f.ident := by decide
  have hceiling : ∀ f ∈ approvedBeliefs.beliefFields, approvedBeliefs.needsApproval f = true →
      f.confidence ≤ 2 := by
    decide +kernel
  have hfailed : approvedRuntime.failedRecoveries [reviseSuggestion] = 0 := by decide +kernel
  have h := approvedBeliefs.derived_contract (M := SlotVec) (G := EdgeList) hself hceiling
    (fun _ => ⟨0, 0⟩) BeliefStruct.beliefs (1 / 2) false (15 / 100) [reviseSuggestion] (by decide)
  obtain ⟨n, hn, hkey, hx⟩ := h.1 BeliefStruct.intentField List.mem_cons_self (by decide)
  refine ⟨n, hn, hkey, le_trans ?_ hx⟩
  have hfailed' : (BeliefRuntime.failedRecoveries (.build (approvedBeliefs.toBeliefQuad
      (fun _ => ⟨0, 0⟩) BeliefStruct.beliefs) (1 / 2)
        [approvedBeliefs.defaultContract SlotVec EdgeList] none false (15 / 100))
      [reviseSuggestion]) = 0 := hfailed
  rw [hfailed']
  norm_num [BeliefStruct.intentField]

end
end DeriveInput

end Epica
