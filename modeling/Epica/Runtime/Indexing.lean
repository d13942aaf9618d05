import Epica.Runtime.Reflection

/-!
# The prospective index

An insertion that asks for prospective indexing goes on after its belief is in the quad: it reads
the key, waits for the scenarios of the client and for their embeddings, and writes the index at
last.  A revision or a removal in between has then already invalidated what is not there yet.
`Indexing` is a runtime with the insertions, the updates and the other operations on it, and with
ghost records of the value from which the entries of each belief have been generated.

* `IndexWithin`              what drops entries, and changes the value of no belief that has some;
* `insertSections_alone`     an insertion whose sections are not interrupted is `insertBelief`;
* `Indexing.step`            the next section of an insertion or an update, or an operation.
-/

set_option linter.unusedSectionVars false

namespace Epica
open Lib

/-! ## the entries of a quad -/

/-- all entries of `id`, if there are any -/
def ProspectiveIndex.get (x : ProspectiveIndex) (id : BeliefId) : Option (List ProspectiveEntry) :=
  x.entries.lookup id

theorem ProspectiveIndex.get_insert (x : ProspectiveIndex) (id : BeliefId)
    (entries : List ProspectiveEntry) (j : BeliefId) :
    (x.insert id entries).get j = if j = id then some entries else x.get j := by
  unfold ProspectiveIndex.get ProspectiveIndex.insert
  split
  · rename_i h
    rw [h]
    exact Finmap.lookup_insert _
  · rename_i h
    exact Finmap.lookup_insert_of_ne _ h

theorem ProspectiveIndex.get_invalidate (x : ProspectiveIndex) (id j : BeliefId) :
    (x.invalidate id).get j = if j = id then none else x.get j := by
  unfold ProspectiveIndex.get ProspectiveIndex.invalidate
  split
  · rename_i h
    rw [h]
    exact Finmap.lookup_erase id _
  · rename_i h
    exact Finmap.lookup_erase_ne h

namespace BeliefQuad
section
variable {M : Type → Type} {G : Type → Type → Type} [SlotMap M] [StableDiGraph G] [Platform]

/-- the index has entries for `id` -/
def Indexed (q : BeliefQuad M G) (id : BeliefId) : Prop := (q.prospectiveIndex.get id).isSome

instance (q : BeliefQuad M G) (id : BeliefId) : Decidable (q.Indexed id) :=
  inferInstanceAs (Decidable ((q.prospectiveIndex.get id).isSome = true))

/-- the entries of `q'` are among those of `q`, and their beliefs have the value they have in `q`,
if they are live there -/
structure IndexWithin (q' q : BeliefQuad M G) : Prop where
  entries : ∀ id entries, q'.prospectiveIndex.get id = some entries →
    q.prospectiveIndex.get id = some entries
  value : ∀ id, q'.Indexed id → q.Live id → q'.valueAt id = q.valueAt id

variable {q q' q'' : BeliefQuad M G}

theorem live_iff_of_valueAt {id : BeliefId} (h : q'.valueAt id = q.valueAt id) :
    q'.Live id ↔ q.Live id := by
  have hq : ∀ q : BeliefQuad M G, q.Live id ↔ (q.valueAt id).isSome = true := by
    intro q
    unfold Live valueAt
    rw [Option.isSome_map]
  rw [hq, hq, h]

theorem IndexWithin.indexed (h : q'.IndexWithin q) {id : BeliefId} (hid : q'.Indexed id) :
    q.Indexed id := by
  obtain ⟨entries, he⟩ := Option.isSome_iff_exists.mp hid
  exact Option.isSome_iff_exists.mpr ⟨entries, h.entries id entries he⟩

theorem IndexWithin.trans (h' : q''.IndexWithin q') (h : q'.IndexWithin q) :
    q''.IndexWithin q where
  entries id entries he := h.entries id entries (h'.entries id entries he)
  value id hid hl := by
    have hvalue := h.value id (h'.indexed hid) hl
    rw [h'.value id hid ((live_iff_of_valueAt hvalue).mpr hl), hvalue]

/-- what leaves the nodes and the index alone -/
theorem indexWithin_of_eq (hn : q'.nodes = q.nodes)
    (hi : q'.prospectiveIndex = q.prospectiveIndex) : q'.IndexWithin q where
  entries id entries he := by
    rw [← hi]
    exact he
  value id _ _ := by
    unfold valueAt BeliefQuad.get
    rw [hn]

theorem IndexWithin.refl (q : BeliefQuad M G) : q.IndexWithin q := indexWithin_of_eq rfl rfl

theorem OnlyConfidences.indexWithin (h : q.OnlyConfidences q') : q'.IndexWithin q where
  entries id entries he := by
    rw [h.rest] at he
    exact he
  value id _ _ := h.valueAt id

/-- what invalidates the entries of `id`, and leaves the other values alone -/
theorem indexWithin_of_invalidate (id : BeliefId)
    (hi : q'.prospectiveIndex = q.prospectiveIndex.invalidate id)
    (hv : ∀ j, j ≠ id → q'.valueAt j = q.valueAt j) : q'.IndexWithin q := by
  have hget : ∀ j, q'.prospectiveIndex.get j =
      if j = id then none else q.prospectiveIndex.get j := by
    intro j
    rw [hi, ProspectiveIndex.get_invalidate]
  constructor
  · intro j entries he
    rw [hget] at he
    split at he
    · cases he
    · exact he
  · intro j hj _
    unfold Indexed at hj
    rw [hget] at hj
    split at hj
    · cases hj
    · rename_i hne
      exact hv j hne

theorem indexWithin_insert (q : BeliefQuad M G) (node : BeliefNode) :
    (q.insert node).2.IndexWithin q where
  entries id entries he := he
  value id _ hl := by
    have hne : id ≠ q.nextId := by
      intro h
      rw [h] at hl
      exact q.not_live_nextId hl
    unfold valueAt
    rw [get_insert, if_neg hne]

theorem indexWithin_remove (q : BeliefQuad M G) (id : BeliefId) :
    (q.remove id).2.IndexWithin q := by
  by_cases h : q.Live id
  · obtain ⟨node, hn⟩ := live_iff.mp h
    refine indexWithin_of_invalidate id ?_ fun j hj => ?_
    · rw [remove_of_live hn]
    · unfold valueAt
      rw [get_remove, if_neg hj]
  · rw [remove_of_dead h]
    exact .refl q

theorem indexWithin_expand (q : BeliefQuad M G) (id : BeliefId) (f : BeliefNode → BeliefNode) :
    (q.expand id f).IndexWithin q := by
  refine indexWithin_of_invalidate id rfl fun j hj => ?_
  unfold valueAt
  rw [get_expand, if_neg hj]

/-- contracting and expanding drop the entries of what they touch -/
theorem indexWithin_revise (q : BeliefQuad M G) (stamp : Stamp) (order : HashOrder BeliefId)
    (id : BeliefId) (v : BeliefValue) (p : Provenance) (c : ℚ) :
    (q.revise stamp order id v p c).2.IndexWithin q := by
  refine revise_quad stamp order id v p c q (fun q' => q'.IndexWithin q) (.refl q) ?_
    fun b base hb => (indexWithin_expand base id _).trans hb
  exact removeAll_induction (fun q' => q'.IndexWithin q)
    (fun q' j hq => (indexWithin_remove q' j).trans hq) (.refl q) _

end
end BeliefQuad

/-! ## the sections of an insertion -/

structure RawProspectiveScenario where
  scenario : String
  causalEvents : List CausalEvent

/-- the node, and what the client and the embedder answer: `none` is an error.  The client is
asked with the key it is given and with the value of `node`, the embedder with one scenario after
the other -/
structure InsertCall where
  node : BeliefNode
  generateScenarios : String → Option (List RawProspectiveScenario)
  embed : Nat → String → Option (List ℚ)

/-- a scenario that cannot be embedded keeps an empty embedding -/
def InsertCall.entries (call : InsertCall) (raw : List RawProspectiveScenario) :
    List ProspectiveEntry :=
  raw.zipIdx.map fun r => ⟨r.1.scenario, (call.embed r.2 r.1.scenario).getD [], r.1.causalEvents⟩

/-- where an insertion is, and what it carries -/
inductive InsertPc where
  | start
  | registerKey (id : BeliefId)
  | readKey (id : BeliefId)
  | writeIndex (id : BeliefId) (entries : List ProspectiveEntry)
  | done (id : BeliefId)

namespace BeliefRuntime
section
variable {M : Type → Type} {G : Type → Type → Type} [SlotMap M] [StableDiGraph G]

def writeIndex (rt : BeliefRuntime M G) (id : BeliefId) (entries : List ProspectiveEntry) :
    BeliefRuntime M G :=
  { rt with quad :=
      { rt.quad with prospectiveIndex := rt.quad.prospectiveIndex.insert id entries } }

end
end BeliefRuntime

section
variable {M : Type → Type} {G : Type → Type → Type} [SlotMap M] [StableDiGraph G]

/-- one lock section; `attached` says that there are a client and an embedder -/
def insertSection (attached : Bool) (call : InsertCall) (rt : BeliefRuntime M G) :
    InsertPc → BeliefRuntime M G × InsertPc
  | .start =>
    let inserted := rt.quad.insert call.node
    ({ rt with quad := inserted.2 }, .registerKey inserted.1)
  | .registerKey id =>
    let rt := { rt with keyIndex := rt.keyIndex.insert call.node.key id }
    if call.node.prospect && attached then (rt, .readKey id) else (rt, .done id)
  | .readKey id =>
    -- the lock is released before the client is asked
    match call.generateScenarios (rt.keyOf id) with
    | none => (rt, .done id)
    | some raw => (rt, .writeIndex id (call.entries raw))
  | .writeIndex id entries => (rt.writeIndex id entries, .done id)
  | .done id => (rt, .done id)

/-- the sections of an insertion that runs alone -/
def insertSections (attached : Bool) (call : InsertCall) (rt : BeliefRuntime M G) :
    BeliefRuntime M G × InsertPc :=
  (List.replicate 4 ()).foldl (fun r _ => insertSection attached call r.1 r.2) (rt, .start)

theorem keyOf_insert (rt : BeliefRuntime M G) (node : BeliefNode)
    (index : Finmap fun _ : String => BeliefId) :
    ({ rt with quad := (rt.quad.insert node).2, keyIndex := index } : BeliefRuntime M G).keyOf
      (rt.quad.insert node).1 = node.key := by
  show (((rt.quad.insert node).2.get rt.quad.nextId).map BeliefNode.key).getD "" = node.key
  rw [BeliefQuad.get_insert, if_pos rfl]
  rfl

/-- **an insertion whose sections are not interrupted is `insertBelief`** -/
theorem insertSections_alone (attached : Bool) (call : InsertCall) (rt : BeliefRuntime M G) :
    let scenarios :=
      if attached then (call.generateScenarios call.node.key).map call.entries else none
    let inserted := rt.insertBelief call.node scenarios
    insertSections attached call rt = (inserted.2, .done inserted.1) := by
  have hkey := keyOf_insert rt call.node
    (rt.keyIndex.insert call.node.key (rt.quad.insert call.node).1)
  unfold insertSections BeliefRuntime.insertBelief
  simp only [List.replicate, List.foldl, insertSection]
  cases hp : call.node.prospect with
  | false => rfl
  | true =>
    cases attached with
    | false => rfl
    | true =>
      simp only [Bool.and_self, if_true]
      rw [hkey]
      cases call.generateScenarios call.node.key with
      | none => rfl
      | some raw => rfl

end

/-! ## insertions, updates and operations -/

/-- the operation writes entries of its own -/
def Op.writesIndex : Op → Bool
  | .indexProspective _ _ => true
  | _ => false

/-- an insertion or an update runs its next section, or an operation on the quad runs; only
insertions write the index -/
inductive IndexTurn (T U : Type) where
  | insert (t : T)
  | update (u : U)
  | operate (op : Op) (h : op.writesIndex = false)

/-- for each belief with entries, the value they have been generated from -/
abbrev Origins := BeliefId → Option BeliefValue

structure Indexing (T U : Type) (M : Type → Type) (G : Type → Type → Type) where
  flight : InFlight U M G
  inserting : T → InsertPc
  origins : Origins
  captured : List (BeliefQuadCheckpoint M G × Origins)

namespace Indexing
section
variable {M : Type → Type} {G : Type → Type → Type} [SlotMap M] [StableDiGraph G] [Platform]
  {T U : Type} [DecidableEq T] [DecidableEq U]

def start (rt : BeliefRuntime M G) : Indexing T U M G where
  flight := .start rt
  inserting _ := .start
  origins _ := none
  captured := rt.quad.checkpoints.map fun cp => (cp, fun _ => none)

def runtime (s : Indexing T U M G) : BeliefRuntime M G := s.flight.runtime

def quad (s : Indexing T U M G) : BeliefQuad M G := s.flight.runtime.quad

/-- the ghosts go back with the quad to the checkpoint `id`, if there is one -/
def restore (s : Indexing T U M G) (flight : InFlight U M G) (id : Option CheckpointId) :
    Indexing T U M G :=
  match id.bind fun id => s.captured.find? fun c => c.1.id = id with
  | some c => { s with flight := flight, origins := c.2, captured := [] }
  | none => { s with flight := flight }

def stepInsert (attached : Bool) (inserts : T → InsertCall) (s : Indexing T U M G) (t : T) :
    Indexing T U M G :=
  let r := insertSection attached (inserts t) s.runtime (s.inserting t)
  { s with
    flight := { s.flight with runtime := r.1 }
    inserting := Function.update s.inserting t r.2
    origins :=
      match s.inserting t with
      | .writeIndex id _ => Function.update s.origins id (some (inserts t).node.value)
      | _ => s.origins }

def stepUpdate (updates : U → UpdateCall) (s : Indexing T U M G) (u : U) : Indexing T U M G :=
  let flight := InFlight.step updates s.flight u
  match s.flight.pc u with
  | .checkpoint _ =>
    let cp := s.quad.capture (updates u).checkpointStamp.uuid (updates u).checkpointStamp.nowMs
    { s with flight := flight, captured := s.captured ++ [(cp, s.origins)] }
  | .postUpdate _ cp _ _ =>
    s.restore flight (recoveredCheckpoint s.runtime.contractEngine.contracts s.quad (some cp))
  | _ => { s with flight := flight }

def operate (s : Indexing T U M G) (op : Op) : Indexing T U M G :=
  let flight := { s.flight with runtime := { s.runtime with quad := s.quad.step op } }
  match op with
  | .checkpoint uuid nowMs =>
    { s with flight := flight, captured := s.captured ++ [(s.quad.capture uuid nowMs, s.origins)] }
  | .clearCheckpoints => { s with flight := flight, captured := [] }
  | .rollbackTo id =>
    s.restore flight (if (s.quad.rollbackTo id).1.isOk then some id else none)
  | _ => { s with flight := flight }

def step (attached : Bool) (inserts : T → InsertCall) (updates : U → UpdateCall)
    (s : Indexing T U M G) : IndexTurn T U → Indexing T U M G
  | .insert t => stepInsert attached inserts s t
  | .update u => stepUpdate updates s u
  | .operate op _ => s.operate op

/-- each belief with entries is live, and they come from the value that it holds -/
def FreshIn (q : BeliefQuad M G) (origins : Origins) : Prop :=
  ∀ id, q.Indexed id → q.Live id ∧ origins id = q.valueAt id

def Fresh (s : Indexing T U M G) : Prop := FreshIn s.quad s.origins

/-- the checkpoints are fresh too -/
def FreshThroughout (s : Indexing T U M G) : Prop :=
  s.Fresh ∧ ∀ c ∈ s.captured, FreshIn c.1.quad c.2

/-- an insertion is about to write entries for a belief that does not hold the value they come
from: it holds another one, or it is not live -/
def LateWrite (inserts : T → InsertCall) (s : Indexing T U M G) : IndexTurn T U → Prop
  | .insert t => ∃ id entries, s.inserting t = .writeIndex id entries ∧
    s.quad.valueAt id ≠ some (inserts t).node.value
  | _ => False

/-- the captured quads are the checkpoints, and have none of their own -/
structure Tracked (s : Indexing T U M G) : Prop where
  checkpoints : s.captured.map Prod.fst = s.quad.checkpoints
  bare : ∀ c ∈ s.captured, c.1.quad.checkpoints = []

end
end Indexing
end Epica
