import Epica.Mcp.Handlers
import Epica.Runtime.Governance
import Epica.Runtime.KeyIndex

/-!
# Setting and getting by key

A request to set a key looks the key up in the index, inserts into the quad, and registers what it
has inserted, under three separate locks; a request to get scans the quad, and knows nothing of the
index.  Two first sets of one key that overlap leave two beliefs under it; from then on what is set
is the one that registered last, and what is read the one that the scan meets first.

* `step_beliefs`   what one section does to keys and values: it writes one belief, or it does
                   nothing to them;
* `getValue_step`  with one belief to a key, a key reads what the last section that wrote it wrote;
* `set_get_iff`    keys stay unique, and what has been set is read, exactly in the runs that insert
                   only keys that no belief has, and in which of the sets of a key that overlap
                   the last to write has the text of those that complete last.
-/

set_option linter.unusedSectionVars false

namespace Epica
open Lib Lib.StableDiGraph

/-! ## quads without causal edges -/

namespace BeliefQuad
section
variable {M : Type → Type} {G : Type → Type → Type} [SlotMap M] [StableDiGraph G] [Platform]

def NoCause (q : BeliefQuad M G) : Prop := edgeReferences q.causal.graph = []

theorem noCause_new : (new : BeliefQuad M G).NoCause := edgeReferences_new

theorem NoCause.insert {q : BeliefQuad M G} (h : q.NoCause) (node : BeliefNode) :
    (q.insert node).2.NoCause := by
  have hperm := edgeReferences_addNode q.causal.graph (SlotMap.nextKey q.nodes)
  rw [show edgeReferences q.causal.graph = [] from h] at hperm
  exact hperm.eq_nil

theorem NoCause.remove {q : BeliefQuad M G} (h : q.NoCause) (id : BeliefId) :
    (q.remove id).2.NoCause := by
  unfold BeliefQuad.remove NoCause
  split
  · exact h
  · show edgeReferences (q.causal.removeNode id).graph = []
    unfold Projection.removeNode
    split
    · exact h
    · rename_i idx _
      have hperm := edgeReferences_removeNode q.causal.graph idx
      rw [show edgeReferences q.causal.graph = [] from h, List.filter_nil] at hperm
      exact hperm.eq_nil

/-- without causal edges there is nothing to contract -/
theorem NoCause.retracts {q : BeliefQuad M G} (h : q.NoCause) (id : BeliefId) (v : BeliefValue) :
    q.retracts id v = ∅ := by
  have hpremises : CausalGraph.inferredFromPremises q.causal id = [] := by
    unfold CausalGraph.inferredFromPremises
    split
    · rfl
    · refine List.eq_nil_iff_forall_not_mem.mpr fun ps hps => ?_
      obtain ⟨e, he, -⟩ := List.mem_filterMap.mp hps
      have hmem := ((mem_edgesDirected _ _ _ e).mp he).1
      rw [show edgeReferences q.causal.graph = [] from h] at hmem
      exact absurd hmem List.not_mem_nil
  have hset : q.contractedSet id v = ∅ := by
    unfold contractedSet minimalContractionSet
    rw [hpremises]
    split <;> rfl
  unfold BeliefQuad.retracts
  rw [hset, ite_self]

theorem NoCause.revise {q : BeliefQuad M G} (h : q.NoCause) (stamp : Stamp)
    (order : HashOrder BeliefId) (id : BeliefId) (v : BeliefValue) (p : Provenance) (c : ℚ) :
    (q.revise stamp order id v p c).2.NoCause :=
  revise_quad stamp order id v p c q NoCause h
    (removeAll_induction NoCause (fun _ id h => NoCause.remove h id) h _) fun _ _ hb => hb

/-- `q'` has the keys and the values of `q`, and no causal edges if `q` has none -/
structure SameBeliefs (q q' : BeliefQuad M G) : Prop where
  edges : q.NoCause → q'.NoCause
  keys : q'.keyAt = q.keyAt
  values : q'.valueAt = q.valueAt

theorem SameBeliefs.refl (q : BeliefQuad M G) : SameBeliefs q q := ⟨fun h => h, rfl, rfl⟩

theorem OnlyConfidences.same {q q' : BeliefQuad M G} (h : q.OnlyConfidences q') :
    SameBeliefs q q' where
  edges hn := by
    unfold NoCause
    rw [h.causal]
    exact hn
  keys := h.keyAt
  values := funext h.valueAt

/-- a write that keeps keys and values -/
theorem same_modify (q : BeliefQuad M G) (id : BeliefId) {f : BeliefNode → BeliefNode}
    (hkey : ∀ n, (f n).key = n.key) (hvalue : ∀ n, (f n).value = n.value) :
    SameBeliefs q (q.modify id f) := by
  have hmap : ∀ {α : Type} (g : BeliefNode → α), (∀ n, g (f n) = g n) → ∀ j,
      ((q.modify id f).get j).map g = (q.get j).map g := by
    intro α g hg j
    rw [get_modify]
    split
    · rw [Option.map_map]
      exact congrArg (fun g => (q.get j).map g) (funext hg)
    · rfl
  exact ⟨fun hn => hn, funext (hmap BeliefNode.key hkey), funext (hmap BeliefNode.value hvalue)⟩

theorem valueAt_insert (q : BeliefQuad M G) (node : BeliefNode) :
    (q.insert node).2.valueAt = Function.update q.valueAt q.nextId (some node.value) := by
  funext j
  unfold BeliefQuad.valueAt
  rw [get_insert]
  by_cases hj : j = q.nextId
  · rw [if_pos hj, hj, Function.update_self]
    rfl
  · rw [if_neg hj, Function.update_of_ne hj]

variable {q : BeliefQuad M G} (h : q.NoCause) (stamp : Stamp) (order : HashOrder BeliefId)
  (id : BeliefId) (v : BeliefValue) (p : Provenance) (c : ℚ)
include h

theorem NoCause.keyAt_revise : (q.revise stamp order id v p c).2.keyAt = q.keyAt := by
  rw [BeliefQuad.keyAt_revise, h.retracts]
  funext j
  rw [if_neg (Finset.notMem_empty j)]

/-- a revision that goes through writes its value, and no other -/
theorem NoCause.valueAt_revise_ok {record : RevisionRecord}
    (hr : (q.revise stamp order id v p c).1 = .ok record) :
    (q.revise stamp order id v p c).2.valueAt = Function.update q.valueAt id (some v) := by
  funext j
  by_cases hj : j = id
  · subst hj
    rw [Function.update_self]
    exact (valueAt_revise_self q stamp order j v p c hr).2
  · have hno : j ∉ q.retracts id v := by
      rw [h.retracts]
      exact Finset.notMem_empty j
    rw [Function.update_of_ne hj]
    exact valueAt_revise_other q stamp order id v p c hno hj

theorem NoCause.valueAt_revise_error {e : BeliefRevisionError}
    (hr : (q.revise stamp order id v p c).1 = .error e) :
    (q.revise stamp order id v p c).2.valueAt = q.valueAt := by
  have hno : ∀ j, j ∉ q.retracts id v := by
    intro j
    rw [h.retracts]
    exact Finset.notMem_empty j
  funext j
  by_cases hj : j = id
  · rw [hj]
    exact valueAt_revise_failed q stamp order id v p c hr (hno id)
  · exact valueAt_revise_other q stamp order id v p c (hno j) hj

end
end BeliefQuad

/-! ## what an update does to keys and values -/

section
variable {M : Type → Type} {G : Type → Type → Type} [SlotMap M] [StableDiGraph G] [Platform]

/-- the call is about to revise, and the revision goes through -/
def UpdateWrites (call : UpdateCall) (rt : BeliefRuntime M G) (pc : UpdatePc) : Prop :=
  (∃ beliefKey cp, pc = .revise beliefKey cp) ∧ ∃ out, (rt.reviseAndPropagate call).1 = .ok out

/-- **one section of an update writes its value, or it does nothing to keys and values**, if there
are no causal edges and no contracts -/
theorem lockSection_beliefs (call : UpdateCall) {rt : BeliefRuntime M G} (hn : rt.quad.NoCause)
    (hc : rt.contractEngine.contracts = []) (pc : UpdatePc) :
    (UpdateWrites call rt pc ∧ (lockSection call rt pc).1.quad.NoCause ∧
      (lockSection call rt pc).1.quad.keyAt = rt.quad.keyAt ∧
      (lockSection call rt pc).1.quad.valueAt =
        Function.update rt.quad.valueAt call.id (some call.value)) ∨
    (¬ UpdateWrites call rt pc ∧
      BeliefQuad.SameBeliefs rt.quad (lockSection call rt pc).1.quad) := by
  have hother : (∀ beliefKey cp, pc ≠ .revise beliefKey cp) → ¬ UpdateWrites call rt pc := by
    intro hpc hw
    obtain ⟨⟨beliefKey, cp, he⟩, -⟩ := hw
    exact hpc beliefKey cp he
  rw [lockSection_fst]
  cases pc with
  | revise beliefKey cp =>
    have honly := (rt.reviseAndPropagate_only call).same
    have hedges := honly.edges (hn.revise call.revisionStamp call.contractionOrder call.id
      call.value call.provenance call.confidence)
    have hkeys := hn.keyAt_revise call.revisionStamp call.contractionOrder call.id call.value
      call.provenance call.confidence
    rcases rt.reviseAndPropagate_cases call with ⟨e, he, he', -⟩ | ⟨record, out, hok, hok', -⟩
    · refine Or.inr ⟨fun hw => ?_, fun _ => hedges, honly.keys.trans hkeys, ?_⟩
      · obtain ⟨-, out, hout⟩ := hw
        rw [he'] at hout
        cases hout
      · exact honly.values.trans (hn.valueAt_revise_error _ _ _ _ _ _ he)
    · refine Or.inl ⟨⟨⟨beliefKey, cp, rfl⟩, out, hok'⟩, hedges, honly.keys.trans hkeys, ?_⟩
      exact honly.values.trans (hn.valueAt_revise_ok _ _ _ _ _ _ hok)
  | postUpdate beliefKey cp fast contradicted =>
    refine Or.inr ⟨hother (fun _ _ h => nomatch h), ?_⟩
    rcases rt.contractEngine.postUpdate_quad rt.quad (some cp) beliefKey "system" call.auditMs with
      ⟨snap, ⟨contract, v, hv, -⟩, -⟩ | ⟨-, honly⟩
    · rw [hc] at hv
      cases hv
    · exact honly.same
  | _ => exact Or.inr ⟨hother (fun _ _ h => nomatch h), ⟨fun h => h, rfl, rfl⟩⟩

end

/-! ## what a request does to keys and values -/

namespace Serving
section
variable {M : Type → Type} {G : Type → Type → Type} [SlotMap M] [StableDiGraph G] [Platform]
  {T : Type} [DecidableEq T]

def quad (s : Serving T M G) : BeliefQuad M G := s.session.runtime.quad

/-- `t` is about to write: its insertion into the quad, or a revision that goes through -/
def Writes (calls : T → SetCall) (s : Serving T M G) (t : T) : Prop :=
  s.pc t = .insertQuad ∨
    ∃ id pc, s.pc t = .update id pc ∧ UpdateWrites ((calls t).update id) s.session.runtime pc

/-- the index finds what has the key, and so do the requests that carry an id -/
structure Registered (calls : T → SetCall) (s : Serving T M G) : Prop where
  contracts : s.session.runtime.contractEngine.contracts = []
  edges : s.quad.NoCause
  index : ∀ key id, s.session.runtime.getByKey key = some id → s.quad.keyAt id = some key
  updates : ∀ t id pc, s.pc t = .update id pc → s.quad.keyAt id = some (calls t).key
  inserts : ∀ t id, s.pc t = .insertIndex id → s.quad.keyAt id = some (calls t).key

theorem quad_step (calls : T → SetCall) (s : Serving T M G) (t : T) :
    (step calls s t).quad = (s.session.setSection (calls t) (s.pc t)).1.runtime.quad := rfl

theorem pc_step (calls : T → SetCall) (s : Serving T M G) (t u : T) :
    (step calls s t).pc u =
      if u = t then (s.session.setSection (calls t) (s.pc t)).2 else s.pc u := by
  show Function.update s.pc t _ u = _
  rw [Function.update_apply]

/-- the sections that neither insert nor update keep keys and values -/
theorem setSection_same (call : SetCall) (s : Session M G) {pc : SetPc}
    (hinsert : pc ≠ .insertQuad) (hupdate : ∀ id upc, pc ≠ .update id upc) :
    BeliefQuad.SameBeliefs s.runtime.quad (s.setSection call pc).1.runtime.quad := by
  rw [Session.setSection_runtime]
  cases pc with
  | insertQuad => exact absurd rfl hinsert
  | update id upc => exact absurd rfl (hupdate id upc)
  | writeSlow id revised =>
    exact BeliefQuad.same_modify _ id (fun _ => rfl) (fun _ => rfl)
  | _ => exact .refl _

/-- **one section of a request inserts its belief, or revises the belief it has found, or does
nothing to keys and values** -/
theorem step_beliefs (calls : T → SetCall) {s : Serving T M G} (h : s.Registered calls) (t : T) :
    (s.pc t = .insertQuad ∧ (step calls s t).quad = (s.quad.insert (calls t).node).2) ∨
    (s.pc t ≠ .insertQuad ∧ Writes calls s t ∧ ∃ id, s.quad.keyAt id = some (calls t).key ∧
      (step calls s t).quad.NoCause ∧ (step calls s t).quad.keyAt = s.quad.keyAt ∧
      (step calls s t).quad.valueAt =
        Function.update s.quad.valueAt id (some (.asserted (calls t).value))) ∨
    (¬ Writes calls s t ∧ BeliefQuad.SameBeliefs s.quad (step calls s t).quad) := by
  rw [quad_step]
  by_cases hinsert : s.pc t = .insertQuad
  · rw [hinsert]
    exact Or.inl ⟨rfl, rfl⟩
  · right
    by_cases hupdate : ∃ id upc, s.pc t = .update id upc
    · obtain ⟨id, upc, hpc⟩ := hupdate
      have hsection : (s.session.setSection (calls t) (s.pc t)).1.runtime =
          (lockSection ((calls t).update id) s.session.runtime upc).1 := by
        rw [hpc]
        rfl
      rw [hsection]
      rcases lockSection_beliefs ((calls t).update id) h.edges h.contracts upc with
        ⟨hw, hn, hk, hv⟩ | ⟨hw, hsame⟩
      · exact Or.inl ⟨hinsert, Or.inr ⟨id, upc, hpc, hw⟩, id, h.updates t id upc hpc, hn, hk, hv⟩
      · refine Or.inr ⟨fun hwrites => ?_, hsame⟩
        rcases hwrites with hi | ⟨id', upc', hpc', hw'⟩
        · exact hinsert hi
        · rw [hpc] at hpc'
          cases hpc'
          exact hw hw'
    · refine Or.inr ⟨fun hwrites => ?_, setSection_same (calls t) s.session hinsert
        fun id upc hpc => hupdate ⟨id, upc, hpc⟩⟩
      rcases hwrites with hi | ⟨id, upc, hpc, -⟩
      · exact hinsert hi
      · exact hupdate ⟨id, upc, hpc⟩

/-- **the keys after one section**: with one more if it inserts, and otherwise those before it -/
theorem step_keys (calls : T → SetCall) {s : Serving T M G} (h : s.Registered calls) (t : T) :
    (s.pc t = .insertQuad ∧ (step calls s t).quad.keyAt =
        Function.update s.quad.keyAt s.quad.nextId (some (calls t).key)) ∨
      (s.pc t ≠ .insertQuad ∧ (step calls s t).quad.keyAt = s.quad.keyAt) := by
  rcases step_beliefs calls h t with ⟨hins, hq⟩ | ⟨hno, -, -, -, -, hkeys, -⟩ | ⟨hw, hsame⟩
  · rw [hq]
    exact Or.inl ⟨hins, BeliefQuad.keyAt_insert _ _⟩
  · exact Or.inr ⟨hno, hkeys⟩
  · exact Or.inr ⟨fun hins => hw (Or.inl hins), hsame.keys⟩

/-- a key once given stays -/
theorem keyAt_step (calls : T → SetCall) {s : Serving T M G} (h : s.Registered calls) (t : T)
    {id : BeliefId} {key : String} (hk : s.quad.keyAt id = some key) :
    (step calls s t).quad.keyAt id = some key := by
  rcases step_keys calls h t with ⟨-, hkeys⟩ | ⟨-, hkeys⟩
  · rw [hkeys, Function.update_of_ne]
    · exact hk
    · intro hid
      rw [hid, s.quad.keyAt_nextId] at hk
      cases hk
  · rw [hkeys]
    exact hk

theorem setSection_contracts (call : SetCall) (s : Session M G) (pc : SetPc) :
    (s.setSection call pc).1.runtime.contractEngine.contracts =
      s.runtime.contractEngine.contracts := by
  rw [Session.setSection_runtime]
  cases pc with
  | update id upc => exact lockSection_contracts (call.update id) s.runtime upc
  | _ => rfl

/-- what the index finds after a section it has found before, or the section has registered -/
theorem setSection_index (call : SetCall) (s : Session M G) (pc : SetPc) {key : String}
    {id : BeliefId} (h : (s.setSection call pc).1.runtime.getByKey key = some id) :
    s.runtime.getByKey key = some id ∨ (key = call.key ∧ pc = .insertIndex id) := by
  rw [Session.setSection_runtime] at h
  cases pc with
  | insertIndex id' =>
    have hlookup : (s.runtime.keyIndex.insert call.key id').lookup key = some id := h
    by_cases hkey : key = call.key
    · rw [hkey, Finmap.lookup_insert] at hlookup
      rw [Option.some.inj hlookup]
      exact Or.inr ⟨hkey, rfl⟩
    · rw [Finmap.lookup_insert_of_ne _ hkey] at hlookup
      exact Or.inl hlookup
  | update id' upc =>
    have hsame := lockSection_keyIndex (call.update id') s.runtime upc
    unfold BeliefRuntime.getByKey at h ⊢
    simp only at h
    rw [hsame] at h
    exact Or.inl h
  | _ => exact Or.inl h

/-- the id a request updates it has found in the index, or carries already -/
theorem setSection_update (call : SetCall) (s : Session M G) (pc : SetPc) {id : BeliefId}
    {upc : UpdatePc} (h : (s.setSection call pc).2 = .update id upc) :
    s.runtime.getByKey call.key = some id ∨ ∃ upc', pc = .update id upc' := by
  cases pc with
  | lookup =>
    unfold Session.setSection at h
    simp only at h
    split at h
    · rename_i heq
      rw [heq]
      exact Or.inl (congrArg some (SetPc.update.inj h).1)
    · cases h
  | update id' upc' =>
    have hnext : Session.afterUpdate id' (lockSection (call.update id') s.runtime upc').2 =
        .update id upc := h
    unfold Session.afterUpdate at hnext
    split at hnext
    · cases hnext
    · cases hnext
    · cases hnext
    · rw [(SetPc.update.inj hnext).1]
      exact Or.inr ⟨upc', rfl⟩
  | consume id' signal =>
    unfold Session.setSection at h
    simp only at h
    split at h <;> cases h
  | reflect id' signal =>
    unfold Session.setSection at h
    simp only at h
    split at h
    · split at h <;> cases h
    · cases h
  | _ => cases h

/-- the id a request registers it has just inserted -/
theorem setSection_insertIndex (call : SetCall) (s : Session M G) (pc : SetPc) {id : BeliefId}
    (h : (s.setSection call pc).2 = .insertIndex id) :
    pc = .insertQuad ∧ id = s.runtime.quad.nextId := by
  cases pc with
  | insertQuad => exact ⟨rfl, (SetPc.insertIndex.inj h).symm⟩
  | lookup =>
    unfold Session.setSection at h
    simp only at h
    split at h <;> cases h
  | update id' upc' =>
    have hnext : Session.afterUpdate id' (lockSection (call.update id') s.runtime upc').2 =
        .insertIndex id := h
    unfold Session.afterUpdate at hnext
    split at hnext <;> cases hnext
  | consume id' signal =>
    unfold Session.setSection at h
    simp only at h
    split at h <;> cases h
  | reflect id' signal =>
    unfold Session.setSection at h
    simp only at h
    split at h
    · split at h <;> cases h
    · cases h
  | _ => cases h

theorem registered_step (calls : T → SetCall) {s : Serving T M G} (h : s.Registered calls)
    (t : T) : (step calls s t).Registered calls := by
  have hinserted : s.pc t = .insertQuad → (step calls s t).quad.keyAt s.quad.nextId =
      some (calls t).key := by
    intro hins
    rcases step_keys calls h t with ⟨-, hkeys⟩ | ⟨hno, -⟩
    · rw [hkeys, Function.update_self]
    · exact absurd hins hno
  refine ⟨(setSection_contracts (calls t) s.session (s.pc t)).trans h.contracts, ?_,
    fun key id hk => ?_, fun u id upc hu => ?_, fun u id hu => ?_⟩
  · rcases step_beliefs calls h t with ⟨-, hq⟩ | ⟨-, -, -, -, hn, -, -⟩ | ⟨-, hsame⟩
    · rw [hq]
      exact h.edges.insert (calls t).node
    · exact hn
    · exact hsame.edges h.edges
  · rcases setSection_index (calls t) s.session (s.pc t) hk with hk | ⟨rfl, hins⟩
    · exact keyAt_step calls h t (h.index key id hk)
    · exact keyAt_step calls h t (h.inserts t id hins)
  · rw [pc_step] at hu
    by_cases hut : u = t
    · subst hut
      rw [if_pos rfl] at hu
      rcases setSection_update (calls u) s.session (s.pc u) hu with hk | ⟨upc', hu'⟩
      · exact keyAt_step calls h u (h.index _ id hk)
      · exact keyAt_step calls h u (h.updates u id upc' hu')
    · rw [if_neg hut] at hu
      exact keyAt_step calls h t (h.updates u id upc hu)
  · rw [pc_step] at hu
    by_cases hut : u = t
    · subst hut
      rw [if_pos rfl] at hu
      obtain ⟨hins, hid⟩ := setSection_insertIndex (calls u) s.session (s.pc u) hu
      rw [hid]
      exact hinserted hins
    · rw [if_neg hut] at hu
      exact keyAt_step calls h t (h.inserts u id hu)

/-! ## one belief to a key -/

/-- no two live beliefs have one key -/
def UniqueKeys (s : Serving T M G) : Prop :=
  ∀ i j key, s.quad.keyAt i = some key → s.quad.keyAt j = some key → i = j

/-- what `t` inserts has a key that no belief has -/
def InsertsFresh (calls : T → SetCall) (s : Serving T M G) (t : T) : Prop :=
  s.pc t = .insertQuad → ∀ id, s.quad.keyAt id ≠ some (calls t).key

/-- one section keeps the keys unique exactly if it inserts no key a second time -/
theorem uniqueKeys_step_iff {calls : T → SetCall} {s : Serving T M G} (h : s.Registered calls)
    (hu : s.UniqueKeys) (t : T) :
    (step calls s t).UniqueKeys ↔ InsertsFresh calls s t := by
  have hnext := s.quad.keyAt_nextId
  rcases step_keys calls h t with ⟨hins, hkeys⟩ | ⟨hno, hkeys⟩
  · constructor
    · intro hu' _ id hid
      have hne : id ≠ s.quad.nextId := by
        intro he
        rw [he, hnext] at hid
        cases hid
      refine hne (hu' id s.quad.nextId (calls t).key ?_ ?_)
      · rw [hkeys, Function.update_of_ne hne]
        exact hid
      · rw [hkeys, Function.update_self]
    · intro hfresh i j key hi hj
      rw [hkeys] at hi hj
      by_cases hin : i = s.quad.nextId
      · by_cases hjn : j = s.quad.nextId
        · rw [hin, hjn]
        · rw [hin, Function.update_self] at hi
          rw [Function.update_of_ne hjn, ← hi] at hj
          exact absurd hj (hfresh hins j)
      · rw [Function.update_of_ne hin] at hi
        by_cases hjn : j = s.quad.nextId
        · rw [hjn, Function.update_self] at hj
          rw [← hj] at hi
          exact absurd hi (hfresh hins i)
        · rw [Function.update_of_ne hjn] at hj
          exact hu i j key hi hj
  · refine iff_of_true (fun i j key hi hj => ?_) fun hins => absurd hins hno
    rw [hkeys] at hi hj
    exact hu i j key hi hj

/-! ## what a key reads -/

/-- the value that a request to get `key` is answered -/
def getValue (key : String) (s : Serving T M G) : Option Json :=
  (s.session.handleBeliefGet key).map BeliefGetResponse.value

/-- a key that no belief has is not found -/
theorem getValue_eq_none {s : Serving T M G} {key : String}
    (h : ∀ id, s.quad.keyAt id ≠ some key) : getValue key s = none := by
  have hfind : (SlotMap.iter s.session.runtime.quad.nodes).find?
      (fun e : BeliefId × BeliefNode => e.2.key = key) = none := by
    refine List.find?_eq_none.mpr fun e he hkey => ?_
    refine h e.1 ?_
    have hget : s.quad.get e.1 = some e.2 := (SlotMap.mem_iter _ _ _).mp he
    unfold BeliefQuad.keyAt
    rw [hget]
    exact congrArg some (of_decide_eq_true hkey)
  unfold getValue Session.handleBeliefGet
  rw [hfind]
  rfl

/-- **a key that one belief has reads that belief's value** -/
theorem getValue_eq {s : Serving T M G} (hu : s.UniqueKeys) {key : String} {id : BeliefId}
    (hk : s.quad.keyAt id = some key) :
    getValue key s = (s.quad.valueAt id).map Session.valueJson := by
  obtain ⟨n, hn, hkey⟩ : ∃ n, s.quad.get id = some n ∧ n.key = key := Option.map_eq_some_iff.mp hk
  have hsome : ((SlotMap.iter s.session.runtime.quad.nodes).find?
      fun e : BeliefId × BeliefNode => e.2.key = key).isSome = true := by
    refine List.find?_isSome.mpr ⟨(id, n), (SlotMap.mem_iter _ _ _).mpr hn, ?_⟩
    exact decide_eq_true hkey
  obtain ⟨e, he⟩ := Option.isSome_iff_exists.mp hsome
  have hekey : e.2.key = key := of_decide_eq_true (@List.find?_some _
    (fun e : BeliefId × BeliefNode => decide (e.2.key = key)) e _ he)
  have hget : s.quad.get e.1 = some e.2 :=
    (SlotMap.mem_iter _ _ _).mp (List.mem_of_find?_eq_some he)
  have hid : e.1 = id := by
    refine hu e.1 id key ?_ hk
    unfold BeliefQuad.keyAt
    rw [hget]
    exact congrArg some hekey
  have hval : s.quad.valueAt id = some e.2.value := by
    unfold BeliefQuad.valueAt
    rw [← hid, hget]
    rfl
  unfold getValue Session.handleBeliefGet
  rw [he, hval]
  rfl

/-- a key reads the same when its belief has the value it had -/
theorem getValue_congr {s s' : Serving T M G} (hu : s.UniqueKeys) (hu' : s'.UniqueKeys)
    {key : String} (hkeys : ∀ id, s'.quad.keyAt id = some key ↔ s.quad.keyAt id = some key)
    (hvalues : ∀ id, s.quad.keyAt id = some key → s'.quad.valueAt id = s.quad.valueAt id) :
    getValue key s' = getValue key s := by
  by_cases hex : ∃ id, s.quad.keyAt id = some key
  · obtain ⟨id, hk⟩ := hex
    rw [getValue_eq hu hk, getValue_eq hu' ((hkeys id).mpr hk), hvalues id hk]
  · have hno : ∀ id, s.quad.keyAt id ≠ some key := fun id hk => hex ⟨id, hk⟩
    rw [getValue_eq_none hno, getValue_eq_none fun id hk => hno id ((hkeys id).mp hk)]

/-- `t` is about to write under the key -/
def WritesKey (calls : T → SetCall) (key : String) (s : Serving T M G) (t : T) : Prop :=
  (calls t).key = key ∧ Writes calls s t

/-- **with one belief to a key, a section that writes under it has its text read, and no other
section changes what is read** -/
theorem getValue_step {calls : T → SetCall} {s : Serving T M G} (h : s.Registered calls)
    (hu : s.UniqueKeys) {t : T} (hfresh : InsertsFresh calls s t) (key : String) :
    (WritesKey calls key s t →
      getValue key (step calls s t) = some (.string (calls t).value)) ∧
    (¬ WritesKey calls key s t → getValue key (step calls s t) = getValue key s) := by
  have hu' : (step calls s t).UniqueKeys := (uniqueKeys_step_iff h hu t).mpr hfresh
  have hnext := s.quad.keyAt_nextId
  rcases step_beliefs calls h t with ⟨hins, hq⟩ | ⟨hno, hw, id, hk, -, hkeys, hvalues⟩ | ⟨hw, hs⟩
  · have hkeys := BeliefQuad.keyAt_insert s.quad (calls t).node
    have hvalues := BeliefQuad.valueAt_insert s.quad (calls t).node
    rw [← hq] at hkeys hvalues
    constructor
    · intro hwk
      have hnew : (step calls s t).quad.keyAt s.quad.nextId = some key := by
        rw [hkeys, Function.update_self, ← hwk.1]
        rfl
      rw [getValue_eq hu' hnew, hvalues, Function.update_self]
      rfl
    · intro hwk
      have hne : (calls t).key ≠ key := fun he => hwk ⟨he, Or.inl hins⟩
      refine getValue_congr hu hu' (fun j => ?_) fun j hj => ?_
      · by_cases hjn : j = s.quad.nextId
        · rw [hkeys, hjn, Function.update_self, hnext]
          exact iff_of_false (fun he => hne (Option.some.inj he)) (fun he => nomatch he)
        · rw [hkeys, Function.update_of_ne hjn]
      · rw [hvalues, Function.update_of_ne]
        intro hjn
        rw [hjn, hnext] at hj
        cases hj
  · constructor
    · intro hwk
      have hnew : (step calls s t).quad.keyAt id = some key := by
        rw [hkeys, hk, hwk.1]
      rw [getValue_eq hu' hnew, hvalues, Function.update_self]
      rfl
    · intro hwk
      have hne : (calls t).key ≠ key := fun he => hwk ⟨he, hw⟩
      refine getValue_congr hu hu' (fun j => by rw [hkeys]) fun j hj => ?_
      rw [hvalues, Function.update_of_ne]
      intro hjid
      rw [hjid, hk] at hj
      exact hne (Option.some.inj hj)
  · refine ⟨fun hwk => absurd hwk.2 hw, fun _ => ?_⟩
    exact getValue_congr hu hu' (fun j => by rw [hs.keys]) fun j _ => by rw [hs.values]

/-! ## sets and gets -/

/-- the request has run its first section -/
def started : SetPc → Bool
  | .lookup => false
  | _ => true

/-- the response has been sent, and reports success -/
def succeeded : SetPc → Bool
  | .lookup => false
  | .update _ _ => false
  | .insertQuad => false
  | .insertIndex _ => false
  | .consume _ _ => false
  | .done (.error _) => false
  | _ => true

/-- the response has been sent -/
def responded : SetPc → Bool
  | .done _ => true
  | pc => succeeded pc

/-- the step of `t` from `s₀` completes its request with success; from then to `s₂` no other set of
its key starts, and none is pending in `s₂` -/
structure Settled (calls : T → SetCall) (s₀ s₂ : Serving T M G) (t : T) : Prop where
  pending : responded (s₀.pc t) = false
  completed : succeeded ((step calls s₀ t).pc t) = true
  noStart : ∀ u, (calls u).key = (calls t).key → started ((step calls s₀ t).pc u) = false →
    started (s₂.pc u) = false
  nonePending : ∀ u, (calls u).key = (calls t).key → started (s₂.pc u) = true →
    responded (s₂.pc u) = true

section
variable (calls : T → SetCall) (reliabilityBaseline : ℚ)
  (sovereignty : Option (MnemonicSovereignty M G)) (llmClient : Bool) (tau : ℚ) (capacity : Nat)

/-- a session on an empty quad, without contracts -/
def empty : Serving T M G :=
  start (.new (.build .new reliabilityBaseline [] sovereignty llmClient tau) capacity)

variable {reliabilityBaseline sovereignty llmClient tau capacity}

theorem keyAt_empty (id : BeliefId) : (empty reliabilityBaseline sovereignty llmClient tau
    capacity : Serving T M G).quad.keyAt id = none := by
  have hdead := BeliefQuad.not_live_iff.mp (BeliefQuad.not_live_new (M := M) (G := G) id)
  show ((BeliefQuad.new : BeliefQuad M G).get id).map BeliefNode.key = none
  rw [hdead]
  rfl

theorem registered_empty : (empty reliabilityBaseline sovereignty llmClient tau capacity :
    Serving T M G).Registered calls where
  contracts := rfl
  edges := BeliefQuad.noCause_new
  index key id h := by
    have hiter : SlotMap.iter (BeliefQuad.new : BeliefQuad M G).nodes = [] := by
      refine List.eq_nil_iff_forall_not_mem.mpr fun e he => ?_
      have hget : (BeliefQuad.new : BeliefQuad M G).get e.1 = some e.2 :=
        (SlotMap.mem_iter _ _ _).mp he
      rw [BeliefQuad.not_live_iff.mp (BeliefQuad.not_live_new e.1)] at hget
      cases hget
    have hindex : ((SlotMap.iter (BeliefQuad.new : BeliefQuad M G).nodes).foldl
        (fun index e => index.insert e.2.key e.1) (∅ : Finmap fun _ : String => BeliefId)).lookup
          key = some id := h
    rw [hiter] at hindex
    cases hindex
  updates t id pc h := nomatch h
  inserts t id h := nomatch h

end

/-- what every run from a registered session keeps -/
theorem registered_run {calls : T → SetCall} {s₀ s : Serving T M G} (h : s₀.Registered calls)
    {sched : List T} (hs : StateOf (step calls) s₀ sched s) : s.Registered calls :=
  @stateOf_invariant _ _ (step calls) (fun s => s.Registered calls)
    (fun _ t hr => registered_step calls hr t) s₀ h sched s hs

/-- no two live beliefs ever have one key, and a key that a set has settled reads its text -/
structure Faithful (calls : T → SetCall) (s₀ : Serving T M G) (sched : List T) : Prop where
  unique : ∀ s, StateOf (step calls) s₀ sched s → s.UniqueKeys
  reads : ∀ pre t mid post, sched = pre ++ t :: mid ++ post →
    Settled calls (run (step calls) s₀ pre) (run (step calls) s₀ (pre ++ t :: mid)) t →
    getValue (calls t).key (run (step calls) s₀ (pre ++ t :: mid)) =
      some (.string (calls t).value)

/-- no set inserts a key that some belief has, and under the key of a set that has settled the last
to write has the same text -/
structure Ordered (calls : T → SetCall) (s₀ : Serving T M G) (sched : List T) : Prop where
  fresh : ∀ s t, StepOf (step calls) s₀ sched s t → InsertsFresh calls s t
  last : ∀ pre t mid post, sched = pre ++ t :: mid ++ post →
    Settled calls (run (step calls) s₀ pre) (run (step calls) s₀ (pre ++ t :: mid)) t →
    ∃ s u, LastStepOf (step calls) (WritesKey calls (calls t).key) s₀ (pre ++ t :: mid) s u ∧
      (calls u).value = (calls t).value

section
variable {calls : T → SetCall} {s₀ : Serving T M G} {sched : List T}
  (hreg : s₀.Registered calls) (hempty : ∀ id, s₀.quad.keyAt id = none)
include hreg hempty

theorem unique_iff : (∀ s, StateOf (step calls) s₀ sched s → s.UniqueKeys) ↔
    ∀ s t, StepOf (step calls) s₀ sched s t → InsertsFresh calls s t :=
  @forall_state_iff _ _ (step calls) (fun s : Serving T M G => s.Registered calls) UniqueKeys
    (fun _ _ => True) (InsertsFresh calls) (fun _ t h => registered_step calls h t)
    (fun _ t h hu _ => uniqueKeys_step_iff h hu t) s₀ hreg
    (fun i j key hi _ => by
      rw [hempty] at hi
      cases hi) sched (fun _ _ _ => trivial)

/-- **while keys stay unique, a key reads what the last to write under it has written** -/
theorem getValue_run (hfresh : ∀ s t, StepOf (step calls) s₀ sched s t → InsertsFresh calls s t)
    (key : String) (v : Json) :
    getValue key (run (step calls) s₀ sched) = some v ↔
      ∃ s u, LastStepOf (step calls) (WritesKey calls key) s₀ sched s u ∧
        Json.string (calls u).value = v := by
  have hunique := (unique_iff hreg hempty).mpr hfresh
  refine @register_iff _ _ (step calls) _ (WritesKey calls key) (getValue key)
    (fun u => Json.string (calls u).value) s₀ sched ?_ (fun s t hst => ?_) (fun s t hst => ?_) v
  · refine getValue_eq_none fun id hk => ?_
    rw [hempty] at hk
    cases hk
  · exact (getValue_step (registered_run hreg hst.state) (hunique s hst.state)
      (hfresh s t hst) key).1
  · exact (getValue_step (registered_run hreg hst.state) (hunique s hst.state)
      (hfresh s t hst) key).2

theorem faithful_iff : Faithful calls s₀ sched ↔ Ordered calls s₀ sched := by
  have hread : (∀ s t, StepOf (step calls) s₀ sched s t → InsertsFresh calls s t) →
      ∀ pre post, sched = pre ++ post → ∀ key v,
        getValue key (run (step calls) s₀ pre) = some v ↔
          ∃ s u, LastStepOf (step calls) (WritesKey calls key) s₀ pre s u ∧
            Json.string (calls u).value = v := by
    intro hfresh pre post hsched key v
    refine getValue_run hreg hempty (fun s t hst => hfresh s t ?_) key v
    rw [hsched]
    exact hst.append post
  constructor
  · intro h
    have hfresh := (unique_iff hreg hempty).mp h.unique
    refine ⟨hfresh, fun pre t mid post hsched ht => ?_⟩
    obtain ⟨s, u, hlast, hv⟩ := (hread hfresh _ post hsched (calls t).key _).mp
      (h.reads pre t mid post hsched ht)
    exact ⟨s, u, hlast, Json.string.inj hv⟩
  · intro h
    refine ⟨(unique_iff hreg hempty).mpr h.fresh, fun pre t mid post hsched ht => ?_⟩
    obtain ⟨s, u, hlast, hv⟩ := h.last pre t mid post hsched ht
    exact (hread h.fresh _ post hsched (calls t).key _).mpr ⟨s, u, hlast, congrArg _ hv⟩

end

/-- **from an empty session, keys stay unique and what has been set is read exactly when no set
inserts a key that some belief has, and the last to write under a settled key has the text that is
settled** -/
theorem set_get_iff (calls : T → SetCall) (reliabilityBaseline : ℚ)
    (sovereignty : Option (MnemonicSovereignty M G)) (llmClient : Bool) (tau : ℚ) (capacity : Nat)
    (sched : List T) :
    Faithful calls (empty reliabilityBaseline sovereignty llmClient tau capacity) sched ↔
      Ordered calls (empty reliabilityBaseline sovereignty llmClient tau capacity) sched :=
  faithful_iff (registered_empty calls) keyAt_empty

end

section
attribute [local instance] Platform.ascii

/-- three clients of one key -/
def goalText : Fin 3 → SetCall
  | 0 => .at 11 "goal" "ship" (1 / 2) none
  | 1 => .at 21 "goal" "wait" (1 / 2) none
  | 2 => .at 31 "goal" "stop" (1 / 2) none

def emptySession : Serving (Fin 3) SlotVec EdgeList := empty (1 / 2) none false (15 / 100) 10

/-- the first two overlap, the third sets when they are done -/
def firstSets : List (Fin 3) := [0, 1, 0, 1, 0, 1] ++ List.replicate 12 2

/-- two beliefs have the key, and what the third has set, alone, is not what is read -/
theorem set_not_read :
    (run (step goalText) emptySession firstSets).quad.keyAt ⟨1, 1⟩ = some "goal" ∧
    (run (step goalText) emptySession firstSets).quad.keyAt ⟨2, 1⟩ = some "goal" ∧
    succeeded ((run (step goalText) emptySession firstSets).pc 2) = true ∧
    getValue "goal" (run (step goalText) emptySession firstSets) = some (.string "ship") ∧
    ¬ Faithful goalText emptySession firstSets := by
  have hone : (run (step goalText) emptySession firstSets).quad.keyAt ⟨1, 1⟩ = some "goal" := by
    decide +kernel
  have htwo : (run (step goalText) emptySession firstSets).quad.keyAt ⟨2, 1⟩ = some "goal" := by
    decide +kernel
  refine ⟨hone, htwo, by decide +kernel, by decide +kernel, fun h => ?_⟩
  have hid := h.unique _ (stateOf_last emptySession firstSets) ⟨1, 1⟩ ⟨2, 1⟩ "goal" hone htwo
  exact absurd hid (by decide)

end
end Serving
end Epica
