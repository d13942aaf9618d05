import Epica.Core.Runs

/-!
# A cold cache behaves as no provider

A revision consults the embedding provider twice: for the verdict on the two values, and in the
audit of K*6, which looks for paraphrases of the new value.  Both begin with the embedding of the
new text, so a provider that does not have it cached (`Cold`) is as good as none.

* `checkContradictionTraced_withoutProvider`, `auditOf_withoutProvider`   the two consultations;
* `revise_cold`   a revision returns the same and leaves the same quad as without the provider.
-/

set_option linter.unusedSectionVars false

namespace Epica
open Lib

/-- the provider, if there is one, has not cached the text of `newValue`, if it is an assertion -/
def Cold (provider : Option EmbeddingProvider) (newValue : BeliefValue) : Prop :=
  ∀ p ∈ provider, ∀ newText, newValue = .asserted newText → p.embedCached newText = none

theorem SemanticGraph.valueContradictsSemantic_cold [Platform]
    {provider : Option EmbeddingProvider} {newValue : BeliefValue} (h : Cold provider newValue)
    (equivalence : SemanticEquivalence) (current : BeliefValue) :
    valueContradictsSemantic provider equivalence current newValue =
      valueContradictsSemantic none equivalence current newValue := by
  unfold valueContradictsSemantic
  split
  · cases provider with
    | none => rfl
    | some p =>
      cases current with
      | asserted a =>
        cases newValue with
        | asserted b =>
          have hmiss : p.embedCached b = none := h p rfl b rfl
          cases ha : p.embedCached a with
          | none => simp only [ha]
          | some va => simp only [ha, hmiss]
        | deterministic _ => rfl
        | inferred _ => rfl
        | reference _ => rfl
      | deterministic _ => rfl
      | inferred _ => rfl
      | reference _ => rfl
  · rfl

namespace BeliefQuad

section
variable {M : Type → Type} {G : Type → Type → Type} [SlotMap M] [StableDiGraph G] [Platform]

def withoutProvider (q : BeliefQuad M G) : BeliefQuad M G := { q with embeddingProvider := none }

/-! ## what does not consult the provider -/

theorem remove_withoutProvider (q : BeliefQuad M G) (id : BeliefId) :
    (q.withoutProvider.remove id).2 = (q.remove id).2.withoutProvider := by
  by_cases h : q.Live id
  · obtain ⟨node, hn⟩ := live_iff.mp h
    have hn' : q.withoutProvider.get id = some node := hn
    rw [remove_of_live hn, remove_of_live hn']
    rfl
  · have h' : ¬ q.withoutProvider.Live id := h
    rw [remove_of_dead h, remove_of_dead h']

theorem removeAll_withoutProvider (q : BeliefQuad M G) (ids : List BeliefId) :
    q.withoutProvider.removeAll ids = (q.removeAll ids).withoutProvider := by
  induction ids generalizing q with
  | nil => rfl
  | cons id ids ih => rw [removeAll_cons, removeAll_cons, remove_withoutProvider, ih]

variable (q : BeliefQuad M G) (stamp : Stamp) (order : HashOrder BeliefId)
  (id : BeliefId) (newValue : BeliefValue) (newProvenance : Provenance) (newConfidence : ℚ)

theorem contracted_withoutProvider :
    q.withoutProvider.contracted order id = (q.contracted order id).withoutProvider :=
  removeAll_withoutProvider q (order.shuffle (q.minimalContractionSet id))

theorem expandOnly_withoutProvider (audit : PostulateAudit) :
    let result := q.expandOnly stamp id newValue newProvenance newConfidence audit
    q.withoutProvider.expandOnly stamp id newValue newProvenance newConfidence audit =
      (result.1, result.2.withoutProvider) := by
  have hget : q.withoutProvider.get id = q.get id := rfl
  unfold expandOnly
  rw [hget]
  cases q.get id with
  | none => rfl
  | some node => rfl

theorem expandContracted_withoutProvider (set : List BeliefId) (audit : PostulateAudit) :
    let result := q.expandContracted stamp id newValue newProvenance newConfidence set audit
    q.withoutProvider.expandContracted stamp id newValue newProvenance newConfidence set audit =
      (result.1, result.2.withoutProvider) := by
  have hget : q.withoutProvider.get id = q.get id := rfl
  unfold expandContracted
  rw [hget]
  cases q.get id with
  | none => rfl
  | some node => rfl

/-! ## what does -/

section
variable {q newValue} (h : Cold q.embeddingProvider newValue)
include h

theorem checkContradictionTraced_withoutProvider :
    q.withoutProvider.checkContradictionTraced id newValue =
      q.checkContradictionTraced id newValue := by
  have hget : q.withoutProvider.get id = q.get id := rfl
  unfold checkContradictionTraced
  rw [hget]
  cases q.get id with
  | none => rfl
  | some node =>
    have hverdict := SemanticGraph.valueContradictsSemantic_cold h q.equivalence node.value
    simp only [hverdict]
    rfl

/-- a scan for paraphrases of a text without an embedding finds none -/
theorem checkExtensionality_cold (expectedContradicts : Bool) :
    checkExtensionality q id newValue expectedContradicts = (true, none) := by
  unfold checkExtensionality
  cases hp : q.embeddingProvider with
  | none => rfl
  | some p =>
    cases newValue with
    | asserted newText =>
      have hmiss : p.embedCached newText = none := h p hp newText rfl
      simp only [hmiss]
    | deterministic _ => rfl
    | inferred _ => rfl
    | reference _ => rfl

theorem auditOf_withoutProvider :
    q.withoutProvider.auditOf id newValue = q.auditOf id newValue := by
  have hbare : Cold q.withoutProvider.embeddingProvider newValue := fun p hp => nomatch hp
  unfold auditOf PostulateAudit.verify
  rw [checkContradictionTraced_withoutProvider id h, checkExtensionality_cold id h,
    checkExtensionality_cold id hbare]
  rfl

end

/-- **a cold cache behaves as no provider**: a revision returns the same, the record with all its
fields, and leaves the same quad but for the provider, which no revision replaces -/
theorem revise_cold (h : Cold q.embeddingProvider newValue) :
    let result := q.revise stamp order id newValue newProvenance newConfidence
    q.withoutProvider.revise stamp order id newValue newProvenance newConfidence =
      (result.1, result.2.withoutProvider) := by
  intro result
  have haudit := auditOf_withoutProvider id h
  have hverdict : q.withoutProvider.checkContradiction id newValue =
      q.checkContradiction id newValue :=
    congrArg Prod.fst (checkContradictionTraced_withoutProvider id h)
  by_cases hlive : q.Live id
  · have hlive' : q.withoutProvider.Live id := hlive
    cases ha : (q.auditOf id newValue).allCriticalPass with
    | false =>
      have ha' : (q.withoutProvider.auditOf id newValue).allCriticalPass = false := by
        rw [haudit, ha]
      have hres : result = _ := revise_of_rejected q stamp order id newValue newProvenance
        newConfidence hlive ha
      rw [hres, revise_of_rejected _ _ _ _ _ _ _ hlive' ha', haudit]
    | true =>
      have ha' : (q.withoutProvider.auditOf id newValue).allCriticalPass = true := by
        rw [haudit, ha]
      cases hc : q.checkContradiction id newValue with
      | false =>
        have hres : result = _ := revise_of_consistent q stamp order id newValue newProvenance
          newConfidence hlive ha hc
        rw [hres, revise_of_consistent _ _ _ _ _ _ _ hlive' ha' (by rw [hverdict, hc]), haudit]
        exact expandOnly_withoutProvider q stamp id newValue newProvenance newConfidence _
      | true =>
        have hres : result = _ := revise_of_contradicting q stamp order id newValue newProvenance
          newConfidence hlive ha hc
        rw [hres, revise_of_contradicting _ _ _ _ _ _ _ hlive' ha' (by rw [hverdict, hc]),
          haudit, contracted_withoutProvider]
        exact expandContracted_withoutProvider (q.contracted order id) stamp id newValue
          newProvenance newConfidence (q.minimalContractionSet id) _
  · have hlive' : ¬ q.withoutProvider.Live id := hlive
    have hres : result = _ := revise_of_dead q stamp order id newValue newProvenance
      newConfidence hlive
    rw [hres, revise_of_dead _ _ _ _ _ _ _ hlive']

end

section
attribute [local instance] Platform.ascii

/-- two assertions and a provider that has cached both texts -/
def warmFor : BeliefQuad SlotVec EdgeList :=
  run step new
    [.insert (.new 0 "a" (.asserted "open") (.userStatement 0) (4 / 5)),
     .insert (.new 0 "b" (.asserted "ajar") (.userStatement 0) (7 / 10)),
     .addCausalEdge ⟨2, 1⟩ ⟨1, 1⟩ (.inferredFrom [⟨2, 1⟩]),
     .setEmbeddingProvider
       (some ⟨fun s => if s = "open" ∨ s = "ajar" then some [1] else none⟩)]

/-- a third text, which it has not, is compared literally -/
theorem revise_cold_shut :
    warmFor.withoutProvider.revise ⟨0, 0⟩ .id ⟨1, 1⟩ (.asserted "shut") (.userStatement 0) 1 =
      ((warmFor.revise ⟨0, 0⟩ .id ⟨1, 1⟩ (.asserted "shut") (.userStatement 0) 1).1,
       (warmFor.revise ⟨0, 0⟩ .id ⟨1, 1⟩ (.asserted "shut") (.userStatement 0)
        1).2.withoutProvider) := by
  refine revise_cold warmFor ⟨0, 0⟩ .id ⟨1, 1⟩ (.asserted "shut") (.userStatement 0) 1 ?_
  intro p hp newText htext
  obtain rfl := BeliefValue.asserted.inj htext
  obtain rfl : _ = p := Option.some.inj hp
  rfl

end
end BeliefQuad
end Epica
