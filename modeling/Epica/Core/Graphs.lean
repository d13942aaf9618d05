import Epica.Core.Embedding
import Epica.Core.Projection

/-!
# The four graphs

* semantic   `Contradicts` and `Synonymous` edges are added in both directions; the value-level
             check for a contradiction lives here;
* temporal   with the exponential decay of a belief;
* causal     `inferredFromPremises`, `descendantsOf`;
* entity     who produced and consumed a belief.
-/

set_option linter.unusedSectionVars false

namespace Epica
open Lib Lib.StableDiGraph

/-! ## semantic -/

inductive SemanticEdge where
  | subsumes
  | contradicts
  | synonymous
deriving DecidableEq

def SemanticEdge.symmetric : SemanticEdge → Bool
  | .subsumes => false
  | .contradicts => true
  | .synonymous => true

abbrev SemanticGraph (G : Type → Type → Type) := Projection G SemanticEdge

/-- which path a comparison of two values took -/
inductive VerdictTrace where
  | literalAgree
  | semanticEquivalent (score : ℚ)
  | semanticContradicts (score : ℚ)
  | literalDisagreeUndecided (score : ℚ)
  | literalDisagreeNoCache

/-- the characters `str::trim` strips (Unicode `White_Space`) -/
def isWhitespace (c : Char) : Bool :=
  let n := c.toNat
  (9 ≤ n && n ≤ 13) || n = 0x20 || n = 0x85 || n = 0xA0 || n = 0x1680 ||
    (0x2000 ≤ n && n ≤ 0x200A) || n = 0x2028 || n = 0x2029 || n = 0x202F || n = 0x205F ||
    n = 0x3000

def trim (s : String) : String :=
  .ofList ((s.toList.dropWhile isWhitespace).reverse.dropWhile isWhitespace).reverse

namespace SemanticGraph

section
variable {G : Type → Type → Type} [StableDiGraph G]

def addEdge (p : SemanticGraph G) (src dst : BeliefId) (edge : SemanticEdge) : SemanticGraph G :=
  match p.indices.lookup src, p.indices.lookup dst with
  | some fi, some ti =>
    let graph := StableDiGraph.addEdge p.graph fi ti edge
    if edge.symmetric then { p with graph := StableDiGraph.addEdge graph ti fi edge }
    else { p with graph := graph }
  | _, _ => p

/-- `id` has an outgoing `Contradicts` edge -/
def hasContradictionEdges (p : SemanticGraph G) (id : BeliefId) : Bool :=
  match p.indices.lookup id with
  | none => false
  | some idx => (edgesDirected p.graph idx .outgoing).any fun e => e.weight = .contradicts

/-- the semantic `addEdge` is the plain one, once or twice -/
theorem addEdge_eq (p : SemanticGraph G) (src dst : BeliefId) (edge : SemanticEdge) :
    addEdge p src dst edge =
      if edge.symmetric then (Projection.addEdge p src dst edge).addEdge dst src edge
      else Projection.addEdge p src dst edge := by
  unfold addEdge Projection.addEdge
  cases hs : p.indices.lookup src <;> cases ht : p.indices.lookup dst <;>
    simp only [hs, ht, ite_self]

theorem hasContradictionEdges_iff {p : SemanticGraph G} {live : BeliefId → Prop}
    (h : Projection.Synced p live) (id : BeliefId) :
    hasContradictionEdges p id = true ↔ ∃ b, (id, b, SemanticEdge.contradicts) ∈ p.allEdges := by
  unfold hasContradictionEdges
  cases hl : p.indices.lookup id with
  | none =>
    refine iff_of_false (fun hf => nomatch hf) fun hb => ?_
    obtain ⟨b, hb⟩ := hb
    have hlive := (h.live_of_mem hb).1
    rw [← h.keys, hl] at hlive
    cases hlive
  | some idx =>
    simp only [List.any_eq_true, mem_edgesDirected, EdgeRef.endpoint, decide_eq_true_eq,
      Projection.mem_allEdges]
    constructor
    · intro he
      obtain ⟨e, ⟨he, hs⟩, hw⟩ := he
      obtain ⟨a, b, -, hb, -⟩ := h.joins e he
      exact ⟨b, e, he, hs ▸ h.weight id idx hl, hb, hw⟩
    · intro hb
      obtain ⟨b, e, he, ha, -, hw⟩ := hb
      have hi := h.noOther _ _ ha
      rw [hl] at hi
      exact ⟨e, ⟨he, (Option.some.inj hi).symm⟩, hw⟩

end

section
variable [Platform]

def valueContradicts (current new : BeliefValue) : Bool :=
  match current, new with
  | .deterministic a, .deterministic b => a ≠ b
  | .inferred a, .inferred b => a ≠ b
  | .asserted a, .asserted b => Platform.toLowercase (trim a) ≠ Platform.toLowercase (trim b)
  | .reference a, .reference b => a ≠ b
  | _, _ => true

/-- two texts that differ literally, both of them cached -/
def semanticVerdict (equivalence : SemanticEquivalence) (va vb : List ℚ) : Bool × VerdictTrace :=
  match equivalence.classify va vb with
  | .equivalent s => (false, .semanticEquivalent s)
  | .contradicts s => (true, .semanticContradicts s)
  | .undecided s => (true, .literalDisagreeUndecided s)

def valueContradictsSemantic (provider : Option EmbeddingProvider)
    (equivalence : SemanticEquivalence) (current new : BeliefValue) : Bool × VerdictTrace :=
  if valueContradicts current new then
    match current, new, provider with
    | .asserted a, .asserted b, some p =>
      match p.embedCached a, p.embedCached b with
      | some va, some vb => semanticVerdict equivalence va vb
      | _, _ => (true, .literalDisagreeNoCache)
    | _, _, _ => (true, .literalDisagreeNoCache)
  else (false, .literalAgree)

end
end SemanticGraph

/-! ## temporal -/

inductive TemporalEdge where
  | precedes (gapMs : Nat)
  | coOccurs
  | supersedes
deriving DecidableEq

abbrev TemporalGraph (G : Type → Type → Type) := Projection G TemporalEdge

/-- `exp(-elapsed / ttl)`; a belief without a ttl does not decay -/
def TemporalGraph.computeDecay [Platform] (createdAtMs : Nat) (ttlMs : Option Nat)
    (currentMs : Nat) : ℚ :=
  match ttlMs with
  | none => 1
  | some 0 => 0
  | some ttl =>
    let elapsed : ℚ := (currentMs - createdAtMs : Nat)
    let lambda : ℚ := 1 / ttl
    clamp (Platform.exp (-lambda * elapsed)) 0 1

/-! ## causal -/

inductive CausalEdge where
  | causes (effectSize confidence : ℚ)
  | inferredFrom (premises : List BeliefId)
  | counterfactual (antecedent : BeliefId)
deriving DecidableEq

abbrev CausalGraph (G : Type → Type → Type) := Projection G CausalEdge

def CausalEdge.premises? : CausalEdge → Option (List BeliefId)
  | .inferredFrom premises => some premises
  | _ => none

namespace CausalGraph
variable {G : Type → Type → Type} [StableDiGraph G]

/-- the beliefs downstream of `id`; the list stands for the hash set -/
def descendantsOf (p : CausalGraph G) (id : BeliefId) : List BeliefId := p.reachableFrom id

/-- the premise lists of the `InferredFrom` edges into `id` -/
def inferredFromPremises (p : CausalGraph G) (id : BeliefId) : List (List BeliefId) :=
  match p.indices.lookup id with
  | none => []
  | some idx => (edgesDirected p.graph idx .incoming).filterMap fun e => e.weight.premises?

/-- `Supports p ps d`: an `InferredFrom` edge into `d` lists the premises `ps` -/
def Supports (p : CausalGraph G) (ps : List BeliefId) (d : BeliefId) : Prop :=
  ∃ a, (a, d, CausalEdge.inferredFrom ps) ∈ p.allEdges

theorem premises?_eq_some {w : CausalEdge} {ps : List BeliefId} :
    w.premises? = some ps ↔ w = .inferredFrom ps := by
  cases w <;> simp [CausalEdge.premises?]

theorem mem_inferredFromPremises {p : CausalGraph G} {live : BeliefId → Prop}
    (h : p.Synced live) (id : BeliefId) (ps : List BeliefId) :
    ps ∈ inferredFromPremises p id ↔ Supports p ps id := by
  unfold inferredFromPremises Supports
  cases hl : p.indices.lookup id with
  | none =>
    simp only [List.not_mem_nil, false_iff]
    intro hp
    obtain ⟨a, ha⟩ := hp
    have hlive := (h.live_of_mem ha).2
    rw [← h.keys, hl] at hlive
    cases hlive
  | some idx =>
    simp only [List.mem_filterMap, mem_edgesDirected, EdgeRef.endpoint, premises?_eq_some,
      Projection.mem_allEdges]
    constructor
    · intro hp
      obtain ⟨e, ⟨he, ht⟩, hw⟩ := hp
      obtain ⟨a, b, ha, -⟩ := h.joins e he
      exact ⟨a, e, he, ha, ht ▸ h.weight id idx hl, hw⟩
    · intro hp
      obtain ⟨a, e, he, ha, ht, hw⟩ := hp
      have hi := h.noOther _ _ ht
      rw [hl] at hi
      exact ⟨e, ⟨he, (Option.some.inj hi).symm⟩, hw⟩

end CausalGraph

/-! ## entity -/

inductive EntityEdge where
  | producedBy (agentId : String)
  | consumed (byAgent : String) (atTurn : Nat)
  | sharedWith (agents : List String)
deriving DecidableEq

abbrev EntityGraph (G : Type → Type → Type) := Projection G EntityEdge

end Epica
