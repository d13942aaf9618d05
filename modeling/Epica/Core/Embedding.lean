import Epica.Core.Belief

/-!
# Embeddings: a provider, cosine similarity, and the verdict on two texts

`embedCached` is what the provider has cached at the time of the call.
-/

set_option linter.unusedSectionVars false

namespace Epica

structure EmbeddingProvider where
  embedCached : String → Option (List ℚ)

structure SemanticEquivalence where
  equivalence : ℚ
  contradiction : ℚ

def SemanticEquivalence.default : SemanticEquivalence := ⟨92 / 100, -30 / 100⟩

/-- the outcome of a comparison, with the cosine behind it -/
inductive EquivalenceVerdict where
  | equivalent (score : ℚ)
  | contradicts (score : ℚ)
  | undecided (score : ℚ)

section
variable [Platform]

def cosineSimilarity (a b : List ℚ) : ℚ :=
  if a.length ≠ b.length ∨ a = [] then 0
  else
    let dot := (a.zip b).foldl (fun s p => s + p.1 * p.2) 0
    let na := a.foldl (fun s x => s + x * x) 0
    let nb := b.foldl (fun s x => s + x * x) 0
    let denom := Platform.sqrt na * Platform.sqrt nb
    if denom = 0 then 0 else dot / denom

def SemanticEquivalence.classify (eq : SemanticEquivalence) (a b : List ℚ) : EquivalenceVerdict :=
  let s := cosineSimilarity a b
  if eq.equivalence ≤ s then .equivalent s
  else if s ≤ eq.contradiction then .contradicts s
  else .undecided s

end
end Epica
