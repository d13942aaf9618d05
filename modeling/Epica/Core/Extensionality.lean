import Epica.Core.RevisionLaws

/-!
# Extensionality

K*6 asks that two texts the provider takes for equivalent revise a belief alike.  The audit of a
revision only compares the new text with the paraphrases held at other beliefs.

* `checkContradiction_asserted`   the verdict on a text, by what the belief holds;
* `stored_paraphrase_agrees`      a paraphrase that another belief holds has the same verdict;
* `extensionality_iff`            two equivalent texts have one verdict and contract the same
                                  beliefs, unless a third text is a paraphrase of just one of them.
-/

set_option linter.unusedSectionVars false

namespace Epica
open Lib

/-! ## cosine similarity -/

section
variable [Platform]

theorem foldl_zip_comm (a b : List ℚ) (s : ℚ) :
    (a.zip b).foldl (fun s p => s + p.1 * p.2) s =
      (b.zip a).foldl (fun s p => s + p.1 * p.2) s := by
  induction a generalizing b s with
  | nil =>
    cases b with
    | nil => rfl
    | cons y b => rfl
  | cons x a ih =>
    cases b with
    | nil => rfl
    | cons y b =>
      rw [List.zip_cons_cons, List.zip_cons_cons, List.foldl_cons, List.foldl_cons, mul_comm]
      exact ih b _

theorem cosineSimilarity_comm (a b : List ℚ) : cosineSimilarity a b = cosineSimilarity b a := by
  have hguard : (a.length ≠ b.length ∨ a = []) ↔ (b.length ≠ a.length ∨ b = []) := by
    by_cases hlen : a.length = b.length
    · have hnil : a = [] ↔ b = [] := by
        rw [← List.length_eq_zero_iff, ← List.length_eq_zero_iff, hlen]
      rw [hnil, hlen]
    · exact iff_of_true (Or.inl hlen) (Or.inl fun h => hlen h.symm)
  unfold cosineSimilarity
  refine if_congr hguard rfl ?_
  simp only [foldl_zip_comm a b, mul_comm (Platform.sqrt (a.foldl _ 0))]

/-- the cosine reaches the threshold -/
def SemanticEquivalence.Equivalent (eq : SemanticEquivalence) (a b : List ℚ) : Prop :=
  eq.equivalence ≤ cosineSimilarity a b

theorem SemanticEquivalence.classify_equivalent_iff (eq : SemanticEquivalence) (a b : List ℚ) :
    (∃ s, eq.classify a b = .equivalent s) ↔ eq.Equivalent a b := by
  unfold SemanticEquivalence.classify SemanticEquivalence.Equivalent
  constructor
  · intro h
    obtain ⟨s, h⟩ := h
    simp only at h
    split at h
    · assumption
    · split at h <;> cases h
  · intro h
    rw [if_pos h]
    exact ⟨_, rfl⟩

theorem SemanticEquivalence.Equivalent.symm {eq : SemanticEquivalence} {a b : List ℚ}
    (h : eq.Equivalent a b) : eq.Equivalent b a := by
  unfold SemanticEquivalence.Equivalent
  rw [cosineSimilarity_comm]
  exact h

end

/-! ## the verdict on a text -/

namespace BeliefQuad
section
variable {M : Type → Type} {G : Type → Type → Type} [SlotMap M] [StableDiGraph G] [Platform]

/-- `t` says what `c` says, literally or, if the provider has cached both, by its embedding -/
def Paraphrases (q : BeliefQuad M G) (c t : String) : Prop :=
  Platform.toLowercase (trim c) = Platform.toLowercase (trim t) ∨
  ∃ provider vc vt, q.embeddingProvider = some provider ∧ provider.embedCached c = some vc ∧
    provider.embedCached t = some vt ∧ q.equivalence.Equivalent vc vt

theorem Paraphrases.refl (q : BeliefQuad M G) (t : String) : q.Paraphrases t t := Or.inl rfl

/-- `id` has a `Contradicts` edge -/
def Contested (q : BeliefQuad M G) (id : BeliefId) : Prop :=
  SemanticGraph.hasContradictionEdges q.semantic id = true

theorem semanticVerdict_eq_false_iff (equivalence : SemanticEquivalence) (va vb : List ℚ) :
    (SemanticGraph.semanticVerdict equivalence va vb).1 = false ↔ equivalence.Equivalent va vb := by
  rw [← equivalence.classify_equivalent_iff]
  unfold SemanticGraph.semanticVerdict
  cases equivalence.classify va vb with
  | equivalent s => exact iff_of_true rfl ⟨s, rfl⟩
  | contradicts s => exact iff_of_false (fun h => nomatch h) fun h => nomatch h.choose_spec
  | undecided s => exact iff_of_false (fun h => nomatch h) fun h => nomatch h.choose_spec

/-- two texts contradict each other unless one paraphrases the other -/
theorem textContradicts_eq_false_iff (q : BeliefQuad M G) (c t : String) :
    (SemanticGraph.valueContradictsSemantic q.embeddingProvider q.equivalence (.asserted c)
      (.asserted t)).1 = false ↔ q.Paraphrases c t := by
  have hliteral : SemanticGraph.valueContradicts (.asserted c) (.asserted t) = true ↔
      ¬ Platform.toLowercase (trim c) = Platform.toLowercase (trim t) := decide_eq_true_iff
  unfold SemanticGraph.valueContradictsSemantic Paraphrases
  by_cases hl : Platform.toLowercase (trim c) = Platform.toLowercase (trim t)
  · rw [if_neg fun h => hliteral.mp h hl]
    exact iff_of_true rfl (Or.inl hl)
  · rw [if_pos (hliteral.mpr hl), or_iff_right hl]
    cases hp : q.embeddingProvider with
    | none =>
      refine iff_of_false (fun h => nomatch h) fun h => ?_
      obtain ⟨_, _, _, h, -⟩ := h
      cases h
    | some provider =>
      simp only
      cases hc : provider.embedCached c with
      | none =>
        refine iff_of_false (fun h => nomatch h) fun h => ?_
        obtain ⟨_, _, _, hp', h, -⟩ := h
        obtain rfl := Option.some.inj hp'
        rw [hc] at h
        cases h
      | some vc =>
        cases ht : provider.embedCached t with
        | none =>
          refine iff_of_false (fun h => nomatch h) fun h => ?_
          obtain ⟨_, _, _, hp', -, h, -⟩ := h
          obtain rfl := Option.some.inj hp'
          rw [ht] at h
          cases h
        | some vt =>
          simp only
          rw [semanticVerdict_eq_false_iff]
          refine ⟨fun h => ⟨provider, vc, vt, rfl, hc, ht, h⟩, fun h => ?_⟩
          obtain ⟨_, vc', vt', hp', hc', ht', h⟩ := h
          obtain rfl := Option.some.inj hp'
          rw [hc] at hc'
          rw [ht] at ht'
          rw [Option.some.inj hc', Option.some.inj ht']
          exact h

/-- **the verdict on a text**: it contradicts nothing exactly when the belief is uncontested and
asserts a paraphrase of it -/
theorem checkContradiction_asserted {q : BeliefQuad M G} {id : BeliefId} {n : BeliefNode}
    (hn : q.get id = some n) (t : String) :
    q.checkContradiction id (.asserted t) = false ↔
      ¬ q.Contested id ∧ ∃ c, n.value = .asserted c ∧ q.Paraphrases c t := by
  have hverdict : q.checkContradiction id (.asserted t) =
      ((SemanticGraph.valueContradictsSemantic q.embeddingProvider q.equivalence n.value
        (.asserted t)).1 || SemanticGraph.hasContradictionEdges q.semantic id) := by
    unfold checkContradiction checkContradictionTraced
    rw [hn]
  rw [hverdict, Bool.or_eq_false_iff, and_comm]
  refine and_congr ?_ ?_
  · unfold Contested
    rw [Bool.not_eq_true]
  · cases hv : n.value with
    | asserted c =>
      rw [textContradicts_eq_false_iff]
      refine ⟨fun h => ⟨c, rfl, h⟩, fun h => ?_⟩
      obtain ⟨c', hc', h⟩ := h
      rw [BeliefValue.asserted.inj hc']
      exact h
    | deterministic w => exact iff_of_false (fun h => nomatch h) fun h => nomatch h.choose_spec.1
    | inferred w => exact iff_of_false (fun h => nomatch h) fun h => nomatch h.choose_spec.1
    | reference w => exact iff_of_false (fun h => nomatch h) fun h => nomatch h.choose_spec.1

/-! ## two runs -/

/-- the current text is a third one, and paraphrases just one of `phi` and `psi` -/
def Divided (q : BeliefQuad M G) (id : BeliefId) (phi psi : String) : Prop :=
  ¬ q.Contested id ∧ ∃ n c, q.get id = some n ∧ n.value = .asserted c ∧ c ≠ phi ∧ c ≠ psi ∧
    ¬ (q.Paraphrases c phi ↔ q.Paraphrases c psi)

/-- two texts that are cached and equivalent -/
structure Equals (q : BeliefQuad M G) (provider : EmbeddingProvider) (phi psi : String) : Prop where
  installed : q.embeddingProvider = some provider
  classified : ∃ a b s, provider.embedCached phi = some a ∧ provider.embedCached psi = some b ∧
    q.equivalence.classify a b = .equivalent s

theorem Equals.paraphrases {q : BeliefQuad M G} {provider : EmbeddingProvider}
    {phi psi : String} (h : q.Equals provider phi psi) :
    q.Paraphrases phi psi ∧ q.Paraphrases psi phi := by
  obtain ⟨a, b, s, ha, hb, hs⟩ := h.classified
  have heq : q.equivalence.Equivalent a b :=
    (q.equivalence.classify_equivalent_iff a b).mp ⟨s, hs⟩
  exact ⟨Or.inr ⟨provider, a, b, h.installed, ha, hb, heq⟩,
    Or.inr ⟨provider, b, a, h.installed, hb, ha, heq.symm⟩⟩

/-- the verdicts on two equivalent texts differ exactly when a third text divides them -/
theorem verdicts_agree_iff {q : BeliefQuad M G} {provider : EmbeddingProvider}
    {phi psi : String} (h : q.Equals provider phi psi) {id : BeliefId} (hl : q.Live id) :
    q.checkContradiction id (.asserted phi) = q.checkContradiction id (.asserted psi) ↔
      ¬ q.Divided id phi psi := by
  obtain ⟨n, hn⟩ := live_iff.mp hl
  have hsame : q.checkContradiction id (.asserted phi) = q.checkContradiction id (.asserted psi) ↔
      (q.checkContradiction id (.asserted phi) = false ↔
        q.checkContradiction id (.asserted psi) = false) := by
    cases q.checkContradiction id (.asserted phi) <;>
      cases q.checkContradiction id (.asserted psi) <;> decide
  rw [hsame, checkContradiction_asserted hn, checkContradiction_asserted hn]
  constructor
  · intro hiff hd
    obtain ⟨hfree, n', c, hn', hc, -, -, hno⟩ := hd
    obtain rfl := Option.some.inj (hn.symm.trans hn')
    apply hno
    constructor
    · intro hp
      obtain ⟨-, c', hc', hp'⟩ := hiff.mp ⟨hfree, c, hc, hp⟩
      rw [BeliefValue.asserted.inj (hc.symm.trans hc')]
      exact hp'
    · intro hp
      obtain ⟨-, c', hc', hp'⟩ := hiff.mpr ⟨hfree, c, hc, hp⟩
      rw [BeliefValue.asserted.inj (hc.symm.trans hc')]
      exact hp'
  · intro hd
    refine and_congr_right fun hfree => exists_congr fun c => and_congr_right fun hc => ?_
    by_contra hno
    refine hd ⟨hfree, n, c, hn, hc, ?_, ?_, hno⟩
    · intro hcp
      subst hcp
      exact hno (iff_of_true (.refl q c) h.paraphrases.1)
    · intro hcp
      subst hcp
      exact hno (iff_of_true h.paraphrases.2 (.refl q c))

/-- **a paraphrase that another belief holds is one the audit has looked at**: a revision that goes
through has the verdict that it would have -/
theorem stored_paraphrase_agrees {q : BeliefQuad M G} {provider : EmbeddingProvider}
    {phi psi : String} (h : q.Equals provider phi psi) {id other : BeliefId} (hne : other ≠ id)
    {m : BeliefNode} (hother : q.get other = some m) (hpsi : m.value = .asserted psi)
    (ha : (q.auditOf id (.asserted phi)).allCriticalPass = true) (hl : q.Live id) :
    ¬ q.Divided id phi psi := by
  rw [← verdicts_agree_iff h hl]
  obtain ⟨n, hn⟩ := live_iff.mp hl
  obtain ⟨a, b, s, hca, hcb, hs⟩ := h.classified
  have hext : (checkExtensionality q id (.asserted phi)
      (q.checkContradiction id (.asserted phi))).1 = true := (Bool.and_eq_true_iff.mp ha).2
  unfold checkExtensionality at hext
  rw [h.installed] at hext
  simp only [hca, hn] at hext
  have hmem : (other, m) ∈ SlotMap.iter q.nodes := (SlotMap.mem_iter q.nodes other m).mpr hother
  have hagree : disagreesAsParaphrase q provider id n.value a
      (q.checkContradiction id (.asserted phi)) (other, m) = false := by
    cases hf : (SlotMap.iter q.nodes).find? (disagreesAsParaphrase q provider id n.value a
        (q.checkContradiction id (.asserted phi))) with
    | some e =>
      rw [hf] at hext
      cases hext
    | none => exact Bool.not_eq_true _ ▸ List.find?_eq_none.mp hf (other, m) hmem
  unfold disagreesAsParaphrase at hagree
  rw [if_neg hne] at hagree
  simp only [hpsi, hcb, hs] at hagree
  have hverdict : q.checkContradiction id (.asserted psi) =
      ((SemanticGraph.valueContradictsSemantic (some provider) q.equivalence n.value
        (.asserted psi)).1 || SemanticGraph.hasContradictionEdges q.semantic id) := by
    unfold checkContradiction checkContradictionTraced
    rw [hn, h.installed]
  rw [hverdict]
  exact (bne_eq_false_iff_eq.mp hagree).symm

/-- **two equivalent texts revise a belief alike, unless it asserts a third text that paraphrases
just one of them** -/
theorem extensionality_iff {q : BeliefQuad M G} {provider : EmbeddingProvider}
    {phi psi : String} (h : q.Equals provider phi psi) {id : BeliefId} {stamp stamp' : Stamp}
    {order order' : HashOrder BeliefId} {p p' : Provenance} {c c' : ℚ}
    {record record' : RevisionRecord}
    (hphi : (q.revise stamp order id (.asserted phi) p c).1 = .ok record)
    (hpsi : (q.revise stamp' order' id (.asserted psi) p' c').1 = .ok record') :
    (record.postulateAudit.vacuity = record'.postulateAudit.vacuity ∧
      record.contracted = record'.contracted) ↔ ¬ q.Divided id phi psi := by
  have hl : q.Live id := ((revise_ok_iff _ _ _ _ _ _ _).mp ⟨record, hphi⟩).1
  rw [← verdicts_agree_iff h hl, revise_audit hphi, revise_audit hpsi, (revise_ok hphi).1,
    (revise_ok hpsi).1]
  constructor
  · intro hv
    exact Bool.not_inj hv.1
  · intro hv
    refine ⟨congrArg Bool.not hv, ?_⟩
    unfold contractedSet
    rw [hv]

end

section
attribute [local instance] Platform.ascii

/-- three texts in the plane: `ship` and `release` are close to `deploy`, and not to each other -/
def plane : EmbeddingProvider where
  embedCached t :=
    if t = "deploy" then some [1, 0]
    else if t = "ship" then some [24 / 25, 7 / 25]
    else if t = "release" then some [24 / 25, -7 / 25]
    else none

/-- a quad with that provider, and one belief that asserts `t` -/
def asserting (t : String) : BeliefQuad SlotVec EdgeList :=
  run step new
    [.setEmbeddingProvider (some plane),
     .insert (.new 0 "goal" (.asserted t) (.userStatement 0) (9 / 10))]

/-- `deploy` and `ship` are equivalent -/
theorem equals_asserting (t : String) : (asserting t).Equals plane "deploy" "ship" where
  installed := rfl
  classified := by
    have hclose : SemanticEquivalence.default.Equivalent [1, 0] [24 / 25, 7 / 25] := by
      show SemanticEquivalence.default.equivalence ≤ cosineSimilarity [1, 0] [24 / 25, 7 / 25]
      decide +kernel
    obtain ⟨s, hs⟩ := (SemanticEquivalence.default.classify_equivalent_iff _ _).mpr hclose
    exact ⟨_, _, s, rfl, rfl, hs⟩

/-- a revision of the belief to `t` -/
def assertAs (q : BeliefQuad SlotVec EdgeList) (t : String) :
    Except BeliefRevisionError RevisionRecord :=
  (q.revise ⟨7, 0⟩ .id ⟨1, 1⟩ (.asserted t) (.userStatement 1) (1 / 2)).1

/-- both contradict a text the provider does not know -/
theorem extensionality_asserting : ∃ record record',
    assertAs (asserting "wait") "deploy" = .ok record ∧
    assertAs (asserting "wait") "ship" = .ok record' ∧
    (record.postulateAudit.vacuity = record'.postulateAudit.vacuity ∧
      record.contracted = record'.contracted) := by
  obtain ⟨record, hphi⟩ := (revise_ok_iff (asserting "wait") ⟨7, 0⟩ .id ⟨1, 1⟩
    (.asserted "deploy") (.userStatement 1) (1 / 2)).mpr
    ⟨by decide +kernel, by decide +kernel, by decide +kernel⟩
  obtain ⟨record', hpsi⟩ := (revise_ok_iff (asserting "wait") ⟨7, 0⟩ .id ⟨1, 1⟩
    (.asserted "ship") (.userStatement 1) (1 / 2)).mpr
    ⟨by decide +kernel, by decide +kernel, by decide +kernel⟩
  refine ⟨record, record', hphi, hpsi,
    (extensionality_iff (equals_asserting "wait") hphi hpsi).mpr fun hd => ?_⟩
  exact (verdicts_agree_iff (equals_asserting "wait") (by decide +kernel)).mp
    (by decide +kernel) hd

/-- `release` paraphrases `deploy`, and not `ship` -/
theorem equivalent_texts_differ : (asserting "release").Equals plane "deploy" "ship" ∧
    ∃ record record', assertAs (asserting "release") "deploy" = .ok record ∧
      assertAs (asserting "release") "ship" = .ok record' ∧
      record.postulateAudit.vacuity = true ∧ record'.postulateAudit.vacuity = false := by
  refine ⟨equals_asserting "release", ?_⟩
  obtain ⟨record, hphi⟩ := (revise_ok_iff (asserting "release") ⟨7, 0⟩ .id ⟨1, 1⟩
    (.asserted "deploy") (.userStatement 1) (1 / 2)).mpr
    ⟨by decide +kernel, by decide +kernel, by decide +kernel⟩
  obtain ⟨record', hpsi⟩ := (revise_ok_iff (asserting "release") ⟨7, 0⟩ .id ⟨1, 1⟩
    (.asserted "ship") (.userStatement 1) (1 / 2)).mpr
    ⟨by decide +kernel, by decide +kernel, by decide +kernel⟩
  refine ⟨record, record', hphi, hpsi, ?_, ?_⟩
  · rw [revise_audit hphi]
    decide +kernel
  · rw [revise_audit hpsi]
    decide +kernel

end
end BeliefQuad
end Epica
