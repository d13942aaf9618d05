import Epica.Contracts.LedgerLaws
import Epica.Lib.HashProof

/-!
# Merkle inclusion proofs, complete and sound

* `merkleProof_complete`      every entry has a proof, as long as the tree is high, and accepted;
* `verifyMerkleProof_sound`   and nothing else is accepted: no other leaf at its position, and no
                              other list, of whatever length.

Soundness needs that BLAKE3 does not collide among the strings that the root and the check hash.
A leaf and a node are different strings, by their first byte.
-/

set_option linter.unusedSectionVars false

namespace Epica
open Lib

section
variable [Blake3]

/-- the strings that a path hashes, climbed from the leaf `pos` of `n` -/
def pathInputs (selfHash : Digest) (pos n : UInt64) (path : List Digest) : List (List UInt8) :=
  (climbPairs nodeHash ⟨leafHash selfHash, pos.toNat, n.toNat⟩ path).map fun p =>
    nodeInput p.1 p.2

namespace AuditLedger

/-- the strings that taking the root and checking a proof against it hashes -/
def checked (ledger : AuditLedger) (leaf : Digest) (seq : UInt64) (proof : List Digest) :
    List (List UInt8) :=
  treeInputs (ledger.entries.map LedgerEntry.selfHash) ++
    leafInput leaf :: pathInputs leaf seq (.ofNat ledger.len) proof

/-- the leaves of the tree -/
def leaves (ledger : AuditLedger) : List Digest :=
  (ledger.entries.map LedgerEntry.selfHash).map leafHash

theorem length_leaves (ledger : AuditLedger) : ledger.leaves.length = ledger.len := by
  unfold leaves len
  rw [List.length_map, List.length_map]

theorem getElem?_leaves (ledger : AuditLedger) (i : Nat) :
    ledger.leaves[i]? = (ledger.entries[i]?).map fun e => leafHash e.selfHash := by
  unfold leaves
  rw [List.getElem?_map, List.getElem?_map, Option.map_map]
  rfl

/-- a proof is the inclusion path of its position in the tree -/
theorem merkleProof_eq (ledger : AuditLedger) {seq : UInt64} (h : seq.toNat < ledger.len) :
    ledger.merkleProof seq =
      some (inclusionPath nodeHash ledger.leaves.length ledger.leaves seq.toNat) := by
  unfold merkleProof leaves
  rw [List.map_map]
  exact if_neg (Nat.not_le.mpr h)

/-! ## completeness -/

/-- **every entry has an inclusion proof, of as many digests as the tree has levels, and it is
accepted**; a ledger has fewer entries than a `u64` can count -/
theorem merkleProof_complete (ledger : AuditLedger) (hlen : ledger.len < 2 ^ 64) (seq : UInt64) :
    (ledger.merkleProof seq = none ↔ ledger.len ≤ seq.toNat) ∧
      ∀ e, ledger.entries[seq.toNat]? = some e → ∃ proof,
        ledger.merkleProof seq = some proof ∧ proof.length = Nat.clog 2 ledger.len ∧
          verifyMerkleProof e.selfHash seq (.ofNat ledger.len) proof ledger.merkleRoot = true := by
  constructor
  · constructor
    · intro h
      by_contra hlt
      rw [merkleProof_eq ledger (Nat.not_le.mp hlt)] at h
      cases h
    · exact fun h => if_pos h
  · intro e he
    have hlt : seq.toNat < ledger.len := (List.getElem?_eq_some_iff.mp he).1
    have hproof := merkleProof_eq ledger hlt
    refine ⟨_, hproof, ?_, verifyMerkleProof_merkleProof ledger hlen hproof he⟩
    rw [length_inclusionPath _ _ _ (Nat.le_refl _), length_leaves]

/-! ## soundness -/

/-- what an accepted check has seen: a position in range, and a climb that ends in the root -/
theorem verifyMerkleProof_eq_true {leaf root : Digest} {seq n : UInt64} {proof : List Digest}
    (h : verifyMerkleProof leaf seq n proof root = true) : seq.toNat < n.toNat ∧
      (proof.foldl (climbStep nodeHash) ⟨leafHash leaf, seq.toNat, n.toNat⟩).hash = root := by
  unfold verifyMerkleProof at h
  by_cases hrange : n = 0 ∨ n ≤ seq
  · rw [if_pos hrange] at h
    cases h
  · rw [if_neg hrange] at h
    obtain ⟨-, hroot⟩ := (Bool.and_eq_true_iff).mp h
    refine ⟨?_, of_decide_eq_true hroot⟩
    exact Nat.not_le.mp fun hle => hrange (.inr (UInt64.le_iff_toNat_le.mpr hle))

/-- **an accepted proof is that of the entry at its position**: the leaf is the entry's, the
list is the inclusion proof -/
theorem verifyMerkleProof_sound (ledger : AuditLedger) (leaf : Digest) (seq : UInt64)
    (proof : List Digest)
    (hinj : Set.InjOn Blake3.hash {b | b ∈ ledger.checked leaf seq proof})
    (h : verifyMerkleProof leaf seq (.ofNat ledger.len) proof ledger.merkleRoot = true) :
    seq.toNat < ledger.len ∧ (∃ e, ledger.entries[seq.toNat]? = some e ∧ leaf = e.selfHash) ∧
      ledger.merkleProof seq = some proof := by
  obtain ⟨hrange, hroot⟩ := verifyMerkleProof_eq_true h
  have hnat : (UInt64.ofNat ledger.len).toNat ≤ ledger.len := by
    rw [UInt64.toNat_ofNat']
    exact Nat.mod_le _ _
  have hlt : seq.toNat < ledger.len := by omega
  have hne : ledger.entries ≠ [] := List.ne_nil_of_length_pos (Nat.zero_lt_of_lt hlt)
  have htree : ∀ b ∈ treeInputs (ledger.entries.map LedgerEntry.selfHash),
      b ∈ {b | b ∈ ledger.checked leaf seq proof} := fun b hb => List.mem_append_left _ hb
  have hleaf : leafInput leaf ∈ {b | b ∈ ledger.checked leaf seq proof} :=
    List.mem_append_right _ List.mem_cons_self
  have hpath : ∀ p ∈ climbPairs nodeHash
      ⟨leafHash leaf, seq.toNat, (UInt64.ofNat ledger.len).toNat⟩ proof,
      nodeInput p.1 p.2 ∈ {b | b ∈ ledger.checked leaf seq proof} := fun p hp =>
    List.mem_append_right _ (List.mem_cons_of_mem _ (List.mem_map.mpr ⟨p, hp, rfl⟩))
  have hmem : (proof.foldl (climbStep nodeHash)
      ⟨leafHash leaf, seq.toNat, (UInt64.ofNat ledger.len).toNat⟩).hash ∈
        reduce nodeHash ledger.leaves.length ledger.leaves := by
    unfold leaves
    rw [treeRoot_mem _ (fun h => hne (List.map_eq_nil_iff.mp h)), hroot, merkleRoot_eq _ hne]
    exact List.mem_singleton.mpr rfl
  obtain ⟨hget, hproof⟩ := climb_sound (unambiguous_of_injOn hinj) ledger.leaves.length
    ⟨leafHash leaf, seq.toNat, (UInt64.ofNat ledger.len).toNat⟩ proof (Nat.le_refl _)
    (ledger.length_leaves ▸ hlt) (height_leaves htree) (.leaf ⟨leaf, hleaf, rfl⟩)
    (pairs_in_play htree) hpath hmem
  rw [getElem?_leaves] at hget
  obtain ⟨e, he, hsame⟩ := Option.map_eq_some_iff.mp hget
  have hin := leafInputs_in_play htree e.selfHash
    (List.mem_map_of_mem (List.mem_of_getElem? he))
  refine ⟨hlt, ⟨e, he, leafHash_injOn hinj hleaf hin hsame.symm⟩, ?_⟩
  rw [merkleProof_eq ledger hlt, hproof]

end AuditLedger
end

namespace AuditLedger
section
attribute [local instance] Sample.blake3 Sample.json

/-- the last of three entries, which is combined with itself -/
theorem merkleProof_complete_sample : ∃ e proof,
    (ofEntries Sample.entries).entries[2]? = some e ∧
      (ofEntries Sample.entries).merkleProof 2 = some proof ∧
      proof.length = Nat.clog 2 (ofEntries Sample.entries).len ∧
      verifyMerkleProof e.selfHash 2 (.ofNat (ofEntries Sample.entries).len) proof
        (ofEntries Sample.entries).merkleRoot = true := by
  have hlt : 2 < (ofEntries Sample.entries).entries.length := by decide
  have he := List.getElem?_eq_getElem hlt
  obtain ⟨proof, hproof⟩ :=
    (merkleProof_complete (ofEntries Sample.entries) (by decide) 2).2 _ he
  exact ⟨_, proof, he, hproof⟩

theorem verifyMerkleProof_sound_sample :
    (ofEntries Sample.entries).merkleProof 2 = some [Sample.leaf2, Sample.node01] :=
  (verifyMerkleProof_sound (ofEntries Sample.entries) Sample.self2 2
    [Sample.leaf2, Sample.node01]
    (collisionFree_sample.inj.mono (by
      show ∀ b ∈ checked _ _ _ _, b ∈ Sample.digests.map Prod.fst
      decide +kernel))
    (by decide +kernel)).2.2

end
end AuditLedger
end Epica
