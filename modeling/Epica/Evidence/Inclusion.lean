import Epica.Contracts.MerkleProof
import Epica.Evidence.Authenticity
import Epica.Lib.HashPath

/-!
# What an embedded inclusion proof stands on

The signed root is that of a window, the embedded paths are those of the whole ledger.

* `inclusions_stand`   an embedded path leads to the root of the whole ledger, and to the signed one
                       where the window is the whole ledger, and nowhere else.
-/

set_option linter.unusedSectionVars false

namespace Epica
open Lib AuditLedger

section
variable [Blake3] [Hex]

/-- an inclusion proof, checked from the receipt alone: on the signed root, as leaf `pos` of `n` -/
def checkFromReceipt (receipt : EvidenceReceipt) (inc : MerkleInclusionProof) (pos n : UInt64) :
    Except EvidenceReceiptError Bool := do
  let leaf ← decodeFixedHex 32 inc.selfHashHex "inclusion.self_hash_hex"
  let path ← inc.pathHex.mapM fun s => decodeFixedHex 32 s "inclusion.path"
  let root ← decodeFixedHex 32 receipt.merkleRootHex "merkle_root_hex"
  .ok (verifyMerkleProof leaf pos n path root)

def EvidenceReceipt.Whole (receipt : EvidenceReceipt) : Prop :=
  receipt.startSeq = 0 ∧ receipt.endSeq.toNat + 1 = receipt.ledgerLen.toNat

/-! ## what sealing embeds -/

/-- the proof `inc` is that of the entry `e`, with `path` -/
structure Embedded (ledger : AuditLedger) (inc : MerkleInclusionProof) (e : LedgerEntry)
    (path : List Digest) : Prop where
  proof : ledger.merkleProof inc.seq = some path
  entry : ledger.entries[inc.seq.toNat]? = some e
  leafHex : inc.selfHashHex = Hex.encode e.selfHash.toList
  pathHex : inc.pathHex = path.map fun d => Hex.encode d.toList

theorem embedded_of_inclusionProof {ledger : AuditLedger} {seq : UInt64}
    {inc : MerkleInclusionProof} (h : inclusionProof ledger seq = some inc) :
    inc.seq = seq ∧ ∃ e path, Embedded ledger inc e path := by
  unfold inclusionProof at h
  obtain ⟨path, hpath, h⟩ := Option.bind_eq_some_iff.mp h
  obtain ⟨e, he, h⟩ := Option.bind_eq_some_iff.mp h
  obtain rfl := Option.some.inj h
  exact ⟨rfl, e, path, hpath, he, rfl, rfl⟩

theorem Embedded.lt {ledger : AuditLedger} {inc : MerkleInclusionProof} {e : LedgerEntry}
    {path : List Digest} (h : Embedded ledger inc e path) : inc.seq.toNat < ledger.len :=
  (List.getElem?_eq_some_iff.mp h.entry).1

/-- the path is that of the leaf in the tree of all heads -/
theorem Embedded.path_eq {ledger : AuditLedger} {inc : MerkleInclusionProof} {e : LedgerEntry}
    {path : List Digest} (h : Embedded ledger inc e path) :
    let level := (ledger.entries.map LedgerEntry.selfHash).map leafHash
    path = inclusionPath nodeHash level.length level inc.seq.toNat ∧
      level[inc.seq.toNat]? = some (leafHash e.selfHash) := by
  have hlevel : ledger.entries.map (fun e => leafHash e.selfHash) =
      (ledger.entries.map LedgerEntry.selfHash).map leafHash := by
    rw [List.map_map]
    rfl
  have hproof := (if_neg (Nat.not_le.mpr h.lt)).symm.trans h.proof
  constructor
  · rw [← hlevel]
    exact (Option.some.inj hproof).symm
  · rw [← hlevel, List.getElem?_map, h.entry]
    rfl

theorem hash_of_verifyMerkleProof {selfHash root : Digest} {pos n : UInt64} {path : List Digest}
    (h : verifyMerkleProof selfHash pos n path root = true) :
    (path.foldl (climbStep nodeHash) ⟨leafHash selfHash, pos.toNat, n.toNat⟩).hash = root := by
  unfold verifyMerkleProof at h
  by_cases hrange : n = 0 ∨ n ≤ pos
  · rw [if_pos hrange] at h
    cases h
  · rw [if_neg hrange] at h
    exact of_decide_eq_true (Bool.and_eq_true_iff.mp h).2

/-! ## the window's root -/

theorem length_windowHeads (ledger : AuditLedger) {startSeq endSeq : UInt64}
    (hlt : endSeq.toNat < ledger.len) :
    (windowHeads ledger startSeq endSeq).length = endSeq.toNat + 1 - startSeq.toNat := by
  have hmin : min (endSeq.toNat + 1) ledger.len = endSeq.toNat + 1 := Nat.min_eq_left hlt
  have hlen : ledger.entries.length = ledger.len := rfl
  unfold windowHeads
  rw [List.length_drop, List.length_take, List.length_map, hlen, hmin]

/-- the window that is the whole ledger has the root of the ledger -/
theorem windowMerkleRoot_whole (ledger : AuditLedger) {startSeq endSeq : UInt64}
    (hstart : startSeq = 0) (hend : endSeq.toNat + 1 = ledger.len) :
    windowMerkleRoot ledger startSeq endSeq = ledger.merkleRoot := by
  subst hstart
  have hne : ledger.entries ≠ [] := List.ne_nil_of_length_pos (by
    show 0 < ledger.len
    omega)
  have hlen : (ledger.entries.map LedgerEntry.selfHash).length ≤ ledger.len :=
    Nat.le_of_eq (List.length_map _)
  rw [windowMerkleRoot_eq ledger (UInt64.zero_le) (by omega), merkleRoot_eq ledger hne]
  unfold windowHeads
  rw [hend, List.take_of_length_le hlen]
  rfl

variable [AuditJson]

/-- the strings that sealing a window and checking a path on its root hash -/
def inclusionInputs (ledger : AuditLedger) (startSeq endSeq : UInt64) (selfHash : Digest)
    (pos n : UInt64) (path : List Digest) : List (List UInt8) :=
  hashed ledger ++ treeInputs (windowHeads ledger startSeq endSeq) ++
    pathInputs selfHash pos n path

theorem leaves_in_play {strings : Set (List UInt8)} {heads : List Digest}
    (hin : ∀ b ∈ treeInputs heads, b ∈ strings) :
    ∀ x ∈ heads.map leafHash, x ∈ {x | ∃ d, leafInput d ∈ strings ∧ x = leafHash d} := by
  intro x hx
  obtain ⟨d, hd, rfl⟩ := List.mem_map.mp hx
  exact ⟨d, leafInputs_in_play hin d hd, rfl⟩

/-- where a path of the ledger's tree leads to the root of another tree, all heads are there -/
theorem heads_subset_of_climb {strings : Set (List UInt8)} (hfree : CollisionFree strings)
    {ledger : AuditLedger} {heads : List Digest} {inc : MerkleInclusionProof} {e : LedgerEntry}
    {path : List Digest} {pos n : UInt64} (hinc : Embedded ledger inc e path)
    (htree : ∀ b ∈ treeInputs (ledger.entries.map LedgerEntry.selfHash), b ∈ strings)
    (htree' : ∀ b ∈ treeInputs heads, b ∈ strings)
    (hpath : ∀ b ∈ pathInputs e.selfHash pos n path, b ∈ strings) (hne : heads ≠ [])
    (h : verifyMerkleProof e.selfHash pos n path (treeRoot heads) = true) :
    ledger.entries.map LedgerEntry.selfHash ⊆ heads := by
  have hclimb : ∀ q ∈ climbPairs nodeHash ⟨leafHash e.selfHash, pos.toNat, n.toNat⟩ path,
      q ∈ {p : Digest × Digest | nodeInput p.1 p.2 ∈ strings} := fun q hq =>
    hpath _ (List.mem_map.mpr ⟨q, hq, rfl⟩)
  have hlast := hash_of_verifyMerkleProof h
  have hroot := treeRoot_mem heads hne
  obtain ⟨heq, hleaf⟩ := hinc.path_eq
  rw [heq] at hlast hclimb
  have hleaves : (ledger.entries.map LedgerEntry.selfHash).map leafHash ⊆ heads.map leafHash := by
    refine subset_of_climb (unambiguous_of_injOn hfree.inj) _ _
      ⟨leafHash e.selfHash, pos.toNat, n.toNat⟩ (Nat.le_refl _) (leaves_in_play htree)
      (leaves_in_play htree') (pairs_in_play htree) (pairs_in_play htree') hclimb hleaf ?_
    rw [hroot]
    exact List.mem_singleton.mpr hlast
  intro d hd
  obtain ⟨d', hd', heq⟩ := List.mem_map.mp (hleaves (List.mem_map_of_mem hd))
  obtain rfl := leafHash_injOn hfree.inj (leafInputs_in_play htree' d' hd')
    (leafInputs_in_play htree d hd) heq
  exact hd'

/-- **a path of the whole ledger leads to no other root** than that of the whole ledger, whatever
position it is climbed from -/
theorem whole_of_climb {strings : Set (List UInt8)} (hfree : CollisionFree strings)
    {es : List AuditEntry} (hjson : Set.InjOn canonical {e | e ∈ es}) {startSeq endSeq : UInt64}
    {inc : MerkleInclusionProof} {e : LedgerEntry} {path : List Digest} {pos n : UInt64}
    (hinc : Embedded (ofEntries es) inc e path)
    (hin : ∀ b ∈ inclusionInputs (ofEntries es) startSeq endSeq e.selfHash pos n path,
      b ∈ strings)
    (hle : startSeq ≤ endSeq) (hlt : endSeq.toNat < (ofEntries es).len)
    (h : verifyMerkleProof e.selfHash pos n path
      (windowMerkleRoot (ofEntries es) startSeq endSeq) = true) :
    startSeq = 0 ∧ endSeq.toNat + 1 = (ofEntries es).len := by
  have hhashed : ∀ b ∈ hashed (ofEntries es), b ∈ strings := fun b hb =>
    hin b (List.mem_append_left _ (List.mem_append_left _ hb))
  have hwindow : ∀ b ∈ treeInputs (windowHeads (ofEntries es) startSeq endSeq), b ∈ strings :=
    fun b hb => hin b (List.mem_append_left _ (List.mem_append_right _ hb))
  have hpath : ∀ b ∈ pathInputs e.selfHash pos n path, b ∈ strings := fun b hb =>
    hin b (List.mem_append_right _ hb)
  have hlen : (windowHeads (ofEntries es) startSeq endSeq).length = _ := length_windowHeads _ hlt
  have hle' := UInt64.le_iff_toNat_le.mp hle
  rw [windowMerkleRoot_eq _ hle hlt] at h
  have hsubset := heads_subset_of_climb hfree hinc
    (fun b hb => hhashed b (List.mem_append_right _ hb)) hwindow hpath
    (List.ne_nil_of_length_pos (by omega)) h
  -- no head occurs twice, so that the window is as long as the ledger
  have hnodup := nodup_selfHash hfree hjson (fun b hb => hhashed b (List.mem_append_left _ hb))
    fun e he => he
  have hcount := (List.subperm_of_subset hnodup hsubset).length_le
  rw [hlen, List.length_map] at hcount
  have hcount' : (ofEntries es).len ≤ endSeq.toNat + 1 - startSeq.toNat := hcount
  have hstart : startSeq.toNat = 0 := by omega
  exact ⟨UInt64.toNat_inj.mp hstart, by omega⟩

end

section
variable [Blake3] [Hex] [Ed25519]

/-- what the check from the receipt computes for an embedded proof -/
theorem checkFromReceipt_embedded (hhex : ∀ b, Hex.decode (Hex.encode b) = .ok b)
    {receipt : EvidenceReceipt} {ledger : AuditLedger} {inc : MerkleInclusionProof}
    {e : LedgerEntry} {path : List Digest} {root : Digest} (h : Embedded ledger inc e path)
    (hroot : receipt.merkleRootHex = Hex.encode root.toList) (pos n : UInt64) :
    checkFromReceipt receipt inc pos n = .ok (verifyMerkleProof e.selfHash pos n path root) := by
  unfold checkFromReceipt
  rw [h.leafHex, h.pathHex, hroot, decodeFixedHex_encode hhex, mapM_decodeFixedHex hhex,
    decodeFixedHex_encode hhex]
  rfl

/-- the entry and the path are read back -/
theorem Embedded.eq_of_included (hhex : ∀ b, Hex.decode (Hex.encode b) = .ok b)
    {ledger : AuditLedger} {inc : MerkleInclusionProof} {e e' : LedgerEntry}
    {path path' : List Digest} (h : Embedded ledger inc e path)
    (h' : Ed25519Verifier.Included ledger inc e' path') : e' = e ∧ path' = path := by
  have hpath := h'.pathHex
  rw [h.pathHex, mapM_decodeFixedHex hhex] at hpath
  exact ⟨Option.some.inj (h'.entry.symm.trans h.entry), (Except.ok.inj hpath).symm⟩

variable [AuditJson]

/-- **an embedded inclusion proof stands on the root of the whole ledger**: it is that of an entry
that was asked for, and its path leads to the ledger's root; on the signed root it can be checked
where the window is the whole ledger, and only there, at whatever position -/
theorem inclusions_stand (hhex : ∀ b, Hex.decode (Hex.encode b) = .ok b) (es : List AuditEntry)
    (startSeq endSeq : UInt64) (signing : Ed25519.SigningKey) (opts : SealOptions)
    (sealedAtMs : UInt64) (receipt : EvidenceReceipt) (hlen : es.length < 2 ^ 64)
    (hseal : sealWithOptions signing (.ofEntries es) startSeq endSeq opts sealedAtMs =
      .ok receipt) :
    ∀ inc ∈ receipt.inclusions, inc.seq ∈ opts.inclusions ∧ inc.seq < receipt.ledgerLen ∧
      ∃ e path, Ed25519Verifier.Included (.ofEntries es) inc e path ∧
        (receipt.Whole → checkFromReceipt receipt inc inc.seq receipt.ledgerLen = .ok true) ∧
        ∀ pos n, CollisionFree
            {b | b ∈ inclusionInputs (ofEntries es) startSeq endSeq e.selfHash pos n path} →
          Set.InjOn canonical {e | e ∈ es} → checkFromReceipt receipt inc pos n = .ok true →
          receipt.Whole := by
  intro inc hinc
  obtain ⟨hle, hlt⟩ := (sealWithOptions_ok_iff signing _ _ _ opts sealedAtMs).mp ⟨_, hseal⟩
  unfold sealWithOptions at hseal
  obtain ⟨-, hseal⟩ := refuse_eq_ok.mp hseal
  have hroot : receipt.merkleRootHex =
      Hex.encode (windowMerkleRoot (ofEntries es) startSeq endSeq).toList := by
    rw [← Except.ok.inj hseal]
  obtain rfl := Except.ok.inj hseal
  obtain ⟨seq, hseq, hinc⟩ := List.mem_filterMap.mp hinc
  obtain ⟨rfl, e, path, hemb⟩ := embedded_of_inclusionProof hinc
  have hlen' : (ofEntries es).len < 2 ^ 64 := by
    show (ofEntries es).entries.length < 2 ^ 64
    rwa [length_ofEntries]
  have hnat : (UInt64.ofNat (ofEntries es).len).toNat = (ofEntries es).len :=
    UInt64.toNat_ofNat_of_lt' hlen'
  have hclimbs := verifyMerkleProof_merkleProof (ofEntries es) hlen' hemb.proof hemb.entry
  have hcheck := checkFromReceipt_embedded hhex hemb hroot
  refine ⟨hseq, ?_, e, path, ⟨hemb.entry, ?_, ?_, hclimbs⟩, fun hwhole => ?_,
    fun pos n hfree hjson hok => ?_⟩
  · rw [UInt64.lt_iff_toNat_lt, hnat]
    exact hemb.lt
  · rw [hemb.leafHex]
    exact decodeFixedHex_encode hhex e.selfHash _
  · rw [hemb.pathHex]
    exact mapM_decodeFixedHex hhex path _
  · obtain ⟨hstart, hend⟩ := hwhole
    rw [hcheck, windowMerkleRoot_whole _ hstart (hend.trans hnat), hclimbs]
  · rw [hcheck] at hok
    obtain ⟨hstart, hend⟩ := whole_of_climb hfree hjson hemb (fun _ hb => hb) hle hlt
      (Except.ok.inj hok)
    exact ⟨hstart, hend.trans hnat.symm⟩

end

/-! ## a sample

Of the three sample entries, the window of all of them and that of the last two; the nodes with
swapped ends come from climbing at other positions.
-/

namespace Sample

def node10 : Digest := digest 0x5cdc8db0cb69e320c58d55cbdb7d43eea90cd76ae3108fe1dbf05f12df995bc1
def root2201 : Digest := digest 0x50b18f54516e31bcc5416bc4bf9cd643df0751496f082a7acb418055ac152edb
def root1022 : Digest := digest 0xe3d029c37e6ff56d43b70cdb84453c27a3069210432b3432b12d2db6a0efd7ee
def root2210 : Digest := digest 0x35058fb4bf8cbcbfb51ae7956a31423a0cb4ed0cfc948406bb6141d31d4bd759
def binding02 : Digest := digest 0xd75449d3344b532687a0b86ab1f36d1defe29757fdc448aff86151e2586a23c6

def signature02 : Vector UInt8 64 :=
  digest 0xe86dc473753bf76276c626d13a72ea9086d7cc8afc83798afe73c6a7aadbac95 ++
    digest 0xff0ecf2860f4024e39343c987d2ee12da1a2350f339e9b3a538a89ba9838e402

def inclusionDigests : List (List UInt8 × Digest) :=
  evidenceDigests ++ [(nodeInput leaf1 leaf0, node10), (nodeInput node22 node01, root2201),
    (nodeInput node10 node22, root1022), (nodeInput node22 node10, root2210),
    (bindingInput root012 0 2 3 pubkey 1, binding02)]

@[reducible] def inclusionBlake3 : Blake3 where
  hash := lookup inclusionDigests

@[reducible] def inclusionEd25519 : Ed25519 where
  SigningKey := Unit
  VerifyingKey := Unit
  SignatureError := Unit
  verifyingKey _ := ()
  toBytes _ := pubkey
  fromBytes b := if b = pubkey then .ok () else .error ()
  sign _ m := if m = binding02.toList then signature02 else signMessage m
  verify _ m sig :=
    if sig = if m = binding02.toList then signature02 else signMessage m then .ok () else .error ()

end Sample

section
attribute [local instance] Sample.inclusionBlake3 Sample.json Sample.hex Sample.inclusionEd25519

theorem collisionFree_inclusion :
    CollisionFree {b | b ∈ Sample.inclusionDigests.map Prod.fst} :=
  collisionFree_lookup (by decide +kernel) (by decide +kernel)

/-- the path of the second entry, climbed from any position, is at one of four digests -/
theorem climb_sample (pos n : UInt64) :
    ([Sample.leaf0, Sample.node22].foldl (climbStep nodeHash)
      ⟨leafHash Sample.self1, pos.toNat, n.toNat⟩).hash ≠ Sample.node12 := by
  have hleaf : leafHash Sample.self1 = Sample.leaf1 := by decide +kernel
  have hroots : nodeHash (nodeHash Sample.leaf1 Sample.leaf0) Sample.node22 ≠ Sample.node12 ∧
      nodeHash Sample.node22 (nodeHash Sample.leaf1 Sample.leaf0) ≠ Sample.node12 ∧
      nodeHash (nodeHash Sample.leaf0 Sample.leaf1) Sample.node22 ≠ Sample.node12 ∧
      nodeHash Sample.node22 (nodeHash Sample.leaf0 Sample.leaf1) ≠ Sample.node12 := by
    decide +kernel
  obtain ⟨hleft, hright, hleft', hright'⟩ := hroots
  show (climbStep nodeHash (climbStep nodeHash ⟨leafHash Sample.self1, pos.toNat, n.toNat⟩
    Sample.leaf0) Sample.node22).hash ≠ _
  unfold climbStep
  rw [hleaf]
  show (if pos.toNat / 2 % 2 = 0 then _ else _) ≠ Sample.node12
  by_cases heven : pos.toNat % 2 = 0
  · rw [if_pos heven]
    by_cases hup : pos.toNat / 2 % 2 = 0
    · rw [if_pos hup]
      exact hleft
    · rw [if_neg hup]
      exact hright
  · rw [if_neg heven]
    by_cases hup : pos.toNat / 2 % 2 = 0
    · rw [if_pos hup]
      exact hleft'
    · rw [if_neg hup]
      exact hright'

theorem embedded_sample : ∃ inc e, inclusionProof (ofEntries Sample.entries) 1 = some inc ∧
    inc.seq = 1 ∧ e.selfHash = Sample.self1 ∧
    Embedded (ofEntries Sample.entries) inc e [Sample.leaf0, Sample.node22] := by
  obtain ⟨inc, hinc⟩ := Option.isSome_iff_exists.mp
    (by decide +kernel : (inclusionProof (ofEntries Sample.entries) 1).isSome)
  obtain ⟨hseq, e, path, hemb⟩ := embedded_of_inclusionProof hinc
  have hentry : ((ofEntries Sample.entries).entries[(1 : UInt64).toNat]?).map
      LedgerEntry.selfHash = some Sample.self1 := by decide +kernel
  have hproof : (ofEntries Sample.entries).merkleProof 1 = some [Sample.leaf0, Sample.node22] := by
    decide +kernel
  rw [← hseq, hemb.entry] at hentry
  rw [← hseq, hemb.proof] at hproof
  obtain rfl := Option.some.inj hproof
  exact ⟨inc, e, hinc, hseq, Option.some.inj hentry, hemb⟩

/-- **an embedded proof that is not for the window, and one that does not stand on the signed
root**, at whatever position among however many leaves it is checked -/
theorem inclusion_not_signed : ∃ receipt,
    sealWithOptions () (ofEntries Sample.entries) 1 2 ⟨none, [0, 1]⟩ 1700000000000 = .ok receipt ∧
    (∃ inc ∈ receipt.inclusions, inc.seq < receipt.startSeq) ∧
    ∃ inc ∈ receipt.inclusions, receipt.startSeq ≤ inc.seq ∧ inc.seq ≤ receipt.endSeq ∧
      ∀ pos n, checkFromReceipt receipt inc pos n ≠ .ok true := by
  obtain ⟨receipt, hseal⟩ := (sealWithOptions_ok_iff () (ofEntries Sample.entries) 1 2
    ⟨none, [0, 1]⟩ 1700000000000).mpr (by decide +kernel)
  obtain ⟨inc0, hinc0⟩ := Option.isSome_iff_exists.mp
    (by decide +kernel : (inclusionProof (ofEntries Sample.entries) 0).isSome)
  obtain ⟨hseq0, -⟩ := embedded_of_inclusionProof hinc0
  obtain ⟨inc1, e, hinc1, hseq1, hself, hemb⟩ := embedded_sample
  have hroot : windowMerkleRoot (ofEntries Sample.entries) 1 2 = Sample.node12 := by
    decide +kernel
  have hmade := hseal
  unfold sealWithOptions at hmade
  obtain ⟨-, hmade⟩ := refuse_eq_ok.mp hmade
  obtain rfl := Except.ok.inj hmade
  refine ⟨_, hseal, ⟨inc0, ?_, ?_⟩, inc1, ?_, ?_, ?_, fun pos n hok => ?_⟩
  · exact List.mem_filterMap.mpr ⟨0, by decide, hinc0⟩
  · rw [hseq0]
    decide
  · exact List.mem_filterMap.mpr ⟨1, by decide, hinc1⟩
  · rw [hseq1]
    decide
  · rw [hseq1]
    decide
  · rw [checkFromReceipt_embedded Sample.decode_encode hemb rfl, hself, hroot] at hok
    exact climb_sample pos n (hash_of_verifyMerkleProof (Except.ok.inj hok))

/-- the proof of the second entry, in the receipt of all entries and in that of the last two -/
theorem inclusions_stand_sample : ∃ whole window,
    sealWithOptions () (ofEntries Sample.entries) 0 2 ⟨none, [1]⟩ 1700000000000 = .ok whole ∧
    sealWithOptions () (ofEntries Sample.entries) 1 2 ⟨none, [1]⟩ 1700000000000 = .ok window ∧
    (∃ inc ∈ whole.inclusions, checkFromReceipt whole inc inc.seq whole.ledgerLen = .ok true) ∧
    ∃ inc ∈ window.inclusions, inc.seq < window.ledgerLen ∧
      checkFromReceipt window inc inc.seq window.ledgerLen ≠ .ok true := by
  obtain ⟨whole, hwhole⟩ := (sealWithOptions_ok_iff () (ofEntries Sample.entries) 0 2
    ⟨none, [1]⟩ 1700000000000).mpr (by decide +kernel)
  obtain ⟨window, hwindow⟩ := (sealWithOptions_ok_iff () (ofEntries Sample.entries) 1 2
    ⟨none, [1]⟩ 1700000000000).mpr (by decide +kernel)
  obtain ⟨inc, e, hinc, hseq, hself, hemb⟩ := embedded_sample
  have hlen : UInt64.ofNat (ofEntries Sample.entries).len = 3 := by decide +kernel
  have hmem : ∀ {s : UInt64} {receipt : EvidenceReceipt}, sealWithOptions ()
      (ofEntries Sample.entries) s 2 ⟨none, [1]⟩ 1700000000000 = .ok receipt →
      inc ∈ receipt.inclusions ∧ receipt.startSeq = s ∧ receipt.endSeq = 2 ∧
        receipt.ledgerLen = 3 := by
    intro s receipt h
    unfold sealWithOptions at h
    obtain ⟨-, h⟩ := refuse_eq_ok.mp h
    obtain rfl := Except.ok.inj h
    exact ⟨List.mem_filterMap.mpr ⟨1, by decide, hinc⟩, rfl, rfl, hlen⟩
  obtain ⟨hin, hs, he, hl⟩ := hmem hwhole
  obtain ⟨-, -, _, _, -, hchecks, -⟩ := inclusions_stand Sample.decode_encode Sample.entries 0 2 ()
    ⟨none, [1]⟩ 1700000000000 whole (by decide) hwhole inc hin
  obtain ⟨hin', hs', he', hl'⟩ := hmem hwindow
  obtain ⟨-, hlt, e', path, hincl, -, honly⟩ := inclusions_stand Sample.decode_encode
    Sample.entries 1 2 () ⟨none, [1]⟩ 1700000000000 window (by decide) hwindow inc hin'
  obtain ⟨rfl, rfl⟩ := hemb.eq_of_included Sample.decode_encode hincl
  refine ⟨whole, window, hwhole, hwindow, ⟨inc, hin, hchecks ?_⟩, inc, hin', hlt, fun hok => ?_⟩
  · unfold EvidenceReceipt.Whole
    rw [hs, he, hl]
    decide
  · refine absurd (honly inc.seq window.ledgerLen (collisionFree_inclusion.mono ?_) ?_ hok) ?_
    · rw [hself, hseq, hl']
      show ∀ b ∈ inclusionInputs (ofEntries Sample.entries) 1 2 Sample.self1 1 3
        [Sample.leaf0, Sample.node22], b ∈ Sample.inclusionDigests.map Prod.fst
      decide +kernel
    · exact canonical_injOn_sample
    · unfold EvidenceReceipt.Whole
      rw [hs', he', hl']
      decide

end
end Epica
