import Epica.Evidence.Verifier

/-!
# What an accepted receipt proves

A receipt that is accepted for a trusted key was sealed by its owner, of a ledger that agrees with
the verified one up to the end of the window, from the first entry on (`receipt_authentic`).

The owner has sealed the windows in `sealings` and signed the messages in `signed`.  BLAKE3 is asked
to have no collision among the strings that these sealings and the verification hash.
-/

set_option linter.unusedSectionVars false

namespace Epica
open Lib AuditLedger

/-! ## prefixes of a ledger -/

section
variable [Blake3] [AuditJson]

theorem take_sealFrom (i : Nat) (d : Digest) (es : List AuditEntry) (n : Nat) :
    (sealFrom i d es).take n = sealFrom i d (es.take n) := by
  induction es generalizing i d n with
  | nil =>
    show List.take n [] = sealFrom i d (List.take n [])
    rw [List.take_nil, List.take_nil]
    rfl
  | cons e es ih =>
    cases n with
    | zero => rfl
    | succ n => exact congrArg (_ :: ·) (ih (i + 1) (hashEntry d e) n)

/-- ledgers of which a first part has the same audit entries have the same first part -/
theorem getElem?_of_take_eq {es fs : List AuditEntry} {n i : Nat} (hi : i < n)
    (h : es.take n = fs.take n) : (ofEntries es).entries[i]? = (ofEntries fs).entries[i]? := by
  have htake : (ofEntries es).entries.take n = (ofEntries fs).entries.take n := by
    rw [entries_ofEntries, entries_ofEntries, take_sealFrom, take_sealFrom, h]
  rw [← List.getElem?_take_of_lt hi, htake, List.getElem?_take_of_lt hi]

/-- the head at a position is that of the entries up to it -/
theorem getElem?_selfHash (es : List AuditEntry) {i : Nat} (hi : i < es.length) :
    ((ofEntries es).entries.map LedgerEntry.selfHash)[i]? =
      some (chainHead hashEntry .zero (es.take (i + 1))) := by
  rw [entries_ofEntries, selfHash_sealFrom]
  exact getElem?_chainHeads hashEntry .zero es i hi

theorem getElem?_windowHeads (ledger : AuditLedger) {startSeq endSeq : UInt64}
    (hle : startSeq ≤ endSeq) :
    (windowHeads ledger startSeq endSeq)[endSeq.toNat - startSeq.toNat]? =
      (ledger.entries.map LedgerEntry.selfHash)[endSeq.toNat]? := by
  have hle' := UInt64.le_iff_toNat_le.mp hle
  have hpos : startSeq.toNat + (endSeq.toNat - startSeq.toNat) = endSeq.toNat := by omega
  unfold windowHeads
  rw [List.getElem?_drop, hpos, List.getElem?_take_of_lt (Nat.lt_succ_self _)]

end

/-! ## sealings -/

/-- the audit entries of a ledger, and the window of it that is sealed -/
structure Sealing where
  entries : List AuditEntry
  startSeq : UInt64
  endSeq : UInt64

section
variable [Blake3] [AuditJson]

/-- the strings that sealing a window, or verifying it, hashes -/
def sealInputs (ledger : AuditLedger) (startSeq endSeq : UInt64) (key : Vector UInt8 32) :
    List (List UInt8) :=
  chainInputs ledger.entries ++ treeInputs (windowHeads ledger startSeq endSeq) ++
    [bindingInput (windowMerkleRoot ledger startSeq endSeq) startSeq endSeq (.ofNat ledger.len) key
      receiptSchemaVersion]

/-- the last head of a window is that of the entries up to its end -/
theorem last_windowHeads {es : List AuditEntry} {startSeq endSeq : UInt64}
    (hle : startSeq ≤ endSeq) (hlt : endSeq.toNat < (ofEntries es).len) :
    (windowHeads (ofEntries es) startSeq endSeq)[endSeq.toNat - startSeq.toNat]? =
      some (chainHead hashEntry .zero (es.take (endSeq.toNat + 1))) := by
  have hlen : endSeq.toNat < es.length := length_ofEntries es ▸ hlt
  rw [getElem?_windowHeads _ hle, getElem?_selfHash es hlen]

theorem windowHeads_ne_nil {es : List AuditEntry} {startSeq endSeq : UInt64}
    (hle : startSeq ≤ endSeq) (hlt : endSeq.toNat < (ofEntries es).len) :
    windowHeads (ofEntries es) startSeq endSeq ≠ [] := by
  intro hnil
  have hsome := last_windowHeads hle hlt
  rw [hnil] at hsome
  cases hsome

theorem nodup_windowHeads {strings : Set (List UInt8)} {recorded : Set AuditEntry}
    (hfree : CollisionFree strings) (hjson : Set.InjOn canonical recorded) {es : List AuditEntry}
    (hes : ∀ b ∈ chainInputs (ofEntries es).entries, b ∈ strings) (hes' : ∀ e ∈ es, e ∈ recorded)
    (startSeq endSeq : UInt64) : (windowHeads (ofEntries es) startSeq endSeq).Nodup := by
  have hall := nodup_selfHash hfree hjson hes hes'
  exact (hall.sublist (List.take_sublist _ _)).sublist (List.drop_sublist _ _)

/-- **the window's root determines the ledger up to the end of the window** -/
theorem take_eq_of_windowMerkleRoot {strings : Set (List UInt8)} {recorded : Set AuditEntry}
    (hfree : CollisionFree strings) (hjson : Set.InjOn canonical recorded) {es fs : List AuditEntry}
    {startSeq endSeq : UInt64} {key key' : Vector UInt8 32}
    (hes : ∀ b ∈ sealInputs (ofEntries es) startSeq endSeq key, b ∈ strings)
    (hes' : ∀ e ∈ es, e ∈ recorded)
    (hfs : ∀ b ∈ sealInputs (ofEntries fs) startSeq endSeq key', b ∈ strings)
    (hfs' : ∀ e ∈ fs, e ∈ recorded) (hle : startSeq ≤ endSeq)
    (hlt : endSeq.toNat < (ofEntries es).len) (hlt' : endSeq.toNat < (ofEntries fs).len)
    (h : windowMerkleRoot (ofEntries es) startSeq endSeq =
      windowMerkleRoot (ofEntries fs) startSeq endSeq) :
    es.take (endSeq.toNat + 1) = fs.take (endSeq.toNat + 1) := by
  have hchain : ∀ {gs : List AuditEntry} {k : Vector UInt8 32},
      (∀ b ∈ sealInputs (ofEntries gs) startSeq endSeq k, b ∈ strings) →
      ∀ b ∈ chainInputs (ofEntries gs).entries, b ∈ strings := fun hin b hb =>
    hin b (List.mem_append_left _ (List.mem_append_left _ hb))
  have htree : ∀ {gs : List AuditEntry} {k : Vector UInt8 32},
      (∀ b ∈ sealInputs (ofEntries gs) startSeq endSeq k, b ∈ strings) →
      ∀ b ∈ treeInputs (windowHeads (ofEntries gs) startSeq endSeq), b ∈ strings := fun hin b hb =>
    hin b (List.mem_append_left _ (List.mem_append_right _ hb))
  rw [windowMerkleRoot_eq _ hle hlt, windowMerkleRoot_eq _ hle hlt'] at h
  have hheads := treeRoot_injective hfree (htree hes) (htree hfs)
    (windowHeads_ne_nil hle hlt) (windowHeads_ne_nil hle hlt')
    (nodup_windowHeads hfree hjson (hchain hes) hes' startSeq endSeq)
    (nodup_windowHeads hfree hjson (hchain hfs) hfs' startSeq endSeq) h
  have hhead : chainHead hashEntry .zero (es.take (endSeq.toNat + 1)) =
      chainHead hashEntry .zero (fs.take (endSeq.toNat + 1)) := by
    have hsome := last_windowHeads hle hlt
    rw [hheads, last_windowHeads hle hlt'] at hsome
    exact (Option.some.inj hsome).symm
  refine head_injective (linked_of_collisionFree hfree hjson) (fun p hp => ?_) (fun p hp => ?_)
    hhead
  · obtain ⟨h₁, h₂⟩ := mem_of_mem_chainLinks (chainLinks_take hashEntry .zero es _ p hp)
    exact ⟨hchain hes _ h₁, hes' _ h₂⟩
  · obtain ⟨h₁, h₂⟩ := mem_of_mem_chainLinks (chainLinks_take hashEntry .zero fs _ p hp)
    exact ⟨hchain hfs _ h₁, hfs' _ h₂⟩

variable [Hex] [Ed25519]

/-- `s` was sealed with the key `K`, which signs `m` -/
def SealedBy (K : Ed25519.VerifyingKey) (s : Sealing) (m : List UInt8) : Prop :=
  ∃ signing opts sealedAtMs receipt, Ed25519.verifyingKey signing = K ∧
    sealWithOptions signing (.ofEntries s.entries) s.startSeq s.endSeq opts sealedAtMs =
      .ok receipt ∧
    m = (sealBinding signing (.ofEntries s.entries) s.startSeq s.endSeq).toList

/-- the strings that the sealings with `K` and the verification of `receipt` hash -/
def inPlay (K : Ed25519.VerifyingKey) (sealings : Set Sealing) (receipt : EvidenceReceipt)
    (ledger : AuditLedger) : Set (List UInt8) :=
  {b | (∃ s ∈ sealings, b ∈ sealInputs (.ofEntries s.entries) s.startSeq s.endSeq
      (Ed25519.toBytes K)) ∨
    ∃ key, decodeFixedHex 32 receipt.proverPubkeyHex "prover_pubkey_hex" = .ok key ∧
      b ∈ sealInputs ledger receipt.startSeq receipt.endSeq key}

/-- the audit entries of the sealed ledgers and of the verified one -/
def recorded (sealings : Set Sealing) (es : List AuditEntry) : Set AuditEntry :=
  {e | (∃ s ∈ sealings, e ∈ s.entries) ∨ e ∈ es}

/-- **an accepted receipt is authentic**: the owner of the trusted key, who signs only what sealing
a window binds, has sealed this window of a ledger with the same entries up to the window's end -/
theorem receipt_authentic (K : Ed25519.VerifyingKey) (sealings : Set Sealing)
    (signed : Set (List UInt8)) (receipt : EvidenceReceipt) (es : List AuditEntry)
    (hhonest : ∀ m ∈ signed, ∃ s ∈ sealings, SealedBy K s m)
    (hunforgeable : ∀ sig, decodeFixedHex 64 receipt.signatureHex "signature_hex" = .ok sig →
      ∀ m, Ed25519.verify K m sig = .ok () → m ∈ signed)
    (hfree : CollisionFree (inPlay K sealings receipt (.ofEntries es)))
    (hjson : Set.InjOn canonical (recorded sealings es))
    (h : (Ed25519Verifier.withPubkey K).verify receipt (.ofEntries es) = .ok ()) :
    ∃ s ∈ sealings, (∃ m, SealedBy K s m) ∧ s.startSeq = receipt.startSeq ∧
      s.endSeq = receipt.endSeq ∧ .ofNat (ofEntries s.entries).len = receipt.ledgerLen ∧
      decodeFixedHex 32 receipt.proverPubkeyHex "prover_pubkey_hex" = .ok (Ed25519.toBytes K) ∧
      ∀ i ≤ receipt.endSeq.toNat,
        (ofEntries s.entries).entries[i]? = (ofEntries es).entries[i]? := by
  obtain ⟨key, sig, hv⟩ := (Ed25519Verifier.verify_ok_iff _ _ _).mp h
  obtain ⟨s, hs, hsealed⟩ := hhonest _ (hunforgeable sig hv.sigHex _ hv.signed)
  obtain ⟨signing, opts, sealedAtMs, sealedReceipt, hK, hseal, hbinding⟩ := id hsealed
  obtain ⟨-, hltS⟩ := (sealWithOptions_ok_iff signing _ _ _ opts sealedAtMs).mp ⟨_, hseal⟩
  have hinS : ∀ b ∈ sealInputs (ofEntries s.entries) s.startSeq s.endSeq (Ed25519.toBytes K),
      b ∈ inPlay K sealings receipt (.ofEntries es) := fun b hb => .inl ⟨s, hs, hb⟩
  have hinL : ∀ b ∈ sealInputs (ofEntries es) receipt.startSeq receipt.endSeq key,
      b ∈ inPlay K sealings receipt (.ofEntries es) := fun b hb => .inr ⟨key, hv.keyHex, hb⟩
  have hdigest := Vector.toList_inj.mp hbinding
  unfold sealBinding receiptBinding at hdigest
  rw [hv.schema, hv.len, hK] at hdigest
  have hinput := hfree.inj (hinL _ (List.mem_append_right _ (List.mem_singleton.mpr rfl)))
    (hinS _ (List.mem_append_right _ (List.mem_singleton.mpr rfl))) hdigest
  obtain ⟨hroot, hstart, hstop, hlen, rfl⟩ := bindingInput_injective hinput
  rw [← hstart, ← hstop] at hroot hinS
  rw [← hstop] at hltS
  have htake := take_eq_of_windowMerkleRoot hfree hjson hinS (fun e he => .inl ⟨s, hs, he⟩) hinL
    (fun e he => .inr he) hv.le hltS hv.lt hroot.symm
  exact ⟨s, hs, ⟨_, hsealed⟩, hstart.symm, hstop.symm, hlen.symm.trans hv.len.symm, hv.keyHex,
    fun i hi => getElem?_of_take_eq (Nat.lt_succ_of_le hi) htake⟩

end

section
attribute [local instance] Sample.evidenceBlake3 Sample.json Sample.hex Sample.ed25519

theorem collisionFree_evidence :
    CollisionFree {b | b ∈ Sample.evidenceDigests.map Prod.fst} :=
  collisionFree_lookup (by decide +kernel) (by decide +kernel)

theorem sealInputs_sample : ∀ b ∈ sealInputs (ofEntries Sample.entries) 1 2 Sample.pubkey,
    b ∈ Sample.evidenceDigests.map Prod.fst := by
  decide +kernel

/-- the sample window, sealed by its owner and verified against the same ledger -/
theorem receipt_authentic_sample : ∃ receipt,
    (Ed25519Verifier.withPubkey ()).verify receipt (ofEntries Sample.entries) = .ok () ∧
    ∃ s ∈ ({⟨Sample.entries, 1, 2⟩} : Set Sealing), (∃ m, SealedBy () s m) ∧
      s.startSeq = receipt.startSeq ∧ s.endSeq = receipt.endSeq ∧
      .ofNat (ofEntries s.entries).len = receipt.ledgerLen ∧
      decodeFixedHex 32 receipt.proverPubkeyHex "prover_pubkey_hex" = .ok Sample.pubkey ∧
      ∀ i ≤ receipt.endSeq.toNat,
        (ofEntries s.entries).entries[i]? = (ofEntries Sample.entries).entries[i]? := by
  obtain ⟨receipt, hseal⟩ := (sealWithOptions_ok_iff () (ofEntries Sample.entries) 1 2
    ⟨none, [0]⟩ 1700000000000).mpr (by decide +kernel)
  have hverify := verified_of_seal Sample.decode_encode (by decide +kernel)
    (fun _ => if_pos rfl) rfl hseal
  have hbinding : sealBinding () (ofEntries Sample.entries) 1 2 = Sample.binding12 := by
    decide +kernel
  have hmade := hseal
  unfold sealWithOptions at hmade
  obtain ⟨-, hmade⟩ := refuse_eq_ok.mp hmade
  rw [hbinding] at hmade
  refine ⟨receipt, hverify, receipt_authentic () {⟨Sample.entries, 1, 2⟩}
    {Sample.binding12.toList} receipt Sample.entries ?_ ?_ ?_ ?_ hverify⟩
  · intro m hm
    exact ⟨_, rfl, (), _, _, receipt, rfl, hseal, hm.trans (congrArg Vector.toList hbinding.symm)⟩
  · intro sig hsig m hm
    have hsig' : sig = Sample.signMessage m := by
      by_contra hne
      exact nomatch (if_neg hne).symm.trans hm
    obtain rfl := Except.ok.inj hmade
    rw [decodeFixedHex_encode Sample.decode_encode] at hsig
    obtain rfl := Except.ok.inj hsig
    by_contra hm'
    have hzero : Sample.signMessage m = .replicate 64 0 := if_neg hm'
    have hsigned : Sample.signMessage Sample.binding12.toList = Sample.signature12 := if_pos rfl
    exact absurd (hsigned.symm.trans (hsig'.trans hzero)) (by decide +kernel)
  · refine collisionFree_evidence.mono fun b hb => ?_
    rcases hb with ⟨s, rfl, hb⟩ | ⟨key, hkey, hb⟩
    · exact sealInputs_sample b hb
    · obtain rfl := Except.ok.inj hmade
      rw [decodeFixedHex_encode Sample.decode_encode] at hkey
      obtain rfl := Except.ok.inj hkey
      exact sealInputs_sample b hb
  · refine canonical_injOn_sample.mono fun e he => ?_
    rcases he with ⟨s, rfl, he⟩ | he
    · exact he
    · exact he

end
end Epica
