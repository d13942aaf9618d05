import Epica.Evidence.Receipt
import Epica.Lib.TryFold

/-!
# Verification of receipts

`verify` checks a receipt against a ledger layer by layer; `rebuildLedger` makes a ledger of the
entries that were read from a file.

* `verify_ok_iff`    what an accepted receipt says (`Verified`);
* `seal_then_verify`  what is sealed is accepted, for the ledger and for the one rebuilt from it.
-/

set_option linter.unusedSectionVars false

namespace Epica
open Lib

section
variable [Blake3] [Hex] [Ed25519]

inductive VerificationError where
  | decode (source : EvidenceReceiptError)
  | unsupportedSchemaVersion (version supported : UInt32)
  | invalidRange (start stop ledgerLen : UInt64)
  | ledgerLengthMismatch (recorded current : UInt64)
  | merkleRootMismatch (receipt reconstructed : String)
  | signature (source : Ed25519.SignatureError)
  | inclusion (seq : UInt64)
  | inclusionOutOfBounds (seq : UInt64)
  | inclusionLeafMismatch (seq : UInt64)

structure Ed25519Verifier where
  pubkey : Ed25519.VerifyingKey

namespace Ed25519Verifier

def fromReceipt (receipt : EvidenceReceipt) : Except VerificationError Ed25519Verifier := do
  let pk ← (decodeFixedHex 32 receipt.proverPubkeyHex "prover_pubkey_hex").mapError .decode
  let pubkey ← (Ed25519.fromBytes pk).mapError .signature
  .ok ⟨pubkey⟩

def withPubkey (pubkey : Ed25519.VerifyingKey) : Ed25519Verifier := ⟨pubkey⟩

/-! ## the layers -/

/-- schema, length and range -/
def checkRange (receipt : EvidenceReceipt) (ledger : AuditLedger) :
    Except VerificationError Unit :=
  let ledgerLen : UInt64 := .ofNat ledger.len
  if receipt.metadata.schemaVersion ≠ receiptSchemaVersion then
    .error (.unsupportedSchemaVersion receipt.metadata.schemaVersion receiptSchemaVersion)
  else if receipt.ledgerLen ≠ ledgerLen then
    .error (.ledgerLengthMismatch receipt.ledgerLen ledgerLen)
  else if receipt.endSeq < receipt.startSeq ∨ ledger.len ≤ receipt.endSeq.toNat then
    .error (.invalidRange receipt.startSeq receipt.endSeq ledgerLen)
  else .ok ()

/-- the root reconstructed from the window -/
def checkRoot (receipt : EvidenceReceipt) (reconstructed : Digest) :
    Except VerificationError Unit := do
  let receiptRoot ← (decodeFixedHex 32 receipt.merkleRootHex "merkle_root_hex").mapError .decode
  if reconstructed ≠ receiptRoot then
    .error (.merkleRootMismatch (Hex.encode receiptRoot.toList) (Hex.encode reconstructed.toList))
  else .ok ()

def checkSignature (verifier : Ed25519Verifier) (receipt : EvidenceReceipt)
    (reconstructed : Digest) : Except VerificationError Unit := do
  let pubkeyBytes ←
    (decodeFixedHex 32 receipt.proverPubkeyHex "prover_pubkey_hex").mapError .decode
  let binding := receiptBinding reconstructed receipt.startSeq receipt.endSeq receipt.ledgerLen
    pubkeyBytes receipt.metadata.schemaVersion
  let sigBytes ← (decodeFixedHex 64 receipt.signatureHex "signature_hex").mapError .decode
  (Ed25519.verify verifier.pubkey binding.toList sigBytes).mapError .signature

def checkInclusion (ledger : AuditLedger) (inc : MerkleInclusionProof) :
    Except VerificationError Unit :=
  match ledger.entries[inc.seq.toNat]? with
  | none => .error (.inclusionOutOfBounds inc.seq)
  | some e => do
    let claimedLeaf ←
      (decodeFixedHex 32 inc.selfHashHex "inclusion.self_hash_hex").mapError .decode
    if e.selfHash ≠ claimedLeaf then .error (.inclusionLeafMismatch inc.seq)
    else
      let path ← (inc.pathHex.mapM fun s => decodeFixedHex 32 s "inclusion.path").mapError .decode
      -- the path leads to the root of the whole ledger, not of the window
      let fullRoot := ledger.merkleRoot
      if !verifyMerkleProof claimedLeaf inc.seq (.ofNat ledger.len) path fullRoot then
        .error (.inclusion inc.seq)
      else .ok ()

def verify (verifier : Ed25519Verifier) (receipt : EvidenceReceipt) (ledger : AuditLedger) :
    Except VerificationError Unit := do
  checkRange receipt ledger
  let reconstructed := windowMerkleRoot ledger receipt.startSeq receipt.endSeq
  checkRoot receipt reconstructed
  verifier.checkSignature receipt reconstructed
  receipt.inclusions.forM (checkInclusion ledger)

/-! ## what an accepted receipt says -/

structure Included (ledger : AuditLedger) (inc : MerkleInclusionProof) (e : LedgerEntry)
    (path : List Digest) : Prop where
  entry : ledger.entries[inc.seq.toNat]? = some e
  leafHex : decodeFixedHex 32 inc.selfHashHex "inclusion.self_hash_hex" = .ok e.selfHash
  pathHex : inc.pathHex.mapM (fun s => decodeFixedHex 32 s "inclusion.path") = .ok path
  climbs : verifyMerkleProof e.selfHash inc.seq (.ofNat ledger.len) path ledger.merkleRoot = true

structure Verified (verifier : Ed25519Verifier) (receipt : EvidenceReceipt) (ledger : AuditLedger)
    (key : Vector UInt8 32) (sig : Vector UInt8 64) : Prop where
  schema : receipt.metadata.schemaVersion = receiptSchemaVersion
  len : receipt.ledgerLen = .ofNat ledger.len
  le : receipt.startSeq ≤ receipt.endSeq
  lt : receipt.endSeq.toNat < ledger.len
  rootHex : decodeFixedHex 32 receipt.merkleRootHex "merkle_root_hex" =
    .ok (windowMerkleRoot ledger receipt.startSeq receipt.endSeq)
  keyHex : decodeFixedHex 32 receipt.proverPubkeyHex "prover_pubkey_hex" = .ok key
  sigHex : decodeFixedHex 64 receipt.signatureHex "signature_hex" = .ok sig
  signed : Ed25519.verify verifier.pubkey
    (receiptBinding (windowMerkleRoot ledger receipt.startSeq receipt.endSeq) receipt.startSeq
      receipt.endSeq receipt.ledgerLen key receipt.metadata.schemaVersion).toList sig = .ok ()
  inclusions : ∀ inc ∈ receipt.inclusions, ∃ e path, Included ledger inc e path

theorem checkRange_ok_iff (receipt : EvidenceReceipt) (ledger : AuditLedger) :
    checkRange receipt ledger = .ok () ↔
      receipt.metadata.schemaVersion = receiptSchemaVersion ∧
        receipt.ledgerLen = .ofNat ledger.len ∧ receipt.startSeq ≤ receipt.endSeq ∧
        receipt.endSeq.toNat < ledger.len := by
  unfold checkRange
  simp only [refuse_eq_ok, not_not, not_or, UInt64.not_lt, not_le, and_true]

theorem checkRoot_ok_iff (receipt : EvidenceReceipt) (reconstructed : Digest) :
    checkRoot receipt reconstructed = .ok () ↔
      decodeFixedHex 32 receipt.merkleRootHex "merkle_root_hex" = .ok reconstructed := by
  unfold checkRoot
  rw [bind_eq_ok]
  constructor
  · intro h
    obtain ⟨root, hroot, h⟩ := h
    obtain ⟨heq, -⟩ := refuse_eq_ok.mp h
    rw [not_not.mp heq]
    exact mapError_eq_ok.mp hroot
  · intro h
    exact ⟨reconstructed, mapError_eq_ok.mpr h, refuse_eq_ok.mpr ⟨not_not_intro rfl, rfl⟩⟩

theorem checkSignature_ok_iff (verifier : Ed25519Verifier) (receipt : EvidenceReceipt)
    (reconstructed : Digest) : verifier.checkSignature receipt reconstructed = .ok () ↔
      ∃ key sig, decodeFixedHex 32 receipt.proverPubkeyHex "prover_pubkey_hex" = .ok key ∧
        decodeFixedHex 64 receipt.signatureHex "signature_hex" = .ok sig ∧
        Ed25519.verify verifier.pubkey (receiptBinding reconstructed receipt.startSeq
          receipt.endSeq receipt.ledgerLen key receipt.metadata.schemaVersion).toList sig =
            .ok () := by
  unfold checkSignature
  constructor
  · intro h
    obtain ⟨key, hkey, h⟩ := bind_eq_ok.mp h
    obtain ⟨sig, hsig, h⟩ := bind_eq_ok.mp h
    exact ⟨key, sig, mapError_eq_ok.mp hkey, mapError_eq_ok.mp hsig, mapError_eq_ok.mp h⟩
  · intro h
    obtain ⟨key, sig, hkey, hsig, h⟩ := h
    refine bind_eq_ok.mpr ⟨key, mapError_eq_ok.mpr hkey, ?_⟩
    exact bind_eq_ok.mpr ⟨sig, mapError_eq_ok.mpr hsig, mapError_eq_ok.mpr h⟩

theorem checkInclusion_ok_iff (ledger : AuditLedger) (inc : MerkleInclusionProof) :
    checkInclusion ledger inc = .ok () ↔ ∃ e path, Included ledger inc e path := by
  unfold checkInclusion
  cases he : ledger.entries[inc.seq.toNat]? with
  | none => exact ⟨fun h => (nomatch h), fun ⟨e, path, h⟩ => nomatch he.symm.trans h.entry⟩
  | some e =>
    constructor
    · intro h
      obtain ⟨leaf, hleaf, h⟩ := bind_eq_ok.mp h
      obtain ⟨heq, h⟩ := refuse_eq_ok.mp h
      obtain ⟨path, hpath, h⟩ := bind_eq_ok.mp h
      obtain ⟨hclimb, -⟩ := refuse_eq_ok.mp h
      obtain rfl := not_not.mp heq
      exact ⟨e, path, he, mapError_eq_ok.mp hleaf, mapError_eq_ok.mp hpath, by simpa using hclimb⟩
    · intro h
      obtain ⟨e', path, h⟩ := h
      obtain rfl : e = e' := Option.some.inj (he.symm.trans h.entry)
      refine bind_eq_ok.mpr ⟨e.selfHash, mapError_eq_ok.mpr h.leafHex, ?_⟩
      refine refuse_eq_ok.mpr ⟨not_not_intro rfl, ?_⟩
      refine bind_eq_ok.mpr ⟨path, mapError_eq_ok.mpr h.pathHex, ?_⟩
      refine refuse_eq_ok.mpr ⟨?_, rfl⟩
      rw [h.climbs]
      exact Bool.false_ne_true

/-- **what an accepted receipt says** -/
theorem verify_ok_iff (verifier : Ed25519Verifier) (receipt : EvidenceReceipt)
    (ledger : AuditLedger) : verifier.verify receipt ledger = .ok () ↔
      ∃ key sig, Verified verifier receipt ledger key sig := by
  unfold verify
  constructor
  · intro h
    obtain ⟨_, hrange, h⟩ := bind_eq_ok.mp h
    obtain ⟨_, hroot, h⟩ := bind_eq_ok.mp h
    obtain ⟨_, hsig, h⟩ := bind_eq_ok.mp h
    obtain ⟨hschema, hlen, hle, hlt⟩ := (checkRange_ok_iff receipt ledger).mp hrange
    obtain ⟨key, sig, hkey, hsig, hsigned⟩ := (checkSignature_ok_iff _ _ _).mp hsig
    exact ⟨key, sig, hschema, hlen, hle, hlt, (checkRoot_ok_iff _ _).mp hroot, hkey, hsig, hsigned,
      fun inc hinc => (checkInclusion_ok_iff ledger inc).mp (forM_eq_ok.mp h inc hinc)⟩
  · intro h
    obtain ⟨key, sig, h⟩ := h
    refine bind_eq_ok.mpr ⟨(), (checkRange_ok_iff _ _).mpr ⟨h.schema, h.len, h.le, h.lt⟩, ?_⟩
    refine bind_eq_ok.mpr ⟨(), (checkRoot_ok_iff _ _).mpr h.rootHex, ?_⟩
    refine bind_eq_ok.mpr ⟨(), (checkSignature_ok_iff _ _ _).mpr ⟨key, sig, h.keyHex, h.sigHex,
      h.signed⟩, ?_⟩
    exact forM_eq_ok.mpr fun inc hinc =>
      (checkInclusion_ok_iff ledger inc).mpr (h.inclusions inc hinc)

end Ed25519Verifier
end

/-! ## the ledger read from a file -/

structure CliError where
  msg : String

structure LedgerEntryWire where
  seq : UInt64
  entry : AuditEntry

section
variable [Blake3] [AuditJson]

/-- the loop of `rebuildLedger` from the entry `i` on -/
def rebuildFrom : Nat → AuditLedger → List LedgerEntryWire → Except CliError AuditLedger
  | _, ledger, [] => .ok ledger
  | i, ledger, e :: es =>
    if e.seq ≠ .ofNat i then .error ⟨s!"ledger entry {i} has non-monotonic seq {e.seq}"⟩
    else rebuildFrom (i + 1) (ledger.append e.entry).2 es

def rebuildLedger (entries : List LedgerEntryWire) : Except CliError AuditLedger :=
  rebuildFrom 0 .new entries

/-- what is read of the JSON text of an entry -/
def readWire (e : LedgerEntry) : Option LedgerEntryWire := do
  let text ← AuditJson.toVec e.entry
  let entry ← AuditJson.fromSlice text
  some ⟨e.seq, entry⟩

/-- the texts of the entries, read back -/
def exported (ledger : AuditLedger) : Option (List LedgerEntryWire) :=
  ledger.entries.mapM readWire

/-- the text of an entry is read as an entry with the same text -/
def ReadsBack (e : AuditEntry) : Prop :=
  ∃ text e', AuditJson.toVec e = some text ∧ AuditJson.fromSlice text = some e' ∧
    AuditJson.toVec e' = some text

/-- audit entries with their positions, from `i` on -/
def numbered : Nat → List AuditEntry → List LedgerEntryWire
  | _, [] => []
  | i, e :: es => ⟨.ofNat i, e⟩ :: numbered (i + 1) es

theorem rebuildFrom_numbered (ledger : AuditLedger) (es : List AuditEntry) :
    rebuildFrom ledger.len ledger (numbered ledger.len es) =
      .ok (es.foldl (fun ledger entry => (ledger.append entry).2) ledger) := by
  induction es generalizing ledger with
  | nil => rfl
  | cons e es ih =>
    have hlen : (ledger.append e).2.len = ledger.len + 1 := List.length_append
    have hstep : rebuildFrom ledger.len ledger (numbered ledger.len (e :: es)) =
        rebuildFrom (ledger.len + 1) (ledger.append e).2 (numbered (ledger.len + 1) es) :=
      if_neg (not_not_intro rfl)
    rw [hstep, ← hlen]
    exact ih (ledger.append e).2

theorem readWire_sealFrom (i : Nat) (d : Digest) (es : List AuditEntry)
    (hjson : ∀ e ∈ es, ReadsBack e) :
    ∃ fs, (AuditLedger.sealFrom i d es).mapM readWire = some (numbered i fs) ∧
      fs.map canonical = es.map canonical := by
  induction es generalizing i d with
  | nil => exact ⟨[], rfl, rfl⟩
  | cons e es ih =>
    obtain ⟨text, e', he, hread, he'⟩ := hjson e List.mem_cons_self
    obtain ⟨fs, hfs, hcanon⟩ := ih (i + 1) (hashEntry d e) fun e he =>
      hjson e (List.mem_cons_of_mem _ he)
    have hwire : readWire ⟨.ofNat i, e, d, hashEntry d e⟩ = some ⟨.ofNat i, e'⟩ := by
      unfold readWire
      rw [he]
      show (AuditJson.fromSlice text >>= _) = _
      rw [hread]
      rfl
    have hsame : canonical e' = canonical e := by
      unfold canonical
      rw [he, he']
    refine ⟨e' :: fs, ?_, ?_⟩
    · show (_ :: AuditLedger.sealFrom (i + 1) (hashEntry d e) es).mapM readWire = _
      rw [List.mapM_cons, hwire, hfs]
      rfl
    · rw [List.map_cons, List.map_cons, hsame, hcanon]

/-- the heads of a chain depend on the texts of its entries only -/
theorem chainHeads_canonical (d : Digest) {es fs : List AuditEntry}
    (h : fs.map canonical = es.map canonical) :
    chainHeads hashEntry d fs = chainHeads hashEntry d es := by
  induction es generalizing fs d with
  | nil => rw [List.map_eq_nil_iff.mp h]
  | cons e es ih =>
    cases fs with
    | nil => cases h
    | cons f fs =>
      obtain ⟨hf, hfs⟩ := List.cons.inj h
      have hhash : hashEntry d f = hashEntry d e := by
        unfold hashEntry entryInput
        rw [hf]
      show hashEntry d f :: chainHeads hashEntry (hashEntry d f) fs = _
      rw [hhash, ih (hashEntry d e) hfs]
      rfl

/-- **the rebuilt ledger has the heads of the exported one** -/
theorem rebuildLedger_exported (es : List AuditEntry) (hjson : ∀ e ∈ es, ReadsBack e) :
    ∃ wires rebuilt, exported (.ofEntries es) = some wires ∧ rebuildLedger wires = .ok rebuilt ∧
      rebuilt.entries.map LedgerEntry.selfHash =
        (AuditLedger.ofEntries es).entries.map LedgerEntry.selfHash := by
  obtain ⟨fs, hread, hcanon⟩ := readWire_sealFrom 0 .zero es hjson
  refine ⟨numbered 0 fs, .ofEntries fs, ?_, rebuildFrom_numbered .new fs, ?_⟩
  · unfold exported
    rw [AuditLedger.entries_ofEntries, hread]
  · rw [AuditLedger.entries_ofEntries, AuditLedger.entries_ofEntries,
      AuditLedger.selfHash_sealFrom, AuditLedger.selfHash_sealFrom, chainHeads_canonical _ hcanon]

end

/-! ## what is sealed is accepted -/

section
variable [Blake3] [Hex] [Ed25519]

/-- ledgers with the same heads have the same window roots and root -/
theorem windowMerkleRoot_congr {L L' : AuditLedger} {startSeq endSeq : UInt64}
    (h : L'.entries.map LedgerEntry.selfHash = L.entries.map LedgerEntry.selfHash)
    (hle : startSeq ≤ endSeq) (hlt : endSeq.toNat < L.len) :
    windowMerkleRoot L' startSeq endSeq = windowMerkleRoot L startSeq endSeq := by
  have hlen : L'.len = L.len := by
    have := congrArg List.length h
    rwa [List.length_map, List.length_map] at this
  rw [windowMerkleRoot_eq L' hle (hlen ▸ hlt), windowMerkleRoot_eq L hle hlt]
  unfold windowHeads
  rw [h]

theorem merkleRoot_congr {L L' : AuditLedger}
    (h : L'.entries.map LedgerEntry.selfHash = L.entries.map LedgerEntry.selfHash)
    (hne : L.entries ≠ []) : L'.merkleRoot = L.merkleRoot := by
  have hne' : L'.entries ≠ [] := by
    intro h'
    rw [h', List.map_nil] at h
    exact hne (List.map_eq_nil_iff.mp h.symm)
  rw [AuditLedger.merkleRoot_eq L' hne', AuditLedger.merkleRoot_eq L hne, h]

variable (hhex : ∀ b, Hex.decode (Hex.encode b) = .ok b)
include hhex

theorem mapM_decodeFixedHex (path : List Digest) (field : String) :
    (path.map fun d => Hex.encode d.toList).mapM (fun s => decodeFixedHex 32 s field) =
      .ok path := by
  induction path with
  | nil => rfl
  | cons d path ih =>
    rw [List.map_cons, List.mapM_cons, decodeFixedHex_encode hhex, ih]
    rfl

/-- an attached inclusion proof is accepted, by a ledger with the same heads -/
theorem included_inclusionProof {L L' : AuditLedger} (hlen : L.len < 2 ^ 64)
    (h : L'.entries.map LedgerEntry.selfHash = L.entries.map LedgerEntry.selfHash)
    {seq : UInt64} {inc : MerkleInclusionProof} (hinc : inclusionProof L seq = some inc) :
    ∃ e path, Ed25519Verifier.Included L' inc e path := by
  unfold inclusionProof at hinc
  obtain ⟨proof, hproof, hinc⟩ := Option.bind_eq_some_iff.mp hinc
  obtain ⟨e, he, hinc⟩ := Option.bind_eq_some_iff.mp hinc
  obtain rfl := Option.some.inj hinc
  have hlen' : L'.len = L.len := by
    have hlength := congrArg List.length h
    rwa [List.length_map, List.length_map] at hlength
  have hself : (L'.entries[seq.toNat]?).map LedgerEntry.selfHash = some e.selfHash := by
    rw [← List.getElem?_map, h, List.getElem?_map, he]
    rfl
  obtain ⟨e', he', hself'⟩ := Option.map_eq_some_iff.mp hself
  have hne : L.entries ≠ [] := by
    intro hnil
    rw [hnil] at he
    cases he
  refine ⟨e', proof, he', ?_, mapM_decodeFixedHex hhex proof _, ?_⟩
  · rw [hself']
    exact decodeFixedHex_encode hhex e.selfHash _
  · rw [hself', hlen', merkleRoot_congr h hne]
    exact AuditLedger.verifyMerkleProof_merkleProof L hlen hproof he

/-- a sealed receipt is accepted by every ledger with the same heads -/
theorem verified_of_seal {L L' : AuditLedger} {startSeq endSeq : UInt64}
    {signing : Ed25519.SigningKey} {opts : SealOptions} {sealedAtMs : UInt64}
    {receipt : EvidenceReceipt} (hlen : L.len < 2 ^ 64)
    (hsign : ∀ m, Ed25519.verify (Ed25519.verifyingKey signing) m (Ed25519.sign signing m) = .ok ())
    (h : L'.entries.map LedgerEntry.selfHash = L.entries.map LedgerEntry.selfHash)
    (hseal : sealWithOptions signing L startSeq endSeq opts sealedAtMs = .ok receipt) :
    Ed25519Verifier.verify ⟨Ed25519.verifyingKey signing⟩ receipt L' = .ok () := by
  obtain ⟨hle, hlt⟩ := (sealWithOptions_ok_iff signing L startSeq endSeq opts sealedAtMs).mp
    ⟨receipt, hseal⟩
  unfold sealWithOptions at hseal
  obtain ⟨-, hseal⟩ := refuse_eq_ok.mp hseal
  obtain rfl := Except.ok.inj hseal
  have hlen' : L'.len = L.len := by
    have hlength := congrArg List.length h
    rwa [List.length_map, List.length_map] at hlength
  have hroot := windowMerkleRoot_congr h hle hlt
  rw [Ed25519Verifier.verify_ok_iff]
  refine ⟨_, _, rfl, ?_, hle, ?_, ?_, decodeFixedHex_encode hhex _ _,
    decodeFixedHex_encode hhex _ _, ?_, fun inc hinc => ?_⟩
  · rw [hlen']
  · rw [hlen']
    exact hlt
  · rw [hroot]
    exact decodeFixedHex_encode hhex _ _
  · rw [hroot]
    exact hsign _
  · obtain ⟨seq, -, hinc⟩ := List.mem_filterMap.mp hinc
    exact included_inclusionProof hhex hlen h hinc

variable [AuditJson]

/-- **what is sealed is accepted**, for the ledger and for the one rebuilt from its export; a ledger
is a `Vec` and holds fewer than `2 ^ 64` entries -/
theorem seal_then_verify (es : List AuditEntry) (startSeq endSeq : UInt64)
    (signing : Ed25519.SigningKey) (opts : SealOptions) (sealedAtMs : UInt64)
    (hsign : ∀ m, Ed25519.verify (Ed25519.verifyingKey signing) m (Ed25519.sign signing m) = .ok ())
    (hkey : Ed25519.fromBytes (Ed25519.toBytes (Ed25519.verifyingKey signing)) =
      .ok (Ed25519.verifyingKey signing))
    (hjson : ∀ e ∈ es, ReadsBack e) (hlen : es.length < 2 ^ 64)
    (hle : startSeq ≤ endSeq) (hlt : endSeq.toNat < (AuditLedger.ofEntries es).len) :
    ∃ receipt verifier,
      sealWithOptions signing (.ofEntries es) startSeq endSeq opts sealedAtMs = .ok receipt ∧
      Ed25519Verifier.fromReceipt receipt = .ok verifier ∧
      verifier.verify receipt (.ofEntries es) = .ok () ∧
      ∃ wires rebuilt, exported (.ofEntries es) = some wires ∧
        rebuildLedger wires = .ok rebuilt ∧ verifier.verify receipt rebuilt = .ok () := by
  obtain ⟨receipt, hseal⟩ := (sealWithOptions_ok_iff signing (.ofEntries es) startSeq endSeq opts
    sealedAtMs).mpr ⟨hle, hlt⟩
  obtain ⟨wires, rebuilt, hexport, hrebuild, hheads⟩ := rebuildLedger_exported es hjson
  have hlen' : (AuditLedger.ofEntries es).len < 2 ^ 64 := by
    show (AuditLedger.ofEntries es).entries.length < 2 ^ 64
    rwa [AuditLedger.length_ofEntries]
  have hfrom : Ed25519Verifier.fromReceipt receipt = .ok ⟨Ed25519.verifyingKey signing⟩ := by
    have hreceipt := hseal
    unfold sealWithOptions at hreceipt
    obtain ⟨-, hreceipt⟩ := refuse_eq_ok.mp hreceipt
    obtain rfl := Except.ok.inj hreceipt
    refine bind_eq_ok.mpr ⟨_, mapError_eq_ok.mpr (decodeFixedHex_encode hhex _ _), ?_⟩
    exact bind_eq_ok.mpr ⟨_, mapError_eq_ok.mpr hkey, rfl⟩
  exact ⟨receipt, _, hseal, hfrom, verified_of_seal hhex hlen' hsign rfl hseal, wires, rebuilt,
    hexport, hrebuild, verified_of_seal hhex hlen' hsign hheads hseal⟩

end

/-! ## a sample

The window of the last two of the three sample entries, sealed with a key of which the public half
and the signature of the window's binding are given.
-/

namespace Sample

def hexDigit (n : Nat) : Char := "0123456789abcdef".toList.getD n '0'

def hexValue (c : Char) : Option Nat := "0123456789abcdef".toList.idxOf? c

def decodeChars : List Char → Except Unit (List UInt8)
  | [] => .ok []
  | [_] => .error ()
  | c :: d :: cs =>
    match hexValue c, hexValue d with
    | some high, some low => (decodeChars cs).map (.ofNat (16 * high + low) :: ·)
    | _, _ => .error ()

@[reducible] def hex : Hex where
  FromHexError := Unit
  encode b := .ofList (b.flatMap fun x => [hexDigit (x.toNat / 16), hexDigit (x.toNat % 16)])
  decode s := decodeChars s.toList

theorem hexValue_hexDigit (n : Nat) (hn : n < 16) : hexValue (hexDigit n) = some n :=
  (by decide +kernel : ∀ n < 16, hexValue (hexDigit n) = some n) n hn

theorem decode_encode (b : List UInt8) : hex.decode (hex.encode b) = .ok b := by
  show decodeChars (String.ofList _).toList = _
  rw [String.toList_ofList]
  induction b with
  | nil => rfl
  | cons x b ih =>
    have hx := x.toNat_lt
    have hhigh := hexValue_hexDigit (x.toNat / 16) (by omega)
    have hlow := hexValue_hexDigit (x.toNat % 16) (by omega)
    have hbyte : UInt8.ofNat (16 * (x.toNat / 16) + x.toNat % 16) = x := by
      rw [Nat.div_add_mod]
      exact UInt8.ofNat_toNat
    show decodeChars (hexDigit (x.toNat / 16) :: hexDigit (x.toNat % 16) :: b.flatMap _) = _
    rw [decodeChars, hhigh, hlow]
    show (decodeChars _).map _ = _
    rw [ih, hbyte]
    rfl

def node12 : Digest := digest 0xc158a784aefd82c06dbc0c3d45c7c5e1f6bab5a8a73d29475e6253299e76961b
def pubkey : Digest := digest 0xd75a980182b10ab7d54bfed3c964073a0ee172f3daa62325af021a68f707511a
def binding12 : Digest := digest 0x6386b62973b6430c1b2e32cbbf1cdeecccb36001af159b3841cb352becd37158

/-- the two halves of the signature of `binding12` -/
def signature12 : Vector UInt8 64 :=
  digest 0x4174ab8182f0d085fe483c96a3172424f904f2d1d55d6e453393af85cafd5b69 ++
    digest 0x255a1db039a13acc85399910e9c722a3a325e60fd1ffa938d28ddaae9c5c870f

def evidenceDigests : List (List UInt8 × Digest) :=
  digests ++ [(nodeInput leaf1 leaf2, node12), (bindingInput node12 1 2 3 pubkey 1, binding12)]

@[reducible] def evidenceBlake3 : Blake3 where
  hash := lookup evidenceDigests

def signMessage (m : List UInt8) : Vector UInt8 64 :=
  if m = binding12.toList then signature12 else .replicate 64 0

@[reducible] def ed25519 : Ed25519 where
  SigningKey := Unit
  VerifyingKey := Unit
  SignatureError := Unit
  verifyingKey _ := ()
  toBytes _ := pubkey
  fromBytes b := if b = pubkey then .ok () else .error ()
  sign _ m := signMessage m
  verify _ m sig := if sig = signMessage m then .ok () else .error ()

end Sample

section
attribute [local instance] Sample.evidenceBlake3 Sample.json Sample.hex Sample.ed25519

/-- the window of the last two entries, with inclusions that come twice and out of range -/
theorem seal_then_verify_sample :
    let ledger := AuditLedger.ofEntries Sample.entries
    ∃ receipt verifier,
      sealWithOptions () ledger 1 2 ⟨some "batch", [2, 0, 2, 99]⟩ 1700000000000 = .ok receipt ∧
      Ed25519Verifier.fromReceipt receipt = .ok verifier ∧
      verifier.verify receipt ledger = .ok () ∧
      ∃ wires rebuilt, exported ledger = some wires ∧ rebuildLedger wires = .ok rebuilt ∧
        verifier.verify receipt rebuilt = .ok () :=
  seal_then_verify Sample.decode_encode Sample.entries 1 2 () ⟨some "batch", [2, 0, 2, 99]⟩
    1700000000000 (fun _ => if_pos rfl) (if_pos rfl)
    (fun e he => ⟨canonical e, e,
      (by decide +kernel : ∀ e ∈ Sample.entries, AuditJson.toVec e = some (canonical e) ∧
        AuditJson.fromSlice (canonical e) = some e ∧
        AuditJson.toVec e = some (canonical e)) e he⟩)
    (by decide) (by decide) (by decide +kernel)

end
end Epica
