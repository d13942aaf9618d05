import Epica.Contracts.LedgerLaws

/-!
# Evidence receipts and their prover

A receipt commits to a window of a ledger: the Merkle root of the window, its range, the length of
the ledger and the prover's key, signed.  `Hex` and `Ed25519` are parameters.

* `bindingInput_injective`   the bytes that are hashed and signed determine all these fields;
* `windowMerkleRoot_eq`      the window's root is that of the hash tree over its `selfHash` values;
* `sealWithOptions_ok_iff`   when a window is sealed, and what is signed.
-/

set_option linter.unusedSectionVars false

namespace Epica
open Lib

/-! ## hex and signatures -/

class Hex where
  FromHexError : Type
  encode : List UInt8 → String
  decode : String → Except FromHexError (List UInt8)

class Ed25519 where
  SigningKey : Type
  VerifyingKey : Type
  SignatureError : Type
  verifyingKey : SigningKey → VerifyingKey
  toBytes : VerifyingKey → Vector UInt8 32
  fromBytes : Vector UInt8 32 → Except SignatureError VerifyingKey
  sign : SigningKey → List UInt8 → Vector UInt8 64
  verify : VerifyingKey → List UInt8 → Vector UInt8 64 → Except SignatureError Unit

/-! ## receipts -/

structure ReceiptMetadata where
  label : Option String
  sealedAtMs : UInt64
  schemaVersion : UInt32

structure MerkleInclusionProof where
  seq : UInt64
  selfHashHex : String
  pathHex : List String

structure EvidenceReceipt where
  metadata : ReceiptMetadata
  merkleRootHex : String
  startSeq : UInt64
  endSeq : UInt64
  ledgerLen : UInt64
  proverPubkeyHex : String
  signatureHex : String
  inclusions : List MerkleInclusionProof

def receiptSchemaVersion : UInt32 := 1

inductive EvidenceReceiptError [Hex] where
  | hex (field : String) (source : Hex.FromHexError)
  | invalidLength (field : String) (expected got : Nat)

def decodeFixedHex [Hex] (N : Nat) (hexStr field : String) :
    Except EvidenceReceiptError (Vector UInt8 N) :=
  match Hex.decode hexStr with
  | .error source => .error (.hex field source)
  | .ok raw =>
    if h : raw.length = N then .ok ⟨raw.toArray, h⟩
    else .error (.invalidLength field N raw.length)

/-- decoding what was encoded, in a field of the right length -/
theorem decodeFixedHex_encode [Hex] (hhex : ∀ b, Hex.decode (Hex.encode b) = .ok b) {N : Nat}
    (v : Vector UInt8 N) (field : String) :
    decodeFixedHex N (Hex.encode v.toList) field = .ok v := by
  have hlen : v.toList.length = N := Vector.length_toList
  unfold decodeFixedHex
  rw [hhex]
  show (if h : v.toList.length = N then _ else _) = _
  rw [dif_pos hlen]
  exact congrArg Except.ok (Vector.toArray_inj.mp Array.toArray_toList)

/-! ## the signed bytes -/

/-- `n` in `w` bytes, the lowest first -/
def leBytes : Nat → Nat → List UInt8
  | 0, _ => []
  | w + 1, n => .ofNat n :: leBytes w (n / 256)

theorem length_leBytes (w n : Nat) : (leBytes w n).length = w := by
  induction w generalizing n with
  | zero => rfl
  | succ w ih => exact congrArg (· + 1) (ih (n / 256))

theorem leBytes_injective (w : Nat) {n m : Nat} (hn : n < 256 ^ w) (hm : m < 256 ^ w)
    (h : leBytes w n = leBytes w m) : n = m := by
  induction w generalizing n m with
  | zero => omega
  | succ w ih =>
    obtain ⟨hlow, hhigh⟩ := List.cons.inj h
    have hlow' : n % 256 = m % 256 := by
      have hto := congrArg UInt8.toNat hlow
      rwa [UInt8.toNat_ofNat', UInt8.toNat_ofNat'] at hto
    have hdiv : n / 256 = m / 256 := by
      refine ih ?_ ?_ hhigh
      · rw [Nat.pow_succ] at hn
        omega
      · rw [Nat.pow_succ] at hm
        omega
    omega

def u64LeBytes (n : UInt64) : List UInt8 := leBytes 8 n.toNat
def u32LeBytes (n : UInt32) : List UInt8 := leBytes 4 n.toNat

theorem u64LeBytes_injective {n m : UInt64} (h : u64LeBytes n = u64LeBytes m) : n = m :=
  UInt64.toNat_inj.mp (leBytes_injective 8 n.toNat_lt m.toNat_lt h)

def bindingInput (merkleRoot : Digest) (startSeq endSeq ledgerLen : UInt64)
    (proverPubkey : Vector UInt8 32) (schemaVersion : UInt32) : List UInt8 :=
  asciiBytes "epica-evidence-receipt-v1\x00" ++ (merkleRoot.toList ++ (u64LeBytes startSeq ++
    (u64LeBytes endSeq ++ (u64LeBytes ledgerLen ++ (proverPubkey.toList ++
      u32LeBytes schemaVersion)))))

def receiptBinding [Blake3] (merkleRoot : Digest) (startSeq endSeq ledgerLen : UInt64)
    (proverPubkey : Vector UInt8 32) (schemaVersion : UInt32) : Digest :=
  Blake3.hash (bindingInput merkleRoot startSeq endSeq ledgerLen proverPubkey schemaVersion)

/-- **the signed bytes determine the fields they are made of** -/
theorem bindingInput_injective {root root' : Digest} {start start' stop stop' len len' : UInt64}
    {key key' : Vector UInt8 32} {version version' : UInt32}
    (h : bindingInput root start stop len key version =
      bindingInput root' start' stop' len' key' version') :
    root = root' ∧ start = start' ∧ stop = stop' ∧ len = len' ∧ key = key' := by
  have hu64 : ∀ n m : UInt64, (u64LeBytes n).length = (u64LeBytes m).length := fun n m =>
    (length_leBytes 8 n.toNat).trans (length_leBytes 8 m.toNat).symm
  unfold bindingInput at h
  obtain ⟨hroot, h⟩ := Digest.append_inj (List.append_cancel_left h)
  obtain ⟨hstart, h⟩ := List.append_inj h (hu64 _ _)
  obtain ⟨hstop, h⟩ := List.append_inj h (hu64 _ _)
  obtain ⟨hlen, h⟩ := List.append_inj h (hu64 _ _)
  exact ⟨hroot, u64LeBytes_injective hstart, u64LeBytes_injective hstop,
    u64LeBytes_injective hlen, (Digest.append_inj h).1⟩

/-! ## the prover -/

def windowMerkleRoot [Blake3] (ledger : AuditLedger) (startSeq endSeq : UInt64) : Digest :=
  let s := startSeq.toNat
  let e := endSeq.toNat
  if ledger.len ≤ e ∨ e < s then .zero
  else
    let level := ((ledger.entries.take (e + 1)).drop s).map fun e =>
      Blake3.hash (0 :: e.selfHash.toList)
    (reduce (fun l r => Blake3.hash (1 :: (l.toList ++ r.toList))) level.length level).getD 0 default

inductive ProverError where
  | invalidRange (start stop ledgerLen : UInt64)

structure SealOptions where
  label : Option String
  inclusions : List UInt64

section
variable [Blake3] [Hex] [Ed25519]

/-- what is signed -/
def sealBinding (signing : Ed25519.SigningKey) (ledger : AuditLedger) (startSeq endSeq : UInt64) :
    Digest :=
  receiptBinding (windowMerkleRoot ledger startSeq endSeq) startSeq endSeq (.ofNat ledger.len)
    (Ed25519.toBytes (Ed25519.verifyingKey signing)) receiptSchemaVersion

/-- the inclusion proof of one entry of the whole ledger -/
def inclusionProof (ledger : AuditLedger) (seq : UInt64) : Option MerkleInclusionProof := do
  let proof ← ledger.merkleProof seq
  let entry ← ledger.entries[seq.toNat]?
  some {
    seq := seq
    selfHashHex := Hex.encode entry.selfHash.toList
    pathHex := proof.map fun d => Hex.encode d.toList }

/-- `sealedAtMs` is the time at sealing -/
def sealWithOptions (signing : Ed25519.SigningKey) (ledger : AuditLedger)
    (startSeq endSeq : UInt64) (opts : SealOptions) (sealedAtMs : UInt64) :
    Except ProverError EvidenceReceipt :=
  let ledgerLen : UInt64 := .ofNat ledger.len
  if endSeq < startSeq ∨ ledger.len ≤ endSeq.toNat then
    .error (.invalidRange startSeq endSeq ledgerLen)
  else
    let merkleRoot := windowMerkleRoot ledger startSeq endSeq
    let pubkey := Ed25519.toBytes (Ed25519.verifyingKey signing)
    let binding := sealBinding signing ledger startSeq endSeq
    let signature := Ed25519.sign signing binding.toList
    .ok {
      metadata := { label := opts.label, sealedAtMs, schemaVersion := receiptSchemaVersion }
      merkleRootHex := Hex.encode merkleRoot.toList
      startSeq, endSeq, ledgerLen
      proverPubkeyHex := Hex.encode pubkey.toList
      signatureHex := Hex.encode signature.toList
      inclusions := opts.inclusions.filterMap (inclusionProof ledger) }

end

/-! ## a window is a part of the heads -/

/-- the `selfHash` values of a window -/
def windowHeads (ledger : AuditLedger) (startSeq endSeq : UInt64) : List Digest :=
  ((ledger.entries.map LedgerEntry.selfHash).take (endSeq.toNat + 1)).drop startSeq.toNat

theorem windowMerkleRoot_eq [Blake3] (ledger : AuditLedger) {startSeq endSeq : UInt64}
    (hle : startSeq ≤ endSeq) (hlt : endSeq.toNat < ledger.len) :
    windowMerkleRoot ledger startSeq endSeq =
      AuditLedger.treeRoot (windowHeads ledger startSeq endSeq) := by
  have hle' := UInt64.le_iff_toNat_le.mp hle
  have hrange : ¬ (ledger.len ≤ endSeq.toNat ∨ endSeq.toNat < startSeq.toNat) := by omega
  have hlevel : ((ledger.entries.take (endSeq.toNat + 1)).drop startSeq.toNat).map
      (fun e => Blake3.hash (0 :: e.selfHash.toList)) =
        (windowHeads ledger startSeq endSeq).map leafHash := by
    unfold windowHeads
    rw [← List.map_take, ← List.map_drop, List.map_map]
    rfl
  unfold windowMerkleRoot AuditLedger.treeRoot
  rw [← hlevel]
  exact if_neg hrange

/-- **when a window is sealed** -/
theorem sealWithOptions_ok_iff [Blake3] [Hex] [Ed25519] (signing : Ed25519.SigningKey)
    (ledger : AuditLedger) (startSeq endSeq : UInt64) (opts : SealOptions) (sealedAtMs : UInt64) :
    (∃ receipt, sealWithOptions signing ledger startSeq endSeq opts sealedAtMs = .ok receipt) ↔
      startSeq ≤ endSeq ∧ endSeq.toNat < ledger.len := by
  unfold sealWithOptions
  by_cases h : endSeq < startSeq ∨ ledger.len ≤ endSeq.toNat
  · rw [if_pos h]
    refine ⟨fun ⟨_, hok⟩ => (nomatch hok), fun ⟨hle, hlt⟩ => ?_⟩
    rcases h with h | h
    · exact absurd h (UInt64.not_lt.mpr hle)
    · omega
  · rw [if_neg h]
    obtain ⟨hle, hlt⟩ := not_or.mp h
    exact ⟨fun _ => ⟨UInt64.not_lt.mp hle, Nat.lt_of_not_le hlt⟩, fun _ => ⟨_, rfl⟩⟩

end Epica
