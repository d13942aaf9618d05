import Epica.Lib.HashChain
import Epica.Lib.HashTree
import Epica.Contracts.Contract

/-!
# The audit ledger

A `LedgerEntry` seals an audit entry: its position, the `selfHash` before it, and the hash of both.
`merkleRoot` is a hash tree over the `selfHash` values.  `hash` (BLAKE3) and `toVec` (the JSON
text of an audit entry) are parameters; a digest is 32 bytes.

* `entries_ofEntries`    what `append` builds is the chain of the audit entries;
* `verifyChain_ok_iff`   the entries that `verifyChain` accepts are those `append` builds.
-/

set_option linter.unusedSectionVars false

namespace Epica
open Lib

/-! ## digests -/

abbrev Digest := Vector UInt8 32

def Digest.zero : Digest := Vector.replicate 32 0

class Blake3 where
  hash : List UInt8 → Digest

/-- the bytes of a text in ASCII -/
def asciiBytes (s : String) : List UInt8 := s.toList.map fun c => .ofNat c.toNat

/-- `serde_json` on audit entries -/
class AuditJson where
  toVec : AuditEntry → Option (List UInt8)
  fromSlice : List UInt8 → Option AuditEntry

/-- the JSON text that is hashed, empty when there is none -/
def canonical [AuditJson] (entry : AuditEntry) : List UInt8 := (AuditJson.toVec entry).getD []

def leafInput (selfHash : Digest) : List UInt8 := 0 :: selfHash.toList
def nodeInput (left right : Digest) : List UInt8 := 1 :: (left.toList ++ right.toList)

theorem leafInput_injective : Function.Injective leafInput :=
  fun _ _ h => Vector.toList_inj.mp (List.cons.inj h).2

/-- a digest has 32 bytes, so that what is after it is known -/
theorem Digest.append_inj {a b : Digest} {s t : List UInt8}
    (h : a.toList ++ s = b.toList ++ t) : a = b ∧ s = t := by
  obtain ⟨hab, hst⟩ := List.append_inj h (by rw [Vector.length_toList, Vector.length_toList])
  exact ⟨Vector.toList_inj.mp hab, hst⟩

theorem nodeInput_injective {p q : Digest × Digest}
    (h : nodeInput p.1 p.2 = nodeInput q.1 q.2) : p = q := by
  obtain ⟨h₁, h₂⟩ := Digest.append_inj (List.cons.inj h).2
  exact Prod.ext h₁ (Vector.toList_inj.mp h₂)

theorem leafInput_ne_nodeInput (a : Digest) (p : Digest × Digest) :
    leafInput a ≠ nodeInput p.1 p.2 := fun h => absurd (List.cons.inj h).1 (by decide)

section
variable [Blake3]

def leafHash (selfHash : Digest) : Digest := Blake3.hash (leafInput selfHash)
def nodeHash (left right : Digest) : Digest := Blake3.hash (nodeInput left right)

variable [AuditJson]

def entryInput (prevHash : Digest) (entry : AuditEntry) : List UInt8 :=
  prevHash.toList ++ canonical entry

def hashEntry (prevHash : Digest) (entry : AuditEntry) : Digest :=
  Blake3.hash (entryInput prevHash entry)

end

/-! ## the ledger -/

structure LedgerEntry where
  seq : UInt64
  entry : AuditEntry
  prevHash : Digest
  selfHash : Digest

inductive LedgerTamperError where
  | entryHashMismatch (index : Nat)
  | chainLinkBroken (index : Nat)

def LedgerTamperError.index : LedgerTamperError → Nat
  | .entryHashMismatch i => i
  | .chainLinkBroken i => i

structure AuditLedger where
  entries : List LedgerEntry
  lastHash : Digest

namespace AuditLedger

def new : AuditLedger := ⟨[], .zero⟩

def len (ledger : AuditLedger) : Nat := ledger.entries.length

def headHash (ledger : AuditLedger) : Digest := ledger.lastHash

section
variable [Blake3] [AuditJson]

def append (ledger : AuditLedger) (entry : AuditEntry) : LedgerEntry × AuditLedger :=
  let sealed : LedgerEntry := {
    seq := .ofNat ledger.entries.length
    entry := entry
    prevHash := ledger.lastHash
    selfHash := hashEntry ledger.lastHash entry }
  (sealed, { lastHash := sealed.selfHash, entries := ledger.entries ++ [sealed] })

/-- the ledger that `append` builds of `es` -/
def ofEntries (es : List AuditEntry) : AuditLedger :=
  es.foldl (fun ledger entry => (ledger.append entry).2) new

/-- the loop of `verifyChain` from the entry `i` on -/
def verifyFrom : Nat → Digest → List LedgerEntry → Except LedgerTamperError Unit
  | _, _, [] => .ok ()
  | i, expectedPrev, e :: es =>
    if e.seq ≠ .ofNat i then .error (.chainLinkBroken i)
    else if e.prevHash ≠ expectedPrev then .error (.chainLinkBroken i)
    else if hashEntry e.prevHash e.entry ≠ e.selfHash then .error (.entryHashMismatch i)
    else verifyFrom (i + 1) e.selfHash es

def verifyChain (ledger : AuditLedger) : Except LedgerTamperError Unit :=
  verifyFrom 0 .zero ledger.entries

end

section
variable [Blake3]

def merkleRoot (ledger : AuditLedger) : Digest :=
  if ledger.entries = [] then .zero
  else
    let level := ledger.entries.map fun e => leafHash e.selfHash
    (reduce nodeHash level.length level).getD 0 default

def merkleProof (ledger : AuditLedger) (seq : UInt64) : Option (List Digest) :=
  let idx := seq.toNat
  if ledger.entries.length ≤ idx then none
  else
    let level := ledger.entries.map fun e => leafHash e.selfHash
    some (inclusionPath nodeHash level.length level idx)

end
end AuditLedger

def verifyMerkleProof [Blake3] (leafSelfHash : Digest) (seq n : UInt64) (proof : List Digest)
    (root : Digest) : Bool :=
  if n = 0 ∨ n ≤ seq then false
  else
    let last := proof.foldl (climbStep nodeHash) ⟨leafHash leafSelfHash, seq.toNat, n.toNat⟩
    last.size = 1 && last.hash = root

/-! ## what `append` builds -/

namespace AuditLedger
section
variable [Blake3] [AuditJson]

/-- `es` sealed, from the position `i` and the head `d` on -/
def sealFrom : Nat → Digest → List AuditEntry → List LedgerEntry
  | _, _, [] => []
  | i, d, e :: es => ⟨.ofNat i, e, d, hashEntry d e⟩ :: sealFrom (i + 1) (hashEntry d e) es

theorem foldl_append (ledger : AuditLedger) (es : List AuditEntry) :
    es.foldl (fun ledger entry => (ledger.append entry).2) ledger =
      ⟨ledger.entries ++ sealFrom ledger.entries.length ledger.lastHash es,
        chainHead hashEntry ledger.lastHash es⟩ := by
  induction es generalizing ledger with
  | nil =>
    show ledger = ⟨ledger.entries ++ [], ledger.lastHash⟩
    rw [List.append_nil]
  | cons e es ih =>
    show es.foldl _ (ledger.append e).2 = _
    rw [ih]
    show AuditLedger.mk ((ledger.entries ++ [_]) ++ sealFrom (ledger.entries ++ [_]).length _ es) _
      = _
    rw [List.append_assoc, List.length_append]
    rfl

/-- **what `append` builds is the chain of the audit entries** -/
theorem entries_ofEntries (es : List AuditEntry) :
    (ofEntries es).entries = sealFrom 0 .zero es := by
  unfold ofEntries
  rw [foldl_append]
  rfl

theorem headHash_ofEntries (es : List AuditEntry) :
    (ofEntries es).headHash = chainHead hashEntry .zero es := by
  unfold ofEntries
  rw [foldl_append]
  rfl

theorem selfHash_sealFrom (i : Nat) (d : Digest) (es : List AuditEntry) :
    (sealFrom i d es).map LedgerEntry.selfHash = chainHeads hashEntry d es := by
  induction es generalizing i d with
  | nil => rfl
  | cons e es ih => exact congrArg (hashEntry d e :: ·) (ih (i + 1) (hashEntry d e))

theorem entry_sealFrom (i : Nat) (d : Digest) (es : List AuditEntry) :
    (sealFrom i d es).map LedgerEntry.entry = es := by
  induction es generalizing i d with
  | nil => rfl
  | cons e es ih => exact congrArg (e :: ·) (ih (i + 1) (hashEntry d e))

theorem length_sealFrom (i : Nat) (d : Digest) (es : List AuditEntry) :
    (sealFrom i d es).length = es.length := by
  rw [← List.length_map LedgerEntry.entry, entry_sealFrom]

theorem length_ofEntries (es : List AuditEntry) : (ofEntries es).entries.length = es.length := by
  rw [entries_ofEntries, length_sealFrom]

/-- a ledger's entries determine the ledger that `append` builds of them -/
theorem ofEntries_entry (es : List AuditEntry) :
    (ofEntries es).entries.map LedgerEntry.entry = es := by
  rw [entries_ofEntries, entry_sealFrom]

theorem verifyFrom_ok_iff (i : Nat) (d : Digest) (es : List LedgerEntry) :
    verifyFrom i d es = .ok () ↔ es = sealFrom i d (es.map LedgerEntry.entry) := by
  induction es generalizing i d with
  | nil => exact iff_of_true rfl rfl
  | cons e es ih =>
    have hsealed : sealFrom i d ((e :: es).map LedgerEntry.entry) =
        ⟨.ofNat i, e.entry, d, hashEntry d e.entry⟩ ::
          sealFrom (i + 1) (hashEntry d e.entry) (es.map LedgerEntry.entry) := rfl
    rw [hsealed, List.cons.injEq]
    unfold verifyFrom
    obtain ⟨seq, entry, prevHash, selfHash⟩ := e
    simp only [LedgerEntry.mk.injEq, true_and]
    by_cases hseq : seq = .ofNat i
    · by_cases hprev : prevHash = d
      · by_cases hhash : hashEntry prevHash entry = selfHash
        · subst hseq hprev hhash
          simp only [ne_eq, not_true_eq_false, if_false, true_and]
          exact ih (i + 1) _
        · subst hprev
          simp only [ne_eq, hseq, hhash, not_true_eq_false, not_false_eq_true, if_true, if_false,
            reduceCtorEq, true_and, false_iff]
          exact fun h => hhash h.1.symm
      · simp only [ne_eq, hseq, hprev, not_true_eq_false, not_false_eq_true, if_true, if_false,
          reduceCtorEq, false_and, and_false]
    · simp only [ne_eq, hseq, not_false_eq_true, if_true, reduceCtorEq, false_and]

/-- **the entries that `verifyChain` accepts are those that `append` builds** -/
theorem verifyChain_ok_iff (ledger : AuditLedger) : ledger.verifyChain = .ok () ↔
    ledger.entries = (ofEntries (ledger.entries.map LedgerEntry.entry)).entries := by
  rw [entries_ofEntries]
  exact verifyFrom_ok_iff 0 .zero ledger.entries

end
end AuditLedger
end Epica
