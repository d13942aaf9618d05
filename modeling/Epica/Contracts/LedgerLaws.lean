import Epica.Contracts.Ledger
import Mathlib.Order.Bounds.Basic

/-!
# What the ledger's checks and hashes say

* `verifyChain_exact_iff`   `verifyChain` finds the first violated entry, but compares no head: it
                            is exact where the head is the last `selfHash` or an entry is violated;
* `verifyChain_binds`       the last `selfHash` of an accepted ledger determines its entries;
* `merkleRoot_binds`        the Merkle root of a ledger that `append` built determines its entries;
* `verifyMerkleProof_merkleProof`   the inclusion proof of an entry is accepted.

The two binding results need that BLAKE3 has no collision among the strings in play
(`CollisionFree`) and that the audit entries in play have different JSON texts.  The hash of all
strings into 32 bytes is not injective, so this is asked of a set of strings only.
-/

set_option linter.unusedSectionVars false

namespace Epica
open Lib

/-! ## a sample

The JSON texts of three audit entries, and the BLAKE3 digests of all strings that sealing them and
taking their Merkle root hashes.
-/

namespace Sample

def digest (n : Nat) : Digest := .ofFn fun i => .ofNat (n >>> (8 * (31 - i.val)))

def entry (key : String) : AuditEntry :=
  ⟨1700000000000, .beliefWrite, some key, some "A", .object []⟩

def entries : List AuditEntry := ["k0", "k1", "k2"].map entry

def jsonText (key : String) : List UInt8 :=
  asciiBytes "\x7b\"timestamp_ms\":1700000000000,\"event_type\":\"BeliefWrite\",\"belief_key\":\"" ++
    asciiBytes key ++ asciiBytes "\",\"agent_id\":\"A\",\"details\":\x7b\x7d\x7d"

@[reducible] def json : AuditJson where
  toVec e := e.beliefKey.map jsonText
  fromSlice b := (["k0", "k1", "k2"].find? fun key => jsonText key = b).map entry

def self0 : Digest := digest 0x86ac1713d56046e462ec48f4d6dd9cf9dc418886949770f02b83442cf10247e4
def self1 : Digest := digest 0xa153239688bbcf9fc248631ff9a0f969e5b39fa204acae8b2606009539762481
def self2 : Digest := digest 0x1b0d510fd6f1fe14f8e2516c780a2f822aa589686f75eedd924f73865326c1a3
def leaf0 : Digest := digest 0x4f90bb9d102557e08eea78e1ef6103b7c7d47bbfeb86a01a773d86bf483785ea
def leaf1 : Digest := digest 0x4cc6b208a3f629cfdc40c217d986535750490e39afbec0c43034d7376cc0cbc6
def leaf2 : Digest := digest 0xc55d4a46898c2ffc061a2d466abc6d8a406c2ddf20963bef63715165000c3272
def node01 : Digest := digest 0x5324f8f4995307847bbc1ec7fb3a2606401bf7e6c99170992da92c15368538f6
def node22 : Digest := digest 0x76a8c80a4b0a90e0b797ce0f2ce3aa42e5c3b1f2b1b9d11c9fb66900f6f78dc8
def root012 : Digest := digest 0x5f41b519ed911430743fdc14fbbd809da2acab8e0d326a41b7c175fcff072b2a

def digests : List (List UInt8 × Digest) :=
  [(Digest.zero.toList ++ jsonText "k0", self0), (self0.toList ++ jsonText "k1", self1),
    (self1.toList ++ jsonText "k2", self2), (leafInput self0, leaf0), (leafInput self1, leaf1),
    (leafInput self2, leaf2), (nodeInput leaf0 leaf1, node01), (nodeInput leaf2 leaf2, node22),
    (nodeInput node01 node22, root012)]

/-- the digest of a string in the table -/
def lookup (table : List (List UInt8 × Digest)) (b : List UInt8) : Digest :=
  ((table.find? fun row => row.1 = b).map Prod.snd).getD .zero

@[reducible] def blake3 : Blake3 where
  hash := lookup digests

end Sample

namespace AuditLedger
section
variable [Blake3] [AuditJson]

/-! ## the scan finds the first violated entry -/

/-- the invariants at the entry `k`, of entries that start at the position `i` with the head `d` -/
structure Sound (i : Nat) (d : Digest) (es : List LedgerEntry) (k : Nat) (e : LedgerEntry) :
    Prop where
  seq : e.seq = .ofNat (i + k)
  first : k = 0 → e.prevHash = d
  linked : ∀ j p, k = j + 1 → es[j]? = some p → e.prevHash = p.selfHash
  hashed : e.selfHash = hashEntry e.prevHash e.entry

def Bad (i : Nat) (d : Digest) (es : List LedgerEntry) (k : Nat) : Prop :=
  ∃ e, es[k]? = some e ∧ ¬ Sound i d es k e

theorem sound_zero_iff (i : Nat) (d : Digest) (e : LedgerEntry) (es : List LedgerEntry) :
    Sound i d (e :: es) 0 e ↔
      e.seq = .ofNat i ∧ e.prevHash = d ∧ hashEntry e.prevHash e.entry = e.selfHash := by
  refine ⟨fun h => ⟨h.seq, h.first rfl, h.hashed.symm⟩, fun ⟨hseq, hprev, hhash⟩ => ?_⟩
  exact ⟨hseq, fun _ => hprev, fun j p hj => absurd hj.symm (Nat.succ_ne_zero j), hhash.symm⟩

theorem sound_succ_iff (i : Nat) (d : Digest) (e x : LedgerEntry) (es : List LedgerEntry)
    (k : Nat) : Sound i d (e :: es) (k + 1) x ↔ Sound (i + 1) e.selfHash es k x := by
  have hpos : i + (k + 1) = i + 1 + k := by omega
  constructor
  · intro h
    refine ⟨hpos ▸ h.seq, fun hk => ?_, fun j p hj hp => ?_, h.hashed⟩
    · subst hk
      exact h.linked 0 e rfl rfl
    · subst hj
      exact h.linked (j + 1) p rfl hp
  · intro h
    refine ⟨hpos ▸ h.seq, fun hk => absurd hk (Nat.succ_ne_zero k), fun j p hj hp => ?_, h.hashed⟩
    obtain rfl : k = j := Nat.succ.inj hj
    cases k with
    | zero =>
      obtain rfl : e = p := Option.some.inj hp
      exact h.first rfl
    | succ k => exact h.linked k p rfl hp

theorem bad_succ_iff (i : Nat) (d : Digest) (e : LedgerEntry) (es : List LedgerEntry) (k : Nat) :
    Bad i d (e :: es) (k + 1) ↔ Bad (i + 1) e.selfHash es k :=
  exists_congr fun x => and_congr_right fun _ => not_congr (sound_succ_iff i d e x es k)

/-- the scan passes an entry that is sound, and stops at one that is not -/
theorem verifyFrom_cons (i : Nat) (d : Digest) (e : LedgerEntry) (es : List LedgerEntry) :
    (Sound i d (e :: es) 0 e ∧ verifyFrom i d (e :: es) = verifyFrom (i + 1) e.selfHash es) ∨
      (¬ Sound i d (e :: es) 0 e ∧
        ∃ err, verifyFrom i d (e :: es) = .error err ∧ err.index = i) := by
  rw [sound_zero_iff, verifyFrom]
  by_cases hseq : e.seq = .ofNat i
  · rw [if_neg (not_not_intro hseq)]
    by_cases hprev : e.prevHash = d
    · rw [if_neg (not_not_intro hprev)]
      by_cases hhash : hashEntry e.prevHash e.entry = e.selfHash
      · rw [if_neg (not_not_intro hhash)]
        exact .inl ⟨⟨hseq, hprev, hhash⟩, rfl⟩
      · rw [if_pos hhash]
        exact .inr ⟨fun h => hhash h.2.2, _, rfl, rfl⟩
    · rw [if_pos hprev]
      exact .inr ⟨fun h => hprev h.2.1, _, rfl, rfl⟩
  · rw [if_pos hseq]
    exact .inr ⟨fun h => hseq h.1, _, rfl, rfl⟩

/-- **the scan ends at the first violated entry**, and in `Ok` when there is none -/
theorem verifyFrom_spec (i : Nat) (d : Digest) (es : List LedgerEntry) :
    (verifyFrom i d es = .ok () ∧ ∀ k, ¬ Bad i d es k) ∨
      ∃ err k, verifyFrom i d es = .error err ∧ err.index = i + k ∧
        IsLeast {k | Bad i d es k} k := by
  induction es generalizing i d with
  | nil => exact .inl ⟨rfl, fun k h => nomatch h⟩
  | cons e es ih =>
    rcases verifyFrom_cons i d e es with ⟨hsound, hrun⟩ | ⟨hbad, err, hrun, hidx⟩
    · have hzero : ¬ Bad i d (e :: es) 0 := by
        intro h
        obtain ⟨x, hx, hx'⟩ := h
        obtain rfl : e = x := Option.some.inj hx
        exact hx' hsound
      rw [hrun]
      rcases ih (i + 1) e.selfHash with ⟨hok, hall⟩ | ⟨err, k, herr, hidx, hk, hleast⟩
      · refine .inl ⟨hok, fun k => ?_⟩
        cases k with
        | zero => exact hzero
        | succ k => exact fun h => hall k ((bad_succ_iff i d e es k).mp h)
      · refine .inr ⟨err, k + 1, herr, by omega, (bad_succ_iff i d e es k).mpr hk, fun m hm => ?_⟩
        cases m with
        | zero => exact absurd hm hzero
        | succ m => exact Nat.succ_le_succ (hleast ((bad_succ_iff i d e es m).mp hm))
    · exact .inr ⟨err, 0, hrun, hidx, ⟨e, rfl, hbad⟩, fun m _ => Nat.zero_le m⟩

/-! ## and compares no head -/

/-- an invariant of the ledger fails at the entry `k` -/
def Violated (ledger : AuditLedger) (k : Nat) : Prop := Bad 0 .zero ledger.entries k

/-- the last `selfHash`, zero for an empty ledger -/
def lastSelfHash (ledger : AuditLedger) : Digest :=
  (ledger.entries.getLast?.map LedgerEntry.selfHash).getD .zero

structure VerifyExact (ledger : AuditLedger) : Prop where
  ok_iff : ledger.verifyChain = .ok () ↔
    (∀ k, ¬ ledger.Violated k) ∧ ledger.headHash = ledger.lastSelfHash
  least : ∀ err, ledger.verifyChain = .error err → IsLeast {k | ledger.Violated k} err.index

/-- **`verifyChain` is exact where the head is the last `selfHash`, or an entry is violated** -/
theorem verifyChain_exact_iff (ledger : AuditLedger) : ledger.VerifyExact ↔
    ledger.headHash = ledger.lastSelfHash ∨ ∃ k, ledger.Violated k := by
  rcases verifyFrom_spec 0 .zero ledger.entries with ⟨hok, hall⟩ | ⟨err, k, herr, hidx, hleast⟩
  · have hsound : ∀ k, ¬ ledger.Violated k := hall
    constructor
    · exact fun h => .inl (h.ok_iff.mp hok).2
    · intro h
      refine ⟨⟨fun _ => ⟨hsound, ?_⟩, fun _ => hok⟩, fun err herr => ?_⟩
      · exact h.resolve_right fun ⟨k, hk⟩ => hsound k hk
      · exact nomatch hok.symm.trans herr
  · have hbad : ledger.Violated k := hleast.1
    refine iff_of_true ⟨⟨fun hok => ?_, fun h => absurd hbad (h.1 k)⟩, fun err' herr' => ?_⟩
      (.inr ⟨k, hbad⟩)
    · exact nomatch hok.symm.trans herr
    · obtain rfl : err = err' := Except.error.inj (herr.symm.trans herr')
      rw [hidx, Nat.zero_add]
      exact hleast

end

section
attribute [local instance] Sample.blake3 Sample.json

/-- the entry of a ledger is removed and its head kept -/
theorem verifyChain_exact_counterexample :
    ¬ ({ ofEntries [Sample.entry "k0"] with entries := [] } : AuditLedger).VerifyExact := by
  intro h
  have hhead := (h.ok_iff.mp rfl).2
  exact absurd hhead (by decide +kernel)

end

/-! ## collision freeness -/

section
variable [Blake3]

/-- no two of the strings have one digest, and none has the digest zero -/
structure CollisionFree (strings : Set (List UInt8)) : Prop where
  inj : Set.InjOn Blake3.hash strings
  ne_zero : ∀ b ∈ strings, Blake3.hash b ≠ .zero

theorem CollisionFree.mono {strings more : Set (List UInt8)} (hfree : CollisionFree more)
    (hsub : strings ⊆ more) : CollisionFree strings :=
  ⟨hfree.inj.mono hsub, fun b hb => hfree.ne_zero b (hsub hb)⟩

/-- the hash tree is unambiguous over what is hashed without collision -/
theorem unambiguous_of_injOn {strings : Set (List UInt8)} (hinj : Set.InjOn Blake3.hash strings) :
    Unambiguous nodeHash {x | ∃ d, leafInput d ∈ strings ∧ x = leafHash d}
      {p | nodeInput p.1 p.2 ∈ strings} where
  inj := fun _ hp _ hq h => nodeInput_injective (hinj hp hq h)
  leaf_ne := by
    intro x hx p hp h
    obtain ⟨d, hd, rfl⟩ := hx
    exact leafInput_ne_nodeInput d p (hinj hd hp h)

variable [AuditJson]

/-- and so is the chain, if different audit entries have different texts -/
theorem linked_of_collisionFree {strings : Set (List UInt8)} {recorded : Set AuditEntry}
    (hfree : CollisionFree strings) (hjson : Set.InjOn canonical recorded) :
    Linked hashEntry .zero {p | entryInput p.1 p.2 ∈ strings ∧ p.2 ∈ recorded} where
  inj := by
    intro p hp q hq h
    obtain ⟨h₁, h₂⟩ := Digest.append_inj (hfree.inj hp.1 hq.1 h)
    exact Prod.ext h₁ (hjson hp.2 hq.2 h₂)
  ne_first := fun p hp => hfree.ne_zero _ hp.1

/-! ## the chain head binds the entries -/

/-- the strings that `verifyChain` hashes -/
def chainInputs (es : List LedgerEntry) : List (List UInt8) :=
  es.map fun e => entryInput e.prevHash e.entry

theorem chainInputs_append (es fs : List LedgerEntry) :
    chainInputs (es ++ fs) = chainInputs es ++ chainInputs fs := List.map_append

theorem links_sealFrom (i : Nat) (d : Digest) (es : List AuditEntry) :
    (sealFrom i d es).map (fun e => (e.prevHash, e.entry)) = chainLinks hashEntry d es := by
  induction es generalizing i d with
  | nil => rfl
  | cons e es ih => exact congrArg ((d, e) :: ·) (ih (i + 1) (hashEntry d e))

theorem last_sealFrom (i : Nat) (d : Digest) (es : List AuditEntry) :
    ((sealFrom i d es).getLast?.map LedgerEntry.selfHash).getD d = chainHead hashEntry d es := by
  induction es generalizing i d with
  | nil => rfl
  | cons e es ih =>
    show ((_ :: sealFrom (i + 1) (hashEntry d e) es).getLast?.map LedgerEntry.selfHash).getD d = _
    rw [List.getLast?_cons]
    refine Eq.trans ?_ (ih (i + 1) (hashEntry d e))
    cases (sealFrom (i + 1) (hashEntry d e) es).getLast? with
    | none => rfl
    | some x => rfl

/-- the links of a chain are those whose strings are hashed -/
theorem mem_of_mem_chainLinks {es : List AuditEntry} {p : Digest × AuditEntry}
    (h : p ∈ chainLinks hashEntry .zero es) :
    entryInput p.1 p.2 ∈ chainInputs (ofEntries es).entries ∧ p.2 ∈ es := by
  rw [← links_sealFrom 0] at h
  obtain ⟨e, he, rfl⟩ := List.mem_map.mp h
  rw [entries_ofEntries]
  refine ⟨List.mem_map.mpr ⟨e, he, rfl⟩, ?_⟩
  have hmem := List.mem_map_of_mem (f := LedgerEntry.entry) he
  rwa [entry_sealFrom] at hmem

theorem verifyChain_ofEntries (es : List AuditEntry) : (ofEntries es).verifyChain = .ok () := by
  rw [verifyChain_ok_iff, ofEntries_entry]

theorem headHash_eq_lastSelfHash (es : List AuditEntry) :
    (ofEntries es).headHash = (ofEntries es).lastSelfHash := by
  unfold lastSelfHash
  rw [headHash_ofEntries, entries_ofEntries, last_sealFrom]

/-- of two ledgers that `append` built, with one head -/
theorem ofEntries_injective {strings : Set (List UInt8)} {recorded : Set AuditEntry}
    (hfree : CollisionFree strings) (hjson : Set.InjOn canonical recorded) {es fs : List AuditEntry}
    (hes : ∀ b ∈ chainInputs (ofEntries es).entries, b ∈ strings) (hes' : ∀ e ∈ es, e ∈ recorded)
    (hfs : ∀ b ∈ chainInputs (ofEntries fs).entries, b ∈ strings) (hfs' : ∀ e ∈ fs, e ∈ recorded)
    (h : (ofEntries es).headHash = (ofEntries fs).headHash) : es = fs := by
  rw [headHash_ofEntries, headHash_ofEntries] at h
  refine head_injective (linked_of_collisionFree hfree hjson) (fun p hp => ?_) (fun p hp => ?_) h
  · obtain ⟨h₁, h₂⟩ := mem_of_mem_chainLinks hp
    exact ⟨hes _ h₁, hes' _ h₂⟩
  · obtain ⟨h₁, h₂⟩ := mem_of_mem_chainLinks hp
    exact ⟨hfs _ h₁, hfs' _ h₂⟩

/-- **the last `selfHash` of an accepted ledger determines its entries**, so that no edit of a
ledger that `append` built is accepted with the same head -/
theorem verifyChain_binds (L₁ L₂ : AuditLedger)
    (hfree : CollisionFree {b | b ∈ chainInputs (L₁.entries ++ L₂.entries)})
    (hjson : Set.InjOn canonical {e | e ∈ (L₁.entries ++ L₂.entries).map LedgerEntry.entry}) :
    (L₁.verifyChain = .ok () → L₂.verifyChain = .ok () → L₁.lastSelfHash = L₂.lastSelfHash →
        L₁.entries = L₂.entries) ∧
      ∀ es, L₁ = ofEntries es → L₂.entries ≠ L₁.entries →
        L₂.verifyChain ≠ .ok () ∨ L₂.lastSelfHash ≠ L₁.headHash := by
  have hbinds : L₁.verifyChain = .ok () → L₂.verifyChain = .ok () →
      L₁.lastSelfHash = L₂.lastSelfHash → L₁.entries = L₂.entries := by
    intro h₁ h₂ hlast
    rw [verifyChain_ok_iff] at h₁ h₂
    have hhead : ∀ L : AuditLedger,
        L.entries = (ofEntries (L.entries.map LedgerEntry.entry)).entries →
        L.lastSelfHash = (ofEntries (L.entries.map LedgerEntry.entry)).headHash := by
      intro L hL
      rw [headHash_eq_lastSelfHash]
      unfold lastSelfHash
      rw [← hL]
    rw [hhead L₁ h₁, hhead L₂ h₂] at hlast
    have hin₁ : ∀ b ∈ chainInputs L₁.entries, b ∈ chainInputs (L₁.entries ++ L₂.entries) := by
      intro b hb
      rw [chainInputs_append]
      exact List.mem_append_left _ hb
    have hin₂ : ∀ b ∈ chainInputs L₂.entries, b ∈ chainInputs (L₁.entries ++ L₂.entries) := by
      intro b hb
      rw [chainInputs_append]
      exact List.mem_append_right _ hb
    have hentries := ofEntries_injective hfree hjson (h₁ ▸ hin₁)
      (fun e he => List.map_append ▸ List.mem_append_left _ he) (h₂ ▸ hin₂)
      (fun e he => List.map_append ▸ List.mem_append_right _ he) hlast
    rw [h₁, h₂, hentries]
  refine ⟨hbinds, fun es hes hne => ?_⟩
  by_contra hcon
  obtain ⟨hok, hlast⟩ := not_or.mp hcon
  have hok₁ : L₁.verifyChain = .ok () := by
    rw [hes]
    exact verifyChain_ofEntries es
  have hlast₁ : L₁.lastSelfHash = L₁.headHash := by
    rw [hes]
    exact (headHash_eq_lastSelfHash es).symm
  exact hne (hbinds hok₁ (not_not.mp hok) (hlast₁.trans (not_not.mp hlast).symm)).symm

end

theorem lookup_of_mem {table : List (List UInt8 × Digest)} {b : List UInt8}
    (h : b ∈ table.map Prod.fst) : ∃ row ∈ table, row.1 = b ∧ Sample.lookup table b = row.2 := by
  obtain ⟨row, hrow, hb⟩ := List.mem_map.mp h
  have hsome : (table.find? fun row => row.1 = b).isSome = true :=
    List.find?_isSome.mpr ⟨row, hrow, decide_eq_true hb⟩
  obtain ⟨found, hfound⟩ := Option.isSome_iff_exists.mp hsome
  refine ⟨found, List.mem_of_find?_eq_some hfound, ?_, ?_⟩
  · have hkey := List.find?_some hfound
    exact of_decide_eq_true hkey
  · unfold Sample.lookup
    rw [hfound]
    rfl

/-- a table of different digests has no collision -/
theorem collisionFree_lookup {table : List (List UInt8 × Digest)}
    (hnodup : (table.map Prod.snd).Nodup) (hzero : ∀ row ∈ table, row.2 ≠ .zero) :
    @CollisionFree ⟨Sample.lookup table⟩ {b | b ∈ table.map Prod.fst} := by
  refine @CollisionFree.mk ⟨Sample.lookup table⟩ _ (fun a ha b hb h => ?_) fun b hb h => ?_
  · obtain ⟨row, hrow, rfl, hdigest⟩ := lookup_of_mem ha
    obtain ⟨row', hrow', rfl, hdigest'⟩ := lookup_of_mem hb
    have hsame : row.2 = row'.2 := hdigest.symm.trans (Eq.trans h hdigest')
    rw [List.inj_on_of_nodup_map hnodup hrow hrow' hsame]
  · obtain ⟨row, hrow, -, hdigest⟩ := lookup_of_mem hb
    exact hzero row hrow (hdigest.symm.trans h)

section
attribute [local instance] Sample.blake3 Sample.json

theorem collisionFree_sample : CollisionFree {b | b ∈ Sample.digests.map Prod.fst} :=
  collisionFree_lookup (by decide +kernel) (by decide +kernel)

theorem canonical_injOn_sample : Set.InjOn canonical {e | e ∈ Sample.entries} := fun a ha b hb =>
  (by decide +kernel : ∀ a ∈ Sample.entries, ∀ b ∈ Sample.entries, canonical a = canonical b →
    a = b) a ha b hb

/-- the last entry is removed from a ledger of three -/
theorem verifyChain_binds_removed :
    let L := ofEntries Sample.entries
    let L' : AuditLedger := { L with entries := L.entries.dropLast }
    L'.verifyChain ≠ .ok () ∨ L'.lastSelfHash ≠ L.headHash :=
  (verifyChain_binds (ofEntries Sample.entries)
    { ofEntries Sample.entries with entries := (ofEntries Sample.entries).entries.dropLast }
    (collisionFree_sample.mono (by
      show ∀ b ∈ chainInputs _, b ∈ Sample.digests.map Prod.fst
      decide +kernel))
    (canonical_injOn_sample.mono (by
      show ∀ e ∈ List.map LedgerEntry.entry _, e ∈ Sample.entries
      decide +kernel))).2 Sample.entries rfl fun h => absurd (congrArg List.length h) (by decide)

end

section
variable [Blake3]

/-! ## the Merkle root binds the entries -/

/-- the strings of the hash tree over `heads` -/
def treeInputs (heads : List Digest) : List (List UInt8) :=
  heads.map leafInput ++
    (treePairs nodeHash (heads.map leafHash).length (heads.map leafHash)).map
      fun p => nodeInput p.1 p.2

def treeRoot (heads : List Digest) : Digest :=
  (reduce nodeHash (heads.map leafHash).length (heads.map leafHash)).getD 0 default

theorem merkleRoot_eq (ledger : AuditLedger) (hne : ledger.entries ≠ []) :
    ledger.merkleRoot = treeRoot (ledger.entries.map LedgerEntry.selfHash) := by
  unfold merkleRoot treeRoot
  rw [if_neg hne, List.map_map]
  rfl

section
variable {strings : Set (List UInt8)}

/-- the leaves of a tree whose strings are in play -/
theorem height_leaves {heads : List Digest} (hin : ∀ b ∈ treeInputs heads, b ∈ strings) :
    ∀ x ∈ heads.map leafHash, Height nodeHash {x | ∃ d, leafInput d ∈ strings ∧ x = leafHash d}
      {p | nodeInput p.1 p.2 ∈ strings} 0 x := by
  intro x hx
  obtain ⟨d, hd, rfl⟩ := List.mem_map.mp hx
  exact .leaf ⟨d, hin _ (List.mem_append_left _ (List.mem_map_of_mem hd)), rfl⟩

/-- and its pairs -/
theorem pairs_in_play {heads : List Digest} (hin : ∀ b ∈ treeInputs heads, b ∈ strings) :
    ∀ p ∈ treePairs nodeHash (heads.map leafHash).length (heads.map leafHash),
      p ∈ {p : Digest × Digest | nodeInput p.1 p.2 ∈ strings} := by
  intro p hp
  exact hin _ (List.mem_append_right _ (List.mem_map.mpr ⟨p, hp, rfl⟩))

theorem leafHash_injOn (hinj : Set.InjOn Blake3.hash strings) :
    Set.InjOn leafHash {d | leafInput d ∈ strings} :=
  fun _ ha _ hb h => leafInput_injective (hinj ha hb h)

theorem leafInputs_in_play {heads : List Digest} (hin : ∀ b ∈ treeInputs heads, b ∈ strings) :
    ∀ d ∈ heads, d ∈ {d | leafInput d ∈ strings} :=
  fun _ hd => hin _ (List.mem_append_left _ (List.mem_map_of_mem hd))

theorem treeRoot_mem (heads : List Digest) (hne : heads ≠ []) :
    reduce nodeHash (heads.map leafHash).length (heads.map leafHash) = [treeRoot heads] := by
  have hone := length_reduce nodeHash (heads.map leafHash).length (heads.map leafHash)
    (Nat.le_refl _) (fun h => hne (List.map_eq_nil_iff.mp h))
  obtain ⟨x, hx⟩ := List.length_eq_one_iff.mp hone
  unfold treeRoot
  rw [hx]
  rfl

/-- **the root of a hash tree determines its leaves**, if none occurs twice -/
theorem treeRoot_injective (hfree : CollisionFree strings) {heads₁ heads₂ : List Digest}
    (hin₁ : ∀ b ∈ treeInputs heads₁, b ∈ strings) (hin₂ : ∀ b ∈ treeInputs heads₂, b ∈ strings)
    (hne₁ : heads₁ ≠ []) (hne₂ : heads₂ ≠ []) (hnd₁ : heads₁.Nodup) (hnd₂ : heads₂.Nodup)
    (h : treeRoot heads₁ = treeRoot heads₂) : heads₁ = heads₂ := by
  have hinj := leafHash_injOn hfree.inj
  have hlevel : ∀ {heads : List Digest}, (∀ b ∈ treeInputs heads, b ∈ strings) → heads.Nodup →
      (heads.map leafHash).Nodup := fun hin hnd =>
    hnd.map_on fun a ha b hb he =>
      hinj (leafInputs_in_play hin a ha) (leafInputs_in_play hin b hb) he
  have hroots : reduce nodeHash (heads₁.map leafHash).length (heads₁.map leafHash) =
      reduce nodeHash (heads₂.map leafHash).length (heads₂.map leafHash) := by
    rw [treeRoot_mem heads₁ hne₁, treeRoot_mem heads₂ hne₂, h]
  have hleaves := reduce_injective (unambiguous_of_injOn hfree.inj) _ _ (Nat.le_refl _)
    (Nat.le_refl _) (fun h => hne₁ (List.map_eq_nil_iff.mp h))
    (fun h => hne₂ (List.map_eq_nil_iff.mp h)) (height_leaves hin₁) (height_leaves hin₂)
    (hlevel hin₁ hnd₁) (hlevel hin₂ hnd₂) (pairs_in_play hin₁) (pairs_in_play hin₂) hroots
  exact map_injOn hinj (leafInputs_in_play hin₁) (leafInputs_in_play hin₂) hleaves

theorem treeRoot_ne_zero (hfree : CollisionFree strings) {heads : List Digest}
    (hin : ∀ b ∈ treeInputs heads, b ∈ strings) (hne : heads ≠ []) : treeRoot heads ≠ .zero := by
  have hmem : treeRoot heads ∈
      reduce nodeHash (heads.map leafHash).length (heads.map leafHash) := by
    rw [treeRoot_mem heads hne]
    exact List.mem_singleton.mpr rfl
  obtain ⟨m, -, hroot⟩ := height_reduce _ (height_leaves hin) (pairs_in_play hin) _ hmem
  generalize treeRoot heads = root at hroot ⊢
  cases hroot with
  | leaf hx =>
    obtain ⟨d, hd, rfl⟩ := hx
    exact hfree.ne_zero _ hd
  | node hp => exact hfree.ne_zero _ hp

end

variable [AuditJson]

/-- the strings that building a ledger and taking its Merkle root hashes -/
def hashed (ledger : AuditLedger) : List (List UInt8) :=
  chainInputs ledger.entries ++ treeInputs (ledger.entries.map LedgerEntry.selfHash)

theorem nodup_selfHash {strings : Set (List UInt8)} {recorded : Set AuditEntry}
    (hfree : CollisionFree strings) (hjson : Set.InjOn canonical recorded) {es : List AuditEntry}
    (hes : ∀ b ∈ chainInputs (ofEntries es).entries, b ∈ strings) (hes' : ∀ e ∈ es, e ∈ recorded) :
    ((ofEntries es).entries.map LedgerEntry.selfHash).Nodup := by
  rw [entries_ofEntries, selfHash_sealFrom]
  refine nodup_heads (linked_of_collisionFree hfree hjson) fun p hp => ?_
  obtain ⟨h₁, h₂⟩ := mem_of_mem_chainLinks hp
  exact ⟨hes _ h₁, hes' _ h₂⟩

/-- **the Merkle root of a ledger that `append` built determines its entries** -/
theorem merkleRoot_binds (es fs : List AuditEntry)
    (hfree : CollisionFree {b | b ∈ hashed (ofEntries es) ++ hashed (ofEntries fs)})
    (hjson : Set.InjOn canonical {e | e ∈ es ++ fs})
    (h : (ofEntries es).merkleRoot = (ofEntries fs).merkleRoot) :
    (ofEntries es).entries = (ofEntries fs).entries := by
  have hin₁ : ∀ b ∈ hashed (ofEntries es), b ∈ hashed (ofEntries es) ++ hashed (ofEntries fs) :=
    fun b hb => List.mem_append_left _ hb
  have hin₂ : ∀ b ∈ hashed (ofEntries fs), b ∈ hashed (ofEntries es) ++ hashed (ofEntries fs) :=
    fun b hb => List.mem_append_right _ hb
  have hchain₁ := fun b hb => hin₁ b (List.mem_append_left _ hb)
  have hchain₂ := fun b hb => hin₂ b (List.mem_append_left _ hb)
  have htree₁ := fun b hb => hin₁ b (List.mem_append_right _ hb)
  have htree₂ := fun b hb => hin₂ b (List.mem_append_right _ hb)
  have hmem₁ : ∀ e ∈ es, e ∈ es ++ fs := fun e he => List.mem_append_left _ he
  have hmem₂ : ∀ e ∈ fs, e ∈ es ++ fs := fun e he => List.mem_append_right _ he
  have hheads : ∀ L : AuditLedger, L.entries ≠ [] → L.entries.map LedgerEntry.selfHash ≠ [] :=
    fun L hne h => hne (List.map_eq_nil_iff.mp h)
  by_cases hne₁ : (ofEntries es).entries = []
  · by_cases hne₂ : (ofEntries fs).entries = []
    · rw [hne₁, hne₂]
    · have hzero : (ofEntries es).merkleRoot = .zero := if_pos hne₁
      rw [hzero, merkleRoot_eq _ hne₂] at h
      exact absurd h.symm (treeRoot_ne_zero hfree htree₂ (hheads _ hne₂))
  · by_cases hne₂ : (ofEntries fs).entries = []
    · have hzero : (ofEntries fs).merkleRoot = .zero := if_pos hne₂
      rw [hzero, merkleRoot_eq _ hne₁] at h
      exact absurd h (treeRoot_ne_zero hfree htree₁ (hheads _ hne₁))
    · rw [merkleRoot_eq _ hne₁, merkleRoot_eq _ hne₂] at h
      have hself := treeRoot_injective hfree htree₁ htree₂ (hheads _ hne₁) (hheads _ hne₂)
        (nodup_selfHash hfree hjson hchain₁ hmem₁) (nodup_selfHash hfree hjson hchain₂ hmem₂) h
      have hlast : (ofEntries es).lastSelfHash = (ofEntries fs).lastSelfHash := by
        unfold lastSelfHash
        rw [← List.getLast?_map, ← List.getLast?_map, hself]
      rw [← headHash_eq_lastSelfHash, ← headHash_eq_lastSelfHash] at hlast
      rw [ofEntries_injective hfree hjson hchain₁ hmem₁ hchain₂ hmem₂ hlast]

end

section
attribute [local instance] Sample.blake3 Sample.json

/-- three leaves, so that the last one is doubled -/
theorem merkleRoot_binds_sample : (ofEntries Sample.entries).merkleRoot = Sample.root012 ∧
    (ofEntries Sample.entries).entries = (ofEntries (Sample.entries.take 3)).entries :=
  ⟨by decide +kernel, merkleRoot_binds Sample.entries (Sample.entries.take 3)
    (collisionFree_sample.mono (by
      show ∀ b ∈ hashed _ ++ hashed _, b ∈ Sample.digests.map Prod.fst
      decide +kernel))
    (canonical_injOn_sample.mono (by
      show ∀ e ∈ Sample.entries ++ Sample.entries.take 3, e ∈ Sample.entries
      decide +kernel)) rfl⟩

end

section
variable [Blake3]

/-! ## inclusion proofs -/

/-- **the inclusion proof of an entry is accepted**; the entries are fewer than a `u64` can count -/
theorem verifyMerkleProof_merkleProof (ledger : AuditLedger) (hlen : ledger.len < 2 ^ 64)
    {seq : UInt64} {proof : List Digest} {e : LedgerEntry}
    (hproof : ledger.merkleProof seq = some proof) (he : ledger.entries[seq.toNat]? = some e) :
    verifyMerkleProof e.selfHash seq (.ofNat ledger.len) proof ledger.merkleRoot = true := by
  have hlt : seq.toNat < ledger.entries.length := (List.getElem?_eq_some_iff.mp he).1
  have hnat : (UInt64.ofNat ledger.len).toNat = ledger.len := UInt64.toNat_ofNat_of_lt' hlen
  have hlenE : ledger.entries.length = ledger.len := rfl
  have hproof' := (if_neg (Nat.not_le.mpr hlt)).symm.trans hproof
  have hpath := Option.some.inj hproof'
  have hne : ledger.entries ≠ [] := List.ne_nil_of_length_pos (by omega)
  have hroot : ledger.merkleRoot = (reduce nodeHash
      (ledger.entries.map fun e => leafHash e.selfHash).length
      (ledger.entries.map fun e => leafHash e.selfHash)).getD 0 default := if_neg hne
  have hleaf : (ledger.entries.map fun e => leafHash e.selfHash).getD seq.toNat default =
      leafHash e.selfHash := by
    rw [List.getD_eq_getElem?_getD, List.getElem?_map, he]
    rfl
  have hlevel : (ledger.entries.map fun e => leafHash e.selfHash).length = ledger.len :=
    List.length_map _
  have hclimb := climb_inclusionPath nodeHash
    (ledger.entries.map fun e => leafHash e.selfHash).length
    (ledger.entries.map fun e => leafHash e.selfHash) seq.toNat (Nat.le_refl _) (by omega)
  rw [hleaf, ← hroot, hpath, hlevel] at hclimb
  unfold verifyMerkleProof
  rw [if_neg, hnat, hclimb]
  · simp
  · intro h
    rcases h with h | h
    · rw [h] at hnat
      have hzero : (0 : UInt64).toNat = 0 := rfl
      omega
    · have hle := UInt64.le_iff_toNat_le.mp h
      omega

end
end AuditLedger
end Epica
