import Epica.Evidence.Authenticity
import Epica.Lib.Run
import Epica.Lib.Text

/-!
# The command line tool

`keygen`, `seal` and `verify` over files.  The crates behind them (JSON, hex, signatures) are
parameters, and so is the text of an error of theirs; what they are asked for is `CratesAgree`.

* `edited_verifies_iff`  a receipt verifies against another ledger exactly if that has the same
                       number of entries, and the same entries up to the end of the window;
* `sealed_run`         a sealed ledger keeps verifying over every run of the tool that does not
                       write the ledger, seals into the receipt's file nothing else and has no
                       write of it fail;
* `keyed_seal_iff`     when a key that the tool has made seals.

`verify` takes the key from the receipt, so neither says who has sealed it.
-/

set_option linter.unusedSectionVars false

namespace Epica.Cli
open Lib AuditLedger

/-- a file is its text -/
abbrev Files := String → Option String

class Crates [Hex] [Ed25519] where
  parseLedger : String → Except String (List LedgerEntryWire)
  toStringPretty : EvidenceReceipt → Except String String
  parseReceipt : String → Except String EvidenceReceipt
  secretBytes : Ed25519.SigningKey → Vector UInt8 32
  ofSecretBytes : Vector UInt8 32 → Ed25519.SigningKey
  hexText : Hex.FromHexError → String
  signatureText : Ed25519.SignatureError → String
  /-- the error of reading a file that is not there -/
  notFound : String

/-- what a command gets from the system: a fresh key, the time, and whether a write succeeds; one
that fails may have emptied the file or written a part, so that it leaves anything there -/
structure Env [Ed25519] where
  signing : Ed25519.SigningKey
  nowMs : UInt64
  written : Except (String × Option String) Unit

inductive Command where
  | keygen (secretOut : String)
  | seal (ledger secret : String) (start : UInt64) (stop : Option UInt64) (label : Option String)
      (out : String)
  | verify (ledger receipt : String)

/-- `main` prints an error after `epica-verify: ` -/
inductive ExitCode where
  | success (stdout : List String)
  | failure (error : String)
  | panicked

def ExitCode.Ok (code : ExitCode) : Prop := ∃ stdout, code = .success stdout

/-! ## the texts of errors -/

def proverText : ProverError → String
  | .invalidRange start stop ledgerLen =>
    s!"invalid batch range: start={start}, end={stop}, ledger_len={ledgerLen}"

section
variable [Blake3] [AuditJson] [Hex] [Ed25519] [Crates]

def receiptText : EvidenceReceiptError → String
  | .hex field source => s!"invalid hex encoding in field {field}: {Crates.hexText source}"
  | .invalidLength field expected got => s!"field {field} expected {expected} bytes, got {got}"

def verificationText : VerificationError → String
  | .decode source => s!"receipt decode error: {receiptText source}"
  | .unsupportedSchemaVersion version supported =>
    s!"unsupported schema version: {version} (this build supports {supported})"
  | .invalidRange start stop ledgerLen =>
    s!"range invalid for ledger: start={start}, end={stop}, ledger_len={ledgerLen}"
  | .ledgerLengthMismatch recorded current =>
    s!"ledger length mismatch: receipt sealed at len={recorded}, current len={current}"
  | .merkleRootMismatch receipt reconstructed =>
    s!"merkle root mismatch: receipt={receipt}, reconstructed={reconstructed}"
  | .signature source => s!"signature verification failed: {Crates.signatureText source}"
  | .inclusion seq => s!"inclusion proof failed for seq {seq}"
  | .inclusionOutOfBounds seq => s!"inclusion seq {seq} is out of bounds for the supplied ledger"
  | .inclusionLeafMismatch seq => s!"inclusion leaf hash mismatch at seq {seq}"

/-! ## reading and writing -/

def readToString (files : Files) (path : String) : Except String String :=
  match files path with
  | some text => .ok text
  | none => .error (Crates.notFound)

def write (env : Env) (files : Files) (path text : String) : Except String Unit × Files :=
  match env.written with
  | .ok () => (.ok (), Function.update files path (some text))
  | .error (e, left) => (.error e, Function.update files path left)

def readLedger (files : Files) (path : String) : Except CliError AuditLedger := do
  let raw ← (readToString files path).mapError fun e => ⟨s!"read ledger {path}: {e}"⟩
  let entries ← (Crates.parseLedger raw).mapError fun e => ⟨s!"parse ledger JSON: {e}"⟩
  rebuildLedger entries

/-- `Ed25519Prover::from_secret_bytes` -/
def fromSecretBytes (bytes : List UInt8) : Except String Ed25519.SigningKey :=
  if h : bytes.length = 32 then .ok (Crates.ofSecretBytes ⟨bytes.toArray, h⟩)
  else .error s!"secret key must be exactly 32 bytes, got {bytes.length}"

/-! ## the commands -/

/-- an existing file is not overwritten -/
def keygen (env : Env) (files : Files) (secretOut : String) : ExitCode × Files :=
  if (files secretOut).isSome then
    (.failure s!"refusing to overwrite existing secret file: {secretOut}", files)
  else
    match write env files secretOut
      (Hex.encode (Crates.secretBytes env.signing).toList ++ "\n") with
    | (.ok (), files) => (.success [
        s!"public_key: {Hex.encode (Ed25519.toBytes (Ed25519.verifyingKey env.signing)).toList}",
        s!"secret written to: {secretOut}"], files)
    | (.error e, files) => (.failure s!"write secret: {e}", files)

/-- the key in a file -/
def loadProver (files : Files) (secretPath : String) : Except CliError Ed25519.SigningKey := do
  let secretHex ← (readToString files secretPath).mapError fun e => ⟨s!"read secret: {e}"⟩
  let secretBytes ← (Hex.decode (trim secretHex)).mapError fun e =>
    ⟨s!"decode secret hex: {Crates.hexText e}"⟩
  (fromSecretBytes secretBytes).mapError fun e => ⟨s!"load prover: {e}"⟩

/-- the end of the window: the last entry, unless it is given -/
def windowEnd (ledger : AuditLedger) (stop : Option UInt64) : UInt64 :=
  stop.getD (.ofNat ledger.len - 1)

/-- the receipt of `sealCmd`, with its text -/
def sealLedger (env : Env) (files : Files) (ledgerPath secretPath : String) (start : UInt64)
    (stop : Option UInt64) (label : Option String) :
    Except CliError (AuditLedger × EvidenceReceipt × String) := do
  let ledger ← readLedger files ledgerPath
  if ledger.len = 0 then .error ⟨"ledger is empty — nothing to seal"⟩
  else
    let signing ← loadProver files secretPath
    let receipt ← (sealWithOptions signing ledger start (windowEnd ledger stop)
      ⟨label, []⟩ env.nowMs).mapError fun e => ⟨s!"seal: {proverText e}"⟩
    let json ← (Crates.toStringPretty receipt).mapError fun e => ⟨s!"serialise receipt: {e}"⟩
    .ok (ledger, receipt, json)

def sealCmd (env : Env) (files : Files) (ledgerPath secretPath : String) (start : UInt64)
    (stop : Option UInt64) (label : Option String) (out : String) : ExitCode × Files :=
  match sealLedger env files ledgerPath secretPath start stop label with
  | .error e => (.failure e.msg, files)
  | .ok (ledger, receipt, json) =>
    match write env files out json with
    | (.ok (), files) => (.success [
        s!"OK: sealed entries {start}..={windowEnd ledger stop} of ledger ({ledger.len} total)",
        s!"    merkle_root: {receipt.merkleRootHex}",
        s!"    prover_pubkey: {receipt.proverPubkeyHex}",
        s!"    receipt: {out}"], files)
    | (.error e, files) => (.failure s!"write receipt: {e}", files)

/-- the receipt in a file, if it verifies; the verifier is that of the key in the receipt -/
def verifyReceipt (files : Files) (ledgerPath receiptPath : String) :
    Except CliError EvidenceReceipt := do
  let ledger ← readLedger files ledgerPath
  let receiptJson ← (readToString files receiptPath).mapError fun e => ⟨s!"read receipt: {e}"⟩
  let receipt ← (Crates.parseReceipt receiptJson).mapError fun e => ⟨s!"parse receipt JSON: {e}"⟩
  let verifier ← (Ed25519Verifier.fromReceipt receipt).mapError fun e =>
    ⟨s!"build verifier: {verificationText e}"⟩
  let _ ← (verifier.verify receipt ledger).mapError fun e =>
    ⟨s!"verification failed: {verificationText e}"⟩
  .ok receipt

def verifyCmd (files : Files) (ledgerPath receiptPath : String) : ExitCode :=
  match verifyReceipt files ledgerPath receiptPath with
  | .error e => .failure e.msg
  | .ok receipt =>
    -- the text of the key is cut at its sixteenth byte
    match splitAtByte receipt.proverPubkeyHex.toList 16 with
    | none => .panicked
    | some (head, _) => .success ([
        s!"OK: receipt verifies — entries {receipt.startSeq}..={receipt.endSeq} of " ++
          s!"{receipt.ledgerLen} sealed by {String.ofList head}"] ++
        (receipt.metadata.label.map fun label => s!"    label: {label}").toList ++
        if receipt.inclusions.isEmpty then []
        else [s!"    {receipt.inclusions.length} per-entry inclusion proofs verified"])

def run (env : Env) (files : Files) : Command → ExitCode × Files
  | .keygen secretOut => keygen env files secretOut
  | .seal ledger secret start stop label out =>
    sealCmd env files ledger secret start stop label out
  | .verify ledger receipt => (verifyCmd files ledger receipt, files)

/-- the files after a command -/
def step (files : Files) (c : Env × Command) : Files := (run c.1 files c.2).2

/-- what the crates are relied on for -/
structure CratesAgree : Prop where
  hex : ∀ b, Hex.decode (Hex.encode b) = .ok b
  hexLength : ∀ b, (Hex.encode b).toList.length = 2 * b.length
  hexDigits : ∀ b, ∀ c ∈ (Hex.encode b).toList, c ∈ "0123456789abcdef".toList
  secret : ∀ signing, Crates.ofSecretBytes (Crates.secretBytes signing) = signing
  sign : ∀ signing m,
    Ed25519.verify (Ed25519.verifyingKey signing) m (Ed25519.sign signing m) = .ok ()
  key : ∀ signing, Ed25519.fromBytes (Ed25519.toBytes (Ed25519.verifyingKey signing)) =
    .ok (Ed25519.verifyingKey signing)
  json : ∀ receipt text, Crates.toStringPretty receipt = .ok text →
    Crates.parseReceipt text = .ok receipt

/-! ## what is read -/

/-- a line is trimmed to its text -/
theorem trim_line {s : String} (h : ∀ c ∈ s.toList, isWhitespace c = false) :
    trim (s ++ "\n") = s := by
  have hall : ∀ cs : List Char, (∀ c ∈ cs, isWhitespace c = false) →
      cs.dropWhile isWhitespace = cs := by
    intro cs hcs
    cases cs with
    | nil => rfl
    | cons c cs => exact List.dropWhile_cons_of_neg (by rw [hcs c List.mem_cons_self]; decide)
  have hline : (s ++ "\n").toList = s.toList ++ ['\n'] := by
    rw [String.toList_append]
    rfl
  have hrest : ∀ c ∈ s.toList.reverse, isWhitespace c = false := fun c hc =>
    h c (List.mem_reverse.mp hc)
  have hend : ∀ cs : List Char, ('\n' :: cs).dropWhile isWhitespace = cs.dropWhile isWhitespace :=
    fun cs => List.dropWhile_cons_of_pos (by decide)
  unfold trim
  rw [hline]
  cases hs : s.toList with
  | nil =>
    rw [← String.ofList_toList (s := s), hs]
    rfl
  | cons c cs =>
    have hc : ¬ isWhitespace c = true := by
      rw [h c (hs ▸ List.mem_cons_self)]
      decide
    rw [List.cons_append, List.dropWhile_cons_of_neg hc, ← List.cons_append, List.reverse_append]
    show String.ofList (('\n' :: (c :: cs).reverse).dropWhile isWhitespace).reverse = s
    rw [hend, ← hs, hall _ hrest, List.reverse_reverse, String.ofList_toList]

theorem CratesAgree.slice (hcrates : CratesAgree) (key : Vector UInt8 32) :
    (splitAtByte (Hex.encode key.toList).toList 16).isSome := by
  have hall : ("0123456789abcdef".toList.all fun c => c.utf8Size == 1) = true := by decide +kernel
  have hdigit : ∀ c ∈ "0123456789abcdef".toList, c.utf8Size = 1 := fun c hc =>
    eq_of_beq (List.all_eq_true.mp hall c hc)
  refine splitAtByte_ascii (fun c hc => hdigit c (hcrates.hexDigits _ c hc)) ?_
  rw [hcrates.hexLength, Vector.length_toList]
  decide

/-- the key that was written is the key that is loaded -/
theorem CratesAgree.loadProver (hcrates : CratesAgree) {files : Files} {secretPath : String}
    {signing : Ed25519.SigningKey}
    (h : files secretPath = some (Hex.encode (Crates.secretBytes signing).toList ++ "\n")) :
    loadProver files secretPath = .ok signing := by
  have hall : ("0123456789abcdef".toList.all fun c => !isWhitespace c) = true := by decide +kernel
  have hdigit : ∀ c ∈ "0123456789abcdef".toList, isWhitespace c = false := fun c hc =>
    (Bool.not_eq_true' _).mp (List.all_eq_true.mp hall c hc)
  have hread : readToString files secretPath =
      .ok (Hex.encode (Crates.secretBytes signing).toList ++ "\n") := by
    unfold readToString
    rw [h]
  have hbytes : fromSecretBytes (Crates.secretBytes signing).toList = .ok signing := by
    have hlen : (Crates.secretBytes signing).toList.length = 32 := Vector.length_toList
    have hsame : (⟨(Crates.secretBytes signing).toList.toArray, hlen⟩ : Vector UInt8 32) =
        Crates.secretBytes signing := Vector.toArray_inj.mp Array.toArray_toList
    unfold fromSecretBytes
    rw [dif_pos hlen, hsame, hcrates.secret]
  refine bind_eq_ok.mpr ⟨_, mapError_eq_ok.mpr hread, ?_⟩
  rw [trim_line fun c hc => hdigit c (hcrates.hexDigits _ c hc)]
  exact bind_eq_ok.mpr ⟨_, mapError_eq_ok.mpr (hcrates.hex _), mapError_eq_ok.mpr hbytes⟩

theorem rebuildFrom_entries {i : Nat} {L L' : AuditLedger} {wires : List LedgerEntryWire}
    (h : rebuildFrom i L wires = .ok L') :
    L' = (wires.map LedgerEntryWire.entry).foldl
      (fun ledger entry => (ledger.append entry).2) L := by
  induction wires generalizing i L with
  | nil => exact (Except.ok.inj h).symm
  | cons e wires ih =>
    obtain ⟨-, h⟩ := refuse_eq_ok.mp h
    exact ih h

/-- a ledger that is read is built of its entries -/
theorem exists_ofEntries {files : Files} {path : String} {L : AuditLedger}
    (h : readLedger files path = .ok L) : ∃ es, L = ofEntries es := by
  unfold readLedger at h
  obtain ⟨raw, -, h⟩ := bind_eq_ok.mp h
  obtain ⟨wires, -, h⟩ := bind_eq_ok.mp h
  exact ⟨_, rebuildFrom_entries h⟩

/-- a ledger depends on its file only -/
theorem readLedger_congr {files files' : Files} {path path' : String}
    (h : files' path' = files path) {L : AuditLedger} (hL : readLedger files path = .ok L) :
    readLedger files' path' = .ok L := by
  unfold readLedger readToString at hL ⊢
  rw [h]
  cases hfile : files path with
  | none =>
    rw [hfile] at hL
    cases hL
  | some text =>
    rw [hfile] at hL
    simp only at hL ⊢
    obtain ⟨raw, hraw, hL⟩ := bind_eq_ok.mp hL
    obtain ⟨wires, hwires, hL⟩ := bind_eq_ok.mp hL
    refine bind_eq_ok.mpr ⟨raw, mapError_eq_ok.mpr (mapError_eq_ok.mp hraw), ?_⟩
    exact bind_eq_ok.mpr ⟨wires, mapError_eq_ok.mpr (mapError_eq_ok.mp hwires), hL⟩

/-! ## what is sealed -/

/-- the receipt was sealed of the window, with some key -/
def Seals (receipt : EvidenceReceipt) (L : AuditLedger) (start stop : UInt64) : Prop :=
  ∃ signing label nowMs, sealWithOptions signing L start stop ⟨label, []⟩ nowMs = .ok receipt

/-- the file holds a receipt of the window -/
def Holds (files : Files) (path : String) (L : AuditLedger) (start stop : UInt64) : Prop :=
  ∃ receipt text, files path = some text ∧ Crates.toStringPretty receipt = .ok text ∧
    Seals receipt L start stop

theorem sealLedger_ok_iff {env : Env} {files : Files} {ledgerPath secretPath : String}
    {start : UInt64} {stop : Option UInt64} {label : Option String} {L : AuditLedger}
    {receipt : EvidenceReceipt} {text : String} :
    sealLedger env files ledgerPath secretPath start stop label = .ok (L, receipt, text) ↔
      readLedger files ledgerPath = .ok L ∧ L.len ≠ 0 ∧
        ∃ signing, loadProver files secretPath = .ok signing ∧
          sealWithOptions signing L start (windowEnd L stop) ⟨label, []⟩ env.nowMs = .ok receipt ∧
          Crates.toStringPretty receipt = .ok text := by
  unfold sealLedger
  constructor
  · intro h
    obtain ⟨L', hL, h⟩ := bind_eq_ok.mp h
    obtain ⟨hne, h⟩ := refuse_eq_ok.mp h
    obtain ⟨signing, hsigning, h⟩ := bind_eq_ok.mp h
    obtain ⟨receipt', hseal, h⟩ := bind_eq_ok.mp h
    obtain ⟨text', htext, h⟩ := bind_eq_ok.mp h
    cases h
    exact ⟨hL, hne, signing, hsigning, mapError_eq_ok.mp hseal, mapError_eq_ok.mp htext⟩
  · intro h
    obtain ⟨hL, hne, signing, hsigning, hseal, htext⟩ := h
    refine bind_eq_ok.mpr ⟨L, hL, refuse_eq_ok.mpr ⟨hne, ?_⟩⟩
    refine bind_eq_ok.mpr ⟨signing, hsigning, ?_⟩
    refine bind_eq_ok.mpr ⟨receipt, mapError_eq_ok.mpr hseal, ?_⟩
    exact bind_eq_ok.mpr ⟨text, mapError_eq_ok.mpr htext, rfl⟩

theorem not_ok_failure (error : String) : ¬ (ExitCode.failure error).Ok := fun ⟨_, h⟩ => nomatch h

/-- **a seal leaves the files, or fails to write the receipt, or writes it** -/
theorem sealCmd_cases (env : Env) (files : Files) (ledgerPath secretPath : String)
    (start : UInt64) (stop : Option UInt64) (label : Option String) (out : String) :
    let r := sealCmd env files ledgerPath secretPath start stop label out
    (¬ r.1.Ok ∧ r.2 = files ∧
      ∃ e, sealLedger env files ledgerPath secretPath start stop label = .error e) ∨
    (¬ r.1.Ok ∧ ∃ e left, env.written = .error (e, left) ∧ r.2 = Function.update files out left) ∨
    (r.1.Ok ∧ env.written = .ok () ∧ ∃ L receipt text,
      sealLedger env files ledgerPath secretPath start stop label = .ok (L, receipt, text) ∧
      r.2 = Function.update files out (some text)) := by
  unfold sealCmd
  cases hsealed : sealLedger env files ledgerPath secretPath start stop label with
  | error e => exact Or.inl ⟨not_ok_failure _, rfl, e, rfl⟩
  | ok sealed =>
    obtain ⟨L, receipt, text⟩ := sealed
    simp only [write]
    rcases env.written with ⟨e, left⟩ | u
    · exact Or.inr (Or.inl ⟨not_ok_failure _, e, left, rfl, rfl⟩)
    · exact Or.inr (Or.inr ⟨⟨_, rfl⟩, rfl, L, receipt, text, rfl, rfl⟩)

/-- it writes no other file -/
theorem sealCmd_other (env : Env) (files : Files) (ledgerPath secretPath : String)
    (start : UInt64) (stop : Option UInt64) (label : Option String) {out path : String}
    (hne : path ≠ out) :
    (sealCmd env files ledgerPath secretPath start stop label out).2 path = files path := by
  rcases sealCmd_cases env files ledgerPath secretPath start stop label out with
    ⟨-, hfiles, -⟩ | ⟨-, e, left, -, hfiles⟩ | ⟨-, -, L, receipt, text, -, hfiles⟩
  · exact congrFun hfiles path
  · exact (congrFun hfiles path).trans (Function.update_of_ne hne _ _)
  · exact (congrFun hfiles path).trans (Function.update_of_ne hne _ _)

/-- what a seal has written when it succeeds -/
theorem sealCmd_ok {env : Env} {files : Files} {ledgerPath secretPath : String}
    {start : UInt64} {stop : Option UInt64} {label : Option String} {out : String}
    (h : (sealCmd env files ledgerPath secretPath start stop label out).1.Ok) :
    env.written = .ok () ∧ ∃ L receipt text,
      sealLedger env files ledgerPath secretPath start stop label = .ok (L, receipt, text) ∧
      (sealCmd env files ledgerPath secretPath start stop label out).2 =
        Function.update files out (some text) := by
  rcases sealCmd_cases env files ledgerPath secretPath start stop label out with
    ⟨hfailed, -⟩ | ⟨hfailed, -⟩ | ⟨-, hwritten, hsealed⟩
  · exact absurd h hfailed
  · exact absurd h hfailed
  · exact ⟨hwritten, hsealed⟩

/-- the file that was written holds a receipt of the ledger -/
theorem holds_of_sealLedger {env : Env} {files : Files} {ledgerPath secretPath : String}
    {start : UInt64} {stop : Option UInt64} {label : Option String} {L : AuditLedger}
    {receipt : EvidenceReceipt} {text : String}
    (h : sealLedger env files ledgerPath secretPath start stop label = .ok (L, receipt, text))
    {later : Files} {out : String} (hfile : later out = some text) :
    readLedger files ledgerPath = .ok L ∧ Holds later out L start (windowEnd L stop) := by
  obtain ⟨hL, -, signing, -, hseal, htext⟩ := sealLedger_ok_iff.mp h
  exact ⟨hL, receipt, text, hfile, htext, signing, label, env.nowMs, hseal⟩

theorem Holds.range {files : Files} {out : String} {L : AuditLedger} {start stop : UInt64}
    (h : Holds files out L start stop) : start ≤ stop ∧ stop.toNat < L.len := by
  obtain ⟨receipt, _, _, _, signing, _, nowMs, hseal⟩ := h
  exact (sealWithOptions_ok_iff signing L start stop _ nowMs).mp ⟨receipt, hseal⟩

/-! ## what is verified -/

section
variable (hcrates : CratesAgree)
include hcrates

theorem verify_seals_iff {receipt : EvidenceReceipt} {L : AuditLedger} {start stop : UInt64}
    (hseals : Seals receipt L start stop) :
    ∃ verifier, Ed25519Verifier.fromReceipt receipt = .ok verifier ∧
      (∃ head rest, splitAtByte receipt.proverPubkeyHex.toList 16 = some (head, rest)) ∧
      ∀ L' : AuditLedger, verifier.verify receipt L' = .ok () ↔
        (.ofNat L'.len : UInt64) = .ofNat L.len ∧ stop.toNat < L'.len ∧
          windowMerkleRoot L' start stop = windowMerkleRoot L start stop := by
  obtain ⟨signing, label, nowMs, hseal⟩ := hseals
  obtain ⟨hle, -⟩ := (sealWithOptions_ok_iff signing L start stop _ nowMs).mp ⟨receipt, hseal⟩
  unfold sealWithOptions at hseal
  obtain ⟨-, hseal⟩ := refuse_eq_ok.mp hseal
  obtain rfl := Except.ok.inj hseal
  refine ⟨⟨Ed25519.verifyingKey signing⟩, ?_, ?_, fun L' => ?_⟩
  · refine bind_eq_ok.mpr ⟨_, mapError_eq_ok.mpr (decodeFixedHex_encode hcrates.hex _ _), ?_⟩
    exact bind_eq_ok.mpr ⟨_, mapError_eq_ok.mpr (hcrates.key signing), rfl⟩
  · obtain ⟨p, hp⟩ := Option.isSome_iff_exists.mp
      (hcrates.slice (Ed25519.toBytes (Ed25519.verifyingKey signing)))
    exact ⟨p.1, p.2, hp⟩
  rw [Ed25519Verifier.verify_ok_iff]
  constructor
  · intro h
    obtain ⟨key, sig, hv⟩ := h
    refine ⟨hv.len.symm, hv.lt, ?_⟩
    exact Except.ok.inj (hv.rootHex.symm.trans (decodeFixedHex_encode hcrates.hex _ _))
  · intro h
    obtain ⟨hlen, hlt, hroot⟩ := h
    refine ⟨Ed25519.toBytes (Ed25519.verifyingKey signing),
      Ed25519.sign signing (sealBinding signing L start stop).toList, rfl, hlen.symm, hle, hlt, ?_,
      decodeFixedHex_encode hcrates.hex _ _, decodeFixedHex_encode hcrates.hex _ _, ?_,
      fun inc hinc => absurd hinc List.not_mem_nil⟩
    · rw [hroot]
      exact decodeFixedHex_encode hcrates.hex _ _
    · rw [hroot]
      exact hcrates.sign signing _

/-- **when the tool accepts a sealed receipt** -/
theorem verifyCmd_ok_iff {files : Files} {out : String} {L : AuditLedger} {start stop : UInt64}
    (hholds : Holds files out L start stop) (path : String) :
    (verifyCmd files path out).Ok ↔ ∃ L', readLedger files path = .ok L' ∧
      (.ofNat L'.len : UInt64) = .ofNat L.len ∧ stop.toNat < L'.len ∧
        windowMerkleRoot L' start stop = windowMerkleRoot L start stop := by
  obtain ⟨receipt, text, hfile, htext, hseals⟩ := hholds
  obtain ⟨verifier, hfrom, ⟨head, rest, hslice⟩, hverify⟩ := verify_seals_iff hcrates hseals
  have hread : readToString files out = .ok text := by
    unfold readToString
    rw [hfile]
  have hok : (verifyCmd files path out).Ok ↔ verifyReceipt files path out = .ok receipt := by
    unfold verifyCmd
    cases hreceipt : verifyReceipt files path out with
    | error e => exact ⟨fun ⟨_, h⟩ => (nomatch h), fun h => (nomatch h)⟩
    | ok receipt' =>
      have hsame : receipt' = receipt := by
        unfold verifyReceipt at hreceipt
        obtain ⟨L', -, hreceipt⟩ := bind_eq_ok.mp hreceipt
        obtain ⟨text', htext', hreceipt⟩ := bind_eq_ok.mp hreceipt
        obtain rfl := Except.ok.inj (hread.symm.trans (mapError_eq_ok.mp htext'))
        obtain ⟨read, hparse, hreceipt⟩ := bind_eq_ok.mp hreceipt
        obtain rfl := Except.ok.inj
          ((hcrates.json receipt text htext).symm.trans (mapError_eq_ok.mp hparse))
        obtain ⟨_, -, hreceipt⟩ := bind_eq_ok.mp hreceipt
        obtain ⟨_, -, hreceipt⟩ := bind_eq_ok.mp hreceipt
        exact (Except.ok.inj hreceipt).symm
      subst hsame
      simp only [hslice]
      exact ⟨fun _ => trivial, fun _ => ⟨_, rfl⟩⟩
  rw [hok]
  unfold verifyReceipt
  constructor
  · intro h
    obtain ⟨L', hL', h⟩ := bind_eq_ok.mp h
    obtain ⟨text', htext', h⟩ := bind_eq_ok.mp h
    obtain rfl := Except.ok.inj (hread.symm.trans (mapError_eq_ok.mp htext'))
    obtain ⟨read, hparse, h⟩ := bind_eq_ok.mp h
    obtain rfl := Except.ok.inj
      ((hcrates.json receipt text htext).symm.trans (mapError_eq_ok.mp hparse))
    obtain ⟨verifier', hfrom', h⟩ := bind_eq_ok.mp h
    obtain rfl := Except.ok.inj (hfrom.symm.trans (mapError_eq_ok.mp hfrom'))
    obtain ⟨_, hverified, -⟩ := bind_eq_ok.mp h
    exact ⟨L', hL', (hverify L').mp (mapError_eq_ok.mp hverified)⟩
  · intro h
    obtain ⟨L', hL', h⟩ := h
    refine bind_eq_ok.mpr ⟨L', hL', ?_⟩
    refine bind_eq_ok.mpr ⟨text, mapError_eq_ok.mpr hread, ?_⟩
    refine bind_eq_ok.mpr ⟨receipt, mapError_eq_ok.mpr (hcrates.json receipt text htext), ?_⟩
    refine bind_eq_ok.mpr ⟨verifier, mapError_eq_ok.mpr hfrom, ?_⟩
    exact bind_eq_ok.mpr ⟨(), mapError_eq_ok.mpr ((hverify L').mpr h), rfl⟩

end
/-! ## the window's root and the entries up to its end -/

theorem take_selfHash (es : List AuditEntry) (n : Nat) :
    ((ofEntries es).entries.map LedgerEntry.selfHash).take n =
      (sealFrom 0 .zero (es.take n)).map LedgerEntry.selfHash := by
  rw [entries_ofEntries, ← List.map_take, take_sealFrom]

theorem windowMerkleRoot_eq_iff {strings : Set (List UInt8)} {recorded : Set AuditEntry}
    (hfree : CollisionFree strings) (hjson : Set.InjOn canonical recorded)
    {es fs : List AuditEntry} {start stop : UInt64} {key : Vector UInt8 32}
    (hes : ∀ b ∈ sealInputs (ofEntries es) start stop key, b ∈ strings)
    (hes' : ∀ e ∈ es, e ∈ recorded)
    (hfs : ∀ b ∈ sealInputs (ofEntries fs) start stop key, b ∈ strings)
    (hfs' : ∀ e ∈ fs, e ∈ recorded) (hle : start ≤ stop) (hlt : stop.toNat < es.length) :
    stop.toNat < fs.length ∧ windowMerkleRoot (ofEntries fs) start stop =
      windowMerkleRoot (ofEntries es) start stop ↔
        fs.take (stop.toNat + 1) = es.take (stop.toNat + 1) := by
  have hltE : stop.toNat < (ofEntries es).len := hlt.trans_eq (length_ofEntries es).symm
  constructor
  · intro h
    obtain ⟨hltF, hroot⟩ := h
    have hltF' : stop.toNat < (ofEntries fs).len := hltF.trans_eq (length_ofEntries fs).symm
    exact take_eq_of_windowMerkleRoot hfree hjson hfs hfs' hes hes' hle hltF' hltE hroot
  · intro h
    have hltF : stop.toNat < fs.length := by
      have hlen := congrArg List.length h
      rw [List.length_take, List.length_take] at hlen
      omega
    refine ⟨hltF, ?_⟩
    rw [windowMerkleRoot_eq _ hle hltE,
      windowMerkleRoot_eq _ hle (hltF.trans_eq (length_ofEntries fs).symm)]
    unfold windowHeads
    rw [take_selfHash, take_selfHash, h]

/-! ## the ledger is edited -/

/-- the strings that sealing the entries, or verifying those in the file, hashes -/
def stringsHashed (es : List AuditEntry) (files : Files) (path : String) (start stop : UInt64)
    (key : Vector UInt8 32) : Set (List UInt8) :=
  {b | b ∈ sealInputs (ofEntries es) start stop key ∨
    ∃ fs, readLedger files path = .ok (ofEntries fs) ∧
      b ∈ sealInputs (ofEntries fs) start stop key}

/-- the entries, and those in the file -/
def entriesHashed (es : List AuditEntry) (files : Files) (path : String) : Set AuditEntry :=
  {e | e ∈ es ∨ ∃ fs, readLedger files path = .ok (ofEntries fs) ∧ e ∈ fs}

/-- the file that a command may write over -/
def Command.out : Command → Option String
  | .keygen _ => none
  | .seal _ _ _ _ _ out => some out
  | .verify _ _ => none

/-- **a file stays, unless a seal writes it**; a key is never written over a file -/
theorem step_file {files : Files} {path : String} (h : (files path).isSome) {c : Env × Command}
    (hc : c.2.out ≠ some path) : step files c path = files path := by
  obtain ⟨env, c⟩ := c
  cases c with
  | keygen secretOut =>
    show (keygen env files secretOut).2 path = files path
    unfold keygen
    by_cases hs : (files secretOut).isSome
    · rw [if_pos hs]
    · rw [if_neg hs]
      have hne : path ≠ secretOut := fun heq => hs (heq ▸ h)
      simp only [write]
      rcases env.written with ⟨e, left⟩ | u
      · exact Function.update_of_ne hne _ _
      · exact Function.update_of_ne hne _ _
  | «seal» ledger secret start stop label out =>
    exact sealCmd_other env files ledger secret start stop label fun heq =>
      hc (congrArg some heq.symm)
  | verify ledger receipt => rfl

theorem run_file {files : Files} {path text : String} (h : files path = some text)
    {cs : List (Env × Command)} (hcs : ∀ c ∈ cs, c.2.out ≠ some path) :
    Lib.run step files cs path = some text := by
  have hkeeps : ∀ (files : Files) (c : Env × Command), files path = some text →
      c.2.out ≠ some path → step files c path = some text := fun files c h hc =>
    (step_file (h ▸ rfl) hc).trans h
  refine run_invariant_of hkeeps h (fun t c hc => ?_) _ (stateOf_last _ cs)
  obtain ⟨pre, post, rfl, -⟩ := hc
  exact hcs c (List.mem_append_right pre List.mem_cons_self)

/-- the command does not write the ledger, and seals into the receipt's file no other ledger, and
without a write that fails -/
def Leaves (path out : String) (c : Env × Command) : Prop :=
  match c.2 with
  | .keygen _ => True
  | .seal ledger _ _ _ _ out' => out' ≠ path ∧ (out' = out → ledger = path ∧ c.1.written = .ok ())
  | .verify _ _ => True

theorem Leaves.out {path out : String} {c : Env × Command} (h : Leaves path out c) :
    c.2.out ≠ some path := by
  obtain ⟨env, c⟩ := c
  cases c with
  | keygen secretOut => exact nofun
  | «seal» ledger secret start stop label out' => exact fun heq => h.1 (Option.some.inj heq)
  | verify ledger receipt => exact nofun

/-- the ledger is there, and the other file holds a receipt of it -/
structure Sealed (L : AuditLedger) (path out : String) (files : Files) : Prop where
  ledger : readLedger files path = .ok L
  receipt : ∃ start stop, Holds files out L start stop

theorem Holds.congr {files files' : Files} {out : String} {L : AuditLedger} {start stop : UInt64}
    (h : Holds files out L start stop) (hfile : files' out = files out) :
    Holds files' out L start stop := by
  obtain ⟨receipt, text, htext, hprinted, hseals⟩ := h
  exact ⟨receipt, text, hfile.trans htext, hprinted, hseals⟩

theorem isSome_of_readLedger {files : Files} {path : String} {L : AuditLedger}
    (h : readLedger files path = .ok L) : (files path).isSome := by
  unfold readLedger readToString at h
  cases hfile : files path with
  | none =>
    rw [hfile] at h
    cases h
  | some text => rfl

theorem Sealed.step {L : AuditLedger} {path out : String} {files : Files}
    (h : Sealed L path out files) {c : Env × Command} (hc : Leaves path out c) :
    Sealed L path out (step files c) := by
  refine ⟨readLedger_congr (step_file (isSome_of_readLedger h.ledger) hc.out) h.ledger, ?_⟩
  obtain ⟨start, stop, hholds⟩ := h.receipt
  have hsome : (files out).isSome := by
    obtain ⟨_, text, htext, -, -⟩ := hholds
    rw [htext]
    rfl
  by_cases hwrites : c.2.out = some out
  · obtain ⟨env, c⟩ := c
    cases c with
    | keygen secretOut => cases hwrites
    | «seal» ledger secret start' stop' label out' =>
      obtain rfl := Option.some.inj hwrites
      obtain ⟨rfl, hwritten⟩ := hc.2 rfl
      rcases sealCmd_cases env files ledger secret start' stop' label out' with
        ⟨-, hfiles, -⟩ | ⟨-, e, left, hfailed, -⟩ | ⟨-, -, L', _, text, hsealed, hfiles⟩
      · exact ⟨start, stop, hholds.congr (congrFun hfiles out')⟩
      · rw [hwritten] at hfailed
        cases hfailed
      · have hfile : Cli.step files (env, .seal ledger secret start' stop' label out') out' =
            some text := (congrFun hfiles out').trans (Function.update_self out' (some text) files)
        obtain ⟨hL', hholds'⟩ := holds_of_sealLedger hsealed hfile
        obtain rfl := Except.ok.inj (hL'.symm.trans h.ledger)
        exact ⟨start', _, hholds'⟩
    | verify ledger receipt => cases hwrites
  · exact ⟨start, stop, hholds.congr (step_file hsome hwrites)⟩

theorem keygen_cases (env : Env) (files : Files) (secretOut : String) :
    ¬ (keygen env files secretOut).1.Ok ∨
      (keygen env files secretOut).2 secretOut =
        some (Hex.encode (Crates.secretBytes env.signing).toList ++ "\n") := by
  unfold keygen
  by_cases hs : (files secretOut).isSome
  · rw [if_pos hs]
    exact Or.inl (not_ok_failure _)
  · rw [if_neg hs]
    simp only [write]
    rcases env.written with ⟨e, left⟩ | u
    · exact Or.inl (not_ok_failure _)
    · exact Or.inr (Function.update_self secretOut _ files)

end

/-! ## a sample

The ledger of the three sample entries, a key made by the tool, and the window from the entry 1.
-/

section
attribute [local instance] Sample.evidenceBlake3 Sample.json Sample.hex Sample.ed25519

/-- the receipt of the sample, printed as one word -/
@[reducible] noncomputable def sampleCrates : Crates where
  parseLedger text := if text = "ledger" then .ok (numbered 0 Sample.entries) else .error ""
  toStringPretty receipt :=
    open Classical in
    if sealWithOptions () (ofEntries Sample.entries) 1 2 ⟨none, []⟩ 1700000000000 = .ok receipt
    then .ok "receipt" else .error ""
  parseReceipt _ := (sealWithOptions () (ofEntries Sample.entries) 1 2 ⟨none, []⟩
    1700000000000).mapError fun _ => ""
  secretBytes _ := Sample.pubkey
  ofSecretBytes _ := ()
  hexText _ := ""
  signatureText _ := ""
  notFound := ""

attribute [local instance] sampleCrates

def sampleEnv : Env := ⟨(), 1700000000000, .ok ()⟩

def ledgerFile : Files := fun path => if path = "ledger.json" then some "ledger" else none

/-- a key is made, and the ledger is verified against a receipt that is not there yet -/
noncomputable def keyedFiles : Files :=
  Lib.run step (keygen sampleEnv ledgerFile "secret").2
    [(sampleEnv, .verify "ledger.json" "r.json")]

theorem cratesAgree_sample : CratesAgree where
  hex := Sample.decode_encode
  hexLength b := by
    show (String.ofList _).toList.length = _
    rw [String.toList_ofList]
    induction b with
    | nil => rfl
    | cons x b ih =>
      rw [List.flatMap_cons, List.length_append, ih]
      show 2 + 2 * b.length = 2 * (b.length + 1)
      omega
  hexDigits b c hc := by
    have hc' : c ∈ (String.ofList _).toList := hc
    rw [String.toList_ofList] at hc'
    obtain ⟨x, -, hc⟩ := List.mem_flatMap.mp hc'
    have hdigit : ∀ n < 16, Sample.hexDigit n ∈ "0123456789abcdef".toList := by decide +kernel
    have hx := x.toNat_lt
    rcases List.mem_cons.mp hc with rfl | hc
    · exact hdigit _ (by omega)
    · rw [List.mem_singleton.mp hc]
      exact hdigit _ (by omega)
  secret _ := rfl
  sign _ _ := if_pos rfl
  key _ := if_pos rfl
  json receipt text h := by
    by_cases hreceipt : sealWithOptions () (ofEntries Sample.entries) 1 2 ⟨none, []⟩ 1700000000000 =
        .ok receipt
    · show (sealWithOptions () (ofEntries Sample.entries) 1 2 ⟨none, []⟩
        1700000000000).mapError _ = _
      rw [hreceipt]
      rfl
    · have hnone : (Crates.toStringPretty receipt : Except String String) = .error "" :=
        if_neg hreceipt
      rw [hnone] at h
      cases h

theorem readLedger_sample :
    readLedger keyedFiles "ledger.json" = .ok (ofEntries Sample.entries) := by
  have hfile : readToString keyedFiles "ledger.json" = .ok "ledger" := rfl
  refine bind_eq_ok.mpr ⟨"ledger", mapError_eq_ok.mpr hfile, ?_⟩
  exact bind_eq_ok.mpr ⟨_, mapError_eq_ok.mpr (if_pos rfl),
    rebuildFrom_numbered .new Sample.entries⟩

theorem sealed_sample : ∃ receipt,
    sealWithOptions () (ofEntries Sample.entries) 1 2 ⟨none, []⟩ 1700000000000 = .ok receipt ∧
      (Crates.toStringPretty receipt : Except String String) = .ok "receipt" := by
  obtain ⟨receipt, hseal⟩ := (sealWithOptions_ok_iff () (ofEntries Sample.entries) 1 2
    ⟨none, []⟩ 1700000000000).mpr (by decide +kernel)
  exact ⟨receipt, hseal, if_pos hseal⟩

theorem windowEnd_sample : windowEnd (ofEntries Sample.entries) none = 2 := by decide +kernel

theorem seal_ok_sample :
    (sealCmd sampleEnv keyedFiles "ledger.json" "secret" 1 none none "receipt.json").1.Ok := by
  obtain ⟨receipt, hseal, htext⟩ := sealed_sample
  have hfile : keyedFiles "secret" =
      some (Hex.encode (Crates.secretBytes ()).toList ++ "\n") := rfl
  have hload : loadProver keyedFiles "secret" = .ok () := cratesAgree_sample.loadProver hfile
  have hlen : (ofEntries Sample.entries).len ≠ 0 := by decide +kernel
  have hsealed : sealLedger sampleEnv keyedFiles "ledger.json" "secret" 1 none none =
      .ok (ofEntries Sample.entries, receipt, "receipt") := by
    refine sealLedger_ok_iff.mpr ⟨readLedger_sample, hlen, (), hload, ?_, htext⟩
    rw [windowEnd_sample]
    exact hseal
  rcases sealCmd_cases sampleEnv keyedFiles "ledger.json" "secret" 1 none none "receipt.json" with
    ⟨-, -, e, herror⟩ | ⟨-, e, left, hfailed, -⟩ | ⟨hok, -⟩
  · rw [hsealed] at herror
    cases herror
  · cases hfailed
  · exact hok

end
end Epica.Cli
