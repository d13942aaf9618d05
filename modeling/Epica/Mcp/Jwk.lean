import Epica.Core.Belief
import Epica.Lib.Base64
import Mathlib.Data.Nat.Digits.Defs

/-!
# The published RSA key

`base64url` encodes three bytes at a time; its lookups and indices may fail, which is a panic
(`none`).  `extractRsaJwk` reads a public key from its PEM text and encodes its two numbers.  The
RSA keys and `toBytesBe`, the bytes of a number, are parameters.

* `base64url_eq`        `base64url` never panics, and is the encoding of `Lib/Base64`;
* `base64url_rfc4648`   its length, its alphabet, that decoding undoes it, and that the published
                        `n` and `e` denote the numbers of the key.
-/

set_option linter.unusedSectionVars false

namespace Epica
open Lib

/-! ## `base64url` -/

def table : List Char :=
  "ABCDEFGHIJKLMNOPQRSTUVWXYZabcdefghijklmnopqrstuvwxyz0123456789-_".toList

/-- `chunks(3)` -/
def chunks3 : List UInt8 → List (List UInt8)
  | b₀ :: b₁ :: b₂ :: bytes => [b₀, b₁, b₂] :: chunks3 bytes
  | [] => []
  | bytes => [bytes]

/-- one round of the loop -/
def pushChunk (out : String) (chunk : List UInt8) : Option String := do
  let b₀ ← chunk[0]?.map UInt8.toNat
  let b₁ ← if 1 < chunk.length then chunk[1]?.map UInt8.toNat else some 0
  let b₂ ← if 2 < chunk.length then chunk[2]?.map UInt8.toNat else some 0
  let out := out.push (← table[b₀ >>> 2]?)
  let out := out.push (← table[((b₀ &&& 3) <<< 4) ||| (b₁ >>> 4)]?)
  let out ← if 1 < chunk.length then
      table[((b₁ &&& 0xf) <<< 2) ||| (b₂ >>> 6)]?.map out.push
    else some out
  if 2 < chunk.length then table[b₂ &&& 0x3f]?.map out.push else some out

def base64url (bytes : List UInt8) : Option String := (chunks3 bytes).foldlM pushChunk ""

/-! ### the four digits of three bytes -/

theorem table_symbol : ∀ v < 64, table[v]? = some (Base64.symbol v) := by decide +kernel

section
variable {a b c : Nat}

theorem testBit_byte (ha : a < 256) {i : Nat} (hi : 8 ≤ i) : a.testBit i = false :=
  Nat.testBit_lt_two_pow (Nat.lt_of_lt_of_le ha (Nat.pow_le_pow_right (n := 2) (by decide) hi))

/-- the two bits of the byte before, and four of the next -/
theorem bits_second (hb : b < 256) : Base64.bits 6 (((a &&& 3) <<< 4) ||| (b >>> 4)) =
    [a.testBit 1, a.testBit 0, b.testBit 7, b.testBit 6, b.testBit 5, b.testBit 4] := by
  have h3 : ∀ i, (3).testBit i = decide (i < 2) := Nat.testBit_two_pow_sub_one 2
  simp [Base64.bits, List.range_succ, h3, testBit_byte hb]

theorem bits_third (hc : c < 256) : Base64.bits 6 (((b &&& 0xf) <<< 2) ||| (c >>> 6)) =
    [b.testBit 3, b.testBit 2, b.testBit 1, b.testBit 0, c.testBit 7, c.testBit 6] := by
  have h15 : ∀ i, (0xf).testBit i = decide (i < 4) := Nat.testBit_two_pow_sub_one 4
  simp [Base64.bits, List.range_succ, h15, testBit_byte hc]

theorem bits_fourth : Base64.bits 6 (c &&& 0x3f) =
    [c.testBit 5, c.testBit 4, c.testBit 3, c.testBit 2, c.testBit 1, c.testBit 0] := by
  have h63 : ∀ i, (0x3f).testBit i = decide (i < 6) := Nat.testBit_two_pow_sub_one 6
  simp [Base64.bits, List.range_succ, h63]

theorem bits_first : Base64.bits 6 (a >>> 2) =
    [a.testBit 7, a.testBit 6, a.testBit 5, a.testBit 4, a.testBit 3, a.testBit 2] := by
  simp [Base64.bits, List.range_succ]

theorem first_lt (ha : a < 256) : a >>> 2 < 64 := by
  rw [Nat.shiftRight_eq_div_pow]
  omega

theorem second_lt (hb : b < 256) : ((a &&& 3) <<< 4) ||| (b >>> 4) < 64 := by
  have ha : a &&& 3 ≤ 3 := Nat.and_le_right
  apply Nat.or_lt_two_pow (n := 6)
  · rw [Nat.shiftLeft_eq]
    omega
  · rw [Nat.shiftRight_eq_div_pow]
    omega

theorem third_lt (hc : c < 256) : ((b &&& 0xf) <<< 2) ||| (c >>> 6) < 64 := by
  have hb : b &&& 0xf ≤ 0xf := Nat.and_le_right
  apply Nat.or_lt_two_pow (n := 6)
  · rw [Nat.shiftLeft_eq]
    omega
  · rw [Nat.shiftRight_eq_div_pow]
    omega

theorem fourth_lt : c &&& 0x3f < 64 := Nat.and_lt_two_pow (n := 6) c (by decide)

theorem sextets_three (ha : a < 256) (hb : b < 256) (hc : c < 256) (bs : List Bool) :
    Base64.sextets (Base64.bits 8 a ++ (Base64.bits 8 b ++ (Base64.bits 8 c ++ bs))) =
      a >>> 2 :: ((a &&& 3) <<< 4 ||| b >>> 4) :: ((b &&& 0xf) <<< 2 ||| c >>> 6) ::
        (c &&& 0x3f) :: Base64.sextets bs := by
  rw [← Base64.ofBits_bits 6 _ (first_lt ha), ← Base64.ofBits_bits 6 _ (second_lt hb),
    ← Base64.ofBits_bits 6 _ (third_lt hc), ← Base64.ofBits_bits 6 _ fourth_lt, bits_first,
    bits_second hb, bits_third hc, bits_fourth]
  rfl

theorem sextets_two (ha : a < 256) (hb : b < 256) :
    Base64.sextets (Base64.bits 8 a ++ Base64.bits 8 b) =
      [a >>> 2, (a &&& 3) <<< 4 ||| b >>> 4, (b &&& 0xf) <<< 2 ||| 0 >>> 6] := by
  have h0 : 0 < 256 := by decide
  rw [← Base64.ofBits_bits 6 _ (first_lt ha), ← Base64.ofBits_bits 6 _ (second_lt hb),
    ← Base64.ofBits_bits 6 _ (third_lt h0), bits_first, bits_second hb, bits_third h0]
  rfl

theorem sextets_one (ha : a < 256) :
    Base64.sextets (Base64.bits 8 a) = [a >>> 2, (a &&& 3) <<< 4 ||| 0 >>> 4] := by
  have h0 : 0 < 256 := by decide
  rw [← Base64.ofBits_bits 6 _ (first_lt ha), ← Base64.ofBits_bits 6 _ (second_lt h0), bits_first,
    bits_second h0]
  rfl

end

/-! ### the loop -/

theorem pushChunk_three (out : String) (a b c : UInt8) : pushChunk out [a, b, c] =
    some (out ++ .ofList ((Base64.sextets (Base64.bits 8 a.toNat ++ (Base64.bits 8 b.toNat ++
      (Base64.bits 8 c.toNat ++ [])))).map Base64.symbol)) := by
  have h₁ := table_symbol _ (first_lt a.toNat_lt)
  have h₂ := table_symbol _ (second_lt (a := a.toNat) b.toNat_lt)
  have h₃ := table_symbol _ (third_lt (b := b.toNat) c.toNat_lt)
  have h₄ := table_symbol _ (fourth_lt (c := c.toNat))
  rw [sextets_three a.toNat_lt b.toNat_lt c.toNat_lt]
  simp [pushChunk, h₁, h₂, h₃, h₄, Base64.sextets, ← String.toList_inj]

theorem pushChunk_two (out : String) (a b : UInt8) : pushChunk out [a, b] =
    some (out ++ .ofList ((Base64.sextets
      (Base64.bits 8 a.toNat ++ Base64.bits 8 b.toNat)).map Base64.symbol)) := by
  have h₁ := table_symbol _ (first_lt a.toNat_lt)
  have h₂ := table_symbol _ (second_lt (a := a.toNat) b.toNat_lt)
  have h₃ := table_symbol _ (third_lt (b := b.toNat) (c := 0) (by decide))
  rw [Nat.zero_shiftRight, Nat.or_zero] at h₃
  rw [sextets_two a.toNat_lt b.toNat_lt]
  simp [pushChunk, h₁, h₂, h₃, ← String.toList_inj]

theorem pushChunk_one (out : String) (a : UInt8) : pushChunk out [a] =
    some (out ++ .ofList ((Base64.sextets (Base64.bits 8 a.toNat)).map Base64.symbol)) := by
  have h₁ := table_symbol _ (first_lt a.toNat_lt)
  have h₂ := table_symbol _ (second_lt (a := a.toNat) (b := 0) (by decide))
  rw [Nat.zero_shiftRight, Nat.or_zero] at h₂
  rw [sextets_one a.toNat_lt]
  simp [pushChunk, h₁, h₂, ← String.toList_inj]

theorem foldlM_pushChunk (bytes : List UInt8) (out : String) :
    (chunks3 bytes).foldlM pushChunk out = some (out ++ Base64.encode bytes) := by
  unfold Base64.encode
  match bytes with
  | [] => exact congrArg some String.append_empty.symm
  | [a] =>
    show [[a]].foldlM pushChunk out = _
    rw [List.foldlM_cons, pushChunk_one, List.flatMap_cons, List.flatMap_nil, List.append_nil]
    rfl
  | [a, b] =>
    show [[a, b]].foldlM pushChunk out = _
    rw [List.foldlM_cons, pushChunk_two, List.flatMap_cons, List.flatMap_cons, List.flatMap_nil,
      List.append_nil]
    rfl
  | a :: b :: c :: bytes =>
    have hrest := foldlM_pushChunk bytes
    unfold Base64.encode at hrest
    rw [chunks3, List.foldlM_cons, pushChunk_three, Option.bind_eq_bind, Option.bind_some, hrest,
      List.flatMap_cons, List.flatMap_cons, List.flatMap_cons,
      sextets_three a.toNat_lt b.toNat_lt c.toNat_lt,
      sextets_three a.toNat_lt b.toNat_lt c.toNat_lt]
    apply congrArg some
    apply String.toList_injective
    simp [Base64.sextets]

/-- **`base64url` never panics, and is the encoding** -/
theorem base64url_eq (bytes : List UInt8) : base64url bytes = some (Base64.encode bytes) := by
  unfold base64url
  rw [foldlM_pushChunk, String.empty_append]

example : base64url [1, 0, 1] = some "AQAB" := by decide +kernel

/-! ## the key set -/

/-- RSA public keys: their PEM texts and the two numbers of a key -/
class Rsa (Key : Type) where
  fromPublicKeyPem : String → Option Key
  fromPkcs1Pem : String → Except String Key
  n : Key → Nat
  e : Key → Nat

/-- the bytes of a number -/
class BigUint where
  toBytesBe : Nat → List UInt8

inductive JwtAlgorithm where
  | hs256 (secret : String)
  | rs256 (publicKeyPem kid : String)

structure AuthConfig where
  algorithm : JwtAlgorithm

section
variable (Key : Type) [Rsa Key] [BigUint]

/-- both formats are tried, and the error is that of the second -/
def parsePem (pem : String) : Except String Key :=
  match Rsa.fromPublicKeyPem pem with
  | some key => .ok key
  | none => (Rsa.fromPkcs1Pem pem).mapError fun e => s!"failed to parse RSA public key PEM: {e}"

def extractRsaJwk (pem kid : String) : Option (Except String Json) :=
  match parsePem Key pem with
  | .error e => some (.error e)
  | .ok publicKey => do
    let n ← base64url (BigUint.toBytesBe (Rsa.n publicKey))
    let e ← base64url (BigUint.toBytesBe (Rsa.e publicKey))
    some (.ok (.object [("kty", .string "RSA"), ("use", .string "sig"), ("alg", .string "RS256"),
      ("kid", .string kid), ("n", .string n), ("e", .string e)]))

def AuthConfig.jwksResponse (config : AuthConfig) : Option Json :=
  match config.algorithm with
  | .hs256 _ => some (.object [("keys", .array [.object [("kty", .string "oct"),
      ("use", .string "sig"), ("alg", .string "HS256"), ("kid", .string "epica-dev-1"),
      ("_note", .string ("HS256 symmetric dev key — no public component. " ++
        "Set EPICA_JWT_ALG=rs256 for production JWKS rotation."))]])])
  | .rs256 pem kid =>
    (extractRsaJwk Key pem kid).map fun
      | .ok jwk => .object [("keys", .array [jwk])]
      | .error e => .object [("keys", .array []),
          ("error", .string s!"JWK serialization failed: {e}")]

end

/-- the number of which these are the bytes -/
def ofBytesBe (bytes : List UInt8) : Nat := bytes.foldl (fun v b => 256 * v + b.toNat) 0

def Json.field? (name : String) : Json → Option Json
  | .object fields => (fields.find? fun f => f.1 = name).map Prod.snd
  | _ => none

/-- the field is the text of the number -/
def Denotes (jwk : Json) (name : String) (value : Nat) : Prop :=
  ∃ s bytes, jwk.field? name = some (.string s) ∧ Base64.decode s = some bytes ∧
    ofBytesBe bytes = value

theorem base64url_injective : Function.Injective base64url := by
  intro a b h
  rw [base64url_eq, base64url_eq] at h
  have hdecode := congrArg Base64.decode (Option.some.inj h)
  rw [Base64.decode_encode, Base64.decode_encode] at hdecode
  exact Option.some.inj hdecode

/-- **`base64url` is base64url without padding**: for `n` bytes the digits are `4n/3`, rounded up,
all are URL-safe, and decoding returns the bytes; so no two byte strings have one encoding, and
the published `n` and `e` denote the modulus and the exponent of the key -/
theorem base64url_rfc4648 (Key : Type) [Rsa Key] [BigUint]
    (hbe : ∀ x, ofBytesBe (BigUint.toBytesBe x) = x) :
    (∀ bytes, ∃ s, base64url bytes = some s ∧ s.toList.length = (4 * bytes.length + 2) / 3 ∧
        (∀ c ∈ s.toList, Base64.urlSafe c = true) ∧ Base64.decode s = some bytes) ∧
      Function.Injective base64url ∧
      ∀ pem kid (key : Key), parsePem Key pem = .ok key →
        ∃ jwk, AuthConfig.jwksResponse Key ⟨.rs256 pem kid⟩ =
            some (.object [("keys", .array [jwk])]) ∧
          Denotes jwk "n" (Rsa.n key) ∧ Denotes jwk "e" (Rsa.e key) := by
  refine ⟨fun bytes => ?_, base64url_injective, fun pem kid key hkey => ?_⟩
  · exact ⟨Base64.encode bytes, base64url_eq bytes, Base64.length_encode bytes,
      Base64.encode_urlSafe bytes, Base64.decode_encode bytes⟩
  · unfold AuthConfig.jwksResponse extractRsaJwk
    simp only [hkey, base64url_eq]
    refine ⟨_, rfl, ?_, ?_⟩
    · exact ⟨_, _, rfl, Base64.decode_encode _, hbe (Rsa.n key)⟩
    · exact ⟨_, _, rfl, Base64.decode_encode _, hbe (Rsa.e key)⟩

/-! ### a small key -/

namespace Sample

/-- `[0]` for zero -/
@[reducible] def bigUint : BigUint where
  toBytesBe x := if x = 0 then [0] else (Nat.digits 256 x).reverse.map UInt8.ofNat

theorem foldr_ofNat (ds : List Nat) (h : ∀ d ∈ ds, d < 256) :
    ds.foldr (fun d v => 256 * v + (UInt8.ofNat d).toNat) 0 = Nat.ofDigits 256 ds := by
  induction ds with
  | nil => rfl
  | cons d ds ih =>
    have hd : d < 256 := h d List.mem_cons_self
    rw [List.foldr_cons, ih fun d' hd' => h d' (List.mem_cons_of_mem _ hd'), Nat.ofDigits_cons,
      UInt8.toNat_ofNat_of_lt' hd, Nat.add_comm]

theorem ofBytesBe_toBytesBe (x : Nat) : ofBytesBe (bigUint.toBytesBe x) = x := by
  show ofBytesBe (if x = 0 then [0] else _) = x
  by_cases hx : x = 0
  · rw [if_pos hx, hx]
    rfl
  · rw [if_neg hx]
    unfold ofBytesBe
    rw [List.foldl_map, List.foldl_reverse,
      foldr_ofNat _ fun d hd => Nat.digits_lt_base (by decide) hd]
    exact Nat.ofDigits_digits 256 x

/-- one key, 61 · 53 and 17 -/
@[reducible] def rsa : Rsa (Nat × Nat) where
  fromPublicKeyPem pem := if pem = "KEY" then some (3233, 17) else none
  fromPkcs1Pem _ := .error "ASN.1 error"
  n := Prod.fst
  e := Prod.snd

end Sample

section
attribute [local instance] Sample.bigUint Sample.rsa

theorem base64url_rfc4648_small : ∃ jwk,
    AuthConfig.jwksResponse (Nat × Nat) ⟨.rs256 "KEY" "epica-rs256-1"⟩ =
        some (.object [("keys", .array [jwk])]) ∧
      Denotes jwk "n" 3233 ∧ Denotes jwk "e" 17 :=
  (base64url_rfc4648 (Nat × Nat) Sample.ofBytesBe_toBytesBe).2.2 "KEY" "epica-rs256-1" (3233, 17)
    rfl

end
end Epica
