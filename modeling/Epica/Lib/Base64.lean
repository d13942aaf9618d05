import Mathlib.Data.List.Induction
import Mathlib.Algebra.Ring.Nat

/-!
# Base64url without padding (RFC 4648 §5)

The bits of the bytes, first to last, are read six at a time; what is left at the end is filled
with zeros.  Decoding reads the bits of the digits eight at a time and accepts fewer than six
zeros that are left.

* `decode_encode`       decoding undoes encoding;
* `length_encode`       a third more digits than bytes, rounded up;
* `encode_urlSafe`      all of them letters, numerals, `-` and `_`.
-/

set_option linter.unusedSectionVars false

namespace Lib.Base64

/-! ## bits -/

/-- the last `w` bits of a number, the most significant first -/
def bits (w v : Nat) : List Bool := (List.range w).reverse.map v.testBit

/-- the number with these bits -/
def ofBits (bs : List Bool) : Nat := bs.foldl (fun v b => 2 * v + b.toNat) 0

theorem ofBits_concat (bs : List Bool) (b : Bool) :
    ofBits (bs ++ [b]) = 2 * ofBits bs + b.toNat := List.foldl_append

theorem bits_succ (w v : Nat) : bits (w + 1) v = bits w (v / 2) ++ [v.testBit 0] := by
  unfold bits
  rw [List.range_succ_eq_map, List.reverse_cons, List.map_append, ← List.map_reverse, List.map_map]
  have hshift : v.testBit ∘ Nat.succ = (v / 2).testBit := funext fun i => Nat.testBit_succ v i
  rw [hshift]
  rfl

theorem length_bits (w v : Nat) : (bits w v).length = w := by simp [bits]

theorem ofBits_bits (w v : Nat) (hv : v < 2 ^ w) : ofBits (bits w v) = v := by
  induction w generalizing v with
  | zero =>
    rw [Nat.pow_zero, Nat.lt_one_iff] at hv
    rw [hv]
    rfl
  | succ w ih =>
    have hhalf : v / 2 < 2 ^ w := by
      rw [Nat.pow_succ] at hv
      omega
    have hlast : (v.testBit 0).toNat = v % 2 := by
      rw [Nat.testBit_zero]
      rcases Nat.mod_two_eq_zero_or_one v with h | h
      · rw [h]
        rfl
      · rw [h]
        rfl
    rw [bits_succ, ofBits_concat, ih (v / 2) hhalf, hlast]
    omega

theorem ofBits_lt (bs : List Bool) : ofBits bs < 2 ^ bs.length := by
  induction bs using List.reverseRecOn with
  | nil => exact Nat.one_pos
  | append_singleton bs b ih =>
    have hb : b.toNat ≤ 1 := Bool.toNat_le b
    rw [ofBits_concat, List.length_append, List.length_singleton, Nat.pow_succ]
    omega

theorem bits_ofBits (bs : List Bool) : bits bs.length (ofBits bs) = bs := by
  induction bs using List.reverseRecOn with
  | nil => rfl
  | append_singleton bs b ih =>
    have hhalf : (2 * ofBits bs + b.toNat) / 2 = ofBits bs := by
      have hb : b.toNat ≤ 1 := Bool.toNat_le b
      omega
    have hlast : (2 * ofBits bs + b.toNat).testBit 0 = b := by
      rw [Nat.testBit_zero]
      cases b with
      | false => exact decide_eq_false (by simp)
      | true => exact decide_eq_true (by simp)
    rw [List.length_append, List.length_singleton, bits_succ, ofBits_concat, hhalf, hlast, ih]

/-! ## digits -/

/-- six bits each, the last ones filled with zeros -/
def sextets : List Bool → List Nat
  | b₅ :: b₄ :: b₃ :: b₂ :: b₁ :: b₀ :: bs => ofBits [b₅, b₄, b₃, b₂, b₁, b₀] :: sextets bs
  | [] => []
  | bs => [ofBits (bs ++ List.replicate (6 - bs.length) false)]

def symbol (v : Nat) : Char :=
  if v < 26 then .ofNat ('A'.toNat + v)
  else if v < 52 then .ofNat ('a'.toNat + (v - 26))
  else if v < 62 then .ofNat ('0'.toNat + (v - 52))
  else if v = 62 then '-' else '_'

def value? (c : Char) : Option Nat :=
  if 'A' ≤ c ∧ c ≤ 'Z' then some (c.toNat - 'A'.toNat)
  else if 'a' ≤ c ∧ c ≤ 'z' then some (c.toNat - 'a'.toNat + 26)
  else if '0' ≤ c ∧ c ≤ '9' then some (c.toNat - '0'.toNat + 52)
  else if c = '-' then some 62
  else if c = '_' then some 63
  else none

def urlSafe (c : Char) : Bool := c.isAlphanum || c = '-' || c = '_'

theorem value?_symbol : ∀ v < 64, value? (symbol v) = some v := by decide
theorem urlSafe_symbol : ∀ v < 64, urlSafe (symbol v) = true := by decide

/-- eight bits each; fewer than six may be left, all zeros -/
def octets : List Bool → Option (List UInt8)
  | b₇ :: b₆ :: b₅ :: b₄ :: b₃ :: b₂ :: b₁ :: b₀ :: bs =>
    (octets bs).map (.ofNat (ofBits [b₇, b₆, b₅, b₄, b₃, b₂, b₁, b₀]) :: ·)
  | bs => if bs.length < 6 ∧ bs.all (! ·) then some [] else none

def encode (bytes : List UInt8) : String :=
  .ofList ((sextets (bytes.flatMap fun b => bits 8 b.toNat)).map symbol)

def decode (s : String) : Option (List UInt8) :=
  (s.toList.mapM value?).bind fun vs => octets (vs.flatMap (bits 6))

/-! ## decoding undoes encoding -/

/-- what the first two cases of `sextets` leave -/
theorem length_lt_six {bs : List Bool}
    (h : ∀ b₅ b₄ b₃ b₂ b₁ b₀ tl, bs = b₅ :: b₄ :: b₃ :: b₂ :: b₁ :: b₀ :: tl → False) :
    bs.length < 6 := by
  by_contra hlen
  have hlong : 6 ≤ bs.length := Nat.not_lt.mp hlen
  match bs, h, hlong with
  | b₅ :: b₄ :: b₃ :: b₂ :: b₁ :: b₀ :: tl, h, _ => exact h b₅ b₄ b₃ b₂ b₁ b₀ tl rfl

theorem length_filled {bs : List Bool} (h : bs.length < 6) :
    (bs ++ List.replicate (6 - bs.length) false).length = 6 := by
  rw [List.length_append, List.length_replicate]
  omega

theorem length_sextets (bs : List Bool) : (sextets bs).length = (bs.length + 5) / 6 := by
  fun_induction sextets bs with
  | case1 b₅ b₄ b₃ b₂ b₁ b₀ bs ih =>
    simp only [List.length_cons, ih]
    omega
  | case2 => rfl
  | case3 bs hne hshort =>
    have hlen := length_lt_six hne
    have hpos : 0 < bs.length := List.length_pos_iff.mpr fun h => hshort h
    rw [List.length_singleton]
    omega

theorem sextets_lt (bs : List Bool) : ∀ v ∈ sextets bs, v < 64 := by
  fun_induction sextets bs with
  | case1 b₅ b₄ b₃ b₂ b₁ b₀ bs ih =>
    intro v hv
    rcases List.mem_cons.mp hv with rfl | hv
    · exact ofBits_lt [b₅, b₄, b₃, b₂, b₁, b₀]
    · exact ih v hv
  | case2 => exact fun v hv => nomatch hv
  | case3 bs hne hshort =>
    intro v hv
    rw [List.mem_singleton.mp hv]
    have hlt := ofBits_lt (bs ++ List.replicate (6 - bs.length) false)
    rwa [length_filled (length_lt_six hne)] at hlt

/-- the bits of the digits are the bits, and zeros -/
theorem bits_sextets (bs : List Bool) :
    ∃ k < 6, (sextets bs).flatMap (bits 6) = bs ++ List.replicate k false := by
  fun_induction sextets bs with
  | case1 b₅ b₄ b₃ b₂ b₁ b₀ bs ih =>
    obtain ⟨k, hk, ih⟩ := ih
    refine ⟨k, hk, ?_⟩
    have hsix : bits 6 (ofBits [b₅, b₄, b₃, b₂, b₁, b₀]) = [b₅, b₄, b₃, b₂, b₁, b₀] :=
      bits_ofBits [b₅, b₄, b₃, b₂, b₁, b₀]
    rw [List.flatMap_cons, ih, hsix]
    rfl
  | case2 => exact ⟨0, by decide, rfl⟩
  | case3 bs hne hshort =>
    have hlen := length_lt_six hne
    have hpos : 0 < bs.length := List.length_pos_iff.mpr fun h => hshort h
    refine ⟨6 - bs.length, by omega, ?_⟩
    have hfull := bits_ofBits (bs ++ List.replicate (6 - bs.length) false)
    rw [length_filled hlen] at hfull
    rw [List.flatMap_singleton, hfull]

theorem octets_bits (b : UInt8) (bs : List Bool) :
    octets (bits 8 b.toNat ++ bs) = (octets bs).map (b :: ·) := by
  show (octets bs).map (.ofNat (ofBits (bits 8 b.toNat)) :: ·) = _
  rw [ofBits_bits 8 b.toNat b.toNat_lt, UInt8.ofNat_toNat]

theorem octets_zeros : ∀ k < 6, octets (List.replicate k false) = some [] := by decide

theorem octets_flatMap_bits (bytes : List UInt8) {k : Nat} (hk : k < 6) :
    octets ((bytes.flatMap fun b => bits 8 b.toNat) ++ List.replicate k false) = some bytes := by
  induction bytes with
  | nil => exact octets_zeros k hk
  | cons b bytes ih =>
    rw [List.flatMap_cons, List.append_assoc, octets_bits, ih]
    rfl

theorem mapM_value?_symbol {vs : List Nat} (h : ∀ v ∈ vs, v < 64) :
    (vs.map symbol).mapM value? = some vs := by
  induction vs with
  | nil => rfl
  | cons v vs ih =>
    rw [List.map_cons, List.mapM_cons, value?_symbol v (h v List.mem_cons_self),
      ih fun v hv => h v (List.mem_cons_of_mem _ hv)]
    rfl

/-- **decoding undoes encoding** -/
theorem decode_encode (bytes : List UInt8) : decode (encode bytes) = some bytes := by
  obtain ⟨k, hk, hbits⟩ := bits_sextets (bytes.flatMap fun b => bits 8 b.toNat)
  unfold decode encode
  rw [String.toList_ofList, mapM_value?_symbol (sextets_lt _)]
  show octets ((sextets (bytes.flatMap fun b => bits 8 b.toNat)).flatMap (bits 6)) = _
  rw [hbits, octets_flatMap_bits bytes hk]

theorem length_flatMap_bits (bytes : List UInt8) :
    (bytes.flatMap fun b => bits 8 b.toNat).length = 8 * bytes.length := by
  induction bytes with
  | nil => rfl
  | cons b bytes ih =>
    rw [List.flatMap_cons, List.length_append, length_bits, ih, List.length_cons]
    omega

/-- **four digits for three bytes, rounded up** -/
theorem length_encode (bytes : List UInt8) :
    (encode bytes).toList.length = (4 * bytes.length + 2) / 3 := by
  unfold encode
  rw [String.toList_ofList, List.length_map, length_sextets, length_flatMap_bits]
  omega

theorem encode_urlSafe (bytes : List UInt8) : ∀ c ∈ (encode bytes).toList, urlSafe c = true := by
  unfold encode
  rw [String.toList_ofList]
  intro c hc
  obtain ⟨v, hv, rfl⟩ := List.mem_map.mp hc
  exact urlSafe_symbol v (sextets_lt _ v hv)

end Lib.Base64
