import Mathlib.Data.List.Basic
import Mathlib.Algebra.Ring.Nat

/-!
# Texts in UTF-8: byte positions, and unsigned numbers

A text is its characters.  `splitAtByte` cuts it at a byte position, and panics (`none`) inside a
character.  `parseUnsigned` reads a number below `bound` with checked arithmetic.

* `splitAtByte_last`     the last byte is cut off exactly where it is a character;
* `parseUnsigned_iff`    the numbers are the digits of the values below the bound; one `+` may
                         stand before them.
-/

set_option linter.unusedSectionVars false

namespace Lib

/-! ## byte positions -/

def byteLen (cs : List Char) : Nat := (cs.map Char.utf8Size).sum

def splitAtByte : List Char → Nat → Option (List Char × List Char)
  | cs, 0 => some ([], cs)
  | [], _ + 1 => none
  | c :: cs, m + 1 =>
    if c.utf8Size ≤ m + 1 then
      (splitAtByte cs (m + 1 - c.utf8Size)).map fun p => (c :: p.1, p.2)
    else none

theorem byteLen_cons (c : Char) (cs : List Char) :
    byteLen (c :: cs) = c.utf8Size + byteLen cs := rfl

theorem byteLen_pos_concat (cs : List Char) (c : Char) : 0 < byteLen (cs ++ [c]) := by
  have hc := c.utf8Size_pos
  unfold byteLen
  rw [List.map_append, List.sum_append]
  show 0 < _ + (c.utf8Size + 0)
  omega

/-- past a whole character -/
theorem splitAtByte_cons (c : Char) (cs : List Char) (m : Nat) :
    splitAtByte (c :: cs) (c.utf8Size + m) =
      (splitAtByte cs m).map fun p => (c :: p.1, p.2) := by
  have hc := c.utf8Size_pos
  obtain ⟨k, hk⟩ : ∃ k, c.utf8Size + m = k + 1 := ⟨c.utf8Size + m - 1, by omega⟩
  rw [hk, splitAtByte, if_pos (by omega)]
  have hm : k + 1 - c.utf8Size = m := by omega
  rw [hm]

/-- **before the last byte there is a position exactly where that byte is a character** -/
theorem splitAtByte_last (cs : List Char) (c : Char) :
    splitAtByte (cs ++ [c]) (byteLen (cs ++ [c]) - 1) =
      if c.utf8Size = 1 then some (cs, [c]) else none := by
  have hc := c.utf8Size_pos
  induction cs with
  | nil =>
    show splitAtByte [c] (c.utf8Size - 1) = _
    by_cases hone : c.utf8Size = 1
    · rw [if_pos hone, hone]
      rfl
    · obtain ⟨k, hk⟩ : ∃ k, c.utf8Size - 1 = k + 1 := ⟨c.utf8Size - 2, by omega⟩
      rw [if_neg hone, hk, splitAtByte, if_neg (by omega)]
  | cons d cs ih =>
    have hpos := byteLen_pos_concat cs c
    have hlen : byteLen (d :: cs ++ [c]) - 1 = d.utf8Size + (byteLen (cs ++ [c]) - 1) := by
      show d.utf8Size + byteLen (cs ++ [c]) - 1 = _
      omega
    rw [hlen, List.cons_append, splitAtByte_cons, ih]
    by_cases hone : c.utf8Size = 1
    · rw [if_pos hone, if_pos hone]
      rfl
    · rw [if_neg hone, if_neg hone]
      rfl

theorem splitAtByte_ascii {cs : List Char} (h : ∀ c ∈ cs, c.utf8Size = 1) {n : Nat}
    (hn : n ≤ cs.length) : (splitAtByte cs n).isSome := by
  induction cs generalizing n with
  | nil =>
    obtain rfl : n = 0 := Nat.le_zero.mp hn
    rfl
  | cons c cs ih =>
    cases n with
    | zero => rfl
    | succ n =>
      have hc := h c List.mem_cons_self
      have hsplit := splitAtByte_cons c cs n
      rw [hc, Nat.add_comm] at hsplit
      rw [hsplit, Option.isSome_map]
      exact ih (fun d hd => h d (List.mem_cons_of_mem c hd)) (Nat.le_of_succ_le_succ hn)

/-! ## unsigned numbers -/

def digit? (c : Char) : Option Nat := if c.isDigit then some (c.toNat - '0'.toNat) else none

/-- the value of the digits after `v` -/
def valueFrom (v : Nat) (ds : List Char) : Nat :=
  ds.foldl (fun v d => 10 * v + (d.toNat - '0'.toNat)) v

section
variable (bound : Nat)

/-- one digit more, unless the product or the sum overflows -/
def checkedDigit (v : Nat) (c : Char) : Option Nat :=
  if 10 * v < bound then
    (digit? c).bind fun d => if 10 * v + d < bound then some (10 * v + d) else none
  else none

def parseUnsigned : List Char → Option Nat
  | [] => none
  | c :: cs =>
    if cs = [] ∧ (c = '+' ∨ c = '-') then none
    else (if c = '+' then cs else c :: cs).foldlM (checkedDigit bound) 0

variable {bound}

theorem le_valueFrom (v : Nat) (ds : List Char) : v ≤ valueFrom v ds := by
  induction ds generalizing v with
  | nil => exact Nat.le_refl v
  | cons d ds ih =>
    have hle := ih (10 * v + (d.toNat - '0'.toNat))
    show v ≤ valueFrom (10 * v + (d.toNat - '0'.toNat)) ds
    omega

theorem checkedDigit_eq_some_iff {v w : Nat} {c : Char} : checkedDigit bound v c = some w ↔
    c.isDigit = true ∧ w = 10 * v + (c.toNat - '0'.toNat) ∧ w < bound := by
  unfold checkedDigit digit?
  by_cases hc : c.isDigit = true
  · rw [if_pos hc, Option.bind_some]
    constructor
    · intro h
      split at h
      · split at h
        · obtain rfl := Option.some.inj h
          exact ⟨hc, rfl, by assumption⟩
        · cases h
      · cases h
    · intro h
      obtain ⟨-, rfl, hlt⟩ := h
      rw [if_pos (by omega), if_pos hlt]
  · rw [if_neg hc, Option.bind_none, ite_self]
    constructor
    · intro h
      cases h
    · exact fun h => absurd h.1 hc

/-- the checks fail exactly when the value is too large -/
theorem foldlM_checkedDigit_iff {v w : Nat} (hv : v < bound) {ds : List Char} :
    ds.foldlM (checkedDigit bound) v = some w ↔
      (∀ d ∈ ds, d.isDigit = true) ∧ valueFrom v ds = w ∧ w < bound := by
  induction ds generalizing v with
  | nil =>
    constructor
    · intro h
      obtain rfl := Option.some.inj h
      exact ⟨fun d hd => (List.not_mem_nil hd).elim, rfl, hv⟩
    · exact fun h => congrArg some h.2.1
  | cons d ds ih =>
    rw [List.foldlM_cons]
    constructor
    · intro h
      obtain ⟨u, hu, hrest⟩ := Option.bind_eq_some_iff.mp h
      obtain ⟨hd, rfl, hlt⟩ := checkedDigit_eq_some_iff.mp hu
      obtain ⟨hds, hval, hw⟩ := (ih hlt).mp hrest
      exact ⟨List.forall_mem_cons.mpr ⟨hd, hds⟩, hval, hw⟩
    · intro h
      obtain ⟨hall, hval, hw⟩ := h
      obtain ⟨hd, hds⟩ := List.forall_mem_cons.mp hall
      have hle := le_valueFrom (10 * v + (d.toNat - '0'.toNat)) ds
      have hlt : 10 * v + (d.toNat - '0'.toNat) < bound :=
        Nat.lt_of_le_of_lt (Nat.le_trans hle (Nat.le_of_eq hval)) hw
      exact Option.bind_eq_some_iff.mpr
        ⟨_, checkedDigit_eq_some_iff.mpr ⟨hd, rfl, hlt⟩, (ih hlt).mpr ⟨hds, hval, hw⟩⟩

variable (bound) in
/-- the digits of a number below the bound -/
structure Numeral (ds : List Char) (v : Nat) : Prop where
  nonempty : ds ≠ []
  digits : ∀ d ∈ ds, d.isDigit = true
  value : valueFrom 0 ds = v
  lt : v < bound

theorem foldlM_eq_some_iff (hpos : 0 < bound) {ds : List Char} (hne : ds ≠ []) {v : Nat} :
    ds.foldlM (checkedDigit bound) 0 = some v ↔ Numeral bound ds v := by
  rw [foldlM_checkedDigit_iff hpos]
  exact ⟨fun h => ⟨hne, h.1, h.2.1, h.2.2⟩, fun h => ⟨h.digits, h.value, h.lt⟩⟩

theorem not_numeral_sign {c : Char} (hc : c.isDigit = false) (cs : List Char) (v : Nat) :
    ¬ Numeral bound (c :: cs) v := by
  intro h
  rw [h.digits c List.mem_cons_self] at hc
  cases hc

/-- **a number is parsed from its digits, or from its digits after a `+`** -/
theorem parseUnsigned_iff (hpos : 0 < bound) {cs : List Char} {v : Nat} :
    parseUnsigned bound cs = some v ↔
      Numeral bound cs v ∨ ∃ ds, cs = '+' :: ds ∧ Numeral bound ds v := by
  cases cs with
  | nil =>
    constructor
    · intro h
      cases h
    · intro h
      rcases h with h | ⟨ds, h, -⟩
      · exact absurd rfl h.nonempty
      · cases h
  | cons c cs =>
    rw [parseUnsigned]
    by_cases hplus : c = '+'
    · subst hplus
      have hsign : ¬ Numeral bound ('+' :: cs) v := not_numeral_sign rfl cs v
      by_cases hcs : cs = []
      · rw [if_pos ⟨hcs, .inl rfl⟩]
        constructor
        · intro h
          cases h
        · intro h
          obtain ⟨ds, hds, h⟩ := h.resolve_left hsign
          exact absurd ((List.cons.inj hds).2.symm.trans hcs) h.nonempty
      · rw [if_neg fun h => hcs h.1, if_pos rfl, foldlM_eq_some_iff hpos hcs]
        constructor
        · exact fun h => .inr ⟨cs, rfl, h⟩
        · intro h
          obtain ⟨ds, hds, h⟩ := h.resolve_left hsign
          rwa [(List.cons.inj hds).2]
    · have hno : ¬ ∃ ds, c :: cs = '+' :: ds ∧ Numeral bound ds v :=
        fun ⟨ds, hds, _⟩ => hplus (List.cons.inj hds).1
      rw [or_iff_left hno]
      by_cases hminus : cs = [] ∧ (c = '+' ∨ c = '-')
      · have hc : c = '-' := hminus.2.resolve_left hplus
        rw [if_pos hminus, hc]
        constructor
        · intro h
          cases h
        · exact fun h => absurd h (not_numeral_sign rfl cs v)
      · rw [if_neg hminus, if_neg hplus, foldlM_eq_some_iff hpos (List.cons_ne_nil c cs)]

end
end Lib
