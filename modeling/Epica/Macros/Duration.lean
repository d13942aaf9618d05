import Epica.Lib.Text

/-!
# The durations of the belief attributes

`parseDurationMs` cuts off the last byte of its text as the unit and parses the rest as a `u64`.
Its result is an `Option`, and `none` around it is a panic of the macro.

* `parseDurationMs_eq`          what it returns, and when it panics;
* `parseDurationMs_exact_iff`   it parses exactly its grammar except on texts with a last character
                                of several bytes, and on durations after a `+`.
-/

set_option linter.unusedSectionVars false

namespace Epica
open Lib

def u64Max : Nat := 2 ^ 64 - 1

def saturatingMul (a b : Nat) : Nat := min (a * b) u64Max

def parseU64 (cs : List Char) : Option Nat := parseUnsigned (2 ^ 64) cs

/-- the arms for the suffix -/
def withSuffix (n : Nat) : List Char → Option Nat
  | ['s'] => some (saturatingMul n 1000)
  | ['m'] => some (saturatingMul n 60000)
  | ['h'] => some (saturatingMul n 3600000)
  | ['d'] => some (saturatingMul n 86400000)
  | _ => none

def parseDurationMs (s : String) : Option (Option Nat) :=
  let cs := s.toList
  if byteLen cs < 2 then some none
  else (splitAtByte cs (byteLen cs - 1)).map fun p => (parseU64 p.1).bind (withSuffix · p.2)

/-- the attribute `decays_after`, or the error at its value -/
def decaysAfter (s : String) : Option (Except String Nat) :=
  (parseDurationMs s).map fun
    | some ms => .ok ms
    | none => .error "invalid duration; expected e.g. \"30s\", \"10m\", \"1h\", \"2d\""

/-! ## the grammar -/

/-- the units, in milliseconds -/
inductive UnitMs : Char → Nat → Prop
  | s : UnitMs 's' 1000
  | m : UnitMs 'm' 60000
  | h : UnitMs 'h' 3600000
  | d : UnitMs 'd' 86400000

/-- the text is the digits of a `u64` and a unit, and denotes `v` -/
def Duration (cs : List Char) (v : Nat) : Prop :=
  ∃ ds c n k, cs = ds ++ [c] ∧ Numeral (2 ^ 64) ds n ∧ UnitMs c k ∧ v = min (n * k) (2 ^ 64 - 1)

/-- it returns, and exactly the texts of the grammar are parsed -/
def ParsesExactly (s : String) : Prop :=
  ∃ r, parseDurationMs s = some r ∧ ∀ v, r = some v ↔ Duration s.toList v

/-- what is parsed: a sign may stand before the digits -/
def Signed (cs : List Char) (v : Nat) : Prop := ∃ ds, cs = '+' :: ds ∧ Duration ds v

/-! ## what is parsed -/

theorem withSuffix_iff {n v : Nat} {c : Char} :
    withSuffix n [c] = some v ↔ ∃ k, UnitMs c k ∧ v = saturatingMul n k := by
  constructor
  · intro h
    unfold withSuffix at h
    split at h
    case h_1 heq => exact ⟨1000, (List.cons.inj heq).1 ▸ .s, (Option.some.inj h).symm⟩
    case h_2 heq => exact ⟨60000, (List.cons.inj heq).1 ▸ .m, (Option.some.inj h).symm⟩
    case h_3 heq => exact ⟨3600000, (List.cons.inj heq).1 ▸ .h, (Option.some.inj h).symm⟩
    case h_4 heq => exact ⟨86400000, (List.cons.inj heq).1 ▸ .d, (Option.some.inj h).symm⟩
    case h_5 => cases h
  · intro h
    obtain ⟨k, hk, rfl⟩ := h
    cases hk with
    | s => rfl
    | m => rfl
    | h => rfl
    | d => rfl

/-- the last character is the unit, if it is one byte long; else the position is inside it -/
theorem parseDurationMs_eq {s : String} {ds : List Char} {c : Char} (hs : s.toList = ds ++ [c]) :
    parseDurationMs s =
      if c.utf8Size = 1 then some ((parseU64 ds).bind (withSuffix · [c])) else none := by
  have hc := c.utf8Size_pos
  unfold parseDurationMs
  simp only [hs, splitAtByte_last]
  by_cases hlen : byteLen (ds ++ [c]) < 2
  · -- one byte, which is the unit of no digits
    have hone : c.utf8Size = 1 ∧ ds = [] := by
      cases ds with
      | nil =>
        have hsize : byteLen [c] = c.utf8Size := rfl
        rw [List.nil_append, hsize] at hlen
        exact ⟨by omega, rfl⟩
      | cons d ds =>
        have hd := d.utf8Size_pos
        have hpos := byteLen_pos_concat ds c
        rw [List.cons_append, byteLen_cons] at hlen
        omega
    rw [if_pos hlen, if_pos hone.1, hone.2]
    rfl
  · rw [if_neg hlen]
    by_cases hone : c.utf8Size = 1
    · rw [if_pos hone, if_pos hone]
      rfl
    · rw [if_neg hone, if_neg hone]
      rfl

theorem duration_concat_iff {ds : List Char} {c : Char} {v : Nat} : Duration (ds ++ [c]) v ↔
    ∃ n k, Numeral (2 ^ 64) ds n ∧ UnitMs c k ∧ v = saturatingMul n k := by
  constructor
  · intro h
    obtain ⟨ds', c', n, k, heq, hn, hk, hv⟩ := h
    obtain ⟨rfl, hc⟩ := List.append_inj' heq rfl
    obtain rfl := (List.cons.inj hc).1
    exact ⟨n, k, hn, hk, hv⟩
  · intro h
    obtain ⟨n, k, hn, hk, hv⟩ := h
    exact ⟨ds, c, n, k, rfl, hn, hk, hv⟩

/-- the macro panics on the last characters that are longer than a byte, and reports the rest -/
theorem decaysAfter_eq_none_iff (s : String) :
    decaysAfter s = none ↔ ∃ c, s.toList.getLast? = some c ∧ c.utf8Size ≠ 1 := by
  unfold decaysAfter
  rw [Option.map_eq_none_iff]
  rcases List.eq_nil_or_concat s.toList with hs | ⟨ds, c, hs⟩
  · unfold parseDurationMs
    rw [hs]
    exact iff_of_false (fun h => nomatch h) fun ⟨c, hc, _⟩ => nomatch hc
  · rw [List.concat_eq_append] at hs
    rw [parseDurationMs_eq hs, hs, List.getLast?_concat]
    constructor
    · intro h
      refine ⟨c, rfl, fun hone => ?_⟩
      rw [if_pos hone] at h
      cases h
    · intro h
      obtain ⟨c', hc, hne⟩ := h
      obtain rfl := Option.some.inj hc
      exact if_neg hne

theorem not_duration_nil (v : Nat) : ¬ Duration [] v := by
  intro h
  obtain ⟨ds, c, n, k, hnil, -⟩ := h
  exact absurd hnil.symm (List.append_ne_nil_of_right_ne_nil ds (List.cons_ne_nil c []))

theorem signed_concat_iff {ds : List Char} {c : Char} {v : Nat} : Signed (ds ++ [c]) v ↔
    ∃ ds', ds = '+' :: ds' ∧ Duration (ds' ++ [c]) v := by
  constructor
  · intro h
    obtain ⟨cs, heq, hcs⟩ := h
    cases ds with
    | nil =>
      -- the unit alone is no duration
      obtain ⟨-, rfl⟩ := List.cons.inj heq
      exact absurd hcs (not_duration_nil v)
    | cons d ds =>
      obtain ⟨rfl, rfl⟩ := List.cons.inj heq
      exact ⟨ds, rfl, hcs⟩
  · intro h
    obtain ⟨ds', rfl, h⟩ := h
    exact ⟨ds' ++ [c], rfl, h⟩

/-- **the parsed texts are the durations, also after a `+`** -/
theorem parsed_iff {ds : List Char} {c : Char} {v : Nat} :
    (parseU64 ds).bind (withSuffix · [c]) = some v ↔
      Duration (ds ++ [c]) v ∨ Signed (ds ++ [c]) v := by
  rw [signed_concat_iff, Option.bind_eq_some_iff]
  constructor
  · intro h
    obtain ⟨n, hn, h⟩ := h
    obtain ⟨k, hk, hv⟩ := withSuffix_iff.mp h
    rcases (parseUnsigned_iff (by decide)).mp hn with hn | ⟨ds', hds, hn⟩
    · exact .inl (duration_concat_iff.mpr ⟨n, k, hn, hk, hv⟩)
    · exact .inr ⟨ds', hds, duration_concat_iff.mpr ⟨n, k, hn, hk, hv⟩⟩
  · intro h
    rcases h with h | ⟨ds', hds, h⟩
    · obtain ⟨n, k, hn, hk, hv⟩ := duration_concat_iff.mp h
      exact ⟨n, (parseUnsigned_iff (by decide)).mpr (.inl hn), withSuffix_iff.mpr ⟨k, hk, hv⟩⟩
    · obtain ⟨n, k, hn, hk, hv⟩ := duration_concat_iff.mp h
      exact ⟨n, (parseUnsigned_iff (by decide)).mpr (.inr ⟨ds', hds, hn⟩),
        withSuffix_iff.mpr ⟨k, hk, hv⟩⟩

/-- a sign is no digit -/
theorem not_duration_of_signed {cs : List Char} {v w : Nat} (h : Signed cs v) :
    ¬ Duration cs w := by
  intro hw
  obtain ⟨ds, c, n, k, rfl, hn, -⟩ := hw
  obtain ⟨ds', rfl, -⟩ := signed_concat_iff.mp h
  exact not_numeral_sign rfl ds' n hn

/-- **exactly the grammar is parsed**, unless the last character is longer than a byte, or a
duration stands after a `+` -/
theorem parseDurationMs_exact_iff (s : String) : ParsesExactly s ↔
    (∀ c, s.toList.getLast? = some c → c.utf8Size = 1) ∧ ¬ ∃ v, Signed s.toList v := by
  unfold ParsesExactly
  rcases List.eq_nil_or_concat s.toList with hs | ⟨ds, c, hs⟩
  · have hnone : parseDurationMs s = some none := by
      unfold parseDurationMs
      rw [hs]
      rfl
    rw [hs]
    refine iff_of_true ⟨none, hnone, fun v => ?_⟩ ⟨fun c h => (nomatch h), fun h => ?_⟩
    · exact iff_of_false (fun h => nomatch h) (not_duration_nil v)
    · obtain ⟨v, ds, hds, -⟩ := h
      cases hds
  · rw [List.concat_eq_append] at hs
    rw [parseDurationMs_eq hs, hs, List.getLast?_concat]
    by_cases hone : c.utf8Size = 1
    · rw [if_pos hone]
      constructor
      · intro h
        obtain ⟨r, hr, hexact⟩ := h
        obtain rfl := Option.some.inj hr
        refine ⟨fun c' hc => Option.some.inj hc ▸ hone, fun ⟨v, hv⟩ => ?_⟩
        exact not_duration_of_signed hv ((hexact v).mp (parsed_iff.mpr (.inr hv)))
      · intro h
        exact ⟨_, rfl, fun v => parsed_iff.trans (or_iff_left fun hv => h.2 ⟨v, hv⟩)⟩
    · rw [if_neg hone]
      refine iff_of_false (fun ⟨r, hr, _⟩ => nomatch hr) fun h => hone (h.1 c rfl)

/-- the last byte of `5µ` is inside a character, and `+5s` is taken for five seconds -/
theorem durations_misread : ¬ ParsesExactly "5µ" ∧ ¬ ParsesExactly "+5s" := by
  constructor
  · intro h
    obtain ⟨r, hr, -⟩ := h
    have hpanic : parseDurationMs "5µ" = none := by decide +kernel
    rw [hpanic] at hr
    cases hr
  · intro h
    obtain ⟨r, hr, hexact⟩ := h
    have hparsed : parseDurationMs "+5s" = some (some 5000) := by decide +kernel
    rw [hparsed] at hr
    have hdigit : ∀ d ∈ ['5'], d.isDigit = true := fun d hd => List.mem_singleton.mp hd ▸ rfl
    have hfive : Duration (['5'] ++ ['s']) 5000 := duration_concat_iff.mpr
      ⟨5, 1000, ⟨List.cons_ne_nil _ _, hdigit, rfl, by decide⟩, .s, by decide⟩
    have hsign : Signed "+5s".toList 5000 := ⟨['5', 's'], by decide +kernel, hfive⟩
    exact not_duration_of_signed hsign ((hexact 5000).mp (Option.some.inj hr).symm)

example : parseDurationMs "30s" = some (some 30000) := by decide +kernel

end Epica
