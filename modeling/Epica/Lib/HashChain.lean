import Mathlib.Data.List.Induction
import Mathlib.Data.List.Nodup
import Mathlib.Data.Set.Function

/-!
# Hash chains

`link d e` chains the entry `e` to the head `d`; a chain starts from a head that no link gives.

* `head_injective`    the head determines all entries, and so their number;
* `nodup_heads`       no head comes back.

`link` is injective on the pairs it is applied to, and none of them gives the first head.
-/

set_option linter.unusedSectionVars false

namespace Lib

section
variable {D E : Type} (link : D → E → D)

def chainHead (d : D) (es : List E) : D := es.foldl link d

/-- the head after each entry -/
def chainHeads : D → List E → List D
  | _, [] => []
  | d, e :: es => link d e :: chainHeads (link d e) es

/-- the pairs that are linked -/
def chainLinks : D → List E → List (D × E)
  | _, [] => []
  | d, e :: es => (d, e) :: chainLinks (link d e) es

theorem chainHead_append (d : D) (es fs : List E) :
    chainHead link d (es ++ fs) = chainHead link (chainHead link d es) fs := List.foldl_append

theorem chainHead_concat (d : D) (es : List E) (e : E) :
    chainHead link d (es ++ [e]) = link (chainHead link d es) e := chainHead_append link d es [e]

theorem chainLinks_concat (d : D) (es : List E) (e : E) :
    chainLinks link d (es ++ [e]) = chainLinks link d es ++ [(chainHead link d es, e)] := by
  induction es generalizing d with
  | nil => rfl
  | cons a es ih => exact congrArg ((d, a) :: ·) (ih (link d a))

theorem length_chainHeads (d : D) (es : List E) : (chainHeads link d es).length = es.length := by
  induction es generalizing d with
  | nil => rfl
  | cons e es ih => exact congrArg (· + 1) (ih (link d e))

theorem getElem?_chainHeads (d : D) (es : List E) (i : Nat) (h : i < es.length) :
    (chainHeads link d es)[i]? = some (chainHead link d (es.take (i + 1))) := by
  induction es generalizing d i with
  | nil => exact absurd h (Nat.not_lt_zero i)
  | cons e es ih =>
    cases i with
    | zero => rfl
    | succ i => exact ih (link d e) i (Nat.lt_of_succ_lt_succ h)

/-- the links of a part from the left -/
theorem chainLinks_take (d : D) (es : List E) (n : Nat) :
    ∀ p ∈ chainLinks link d (es.take n), p ∈ chainLinks link d es := by
  induction es generalizing d n with
  | nil =>
    rw [List.take_nil]
    exact fun p hp => hp
  | cons e es ih =>
    cases n with
    | zero => exact fun p hp => absurd hp List.not_mem_nil
    | succ n =>
      intro p hp
      rcases List.mem_cons.mp hp with rfl | hp
      · exact List.mem_cons_self
      · exact List.mem_cons_of_mem _ (ih (link d e) n p hp)

/-! ## the head determines the entries -/

/-- `link` does not confuse the pairs it is applied to, and gives the head `d` for none of them -/
structure Linked (d : D) (pairs : Set (D × E)) : Prop where
  inj : Set.InjOn (fun p : D × E => link p.1 p.2) pairs
  ne_first : ∀ p ∈ pairs, link p.1 p.2 ≠ d

variable {link} {d : D} {pairs : Set (D × E)}

/-- **the head determines the entries**, from the last one back to the first -/
theorem head_injective (hl : Linked link d pairs) {es fs : List E}
    (hes : ∀ p ∈ chainLinks link d es, p ∈ pairs) (hfs : ∀ p ∈ chainLinks link d fs, p ∈ pairs)
    (h : chainHead link d es = chainHead link d fs) : es = fs := by
  induction es using List.reverseRecOn generalizing fs with
  | nil =>
    rcases List.eq_nil_or_concat' fs with rfl | ⟨fs, f, rfl⟩
    · rfl
    · rw [chainLinks_concat] at hfs
      rw [chainHead_concat] at h
      have hf := hfs _ (List.mem_append_right _ (List.mem_singleton.mpr rfl))
      exact absurd h.symm (hl.ne_first _ hf)
  | append_singleton es e ih =>
    rw [chainLinks_concat] at hes
    rw [chainHead_concat] at h
    have he := hes _ (List.mem_append_right _ (List.mem_singleton.mpr rfl))
    rcases List.eq_nil_or_concat' fs with rfl | ⟨fs, f, rfl⟩
    · exact absurd h (hl.ne_first _ he)
    · rw [chainLinks_concat] at hfs
      rw [chainHead_concat] at h
      have hf := hfs _ (List.mem_append_right _ (List.mem_singleton.mpr rfl))
      obtain ⟨hhead, hlast⟩ := Prod.mk.inj (hl.inj he hf h)
      rw [ih (fun p hp => hes p (List.mem_append_left _ hp))
        (fun p hp => hfs p (List.mem_append_left _ hp)) hhead, hlast]

/-- no head comes back -/
theorem nodup_heads (hl : Linked link d pairs) {es : List E}
    (hes : ∀ p ∈ chainLinks link d es, p ∈ pairs) : (chainHeads link d es).Nodup := by
  rw [List.nodup_iff_getElem?_ne_getElem?]
  intro i j hij hj
  rw [length_chainHeads] at hj
  rw [getElem?_chainHeads link d es i (by omega), getElem?_chainHeads link d es j hj]
  intro h
  have htake : es.take (i + 1) = es.take (j + 1) :=
    head_injective hl (fun p hp => hes p (chainLinks_take link d es _ p hp))
      (fun p hp => hes p (chainLinks_take link d es _ p hp)) (Option.some.inj h)
  have hlen := congrArg List.length htake
  rw [List.length_take, List.length_take] at hlen
  omega

end
end Lib
