import Mathlib.Data.List.Basic
import Mathlib.Data.List.Induction

/-!
# Outcomes known in retrospect

A session is a list of events, each with a key and with whether it refutes the event of that key
before it.  The log of a session is kept as it goes: an event is entered as standing, and one that
refutes takes the standing from the last entry of its key.

* `foldl_enter`        an entry stands in the end exactly when the next event of its key does not
                       refute it;
* `outcomes_eq_iff`    two readings of what refutes come to the same outcomes exactly when they
                       only differ about first events of a key.
-/

set_option linter.unusedSectionVars false

namespace Lib

variable {K : Type} [DecidableEq K]

/-! ## the log -/

def unsetFirst (k : K) : List (K × Bool) → List (K × Bool)
  | [] => []
  | e :: es => if e.1 = k then (k, false) :: es else e :: unsetFirst k es

/-- take the standing from the last entry of `k`, if there is one -/
def unsetLast (k : K) (log : List (K × Bool)) : List (K × Bool) :=
  (unsetFirst k log.reverse).reverse

/-- enter an event; `e.2` says whether it refutes the one before it -/
def enter (log : List (K × Bool)) (e : K × Bool) : List (K × Bool) :=
  (if e.2 then unsetLast e.1 log else log) ++ [(e.1, true)]

theorem unsetFirst_append (k : K) (l l' : List (K × Bool)) :
    unsetFirst k (l ++ l') =
      if k ∈ l.map Prod.fst then unsetFirst k l ++ l' else l ++ unsetFirst k l' := by
  induction l with
  | nil => rfl
  | cons e l ih =>
    show (if e.1 = k then (k, false) :: (l ++ l') else e :: unsetFirst k (l ++ l')) = _
    by_cases he : e.1 = k
    · have hmem : k ∈ (e :: l).map Prod.fst := by
        rw [← he]
        exact List.mem_cons_self
      rw [if_pos he, if_pos hmem]
      show _ = (if e.1 = k then (k, false) :: l else e :: unsetFirst k l) ++ l'
      rw [if_pos he]
      rfl
    · have hmem : k ∈ (e :: l).map Prod.fst ↔ k ∈ l.map Prod.fst := by
        rw [List.map_cons, List.mem_cons, or_iff_right fun h => he h.symm]
      rw [if_neg he, ih]
      simp only [hmem]
      split
      · show _ = (if e.1 = k then (k, false) :: l else e :: unsetFirst k l) ++ l'
        rw [if_neg he]
        rfl
      · rfl

theorem unsetLast_cons (k : K) (e : K × Bool) (es : List (K × Bool)) :
    unsetLast k (e :: es) =
      if k ∈ es.map Prod.fst then e :: unsetLast k es
      else if e.1 = k then (k, false) :: es else e :: es := by
  have hmem : k ∈ es.reverse.map Prod.fst ↔ k ∈ es.map Prod.fst := by
    rw [List.map_reverse, List.mem_reverse]
  unfold unsetLast
  rw [List.reverse_cons, unsetFirst_append]
  simp only [hmem]
  split
  · rw [List.reverse_append]
    rfl
  · show (es.reverse ++ if e.1 = k then [(k, false)] else [e]).reverse = _
    split
    · rw [List.reverse_append, List.reverse_reverse]
      rfl
    · rw [List.reverse_append, List.reverse_reverse]
      rfl

/-! ## the outcomes -/

/-- the first event of `k` refutes what was before it -/
def refuted (k : K) (es : List (K × Bool)) : Bool :=
  ((es.find? fun e => e.1 = k).map Prod.snd).getD false

/-- each event stands unless the next one of its key refutes it -/
def outcomes : List (K × Bool) → List (K × Bool)
  | [] => []
  | e :: es => (e.1, !refuted e.1 es) :: outcomes es

theorem keys_outcomes (es : List (K × Bool)) : (outcomes es).map Prod.fst = es.map Prod.fst := by
  induction es with
  | nil => rfl
  | cons e es ih => exact congrArg (e.1 :: ·) ih

theorem refuted_eq_false {k : K} {es : List (K × Bool)} (h : k ∉ es.map Prod.fst) :
    refuted k es = false := by
  have hnone : es.find? (fun e => e.1 = k) = none := by
    refine List.find?_eq_none.mpr fun e he hk => h ?_
    rw [← of_decide_eq_true hk]
    exact List.mem_map_of_mem he
  unfold refuted
  rw [hnone]
  rfl

theorem refuted_concat (k : K) (es : List (K × Bool)) (e : K × Bool) :
    refuted k (es ++ [e]) =
      if k ∈ es.map Prod.fst then refuted k es else decide (e.1 = k) && e.2 := by
  unfold refuted
  rw [List.find?_append]
  by_cases hk : k ∈ es.map Prod.fst
  · obtain ⟨e', he', hkey⟩ := List.mem_map.mp hk
    have hsome : (es.find? fun e => e.1 = k).isSome = true :=
      List.find?_isSome.mpr ⟨e', he', decide_eq_true hkey⟩
    obtain ⟨e'', hfind⟩ := Option.isSome_iff_exists.mp hsome
    rw [if_pos hk, hfind]
    rfl
  · have hnone : es.find? (fun e => e.1 = k) = none := by
      refine List.find?_eq_none.mpr fun e he hkey => hk ?_
      rw [← of_decide_eq_true hkey]
      exact List.mem_map_of_mem he
    rw [if_neg hk, hnone, Option.none_or, List.find?_singleton]
    by_cases he : e.1 = k
    · simp [he]
    · simp [he]

/-- an event that refutes no `k` for the first time changes nothing for `k` -/
theorem refuted_concat_of {k : K} {es : List (K × Bool)} {e : K × Bool}
    (h : k ∈ es.map Prod.fst ∨ e.1 ≠ k ∨ e.2 = false) : refuted k (es ++ [e]) = refuted k es := by
  rw [refuted_concat]
  by_cases hk : k ∈ es.map Prod.fst
  · rw [if_pos hk]
  · rw [if_neg hk, refuted_eq_false hk]
    rcases h with h | h | h
    · exact absurd h hk
    · rw [decide_eq_false h, Bool.false_and]
    · rw [h, Bool.and_false]

theorem unsetLast_of_not_mem {k : K} {log : List (K × Bool)} (h : k ∉ log.map Prod.fst) :
    unsetLast k log = log := by
  have hrev : k ∉ log.reverse.map Prod.fst := by
    rw [List.map_reverse, List.mem_reverse]
    exact h
  have happ := unsetFirst_append k log.reverse []
  rw [if_neg hrev, List.append_nil] at happ
  unfold unsetLast
  rw [happ]
  show (log.reverse ++ []).reverse = log
  rw [List.append_nil, List.reverse_reverse]

/-- one more event -/
theorem outcomes_concat (es : List (K × Bool)) (e : K × Bool) :
    outcomes (es ++ [e]) = enter (outcomes es) e := by
  induction es with
  | nil =>
    have hnil : unsetLast e.1 ([] : List (K × Bool)) = [] := rfl
    show [(e.1, !refuted e.1 [])] = (if e.2 then unsetLast e.1 [] else []) ++ [(e.1, true)]
    rw [hnil, ite_self]
    rfl
  | cons x es ih =>
    show (x.1, !refuted x.1 (es ++ [e])) :: outcomes (es ++ [e]) =
      (if e.2 then unsetLast e.1 ((x.1, !refuted x.1 es) :: outcomes es)
        else (x.1, !refuted x.1 es) :: outcomes es) ++ [(e.1, true)]
    rw [ih]
    unfold enter
    cases he : e.2 with
    | false =>
      rw [refuted_concat_of (Or.inr (Or.inr he))]
      rfl
    | true =>
      simp only [if_true]
      rw [unsetLast_cons, keys_outcomes]
      by_cases hk : e.1 ∈ es.map Prod.fst
      · have hsame : refuted x.1 (es ++ [e]) = refuted x.1 es := by
          by_cases hx : e.1 = x.1
          · exact refuted_concat_of (Or.inl (hx ▸ hk))
          · exact refuted_concat_of (Or.inr (Or.inl hx))
        rw [if_pos hk, hsame]
        rfl
      · have hgone : unsetLast e.1 (outcomes es) = outcomes es := by
          refine unsetLast_of_not_mem ?_
          rw [keys_outcomes]
          exact hk
        rw [if_neg hk, hgone]
        by_cases hx : x.1 = e.1
        · -- the new event is the first of its key after `x`
          rw [if_pos hx, hx, refuted_concat, if_neg hk, decide_eq_true rfl, he]
          rfl
        · rw [if_neg hx, refuted_concat_of (Or.inr (Or.inl (Ne.symm hx)))]
          rfl

/-- **the log of a session has its outcomes** -/
theorem foldl_enter (es : List (K × Bool)) : es.foldl enter [] = outcomes es := by
  induction es using List.reverseRecOn with
  | nil => rfl
  | append_singleton es e ih => rw [List.foldl_append, ih, outcomes_concat]; rfl

/-! ## two readings -/

section
variable {E : Type} (key : E → K) (a b : E → Bool)

/-- the events with one reading of what refutes -/
def readAs (a : E → Bool) (es : List E) : List (K × Bool) := es.map fun e => (key e, a e)

/-- where the first event of `k` is read alike, it refutes alike -/
theorem refuted_readAs (k : K) {es : List E}
    (h : ∀ pre e post, es = pre ++ e :: post → a e ≠ b e → key e ∉ pre.map key) :
    refuted k (readAs key a es) = refuted k (readAs key b es) ↔
      ∀ e ∈ es, a e ≠ b e → key e ≠ k := by
  induction es with
  | nil => exact iff_of_true rfl fun e he => absurd he List.not_mem_nil
  | cons x es ih =>
    have hcons : ∀ c : E → Bool, refuted k (readAs key c (x :: es)) =
        if key x = k then c x else refuted k (readAs key c es) := by
      intro c
      show ((((key x, c x) :: readAs key c es).find? fun e => e.1 = k).map Prod.snd).getD false = _
      rw [List.find?_cons]
      by_cases hx : key x = k
      · rw [decide_eq_true hx, if_pos hx]
        rfl
      · rw [decide_eq_false hx, if_neg hx]
        rfl
    have htail : ∀ pre e post, es = pre ++ e :: post → a e ≠ b e → key e ∉ pre.map key := by
      intro pre e post hes hab hmem
      refine h (x :: pre) e post (by rw [hes]; rfl) hab ?_
      exact List.mem_cons_of_mem _ hmem
    rw [hcons, hcons, List.forall_mem_cons]
    by_cases hx : key x = k
    · rw [if_pos hx, if_pos hx]
      constructor
      · intro hab
        refine ⟨fun hne => absurd hab hne, fun e he hne hk => ?_⟩
        obtain ⟨pre, post, rfl⟩ := List.append_of_mem he
        refine h (x :: pre) e post rfl hne ?_
        rw [List.map_cons, hk, ← hx]
        exact List.mem_cons_self
      · intro hall
        by_contra hne
        exact hall.1 hne hx
    · rw [if_neg hx, if_neg hx, ih htail]
      exact (and_iff_right fun _ => hx).symm

/-- **two readings come to the same outcomes exactly when they only differ about events whose key
has not come before** -/
theorem outcomes_eq_iff (es : List E) :
    outcomes (readAs key a es) = outcomes (readAs key b es) ↔
      ∀ pre e post, es = pre ++ e :: post → a e ≠ b e → key e ∉ pre.map key := by
  induction es with
  | nil =>
    refine iff_of_true rfl fun pre e post h => ?_
    cases pre <;> cases h
  | cons x es ih =>
    have hcons : outcomes (readAs key a (x :: es)) = outcomes (readAs key b (x :: es)) ↔
        refuted (key x) (readAs key a es) = refuted (key x) (readAs key b es) ∧
          outcomes (readAs key a es) = outcomes (readAs key b es) := by
      show (key x, !refuted (key x) (readAs key a es)) :: outcomes (readAs key a es) =
        (key x, !refuted (key x) (readAs key b es)) :: outcomes (readAs key b es) ↔ _
      rw [List.cons.injEq, Prod.mk.injEq, and_iff_right rfl, Bool.not_inj_iff]
    rw [hcons, ih]
    constructor
    · intro hp pre e post hes hab
      obtain ⟨hrefuted, htail⟩ := hp
      cases pre with
      | nil => exact List.not_mem_nil
      | cons y pre =>
        obtain ⟨rfl, hes'⟩ := List.cons.inj hes
        have hmem : e ∈ es := by
          rw [hes']
          exact List.mem_append_right _ List.mem_cons_self
        have hkey := (refuted_readAs key a b (key x) htail).mp hrefuted e hmem hab
        rw [List.map_cons, List.mem_cons, not_or]
        exact ⟨hkey, htail pre e post hes' hab⟩
    · intro h
      have htail : ∀ pre e post, es = pre ++ e :: post → a e ≠ b e → key e ∉ pre.map key := by
        intro pre e post hes hab hmem
        refine h (x :: pre) e post (by rw [hes]; rfl) hab ?_
        exact List.mem_cons_of_mem _ hmem
      refine ⟨(refuted_readAs key a b (key x) htail).mpr fun e he hab hkey => ?_, htail⟩
      obtain ⟨pre, post, rfl⟩ := List.append_of_mem he
      refine h (x :: pre) e post rfl hab ?_
      rw [List.map_cons, hkey]
      exact List.mem_cons_self

end
end Lib
