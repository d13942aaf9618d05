import Epica.Lib.Batch

/-!
# Entries that expire

A `TimedMap` is a store whose entries say when they were written and, if they do not stay for ever,
how long they last.  An entry is there until its time has passed, and writing a key again replaces
its entry with its time.

* `get_of_le`             what is there later has been there before;
* `lookup_writeAll`       what a batch of writes with distinct keys leaves;
* `filter_filterMap`      a query that goes through distinct keys answers each of them once.
-/

set_option linter.unusedSectionVars false

namespace Lib

/-! ## entries -/

structure Timed (V : Type) where
  value : V
  writtenAt : Nat
  lifetime : Option Nat

def Timed.alive {V : Type} (e : Timed V) (now : Nat) : Bool :=
  match e.lifetime with
  | none => true
  | some lifetime => decide (now < e.writtenAt + lifetime)

theorem Timed.alive_of_le {V : Type} {e : Timed V} {now later : Nat} (h : now ≤ later)
    (hlater : e.alive later = true) : e.alive now = true := by
  unfold alive at hlater ⊢
  cases hlife : e.lifetime with
  | none => rfl
  | some lifetime =>
    rw [hlife] at hlater
    have hlt : later < e.writtenAt + lifetime := of_decide_eq_true hlater
    exact decide_eq_true (by omega)

abbrev TimedMap (K V : Type) := AList fun _ : K => Timed V

namespace TimedMap
variable {K V : Type} [DecidableEq K]

def get (m : TimedMap K V) (now : Nat) (k : K) : Option V :=
  match m.lookup k with
  | none => none
  | some e => if e.alive now then some e.value else none

def keysAt (m : TimedMap K V) (now : Nat) : List K := m.keys.filter fun k => (m.get now k).isSome

variable {m : TimedMap K V}

theorem get_of_lookup {k : K} {e : Timed V} (h : m.lookup k = some e) (now : Nat) :
    m.get now k = if e.alive now then some e.value else none := by
  unfold get
  rw [h]

theorem get_eq_some {now : Nat} {k : K} {v : V} :
    m.get now k = some v ↔ ∃ e, m.lookup k = some e ∧ e.alive now = true ∧ e.value = v := by
  unfold get
  cases hlookup : m.lookup k with
  | none => simp
  | some e =>
    by_cases halive : e.alive now = true
    · simp [halive]
    · simp [halive]

/-- what is there later has been there before -/
theorem get_of_le {now later : Nat} (h : now ≤ later) {k : K} {v : V}
    (hlater : m.get later k = some v) : m.get now k = some v := by
  obtain ⟨e, hlookup, halive, hv⟩ := get_eq_some.mp hlater
  exact get_eq_some.mpr ⟨e, hlookup, Timed.alive_of_le h halive, hv⟩

theorem mem_keysAt {now : Nat} {k : K} : k ∈ m.keysAt now ↔ (m.get now k).isSome = true := by
  unfold keysAt
  rw [List.mem_filter, and_iff_right_iff_imp]
  intro h
  obtain ⟨v, hv⟩ := Option.isSome_iff_exists.mp h
  obtain ⟨e, hlookup, -, -⟩ := get_eq_some.mp hv
  exact AList.lookup_isSome.mp (Option.isSome_iff_exists.mpr ⟨e, hlookup⟩)

theorem nodup_keysAt (now : Nat) : (m.keysAt now).Nodup := m.keys_nodup.filter _

end TimedMap

/-! ## batches of writes -/

section
variable {A K V : Type} [DecidableEq K] (key : A → K) (val : A → V)

def writeAll (m : AList fun _ : K => V) (l : List A) : AList fun _ : K => V :=
  l.foldl (fun m a => m.insert (key a) (val a)) m

theorem toFinmap_writeAll (m : AList fun _ : K => V) (l : List A) :
    (writeAll key val m l).toFinmap = insertAll m.toFinmap (l.map fun a => (key a, val a)) := by
  induction l generalizing m with
  | nil => rfl
  | cons a l ih =>
    show (writeAll key val (m.insert (key a) (val a)) l).toFinmap = _
    rw [ih, ← Finmap.insert_toFinmap]
    rfl

/-- **each key of a batch is left with what is written under it** -/
theorem lookup_writeAll (m : AList fun _ : K => V) {l : List A} (h : (l.map key).Nodup) {a : A}
    (ha : a ∈ l) : (writeAll key val m l).lookup (key a) = some (val a) := by
  have hnodup : ((l.map fun a => (key a, val a)).map Prod.fst).Nodup := by
    rw [List.map_map]
    exact h
  rw [← Finmap.lookup_toFinmap, toFinmap_writeAll]
  exact lookup_insertAll m.toFinmap hnodup (List.mem_map_of_mem ha)

end

/-! ## queries -/

section
variable {K N : Type} [DecidableEq K] (key : N → K) {f : K → Option N}

/-- **a query that goes through distinct keys answers each of them once** -/
theorem filter_filterMap (hkey : ∀ k n, f k = some n → key n = k) {l : List K} (hl : l.Nodup)
    (k : K) : (l.filterMap f).filter (fun n => key n = k) = if k ∈ l then (f k).toList else [] := by
  induction l with
  | nil => rfl
  | cons j l ih =>
    obtain ⟨hj, hl⟩ := List.nodup_cons.mp hl
    have hrest := ih hl
    by_cases hjk : j = k
    · subst hjk
      rw [if_neg hj] at hrest
      rw [if_pos List.mem_cons_self]
      cases hf : f j with
      | none => rw [List.filterMap_cons_none hf, hrest, Option.toList_none]
      | some n =>
        rw [List.filterMap_cons_some hf, List.filter_cons, if_pos (decide_eq_true (hkey j n hf)),
          hrest, Option.toList_some]
    · have hmem : k ∈ j :: l ↔ k ∈ l := by
        rw [List.mem_cons, or_iff_right fun h => hjk h.symm]
      have hskip : ((j :: l).filterMap f).filter (fun n => key n = k) =
          (l.filterMap f).filter fun n => key n = k := by
        cases hf : f j with
        | none => rw [List.filterMap_cons_none hf]
        | some n =>
          have hne : ¬ decide (key n = k) = true := by
            rw [decide_eq_true_iff, hkey j n hf]
            exact hjk
          rw [List.filterMap_cons_some hf, List.filter_cons, if_neg hne]
      rw [hskip, hrest]
      simp only [hmem]

end

end Lib
