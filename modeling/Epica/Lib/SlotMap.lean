import Mathlib.Data.List.Sigma
import Mathlib.Algebra.Ring.Nat

/-!
# Slot maps: what is relied on, and a slot map that has it

`SlotMap M` is a family of keyed arenas `M V` that hand out their own keys:

* `nextKey m`        the key the next `insert` hands out, a function of the map alone;
* `get`, `modify`    read and write the value of a live key;
* `iter m`           the live pairs, each key once, in an order nothing is said about;
* `Issued m k`       `k` was handed out by `m` at some time (live or not).

The laws are the documented ones: a fresh key was never issued before, `remove` forgets a value
but not that its key was issued, and no operation touches the value of another key.

`SlotVec` is the usual implementation (a vector of versioned slots and a free list): a slot is
occupied when its version is odd, so a key that was removed is stale for good.
-/

set_option linter.unusedSectionVars false

namespace Lib

/-- a generational key: the slot, and the version of the slot it was issued for -/
structure KeyData where
  idx : Nat
  version : Nat
deriving DecidableEq, Repr

/-- the key that is never issued -/
def KeyData.null : KeyData := ⟨2^32 - 1, 1⟩

class SlotMap (M : Type → Type) where
  withKey {V : Type} : M V
  nextKey {V : Type} : M V → KeyData
  insert {V : Type} : M V → V → M V
  get {V : Type} : M V → KeyData → Option V
  modify {V : Type} : M V → KeyData → (V → V) → M V
  remove {V : Type} : M V → KeyData → M V
  iter {V : Type} : M V → List (KeyData × V)
  Issued {V : Type} : M V → KeyData → Prop
  get_withKey {V : Type} (k : KeyData) : get (withKey : M V) k = none
  get_insert {V : Type} (m : M V) (v : V) (k : KeyData) :
    get (insert m v) k = if k = nextKey m then some v else get m k
  get_modify {V : Type} (m : M V) (k : KeyData) (f : V → V) (j : KeyData) :
    get (modify m k f) j = if j = k then (get m j).map f else get m j
  get_remove {V : Type} (m : M V) (k j : KeyData) :
    get (remove m k) j = if j = k then none else get m j
  mem_iter {V : Type} (m : M V) (k : KeyData) (v : V) : (k, v) ∈ iter m ↔ get m k = some v
  nodup_iter {V : Type} (m : M V) : ((iter m).map Prod.fst).Nodup
  not_issued_withKey {V : Type} (k : KeyData) : ¬ Issued (withKey : M V) k
  not_issued_nextKey {V : Type} (m : M V) : ¬ Issued m (nextKey m)
  issued_of_get {V : Type} (m : M V) (k : KeyData) (v : V) : get m k = some v → Issued m k
  issued_insert {V : Type} (m : M V) (v : V) (k : KeyData) :
    Issued (insert m v) k ↔ Issued m k ∨ k = nextKey m
  issued_modify {V : Type} (m : M V) (k : KeyData) (f : V → V) (j : KeyData) :
    Issued (modify m k f) j ↔ Issued m j
  issued_remove {V : Type} (m : M V) (k j : KeyData) : Issued (remove m k) j ↔ Issued m j

namespace SlotMap

attribute [simp] get_withKey get_insert get_modify get_remove issued_insert issued_modify
  issued_remove

variable {M : Type → Type} [SlotMap M] {V : Type}

/-- number of live keys -/
def len (m : M V) : Nat := (iter m).length

theorem get_nextKey (m : M V) : get m (nextKey m) = none := by
  cases h : get m (nextKey m) with
  | none => rfl
  | some v => exact absurd (issued_of_get m _ v h) (not_issued_nextKey m)

theorem mem_keys (m : M V) (k : KeyData) :
    k ∈ (iter m).map Prod.fst ↔ (get m k).isSome := by
  rw [List.mem_map, Option.isSome_iff_exists]
  constructor
  · intro hp
    obtain ⟨⟨k', v⟩, h, rfl⟩ := hp
    exact ⟨v, (mem_iter m _ v).mp h⟩
  · intro hp
    obtain ⟨v, h⟩ := hp
    exact ⟨(k, v), (mem_iter m k v).mpr h, rfl⟩

end SlotMap

/-! ## the usual implementation -/

structure Slot (V : Type) where
  version : Nat
  value : Option V

/-- versioned slots and the free list; slots are numbered from 1 -/
structure SlotVec (V : Type) where
  slots : List (Slot V)
  free : List Nat
  parity : ∀ (i : Nat) (s : Slot V), slots[i]? = some s → (s.value.isSome ↔ s.version % 2 = 1)
  vacant : ∀ i ∈ free, ∃ s, slots[i]? = some s ∧ s.value = none
  nodup : free.Nodup

namespace SlotVec
variable {V : Type}

/-- the slot of a key (slot 0 is the sentinel) -/
def slotOf (m : SlotVec V) (k : KeyData) : Option (Slot V) :=
  if k.idx = 0 then none else m.slots[k.idx - 1]?

def get (m : SlotVec V) (k : KeyData) : Option V :=
  (m.slotOf k).bind fun s => if s.version = k.version then s.value else none

def versionAt (m : SlotVec V) (i : Nat) : Nat := (m.slots[i]?.map Slot.version).getD 0

def nextKey (m : SlotVec V) : KeyData :=
  match m.free with
  | [] => ⟨m.slots.length + 1, 1⟩
  | i :: _ => ⟨i + 1, m.versionAt i + 1⟩

def Issued (m : SlotVec V) (k : KeyData) : Prop :=
  ∃ s, m.slotOf k = some s ∧ k.version ≤ s.version ∧ k.version % 2 = 1

def iter (m : SlotVec V) : List (KeyData × V) :=
  m.slots.zipIdx.filterMap fun p => p.1.value.map fun v => (⟨p.2 + 1, p.1.version⟩, v)

def empty : SlotVec V where
  slots := []
  free := []
  parity := by simp
  vacant := by simp
  nodup := List.nodup_nil

/-! ### writing one slot -/

theorem parity_modify {slots : List (Slot V)} {f : Slot V → Slot V}
    (hp : ∀ (i : Nat) (s : Slot V), slots[i]? = some s → (s.value.isSome ↔ s.version % 2 = 1))
    (i : Nat) (hf : ∀ s, slots[i]? = some s → ((f s).value.isSome ↔ (f s).version % 2 = 1)) :
    ∀ (j : Nat) (s : Slot V), (slots.modify i f)[j]? = some s →
      (s.value.isSome ↔ s.version % 2 = 1) := by
  intro j s hs
  by_cases e : i = j
  · subst e
    rw [List.getElem?_modify_eq] at hs
    obtain ⟨s', hs', rfl⟩ := Option.map_eq_some_iff.mp hs
    exact hf s' hs'
  · rw [List.getElem?_modify_ne _ _ e] at hs
    exact hp j s hs

theorem parity_concat {slots : List (Slot V)} {s₀ : Slot V}
    (hp : ∀ (i : Nat) (s : Slot V), slots[i]? = some s → (s.value.isSome ↔ s.version % 2 = 1))
    (h₀ : s₀.value.isSome ↔ s₀.version % 2 = 1) :
    ∀ (i : Nat) (s : Slot V), (slots ++ [s₀])[i]? = some s →
      (s.value.isSome ↔ s.version % 2 = 1) := by
  intro i s hs
  rcases Nat.lt_trichotomy i slots.length with hi | hi | hi
  · rw [List.getElem?_append_left hi] at hs
    exact hp i s hs
  · subst hi
    rw [List.getElem?_concat_length, Option.some.injEq] at hs
    subst hs
    exact h₀
  · have hlen : (slots ++ [s₀]).length ≤ i := by
      rw [List.length_append]
      exact hi
    rw [List.getElem?_eq_none hlen] at hs
    cases hs

theorem vacant_modify {slots : List (Slot V)} {f : Slot V → Slot V} {free : List Nat}
    (hv : ∀ j ∈ free, ∃ s, slots[j]? = some s ∧ s.value = none) (i : Nat) (hi : i ∉ free) :
    ∀ j ∈ free, ∃ s, (slots.modify i f)[j]? = some s ∧ s.value = none := by
  intro j hj
  obtain ⟨s, hs, hn⟩ := hv j hj
  have hne : i ≠ j := fun e => hi (e ▸ hj)
  exact ⟨s, by rw [List.getElem?_modify_ne _ _ hne, hs], hn⟩

/-- a vacant slot has an even version -/
theorem vacant_even (m : SlotVec V) {i : Nat} {s : Slot V} (hs : m.slots[i]? = some s)
    (hn : s.value = none) : s.version % 2 = 0 := by
  have h := m.parity i s hs
  rw [hn] at h
  simp only [Option.isSome_none, Bool.false_eq_true, false_iff] at h
  omega

def insert (m : SlotVec V) (v : V) : SlotVec V :=
  match h : m.free with
  | [] =>
    { slots := m.slots ++ [⟨1, some v⟩]
      free := []
      parity := parity_concat m.parity (by simp)
      vacant := by simp
      nodup := List.nodup_nil }
  | i :: rest =>
    { slots := m.slots.modify i fun s => ⟨s.version + 1, some v⟩
      free := rest
      parity := by
        refine parity_modify m.parity i fun s hs => ?_
        obtain ⟨s', hs', hn⟩ := m.vacant i (by rw [h]; exact List.mem_cons_self)
        have e : s = s' := by rw [hs] at hs'; exact Option.some.inj hs'
        have he := m.vacant_even hs (e ▸ hn)
        simp only [Option.isSome_some, true_iff]
        omega
      vacant := by
        have hnd := m.nodup
        rw [h] at hnd
        exact vacant_modify (fun j hj => m.vacant j (by rw [h]; exact List.mem_cons_of_mem _ hj))
          i (List.nodup_cons.mp hnd).1
      nodup := by
        have hnd := m.nodup
        rw [h] at hnd
        exact (List.nodup_cons.mp hnd).2 }

/-- write the value of an occupied slot -/
def modify (m : SlotVec V) (k : KeyData) (f : V → V) : SlotVec V where
  slots := if (m.get k).isSome then
      m.slots.modify (k.idx - 1) fun s => ⟨s.version, s.value.map f⟩
    else m.slots
  free := m.free
  parity := by
    split
    · refine parity_modify m.parity _ fun s hs => ?_
      simpa using m.parity _ s hs
    · exact m.parity
  vacant := by
    intro i hi
    obtain ⟨s, hs, hn⟩ := m.vacant i hi
    split
    · by_cases e : k.idx - 1 = i
      · exact ⟨⟨s.version, s.value.map f⟩, by rw [e, List.getElem?_modify_eq, hs]; rfl,
          by rw [hn]; rfl⟩
      · exact ⟨s, by rw [List.getElem?_modify_ne _ _ e, hs], hn⟩
    · exact ⟨s, hs, hn⟩
  nodup := m.nodup

theorem slotOf_of_get {m : SlotVec V} {k : KeyData} {v : V} (h : m.get k = some v) :
    ∃ s, k.idx ≠ 0 ∧ m.slots[k.idx - 1]? = some s ∧ s.version = k.version ∧ s.value = some v := by
  unfold get at h
  obtain ⟨s, hs, h⟩ := Option.bind_eq_some_iff.mp h
  unfold slotOf at hs
  split at hs
  · cases hs
  · rename_i h0
    split at h
    · exact ⟨s, h0, hs, by assumption, h⟩
    · cases h

def remove (m : SlotVec V) (k : KeyData) : SlotVec V :=
  match h : m.get k with
  | none => m
  | some v =>
    { slots := m.slots.modify (k.idx - 1) fun s => ⟨s.version + 1, none⟩
      free := (k.idx - 1) :: m.free
      parity := by
        refine parity_modify m.parity _ fun s hs => ?_
        obtain ⟨s', -, hs', -, hv⟩ := slotOf_of_get h
        have e : s = s' := by rw [hs] at hs'; exact Option.some.inj hs'
        have hp := m.parity _ s hs
        rw [e, hv] at hp
        simp only [Option.isSome_some, true_iff] at hp
        rw [e]
        simp only [Option.isSome_none, Bool.false_eq_true, false_iff]
        omega
      vacant := by
        obtain ⟨s', -, hs', -, hv⟩ := slotOf_of_get h
        intro j hj
        by_cases e : k.idx - 1 = j
        · subst e
          rw [List.getElem?_modify_eq, hs']
          exact ⟨_, rfl, rfl⟩
        · rw [List.getElem?_modify_ne _ _ e]
          rcases List.mem_cons.mp hj with hj | hj
          · exact absurd hj.symm e
          · exact m.vacant j hj
      nodup := by
        obtain ⟨s', -, hs', -, hv⟩ := slotOf_of_get h
        refine List.nodup_cons.mpr ⟨fun hf => ?_, m.nodup⟩
        obtain ⟨s, hs, hn⟩ := m.vacant _ hf
        rw [hs'] at hs
        rw [← Option.some.inj hs, hv] at hn
        cases hn }

/-! ### the laws -/

theorem slots_insert_nil {m : SlotVec V} (h : m.free = []) (v : V) :
    (m.insert v).slots = m.slots ++ [⟨1, some v⟩] := by
  unfold insert
  split
  · rfl
  · rename_i h'
    rw [h] at h'
    cases h'

theorem slots_insert_cons {m : SlotVec V} {i : Nat} {rest : List Nat} (h : m.free = i :: rest)
    (v : V) : (m.insert v).slots = m.slots.modify i fun s => ⟨s.version + 1, some v⟩ := by
  unfold insert
  split
  · rename_i h'
    rw [h] at h'
    cases h'
  · rename_i i' rest' h'
    rw [h] at h'
    obtain ⟨rfl, rfl⟩ := List.cons.inj h'
    rfl

theorem slots_remove {m : SlotVec V} {k : KeyData} {v : V} (h : m.get k = some v) :
    (m.remove k).slots = m.slots.modify (k.idx - 1) fun s => ⟨s.version + 1, none⟩ := by
  unfold remove
  split
  · rename_i h'
    rw [h] at h'
    cases h'
  · rfl

theorem remove_of_none {m : SlotVec V} {k : KeyData} (h : m.get k = none) : m.remove k = m := by
  unfold remove
  split
  · rfl
  · rename_i h'
    rw [h] at h'
    cases h'

/-- the slot the next key goes to, and its version -/
theorem nextKey_cons {m : SlotVec V} {i : Nat} {rest : List Nat} (h : m.free = i :: rest) :
    ∃ s, m.slots[i]? = some s ∧ s.value = none ∧ m.nextKey = ⟨i + 1, s.version + 1⟩ := by
  obtain ⟨s, hs, hn⟩ := m.vacant i (by rw [h]; exact List.mem_cons_self)
  refine ⟨s, hs, hn, ?_⟩
  unfold nextKey
  rw [h]
  show (⟨i + 1, m.versionAt i + 1⟩ : KeyData) = _
  rw [versionAt, hs]
  rfl

theorem nextKey_nil {m : SlotVec V} (h : m.free = []) : m.nextKey = ⟨m.slots.length + 1, 1⟩ := by
  unfold nextKey
  rw [h]

/-- the slot of a key other than the new one is the old one, up to a vacant slot turned to
another version -/
theorem slotOf_insert (m : SlotVec V) (v : V) (k : KeyData) :
    (m.insert v).slotOf k =
      if k.idx = m.nextKey.idx then some ⟨m.nextKey.version, some v⟩ else m.slotOf k := by
  unfold slotOf
  cases h : m.free with
  | nil =>
    rw [slots_insert_nil h, nextKey_nil h]
    by_cases h0 : k.idx = 0
    · rw [if_pos h0, if_neg (by simp only; omega), if_pos h0]
    · rw [if_neg h0]
      by_cases e : k.idx = m.slots.length + 1
      · rw [if_pos e, e, Nat.add_sub_cancel, List.getElem?_concat_length]
      · rw [if_neg e, if_neg h0]
        rcases Nat.lt_or_ge (k.idx - 1) m.slots.length with hl | hl
        · rw [List.getElem?_append_left hl]
        · rw [List.getElem?_eq_none (by simp; omega), List.getElem?_eq_none hl]
  | cons i rest =>
    obtain ⟨s, hs, -, hk⟩ := nextKey_cons h
    rw [slots_insert_cons h, hk]
    by_cases h0 : k.idx = 0
    · rw [if_pos h0, if_neg (by simp only; omega), if_pos h0]
    · rw [if_neg h0]
      by_cases e : k.idx = i + 1
      · rw [if_pos e, e, Nat.add_sub_cancel, List.getElem?_modify_eq, hs]
        rfl
      · rw [if_neg e, if_neg h0, List.getElem?_modify_ne _ _ (by omega)]

/-- the slot of the next key is new, or it holds nothing and was never at the key's version -/
theorem slotOf_nextKey (m : SlotVec V) (k : KeyData) (hk : k.idx = m.nextKey.idx) :
    (m.slotOf k = none ∧ m.nextKey.version = 1) ∨
    ∃ s, m.slotOf k = some s ∧ s.value = none ∧ s.version % 2 = 0 ∧
      m.nextKey.version = s.version + 1 := by
  unfold slotOf
  cases h : m.free with
  | nil =>
    rw [nextKey_nil h] at hk ⊢
    left
    refine ⟨?_, rfl⟩
    rw [hk, if_neg (by simp), Nat.add_sub_cancel, List.getElem?_eq_none (Nat.le_refl _)]
  | cons i rest =>
    obtain ⟨s, hs, hn, he⟩ := nextKey_cons h
    rw [he] at hk ⊢
    right
    refine ⟨s, ?_, hn, m.vacant_even hs hn, rfl⟩
    rw [hk, if_neg (by simp), Nat.add_sub_cancel, hs]

/-- the next key is for an occupied slot -/
theorem nextKey_odd (m : SlotVec V) : m.nextKey.version % 2 = 1 := by
  rcases slotOf_nextKey m m.nextKey rfl with ⟨-, hv⟩ | ⟨s, -, -, he, hv⟩
  · omega
  · omega

theorem get_insert (m : SlotVec V) (v : V) (k : KeyData) :
    (m.insert v).get k = if k = m.nextKey then some v else m.get k := by
  unfold get
  rw [slotOf_insert]
  by_cases hi : k.idx = m.nextKey.idx
  · rw [if_pos hi, Option.bind_some]
    by_cases hv : m.nextKey.version = k.version
    · have e : k = m.nextKey := by
        cases k
        rw [KeyData.mk.injEq] at *
        exact ⟨hi, hv.symm⟩
      rw [if_pos hv, if_pos e]
    · have ne : k ≠ m.nextKey := fun e => hv (by rw [e])
      rw [if_neg hv, if_neg ne]
      rcases slotOf_nextKey m k hi with ⟨h, -⟩ | ⟨s, h, hn, -, -⟩
      · rw [h]
        rfl
      · rw [h, Option.bind_some, hn, ite_self]
  · have ne : k ≠ m.nextKey := fun e => hi (by rw [e])
    rw [if_neg hi, if_neg ne]

theorem issued_insert (m : SlotVec V) (v : V) (k : KeyData) :
    (m.insert v).Issued k ↔ m.Issued k ∨ k = m.nextKey := by
  unfold Issued
  rw [slotOf_insert]
  by_cases hi : k.idx = m.nextKey.idx
  · rw [if_pos hi]
    constructor
    · intro hp
      obtain ⟨s, hs, hle, hodd⟩ := hp
      rw [← Option.some.inj hs] at hle
      replace hle : k.version ≤ m.nextKey.version := hle
      rcases Nat.lt_or_eq_of_le hle with hlt | heq
      · left
        rcases slotOf_nextKey m k hi with ⟨-, hv⟩ | ⟨s', h, -, -, hv⟩
        · omega
        · have hle' : k.version ≤ s'.version := by omega
          exact ⟨s', h, hle', hodd⟩
      · right
        cases k
        rw [KeyData.mk.injEq] at *
        exact ⟨hi, heq⟩
    · intro hp
      rcases hp with ⟨s, hs, hle, hodd⟩ | rfl
      · refine ⟨_, rfl, ?_, hodd⟩
        show k.version ≤ m.nextKey.version
        rcases slotOf_nextKey m k hi with ⟨h, -⟩ | ⟨s', h, -, -, hv⟩
        · rw [hs] at h
          cases h
        · rw [hs] at h
          rw [Option.some.inj h] at hle
          omega
      · exact ⟨_, rfl, Nat.le_refl _, m.nextKey_odd⟩
  · rw [if_neg hi]
    have ne : k ≠ m.nextKey := fun e => hi (by rw [e])
    simp only [ne, or_false]

theorem not_issued_nextKey (m : SlotVec V) : ¬ m.Issued m.nextKey := by
  intro hp
  obtain ⟨s, hs, hle, -⟩ := hp
  rcases slotOf_nextKey m m.nextKey rfl with ⟨h, -⟩ | ⟨s', h, -, -, hv⟩
  · rw [hs] at h
    cases h
  · rw [hs] at h
    rw [Option.some.inj h] at hle
    omega

theorem issued_of_get (m : SlotVec V) (k : KeyData) (v : V) (h : m.get k = some v) :
    m.Issued k := by
  obtain ⟨s, h0, hs, hv, hsome⟩ := slotOf_of_get h
  refine ⟨s, by unfold slotOf; rw [if_neg h0, hs], by omega, ?_⟩
  rw [← hv]
  exact (m.parity _ s hs).mp (by rw [hsome]; rfl)

theorem slotOf_modify (m : SlotVec V) (k : KeyData) (f : V → V) (j : KeyData) :
    (m.modify k f).slotOf j =
      if (m.get k).isSome ∧ j.idx = k.idx then
        (m.slotOf j).map fun s => ⟨s.version, s.value.map f⟩
      else m.slotOf j := by
  unfold slotOf modify
  by_cases h0 : j.idx = 0
  · simp [h0]
  · rw [if_neg h0, if_neg h0]
    by_cases hk : (m.get k).isSome
    · obtain ⟨v, hv⟩ := Option.isSome_iff_exists.mp hk
      obtain ⟨-, hk0, -⟩ := slotOf_of_get hv
      simp only [hk, if_true, true_and]
      by_cases e : j.idx = k.idx
      · rw [if_pos e, e, List.getElem?_modify_eq]
        rfl
      · rw [if_neg e, List.getElem?_modify_ne _ _ (by omega)]
    · simp [hk]

theorem slotOf_remove {m : SlotVec V} {k : KeyData} {v : V} (h : m.get k = some v)
    (j : KeyData) :
    (m.remove k).slotOf j =
      if j.idx = k.idx then (m.slotOf j).map fun s => ⟨s.version + 1, none⟩ else m.slotOf j := by
  obtain ⟨-, hk0, -⟩ := slotOf_of_get h
  unfold slotOf
  rw [slots_remove h]
  by_cases h0 : j.idx = 0
  · rw [if_pos h0, if_neg (by omega), if_pos h0]
  · rw [if_neg h0, if_neg h0]
    by_cases e : j.idx = k.idx
    · rw [if_pos e, e, List.getElem?_modify_eq]
      rfl
    · rw [if_neg e, List.getElem?_modify_ne _ _ (by omega)]

theorem get_modify (m : SlotVec V) (k : KeyData) (f : V → V) (j : KeyData) :
    (m.modify k f).get j = if j = k then (m.get j).map f else m.get j := by
  cases hk : m.get k with
  | none =>
    have e : (m.modify k f).get j = m.get j := by
      unfold get
      rw [slotOf_modify, hk]
      simp
    rw [e]
    by_cases hj : j = k
    · rw [if_pos hj, hj, hk]
      rfl
    · rw [if_neg hj]
  | some v =>
    obtain ⟨s, hk0, hs, hver, -⟩ := slotOf_of_get hk
    unfold get
    rw [slotOf_modify, hk]
    simp only [Option.isSome_some, true_and]
    by_cases hi : j.idx = k.idx
    · have hj : m.slotOf j = some s := by
        unfold slotOf
        rw [hi, if_neg hk0, hs]
      rw [if_pos hi, hj]
      simp only [Option.map_some, Option.bind_some]
      by_cases hv : s.version = j.version
      · have e : j = k := by
          cases j
          cases k
          rw [KeyData.mk.injEq]
          exact ⟨hi, hv.symm.trans hver⟩
        rw [if_pos hv, if_pos e, if_pos hv]
      · rw [if_neg hv, if_neg hv]
        simp
    · have ne : j ≠ k := fun e => hi (by rw [e])
      rw [if_neg hi, if_neg ne]

theorem get_remove (m : SlotVec V) (k j : KeyData) :
    (m.remove k).get j = if j = k then none else m.get j := by
  cases hk : m.get k with
  | none =>
    rw [remove_of_none hk]
    by_cases e : j = k
    · rw [if_pos e, e, hk]
    · rw [if_neg e]
  | some v =>
    obtain ⟨s, hk0, hs, hver, hval⟩ := slotOf_of_get hk
    unfold get
    rw [slotOf_remove hk]
    by_cases hi : j.idx = k.idx
    · have hj : m.slotOf j = some s := by
        unfold slotOf
        rw [hi, if_neg hk0, hs]
      rw [if_pos hi, hj]
      simp only [Option.map_some, Option.bind_some, ite_self]
      by_cases e : j = k
      · rw [if_pos e]
      · have hv : s.version ≠ j.version := by
          intro hv
          apply e
          cases j
          cases k
          rw [KeyData.mk.injEq]
          exact ⟨hi, hv.symm.trans hver⟩
        rw [if_neg e, if_neg hv]
    · have ne : j ≠ k := fun e => hi (by rw [e])
      rw [if_neg hi, if_neg ne]

theorem issued_modify (m : SlotVec V) (k : KeyData) (f : V → V) (j : KeyData) :
    (m.modify k f).Issued j ↔ m.Issued j := by
  unfold Issued
  rw [slotOf_modify]
  split
  · simp [Option.map_eq_some_iff]
  · rfl

theorem issued_remove (m : SlotVec V) (k j : KeyData) : (m.remove k).Issued j ↔ m.Issued j := by
  cases hk : m.get k with
  | none => rw [remove_of_none hk]
  | some v =>
    obtain ⟨s, hk0, hs, hver, hval⟩ := slotOf_of_get hk
    unfold Issued
    rw [slotOf_remove hk]
    by_cases hi : j.idx = k.idx
    · have hj : m.slotOf j = some s := by
        unfold slotOf
        rw [hi, if_neg hk0, hs]
      have odd : s.version % 2 = 1 := (m.parity _ s hs).mp (by rw [hval]; rfl)
      rw [if_pos hi, hj]
      simp only [Option.map_some, Option.some.injEq, exists_eq_left']
      omega
    · rw [if_neg hi]

theorem mem_iter (m : SlotVec V) (k : KeyData) (v : V) : (k, v) ∈ m.iter ↔ m.get k = some v := by
  unfold iter
  rw [List.mem_filterMap]
  constructor
  · intro hp
    obtain ⟨⟨s, i⟩, hmem, hs⟩ := hp
    rw [List.mem_zipIdx_iff_getElem?] at hmem
    obtain ⟨v', hv', he⟩ := Option.map_eq_some_iff.mp hs
    obtain ⟨rfl, rfl⟩ := Prod.mk.inj he
    unfold get slotOf
    rw [if_neg (by simp), Nat.add_sub_cancel, hmem, Option.bind_some, if_pos rfl, hv']
  · intro h
    obtain ⟨s, h0, hs, hv, hval⟩ := slotOf_of_get h
    refine ⟨(s, k.idx - 1), List.mem_zipIdx_iff_getElem?.mpr hs, ?_⟩
    rw [hval, hv]
    show some ((⟨k.idx - 1 + 1, k.version⟩ : KeyData), v) = some (k, v)
    rw [Nat.sub_add_cancel (Nat.pos_of_ne_zero h0)]

theorem nodup_iter (m : SlotVec V) : (m.iter.map Prod.fst).Nodup := by
  apply List.Nodup.of_map (fun k : KeyData => k.idx - 1)
  have hsub : ∀ l : List (Slot V × Nat),
      List.Sublist (((l.filterMap fun p => p.1.value.map fun v =>
        ((⟨p.2 + 1, p.1.version⟩ : KeyData), v)).map Prod.fst).map fun k => k.idx - 1)
        (l.map Prod.snd) := by
    intro l
    induction l with
    | nil => exact List.Sublist.slnil
    | cons p l ih =>
      cases hp : p.1.value with
      | none =>
        rw [List.filterMap_cons_none (by rw [hp]; rfl)]
        exact ih.cons _
      | some v =>
        rw [List.filterMap_cons_some (b := (⟨p.2 + 1, p.1.version⟩, v)) (by rw [hp]; rfl)]
        exact ih.cons_cons p.2
  exact (hsub _).nodup (List.nodup_zipIdx_map_snd m.slots)

instance : SlotMap SlotVec where
  withKey := empty
  nextKey := nextKey
  insert := insert
  get := get
  modify := modify
  remove := remove
  iter := iter
  Issued := Issued
  get_withKey k := by unfold get slotOf empty; split <;> rfl
  get_insert := get_insert
  get_modify := get_modify
  get_remove := get_remove
  mem_iter := mem_iter
  nodup_iter := nodup_iter
  not_issued_withKey k := by
    intro h
    obtain ⟨s, hs, -⟩ := h
    unfold slotOf empty at hs
    split at hs <;> cases hs
  not_issued_nextKey := not_issued_nextKey
  issued_of_get := issued_of_get
  issued_insert := issued_insert
  issued_modify := issued_modify
  issued_remove := issued_remove

end SlotVec
end Lib
