import Mathlib.Data.Finset.Dedup
import Mathlib.Data.Finset.Erase

/-!
# Hitting sets by choice

`L` is a family of lists.  Choosing one member of every nonempty list of `L` gives a hitting set
(`hits_chosen`).  It is inclusion-minimal exactly when no choice is superfluous
(`minimalHitting_chosen_iff`): for every chosen `b` some list whose choice is `b` contains no other
chosen element.
-/

set_option linter.unusedSectionVars false

namespace Lib

section
variable {α : Type} [DecidableEq α]

/-- `s` meets every nonempty list of the family, and without any one of its members it does not -/
structure MinimalHitting (L : List (List α)) (s : Finset α) : Prop where
  hits : ∀ ps ∈ L, ps ≠ [] → ∃ b ∈ s, b ∈ ps
  needed : ∀ b ∈ s, ∃ ps ∈ L, ps ≠ [] ∧ ∀ c ∈ s.erase b, c ∉ ps

/-- `w` picks a member of every nonempty list -/
structure Choice (w : List α → Option α) : Prop where
  mem : ∀ ps b, w ps = some b → b ∈ ps
  total : ∀ ps, ps ≠ [] → ∃ b, w ps = some b

def chosen (L : List (List α)) (w : List α → Option α) : Finset α := (L.filterMap w).toFinset

/-- some list whose choice is `b` avoids the choices other than `b` -/
def Sole (L : List (List α)) (w : List α → Option α) (b : α) : Prop :=
  ∃ ps ∈ L, w ps = some b ∧ ∀ qs ∈ L, ∀ c, w qs = some c → c ∈ ps → c = b

variable {L : List (List α)} {w : List α → Option α}

theorem mem_chosen {b : α} : b ∈ chosen L w ↔ ∃ ps ∈ L, w ps = some b := by
  unfold chosen
  rw [List.mem_toFinset, List.mem_filterMap]

theorem hits_chosen (hw : Choice w) : ∀ ps ∈ L, ps ≠ [] → ∃ b ∈ chosen L w, b ∈ ps := by
  intro ps hps hne
  obtain ⟨b, hb⟩ := hw.total ps hne
  exact ⟨b, mem_chosen.mpr ⟨ps, hps, hb⟩, hw.mem ps b hb⟩

/-- **the chosen set is minimal exactly when every choice is the sole one of some list** -/
theorem minimalHitting_chosen_iff (hw : Choice w) :
    MinimalHitting L (chosen L w) ↔ ∀ ps ∈ L, ∀ b, w ps = some b → Sole L w b := by
  constructor
  · intro h ps hps b hb
    obtain ⟨ps', hps', hne, hfree⟩ := h.needed b (mem_chosen.mpr ⟨ps, hps, hb⟩)
    have honly : ∀ c ∈ chosen L w, c ∈ ps' → c = b := by
      intro c hc hcp
      by_contra hcb
      exact hfree c (Finset.mem_erase.mpr ⟨hcb, hc⟩) hcp
    obtain ⟨d, hd⟩ := hw.total ps' hne
    have hdb : d = b := honly d (mem_chosen.mpr ⟨ps', hps', hd⟩) (hw.mem ps' d hd)
    exact ⟨ps', hps', hdb ▸ hd, fun qs hqs c hc => honly c (mem_chosen.mpr ⟨qs, hqs, hc⟩)⟩
  · intro h
    refine ⟨hits_chosen hw, fun b hb => ?_⟩
    obtain ⟨ps, hps, hpb⟩ := mem_chosen.mp hb
    obtain ⟨ps', hps', hb', honly⟩ := h ps hps b hpb
    refine ⟨ps', hps', List.ne_nil_of_mem (hw.mem ps' b hb'), fun c hc hcp => ?_⟩
    obtain ⟨hcb, hc⟩ := Finset.mem_erase.mp hc
    obtain ⟨qs, hqs, hq⟩ := mem_chosen.mp hc
    exact hcb (honly qs hqs c hq hcp)

/-- when lists with different choices are disjoint, the chosen set is minimal -/
theorem minimalHitting_of_disjoint (hw : Choice w)
    (h : ∀ ps ∈ L, ∀ qs ∈ L, w ps ≠ w qs → ∀ x ∈ ps, x ∉ qs) :
    MinimalHitting L (chosen L w) := by
  refine (minimalHitting_chosen_iff hw).mpr fun ps hps b hb => ?_
  refine ⟨ps, hps, hb, fun qs hqs c hc hcp => ?_⟩
  by_contra hne
  refine h ps hps qs hqs (fun e => ?_) c hcp (hw.mem qs c hc)
  rw [hb, hc] at e
  exact hne (Option.some.inj e).symm

end
end Lib
