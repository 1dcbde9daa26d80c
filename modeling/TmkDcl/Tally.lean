import Mathlib.Data.Finset.Card
import Mathlib.Logic.Function.Basic

/-!
# Counting the members of a family

A family over an arbitrary index type of which finitely many members satisfy a predicate. An
update of one member changes the count by that member only.
-/

namespace TmkDcl

variable {ι β : Type*} {p : β → Bool} {f : ι → β} {n : ℕ}

/-- Exactly `n` members of the family `f` satisfy `p`. -/
def Tally (p : β → Bool) (f : ι → β) (n : ℕ) : Prop :=
  ∃ F : Finset ι, (∀ i, i ∈ F ↔ p (f i) = true) ∧ F.card = n

namespace Tally

theorem zero (h : ∀ i, p (f i) = false) : Tally p f 0 := ⟨∅, fun i => by simp [h i], rfl⟩

theorem pos (h : Tally p f n) {i : ι} (hi : p (f i) = true) : 0 < n := by
  obtain ⟨F, hF, rfl⟩ := h
  exact Finset.card_pos.mpr ⟨i, (hF i).mpr hi⟩

theorem eq_zero (h : Tally p f n) (hf : ∀ i, p (f i) = false) : n = 0 := by
  obtain ⟨F, hF, rfl⟩ := h
  refine Finset.card_eq_zero.mpr (Finset.eq_empty_of_forall_notMem fun i hi => ?_)
  have htrue := (hF i).mp hi
  rw [hf i] at htrue
  exact Bool.false_ne_true htrue

theorem update [DecidableEq ι] (h : Tally p f n) (i : ι) (b : β) :
    ∃ m, Tally p (Function.update f i b) m ∧ m + (p (f i)).toNat = n + (p b).toNat := by
  obtain ⟨F, hF, rfl⟩ := h
  have hother : ∀ j ≠ i, (j ∈ F ↔ p (Function.update f i b j) = true) := by
    intro j hj
    rw [Function.update_of_ne hj]
    exact hF j
  cases hb : p b with
  | true =>
    refine ⟨_, ⟨insert i F, fun j => ?_, rfl⟩, ?_⟩
    · by_cases hj : j = i
      · simp [hj, hb]
      · rw [Finset.mem_insert, or_iff_right hj]
        exact hother j hj
    · by_cases hi : i ∈ F
      · simp [(hF i).mp hi, Finset.insert_eq_of_mem hi]
      · have hfalse : p (f i) = false := by simpa using fun h => hi ((hF i).mpr h)
        simp [hfalse, Finset.card_insert_of_notMem hi]
  | false =>
    refine ⟨_, ⟨F.erase i, fun j => ?_, rfl⟩, ?_⟩
    · by_cases hj : j = i
      · simp [hj, hb]
      · rw [Finset.mem_erase, and_iff_right hj]
        exact hother j hj
    · by_cases hi : i ∈ F
      · simp only [(hF i).mp hi, Bool.toNat_true, Bool.toNat_false, Nat.add_zero]
        exact Finset.card_erase_add_one hi
      · have hfalse : p (f i) = false := by simpa using fun h => hi ((hF i).mpr h)
        simp [hfalse, Finset.erase_eq_of_notMem hi]

end Tally

end TmkDcl
