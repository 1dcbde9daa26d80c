import Mathlib.Algebra.Order.Ring.Rat
import Mathlib.Data.Rat.Floor

/-!
# Truncation

A fraction to a whole number, as C converts a floating value to an integer.
-/

namespace TmkDcl.Truncation

/-- Toward zero. -/
def truncate (v : ℚ) : ℤ := v.num.tdiv v.den

/-- What the whole number does not take of a value. -/
def fraction (v : ℚ) : ℚ := v - truncate v

/-- The values of an `int`. -/
def FitsInt (n : ℤ) : Prop := -2 ^ 31 ≤ n ∧ n < 2 ^ 31

instance (n : ℤ) : Decidable (FitsInt n) := inferInstanceAs (Decidable (_ ∧ _))

variable {v : ℚ} {n : ℤ}

@[simp] theorem truncate_intCast (k : ℤ) : truncate k = k := Int.tdiv_one k

theorem truncate_nonneg (h : 0 ≤ v) : 0 ≤ truncate v :=
  Int.tdiv_nonneg (Rat.num_nonneg.mpr h) (Int.natCast_nonneg v.den)

theorem fraction_nonneg (h : 0 ≤ v) : 0 ≤ fraction v := by
  have hfloor : truncate v = v.floor := by
    rw [truncate, Int.tdiv_eq_ediv_of_nonneg (Rat.num_nonneg.mpr h), Rat.floor_def]
  rw [fraction, hfloor, sub_nonneg]
  exact Rat.floor_le v

theorem fraction_eq_zero_iff : fraction v = 0 ↔ ∃ k : ℤ, v = k := by
  constructor
  · intro h
    exact ⟨truncate v, sub_eq_zero.mp h⟩
  · intro h
    obtain ⟨k, rfl⟩ := h
    rw [fraction, truncate_intCast, sub_self]

theorem toInt_ofInt (h : FitsInt n) : (Int32.ofInt n).toInt = n :=
  Int32.toInt_ofInt_of_le h.1 h.2

theorem fitsInt_toInt (x : Int32) : FitsInt x.toInt := ⟨x.le_toInt, x.toInt_lt⟩

end TmkDcl.Truncation
