import Mathlib.Algebra.BigOperators.Group.List.Basic
import Mathlib.Algebra.Order.Field.Basic
import Mathlib.Tactic.FieldSimp
import Mathlib.Tactic.LinearCombination
import Mathlib.Tactic.Ring

/-!
# Moments

The average of some values, the squares of the differences from it, and both after one more value.
-/

namespace TmkDcl.Moments

section Fields

variable {α : Type*} [Field α]

def average (xs : List α) : α := xs.sum / xs.length

/-- The squared differences from a value. -/
def spread (c : α) (xs : List α) : α := (xs.map fun x => (x - c) ^ 2).sum

def populationVariance (xs : List α) : α := spread (average xs) xs / xs.length

/-- The unbiased one. -/
def sampleVariance (xs : List α) : α := spread (average xs) xs / (xs.length - 1)

variable {xs : List α} {x c d : α}

@[simp] theorem average_nil : average ([] : List α) = 0 := by
  rw [average, List.sum_nil, zero_div]

@[simp] theorem average_singleton (x : α) : average [x] = x := by
  rw [average, List.sum_singleton, List.length_singleton, Nat.cast_one, div_one]

@[simp] theorem spread_nil (c : α) : spread c [] = 0 := rfl

@[simp] theorem spread_cons (c x : α) (xs : List α) :
    spread c (x :: xs) = (x - c) ^ 2 + spread c xs := by
  rw [spread, List.map_cons, List.sum_cons, spread]

@[simp] theorem spread_concat (c x : α) (xs : List α) :
    spread c (xs ++ [x]) = spread c xs + (x - c) ^ 2 := by
  rw [spread, List.map_append, List.sum_append, List.map_singleton, List.sum_singleton, spread]

theorem spread_shift (c d : α) (xs : List α) :
    spread c xs = spread d xs + 2 * (d - c) * (xs.sum - xs.length * d) +
      xs.length * (d - c) ^ 2 := by
  induction xs with
  | nil => simp
  | cons x xs ih =>
    rw [spread_cons, spread_cons, ih, List.sum_cons, List.length_cons, Nat.cast_succ]
    ring

variable [CharZero α]

theorem length_ne_zero (hne : xs ≠ []) : (xs.length : α) ≠ 0 :=
  Nat.cast_ne_zero.mpr (List.length_pos_iff.mpr hne).ne'

theorem length_mul_average (hne : xs ≠ []) : xs.length * average xs = xs.sum :=
  mul_div_cancel₀ _ (length_ne_zero hne)

/-- The differences from the average have the least squares. -/
theorem spread_eq (hne : xs ≠ []) (c : α) :
    spread c xs = spread (average xs) xs + xs.length * (average xs - c) ^ 2 := by
  rw [spread_shift c (average xs), length_mul_average hne, sub_self, mul_zero, add_zero]

theorem average_concat (xs : List α) (x : α) :
    average (xs ++ [x]) = average xs + (x - average xs) / (xs.length + 1) := by
  cases xs with
  | nil => simp
  | cons y ys =>
    have hlength := length_ne_zero (List.cons_ne_nil y ys)
    have hsucc : ((y :: ys).length + 1 : α) ≠ 0 := Nat.cast_add_one_ne_zero _
    rw [average, average, List.sum_append, List.sum_singleton, List.length_append,
      List.length_singleton, Nat.cast_add, Nat.cast_one]
    field_simp
    ring

theorem spread_average_concat (xs : List α) (x : α) :
    spread (average (xs ++ [x])) (xs ++ [x]) =
      spread (average xs) xs + (x - average xs) * (x - average (xs ++ [x])) := by
  cases xs with
  | nil => simp
  | cons y ys =>
    have hsucc : ((y :: ys).length + 1 : α) ≠ 0 := Nat.cast_add_one_ne_zero _
    have hnext := average_concat (y :: ys) x
    have hstep : ((y :: ys).length + 1 : α) * (average (y :: ys ++ [x]) - average (y :: ys)) =
        x - average (y :: ys) := by
      rw [hnext, add_sub_cancel_left, mul_div_cancel₀ _ hsucc]
    rw [spread_concat, spread_eq (List.cons_ne_nil y ys) (average (y :: ys ++ [x]))]
    linear_combination (average (y :: ys ++ [x]) - average (y :: ys)) * hstep

end Fields

section Ordered

variable {α : Type*} [Field α] [LinearOrder α] [IsStrictOrderedRing α] {xs : List α} {c : α}

/-- No other value has the least squares. -/
theorem spread_eq_iff (hne : xs ≠ []) : spread c xs = spread (average xs) xs ↔ c = average xs := by
  rw [spread_eq hne, add_eq_left, mul_eq_zero, or_iff_right (length_ne_zero hne), sq_eq_zero_iff,
    sub_eq_zero, eq_comm]

theorem spread_div_eq_iff (hne : xs ≠ []) :
    spread c xs / xs.length = populationVariance xs ↔ c = average xs := by
  rw [populationVariance, div_left_inj' (length_ne_zero hne), spread_eq_iff hne]

theorem spread_nonneg (c : α) (xs : List α) : 0 ≤ spread c xs := by
  induction xs with
  | nil => exact le_refl 0
  | cons x xs ih =>
    rw [spread_cons]
    exact add_nonneg (sq_nonneg _) ih

end Ordered

end TmkDcl.Moments
