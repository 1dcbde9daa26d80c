import Mathlib.Algebra.Order.Ring.Nat
import Mathlib.Data.Finset.Prod
import Mathlib.Data.Nat.ModEq
import Mathlib.Data.Set.Function

/-!
# Mixed radix numbers

A digit `x` below `a` and a number `y` below `b` make the number `x + y * a` below `a * b`, and each
number below `a * b` is made so once. With three digits this is the place of a cell in a flat array
of three dimensions.
-/

namespace TmkDcl.MixedRadix

variable {a b c x x' y y' n : ℕ}

theorem lt_mul (hx : x < a) (hy : y < b) : x + y * a < a * b := by
  calc x + y * a < a + y * a := Nat.add_lt_add_right hx _
    _ = (y + 1) * a := by rw [Nat.succ_mul, Nat.add_comm]
    _ ≤ b * a := Nat.mul_le_mul_right a hy
    _ = a * b := Nat.mul_comm b a

theorem eq_of_eq (hx : x < a) (hx' : x' < a) (h : x + y * a = x' + y' * a) : x = x' ∧ y = y' := by
  have hpos : 0 < a := Nat.zero_lt_of_lt hx
  constructor
  · have hmod := congrArg (· % a) h
    simpa [Nat.add_mul_mod_self_right, Nat.mod_eq_of_lt hx, Nat.mod_eq_of_lt hx'] using hmod
  · have hdiv := congrArg (· / a) h
    simpa [Nat.add_mul_div_right _ _ hpos, Nat.div_eq_of_lt hx, Nat.div_eq_of_lt hx'] using hdiv

theorem exists_eq (h : n < a * b) : ∃ x < a, ∃ y < b, n = x + y * a := by
  have hpos : 0 < a := Nat.pos_of_mul_pos_right (Nat.zero_lt_of_lt h)
  refine ⟨n % a, Nat.mod_lt n hpos, n / a, ?_, ?_⟩
  · exact Nat.div_lt_of_lt_mul h
  · rw [Nat.mul_comm, Nat.mod_add_div]

/-- The number of the digits `p.2.1`, `p.1` and `p.2.2` for the radices `a`, `b` and whatever the
last one is. -/
def flat (a b : ℕ) (p : ℕ × ℕ × ℕ) : ℕ := p.2.1 + p.1 * a + p.2.2 * (a * b)

/-- The digits below `b`, `a` and `c`. -/
def cells (b a c : ℕ) : Finset (ℕ × ℕ × ℕ) := Finset.range b ×ˢ Finset.range a ×ˢ Finset.range c

theorem mem_cells {p : ℕ × ℕ × ℕ} : p ∈ cells b a c ↔ p.1 < b ∧ p.2.1 < a ∧ p.2.2 < c := by
  simp [cells]

theorem card_cells : (cells b a c).card = b * a * c := by
  simp [cells, Nat.mul_assoc]

theorem flat_lt {p : ℕ × ℕ × ℕ} (hp : p ∈ cells b a c) : flat a b p < b * a * c := by
  obtain ⟨hrow, hcol, hchannel⟩ := mem_cells.mp hp
  rw [flat, Nat.mul_comm b a]
  exact lt_mul (lt_mul hcol hrow) hchannel

/-- The cells of an array of three dimensions take the numbers below its size, each one once. -/
theorem flat_bijOn (b a c : ℕ) :
    Set.BijOn (flat a b) (cells b a c) (Finset.range (b * a * c)) := by
  refine ⟨fun p hp => ?_, fun p hp q hq h => ?_, fun n hn => ?_⟩
  · exact Finset.mem_coe.mpr (Finset.mem_range.mpr (flat_lt hp))
  · obtain ⟨hrow, hcol, hchannel⟩ := mem_cells.mp hp
    obtain ⟨hrow', hcol', hchannel'⟩ := mem_cells.mp hq
    obtain ⟨hlow, hlast⟩ := eq_of_eq (lt_mul hcol hrow) (lt_mul hcol' hrow') h
    obtain ⟨hfirst, hsecond⟩ := eq_of_eq hcol hcol' hlow
    exact Prod.ext hsecond (Prod.ext hfirst hlast)
  · have hlt : n < a * b * c := Nat.mul_comm b a ▸ Finset.mem_range.mp (Finset.mem_coe.mp hn)
    obtain ⟨low, hlow, channel, hchannel, rfl⟩ := exists_eq hlt
    obtain ⟨col, hcol, row, hrow, rfl⟩ := exists_eq hlow
    exact ⟨(row, col, channel), mem_cells.mpr ⟨hrow, hcol, hchannel⟩, rfl⟩

end TmkDcl.MixedRadix
