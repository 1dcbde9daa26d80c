import Mathlib.Analysis.Real.Sqrt
import TmkDcl.Moments
import TmkDcl.Truncation

/-!
# Mean and deviation (CommonFunctions.h, CommonFunctions.cpp)

`WelfordOnlineAlgorithm` goes from sample to sample; `getStd` has all of them. The arithmetic of
the values is exact here, and what `getStd` sums up goes through an `int`.
-/

namespace TmkDcl.Libdclalgo

open TmkDcl.Moments TmkDcl.Truncation

structure WelfordOnlineAlgorithm where
  numberOfSamples : ℚ
  mean0 : ℚ
  std0 : ℚ
  stDeviation : ℚ
  mean : ℚ
  deriving DecidableEq

namespace WelfordOnlineAlgorithm

/-- The initial values of the members. -/
def initial : WelfordOnlineAlgorithm := ⟨0, 0, 0, 0, 0⟩

def clean (_ : WelfordOnlineAlgorithm) : WelfordOnlineAlgorithm := ⟨0, 0, 0, 0, 0⟩

def update (s : WelfordOnlineAlgorithm) (x : ℚ) : WelfordOnlineAlgorithm :=
  let s := { s with numberOfSamples := s.numberOfSamples + 1 }
  if s.numberOfSamples = 1 then { s with mean0 := x, std0 := 0 }
  else
    let mnext := s.mean0 + (x - s.mean0) / s.numberOfSamples
    let s := { s with std0 := s.std0 + (x - s.mean0) * (x - mnext) }
    let s := { s with mean0 := mnext }
    let s := { s with mean := s.mean0 }
    { s with stDeviation := s.std0 / (s.numberOfSamples - 1) }

inductive Call where
  | clean
  | update (x : ℚ)

def call (s : WelfordOnlineAlgorithm) : Call → WelfordOnlineAlgorithm
  | .clean => s.clean
  | .update x => s.update x

/-- A history of calls. -/
def run (calls : List Call) : WelfordOnlineAlgorithm := calls.foldl call initial

def sample (xs : List ℚ) : Call → List ℚ
  | .clean => []
  | .update x => xs ++ [x]

/-- The values since the last `clean`. -/
def samples (calls : List Call) : List ℚ := calls.foldl sample []

/-- What the members are after some samples. The first one reaches neither of the public ones. -/
structure Tracks (xs : List ℚ) (s : WelfordOnlineAlgorithm) : Prop where
  number : s.numberOfSamples = xs.length
  mean0 : s.mean0 = average xs
  std0 : s.std0 = spread (average xs) xs
  mean : s.mean = if xs.length < 2 then 0 else average xs
  stDeviation : s.stDeviation = if xs.length < 2 then 0 else sampleVariance xs

section Steps

variable {s : WelfordOnlineAlgorithm} {xs : List ℚ}

theorem tracks_nil : Tracks [] initial where
  number := rfl
  mean0 := average_nil.symm
  std0 := rfl
  mean := rfl
  stDeviation := rfl

theorem tracks_first (h : Tracks [] s) (x : ℚ) : Tracks [x] (s.update x) := by
  have hnumber : s.numberOfSamples + 1 = 1 := by
    rw [h.number, List.length_nil, Nat.cast_zero, zero_add]
  rw [update, if_pos hnumber]
  constructor
  · exact hnumber
  · exact (average_singleton x).symm
  · rw [average_singleton, spread_cons, spread_nil, sub_self]
    norm_num
  · exact h.mean
  · exact h.stDeviation

theorem tracks_next (h : Tracks xs s) (hne : xs ≠ []) (x : ℚ) :
    Tracks (xs ++ [x]) (s.update x) := by
  have hpos : 0 < xs.length := List.length_pos_iff.mpr hne
  have hlength : (xs ++ [x]).length = xs.length + 1 := List.length_append
  have hnumber : ¬s.numberOfSamples + 1 = 1 := by
    rw [h.number, add_eq_right]
    exact length_ne_zero hne
  have hnext : s.mean0 + (x - s.mean0) / (s.numberOfSamples + 1) = average (xs ++ [x]) := by
    rw [h.mean0, h.number, average_concat]
  have hspread : s.std0 + (x - s.mean0) * (x - average (xs ++ [x])) =
      spread (average (xs ++ [x])) (xs ++ [x]) := by
    rw [h.std0, h.mean0, ← spread_average_concat]
  have hlong : ¬(xs ++ [x]).length < 2 := by omega
  rw [update, if_neg hnumber]
  simp only [hnext, hspread]
  constructor
  · rw [h.number, hlength, Nat.cast_succ]
  · rfl
  · rfl
  · rw [if_neg hlong]
  · rw [if_neg hlong, sampleVariance, h.number, hlength, Nat.cast_succ]

theorem tracks_update (h : Tracks xs s) (x : ℚ) : Tracks (xs ++ [x]) (s.update x) := by
  cases xs with
  | nil => exact tracks_first h x
  | cons y ys => exact tracks_next h (List.cons_ne_nil y ys) x

theorem tracks_call (h : Tracks xs s) (c : Call) : Tracks (sample xs c) (s.call c) := by
  cases c with
  | clean => exact tracks_nil
  | update x => exact tracks_update h x

theorem tracks_foldl (h : Tracks xs s) (calls : List Call) :
    Tracks (calls.foldl sample xs) (calls.foldl call s) := by
  induction calls generalizing xs s with
  | nil => exact h
  | cons c calls ih => exact ih (tracks_call h c)

theorem tracks_run (calls : List Call) : Tracks (samples calls) (run calls) :=
  tracks_foldl tracks_nil calls

end Steps

/-- The public members have the moments of the samples from the second one on, and after a first
one that is zero. -/
theorem moments_iff (calls : List Call) (hne : samples calls ≠ []) :
    ((run calls).mean = average (samples calls) ∧
        (2 ≤ (samples calls).length → (run calls).stDeviation = sampleVariance (samples calls))) ↔
      2 ≤ (samples calls).length ∨ samples calls = [0] := by
  have h := tracks_run calls
  by_cases hlong : 2 ≤ (samples calls).length
  · have hshort : ¬(samples calls).length < 2 := by omega
    refine iff_of_true ⟨?_, fun _ => ?_⟩ (Or.inl hlong)
    · rw [h.mean, if_neg hshort]
    · rw [h.stDeviation, if_neg hshort]
  · have hpos : 0 < (samples calls).length := List.length_pos_iff.mpr hne
    obtain ⟨x, hx⟩ := List.length_eq_one_iff.mp (show (samples calls).length = 1 by omega)
    have hone : ¬2 ≤ [x].length := Nat.not_succ_le_self 1
    rw [h.mean, if_pos (by omega), hx, average_singleton, or_iff_right hone,
      and_iff_left (fun htwo => absurd htwo hone), List.cons.injEq, and_iff_left rfl, eq_comm]

/-- Three samples after a `clean`. -/
theorem moments_three :
    ((run [.update 5, .clean, .update 1, .update 2, .update 6]).mean =
          average (samples [.update 5, .clean, .update 1, .update 2, .update 6]) ∧
        (2 ≤ (samples [.update 5, .clean, .update 1, .update 2, .update 6]).length →
          (run [.update 5, .clean, .update 1, .update 2, .update 6]).stDeviation =
            sampleVariance (samples [.update 5, .clean, .update 1, .update 2, .update 6]))) ↔
      2 ≤ (samples [.update 5, .clean, .update 1, .update 2, .update 6]).length ∨
        samples [.update 5, .clean, .update 1, .update 2, .update 6] = [0] :=
  moments_iff [.update 5, .clean, .update 1, .update 2, .update 6] (by decide)

/-- The first sample, and no mean yet. -/
theorem first_without_mean : samples [.update 7] = [7] ∧ (run [.update 7]).mean = 0 ∧
    average (samples [.update 7]) = 7 := by
  refine ⟨rfl, by decide +kernel, average_singleton 7⟩

end WelfordOnlineAlgorithm

/-! ### `getStd` -/

/-- A `double` to an `int`; not defined for one that is out of its range. -/
def toInt (v : ℚ) : Option ℤ :=
  if FitsInt (truncate v) then some (truncate v) else none

/-- `std::accumulate` with an `int` to begin with. -/
def accumulate : ℤ → List ℚ → Option ℤ
  | acc, [] => some acc
  | acc, x :: xs => (toInt (acc + x)).bind fun acc => accumulate acc xs

/-- `getStd` before the square root. -/
def getVariance (vec : List ℚ) : Option ℚ :=
  (accumulate 0 vec).map fun (sum : ℤ) =>
    let mean := (sum : ℚ) / vec.length
    let variance := vec.foldl (fun variance x => variance + (x - mean) ^ 2) 0
    variance / vec.length

/-- `getStd`. -/
noncomputable def getStd (vec : List ℚ) : Option ℝ :=
  (getVariance vec).map fun (variance : ℚ) => √(variance : ℝ)

/-- The fractions that are lost along the sums. -/
def lost : ℤ → List ℚ → ℚ
  | _, [] => 0
  | whole, x :: xs => fraction (whole + x) + lost (truncate (whole + x)) xs

/-- Every sum is in the range of an `int`. -/
def InRange : ℤ → List ℚ → Prop
  | _, [] => True
  | whole, x :: xs => FitsInt (truncate (whole + x)) ∧ InRange (truncate (whole + x)) xs

/-- The whole parts of the sums make the sum. -/
def WholeSum (vec : List ℚ) : Prop := InRange 0 vec ∧ lost 0 vec = 0

section Sums

variable {whole acc : ℤ} {xs vec : List ℚ} {x : ℚ}

theorem accumulate_eq_none (h : ¬InRange whole xs) : accumulate whole xs = none := by
  induction xs generalizing whole with
  | nil => exact absurd trivial h
  | cons x xs ih =>
    rw [accumulate, toInt]
    split
    · rename_i hfits
      exact ih fun hrest => h ⟨hfits, hrest⟩
    · rfl

theorem accumulate_of_inRange (h : InRange whole xs) :
    ∃ sum, accumulate whole xs = some sum ∧ (sum : ℚ) = whole + xs.sum - lost whole xs := by
  induction xs generalizing whole with
  | nil =>
    refine ⟨whole, rfl, ?_⟩
    rw [List.sum_nil, lost, add_zero, sub_zero]
  | cons x xs ih =>
    obtain ⟨hfits, hrest⟩ := h
    obtain ⟨sum, hsum, hvalue⟩ := ih hrest
    refine ⟨sum, ?_, ?_⟩
    · rw [accumulate, toInt, if_pos hfits]
      exact hsum
    · rw [hvalue, List.sum_cons, lost, fraction]
      ring

theorem getVariance_eq {sum : ℤ} (h : accumulate 0 vec = some sum) :
    getVariance vec = some (spread ((sum : ℚ) / vec.length) vec / vec.length) := by
  rw [getVariance, h, Option.map_some, spread, List.sum_eq_foldl, List.foldl_map]

/-- The squares are round the right mean if nothing of the sum is lost. -/
theorem getVariance_iff (hne : vec ≠ []) :
    getVariance vec = some (populationVariance vec) ↔ WholeSum vec := by
  by_cases hrange : InRange 0 vec
  · obtain ⟨sum, hsum, hvalue⟩ := accumulate_of_inRange hrange
    rw [getVariance_eq hsum, Option.some.injEq, spread_div_eq_iff hne, average,
      div_left_inj' (length_ne_zero hne), hvalue, Int.cast_zero, zero_add, sub_eq_self, WholeSum,
      and_iff_right hrange]
  · rw [getVariance, accumulate_eq_none hrange]
    exact iff_of_false (Option.some_ne_none _).symm fun h => hrange h.1

theorem getVariance_nonneg {v : ℚ} (h : getVariance vec = some v) : 0 ≤ v := by
  by_cases hrange : InRange 0 vec
  · obtain ⟨sum, hsum, -⟩ := accumulate_of_inRange hrange
    rw [getVariance_eq hsum] at h
    rw [← Option.some.inj h]
    exact div_nonneg (spread_nonneg _ _) (Nat.cast_nonneg _)
  · rw [getVariance, accumulate_eq_none hrange] at h
    exact nomatch h

theorem getStd_sq_iff {v : ℚ} :
    (∃ r, getStd vec = some r ∧ r ^ 2 = (v : ℝ)) ↔ getVariance vec = some v := by
  constructor
  · intro h
    obtain ⟨r, hr, hsq⟩ := h
    obtain ⟨w, hw, rfl⟩ := Option.map_eq_some_iff.mp hr
    have hnonneg : (0 : ℝ) ≤ w := Rat.cast_nonneg.mpr (getVariance_nonneg hw)
    rw [Real.sq_sqrt hnonneg] at hsq
    rw [hw, Rat.cast_injective hsq]
  · intro h
    have hnonneg : (0 : ℝ) ≤ v := Rat.cast_nonneg.mpr (getVariance_nonneg h)
    exact ⟨√(v : ℝ), by rw [getStd, h, Option.map_some], Real.sq_sqrt hnonneg⟩

end Sums

/-! ### Values that are not negative -/

section NonNegative

variable {whole : ℤ} {xs : List ℚ} {v : ℚ}

theorem whole_add_nonneg (hwhole : 0 ≤ whole) (hv : 0 ≤ v) : 0 ≤ (whole : ℚ) + v :=
  add_nonneg (Int.cast_nonneg hwhole) hv

theorem lost_nonneg (hwhole : 0 ≤ whole) (hxs : ∀ x ∈ xs, 0 ≤ x) : 0 ≤ lost whole xs := by
  induction xs generalizing whole with
  | nil => exact le_refl 0
  | cons x xs ih =>
    have hsum := whole_add_nonneg hwhole (hxs x List.mem_cons_self)
    exact add_nonneg (fraction_nonneg hsum)
      (ih (truncate_nonneg hsum) fun y hy => hxs y (List.mem_cons_of_mem x hy))

/-- A sum only grows, and no later value takes a lost fraction back. -/
theorem whole_sums_iff (hwhole : 0 ≤ whole) (hlt : whole < 2 ^ 31) (hxs : ∀ x ∈ xs, 0 ≤ x) :
    InRange whole xs ∧ lost whole xs = 0 ↔
      (∀ x ∈ xs, ∃ k : ℤ, x = k) ∧ (whole : ℚ) + xs.sum < 2 ^ 31 := by
  induction xs generalizing whole with
  | nil =>
    have hcast : (whole : ℚ) < 2 ^ 31 := by exact_mod_cast hlt
    exact iff_of_true ⟨trivial, rfl⟩ ⟨fun x hx => (List.not_mem_nil hx).elim, by simpa using hcast⟩
  | cons x xs ih =>
    have hx := hxs x List.mem_cons_self
    have hrest : ∀ y ∈ xs, 0 ≤ y := fun y hy => hxs y (List.mem_cons_of_mem x hy)
    have hsum := whole_add_nonneg hwhole hx
    have hpos := truncate_nonneg hsum
    constructor
    · intro h
      obtain ⟨⟨⟨-, hfits⟩, hrange⟩, hlost⟩ := h
      have hfraction := fraction_nonneg hsum
      have hlater := lost_nonneg hpos hrest
      rw [lost] at hlost
      obtain ⟨k, hk⟩ := fraction_eq_zero_iff.mp (show fraction (whole + x) = 0 by linarith)
      obtain ⟨hints, hbound⟩ := (ih hpos hfits hrest).mp ⟨hrange, by linarith⟩
      rw [hk, truncate_intCast] at hbound
      refine ⟨fun y hy => ?_, ?_⟩
      · cases List.mem_cons.mp hy with
        | inl heq => exact ⟨k - whole, by rw [heq, Int.cast_sub, ← hk, add_sub_cancel_left]⟩
        | inr hmem => exact hints y hmem
      · rw [List.sum_cons, ← add_assoc, hk]
        exact hbound
    · intro h
      obtain ⟨hints, hbound⟩ := h
      obtain ⟨k, rfl⟩ := hints x List.mem_cons_self
      have hadd : (whole : ℚ) + k = (whole + k : ℤ) := (Int.cast_add whole k).symm
      have htotal : 0 ≤ xs.sum := List.sum_nonneg hrest
      rw [List.sum_cons, ← add_assoc, hadd] at hbound
      have hfits : whole + k < 2 ^ 31 := by
        have hcast : ((whole + k : ℤ) : ℚ) < 2 ^ 31 := by linarith
        exact_mod_cast hcast
      rw [hadd, truncate_intCast] at hpos
      have hlater := (ih hpos hfits hrest).mpr
        ⟨fun y hy => hints y (List.mem_cons_of_mem _ hy), hbound⟩
      rw [InRange, lost, hadd, truncate_intCast, fraction_eq_zero_iff.mpr ⟨_, rfl⟩, zero_add]
      exact ⟨⟨⟨by omega, hfits⟩, hlater.1⟩, hlater.2⟩

end NonNegative

/-- The square of the result is the variance if what the `int` loses along the sums comes to
nothing. Of values that are not negative it is so only for whole ones. -/
theorem getStd_variance_iff (vec : List ℚ) (hne : vec ≠ []) :
    ((∃ r, getStd vec = some r ∧ r ^ 2 = ((populationVariance vec : ℚ) : ℝ)) ↔ WholeSum vec) ∧
      ((∀ x ∈ vec, 0 ≤ x) →
        (WholeSum vec ↔ (∀ x ∈ vec, ∃ k : ℤ, x = k) ∧ vec.sum < 2 ^ 31)) := by
  constructor
  · rw [getStd_sq_iff]
    exact getVariance_iff hne
  · intro hvec
    have h := whole_sums_iff (le_refl 0) (by decide) hvec
    rwa [Int.cast_zero, zero_add] at h

/-- Two whole values. -/
theorem getStd_variance_pair :
    ((∃ r, getStd [1, 3] = some r ∧ r ^ 2 = ((populationVariance [1, 3] : ℚ) : ℝ)) ↔ WholeSum [1, 3]) ∧
      ((∀ x ∈ ([1, 3] : List ℚ), 0 ≤ x) →
        (WholeSum [1, 3] ↔
          (∀ x ∈ ([1, 3] : List ℚ), ∃ k : ℤ, x = k) ∧ ([1, 3] : List ℚ).sum < 2 ^ 31)) :=
  getStd_variance_iff [1, 3] (List.cons_ne_nil 1 [3])

/-- The sum of two halves is zero, and so is their variance, but not the result. -/
theorem getVariance_halves : getVariance [1 / 2, 1 / 2] = some (1 / 4) ∧
    populationVariance ([1 / 2, 1 / 2] : List ℚ) = 0 ∧
      ¬∃ r, getStd [1 / 2, 1 / 2] = some r ∧
        r ^ 2 = ((populationVariance [1 / 2, 1 / 2] : ℚ) : ℝ) := by
  have hcode : getVariance [1 / 2, 1 / 2] = some (1 / 4) := by decide +kernel
  have hzero : populationVariance ([1 / 2, 1 / 2] : List ℚ) = 0 := by decide +kernel
  refine ⟨hcode, hzero, fun h => ?_⟩
  rw [getStd_sq_iff, hcode, hzero] at h
  exact absurd h (by decide +kernel)

end TmkDcl.Libdclalgo
