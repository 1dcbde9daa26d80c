import Mathlib.Algebra.Order.Field.Basic
import Mathlib.Analysis.SpecialFunctions.Trigonometric.Basic
import Mathlib.Tactic.FieldSimp
import Mathlib.Tactic.Linarith
import Mathlib.Tactic.LinearCombination
import TmkDcl.Libdclalgo.PolarExpand

/-!
# Polarisation from four images (libdclalgo, PolarDecomposition.cpp and AzimuthEvaluation.cpp)

`decomposeImages` makes the images behind four filters from the brightness, the azimuth and the degree
of polarisation of each pixel, and `computeO` with `computePolDegree` get these back from the images.
The arithmetic is exact.
-/

namespace TmkDcl.Libdclalgo

/-- The functions of `cmath` on exact numbers. The cosine of a difference is given where the minuend is
a multiple of a right angle. -/
structure MathFunctions (K : Type) [Field K] [LinearOrder K] where
  pi : K
  cos : K → K
  sin : K → K
  sqrt : K → K
  cos_sq_add_sin_sq : ∀ x, cos x * cos x + sin x * sin x = 1
  cos_zero_sub : ∀ x, cos (0 - x) = cos x
  cos_right_sub : ∀ x, cos (pi / 2 - x) = sin x
  cos_straight_sub : ∀ x, cos (pi - x) = -cos x
  cos_threeRight_sub : ∀ x, cos (3 * (pi / 2) - x) = -sin x
  sqrt_mul_self : ∀ x, 0 ≤ x → sqrt (x * x) = x

inductive PolarizationSensorOrder where
  | order90_45_135_0
  deriving DecidableEq

section Code

variable {K : Type} [Field K] [LinearOrder K] (T : MathFunctions K)

def pixelModel (I_max I_min phi phi_pol : Mat K) : Mat K :=
  { I_max with
    px := fun p => (I_max.px p + I_min.px p) / 2 +
      (I_max.px p - I_min.px p) / 2 * T.cos (2 * (phi_pol.px p - phi.px p)) }

def iMin (iMax rho : Mat K) : Mat K :=
  { iMax with px := fun p => iMax.px p * (1 - rho.px p) / (1 + rho.px p) }

def decomposeImages (iMax phi rho : Mat K) (angles : List K) : List (Mat K) :=
  angles.map fun angle => pixelModel T iMax (iMin iMax rho) phi { iMax with px := fun _ => angle }

/-- `cv::Mat::reshape(0, rows)`: the pixels row by row. -/
def Mat.reshape {κ : Type} (m : Mat κ) (rows : ℕ) : Mat κ :=
  let columns := m.height * m.width / rows
  { height := rows
    width := columns
    px := fun p =>
      let n := p.1 * columns + p.2
      m.px (n / m.width, n % m.width) }

def Mat.pushBack {κ : Type} (m below : Mat κ) : Mat κ :=
  { height := m.height + below.height
    width := below.width
    px := fun p => if p.1 < m.height then m.px p else below.px (p.1 - m.height, p.2) }

def getReshapedPolarImages (polarImages : List (Mat K)) : Mat K :=
  polarImages.foldl (fun D image => D.pushBack (image.reshape 1)) ⟨0, 0, fun _ => 0⟩

def polarizationMatrix0 : List K :=
  [1 / 4, 1 / 4, 1 / 4, 1 / 4, 1 / 2, 0, -1 / 2, 0, 0, 1 / 2, 0, -1 / 2]

def getPolarMatrix : Option PolarizationSensorOrder → Except String (List K)
  | none => .error "LibraryParameters: Library parameters were not configured."
  | some .order90_45_135_0 => .ok polarizationMatrix0

/-- `cv::Mat(size, CV_64FC1, data)`. -/
def matOfArray (height width : ℕ) (data : List K) : Mat K :=
  ⟨height, width, fun p => data.getD (p.1 * width + p.2).toNat 0⟩

/-- The product of matrices. -/
def Mat.mul (a b : Mat K) : Mat K :=
  { height := a.height
    width := b.width
    px := fun p => ((List.range a.width).map fun n : ℕ => a.px (p.1, n) * b.px (n, p.2)).sum }

/-- `computeO`; the matrix comes from the static `polarizationOrder`. -/
def computeO (polarizationOrder : Option PolarizationSensorOrder) (polarImages : List (Mat K)) :
    Except String (Mat K) := do
  let D := getReshapedPolarImages polarImages
  let Pinv_array ← getPolarMatrix polarizationOrder
  let Pinv := matOfArray 3 4 Pinv_array
  return Pinv.mul D

/-- `std::numeric_limits<double>::epsilon()`. -/
def epsilon : K := 1 / 2 ^ 52

/-- `computePolDegree`, which writes `polDegrees`. -/
def computePolDegree (polarizationOrder : Option PolarizationSensorOrder) (polarImages : List (Mat K)) :
    Except String (Mat K) := do
  let O ← computeO polarizationOrder polarImages
  let Rho : Mat K :=
    { height := 1
      width := O.width
      px := fun p =>
        T.sqrt (O.px (1, p.2) * O.px (1, p.2) + O.px (2, p.2) * O.px (2, p.2)) / O.px (0, p.2) }
  let Rho : Mat K :=
    { Rho with
      px := fun p =>
        let el := Rho.px p
        let result := if el < epsilon then 0 else el
        if result > 1 then 1 else result }
  return Rho.reshape ((polarImages.head?.map Mat.height).getD 0)

end Code

/-! ### Row by row -/

section Reshape

variable {κ : Type} {m : Mat κ} {y x : ℤ}

theorem row_index {w : ℕ} (hx : 0 ≤ x ∧ x < w) :
    (y * w + x) / w = y ∧ (y * w + x) % w = x := by
  have hw : (w : ℤ) ≠ 0 := by omega
  constructor
  · rw [Int.add_comm, Int.add_mul_ediv_right _ _ hw, Int.ediv_eq_zero_of_lt hx.1 hx.2, Int.zero_add]
  · rw [Int.add_comm, Int.add_mul_emod_self_right, Int.emod_eq_of_lt hx.1 hx.2]

theorem reshape_row (hx : 0 ≤ x ∧ x < m.width) :
    (m.reshape 1).px (0, y * m.width + x) = m.px (y, x) := by
  simp only [Mat.reshape, Int.zero_mul, Int.zero_add, (row_index hx).1, (row_index hx).2]

theorem row_reshape {h w : ℕ} (hone : m.height = 1) (hwidth : m.width = h * w) (hy : 0 ≤ y ∧ y < h)
    (hx : 0 ≤ x ∧ x < w) : (m.reshape h).px (y, x) = m.px (0, y * w + x) := by
  have hcolumns : m.height * m.width / h = w := by
    rw [hone, hwidth, Nat.one_mul]
    exact Nat.mul_div_cancel_left w (by omega)
  have hpos : 0 ≤ y * w := Int.mul_nonneg hy.1 (by omega)
  have hlt : y * w + x < m.width := by
    have hle : (y + 1) * w ≤ h * w := Int.mul_le_mul_of_nonneg_right (by omega) (by omega)
    rw [hwidth, Nat.cast_mul]
    linarith
  simp only [Mat.reshape, hcolumns]
  rw [Int.ediv_eq_zero_of_lt (by omega) hlt, Int.emod_eq_of_lt (by omega) hlt]

end Reshape

section Rows

variable {K : Type} [Field K]

theorem reshapedPolarImages_px (m₀ m₁ m₂ m₃ : Mat K) (n : ℤ) :
    (getReshapedPolarImages [m₀, m₁, m₂, m₃]).px (0, n) = (m₀.reshape 1).px (0, n) ∧
    (getReshapedPolarImages [m₀, m₁, m₂, m₃]).px (1, n) = (m₁.reshape 1).px (0, n) ∧
    (getReshapedPolarImages [m₀, m₁, m₂, m₃]).px (2, n) = (m₂.reshape 1).px (0, n) ∧
    (getReshapedPolarImages [m₀, m₁, m₂, m₃]).px (3, n) = (m₃.reshape 1).px (0, n) := by
  simp [getReshapedPolarImages, Mat.pushBack, Mat.reshape]

theorem mul_px (data : List K) (D : Mat K) (r n : ℤ) :
    ((matOfArray 3 4 data).mul D).px (r, n) =
      data.getD (r * 4).toNat 0 * D.px (0, n) + data.getD (r * 4 + 1).toNat 0 * D.px (1, n) +
      data.getD (r * 4 + 2).toNat 0 * D.px (2, n) + data.getD (r * 4 + 3).toNat 0 * D.px (3, n) := by
  have hrange : List.range 4 = [0, 1, 2, 3] := rfl
  simp only [Mat.mul, matOfArray, hrange, List.map_cons, List.map_nil, List.sum_cons, List.sum_nil,
    add_zero, Nat.cast_ofNat, Nat.cast_zero, Nat.cast_one, add_assoc]

theorem polarMatrix_mul (D : Mat K) (n : ℤ) :
    ((matOfArray 3 4 polarizationMatrix0).mul D).px (0, n) =
      1 / 4 * D.px (0, n) + 1 / 4 * D.px (1, n) + 1 / 4 * D.px (2, n) + 1 / 4 * D.px (3, n) ∧
    ((matOfArray 3 4 polarizationMatrix0).mul D).px (1, n) =
      1 / 2 * D.px (0, n) - 1 / 2 * D.px (2, n) ∧
    ((matOfArray 3 4 polarizationMatrix0).mul D).px (2, n) =
      1 / 2 * D.px (1, n) - 1 / 2 * D.px (3, n) := by
  refine ⟨mul_px polarizationMatrix0 D 0 n, ?_, ?_⟩
  · refine (mul_px polarizationMatrix0 D 1 n).trans ?_
    show 1 / 2 * D.px (0, n) + 0 * D.px (1, n) + -1 / 2 * D.px (2, n) + 0 * D.px (3, n) = _
    ring
  · refine (mul_px polarizationMatrix0 D 2 n).trans ?_
    show 0 * D.px (0, n) + 1 / 2 * D.px (1, n) + 0 * D.px (2, n) + -1 / 2 * D.px (3, n) = _
    ring

end Rows

/-! ### The decomposition is inverted -/

section Decomposition

variable {K : Type} [Field K] [LinearOrder K] [IsStrictOrderedRing K] {T : MathFunctions K}
  {iMax phi rho : Mat K} {y x : ℤ}

/-- The angles of the four filters. -/
def filterAngles (T : MathFunctions K) : List K := [0, T.pi / 4, T.pi / 2, 3 * T.pi / 4]

/-- `S0`: half of the brightest and the darkest value. -/
def meanIntensity (iMax rho : Mat K) (p : ℤ × ℤ) : K := (iMax.px p + (iMin iMax rho).px p) / 2

theorem half_difference {p : ℤ × ℤ} (hrho : 0 ≤ rho.px p) :
    (iMax.px p - (iMin iMax rho).px p) / 2 = meanIntensity iMax rho p * rho.px p := by
  have hne : 1 + rho.px p ≠ 0 := by linarith
  simp only [meanIntensity, iMin]
  field_simp
  ring

theorem meanIntensity_pos {p : ℤ × ℤ} (hmax : 0 < iMax.px p) (hrho : 0 ≤ rho.px p) :
    0 < meanIntensity iMax rho p := by
  have hpos : 0 < 1 + rho.px p := by linarith
  have hmean : meanIntensity iMax rho p = iMax.px p / (1 + rho.px p) := by
    simp only [meanIntensity, iMin]
    field_simp
    ring
  rw [hmean]
  exact div_pos hmax hpos

theorem pixelModel_px {p : ℤ × ℤ} (hrho : 0 ≤ rho.px p) (angle : K) :
    (pixelModel T iMax (iMin iMax rho) phi { iMax with px := fun _ => angle }).px p =
      meanIntensity iMax rho p + meanIntensity iMax rho p * rho.px p *
        T.cos (2 * (angle - phi.px p)) := by
  rw [← half_difference hrho]
  rfl

/-- The four filters see the cosine and the sine of the azimuth with both signs. -/
theorem cos_filterAngles (T : MathFunctions K) (a : K) :
    T.cos (2 * (0 - a)) = T.cos (2 * a) ∧ T.cos (2 * (T.pi / 4 - a)) = T.sin (2 * a) ∧
    T.cos (2 * (T.pi / 2 - a)) = -T.cos (2 * a) ∧ T.cos (2 * (3 * T.pi / 4 - a)) = -T.sin (2 * a) := by
  have hzero : 2 * (0 - a) = 0 - 2 * a := by ring
  have hright : 2 * (T.pi / 4 - a) = T.pi / 2 - 2 * a := by ring
  have hstraight : 2 * (T.pi / 2 - a) = T.pi - 2 * a := by ring
  have hthree : 2 * (3 * T.pi / 4 - a) = 3 * (T.pi / 2) - 2 * a := by ring
  rw [hzero, hright, hstraight, hthree]
  exact ⟨T.cos_zero_sub _, T.cos_right_sub _, T.cos_straight_sub _, T.cos_threeRight_sub _⟩

theorem computeO_px (T : MathFunctions K) (iMax phi rho : Mat K) : ∃ O,
    computeO (some .order90_45_135_0) (decomposeImages T iMax phi rho (filterAngles T)) = .ok O ∧
    O.height = 3 ∧ O.width = iMax.height * iMax.width ∧
    ∀ y x, 0 ≤ x ∧ x < (iMax.width : ℤ) → 0 ≤ rho.px (y, x) →
      O.px (0, y * iMax.width + x) = meanIntensity iMax rho (y, x) ∧
      O.px (1, y * iMax.width + x) =
        meanIntensity iMax rho (y, x) * rho.px (y, x) * T.cos (2 * phi.px (y, x)) ∧
      O.px (2, y * iMax.width + x) =
        meanIntensity iMax rho (y, x) * rho.px (y, x) * T.sin (2 * phi.px (y, x)) := by
  refine ⟨_, rfl, rfl, Nat.div_one _, fun y x hx hrho => ?_⟩
  have himage : ∀ angle : K,
      ((pixelModel T iMax (iMin iMax rho) phi { iMax with px := fun _ => angle }).reshape 1).px
        (0, y * iMax.width + x) =
      meanIntensity iMax rho (y, x) + meanIntensity iMax rho (y, x) * rho.px (y, x) *
        T.cos (2 * (angle - phi.px (y, x))) := by
    intro angle
    rw [← pixelModel_px hrho]
    exact reshape_row hx
  obtain ⟨h0, h1, h2, h3⟩ := reshapedPolarImages_px
    (pixelModel T iMax (iMin iMax rho) phi { iMax with px := fun _ => 0 })
    (pixelModel T iMax (iMin iMax rho) phi { iMax with px := fun _ => T.pi / 4 })
    (pixelModel T iMax (iMin iMax rho) phi { iMax with px := fun _ => T.pi / 2 })
    (pixelModel T iMax (iMin iMax rho) phi { iMax with px := fun _ => 3 * T.pi / 4 })
    (y * iMax.width + x)
  obtain ⟨hzero, hright, hstraight, hthree⟩ := cos_filterAngles T (phi.px (y, x))
  rw [himage, hzero] at h0
  rw [himage, hright] at h1
  rw [himage, hstraight] at h2
  rw [himage, hthree] at h3
  obtain ⟨hO0, hO1, hO2⟩ := polarMatrix_mul (getReshapedPolarImages
    (decomposeImages T iMax phi rho (filterAngles T))) (y * iMax.width + x)
  simp only [decomposeImages, filterAngles, List.map_cons, List.map_nil] at hO0 hO1 hO2 ⊢
  rw [h0, h1, h2, h3] at hO0
  rw [h0, h2] at hO1
  rw [h1, h3] at hO2
  refine ⟨hO0.trans ?_, hO1.trans ?_, hO2.trans ?_⟩
  · ring
  · ring
  · ring

/-- The length of the two rows over the first one is the degree of polarisation. -/
theorem length_ratio (T : MathFunctions K) {s r : K} (a : K) (hs : 0 < s) (hr : 0 ≤ r) :
    T.sqrt (s * r * T.cos a * (s * r * T.cos a) + s * r * T.sin a * (s * r * T.sin a)) / s = r := by
  have hsquare : s * r * T.cos a * (s * r * T.cos a) + s * r * T.sin a * (s * r * T.sin a) =
      s * r * (s * r) := by linear_combination s * r * (s * r) * T.cos_sq_add_sin_sq a
  rw [hsquare, T.sqrt_mul_self _ (mul_nonneg hs.le hr)]
  exact mul_div_cancel_left₀ r hs.ne'

theorem computePolDegree_px (T : MathFunctions K) (iMax phi rho : Mat K) : ∃ degrees,
    computePolDegree T (some .order90_45_135_0) (decomposeImages T iMax phi rho (filterAngles T)) =
      .ok degrees ∧
    degrees.height = iMax.height ∧ (0 < iMax.height → degrees.width = iMax.width) ∧
    ∀ y x, Inside iMax.size (y, x) → 0 < iMax.px (y, x) → 0 ≤ rho.px (y, x) → rho.px (y, x) ≤ 1 →
      degrees.px (y, x) = if rho.px (y, x) < epsilon then 0 else rho.px (y, x) := by
  obtain ⟨O, hO, -, hwidth, hrows⟩ := computeO_px T iMax phi rho
  rw [computePolDegree, hO]
  refine ⟨_, rfl, rfl, ?_, ?_⟩
  · intro hpos
    show 1 * O.width / iMax.height = iMax.width
    rw [hwidth, Nat.one_mul, Nat.mul_div_cancel_left _ hpos]
  · intro y x hp hmax hrho hrho1
    obtain ⟨hy, hy', hx, hx'⟩ := hp
    obtain ⟨h0, h1, h2⟩ := hrows y x ⟨hx, hx'⟩ hrho
    refine (row_reshape ?_ ?_ ⟨hy, hy'⟩ ⟨hx, hx'⟩).trans ?_
    · rfl
    · exact hwidth
    simp only
    rw [h0, h1, h2, length_ratio T _ (meanIntensity_pos hmax hrho) hrho]
    split
    · exact if_neg (not_lt.mpr zero_le_one)
    · exact if_neg (not_lt.mpr hrho1)

/-- `computeO` gets the intensity and the two components of the polarisation of every pixel back, whose
length is the degree of polarisation, and `computePolDegree` returns it unless it is below epsilon. -/
theorem decomposition_inverted (T : MathFunctions K) (iMax phi rho : Mat K)
    (hvalues : ∀ p, Inside iMax.size p → 0 < iMax.px p ∧ 0 ≤ rho.px p ∧ rho.px p ≤ 1) :
    ∃ O degrees,
      computeO (some .order90_45_135_0)
        (decomposeImages T iMax phi rho [0, T.pi / 4, T.pi / 2, 3 * T.pi / 4]) = .ok O ∧
      computePolDegree T (some .order90_45_135_0)
        (decomposeImages T iMax phi rho [0, T.pi / 4, T.pi / 2, 3 * T.pi / 4]) = .ok degrees ∧
      ∀ y x, Inside iMax.size (y, x) →
        let s0 := (iMax.px (y, x) + (iMin iMax rho).px (y, x)) / 2
        let n := y * iMax.width + x
        O.px (0, n) = s0 ∧
        O.px (1, n) = s0 * rho.px (y, x) * T.cos (2 * phi.px (y, x)) ∧
        O.px (2, n) = s0 * rho.px (y, x) * T.sin (2 * phi.px (y, x)) ∧
        T.sqrt (O.px (1, n) * O.px (1, n) + O.px (2, n) * O.px (2, n)) / O.px (0, n) = rho.px (y, x) ∧
        degrees.px (y, x) = if rho.px (y, x) < epsilon then 0 else rho.px (y, x) := by
  obtain ⟨O, hO, -, -, hrows⟩ := computeO_px T iMax phi rho
  obtain ⟨degrees, hdegrees, -, -, hpx⟩ := computePolDegree_px T iMax phi rho
  refine ⟨O, degrees, hO, hdegrees, fun y x hp => ?_⟩
  obtain ⟨hmax, hnonneg, hone⟩ := hvalues (y, x) hp
  obtain ⟨h0, h1, h2⟩ := hrows y x ⟨hp.2.2.1, hp.2.2.2⟩ hnonneg
  refine ⟨h0, h1, h2, ?_, hpx y x hp hmax hnonneg hone⟩
  rw [h0, h1, h2]
  exact length_ratio T _ (meanIntensity_pos hmax hnonneg) hnonneg

end Decomposition

/-- The functions on real numbers. -/
noncomputable def realFunctions : MathFunctions ℝ where
  pi := Real.pi
  cos := Real.cos
  sin := Real.sin
  sqrt := Real.sqrt
  cos_sq_add_sin_sq x := by
    rw [← pow_two, ← pow_two]
    exact Real.cos_sq_add_sin_sq x
  cos_zero_sub x := by rw [zero_sub, Real.cos_neg]
  cos_right_sub := Real.cos_pi_div_two_sub
  cos_straight_sub := Real.cos_pi_sub
  cos_threeRight_sub x := by
    have hthree : 3 * (Real.pi / 2) - x = Real.pi - (x - Real.pi / 2) := by ring
    rw [hthree, Real.cos_pi_sub, Real.cos_sub_pi_div_two]
  sqrt_mul_self _ := Real.sqrt_mul_self

def onePixel {κ : Type} (v : κ) : Mat κ := ⟨1, 1, fun _ => v⟩

theorem decomposition_inverted_onePixel : ∃ O degrees,
    computeO (some .order90_45_135_0) (decomposeImages realFunctions (onePixel 1) (onePixel 0)
      (onePixel (1 / 2))
      [0, realFunctions.pi / 4, realFunctions.pi / 2, 3 * realFunctions.pi / 4]) = .ok O ∧
    computePolDegree realFunctions (some .order90_45_135_0) (decomposeImages realFunctions (onePixel 1)
      (onePixel 0) (onePixel (1 / 2))
      [0, realFunctions.pi / 4, realFunctions.pi / 2, 3 * realFunctions.pi / 4]) = .ok degrees ∧
    ∀ y x, Inside (onePixel (1 : ℝ)).size (y, x) →
      let s0 := ((onePixel (1 : ℝ)).px (y, x) + (iMin (onePixel 1) (onePixel (1 / 2))).px (y, x)) / 2
      let n := y * (onePixel (1 : ℝ)).width + x
      O.px (0, n) = s0 ∧
      O.px (1, n) = s0 * (onePixel (1 / 2)).px (y, x) *
        realFunctions.cos (2 * (onePixel 0).px (y, x)) ∧
      O.px (2, n) = s0 * (onePixel (1 / 2)).px (y, x) *
        realFunctions.sin (2 * (onePixel 0).px (y, x)) ∧
      realFunctions.sqrt (O.px (1, n) * O.px (1, n) + O.px (2, n) * O.px (2, n)) / O.px (0, n) =
        (onePixel (1 / 2)).px (y, x) ∧
      degrees.px (y, x) = if (onePixel (1 / 2)).px (y, x) < (epsilon : ℝ) then 0
        else (onePixel (1 / 2)).px (y, x) := by
  refine decomposition_inverted realFunctions (onePixel 1) (onePixel 0) (onePixel (1 / 2)) ?_
  intro p _
  simp only [onePixel]
  norm_num

/-- A degree of polarisation below epsilon is lost. -/
theorem not_computePolDegree : ¬ ∀ (T : MathFunctions ℝ) (iMax phi rho : Mat ℝ),
    (∀ p, Inside iMax.size p → 0 < iMax.px p ∧ 0 ≤ rho.px p ∧ rho.px p ≤ 1) →
    ∀ degrees, computePolDegree T (some .order90_45_135_0) (decomposeImages T iMax phi rho
      [0, T.pi / 4, T.pi / 2, 3 * T.pi / 4]) = .ok degrees →
    ∀ y x, Inside iMax.size (y, x) → degrees.px (y, x) = rho.px (y, x) := by
  intro h
  have hpos : (0 : ℝ) < 1 / 2 ^ 53 := by positivity
  have hsmall : (1 : ℝ) / 2 ^ 53 < epsilon := by
    rw [epsilon]
    norm_num
  have hone : (1 : ℝ) / 2 ^ 53 ≤ 1 := by norm_num
  have hin : Inside (onePixel (1 : ℝ)).size (0, 0) := ⟨by decide, by decide, by decide, by decide⟩
  obtain ⟨degrees, hdegrees, -, -, hpx⟩ :=
    computePolDegree_px realFunctions (onePixel 1) (onePixel 0) (onePixel (1 / 2 ^ 53))
  have hlost : degrees.px (0, 0) = 0 := (hpx 0 0 hin one_pos hpos.le hone).trans (if_pos hsmall)
  have hclaim := h realFunctions (onePixel 1) (onePixel 0) (onePixel (1 / 2 ^ 53))
    (fun _ _ => ⟨one_pos, hpos.le, hone⟩) degrees hdegrees 0 0 hin
  exact hpos.ne (hlost.symm.trans hclaim)

end TmkDcl.Libdclalgo
