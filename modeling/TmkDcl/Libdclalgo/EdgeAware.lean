import Mathlib.Algebra.Order.Field.Rat
import Mathlib.Tactic.NormNum
import TmkDcl.Libdclalgo.PolarExpand

/-!
# The edge aware interpolation (libdclalgo, EdgeAware.cpp)

Each channel is filled in two stages. The first takes the samples of the channel from the image and
estimates the pixels that lie diagonally between four samples, the second estimates the other pixels
from what the first one left. On an edge a pixel is estimated by least squares over a window, elsewhere
by the mean of four pixels. The numbers of type `double` and the matrix functions of OpenCV stay
abstract.
-/

namespace TmkDcl.Libdclalgo

/-- The operations on `double` that the estimators use. -/
class Double (F : Type) extends Add F, Sub F, Mul F, Div F where
  /-- The number of a literal or of a pixel. -/
  lit : ℚ → F
  abs : F → F
  lt : F → F → Bool
  le : F → F → Bool
  /-- The mean of four numbers is not always the same. -/
  mean_ne : (lit 4 + lit 0 + lit 0 + lit 0) / lit 4 ≠ (lit 0 + lit 0 + lit 0 + lit 0) / lit 4

export Double (lit)

/-- The functions on matrices that the estimators use: the product, and `cv::invert` with
`cv::DECOMP_SVD`, which returns a number along with the inverse. -/
structure OpenCv (F : Type) where
  mul : List (List F) → List (List F) → List (List F)
  invert : List (List F) → F × List (List F)

def imageBorder : ℤ := 10

variable {F : Type} [Double F]

/-- `cv::Mat(1, 4, CV_64F, s)` with a list for the scalar `s`: all elements are its first component. -/
def scalarMat (s : List ℚ) : List F := List.replicate 4 (lit (s.headD 0))

def getConditionNumber (cv : OpenCv F) (m : List (List F)) : F × List (List F) :=
  let (n, inverse) := cv.invert m
  (lit 1 / n, inverse)

/-- Four neighbours, in the order of the coefficients `alpha`. -/
structure Neighbours (F : Type) where
  a : F
  b : F
  c : F
  d : F

section Estimators

variable {ι ο : Type} (cv : OpenCv F) (Im : ℤ × ℤ → ι) (i j : ℤ)

/-- The pixels diagonally next to a pixel. -/
def diagonalNeighbours (r : ℤ) : Kernel ι ο F F (Neighbours F) := do
  let a ← Kernel.get (Im (i - r, j - r))
  let b ← Kernel.get (Im (i + r, j - r))
  let c ← Kernel.get (Im (i + r, j + r))
  let d ← Kernel.get (Im (i - r, j + r))
  return ⟨a, b, c, d⟩

/-- The pixels left, below, right and above a pixel. -/
def rhombusNeighbours (r : ℤ) : Kernel ι ο F F (Neighbours F) := do
  let a ← Kernel.get (Im (i, j - r))
  let b ← Kernel.get (Im (i + r, j))
  let c ← Kernel.get (Im (i, j + r))
  let d ← Kernel.get (Im (i - r, j))
  return ⟨a, b, c, d⟩

/-- The coefficients from the columns of `C` and the elements of `y`. `rat` is used where `C * C.t()` is
badly conditioned. -/
def coefficients (samples : List (Neighbours F × F)) (rat : Kernel ι ο F F F) :
    Kernel ι ο F F (List F) := do
  let C := [samples.map (·.1.a), samples.map (·.1.b), samples.map (·.1.c), samples.map (·.1.d)]
  let Ct := samples.map fun s => [s.1.a, s.1.b, s.1.c, s.1.d]
  let y := samples.map fun s => [s.2]
  let (cn, S1_inv) := getConditionNumber cv (cv.mul C Ct)
  if Double.le (lit 1000000000) cn then
    let rat ← rat
    if Double.lt rat (lit 1 / lit 10) then return scalarMat [1 / 2, 0, 1 / 2, 0]
    else if Double.lt (lit 10) rat then return scalarMat [0, 1 / 2, 0, 1 / 2]
    else return scalarMat [1 / 4, 1 / 4, 1 / 4, 1 / 4]
  else return (cv.mul S1_inv (cv.mul C y)).flatten

/-- `d02 / d13`. -/
def diagonalRatio : Kernel ι ο F F F := do
  let n ← diagonalNeighbours Im i j 1
  return Double.abs (n.c - n.a) / Double.abs (n.b - n.d)

/-- `dx / dy`. -/
def rhombusRatio : Kernel ι ο F F F := do
  let n ← rhombusNeighbours Im i j 1
  return Double.abs (n.a - n.c) / Double.abs (n.d - n.b)

def pixCovariance1 (M : ℤ) : Kernel ι ο F F (List F) := do
  let samples ← (raster (countUp 0 M 1) (countUp 0 M 1)).mapM' fun n => do
    let k := n.1 * 2 + (i - M) + 1
    let l := n.2 * 2 + (j - M) + 1
    let c ← diagonalNeighbours Im k l 2
    let y ← Kernel.get (Im (k, l))
    return (c, y)
  coefficients cv samples (diagonalRatio Im i j)

def pixCovariance2 (M : ℤ) : Kernel ι ο F F (List F) := do
  let samples ← (raster (countUp 0 M 1) (countUp 0 M 1)).mapM' fun n => do
    let k := i + n.1 - n.2
    let l := j + 1 - M + n.1 + n.2
    let c ← rhombusNeighbours Im k l 2
    let y ← Kernel.get (Im (k, l))
    return (c, y)
  coefficients cv samples (rhombusRatio Im i j)

/-- The estimate `pix`, or `pix0` where they are too far apart. -/
def estimateFrom (alpha : List F) (n : Neighbours F) (pix0 : F) : F :=
  let pix := alpha.getD 0 (lit 0) * n.a + alpha.getD 1 (lit 0) * n.b + alpha.getD 2 (lit 0) * n.c +
    alpha.getD 3 (lit 0) * n.d
  let s := pix0 / pix
  if Double.lt pix (lit 0) || Double.lt (lit 255) pix || Double.lt s (lit (9 / 10)) ||
      Double.lt (lit 1 / s) (lit (9 / 10)) then pix0
  else pix

def covEstimate (rhombus : Bool) : Kernel ι ο F F F := do
  if !rhombus then
    let alpha ← pixCovariance1 cv Im i j 6
    let rat ← diagonalRatio Im i j
    let n ← diagonalNeighbours Im i j 1
    let pix0 :=
      if Double.lt rat (lit 1 / lit 10) then (n.c + n.a) / lit 2
      else if Double.lt (lit 10) rat then (n.b + n.d) / lit 2
      else (n.a + n.b + n.c + n.d) / lit 4
    return estimateFrom alpha n pix0
  else
    let alpha ← pixCovariance2 cv Im i j 6
    let rat ← rhombusRatio Im i j
    let n ← rhombusNeighbours Im i j 1
    let pix0 :=
      if Double.lt rat (lit 1 / lit 10) then (n.a + n.c) / lit 2
      else if Double.lt (lit 10) rat then (n.d + n.b) / lit 2
      else (n.a + n.b + n.c + n.d) / lit 4
    return estimateFrom alpha n pix0

def blEstimate1 : Kernel ι ο F F F := do
  let n ← diagonalNeighbours Im i j 2
  return (n.a + n.b + n.c + n.d) / lit 4

def blEstimate2 : Kernel ι ο F F F := do
  let n ← rhombusNeighbours Im i j 1
  return (n.a + n.b + n.c + n.d) / lit 4

end Estimators

/-! ### The stages -/

def IsEstimated (size : Size) (i j : ℤ) : Prop :=
  ¬ (i - imageBorder < 0 ∨ i + imageBorder + 1 ≥ size.height ∨ j - imageBorder < 0 ∨
    j + imageBorder + 1 ≥ size.width)

instance (size : Size) (i j : ℤ) : Decidable (IsEstimated size i j) :=
  inferInstanceAs (Decidable (¬ _))

section Stages

variable (cv : OpenCv F) (size : Size) (edges : Fin 4 → Mat (Pixel .u8))
  (expandedSource : Fin 4 → Mat (Pixel .u8))

/-- A program of the first stage: it reads `originalImage` and writes `result`. -/
abbrev FirstStage (F α : Type) := Kernel (ℤ × ℤ) (Fin 4 × ℤ × ℤ) F F α

/-- A program of the second stage: it reads `imagesCopy` and writes `firstStageImages`. -/
abbrev SecondStage (F α : Type) := Kernel (Fin 4 × ℤ × ℤ) (Fin 4 × ℤ × ℤ) F F α

/-- The pixel that lies diagonally between the samples of the channel. -/
def firstEstimate (c : Fin 4) (i j : ℤ) : FirstStage F F :=
  if (edges c).px (i, j) ≠ 0 then covEstimate cv id i j false else blEstimate1 id i j

/-- The branch of a pixel with the filter of the channel `own`. -/
def firstStageBranch (own other : Fin 4) (i j : ℤ) : FirstStage F Unit := do
  Kernel.set (own, i, j) (← Kernel.get (i, j))
  Kernel.set (other, i, j) (← firstEstimate cv edges other i j)

def firstStageAt (i j : ℤ) : FirstStage F Unit :=
  if ¬ IsEstimated size i j then
    (List.finRange 4).forM fun c => Kernel.set (c, i, j) (lit ((expandedSource c).px (i, j)).val)
  else if i % 2 = 1 ∧ j % 2 = 1 then firstStageBranch cv edges 0 2 i j
  else if i % 2 = 0 ∧ j % 2 = 1 then firstStageBranch cv edges 1 3 i j
  else if i % 2 = 0 ∧ j % 2 = 0 then firstStageBranch cv edges 2 0 i j
  else firstStageBranch cv edges 3 1 i j

def firstStageKernel : FirstStage F Unit :=
  Kernel.forRaster (countUp 0 size.height 1) (countUp 0 size.width 1)
    (firstStageAt cv size edges expandedSource)

/-- The pixel that lies between the pixels of the first stage. -/
def secondEstimate (c : Fin 4) (i j : ℤ) : SecondStage F F :=
  if (edges c).px (i, j) ≠ 0 then covEstimate cv (fun p => (c, p)) i j true
  else blEstimate2 (fun p => (c, p)) i j

def secondStageBranch (c c' : Fin 4) (i j : ℤ) : SecondStage F Unit := do
  Kernel.set (c, i, j) (← secondEstimate cv edges c i j)
  Kernel.set (c', i, j) (← secondEstimate cv edges c' i j)

def secondStageAt (i j : ℤ) : SecondStage F Unit :=
  if ¬ IsEstimated size i j then pure ()
  else if i % 2 = 1 ∧ j % 2 = 1 then secondStageBranch cv edges 1 3 i j
  else if i % 2 = 0 ∧ j % 2 = 1 then secondStageBranch cv edges 0 2 i j
  else if i % 2 = 0 ∧ j % 2 = 0 then secondStageBranch cv edges 1 3 i j
  else secondStageBranch cv edges 0 2 i j

def secondStageKernel : SecondStage F Unit :=
  Kernel.forRaster (countUp 0 size.height 1) (countUp 0 size.width 1) (secondStageAt cv size edges)

end Stages

def firstStageEdgesEstimation (cv : OpenCv F) (originalImage : Mat F)
    (edges expandedSource : Fin 4 → Mat (Pixel .u8)) : Fin 4 → Mat F := fun c =>
  { height := (edges 0).height
    width := (edges 0).width
    px := fun p => applyWrites (fun _ => lit 0)
      ((firstStageKernel cv (edges 0).size edges expandedSource).writes originalImage.px) (c, p) }

def secondStageEdgesEstimation (cv : OpenCv F) (edges : Fin 4 → Mat (Pixel .u8))
    (firstStageImages : Fin 4 → Mat F) : Fin 4 → Mat F := fun c =>
  let imagesCopy := fun q : Fin 4 × ℤ × ℤ => (firstStageImages q.1).px q.2
  { firstStageImages c with
    px := fun p => applyWrites imagesCopy
      ((secondStageKernel cv (edges 0).size edges).writes imagesCopy) (c, p) }

/-! ### Reads of the estimators -/

section Reads

variable {ι ο : Type} {R : ι → Prop} {W : ο → Prop} {cv : OpenCv F} {Im : ℤ × ℤ → ι} {i j : ℤ}

omit [Double F] in
theorem within_diagonalNeighbours {r : ℤ}
    (h : ∀ a b, (a = r ∨ a = -r) → (b = r ∨ b = -r) → R (Im (i + a, j + b))) :
    (diagonalNeighbours (F := F) (ο := ο) Im i j r).Within R W := by
  rw [diagonalNeighbours]
  refine (Kernel.within_get.mpr ?_).bind fun _ => (Kernel.within_get.mpr ?_).bind fun _ =>
    (Kernel.within_get.mpr ?_).bind fun _ => (Kernel.within_get.mpr ?_).bind fun _ =>
    Kernel.within_pure _
  · exact h (-r) (-r) (.inr rfl) (.inr rfl)
  · exact h r (-r) (.inl rfl) (.inr rfl)
  · exact h r r (.inl rfl) (.inl rfl)
  · exact h (-r) r (.inr rfl) (.inl rfl)

omit [Double F] in
theorem within_rhombusNeighbours {r : ℤ}
    (h : ∀ a b, (a = 0 ∧ (b = r ∨ b = -r)) ∨ ((a = r ∨ a = -r) ∧ b = 0) → R (Im (i + a, j + b))) :
    (rhombusNeighbours (F := F) (ο := ο) Im i j r).Within R W := by
  have hzero : ∀ z : ℤ, z = z + 0 := fun z => (Int.add_zero z).symm
  rw [rhombusNeighbours]
  refine (Kernel.within_get.mpr ?_).bind fun _ => (Kernel.within_get.mpr ?_).bind fun _ =>
    (Kernel.within_get.mpr ?_).bind fun _ => (Kernel.within_get.mpr ?_).bind fun _ =>
    Kernel.within_pure _
  · rw [hzero i]
    exact h 0 (-r) (.inl ⟨rfl, .inr rfl⟩)
  · rw [hzero j]
    exact h r 0 (.inr ⟨.inl rfl, rfl⟩)
  · rw [hzero i]
    exact h 0 r (.inl ⟨rfl, .inl rfl⟩)
  · rw [hzero j]
    exact h (-r) 0 (.inr ⟨.inr rfl, rfl⟩)

theorem within_coefficients {samples : List (Neighbours F × F)} {rat : Kernel ι ο F F F}
    (h : rat.Within R W) : (coefficients cv samples rat).Within R W := by
  rw [coefficients]
  split
  split
  · refine h.bind fun _ => ?_
    split
    · exact Kernel.within_pure _
    · split
      · exact Kernel.within_pure _
      · exact Kernel.within_pure _
  · exact Kernel.within_pure _

/-- Without `rhombus` the estimate reads pixels at odd distances in both directions. -/
theorem within_covEstimate_diagonal (h : ∀ a b : ℤ, a % 2 = 1 → b % 2 = 1 → -7 ≤ a ∧ a ≤ 7 →
    -7 ≤ b ∧ b ≤ 7 → R (Im (i + a, j + b))) : (covEstimate (ο := ο) cv Im i j false).Within R W := by
  have hat : ∀ k l : ℤ, (k - i) % 2 = 1 → (l - j) % 2 = 1 → -7 ≤ k - i ∧ k - i ≤ 7 →
      -7 ≤ l - j ∧ l - j ≤ 7 → R (Im (k, l)) := by
    intro k l hk hl hk' hl'
    have hread := h (k - i) (l - j) hk hl hk' hl'
    have hrow : i + (k - i) = k := by omega
    have hcolumn : j + (l - j) = l := by omega
    rwa [hrow, hcolumn] at hread
  have hnear : (diagonalNeighbours (F := F) (ο := ο) Im i j 1).Within R W :=
    within_diagonalNeighbours fun a b ha hb => hat _ _ (by omega) (by omega) (by omega) (by omega)
  have hratio : (diagonalRatio (F := F) (ο := ο) Im i j).Within R W :=
    hnear.bind fun _ => Kernel.within_pure _
  have halpha : (pixCovariance1 (ο := ο) cv Im i j 6).Within R W := by
    refine Kernel.Within.bind (Kernel.Within.mapM fun n hn => ?_) fun _ => within_coefficients hratio
    rw [mem_raster, mem_countUp Int.one_pos, mem_countUp Int.one_pos] at hn
    refine Kernel.Within.bind (within_diagonalNeighbours fun a b ha hb => ?_) fun _ =>
      (Kernel.within_get.mpr ?_).bind fun _ => Kernel.within_pure _
    · exact hat _ _ (by omega) (by omega) (by omega) (by omega)
    · exact hat _ _ (by omega) (by omega) (by omega) (by omega)
  rw [covEstimate]
  exact halpha.bind fun _ => hratio.bind fun _ => hnear.bind fun _ => Kernel.within_pure _

/-- With `rhombus` it reads pixels whose distances add up to an odd number. -/
theorem within_covEstimate_rhombus (h : ∀ a b : ℤ, (a + b) % 2 = 1 → -7 ≤ a ∧ a ≤ 7 →
    -7 ≤ b ∧ b ≤ 7 → R (Im (i + a, j + b))) : (covEstimate (ο := ο) cv Im i j true).Within R W := by
  have hat : ∀ k l : ℤ, (k - i + (l - j)) % 2 = 1 → -7 ≤ k - i ∧ k - i ≤ 7 →
      -7 ≤ l - j ∧ l - j ≤ 7 → R (Im (k, l)) := by
    intro k l hkl hk hl
    have hread := h (k - i) (l - j) hkl hk hl
    have hrow : i + (k - i) = k := by omega
    have hcolumn : j + (l - j) = l := by omega
    rwa [hrow, hcolumn] at hread
  have hnear : (rhombusNeighbours (F := F) (ο := ο) Im i j 1).Within R W :=
    within_rhombusNeighbours fun a b hab => hat _ _ (by omega) (by omega) (by omega)
  have hratio : (rhombusRatio (F := F) (ο := ο) Im i j).Within R W :=
    hnear.bind fun _ => Kernel.within_pure _
  have halpha : (pixCovariance2 (ο := ο) cv Im i j 6).Within R W := by
    refine Kernel.Within.bind (Kernel.Within.mapM fun n hn => ?_) fun _ => within_coefficients hratio
    rw [mem_raster, mem_countUp Int.one_pos, mem_countUp Int.one_pos] at hn
    refine Kernel.Within.bind (within_rhombusNeighbours fun a b hab => ?_) fun _ =>
      (Kernel.within_get.mpr ?_).bind fun _ => Kernel.within_pure _
    · exact hat _ _ (by omega) (by omega) (by omega)
    · exact hat _ _ (by omega) (by omega) (by omega)
  rw [covEstimate]
  exact halpha.bind fun _ => hratio.bind fun _ => hnear.bind fun _ => Kernel.within_pure _

end Reads

/-! ### Which channels a pixel gets in which stage -/

section Channels

variable {cv : OpenCv F} {size : Size} {edges expandedSource : Fin 4 → Mat (Pixel .u8)} {c own : Fin 4}
  {i j : ℤ}

theorem measures_unique (h : Measures own (i, j)) : Measures c (i, j) ↔ c = own := by
  have hparity : ∀ c c' : Fin 4,
      rowParity c' = rowParity c ∧ columnParity c' = columnParity c ↔ c = c' := by
    decide
  rw [measures_iff] at h ⊢
  rw [h.1, h.2]
  exact hparity c own

theorem parity_cases (i j : ℤ) : (i % 2 = 1 ∧ j % 2 = 1) ∨ (i % 2 = 0 ∧ j % 2 = 1) ∨
    (i % 2 = 0 ∧ j % 2 = 0) ∨ (i % 2 = 1 ∧ j % 2 = 0) := by
  omega

theorem firstStageAt_branch (cv : OpenCv F) (edges expandedSource : Fin 4 → Mat (Pixel .u8))
    (h : IsEstimated size i j) : ∃ own, Measures own (i, j) ∧
    firstStageAt cv size edges expandedSource i j = firstStageBranch cv edges own (own + 2) i j := by
  simp only [measures_iff]
  rw [firstStageAt, if_neg (not_not.mpr h)]
  rcases parity_cases i j with hij | hij | hij | hij
  · exact ⟨0, hij, by rw [if_pos hij]; rfl⟩
  · exact ⟨1, hij, by rw [if_neg (by omega), if_pos hij]; rfl⟩
  · exact ⟨2, hij, by rw [if_neg (by omega), if_neg (by omega), if_pos hij]; rfl⟩
  · exact ⟨3, hij, by rw [if_neg (by omega), if_neg (by omega), if_neg (by omega)]; rfl⟩

theorem secondStageAt_branch (cv : OpenCv F) (edges : Fin 4 → Mat (Pixel .u8))
    (h : IsEstimated size i j) : ∃ own c c', Measures own (i, j) ∧
    (c = own + 1 ∧ c' = own + 3 ∨ c = own + 3 ∧ c' = own + 1) ∧
    secondStageAt cv size edges i j = secondStageBranch cv edges c c' i j := by
  simp only [measures_iff]
  rw [secondStageAt, if_neg (not_not.mpr h)]
  rcases parity_cases i j with hij | hij | hij | hij
  · exact ⟨0, 1, 3, hij, by decide, by rw [if_pos hij]⟩
  · exact ⟨1, 0, 2, hij, by decide, by rw [if_neg (by omega), if_pos hij]⟩
  · exact ⟨2, 1, 3, hij, by decide, by rw [if_neg (by omega), if_neg (by omega), if_pos hij]⟩
  · exact ⟨3, 0, 2, hij, by decide, by rw [if_neg (by omega), if_neg (by omega), if_neg (by omega)]⟩

theorem inside_of_estimated {a b : ℤ} (h : IsEstimated size i j) (ha : -7 ≤ a ∧ a ≤ 7)
    (hb : -7 ≤ b ∧ b ≤ 7) : Inside size (i + a, j + b) := by
  simp only [IsEstimated, imageBorder, not_or] at h
  simp only [Inside]
  omega

theorem IsEstimated.inside (h : IsEstimated size i j) : Inside size (i, j) := by
  have hin := inside_of_estimated (a := 0) (b := 0) h (by decide) (by decide)
  rwa [Int.add_zero, Int.add_zero] at hin

theorem within_firstEstimate (h : IsEstimated size i j) :
    (firstEstimate cv edges c i j).Within (Inside size) fun _ => False := by
  rw [firstEstimate]
  split
  · exact within_covEstimate_diagonal fun a b _ _ ha hb => inside_of_estimated h ha hb
  · refine (within_diagonalNeighbours fun a b ha hb => ?_).bind fun _ => Kernel.within_pure _
    exact inside_of_estimated h (by omega) (by omega)

theorem within_secondEstimate {R : Fin 4 × ℤ × ℤ → Prop} (h : ∀ a b : ℤ, (a + b) % 2 = 1 →
    -7 ≤ a ∧ a ≤ 7 → -7 ≤ b ∧ b ≤ 7 → R (c, i + a, j + b)) :
    (secondEstimate cv edges c i j).Within R fun _ => False := by
  rw [secondEstimate]
  split
  · exact within_covEstimate_rhombus h
  · refine (within_rhombusNeighbours fun a b hab => ?_).bind fun _ => Kernel.within_pure _
    exact h a b (by omega) (by omega) (by omega)

theorem within_firstStageAt (hp : Inside size (i, j)) :
    (firstStageAt cv size edges expandedSource i j).Within (Inside size) fun q => q.2 = (i, j) := by
  by_cases h : IsEstimated size i j
  · obtain ⟨own, -, heq⟩ := firstStageAt_branch cv edges expandedSource h
    rw [heq, firstStageBranch]
    have hestimate : (firstEstimate cv edges (own + 2) i j).Within (Inside size) fun _ => False :=
      within_firstEstimate h
    have hset : ∀ c v, (Kernel.set (c, i, j) v : FirstStage F Unit).Within (Inside size)
        fun q => q.2 = (i, j) := fun _ _ => Kernel.within_set.mpr rfl
    exact (Kernel.within_get.mpr hp).bind fun _ => (hset _ _).bind fun _ =>
      (hestimate.mono (fun _ => id) fun _ => False.elim).bind fun _ => hset _ _
  · rw [firstStageAt, if_pos h]
    exact Kernel.Within.forM fun c _ => Kernel.within_set.mpr rfl

theorem other_diagonal : ∀ {c own : Fin 4}, c = own + 1 ∨ c = own + 3 ↔ ¬ (c = own ∨ c + 2 = own) := by
  decide

theorem within_secondStageAt {R : Fin 4 × ℤ × ℤ → Prop}
    (h : IsEstimated size i j → ∀ c, ¬ (Measures c (i, j) ∨ Measures (c + 2) (i, j)) →
      (secondEstimate cv edges c i j).Within R fun _ => False) :
    (secondStageAt cv size edges i j).Within R fun q => q.2 = (i, j) := by
  by_cases hin : IsEstimated size i j
  · obtain ⟨own, c, c', hown, hc, heq⟩ := secondStageAt_branch cv edges hin
    have hother : ∀ c, c = own + 1 ∨ c = own + 3 → (secondEstimate cv edges c i j).Within R fun q =>
        q.2 = (i, j) := by
      intro c hc
      refine (h hin c ?_).mono (fun _ => id) fun _ => False.elim
      rw [measures_unique hown, measures_unique hown, ← other_diagonal]
      exact hc
    have hset : ∀ c v, (Kernel.set (c, i, j) v : SecondStage F Unit).Within R fun q => q.2 = (i, j) :=
      fun _ _ => Kernel.within_set.mpr rfl
    rw [heq, secondStageBranch]
    exact (hother c (by tauto)).bind fun _ => (hset _ _).bind fun _ => (hother c' (by tauto)).bind
      fun _ => hset _ _
  · rw [secondStageAt, if_pos hin]
    exact Kernel.within_pure _

omit [Double F] in
theorem exists_mem_pair {c c₁ c₂ : Fin 4} {e e' : F} :
    (∃ v, ((c, i, j), v) ∈ [((c₁, i, j), e), ((c₂, i, j), e')]) ↔ c = c₁ ∨ c = c₂ := by
  simp only [List.mem_cons, Prod.mk.injEq, and_true, List.not_mem_nil, or_false, exists_or,
    exists_eq_right]

theorem writes_firstStageBranch {other : Fin 4} {im : ℤ × ℤ → F} (h : IsEstimated size i j) {e : F}
    (he : (firstEstimate cv edges other i j).result im = some e) :
    (firstStageBranch cv edges own other i j).writes im =
      [((own, i, j), im (i, j)), ((other, i, j), e)] := by
  have hestimate : (firstEstimate cv edges other i j).Within (Inside size) fun _ => False :=
    within_firstEstimate h
  simp only [firstStageBranch, Kernel.writes_bind, Kernel.writes_get, Kernel.writes_set,
    Kernel.result_get, Kernel.result_set, he, hestimate.writes_nil, Option.map_some,
    Option.getD_some, List.nil_append, List.cons_append]

theorem writes_secondStageBranch {c c' : Fin 4} {images : Fin 4 × ℤ × ℤ → F} {e e' : F}
    (he : (secondEstimate cv edges c i j).result images = some e)
    (he' : (secondEstimate cv edges c' i j).result images = some e') :
    (secondStageBranch cv edges c c' i j).writes images = [((c, i, j), e), ((c', i, j), e')] := by
  have hestimate : ∀ c, (secondEstimate cv edges c i j).Within (fun _ => True) fun _ => False := fun c =>
    within_secondEstimate fun _ _ _ _ _ => trivial
  simp only [secondStageBranch, Kernel.writes_bind, Kernel.writes_set, Kernel.result_set, he, he',
    (hestimate _).writes_nil, Option.map_some, Option.getD_some, List.nil_append, List.cons_append]

/-- The first stage stores an inner pixel in the channels of the diagonal that its filter lies on. -/
theorem mem_firstStageAt (im : ℤ × ℤ → F) (h : IsEstimated size i j) :
    (∃ v, ((c, i, j), v) ∈ (firstStageAt cv size edges expandedSource i j).writes im) ↔
      Measures c (i, j) ∨ Measures (c + 2) (i, j) := by
  obtain ⟨own, hown, heq⟩ := firstStageAt_branch cv edges expandedSource h
  have hestimate : (firstEstimate cv edges (own + 2) i j).Within (Inside size) fun _ => False :=
    within_firstEstimate h
  obtain ⟨e, he⟩ := hestimate.defined im
  have hopposite : ∀ c own : Fin 4, c + 2 = own ↔ c = own + 2 := by decide
  rw [heq, writes_firstStageBranch h he, measures_unique hown, measures_unique hown, hopposite,
    exists_mem_pair]

theorem mem_rows {p : ℤ × ℤ} : Inside size p ↔
    p.1 ∈ countUp 0 size.height 1 ∧ p.2 ∈ countUp 0 size.width 1 := by
  simp [mem_countUp Int.one_pos, Inside, and_assoc]

theorem firstStageAt_own : ∀ y ∈ countUp 0 size.height 1, ∀ x ∈ countUp 0 size.width 1,
    (firstStageAt cv size edges expandedSource y x).Within (Inside size) fun q => q.2 = (y, x) :=
  fun _ hy _ hx => within_firstStageAt (mem_rows.mpr ⟨hy, hx⟩)

theorem secondStageAt_own : ∀ y ∈ countUp 0 size.height 1, ∀ x ∈ countUp 0 size.width 1,
    (secondStageAt cv size edges y x).Within (fun _ => True) fun q => q.2 = (y, x) :=
  fun _ _ _ _ => within_secondStageAt fun _ _ _ => within_secondEstimate fun _ _ _ _ _ => trivial

theorem within_firstStage : (firstStageKernel cv size edges expandedSource).Within (Inside size)
    fun q => Inside size q.2 := by
  refine Kernel.within_forRaster fun y hy x hx => ?_
  refine (firstStageAt_own y hy x hx).mono (fun _ => id) fun q hq => ?_
  rw [hq]
  exact mem_rows.mpr ⟨hy, hx⟩

theorem mem_firstStage (im : ℤ × ℤ → F) (hp : Inside size (i, j)) {v : F} :
    ((c, i, j), v) ∈ (firstStageKernel cv size edges expandedSource).writes im ↔
      ((c, i, j), v) ∈ (firstStageAt cv size edges expandedSource i j).writes im :=
  Kernel.mem_writes_forRaster_own Prod.snd firstStageAt_own (mem_rows.mp hp)

/-- The first stage sets the pixel of the channel, whatever the image is. -/
def SetInFirstStage (cv : OpenCv F) (size : Size) (edges expandedSource : Fin 4 → Mat (Pixel .u8))
    (q : Fin 4 × ℤ × ℤ) : Prop :=
  ∀ im : ℤ × ℤ → F, ∃ v, (q, v) ∈ (firstStageKernel cv size edges expandedSource).writes im

theorem setInFirstStage_iff (h : IsEstimated size i j) :
    SetInFirstStage cv size edges expandedSource (c, i, j) ↔
      Measures c (i, j) ∨ Measures (c + 2) (i, j) := by
  have hp := h.inside
  constructor
  · intro hset
    have hmem := hset fun _ => lit 0
    simp only [mem_firstStage _ hp] at hmem
    exact (mem_firstStageAt _ h).mp hmem
  · intro hdiag im
    simp only [mem_firstStage im hp]
    exact (mem_firstStageAt im h).mpr hdiag

theorem secondStage_px (images : Fin 4 → Mat F) (hp : Inside (edges 0).size (i, j)) :
    (secondStageEdgesEstimation cv edges images c).px (i, j) =
      (lastWrite (c, i, j) ((secondStageAt cv (edges 0).size edges i j).writes fun q =>
        (images q.1).px q.2)).getD ((images c).px (i, j)) := by
  show applyWrites (fun q : Fin 4 × ℤ × ℤ => (images q.1).px q.2)
    ((secondStageKernel cv (edges 0).size edges).writes _) (c, i, j) = _
  rw [applyWrites_apply, secondStageKernel, Kernel.lastWrite_forRaster_own Prod.snd secondStageAt_own
    (countUp_sorted Int.one_pos) (countUp_sorted Int.one_pos) (mem_rows.mp hp)]

/-- After both stages an inner pixel holds what the first stage has set, or the estimate from its images. -/
theorem stages_inner (cv : OpenCv F) (im : Mat F) (expandedSource : Fin 4 → Mat (Pixel .u8)) (c : Fin 4)
    (h : IsEstimated (edges 0).size i j) :
    let first := firstStageEdgesEstimation cv im edges expandedSource
    let px := (secondStageEdgesEstimation cv edges first c).px (i, j)
    (SetInFirstStage cv (edges 0).size edges expandedSource (c, i, j) → px = (first c).px (i, j)) ∧
      (¬ SetInFirstStage cv (edges 0).size edges expandedSource (c, i, j) →
        (secondEstimate cv edges c i j).result (fun q => (first q.1).px q.2) = some px) := by
  intro first px
  obtain ⟨own, c₁, c₂, hown, hc, heq⟩ := secondStageAt_branch cv edges h
  have hestimate : ∀ c, (secondEstimate cv edges c i j).Within (fun _ => True) fun _ => False := fun c =>
    within_secondEstimate fun _ _ _ _ _ => trivial
  obtain ⟨e, he⟩ := (hestimate c₁).defined fun q => (first q.1).px q.2
  obtain ⟨e', he'⟩ := (hestimate c₂).defined fun q => (first q.1).px q.2
  have hpx : px = (lastWrite (c, i, j) [((c₁, i, j), e), ((c₂, i, j), e')]).getD ((first c).px (i, j)) := by
    rw [← writes_secondStageBranch he he', ← heq]
    exact secondStage_px first h.inside
  have hset : SetInFirstStage cv (edges 0).size edges expandedSource (c, i, j) ↔ ¬ (c = c₁ ∨ c = c₂) := by
    rw [setInFirstStage_iff h, measures_unique hown, measures_unique hown, ← not_iff_not, not_not,
      ← other_diagonal]
    rcases hc with ⟨rfl, rfl⟩ | ⟨rfl, rfl⟩
    · exact Iff.rfl
    · exact or_comm
  rw [hset, not_not]
  constructor
  · intro hneither
    obtain ⟨h₁, h₂⟩ := not_or.mp hneither
    rw [hpx]
    simp [lastWrite, Ne.symm h₁, Ne.symm h₂]
  · intro hboth
    by_cases h₂ : c = c₂
    · subst h₂
      rw [he', hpx]
      simp [lastWrite]
    · obtain rfl := hboth.resolve_right h₂
      rw [he, hpx]
      simp [lastWrite, Ne.symm h₂]

/-! ### Angles in the first stage -/

variable {im im' : Mat F}

theorem firstStage_px (hp : Inside (edges 0).size (i, j)) :
    (firstStageEdgesEstimation cv im edges expandedSource c).px (i, j) =
      (lastWrite (c, i, j) ((firstStageAt cv (edges 0).size edges expandedSource i j).writes im.px)).getD
        (lit 0) := by
  show applyWrites (fun _ => lit 0) ((firstStageKernel cv (edges 0).size edges expandedSource).writes
    im.px) (c, i, j) = _
  rw [applyWrites_apply, firstStageKernel, Kernel.lastWrite_forRaster_own Prod.snd firstStageAt_own
    (countUp_sorted Int.one_pos) (countUp_sorted Int.one_pos) (mem_rows.mp hp)]

/-- What an inner pixel holds: the sample, the estimate, or nothing yet. -/
theorem firstStage_inner (cv : OpenCv F) (im : Mat F) (expandedSource : Fin 4 → Mat (Pixel .u8))
    (c : Fin 4) (h : IsEstimated (edges 0).size i j) (hown : Measures own (i, j)) :
    ∃ e, (firstEstimate cv edges (own + 2) i j).result im.px = some e ∧
      (firstStageEdgesEstimation cv im edges expandedSource c).px (i, j) =
        if c = own then im.px (i, j) else if c = own + 2 then e else lit 0 := by
  obtain ⟨own', hown', heq⟩ := firstStageAt_branch cv edges expandedSource h
  obtain rfl := (measures_unique hown').mp hown
  have hestimate : (firstEstimate cv edges (own + 2) i j).Within (Inside (edges 0).size) fun _ => False :=
    within_firstEstimate h
  obtain ⟨e, he⟩ := hestimate.defined im.px
  refine ⟨e, he, ?_⟩
  have hne : ∀ own : Fin 4, own ≠ own + 2 := by decide
  rw [firstStage_px h.inside, heq, writes_firstStageBranch h he]
  by_cases hc : c = own
  · subst hc
    simp [lastWrite, Ne.symm (hne c)]
  by_cases hc' : c = own + 2
  · subst hc'
    simp [lastWrite, hc]
  · simp [lastWrite, hc, hc', Ne.symm hc, Ne.symm hc']

theorem firstStage_border (h : ¬ IsEstimated (edges 0).size i j) (hp : Inside (edges 0).size (i, j)) :
    (firstStageEdgesEstimation cv im edges expandedSource c).px (i, j) =
      (firstStageEdgesEstimation cv im' edges expandedSource c).px (i, j) := by
  have hborder : Kernel.Within (fun _ => False) (fun _ => True)
      ((List.finRange 4).forM fun c =>
        Kernel.set (c, i, j) (lit ((expandedSource c).px (i, j)).val) : FirstStage F Unit) :=
    Kernel.Within.forM fun _ _ => Kernel.within_set.mpr trivial
  have hsame : Kernel.writes im.px _ = Kernel.writes im'.px _ :=
    (hborder.congr fun _ hfalse => hfalse.elim).2
  rw [firstStage_px hp, firstStage_px hp, firstStageAt, if_pos h, hsame]

theorem firstStage_outside (hp : ¬ Inside (edges 0).size (i, j)) :
    (firstStageEdgesEstimation cv im edges expandedSource c).px (i, j) = lit 0 := by
  show applyWrites (fun _ => lit 0) ((firstStageKernel cv (edges 0).size edges expandedSource).writes
    im.px) (c, i, j) = _
  have hlast : lastWrite (c, i, j) ((firstStageKernel cv (edges 0).size edges expandedSource).writes
      im.px) = none := by
    rw [lastWrite_eq_none]
    intro w hw heq
    have hinside := within_firstStage.writes hw
    rw [heq] at hinside
    exact hp hinside
  rw [applyWrites_apply, hlast]
  rfl

/-- The pixels of the image that a channel may depend on. -/
def Sample (size : Size) (c : Fin 4) (p : ℤ × ℤ) : Prop := Inside size p ∧ Measures c p

/-- On an edge the estimate reads samples of the channel only. -/
theorem within_firstEstimate_edge (h : IsEstimated size i j) (hdiag : Measures (c + 2) (i, j))
    (hedge : (edges c).px (i, j) ≠ 0) :
    (firstEstimate cv edges c i j).Within (Sample size c) fun _ => False := by
  have hparity : ∀ c : Fin 4, rowParity (c + 2) = 1 - rowParity c ∧
      columnParity (c + 2) = 1 - columnParity c := by decide
  rw [measures_iff, (hparity c).1, (hparity c).2] at hdiag
  rw [firstEstimate, if_pos hedge]
  refine within_covEstimate_diagonal fun a b ha hb ha' hb' => ⟨inside_of_estimated h ha' hb', ?_⟩
  rw [measures_iff]
  simp only [id] at hdiag ⊢
  omega

/-- Off an edge the mean is that of pixels two rows and columns away, which have the filter of the pixel
itself. -/
theorem firstStage_mixes (cv : OpenCv F) (expandedSource : Fin 4 → Mat (Pixel .u8))
    (h : IsEstimated (edges 0).size i j) (hdiag : Measures (c + 2) (i, j))
    (hedge : (edges c).px (i, j) = 0) : ∃ im im' : Mat F, im.size = (edges 0).size ∧
      im'.size = (edges 0).size ∧ (∀ p, Sample (edges 0).size c p → im.px p = im'.px p) ∧
      (firstStageEdgesEstimation cv im edges expandedSource c).px (i, j) ≠
        (firstStageEdgesEstimation cv im' edges expandedSource c).px (i, j) := by
  have hopposite : ∀ c : Fin 4, c ≠ c + 2 ∧ c + 2 + 2 = c := by decide
  have hvalue : ∀ im : Mat F, (firstStageEdgesEstimation cv im edges expandedSource c).px (i, j) =
      (im.px (i - 2, j - 2) + im.px (i + 2, j - 2) + im.px (i + 2, j + 2) + im.px (i - 2, j + 2)) /
        lit 4 := by
    intro im
    obtain ⟨e, he, hpx⟩ := firstStage_inner cv im expandedSource c h hdiag
    rw [(hopposite c).2] at he hpx
    rw [if_neg (hopposite c).1, if_pos rfl] at hpx
    rw [firstEstimate, if_neg (not_not.mpr hedge)] at he
    rw [hpx]
    exact (Option.some.inj he).symm
  -- The mean reads the bright pixel, which has the filter of `(i, j)`.
  let bright : Mat F := ⟨(edges 0).height, (edges 0).width,
    fun p => if p = (i - 2, j - 2) then lit 4 else lit 0⟩
  let dark : Mat F := ⟨(edges 0).height, (edges 0).width, fun _ => lit 0⟩
  refine ⟨bright, dark, rfl, rfl, ?_, ?_⟩
  · intro p hp
    have hne : p ≠ (i - 2, j - 2) := by
      intro heq
      have hparity : ∀ c : Fin 4, rowParity (c + 2) ≠ rowParity c := by decide
      have hsample := hp.2
      rw [measures_iff] at hsample hdiag
      rw [heq] at hsample
      have hrow := hparity c
      simp only at hsample hdiag
      omega
    exact if_neg hne
  · rw [hvalue, hvalue]
    have hdark : ∀ a b : ℤ, a ≠ i - 2 ∨ b ≠ j - 2 → bright.px (a, b) = lit 0 := by
      intro a b hab
      refine if_neg fun heq => ?_
      cases heq
      exact hab.elim (fun h => h rfl) fun h => h rfl
    have hbright : bright.px (i - 2, j - 2) = lit 4 := if_pos rfl
    rw [hbright, hdark _ _ (by omega), hdark _ _ (by omega), hdark _ _ (by omega)]
    exact Double.mean_ne

/-- A channel of the first stage depends on the samples of its own angle only, at every pixel but the
ones that it takes from the mean. -/
theorem firstStage_angles_iff (cv : OpenCv F) (edges expandedSource : Fin 4 → Mat (Pixel .u8)) (c : Fin 4)
    (i j : ℤ) :
    (∀ im im' : Mat F, im.size = (edges 0).size → im'.size = (edges 0).size →
      (∀ p, Sample (edges 0).size c p → im.px p = im'.px p) →
      (firstStageEdgesEstimation cv im edges expandedSource c).px (i, j) =
        (firstStageEdgesEstimation cv im' edges expandedSource c).px (i, j)) ↔
      ¬ (IsEstimated (edges 0).size i j ∧ Measures (c + 2) (i, j) ∧ (edges c).px (i, j) = 0) := by
  constructor
  · intro h hmixes
    obtain ⟨im, im', hsize, hsize', hagree, hne⟩ :=
      firstStage_mixes cv expandedSource hmixes.1 hmixes.2.1 hmixes.2.2
    exact hne (h im im' hsize hsize' hagree)
  intro hnot im im' _ _ hagree
  by_cases hin : IsEstimated (edges 0).size i j
  · obtain ⟨own, hown, -⟩ := firstStageAt_branch cv edges expandedSource hin
    obtain ⟨e, he, hpx⟩ := firstStage_inner cv im expandedSource c hin hown
    obtain ⟨e', he', hpx'⟩ := firstStage_inner cv im' expandedSource c hin hown
    rw [hpx, hpx']
    by_cases hc : c = own
    · rw [if_pos hc, if_pos hc]
      exact hagree _ ⟨hin.inside, hc ▸ hown⟩
    rw [if_neg hc, if_neg hc]
    by_cases hc' : c = own + 2
    · have hopposite : ∀ c own : Fin 4, c = own + 2 → own = c + 2 := by decide
      rw [hopposite c own hc'] at hown
      have hedge : (edges c).px (i, j) ≠ 0 := fun hzero => hnot ⟨hin, hown, hzero⟩
      rw [← hc'] at he he'
      rw [if_pos hc', if_pos hc', ← Option.some.injEq, ← he, ← he']
      exact ((within_firstEstimate_edge hin hown hedge).congr hagree).1
    · rw [if_neg hc', if_neg hc']
  · by_cases hp : Inside (edges 0).size (i, j)
    · exact firstStage_border hin hp
    · rw [firstStage_outside hp, firstStage_outside hp]

end Channels

/-- Rational numbers in the place of `double`. -/
instance : Double ℚ where
  lit := id
  abs := fun q => |q|
  lt := fun a b => decide (a < b)
  le := fun a b => decide (a ≤ b)
  mean_ne := by norm_num

/-- No pixel is on an edge. -/
def noEdges : Fin 4 → Mat (Pixel .u8) := fun _ => ⟨22, 22, fun _ => 0⟩

/-- The product of matrices. Nothing is inverted where there are no edges. -/
def productOpenCv : OpenCv ℚ where
  mul a b := a.map fun row => (List.range (b.headD []).length).map fun n =>
    (List.zipWith (fun v column => v * column.getD n 0) row b).sum
  invert m := (1, m)

theorem not_firstStage_angles : ¬ ∀ (F : Type) [Double F] (cv : OpenCv F)
    (edges expandedSource : Fin 4 → Mat (Pixel .u8)) (im im' : Mat F) (c : Fin 4),
    im.size = (edges 0).size → im'.size = (edges 0).size →
    (∀ p, Sample (edges 0).size c p → im.px p = im'.px p) →
    ∀ i j, IsEstimated (edges 0).size i j → Measures c (i, j) ∨ Measures (c + 2) (i, j) →
      (firstStageEdgesEstimation cv im edges expandedSource c).px (i, j) =
        (firstStageEdgesEstimation cv im' edges expandedSource c).px (i, j) := by
  intro h
  have hin : IsEstimated (noEdges 0).size 10 10 := by decide
  have hdiag : Measures (0 + 2) (10, 10) := ⟨by decide, by decide⟩
  obtain ⟨im, im', hsize, hsize', hagree, hne⟩ := firstStage_mixes productOpenCv noEdges hin hdiag rfl
  exact hne (h ℚ productOpenCv noEdges noEdges im im' 0 hsize hsize' hagree 10 10 hin (.inr hdiag))

end TmkDcl.Libdclalgo
