import Mathlib.Data.Rat.Floor
import Mathlib.Tactic.FieldSimp
import Mathlib.Tactic.Linarith
import Mathlib.Tactic.NormNum
import Mathlib.Tactic.Ring
import TmkDcl.Libdclalgo.PolarExpand

/-!
# The mask of the defects (dclcomponents, defectmiddle/src/defectdetection.cpp)

Both networks look at a rectangle in the middle of the image, which `prepareForInfer` crops and resizes
to the size of the network's input. `getDefectMask` resizes the answer back and computes anew where it
belongs. The arithmetic is exact.
-/

namespace TmkDcl.DefectMiddle

open TmkDcl.Libdclalgo (Mat)

/-- `DefectDetectionNetworkV1` and `DefectDetectionNetworkV2`. -/
inductive Version where
  | v1
  | v2
  deriving DecidableEq

/-- The constants of `DDNV1Variables` and `DDNV2Variables`. -/
structure DdnVariables where
  inputWidth : ℕ
  inputHeight : ℕ

def DdnVariables.inputRatio (vars : DdnVariables) : ℚ := vars.inputHeight / vars.inputWidth

def ddnVariables : Version → DdnVariables
  | .v1 => ⟨1600, 256⟩
  | .v2 => ⟨1600, 256⟩

structure Rect where
  x : ℤ
  y : ℤ
  width : ℤ
  height : ℤ
  deriving DecidableEq

/-- The pixel of a row and a column is in the rectangle. -/
def Rect.Contains (r : Rect) (p : ℤ × ℤ) : Prop :=
  r.y ≤ p.1 ∧ p.1 < r.y + r.height ∧ r.x ≤ p.2 ∧ p.2 < r.x + r.width

instance (r : Rect) (p : ℤ × ℤ) : Decidable (r.Contains p) := inferInstanceAs (Decidable (_ ∧ _))

/-- The conversion of a `double` that is not negative to `int`. -/
def truncate (v : ℚ) : ℤ := ⌊v⌋

/-- `cvRound`: to the nearest, and from the middle to the even one. -/
def cvRound (v : ℚ) : ℤ :=
  let low := ⌊v⌋
  if v - low < 1 / 2 then low
  else if 1 / 2 < v - low then low + 1
  else if low % 2 = 0 then low
  else low + 1

section Code

variable {κ : Type}

/-- The rectangle lies in the image. -/
def Rect.Within (r : Rect) (image : Mat κ) : Prop :=
  0 ≤ r.x ∧ 0 ≤ r.width ∧ r.x + r.width ≤ image.width ∧
  0 ≤ r.y ∧ 0 ≤ r.height ∧ r.y + r.height ≤ image.height

instance (r : Rect) (image : Mat κ) : Decidable (r.Within image) :=
  inferInstanceAs (Decidable (_ ∧ _))

/-- The middle of the image. -/
def middle (image : Mat κ) (width height : ℤ) : Rect where
  x := (image.width - width) >>> (1 : ℕ)
  y := (image.height - height) >>> (1 : ℕ)
  width := width
  height := height

/-- `tempWidth` and `tempHeight` (`defectdetection.cpp:148-153`, `311-316`). -/
def cropSize (version : Version) (image : Mat κ) : ℤ × ℤ :=
  let tempHeight := truncate (image.width * (ddnVariables version).inputRatio)
  if image.height < tempHeight then
    (truncate (image.height / (ddnVariables version).inputRatio), image.height)
  else (image.width, tempHeight)

def scaleToAnswer (version : Version) (image : Mat κ) : ℚ :=
  (cropSize version image).1 / (ddnVariables version).inputWidth

/-- `roi` of `prepareForInfer`. -/
def cropRoi (version : Version) (image : Mat κ) : Rect :=
  middle image (cropSize version image).1 (cropSize version image).2

/-- `image(roi)`; OpenCV throws where the rectangle does not lie in the image. -/
def crop (image : Mat κ) (roi : Rect) : Option (Mat κ) :=
  if roi.Within image then
    some ⟨roi.height.toNat, roi.width.toNat, fun p => image.px (p.1 + roi.y, p.2 + roi.x)⟩
  else none

/-- `prepareForInfer` on the merged channels, which have the size of the image. -/
def prepareForInfer (resize : Mat κ → ℤ → ℤ → Mat κ) (version : Version) (image : Mat κ) :
    Option (Mat κ × ℚ) := do
  let result ← crop image (cropRoi version image)
  return (resize result (ddnVariables version).inputHeight (ddnVariables version).inputWidth,
    scaleToAnswer version image)

/-- The size of the answer after `cv::resize` by a factor. -/
def answerSize (answer : Mat κ) (scale : ℚ) : ℤ × ℤ :=
  (cvRound (answer.width * scale), cvRound (answer.height * scale))

/-- `roi` of `getDefectMask`. -/
def maskRoi (image answer : Mat κ) (scale : ℚ) : Rect :=
  middle image (answerSize answer scale).1 (answerSize answer scale).2

/-- `inferResult.copyTo(result(roi))` on zeros. -/
def paste [Zero κ] (image answer : Mat κ) (roi : Rect) : Option (Mat κ) :=
  if roi.Within image then
    some ⟨image.height, image.width, fun p =>
      if roi.Contains p then answer.px (p.1 - roi.y, p.2 - roi.x) else 0⟩
  else none

def getDefectMask [Zero κ] (resize : Mat κ → ℤ → ℤ → Mat κ) (infer : Mat κ → Mat κ) (version : Version)
    (image : Mat κ) : Option (Mat κ) := do
  let (input, scale) ← prepareForInfer resize version image
  let answer := infer input
  let size := answerSize answer scale
  paste image (resize answer size.2 size.1) (maskRoi image answer scale)

/-- The rectangles of the crop and of the copy lie in the image and are one. -/
structure Lands (version : Version) (image answer : Mat κ) : Prop where
  crop : (cropRoi version image).Within image
  mask : (maskRoi image answer (scaleToAnswer version image)).Within image
  eq : maskRoi image answer (scaleToAnswer version image) = cropRoi version image

end Code

/-! ### Rounding -/

theorem floor_div (n : ℤ) (d : ℕ) : ⌊(n : ℚ) / d⌋ = n / d := Rat.floor_intCast_div_natCast n d

/-- A number of 25ths is never in the middle. -/
theorem cvRound_div (n : ℤ) : cvRound (n / 25) = if n % 25 ≤ 12 then n / 25 else n / 25 + 1 := by
  have hfloor : ⌊(n : ℚ) / 25⌋ = n / 25 := floor_div n 25
  have hdiv : (n : ℚ) = 25 * (n / 25 : ℤ) + (n % 25 : ℤ) := by
    exact_mod_cast (Int.mul_ediv_add_emod n 25).symm
  have hfrac : (n : ℚ) / 25 - (n / 25 : ℤ) = (n % 25 : ℤ) / 25 := by
    field_simp
    linarith
  rw [cvRound]
  simp only [hfloor, hfrac]
  by_cases hlow : n % 25 ≤ 12
  · have hlt : ((n % 25 : ℤ) : ℚ) ≤ 12 := by exact_mod_cast hlow
    rw [if_pos hlow, if_pos (by linarith)]
  · have hge : (13 : ℚ) ≤ (n % 25 : ℤ) := by exact_mod_cast (by omega : 13 ≤ n % 25)
    rw [if_neg hlow, if_neg (by linarith), if_pos (by linarith)]

theorem cvRound_intCast (n : ℤ) : cvRound n = n := by
  simp [cvRound]

/-! ### The two rectangles -/

section Rectangles

variable {κ : Type} {version : Version} {image answer : Mat κ}

theorem inputRatio_eq (version : Version) : (ddnVariables version).inputRatio = 4 / 25 := by
  cases version <;> norm_num [ddnVariables, DdnVariables.inputRatio]

theorem cropSize_eq (version : Version) (image : Mat κ) : cropSize version image =
    if (image.height : ℤ) < 4 * image.width / 25 then ((25 * image.height / 4 : ℤ), (image.height : ℤ))
    else ((image.width : ℤ), (4 * image.width / 25 : ℤ)) := by
  have hheight : truncate (image.width * (4 / 25)) = 4 * image.width / 25 := by
    have hcast : (image.width * (4 / 25) : ℚ) = ((4 * image.width : ℤ) : ℚ) / (25 : ℕ) := by
      push_cast
      ring
    rw [truncate, hcast, floor_div]
    rfl
  have hwidth : truncate (image.height / (4 / 25)) = 25 * image.height / 4 := by
    have hcast : (image.height / (4 / 25) : ℚ) = ((25 * image.height : ℤ) : ℚ) / (4 : ℕ) := by
      push_cast
      ring
    rw [truncate, hcast, floor_div]
    rfl
  rw [cropSize, inputRatio_eq, hheight, hwidth]

theorem cropRoi_within (version : Version) (image : Mat κ) :
    (cropRoi version image).Within image := by
  rw [cropRoi, cropSize_eq]
  simp only [middle, Rect.Within, Int.shiftRight_eq_div_pow]
  split <;> omega

/-- The answer is as wide as the crop; its height is rounded from the exact one. -/
theorem answerSize_eq (version : Version) (image : Mat κ) (hwidth : answer.width = 1600)
    (hheight : answer.height = 256) : answerSize answer (scaleToAnswer version image) =
      ((cropSize version image).1, cvRound ((4 * (cropSize version image).1 : ℤ) / 25)) := by
  have hinput : ((ddnVariables version).inputWidth : ℚ) = 1600 := by
    cases version <;> rfl
  have hw : (1600 : ℚ) * ((cropSize version image).1 / 1600) = ((cropSize version image).1 : ℤ) := by
    ring
  have hh : (256 : ℚ) * ((cropSize version image).1 / 1600) =
      ((4 * (cropSize version image).1 : ℤ) : ℚ) / 25 := by
    push_cast
    ring
  rw [answerSize, scaleToAnswer, hinput, hwidth, hheight]
  push_cast
  rw [hw, cvRound_intCast]
  push_cast at hh
  rw [hh]

/-- The height of the answer is that of the crop unless the fraction that was cut off is above a half. -/
theorem answer_height (version : Version) (image : Mat κ) :
    cvRound ((4 * (cropSize version image).1 : ℤ) / 25) = (cropSize version image).2 ↔
      (4 * image.width / 25 ≤ image.height → 4 * image.width % 25 ≤ 12) := by
  rw [cvRound_div, cropSize_eq]
  have hdiv : ((4 * image.width / 25 : ℕ) : ℤ) = 4 * image.width / 25 := by push_cast; rfl
  by_cases hwide : (image.height : ℤ) < 4 * image.width / 25
  · simp only [if_pos hwide]
    split <;> omega
  · simp only [if_neg hwide]
    split <;> omega

/-- The mask lands on the crop exactly where the image has fewer rows than the `4 * width / 25` whole
rows that go with its width, so that the crop is narrowed, or where these were cut by less than a half. -/
theorem mask_lands_iff (version : Version) (hwidth : answer.width = 1600)
    (hheight : answer.height = 256) : Lands version image answer ↔
      (4 * image.width / 25 ≤ image.height → 4 * image.width % 25 ≤ 12) := by
  rw [← answer_height version image]
  have hsize := answerSize_eq version image hwidth hheight
  constructor
  · intro h
    have heq := congrArg Rect.height h.eq
    rw [maskRoi, hsize] at heq
    exact heq
  · intro h
    have heq : maskRoi image answer (scaleToAnswer version image) = cropRoi version image := by
      rw [maskRoi, hsize, h, cropRoi]
    have hcrop := cropRoi_within version image
    exact ⟨hcrop, heq ▸ hcrop, heq⟩

theorem getDefectMask_of_lands [Zero κ] {resize : Mat κ → ℤ → ℤ → Mat κ} {infer : Mat κ → Mat κ}
    {input : Mat κ} {scale : ℚ} (hinput : prepareForInfer resize version image = some (input, scale))
    (h : Lands version image (infer input)) : ∃ mask,
      getDefectMask resize infer version image = some mask ∧ mask.size = image.size ∧
      ∀ p, ¬ (cropRoi version image).Contains p → mask.px p = 0 := by
  have hscale : scale = scaleToAnswer version image := by
    obtain ⟨result, -, heq⟩ := Option.bind_eq_some_iff.mp hinput
    cases heq
    rfl
  subst hscale
  have hrun : getDefectMask resize infer version image = paste image
      (resize (infer input) (answerSize (infer input) (scaleToAnswer version image)).2
        (answerSize (infer input) (scaleToAnswer version image)).1) (cropRoi version image) := by
    rw [getDefectMask, hinput, ← h.eq]
    rfl
  rw [hrun, paste, if_pos h.crop]
  exact ⟨_, rfl, rfl, fun p hp => if_neg hp⟩

end Rectangles

/-- An image of one value. -/
def uniform (height width : ℕ) : Mat ℕ := ⟨height, width, fun _ => 1⟩

theorem mask_lands_wide : Lands .v1 (uniform 300 1600) (uniform 256 1600) :=
  (mask_lands_iff .v1 rfl rfl).mpr (by decide)

/-- 1604 columns have 256.64 rows, of which the crop takes 256 and the mask 257. -/
theorem not_mask_lands : ¬ ∀ (version : Version) (image answer : Mat ℕ), 7 ≤ image.width →
    1 ≤ image.height → answer.width = 1600 → answer.height = 256 → Lands version image answer := by
  intro hall
  have hlands := hall .v1 (uniform 300 1604) (uniform 256 1600) (by decide) (by decide) rfl rfl
  exact absurd hlands.eq (by decide +kernel)

end TmkDcl.DefectMiddle
