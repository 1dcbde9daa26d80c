import TmkDcl.Storage.StoredImage

/-!
# The image of a frame (Frame.cpp)

A matrix has its rows at distances of its step, which is as large as the bytes of a row or larger.
Memory is what is there from the first byte of the matrix on, whoever it belongs to.
-/

namespace TmkDcl.Storage.FrameImage

/-- A `cv::Mat` of two dimensions that is not empty. `at` is the byte at a distance from `data`. -/
structure CvMat where
  rows : ℕ
  cols : ℕ
  type : MatType
  step : ℕ
  byteAt : ℕ → UInt8
  rows_pos : 0 < rows
  cols_pos : 0 < cols
  step_le : cols * type.elemSize ≤ step

/-- The bytes of a row. -/
def CvMat.rowSize (m : CvMat) : ℕ := m.cols * m.type.elemSize

/-- The byte at a distance from `data` is one of a row. -/
def CvMat.Owns (m : CvMat) (offset : ℕ) : Prop :=
  ∃ i < m.rows, ∃ j < m.rowSize, offset = i * m.step + j

/-- The bytes of a pixel. -/
def CvMat.pixel (m : CvMat) (i j : ℕ) : Bytes :=
  (List.range m.type.elemSize).map fun k => m.byteAt (i * m.step + j * m.type.elemSize + k)

/-- What `Frame` has of its image. -/
structure Frame where
  width : ℕ
  height : ℕ
  matType : MatType
  imageData : Bytes

/-- `image.step[0] * image.rows`. -/
def dataSize (image : CvMat) : ℕ := image.step * image.rows

/-- The bytes that `memcpy` reads, by their distances from `image.data`. -/
def readOffsets (image : CvMat) : List ℕ := List.range (dataSize image)

/-- `Frame::setImage`. The clone of an image that is not continuous is not copied from. -/
def setImage (image : CvMat) : Frame :=
  ⟨image.cols, image.rows, image.type, (readOffsets image).map image.byteAt⟩

/-- `Frame::image`: a matrix without a gap between its rows, over the bytes of the frame. -/
def Frame.image (frame : Frame) : Option CvMat :=
  if frame.imageData.isEmpty then none
  else if h : 0 < frame.height ∧ 0 < frame.width then
    some ⟨frame.height, frame.width, frame.matType, frame.width * frame.matType.elemSize,
      fun offset => frame.imageData.getD offset 0, h.1, h.2, Nat.le_refl _⟩
  else none

/-- The two have one size and type, and the same pixel at every position. -/
structure SameImage (a b : CvMat) : Prop where
  rows : a.rows = b.rows
  cols : a.cols = b.cols
  type : a.type = b.type
  pixel : ∀ i < b.rows, ∀ j < b.cols, a.pixel i j = b.pixel i j

/-- What is asked of `setImage` and `image`. -/
structure Kept (image : CvMat) : Prop where
  reads : ∀ offset ∈ readOffsets image, image.Owns offset
  same : ∃ m, (setImage image).image = some m ∧ SameImage m image

section Layout

variable {image : CvMat}

theorem elemSize1_pos (depth : ℕ) (h : depth < 8) : 0 < elemSize1 depth := by
  have hall : ∀ d : Fin 8, 0 < elemSize1 d := by decide
  exact hall ⟨depth, h⟩

theorem elemSize_pos (type : MatType) : 0 < type.elemSize :=
  Nat.mul_pos (Nat.succ_pos _) (elemSize1_pos _ (Nat.mod_lt type (by decide)))

theorem step_pos (image : CvMat) : 0 < image.step :=
  Nat.lt_of_lt_of_le (Nat.mul_pos image.cols_pos (elemSize_pos image.type)) image.step_le

theorem step_le_dataSize (image : CvMat) : image.step ≤ dataSize image :=
  Nat.le_mul_of_pos_right _ image.rows_pos

/-- The byte after the first row is copied, and it is no byte of the image. -/
theorem not_owns_rowSize (h : image.rowSize < image.step) : ¬ image.Owns image.rowSize := by
  intro howns
  obtain ⟨i, -, j, hj, heq⟩ := howns
  cases i with
  | zero =>
    rw [Nat.zero_mul, Nat.zero_add] at heq
    omega
  | succ i =>
    rw [Nat.succ_mul] at heq
    omega

theorem owns_of_continuous (h : image.step = image.rowSize) {offset : ℕ}
    (ho : offset < dataSize image) : image.Owns offset := by
  refine ⟨offset / image.step, Nat.div_lt_of_lt_mul ho, offset % image.step, ?_, ?_⟩
  · rw [← h]
    exact Nat.mod_lt _ (step_pos image)
  · rw [Nat.mul_comm]
    exact (Nat.div_add_mod offset image.step).symm

/-- The byte of the frame at each distance is that of the image. -/
theorem imageData_getD {offset : ℕ} (h : offset < dataSize image) :
    (setImage image).imageData.getD offset 0 = image.byteAt offset := by
  have hread : (readOffsets image)[offset]? = some offset := List.getElem?_range h
  show ((readOffsets image).map image.byteAt).getD offset 0 = _
  rw [List.getD_eq_getElem?_getD, List.getElem?_map, hread]
  rfl

theorem image_setImage (image : CvMat) : (setImage image).image =
    some ⟨image.rows, image.cols, image.type, image.rowSize,
      fun offset => (setImage image).imageData.getD offset 0, image.rows_pos, image.cols_pos,
      Nat.le_refl _⟩ := by
  have hsome : (setImage image).imageData.isEmpty = false := by
    have hpos := Nat.lt_of_lt_of_le (step_pos image) (step_le_dataSize image)
    rw [List.isEmpty_eq_false_iff, ← List.length_pos_iff]
    simpa [setImage, readOffsets] using hpos
  unfold Frame.image
  rw [hsome, dif_pos ⟨image.rows_pos, image.cols_pos⟩]
  rfl

theorem pixel_setImage (h : image.step = image.rowSize) {m : CvMat}
    (hm : (setImage image).image = some m) : SameImage m image := by
  rw [image_setImage, Option.some.injEq] at hm
  subst hm
  refine ⟨rfl, rfl, rfl, ?_⟩
  intro i hi j hj
  apply List.map_congr_left
  intro k hk
  have hpixel : j * image.type.elemSize + k < image.rowSize := by
    have hk : k < image.type.elemSize := List.mem_range.mp hk
    calc j * image.type.elemSize + k < (j + 1) * image.type.elemSize := by
          rw [Nat.succ_mul]
          omega
      _ ≤ image.rowSize := Nat.mul_le_mul_right _ hj
  have hoffset : i * image.step + j * image.type.elemSize + k < dataSize image := by
    calc i * image.step + j * image.type.elemSize + k < (i + 1) * image.step := by
          rw [Nat.succ_mul]
          omega
      _ ≤ image.rows * image.step := Nat.mul_le_mul_right _ hi
      _ = dataSize image := Nat.mul_comm _ _
  show (setImage image).imageData.getD (i * image.rowSize + j * image.type.elemSize + k) 0 = _
  rw [← h, imageData_getD hoffset]

/-- A frame keeps an image, and reads only its bytes, exactly if there are no gaps between the
rows: a step that is larger than a row goes wrong even where there is only one row. -/
theorem kept_iff (image : CvMat) : Kept image ↔ image.step = image.cols * image.type.elemSize := by
  constructor
  · intro h
    by_contra hne
    have hlt : image.rowSize < image.step := Nat.lt_of_le_of_ne image.step_le (Ne.symm hne)
    have hread : image.rowSize ∈ readOffsets image :=
      List.mem_range.mpr (Nat.lt_of_lt_of_le hlt (step_le_dataSize image))
    exact not_owns_rowSize hlt (h.reads _ hread)
  · intro h
    refine ⟨?_, _, image_setImage image, pixel_setImage h (image_setImage image)⟩
    intro offset hoffset
    exact owns_of_continuous h (List.mem_range.mp hoffset)

theorem narrow_step_le : 1 * MatType.elemSize cv8U ≤ 2 := by decide

/-- One column of two rows, out of an image of two columns. -/
def narrow : CvMat where
  rows := 2
  cols := 1
  type := cv8U
  step := 2
  byteAt := fun offset => [10, 20, 30, 40].getD offset 0
  rows_pos := Nat.two_pos
  cols_pos := Nat.one_pos
  step_le := narrow_step_le

theorem narrow_not_kept : ¬ Kept narrow := by
  intro h
  obtain ⟨m, hm, hsame⟩ := h.same
  have hpixel := hsame.pixel 1 (by decide) 0 (by decide)
  rw [image_setImage, Option.some.injEq] at hm
  subst hm
  exact absurd hpixel (by decide)

end Layout

end TmkDcl.Storage.FrameImage
