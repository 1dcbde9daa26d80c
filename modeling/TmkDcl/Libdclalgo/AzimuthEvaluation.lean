import TmkDcl.Libdclalgo.PolarDecomposition

/-!
# The azimuth from four images (libdclalgo, AzimuthEvaluation.cpp)

`computeAzimuth` puts the rows of the images under each other with `push_back`, `computeAzimuth_fast`
copies them element by element with a loop for each depth. Here an image holds its elements as bytes,
so that an access has the width of its type.
-/

namespace TmkDcl.Libdclalgo.AzimuthEvaluation

/-- The depths of `cv::Mat`. -/
inductive MatDepth where
  | cv8U
  | cv8S
  | cv16U
  | cv16S
  | cv32S
  | cv32F
  | cv64F
  | cv16F
  deriving DecidableEq

/-- The size of an element with one channel. -/
def MatDepth.elemSize : MatDepth → ℕ
  | .cv8U | .cv8S => 1
  | .cv16U | .cv16S | .cv16F => 2
  | .cv32S | .cv32F => 4
  | .cv64F => 8

/-- The type argument of `at`. -/
inductive AtType where
  | uchar
  | char
  | short
  | ushort
  | int
  | float
  | double
  deriving DecidableEq

def AtType.sizeof : AtType → ℕ
  | .uchar | .char => 1
  | .short | .ushort => 2
  | .int | .float => 4
  | .double => 8

/-- `cv::Mat` with one channel of some depth; a row of `bytes` has `cols` elements. -/
structure Image where
  depth : MatDepth
  cols : ℕ
  bytes : Mat UInt8
  width_eq : bytes.width = cols * depth.elemSize

/-- The bytes of an element. -/
def Image.element (m : Image) (p : ℤ × ℤ) : List UInt8 :=
  (List.range m.depth.elemSize).map fun k : ℕ => m.bytes.px (p.1, p.2 * m.depth.elemSize + k)

/-- `reshape(0, 1)`. -/
def Image.row (m : Image) : Image where
  depth := m.depth
  cols := m.bytes.height * m.cols
  bytes := m.bytes.reshape 1
  width_eq := by
    show m.bytes.height * m.bytes.width / 1 = _
    rw [Nat.div_one, m.width_eq, Nat.mul_assoc]

theorem pushBack_width {D elems : Image} (h : D.cols = elems.cols ∧ D.depth = elems.depth) :
    (D.bytes.pushBack elems.bytes).width = D.cols * D.depth.elemSize := by
  rw [h.1, h.2]
  exact elems.width_eq

/-- `push_back` on a matrix, or on one without data. -/
def pushBack : Option Image → Image → Except String (Option Image)
  | none, elems => .ok elems
  | some D, elems =>
    if h : D.cols = elems.cols ∧ D.depth = elems.depth then
      .ok (some ⟨D.depth, D.cols, D.bytes.pushBack elems.bytes, pushBack_width h⟩)
    else if D.cols ≠ elems.cols then .error "Pushed vector length is not equal to matrix row length"
    else .error "Pushed vector type is not the same as matrix type"

/-- `getReshapedPolarImages` (`AzimuthEvaluation.cpp:73-79`). -/
def getReshapedPolarImages (polarImages : List Image) : Except String (Option Image) :=
  polarImages.foldlM (fun D image => pushBack D image.row) none

/-- The type that the loop for a depth uses (`AzimuthEvaluation.cpp:87-146`). -/
def loopType : MatDepth → Option AtType
  | .cv8U => some .uchar
  | .cv8S => some .char
  | .cv16S => some .short
  | .cv16U => some .ushort
  | .cv32S => some .int
  | .cv32F => some .float
  | .cv64F => some .double
  | .cv16F => none

/-- `D.at<T>(i, j) = tmp.at<T>(j)` for all columns of `tmp`. -/
def copyRow (T : AtType) (tmp : Image) (i : ℕ) : List ((ℤ × ℤ) × UInt8) :=
  (List.range tmp.cols).flatMap fun j : ℕ => (List.range T.sizeof).map fun k : ℕ =>
    (((i : ℤ), (j : ℤ) * T.sizeof + k), tmp.bytes.px (0, (j : ℤ) * T.sizeof + k))

/-- `getReshapedPolarImages_fast` (`AzimuthEvaluation.cpp:81-148`); `fresh` is what the new matrix
holds before the loops. -/
def getReshapedPolarImagesFast (fresh : ℤ × ℤ → UInt8) (polarImages : List Image) : Option Image :=
  match polarImages with
  | [] => none
  | front :: rest =>
    (loopType front.depth).map fun T =>
      let total := front.bytes.height * front.cols
      { depth := front.depth
        cols := total
        bytes :=
          { height := (front :: rest).length
            width := total * front.depth.elemSize
            px := applyWrites fresh ((front :: rest).zipIdx.flatMap fun m => copyRow T m.1.row m.2) }
        width_eq := rfl }

section Code

/-- What makes `2` a number of a field. -/
local instance atLeastTwo_two : Nat.AtLeastTwo 2 := ⟨Nat.le_refl 2⟩

variable {K : Type} [Field K] (toDouble : MatDepth → List UInt8 → K) (atan2 : K → K → K)

/-- `D.convertTo(D, CV_64F)`; `toDouble` is the value of an element. -/
def convertTo : Option Image → Mat K
  | none => ⟨0, 0, fun _ => 0⟩
  | some D => ⟨D.bytes.height, D.cols, fun p => toDouble D.depth (D.element p)⟩

/-- `computeO` (`AzimuthEvaluation.cpp:150-156`). -/
def computeO (polarizationOrder : Option PolarizationSensorOrder) (polarImages : List Image) :
    Except String (Mat K) := do
  let D ← getReshapedPolarImages polarImages
  let Pinv_array ← getPolarMatrix polarizationOrder
  return (matOfArray 3 4 Pinv_array).mul (convertTo toDouble D)

/-- `m.row(i)`. -/
def rowOf (m : Mat K) (i : ℤ) : Mat K := ⟨1, m.width, fun p => m.px (i + p.1, p.2)⟩

/-- `getAtan2Vector` (`AzimuthEvaluation.cpp:7-14`) on two rows. -/
def getAtan2Vector (m1 m2 : Mat K) : Mat K :=
  ⟨m1.width, 1, fun p => atan2 (m2.px (0, p.1)) (m1.px (0, p.1))⟩

/-- `getAtan2Vector_fast_O` (`AzimuthEvaluation.cpp:16-23`). -/
def getAtan2VectorFastO (O : Mat K) : Mat K :=
  ⟨O.width, 1, fun p => atan2 (O.px (2, p.1)) (O.px (1, p.1)) * (1 / 2)⟩

/-- `polarImages[0].rows`. -/
def firstRows (polarImages : List Image) : ℕ := (polarImages.head?.map fun m => m.bytes.height).getD 0

/-- `computeAzimuth` (`AzimuthEvaluation.cpp:158-162`), which writes `azimuth`. -/
def computeAzimuth (polarizationOrder : Option PolarizationSensorOrder) (polarImages : List Image) :
    Except String (Mat K) := do
  let O ← computeO toDouble polarizationOrder polarImages
  let angles := getAtan2Vector atan2 (rowOf O 1) (rowOf O 2)
  let Phi : Mat K := { angles with px := fun p => angles.px p / 2 }
  return Phi.reshape (firstRows polarImages)

/-- `computeAzimuth_fast` (`AzimuthEvaluation.cpp:164-174`), which writes `azimuth`. -/
def computeAzimuthFast (fresh : ℤ × ℤ → UInt8)
    (polarizationOrder : Option PolarizationSensorOrder) (polarImages : List Image) :
    Except String (Mat K) := do
  let Pinv_array ← getPolarMatrix polarizationOrder
  let D := getReshapedPolarImagesFast fresh polarImages
  let O := (matOfArray 3 4 Pinv_array).mul (convertTo toDouble D)
  let Phi := getAtan2VectorFastO atan2 O
  return Phi.reshape (firstRows polarImages)

end Code

/-- Images of one size and one depth. -/
structure SameKind (depth : MatDepth) (height cols : ℕ) (polarImages : List Image) : Prop where
  depth_eq : ∀ m ∈ polarImages, m.depth = depth
  height_eq : ∀ m ∈ polarImages, m.bytes.height = height
  cols_eq : ∀ m ∈ polarImages, m.cols = cols

/-! ### The flattened images -/

section Flatten

variable {depth : MatDepth} {height cols : ℕ} {images : List Image} {m : Image} {T : AtType}
  {i n : ℕ} {b : UInt8}

/-- A matrix with the rows of the images, under each other. -/
structure Flattened (depth : MatDepth) (height cols : ℕ) (images : List Image) (D : Image) : Prop where
  depth_eq : D.depth = depth
  cols_eq : D.cols = height * cols
  rows_eq : D.bytes.height = images.length
  byte_eq : ∀ (i : ℕ) (m : Image), images[i]? = some m → ∀ n : ℕ, n < height * cols * depth.elemSize →
    D.bytes.px (i, n) = m.row.bytes.px (0, n)

theorem Flattened.push {D : Image} (h : Flattened depth height cols images D)
    (hm : SameKind depth height cols [m]) :
    ∃ D', pushBack (some D) m.row = .ok (some D') ∧
      Flattened depth height cols (images ++ [m]) D' := by
  have hdepth : D.depth = m.row.depth := h.depth_eq.trans (hm.depth_eq m List.mem_cons_self).symm
  have hcols : D.cols = m.row.cols := by
    show D.cols = m.bytes.height * m.cols
    rw [h.cols_eq, hm.height_eq m List.mem_cons_self, hm.cols_eq m List.mem_cons_self]
  rw [pushBack, dif_pos ⟨hcols, hdepth⟩]
  refine ⟨_, rfl, h.depth_eq, h.cols_eq, ?_, fun i m' hi n hn => ?_⟩
  · show D.bytes.height + 1 = _
    rw [h.rows_eq, List.length_append, List.length_singleton]
  · show (if (i : ℤ) < D.bytes.height then _ else _) = _
    rw [h.rows_eq]
    by_cases hlt : i < images.length
    · rw [List.getElem?_append_left hlt] at hi
      rw [if_pos (by omega)]
      exact h.byte_eq i m' hi n hn
    · have hlen := (List.getElem?_eq_some_iff.mp hi).1
      rw [List.length_append, List.length_singleton] at hlen
      have heq : i = images.length := by omega
      subst heq
      rw [List.getElem?_concat_length, Option.some.injEq] at hi
      subst hi
      rw [if_neg (by omega)]
      congr 2
      omega

theorem flattened_foldlM {D : Image} {before : List Image}
    (h : Flattened depth height cols before D) (hs : SameKind depth height cols images) :
    ∃ D', images.foldlM (fun D image => pushBack D image.row) (some D) = .ok (some D') ∧
      Flattened depth height cols (before ++ images) D' := by
  induction images generalizing D before with
  | nil => exact ⟨D, rfl, (List.append_nil before).symm ▸ h⟩
  | cons m rest ih =>
    have hm : SameKind depth height cols [m] := by
      refine ⟨?_, ?_, ?_⟩ <;> intro m' hm' <;> obtain rfl := List.mem_singleton.mp hm'
      · exact hs.depth_eq _ List.mem_cons_self
      · exact hs.height_eq _ List.mem_cons_self
      · exact hs.cols_eq _ List.mem_cons_self
    have hrest : SameKind depth height cols rest :=
      ⟨fun m' hm' => hs.depth_eq m' (List.mem_cons_of_mem m hm'),
        fun m' hm' => hs.height_eq m' (List.mem_cons_of_mem m hm'),
        fun m' hm' => hs.cols_eq m' (List.mem_cons_of_mem m hm')⟩
    obtain ⟨D', hpush, hD'⟩ := h.push hm
    obtain ⟨D'', hrun, hD''⟩ := ih hD' hrest
    refine ⟨D'', ?_, ?_⟩
    · rw [List.foldlM_cons, hpush]
      exact hrun
    · rwa [List.append_assoc, List.singleton_append] at hD''

theorem getReshapedPolarImages_flattened (hne : images ≠ []) (hs : SameKind depth height cols images) :
    ∃ D, getReshapedPolarImages images = .ok (some D) ∧ Flattened depth height cols images D := by
  cases images with
  | nil => exact absurd rfl hne
  | cons m rest =>
    have hfirst : Flattened depth height cols [m] m.row := by
      refine ⟨hs.depth_eq m List.mem_cons_self, ?_, rfl, fun i m' hi n _ => ?_⟩
      · show m.bytes.height * m.cols = _
        rw [hs.height_eq m List.mem_cons_self, hs.cols_eq m List.mem_cons_self]
      · cases i with
        | zero =>
          cases hi
          rfl
        | succ i => cases hi
    have hrest : SameKind depth height cols rest :=
      ⟨fun m' hm' => hs.depth_eq m' (List.mem_cons_of_mem m hm'),
        fun m' hm' => hs.height_eq m' (List.mem_cons_of_mem m hm'),
        fun m' hm' => hs.cols_eq m' (List.mem_cons_of_mem m hm')⟩
    exact flattened_foldlM hfirst hrest

/-- The loops copy a byte of a row to its place, and nothing else there. -/
theorem mem_copyRow {q : ℤ × ℤ} : (q, b) ∈ copyRow T m i ↔
    ∃ n : ℕ, n < m.cols * T.sizeof ∧ q = ((i : ℤ), (n : ℤ)) ∧ b = m.bytes.px (0, n) := by
  have hpos : 0 < T.sizeof := by
    cases T <;> decide
  rw [copyRow, List.mem_flatMap]
  constructor
  · rintro ⟨j, hj, hmem⟩
    obtain ⟨k, hk, heq⟩ := List.mem_map.mp hmem
    rw [List.mem_range] at hj hk
    cases heq
    refine ⟨j * T.sizeof + k, ?_, ?_, ?_⟩
    · calc j * T.sizeof + k < (j + 1) * T.sizeof := by
            rw [Nat.succ_mul]
            omega
        _ ≤ m.cols * T.sizeof := Nat.mul_le_mul_right _ hj
    · push_cast
      rfl
    · push_cast
      rfl
  · rintro ⟨n, hn, rfl, rfl⟩
    refine ⟨n / T.sizeof, List.mem_range.mpr (Nat.div_lt_of_lt_mul ?_), List.mem_map.mpr
      ⟨n % T.sizeof, List.mem_range.mpr (Nat.mod_lt _ hpos), ?_⟩⟩
    · rwa [Nat.mul_comm]
    · have hsplit : ((n / T.sizeof : ℕ) : ℤ) * T.sizeof + (n % T.sizeof : ℕ) = n := by
        exact_mod_cast Nat.div_add_mod' n T.sizeof
      rw [hsplit]

/-- The loop for a depth accesses elements of its size. -/
theorem sizeof_loopType (hT : loopType depth = some T) : T.sizeof = depth.elemSize := by
  cases depth <;> cases hT <;> rfl

theorem getReshapedPolarImagesFast_flattened (fresh : ℤ × ℤ → UInt8) (hdepth : depth ≠ .cv16F)
    (hne : images ≠ []) (hs : SameKind depth height cols images) :
    ∃ D, getReshapedPolarImagesFast fresh images = some D ∧ Flattened depth height cols images D := by
  obtain ⟨T, hT⟩ : ∃ T, loopType depth = some T := by
    cases depth with
    | cv16F => exact absurd rfl hdepth
    | _ => exact ⟨_, rfl⟩
  cases images with
  | nil => exact absurd rfl hne
  | cons front rest =>
    have hfront := hs.depth_eq front List.mem_cons_self
    have htotal : front.bytes.height * front.cols = height * cols := by
      rw [hs.height_eq front List.mem_cons_self, hs.cols_eq front List.mem_cons_self]
    rw [getReshapedPolarImagesFast, show loopType front.depth = some T from hfront ▸ hT,
      Option.map_some]
    refine ⟨_, rfl, hfront, htotal, rfl, fun i m hi n hn => ?_⟩
    have hm : m ∈ front :: rest := List.mem_of_getElem? hi
    have hwidth : m.row.cols * T.sizeof = height * cols * depth.elemSize := by
      show m.bytes.height * m.cols * T.sizeof = _
      rw [hs.height_eq m hm, hs.cols_eq m hm, sizeof_loopType hT]
    show applyWrites _ _ _ = _
    rw [applyWrites_apply, lastWrite_of_forall (v := m.row.bytes.px (0, n)), Option.getD_some]
    · refine List.mem_flatMap.mpr ⟨(m, i), List.mem_zipIdx_iff_getElem?.mpr hi, ?_⟩
      exact mem_copyRow.mpr ⟨n, hwidth ▸ hn, rfl, rfl⟩
    · intro b hb
      obtain ⟨⟨m', i'⟩, hmem, hcopy⟩ := List.mem_flatMap.mp hb
      obtain ⟨n', -, hplace, rfl⟩ := mem_copyRow.mp hcopy
      obtain ⟨hi', hn'⟩ := Prod.mk.inj hplace
      have hii : i = i' := by exact_mod_cast hi'
      have hnn : n = n' := by exact_mod_cast hn'
      subst hii
      subst hnn
      have hm' : some m' = some m := (List.mem_zipIdx_iff_getElem?.mp hmem).symm.trans hi
      cases hm'
      rfl

theorem Flattened.pixel {D : Image} (h : Flattened depth height cols images D)
    (hs : SameKind depth height cols images) (hi : images[i]? = some m) {r c : ℕ} (hr : r < height)
    (hc : c < cols) : D.element (i, r * cols + c) = m.element (r, c) := by
  have hm := List.mem_of_getElem? hi
  rw [Image.element, Image.element, h.depth_eq, hs.depth_eq m hm]
  refine List.map_congr_left fun k hk => ?_
  rw [List.mem_range] at hk
  have hplace : ((r : ℤ) * cols + c) * depth.elemSize + k =
      ((r * (cols * depth.elemSize) + (c * depth.elemSize + k) : ℕ) : ℤ) := by
    push_cast
    ring
  have hin : c * depth.elemSize + k < cols * depth.elemSize := by
    calc c * depth.elemSize + k < (c + 1) * depth.elemSize := by
          rw [Nat.succ_mul]
          omega
      _ ≤ cols * depth.elemSize := Nat.mul_le_mul_right _ hc
  have hlt : r * (cols * depth.elemSize) + (c * depth.elemSize + k) <
      height * cols * depth.elemSize := by
    calc r * (cols * depth.elemSize) + (c * depth.elemSize + k)
          < (r + 1) * (cols * depth.elemSize) := by
          rw [Nat.succ_mul]
          omega
      _ ≤ height * (cols * depth.elemSize) := Nat.mul_le_mul_right _ hr
      _ = height * cols * depth.elemSize := (Nat.mul_assoc _ _ _).symm
  have hwidth : (m.bytes.width : ℤ) = (cols * depth.elemSize : ℕ) := by
    rw [m.width_eq, hs.cols_eq m hm, hs.depth_eq m hm]
  have hrow := reshape_row (m := m.bytes) (y := r) (x := (c * depth.elemSize + k : ℕ))
    ⟨by omega, by omega⟩
  rw [hplace, h.byte_eq i m hi _ hlt]
  show (m.bytes.reshape 1).px _ = _
  rw [hwidth] at hrow
  push_cast at hrow ⊢
  exact hrow

end Flatten

/-! ### The azimuth -/

section Azimuth

variable {K : Type} [Field K] {toDouble : MatDepth → List UInt8 → K} {atan2 : K → K → K}
  {depth : MatDepth} {height cols : ℕ} {images : List Image}

/-- Two matrices of one size with the same pixels. -/
def SameMat (a b : Mat K) : Prop := a.size = b.size ∧ ∀ p, Inside a.size p → a.px p = b.px p

/-- Both functions give a matrix, and the same one, or both throw the same exception. -/
def SameResult : Except String (Mat K) → Except String (Mat K) → Prop
  | .ok a, .ok b => SameMat a b
  | .error e, .error e' => e = e'
  | _, _ => False

theorem Flattened.convertTo_eq {D D' : Image} (h : Flattened depth height cols images D)
    (h' : Flattened depth height cols images D') (toDouble : MatDepth → List UInt8 → K) {i n : ℕ}
    (hi : i < images.length) (hn : n < height * cols) :
    (convertTo toDouble (some D)).px (i, n) = (convertTo toDouble (some D')).px (i, n) := by
  have hget := List.getElem?_eq_getElem hi
  show toDouble D.depth (D.element (i, n)) = toDouble D'.depth (D'.element (i, n))
  have helement : D.element (i, n) = D'.element (i, n) := by
    rw [Image.element, Image.element, h.depth_eq, h'.depth_eq]
    refine List.map_congr_left fun k hk => ?_
    rw [List.mem_range] at hk
    have hplace : (n : ℤ) * depth.elemSize + k = ((n * depth.elemSize + k : ℕ) : ℤ) := by
      push_cast
      rfl
    have hlt : n * depth.elemSize + k < height * cols * depth.elemSize := by
      calc n * depth.elemSize + k < (n + 1) * depth.elemSize := by
            rw [Nat.succ_mul]
            omega
        _ ≤ height * cols * depth.elemSize := Nat.mul_le_mul_right _ hn
    rw [hplace, h.byte_eq i _ hget _ hlt, h'.byte_eq i _ hget _ hlt]
  rw [helement, h.depth_eq, h'.depth_eq]

/-- The product with the polarisation matrix reads the four rows of the images. -/
theorem Flattened.mul_eq {D D' : Image} (h : Flattened depth height cols images D)
    (h' : Flattened depth height cols images D') (hfour : images.length = 4) (data : List K) (r : ℤ)
    {n : ℕ} (hn : n < height * cols) :
    ((matOfArray 3 4 data).mul (convertTo toDouble (some D))).px (r, n) =
      ((matOfArray 3 4 data).mul (convertTo toDouble (some D'))).px (r, n) := by
  have h0 := h.convertTo_eq h' toDouble (i := 0) (by omega) hn
  have h1 := h.convertTo_eq h' toDouble (i := 1) (by omega) hn
  have h2 := h.convertTo_eq h' toDouble (i := 2) (by omega) hn
  have h3 := h.convertTo_eq h' toDouble (i := 3) (by omega) hn
  push_cast at h0 h1 h2 h3
  rw [mul_px, mul_px, h0, h1, h2, h3]

theorem place_lt {r c : ℕ} (hr : r < height) (hc : c < cols) : r * cols + c < height * cols := by
  calc r * cols + c < (r + 1) * cols := by
        rw [Nat.succ_mul]
        omega
    _ ≤ height * cols := Nat.mul_le_mul_right _ hr

/-- The halves of the angles of two products, in the form of an image. -/
theorem sameMat_angles {O O' : Mat K} (hwidth : O.width = height * cols)
    (hwidth' : O'.width = height * cols) (hheight : 0 < height)
    (h : ∀ (r : ℤ) (n : ℕ), n < height * cols → O.px (r, n) = O'.px (r, n)) :
    SameMat ((getAtan2VectorFastO atan2 O').reshape height)
      (Mat.reshape { getAtan2Vector atan2 (rowOf O 1) (rowOf O 2) with
        px := fun p => (getAtan2Vector atan2 (rowOf O 1) (rowOf O 2)).px p / 2 } height) := by
  have hcolumns : height * cols * 1 / height = cols := by
    rw [Nat.mul_one, Nat.mul_div_cancel_left cols hheight]
  refine ⟨?_, fun p hp => ?_⟩
  · simp only [Mat.size, Mat.reshape, getAtan2VectorFastO, getAtan2Vector, rowOf, hwidth, hwidth']
  · obtain ⟨y, x⟩ := p
    obtain ⟨hy0, hy, hx0, hx⟩ := hp
    simp only [Mat.size, Mat.reshape, getAtan2VectorFastO, hwidth', hcolumns] at hy hx
    obtain ⟨r, rfl⟩ := Int.eq_ofNat_of_zero_le hy0
    obtain ⟨c, rfl⟩ := Int.eq_ofNat_of_zero_le hx0
    have hlt : r * cols + c < height * cols := place_lt (by omega) (by omega)
    have hplace : (r : ℤ) * cols + c = ((r * cols + c : ℕ) : ℤ) := by
      push_cast
      rfl
    simp only [Mat.reshape, getAtan2VectorFastO, getAtan2Vector, rowOf, hwidth, hwidth', hcolumns,
      Nat.cast_one, Int.ediv_one, add_zero, hplace]
    rw [h 1 _ hlt, h 2 _ hlt, mul_one_div]

/-- `computeAzimuth_fast` gives what `computeAzimuth` gives, and both flatten the images alike. -/
theorem computeAzimuthFast_eq (atan2 : K → K → K) (toDouble : MatDepth → List UInt8 → K)
    (fresh : ℤ × ℤ → UInt8) (polarizationOrder : Option PolarizationSensorOrder)
    (hdepth : depth ≠ .cv16F) (hheight : 0 < height) (hfour : images.length = 4)
    (hs : SameKind depth height cols images) :
    SameResult (computeAzimuthFast toDouble atan2 fresh polarizationOrder images)
      (computeAzimuth toDouble atan2 polarizationOrder images) ∧
    ∃ D D', getReshapedPolarImages images = .ok (some D) ∧
      getReshapedPolarImagesFast fresh images = some D' ∧ D.depth = D'.depth ∧ D.cols = D'.cols ∧
      D.bytes.height = D'.bytes.height ∧
      ∀ (i : ℕ) (m : Image), images[i]? = some m → ∀ r c : ℕ, r < height → c < cols →
        D.element (i, r * cols + c) = m.element (r, c) ∧
        D'.element (i, r * cols + c) = m.element (r, c) := by
  have hne : images ≠ [] := by
    rintro rfl
    cases hfour
  obtain ⟨D, hD, hflat⟩ := getReshapedPolarImages_flattened hne hs
  obtain ⟨D', hD', hflat'⟩ := getReshapedPolarImagesFast_flattened fresh hdepth hne hs
  refine ⟨?_, D, D', hD, hD', hflat.depth_eq.trans hflat'.depth_eq.symm,
    hflat.cols_eq.trans hflat'.cols_eq.symm, hflat.rows_eq.trans hflat'.rows_eq.symm,
    fun i m hi r c hr hc => ⟨hflat.pixel hs hi hr hc, hflat'.pixel hs hi hr hc⟩⟩
  rw [computeAzimuthFast, computeAzimuth, computeO, hD, hD']
  cases getPolarMatrix (K := K) polarizationOrder with
  | error e => rfl
  | ok data =>
    show SameMat _ _
    have hrows : firstRows images = height := by
      cases images with
      | nil => exact absurd rfl hne
      | cons m rest => exact hs.height_eq m List.mem_cons_self
    rw [hrows]
    exact sameMat_angles hflat.cols_eq hflat'.cols_eq hheight fun r n hn =>
      hflat.mul_eq hflat' hfour data r hn

/-- Two pixels of 16 bits, which hold their places. -/
def twoPixels : Image := ⟨.cv16U, 2, ⟨1, 4, fun p => UInt8.ofNat p.2.toNat⟩, rfl⟩

def firstByte (_ : MatDepth) (bytes : List UInt8) : ℚ := (bytes.headD 0).toNat

theorem computeAzimuthFast_eq_twoPixels : SameResult
    (computeAzimuthFast firstByte (fun y x => y - x) (fun _ => 7) (some .order90_45_135_0)
      [twoPixels, twoPixels, twoPixels, twoPixels])
    (computeAzimuth firstByte (fun y x => y - x) (some .order90_45_135_0)
      [twoPixels, twoPixels, twoPixels, twoPixels]) := by
  have hs : SameKind .cv16U 1 2 (List.replicate 4 twoPixels) := by
    refine ⟨?_, ?_, ?_⟩ <;> intro m hm <;> obtain rfl := List.eq_of_mem_replicate hm <;> rfl
  exact (computeAzimuthFast_eq _ _ _ _ (by decide) (by decide) rfl hs).1

/-- Where the images are converted before they are flattened, the row of an image is the same. -/
theorem Flattened.convertTo_row {D m : Image} (h : Flattened depth height cols images D)
    (hs : SameKind depth height cols images) (toDouble : MatDepth → List UInt8 → K) {i n : ℕ}
    (hi : images[i]? = some m) (hn : n < height * cols) : (convertTo toDouble (some D)).px (i, n) =
      ((convertTo toDouble (some m)).reshape 1).px (0, n) := by
  have hm := List.mem_of_getElem? hi
  have hc : n % cols < cols := Nat.mod_lt n (Nat.pos_of_ne_zero fun hz => by simp [hz] at hn)
  have hpixel := h.pixel hs hi (Nat.div_lt_of_lt_mul (Nat.mul_comm height cols ▸ hn)) hc
  have hsplit : ((n / cols : ℕ) : ℤ) * cols + (n % cols : ℕ) = n := by
    exact_mod_cast Nat.div_add_mod' n cols
  have hrow := reshape_row (m := convertTo toDouble (some m)) (y := (n / cols : ℕ))
    (x := (n % cols : ℕ)) ⟨by omega, by
      show _ < (m.cols : ℤ)
      rw [hs.cols_eq m hm]
      exact_mod_cast hc⟩
  have hwidth : ((convertTo toDouble (some m)).width : ℤ) = cols := by
    show (m.cols : ℤ) = cols
    rw [hs.cols_eq m hm]
  rw [hwidth, hsplit] at hrow
  rw [hsplit] at hpixel
  rw [hrow]
  show toDouble D.depth _ = toDouble m.depth _
  rw [h.depth_eq, hs.depth_eq m hm, hpixel]

theorem computeO_eq {m₀ m₁ m₂ m₃ : Image} {O O' : Mat K}
    (polarizationOrder : Option PolarizationSensorOrder)
    (hs : SameKind depth height cols [m₀, m₁, m₂, m₃])
    (hO : computeO toDouble polarizationOrder [m₀, m₁, m₂, m₃] = .ok O)
    (hO' : Libdclalgo.computeO polarizationOrder
      [convertTo toDouble (some m₀), convertTo toDouble (some m₁), convertTo toDouble (some m₂),
        convertTo toDouble (some m₃)] = .ok O') (r : ℤ) {n : ℕ} (hn : n < height * cols) :
    O.px (r, n) = O'.px (r, n) := by
  obtain ⟨D, hD, hflat⟩ := getReshapedPolarImages_flattened (List.cons_ne_nil _ _) hs
  rw [computeO, hD] at hO
  rw [Libdclalgo.computeO] at hO'
  cases hdata : getPolarMatrix (K := K) polarizationOrder with
  | error e =>
    rw [hdata] at hO
    cases hO
  | ok data =>
    rw [hdata] at hO hO'
    cases hO
    cases hO'
    have h0 := hflat.convertTo_row hs toDouble (i := 0) rfl hn
    have h1 := hflat.convertTo_row hs toDouble (i := 1) rfl hn
    have h2 := hflat.convertTo_row hs toDouble (i := 2) rfl hn
    have h3 := hflat.convertTo_row hs toDouble (i := 3) rfl hn
    push_cast at h0 h1 h2 h3
    obtain ⟨hr0, hr1, hr2, hr3⟩ := reshapedPolarImages_px (convertTo toDouble (some m₀))
      (convertTo toDouble (some m₁)) (convertTo toDouble (some m₂)) (convertTo toDouble (some m₃)) n
    rw [mul_px, mul_px, h0, h1, h2, h3, hr0, hr1, hr2, hr3]

end Azimuth

end TmkDcl.Libdclalgo.AzimuthEvaluation
