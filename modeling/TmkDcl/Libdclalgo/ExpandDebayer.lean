import Mathlib.Data.Fintype.Prod
import TmkDcl.Libdclalgo.PolarExpand

/-!
# Interpolation of the channels (libdclalgo, PolarExpand.h)

`expandDebayer` runs through the image in windows of three by three pixels. The corners of a window
are samples of the channel, or are extrapolated where they lie outside the image, and the other pixels
of the window are averages of the corners. Windows that are next to each other share a row or a column,
which holds what the later one stores. `expandDebayer_fast` runs through the inner windows first and
then through the four borders.
-/

namespace TmkDcl.Libdclalgo

/-- `v & IMAGE_DATA_MASK`. -/
def dataMask (t : Depth) (v : ℤ) : ℤ := v % 2 ^ t.bits

/-- `calculateValue` before the mask. -/
def extrapolate (v1 v2 : ℤ) : ℤ :=
  let v12 := (v1 + v2).tdiv 2
  let deltaV := v1 - v12
  if deltaV > 0 then v1 + deltaV.tdiv 2 else v1 - deltaV.tdiv 2

def calculateValue (t : Depth) (v1 v2 : ℤ) : ℤ := dataMask t (extrapolate v1 v2)

def selectCase (x y width height : ℤ) : ℕ :=
  (if x = -1 then 1
    else if x = width - 2 then 2
    else if 0 ≤ x ∧ x < width - 2 then 3
    else 0) +
  (if y = -1 then 10
    else if y = height - 2 then 20
    else if 0 ≤ y ∧ y < height - 2 then 30
    else 0)

/-- A corner of a window: a pixel of the image, or `calculateValue` of two pixels. -/
inductive Corner where
  | sample (p : ℤ × ℤ)
  | extrapolated (p q : ℤ × ℤ)

/-- The corners of a window, row by row. -/
structure Corners where
  a : Corner
  b : Corner
  c : Corner
  d : Corner

/-- The `switch` of `calculateABCD`. -/
def corners (size : Size) (x y : ℤ) : Option Corners :=
  match selectCase x y size.width size.height with
  | 11 => some {
      a := .extrapolated (y + 2, x + 2) (y + 4, x + 4)
      b := .extrapolated (y + 2, x + 2) (y + 4, x + 2)
      c := .extrapolated (y + 2, x + 2) (y + 2, x + 4)
      d := .sample (y + 2, x + 2) }
  | 21 => some {
      a := .extrapolated (y, x + 2) (y, x + 4)
      b := .extrapolated (y, x + 2) (y - 2, x + 4)
      c := .sample (y, x + 2)
      d := .extrapolated (y, x + 2) (y - 4, x + 2) }
  | 31 => some {
      a := .extrapolated (y, x + 2) (y, x + 4)
      b := .sample (y, x + 2)
      c := .extrapolated (y + 2, x + 2) (y + 2, x + 4)
      d := .sample (y + 2, x + 2) }
  | 12 => some {
      a := .extrapolated (y + 2, x) (y + 4, x)
      b := .extrapolated (y + 2, x) (y + 4, x - 2)
      c := .sample (y + 2, x)
      d := .extrapolated (y + 2, x) (y + 2, x - 4) }
  | 22 => some {
      a := .sample (y, x)
      b := .extrapolated (y, x) (y, x - 2)
      c := .extrapolated (y, x) (y - 2, x)
      d := .extrapolated (y, x) (y - 4, x - 4) }
  | 32 => some {
      a := .sample (y, x)
      b := .extrapolated (y, x) (y, x - 2)
      c := .sample (y, x - 2)
      d := .extrapolated (y, x - 2) (y, x - 4) }
  | 13 => some {
      a := .extrapolated (y + 2, x) (y + 4, x)
      b := .extrapolated (y + 2, x + 2) (y + 4, x + 2)
      c := .sample (y + 2, x)
      d := .sample (y + 2, x + 2) }
  | 23 => some {
      a := .sample (y, x)
      b := .sample (y, x + 2)
      c := .extrapolated (y, x) (y - 2, x)
      d := .extrapolated (y, x + 2) (y - 2, x + 2) }
  | 33 => some {
      a := .sample (y, x)
      b := .sample (y, x + 2)
      c := .sample (y + 2, x)
      d := .sample (y + 2, x + 2) }
  | _ => none

/-- The values of the corners. -/
structure Samples where
  a : ℤ
  b : ℤ
  c : ℤ
  d : ℤ

section Window

variable (t : Depth) (size : Size) (i : Fin 4) (x y : ℤ)

/-- `image.at<T>(p.1, p.2)` as an `int`. -/
def pixelAt (p : ℤ × ℤ) : Expander (Pixel t) ℤ := do
  return ((← Kernel.get p).val : ℤ)

def Corner.calculate : Corner → Expander (Pixel t) ℤ
  | .sample p => pixelAt t p
  | .extrapolated p q => do
    let v1 ← pixelAt t p
    let v2 ← pixelAt t q
    return calculateValue t v1 v2

/-- `PolarExpand::calculateABCD`; without a case the values stay uninitialised. -/
def calculateABCD : Expander (Pixel t) Samples :=
  match corners size x y with
  | none => .undefined
  | some k => do
    let a ← k.a.calculate t
    let b ← k.b.calculate t
    let c ← k.c.calculate t
    let d ← k.d.calculate t
    return ⟨a, b, c, d⟩

/-- `if (p) polarImage.at<T>(row, column) = v;` -/
def storeIf (p : Prop) [Decidable p] (row column v : ℤ) : Expander (Pixel t) Unit :=
  if p then Kernel.set (i, row, column) (toPixel t v) else pure ()

/-- `if (p) polarImage.at<T>(row, column) = image.at<T>(row, column);` -/
def copyIf (p : Prop) [Decidable p] (row column : ℤ) : Expander (Pixel t) Unit :=
  if p then do Kernel.set (i, row, column) (← Kernel.get (row, column)) else pure ()

/-- `PolarExpand::biInterpolation` and `PolarExpand::biInterpolation_fast`, which are the same. -/
def biInterpolation : Expander (Pixel t) Unit := do
  let ⟨a, b, c, d⟩ ← calculateABCD t size x y
  copyIf t i (0 ≤ x ∧ 0 ≤ y) y x
  storeIf t i (0 ≤ y) y (x + 1) (((2 * (a + b) + (c + d)).tdiv 3).tdiv 2)
  copyIf t i (0 ≤ y ∧ x < size.width - 2) y (x + 2)
  storeIf t i (0 ≤ x) (y + 1) x (((2 * (a + c) + (b + d)).tdiv 3).tdiv 2)
  storeIf t i True (y + 1) (x + 1) ((((a + b) + (c + d)).tdiv 2).tdiv 2)
  storeIf t i (x < size.width - 2) (y + 1) (x + 2) ((((a + c) + 2 * (b + d)).tdiv 3).tdiv 2)
  copyIf t i (0 ≤ x ∧ y < size.height - 2) (y + 2) x
  storeIf t i (y < size.height - 2) (y + 2) (x + 1) ((((a + b) + 2 * (c + d)).tdiv 3).tdiv 2)
  copyIf t i (x < size.width - 2 ∧ y < size.height - 2) (y + 2) (x + 2)

def biInterpolationWithOutBoundaries : Expander (Pixel t) Unit := do
  let a ← pixelAt t (y, x)
  let b ← pixelAt t (y, x + 2)
  let c ← pixelAt t (y + 2, x)
  let d ← pixelAt t (y + 2, x + 2)
  storeIf t i True y x a
  storeIf t i True y (x + 1) ((2 * (a + b) + (c + d)).tdiv 6)
  storeIf t i True y (x + 2) b
  storeIf t i True (y + 1) x ((2 * (a + c) + (b + d)).tdiv 6)
  storeIf t i True (y + 1) (x + 1) (((a + b) + (c + d)).tdiv 4)
  storeIf t i True (y + 1) (x + 2) (((a + c) + 2 * (b + d)).tdiv 6)
  storeIf t i True (y + 2) x c
  storeIf t i True (y + 2) (x + 1) (((a + b) + 2 * (c + d)).tdiv 6)
  storeIf t i True (y + 2) (x + 2) d

end Window

/-- The windows of 0, 45, 90 and 135 degrees at a position of the loops of `expandDebayer`. -/
def windowsAt (t : Depth) (size : Size) (y x : ℤ) : Expander (Pixel t) Unit := do
  biInterpolation t size 0 (x - 1) (y - 1)
  biInterpolation t size 1 (x - 1) y
  biInterpolation t size 2 x y
  biInterpolation t size 3 x (y - 1)

/-- The windows at a position of the loops of the inner windows. -/
def innerWindowsAt (t : Depth) (y x : ℤ) : Expander (Pixel t) Unit := do
  biInterpolationWithOutBoundaries t 0 (x + 1) (y + 1)
  biInterpolationWithOutBoundaries t 1 (x + 1) y
  biInterpolationWithOutBoundaries t 2 x y
  biInterpolationWithOutBoundaries t 3 x (y + 1)

def expandDebayerKernel (t : Depth) (size : Size) : Expander (Pixel t) Unit :=
  Kernel.forRaster (countUp 0 (size.height - 1) 2) (countUp 0 (size.width - 1) 2) (windowsAt t size)

/-- The inner windows, then the first row, the last row, the last column and the first column. -/
def expandDebayerFastKernel (t : Depth) (size : Size) : Expander (Pixel t) Unit := do
  Kernel.forRaster (countUp 0 (size.height - 1 - 2) 2) (countUp 0 (size.width - 1 - 2) 2)
    (innerWindowsAt t)
  Kernel.forRaster [0] (countUp 0 (size.width - 1) 2) (windowsAt t size)
  Kernel.forRaster [size.height - 2] (countUp 0 (size.width - 1) 2) (windowsAt t size)
  Kernel.forRaster (countUp 0 (size.height - 1) 2) [size.width - 2] (windowsAt t size)
  Kernel.forRaster (countUp 0 (size.height - 1) 2) [0] (windowsAt t size)

def expandDebayer {t : Depth} (image : Mat (Pixel t)) : Fin 4 → Mat (Pixel t) :=
  polarSet image.height image.width ((expandDebayerKernel t image.size).writes image.px)

def expandDebayerFast {t : Depth} (image : Mat (Pixel t)) : Fin 4 → Mat (Pixel t) :=
  polarSet image.height image.width ((expandDebayerFastKernel t image.size).writes image.px)

/-! ### Windows -/

section Values

variable {t : Depth} {size : Size} {px : ℤ × ℤ → Pixel t} {i j : Fin 4} {x y : ℤ}

/-- The value of a corner in an image. -/
def Corner.value (px : ℤ × ℤ → Pixel t) : Corner → ℤ
  | .sample p => (px p).val
  | .extrapolated p q => calculateValue t (px p).val (px q).val

def Corners.values (px : ℤ × ℤ → Pixel t) (k : Corners) : Samples :=
  ⟨k.a.value px, k.b.value px, k.c.value px, k.d.value px⟩

theorem result_calculate (k : Corner) : (k.calculate t).result px = some (k.value px) := by
  cases k with
  | sample p => rfl
  | extrapolated p q => rfl

theorem writes_calculate (k : Corner) : (k.calculate t).writes px = [] := by
  cases k with
  | sample p => rfl
  | extrapolated p q => rfl

theorem calculateABCD_some {k : Corners} (hk : corners size x y = some k) :
    (calculateABCD t size x y).result px = some (k.values px) ∧
      (calculateABCD t size x y).writes px = [] := by
  constructor
  · simp only [calculateABCD, hk, Kernel.result_bind, result_calculate, Option.bind_some,
      Kernel.result_pure, Corners.values]
  · simp only [calculateABCD, hk, Kernel.writes_bind, result_calculate, writes_calculate,
      Kernel.writes_pure, Option.map_some, Option.getD_some, List.append_nil]

theorem result_storeIf (p : Prop) [Decidable p] (row column v : ℤ) :
    (storeIf t i p row column v).result px = some () := by
  rw [storeIf]
  split
  · rfl
  · rfl

theorem writes_storeIf (p : Prop) [Decidable p] (row column v : ℤ) :
    (storeIf t i p row column v).writes px =
      if p then [((i, row, column), toPixel t v)] else [] := by
  rw [storeIf]
  split
  · rfl
  · rfl

theorem result_copyIf (p : Prop) [Decidable p] (row column : ℤ) :
    (copyIf t i p row column).result px = some () := by
  rw [copyIf]
  split
  · rfl
  · rfl

theorem writes_copyIf (p : Prop) [Decidable p] (row column : ℤ) :
    (copyIf t i p row column).writes px =
      if p then [((i, row, column), px (row, column))] else [] := by
  rw [copyIf]
  split
  · rfl
  · rfl

/-- What a window stores, by the position in the window. -/
def cell (px : ℤ × ℤ → Pixel t) (s : Samples) (x y : ℤ) : Fin 3 → Fin 3 → Pixel t
  | 0, 1 => toPixel t (((2 * (s.a + s.b) + (s.c + s.d)).tdiv 3).tdiv 2)
  | 1, 0 => toPixel t (((2 * (s.a + s.c) + (s.b + s.d)).tdiv 3).tdiv 2)
  | 1, 1 => toPixel t ((((s.a + s.b) + (s.c + s.d)).tdiv 2).tdiv 2)
  | 1, 2 => toPixel t ((((s.a + s.c) + 2 * (s.b + s.d)).tdiv 3).tdiv 2)
  | 2, 1 => toPixel t ((((s.a + s.b) + 2 * (s.c + s.d)).tdiv 3).tdiv 2)
  | dy, dx => px (y + (dy.val : ℤ), x + (dx.val : ℤ))

instance (size : Size) (p : ℤ × ℤ) : Decidable (Inside size p) :=
  inferInstanceAs (Decidable (_ ∧ _ ∧ _ ∧ _))

/-- The pixel of a window, if it lies inside the image. -/
def stored (size : Size) (i : Fin 4) (px : ℤ × ℤ → Pixel t) (s : Samples) (x y : ℤ) (dy dx : Fin 3) :
    List ((Fin 4 × ℤ × ℤ) × Pixel t) :=
  if Inside size (y + (dy.val : ℤ), x + (dx.val : ℤ)) then
    [((i, y + (dy.val : ℤ), x + (dx.val : ℤ)), cell px s x y dy dx)] else []

def windowCells : List (Fin 3 × Fin 3) :=
  [(0, 0), (0, 1), (0, 2), (1, 0), (1, 1), (1, 2), (2, 0), (2, 1), (2, 2)]

def windowStores (size : Size) (i : Fin 4) (px : ℤ × ℤ → Pixel t) (s : Samples) (x y : ℤ) :
    List ((Fin 4 × ℤ × ℤ) × Pixel t) :=
  windowCells.flatMap fun d => stored size i px s x y d.1 d.2

theorem stored_eq (size : Size) (px : ℤ × ℤ → Pixel t) (s : Samples) (dy dx : Fin 3) {p : Prop}
    [Decidable p] {row column : ℤ} {v : Pixel t}
    (hrow : row = y + (dy.val : ℤ)) (hcolumn : column = x + (dx.val : ℤ))
    (hp : p ↔ Inside size (row, column)) (hv : v = cell px s x y dy dx) :
    (if p then [((i, row, column), v)] else []) = stored size i px s x y dy dx := by
  subst hrow hcolumn hv
  rw [stored]
  simp only [hp]

theorem biInterpolation_spec {k : Corners} (hk : corners size x y = some k)
    (hx : -1 ≤ x ∧ x ≤ size.width - 2) (hy : -1 ≤ y ∧ y ≤ size.height - 2) :
    (biInterpolation t size i x y).result px = some () ∧
      (biInterpolation t size i x y).writes px = windowStores size i px (k.values px) x y := by
  obtain ⟨hresult, hwrites⟩ : _ ∧ (calculateABCD t size x y).writes px = [] := calculateABCD_some hk
  constructor
  · simp only [biInterpolation, Kernel.result_bind, hresult, Option.bind_some, result_storeIf,
      result_copyIf]
  simp only [biInterpolation, Kernel.writes_bind, hresult, hwrites, result_storeIf, result_copyIf,
    writes_storeIf, writes_copyIf, List.nil_append, Option.map_some, Option.getD_some]
  have hzero : ∀ z : ℤ, z = z + ((0 : Fin 3).val : ℤ) := fun z => by simp
  have hone : ∀ z : ℤ, z + 1 = z + ((1 : Fin 3).val : ℤ) := fun z => rfl
  have htwo : ∀ z : ℤ, z + 2 = z + ((2 : Fin 3).val : ℤ) := fun z => rfl
  have hstored := stored_eq (t := t) (i := i) (x := x) (y := y) size px (k.values px)
  rw [hstored 0 0 (hzero y) (hzero x), hstored 0 1 (hzero y) (hone x), hstored 0 2 (hzero y) (htwo x),
    hstored 1 0 (hone y) (hzero x), hstored 1 1 (hone y) (hone x), hstored 1 2 (hone y) (htwo x),
    hstored 2 0 (htwo y) (hzero x), hstored 2 1 (htwo y) (hone x), hstored 2 2 (htwo y) (htwo x)]
  · simp only [windowStores, windowCells, List.flatMap_cons, List.flatMap_nil, List.append_nil]
  all_goals first | (simp only [Inside, true_iff]; omega) | simp [cell, Corners.values]

theorem mem_windowStores {s : Samples} {w : (Fin 4 × ℤ × ℤ) × Pixel t} :
    w ∈ windowStores size i px s x y ↔
      ∃ dy dx : Fin 3, Inside size (y + (dy.val : ℤ), x + (dx.val : ℤ)) ∧
        w = ((i, y + (dy.val : ℤ), x + (dx.val : ℤ)), cell px s x y dy dx) := by
  have hall : ∀ d : Fin 3 × Fin 3, d ∈ windowCells := by decide
  have hmem : ∀ dy dx : Fin 3, w ∈ stored size i px s x y dy dx ↔
      Inside size (y + (dy.val : ℤ), x + (dx.val : ℤ)) ∧
        w = ((i, y + (dy.val : ℤ), x + (dx.val : ℤ)), cell px s x y dy dx) := by
    intro dy dx
    rw [stored]
    split
    · rename_i h
      simp [h]
    · rename_i h
      simp [h]
  rw [windowStores, List.mem_flatMap]
  constructor
  · intro h
    obtain ⟨d, -, hd⟩ := h
    exact ⟨d.1, d.2, (hmem d.1 d.2).mp hd⟩
  · intro h
    obtain ⟨dy, dx, hd⟩ := h
    exact ⟨(dy, dx), hall _, (hmem dy dx).mpr hd⟩

theorem lastWrite_windowStores {s : Samples} {dy dx : Fin 3}
    (h : Inside size (y + (dy.val : ℤ), x + (dx.val : ℤ))) :
    lastWrite (i, y + (dy.val : ℤ), x + (dx.val : ℤ)) (windowStores size i px s x y) =
      some (cell px s x y dy dx) := by
  apply lastWrite_of_forall
  · exact mem_windowStores.mpr ⟨dy, dx, h, rfl⟩
  · intro v hv
    obtain ⟨dy', dx', -, heq⟩ := mem_windowStores.mp hv
    obtain ⟨hcell, hv⟩ := Prod.mk.inj heq
    obtain ⟨-, hrow, hcolumn⟩ : i = i ∧ _ = _ ∧ _ = _ := by simpa using hcell
    have hdy : dy' = dy := Fin.ext (by omega)
    have hdx : dx' = dx := Fin.ext (by omega)
    rw [hv, hdy, hdx]

/-- The pixels of a window. -/
def Covers (y x : ℤ) (p : ℤ × ℤ) : Prop := (y ≤ p.1 ∧ p.1 ≤ y + 2) ∧ x ≤ p.2 ∧ p.2 ≤ x + 2

theorem lastWrite_windowStores_none {s : Samples} {j : Fin 4} {p : ℤ × ℤ}
    (h : j ≠ i ∨ ¬ Covers y x p) : lastWrite (j, p) (windowStores size i px s x y) = none := by
  rw [lastWrite_eq_none]
  intro w hw heq
  obtain ⟨dy, dx, -, rfl⟩ := mem_windowStores.mp hw
  have hdy := dy.isLt
  have hdx := dx.isLt
  cases heq
  cases h with
  | inl hne => exact hne rfl
  | inr hcov =>
    apply hcov
    simp only [Covers]
    omega

/-! ### The corners -/

def Corner.Inside (size : Size) : Corner → Prop
  | .sample p => Libdclalgo.Inside size p
  | .extrapolated p q => Libdclalgo.Inside size p ∧ Libdclalgo.Inside size q

/-- Every window of the loops is one of the nine cases, and its corners come from pixels of the image. -/
theorem corners_inside (hw : 6 ≤ size.width) (hh : 6 ≤ size.height)
    (hx : -1 ≤ x ∧ x ≤ size.width - 2) (hy : -1 ≤ y ∧ y ≤ size.height - 2) :
    selectCase x y size.width size.height ∈ [11, 21, 31, 12, 22, 32, 13, 23, 33] ∧
      ∃ k, corners size x y = some k ∧
        k.a.Inside size ∧ k.b.Inside size ∧ k.c.Inside size ∧ k.d.Inside size := by
  have hcolumn : x = -1 ∨ x = size.width - 2 ∨ 0 ≤ x ∧ x < size.width - 2 := by omega
  have hrow : y = -1 ∨ y = size.height - 2 ∨ 0 ≤ y ∧ y < size.height - 2 := by omega
  have hspec : ∀ n, selectCase x y size.width size.height = n →
      n ∈ [11, 21, 31, 12, 22, 32, 13, 23, 33] → ∀ k, corners size x y = some k →
        k.a.Inside size ∧ k.b.Inside size ∧ k.c.Inside size ∧ k.d.Inside size →
      selectCase x y size.width size.height ∈ [11, 21, 31, 12, 22, 32, 13, 23, 33] ∧
        ∃ k, corners size x y = some k ∧
          k.a.Inside size ∧ k.b.Inside size ∧ k.c.Inside size ∧ k.d.Inside size :=
    fun n hn hmem k hk hin => ⟨hn ▸ hmem, k, hk, hin⟩
  have hselect : ∀ n, n = (if x = -1 then 1 else if x = size.width - 2 then 2 else 3) +
      (if y = -1 then 10 else if y = size.height - 2 then 20 else 30) →
      selectCase x y size.width size.height = n := by
    intro n hn
    rw [hn, selectCase]
    grind
  obtain hcolumn | hcolumn | hcolumn := hcolumn
  · obtain hrow | hrow | hrow := hrow
    · have hn := hselect 11 (by grind)
      refine hspec 11 hn (by decide) _ (by rw [corners, hn]; rfl) ?_
      simp only [Corner.Inside, Libdclalgo.Inside]
      omega
    · have hn := hselect 21 (by grind)
      refine hspec 21 hn (by decide) _ (by rw [corners, hn]; rfl) ?_
      simp only [Corner.Inside, Libdclalgo.Inside]
      omega
    · have hn := hselect 31 (by grind)
      refine hspec 31 hn (by decide) _ (by rw [corners, hn]; rfl) ?_
      simp only [Corner.Inside, Libdclalgo.Inside]
      omega
  · obtain hrow | hrow | hrow := hrow
    · have hn := hselect 12 (by grind)
      refine hspec 12 hn (by decide) _ (by rw [corners, hn]; rfl) ?_
      simp only [Corner.Inside, Libdclalgo.Inside]
      omega
    · have hn := hselect 22 (by grind)
      refine hspec 22 hn (by decide) _ (by rw [corners, hn]; rfl) ?_
      simp only [Corner.Inside, Libdclalgo.Inside]
      omega
    · have hn := hselect 32 (by grind)
      refine hspec 32 hn (by decide) _ (by rw [corners, hn]; rfl) ?_
      simp only [Corner.Inside, Libdclalgo.Inside]
      omega
  · obtain hrow | hrow | hrow := hrow
    · have hn := hselect 13 (by grind)
      refine hspec 13 hn (by decide) _ (by rw [corners, hn]; rfl) ?_
      simp only [Corner.Inside, Libdclalgo.Inside]
      omega
    · have hn := hselect 23 (by grind)
      refine hspec 23 hn (by decide) _ (by rw [corners, hn]; rfl) ?_
      simp only [Corner.Inside, Libdclalgo.Inside]
      omega
    · have hn := hselect 33 (by grind)
      refine hspec 33 hn (by decide) _ (by rw [corners, hn]; rfl) ?_
      simp only [Corner.Inside, Libdclalgo.Inside]
      omega

theorem corners_inner (hx : 0 ≤ x ∧ x < size.width - 2) (hy : 0 ≤ y ∧ y < size.height - 2) :
    corners size x y =
      some ⟨.sample (y, x), .sample (y, x + 2), .sample (y + 2, x), .sample (y + 2, x + 2)⟩ := by
  have hn : selectCase x y size.width size.height = 33 := by
    rw [selectCase]
    grind
  rw [corners, hn]
  rfl

theorem toPixel_val (v : Pixel t) : toPixel t (v.val : ℤ) = v := by
  apply Fin.ext
  have hlt : (v.val : ℤ) < 2 ^ t.bits := by exact_mod_cast v.isLt
  show (((v.val : ℤ) % 2 ^ t.bits).toNat) = v.val
  rw [Int.emod_eq_of_lt (Int.natCast_nonneg _) hlt, Int.toNat_natCast]

theorem tdiv_six {n : ℤ} (h : 0 ≤ n) : n.tdiv 6 = (n.tdiv 3).tdiv 2 := by
  have hthree : 0 ≤ n / 3 := by omega
  rw [Int.tdiv_eq_ediv_of_nonneg h, Int.tdiv_eq_ediv_of_nonneg h, Int.tdiv_eq_ediv_of_nonneg hthree]
  omega

theorem tdiv_four {n : ℤ} (h : 0 ≤ n) : n.tdiv 4 = (n.tdiv 2).tdiv 2 := by
  have htwo : 0 ≤ n / 2 := by omega
  rw [Int.tdiv_eq_ediv_of_nonneg h, Int.tdiv_eq_ediv_of_nonneg h, Int.tdiv_eq_ediv_of_nonneg htwo]
  omega

/-- In an inner window both functions store the same. -/
theorem biInterpolationWithOutBoundaries_spec (hx : 0 ≤ x ∧ x < size.width - 2)
    (hy : 0 ≤ y ∧ y < size.height - 2) {k : Corners} (hk : corners size x y = some k) :
    (biInterpolationWithOutBoundaries t i x y).result px = some () ∧
      (biInterpolationWithOutBoundaries t i x y).writes px =
        windowStores size i px (k.values px) x y := by
  rw [corners_inner hx hy] at hk
  cases hk
  constructor
  · rfl
  have hzero : ∀ z : ℤ, z = z + ((0 : Fin 3).val : ℤ) := fun z => by simp
  have hone : ∀ z : ℤ, z + 1 = z + ((1 : Fin 3).val : ℤ) := fun z => rfl
  have htwo : ∀ z : ℤ, z + 2 = z + ((2 : Fin 3).val : ℤ) := fun z => rfl
  simp only [biInterpolationWithOutBoundaries, Kernel.writes_bind, Kernel.result_bind, pixelAt,
    Kernel.result_get, Kernel.writes_get, Option.bind_some, Kernel.result_pure, Kernel.writes_pure,
    result_storeIf, writes_storeIf, List.nil_append, Option.map_some, Option.getD_some]
  have hstored := stored_eq (t := t) (i := i) (x := x) (y := y) size px
    ⟨(px (y, x)).val, (px (y, x + 2)).val, (px (y + 2, x)).val, (px (y + 2, x + 2)).val⟩
  rw [hstored 0 0 (hzero y) (hzero x), hstored 0 1 (hzero y) (hone x), hstored 0 2 (hzero y) (htwo x),
    hstored 1 0 (hone y) (hzero x), hstored 1 1 (hone y) (hone x), hstored 1 2 (hone y) (htwo x),
    hstored 2 0 (htwo y) (hzero x), hstored 2 1 (htwo y) (hone x), hstored 2 2 (htwo y) (htwo x)]
  · simp only [windowStores, windowCells, List.flatMap_cons, List.flatMap_nil, List.append_nil]
    rfl
  all_goals first
    | (simp only [Inside, true_iff]; omega)
    | (rw [toPixel_val]; simp [cell])
    | exact congrArg (toPixel t) (tdiv_six (by omega))
    | exact congrArg (toPixel t) (tdiv_four (by omega))

end Values

end TmkDcl.Libdclalgo
