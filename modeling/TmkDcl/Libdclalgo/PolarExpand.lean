import Mathlib.Algebra.Ring.Int.Defs
import Mathlib.Algebra.Ring.Nat
import Mathlib.Data.Fin.VecNotation
import Mathlib.Data.Fintype.Basic
import Mathlib.Tactic.FinCases
import TmkDcl.Kernel

/-!
# Images and their polarisation channels (libdclalgo, PolarExpand.h)

A pixel of the sensor lies behind a filter of one of four angles. `expand` gives every pixel the four
samples of the square of two by two pixels that starts at it, and `expandEasy` makes one pixel of each
square of the mosaic, with half the height and half the width.
-/

namespace TmkDcl.Libdclalgo

/-- The types that `PolarExpand` is used with. -/
inductive Depth where
  | u8
  | u16
  deriving DecidableEq

def Depth.bits : Depth → ℕ
  | .u8 => 8
  | .u16 => 16

/-- A value of the type `T`. -/
abbrev Pixel (t : Depth) := Fin (2 ^ t.bits)

-- For the literals of the pixels and of the numbers of the channels.
instance instNeZeroValues (t : Depth) : NeZero (2 ^ t.bits) := ⟨Nat.ne_of_gt (Nat.two_pow_pos t.bits)⟩

instance instNeZeroChannels : NeZero (4 : ℕ) := ⟨by decide⟩

/-- The conversion of an `int` to `T`. -/
def toPixel (t : Depth) (v : ℤ) : Pixel t :=
  ⟨(v % 2 ^ t.bits).toNat, by
    have hpos : (0 : ℤ) < 2 ^ t.bits := Int.pow_pos (by decide)
    rw [Int.toNat_lt (Int.emod_nonneg v (Int.ne_of_gt hpos))]
    exact_mod_cast Int.emod_lt_of_pos v hpos⟩

structure Size where
  height : ℤ
  width : ℤ

/-- `cv::Mat` with one channel. What `px` is outside the image has no meaning. -/
structure Mat (κ : Type*) where
  height : ℕ
  width : ℕ
  px : ℤ × ℤ → κ

def Mat.size {κ : Type*} (m : Mat κ) : Size := ⟨m.height, m.width⟩

/-- The row and the column of a pixel of the image. -/
def Inside (size : Size) (p : ℤ × ℤ) : Prop :=
  0 ≤ p.1 ∧ p.1 < size.height ∧ 0 ≤ p.2 ∧ p.2 < size.width

/-- A program that reads `image` and writes `polarSet`. -/
abbrev Expander (κ : Type) := Kernel (ℤ × ℤ) (Fin 4 × ℤ × ℤ) κ κ

/-- `polarSet`, filled with zeros before the stores. -/
def polarSet {t : Depth} (height width : ℕ) (stores : List ((Fin 4 × ℤ × ℤ) × Pixel t)) :
    Fin 4 → Mat (Pixel t) := fun i =>
  { height := height
    width := width
    px := fun p => applyWrites (fun _ => 0) stores (i, p) }

/-- The shifts for 0, 45, 90 and 135 degrees. -/
structure Mosaic where
  xShifts : Fin 4 → ℤ
  yShifts : Fin 4 → ℤ

/-- `mMosaics`: even and odd rows, each with even and odd columns. -/
def mMosaics : Fin 4 → Mosaic
  | 0 => ⟨![1, 1, 0, 0], ![1, 0, 0, 1]⟩
  | 1 => ⟨![0, 0, 1, 1], ![1, 0, 0, 1]⟩
  | 2 => ⟨![1, 1, 0, 0], ![0, 1, 1, 0]⟩
  | 3 => ⟨![0, 0, 1, 1], ![0, 1, 1, 0]⟩

/-- One pixel of the loops of `expand`. -/
def expandAt (κ : Type) (y x : ℤ) : Expander κ Unit :=
  let sX := x % 2
  let sY := y % 2
  let m := mMosaics (Fin.ofNat 4 (sY * 2 + sX).toNat)
  (List.finRange 4).forM fun i => do
    Kernel.set (i, y, x) (← Kernel.get (y + m.yShifts i, x + m.xShifts i))

def expandKernel (κ : Type) (size : Size) : Expander κ Unit :=
  Kernel.forRaster (countUp 0 (size.height - 1) 1) (countUp 0 (size.width - 1) 1) (expandAt κ)

def expand {t : Depth} (image : Mat (Pixel t)) : Fin 4 → Mat (Pixel t) :=
  polarSet image.height image.width ((expandKernel _ image.size).writes image.px)

/-- One pixel of the loops of `expandEasy`. -/
def expandEasyAt (κ : Type) (y x : ℤ) : Expander κ Unit := do
  let y0 := 2 * y + 1
  let x0 := 2 * x + 1
  Kernel.set (0, y, x) (← Kernel.get (y0, x0))
  Kernel.set (1, y, x) (← Kernel.get (y0, x0 - 1))
  Kernel.set (2, y, x) (← Kernel.get (y0 - 1, x0 - 1))
  Kernel.set (3, y, x) (← Kernel.get (y0 - 1, x0))

/-- The size is that of the channels. -/
def expandEasyKernel (κ : Type) (size : Size) : Expander κ Unit :=
  Kernel.forRaster (countUp 0 size.height 1) (countUp 0 size.width 1) (expandEasyAt κ)

def expandEasy {t : Depth} (image : Mat (Pixel t)) : Fin 4 → Mat (Pixel t) :=
  polarSet (image.height / 2) (image.width / 2)
    ((expandEasyKernel _ ⟨(image.height / 2 : ℕ), (image.width / 2 : ℕ)⟩).writes image.px)

/-! ### The mosaic -/

/-- The mosaic of the square that starts at a pixel. -/
def mosaicAt (y x : ℤ) : Mosaic := mMosaics (Fin.ofNat 4 (y % 2 * 2 + x % 2).toNat)

/-- The filter of the pixel is the one of the channel. -/
def Measures (i : Fin 4) (p : ℤ × ℤ) : Prop :=
  (mosaicAt p.1 p.2).yShifts i = 0 ∧ (mosaicAt p.1 p.2).xShifts i = 0

def rowParity : Fin 4 → ℤ := ![1, 0, 0, 1]

def columnParity : Fin 4 → ℤ := ![1, 1, 0, 0]

theorem measures_iff {i : Fin 4} {p : ℤ × ℤ} :
    Measures i p ↔ p.1 % 2 = rowParity i ∧ p.2 % 2 = columnParity i := by
  obtain ⟨y, x⟩ := p
  have hy : y % 2 = 0 ∨ y % 2 = 1 := by omega
  have hx : x % 2 = 0 ∨ x % 2 = 1 := by omega
  simp only [Measures, mosaicAt]
  rcases hy with hy | hy <;> rcases hx with hx | hx <;> rw [hy, hx] <;> revert i <;> decide

/-! ### What is stored -/

theorem polarSet_px {t : Depth} {height width : ℕ} {stores : List ((Fin 4 × ℤ × ℤ) × Pixel t)}
    {i : Fin 4} {p : ℤ × ℤ} {v : Pixel t} (h : lastWrite (i, p) stores = some v) :
    (polarSet height width stores i).px p = v := by
  show applyWrites _ stores (i, p) = v
  rw [applyWrites_apply, h]
  rfl

section Easy

variable {t : Depth} {image : Mat (Pixel t)} {size : Size} {i : Fin 4} {y x : ℤ}

theorem writes_expandAt : (expandAt _ y x).writes image.px = (List.finRange 4).map fun i =>
    ((i, y, x), image.px (y + (mosaicAt y x).yShifts i, x + (mosaicAt y x).xShifts i)) := rfl

/-- The pixel of a square of the mosaic that becomes a pixel of the channel. -/
def easyAt (y x : ℤ) : Fin 4 → ℤ × ℤ
  | 0 => (2 * y + 1, 2 * x + 1)
  | 1 => (2 * y + 1, 2 * x + 1 - 1)
  | 2 => (2 * y + 1 - 1, 2 * x + 1 - 1)
  | 3 => (2 * y + 1 - 1, 2 * x + 1)

theorem writes_expandEasyAt : (expandEasyAt _ y x).writes image.px =
    (List.finRange 4).map fun i => ((i, y, x), image.px (easyAt y x i)) := rfl

/-- A loop over all pixels of the channels, with one store to each channel. -/
theorem lastWrite_forRaster {rows columns : ℤ} {g : ℤ → ℤ → Expander (Pixel t) Unit}
    {at' : ℤ → ℤ → Fin 4 → ℤ × ℤ} (hresult : ∀ y x, (g y x).result image.px = some ())
    (hwrites : ∀ y x, (g y x).writes image.px =
      (List.finRange 4).map fun i => ((i, y, x), image.px (at' y x i)))
    (hy : 0 ≤ y ∧ y < rows) (hx : 0 ≤ x ∧ x < columns) :
    lastWrite (i, y, x) ((Kernel.forRaster (countUp 0 rows 1) (countUp 0 columns 1) g).writes image.px) =
      some (image.px (at' y x i)) := by
  have hmem : ∀ w, w ∈ (Kernel.forRaster (countUp 0 rows 1) (countUp 0 columns 1) g).writes image.px ↔
      ∃ y ∈ countUp 0 rows 1, ∃ x ∈ countUp 0 columns 1, ∃ i : Fin 4,
        ((i, y, x), image.px (at' y x i)) = w := by
    intro w
    rw [Kernel.mem_writes_forRaster fun y _ x _ => hresult y x]
    simp only [hwrites, List.mem_map, List.mem_finRange, true_and]
  apply lastWrite_of_forall
  · refine (hmem _).mpr ⟨y, ?_, x, ?_, i, rfl⟩
    · exact (mem_countUp Int.one_pos).mpr ⟨hy.1, hy.2, Int.one_dvd _⟩
    · exact (mem_countUp Int.one_pos).mpr ⟨hx.1, hx.2, Int.one_dvd _⟩
  · intro v h
    obtain ⟨y', -, x', -, i', heq⟩ := (hmem _).mp h
    cases heq
    rfl

theorem expand_px (hy : 0 ≤ y ∧ y < image.height - 1) (hx : 0 ≤ x ∧ x < image.width - 1) :
    (expand image i).px (y, x) =
      image.px (y + (mosaicAt y x).yShifts i, x + (mosaicAt y x).xShifts i) :=
  polarSet_px (lastWrite_forRaster (fun _ _ => rfl) (fun _ _ => writes_expandAt) hy hx)

theorem expandEasy_px (h : Inside (expandEasy image i).size (y, x)) :
    (expandEasy image i).px (y, x) = image.px (easyAt y x i) :=
  polarSet_px (lastWrite_forRaster (fun _ _ => rfl) (fun _ _ => writes_expandEasyAt) ⟨h.1, h.2.1⟩ h.2.2)

/-- A pixel of a channel of `expandEasy` is the sample that `expand` takes for that channel from the
same square, if the channel is that of 0 or 90 degrees or the square has equal samples of 45 and 135
degrees. -/
theorem expandEasy_eq_expand_iff (h : Inside (expandEasy image i).size (y, x)) :
    (expandEasy image i).px (y, x) = (expand image i).px (2 * y, 2 * x) ↔
      i = 0 ∨ i = 2 ∨ image.px (2 * y, 2 * x + 1) = image.px (2 * y + 1, 2 * x) := by
  have hy : 0 ≤ 2 * y ∧ 2 * y < (image.height : ℤ) - 1 := by
    have hlt : y < (image.height / 2 : ℕ) := h.2.1
    have hpos : 0 ≤ y := h.1
    omega
  have hx : 0 ≤ 2 * x ∧ 2 * x < (image.width : ℤ) - 1 := by
    have hlt : x < (image.width / 2 : ℕ) := h.2.2.2
    have hpos : 0 ≤ x := h.2.2.1
    omega
  have hmosaic : mosaicAt (2 * y) (2 * x) = ⟨![1, 1, 0, 0], ![1, 0, 0, 1]⟩ := by
    have heven : 2 * y % 2 * 2 + 2 * x % 2 = 0 := by omega
    rw [mosaicAt, heven]
    rfl
  rw [expandEasy_px h, expand_px hy hx, hmosaic]
  fin_cases i
  · simp [easyAt]
  · simp [easyAt, eq_comm]
  · simp [easyAt]
  · simp [easyAt]

/-- One square of the mosaic with the samples 30, 20, 10 and 20 of 0, 45, 90 and 135 degrees. -/
def equalSquare : Mat (Pixel .u8) :=
  ⟨2, 2, fun p => if p = (0, 0) then 10 else if p = (1, 1) then 30 else 20⟩

theorem expandEasy_eq_expand_equalSquare :
    (expandEasy equalSquare 1).px (0, 0) = (expand equalSquare 1).px (2 * 0, 2 * 0) :=
  (expandEasy_eq_expand_iff ⟨by decide, by decide, by decide, by decide⟩).mpr (.inr (.inr rfl))

/-- One square of the mosaic with the sample 1 of 45 degrees, and 0 of the other angles. -/
def brightSquare : Mat (Pixel .u8) := ⟨2, 2, fun p => if p = (0, 1) then 1 else 0⟩

theorem not_expandEasy_eq_expand : ¬ ∀ (t : Depth) (image : Mat (Pixel t)), 2 ∣ image.height →
    2 ∣ image.width → 2 ≤ image.height → 2 ≤ image.width → ∀ (i : Fin 4) (y x : ℤ),
    Inside (expandEasy image i).size (y, x) →
    (expandEasy image i).px (y, x) = (expand image i).px (2 * y, 2 * x) := by
  intro h
  have heq := h .u8 brightSquare (by decide) (by decide) (le_refl 2) (le_refl 2) 1 0 0
    ⟨by decide, by decide, by decide, by decide⟩
  exact absurd heq (by decide)

end Easy

end TmkDcl.Libdclalgo
