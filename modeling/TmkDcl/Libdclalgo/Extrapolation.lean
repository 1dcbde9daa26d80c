import Mathlib.Order.Bounds.Basic
import TmkDcl.Libdclalgo.ExpandDebayerFast

/-!
# The masked extrapolation (libdclalgo, PolarExpand.h)

`calculateValue` never extrapolates below its first sample, but the mask makes a value that does not fit
into a pixel a dark one. Where every extrapolation fits, no pixel of `expandDebayer` is below those of
the image.
-/

namespace TmkDcl.Libdclalgo

variable {t : Depth} {size : Size} {px : ℤ × ℤ → Pixel t} {i : Fin 4} {x y m : ℤ} {dy dx : Fin 3}

/-- A window of the channel has a corner that is extrapolated from the samples `p` and `q`. -/
def Extrapolates (size : Size) (i : Fin 4) (p q : ℤ × ℤ) : Prop :=
  ∃ y ∈ countUp 0 (size.height - 1) 2, ∃ x ∈ countUp 0 (size.width - 1) 2, ∃ k,
    corners size (x + originX i) (y + originY i) = some k ∧
      Corner.extrapolated p q ∈ [k.a, k.b, k.c, k.d]

/-- No extrapolation at the border leaves the range of the pixels. -/
def Fits (size : Size) (px : ℤ × ℤ → Pixel t) : Prop :=
  ∀ i p q, Extrapolates size i p q → extrapolate (px p).val (px q).val < 2 ^ t.bits

/-! ### The mask -/

/-- The samples that a corner is made of are not below `m`. -/
def Corner.AtLeast (px : ℤ × ℤ → Pixel t) (m : ℤ) : Corner → Prop
  | .sample p => m ≤ (px p).val
  | .extrapolated p q => m ≤ (px p).val ∧ extrapolate (px p).val (px q).val < 2 ^ t.bits

/-- The corners of a window go up from samples of the image, and fit. -/
theorem Fits.atLeast {m : Pixel t} (h : Fits size px) (hm : ∀ p, Inside size p → m ≤ px p)
    (hw : 6 ≤ size.width) (hh : 6 ≤ size.height) (hy : y ∈ countUp 0 (size.height - 1) 2)
    (hx : x ∈ countUp 0 (size.width - 1) 2) : ∃ k,
      corners size (x + originX i) (y + originY i) = some k ∧
        ∀ c ∈ [k.a, k.b, k.c, k.d], c.AtLeast px m.val := by
  have hoy := originY_cases i
  have hox := originX_cases i
  have hyb := lines_bounds hy
  have hxb := lines_bounds hx
  obtain ⟨-, k, hk, ha, hb, hc, hd⟩ := corners_inside (x := x + originX i) (y := y + originY i) hw hh
    (by omega) (by omega)
  refine ⟨k, hk, fun c hmem => ?_⟩
  have hinside : c.Inside size := by
    simp only [List.mem_cons, List.not_mem_nil, or_false] at hmem
    rcases hmem with rfl | rfl | rfl | rfl
    · exact ha
    · exact hb
    · exact hc
    · exact hd
  cases c with
  | sample p => exact Int.ofNat_le.mpr (hm p hinside)
  | extrapolated p q =>
    exact ⟨Int.ofNat_le.mpr (hm p hinside.1), h i p q ⟨y, hy, x, hx, k, hk, hmem⟩⟩

end TmkDcl.Libdclalgo
