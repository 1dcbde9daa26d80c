import TmkDcl.Libdclalgo.ExpandDebayerFast

/-!
# Interpolation without the boundaries (libdclalgo, PolarExpand.h)

`expandDebayerWithoutBoundaries` runs through the windows that lie in the image as a whole. A channel whose
windows begin in the second line has none in the first one, and one whose windows begin in the first line
has none in the last one and no window behind the last line of its samples.
-/

namespace TmkDcl.Libdclalgo

variable {t : Depth} {size : Size} {px : ℤ × ℤ → Pixel t} {i : Fin 4} {p : ℤ × ℤ}

def expandDebayerWithoutBoundariesKernel (t : Depth) (size : Size) : Expander (Pixel t) Unit :=
  Kernel.forRaster (countUp 0 (size.height - 1 - 2) 2) (countUp 0 (size.width - 1 - 2) 2) (innerWindowsAt t)

def expandDebayerWithoutBoundaries {t : Depth} (image : Mat (Pixel t)) : Fin 4 → Mat (Pixel t) :=
  polarSet image.height image.width ((expandDebayerWithoutBoundariesKernel t image.size).writes image.px)

/-- No window reaches the line `r` of `n`, for the windows that begin at `o` in `expandDebayer`. -/
def Unreached (n o r : ℤ) : Prop := o = -1 ∧ r = 0 ∨ o = 0 ∧ r = n - 1

/-- The last line of samples, behind which there is a window in `expandDebayer` only. -/
def LastSamples (n o r : ℤ) : Prop := o = 0 ∧ r = n - 2

/-! ### Lines -/

section Lines

variable {n o o' r z : ℤ} {d : Fin 3}

theorem LastLine.within (ho : o = -1 ∧ o' = 1 ∨ o = 0 ∧ o' = 0) (hn : 2 ∣ n) (hn6 : 6 ≤ n)
    (hr : 0 ≤ r ∧ r < n) (hreached : ¬ Unreached n o r)
    (hsamples : ¬ LastSamples n o r) (h : LastLine (countUp 0 (n - 1) 2) o r z d) :
    LastLine (countUp 0 (n - 1 - 2) 2) o' r (z + o - o') d := by
  have hmem := (mem_countUp (by decide)).mp h.mem
  have heq := h.eq
  have hd := d.isLt
  rw [Unreached] at hreached
  rw [LastSamples] at hsamples
  have htwo : o = -1 → z ≠ 0 := by
    intro hone hzero
    have hlast := h.last 2 ((mem_countUp (by decide)).mpr (by omega)) (by omega)
    omega
  refine ⟨(mem_countUp (by decide)).mpr (by omega), by omega, ?_⟩
  intro z' hz' hlt
  have hmem' := (mem_countUp (by decide)).mp hz'
  have hlast := h.last (z' + o' - o) ((mem_countUp (by decide)).mpr (by omega)) (by omega)
  omega

/-- The line of the last samples is the end of the window in front of it. -/
theorem LastSamples.line (hn : 2 ∣ n) (hn6 : 6 ≤ n) (h : LastSamples n o r) :
    LastLine (countUp 0 (n - 1 - 2) 2) 0 r (n - 4) 2 := by
  obtain ⟨-, hr⟩ := h
  refine ⟨(mem_countUp (by decide)).mpr (by omega), ?_, ?_⟩
  · show r = n - 4 + 0 + 2
    omega
  · intro z' hz' hlt
    have hmem' := (mem_countUp (by decide)).mp hz'
    omega

theorem Unreached.outside (ho : o = -1 ∧ o' = 1 ∨ o = 0 ∧ o' = 0) (hn : 2 ∣ n) (h : Unreached n o r) :
    ∀ z ∈ countUp 0 (n - 1 - 2) 2, ¬ (z + o' ≤ r ∧ r ≤ z + o' + 2) := by
  intro z hz hcovers
  have hmem := (mem_countUp (by decide)).mp hz
  rw [Unreached] at h
  omega

/-- The line that decides a line of the image, and that it has the samples of the line or is between them. -/
theorem exists_innerLine (ho : o = -1 ∧ o' = 1 ∨ o = 0 ∧ o' = 0) (hn : 2 ∣ n) (hn6 : 6 ≤ n)
    (hr : 0 ≤ r ∧ r < n) (hreached : ¬ Unreached n o r) :
    ∃ z d, LastLine (countUp 0 (n - 1 - 2) 2) o' r z d ∧ (2 ∣ r - o → d ≠ 1) := by
  by_cases hsamples : LastSamples n o r
  · have hline := hsamples.line hn hn6
    have ho' : o' = 0 := by
      have hzero := hsamples.1
      omega
    exact ⟨n - 4, 2, ho' ▸ hline, fun _ => by decide⟩
  · obtain ⟨z, d, hline⟩ := exists_lastLine (o := o) hn (by omega) hr
    exact ⟨_, d, hline.within ho hn hn6 hr hreached hsamples, hline.own⟩

end Lines

/-! ### The channels -/

section Channels

variable {y x : ℤ} {dy dx : Fin 3}

/-- The last window in the image that covers a pixel decides it. -/
theorem lastWrite_withoutBoundaries (hp : Inside size p)
    (hy : LastLine (countUp 0 (size.height - 1 - 2) 2) (innerOriginY i) p.1 y dy)
    (hx : LastLine (countUp 0 (size.width - 1 - 2) 2) (innerOriginX i) p.2 x dx) :
    lastWrite (i, p) ((expandDebayerWithoutBoundariesKernel t size).writes px) = some (cell px
      (windowSamples size px (x + innerOriginX i) (y + innerOriginY i)) (x + innerOriginX i)
      (y + innerOriginY i) dy dx) :=
  lastWrite_windows (countUp_sorted (by decide)) (countUp_sorted (by decide)) (inner_stores size px) hp hy hx

theorem polarSet_px_none {height width : ℕ} {stores : List ((Fin 4 × ℤ × ℤ) × Pixel t)}
    (h : lastWrite (i, p) stores = none) : (polarSet height width stores i).px p = 0 := by
  show applyWrites _ stores (i, p) = 0
  rw [applyWrites_apply, h]
  rfl

theorem within_biInterpolationWithOutBoundaries (hx : 0 ≤ x ∧ x < size.width - 2)
    (hy : 0 ≤ y ∧ y < size.height - 2) :
    (biInterpolationWithOutBoundaries t i x y).Within (Inside size) fun o => Inside size o.2 := by
  rw [biInterpolationWithOutBoundaries]
  refine (within_pixelAt ?_).bind fun _ => (within_pixelAt ?_).bind fun _ => (within_pixelAt ?_).bind
    fun _ => (within_pixelAt ?_).bind fun _ => (within_storeIf ?_).bind fun _ => (within_storeIf ?_).bind
    fun _ => (within_storeIf ?_).bind fun _ => (within_storeIf ?_).bind fun _ => (within_storeIf ?_).bind
    fun _ => (within_storeIf ?_).bind fun _ => (within_storeIf ?_).bind fun _ => (within_storeIf ?_).bind
    fun _ => within_storeIf ?_
  all_goals
    simp only [Inside, true_implies]
    omega

theorem within_withoutBoundaries :
    (expandDebayerWithoutBoundariesKernel t size).Within (Inside size) fun o => Inside size o.2 := by
  refine Kernel.within_forRaster fun y hy x hx => ?_
  have hy := (mem_countUp (by decide)).mp hy
  have hx := (mem_countUp (by decide)).mp hx
  refine (within_biInterpolationWithOutBoundaries ?_ ?_).bind fun _ =>
    (within_biInterpolationWithOutBoundaries ?_ ?_).bind fun _ =>
    (within_biInterpolationWithOutBoundaries ?_ ?_).bind fun _ =>
    within_biInterpolationWithOutBoundaries ?_ ?_
  all_goals omega

/-- No pixel outside the image is read or written. The pixels that no window reaches are 0, a pixel keeps the
sample of its own filter, and the others are those of `expandDebayer` but on the last line of samples. -/
theorem expandDebayerWithoutBoundaries_agrees (image : Mat (Pixel t)) (hh : 2 ∣ image.height)
    (hw : 2 ∣ image.width) (hh6 : 6 ≤ image.height) (hw6 : 6 ≤ image.width) :
    (expandDebayerWithoutBoundariesKernel t image.size).Within (Inside image.size)
      (fun o => Inside image.size o.2) ∧
    ∀ i p, Inside image.size p →
      (Unreached image.height (originY i) p.1 ∨ Unreached image.width (originX i) p.2 →
        (expandDebayerWithoutBoundaries image i).px p = 0) ∧
      (¬ Unreached image.height (originY i) p.1 → ¬ Unreached image.width (originX i) p.2 →
        ¬ LastSamples image.height (originY i) p.1 → ¬ LastSamples image.width (originX i) p.2 →
        (expandDebayerWithoutBoundaries image i).px p = (expandDebayer image i).px p) ∧
      (Measures i p → (expandDebayerWithoutBoundaries image i).px p = image.px p) := by
  have hheight : 6 ≤ image.size.height := Int.ofNat_le.mpr hh6
  have hwidth : 6 ≤ image.size.width := Int.ofNat_le.mpr hw6
  have hheight2 : 2 ∣ image.size.height := Int.natCast_dvd_natCast.mpr hh
  have hwidth2 : 2 ∣ image.size.width := Int.natCast_dvd_natCast.mpr hw
  refine ⟨within_withoutBoundaries, fun i p hp => ⟨fun h => ?_, fun hrow hcolumn hlastrow hlast => ?_,
    fun hown => ?_⟩⟩
  · apply polarSet_px_none
    apply lastWrite_windows_none (inner_stores image.size image.px)
    cases h with
    | inl hrow => exact .inl (hrow.outside (originY_cases i) hheight2)
    | inr hcolumn => exact .inr (hcolumn.outside (originX_cases i) hwidth2)
  · obtain ⟨y, dy, hy⟩ := exists_lastLine (n := image.size.height) (o := originY i) (r := p.1)
      hheight2 (by have := originY_cases i; omega) ⟨hp.1, hp.2.1⟩
    obtain ⟨x, dx, hx⟩ := exists_lastLine (n := image.size.width) (o := originX i) (r := p.2)
      hwidth2 (by have := originX_cases i; omega) hp.2.2
    have hinner : (expandDebayerWithoutBoundaries image i).px p = _ :=
      polarSet_px (lastWrite_withoutBoundaries hp
        (hy.within (originY_cases i) hheight2 hheight ⟨hp.1, hp.2.1⟩ hrow hlastrow)
        (hx.within (originX_cases i) hwidth2 hwidth hp.2.2 hcolumn hlast))
    have hplain : (expandDebayer image i).px p = _ :=
      polarSet_px (lastWrite_expandDebayer hwidth hheight hp hy hx)
    rw [hinner, hplain, Int.sub_add_cancel, Int.sub_add_cancel]
  · rw [measures_iff_dvd] at hown
    have hoy := originY_cases i
    have hox := originX_cases i
    have hrow : ¬ Unreached image.size.height (originY i) p.1 := by
      rw [Unreached]
      omega
    have hcolumn : ¬ Unreached image.size.width (originX i) p.2 := by
      rw [Unreached]
      omega
    obtain ⟨y, dy, hy, hdy⟩ := exists_innerLine hoy hheight2 hheight ⟨hp.1, hp.2.1⟩ hrow
    obtain ⟨x, dx, hx, hdx⟩ := exists_innerLine hox hwidth2 hwidth hp.2.2 hcolumn
    have hinner : (expandDebayerWithoutBoundaries image i).px p = _ :=
      polarSet_px (lastWrite_withoutBoundaries hp hy hx)
    rw [hinner, cell_corner (hdy hown.1) (hdx hown.2), ← hy.eq, ← hx.eq]

theorem expandDebayerWithoutBoundaries_rampImage :
    (expandDebayerWithoutBoundaries rampImage 2).px (5, 2) = 0 ∧
      (expandDebayerWithoutBoundaries rampImage 2).px (3, 2) = (expandDebayer rampImage 2).px (3, 2) := by
  have h := (expandDebayerWithoutBoundaries_agrees rampImage (by decide) (by decide) (le_refl 6) (le_refl 6)).2
  exact ⟨(h 2 (5, 2) ⟨by decide, by decide, by decide, by decide⟩).1 (.inl (.inr ⟨by decide, by decide⟩)),
    (h 2 (3, 2) ⟨by decide, by decide, by decide, by decide⟩).2.1 (by simp [Unreached, originY, rampImage])
      (by simp [Unreached, originX, rampImage]) (by simp [LastSamples, originY, rampImage])
      (by simp [LastSamples, originX, rampImage])⟩

end Channels

end TmkDcl.Libdclalgo
