import TmkDcl.Libdclalgo.ExpandDebayer

/-!
# What the interpolation leaves in a pixel (libdclalgo, PolarExpand.h)

The windows of a channel start at every second row and column, and a pixel holds what the last window
that covers it stores. `expandDebayer` and `expandDebayer_fast` run through the same windows in
different orders.
-/

namespace TmkDcl.Libdclalgo

variable {t : Depth} {size : Size} {px : ℤ × ℤ → Pixel t} {i : Fin 4} {p : ℤ × ℤ}

/-- The rows of the windows of a channel, from the counter of the loops. -/
def originY : Fin 4 → ℤ := ![-1, 0, 0, -1]

def originX : Fin 4 → ℤ := ![-1, -1, 0, 0]

def innerOriginY : Fin 4 → ℤ := ![1, 0, 0, 1]

def innerOriginX : Fin 4 → ℤ := ![1, 1, 0, 0]

theorem originY_cases (i : Fin 4) :
    originY i = -1 ∧ innerOriginY i = 1 ∨ originY i = 0 ∧ innerOriginY i = 0 := by
  revert i
  decide

theorem originX_cases (i : Fin 4) :
    originX i = -1 ∧ innerOriginX i = 1 ∨ originX i = 0 ∧ innerOriginX i = 0 := by
  revert i
  decide

theorem measures_iff_dvd : Measures i p ↔ 2 ∣ p.1 - originY i ∧ 2 ∣ p.2 - originX i := by
  have hrow : ∀ i, originY i % 2 = rowParity i := by decide
  have hcolumn : ∀ i, originX i % 2 = columnParity i := by decide
  rw [measures_iff, ← hrow, ← hcolumn]
  omega

/-! ### The windows of the four channels at one position -/

/-- The corners of a window, when it has them. -/
def windowSamples (size : Size) (px : ℤ × ℤ → Pixel t) (x y : ℤ) : Samples :=
  match corners size x y with
  | some k => k.values px
  | none => ⟨0, 0, 0, 0⟩

/-- The program stores one window for each channel. -/
structure Stores (size : Size) (px : ℤ × ℤ → Pixel t) (x y : Fin 4 → ℤ)
    (g : Expander (Pixel t) Unit) : Prop where
  result : g.result px = some ()
  writes : g.writes px = (List.finRange 4).flatMap fun i =>
    windowStores size i px (windowSamples size px (x i) (y i)) (x i) (y i)

theorem stores_four {x y : Fin 4 → ℤ} {g : Fin 4 → Expander (Pixel t) Unit}
    (h : ∀ i, (g i).result px = some () ∧ (g i).writes px =
      windowStores size i px (windowSamples size px (x i) (y i)) (x i) (y i)) :
    Stores size px x y (do g 0; g 1; g 2; g 3) := by
  constructor
  · simp only [Kernel.result_bind, (h _).1, Option.bind_some]
  · simp only [Kernel.writes_bind, (h _).1, Option.map_some, Option.getD_some, (h _).2]
    simp [List.finRange_succ]

theorem biInterpolation_stores {x y : ℤ} (hw : 6 ≤ size.width) (hh : 6 ≤ size.height)
    (hx : -1 ≤ x ∧ x ≤ size.width - 2) (hy : -1 ≤ y ∧ y ≤ size.height - 2) :
    (biInterpolation t size i x y).result px = some () ∧ (biInterpolation t size i x y).writes px =
      windowStores size i px (windowSamples size px x y) x y := by
  obtain ⟨-, k, hk, -⟩ := corners_inside hw hh hx hy
  rw [windowSamples, hk]
  exact biInterpolation_spec hk hx hy

theorem windowsAt_stores {y x : ℤ} (hw : 6 ≤ size.width) (hh : 6 ≤ size.height)
    (hy : 0 ≤ y ∧ y ≤ size.height - 2) (hx : 0 ≤ x ∧ x ≤ size.width - 2) :
    Stores size px (fun i => x + originX i) (fun i => y + originY i) (windowsAt t size y x) := by
  have hwindows : windowsAt t size y x = (do
      biInterpolation t size 0 (x + originX 0) (y + originY 0)
      biInterpolation t size 1 (x + originX 1) (y + originY 1)
      biInterpolation t size 2 (x + originX 2) (y + originY 2)
      biInterpolation t size 3 (x + originX 3) (y + originY 3)) := by
    simp [windowsAt, originX, originY, Int.sub_eq_add_neg]
  rw [hwindows]
  refine stores_four (g := fun i => biInterpolation t size i (x + originX i) (y + originY i)) ?_
  intro i
  have hoy := originY_cases i
  have hox := originX_cases i
  exact biInterpolation_stores hw hh (by omega) (by omega)

theorem innerWindowsAt_stores {y x : ℤ} (hy : 0 ≤ y ∧ y < size.height - 3)
    (hx : 0 ≤ x ∧ x < size.width - 3) :
    Stores size px (fun i => x + innerOriginX i) (fun i => y + innerOriginY i)
      (innerWindowsAt t y x) := by
  have hwindows : innerWindowsAt t y x = (do
      biInterpolationWithOutBoundaries t 0 (x + innerOriginX 0) (y + innerOriginY 0)
      biInterpolationWithOutBoundaries t 1 (x + innerOriginX 1) (y + innerOriginY 1)
      biInterpolationWithOutBoundaries t 2 (x + innerOriginX 2) (y + innerOriginY 2)
      biInterpolationWithOutBoundaries t 3 (x + innerOriginX 3) (y + innerOriginY 3)) := by
    simp [innerWindowsAt, innerOriginX, innerOriginY]
  rw [hwindows]
  refine stores_four
    (g := fun i => biInterpolationWithOutBoundaries t i (x + innerOriginX i) (y + innerOriginY i)) ?_
  intro i
  have hoy := originY_cases i
  have hox := originX_cases i
  have hinx : 0 ≤ x + innerOriginX i ∧ x + innerOriginX i < size.width - 2 := by omega
  have hiny : 0 ≤ y + innerOriginY i ∧ y + innerOriginY i < size.height - 2 := by omega
  have hk := corners_inner hinx hiny
  rw [windowSamples, hk]
  exact biInterpolationWithOutBoundaries_spec hinx hiny hk

namespace Stores

variable {x y : Fin 4 → ℤ} {g : Expander (Pixel t) Unit} {dy dx : Fin 3}

theorem lastWrite_some (hg : Stores size px x y g) (hp : Inside size p) (hrow : p.1 = y i + (dy.val : ℤ))
    (hcolumn : p.2 = x i + (dx.val : ℤ)) : lastWrite (i, p) (g.writes px) =
      some (cell px (windowSamples size px (x i) (y i)) (x i) (y i) dy dx) := by
  obtain ⟨r, c⟩ := p
  simp only at hrow hcolumn
  subst hrow hcolumn
  rw [hg.writes]
  refine lastWrite_flatMap (List.pairwise_lt_finRange 4) (List.mem_finRange i)
    (lastWrite_windowStores hp) ?_
  intro j _ hij
  exact lastWrite_windowStores_none (.inl (Fin.ne_of_lt hij))

theorem lastWrite_none (hg : Stores size px x y g) (h : ¬ Covers (y i) (x i) p) :
    lastWrite (i, p) (g.writes px) = none := by
  rw [hg.writes]
  refine lastWrite_flatMap_none fun j _ => ?_
  by_cases hj : i = j
  · subst hj
    exact lastWrite_windowStores_none (.inr h)
  · exact lastWrite_windowStores_none (.inl hj)

end Stores

/-! ### The last window -/

/-- The window line that decides a row (or a column) of a channel, and where the row is in it. -/
structure LastLine (lines : List ℤ) (o r y : ℤ) (d : Fin 3) : Prop where
  mem : y ∈ lines
  eq : r = y + o + (d.val : ℤ)
  last : ∀ y' ∈ lines, y < y' → r < y' + o

section Raster

variable {rows columns : List ℤ} {oy ox : Fin 4 → ℤ} {g : ℤ → ℤ → Expander (Pixel t) Unit} {y x : ℤ}
  {dy dx : Fin 3}

theorem lastWrite_windows (hrows : rows.Pairwise (· < ·)) (hcolumns : columns.Pairwise (· < ·))
    (hg : ∀ y ∈ rows, ∀ x ∈ columns, Stores size px (fun i => x + ox i) (fun i => y + oy i) (g y x))
    (hp : Inside size p) (hy : LastLine rows (oy i) p.1 y dy) (hx : LastLine columns (ox i) p.2 x dx) :
    lastWrite (i, p) ((Kernel.forRaster rows columns g).writes px) =
      some (cell px (windowSamples size px (x + ox i) (y + oy i)) (x + ox i) (y + oy i) dy dx) := by
  rw [(Kernel.writes_forRaster fun y hy x hx => (hg y hy x hx).result).2]
  refine lastWrite_flatMap (s := (y, x)) (raster_sorted hrows hcolumns)
    (mem_raster.mpr ⟨hy.mem, hx.mem⟩) ((hg y hy.mem x hx.mem).lastWrite_some hp hy.eq hx.eq) ?_
  intro q hq hlater
  rw [mem_raster] at hq
  refine (hg q.1 hq.1 q.2 hq.2).lastWrite_none ?_
  intro hcovers
  cases hlater with
  | left _ _ hlt => exact absurd hcovers.1.1 (Int.not_le.mpr (hy.last _ hq.1 hlt))
  | right _ hlt => exact absurd hcovers.2.1 (Int.not_le.mpr (hx.last _ hq.2 hlt))

theorem lastWrite_windows_none
    (hg : ∀ y ∈ rows, ∀ x ∈ columns, Stores size px (fun i => x + ox i) (fun i => y + oy i) (g y x))
    (h : (∀ y ∈ rows, ¬ (y + oy i ≤ p.1 ∧ p.1 ≤ y + oy i + 2)) ∨
      ∀ x ∈ columns, ¬ (x + ox i ≤ p.2 ∧ p.2 ≤ x + ox i + 2)) :
    lastWrite (i, p) ((Kernel.forRaster rows columns g).writes px) = none := by
  rw [(Kernel.writes_forRaster fun y hy x hx => (hg y hy x hx).result).2]
  refine lastWrite_flatMap_none fun q hq => ?_
  rw [mem_raster] at hq
  refine (hg q.1 hq.1 q.2 hq.2).lastWrite_none ?_
  intro hcovers
  cases h with
  | inl hrow => exact hrow q.1 hq.1 hcovers.1
  | inr hcolumn => exact hcolumn q.2 hq.2 hcovers.2

end Raster

theorem exists_lastLine {n o r : ℤ} (hn : 2 ∣ n) (ho : o = -1 ∨ o = 0) (hr : 0 ≤ r ∧ r < n) :
    ∃ y d, LastLine (countUp 0 (n - 1) 2) o r y d := by
  have hmem : ∀ z, z ∈ countUp 0 (n - 1) 2 ↔ 0 ≤ z ∧ z < n - 1 ∧ 2 ∣ z - 0 := fun z =>
    mem_countUp (by decide)
  by_cases hend : r - o = n
  · refine ⟨n - 2, 2, (hmem _).mpr (by omega), ?_, ?_⟩
    · show r = n - 2 + o + 2
      omega
    · intro y' hy' hlt
      have := (hmem y').mp hy'
      omega
  by_cases hown : 2 ∣ r - o
  · refine ⟨r - o, 0, (hmem _).mpr (by omega), ?_, ?_⟩
    · show r = r - o + o + 0
      omega
    · intro y' hy' hlt
      omega
  · refine ⟨r - o - 1, 1, (hmem _).mpr (by omega), ?_, ?_⟩
    · show r = r - o - 1 + o + 1
      omega
    · intro y' hy' hlt
      have := (hmem y').mp hy'
      omega

theorem LastLine.middle {n o y : ℤ} (hy : y ∈ countUp 0 (n - 1) 2) :
    LastLine (countUp 0 (n - 1) 2) o (y + o + 1) y 1 := by
  refine ⟨hy, rfl, ?_⟩
  intro y' hy' hlt
  have hmem := (mem_countUp (by decide)).mp hy
  have hmem' := (mem_countUp (by decide)).mp hy'
  omega

theorem lastLine_second {n o : ℤ} (hn : 6 ≤ n) : LastLine (countUp 0 (n - 1) 2) o (2 + o) 2 0 := by
  refine ⟨(mem_countUp (by decide)).mpr (by omega), (Int.add_zero _).symm, ?_⟩
  intro y' _ hlt
  omega

theorem LastLine.of_second {n o r y : ℤ} {d : Fin 3} (hn : 6 ≤ n) (hr : r = 2 + o)
    (h : LastLine (countUp 0 (n - 1) 2) o r y d) : y = 2 ∧ d = 0 := by
  have hmem := (mem_countUp (by decide)).mp h.mem
  have heq := h.eq
  have hd := d.isLt
  have hnot : ¬ y < 2 := by
    intro hlt
    have hlast := h.last 2 (lastLine_second (o := o) hn).mem hlt
    omega
  exact ⟨by omega, Fin.ext (by show d.val = 0; omega)⟩

/-! ### expandDebayer -/

section Debayer

variable {image : Mat (Pixel t)} {y x : ℤ} {dy dx : Fin 3}

theorem windows_stores (px : ℤ × ℤ → Pixel t) (hw : 6 ≤ size.width) (hh : 6 ≤ size.height)
    {rows columns : List ℤ} (hrows : ∀ y ∈ rows, 0 ≤ y ∧ y ≤ size.height - 2)
    (hcolumns : ∀ x ∈ columns, 0 ≤ x ∧ x ≤ size.width - 2) :
    ∀ y ∈ rows, ∀ x ∈ columns, Stores size px (fun i => x + originX i) (fun i => y + originY i)
      (windowsAt t size y x) :=
  fun y hy x hx => windowsAt_stores hw hh (hrows y hy) (hcolumns x hx)

theorem lines_bounds {n : ℤ} {z : ℤ} (hz : z ∈ countUp 0 (n - 1) 2) : 0 ≤ z ∧ z ≤ n - 2 := by
  have hmem := (mem_countUp (by decide)).mp hz
  omega

/-- The last window of the loops over all windows that covers a pixel decides it. -/
theorem lastWrite_expandDebayer (hw : 6 ≤ size.width) (hh : 6 ≤ size.height) (hp : Inside size p)
    (hy : LastLine (countUp 0 (size.height - 1) 2) (originY i) p.1 y dy)
    (hx : LastLine (countUp 0 (size.width - 1) 2) (originX i) p.2 x dx) :
    lastWrite (i, p) ((expandDebayerKernel t size).writes px) = some (cell px
      (windowSamples size px (x + originX i) (y + originY i)) (x + originX i) (y + originY i) dy dx) :=
  lastWrite_windows (countUp_sorted (by decide)) (countUp_sorted (by decide))
    (windows_stores px hw hh (fun _ => lines_bounds) fun _ => lines_bounds) hp hy hx

theorem within_pixelAt (hp : Inside size p) :
    (pixelAt t p).Within (Inside size) fun o => Inside size o.2 := by
  rw [pixelAt]
  exact (Kernel.within_get.mpr hp).bind fun _ => Kernel.within_pure _

theorem within_calculate {k : Corner} (hk : k.Inside size) :
    (k.calculate t).Within (Inside size) fun o => Inside size o.2 := by
  cases k with
  | sample p => exact within_pixelAt hk
  | extrapolated p q =>
    rw [Corner.calculate]
    exact (within_pixelAt hk.1).bind fun _ => (within_pixelAt hk.2).bind fun _ => Kernel.within_pure _

theorem within_storeIf {q : Prop} [Decidable q] {row column v : ℤ} (h : q → Inside size (row, column)) :
    (storeIf t i q row column v).Within (Inside size) fun o => Inside size o.2 := by
  rw [storeIf]
  split
  · rename_i hq
    exact Kernel.within_set.mpr (h hq)
  · exact Kernel.within_pure _

theorem within_copyIf {q : Prop} [Decidable q] {row column : ℤ} (h : q → Inside size (row, column)) :
    (copyIf t i q row column).Within (Inside size) fun o => Inside size o.2 := by
  rw [copyIf]
  split
  · rename_i hq
    exact (Kernel.within_get.mpr (h hq)).bind fun _ => Kernel.within_set.mpr (h hq)
  · exact Kernel.within_pure _

theorem within_biInterpolation (hw : 6 ≤ size.width) (hh : 6 ≤ size.height)
    (hx : -1 ≤ x ∧ x ≤ size.width - 2) (hy : -1 ≤ y ∧ y ≤ size.height - 2) :
    (biInterpolation t size i x y).Within (Inside size) fun o => Inside size o.2 := by
  obtain ⟨-, k, hk, ha, hb, hc, hd⟩ := corners_inside hw hh hx hy
  rw [biInterpolation, calculateABCD, hk]
  refine Kernel.Within.bind ?_ ?_
  · refine (within_calculate ha).bind fun a => (within_calculate hb).bind fun b => ?_
    exact (within_calculate hc).bind fun c => (within_calculate hd).bind fun d => Kernel.within_pure _
  intro s
  refine (within_copyIf ?_).bind fun _ => (within_storeIf ?_).bind fun _ => (within_copyIf ?_).bind
    fun _ => (within_storeIf ?_).bind fun _ => (within_storeIf ?_).bind fun _ => (within_storeIf ?_).bind
    fun _ => (within_copyIf ?_).bind fun _ => (within_storeIf ?_).bind fun _ => within_copyIf ?_
  all_goals
    intro hq
    simp only [Inside]
    omega

theorem within_expandDebayer (hw : 6 ≤ size.width) (hh : 6 ≤ size.height) :
    (expandDebayerKernel t size).Within (Inside size) fun o => Inside size o.2 := by
  refine Kernel.within_forRaster fun y hy x hx => ?_
  have hy := lines_bounds hy
  have hx := lines_bounds hx
  refine (within_biInterpolation hw hh ?_ ?_).bind fun _ => (within_biInterpolation hw hh ?_ ?_).bind
    fun _ => (within_biInterpolation hw hh ?_ ?_).bind fun _ => within_biInterpolation hw hh ?_ ?_
  all_goals omega

theorem cell_corner {s : Samples} (hdy : dy ≠ 1) (hdx : dx ≠ 1) :
    cell px s x y dy dx = px (y + (dy.val : ℤ), x + (dx.val : ℤ)) := by
  fin_cases dy <;> fin_cases dx <;> first | rfl | contradiction

theorem LastLine.own {n o r y : ℤ} {d : Fin 3} (h : LastLine (countUp 0 (n - 1) 2) o r y d)
    (hown : 2 ∣ r - o) : d ≠ 1 := by
  intro hd
  have hr := h.eq
  have hy := (mem_countUp (by decide)).mp h.mem
  rw [hd] at hr
  have hone : ((1 : Fin 3).val : ℤ) = 1 := rfl
  omega

/-- The loops stay inside the image, every window is one of the nine cases, every pixel of the channels
is stored and a pixel keeps the sample of its own filter. -/
theorem expandDebayer_covers (image : Mat (Pixel t)) (hh : 2 ∣ image.height) (hw : 2 ∣ image.width)
    (hh6 : 6 ≤ image.height) (hw6 : 6 ≤ image.width) :
    (expandDebayerKernel t image.size).Within (Inside image.size) (fun o => Inside image.size o.2) ∧
    (∀ y ∈ countUp 0 (image.height - 1) 2, ∀ x ∈ countUp 0 (image.width - 1) 2,
      ∀ origin ∈ [(x - 1, y - 1), (x - 1, y), (x, y), (x, y - 1)],
        selectCase origin.1 origin.2 image.width image.height ∈ [11, 21, 31, 12, 22, 32, 13, 23, 33]) ∧
    ∀ i p, Inside image.size p →
      (∃ v, ((i, p), v) ∈ (expandDebayerKernel t image.size).writes image.px) ∧
      (Measures i p → (expandDebayer image i).px p = image.px p) := by
  have hheight : 6 ≤ image.size.height := Int.ofNat_le.mpr hh6
  have hwidth : 6 ≤ image.size.width := Int.ofNat_le.mpr hw6
  refine ⟨within_expandDebayer hwidth hheight, ?_, ?_⟩
  · intro y hy x hx origin horigin
    have hy := lines_bounds hy
    have hx := lines_bounds hx
    have hcase : ∀ x' y', -1 ≤ x' ∧ x' ≤ image.size.width - 2 → -1 ≤ y' ∧ y' ≤ image.size.height - 2 →
        selectCase x' y' image.width image.height ∈ [11, 21, 31, 12, 22, 32, 13, 23, 33] :=
      fun x' y' hx' hy' => (corners_inside hwidth hheight hx' hy').1
    simp only [Mat.size] at hcase
    simp only [List.mem_cons, List.not_mem_nil, or_false] at horigin
    rcases horigin with rfl | rfl | rfl | rfl
    all_goals exact hcase _ _ (by omega) (by omega)
  intro i p hp
  obtain ⟨y, dy, hy⟩ := exists_lastLine (n := image.size.height) (o := originY i) (r := p.1)
    (Int.natCast_dvd_natCast.mpr hh) (by have := originY_cases i; omega) ⟨hp.1, hp.2.1⟩
  obtain ⟨x, dx, hx⟩ := exists_lastLine (n := image.size.width) (o := originX i) (r := p.2)
    (Int.natCast_dvd_natCast.mpr hw) (by have := originX_cases i; omega) hp.2.2
  have hlast : lastWrite (i, p) ((expandDebayerKernel t image.size).writes image.px) = some _ :=
    lastWrite_expandDebayer hwidth hheight hp hy hx
  refine ⟨⟨_, mem_of_lastWrite hlast⟩, ?_⟩
  intro hown
  rw [measures_iff_dvd] at hown
  have hpx : (expandDebayer image i).px p = _ := polarSet_px hlast
  rw [hpx, cell_corner (hy.own hown.1) (hx.own hown.2), ← hy.eq, ← hx.eq]

/-- Six rows and columns of the mosaic. -/
def rampImage : Mat (Pixel .u8) := ⟨6, 6, fun p => toPixel .u8 (10 * p.1 + p.2)⟩

theorem expandDebayer_covers_rampImage :
    (expandDebayer rampImage 0).px (1, 1) = rampImage.px (1, 1) :=
  ((expandDebayer_covers rampImage (by decide) (by decide) (le_refl 6) (le_refl 6)).2.2 0 (1, 1)
    ⟨by decide, by decide, by decide, by decide⟩).2 ⟨by decide, by decide⟩

end Debayer

/-! ### expandDebayer_fast -/

section Fast

variable {y x : ℤ} {dy dx : Fin 3}

theorem LastLine.single {o r z : ℤ} {d : Fin 3} (h : r = z + o + (d.val : ℤ)) :
    LastLine [z] o r z d := by
  refine ⟨List.mem_singleton.mpr rfl, h, ?_⟩
  intro z' hz' hlt
  rw [List.mem_singleton] at hz'
  omega

theorem single_bounds {n z : ℤ} (hz : 0 ≤ z ∧ z ≤ n - 2) : ∀ z' ∈ [z], 0 ≤ z' ∧ z' ≤ n - 2 := by
  intro z' hz'
  rw [List.mem_singleton] at hz'
  omega

/-- What the inner windows store. -/
abbrev innerWrites (size : Size) (px : ℤ × ℤ → Pixel t) : List ((Fin 4 × ℤ × ℤ) × Pixel t) :=
  (Kernel.forRaster (countUp 0 (size.height - 1 - 2) 2) (countUp 0 (size.width - 1 - 2) 2)
    (innerWindowsAt t)).writes px

/-- What the windows of one of the other loops store. -/
abbrev windowWrites (size : Size) (px : ℤ × ℤ → Pixel t) (rows columns : List ℤ) :
    List ((Fin 4 × ℤ × ℤ) × Pixel t) :=
  (Kernel.forRaster rows columns (windowsAt t size)).writes px

theorem inner_stores (size : Size) (px : ℤ × ℤ → Pixel t) :
    ∀ y ∈ countUp 0 (size.height - 1 - 2) 2, ∀ x ∈ countUp 0 (size.width - 1 - 2) 2,
    Stores size px (fun i => x + innerOriginX i) (fun i => y + innerOriginY i)
      (innerWindowsAt t y x) := by
  intro y hy x hx
  have hy := (mem_countUp (by decide)).mp hy
  have hx := (mem_countUp (by decide)).mp hx
  exact innerWindowsAt_stores (by omega) (by omega)

/-- A later loop decides a pixel before an earlier one. -/
theorem lastWrite_expandDebayerFast (hw : 6 ≤ size.width) (hh : 6 ≤ size.height) :
    lastWrite (i, p) ((expandDebayerFastKernel t size).writes px) =
      ((((lastWrite (i, p) (windowWrites size px (countUp 0 (size.height - 1) 2) [0])).or
        (lastWrite (i, p) (windowWrites size px (countUp 0 (size.height - 1) 2) [size.width - 2]))).or
        (lastWrite (i, p) (windowWrites size px [size.height - 2] (countUp 0 (size.width - 1) 2)))).or
        (lastWrite (i, p) (windowWrites size px [0] (countUp 0 (size.width - 1) 2)))).or
        (lastWrite (i, p) (innerWrites size px)) := by
  have hinner := (Kernel.writes_forRaster fun y hy x hx =>
    (inner_stores size px y hy x hx).result).1
  have hwindows : ∀ rows columns : List ℤ, (∀ y ∈ rows, 0 ≤ y ∧ y ≤ size.height - 2) →
      (∀ x ∈ columns, 0 ≤ x ∧ x ≤ size.width - 2) →
      (Kernel.forRaster rows columns (windowsAt t size)).result px = some () := by
    intro rows columns hrows hcolumns
    exact (Kernel.writes_forRaster fun y hy x hx =>
      (windows_stores px hw hh hrows hcolumns y hy x hx).result).1
  rw [expandDebayerFastKernel, Kernel.writes_bind_of hinner,
    Kernel.writes_bind_of (hwindows _ _ (single_bounds (by omega)) fun _ => lines_bounds),
    Kernel.writes_bind_of (hwindows _ _ (single_bounds (by omega)) fun _ => lines_bounds),
    Kernel.writes_bind_of (hwindows _ _ (fun _ => lines_bounds) (single_bounds (by omega)))]
  simp only [lastWrite_append]

theorem lastWrite_firstColumn (hw : 6 ≤ size.width) (hh : 6 ≤ size.height) (hp : Inside size p)
    (hy : LastLine (countUp 0 (size.height - 1) 2) (originY i) p.1 y dy)
    (hx : p.2 = 0 + originX i + (dx.val : ℤ)) :
    lastWrite (i, p) ((expandDebayerFastKernel t size).writes px) = some (cell px
      (windowSamples size px (0 + originX i) (y + originY i)) (0 + originX i) (y + originY i) dy dx) := by
  have hstores := windows_stores px hw hh (fun _ => lines_bounds)
    (single_bounds (n := size.width) (z := 0) (by omega))
  rw [lastWrite_expandDebayerFast hw hh, windowWrites, lastWrite_windows (countUp_sorted (by decide))
    (List.pairwise_singleton _ _) hstores hp hy (LastLine.single hx)]
  rfl

/-- The first and the last column of windows do not reach a pixel between them. -/
theorem lastWrite_column_none (hw : 6 ≤ size.width) (hh : 6 ≤ size.height) {z : ℤ}
    (hz : 0 ≤ z ∧ z ≤ size.width - 2) (hx : ¬ (z + originX i ≤ p.2 ∧ p.2 ≤ z + originX i + 2)) :
    lastWrite (i, p) (windowWrites size px (countUp 0 (size.height - 1) 2) [z]) = none := by
  refine lastWrite_windows_none (windows_stores px hw hh (fun _ => lines_bounds) (single_bounds hz))
    (.inr ?_)
  intro z' hz'
  rw [List.mem_singleton.mp hz']
  exact hx

theorem lastWrite_row_none (hw : 6 ≤ size.width) (hh : 6 ≤ size.height) {z : ℤ}
    (hz : 0 ≤ z ∧ z ≤ size.height - 2) (hy : ¬ (z + originY i ≤ p.1 ∧ p.1 ≤ z + originY i + 2)) :
    lastWrite (i, p) (windowWrites size px [z] (countUp 0 (size.width - 1) 2)) = none := by
  refine lastWrite_windows_none (windows_stores px hw hh (single_bounds hz) fun _ => lines_bounds)
    (.inl ?_)
  intro z' hz'
  rw [List.mem_singleton.mp hz']
  exact hy

theorem lastWrite_lastColumn (hw : 6 ≤ size.width) (hh : 6 ≤ size.height) (hp : Inside size p)
    (hy : LastLine (countUp 0 (size.height - 1) 2) (originY i) p.1 y dy)
    (hx : p.2 = size.width - 2 + originX i + (dx.val : ℤ)) :
    lastWrite (i, p) ((expandDebayerFastKernel t size).writes px) = some (cell px
      (windowSamples size px (size.width - 2 + originX i) (y + originY i))
      (size.width - 2 + originX i) (y + originY i) dy dx) := by
  have hstores := windows_stores px hw hh (fun _ => lines_bounds)
    (single_bounds (n := size.width) (z := size.width - 2) (by omega))
  rw [lastWrite_expandDebayerFast hw hh, lastWrite_column_none hw hh (by omega) (by omega),
    Option.none_or, windowWrites, lastWrite_windows (countUp_sorted (by decide))
    (List.pairwise_singleton _ _) hstores hp hy (LastLine.single hx)]
  rfl

theorem lastWrite_row (hw : 6 ≤ size.width) (hh : 6 ≤ size.height) (hp : Inside size p)
    (hmid : originX i + 2 < p.2 ∧ p.2 < size.width - 2 + originX i) {z : ℤ}
    (hz : z = 0 ∨ z = size.height - 2)
    (hy : p.1 = z + originY i + (dy.val : ℤ))
    (hx : LastLine (countUp 0 (size.width - 1) 2) (originX i) p.2 x dx) :
    lastWrite (i, p) ((expandDebayerFastKernel t size).writes px) = some (cell px
      (windowSamples size px (x + originX i) (z + originY i)) (x + originX i) (z + originY i) dy dx) := by
  have hzrow : 0 ≤ z ∧ z ≤ size.height - 2 := by omega
  have hstores := windows_stores px hw hh (single_bounds hzrow) fun _ => lines_bounds
  have hvalue := lastWrite_windows (List.pairwise_singleton _ _) (countUp_sorted (by decide)) hstores hp
    (LastLine.single hy) hx
  rw [lastWrite_expandDebayerFast hw hh, lastWrite_column_none hw hh (by omega) (by omega),
    lastWrite_column_none hw hh (by omega) (by omega)]
  cases hz with
  | inl hz =>
    subst hz
    rw [lastWrite_row_none hw hh (by omega) (by omega), windowWrites, hvalue]
    rfl
  | inr hz =>
    subst hz
    rw [windowWrites, hvalue]
    rfl

theorem LastLine.inner {n o o' r z : ℤ} {d : Fin 3} (ho : o = -1 ∧ o' = 1 ∨ o = 0 ∧ o' = 0)
    (hn : 2 ∣ n) (hr : o + 2 < r ∧ r < n - 2 + o) (h : LastLine (countUp 0 (n - 1) 2) o r z d) :
    LastLine (countUp 0 (n - 1 - 2) 2) o' r (z + o - o') d := by
  have hmem := (mem_countUp (by decide)).mp h.mem
  have heq := h.eq
  have hd := d.isLt
  refine ⟨(mem_countUp (by decide)).mpr (by omega), by omega, ?_⟩
  intro z' hz' hlt
  have hmem' := (mem_countUp (by decide)).mp hz'
  have hlast := h.last (z' + o' - o) ((mem_countUp (by decide)).mpr (by omega)) (by omega)
  omega

theorem lastWrite_inner (hw : 6 ≤ size.width) (hh : 6 ≤ size.height) (hw2 : 2 ∣ size.width)
    (hh2 : 2 ∣ size.height) (hp : Inside size p)
    (hmid : originX i + 2 < p.2 ∧ p.2 < size.width - 2 + originX i)
    (hmidrow : originY i + 2 < p.1 ∧ p.1 < size.height - 2 + originY i)
    (hy : LastLine (countUp 0 (size.height - 1) 2) (originY i) p.1 y dy)
    (hx : LastLine (countUp 0 (size.width - 1) 2) (originX i) p.2 x dx) :
    lastWrite (i, p) ((expandDebayerFastKernel t size).writes px) = some (cell px
      (windowSamples size px (x + originX i) (y + originY i)) (x + originX i) (y + originY i) dy dx) := by
  have hvalue := lastWrite_windows (countUp_sorted (by decide)) (countUp_sorted (by decide))
    (inner_stores size px) hp (hy.inner (originY_cases i) hh2 hmidrow)
    (hx.inner (originX_cases i) hw2 hmid)
  simp only [Int.sub_add_cancel] at hvalue
  rw [lastWrite_expandDebayerFast hw hh, lastWrite_column_none hw hh (by omega) (by omega),
    lastWrite_column_none hw hh (by omega) (by omega), lastWrite_row_none hw hh (by omega) (by omega),
    lastWrite_row_none hw hh (by omega) (by omega), innerWrites, hvalue]
  rfl

/-- Away from the second row and column of samples both functions leave the same. -/
theorem lastWrite_fast_eq (hw : 6 ≤ size.width) (hh : 6 ≤ size.height) (hw2 : 2 ∣ size.width)
    (hh2 : 2 ∣ size.height) (hp : Inside size p)
    (hy : LastLine (countUp 0 (size.height - 1) 2) (originY i) p.1 y dy)
    (hx : LastLine (countUp 0 (size.width - 1) 2) (originX i) p.2 x dx)
    (hcolumn : p.2 ≠ originX i + 2)
    (hrow : p.1 = originY i + 2 → p.2 < originX i + 2 ∨ size.width - 2 + originX i ≤ p.2) :
    lastWrite (i, p) ((expandDebayerFastKernel t size).writes px) = some (cell px
      (windowSamples size px (x + originX i) (y + originY i)) (x + originX i) (y + originY i) dy dx) := by
  have hxmem := (mem_countUp (by decide)).mp hx.mem
  have hxeq := hx.eq
  have hxd := dx.isLt
  have hymem := (mem_countUp (by decide)).mp hy.mem
  have hyeq := hy.eq
  have hyd := dy.isLt
  -- The loops from the last one back: the first of them that reaches the pixel decides it.
  by_cases hfirst : p.2 < originX i + 2
  · have hxzero : x = 0 := by omega
    subst hxzero
    exact lastWrite_firstColumn hw hh hp hy hx.eq
  by_cases hend : size.width - 2 + originX i ≤ p.2
  · have hxend : x = size.width - 2 := by
      by_contra hne
      have hlast := hx.last (size.width - 2) ((mem_countUp (by decide)).mpr (by omega)) (by omega)
      omega
    subst hxend
    exact lastWrite_lastColumn hw hh hp hy hx.eq
  by_cases htop : p.1 < originY i + 2
  · have hyzero : y = 0 := by omega
    subst hyzero
    exact lastWrite_row hw hh hp (by omega) (.inl rfl) hy.eq hx
  by_cases hbottom : size.height - 2 + originY i ≤ p.1
  · have hyend : y = size.height - 2 := by
      by_contra hne
      have hlast := hy.last (size.height - 2) ((mem_countUp (by decide)).mpr (by omega)) (by omega)
      omega
    subst hyend
    exact lastWrite_row hw hh hp (by omega) (.inr rfl) hy.eq hx
  exact lastWrite_inner hw hh hw2 hh2 hp (by omega) (by omega) hy hx

/-! ### The second line of samples -/

theorem Corner.value_bounds (px : ℤ × ℤ → Pixel t) (k : Corner) :
    0 ≤ k.value px ∧ k.value px < 2 ^ t.bits := by
  have hpos : (0 : ℤ) < 2 ^ t.bits := Int.pow_pos (by decide)
  cases k with
  | sample p =>
    have hlt : ((px p).val : ℤ) < 2 ^ t.bits := by exact_mod_cast (px p).isLt
    exact ⟨Int.natCast_nonneg _, hlt⟩
  | extrapolated p q => exact ⟨Int.emod_nonneg _ (Int.ne_of_gt hpos), Int.emod_lt_of_pos _ hpos⟩

/-- The corners of a window are values of the type `T`. -/
structure Samples.Bounded (t : Depth) (s : Samples) : Prop where
  a : 0 ≤ s.a ∧ s.a < 2 ^ t.bits
  b : 0 ≤ s.b ∧ s.b < 2 ^ t.bits
  c : 0 ≤ s.c ∧ s.c < 2 ^ t.bits
  d : 0 ≤ s.d ∧ s.d < 2 ^ t.bits

theorem windowSamples_bounded : (windowSamples size px x y).Bounded t := by
  rw [windowSamples]
  split
  · exact ⟨Corner.value_bounds px _, Corner.value_bounds px _, Corner.value_bounds px _,
      Corner.value_bounds px _⟩
  · have hpos : (0 : ℤ) < 2 ^ t.bits := Int.pow_pos (by decide)
    exact ⟨⟨le_refl 0, hpos⟩, ⟨le_refl 0, hpos⟩, ⟨le_refl 0, hpos⟩, ⟨le_refl 0, hpos⟩⟩

theorem toPixel_inj {v w : ℤ} (hv : 0 ≤ v ∧ v < 2 ^ t.bits) (hw : 0 ≤ w ∧ w < 2 ^ t.bits) :
    toPixel t v = toPixel t w ↔ v = w := by
  rw [toPixel, toPixel, Fin.mk.injEq, Int.emod_eq_of_lt hv.1 hv.2, Int.emod_eq_of_lt hw.1 hw.2]
  omega

/-- Two averages with the weights one, one, two and two, or two, two, one and one. -/
theorem sixth_inj {s r : Samples} (hs : s.Bounded t) (hr : r.Bounded t) {n m : ℤ}
    (hn : n = (s.a + s.c) + 2 * (s.b + s.d) ∨ n = (s.a + s.b) + 2 * (s.c + s.d))
    (hm : m = 2 * (r.a + r.c) + (r.b + r.d) ∨ m = 2 * (r.a + r.b) + (r.c + r.d)) :
    toPixel t ((n.tdiv 3).tdiv 2) = toPixel t ((m.tdiv 3).tdiv 2) ↔ n / 6 = m / 6 := by
  obtain ⟨ha, hb, hc, hd⟩ := hs
  obtain ⟨ha', hb', hc', hd'⟩ := hr
  have hn0 : 0 ≤ n := by omega
  have hm0 : 0 ≤ m := by omega
  rw [← tdiv_six hn0, ← tdiv_six hm0, Int.tdiv_eq_ediv_of_nonneg hn0, Int.tdiv_eq_ediv_of_nonneg hm0]
  exact toPixel_inj (by omega) (by omega)

/-- The average of the window before the second line of samples and that of the window after it. Where
both windows share their samples of the line, only the samples beside it count. -/
structure LinesAgree (size : Size) (px : ℤ × ℤ → Pixel t) (i : Fin 4) : Prop where
  column : ∀ y ∈ countUp 0 (size.height - 1) 2,
    let l := windowSamples size px (originX i) (y + originY i)
    let r := windowSamples size px (2 + originX i) (y + originY i)
    (l.a + l.c + 2 * (l.b + l.d)) / 6 = (2 * (r.a + r.c) + (r.b + r.d)) / 6
  row : ∀ x ∈ countUp 2 (size.width - 3) 2,
    let u := windowSamples size px (x + originX i) (originY i)
    let d := windowSamples size px (x + originX i) (2 + originY i)
    (u.a + u.b + 2 * (u.c + u.d)) / 6 = (2 * (d.a + d.b) + (d.c + d.d)) / 6

variable {image : Mat (Pixel t)}

theorem fast_secondColumn (hw : 6 ≤ image.size.width) (hh : 6 ≤ image.size.height)
    (hp : Inside image.size p)
    (hy : LastLine (countUp 0 (image.size.height - 1) 2) (originY i) p.1 y dy)
    (hx : LastLine (countUp 0 (image.size.width - 1) 2) (originX i) p.2 2 0) :
    (expandDebayerFast image i).px p = (expandDebayer image i).px p ↔ dy = 1 →
      let l := windowSamples image.size image.px (originX i) (y + originY i)
      let r := windowSamples image.size image.px (2 + originX i) (y + originY i)
      (l.a + l.c + 2 * (l.b + l.d)) / 6 = (2 * (r.a + r.c) + (r.b + r.d)) / 6 := by
  -- The first column of windows comes last in `expandDebayer_fast`, and the pixel is at its right end.
  have htwo : p.2 = 0 + originX i + ((2 : Fin 3).val : ℤ) := by
    have hxeq : p.2 = 2 + originX i + 0 := hx.eq
    show p.2 = 0 + originX i + 2
    omega
  have hfast : (expandDebayerFast image i).px p = _ :=
    polarSet_px (lastWrite_firstColumn hw hh hp hy htwo)
  have hplain : (expandDebayer image i).px p = _ := polarSet_px (lastWrite_expandDebayer hw hh hp hy hx)
  rw [hfast, hplain, Int.zero_add]
  by_cases hdy : dy = 1
  · subst hdy
    simp only [true_implies]
    exact sixth_inj windowSamples_bounded windowSamples_bounded (.inl rfl) (.inl rfl)
  · rw [cell_corner hdy (by decide), cell_corner hdy (by decide)]
    simp only [hdy, false_implies, iff_true]
    congr 2
    have hxeq := hx.eq
    omega

theorem fast_secondRow (hw : 6 ≤ image.size.width) (hh : 6 ≤ image.size.height)
    (hp : Inside image.size p)
    (hmid : originX i + 2 < p.2 ∧ p.2 < image.size.width - 2 + originX i)
    (hy : LastLine (countUp 0 (image.size.height - 1) 2) (originY i) p.1 2 0)
    (hx : LastLine (countUp 0 (image.size.width - 1) 2) (originX i) p.2 x dx) :
    (expandDebayerFast image i).px p = (expandDebayer image i).px p ↔ dx = 1 →
      let u := windowSamples image.size image.px (x + originX i) (originY i)
      let d := windowSamples image.size image.px (x + originX i) (2 + originY i)
      (u.a + u.b + 2 * (u.c + u.d)) / 6 = (2 * (d.a + d.b) + (d.c + d.d)) / 6 := by
  have htwo : p.1 = 0 + originY i + ((2 : Fin 3).val : ℤ) := by
    have hyeq : p.1 = 2 + originY i + 0 := hy.eq
    show p.1 = 0 + originY i + 2
    omega
  have hfast : (expandDebayerFast image i).px p = _ :=
    polarSet_px (lastWrite_row hw hh hp hmid (.inl rfl) htwo hx)
  have hplain : (expandDebayer image i).px p = _ := polarSet_px (lastWrite_expandDebayer hw hh hp hy hx)
  rw [hfast, hplain, Int.zero_add]
  by_cases hdx : dx = 1
  · subst hdx
    simp only [true_implies]
    exact sixth_inj windowSamples_bounded windowSamples_bounded (.inr rfl) (.inr rfl)
  · rw [cell_corner (by decide) hdx, cell_corner (by decide) hdx]
    simp only [hdx, false_implies, iff_true]
    congr 2
    have hyeq := hy.eq
    omega

/-- `expandDebayer_fast` and `expandDebayer` agree on an image if and only if the averages before and
after the second line of samples do, in each channel. -/
theorem expandDebayerFast_eq_iff (image : Mat (Pixel t)) (hh : 2 ∣ image.height) (hw : 2 ∣ image.width)
    (hh6 : 6 ≤ image.height) (hw6 : 6 ≤ image.width) :
    (∀ i p, Inside image.size p → (expandDebayerFast image i).px p = (expandDebayer image i).px p) ↔
      ∀ i, LinesAgree image.size image.px i := by
  have hheight : 6 ≤ image.size.height := Int.ofNat_le.mpr hh6
  have hwidth : 6 ≤ image.size.width := Int.ofNat_le.mpr hw6
  have hheight2 : 2 ∣ image.size.height := Int.natCast_dvd_natCast.mpr hh
  have hwidth2 : 2 ∣ image.size.width := Int.natCast_dvd_natCast.mpr hw
  constructor
  · intro h i
    have hoy := originY_cases i
    have hox := originX_cases i
    constructor
    · intro y hy
      have hmem := (mem_countUp (by decide)).mp hy
      have hp : Inside image.size (y + originY i + 1, 2 + originX i) := by
        simp only [Inside]
        omega
      exact (fast_secondColumn hwidth hheight hp (LastLine.middle hy) (lastLine_second hwidth)).mp
        (h i _ hp) rfl
    · intro x hx
      have hmem := (mem_countUp (by decide)).mp hx
      have hp : Inside image.size (2 + originY i, x + originX i + 1) := by
        simp only [Inside]
        omega
      have hline : x ∈ countUp 0 (image.size.width - 1) 2 := (mem_countUp (by decide)).mpr (by omega)
      exact (fast_secondRow hwidth hheight hp ⟨by simp only; omega, by simp only; omega⟩
        (lastLine_second hheight) (LastLine.middle hline)).mp (h i _ hp) rfl
  · intro h i p hp
    have hoy := originY_cases i
    have hox := originX_cases i
    obtain ⟨y, dy, hy⟩ := exists_lastLine (n := image.size.height) (o := originY i) (r := p.1)
      hheight2 (by omega) ⟨hp.1, hp.2.1⟩
    obtain ⟨x, dx, hx⟩ := exists_lastLine (n := image.size.width) (o := originX i) (r := p.2)
      hwidth2 (by omega) hp.2.2
    have hxmem := (mem_countUp (by decide)).mp hx.mem
    have hxeq := hx.eq
    by_cases hcolumn : p.2 = 2 + originX i
    · obtain ⟨hx2, hdx⟩ := hx.of_second hwidth hcolumn
      subst hx2 hdx
      exact (fast_secondColumn hwidth hheight hp hy hx).mpr fun _ => (h i).column y hy.mem
    by_cases hrow : p.1 = 2 + originY i ∧ originX i + 2 < p.2 ∧ p.2 < image.size.width - 2 + originX i
    · obtain ⟨hy2, hdy⟩ := hy.of_second hheight hrow.1
      subst hy2 hdy
      refine (fast_secondRow hwidth hheight hp hrow.2 hy hx).mpr fun hdx => (h i).row x ?_
      have hone : ((1 : Fin 3).val : ℤ) = 1 := rfl
      rw [hdx] at hxeq
      exact (mem_countUp (by decide)).mpr (by omega)
    have hfast : (expandDebayerFast image i).px p = _ := polarSet_px
      (lastWrite_fast_eq hwidth hheight hwidth2 hheight2 hp hy hx (by omega) (by omega))
    have hplain : (expandDebayer image i).px p = _ :=
      polarSet_px (lastWrite_expandDebayer hwidth hheight hp hy hx)
    rw [hfast, hplain]

/-- A bright sample of 0 degrees in the middle of four constant channels. -/
def mosaicImage : Mat (Pixel .u8) :=
  ⟨8, 8, fun p => if p = (5, 5) then 60 else toPixel .u8 (7 * (p.1 % 2) + 20 * (p.2 % 2))⟩

theorem expandDebayerFast_eq_mosaicImage :
    (expandDebayerFast mosaicImage 0).px (4, 4) = (expandDebayer mosaicImage 0).px (4, 4) := by
  have hlines : ∀ i, LinesAgree mosaicImage.size mosaicImage.px i := by
    intro i
    constructor
    · revert i
      decide
    · revert i
      decide
  exact (expandDebayerFast_eq_iff mosaicImage (by decide) (by decide) (by decide) (by decide)).mpr
    hlines 0 (4, 4) ⟨by decide, by decide, by decide, by decide⟩

/-- A sample of 90 degrees right of the second column of samples. -/
def brightImage : Mat (Pixel .u8) := ⟨6, 6, fun p => if p = (0, 4) then 6 else 0⟩

theorem not_expandDebayerFast_eq : ¬ ∀ (t : Depth) (image : Mat (Pixel t)), 2 ∣ image.height →
    2 ∣ image.width → 6 ≤ image.height → 6 ≤ image.width → ∀ i p, Inside image.size p →
    (expandDebayerFast image i).px p = (expandDebayer image i).px p := by
  intro h
  have heq := h .u8 brightImage (by decide) (by decide) (le_refl 6) (le_refl 6) 2 (1, 2)
    ⟨by decide, by decide, by decide, by decide⟩
  exact absurd heq (by decide +kernel)

end Fast

end TmkDcl.Libdclalgo
