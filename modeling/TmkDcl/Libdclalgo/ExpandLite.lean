import Mathlib.Data.Rat.Floor
import Mathlib.Tactic.Linarith
import Mathlib.Tactic.Ring
import TmkDcl.Libdclalgo.PolarExpand

/-!
# Channels of half the size (libdclalgo, PolarExpand.h)

`expandLite` makes one pixel of each square of the mosaic, like `expandEasy`, but takes the sample of
each angle at the place of the 0 degrees sample: the mean of the neighbours, or at the last row and
column what two neighbours on one side extrapolate to. The arithmetic is unsigned with 32 bits, and a
negative combination is a large number that `toUint` takes for an underflow.
-/

namespace TmkDcl.Libdclalgo

/-- The largest value of the type `T`. -/
def maxValue (t : Depth) : ℕ := 2 ^ t.bits - 1

def toUint (t : Depth) (a : ℕ) : Pixel t :=
  if a > 8 * maxValue t then 0
  else if a > maxValue t then toPixel t (maxValue t)
  else toPixel t a

/-- What is assigned to a pixel: a pixel of the image, `(p + q) / 2u`, `(3u * p - q) / 2u`,
`(p + q + r + s) / 4u` or `(3u * p - q + 3u * r - s) / 4u`. -/
inductive Combination where
  | sample (p : ℤ × ℤ)
  | mean (p q : ℤ × ℤ)
  | extrapolated (p q : ℤ × ℤ)
  | mean4 (p q r s : ℤ × ℤ)
  | extrapolated4 (p q r s : ℤ × ℤ)

namespace Combination

/-- The pixels and their factors. -/
def terms : Combination → List (ℤ × ℤ × ℤ)
  | .sample p => [(1, p)]
  | .mean p q => [(1, p), (1, q)]
  | .extrapolated p q => [(3, p), (-1, q)]
  | .mean4 p q r s => [(1, p), (1, q), (1, r), (1, s)]
  | .extrapolated4 p q r s => [(3, p), (-1, q), (3, r), (-1, s)]

def divisor : Combination → ℕ
  | .sample _ => 1
  | .mean _ _ | .extrapolated _ _ => 2
  | .mean4 _ _ _ _ | .extrapolated4 _ _ _ _ => 4

end Combination

/-- The combinations for the four channels around the pixel `(y0, x0)` of the image. -/
abbrev Stencil := ℤ → ℤ → Fin 4 → Combination

def interior : Stencil := fun y0 x0 => ![
  .sample (y0, x0),
  .mean (y0, x0 + 1) (y0, x0 - 1),
  .mean4 (y0 - 1, x0 - 1) (y0 + 1, x0 - 1) (y0 - 1, x0 + 1) (y0 + 1, x0 + 1),
  .mean (y0 - 1, x0) (y0 + 1, x0)]

def bottomRow : Stencil := fun y0 x0 => ![
  .sample (y0, x0),
  .mean (y0, x0 + 1) (y0, x0 - 1),
  .extrapolated4 (y0 - 1, x0 + 1) (y0 - 3, x0 + 3) (y0 - 1, x0 - 1) (y0 - 3, x0 - 3),
  .extrapolated (y0 - 1, x0) (y0 - 3, x0)]

def rightColumn : Stencil := fun y0 x0 => ![
  .sample (y0, x0),
  .extrapolated (y0, x0 - 1) (y0, x0 - 3),
  .extrapolated4 (y0 - 1, x0 - 1) (y0 - 3, x0 - 3) (y0 + 1, x0 - 1) (y0 + 3, x0 - 3),
  .mean (y0 - 1, x0) (y0 + 1, x0)]

/-- Both near corners, and the corner at the bottom right. -/
def nearCorner : Stencil := fun y0 x0 => ![
  .sample (y0, x0),
  .extrapolated (y0, x0 - 1) (y0, x0 - 3),
  .extrapolated (y0 - 1, x0 - 1) (y0 - 3, x0 - 3),
  .extrapolated (y0 - 1, x0) (y0 - 3, x0)]

def bottomLeft : Stencil := fun y0 x0 => ![
  .sample (y0, x0),
  .mean (y0, x0 + 1) (y0, x0 - 1),
  .extrapolated (y0 - 1, x0 + 1) (y0 - 3, x0 + 3),
  .extrapolated (y0 - 1, x0) (y0 - 3, x0)]

def topRight : Stencil := fun y0 x0 => ![
  .sample (y0, x0),
  .extrapolated (y0, x0 - 1) (y0, x0 - 3),
  .extrapolated (y0 + 1, x0 - 1) (y0 + 3, x0 - 3),
  .mean (y0 - 1, x0) (y0 + 1, x0)]

section Program

variable (t : Depth)

/-- The `unsigned int` of a combination; the numbers wrap at 32 bits before the division. -/
def combine (c : Combination) : Expander (Pixel t) ℕ := do
  let values ← c.terms.mapM' fun term => do
    return term.1 * ((← Kernel.get term.2).val : ℤ)
  return (values.sum % 2 ^ 32).toNat / c.divisor

/-- `polarSet[i].at<T>(y, x) = ...`. -/
def assign (i : Fin 4) (y x : ℤ) : Combination → Expander (Pixel t) Unit
  | .sample p => do Kernel.set (i, y, x) (← Kernel.get p)
  | c => do Kernel.set (i, y, x) (toUint t (← combine t c))

/-- The four assignments at a pixel of the channels. -/
def assignAll (s : Stencil) (y x : ℤ) : Expander (Pixel t) Unit := do
  let y0 := 2 * y + 1
  let x0 := 2 * x + 1
  assign t 0 y x (s y0 x0 0)
  assign t 1 y x (s y0 x0 1)
  assign t 2 y x (s y0 x0 2)
  assign t 3 y x (s y0 x0 3)

/-- The size is that of the channels. -/
def expandLiteKernel (size : Size) : Expander (Pixel t) Unit := do
  Kernel.forRaster (countUp 0 (size.height - 1) 1) (countUp 0 (size.width - 1) 1) (assignAll t interior)
  Kernel.forRaster [size.height - 1] (countUp 1 (size.width - 2) 1) (assignAll t bottomRow)
  Kernel.forRaster (countUp 1 (size.height - 2) 1) [size.width - 1] (assignAll t rightColumn)
  assignAll t nearCorner (size.height - 2) (size.width - 1)
  assignAll t nearCorner (size.height - 1) (size.width - 2)
  assignAll t bottomLeft (size.height - 1) 0
  assignAll t topRight 0 (size.width - 1)
  assignAll t nearCorner (size.height - 1) (size.width - 1)

end Program

/-- The size of the channels. -/
def Mat.halfSize {κ : Type*} (image : Mat κ) : Size :=
  ⟨(image.height / 2 : ℕ), (image.width / 2 : ℕ)⟩

def expandLite {t : Depth} (image : Mat (Pixel t)) : Fin 4 → Mat (Pixel t) :=
  if image.height < 6 ∨ image.width < 6 then expandEasy image
  else polarSet (image.height / 2) (image.width / 2)
    ((expandLiteKernel t image.halfSize).writes image.px)

/-! ### Which combination a pixel gets -/

/-- The stencil at a pixel of the channels. -/
def stencilAt (size : Size) (y x : ℤ) : Stencil :=
  if y < size.height - 1 ∧ x < size.width - 1 then interior
  else if y = size.height - 1 ∧ 1 ≤ x ∧ x < size.width - 2 then bottomRow
  else if x = size.width - 1 ∧ 1 ≤ y ∧ y < size.height - 2 then rightColumn
  else if y = size.height - 1 ∧ x = 0 then bottomLeft
  else if y = 0 then topRight
  else nearCorner

def combinationAt (size : Size) (i : Fin 4) (y x : ℤ) : Combination :=
  stencilAt size y x (2 * y + 1) (2 * x + 1) i

section Stored

variable {t : Depth} {size : Size} {px : ℤ × ℤ → Pixel t} {i : Fin 4} {y x : ℤ} {s : Stencil}

/-- The weighted sum before the division, in exact arithmetic. -/
def Combination.numerator (px : ℤ × ℤ → Pixel t) (c : Combination) : ℤ :=
  (c.terms.map fun term => term.1 * ((px term.2).val : ℤ)).sum

/-- What the program stores. -/
def Combination.stored (px : ℤ × ℤ → Pixel t) : Combination → Pixel t
  | .sample p => px p
  | c => toUint t ((c.numerator px % 2 ^ 32).toNat / c.divisor)

theorem combine_spec (c : Combination) :
    (combine t c).result px = some ((c.numerator px % 2 ^ 32).toNat / c.divisor) ∧
      (combine t c).writes px = [] := by
  have hterms : ∀ l : List (ℤ × ℤ × ℤ),
      let m : Expander (Pixel t) (List ℤ) := l.mapM' fun term => do
        return term.1 * ((← Kernel.get term.2).val : ℤ)
      m.result px = some (l.map fun term => term.1 * ((px term.2).val : ℤ)) ∧ m.writes px = [] := by
    intro l
    induction l with
    | nil => exact ⟨rfl, rfl⟩
    | cons term l ih =>
      obtain ⟨hresult, hwrites⟩ := ih
      simp only [List.mapM'_cons, Kernel.result_bind, Kernel.writes_bind, hresult, hwrites,
        Kernel.result_get, Kernel.writes_get, Kernel.result_pure, Kernel.writes_pure, Option.bind_some,
        Option.map_some, Option.getD_some, List.map_cons, List.append_nil, and_self]
  obtain ⟨hresult, hwrites⟩ := hterms c.terms
  constructor
  · rw [combine, Kernel.result_bind, hresult]
    rfl
  · rw [combine, Kernel.writes_bind_of hresult, hwrites]
    rfl

theorem assign_spec (c : Combination) : (assign t i y x c).result px = some () ∧
    (assign t i y x c).writes px = [((i, y, x), c.stored px)] := by
  have hweighted : ∀ c : Combination,
      let m : Expander (Pixel t) Unit := do Kernel.set (i, y, x) (toUint t (← combine t c))
      m.result px = some () ∧ m.writes px =
        [((i, y, x), toUint t ((c.numerator px % 2 ^ 32).toNat / c.divisor))] := by
    intro c
    obtain ⟨hresult, hwrites⟩ : _ ∧ (combine t c).writes px = [] := combine_spec c
    constructor
    · rw [Kernel.result_bind, hresult]
      rfl
    · rw [Kernel.writes_bind_of hresult, hwrites]
      rfl
  cases c with
  | sample p => exact ⟨rfl, rfl⟩
  | mean p q => exact hweighted (.mean p q)
  | extrapolated p q => exact hweighted (.extrapolated p q)
  | mean4 p q r s => exact hweighted (.mean4 p q r s)
  | extrapolated4 p q r s => exact hweighted (.extrapolated4 p q r s)

theorem within_assign {R : ℤ × ℤ → Prop} {W : Fin 4 × ℤ × ℤ → Prop} {c : Combination}
    (hR : ∀ term ∈ c.terms, R term.2) (hW : W (i, y, x)) : (assign t i y x c).Within R W := by
  have hweighted : ∀ c : Combination, (∀ term ∈ c.terms, R term.2) →
      Kernel.Within R W (do Kernel.set (i, y, x) (toUint t (← combine t c))) := by
    intro c hR
    refine Kernel.Within.bind ?_ fun _ => Kernel.within_set.mpr hW
    refine Kernel.Within.bind (Kernel.Within.mapM fun term hterm => ?_) fun _ => Kernel.within_pure _
    exact (Kernel.within_get.mpr (hR term hterm)).bind fun _ => Kernel.within_pure _
  cases c with
  | sample p =>
    have hp : R p := hR (1, p) (List.mem_singleton.mpr rfl)
    exact (Kernel.within_get.mpr hp).bind fun _ => Kernel.within_set.mpr hW
  | mean p q => exact hweighted _ hR
  | extrapolated p q => exact hweighted _ hR
  | mean4 p q r s => exact hweighted _ hR
  | extrapolated4 p q r s => exact hweighted _ hR

/-- The pixel of the image is one of the combination of a pixel of the region. -/
def Reads (size : Size) (region : ℤ → ℤ → Prop) (p : ℤ × ℤ) : Prop :=
  ∃ i y x, region y x ∧ ∃ term ∈ (combinationAt size i y x).terms, term.2 = p

theorem Reads.mono {region region' : ℤ → ℤ → Prop} {p : ℤ × ℤ}
    (h : ∀ y x, region y x → region' y x) (hp : Reads size region p) : Reads size region' p := by
  obtain ⟨i, y, x, hregion, hterm⟩ := hp
  exact ⟨i, y, x, h y x hregion, hterm⟩

/-- The program assigns the pixels of a region, each with its own combination. -/
structure Fills (size : Size) (px : ℤ × ℤ → Pixel t) (region : ℤ → ℤ → Prop)
    (g : Expander (Pixel t) Unit) : Prop where
  result : g.result px = some ()
  writes : ∀ w, w ∈ g.writes px ↔
    ∃ i y x, region y x ∧ w = ((i, y, x), (combinationAt size i y x).stored px)
  within : g.Within (Reads size region) fun o => region o.2.1 o.2.2

theorem Fills.bind {region region' : ℤ → ℤ → Prop} {g g' : Expander (Pixel t) Unit}
    (h : Fills size px region g) (h' : Fills size px region' g') :
    Fills size px (fun y x => region y x ∨ region' y x) (g >>= fun _ => g') := by
  constructor
  · rw [Kernel.result_bind, h.result]
    exact h'.result
  · intro w
    rw [Kernel.writes_bind_of h.result, List.mem_append, h.writes, h'.writes]
    constructor
    · intro hw
      cases hw with
      | inl hw =>
        obtain ⟨i, y, x, hregion, hw⟩ := hw
        exact ⟨i, y, x, .inl hregion, hw⟩
      | inr hw =>
        obtain ⟨i, y, x, hregion, hw⟩ := hw
        exact ⟨i, y, x, .inr hregion, hw⟩
    · intro hw
      obtain ⟨i, y, x, hregion, hw⟩ := hw
      cases hregion with
      | inl hregion => exact .inl ⟨i, y, x, hregion, hw⟩
      | inr hregion => exact .inr ⟨i, y, x, hregion, hw⟩
  · refine (h.within.mono ?_ fun _ => .inl).bind fun _ => h'.within.mono ?_ fun _ => .inr
    · exact fun p => Reads.mono fun _ _ => .inl
    · exact fun p => Reads.mono fun _ _ => .inr

theorem fills_assignAll (hs : stencilAt size y x = s) :
    Fills size px (fun y' x' => y' = y ∧ x' = x) (assignAll t s y x) := by
  subst hs
  have hassign : ∀ i, (assign t i y x (combinationAt size i y x)).result px = some () ∧
      (assign t i y x (combinationAt size i y x)).writes px =
        [((i, y, x), (combinationAt size i y x).stored px)] := fun i => assign_spec _
  simp only [combinationAt] at hassign
  constructor
  · simp only [assignAll, Kernel.result_bind, (hassign _).1, Option.bind_some]
  · intro w
    simp only [assignAll, Kernel.writes_bind, (hassign _).1, (hassign _).2, Option.map_some,
      Option.getD_some, List.mem_append, List.mem_singleton]
    constructor
    · intro hw
      rcases hw with hw | hw | hw | hw
      · exact ⟨0, y, x, ⟨rfl, rfl⟩, hw⟩
      · exact ⟨1, y, x, ⟨rfl, rfl⟩, hw⟩
      · exact ⟨2, y, x, ⟨rfl, rfl⟩, hw⟩
      · exact ⟨3, y, x, ⟨rfl, rfl⟩, hw⟩
    · intro hw
      obtain ⟨i, y', x', ⟨rfl, rfl⟩, hw⟩ := hw
      subst hw
      fin_cases i
      · exact .inl rfl
      · exact .inr (.inl rfl)
      · exact .inr (.inr (.inl rfl))
      · exact .inr (.inr (.inr rfl))
  · have hwithin : ∀ i, (assign t i y x (combinationAt size i y x)).Within
        (Reads size fun y' x' => y' = y ∧ x' = x) fun o => o.2.1 = y ∧ o.2.2 = x :=
      fun i => within_assign (fun term hterm => ⟨i, y, x, ⟨rfl, rfl⟩, term, hterm, rfl⟩) ⟨rfl, rfl⟩
    exact (hwithin 0).bind fun _ => (hwithin 1).bind fun _ => (hwithin 2).bind fun _ => hwithin 3

theorem fills_forRaster {rows columns : List ℤ}
    (hs : ∀ y ∈ rows, ∀ x ∈ columns, stencilAt size y x = s) :
    Fills size px (fun y x => y ∈ rows ∧ x ∈ columns)
      (Kernel.forRaster rows columns (assignAll t s)) := by
  have hresult : ∀ y ∈ rows, ∀ x ∈ columns, (assignAll t s y x).result px = some () :=
    fun y hy x hx => (fills_assignAll (hs y hy x hx)).result
  constructor
  · exact (Kernel.writes_forRaster hresult).1
  · intro w
    rw [Kernel.mem_writes_forRaster hresult]
    constructor
    · intro hw
      obtain ⟨y, hy, x, hx, hw⟩ := hw
      obtain ⟨i, y', x', ⟨rfl, rfl⟩, hstore⟩ := ((fills_assignAll (hs y hy x hx)).writes w).mp hw
      exact ⟨i, y', x', ⟨hy, hx⟩, hstore⟩
    · intro hw
      obtain ⟨i, y, x, ⟨hy, hx⟩, hw⟩ := hw
      exact ⟨y, hy, x, hx, ((fills_assignAll (hs y hy x hx)).writes w).mpr ⟨i, y, x, ⟨rfl, rfl⟩, hw⟩⟩
  · refine Kernel.within_forRaster fun y hy x hx => ?_
    have hfills : Fills size px _ (assignAll t s y x) := fills_assignAll (hs y hy x hx)
    refine hfills.within.mono ?_ ?_
    · refine fun p => Reads.mono fun y' x' h => ?_
      rw [h.1, h.2]
      exact ⟨hy, hx⟩
    · intro o h
      rw [h.1, h.2]
      exact ⟨hy, hx⟩

theorem mem_countUp_one {start stop z : ℤ} : z ∈ countUp start stop 1 ↔ start ≤ z ∧ z < stop := by
  rw [mem_countUp Int.one_pos]
  simp

theorem Fills.congr {region region' : ℤ → ℤ → Prop} {g : Expander (Pixel t) Unit}
    (h : Fills size px region g) (hregion : ∀ y x, region y x ↔ region' y x) :
    Fills size px region' g := by
  constructor
  · exact h.result
  · intro w
    simp only [h.writes, hregion]
  · exact h.within.mono (fun p => Reads.mono fun y x => (hregion y x).mp) fun o => (hregion _ _).mp

/-- The loops and the corners together assign every pixel of the channels. -/
theorem expandLite_fills (hw : 3 ≤ size.width) (hh : 3 ≤ size.height) :
    Fills size px (fun y x => Inside size (y, x)) (expandLiteKernel t size) := by
  have hinterior : Fills size px (fun y x => y ∈ countUp 0 (size.height - 1) 1 ∧
      x ∈ countUp 0 (size.width - 1) 1) (Kernel.forRaster (countUp 0 (size.height - 1) 1)
      (countUp 0 (size.width - 1) 1) (assignAll t interior)) := by
    refine fills_forRaster fun y hy x hx => ?_
    rw [mem_countUp_one] at hy hx
    rw [stencilAt, if_pos (by omega)]
  have hbottom : Fills size px (fun y x => y ∈ [size.height - 1] ∧ x ∈ countUp 1 (size.width - 2) 1)
      (Kernel.forRaster [size.height - 1] (countUp 1 (size.width - 2) 1) (assignAll t bottomRow)) := by
    refine fills_forRaster fun y hy x hx => ?_
    rw [List.mem_singleton] at hy
    rw [mem_countUp_one] at hx
    rw [stencilAt, if_neg (by omega), if_pos (by omega)]
  have hright : Fills size px (fun y x => y ∈ countUp 1 (size.height - 2) 1 ∧ x ∈ [size.width - 1])
      (Kernel.forRaster (countUp 1 (size.height - 2) 1) [size.width - 1] (assignAll t rightColumn)) := by
    refine fills_forRaster fun y hy x hx => ?_
    rw [List.mem_singleton] at hx
    rw [mem_countUp_one] at hy
    rw [stencilAt, if_neg (by omega), if_neg (by omega), if_pos (by omega)]
  have hnear : ∀ y x, y = size.height - 2 ∧ x = size.width - 1 ∨
      y = size.height - 1 ∧ x = size.width - 2 ∨ y = size.height - 1 ∧ x = size.width - 1 →
      Fills size px (fun y' x' => y' = y ∧ x' = x) (assignAll t nearCorner y x) := by
    intro y x h
    refine fills_assignAll ?_
    rw [stencilAt, if_neg (by omega), if_neg (by omega), if_neg (by omega), if_neg (by omega),
      if_neg (by omega)]
  have hbottomLeft : Fills size px (fun y x => y = size.height - 1 ∧ x = 0)
      (assignAll t bottomLeft (size.height - 1) 0) := by
    refine fills_assignAll ?_
    rw [stencilAt, if_neg (by omega), if_neg (by omega), if_neg (by omega), if_pos (by omega)]
  have htopRight : Fills size px (fun y x => y = 0 ∧ x = size.width - 1)
      (assignAll t topRight 0 (size.width - 1)) := by
    refine fills_assignAll ?_
    rw [stencilAt, if_neg (by omega), if_neg (by omega), if_neg (by omega), if_neg (by omega),
      if_pos (by omega)]
  have hrun := hinterior.bind (hbottom.bind (hright.bind ((hnear _ _ (.inl ⟨rfl, rfl⟩)).bind
    ((hnear _ _ (.inr (.inl ⟨rfl, rfl⟩))).bind (hbottomLeft.bind (htopRight.bind
      (hnear _ _ (.inr (.inr ⟨rfl, rfl⟩)))))))))
  refine hrun.congr fun y x => ?_
  simp only [mem_countUp_one, List.mem_singleton, Inside]
  omega

theorem expandLite_px {image : Mat (Pixel t)} (hh : 6 ≤ image.height) (hw : 6 ≤ image.width)
    (hp : Inside image.halfSize (y, x)) :
    (expandLite image i).px (y, x) = (combinationAt image.halfSize i y x).stored image.px := by
  have hheight : 3 ≤ image.halfSize.height := by
    show (3 : ℤ) ≤ (image.height / 2 : ℕ)
    omega
  have hwidth : 3 ≤ image.halfSize.width := by
    show (3 : ℤ) ≤ (image.width / 2 : ℕ)
    omega
  have hfills : Fills _ image.px _ (expandLiteKernel t image.halfSize) := expandLite_fills hwidth hheight
  rw [expandLite, if_neg (by omega)]
  refine polarSet_px (lastWrite_of_forall ?_ ?_)
  · exact (hfills.writes _).mpr ⟨i, y, x, hp, rfl⟩
  · intro v hv
    obtain ⟨i', y', x', -, heq⟩ := (hfills.writes _).mp hv
    cases heq
    rfl

theorem combinationAt_inside {full half : Size} (hw : 3 ≤ half.width ∧ 2 * half.width ≤ full.width)
    (hh : 3 ≤ half.height ∧ 2 * half.height ≤ full.height) (hp : Inside half (y, x)) :
    ∀ term ∈ (combinationAt half i y x).terms, Inside full term.2 := by
  obtain ⟨hy, hy', hx, hx'⟩ := hp
  simp only at hy hy' hx hx'
  rw [combinationAt, stencilAt]
  split_ifs
  · fin_cases i <;> simp [interior, Combination.terms, Inside] <;> omega
  · fin_cases i <;> simp [bottomRow, Combination.terms, Inside] <;> omega
  · fin_cases i <;> simp [rightColumn, Combination.terms, Inside] <;> omega
  · fin_cases i <;> simp [bottomLeft, Combination.terms, Inside] <;> omega
  · fin_cases i <;> simp [topRight, Combination.terms, Inside] <;> omega
  · fin_cases i <;> simp [nearCorner, Combination.terms, Inside] <;> omega

/-! ### Saturation -/

/-- The value of a combination in exact arithmetic. -/
def Combination.exact (px : ℤ × ℤ → Pixel t) (c : Combination) : ℚ :=
  (c.numerator px : ℚ) / c.divisor

theorem maxValue_cases (t : Depth) : maxValue t = 255 ∨ maxValue t = 65535 := by
  cases t with
  | u8 => exact .inl rfl
  | u16 => exact .inr rfl

theorem divisor_cases (c : Combination) : c.divisor = 1 ∨ c.divisor = 2 ∨ c.divisor = 4 := by
  cases c with
  | sample p => exact .inl rfl
  | mean p q | extrapolated p q => exact .inr (.inl rfl)
  | mean4 p q r s | extrapolated4 p q r s => exact .inr (.inr rfl)

theorem pixel_bounds (v : Pixel t) : 0 ≤ (v.val : ℤ) ∧ (v.val : ℤ) ≤ maxValue t := by
  have hlt := v.isLt
  have hmax : maxValue t = 2 ^ t.bits - 1 := rfl
  omega

/-- A negative combination wraps to a number above the threshold, and no other does. -/
theorem toUint_wrapped {n : ℤ} {d : ℕ} (hd : d = 2 ∨ d = 4)
    (hn : -2 * (maxValue t : ℤ) ≤ n ∧ n ≤ 6 * (maxValue t : ℤ)) :
    ((toUint t ((n % 2 ^ 32).toNat / d)).val : ℤ) = max 0 (min (n / d) (maxValue t)) := by
  have hmax := maxValue_cases t
  have hfits : ∀ a : ℕ, a ≤ maxValue t → (toPixel t a).val = a := by
    intro a ha
    have hlt : (a : ℤ) < 2 ^ t.bits := by
      have hpow : maxValue t + 1 = 2 ^ t.bits := by
        cases t with
        | u8 => rfl
        | u16 => rfl
      exact_mod_cast Nat.lt_of_le_of_lt ha (by omega)
    show ((a : ℤ) % 2 ^ t.bits).toNat = a
    rw [Int.emod_eq_of_lt (Int.natCast_nonneg a) hlt, Int.toNat_natCast]
  obtain ⟨hlow, hhigh⟩ := hn
  rw [toUint]
  split
  · rename_i hunder
    show (0 : ℤ) = _
    rcases hmax with hmax | hmax <;> rcases hd with rfl | rfl <;> omega
  split
  · rename_i hunder hover
    rw [hfits _ (le_refl _)]
    rcases hmax with hmax | hmax <;> rcases hd with rfl | rfl <;> omega
  · rename_i hunder hover
    rw [hfits _ (by omega)]
    rcases hmax with hmax | hmax <;> rcases hd with rfl | rfl <;> omega

theorem Combination.numerator_bounds (px : ℤ × ℤ → Pixel t) (c : Combination) :
    -2 * (maxValue t : ℤ) ≤ c.numerator px ∧ c.numerator px ≤ 6 * (maxValue t : ℤ) := by
  have hpx := fun p => pixel_bounds (px p)
  cases c with
  | sample p =>
    have hp := hpx p
    simp only [Combination.numerator, Combination.terms, List.map_cons, List.map_nil, List.sum_cons,
      List.sum_nil]
    omega
  | mean p q | extrapolated p q =>
    have hp := hpx p
    have hq := hpx q
    simp only [Combination.numerator, Combination.terms, List.map_cons, List.map_nil, List.sum_cons,
      List.sum_nil]
    omega
  | mean4 p q r s | extrapolated4 p q r s =>
    have hp := hpx p
    have hq := hpx q
    have hr := hpx r
    have hs := hpx s
    simp only [Combination.numerator, Combination.terms, List.map_cons, List.map_nil, List.sum_cons,
      List.sum_nil]
    omega

theorem stored_val (px : ℤ × ℤ → Pixel t) (c : Combination) :
    ((c.stored px).val : ℤ) = max 0 (min (c.numerator px / c.divisor) (maxValue t)) := by
  have hn := c.numerator_bounds px
  cases c with
  | sample p =>
    have hp := pixel_bounds (px p)
    show ((px p).val : ℤ) = max 0 (min ((1 * ((px p).val : ℤ) + 0) / 1) (maxValue t))
    omega
  | mean p q | extrapolated p q => exact toUint_wrapped (.inl rfl) hn
  | mean4 p q r s | extrapolated4 p q r s => exact toUint_wrapped (.inr rfl) hn

/-- The threshold of `toUint` tells exactly the negative combinations. -/
theorem underflow_iff (px : ℤ × ℤ → Pixel t) (c : Combination) :
    c.exact px < 0 ↔ (c.numerator px % 2 ^ 32).toNat / c.divisor > 8 * maxValue t := by
  have hn := c.numerator_bounds px
  have hmax := maxValue_cases t
  have hdivisor := divisor_cases c
  have hsign : c.exact px < 0 ↔ c.numerator px < 0 := by
    have hpos : (0 : ℚ) < c.divisor := Nat.cast_pos.mpr (by omega)
    rw [Combination.exact, div_lt_iff₀ hpos, zero_mul, Int.cast_lt_zero]
  rw [hsign]
  rcases hdivisor with hd | hd | hd <;> rw [hd] <;> rcases hmax with hmax | hmax <;> omega

/-! ### expandLite -/

/-- The stencils of an affine function add up to its value at the 0 degrees sample. -/
theorem affine_sum (a b d : ℤ) :
    ((combinationAt size i y x).terms.map fun term => term.1 * (a * term.2.1 + b * term.2.2 + d)).sum =
      (combinationAt size i y x).divisor * (a * (2 * y + 1) + b * (2 * x + 1) + d) := by
  rw [combinationAt, stencilAt]
  split_ifs
  · fin_cases i <;> simp [interior, Combination.terms, Combination.divisor] <;> ring
  · fin_cases i <;> simp [bottomRow, Combination.terms, Combination.divisor] <;> ring
  · fin_cases i <;> simp [rightColumn, Combination.terms, Combination.divisor] <;> ring
  · fin_cases i <;> simp [bottomLeft, Combination.terms, Combination.divisor] <;> ring
  · fin_cases i <;> simp [topRight, Combination.terms, Combination.divisor] <;> ring
  · fin_cases i <;> simp [nearCorner, Combination.terms, Combination.divisor] <;> ring

theorem halfSize_bounds {image : Mat (Pixel t)} (hh : 6 ≤ image.height) (hw : 6 ≤ image.width) :
    (3 ≤ image.halfSize.width ∧ 2 * image.halfSize.width ≤ image.size.width) ∧
      3 ≤ image.halfSize.height ∧ 2 * image.halfSize.height ≤ image.size.height := by
  have hwidth : image.halfSize.width = (image.width / 2 : ℕ) := rfl
  have hheight : image.halfSize.height = (image.height / 2 : ℕ) := rfl
  have hwidth' : image.size.width = image.width := rfl
  have hheight' : image.size.height = image.height := rfl
  omega

/-- All reads are inside the image, every pixel of the channels is assigned, and of an affine image all
channels are its value at the 0 degrees samples. -/
theorem expandLite_covers (image : Mat (Pixel t)) (hh : 6 ≤ image.height) (hw : 6 ≤ image.width) :
    (expandLiteKernel t image.halfSize).Within (Inside image.size)
      (fun o => Inside image.halfSize o.2) ∧
    (∀ i p, Inside image.halfSize p →
      ∃ v, ((i, p), v) ∈ (expandLiteKernel t image.halfSize).writes image.px) ∧
    ∀ a b d : ℤ, (∀ p, Inside image.size p → ((image.px p).val : ℤ) = a * p.1 + b * p.2 + d) →
      ∀ i p, Inside image.halfSize p →
        (((expandLite image i).px p).val : ℤ) = a * (2 * p.1 + 1) + b * (2 * p.2 + 1) + d := by
  obtain ⟨hwidth, hheight⟩ := halfSize_bounds hh hw
  have hfills : Fills _ image.px _ (expandLiteKernel t image.halfSize) :=
    expandLite_fills hwidth.1 hheight.1
  refine ⟨hfills.within.mono ?_ fun o ho => ho, ?_, ?_⟩
  · intro p hp
    obtain ⟨i, y, x, hregion, term, hterm, rfl⟩ := hp
    exact combinationAt_inside hwidth hheight hregion term hterm
  · intro i p hp
    exact ⟨_, (hfills.writes _).mpr ⟨i, p.1, p.2, hp, rfl⟩⟩
  · intro a b d hpx i p hp
    have hinside := combinationAt_inside (i := i) hwidth hheight hp
    have hsum : (combinationAt image.halfSize i p.1 p.2).numerator image.px =
        (combinationAt image.halfSize i p.1 p.2).divisor *
          (a * (2 * p.1 + 1) + b * (2 * p.2 + 1) + d) := by
      rw [Combination.numerator, List.map_congr_left fun term hterm =>
        congrArg (term.1 * ·) (hpx term.2 (hinside term hterm))]
      exact affine_sum a b d
    have hpos : ((combinationAt image.halfSize i p.1 p.2).divisor : ℤ) ≠ 0 := by
      have hdivisor := divisor_cases (combinationAt image.halfSize i p.1 p.2)
      omega
    have hcenter : Inside image.size (2 * p.1 + 1, 2 * p.2 + 1) := by
      obtain ⟨hy, hy', hx, hx'⟩ := hp
      simp only [Inside]
      omega
    have hvalue := hpx _ hcenter
    have hbounds := pixel_bounds (image.px (2 * p.1 + 1, 2 * p.2 + 1))
    simp only at hvalue
    rw [expandLite_px hh hw hp, stored_val, hsum, Int.mul_ediv_cancel_left _ hpos, ← hvalue]
    omega

/-- What is stored is the exact value, rounded down and clamped to the range of the type. -/
theorem expandLite_saturates (image : Mat (Pixel t)) (hh : 6 ≤ image.height) (hw : 6 ≤ image.width)
    (i : Fin 4) (p : ℤ × ℤ) (hp : Inside image.halfSize p) :
    let c := combinationAt image.halfSize i p.1 p.2
    (((expandLite image i).px p).val : ℤ) = max 0 (min ⌊c.exact image.px⌋ (maxValue t)) ∧
      (c.exact image.px < 0 ↔ (c.numerator image.px % 2 ^ 32).toNat / c.divisor > 8 * maxValue t) := by
  intro c
  refine ⟨?_, underflow_iff image.px c⟩
  rw [expandLite_px hh hw hp, stored_val, Combination.exact, Rat.floor_intCast_div_natCast]

end Stored

def slopeImage : Mat (Pixel .u8) := ⟨6, 6, fun p => toPixel .u8 (3 * p.1 + 2 * p.2 + 5)⟩

theorem expandLite_covers_slopeImage : (((expandLite slopeImage 2).px (2, 2)).val : ℤ) = 30 := by
  refine (expandLite_covers slopeImage (le_refl 6) (le_refl 6)).2.2 3 2 5 ?_ 2 (2, 2)
    ⟨by decide, by decide, by decide, by decide⟩
  intro p hp
  obtain ⟨hy, hy', hx, hx'⟩ := hp
  have hy' : p.1 < 6 := hy'
  have hx' : p.2 < 6 := hx'
  show (((3 * p.1 + 2 * p.2 + 5) % 2 ^ 8).toNat : ℤ) = 3 * p.1 + 2 * p.2 + 5
  omega

/-- Dark at the border and bright further in. -/
def darkBorder : Mat (Pixel .u8) := ⟨6, 6, fun p => if p.1 = 5 ∧ p.2 = 4 then 0 else 9⟩

theorem expandLite_saturates_darkBorder : (((expandLite darkBorder 1).px (2, 2)).val : ℤ) =
    max 0 (min ⌊(combinationAt darkBorder.halfSize 1 2 2).exact darkBorder.px⌋ 255) :=
  (expandLite_saturates darkBorder (le_refl 6) (le_refl 6) 1 (2, 2)
    ⟨by decide, by decide, by decide, by decide⟩).1

end TmkDcl.Libdclalgo
