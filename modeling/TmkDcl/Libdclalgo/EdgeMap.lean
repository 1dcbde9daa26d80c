import TmkDcl.Libdclalgo.PolarExpand

/-!
# The widened edge map (libdclalgo, EdgeAware.cpp)

`getExtendedEdges` widens the edges by one pixel in every direction for each stage that is left.
-/

namespace TmkDcl.Libdclalgo

/-- An 8-bit image. -/
abbrev EdgeMap := Mat (Pixel .u8)

/-- The body of the loops of `getExtendedEdges`; the neighbours are kept inside the image. -/
def extendAt (size : Size) (j k : ℤ) : Kernel (ℤ × ℤ) (ℤ × ℤ) (Pixel .u8) (Pixel .u8) Unit := do
  if (← Kernel.get (j, k)) ≠ 0 then
    let j_previous := max 0 (j - 1)
    let k_previous := max 0 (k - 1)
    let j_next := min (size.height - 1) (j + 1)
    let k_next := min (size.width - 1) (k + 1)
    Kernel.set (j_previous, k) 255
    Kernel.set (j_previous, k_previous) 255
    Kernel.set (j_previous, k_next) 255
    Kernel.set (j_next, k) 255
    Kernel.set (j_next, k_previous) 255
    Kernel.set (j_next, k_next) 255
    Kernel.set (j, k_previous) 255
    Kernel.set (j, k_next) 255
    Kernel.set (j, k) 255

/-- `edgesTemporary`. -/
def extendEdges (e : EdgeMap) : EdgeMap :=
  let loops := Kernel.forRaster (countUp 0 e.size.height 1) (countUp 0 e.size.width 1) (extendAt e.size)
  { e with px := applyWrites (fun _ => 0) (loops.writes e.px) }

/-- `getExtendedEdges`; the first argument bounds the depth of the recursion. -/
def getExtendedEdges : ℕ → EdgeMap → ℤ → ℤ → Option EdgeMap
  | 0, _, _, _ => none
  | fuel + 1, e, stages, stage =>
    if stages = stage then some e else getExtendedEdges fuel (extendEdges e) stages (stage + 1)

/-! ### Distance -/

/-- The number of steps of a king between two pixels. -/
def chebyshev (p q : ℤ × ℤ) : ℕ := max (p.1 - q.1).natAbs (p.2 - q.2).natAbs

theorem chebyshev_le {p q : ℤ × ℤ} {n : ℕ} :
    chebyshev p q ≤ n ↔ (p.1 - q.1).natAbs ≤ n ∧ (p.2 - q.2).natAbs ≤ n := max_le_iff

theorem chebyshev_triangle (p q r : ℤ × ℤ) : chebyshev p r ≤ chebyshev p q + chebyshev q r := by
  obtain ⟨hrow, hcolumn⟩ := chebyshev_le.mp (le_refl (chebyshev p q))
  obtain ⟨hrow', hcolumn'⟩ := chebyshev_le.mp (le_refl (chebyshev q r))
  exact chebyshev_le.mpr ⟨by omega, by omega⟩

theorem chebyshev_eq_zero {p q : ℤ × ℤ} : chebyshev p q ≤ 0 ↔ p = q := by
  rw [chebyshev_le, Prod.ext_iff]
  omega

theorem exists_step {size : Size} {p q : ℤ × ℤ} {n : ℕ} (hp : Inside size p) (hq : Inside size q)
    (h : chebyshev p q ≤ n + 1) : ∃ r, Inside size r ∧ chebyshev p r ≤ n ∧ chebyshev r q ≤ 1 := by
  obtain ⟨hy, hy', hx, hx'⟩ := hp
  obtain ⟨hy0, hy0', hx0, hx0'⟩ := hq
  obtain ⟨hrow, hcolumn⟩ := chebyshev_le.mp h
  have hstep : ∀ {n z a b : ℤ} {d : ℕ}, 0 ≤ a ∧ a < n → 0 ≤ b ∧ b < n → (a - b).natAbs ≤ d + 1 →
      z = max (b - 1) (min (b + 1) a) →
      (0 ≤ z ∧ z < n) ∧ (a - z).natAbs ≤ d ∧ (z - b).natAbs ≤ 1 := by omega
  obtain ⟨hrows, hfar, hnear⟩ := hstep ⟨hy, hy'⟩ ⟨hy0, hy0'⟩ hrow rfl
  obtain ⟨hcolumns, hfar', hnear'⟩ := hstep ⟨hx, hx'⟩ ⟨hx0, hx0'⟩ hcolumn rfl
  exact ⟨(_, _), ⟨hrows.1, hrows.2, hcolumns⟩, chebyshev_le.mpr ⟨hfar, hfar'⟩,
    chebyshev_le.mpr ⟨hnear, hnear'⟩⟩

/-! ### One stage -/

section Stage

variable {e : EdgeMap} {p q : ℤ × ℤ}

theorem neighbour_iff {n z a : ℤ} (hz : 0 ≤ z ∧ z < n) :
    a = max 0 (z - 1) ∨ a = min (n - 1) (z + 1) ∨ a = z ↔
      (0 ≤ a ∧ a < n) ∧ (a - z).natAbs ≤ 1 := by
  omega

theorem mem_extendAt {j k a b : ℤ} {v : Pixel .u8} (hedge : e.px (j, k) ≠ 0) :
    ((a, b), v) ∈ (extendAt e.size j k).writes e.px ↔ v = 255 ∧
      (a = max 0 (j - 1) ∨ a = min (e.size.height - 1) (j + 1) ∨ a = j) ∧
      (b = max 0 (k - 1) ∨ b = min (e.size.width - 1) (k + 1) ∨ b = k) := by
  simp only [extendAt, Kernel.writes_bind, Kernel.writes_get, Kernel.result_get, Option.map_some,
    Option.getD_some, List.nil_append]
  rw [if_pos hedge]
  simp only [Kernel.writes_bind, Kernel.writes_set, Kernel.result_set, Option.map_some,
    Option.getD_some, List.mem_append, List.mem_singleton, Prod.mk.injEq]
  grind

theorem extendAt_skips {j k : ℤ} (hedge : e.px (j, k) = 0) :
    (extendAt e.size j k).result e.px = some () ∧ (extendAt e.size j k).writes e.px = [] := by
  have hskip : extendAt e.size j k = (do
      if (← Kernel.get (j, k)) ≠ 0 then _ else pure ()) := rfl
  constructor
  · rw [hskip, Kernel.result_bind, Kernel.result_get, Option.bind_some, if_neg (not_not.mpr hedge)]
    rfl
  · rw [hskip, Kernel.writes_bind_of (Kernel.result_get e.px _), if_neg (not_not.mpr hedge)]
    rfl

theorem extendAt_spec {j k : ℤ} (hq : Inside e.size (j, k)) :
    (extendAt e.size j k).result e.px = some () ∧ ∀ w, w ∈ (extendAt e.size j k).writes e.px ↔
      e.px (j, k) ≠ 0 ∧ w.2 = 255 ∧ Inside e.size w.1 ∧ chebyshev w.1 (j, k) ≤ 1 := by
  by_cases hedge : e.px (j, k) = 0
  · obtain ⟨hresult, hwrites⟩ := extendAt_skips hedge
    refine ⟨hresult, fun w => ?_⟩
    simp [hwrites, hedge]
  constructor
  · simp only [extendAt, Kernel.result_bind, Kernel.result_get, Option.bind_some]
    rw [if_pos hedge]
    rfl
  · intro w
    obtain ⟨⟨a, b⟩, v⟩ := w
    obtain ⟨hj, hj', hk, hk'⟩ := hq
    have hrow := neighbour_iff (a := a) ⟨hj, hj'⟩
    have hcolumn := neighbour_iff (a := b) ⟨hk, hk'⟩
    rw [mem_extendAt hedge, hrow, hcolumn, chebyshev, Inside, max_le_iff]
    constructor
    · intro h
      exact ⟨hedge, h.1, ⟨h.2.1.1.1, h.2.1.1.2, h.2.2.1⟩, h.2.1.2, h.2.2.2⟩
    · intro h
      obtain ⟨-, hv, hin, hnear⟩ := h
      exact ⟨hv, ⟨⟨hin.1, hin.2.1⟩, hnear.1⟩, hin.2.2, hnear.2⟩

/-- One stage widens the edges by one pixel. -/
theorem extendEdges_px (hp : Inside e.size p) : (extendEdges e).px p ≠ 0 ↔
    ∃ q, Inside e.size q ∧ e.px q ≠ 0 ∧ chebyshev p q ≤ 1 := by
  have hin : ∀ {q : ℤ × ℤ}, Inside e.size q ↔
      q.1 ∈ countUp 0 e.size.height 1 ∧ q.2 ∈ countUp 0 e.size.width 1 := by
    intro q
    simp [mem_countUp Int.one_pos, Inside, and_assoc]
  have hspec : ∀ y ∈ countUp 0 e.size.height 1, ∀ x ∈ countUp 0 e.size.width 1,
      (extendAt e.size y x).result e.px = some () := fun y hy x hx => (extendAt_spec (hin.mpr ⟨hy, hx⟩)).1
  have hmem := fun w => Kernel.mem_writes_forRaster (w := w) hspec
  show applyWrites (fun _ => 0) _ p ≠ 0 ↔ _
  rw [applyWrites_apply]
  constructor
  · intro h
    cases hlast : lastWrite p ((Kernel.forRaster (countUp 0 e.size.height 1)
        (countUp 0 e.size.width 1) (extendAt e.size)).writes e.px) with
    | none =>
      rw [hlast] at h
      exact absurd rfl h
    | some v =>
      obtain ⟨y, hy, x, hx, hw⟩ := (hmem _).mp (mem_of_lastWrite hlast)
      obtain ⟨hedge, -, -, hnear⟩ := ((extendAt_spec (hin.mpr ⟨hy, hx⟩)).2 _).mp hw
      exact ⟨(y, x), hin.mpr ⟨hy, hx⟩, hedge, hnear⟩
  · intro h
    obtain ⟨q, hq, hedge, hnear⟩ := h
    have hq' := hin.mp hq
    have hw : (p, 255) ∈ (Kernel.forRaster (countUp 0 e.size.height 1)
        (countUp 0 e.size.width 1) (extendAt e.size)).writes e.px :=
      (hmem _).mpr ⟨q.1, hq'.1, q.2, hq'.2, ((extendAt_spec hq).2 _).mpr ⟨hedge, rfl, hp, hnear⟩⟩
    have hlast := lastWrite_of_forall hw fun v hv => by
      obtain ⟨y, hy, x, hx, hw⟩ := (hmem _).mp hv
      exact (((extendAt_spec (hin.mpr ⟨hy, hx⟩)).2 _).mp hw).2.1
    rw [hlast]
    decide

/-! ### All stages -/

/-- The edges of the result are the pixels that are at most as far from an edge as stages are left. -/
theorem getExtendedEdges_spec {stages stage : ℤ} (h : stage ≤ stages) {fuel : ℕ}
    (hfuel : (stages - stage).toNat < fuel) (e : EdgeMap) :
    ∃ r, getExtendedEdges fuel e stages stage = some r ∧ r.size = e.size ∧
      ∀ p, Inside e.size p → (r.px p ≠ 0 ↔
        ∃ q, Inside e.size q ∧ e.px q ≠ 0 ∧ (chebyshev p q : ℤ) ≤ stages - stage) := by
  induction fuel generalizing e stage with
  | zero => omega
  | succ fuel ih =>
    by_cases hlast : stages = stage
    · refine ⟨e, by rw [getExtendedEdges, if_pos hlast], rfl, fun p hp => ?_⟩
      have hzero : ∀ q, (chebyshev p q : ℤ) ≤ stages - stage ↔ p = q := by
        intro q
        rw [← chebyshev_eq_zero]
        omega
      simp only [hzero]
      constructor
      · intro hedge
        exact ⟨p, hp, hedge, rfl⟩
      · intro hedge
        obtain ⟨q, -, hedge, rfl⟩ := hedge
        exact hedge
    have hleft : stage + 1 ≤ stages := by omega
    obtain ⟨r, hr, hsize, hpx⟩ := ih hleft (by omega) (extendEdges e)
    refine ⟨r, by rw [getExtendedEdges, if_neg hlast, hr], hsize, fun p hp => ?_⟩
    rw [hpx p hp]
    constructor
    · intro hedge
      obtain ⟨q, hq, hq', hdist⟩ := hedge
      obtain ⟨q', hin, hedge, hnear⟩ := (extendEdges_px (e := e) hq).mp hq'
      have htri := chebyshev_triangle p q q'
      exact ⟨q', hin, hedge, by omega⟩
    · intro hedge
      obtain ⟨q, hq, hedge, hdist⟩ := hedge
      obtain ⟨n, hn⟩ : ∃ n : ℕ, stages - (stage + 1) = n := ⟨(stages - (stage + 1)).toNat, by omega⟩
      obtain ⟨q', hin, hfar, hnear⟩ := exists_step (n := n) hp hq (by omega)
      exact ⟨q', hin, (extendEdges_px (e := e) hin).mpr ⟨q, hq, hedge, hnear⟩, by omega⟩

/-- One edge pixel in the corner of three rows and columns. -/
def cornerEdge : EdgeMap := ⟨3, 3, fun p => if p = (0, 0) then 255 else 0⟩

theorem getExtendedEdges_cornerEdge : ∃ r, getExtendedEdges 2 cornerEdge 2 1 = some r ∧
    r.size = cornerEdge.size ∧ ∀ p, Inside cornerEdge.size p → (r.px p ≠ 0 ↔
      ∃ q, Inside cornerEdge.size q ∧ cornerEdge.px q ≠ 0 ∧ (chebyshev p q : ℤ) ≤ 2 - 1) :=
  getExtendedEdges_spec (by decide) (by decide) cornerEdge

end Stage

end TmkDcl.Libdclalgo
