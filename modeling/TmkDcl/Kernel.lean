import Mathlib.Data.List.ProdSigma
import Mathlib.Data.Int.Notation
import Mathlib.Logic.Function.Basic

/-!
# Programs that read and write cells

A kernel reads cells of its inputs and writes cells of its outputs, and never reads what it writes.
So its writes are a list that the inputs determine, and an output cell holds the last value that was
written to it.
-/

namespace TmkDcl

universe u

/-- A program over input cells `ι` with values `κ` and output cells `ο` with values `μ`. `undefined`
is the point where a program has no defined behaviour. -/
inductive Kernel (ι ο κ μ : Type*) (α : Type u) where
  | done (a : α)
  | read (i : ι) (next : κ → Kernel ι ο κ μ α)
  | write (o : ο) (v : μ) (next : Kernel ι ο κ μ α)
  | undefined

namespace Kernel

variable {ι ο κ μ : Type*} {α β : Type u}

protected def bind : Kernel ι ο κ μ α → (α → Kernel ι ο κ μ β) → Kernel ι ο κ μ β
  | .done a, f => f a
  | .read i next, f => .read i fun v => (next v).bind f
  | .write o v next, f => .write o v (next.bind f)
  | .undefined, _ => .undefined

instance : Monad (Kernel ι ο κ μ) where
  pure := .done
  bind := Kernel.bind

/-- The value of an input cell. -/
def get (i : ι) : Kernel ι ο κ μ κ := .read i .done

/-- A store to an output cell. -/
def set (o : ο) (v : μ) : Kernel ι ο κ μ Unit := .write o v (.done ())

/-- What the program returns. -/
def result (cells : ι → κ) : Kernel ι ο κ μ α → Option α
  | .done a => some a
  | .read i next => (next (cells i)).result cells
  | .write _ _ next => next.result cells
  | .undefined => none

/-- The stores, in order. -/
def writes (cells : ι → κ) : Kernel ι ο κ μ α → List (ο × μ)
  | .done _ => []
  | .read i next => (next (cells i)).writes cells
  | .write o v next => (o, v) :: next.writes cells
  | .undefined => []

/-- Whatever its inputs hold, the program is defined, reads cells of `R` only and writes cells of `W`
only. -/
def Within (R : ι → Prop) (W : ο → Prop) : Kernel ι ο κ μ α → Prop
  | .done _ => True
  | .read i next => R i ∧ ∀ v, (next v).Within R W
  | .write o _ next => W o ∧ next.Within R W
  | .undefined => False

/-! ### Composition -/

section Bind

variable (cells : ι → κ) (m : Kernel ι ο κ μ α) (f : α → Kernel ι ο κ μ β)

@[simp] theorem result_pure (a : α) : (pure a : Kernel ι ο κ μ α).result cells = some a := rfl

@[simp] theorem result_get (i : ι) : (get i : Kernel ι ο κ μ κ).result cells = some (cells i) := rfl

@[simp] theorem result_set (o : ο) (v : μ) :
    (set o v : Kernel ι ο κ μ Unit).result cells = some () := rfl

@[simp] theorem writes_pure (a : α) : (pure a : Kernel ι ο κ μ α).writes cells = [] := rfl

@[simp] theorem writes_get (i : ι) : (get i : Kernel ι ο κ μ κ).writes cells = [] := rfl

@[simp] theorem writes_set (o : ο) (v : μ) :
    (set o v : Kernel ι ο κ μ Unit).writes cells = [(o, v)] := rfl

theorem result_bind : (m >>= f).result cells = (m.result cells).bind fun a => (f a).result cells := by
  induction m with
  | done a => rfl
  | read i next ih => exact ih (cells i)
  | write o v next ih => exact ih
  | undefined => rfl

theorem writes_bind : (m >>= f).writes cells =
    m.writes cells ++ ((m.result cells).map fun a => (f a).writes cells).getD [] := by
  induction m with
  | done a => rfl
  | read i next ih => exact ih (cells i)
  | write o v next ih => exact congrArg ((o, v) :: ·) ih
  | undefined => rfl

end Bind

theorem writes_bind_of {cells : ι → κ} {m : Kernel ι ο κ μ α} {f : α → Kernel ι ο κ μ β} {a : α}
    (h : m.result cells = some a) :
    (m >>= f).writes cells = m.writes cells ++ (f a).writes cells := by
  rw [writes_bind, h]
  rfl

/-! ### Bounds -/

section Within

variable {R : ι → Prop} {W : ο → Prop} {m : Kernel ι ο κ μ α} {f : α → Kernel ι ο κ μ β}

@[simp] theorem within_pure (a : α) : (pure a : Kernel ι ο κ μ α).Within R W := trivial

@[simp] theorem within_get {i : ι} : (get i : Kernel ι ο κ μ κ).Within R W ↔ R i :=
  ⟨And.left, fun h => ⟨h, fun _ => trivial⟩⟩

@[simp] theorem within_set {o : ο} {v : μ} :
    (set o v : Kernel ι ο κ μ Unit).Within R W ↔ W o :=
  ⟨And.left, fun h => ⟨h, trivial⟩⟩

theorem Within.bind (hm : m.Within R W) (hf : ∀ a, (f a).Within R W) : (m >>= f).Within R W := by
  induction m with
  | done a => exact hf a
  | read i next ih => exact ⟨hm.1, fun v => ih v (hm.2 v)⟩
  | write o v next ih => exact ⟨hm.1, ih hm.2⟩
  | undefined => exact hm.elim

theorem Within.mono {R' : ι → Prop} {W' : ο → Prop} (hm : m.Within R W) (hR : ∀ i, R i → R' i)
    (hW : ∀ o, W o → W' o) : m.Within R' W' := by
  induction m with
  | done a => trivial
  | read i next ih => exact ⟨hR i hm.1, fun v => ih v (hm.2 v)⟩
  | write o v next ih => exact ⟨hW o hm.1, ih hm.2⟩
  | undefined => exact hm

theorem Within.forM {σ : Type*} {l : List σ} {g : σ → Kernel ι ο κ μ Unit}
    (h : ∀ s ∈ l, (g s).Within R W) : (l.forM g).Within R W := by
  induction l with
  | nil => exact within_pure _
  | cons s l ih =>
    show (g s >>= fun _ => l.forM g).Within R W
    exact (h s List.mem_cons_self).bind fun _ => ih fun s' hs' => h s' (List.mem_cons_of_mem s hs')

theorem Within.mapM {σ : Type*} {l : List σ} {g : σ → Kernel ι ο κ μ α}
    (h : ∀ s ∈ l, (g s).Within R W) : (l.mapM' g).Within R W := by
  induction l with
  | nil => exact within_pure _
  | cons s l ih =>
    rw [List.mapM'_cons]
    refine (h s List.mem_cons_self).bind fun a => ?_
    exact (ih fun s' hs' => h s' (List.mem_cons_of_mem s hs')).bind fun _ => within_pure _

theorem Within.defined (hm : m.Within R W) (cells : ι → κ) : ∃ a, m.result cells = some a := by
  induction m with
  | done a => exact ⟨a, rfl⟩
  | read i next ih => exact ih (cells i) (hm.2 _)
  | write o v next ih => exact ih hm.2
  | undefined => exact hm.elim

theorem Within.defined_unit {m : Kernel ι ο κ μ Unit} (hm : m.Within R W) (cells : ι → κ) :
    m.result cells = some () := by
  obtain ⟨u, hu⟩ := hm.defined cells
  exact hu

theorem Within.writes (hm : m.Within R W) {cells : ι → κ} {w : ο × μ} (hw : w ∈ m.writes cells) :
    W w.1 := by
  induction m with
  | done a => cases hw
  | read j next ih => exact ih (cells j) (hm.2 _) hw
  | write o v next ih =>
    cases hw with
    | head => exact hm.1
    | tail _ hw => exact ih hm.2 hw
  | undefined => cases hw

theorem Within.writes_nil (hm : m.Within R fun _ => False) (cells : ι → κ) : m.writes cells = [] := by
  cases hws : m.writes cells with
  | nil => rfl
  | cons w ws =>
    have hmem : w ∈ m.writes cells := hws ▸ List.mem_cons_self
    exact (hm.writes hmem).elim

/-- A program does the same on inputs that agree where it reads. -/
theorem Within.congr {cells cells' : ι → κ} (hm : m.Within R W) (h : ∀ i, R i → cells i = cells' i) :
    m.result cells = m.result cells' ∧ m.writes cells = m.writes cells' := by
  induction m with
  | done a => exact ⟨rfl, rfl⟩
  | read i next ih =>
    obtain ⟨hresult, hwrites⟩ := ih (cells i) (hm.2 _)
    simp only [Kernel.result, Kernel.writes, ← h i hm.1]
    exact ⟨hresult, hwrites⟩
  | write o v next ih =>
    obtain ⟨hresult, hwrites⟩ := ih hm.2
    exact ⟨hresult, congrArg ((o, v) :: ·) hwrites⟩
  | undefined => exact hm.elim

end Within

/-! ### Loops -/

theorem writes_forM {σ : Type*} {cells : ι → κ} {l : List σ} {g : σ → Kernel ι ο κ μ Unit}
    (h : ∀ s ∈ l, (g s).result cells = some ()) :
    (l.forM g).result cells = some () ∧
      (l.forM g).writes cells = l.flatMap fun s => (g s).writes cells := by
  induction l with
  | nil => exact ⟨rfl, rfl⟩
  | cons s l ih =>
    have hs := h s List.mem_cons_self
    obtain ⟨hresult, hwrites⟩ := ih fun s' hs' => h s' (List.mem_cons_of_mem s hs')
    constructor
    · show (g s >>= fun _ => l.forM g).result cells = _
      rw [result_bind, hs]
      exact hresult
    · show (g s >>= fun _ => l.forM g).writes cells = _
      rw [writes_bind_of hs, hwrites, List.flatMap_cons]

end Kernel

/-! ### The last store to a cell -/

section Writes

variable {ο μ σ : Type*} [DecidableEq ο] {o : ο} {ws ws' : List (ο × μ)}

/-- The last value that is written to a cell. -/
def lastWrite (o : ο) : List (ο × μ) → Option μ
  | [] => none
  | w :: ws => (lastWrite o ws).or (if w.1 = o then some w.2 else none)

/-- The cells after the stores. -/
def applyWrites (cells : ο → μ) (ws : List (ο × μ)) : ο → μ :=
  ws.foldl (fun m w => Function.update m w.1 w.2) cells

theorem applyWrites_apply (cells : ο → μ) (ws : List (ο × μ)) (o : ο) :
    applyWrites cells ws o = (lastWrite o ws).getD (cells o) := by
  induction ws generalizing cells with
  | nil => rfl
  | cons w ws ih =>
    rw [applyWrites, List.foldl_cons]
    refine (ih _).trans ?_
    rw [lastWrite]
    cases lastWrite o ws with
    | some v => rfl
    | none =>
      by_cases h : w.1 = o
      · subst h
        simp
      · simp [h, Function.update_of_ne (Ne.symm h)]

theorem applyWrites_append (cells : ο → μ) :
    applyWrites cells (ws ++ ws') = applyWrites (applyWrites cells ws) ws' := List.foldl_append

theorem lastWrite_append : lastWrite o (ws ++ ws') = (lastWrite o ws').or (lastWrite o ws) := by
  induction ws with
  | nil => simp [lastWrite]
  | cons w ws ih => rw [List.cons_append, lastWrite, ih, lastWrite, Option.or_assoc]

theorem lastWrite_eq_none : lastWrite o ws = none ↔ ∀ w ∈ ws, w.1 ≠ o := by
  induction ws with
  | nil => simp [lastWrite]
  | cons w ws ih => simp [lastWrite, ih, and_comm]

theorem mem_of_lastWrite {v : μ} (h : lastWrite o ws = some v) : (o, v) ∈ ws := by
  induction ws with
  | nil => cases h
  | cons w ws ih =>
    rw [lastWrite] at h
    cases hws : lastWrite o ws with
    | some v' =>
      rw [hws] at h
      cases h
      exact List.mem_cons_of_mem w (ih hws)
    | none =>
      rw [hws, Option.none_or] at h
      obtain ⟨heq, hv⟩ := Option.ite_none_right_eq_some.mp h
      cases hv
      exact heq ▸ List.mem_cons_self

theorem lastWrite_of_forall {v : μ} (hmem : (o, v) ∈ ws) (hall : ∀ v', (o, v') ∈ ws → v' = v) :
    lastWrite o ws = some v := by
  cases h : lastWrite o ws with
  | none => exact absurd rfl (lastWrite_eq_none.mp h _ hmem)
  | some v' => rw [hall v' (mem_of_lastWrite h)]

/-- The last iteration that writes the cell decides its value. -/
theorem lastWrite_flatMap {before : σ → σ → Prop} {l : List σ} {body : σ → List (ο × μ)} {s : σ} {v : μ}
    (hl : l.Pairwise before) (hs : s ∈ l) (hv : lastWrite o (body s) = some v)
    (hlast : ∀ s' ∈ l, before s s' → lastWrite o (body s') = none) :
    lastWrite o (l.flatMap body) = some v := by
  obtain ⟨l₁, l₂, rfl⟩ := List.append_of_mem hs
  -- Only the iterations after `s` could overwrite what it stores.
  have hafter : ∀ s' ∈ l₂, before s s' := by
    intro s' hs'
    rw [List.pairwise_append] at hl
    exact (List.pairwise_cons.mp hl.2.1).1 s' hs'
  have hnone : lastWrite o (l₂.flatMap body) = none := by
    rw [lastWrite_eq_none]
    intro w hw
    obtain ⟨s', hs', hmem⟩ := List.mem_flatMap.mp hw
    have hin : s' ∈ l₁ ++ s :: l₂ := by simp [hs']
    exact lastWrite_eq_none.mp (hlast s' hin (hafter s' hs')) w hmem
  rw [List.flatMap_append, List.flatMap_cons, lastWrite_append, lastWrite_append, hnone,
    Option.none_or, hv]
  rfl

theorem lastWrite_flatMap_none {l : List σ} {body : σ → List (ο × μ)}
    (h : ∀ s ∈ l, lastWrite o (body s) = none) : lastWrite o (l.flatMap body) = none := by
  rw [lastWrite_eq_none]
  intro w hw
  obtain ⟨s, hs, hmem⟩ := List.mem_flatMap.mp hw
  exact lastWrite_eq_none.mp (h s hs) w hmem

end Writes

/-! ### Counted loops -/

/-- The values of the counter of `for (int i = start; i < stop; i += step)`. -/
def countUp (start stop step : ℤ) : List ℤ :=
  (List.range ((stop - start + step - 1) / step).toNat).map fun k : ℕ => start + step * (k : ℤ)

theorem mem_countUp {start stop step i : ℤ} (hstep : 0 < step) :
    i ∈ countUp start stop step ↔ start ≤ i ∧ i < stop ∧ step ∣ i - start := by
  have hcount : ∀ k : ℕ, k < ((stop - start + step - 1) / step).toNat ↔ start + step * k < stop := by
    intro k
    rw [Int.lt_toNat, Int.lt_iff_add_one_le, Int.le_ediv_iff_mul_le hstep]
    have hmul : ((k : ℤ) + 1) * step = step * k + step := by rw [Int.add_mul, Int.one_mul, Int.mul_comm]
    rw [hmul]
    omega
  simp only [countUp, List.mem_map, List.mem_range, hcount]
  constructor
  · intro h
    obtain ⟨k, hk, rfl⟩ := h
    have hpos : 0 ≤ step * (k : ℤ) := Int.mul_nonneg (Int.le_of_lt hstep) (Int.natCast_nonneg k)
    exact ⟨by omega, hk, ⟨k, by omega⟩⟩
  · intro h
    obtain ⟨hstart, hstop, k, hk⟩ := h
    have hk0 : 0 ≤ k := by
      by_contra hneg
      have hmul : step * k < 0 := Int.mul_neg_of_pos_of_neg hstep (Int.not_le.mp hneg)
      omega
    refine ⟨k.toNat, ?_, ?_⟩
    · rw [Int.toNat_of_nonneg hk0]
      omega
    · rw [Int.toNat_of_nonneg hk0]
      omega

theorem countUp_sorted {start stop step : ℤ} (hstep : 0 < step) :
    (countUp start stop step).Pairwise (· < ·) := by
  rw [countUp, List.pairwise_map]
  refine List.pairwise_lt_range.imp ?_
  intro a b hab
  have hmul : step * (a : ℤ) < step * (b : ℤ) := Int.mul_lt_mul_of_pos_left (by omega) hstep
  omega

/-- The pairs that two nested loops run through, the row first. -/
def raster (rows columns : List ℤ) : List (ℤ × ℤ) := rows.product columns

theorem mem_raster {rows columns : List ℤ} {p : ℤ × ℤ} :
    p ∈ raster rows columns ↔ p.1 ∈ rows ∧ p.2 ∈ columns := List.mem_product

theorem raster_sorted {rows columns : List ℤ} (hrows : rows.Pairwise (· < ·))
    (hcolumns : columns.Pairwise (· < ·)) :
    (raster rows columns).Pairwise (Prod.Lex (· < ·) (· < ·)) := by
  rw [raster, List.product, List.pairwise_flatMap]
  constructor
  · intro y _
    rw [List.pairwise_map]
    exact hcolumns.imp (Prod.Lex.right y)
  · refine hrows.imp ?_
    intro y y' hy p hp q hq
    obtain ⟨x, -, rfl⟩ := List.mem_map.mp hp
    obtain ⟨x', -, rfl⟩ := List.mem_map.mp hq
    exact Prod.Lex.left x x' hy

namespace Kernel

variable {ι ο κ μ : Type*} {cells : ι → κ} {rows columns : List ℤ}
  {g : ℤ → ℤ → Kernel ι ο κ μ Unit}

/-- Two nested loops. -/
def forRaster (rows columns : List ℤ) (g : ℤ → ℤ → Kernel ι ο κ μ Unit) : Kernel ι ο κ μ Unit :=
  (raster rows columns).forM fun p => g p.1 p.2

theorem writes_forRaster (h : ∀ y ∈ rows, ∀ x ∈ columns, (g y x).result cells = some ()) :
    (forRaster rows columns g).result cells = some () ∧
      (forRaster rows columns g).writes cells =
        (raster rows columns).flatMap fun p => (g p.1 p.2).writes cells := by
  refine writes_forM fun p hp => ?_
  rw [mem_raster] at hp
  exact h p.1 hp.1 p.2 hp.2

theorem mem_writes_forRaster (h : ∀ y ∈ rows, ∀ x ∈ columns, (g y x).result cells = some ())
    {w : ο × μ} : w ∈ (forRaster rows columns g).writes cells ↔
      ∃ y ∈ rows, ∃ x ∈ columns, w ∈ (g y x).writes cells := by
  simp only [(writes_forRaster h).2, List.mem_flatMap, mem_raster, Prod.exists, and_assoc]
  constructor
  · intro hw
    obtain ⟨y, x, hy, hx, hw⟩ := hw
    exact ⟨y, hy, x, hx, hw⟩
  · intro hw
    obtain ⟨y, hy, x, hx, hw⟩ := hw
    exact ⟨y, x, hy, hx, hw⟩

theorem within_forRaster {R : ι → Prop} {W : ο → Prop}
    (h : ∀ y ∈ rows, ∀ x ∈ columns, (g y x).Within R W) : (forRaster rows columns g).Within R W := by
  refine Within.forM fun p hp => ?_
  rw [mem_raster] at hp
  exact h p.1 hp.1 p.2 hp.2

section Own

variable {R : ι → Prop} (owner : ο → ℤ × ℤ)

/-- Where every iteration writes only cells that belong to it, the stores to a cell are those of the
iteration that it belongs to. -/
theorem mem_writes_forRaster_own {w : ο × μ}
    (hg : ∀ y ∈ rows, ∀ x ∈ columns, (g y x).Within R fun o => owner o = (y, x))
    (ho : (owner w.1).1 ∈ rows ∧ (owner w.1).2 ∈ columns) :
    w ∈ (forRaster rows columns g).writes cells ↔
      w ∈ (g (owner w.1).1 (owner w.1).2).writes cells := by
  rw [mem_writes_forRaster fun y hy x hx => (hg y hy x hx).defined_unit cells]
  constructor
  · intro hw
    obtain ⟨y, hy, x, hx, hw⟩ := hw
    have hown : owner w.1 = (y, x) := (hg y hy x hx).writes hw
    rw [hown]
    exact hw
  · intro hw
    exact ⟨_, ho.1, _, ho.2, hw⟩

theorem lastWrite_forRaster_own [DecidableEq ο] {o : ο}
    (hg : ∀ y ∈ rows, ∀ x ∈ columns, (g y x).Within R fun o => owner o = (y, x))
    (hrows : rows.Pairwise (· < ·)) (hcolumns : columns.Pairwise (· < ·))
    (ho : (owner o).1 ∈ rows ∧ (owner o).2 ∈ columns) :
    lastWrite o ((forRaster rows columns g).writes cells) =
      lastWrite o ((g (owner o).1 (owner o).2).writes cells) := by
  have hother : ∀ p ∈ raster rows columns, p ≠ owner o →
      lastWrite o ((g p.1 p.2).writes cells) = none := by
    intro p hp hne
    rw [mem_raster] at hp
    rw [lastWrite_eq_none]
    intro w hw heq
    exact hne (heq ▸ ((hg p.1 hp.1 p.2 hp.2).writes hw).symm)
  rw [(writes_forRaster fun y hy x hx => (hg y hy x hx).defined_unit cells).2]
  cases hlast : lastWrite o ((g (owner o).1 (owner o).2).writes cells) with
  | none =>
    refine lastWrite_flatMap_none fun p hp => ?_
    by_cases hp' : p = owner o
    · rw [hp', hlast]
    · exact hother p hp hp'
  | some v =>
    refine lastWrite_flatMap (raster_sorted hrows hcolumns) (mem_raster.mpr ho) hlast ?_
    intro p hp hlater
    refine hother p hp fun hp' => ?_
    rw [hp', Prod.lex_def] at hlater
    omega

end Own

end Kernel

end TmkDcl
