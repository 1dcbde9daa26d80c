import Mathlib.Algebra.Order.Ring.Rat
import Mathlib.Data.List.GetD
import Mathlib.Order.Lattice
import Mathlib.Tactic.FieldSimp
import Mathlib.Tactic.Linarith
import Mathlib.Tactic.Ring

/-!
# Interpolation in a table (libdclalgo, interp1.cpp)

`Interp1Engine` stores the line of each segment of the table, and the last one twice. A query takes the
segment in front of the first larger point, and the segment before that when the larger point is the
nearer one. The arithmetic is exact.
-/

namespace TmkDcl.Libdclalgo

structure Interp1Engine where
  x : List ℚ
  y : List ℚ
  dx : List ℚ
  dy : List ℚ
  slope : List ℚ
  intercept : List ℚ
  deriving DecidableEq

/-- `v[i]` with an `int`. -/
def element (v : List ℚ) (i : ℤ) : Option ℚ := if 0 ≤ i then v[i.toNat]? else none

/-- A round of the loop of the constructor (`interp1.cpp:15-30`). -/
def Interp1Engine.push (e : Interp1Engine) (i : ℕ) : Option Interp1Engine :=
  if i < e.x.length - 1 then do
    let dx := e.dx ++ [(← e.x[i + 1]?) - (← e.x[i]?)]
    let dy := e.dy ++ [(← e.y[i + 1]?) - (← e.y[i]?)]
    let slope := e.slope ++ [(← dy[i]?) / (← dx[i]?)]
    let intercept := e.intercept ++ [(← e.y[i]?) - (← e.x[i]?) * (← slope[i]?)]
    return { e with dx, dy, slope, intercept }
  else do
    let dx := e.dx ++ [← e.dx[i - 1]?]
    let dy := e.dy ++ [← e.dy[i - 1]?]
    let slope := e.slope ++ [← e.slope[i - 1]?]
    let intercept := e.intercept ++ [← e.intercept[i - 1]?]
    return { e with dx, dy, slope, intercept }

def interp1Engine (x y : List ℚ) : Option Interp1Engine :=
  (List.range x.length).foldlM Interp1Engine.push ⟨x, y, [], [], [], []⟩

/-- `std::upper_bound`, as a place in the table. -/
def upperBound (x : List ℚ) (newX : ℚ) : ℕ := x.findIdx (newX < ·)

/-- `operator()` (`interp1.cpp:33-39`); the iterator is moved after `*bound` has been read. -/
def Interp1Engine.eval (e : Interp1Engine) (newX : ℚ) : Option ℚ := do
  let bound := upperBound e.x newX
  let idx : ℤ := bound - 1
  let upper ← e.x[bound]?
  let lower ← element e.x (bound - 1)
  let idx := if |upper - newX| < |lower - newX| then idx - 1 else idx
  return (← element e.slope idx) * newX + (← element e.intercept idx)

def interp1 (x y x_new : List ℚ) : Option (List ℚ) := do
  let engine ← interp1Engine x y
  x_new.mapM engine.eval

/-! ### Tables -/

/-- A table with at least one segment. -/
structure Table where
  x : List ℚ
  y : List ℚ
  increasing : x.Pairwise (· < ·)
  two_le : 2 ≤ x.length
  length_eq : y.length = x.length

namespace Table

variable (t : Table) {q v : ℚ} {i j k : ℕ}

def X (i : ℕ) : ℚ := t.x.getD i 0

def Y (i : ℕ) : ℚ := t.y.getD i 0

/-- The slope of the segment from point `i` to the next one. -/
def slope (i : ℕ) : ℚ := (t.Y (i + 1) - t.Y i) / (t.X (i + 1) - t.X i)

/-- The straight line through point `i` and the next one. -/
def line (i : ℕ) (q : ℚ) : ℚ := t.Y i + t.slope i * (q - t.X i)

def front : ℚ := t.X 0

def back : ℚ := t.X (t.x.length - 1)

/-- The points `i` and `i + 1` enclose the query. -/
def Encloses (i : ℕ) (q : ℚ) : Prop := i + 1 < t.x.length ∧ t.X i ≤ q ∧ q ≤ t.X (i + 1)

/-- The value is that of every line through two points of the table that enclose the query. -/
def Interpolated (q v : ℚ) : Prop := ∀ i, t.Encloses i q → v = t.line i q

/-- The query is in front of the last point, and not nearer to the larger point of its segment, unless
the segment before has the same slope. -/
def Served (q : ℚ) : Prop :=
  q < t.back ∧ ∀ i, i + 1 < t.x.length → t.X i ≤ q → q < t.X (i + 1) →
    q - t.X i ≤ t.X (i + 1) - q ∨ 0 < i ∧ t.slope (i - 1) = t.slope i

theorem get_x (h : i < t.x.length) : t.x[i]? = some (t.X i) := by
  rw [X, List.getD_eq_getElem _ _ h, List.getElem?_eq_getElem h]

theorem get_y (h : i < t.x.length) : t.y[i]? = some (t.Y i) := by
  rw [← t.length_eq] at h
  rw [Y, List.getD_eq_getElem _ _ h, List.getElem?_eq_getElem h]

theorem X_lt (hij : i < j) (hj : j < t.x.length) : t.X i < t.X j := by
  rw [X, X, List.getD_eq_getElem _ _ (hij.trans hj), List.getD_eq_getElem _ _ hj]
  exact List.pairwise_iff_getElem.mp t.increasing i j (hij.trans hj) hj hij

theorem X_le (hij : i ≤ j) (hj : j < t.x.length) : t.X i ≤ t.X j := by
  rcases Nat.eq_or_lt_of_le hij with rfl | hlt
  · exact le_refl _
  · exact (t.X_lt hlt hj).le

/-- A query in front of the last point lies in a segment, and `upper_bound` gives its larger point. -/
theorem exists_segment (hfront : t.front ≤ q) (hback : q < t.back) :
    ∃ i, i + 1 < t.x.length ∧ t.X i ≤ q ∧ q < t.X (i + 1) ∧ upperBound t.x q = i + 1 := by
  have htwo := t.two_le
  have hlast : t.x.length - 1 < t.x.length := by omega
  have hlt : upperBound t.x q < t.x.length := by
    refine List.findIdx_lt_length_of_exists ⟨t.back, ?_, decide_eq_true hback⟩
    exact List.mem_of_getElem? (t.get_x hlast)
  obtain ⟨hat, hbefore⟩ := (List.findIdx_eq (p := (q < ·)) hlt).mp rfl
  have hupper : q < t.X (upperBound t.x q) := by
    rw [X, List.getD_eq_getElem _ _ hlt]
    exact of_decide_eq_true hat
  have hpos : upperBound t.x q ≠ 0 := by
    intro hzero
    rw [hzero] at hupper
    exact absurd hupper (not_lt.mpr hfront)
  obtain ⟨i, hi⟩ := Nat.exists_eq_succ_of_ne_zero hpos
  have hlower := hbefore i (by omega)
  rw [hi] at hupper
  refine ⟨i, by omega, ?_, hupper, hi⟩
  rw [X, List.getD_eq_getElem _ _ (by omega : i < t.x.length)]
  exact not_lt.mp (of_decide_eq_false hlower)

theorem upperBound_back : upperBound t.x t.back = t.x.length := by
  have htwo := t.two_le
  refine List.findIdx_eq_length.mpr fun a ha => decide_eq_false (not_lt.mpr ?_)
  obtain ⟨i, hi, rfl⟩ := List.getElem_of_mem ha
  have hle := t.X_le (by omega : i ≤ t.x.length - 1) (by omega)
  rwa [X, List.getD_eq_getElem _ _ hi] at hle

/-- The segment whose line the constructor stores at a place. -/
def stored (i : ℕ) : ℕ := min i (t.x.length - 2)

/-- What the constructor has stored after some rounds. -/
def engine (k : ℕ) : Interp1Engine where
  x := t.x
  y := t.y
  dx := (List.range k).map fun i => t.X (t.stored i + 1) - t.X (t.stored i)
  dy := (List.range k).map fun i => t.Y (t.stored i + 1) - t.Y (t.stored i)
  slope := (List.range k).map fun i => t.slope (t.stored i)
  intercept := (List.range k).map fun i =>
    t.Y (t.stored i) - t.X (t.stored i) * t.slope (t.stored i)

theorem map_range_get (f : ℕ → ℚ) (h : i < k) : ((List.range k).map f)[i]? = some (f i) := by
  rw [List.getElem?_map, List.getElem?_range h, Option.map_some]

theorem map_range_concat_get (f : ℕ → ℚ) : ((List.range k).map f ++ [v])[k]? = some v := by
  rw [List.getElem?_append_right (by simp)]
  simp

theorem push_engine (hk : k < t.x.length) : (t.engine k).push k = some (t.engine (k + 1)) := by
  have htwo := t.two_le
  have hx : (t.engine k).x = t.x := rfl
  have hy : (t.engine k).y = t.y := rfl
  rw [Interp1Engine.push, hx, hy]
  by_cases hlast : k < t.x.length - 1
  · have hstored : t.stored k = k := by
      rw [stored]
      omega
    rw [if_pos hlast, t.get_x (by omega : k + 1 < t.x.length), t.get_x hk,
      t.get_y (by omega : k + 1 < t.x.length), t.get_y hk]
    simp only [Option.pure_def, Option.bind_eq_bind, Option.bind_some, engine, map_range_concat_get,
      List.range_succ, List.map_append, List.map_cons, List.map_nil, hstored, slope]
  · have hprev : k - 1 < k := by omega
    have hstored : t.stored (k - 1) = t.stored k := by
      rw [stored, stored]
      omega
    rw [if_neg hlast]
    simp only [Option.pure_def, Option.bind_eq_bind, Option.bind_some, engine, map_range_get _ hprev,
      List.range_succ, List.map_append, List.map_cons, List.map_nil, hstored]

theorem interp1Engine_eq : interp1Engine t.x t.y = some (t.engine t.x.length) := by
  have hrun : ∀ k ≤ t.x.length,
      (List.range k).foldlM Interp1Engine.push (t.engine 0) = some (t.engine k) := by
    intro k hk
    induction k with
    | zero => rfl
    | succ k ih =>
      rw [List.range_succ, List.foldlM_append, ih (by omega)]
      simp only [Option.bind_eq_bind, Option.bind_some, List.foldlM_cons, List.foldlM_nil,
        t.push_engine hk, Option.pure_def]
  exact hrun _ (le_refl _)

/-! ### A query -/

theorem element_engine {f : ℕ → ℚ} {idx : ℤ} (hpos : 0 ≤ idx) (hlt : idx < t.x.length) :
    element ((List.range t.x.length).map f) idx = some (f idx.toNat) := by
  rw [element, if_pos hpos]
  exact map_range_get f (by omega)

theorem element_neg (l : List ℚ) {idx : ℤ} (h : idx < 0) : element l idx = none :=
  if_neg (by omega)

/-- The index of the line that a query in segment `i` takes. -/
def chosen (i : ℕ) (q : ℚ) : ℤ := if t.X (i + 1) - q < q - t.X i then (i : ℤ) - 1 else i

theorem eval_segment (hi : i + 1 < t.x.length) (hle : t.X i ≤ q) (hlt : q < t.X (i + 1))
    (hbound : upperBound t.x q = i + 1) : (t.engine t.x.length).eval q =
      if 0 ≤ t.chosen i q then some (t.line (t.chosen i q).toNat q) else none := by
  have hx : (t.engine t.x.length).x = t.x := rfl
  have hcast : ((i + 1 : ℕ) : ℤ) - 1 = i := by omega
  have hlower : element t.x i = some (t.X i) := by
    rw [element, if_pos (by omega), Int.toNat_natCast, t.get_x (by omega)]
  have hup : |t.X (i + 1) - q| = t.X (i + 1) - q := abs_of_nonneg (by linarith)
  have hdown : |t.X i - q| = q - t.X i := by
    rw [abs_of_nonpos (by linarith)]
    ring
  rw [Interp1Engine.eval, hx, hbound, t.get_x hi, hcast, hlower]
  simp only [Option.pure_def, Option.bind_eq_bind, Option.bind_some, hup, hdown]
  change ((element (t.engine t.x.length).slope (t.chosen i q)).bind fun a =>
    (element (t.engine t.x.length).intercept (t.chosen i q)).bind fun b => some (a * q + b)) = _
  have hchosen : t.chosen i q ≤ i := by
    rw [chosen]
    split <;> omega
  by_cases hneg : 0 ≤ t.chosen i q
  · have hstored : t.stored (t.chosen i q).toNat = (t.chosen i q).toNat := by
      rw [stored]
      omega
    rw [if_pos hneg]
    simp only [engine]
    rw [t.element_engine hneg (by omega), t.element_engine hneg (by omega), Option.bind_some,
      Option.bind_some, hstored, line]
    congr 1
    ring
  · rw [if_neg hneg, element_neg _ (by omega), Option.bind_none]

theorem eval_back : (t.engine t.x.length).eval t.back = none := by
  have hx : (t.engine t.x.length).x = t.x := rfl
  rw [Interp1Engine.eval, hx, t.upperBound_back, List.getElem?_eq_none (le_refl _)]
  rfl

theorem line_prev (hpos : 0 < i) (hi : i + 1 < t.x.length) :
    t.line (i - 1) q = t.Y i + t.slope (i - 1) * (q - t.X i) := by
  have hlt := t.X_lt (Nat.sub_lt hpos Nat.one_pos) (by omega : i < t.x.length)
  have hne : t.X i - t.X (i - 1) ≠ 0 := by linarith
  have hsucc : i - 1 + 1 = i := by omega
  rw [line, slope, hsucc]
  field_simp
  ring

/-- On a segment, the lines of all segments that enclose the query have one value. -/
theorem line_eq (hi : i + 1 < t.x.length) (hle : t.X i ≤ q) (hlt : q < t.X (i + 1))
    (hj : t.Encloses j q) : t.line j q = t.line i q := by
  obtain ⟨hjlen, hjle, hjge⟩ := hj
  rcases Nat.lt_trichotomy j i with hlti | rfl | hgt
  · have hxle := t.X_le (by omega : j + 1 ≤ i) (by omega)
    have hxq : t.X i = q := le_antisymm hle (hjge.trans hxle)
    have hadj : j + 1 = i := by
      by_contra hne
      have := t.X_lt (by omega : j + 1 < i) (by omega)
      linarith
    have hprev := t.line_prev (q := q) (by omega : 0 < i) hi
    rw [show i - 1 = j by omega] at hprev
    rw [hprev, line, hxq, sub_self, mul_zero, mul_zero]
  · rfl
  · have hxle := t.X_le (by omega : i + 1 ≤ j) (by omega)
    linarith

theorem Interpolated.point (hv : t.Interpolated (t.X i) v) (hi : i < t.x.length) : v = t.Y i := by
  have htwo := t.two_le
  by_cases hlast : i + 1 < t.x.length
  · have hline := hv i ⟨hlast, le_refl _, (t.X_lt (Nat.lt_succ_self i) hlast).le⟩
    rw [hline, line, sub_self, mul_zero, add_zero]
  · have hpos : 0 < i := by omega
    have hsucc : i - 1 + 1 = i := by omega
    have hlt := t.X_lt (Nat.sub_lt hpos Nat.one_pos) hi
    have hline := hv (i - 1) ⟨by omega, hlt.le, by rw [hsucc]⟩
    have hne : t.X i - t.X (i - 1) ≠ 0 := by linarith
    rw [hline, line, slope, hsucc]
    field_simp
    ring

theorem segment_unique {j : ℕ} (hi : i + 1 < t.x.length) (hle : t.X i ≤ q) (hlt : q < t.X (i + 1))
    (hj : j + 1 < t.x.length) (hjle : t.X j ≤ q) (hjlt : q < t.X (j + 1)) : j = i := by
  rcases Nat.lt_trichotomy j i with hlti | rfl | hgt
  · have hxle := t.X_le (by omega : j + 1 ≤ i) (by omega)
    linarith
  · rfl
  · have hxle := t.X_le (by omega : i + 1 ≤ j) (by omega)
    linarith

theorem served_segment (hi : i + 1 < t.x.length) (hle : t.X i ≤ q) (hlt : q < t.X (i + 1))
    (hback : q < t.back) : t.Served q ↔
      q - t.X i ≤ t.X (i + 1) - q ∨ 0 < i ∧ t.slope (i - 1) = t.slope i := by
  constructor
  · intro hs
    exact hs.2 i hi hle hlt
  · intro hs
    refine ⟨hback, fun j hj hjle hjlt => ?_⟩
    obtain rfl := t.segment_unique hi hle hlt hj hjle hjlt
    exact hs

theorem interpolated_segment {v : ℚ} (hi : i + 1 < t.x.length) (hle : t.X i ≤ q)
    (hlt : q < t.X (i + 1)) : t.Interpolated q v ↔ v = t.line i q := by
  constructor
  · intro hv
    exact hv i ⟨hi, hle, hlt.le⟩
  · intro hv j hj
    rw [hv, t.line_eq hi hle hlt hj]

/-- The segment before gives the same value only if it has the same slope. -/
theorem line_prev_eq (hpos : 0 < i) (hi : i + 1 < t.x.length) (hlt : t.X i < q) :
    t.line (i - 1) q = t.line i q ↔ t.slope (i - 1) = t.slope i := by
  have hne : q - t.X i ≠ 0 := by linarith
  rw [t.line_prev hpos hi, line, add_right_inj]
  exact mul_left_inj' hne

/-- The value of a query is right exactly where the query is served. -/
theorem eval_interpolated (hfront : t.front ≤ q) (hback : q ≤ t.back) :
    (∃ v, (t.engine t.x.length).eval q = some v ∧ t.Interpolated q v) ↔ t.Served q := by
  rcases lt_or_eq_of_le hback with hlt | rfl
  · obtain ⟨i, hi, hle, hupper, hbound⟩ := t.exists_segment hfront hlt
    rw [t.eval_segment hi hle hupper hbound, chosen, t.served_segment hi hle hupper hlt]
    by_cases hnear : t.X (i + 1) - q < q - t.X i
    · rw [if_pos hnear]
      have hxlt : t.X i < q := by linarith
      rcases Nat.eq_zero_or_pos i with rfl | hpos
      · rw [if_neg (by omega)]
        constructor
        · rintro ⟨v, hv, -⟩
          cases hv
        · rintro (hs | ⟨hs, -⟩)
          · linarith
          · exact absurd hs (Nat.lt_irrefl 0)
      · rw [if_pos (by omega)]
        have hidx : ((i : ℤ) - 1).toNat = i - 1 := by omega
        rw [hidx]
        have hvalue := t.line_prev_eq hpos hi hxlt
        constructor
        · rintro ⟨v, hv, hin⟩
          cases hv
          exact Or.inr ⟨hpos, hvalue.mp ((t.interpolated_segment hi hle hupper).mp hin)⟩
        · rintro (hs | ⟨-, hs⟩)
          · linarith
          · exact ⟨_, rfl, (t.interpolated_segment hi hle hupper).mpr (hvalue.mpr hs)⟩
    · rw [if_neg hnear, if_pos (by omega), Int.toNat_natCast]
      constructor
      · intro _
        exact Or.inl (not_lt.mp hnear)
      · intro _
        exact ⟨_, rfl, (t.interpolated_segment hi hle hupper).mpr rfl⟩
  · rw [t.eval_back]
    constructor
    · rintro ⟨v, hv, -⟩
      cases hv
    · intro hs
      exact absurd hs.1 (lt_irrefl _)

/-! ### All queries -/

theorem mapM_forall₂ {α β : Type} {f : α → Option β} {R : α → β → Prop} (l : List α) :
    (∃ bs, l.mapM f = some bs ∧ List.Forall₂ R l bs) ↔ ∀ a ∈ l, ∃ b, f a = some b ∧ R a b := by
  induction l with
  | nil =>
    constructor
    · intro _ a ha
      cases ha
    · intro _
      exact ⟨[], rfl, List.Forall₂.nil⟩
  | cons a l ih =>
    rw [List.mapM_cons, List.forall_mem_cons, ← ih]
    constructor
    · rintro ⟨bs, hbs, hall⟩
      obtain ⟨b, hb, hrest⟩ := Option.bind_eq_some_iff.mp hbs
      obtain ⟨rest, hr, heq⟩ := Option.bind_eq_some_iff.mp hrest
      cases heq
      obtain ⟨hhead, htail⟩ := List.forall₂_cons.mp hall
      exact ⟨⟨b, hb, hhead⟩, rest, hr, htail⟩
    · rintro ⟨⟨b, hb, hhead⟩, rest, hr, htail⟩
      rw [hb, hr]
      exact ⟨b :: rest, rfl, List.Forall₂.cons hhead htail⟩

/-- `interp1` interpolates the queries exactly where it serves all of them. -/
theorem interp1_iff {x_new : List ℚ} (hin : ∀ q ∈ x_new, t.front ≤ q ∧ q ≤ t.back) :
    (∃ newY, interp1 t.x t.y x_new = some newY ∧ List.Forall₂ t.Interpolated x_new newY) ↔
      ∀ q ∈ x_new, t.Served q := by
  have hrun : interp1 t.x t.y x_new = x_new.mapM (t.engine t.x.length).eval := by
    rw [interp1, t.interp1Engine_eq]
    rfl
  rw [hrun, mapM_forall₂]
  refine forall₂_congr fun q hq => ?_
  exact t.eval_interpolated (hin q hq).1 (hin q hq).2

/-- A horizontal segment, then one that rises. -/
def kink : Table where
  x := [0, 1, 2]
  y := [0, 0, 1]
  increasing := by decide
  two_le := by decide
  length_eq := rfl

/-- A quarter of each segment is interpolated. -/
theorem interp1_kink : ∃ newY, interp1 kink.x kink.y [1 / 4, 5 / 4] = some newY ∧
    List.Forall₂ kink.Interpolated [1 / 4, 5 / 4] newY := by
  refine (kink.interp1_iff ?_).mpr ?_
  · decide +kernel
  · have hlen : kink.x.length = 3 := rfl
    intro q hq
    refine ⟨?_, fun i hi hle hlt => Or.inl ?_⟩
    · revert q
      decide +kernel
    · have hcases : i = 0 ∨ i = 1 := by omega
      rcases hcases with rfl | rfl
      · revert q
        decide +kernel
      · revert q
        decide +kernel

/-- Three quarters of the second segment get the line of the first. -/
theorem not_interp1_kink : interp1 kink.x kink.y [7 / 4] = some [0] ∧ ¬ ∀ (t : Table) (q : ℚ),
    t.front ≤ q → q ≤ t.back → ∃ v, interp1 t.x t.y [q] = some [v] ∧ t.Interpolated q v := by
  have hrun : interp1 kink.x kink.y [7 / 4] = some [0] := by decide +kernel
  refine ⟨hrun, fun hall => ?_⟩
  obtain ⟨v, hv, hin⟩ := hall kink (7 / 4) (by decide +kernel) (by decide +kernel)
  cases hrun.symm.trans hv
  have hline := hin 1 ⟨by decide, by decide +kernel, by decide +kernel⟩
  exact absurd hline (by decide +kernel)

end Table

end TmkDcl.Libdclalgo
